import Mathlib.Data.List.Induction
import RadosNkv.Worker.ResultCache
import RadosNkv.Worker.RunModule

/-! Whether a result from the result cache can be told from a recomputation. -/

namespace RadosNkv.Worker

open List

def outcomeOf (value : Bytes) (outLen : Nat) : RunResult :=
  ⟨fitStatus value.length outLen, satU32 value.length, value.take outLen⟩

/-- The room decides only how much of one result is delivered. -/
def Deterministic (run : Nat → RunResult) : Prop :=
  (∃ value, ∀ outLen, run outLen = outcomeOf value outLen) ∨
    ∃ status : IoStatus, ¬ status.HasResult ∧ ∀ outLen, run outLen = .only status

variable (sha256 : Bytes → Digest) (run : ResultReq → Nat → RunResult)

def resultProbe (c : ResultCache) (req : ResultReq) (outLen : Nat) (digests : Bool) : ResultCache × Option RunResult :=
  match resultKey sha256 digests req with
  | none => (c, none)
  | some key => resultLookup c key outLen

def resultConsume (c : ResultCache) (req : ResultReq) (outLen : Nat) (digests : Bool) (alloc : ResultAlloc) :
    ResultCache × RunResult :=
  match resultKey sha256 digests req with
  | none => (c, run req outLen)
  | some key =>
    match resultLookup c key outLen with
    | (c, some r) => (c, r)
    | (c, none) => (resultInsert alloc c key (run req outLen), run req outLen)

inductive ResultEvent where
  | consume (req : ResultReq) (outLen : Nat) (digests : Bool) (alloc : ResultAlloc)
  | probe (req : ResultReq) (outLen : Nat) (digests : Bool)
  | complete (req : ResultReq) (outLen : Nat) (alloc : ResultAlloc)
  | reset (knobs : ResultKnobs)

def ResultEvent.room : ResultEvent → Option (ResultReq × Nat)
  | .consume req outLen _ _ => some (req, outLen)
  | .probe _ _ _ => none
  | .complete req outLen _ => some (req, outLen)
  | .reset _ => none

def resultStep (c : ResultCache) : ResultEvent → ResultCache
  | .consume req outLen digests alloc => (resultConsume sha256 run c req outLen digests alloc).1
  | .probe req outLen digests => (resultProbe sha256 c req outLen digests).1
  | .complete req outLen alloc => resultInsert alloc c (sha256 (req.stream sha256)) (run req outLen)
  | .reset knobs => .reset knobs

def resultAfter (knobs : ResultKnobs) (evs : List ResultEvent) : ResultCache :=
  Machine.run (resultStep sha256 run) (.reset knobs) evs

section Origin

variable {sha256 run} {c : ResultCache}

lemma resultLookup_some (h : nkvxResultLookupLocked c key = some e) : e ∈ c.entries ∧ e.key = key := by
  have hk := find?_some h
  exact ⟨mem_of_find?_eq_some h, by simpa using hk⟩

lemma mem_touch (he' : e' ∈ c.entries) (he : e ∈ (c.touch e').entries) : e ∈ c.entries := by
  rcases mem_append.mp he with hold | hl
  · exact mem_of_mem_erase hold
  · exact mem_singleton.mp hl ▸ he'

lemma mem_resultEvict (hl : c.entries = l) (he : e ∈ (resultEvict l c).entries) :
    e ∈ c.entries := by
  induction l generalizing c with
  | nil => exact he
  | cons victim rest ih =>
    unfold resultEvict at he
    split at he
    · have hr := ih rfl he
      exact hl ▸ mem_cons_of_mem _ hr
    · exact he

lemma mem_resultLookup (he : e ∈ (resultLookup c key outLen).1.entries) : e ∈ c.entries := by
  revert he
  fun_cases resultLookup
  case case3 e' hl => exact mem_touch (resultLookup_some hl).1
  all_goals exact id

lemma mem_resultInsert (he : e ∈ (resultInsert alloc c key r).entries) :
    e ∈ c.entries ∨ r.status.HasResult ∧ e = ⟨key, r.status, r.resultLen, r.out⟩ := by
  revert he
  fun_cases resultInsert
  case case3 e' hl => exact fun he => .inl (mem_touch (resultLookup_some hl).1 he)
  case case6 hs _ _ _ _ c' =>
    intro he
    rcases mem_append.mp (mem_resultEvict rfl he) with hold | hn
    · exact .inl hold
    · exact .inr ⟨not_not.mp hs, mem_singleton.mp hn⟩
  all_goals exact .inl

def entryOf (sha256 : Bytes → Digest) (run : ResultReq → Nat → RunResult) (req : ResultReq) (outLen : Nat) :
    ResultEntry :=
  ⟨sha256 (req.stream sha256), (run req outLen).status, (run req outLen).resultLen, (run req outLen).out⟩

lemma mem_resultStep (he : e ∈ (resultStep sha256 run c ev).entries) :
    e ∈ c.entries ∨ ∃ req outLen, ev.room = some (req, outLen) ∧ (run req outLen).status.HasResult ∧
      e = entryOf sha256 run req outLen := by
  cases ev with
  | consume req outLen digests alloc =>
    revert he
    simp only [resultStep]
    fun_cases resultConsume
    case case1 => exact .inl
    case case2 key _ c' r hl =>
      intro he
      have hm : e ∈ (resultLookup c key outLen).1.entries := by rwa [hl]
      exact .inl (mem_resultLookup hm)
    case case3 key hk c' hl =>
      intro he
      rcases mem_resultInsert he with hold | ⟨hs, hn⟩
      · have hm : e ∈ (resultLookup c key outLen).1.entries := by rwa [hl]
        exact .inl (mem_resultLookup hm)
      unfold resultKey at hk
      split at hk
      · cases hk
        exact .inr ⟨req, outLen, rfl, hs, hn⟩
      · cases hk
  | probe req outLen digests =>
    revert he
    simp only [resultStep]
    fun_cases resultProbe
    case case1 => exact .inl
    case case2 => exact fun he => .inl (mem_resultLookup he)
  | complete req outLen alloc =>
    rcases mem_resultInsert he with hold | ⟨hs, hn⟩
    · exact .inl hold
    · exact .inr ⟨req, outLen, rfl, hs, hn⟩
  | reset knobs => cases he

lemma resultAfter_origin (knobs : ResultKnobs) (evs : List ResultEvent)
    (he : e ∈ (resultAfter sha256 run knobs evs).entries) :
    ∃ ev ∈ evs, ∃ req outLen, ev.room = some (req, outLen) ∧ (run req outLen).status.HasResult ∧
      e = entryOf sha256 run req outLen := by
  induction evs using List.reverseRecOn with
  | nil => cases he
  | append_singleton evs ev ih =>
    unfold resultAfter at he
    rw [Machine.run_append] at he
    rcases mem_resultStep he with hold | hn
    · obtain ⟨ev', hv', ho⟩ := ih hold
      exact ⟨ev', mem_append_left _ hv', ho⟩
    · exact ⟨ev, mem_append_right _ mem_cons_self, hn⟩

/-- The counters agree with the list, which has a key once and is no longer than the cap. -/
structure ResultCache.Kept (c : ResultCache) : Prop where
  count : c.count = c.entries.length
  keys : (c.entries.map ResultEntry.key).Nodup
  cap : c.knobs.maxCount ≠ 0 → c.count ≤ c.knobs.maxCount
  balance : c.stats.inserts = c.stats.evictions + c.count

lemma ResultCache.Kept.touch (h : c.Kept) (he : e ∈ c.entries) : (c.touch e).Kept := by
  have hp : (c.touch e).entries.Perm c.entries := (perm_append_singleton e _).trans (perm_cons_erase he).symm
  exact ⟨h.count.trans hp.length_eq.symm, (hp.map _).nodup_iff.mpr h.keys, h.cap, h.balance⟩

lemma kept_resultEvict (hl : c.entries = l) (hc : c.count = l.length)
    (hk : (l.map ResultEntry.key).Nodup) (hb : c.stats.inserts = c.stats.evictions + c.count) :
    (resultEvict l c).Kept := by
  induction l generalizing c with
  | nil =>
    show c.Kept
    exact ⟨hl ▸ hc, hl ▸ hk, by simp [hc], hb⟩
  | cons victim rest ih =>
    rw [length_cons] at hc
    unfold resultEvict
    split
    · exact ih rfl (by simp [hc]) (nodup_cons.mp hk).2 (by dsimp only; omega)
    · next hm => exact ⟨hl ▸ hc, hl ▸ hk, by simpa using hm, hb⟩

lemma kept_resultLookup (h : c.Kept) (hl : resultLookup c key outLen = (c', o)) : c'.Kept := by
  rw [show c' = (resultLookup c key outLen).1 by rw [hl]]
  fun_cases resultLookup
  case case3 e' hl => exact { h.touch (resultLookup_some hl).1 with }
  all_goals exact { h with }

lemma kept_resultInsert (h : c.Kept) : (resultInsert alloc c key r).Kept := by
  fun_cases resultInsert
  case case3 e' hl => exact h.touch (resultLookup_some hl).1
  case case6 _ _ hn _ _ c' =>
    have hn : ∀ e ∈ c.entries, e.key ≠ key := by simpa [nkvxResultLookupLocked] using hn
    exact kept_resultEvict rfl (by simp [c', h.count]) (by simpa [c', nodup_append, h.keys] using hn)
      (by simp [c', h.balance, add_assoc])
  all_goals exact h

end Origin

/-- The bookkeeping holds after every run of the cache, whatever the runs return. -/
theorem result_cache_kept (knobs : ResultKnobs) (evs : List ResultEvent) :
    (resultAfter sha256 run knobs evs).Kept := by
  have h0 (knobs : ResultKnobs) : (ResultCache.reset knobs).Kept := ⟨rfl, nodup_nil, fun _ => Nat.zero_le _, rfl⟩
  refine Machine.run_induct _ (h0 knobs) (fun c ev h => ?_) evs
  cases ev with
  | consume req outLen digests alloc =>
    simp only [resultStep]
    fun_cases resultConsume
    case case1 => exact h
    case case2 hl => exact kept_resultLookup h hl
    case case3 hl => exact kept_resultInsert (kept_resultLookup h hl)
  | probe req outLen digests =>
    simp only [resultStep]
    fun_cases resultProbe
    case case1 => exact h
    case case2 => exact kept_resultLookup h rfl
  | complete req outLen alloc => exact kept_resultInsert h
  | reset knobs => exact h0 knobs

section WorkerRuns

variable {api : WasmApi}

def workerRun (cfg : WasmConfig) (eng : PlainEngine api) (files : Bytes → Option Bytes) (env : RunEnv)
    (s : WasmState api) (req : ResultReq) (outLen : Nat) : RunResult :=
  (RunJob.run cfg eng files env s ⟨req.module, [], none, none, some req.object, req.object.length, outLen⟩).2

lemma Deterministic.only {status : IoStatus} (h : ¬ status.HasResult) : Deterministic fun _ => .only status :=
  .inr ⟨status, h, fun _ => rfl⟩

lemma deterministic_runFinish (memSize : Nat) (call : Guest CallEnd) :
    Deterministic fun outLen => runFinish memSize outLen call := by
  obtain hfails | ⟨value, hv, he⟩ := runFinish_cases memSize call
  · exact .inr hfails
  · rw [funext he]
    exact .inl ⟨value, fun outLen => by rw [outcomeOf, satU32_of_lt hv]⟩

lemma deterministic_plainInstance (eng : PlainEngine api) (caps : WasmCaps) (clock : RunClock) (m : api.Module)
    (name : Bytes) (object : Option Bytes) (objectLen : Nat) :
    Deterministic fun outLen => plainInstance eng caps clock m name object objectLen outLen := by
  unfold plainInstance
  dsimp only
  generalize eng.instanceNew caps m _ (plainMemory api m) = start
  cases start.ending with
  | error => exact .only (by decide)
  | trap => exact .only (by decide)
  | ready inst =>
    dsimp only
    split
    · exact .only (by decide)
    split
    · exact .only (by decide)
    split
    · exact .only (by decide)
    split
    · exact .only (by decide)
    · exact deterministic_runFinish ..

lemma deterministic_workerRun (cfg : WasmConfig) (eng : PlainEngine api) (files : Bytes → Option Bytes) (env : RunEnv)
    (s : WasmState api) (req : ResultReq) : Deterministic (workerRun cfg eng files env s req) := by
  cases hn : wasmName req.module with
  | none =>
    have hr : workerRun cfg eng files env s req = fun outLen =>
        RunJob.builtin ⟨req.module, [], none, none, some req.object, req.object.length, outLen⟩ := by
      funext outLen
      simp only [workerRun, RunJob.run, hn]
    rw [hr]
    by_cases hc : req.module = cstr ['b', 'y', 't', 'e', 'c', 'o', 'u', 'n', 't']
    · refine .inl ⟨leU64 req.object.length, fun outLen => ?_⟩
      simp [RunJob.builtin, hc, outcomeOf, leU64, satU32]
    by_cases hi : req.module = cstr ['i', 'd', 'e', 'n', 't', 'i', 't', 'y']
    · refine .inl ⟨req.object, fun outLen => ?_⟩
      simp only [RunJob.builtin, if_neg hc, if_pos hi, outcomeOf, Option.getD_some, RunResult.mk.injEq,
        true_and, take_eq_take_iff]
      omega
    simp only [RunJob.builtin, if_neg hc, if_neg hi]
    exact .only (by decide)
  | some name =>
    have hr : workerRun cfg eng files env s req = fun outLen =>
        wasmRun cfg eng ⟨files name, env.warmEngine, env.storeNew, env.clock⟩ name none (some req.object)
          req.object.length outLen := by
      funext outLen
      simp [workerRun, RunJob.run, hn]
    rw [hr]
    unfold wasmRun
    split
    · exact .only (by decide)
    split
    · exact .only (by decide)
    cases files name with
    | none => exact .only (by decide)
    | some wasm =>
      dsimp only
      split
      · exact .only (by decide)
      split
      · exact .only (by decide)
      cases api.moduleNew wasm with
      | none => exact .only (by decide)
      | some m => exact deterministic_plainInstance ..

end WorkerRuns

/-- Both rooms hold the result, or the first does not and the second is no larger. -/
def Compatible (len outLen₀ outLen : Nat) : Prop :=
  len ≤ outLen₀ ∧ len ≤ outLen ∨ outLen₀ < len ∧ outLen ≤ outLen₀

lemma fitStatus_eq_iff (len a b : Nat) : fitStatus len a = fitStatus len b ↔ (len ≤ a ↔ len ≤ b) := by
  unfold fitStatus
  by_cases ha : len > a <;> by_cases hb : len > b <;> simp [ha, hb] <;> omega

lemma stored_eq_iff (value : Bytes) (outLen0 outLen : Nat) :
    (⟨(outcomeOf value outLen0).status, (outcomeOf value outLen0).resultLen,
        (outcomeOf value outLen0).out.take outLen⟩ : RunResult) = outcomeOf value outLen ↔
      Compatible value.length outLen0 outLen := by
  simp only [outcomeOf, RunResult.mk.injEq, fitStatus_eq_iff, take_take, take_eq_take_iff, true_and]
  unfold Compatible
  omega

/-- After any sequence of runs, a run that misses computes its result, and a run that hits is served
the outcome that an earlier run of the same request stored. -/
theorem result_hits_iff (hdet : ∀ req, Deterministic (run req)) (knobs : ResultKnobs)
    (evs : List ResultEvent)
    (req : ResultReq) (outLen : Nat) (digests : Bool) (alloc : ResultAlloc)
    (hinj : Set.InjOn sha256
      (hashed sha256 (req :: (evs.filterMap ResultEvent.room).map Prod.fst))) :
    let c := resultAfter sha256 run knobs evs
    let hit := (resultProbe sha256 c req outLen digests).2
    let served := (resultConsume sha256 run c req outLen digests alloc).2
    (hit = none → served = run req outLen) ∧
    ∀ r, hit = some r → served = r ∧
      ∃ value outLen₀, (∀ n, run req n = outcomeOf value n) ∧
        (∃ ev ∈ evs, ev.room = some (req, outLen₀)) ∧
        nkvxResultLookupLocked c (sha256 (req.stream sha256)) =
          some (entryOf sha256 run req outLen₀) ∧
        (served = run req outLen ↔ Compatible value.length outLen₀ outLen) := by
  intro c hit served
  -- a run is served what its probe finds
  have hserve : served = hit.getD (run req outLen) := by
    simp only [served, hit, resultConsume, resultProbe]
    cases resultKey sha256 digests req with
    | none => rfl
    | some key =>
      dsimp only
      rcases resultLookup c key outLen with ⟨c', _ | r⟩ <;> rfl
  refine ⟨fun hn => by rw [hserve, hn]; rfl, fun r hr => ?_⟩
  have hsm : served = r := by rw [hserve, hr]; rfl
  refine ⟨hsm, ?_⟩
  have hfound : ∃ e, nkvxResultLookupLocked c (sha256 (req.stream sha256)) = some e ∧
      r = ⟨e.kvstatus, e.resultLen, e.bytes.take outLen⟩ := by
    simp only [hit, resultProbe, resultKey] at hr
    cases digests with
    | false => cases hr
    | true =>
      simp only [if_true, resultLookup] at hr
      split at hr
      · cases hr
      cases hlk : nkvxResultLookupLocked c (sha256 (req.stream sha256)) with
      | none =>
        rw [hlk] at hr
        cases hr
      | some e =>
        rw [hlk] at hr
        cases hr
        exact ⟨e, rfl, rfl⟩
  obtain ⟨e, hlk, rfl⟩ := hfound
  obtain ⟨he, hkey⟩ := resultLookup_some hlk
  obtain ⟨ev, hev, req', outLen₀, hrm, hstatus, rfl⟩ := resultAfter_origin knobs evs he
  have hreq' : req' ∈ (evs.filterMap ResultEvent.room).map Prod.fst :=
    mem_map.mpr ⟨(req', outLen₀), mem_filterMap.mpr ⟨ev, hev, hrm⟩, rfl⟩
  obtain rfl : req' = req :=
    resultKey_inj hinj (mem_cons_of_mem _ hreq') mem_cons_self hkey
  obtain ⟨value, hvl⟩ | ⟨status, hfl, honl⟩ := hdet req'
  · refine ⟨value, outLen₀, hvl, ⟨ev, hev, hrm⟩, hlk, ?_⟩
    rw [hsm, hvl outLen]
    simp only [entryOf, hvl outLen₀]
    exact stored_eq_iff ..
  rw [honl outLen₀] at hstatus
  exact absurd hstatus hfl

def toySha256 (b : Bytes) : Digest := ⟨b.takeD 32 0, takeD_length ..⟩

def bytecountReq : ResultReq :=
  ⟨cstr ['b', 'y', 't', 'e', 'c', 'o', 'u', 'n', 't'], none, [1, 2, 3], [], by decide, by decide⟩

def builtinRun : ResultReq → Nat → RunResult := workerRun .default tinyEngine (fun _ => none) .good (.init tinyApi)

lemma toySha256_injOn {reqs : List ResultReq} (h : let bs := reqs.flatMap fun req => [req.object, req.stream toySha256]
      ∀ a ∈ bs, ∀ b ∈ bs, toySha256 a = toySha256 b → a = b) : Set.InjOn toySha256 (hashed toySha256 reqs) := by
  rintro a ⟨req, hr, ha⟩ b ⟨req', hr', hb⟩
  exact h a (mem_flatMap.mpr ⟨req, hr, by simpa using ha⟩) b (mem_flatMap.mpr ⟨req', hr', by simpa using hb⟩)

/-- A run with room for 8 bytes stores the result, and a run with room for 16 is served it. -/
theorem result_hit_with_room :
    let c := resultAfter toySha256 builtinRun ⟨true, 1024⟩
      [.consume bytecountReq 8 true ⟨true, true⟩]
    (resultProbe toySha256 c bytecountReq 16 true).2.isSome ∧
      (resultConsume toySha256 builtinRun c bytecountReq 16 true ⟨true, true⟩).2 =
        builtinRun bytecountReq 16 := by
  refine ⟨by decide +kernel, ?_⟩
  have hiff := result_hits_iff toySha256 builtinRun (deterministic_workerRun _ _ _ _ _) ⟨true, 1024⟩
    [.consume bytecountReq 8 true ⟨true, true⟩] bytecountReq 16 true ⟨true, true⟩
    (toySha256_injOn (by decide +kernel))
  obtain ⟨-, value, outLen₀, hvl, ⟨ev, hev, hrm⟩, -, hcond⟩ := hiff.2 ⟨.success, 8, leU64 3⟩ (by decide +kernel)
  obtain rfl := mem_singleton.mp hev
  obtain rfl : 8 = outLen₀ := congrArg Prod.snd (Option.some.inj hrm)
  have hlen : satU32 value.length = 8 := (congrArg RunResult.resultLen (hvl 8)).symm.trans (by decide +kernel)
  refine hcond.mpr (.inl ?_)
  unfold satU32 at hlen
  split at hlen <;> omega

/-- What a run with room for 4 bytes stored is served cut off to one with room for 8, and what one
with room for 8 stored is served to one with room for 4 as if it had been delivered whole. -/
theorem result_hit_in_other_room :
    let stored := fun outLen =>
      resultAfter toySha256 builtinRun ⟨true, 1024⟩ [.consume bytecountReq outLen true ⟨true, true⟩]
    let served := fun c outLen =>
      (resultConsume toySha256 builtinRun c bytecountReq outLen true ⟨true, true⟩).2
    served (stored 4) 8 = ⟨.bufferTooSmall, 8, [3, 0, 0, 0]⟩ ∧
      builtinRun bytecountReq 8 = ⟨.success, 8, [3, 0, 0, 0, 0, 0, 0, 0]⟩ ∧
      served (stored 8) 4 = ⟨.success, 8, [3, 0, 0, 0]⟩ ∧
      builtinRun bytecountReq 4 = ⟨.bufferTooSmall, 8, [3, 0, 0, 0]⟩ := by
  decide +kernel

/-- What is hashed last determines the module, its digest, the hash of the object and the input, so
that two different runs have different keys unless sha256 collides on what they hash. -/
theorem resultKey_unambiguous (req req' : ResultReq) :
    (req.stream sha256 = req'.stream sha256 →
      req.module = req'.module ∧ req.modSha256 = req'.modSha256 ∧
        sha256 req.object = sha256 req'.object ∧
        req.input = req'.input) ∧
    (Set.InjOn sha256 (hashed sha256 [req, req']) → req ≠ req' →
      resultKey sha256 true req ≠ resultKey sha256 true req') := by
  refine ⟨stream_inj, fun hinj hne h => hne ?_⟩
  exact resultKey_inj hinj mem_cons_self (mem_cons_of_mem _ mem_cons_self) (Option.some.inj h)

/-- Two objects with one hash give one stream, and another module gives another key. -/
theorem resultKey_unambiguous_bytecount :
    let padded : ResultReq := { bytecountReq with object := [1, 2, 3, 0] }
    let checked : ResultReq := { bytecountReq with modSha256 := some (toySha256 []) }
    (bytecountReq.stream toySha256 = padded.stream toySha256 ∧
      bytecountReq.module = padded.module) ∧
      resultKey toySha256 true bytecountReq ≠ resultKey toySha256 true checked := by
  intro padded checked
  have hstore : bytecountReq.stream toySha256 = padded.stream toySha256 := by decide +kernel
  refine ⟨⟨hstore, ((resultKey_unambiguous toySha256 bytecountReq padded).1 hstore).1⟩, ?_⟩
  exact (resultKey_unambiguous toySha256 bytecountReq checked).2 (toySha256_injOn (by decide +kernel)) (by decide +kernel)

end RadosNkv.Worker
