import RadosNkv.Executor.Bookkeeping
import RadosNkv.Wasm.LiveOrder

/-! The order in which objects are evicted, against the order in which requests used them. -/

namespace RadosNkv

open List ObjEntry

inductive Access where
  | nothing
  | hit (p : ObjPtr)
  | fill (oid : Bytes) (size : Nat) (got : Bytes)
deriving DecidableEq

variable {μ : Type}

def Access.used (next : ObjPtr) : Access → Option ObjPtr
  | .nothing => none
  | .hit p => some p
  | .fill _ _ _ => some next

def Access.hits : Access → Option ObjPtr
  | .hit p => some p
  | .nothing | .fill _ _ _ => none

def Access.leaves (cfg : WasmConfig) (c : Cache μ) : Access → Cache μ
  | .fill oid size got => nkvxObjCacheEnforceCaps cfg (c.filled (some (oid, size, got)))
  | .nothing | .hit _ => c

def RadosAnswers.filling (cfg : WasmConfig) (alloc : Bool) (ans : RadosAnswers) (oid : Bytes) : Access :=
  if cfg.available ∧ alloc then
    match ans.stat with
    | .error _ => .nothing
    | .ok size =>
      match nkvxObjFill ans (backing size - wasmObjOff) with
      | .error _ => .nothing
      | .ok got => .fill oid size got
  else .nothing

def Cache.access (cfg : WasmConfig) (alloc : Bool) (ans : RadosAnswers) (c : Cache μ) (oid : Bytes) : Access :=
  match (nkvxObjLookup c oid).filter ObjEntry.filled with
  | some o => .hit o.ptr
  | none => ans.filling cfg alloc oid

variable {p : ObjPtr}

section Requests

variable {api : WasmApi} {cfg : WasmConfig} {s : WasmState api} {oid : Bytes} {ans : RadosAnswers}

lemma coldFill_leaves (ha : cfg.available = true) (hs : ans.stat = .ok size) (oid : Bytes)
    (alloc : Bool) (c : Cache μ) :
    (coldFill cfg alloc c oid size (nkvxObjFill ans)).1 = (ans.filling cfg alloc oid).leaves cfg c := by
  unfold RadosAnswers.filling coldFill
  rw [hs, ha]
  cases alloc with
  | false => rfl
  | true =>
    dsimp only
    cases nkvxObjFill ans (backing size - wasmObjOff) <;> rfl

lemma cacheFill_leaves (cfg : WasmConfig) {c : Cache μ} (ho : oid ≠ []) (hm : c.Misses oid)
    (hs : ans.stat = .ok size) (alloc : Bool) :
    (cacheFill cfg alloc c oid size (nkvxObjFill ans)).1 = (ans.filling cfg alloc oid).leaves cfg c := by
  unfold cacheFill
  cases ha : cfg.available with
  | false => simp [RadosAnswers.filling, ha, Access.leaves]
  | true =>
    rw [← coldFill_leaves ha hs, if_neg (by simp), if_neg ho, hm]
    generalize coldFill cfg alloc c oid size (nkvxObjFill ans) = r
    obtain ⟨c', _ | _⟩ := r <;> rfl

lemma filling_of_error (hs : ans.stat = .error e) (cfg : WasmConfig) (alloc : Bool) (oid : Bytes) :
    ans.filling cfg alloc oid = .nothing := by
  unfold RadosAnswers.filling
  rw [hs]
  split <;> rfl

lemma stays_retrieve (cfg : WasmConfig) (hc : s.cache.Counted [] false) (ho : oid ≠ []) (env : RetrieveEnv)
    (ans : RadosAnswers) (osize : Nat) : ((s.cache.access cfg env.objAlloc ans oid).leaves cfg s.cache).Stays
      (nkvxRetrieve cfg env ans s oid osize).1.cache := by
  have hpn : ∀ {c : Cache api.Module}, (c.objects.map ptr).Nodup → ∀ p,
      c.Stays (retrievePinned env.resAlloc { s with cache := (cachePin c oid).1 } p osize).1.cache := fun hn p =>
    (Cache.Stays.pin _ oid).trans (.unref ((Cache.Sheds.pin _ oid).nodup hn) p)
  unfold nkvxRetrieve Cache.access
  cases hl : (nkvxObjLookup s.cache oid).filter ObjEntry.filled with
  | some o =>
    have hk := hpn hc.objs.nodup o.ptr
    rw [cachePin_eq _ ho, hl] at hk ⊢
    exact hk
  | none =>
    rw [cachePin_eq _ ho, hl]
    cases hs : ans.stat with
    | error e =>
      rw [filling_of_error hs]
      cases e <;> exact .refl s.cache
    | ok size =>
      have hv := cacheFill_leaves cfg ho hl hs env.objAlloc
      have hf := hc.cacheFill cfg env.objAlloc oid size (nkvxObjFill ans)
      dsimp only
      rw [← hv]
      generalize cacheFill cfg env.objAlloc s.cache oid size (nkvxObjFill ans) = r at hf
      obtain ⟨c, status⟩ := r
      cases status with
      | success =>
        have hk := hpn hf.objs.nodup
        have hp := Cache.Stays.pin c oid
        dsimp only
        generalize cachePin c oid = r at hk hp
        obtain ⟨c', _ | p⟩ := r
        · exact hp
        · exact hk p
      | _ => exact .refl c

lemma stays_runPinned {c : Cache api.Module} (hc : c.Counted [p] false) (env : RunEnv)
    (name : Bytes) (mod : Option ModSpec) (osize : Nat) :
    c.Stays (cacheUnpin (runPinned cfg env { s with cache := c } name mod p osize).1.cache p) := by
  obtain ⟨o, _, _, ho⟩ := hc.objs.obj_of_ref (mem_append_left _ (mem_singleton_self p))
  have hr := counted_runPinned cfg env name mod (s := { s with cache := c }) hc ho osize
  refine Cache.Stays.trans ?_ (.unref hr.objs.nodup p)
  unfold runPinned
  split
  · exact .refl c
  · exact .runOnObject cfg env name mod (s := { s with cache := c }) hc.objs.nodup p osize

lemma stays_execRun (cfg : WasmConfig) (hc : s.cache.Counted [] false) (ho : oid ≠ []) (env : ExecEnv)
    (ans : RadosAnswers) (name : Bytes) (mod : ModSpec) (osize : Nat) :
    ((s.cache.access cfg env.run.objAlloc ans oid).leaves cfg s.cache).Stays
      (execRun cfg env ans s oid name mod osize).1.cache := by
  unfold execRun Cache.access
  cases hl : (nkvxObjLookup s.cache oid).filter ObjEntry.filled with
  | some o =>
    have hp := Cache.Stays.pin s.cache oid
    have hh := hc.pin oid
    rw [cachePin_eq _ ho, hl] at hp hh ⊢
    exact hp.trans (stays_runPinned hh env.run name (some mod) osize)
  | none =>
    rw [cachePin_eq _ ho, hl]
    cases hs : ans.stat with
    | error e =>
      rw [filling_of_error hs]
      cases e <;> exact .refl s.cache
    | ok size =>
      dsimp only
      unfold runCached
      cases ha : cfg.available with
      | false =>
        simp only [RadosAnswers.filling, ha, Bool.not_false, if_true, Bool.false_eq_true, false_and, if_false]
        exact .refl s.cache
      | true =>
        have hv := coldFill_leaves ha hs oid env.run.objAlloc s.cache
        have hcl := hc.coldFill cfg env.run.objAlloc oid size (nkvxObjFill ans)
        rw [← hv, if_neg (by simp), if_neg ho, hl]
        generalize coldFill cfg env.run.objAlloc s.cache oid size (nkvxObjFill ans) = r at hcl
        obtain ⟨c, _ | p⟩ := r
        · exact .refl c
        · exact .runOnObject cfg env.run name (some mod) (s := { s with cache := c }) hcl.objs.nodup p osize

lemma counted_runOnObject_any (h : s.cache.Counted holds fault) (env : RunEnv) (name : Bytes)
    (mod : Option ModSpec) (p : ObjPtr) (outLen : Nat) :
    ∃ fault', (nkvxRunOnObjectLocked cfg env s name mod p outLen).1.cache.Counted holds fault' := by
  cases ho : s.cache.obj p with
  | none =>
    unfold nkvxRunOnObjectLocked
    rw [ho]
    exact ⟨true, h.bad⟩
  | some o => exact ⟨fault, counted_runOnObject cfg env name mod h ho outLen⟩

lemma counted_execRun_any (h : s.cache.Counted [] false) (env : ExecEnv) (ans : RadosAnswers) (name : Bytes)
    (mod : ModSpec) (osize : Nat) : ∃ fault, (execRun cfg env ans s oid name mod osize).1.cache.Counted [] fault := by
  fun_cases execRun
  case case1 c p he r =>
    have hp : c.Counted [p] false := counted_pinned h he
    obtain ⟨o, _, _, ho⟩ := hp.objs.obj_of_ref (mem_append_left _ (mem_singleton_self p))
    have hr : r.1.cache.Counted [p] false :=
      counted_runPinned cfg env.run name (some mod) (s := { s with cache := c }) hp ho osize
    exact ⟨false, hr.unref⟩
  case case2 he _ _ => exact ⟨false, counted_pinned h he⟩
  case case3 he _ _ _ _ => exact ⟨false, counted_pinned h he⟩
  case case4 c he _ size hs =>
    obtain rfl : c = s.cache := cachePin_none he
    fun_cases runCached
    case case3 o _ =>
      exact counted_runOnObject_any (s := { s with cache := nkvxObjTouch s.cache o.ptr }) (h.objTouch o.ptr) env.run
        name (some mod) o.ptr osize
    case case4 he' =>
      have hc := h.coldFill cfg env.run.objAlloc oid size (nkvxObjFill ans)
      rw [he'] at hc
      exact ⟨false, hc⟩
    case case5 c' p he' =>
      have hc := h.coldFill cfg env.run.objAlloc oid size (nkvxObjFill ans)
      rw [he'] at hc
      exact counted_runOnObject_any (s := { s with cache := c' }) hc env.run name (some mod) p osize
    all_goals exact ⟨false, h⟩

end Requests

structure Logged (api : WasmApi) where
  executor : Executor api
  log : List ObjPtr

variable {api : WasmApi} {cfg : WasmConfig}

def Executor.access (cfg : WasmConfig) (ex : Executor api) : ExecutorEvent → Access
  | .retrieve req env faults =>
    if req.key = [] then .nothing
    else
      let oid := nkvxKeyToOid req.key
      ex.wasm.cache.access cfg env.objAlloc (ex.answers faults oid) oid
  | .exec req _ env faults =>
    match execGranted cfg env ex.wasm req with
    | none => .nothing
    | some _ =>
      let oid := nkvxKeyToOid req.key
      ex.wasm.cache.access cfg env.run.objAlloc (ex.answers faults oid) oid
  | .store _ _ _ _ | .delete _ _ | .exist _ _ => .nothing

namespace Logged

def cache (s : Logged api) : Cache api.Module := s.executor.wasm.cache

def logWith (cfg : WasmConfig) (s : Logged api) (ev : ExecutorEvent) : List ObjPtr :=
  ((s.executor.access cfg ev).used s.cache.nextPtr).toList ++ s.log

def step (cfg : WasmConfig) (s : Logged api) (ev : ExecutorEvent) : Logged api :=
  if s.cache.fault then s else ⟨s.executor.step cfg ev, s.logWith cfg ev⟩

def init (api : WasmApi) (rados : Bytes → Option Bytes) : Logged api := ⟨.init api rados, []⟩

end Logged

def ExecutorEvent.reads : ExecutorEvent → Bool
  | .retrieve _ _ _ | .exec _ _ _ _ => true
  | .store _ _ _ _ | .delete _ _ | .exist _ _ => false

def OlderIn (log : List ObjPtr) (p q : ObjPtr) : Prop := log.idxOf q < log.idxOf p

lemma OlderIn.cons (h : OlderIn log p q) (hp : r ≠ p) : OlderIn (r :: log) p q := by
  unfold OlderIn at *
  rw [idxOf_cons_ne _ hp]
  by_cases hq : r = q
  · rw [hq, idxOf_cons_self]
    omega
  rw [idxOf_cons_ne _ hq]
  omega

lemma olderIn_cons_self (hn : q ≠ p) : OlderIn (q :: log) p q := by
  unfold OlderIn
  rw [idxOf_cons_self, idxOf_cons_ne _ hn]
  omega

lemma pairwise_olderIn_append {l : List ObjPtr} (h : l.Pairwise (OlderIn log)) (hp : p ∉ l) :
    (l ++ [p]).Pairwise (OlderIn (p :: log)) := by
  refine pairwise_append.mpr ⟨?_, pairwise_singleton .., fun q hq r hr => ?_⟩
  · exact h.imp_of_mem fun hq _ hold => hold.cons fun he => hp (he ▸ hq)
  obtain rfl := mem_singleton.mp hr
  exact olderIn_cons_self fun he => hp (he ▸ hq)

lemma Enforces.live_before {c c' : Cache μ} {holds : List ObjPtr} {fault : Bool} {victims : List ObjPtr}
    (h : Enforces cfg c victims c') (hc : c.Counted holds fault) {before after : List ObjPtr} {victim : ObjPtr}
    (hs : victims = before ++ victim :: after) :
    (c.evictAll before).live.map ptr = victim :: after ++ c'.live.map ptr := by
  induction h generalizing before with
  | within => simp at hs
  | empty => simp at hs
  | last hp hl =>
    cases before with
    | nil =>
      obtain ⟨rfl, rfl⟩ := List.cons.inj hs
      rw [Cache.evictAll, foldl_nil, evict_live_head hc hl, hl]
      rfl
    | cons => simp at hs
  | round hp hl hr hlp ih =>
    cases before with
    | nil =>
      obtain ⟨rfl, rfl⟩ := List.cons.inj hs
      have ht := (hlp.live (hc.evict_head hl)).1
      rw [evict_live_head hc hl] at ht
      rw [Cache.evictAll, foldl_nil, hl, map_cons, ht]
      rfl
    | cons p before =>
      obtain ⟨rfl, ht⟩ := List.cons.inj hs
      exact ih (hc.evict_head hl) ht

namespace Logged

structure InOrder (s : Logged api) : Prop where
  counted : s.cache.Counted [] s.cache.fault
  order : (s.cache.live.map ObjEntry.ptr).Pairwise (OlderIn s.log)

/-- A hit is of the newest live entry. -/
def HitsNewest (cfg : WasmConfig) (s : Logged api) (ev : ExecutorEvent) : Prop :=
  ∀ p ∈ (s.executor.access cfg ev).hits, (s.cache.live.map ObjEntry.ptr).getLast? = some p

instance (cfg : WasmConfig) (s : Logged api) (ev : ExecutorEvent) : Decidable (s.HitsNewest cfg ev) :=
  inferInstanceAs (Decidable (∀ p ∈ (s.executor.access cfg ev).hits, _))

/-- If the request fills an object, then every entry that the caps evict for it is the one with the
oldest last access among those that are live at that moment, and the entries that stay live are
those that the request leaves. -/
def EvictsOldest (cfg : WasmConfig) (s : Logged api) (ev : ExecutorEvent) : Prop :=
  ∀ oid size got, s.executor.access cfg ev = .fill oid size got →
    let c := s.cache.filled (some (oid, size, got))
    ∃ victims c', Enforces cfg c victims c' ∧ c'.SameLive (s.step cfg ev).cache ∧
      ∀ before victim after, victims = before ++ victim :: after →
        ∀ o ∈ (c.evictAll before).live, o.ptr ≠ victim → OlderIn (s.logWith cfg ev) victim o.ptr

variable {s : Logged api} {ev : ExecutorEvent}

lemma step_of_ok (ho : s.cache.fault = false) (cfg : WasmConfig) (ev : ExecutorEvent) :
    s.step cfg ev = ⟨(s.executor.handle cfg ev).1, s.logWith cfg ev⟩ := by
  have hf : s.executor.wasm.cache.fault = false := ho
  unfold step Executor.step
  rw [ho, hf]
  rfl

lemma step_leaves (cfg : WasmConfig) (ho : s.cache.fault = false) (hc : s.cache.Counted [] false) (hr : ev.reads) :
    (∃ fault, (s.step cfg ev).cache.Counted [] fault) ∧
      ((s.executor.access cfg ev).leaves cfg s.cache).Stays (s.step cfg ev).cache := by
  rw [step_of_ok ho]
  cases ev with
  | retrieve req env faults =>
    simp only [Logged.cache, Executor.handle, Executor.access]
    split
    · exact ⟨⟨false, hc⟩, .refl s.cache⟩
    next hk =>
    exact ⟨⟨false, counted_retrieve cfg hc env _ _ req.osize⟩,
      stays_retrieve cfg hc (keyToOid_ne_nil hk) env _ req.osize⟩
  | exec req input env faults =>
    simp only [Logged.cache, Executor.handle, Executor.access]
    cases hg : execGranted cfg env s.executor.wasm req with
    | none =>
      rw [executorRun_refused hg]
      exact ⟨⟨false, hc⟩, .refl s.cache⟩
    | some mod =>
      rw [executorRun_granted hg]
      exact ⟨counted_execRun_any hc env _ _ mod req.osize,
        stays_execRun cfg hc (keyToOid_ne_nil (execGranted_key hg)) env _ _ mod req.osize⟩
  | store | delete | exist => cases hr

lemma order_filled (h : s.InOrder) (oid : Bytes) (size : Nat) (got : Bytes) :
    ((s.cache.filled (some (oid, size, got))).live.map ptr).Pairwise (OlderIn (s.cache.nextPtr :: s.log)) := by
  have hl : (s.cache.filled (some (oid, size, got))).live.map ptr =
      s.cache.live.map ptr ++ [s.cache.nextPtr] := by
    simp [Cache.filled, Cache.live, nkvxObjListAdd, coldEntry]
  have hf : s.cache.nextPtr ∉ s.cache.live.map ptr := by
    intro hm
    obtain ⟨o, ho, hp⟩ := mem_map.mp hm
    exact absurd hp (ne_of_lt (h.counted.objs.fresh o (mem_filter.mp ho).1))
  rw [hl]
  exact pairwise_olderIn_append h.order hf

lemma inOrder_step (h : s.InOrder) (hr : ev.reads) (hh : s.HitsNewest cfg ev) : (s.step cfg ev).InOrder := by
  by_cases hk : s.cache.fault = false
  · have hc : s.cache.Counted [] false := hk ▸ h.counted
    obtain ⟨⟨fault, hc'⟩, hv⟩ := step_leaves cfg hk hc hr
    refine ⟨hc'.objs.fault.symm ▸ hc', ?_⟩
    have hlo : (s.step cfg ev).log = s.logWith cfg ev := by rw [step_of_ok hk]
    rw [hv.live.ptrs, hlo, logWith]
    cases ha : s.executor.access cfg ev with
    | nothing => exact h.order
    | hit p =>
      -- the entry is the last one already
      obtain ⟨l, hl⟩ := getLast?_eq_some_iff.mp (hh p (by rw [ha]; rfl))
      have hn : (l ++ [p]).Nodup := by
        rw [← hl]
        exact h.counted.objs.nodup.sublist (filter_sublist.map _)
      have ho := h.order
      show (s.cache.live.map ptr).Pairwise _
      rw [hl] at ho ⊢
      exact pairwise_olderIn_append (pairwise_append.mp ho).1
        (fun hm => (nodup_append.mp hn).2.2 p hm p (mem_singleton_self p) rfl)
    | fill oid size got =>
      obtain ⟨victims, hp⟩ := enforces_enforceObjCaps cfg (hc.filled (some (oid, size, got))) (le_rfl)
      have hs := (hp.live (hc.filled _)).2
      exact (order_filled h oid size got).sublist (hs.sublist.map _)
  have hsm : s.step cfg ev = s := if_pos (by simpa using hk)
  rw [hsm]
  exact h

lemma evictsOldest_of_inOrder (h : s.InOrder) (hk : s.cache.fault = false) (hd : ev.reads) :
    s.EvictsOldest cfg ev := by
  intro oid size got ha c
  have hc : s.cache.Counted [] false := hk ▸ h.counted
  obtain ⟨victims, hl⟩ := enforces_enforceObjCaps cfg (hc.filled (some (oid, size, got))) (le_rfl)
  have hv := (step_leaves cfg hk hc hd).2
  rw [ha] at hv
  refine ⟨victims, _, hl, hv.live, fun before victim after hs o ho he => ?_⟩
  have hr := order_filled h oid size got
  have hf := (hl.live (hc.filled _)).1
  have hn := hl.live_before (hc.filled _) hs
  -- the live entries of this moment end the list of all, which is in order
  have hrs : (victim :: (after ++ (nkvxObjCacheEnforceCaps cfg c).live.map ptr)).Pairwise
      (OlderIn (s.cache.nextPtr :: s.log)) := by
    rw [hf, hs, append_assoc, cons_append] at hr
    exact (pairwise_append.mp hr).2.1
  have hm : o.ptr ∈ (c.evictAll before).live.map ptr := mem_map_of_mem ho
  rw [hn, cons_append] at hm
  rw [logWith, ha]
  exact (pairwise_cons.mp hrs).1 o.ptr ((mem_cons.mp hm).resolve_left he)

end Logged

/-- In every run of Retrieves and Execs in which each request that hits a cached object hits the one
filled last, every entry that the caps evict is the live entry with the oldest last access. -/
theorem evicts_oldest_access (cfg : WasmConfig) (rados : Bytes → Option Bytes)
    (evs : List ExecutorEvent)
    (hreads : ∀ ev ∈ evs, ev.reads)
    (hhits : Machine.Along (Logged.step cfg) (Logged.HitsNewest cfg) (.init api rados) evs) :
    Machine.Along (Logged.step cfg) (fun s ev => s.cache.fault = false → s.EvictsOldest cfg ev)
      (.init api rados)
      evs := by
  have hint : (Logged.init api rados).InOrder := ⟨.init, List.Pairwise.nil⟩
  have hevs := Machine.along_and _ (Machine.along_of_forall _ hreads) hhits
  exact Machine.along_of_invariant _ hint (fun _ _ h hev => Logged.inOrder_step h hev.1 hev.2)
    (fun _ _ h hev hok => Logged.evictsOldest_of_inOrder h hok hev.1) hevs

def twoObjectCap : WasmConfig := { WasmConfig.default with objMaxCount := 2 }

def oneByteObjects : Bytes → Option Bytes := fun _ => some [7]

def retrieveKey (b : UInt8) : ExecutorEvent :=
  .retrieve ⟨.retrieve, false, 0, [b], 1, 0, 0, none, none, none⟩ ⟨true, true, true⟩ .none

/-- Three objects, with the second hit before the third is filled. -/
theorem evicts_oldest_access_three :
    let evs := [retrieveKey 1, retrieveKey 2, retrieveKey 2, retrieveKey 3]
    let s := Logged.init toyApi oneByteObjects
    ((Machine.run (Logged.step twoObjectCap) s evs).cache.live.map ObjEntry.ptr) = [1, 2] ∧
      Machine.Along (Logged.step twoObjectCap)
        (fun s ev => s.cache.fault = false → s.EvictsOldest twoObjectCap ev) s evs :=
  ⟨by decide +kernel, evicts_oldest_access twoObjectCap oneByteObjects _ (by decide) (by decide +kernel)⟩

/-- The first of two objects is hit, and is evicted for the third all the same. -/
theorem hit_object_evicted_first :
    let s := Machine.run (Logged.step twoObjectCap) (Logged.init toyApi oneByteObjects)
      [retrieveKey 1, retrieveKey 2, retrieveKey 1]
    s.cache.live.map ObjEntry.ptr = [0, 1] ∧ s.log = [0, 1, 0] ∧
      s.executor.access twoObjectCap (retrieveKey 3) = .fill (nkvxKeyToOid [3]) 1 [7] ∧
      (s.step twoObjectCap (retrieveKey 3)).cache.live.map ObjEntry.ptr = [1, 2] ∧
      OlderIn (s.logWith twoObjectCap (retrieveKey 3)) 1 0 := by
  unfold OlderIn
  decide +kernel

end RadosNkv
