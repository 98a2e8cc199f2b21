import RadosNkv.Executor.CallReplies
import RadosNkv.Executor.ReadOnly
import RadosNkv.Executor.StoredValue
import RadosNkv.Wasm.DeadEntries

/-! What a Retrieve or the cold fill of an Exec reads of an object that somebody else writes at the
same time. -/

namespace RadosNkv

open List Option Prog Calls

structure WriterTurn where
  writes : List Bytes
  faults : CallFaults

structure Contended where
  objs : Objects
  versions : List Bytes
  turns : List WriterTurn

namespace Contended

variable (ctx : IoCtx) (oid : Bytes)

def start (objs : Objects) (turns : List WriterTurn) : Contended := ⟨objs, (objs.get (ctx, oid)).toList, turns⟩

def value (st : Contended) : Option Bytes := st.objs.get (ctx, oid)

def turn (st : Contended) : WriterTurn := st.turns.headD ⟨[], .none⟩

def advance (st : Contended) : Contended :=
  ⟨st.turn.writes.foldl (fun objs v => objs.insert (ctx, oid) v) st.objs, st.versions ++ st.turn.writes, st.turns.tail⟩

def answer : Prog.Handler RadosOp RadosOp.Resp Empty Contended := fun op st =>
  let r := clusterAnswer st.turn.faults op (st.advance ctx oid).objs
  (r.1, { st.advance ctx oid with objs := r.2 })

variable {ctx oid} {st : Contended}

def Current (ctx : IoCtx) (oid : Bytes) (st : Contended) : Prop := ∀ v, st.value ctx oid = some v → v ∈ st.versions

lemma current_start (objs : Objects) (turns : List WriterTurn) : (start ctx oid objs turns).Current ctx oid :=
  fun _ hv => mem_toList.mpr hv

lemma Current.advance (h : st.Current ctx oid) : (st.advance ctx oid).Current ctx oid := by
  have hw : ∀ (writes : List Bytes) (objs : Objects) (v : Bytes),
      (writes.foldl (fun objs v => objs.insert (ctx, oid) v) objs).get (ctx, oid) = some v →
        objs.get (ctx, oid) = some v ∨ v ∈ writes := by
    intro writes
    induction writes with
    | nil => exact fun _ _ hv => .inl hv
    | cons w writes ih =>
      intro objs v hv
      obtain hold | hi := ih (objs.insert (ctx, oid) w) v hv
      · rw [Dict.get_insert_self, Option.some.injEq] at hold
        exact .inr (hold ▸ mem_cons_self)
      · exact .inr (mem_cons_of_mem _ hi)
  intro v hv
  obtain hold | hi := hw _ _ v hv
  · exact mem_append_left _ (h v hold)
  · exact mem_append_right _ hi

lemma stat_outcome : (stat ctx oid).outcome (answer ctx oid) st =
    (radosCall st.turn.faults.stat ((st.advance ctx oid).value ctx oid) List.length, st.advance ctx oid) := rfl

lemma read_outcome (len : Nat) : (Calls.read ctx oid len).outcome (answer ctx oid) st =
    (radosCall st.turn.faults.read ((st.advance ctx oid).value ctx oid) fun v => v.take len, st.advance ctx oid) := rfl

section Fill

variable {μ : Type} (cfg : WasmConfig) (alloc : Bool) (c : Cache μ) (size : Nat)

def fillGets (ctx : IoCtx) (oid : Bytes) (st : Contended) : Option Bytes :=
  match Calls.fillAsks cfg alloc c oid size, st.turn.faults.read with
  | some room, none => ((st.advance ctx oid).value ctx oid).map fun v => v.take room
  | _, _ => none

def afterFill (ctx : IoCtx) (oid : Bytes) (st : Contended) : Contended :=
  if (Calls.fillAsks cfg alloc c oid size).isSome then st.advance ctx oid else st

def fillAnswer (ctx : IoCtx) (oid : Bytes) (st : Contended) : Except RadosErrno Bytes :=
  ((Calls.nkvxObjFill cfg alloc c ctx oid size).outcome (answer ctx oid) st).1

variable {cfg alloc c size}

lemma Current.afterFill (h : st.Current ctx oid) : (st.afterFill cfg alloc c size ctx oid).Current ctx oid := by
  unfold Contended.afterFill
  split
  · exact h.advance
  · exact h

lemma objFill_outcome : (Calls.nkvxObjFill cfg alloc c ctx oid size).outcome (answer ctx oid) st =
    (st.fillAnswer cfg alloc c size ctx oid, st.afterFill cfg alloc c size ctx oid) := by
  refine Prod.ext rfl ?_
  unfold Calls.nkvxObjFill afterFill
  cases Calls.fillAsks cfg alloc c oid size <;> rfl

lemma fillAnswer_of_gets (h : st.fillGets cfg alloc c size ctx oid = some got) :
    st.fillAnswer cfg alloc c size ctx oid = .ok got := by
  unfold fillGets at h
  unfold fillAnswer Calls.nkvxObjFill
  cases ha : Calls.fillAsks cfg alloc c oid size with
  | none => simp [ha] at h
  | some room =>
    rw [outcome_bind, read_outcome]
    cases hf : st.turn.faults.read with
    | some code => simp [ha, hf] at h
    | none =>
      simp only [ha, hf, map_eq_some_iff] at h
      obtain ⟨v, hv, rfl⟩ := h
      rw [hv]
      show Except.ok ((v.take room).take room) = Except.ok (v.take room)
      rw [take_take, min_self]

lemma fillAnswer_of_none (h : st.fillGets cfg alloc c size ctx oid = none) :
    ∃ e, st.fillAnswer cfg alloc c size ctx oid = .error e := by
  unfold fillGets at h
  unfold fillAnswer Calls.nkvxObjFill
  cases ha : Calls.fillAsks cfg alloc c oid size with
  | none => exact ⟨.inval, rfl⟩
  | some room =>
    rw [outcome_bind, read_outcome]
    cases hf : st.turn.faults.read with
    | some code => exact ⟨.other code, rfl⟩
    | none =>
      simp only [ha, hf, map_eq_none_iff] at h
      rw [h]
      exact ⟨.noent, rfl⟩

end Fill

end Contended

section Cache

variable {api : WasmApi} {cfg : WasmConfig} {alloc : Bool} {c c' c'' : Cache api.Module}
  {holds : List ObjPtr} {oid got : Bytes} {size room : Nat}

def FillKept {μ : Type} (cfg : WasmConfig) (c : Cache μ) (holds : List ObjPtr) (size : Nat) : Prop :=
  cfg.objMaxBytes = 0 ∨ c.retained holds + backing size ≤ cfg.objMaxBytes

abbrev gives (got : Bytes) : Nat → Except RadosErrno Bytes := fun _ => .ok got

lemma cacheFill_of_gets (ha : fillAsks cfg alloc c oid size = some room) (got : Bytes) :
    ∃ c', coldFill cfg alloc c oid size (gives got) = (c', .ok c.nextPtr) ∧
      cacheFill cfg alloc c oid size (gives got) = (c', .success) := by
  unfold fillAsks at ha
  split at ha
  · next hg =>
    obtain ⟨hv, hk, hm, hl⟩ := hg
    obtain ⟨c', hf⟩ : ∃ c', coldFill cfg alloc c oid size (gives got) =
        (c', .ok c.nextPtr) := by
      rw [hl]
      exact ⟨_, rfl⟩
    refine ⟨c', hf, ?_⟩
    unfold cacheFill
    rw [if_neg (by simp [hv]), if_neg hk, hm]
    rw [hf]
  · cases ha

lemma cacheFill_of_error (hm : c.Misses oid)
    {got : Except RadosErrno Bytes} (hn : fillAsks cfg alloc c oid size = none ∨ ∃ e, got = .error e) :
    ∃ status, status ≠ .success ∧ cacheFill cfg alloc c oid size (fun _ => got) = (c, status) := by
  unfold cacheFill
  by_cases ha : cfg.available
  case neg => exact ⟨.notSupported, nofun, by rw [if_pos (by simpa using ha)]⟩
  rw [if_neg (by simpa using ha)]
  by_cases hk : oid = []
  case pos => exact ⟨.invalid, nofun, by rw [if_pos hk]⟩
  rw [if_neg hk, hm]
  cases alloc with
  | false => exact ⟨.nomem, nofun, rfl⟩
  | true =>
    obtain hak | ⟨e, rfl⟩ := hn
    · simp [fillAsks, ha, hk, hm] at hak
    · exact ⟨.failed, nofun, rfl⟩

section

variable (hinv : c.Counted holds fault)
include hinv

lemma new_objectBytes (hf : coldFill cfg alloc c oid size (gives got) = (c', .ok p))
    (hs : c'.Sheds c'') (ho : o ∈ c''.objects) (hn : c.nextPtr ≤ o.ptr) :
    (∃ o' ∈ c'.objects, o'.ptr = p) ∧ o.objectBytes = got := by
  obtain ⟨o', ho', ha⟩ := hs.objects o ho
  obtain ⟨_, hc⟩ | ⟨got', c1, hg, hs', hc⟩ := coldFill_cases cfg alloc c oid size
    (gives got)
  · cases hf.symm.trans hc
  cases hf.symm.trans hc
  cases hg
  obtain ⟨o1, ho1, ha'⟩ := hs'.objects o' ho'
  have hp : o.ptr = o1.ptr := ha.ptr.trans ha'.ptr
  rcases mem_append.mp ho1 with hold | hn'
  · exact absurd hn (not_le.mpr (hp ▸ hinv.objs.fresh o1 hold))
  obtain rfl := mem_singleton.mp hn'
  refine ⟨⟨o', ho', ha'.ptr⟩, ?_⟩
  exact (ha'.trans ha).retains.bytes.trans (coldEntry_objectBytes ..)

lemma new_objects_iff (hf : coldFill cfg alloc c oid size (gives got) = (c', .ok p))
    (hs : c'.Sheds c'') (ht : c'.LiveAt p → c''.LiveAt p) (versions : List Bytes) :
    (∀ o ∈ c''.objects, c.nextPtr ≤ o.ptr → o.objectBytes ∈ versions) ↔ (FillKept cfg c holds size → got ∈ versions) := by
  have hpt : p = c.nextPtr := by
    obtain ⟨_, hc⟩ | ⟨_, _, _, _, hc⟩ := coldFill_cases cfg alloc c oid size
      (gives got)
    · cases hf.symm.trans hc
    cases hf.symm.trans hc
    rfl
  constructor
  · intro ha hk
    obtain ⟨o, ho, hp⟩ := (coldFill_keeps_iff cfg hinv hf).mpr hk
    have hc := hinv.coldFill cfg alloc oid size (gives got)
    rw [hf] at hc
    have hl := coldFill_live hinv hf (hp ▸ Tailq.find_of_mem hc.objs.nodup ho)
    obtain ⟨o', ho', hp', _⟩ := ht ⟨o, ho, hp, hl⟩
    have hr : c.nextPtr ≤ o'.ptr := le_of_eq (hpt.symm.trans hp'.symm)
    exact (new_objectBytes hinv hf hs ho' hr).2 ▸ ha o' ho' hr
  intro hk o ho hn
  obtain ⟨hls, hb⟩ := new_objectBytes hinv hf hs ho hn
  exact hb ▸ hk ((coldFill_keeps_iff cfg hinv hf).mp hls)

lemma lookup_filled (hm : c.Misses oid)
    (hf : coldFill cfg alloc c oid size (gives got) = (c', .ok p))
    (hlk : nkvxObjLookup c' oid = some o) :
    o.ptr = p ∧ FillKept cfg c holds size ∧ oid.length ≤ 255 ∧ o.filled ∧ o.objectBytes = got := by
  obtain ⟨ho, hv, hk⟩ := objLookup_some hlk
  obtain ⟨_, hc⟩ | ⟨got', c1, hg, hs, hc⟩ := coldFill_cases cfg alloc c oid size
    (gives got)
  · cases hf.symm.trans hc
  cases hf.symm.trans hc
  cases hg
  obtain ⟨o1, ho1, ha⟩ := hs.objects o ho
  have hk1 : o1.objKey = oid := ha.objKey.symm.trans hk
  rcases mem_append.mp ho1 with hold | hn
  · have hv1 : o1.dead = false := by
      by_contra hd
      simp [ha.dead (by simpa using hd)] at hv
    exact absurd hk1 (live_key_ne_of_miss hinv.objs.filled hm hold hv1)
  obtain rfl := mem_singleton.mp hn
  refine ⟨ha.ptr, (coldFill_keeps_iff cfg hinv hf).mp ⟨o, ho, ha.ptr⟩, ?_, ha.filled,
    ha.retains.bytes.trans (coldEntry_objectBytes ..)⟩
  have hl : (cstrFit 256 oid).length = oid.length := congrArg List.length hk1
  rw [cstrFit, length_take] at hl
  omega

end

lemma pin_of_lookup (hn : (c.objects.map ObjEntry.ptr).Nodup) (hk : oid ≠ [])
    (hh : (nkvxObjLookup c oid).filter ObjEntry.filled = some o) :
    ∃ c', cachePin c oid = (c', some o.ptr) ∧ pinObject c' o.ptr = some o.objectBytes ∧
      c.Sheds (cacheUnpin c' o.ptr) ∧ ∀ q, c.LiveAt q → (cacheUnpin c' o.ptr).LiveAt q := by
  obtain ⟨hl, hf⟩ := filter_eq_some_iff.mp hh
  have hs := Cache.Sheds.pin c oid
  have hp : cachePin c oid = (c.updateObj o.ptr fun o => { o with refcount := o.refcount + 1 }, some o.ptr) := by
    rw [cachePin_eq c hk, hh]
  rw [hp] at hs
  have hd := hs.nodup hn
  refine ⟨_, hp, pinObject_updated hn (objLookup_some hl).1 hf, hs.trans (.unref ..), fun q hq => ?_⟩
  exact liveAt_unref hd (hq.updateObj fun _ => ⟨rfl, rfl⟩) _

lemma pin_filled (hinv : c.Counted holds fault) (hm : c.Misses oid)
    (hk : oid ≠ []) (hf : coldFill cfg alloc c oid size (gives got) = (c', .ok p))
    (hp : FillKept cfg c holds size) (hl : oid.length ≤ 255) :
    ∃ c'', cachePin c' oid = (c'', some p) ∧ pinObject c'' p = some got ∧ c'.Sheds (cacheUnpin c'' p) ∧
      ∀ q, c'.LiveAt q → (cacheUnpin c'' p).LiveAt q := by
  have hc' := hinv.coldFill cfg alloc oid size (gives got)
  rw [hf] at hc'
  obtain ⟨o, ho, rfl⟩ := (coldFill_keeps_iff cfg hinv hf).mpr hp
  have hb := Tailq.find_of_mem hc'.objs.nodup ho
  have ha : (coldEntry o.ptr oid size got).Ages o := by
    refine coldFill_entry hinv ?_ hf hb
    rfl
  have hnm : o.objKey = oid := by
    rw [ha.objKey]
    exact take_of_length_le hl
  cases hlk : nkvxObjLookup c' oid with
  | none =>
    have hn := find?_eq_none.mp hlk o ho
    simp [coldFill_live hinv hf hb, hnm] at hn
  | some o' =>
    obtain ⟨ht, -, -, hd, hy⟩ := lookup_filled hinv hm hf hlk
    rw [← ht, ← hy]
    exact pin_of_lookup hc'.objs.nodup hk (filter_eq_some_iff.mpr ⟨hlk, hd⟩)

lemma pin_not_filled (hinv : c.Counted holds fault) (hm : c.Misses oid)
    (hf : coldFill cfg alloc c oid size (gives got) = (c', .ok p))
    (hn : ¬ (FillKept cfg c holds size ∧ oid.length ≤ 255)) : cachePin c' oid = (c', none) := by
  unfold cachePin
  split
  · rfl
  cases hk : nkvxObjLookup c' oid with
  | none => rfl
  | some o =>
    obtain ⟨-, hp, hl, -, -⟩ := lookup_filled hinv hm hf hk
    exact absurd ⟨hp, hl⟩ hn

end Cache

/-! ### What is delivered -/

def SameRead (osize : Nat) (v w : Bytes) : Prop :=
  satU32 v.length = satU32 w.length ∧ v.take (min osize (satU32 w.length)) = w.take (min osize (satU32 w.length))

/-- A result that is reported is that of a retrieve of one version. -/
def ExecResult.Delivers (res : ExecResult) (versions : List Bytes) (osize : Nat) : Prop :=
  res.status = .success ∨ res.status = .bufferTooSmall → ∃ v ∈ versions, res = plainRetrieve (some v) osize

section Delivers

variable {versions : List Bytes} {osize : Nat}

lemma fitStatus_cases (n osize : Nat) : fitStatus n osize = .success ∨ fitStatus n osize = .bufferTooSmall := by
  unfold fitStatus
  split
  · exact .inr rfl
  · exact .inl rfl

lemma delivers_only (h : status ≠ .success) (h' : status ≠ .bufferTooSmall) :
    (ExecResult.only status).Delivers versions osize := by
  rintro (hs | hs)
  · exact absurd hs h
  · exact absurd hs h'

lemma eq_plainRetrieve_iff {v w x : Bytes} (hd : min osize (satU32 w.length) ≠ 0) :
    (⟨fitStatus (satU32 w.length) osize, satU32 w.length, some (v.take (min osize (satU32 w.length)))⟩ : ExecResult) =
        plainRetrieve (some x) osize ↔ satU32 x.length = satU32 w.length ∧
        x.take (min osize (satU32 w.length)) = v.take (min osize (satU32 w.length)) := by
  unfold plainRetrieve
  constructor
  · intro h
    have hl : satU32 w.length = satU32 x.length := congrArg ExecResult.resultLen h
    have hb := congrArg ExecResult.buf h
    dsimp only at hb
    rw [← hl, if_neg hd] at hb
    exact ⟨hl.symm, (Option.some.inj hb).symm⟩
  rintro ⟨hl, hb⟩
  dsimp only
  rw [hl, if_neg hd, hb]

lemma plainRetrieve_eq_iff :
    plainRetrieve (some w) osize = plainRetrieve (some v) osize ↔ SameRead osize v w := by
  by_cases hd : min osize (satU32 w.length) = 0
  · unfold plainRetrieve SameRead
    rw [hd]
    constructor
    · intro h
      exact ⟨(congrArg ExecResult.resultLen h).symm, rfl⟩
    rintro ⟨hl, -⟩
    dsimp only
    rw [hl, hd, if_pos rfl, if_pos rfl]
  have hw : plainRetrieve (some w) osize = ⟨fitStatus (satU32 w.length) osize, satU32 w.length,
      some (w.take (min osize (satU32 w.length)))⟩ := by
    unfold plainRetrieve
    dsimp only
    rw [if_neg hd]
  rw [hw]
  exact eq_plainRetrieve_iff hd

lemma delivers_plain :
    (plainRetrieve (some w) osize).Delivers versions osize ↔ ∃ v ∈ versions, SameRead osize v w := by
  have hs := fitStatus_cases (satU32 w.length) osize
  simp only [ExecResult.Delivers, plainRetrieve_eq_iff]
  exact ⟨fun h => h hs, fun h _ => h⟩

end Delivers

namespace Contended

variable {api : WasmApi} {cfg : WasmConfig} {ctx : IoCtx} {oid : Bytes} {osize : Nat} {st : Contended}

/-- The read of the bytes to deliver, where it is made and answered, finds the first bytes of a
version that has the length of the value `v₁` that the size was asked of. -/
def DirectWhole (ctx : IoCtx) (oid : Bytes) (alloc : Bool) (v₁ : Bytes) (osize : Nat) (st : Contended) : Prop :=
  min osize (satU32 v₁.length) ≠ 0 → alloc = true → st.turn.faults.read = none →
    ∀ v₃, (st.advance ctx oid).value ctx oid = some v₃ →
      ∃ v ∈ (st.advance ctx oid).versions, satU32 v.length = satU32 v₁.length ∧
        v.take (min osize (satU32 v₁.length)) = v₃.take (min osize (satU32 v₁.length))

def afterDirect (ctx : IoCtx) (oid : Bytes) (alloc : Bool) (v₁ : Bytes) (osize : Nat) (st : Contended) : Contended :=
  if min osize (satU32 v₁.length) ≠ 0 ∧ alloc = true then st.advance ctx oid else st

lemma direct_state {alloc : Bool} {v₁ : Bytes} :
    ((Calls.retrieveDirect alloc ctx oid v₁.length osize).outcome (answer ctx oid) st).2 =
      st.afterDirect ctx oid alloc v₁ osize := by
  unfold Calls.retrieveDirect afterDirect
  by_cases hd : min osize (satU32 v₁.length) = 0
  · rw [if_pos hd, if_neg (fun h => h.1 hd)]
    rfl
  rw [if_neg hd]
  cases alloc with
  | false => rw [if_pos (by simp), if_neg (by simp)]; rfl
  | true =>
    rw [if_neg (by simp), if_pos ⟨hd, rfl⟩, outcome_bind, read_outcome]
    cases st.turn.faults.read with
    | some code => rfl
    | none => cases (st.advance ctx oid).value ctx oid <;> rfl

lemma direct_delivers_iff {alloc : Bool} (hv1 : v₁ ∈ st.versions) :
    let r := (Calls.retrieveDirect alloc ctx oid v₁.length osize).outcome (answer ctx oid) st
    r.1.Delivers r.2.versions osize ↔ st.DirectWhole ctx oid alloc v₁ osize := by
  unfold Calls.retrieveDirect DirectWhole
  by_cases hd : min osize (satU32 v₁.length) = 0
  case pos =>
    -- nothing to deliver: the length that was asked is the answer
    have hp : (⟨fitStatus (satU32 v₁.length) osize, satU32 v₁.length, none⟩ : ExecResult) =
        plainRetrieve (some v₁) osize := by
      unfold plainRetrieve
      dsimp only
      rw [if_pos hd]
    rw [if_pos hd, hp]
    exact ⟨fun _ hn => absurd hd hn, fun _ _ => ⟨v₁, hv1, rfl⟩⟩
  rw [if_neg hd]
  cases alloc with
  | false => exact ⟨fun _ _ => nofun, fun _ => delivers_only nofun nofun⟩
  | true =>
    rw [if_neg (by simp), outcome_bind, read_outcome]
    cases st.turn.faults.read with
    | some code => exact ⟨fun _ _ _ => nofun, fun _ => delivers_only nofun nofun⟩
    | none =>
      cases (st.advance ctx oid).value ctx oid with
      | none => exact ⟨fun _ _ _ _ _ => nofun, fun _ => delivers_only nofun nofun⟩
      | some v3 =>
        have hs := fitStatus_cases (satU32 v₁.length) osize
        simp only [radosCall, take_take, min_self]
        constructor
        · rintro hr - - - _ ⟨⟩
          obtain ⟨v, hv, he⟩ := hr hs
          exact ⟨v, hv, (eq_plainRetrieve_iff hd).mp he⟩
        intro hw _
        obtain ⟨v, hv, hm⟩ := hw hd trivial trivial v3 rfl
        exact ⟨v, hv, (eq_plainRetrieve_iff hd).mpr hm⟩

lemma pinned_delivers_iff (alloc : Bool) (s : WasmState api) {p : ObjPtr} {got : Bytes} {versions : List Bytes}
    (ho : pinObject s.cache p = some got) : (retrievePinned alloc s p osize).2.Delivers versions osize ↔
      ((min osize (satU32 got.length) ≠ 0 → alloc = true) → ∃ v ∈ versions, SameRead osize v got) := by
  cases alloc with
  | true =>
    rw [retrievePinned_plain s ho, delivers_plain]
    exact ⟨fun h _ => h, fun h => h fun _ => rfl⟩
  | false =>
    unfold retrievePinned
    rw [ho]
    dsimp only [getD_some]
    unfold nkvxResultSet
    by_cases hd : min osize (satU32 got.length) = 0
    · have hp : (⟨fitStatus (satU32 got.length) osize, satU32 got.length, none⟩ : ExecResult) =
          plainRetrieve (some got) osize := by
        unfold plainRetrieve
        dsimp only
        rw [if_pos hd]
      rw [if_pos hd, hp, delivers_plain]
      exact ⟨fun h _ => h, fun h => h fun hn => absurd hd hn⟩
    rw [if_neg hd]
    have hm : (ExecResult.only .nomem).Delivers versions osize := delivers_only nofun nofun
    exact ⟨fun _ h => absurd (h hd) nofun, fun _ => hm⟩

/-- The entries that are new in `c'` hold one of the versions. -/
def NewHold (c c' : Cache api.Module) (versions : List Bytes) : Prop :=
  ∀ o ∈ c'.objects, c.nextPtr ≤ o.ptr → o.objectBytes ∈ versions

/-- What a fill gets, in an entry that is kept, is one of the versions of the object. -/
def FillWhole (cfg : WasmConfig) (alloc : Bool) (c : Cache api.Module) (holds : List ObjPtr) (size : Nat) (ctx : IoCtx)
    (oid : Bytes) (st : Contended) : Prop :=
  ∀ got, st.fillGets cfg alloc c size ctx oid = some got → FillKept cfg c holds size →
    got ∈ (st.afterFill cfg alloc c size ctx oid).versions

/-- A miss after the value `v₁` was found. -/
def MissWhole (cfg : WasmConfig) (env : RetrieveEnv) (c : Cache api.Module) (holds : List ObjPtr) (ctx : IoCtx)
    (oid : Bytes) (osize : Nat) (v₁ : Bytes) (st : Contended) : Prop :=
  let st₂ := st.afterFill cfg env.objAlloc c v₁.length ctx oid
  match st.fillGets cfg env.objAlloc c v₁.length ctx oid with
  | none => st₂.DirectWhole ctx oid env.bufAlloc v₁ osize
  | some got =>
    if oid.length ≤ 255 then
      (FillKept cfg c holds v₁.length → got ∈ st₂.versions) ∧
        (¬ FillKept cfg c holds v₁.length → st₂.DirectWhole ctx oid env.bufAlloc v₁ osize)
    else
      (FillKept cfg c holds v₁.length → got ∈ (st₂.afterDirect ctx oid env.bufAlloc v₁ osize).versions) ∧
        st₂.DirectWhole ctx oid env.bufAlloc v₁ osize

/-- What the other writer may do during a Retrieve. -/
def RetrieveWhole (cfg : WasmConfig) (env : RetrieveEnv) (c : Cache api.Module) (holds : List ObjPtr) (ctx : IoCtx)
    (oid : Bytes) (osize : Nat) (st : Contended) : Prop :=
  match (nkvxObjLookup c oid).filter ObjEntry.filled with
  | some o =>
    (min osize (satU32 o.objectBytes.length) ≠ 0 → env.resAlloc = true) →
      ∃ v ∈ st.versions, SameRead osize v o.objectBytes
  | none =>
    ∀ v₁, st.turn.faults.stat = none → (st.advance ctx oid).value ctx oid = some v₁ →
      (st.advance ctx oid).MissWhole cfg env c holds ctx oid osize v₁

section Requests

variable {s : WasmState api} {v₁ : Bytes}

lemma newHold_sheds {c : Cache api.Module} (hinv : c.Counted holds fault) (hs : c.Sheds c')
    (versions : List Bytes) : NewHold c c' versions := by
  intro o' ho' hn
  obtain ⟨o, ho, ha⟩ := hs.objects o' ho'
  exact absurd (hinv.objs.fresh o ho) (not_lt.mpr (ha.ptr ▸ hn))

lemma fillGets_some {alloc : Bool} {c : Cache api.Module} {size : Nat}
    (h : st.fillGets cfg alloc c size ctx oid = some got) :
    ∃ c', coldFill cfg alloc c oid size (gives got) = (c', .ok c.nextPtr) ∧
      cacheFill cfg alloc c oid size (gives got) = (c', .success) := by
  unfold fillGets at h
  split at h
  · next ha _ => exact cacheFill_of_gets ha got
  · cases h

lemma retrieve_of_pinned (hp : cachePin s.cache oid = (s.cache, none)) (env : RetrieveEnv)
    (hs : st.turn.faults.stat = none) (hv : (st.advance ctx oid).value ctx oid = some v₁)
    (hf : cacheFill cfg env.objAlloc s.cache oid v₁.length (fun _ => (st.advance ctx oid).fillAnswer
      cfg env.objAlloc s.cache v₁.length ctx oid) = (c', .success))
    (hp' : cachePin c' oid = (c'', some p)) :
    (Calls.retrieveRados cfg env ctx s oid osize).outcome (answer ctx oid) st =
      (retrievePinned env.resAlloc { s with cache := c'' } p osize,
        (st.advance ctx oid).afterFill cfg env.objAlloc s.cache v₁.length ctx oid) := by
  unfold Calls.retrieveRados
  rw [hp]
  rw [outcome_bind, stat_outcome, hs, hv]
  dsimp only [radosCall]
  rw [outcome_bind, objFill_outcome]
  rw [hf]
  dsimp only
  rw [hp']
  rfl

lemma retrieve_of_direct (hp : cachePin s.cache oid = (s.cache, none)) (env : RetrieveEnv)
    (hs : st.turn.faults.stat = none) (hv : (st.advance ctx oid).value ctx oid = some v₁)
    (hf : cacheFill cfg env.objAlloc s.cache oid v₁.length (fun _ => (st.advance ctx oid).fillAnswer
      cfg env.objAlloc s.cache v₁.length ctx oid) = (c', status))
    (hp' : status = .success → cachePin c' oid = (c', none)) :
    let direct := (Calls.retrieveDirect env.bufAlloc ctx oid v₁.length osize).outcome (answer ctx oid)
      ((st.advance ctx oid).afterFill cfg env.objAlloc s.cache v₁.length ctx oid)
    (Calls.retrieveRados cfg env ctx s oid osize).outcome (answer ctx oid) st =
      (({ s with cache := c' }, direct.1), direct.2) := by
  unfold Calls.retrieveRados
  rw [hp]
  rw [outcome_bind, stat_outcome, hs, hv]
  dsimp only [radosCall]
  rw [outcome_bind, objFill_outcome]
  rw [hf]
  cases status with
  | success =>
    dsimp only
    rw [hp' rfl]
    rw [outcome_bind]
    rfl
  | _ =>
    rw [outcome_bind]
    rfl

section

variable (hinv : s.cache.Counted holds fault)
include hinv

lemma retrieve_found_iff (he : oid ≠ [])
    (hm : s.cache.Misses oid) (hc : st.Current ctx oid)
    (env : RetrieveEnv) (hs : st.turn.faults.stat = none) (hv : (st.advance ctx oid).value ctx oid = some v₁) :
    let r := (Calls.retrieveRados cfg env ctx s oid osize).outcome (answer ctx oid) st
    NewHold s.cache r.1.1.cache r.2.versions ∧ r.1.2.Delivers r.2.versions osize ↔
      (st.advance ctx oid).MissWhole cfg env s.cache holds ctx oid osize v₁ := by
  have hp := cachePin_miss he hm
  have hv1 : v₁ ∈ ((st.advance ctx oid).afterFill cfg env.objAlloc s.cache v₁.length ctx oid).versions := by
    have hi := hc.advance v₁ hv
    unfold afterFill
    split
    · exact mem_append_left _ hi
    · exact hi
  unfold MissWhole
  cases hg : (st.advance ctx oid).fillGets cfg env.objAlloc s.cache v₁.length ctx oid with
  | none =>
    have hf : ∃ status, status ≠ .success ∧ cacheFill cfg env.objAlloc s.cache oid v₁.length (fun _ =>
        (st.advance ctx oid).fillAnswer cfg env.objAlloc s.cache v₁.length ctx oid) = (s.cache, status) :=
      cacheFill_of_error hm (.inr (fillAnswer_of_none hg))
    obtain ⟨status, hne, hf⟩ := hf
    rw [retrieve_of_direct hp env hs hv hf fun h => absurd h hne]
    exact (and_iff_right (newHold_sheds hinv (.refl _) _)).trans (direct_delivers_iff hv1)
  | some got =>
    obtain ⟨c', hcl, hf⟩ := fillGets_some hg
    unfold gives at hf
    rw [← fillAnswer_of_gets hg] at hf
    have hn : ∀ {c''} (_ : c'.Sheds c'') (_ : ∀ q, c'.LiveAt q → c''.LiveAt q) (versions : List Bytes),
        NewHold s.cache c'' versions ↔ (FillKept cfg s.cache holds v₁.length → got ∈ versions) :=
      fun hh hlv versions => new_objects_iff hinv hcl hh (hlv _) versions
    by_cases hkp : FillKept cfg s.cache holds v₁.length ∧ oid.length ≤ 255
    · obtain ⟨c'', hp', ho, hh, hlv⟩ := pin_filled hinv hm he hcl hkp.1 hkp.2
      rw [retrieve_of_pinned hp env hs hv hf hp']
      dsimp only
      rw [if_pos hkp.2, pinned_delivers_iff env.resAlloc { s with cache := c'' } ho]
      show NewHold s.cache (cacheUnpin c'' s.cache.nextPtr) _ ∧ _ ↔ _
      rw [hn hh hlv]
      constructor
      · rintro ⟨hi, -⟩
        exact ⟨hi, fun h => absurd hkp.1 h⟩
      · rintro ⟨hi, -⟩
        exact ⟨hi, fun _ => ⟨got, hi hkp.1, rfl, rfl⟩⟩
    · rw [retrieve_of_direct hp env hs hv hf fun _ => pin_not_filled hinv hm hcl hkp]
      refine (and_congr (hn (.refl _) (fun _ h => h) _) (direct_delivers_iff hv1)).trans ?_
      rw [direct_state]
      dsimp only
      by_cases hl : oid.length ≤ 255
      · have hgn : ¬ FillKept cfg s.cache holds v₁.length := fun h => hkp ⟨h, hl⟩
        rw [if_pos hl]
        exact ⟨fun h => ⟨fun hk => absurd hk hgn, fun _ => h.2⟩, fun h => ⟨fun hk => absurd hk hgn, h.2 hgn⟩⟩
      · rw [if_neg hl]

lemma retrieve_iff (hk : oid ≠ []) (hc : st.Current ctx oid) (env : RetrieveEnv) :
    let r := (retrieveRados cfg env ctx s oid osize).outcome (answer ctx oid) st
    NewHold s.cache r.1.1.cache r.2.versions ∧ r.1.2.Delivers r.2.versions osize ↔
      st.RetrieveWhole cfg env s.cache holds ctx oid osize := by
  unfold RetrieveWhole
  cases hh : (nkvxObjLookup s.cache oid).filter ObjEntry.filled with
  | some o =>
    obtain ⟨c', hp, ho, hsh, -⟩ := pin_of_lookup hinv.objs.nodup hk hh
    unfold retrieveRados
    rw [hp]
    exact (and_iff_right (newHold_sheds hinv hsh _)).trans
      (pinned_delivers_iff env.resAlloc { s with cache := c' } ho)
  | none =>
    have hf : ∀ {status : IoStatus} {st' : Contended}, status ≠ .success → status ≠ .bufferTooSmall →
        NewHold s.cache s.cache st'.versions ∧ (ExecResult.only status).Delivers st'.versions osize :=
      fun h h' => ⟨newHold_sheds hinv (.refl _) _, delivers_only h h'⟩
    have hp := cachePin_miss hk hh
    cases hs : st.turn.faults.stat with
    | some code =>
      unfold retrieveRados
      rw [hp]
      rw [outcome_bind, stat_outcome, hs]
      exact ⟨fun _ _ => nofun, fun _ => hf nofun nofun⟩
    | none =>
      cases hv : (st.advance ctx oid).value ctx oid with
      | none =>
        unfold retrieveRados
        rw [hp]
        rw [outcome_bind, stat_outcome, hs, hv]
        exact ⟨fun _ _ _ => nofun, fun _ => hf nofun nofun⟩
      | some v₁ =>
        refine (retrieve_found_iff hinv hk hh hc env hs hv).trans ⟨fun h => ?_, fun h => h v₁ rfl rfl⟩
        rintro _ - ⟨⟩
        exact h

lemma exec_iff (hk : oid ≠ [])
    (hm : s.cache.Misses oid) (env : RunEnv) (name : Bytes) (mod : ModSpec)
    (hs : st.turn.faults.stat = none) (hv : (st.advance ctx oid).value ctx oid = some v₁) :
    let filled := (st.advance ctx oid).fillAnswer cfg env.objAlloc s.cache v₁.length ctx oid
    let st2 := (st.advance ctx oid).afterFill cfg env.objAlloc s.cache v₁.length ctx oid
    (Calls.execRun cfg env ctx s oid name mod osize).outcome (answer ctx oid) st =
        (runCached cfg env s name (some mod) oid v₁.length (fun _ => filled) osize, st2) ∧
      (NewHold s.cache (coldFill cfg env.objAlloc s.cache oid v₁.length fun _ => filled).1 st2.versions ↔
        (st.advance ctx oid).FillWhole cfg env.objAlloc s.cache holds v₁.length ctx oid) := by
  have hp := cachePin_miss hk hm
  constructor
  · unfold Calls.execRun
    rw [hp]
    rw [outcome_bind, stat_outcome, hs, hv]
    dsimp only [radosCall]
    rw [outcome_bind, objFill_outcome]
    rfl
  unfold FillWhole
  cases hg : (st.advance ctx oid).fillGets cfg env.objAlloc s.cache v₁.length ctx oid with
  | none =>
    obtain ⟨e, he⟩ := fillAnswer_of_none hg
    rw [he]
    refine ⟨fun _ _ => nofun, fun _ => newHold_sheds hinv ?_ _⟩
    unfold coldFill
    split <;> exact .refl _
  | some got =>
    obtain ⟨c', hc, -⟩ := fillGets_some hg
    rw [fillAnswer_of_gets hg, hc]
    refine (new_objects_iff hinv hc (.refl _) id _).trans ⟨fun h => ?_, fun h => h got rfl⟩
    rintro _ ⟨⟩
    exact h

end

lemma exec_missing (hk : oid ≠ []) (hm : s.cache.Misses oid) (env : RunEnv)
    (name : Bytes) (mod : ModSpec)
    (hn : ∀ v₁, st.turn.faults.stat = none → (st.advance ctx oid).value ctx oid ≠ some v₁) :
    ∃ status, (Calls.execRun cfg env ctx s oid name mod osize).outcome (answer ctx oid) st =
      ((s, .only status), st.advance ctx oid) := by
  have hp := cachePin_miss hk hm
  unfold Calls.execRun
  rw [hp]
  rw [outcome_bind, stat_outcome]
  cases hs : st.turn.faults.stat with
  | some code => exact ⟨.failed, rfl⟩
  | none =>
    cases hv : (st.advance ctx oid).value ctx oid with
    | none => exact ⟨.keyNotExist, rfl⟩
    | some v₁ => exact absurd hv (hn v₁ hs)

lemma missWhole_of_lengths (hc : st.Current ctx oid) (env : RetrieveEnv)
    (hfl : ∀ v2, (st.advance ctx oid).value ctx oid = some v2 → v2.length ≤ backing v₁.length - wasmObjOff)
    (hd : ∀ v3, ((st.afterFill cfg env.objAlloc s.cache v₁.length ctx oid).advance ctx oid).value ctx oid = some v3 →
      satU32 v3.length = satU32 v₁.length) :
    st.MissWhole cfg env s.cache holds ctx oid osize v₁ := by
  have hr : (st.afterFill cfg env.objAlloc s.cache v₁.length ctx oid).DirectWhole ctx oid env.bufAlloc v₁ osize :=
    fun _ _ _ v3 hv3 => ⟨v3, hc.afterFill.advance v3 hv3, hd v3 hv3, rfl⟩
  unfold MissWhole
  cases hg : st.fillGets cfg env.objAlloc s.cache v₁.length ctx oid with
  | none => exact hr
  | some got =>
    have hi : got ∈ (st.afterFill cfg env.objAlloc s.cache v₁.length ctx oid).versions := by
      unfold fillGets at hg
      unfold afterFill
      cases ha : fillAsks cfg env.objAlloc s.cache oid v₁.length with
      | none => simp [ha] at hg
      | some room =>
        have hm : room = backing v₁.length - wasmObjOff := by
          unfold fillAsks at ha
          split at ha
          · exact (Option.some.inj ha).symm
          · cases ha
        cases hf : st.turn.faults.read with
        | some code => simp [ha, hf] at hg
        | none =>
          simp only [ha, hf, map_eq_some_iff] at hg
          obtain ⟨v2, hv2, rfl⟩ := hg
          rw [take_of_length_le (hm ▸ hfl v2 hv2)]
          exact hc.advance v2 hv2
    have hl : got ∈ ((st.afterFill cfg env.objAlloc s.cache v₁.length ctx oid).afterDirect ctx oid env.bufAlloc v₁
        osize).versions := by
      unfold afterDirect
      split
      · exact mem_append_left _ hi
      · exact hi
    dsimp only
    split
    · exact ⟨fun _ => hi, fun _ => hr⟩
    · exact ⟨fun _ => hl, hr⟩

end Requests

end Contended

/-- While somebody else replaces the value, a Retrieve returns and caches complete versions of it
exactly if `RetrieveWhole` holds of what the writes do between its calls, and the fill of an Exec
exactly if `FillWhole` does. -/
theorem reads_one_version_iff (api : WasmApi) (cfg : WasmConfig) (evs : List CacheCall)
    (key : Bytes) (hkey : key ≠ [])
    (ctx : IoCtx) (objs : Objects) (turns : List WriterTurn) (osize : Nat) :
    let s := Callers.after api cfg evs
    let oid := nkvxKeyToOid key
    let h := Contended.answer ctx oid
    let st := Contended.start ctx oid objs turns
    let st₁ := st.advance ctx oid
    (∀ env : RetrieveEnv,
      let r := (Calls.retrieveRados cfg env ctx s.wasm oid osize).outcome h st
      Contended.NewHold s.wasm.cache r.1.1.cache r.2.versions ∧ r.1.2.Delivers r.2.versions osize ↔
        st.RetrieveWhole cfg env s.wasm.cache s.pins ctx oid osize) ∧
    ((nkvxObjLookup s.wasm.cache oid).filter ObjEntry.filled = none → ∀ (env : RunEnv)
      (name : Bytes) (mod : ModSpec),
      let r := (Calls.execRun cfg env ctx s.wasm oid name mod osize).outcome h st
      ((∀ v₁, st.turn.faults.stat = none → st₁.value ctx oid ≠ some v₁) → ∃ status,
        r = ((s.wasm, .only status), st₁)) ∧
      ∀ v₁, st.turn.faults.stat = none → st₁.value ctx oid = some v₁ →
        let filled := st₁.fillAnswer cfg env.objAlloc s.wasm.cache v₁.length ctx oid
        let st₂ := st₁.afterFill cfg env.objAlloc s.wasm.cache v₁.length ctx oid
        r = (runCached cfg env s.wasm name (some mod) oid v₁.length (fun _ => filled) osize, st₂) ∧
          (Contended.NewHold s.wasm.cache
            (coldFill cfg env.objAlloc s.wasm.cache oid v₁.length fun _ => filled).1
              st₂.versions ↔
            st₁.FillWhole cfg env.objAlloc s.wasm.cache s.pins v₁.length ctx oid)) := by
  intro s oid h st st₁
  have hinv := counted_after api cfg evs
  have hoid : oid ≠ [] := by
    intro hnil
    have hlen := congrArg List.length hnil
    cases key with
    | nil => exact hkey rfl
    | cons b key => simp [oid, nkvxKeyToOid] at hlen
  refine ⟨fun env => Contended.retrieve_iff hinv hoid (Contended.current_start objs turns) env, ?_⟩
  intro hms env name mod
  refine ⟨fun hn => Contended.exec_missing hoid hms env name mod hn, fun v₁ hst hvl => ?_⟩
  exact Contended.exec_iff hinv hoid hms env name mod hst hvl

def WriterTurn.of (writes : List Bytes) : WriterTurn := ⟨writes, .none⟩

/-- The value `[1, 2]` is replaced by `[3, 4]` after the size was asked: `[3, 4]` is returned and
cached. -/
theorem reads_one_version_replaced :
    let key : Bytes := [7]
    let objs : Objects := Dict.empty.insert (dataPool, nkvxKeyToOid key) [1, 2]
    let st := Contended.start dataPool (nkvxKeyToOid key) objs [.of [], .of [[3, 4]]]
    let s := Callers.after toyApi .default []
    let r := (Calls.retrieveRados .default .good dataPool s.wasm (nkvxKeyToOid key) 16).outcome
      (Contended.answer dataPool (nkvxKeyToOid key)) st
    r.1.2 = ⟨.success, 2, some [3, 4]⟩ ∧ r.2.versions = [[1, 2], [3, 4]] ∧
      Contended.NewHold s.wasm.cache r.1.1.cache r.2.versions ∧ r.1.2.Delivers r.2.versions 16 := by
  refine ⟨by decide +kernel, by decide +kernel, ?_⟩
  refine ((reads_one_version_iff toyApi .default [] [7] (by decide) dataPool _ _ 16).1 .good).mpr ?_
  rintro v₁ - hv₁
  have hv : v₁ = [1, 2] := Option.some.inj (hv₁.symm.trans (by decide +kernel))
  subst hv
  refine Contended.missWhole_of_lengths (Contended.current_start _ _).advance .good ?_ ?_
  · intro v₂ hv₂
    have hv : v₂ = [3, 4] := Option.some.inj (hv₂.symm.trans (by decide +kernel))
    subst hv
    exact Nat.le_of_ble_eq_true rfl
  intro v₃ hv₃
  have hv : v₃ = [3, 4] := Option.some.inj (hv₃.symm.trans (by decide +kernel))
  subst hv
  rfl

/-- A key of 128 bytes is cut in the entry, so the Retrieve reads once more, and returns the length
of `[1, 2]` with the byte of `[3]`. -/
theorem changed_value_torn :
    (let oid := nkvxKeyToOid (List.replicate 128 107)
      let objs : Objects := Dict.empty.insert (dataPool, oid) [1, 2]
      let r := (Calls.retrieveRados .default .good dataPool (Callers.after toyApi .default []).wasm
        oid 16).outcome
        (Contended.answer dataPool oid)
          (Contended.start dataPool oid objs [.of [], .of [], .of [[3]]])
      r.1.2 = ⟨.success, 2, some [3]⟩ ∧ r.2.versions = [[1, 2], [3]] ∧
        ∀ v ∈ r.2.versions, r.1.2 ≠ plainRetrieve (some v) 16) ∧
    (let oid := nkvxKeyToOid [7]
      let grown : Bytes := List.replicate 65281 0
      let objs : Objects := Dict.empty.insert (dataPool, oid) []
      let st := Contended.start dataPool oid objs [.of [], .of [grown]]
      let s := Callers.after toyApi .default []
      let r := (Calls.retrieveRados .default .good dataPool s.wasm oid 16).outcome
        (Contended.answer dataPool oid) st
      ¬ (Contended.NewHold s.wasm.cache r.1.1.cache r.2.versions ∧
        r.1.2.Delivers r.2.versions 16)) := by
  refine ⟨⟨by decide +kernel, by decide +kernel, by decide +kernel⟩, ?_⟩
  intro oid grown objs st s r hwhole
  have hms := (Contended.retrieve_iff (counted_after toyApi .default []) (by decide) (Contended.current_start _ _) .good).mp
    hwhole [] rfl rfl
  have hgot : (grown.take 65280).length = 65280 := by rw [length_take, length_replicate]; rfl
  have hin : grown.take 65280 ∈ [[], grown] := hms.1 (.inr (by decide +kernel))
  rcases mem_cons.mp hin with hnil | hsm
  · simp [hnil] at hgot
  rw [mem_singleton.mp hsm, length_replicate] at hgot
  cases hgot

end RadosNkv
