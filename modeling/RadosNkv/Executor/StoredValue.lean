import RadosNkv.Executor.Bookkeeping
import RadosNkv.Executor.Isolation

/-! What readers see of a stored value. -/

namespace RadosNkv

open List Executor ObjEntry Cache.Sheds

variable {api : WasmApi} {cfg : WasmConfig}

def ObjEntry.objectBytes (o : ObjEntry) : Bytes :=
  (List.range o.objLen).map fun i => o.mem (wasmObjOff + i)

structure ObjEntry.Retains (o o' : ObjEntry) : Prop extends o.Evolves o' where
  bytes : o'.objectBytes = o.objectBytes

lemma ObjEntry.Retains.refl (o : ObjEntry) : o.Retains o := ⟨.refl o, rfl⟩

lemma ObjEntry.Retains.trans {o1 o2 o3 : ObjEntry} (h : o1.Retains o2) (h' : o2.Retains o3) : o1.Retains o3 :=
  ⟨h.toEvolves.trans h'.toEvolves, h'.bytes.trans h.bytes⟩

variable {o : ObjEntry}

lemma ObjEntry.Ages.retains (h : o.Ages o') : o.Retains o' := by
  refine ⟨h.evolves, ?_⟩
  rw [objectBytes, h.objLen, h.mem, objectBytes]

lemma coldEntry_objectBytes (p : ObjPtr) (objKey : Bytes) (objectLen : Nat) (got : Bytes) :
    (coldEntry p objKey objectLen got).objectBytes = got := by
  apply ext_getElem
  · simp [objectBytes, coldEntry]
  intro i hi hi'
  simp [objectBytes, coldEntry, coldImage, hi']

def Cache.Shows {μ : Type} (rados : Bytes → Option Bytes) (c : Cache μ) : Prop :=
  ∀ o ∈ c.objects, o.dead = false → ∀ key, o.objKey = nkvxKeyToOid key →
    rados (nkvxKeyToOid key) = some o.objectBytes

structure Cache.Loads {μ : Type} (rados : Bytes → Option Bytes) (oid : Bytes) (c c' : Cache μ) : Prop where
  nextPtr : c.nextPtr ≤ c'.nextPtr
  objects : ∀ o' ∈ c'.objects, (∃ o ∈ c.objects, o.Retains o') ∨
    (c.nextPtr ≤ o'.ptr ∧ o'.objKey = cstrFit 256 oid ∧ rados oid = some o'.objectBytes)

section Loads

variable {μ : Type} {rados : Bytes → Option Bytes} {c c' c'' : Cache μ}

lemma Cache.Loads.trans (h : c.Loads rados oid c') (h' : c'.Loads rados oid c'') : c.Loads rados oid c'' where
  nextPtr := le_trans h.nextPtr h'.nextPtr
  objects := by
    intro o'' ho''
    obtain ⟨o', ho', hr'⟩ | ⟨hn, hk, hv⟩ := h'.objects o'' ho''
    · obtain ⟨o, ho, hr⟩ | ⟨hn, hk, hv⟩ := h.objects o' ho'
      · exact .inl ⟨o, ho, hr.trans hr'⟩
      refine .inr ⟨hr'.ptr ▸ hn, hr'.objKey.trans hk, ?_⟩
      rw [hr'.bytes]
      exact hv
    · exact .inr ⟨le_trans h.nextPtr hn, hk, hv⟩

lemma Cache.Sheds.loads (h : c.Sheds c') : c.Loads rados oid c' := by
  refine ⟨le_of_eq h.nextPtr.symm, fun o' ho' => .inl ?_⟩
  obtain ⟨o, ho, ha⟩ := h.objects o' ho'
  exact ⟨o, ho, ha.retains⟩

lemma Cache.loads_listAdd (c : Cache μ) (hv : rados oid = some got) :
    c.Loads rados oid (nkvxObjListAdd { c with nextPtr := c.nextPtr + 1 }
      (coldEntry c.nextPtr oid objectLen got)) := by
  refine ⟨Nat.le_succ _, fun o' ho' => ?_⟩
  rcases mem_append.mp ho' with hold | hn
  · exact .inl ⟨o', hold, .refl o'⟩
  obtain rfl := mem_singleton.mp hn
  exact .inr ⟨le_rfl, rfl, by rw [coldEntry_objectBytes, hv]⟩

lemma Cache.Shows.loads (h : c.Shows rados) (hc : c.Loads rados (nkvxKeyToOid key0) c') :
    c'.Shows rados := by
  intro o' ho' hl key hk
  obtain ⟨o, ho, hr⟩ | ⟨_, hn, hv⟩ := hc.objects o' ho'
  · have he : o.dead = false := by
      rw [Bool.eq_false_iff] at hl ⊢
      exact fun hd => hl (hr.dead hd)
    rw [h o ho he key (hr.objKey.symm.trans hk), hr.bytes]
  · rw [← oid_of_cstrFit (hn.symm.trans hk), hv]

lemma Cache.Shows.sheds (h : c.Shows rados) (hc : c.Sheds c') : c'.Shows rados := by
  have hl : c.Loads rados (nkvxKeyToOid []) c' := hc.loads
  exact h.loads hl

lemma Cache.Loads.bytes_same (h : c.Loads rados oid c') (ha : c.Addressed) (ho : o ∈ c.objects)
    (ho' : o' ∈ c'.objects) (hp : o'.ptr = o.ptr) : o'.objectBytes = o.objectBytes := by
  obtain ⟨o1, ho1, hr⟩ | ⟨hn, _, _⟩ := h.objects o' ho'
  · have hs : o1 = o := inj_on_of_nodup_map ha.nodup ho1 ho (hr.ptr.symm.trans hp)
    rw [hr.bytes, hs]
  have hl := ha.objects o ho
  rw [hp] at hn
  exact absurd hl (not_lt.mpr hn)

end Loads

/-! ### Fills and Retrieves -/

section Retrieve

variable {ex : Executor api} {faults : RadosFaults}

variable (cfg : WasmConfig)

lemma loads_coldFill (alloc : Bool) (c : Cache api.Module)
    (hs : (ex.answers faults oid).stat = .ok size) : c.Loads ex.rados oid
      (coldFill cfg alloc c oid size (nkvxObjFill (ex.answers faults oid))).1 := by
  obtain ⟨status, he⟩ | ⟨got, c', hg, hh, he⟩ :=
    coldFill_cases cfg alloc c oid size (nkvxObjFill (ex.answers faults oid))
  · rw [he]
    exact (refl c).loads
  rw [he]
  obtain ⟨_, hv, _⟩ := fills_value ⟨rfl, hs, hg⟩
  exact (c.loads_listAdd hv).trans hh.loads

lemma loads_cacheFill (alloc : Bool) (c : Cache api.Module)
    (hs : (ex.answers faults oid).stat = .ok size) : c.Loads ex.rados oid
      (cacheFill cfg alloc c oid size (nkvxObjFill (ex.answers faults oid))).1 := by
  have hc := loads_coldFill cfg alloc c hs
  fun_cases cacheFill
  case case3 o _ => exact (objTouch c o.ptr).loads
  case case4 he =>
    rw [he] at hc
    exact hc
  case case5 he =>
    rw [he] at hc
    exact hc
  all_goals exact (refl c).loads

def plainRetrieve (value : Option Bytes) (osize : Nat) : ExecResult :=
  match value with
  | none => .only .keyNotExist
  | some v =>
    let resultLen := satU32 v.length
    let deliver := min osize resultLen
    ⟨fitStatus resultLen osize, resultLen, if deliver = 0 then none else some (v.take deliver)⟩

def RetrieveEnv.good : RetrieveEnv := ⟨true, true, true⟩

lemma pinObject_updated {c : Cache api.Module} (hn : (c.objects.map ptr).Nodup)
    (ho : o ∈ c.objects) (hf : o.filled = true) :
    pinObject (c.updateObj o.ptr fun o => { o with refcount := o.refcount + 1 }) o.ptr = some o.objectBytes := by
  have hd := (updateObj c o.ptr (f := fun o => { o with refcount := o.refcount + 1 })
    fun _ => ⟨rfl, rfl, rfl, rfl, rfl, rfl, rfl, id⟩).nodup hn
  have hi : ({ o with refcount := o.refcount + 1 } : ObjEntry) ∈
      (c.updateObj o.ptr fun o => { o with refcount := o.refcount + 1 }).objects :=
    Tailq.map_mem_modify ho rfl
  have hb := Tailq.find_of_mem hd hi
  rw [pinObject, Cache.obj, hb]
  simp [hf, objectBytes]

lemma pinObject_of_pin {c c' : Cache api.Module} {rados : Bytes → Option Bytes} (ha : c.Addressed)
    (hs : c.Shows rados) (hp : cachePin c (nkvxKeyToOid key) = (c', some p)) :
    ∃ v, rados (nkvxKeyToOid key) = some v ∧ pinObject c' p = some v := by
  unfold cachePin at hp
  split at hp
  · cases hp
  cases hl : nkvxObjLookup c (nkvxKeyToOid key) with
  | none =>
    rw [hl] at hp
    cases hp
  | some o =>
    rw [hl] at hp
    dsimp only at hp
    split at hp
    · next hf =>
      cases hp
      obtain ⟨ho, hv, hk⟩ := objLookup_some hl
      exact ⟨o.objectBytes, hs o ho hv key hk, pinObject_updated ha.nodup ho hf⟩
    · cases hp

lemma retrievePinned_plain (s : WasmState api) (h : pinObject s.cache p = some v) (osize : Nat) :
    (retrievePinned true s p osize).2 = plainRetrieve (some v) osize := by
  simp only [retrievePinned, h, Option.getD_some, nkvxResultSet, plainRetrieve, Bool.not_true,
    Bool.false_eq_true, if_false]
  split <;> rfl

lemma retrieveDirect_plain {ans : RadosAnswers} (h : ans.direct = .ok v) (osize : Nat) :
    retrieveDirect .good ans v.length osize = plainRetrieve (some v) osize := by
  simp only [retrieveDirect, h, RetrieveEnv.good, plainRetrieve, Bool.not_true, Bool.false_eq_true, if_false]
  split <;> rfl

lemma retrieve_plain (ha : ex.wasm.cache.Addressed)
    (hh : ex.wasm.cache.Shows ex.rados) (key : Bytes) (osize : Nat) :
    (nkvxRetrieve cfg .good (ex.answers .none (nkvxKeyToOid key)) ex.wasm (nkvxKeyToOid key) osize).2 =
      plainRetrieve (ex.rados (nkvxKeyToOid key)) osize := by
  have hp := pin ex.wasm.cache (nkvxKeyToOid key)
  have hd : ∀ {size}, (ex.answers .none (nkvxKeyToOid key)).stat = .ok size →
      retrieveDirect .good (ex.answers .none (nkvxKeyToOid key)) size osize =
        plainRetrieve (ex.rados (nkvxKeyToOid key)) osize := by
    intro size hs
    cases hv : ex.rados (nkvxKeyToOid key) with
    | none => simp [answers, radosCall, RadosFaults.none, hv] at hs
    | some v =>
      simp only [answers, radosCall, RadosFaults.none, hv, Except.ok.injEq] at hs
      rw [← hs]
      exact retrieveDirect_plain (by simp [answers, radosCall, RadosFaults.none, hv]) osize
  fun_cases nkvxRetrieve
  case case1 c p he =>
    obtain ⟨v, hv, ho⟩ := pinObject_of_pin ha hh he
    rw [hv]
    exact retrievePinned_plain { ex.wasm with cache := c } ho osize
  case case2 hs =>
    cases hv : ex.rados (nkvxKeyToOid key) with
    | none => rfl
    | some v => simp [answers, radosCall, RadosFaults.none, hv] at hs
  case case3 err hn hs =>
    cases hv : ex.rados (nkvxKeyToOid key) with
    | none =>
      simp only [answers, radosCall, RadosFaults.none, hv, Except.error.injEq] at hs
      exact absurd hs.symm hn
    | some v => simp [answers, radosCall, RadosFaults.none, hv] at hs
  case case4 c he _ size hs c1 he1 c2 p he2 =>
    rw [he] at hp
    have hm := (draws_cacheFill (F := (ex.answers .none (nkvxKeyToOid key)).Fills (nkvxKeyToOid key))
      cfg (fun got hg => ⟨rfl, hs, hg⟩) RetrieveEnv.good.objAlloc c).moves
    have hl := loads_cacheFill cfg RetrieveEnv.good.objAlloc c hs
    rw [he1] at hm hl
    obtain ⟨v, hv, ho⟩ := pinObject_of_pin ((ha.sheds hp).moves hm)
      (hh.loads (hp.loads.trans hl)) he2
    rw [hv]
    exact retrievePinned_plain { ex.wasm with cache := c2 } ho osize
  case case5 size hs _ _ _ _ => exact hd hs
  case case6 size hs _ _ _ _ => exact hd hs

lemma loads_retrieve (env : RetrieveEnv) (ex : Executor api) (faults : RadosFaults)
    (oid : Bytes) (osize : Nat) : ex.wasm.cache.Loads ex.rados oid
      (nkvxRetrieve cfg env (ex.answers faults oid) ex.wasm oid osize).1.cache := by
  have hp : ∀ {c c' : Cache api.Module} {p}, cachePin c oid = (c', p) →
      c.Loads ex.rados oid c' := by
    intro c c' p he
    have hh := pin c oid
    rw [he] at hh
    exact hh.loads
  have hf : ∀ {c c' : Cache api.Module} {size status}, (ex.answers faults oid).stat = .ok size →
      cacheFill cfg env.objAlloc c oid size (nkvxObjFill (ex.answers faults oid)) = (c', status) →
      c.Loads ex.rados oid c' := by
    intro c c' size status hs he
    have hl := loads_cacheFill cfg env.objAlloc c hs
    rw [he] at hl
    exact hl
  fun_cases nkvxRetrieve
  case case1 he => exact (hp he).trans (unref ..).loads
  case case2 he _ _ => exact hp he
  case case3 he _ _ _ _ => exact hp he
  case case4 he _ size hs c he' c' p he'' =>
    exact (((hp he).trans (hf hs he')).trans (hp he'')).trans (unref ..).loads
  case case5 he _ size hs c he' c' he'' =>
    exact ((hp he).trans (hf hs he')).trans (hp he'')
  case case6 he _ size hs c status _ he' => exact (hp he).trans (hf hs he')

end Retrieve

/-- Runs of the module leave the object's bytes as they are. -/
def WasmApi.Spares (api : WasmApi) (m : api.Module) : Prop :=
  ∀ caps clock name readOnly objLen outLen (z : ZcMem) a, wasmObjOff ≤ a → a < wasmObjOff + objLen →
    (runInstance api caps clock m name readOnly objLen outLen z).2 a = z.base a

section Exec

variable {s : WasmState api} {env : RunEnv} {rados : Bytes → Option Bytes}

lemma instanceMemory_base (h : instanceMemory api m alloc o = some z) (ho : z.owned = false) :
    z.base = o.mem := by
  unfold instanceMemory nkvxZcNewMemory at h
  split at h
  · cases h
    cases ho
  split_ifs at h <;> cases h
  · rfl
  · cases ho

lemma writeBack_retains (hm : api.Spares m) (hz : instanceMemory api m alloc o = some z)
    (ha : o.Ages o1) (caps : WasmCaps) (clock : RunClock) (readOnly : Bool) (outLen : Nat) :
    o1.Retains (o1.writeBack z (runInstance api caps clock m name readOnly o.objLen outLen z).2) := by
  refine ⟨o1.writeBack_evolves z _, ?_⟩
  unfold writeBack
  split
  · rfl
  next ho =>
  have hb := instanceMemory_base hz (by simpa using ho)
  apply map_congr_left
  intro i hi
  have hl : i < o.objLen := ha.objLen ▸ mem_range.mp hi
  have hs := hm caps clock name readOnly o.objLen outLen z (wasmObjOff + i) (Nat.le_add_right _ _)
    (by omega)
  show (if wasmObjOff + i < o1.memCap then _ else o1.mem (wasmObjOff + i)) = o1.mem (wasmObjOff + i)
  rw [hs, hb, ha.mem]
  exact ite_self _

lemma warmObtain_ages (cfg : WasmConfig) (env : RunEnv) (s : WasmState api) (name : Bytes)
    (mod : Option ModSpec) (o : ObjEntry) : s.cache.nextPtr ≤ (warmObtain cfg env s name mod o).1.cache.nextPtr ∧
      ∀ o' ∈ (warmObtain cfg env s name mod o).1.cache.objects, ∃ o0 ∈ s.cache.objects, o0.Ages o' := by
  have hs : ∀ {c : Cache api.Module}, c = s.cache →
      s.cache.nextPtr ≤ c.nextPtr ∧ ∀ o' ∈ c.objects, ∃ o0 ∈ s.cache.objects, o0.Ages o' := by
    rintro c rfl
    exact ⟨le_rfl, fun o' ho' => ⟨o', ho', .refl o'⟩⟩
  have hm := cache_warmModule cfg env mod s
  fun_cases warmObtain
  case case1 w _ =>
    have hh := warmTouch s.cache w
    exact ⟨le_of_eq hh.nextPtr.symm, hh.objects⟩
  case case2 =>
    fun_cases nkvxWarmBuild
    case case5 s1 m he _ =>
      rw [he] at hm
      have hsm : s1.cache = s.cache := hm
      have hp : s.cache.Sheds (s.cache.updateObj o.ptr fun o => { o with refcount := o.refcount + 1 }) :=
        .updateObj s.cache o.ptr fun _ => ⟨rfl, rfl, rfl, rfl, rfl, rfl, rfl, id⟩
      have hc := warmCacheEnforceCaps cfg (s.cache.linkWarm name m o)
      rw [hsm]
      refine ⟨le_trans (Nat.le_succ _) (le_of_eq hc.nextPtr.symm), fun o' ho' => ?_⟩
      obtain ⟨o1, ho1, ha1⟩ := hc.objects o' ho'
      obtain ⟨o0, ho0, ha0⟩ := hp.objects o1 ho1
      exact ⟨o0, ho0, ha0.trans ha1⟩
    case case3 he =>
      rw [he] at hm
      exact hs hm
    case case4 he _ =>
      rw [he] at hm
      exact hs hm
    all_goals exact hs rfl

lemma loads_runOnObject (hn : (s.cache.objects.map ptr).Nodup) (p : ObjPtr) (outLen : Nat)
    (hs : ∀ d m, (nkvxRunOnObjectLocked cfg env s name mod p outLen).1.entered = ⟨d, m⟩ :: s.entered → api.Spares m) :
    s.cache.Loads rados oid (nkvxRunOnObjectLocked cfg env s name mod p outLen).1.cache := by
  unfold nkvxRunOnObjectLocked at hs ⊢
  cases hob : s.cache.obj p with
  | none => exact (bad s.cache).loads
  | some o =>
    rw [hob] at hs
    obtain ⟨ho, _⟩ := Tailq.find_some hob
    obtain ⟨hx, hg⟩ := warmObtain_ages cfg env s name mod o
    have he := entered_warmObtain cfg env s name mod o
    dsimp only at hs ⊢
    generalize warmObtain cfg env s name mod o = r at hx hg he hs
    have hk : s.cache.Loads rados oid r.1.cache := by
      refine ⟨hx, fun o' ho' => .inl ?_⟩
      obtain ⟨o0, ho0, ha⟩ := hg o' ho'
      exact ⟨o0, ho0, ha.retains⟩
    obtain ⟨s', _ | m⟩ := r
    · exact hk
    dsimp only at hs he ⊢
    fun_cases runModule
    case case3 s1 z hz caps readOnly r =>
      have hm : api.Spares m := by
        refine hs (mod.map ModSpec.sha256) m ?_
        unfold runModule
        simp [*]
      refine ⟨hx, fun o' ho' => .inl ?_⟩
      obtain ⟨b, hb, ⟨hp, rfl⟩ | ⟨_, rfl⟩⟩ := Tailq.mem_modify ho'
      · obtain ⟨o0, ho0, ha⟩ := hg b hb
        have hsm : o0 = o := inj_on_of_nodup_map hn ho0 ho (ha.ptr.symm.trans hp)
        subst hsm
        exact ⟨o0, ho0, ha.retains.trans (writeBack_retains hm hz ha ..)⟩
      obtain ⟨o0, ho0, ha⟩ := hg o' hb
      exact ⟨o0, ho0, ha.retains⟩
    all_goals exact hk

lemma loads_runPinned (hn : (s.cache.objects.map ptr).Nodup) (p : ObjPtr) (outLen : Nat)
    (hs : ∀ d m, (runPinned cfg env s name mod p outLen).1.entered = ⟨d, m⟩ :: s.entered → api.Spares m) :
    s.cache.Loads rados oid (runPinned cfg env s name mod p outLen).1.cache := by
  unfold runPinned at hs ⊢
  split_ifs at hs ⊢
  · exact (refl _).loads
  · exact loads_runOnObject hn p outLen hs

end Exec

section ExecRun

variable {ex : Executor api} {env : ExecEnv} {faults : RadosFaults}

lemma loads_runCached {s : WasmState api} (ha : s.cache.Addressed)
    (hst : (ex.answers faults oid).stat = .ok size) (outLen : Nat)
    (hs : ∀ d m, (runCached cfg env.run s name (some mod) oid size (nkvxObjFill (ex.answers faults
      oid)) outLen).1.entered = ⟨d, m⟩ :: s.entered → api.Spares m) :
    s.cache.Loads ex.rados oid (runCached cfg env.run s name (some mod) oid size
      (nkvxObjFill (ex.answers faults oid)) outLen).1.cache := by
  have hc := loads_coldFill cfg env.run.objAlloc s.cache hst
  have hm := (draws_coldFill (F := (ex.answers faults oid).Fills oid) cfg
    (fun got hg => ⟨rfl, hst, hg⟩) env.run.objAlloc s.cache).moves
  revert hs
  fun_cases runCached
  case case3 o _ =>
    intro hs
    have ht := objTouch s.cache o.ptr
    exact ht.loads.trans (loads_runOnObject (s := { s with cache := nkvxObjTouch s.cache o.ptr })
      (ht.nodup ha.nodup) o.ptr outLen hs)
  case case4 he =>
    intro _
    rw [he] at hc
    exact hc
  case case5 c p he =>
    intro hs
    rw [he] at hc hm
    exact hc.trans
      (loads_runOnObject (s := { s with cache := c }) (ha.moves hm).nodup p outLen hs)
  all_goals exact fun _ => (refl _).loads

lemma loads_execRun (ha : ex.wasm.cache.Addressed) (osize : Nat)
    (hs : ∀ d m, (execRun cfg env (ex.answers faults oid) ex.wasm oid name mod osize).1.entered =
      ⟨d, m⟩ :: ex.wasm.entered → api.Spares m) : ex.wasm.cache.Loads ex.rados oid
      (execRun cfg env (ex.answers faults oid) ex.wasm oid name mod osize).1.cache := by
  have hp := pin ex.wasm.cache oid
  revert hs
  fun_cases execRun
  case case1 c p he r =>
    intro hs
    rw [he] at hp
    exact (hp.loads.trans (loads_runPinned (s := { ex.wasm with cache := c }) (hp.nodup ha.nodup) p
      osize hs)).trans (unref _ p).loads
  case case4 c he _ size ht =>
    intro hs
    rw [he] at hp
    exact hp.loads.trans
      (loads_runCached (s := { ex.wasm with cache := c }) (ha.sheds hp) ht osize hs)
  case case2 he _ _ =>
    intro _
    rw [he] at hp
    exact hp.loads
  case case3 he _ _ _ _ =>
    intro _
    rw [he] at hp
    exact hp.loads

lemma loads_executorRun (ha : ex.wasm.cache.Addressed) (req : ExecIn) (input : Option Bytes)
    (hs : ∀ d m, (nkvxExecutorRun cfg env (ex.answers faults (nkvxKeyToOid req.key)) ex.wasm req
      input).1.entered = ⟨d, m⟩ :: ex.wasm.entered → api.Spares m) : ex.wasm.cache.Loads ex.rados (nkvxKeyToOid req.key)
      (nkvxExecutorRun cfg env (ex.answers faults (nkvxKeyToOid req.key)) ex.wasm req input).1.cache := by
  cases h : execGranted cfg env ex.wasm req with
  | none =>
    rw [executorRun_refused h]
    exact (refl _).loads
  | some mod =>
    rw [executorRun_granted h] at hs ⊢
    exact loads_execRun ha req.osize hs

end ExecRun

lemma shows_mutates {ex ex' : Executor api} (hk0 : key0 ≠ []) (h : ex.wasm.cache.Shows ex.rados)
    (hm : ex.Mutates (nkvxKeyToOid key0) ex') : ex'.wasm.cache.Shows ex'.rados := by
  have hd := h.sheds (.invalidate ex.wasm.cache (nkvxKeyToOid key0))
  cases hm with
  | refused => exact h
  | dropped => exact hd
  | wrote value =>
    intro o ho hl key hk
    have hn : nkvxKeyToOid key ≠ nkvxKeyToOid key0 := hk ▸ invalidate_live_ne (keyToOid_ne_nil hk0) ho hl
    change Function.update ex.rados (nkvxKeyToOid key0) value (nkvxKeyToOid key) = _
    rw [Function.update_of_ne hn]
    exact hd o ho hl key hk

/-- The object fits the byte cap, and a module that runs leaves the object's bytes as they are. -/
def Executor.Spared (cfg : WasmConfig) (ex : Executor api) (ev : ExecutorEvent) : Prop :=
  ex.Fits cfg ev ∧ ∀ m, ex.Instantiates cfg ev m → api.Spares m

lemma shows_step {ex : Executor api} (ha : ex.wasm.cache.Addressed)
    (h : ex.wasm.cache.Shows ex.rados) (hs : ex.Spared cfg ev) :
    (ex.step cfg ev).wasm.cache.Shows (ex.step cfg ev).rados := by
  obtain ⟨_, hs⟩ := hs
  unfold Executor.Instantiates at hs
  unfold step at hs ⊢
  split_ifs at hs ⊢
  · exact h
  cases ev with
  | exec req input env faults => exact h.loads (loads_executorRun ha req input fun d m he => hs m ⟨d, he⟩)
  | retrieve req env faults =>
    simp only [handle]
    split
    · exact h
    · exact h.loads (loads_retrieve cfg env ex faults _ req.osize)
  | store req value opAlloc faults =>
    simp only [handle]
    split
    · exact h
    · next hk => exact shows_mutates hk h (store_mutates opAlloc faults ex _ req value)
  | delete req faults =>
    simp only [handle]
    split
    · exact h
    · next hk => exact shows_mutates hk h (delete_mutates faults ex _ req)
  | exist req faults =>
    simp only [handle]
    split <;> exact h

lemma shows_after {rados : Bytes → Option Bytes}
    (hs : Machine.Along (step cfg) (Executor.Spared cfg) (.init api rados) evs) :
    (Executor.after api cfg rados evs).wasm.cache.Shows (Executor.after api cfg rados evs).rados ∧
      (Executor.after api cfg rados evs).wasm.cache.Counted [] false := by
  have hr := Machine.run_induct_along (step cfg)
    (P := fun ex : Executor api => ex.wasm.Vetted ∧ ex.wasm.cache.Shows ex.rados ∧
      ex.wasm.cache.Counted [] false)
    ⟨vetted_init api, fun o ho => absurd ho not_mem_nil, .init⟩
    (fun ex ev hP he => ⟨(authorized_step ex hP.1 ev).1, shows_step hP.1.cache hP.2.1 he,
      counted_fits cfg hP.2.2 he.1⟩) hs
  exact hr.2

/-- An Exec that follows any history leaves the stored values and the object bytes of every cached
entry as they were, no freed memory is used, and a Retrieve after it returns the stored value,
provided that no module that the history and the Exec instantiate changes the object region of its
memory and that the objects of the Execs fit under the byte cap. -/
theorem exec_spares_stored_value (api : WasmApi) (cfg : WasmConfig) (rados : Bytes → Option Bytes)
    (evs : List ExecutorEvent) (req : ExecIn) (input : Option Bytes) (env : ExecEnv)
    (faults : RadosFaults)
    (hspare : Machine.Along (Executor.step cfg) (Executor.Spared cfg) (.init api rados)
      (evs ++ [.exec req input env faults])) :
    let before := Executor.after api cfg rados evs
    let after := Executor.after api cfg rados (evs ++ [.exec req input env faults])
    after.wasm.cache.fault = false ∧ after.rados = before.rados ∧
      (∀ o ∈ before.wasm.cache.objects, ∀ o' ∈ after.wasm.cache.objects, o'.ptr = o.ptr →
        o'.objectBytes = o.objectBytes) ∧
      ∀ kv : KvIn, kv.key ≠ [] → (after.handle cfg (.retrieve kv .good .none)).2 =
        plainRetrieve (before.rados (nkvxKeyToOid kv.key)) kv.osize := by
  intro before after
  have hstep : after = before.step cfg (.exec req input env faults) := Machine.run_append ..
  obtain ⟨hold, ⟨_, hmods⟩, _⟩ := (Machine.along_append _).mp hspare
  obtain ⟨hshow, hinv⟩ := shows_after hspare
  have ha := (vetted_after api cfg rados evs).cache
  have hreads : after.rados = before.rados := by
    rw [hstep, step]
    split <;> rfl
  refine ⟨hinv.objs.fault, hreads, fun o ho o' ho' hptrs => ?_, fun kv hkey => ?_⟩
  · have hloads : before.wasm.cache.Loads before.rados (nkvxKeyToOid req.key) after.wasm.cache := by
      rw [hstep]
      change ∀ m, (∃ d, (before.step cfg _).wasm.entered = ⟨d, m⟩ :: before.wasm.entered) → _ at hmods
      unfold step at hmods ⊢
      split_ifs at hmods ⊢
      · exact (refl _).loads
      · exact loads_executorRun ha req input fun d m he => hmods m ⟨d, he⟩
    exact hloads.bytes_same ha ho ho' hptrs
  rw [← hreads]
  simp only [handle, hkey, if_false]
  exact retrieve_plain cfg (vetted_after api cfg rados _).cache hshow ..

lemma runInstance_memory {P : Mem → Prop} {caps : WasmCaps} {clock : RunClock} {name : Bytes} {readOnly : Bool}
    {objLen outLen : Nat} (hs : ∀ limit, P (api.instanceNew m limit nkvxZcGrow z).mem.base)
    (hc : ∀ limit inst fuel deadline len, (api.instanceNew m limit nkvxZcGrow z).ending = .ready inst →
      P (api.funcCall inst name fuel deadline nkvxZcGrow (UInt32.ofNat wasmObjOff) len
        (api.instanceNew m limit nkvxZcGrow z).mem).mem.base) :
    P (runInstance api caps clock m name readOnly objLen outLen z).2 := by
  fun_cases runInstance
  case case7 inst hr _ _ _ _ _ _ _ => exact hc _ inst _ _ _ hr
  all_goals exact hs _

lemma toy_spares (m : Bytes) : toyApi.Spares m := by
  intro caps clock name readOnly objLen outLen z a hl _
  have hn : a ≠ wasmResOff := by
    unfold wasmObjOff at hl
    unfold wasmResOff
    omega
  apply runInstance_memory (P := fun mem => mem a = z.base a)
  · exact fun _ => rfl
  · intro _ inst _ _ _ _
    exact if_neg hn

def toyRetrieve : KvIn := ⟨.retrieve, false, 0, [7], 16, 0, 0, none, none, none⟩

theorem toyExec_spares_value :
    let after := Executor.after toyApi .default toyPool ([toyExec 5] ++ [toyExec 0])
    (after.handle .default (.retrieve toyRetrieve .good .none)).2 = ⟨.success, 1, some [9]⟩ :=
  (exec_spares_stored_value toyApi .default toyPool [toyExec 5] (toyReq 0) none (toyEnv 0) .none
    ⟨⟨.inr fun _ hstat => by cases hstat; exact Nat.le_of_ble_eq_true rfl, fun m _ => toy_spares m⟩,
      ⟨.inr fun _ hstat => by cases hstat; exact Nat.le_of_ble_eq_true rfl, fun m _ => toy_spares m⟩,
      trivial⟩).2.2.2 toyRetrieve (by decide)

def writerApi : WasmApi :=
  { toyApi with
    exportsFunc := fun _ _ => true
    instanceNew := fun m _ _ z => ⟨.ready m, { z with base := fun a => if a = wasmObjOff then 0 else z.base a }⟩ }

/-- A write-capable module that a read-only namespace rejects has already changed the cached value:
the next Retrieve returns another byte than the stored one. -/
theorem rejected_module_changes_value :
    let req := { toyReq 1 with readOnly := true }
    let ex := Executor.init writerApi toyPool
    let after := ex.step .default (.exec req none (toyEnv 1) .none)
    (ex.handle .default (.exec req none (toyEnv 1) .none)).2 = ⟨.readOnly, 0, none⟩ ∧
      after.wasm.cache.fault = false ∧ after.rados (nkvxKeyToOid [7]) = some [9] ∧
      (after.handle .default (.retrieve toyRetrieve .good .none)).2 = ⟨.success, 1, some [0]⟩ :=
  ⟨rfl, rfl, rfl, rfl⟩

end RadosNkv
