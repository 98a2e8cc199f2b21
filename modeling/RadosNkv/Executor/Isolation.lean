import Mathlib.Data.Set.Function
import RadosNkv.Executor.Authorization
import RadosNkv.Wasm.ColdRun

/-! State isolation between Execs. An Exec is isolated when it answers as it would on a freshly
filled object (`coldOutcome`). -/

namespace RadosNkv

open List Bool

variable {api : WasmApi} {cfg : WasmConfig}

def WasmApi.Observes (api : WasmApi) (m : api.Module) (R : Set Nat) : Prop :=
  ∀ caps clock name readOnly objLen outLen (z z' : ZcMem),
    z.size = z'.size → z.cap = z'.cap → z.owned = z'.owned → Set.EqOn z.base z'.base R →
      (runInstance api caps clock m name readOnly objLen outLen z).1 =
        (runInstance api caps clock m name readOnly objLen outLen z').1

structure ObjEntry.Caches (o : ObjEntry) (v : Bytes) : Prop where
  objLen : o.objLen = v.length
  memCap : o.memCap = backing v.length
  memSize : o.memSize = backing v.length
  beyond : ∀ a, o.memCap ≤ a → o.mem a = coldImage v a

variable {o : ObjEntry} {v : Bytes}

lemma ObjEntry.Caches.ages (h : o.Caches v) (ha : o.Ages o') : o'.Caches v where
  objLen := ha.objLen.trans h.objLen
  memCap := ha.memCap.trans h.memCap
  memSize := ha.memSize.trans h.memSize
  beyond := by
    intro a hc
    rw [ha.memCap] at hc
    rw [ha.mem]
    exact h.beyond a hc

lemma ObjEntry.Caches.writeBack (h : o.Caches v) (z : ZcMem) (after : Mem) : (o.writeBack z after).Caches v := by
  unfold ObjEntry.writeBack
  split
  · exact h
  refine ⟨h.objLen, h.memCap, h.memSize, fun a hc => ?_⟩
  have hg : ¬ a < o.memCap := not_lt.mpr hc
  simp only [hg, if_false]
  exact h.beyond a hc

lemma coldEntry_caches (p : ObjPtr) (objKey v : Bytes) : (coldEntry p objKey v.length v).Caches v :=
  ⟨rfl, rfl, rfl, fun _ _ => rfl⟩

lemma outcomeOn_eq_cold (hR : api.Observes m R) (h : o.Caches v)
    (hc : ∀ a ∈ R, a < o.memCap → o.mem a = coldImage v a) (name : Bytes) (capsWord : Nat)
    (readOnly : Bool) (outLen : Nat) :
    outcomeOn api cfg true ⟨none, true⟩ m name capsWord readOnly o outLen =
      coldOutcome api cfg m name capsWord readOnly v outLen := by
  have hm : Set.EqOn o.mem (coldImage v) R := by
    intro a ha
    rcases Nat.lt_or_ge a o.memCap with hl | hg
    · exact hc a ha hl
    · exact h.beyond a hg
  unfold coldOutcome outcomeOn instanceMemory
  cases hi : api.minimum m with
  | none =>
    rw [h.objLen]
    rfl
  | some minimum =>
    simp only [nkvxZcNewMemory, coldEntry, h.memCap, h.memSize, h.objLen, Bool.not_true, Bool.false_eq_true, if_false]
    by_cases he : minimum ≤ backing v.length
    · simp only [he, if_true]
      exact hR _ _ _ _ _ _ _ _ rfl rfl rfl hm
    simp only [he, if_false]
    refine hR _ _ _ _ _ _ _ _ rfl rfl rfl fun a ha => ?_
    by_cases hl : a < backing v.length
    · simp only [hl, if_true]
      exact hm ha
    · simp only [hl, if_false]

lemma length_keyToOid (key : Bytes) : (nkvxKeyToOid key).length = 2 * key.length := by
  induction key with
  | nil => rfl
  | cons b key ih =>
    simp only [nkvxKeyToOid, flatMap_cons, length_append, length_cons, length_nil]
      at ih ⊢
    omega

lemma oid_of_cstrFit (h : cstrFit 256 (nkvxKeyToOid key) = nkvxKeyToOid key') :
    nkvxKeyToOid key = nkvxKeyToOid key' := by
  have hl := congrArg List.length h
  have hk := length_keyToOid key
  have hk' := length_keyToOid key'
  rw [cstrFit, length_take] at hl
  have hs : (nkvxKeyToOid key).length ≤ 256 - 1 := by omega
  rw [cstrFit, take_of_length_le hs] at h
  exact h

lemma fills_value {ex : Executor api} (h : (ex.answers faults oid).Fills oid objKey objectLen got) :
    objKey = oid ∧ ex.rados oid = some got ∧ objectLen = got.length := by
  obtain ⟨hk, hs, hf⟩ := h
  simp only [Executor.answers, radosCall, nkvxObjFill] at hs hf
  cases hv : ex.rados oid with
  | none =>
    rw [hv] at hs
    split at hs <;> cases hs
  | some v =>
    rw [hv] at hs hf
    split at hs
    · cases hs
    cases hs
    split at hf
    · cases hf
    have hr : v.length ≤ backing v.length - wasmObjOff := by
      have := le_backing v.length
      omega
    simp only [Except.map, take_of_length_le hr, Except.ok.injEq] at hf
    rw [← hf]
    exact ⟨hk, rfl, rfl⟩

def Cache.Coherent {μ : Type} (rados : Bytes → Option Bytes) (c : Cache μ) : Prop :=
  ∀ o ∈ c.objects, o.dead = false → ∀ key, o.objKey = nkvxKeyToOid key →
    ∃ v, rados (nkvxKeyToOid key) = some v ∧ o.Caches v

section Coherence

variable {μ : Type} {c c' : Cache μ}

lemma Cache.Coherent.sheds (h : c.Coherent rados) (hc : c.Sheds c') : c'.Coherent rados := by
  intro o' ho' hl key hk
  obtain ⟨o, ho, ha⟩ := hc.objects o' ho'
  have he : o.dead = false := by
    rw [eq_false_iff] at hl ⊢
    exact fun hd => hl (ha.dead hd)
  obtain ⟨v, hv, hh⟩ := h o ho he key (ha.objKey.symm.trans hk)
  exact ⟨v, hv, hh.ages ha⟩

lemma Cache.Coherent.moves {ex : Executor api} {c : Cache api.Module}
    (h : ex.wasm.cache.Coherent ex.rados)
    (hm : ex.wasm.cache.Moves ((ex.answers faults (nkvxKeyToOid key0)).Fills (nkvxKeyToOid key0)) c)
    : c.Coherent ex.rados := by
  refine hm.induct h fun c c' hc hmv => ?_
  cases hmv with
  | shed hsh => exact hc.sheds hsh
  | fill _ hf =>
    obtain ⟨rfl, ha, rfl⟩ := fills_value hf
    intro o' ho' hl key hk
    rcases mem_append.mp ho' with hold | hn
    · exact hc o' hold hl key hk
    obtain rfl := mem_singleton.mp hn
    have hi := oid_of_cstrFit hk
    rw [hi] at ha
    exact ⟨_, ha, coldEntry_caches ..⟩
  | @link o _ name m ho =>
    have hp : c.Sheds (c.updateObj o.ptr fun o => { o with refcount := o.refcount + 1 }) :=
      .updateObj c o.ptr fun _ => ⟨rfl, rfl, rfl, rfl, rfl, rfl, rfl, id⟩
    exact fun o' ho' => hc.sheds hp o' ho'
  | write _ p z after =>
    intro o' ho' hl key hk
    obtain ⟨o, ho, ⟨_, rfl⟩ | ⟨_, rfl⟩⟩ := Tailq.mem_modify ho'
    · -- a run changes nothing of the entry but its buffer
      have hs : (o.writeBack z after).dead = o.dead ∧ (o.writeBack z after).objKey = o.objKey := by
        unfold ObjEntry.writeBack
        split <;> exact ⟨rfl, rfl⟩
      rw [hs.1] at hl
      rw [hs.2] at hk
      obtain ⟨v, hv, hh⟩ := hc o ho hl key hk
      exact ⟨v, hv, hh.writeBack z after⟩
    · exact hc o' ho hl key hk

lemma coherent_mutates {ex ex' : Executor api} (hk0 : key0 ≠ [])
    (h : ex.wasm.cache.Coherent ex.rados) (hm : ex.Mutates (nkvxKeyToOid key0) ex') :
    ex'.wasm.cache.Coherent ex'.rados := by
  have hd : (ex.invalidate (nkvxKeyToOid key0)).wasm.cache.Coherent ex.rados :=
    h.sheds (.invalidate ..)
  cases hm with
  | refused => exact h
  | dropped => exact hd
  | wrote value =>
    intro o ho hl key hk
    have hn : nkvxKeyToOid key ≠ nkvxKeyToOid key0 := hk ▸ invalidate_live_ne (keyToOid_ne_nil hk0) ho hl
    obtain ⟨v, hv, hc⟩ := hd o ho hl key hk
    refine ⟨v, ?_, hc⟩
    change Function.update ex.rados (nkvxKeyToOid key0) value (nkvxKeyToOid key) = some v
    rw [Function.update_of_ne hn]
    exact hv

lemma coherent_step (ex : Executor api) (h : ex.wasm.cache.Coherent ex.rados) (ev : ExecutorEvent) :
    (ex.step cfg ev).wasm.cache.Coherent (ex.step cfg ev).rados := by
  unfold Executor.step
  split
  · exact h
  have hd := handle_does cfg ex ev
  generalize (ex.handle cfg ev).1 = ex' at hd
  cases hd with
  | exec req input env faults =>
    exact h.moves (moves_executorRun cfg env _ ex.wasm req input)
  | retrieve hv => exact h.moves hv.moves
  | store hk hm => exact coherent_mutates hk h hm
  | delete hk hm => exact coherent_mutates hk h hm
  | idle => exact h

lemma coherent_after (api : WasmApi) (cfg : WasmConfig) (rados : Bytes → Option Bytes) (evs : List ExecutorEvent) :
    (Executor.after api cfg rados evs).wasm.cache.Coherent (Executor.after api cfg rados evs).rados := by
  have hint : (WasmState.init api).cache.Coherent rados := fun o ho => absurd ho not_mem_nil
  exact Machine.run_induct (Executor.step cfg) (P := fun ex => ex.wasm.cache.Coherent ex.rados) hint
    (fun ex ev h => coherent_step ex h ev) evs

end Coherence

section Results

variable {env : RunEnv} {m : api.Module}

lemma entered_warmObtain (cfg : WasmConfig) (env : RunEnv) (s : WasmState api) (name : Bytes)
    (mod : Option ModSpec) (o : ObjEntry) : (warmObtain cfg env s name mod o).1.entered = s.entered := by
  have hm : (warmModule cfg env s mod).1.entered = s.entered := by
    fun_cases warmModule <;> rfl
  fun_cases warmObtain
  case case1 => rfl
  case case2 =>
    fun_cases nkvxWarmBuild
    case case3 he =>
      rw [he] at hm
      exact hm
    case case4 he _ =>
      rw [he] at hm
      exact hm
    case case5 he _ =>
      rw [he] at hm
      exact hm
    all_goals rfl

lemma runOnObject_result
    (h : (nkvxRunOnObjectLocked cfg env s name (some mod) p outLen).1.entered = ⟨d, m⟩ :: s.entered) :
    ∃ o, s.cache.obj p = some o ∧ (nkvxRunOnObjectLocked cfg env s name (some mod) p outLen).2 =
        outcomeOn api cfg env.memoryAlloc env.clock m name mod.caps mod.readOnly o outLen := by
  unfold nkvxRunOnObjectLocked at h ⊢
  cases ho : s.cache.obj p with
  | none =>
    rw [ho] at h
    exact absurd h.symm (cons_ne_self _ _)
  | some o =>
    rw [ho] at h
    refine ⟨o, rfl, ?_⟩
    have hs := entered_warmObtain cfg env s name (some mod) o
    dsimp only at h ⊢
    generalize warmObtain cfg env s name (some mod) o = r at h hs
    obtain ⟨s', _ | m'⟩ := r
    · exact absurd (h.symm.trans hs) (cons_ne_self _ _)
    dsimp only at h hs ⊢
    have he := (runModule_spec cfg env name mod s' m' o outLen).2.2
    rw [h, ← hs] at he
    cases ht : env.storeNew with
    | false =>
      rw [ht] at he
      exact absurd he (cons_ne_self _ _)
    | true =>
      rw [ht] at he
      obtain ⟨hh, _⟩ := List.cons.inj he
      have hm : m = m' := congrArg Entered.module hh
      rw [hm]
      unfold runModule outcomeOn
      simp only [ht, Bool.not_true, Bool.false_eq_true, if_false, Option.map_some, Option.getD_some]
      cases instanceMemory api m' env.memoryAlloc o <;> rfl

end Results

section Exec

variable {ex : Executor api} {env : ExecEnv} {key name v : Bytes} {m : api.Module}

lemma execRun_hit (hv : ex.wasm.cache.Addressed) (hc : ex.wasm.cache.Coherent ex.rados)
    (hk : key ≠ []) (hva : ex.rados (nkvxKeyToOid key) = some v)
    (hl : (nkvxObjLookup ex.wasm.cache (nkvxKeyToOid key)).filter ObjEntry.filled = some o0)
    (h : (execRun cfg env ans ex.wasm (nkvxKeyToOid key) name mod osize).1.entered = ⟨d, m⟩ ::
      ex.wasm.entered) :
    ∃ o : ObjEntry, o.Caches v ∧ o.mem = o0.mem ∧ o.memCap = o0.memCap ∧
      (execRun cfg env ans ex.wasm (nkvxKeyToOid key) name mod osize).2 =
        outcomeOn api cfg env.run.memoryAlloc env.run.clock m name mod.caps mod.readOnly o osize := by
  unfold execRun runPinned at h ⊢
  rw [cachePin_eq _ (keyToOid_ne_nil hk), hl] at h ⊢
  cases ha : cfg.available with
  | false =>
    rw [ha] at h
    exact absurd h.symm (cons_ne_self _ _)
  | true =>
    simp only [ha, Bool.not_true, Bool.false_eq_true, if_false] at h ⊢
    obtain ⟨o, ho, hr⟩ := runOnObject_result h
    obtain ⟨hf, _⟩ := Option.filter_eq_some_iff.mp hl
    have hm0 : o0 ∈ ex.wasm.cache.objects := mem_of_find?_eq_some hf
    have hpr := find?_some hf
    simp only [Bool.and_eq_true, Bool.not_eq_true', beq_iff_eq] at hpr
    obtain ⟨v', hv', hh⟩ := hc o0 hm0 hpr.1 key hpr.2
    cases hva.symm.trans hv'
    -- the address of the pinned entry belongs to no other entry
    obtain ⟨hm, ht⟩ := Tailq.find_some ho
    obtain ⟨o1, hm1, ⟨hp, rfl⟩ | ⟨hn, rfl⟩⟩ := Tailq.mem_modify hm
    · have hs : o1 = o0 := inj_on_of_nodup_map hv.nodup hm1 hm0 hp
      rw [hs] at hr
      exact ⟨_, hh.ages ⟨rfl, rfl, rfl, rfl, rfl, rfl, rfl, id⟩, rfl, rfl, hr⟩
    · exact absurd ht hn

lemma execRun_miss (hv : ex.wasm.cache.Addressed) (hk : key ≠ []) (hva : ex.rados (nkvxKeyToOid key) = some v)
    (hl : ex.wasm.cache.Misses (nkvxKeyToOid key))
    (h : (execRun cfg env (ex.answers faults (nkvxKeyToOid key)) ex.wasm (nkvxKeyToOid key) name mod
      osize).1.entered = ⟨d, m⟩ :: ex.wasm.entered) : ∃ o : ObjEntry, o.Caches v ∧ o.mem = coldImage v ∧
      (execRun cfg env (ex.answers faults (nkvxKeyToOid key)) ex.wasm (nkvxKeyToOid key) name mod
        osize).2 = outcomeOn api cfg env.run.memoryAlloc env.run.clock m name mod.caps mod.readOnly o osize := by
  -- every path that ends before a run leaves the ledger as it was
  have hs : ∀ l : List (Entered api), l ≠ ⟨d, m⟩ :: l := fun l => (cons_ne_self _ l).symm
  unfold execRun runCached at h ⊢
  rw [cachePin_eq _ (keyToOid_ne_nil hk), hl] at h ⊢
  dsimp only at h ⊢
  split at h
  · exact absurd h (hs _)
  · exact absurd h (hs _)
  next size ht =>
  split_ifs at h ⊢
  · exact absurd h (hs _)
  · exact absurd h (hs _)
  rw [hl] at h ⊢
  obtain ⟨status, hc⟩ | ⟨got, c', hg, hh, hc⟩ := coldFill_cases cfg env.run.objAlloc
    ex.wasm.cache (nkvxKeyToOid key) size (nkvxObjFill (ex.answers faults (nkvxKeyToOid key)))
  · rw [hc] at h
    exact absurd h (hs _)
  rw [hc] at h ⊢
  obtain ⟨o, ho, hr⟩ := runOnObject_result h
  obtain ⟨_, hgt, hz⟩ := fills_value ⟨rfl, ht, hg⟩
  cases hva.symm.trans hgt
  subst hz
  obtain ⟨hm, hp⟩ := Tailq.find_some ho
  obtain ⟨o1, hm1, ha⟩ := hh.objects o hm
  -- the entry the run finds has the fresh address, so it is the one just linked
  have hn : o1 = coldEntry ex.wasm.cache.nextPtr (nkvxKeyToOid key) v.length v := by
    rcases mem_append.mp hm1 with hold | hn
    · exact absurd (ha.ptr.symm.trans hp) (ne_of_lt (hv.objects o1 hold))
    · exact mem_singleton.mp hn
  rw [hn] at ha
  exact ⟨o, (coldEntry_caches _ _ v).ages ha, ha.mem, hr⟩

end Exec

/-- The step instantiates the module. -/
def Executor.Instantiates (cfg : WasmConfig) (ex : Executor api) (ev : ExecutorEvent) (m : api.Module) :
    Prop :=
  ∃ d, (ex.step cfg ev).wasm.entered = ⟨d, m⟩ :: ex.wasm.entered

/-- At the addresses `R` the cached object is as a fresh copy of the stored one. -/
def Executor.Pristine (ex : Executor api) (req : ExecIn) (R : Set Nat) : Prop :=
  ∀ o, nkvxObjLookup ex.wasm.cache (nkvxKeyToOid req.key) = some o →
    ∀ v, ex.rados (nkvxKeyToOid req.key) = some v → ∀ a ∈ R, a < o.memCap → o.mem a = coldImage v a

/-- There is memory, and no deadline fires. -/
def RunEnv.Fair (env : RunEnv) : Prop := env.memoryAlloc = true ∧ env.clock = ⟨none, true⟩

lemma exec_eq_cold {ex : Executor api} (hv : ex.wasm.cache.Addressed)
    (hc : ex.wasm.cache.Coherent ex.rados) (hR : api.Observes m R)
    (hm : ex.Instantiates cfg (.exec req input env faults) m)
    (hva : ex.rados (nkvxKeyToOid req.key) = some v) (hf : env.run.Fair) (hpr : ex.Pristine req R) :
    (ex.handle cfg (.exec req input env faults)).2 =
      let r := coldOutcome api cfg m (runName (req.moduleKey.getD [])) req.caps req.readOnly v req.osize
      ⟨r.status, r.resultLen, if min req.osize r.resultLen = 0 then none else some r.out⟩ := by
  obtain ⟨d, he⟩ := hm
  unfold Executor.step at he
  split at he
  · exact absurd he.symm (cons_ne_self _ _)
  simp only [Executor.handle] at he ⊢
  cases hg : execGranted cfg env ex.wasm req with
  | none =>
    rw [executorRun_refused hg] at he
    exact absurd he.symm (cons_ne_self _ _)
  | some mod =>
    rw [executorRun_granted hg] at he ⊢
    have hk := execGranted_key hg
    obtain ⟨_, hp, ho⟩ := execGranted_spec hg
    have hu : (execRun cfg env (ex.answers faults (nkvxKeyToOid req.key)) ex.wasm
        (nkvxKeyToOid req.key) (runName (req.moduleKey.getD [])) mod req.osize).2 =
        coldOutcome api cfg m (runName (req.moduleKey.getD [])) req.caps req.readOnly v req.osize := by
      cases hl : (nkvxObjLookup ex.wasm.cache (nkvxKeyToOid req.key)).filter ObjEntry.filled with
      | some o0 =>
        obtain ⟨o, hh, hme, hca, hr⟩ := execRun_hit hv hc hk hva hl he
        rw [hr, hf.1, hf.2, hp, ho]
        refine outcomeOn_eq_cold hR hh (fun a ha ht => ?_) _ _ _ _
        rw [hme]
        exact hpr o0 (Option.filter_eq_some_iff.mp hl).1 v hva a ha (hca ▸ ht)
      | none =>
        obtain ⟨o, hh, hme, hr⟩ := execRun_miss hv hk hva hl he
        rw [hr, hf.1, hf.2, hp, ho]
        exact outcomeOn_eq_cold hR hh (fun a _ _ => congrFun hme a) _ _ _ _
    dsimp only
    rw [hu]

/-- After any two histories, two Execs that instantiate the same module under the same run name,
with the same caps, read-only bit and output length, on objects with the same stored value, give the
same status, result length and bytes, provided that the buffers they run over still hold the cold
fill wherever the module's outcome depends on them. -/
theorem execs_isolated {rados₁ rados₂ : Bytes → Option Bytes} {evs₁ evs₂ : List ExecutorEvent}
    {req₁ req₂ : ExecIn} {input₁ input₂ : Option Bytes} {env₁ env₂ : ExecEnv}
    {faults₁ faults₂ : RadosFaults} {m : api.Module} {R : Set Nat} {v : Bytes}
    (hR : api.Observes m R)
    (hm₁ : (Executor.after api cfg rados₁ evs₁).Instantiates cfg (.exec req₁ input₁ env₁ faults₁) m)
    (hm₂ : (Executor.after api cfg rados₂ evs₂).Instantiates cfg (.exec req₂ input₂ env₂ faults₂) m)
    (hval₁ : (Executor.after api cfg rados₁ evs₁).rados (nkvxKeyToOid req₁.key) = some v)
    (hval₂ : (Executor.after api cfg rados₂ evs₂).rados (nkvxKeyToOid req₂.key) = some v)
    (hname : runName (req₁.moduleKey.getD []) = runName (req₂.moduleKey.getD []))
    (hcaps : req₁.caps = req₂.caps) (hro : req₁.readOnly = req₂.readOnly)
    (hosize : req₁.osize = req₂.osize) (hfair₁ : env₁.run.Fair) (hfair₂ : env₂.run.Fair)
    (hpristine₁ : (Executor.after api cfg rados₁ evs₁).Pristine req₁ R)
    (hpristine₂ : (Executor.after api cfg rados₂ evs₂).Pristine req₂ R) :
    ((Executor.after api cfg rados₁ evs₁).handle cfg (.exec req₁ input₁ env₁ faults₁)).2 =
      ((Executor.after api cfg rados₂ evs₂).handle cfg (.exec req₂ input₂ env₂ faults₂)).2 := by
  rw [exec_eq_cold (vetted_after api cfg rados₁ evs₁).cache (coherent_after api cfg rados₁ evs₁) hR hm₁
      hval₁ hfair₁ hpristine₁,
    exec_eq_cold (vetted_after api cfg rados₂ evs₂).cache (coherent_after api cfg rados₂ evs₂) hR hm₂
      hval₂ hfair₂ hpristine₂, hname, hcaps, hro, hosize]

lemma toy_observes (tag : UInt8) (h : tag ≠ 0) : toyApi.Observes [tag] ∅ := by
  intro caps clock name readOnly objLen outLen z z' hs _ _ _
  have hn : [tag] ≠ [0] := by simpa using h
  -- one byte at most is delivered, and it is the answer
  have hu : ∀ base : Mem,
      (List.range (min 1 outLen)).map
        (fun i => if wasmResOff + i = wasmResOff then tag else base (wasmResOff + i)) =
          List.replicate (min 1 outLen) tag := by
    intro base
    rw [eq_replicate_iff]
    refine ⟨by simp, fun b hb => ?_⟩
    obtain ⟨i, hi, rfl⟩ := mem_map.mp hb
    have hl := mem_range.mp hi
    have hz : wasmResOff + i = wasmResOff := by omega
    rw [if_pos hz]
  have ho : (1 : UInt32).toNat = 1 := rfl
  simp only [runInstance, toyApi, runFinish, hs, hn, if_false, headD_cons, ho, hu]
  split_ifs <;> rfl

/-- Two Execs of a module that never reads its memory, the second over the buffer that the first
wrote, agree. -/
theorem toyExec_again_agrees :
    ((Executor.after toyApi .default toyPool []).handle .default (toyExec 5)).2 =
      ((Executor.after toyApi .default toyPool [toyExec 5]).handle .default (toyExec 5)).2 :=
  execs_isolated (R := ∅) (v := [9]) (m := ([5] : Bytes)) (toy_observes 5 (by decide)) ⟨_, rfl⟩ ⟨_, rfl⟩
    rfl rfl rfl rfl rfl rfl ⟨rfl, rfl⟩ ⟨rfl, rfl⟩ (fun _ _ _ _ _ ha => ha.elim)
    fun _ _ _ _ _ ha => ha.elim

/-- The result area that an Exec leaves in the object's buffer is read by the next Exec of the same
module on the same object: the module is instantiated twice over the same stored value and answers
differently. -/
theorem second_exec_sees_result_area :
    let fresh := Executor.after toyApi .default toyPool []
    let used := Executor.after toyApi .default toyPool [toyExec 0]
    fresh.Instantiates .default (toyExec 0) ([0] : Bytes) ∧
      used.Instantiates .default (toyExec 0) ([0] : Bytes) ∧
      fresh.rados (nkvxKeyToOid [7]) = some [9] ∧ used.rados (nkvxKeyToOid [7]) = some [9] ∧
      (fresh.handle .default (toyExec 0)).2 = ⟨.success, 1, some [1]⟩ ∧
      (used.handle .default (toyExec 0)).2 = ⟨.success, 1, some [2]⟩ :=
  ⟨⟨_, rfl⟩, ⟨_, rfl⟩, rfl, rfl, rfl, rfl⟩

end RadosNkv
