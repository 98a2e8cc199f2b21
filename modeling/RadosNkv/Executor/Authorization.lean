import Mathlib.Data.List.Induction
import RadosNkv.Executor.Requests

/-! Bound-digest authorization: what an Exec with a bound digest instantiates was compiled from
bytes with that digest, provided that each Exec carries the digest of the Exec that built the warm
entry it meets. -/

namespace RadosNkv

open Executor

variable {api : WasmApi} {cfg : WasmConfig}

structure WasmState.Vetted (s : WasmState api) : Prop where
  mods : s.mods.Blessed api
  cache : s.cache.Addressed

/-- Every warm entry that the second state adds holds code compiled from bytes with the digest. -/
def LinksOnly (digest : Bytes) (s s' : WasmState api) : Prop :=
  ∀ w ∈ s'.cache.warm, w ∈ s.cache.warm ∨ api.CompiledFrom digest w.moduleH

section Runs

variable {s : WasmState api} (cfg : WasmConfig) (env : RunEnv) (name : Bytes) (mod : ModSpec)

lemma warmBuild_spec (h : s.mods.Blessed api) (o : ObjEntry) :
    let r := nkvxWarmBuild cfg env s name (some mod) o
    r.1.mods.Blessed api ∧ r.1.entered = s.entered ∧ LinksOnly mod.sha256 s r.1 ∧
      ∀ m, r.2 = some m → api.CompiledFrom mod.sha256 m := by
  have ho := obtain_spec cfg env.obtain h mod
  have hc := cache_warmModule cfg env (some mod) s
  have hd : ∀ {s' m?}, warmModule cfg env s (some mod) = (s', m?) →
      s'.mods.Blessed api ∧ s'.entered = s.entered ∧
        ∀ m, m? = some m → api.CompiledFrom mod.sha256 m := by
    intro s' m? he
    simp only [warmModule] at he
    generalize nkvxModuleObtain api cfg env.obtain s.mods mod = r at he ho
    obtain ⟨mods, _ | m⟩ := r
    · cases he
      exact ⟨ho.1, rfl, fun _ hm => by cases hm⟩
    cases he
    refine ⟨ho.1, rfl, fun m' hm' => ho.2 m' ?_⟩
    cases hm'
    rfl
  have hk : ∀ {s' m?}, warmModule cfg env s (some mod) = (s', m?) → s'.cache = s.cache := by
    intro s' m? he
    rw [he] at hc
    exact hc
  fun_cases nkvxWarmBuild
  case case3 he =>
    exact ⟨(hd he).1, (hd he).2.1, fun w hw => .inl (hk he ▸ hw), fun _ hm => by cases hm⟩
  case case4 he _ =>
    exact ⟨(hd he).1, (hd he).2.1, fun w hw => .inl (hk he ▸ hw), fun _ hm => by cases hm⟩
  case case5 s1 m he _ =>
    refine ⟨(hd he).1, (hd he).2.1, fun w hw => ?_, (hd he).2.2⟩
    -- the caps only drop entries, so what is new is the entry just linked
    have hs := Cache.Sheds.warmCacheEnforceCaps cfg (s1.cache.linkWarm name m o)
    rcases List.mem_append.mp (hs.warm w hw) with hold | hnew
    · exact .inl (hk he ▸ hold)
    obtain rfl := List.mem_singleton.mp hnew
    exact .inr ((hd he).2.2 m rfl)
  all_goals exact ⟨h, rfl, fun _ hw => .inl hw, fun _ hm => by cases hm⟩

lemma runModule_spec (s : WasmState api) (m : api.Module) (o : ObjEntry) (outLen : Nat) :
    let r := runModule cfg env s name (some mod) m o outLen
    r.1.mods = s.mods ∧ r.1.cache.warm = s.cache.warm ∧
      r.1.entered = if env.storeNew then ⟨some mod.sha256, m⟩ :: s.entered else s.entered := by
  cases hs : env.storeNew with
  | false => simp [runModule, hs]
  | true =>
    unfold runModule
    simp only [hs, Bool.not_true, Bool.false_eq_true, if_false]
    split <;> exact ⟨rfl, rfl, rfl⟩

lemma runOnObject_spec (h : s.mods.Blessed api) (p : ObjPtr) (outLen : Nat) :
    let r := nkvxRunOnObjectLocked cfg env s name (some mod) p outLen
    r.1.mods.Blessed api ∧ LinksOnly mod.sha256 s r.1 ∧
      (r.1.entered = s.entered ∧
          ((s.cache.obj p).isSome → env.storeNew → nkvxWarmLookup s.cache name p = none) ∨
        ∃ m, r.1.entered = ⟨some mod.sha256, m⟩ :: s.entered ∧ env.storeNew ∧
          (nkvxWarmLookup s.cache name p = none ∧ api.CompiledFrom mod.sha256 m ∨
            ∃ w, nkvxWarmLookup s.cache name p = some w ∧ m = w.moduleH)) := by
  unfold nkvxRunOnObjectLocked
  cases ho : s.cache.obj p with
  | none => exact ⟨h, fun _ hw => .inl hw, .inl ⟨rfl, by simp⟩⟩
  | some o =>
    obtain ⟨_, rfl⟩ := Tailq.find_some ho
    dsimp only
    unfold warmObtain
    cases hw : nkvxWarmLookup s.cache name o.ptr with
    | some w =>
      obtain ⟨hm, hwarm, hn⟩ := runModule_spec cfg env name mod
        { s with cache := nkvxWarmTouch s.cache w } w.moduleH o outLen
      refine ⟨fun e he => h e (hm ▸ he),
        fun w' hw' => .inl ((Cache.Sheds.warmTouch s.cache w).warm w' (hwarm ▸ hw')), ?_⟩
      cases hs : env.storeNew with
      | false => exact .inl ⟨by rw [hn, hs]; rfl, nofun⟩
      | true => exact .inr ⟨w.moduleH, by rw [hn, hs]; rfl, rfl, .inr ⟨w, rfl, rfl⟩⟩
    | none =>
      obtain ⟨hb, hn, hlinks, hf⟩ := warmBuild_spec cfg env name mod h o
      generalize nkvxWarmBuild cfg env s name (some mod) o = r at hb hn hlinks hf
      obtain ⟨s', _ | m⟩ := r
      · exact ⟨hb, hlinks, .inl ⟨hn, fun _ _ => rfl⟩⟩
      obtain ⟨hm, hwarm, hn'⟩ := runModule_spec cfg env name mod s' m o outLen
      refine ⟨fun e he => hb e (hm ▸ he), fun w hw => hlinks w (hwarm ▸ hw), ?_⟩
      cases hs : env.storeNew with
      | false => exact .inl ⟨by rw [hn', hs]; exact hn, nofun⟩
      | true =>
        refine .inr ⟨m, ?_, rfl, .inl ⟨rfl, hf m rfl⟩⟩
        rw [hn', hs, if_pos rfl]
        exact congrArg _ hn

end Runs

def warmOn (cfg : WasmConfig) (env : RunEnv) (s : WasmState api) (oid name : Bytes) :
    Option (WarmEntry api.Module) :=
  if cfg.available && env.storeNew then
    ((nkvxObjLookup s.cache oid).filter ObjEntry.filled).bind fun o => nkvxWarmLookup s.cache name o.ptr
  else none

def Enters (s s' : WasmState api) (digest : Bytes) : Option (WarmEntry api.Module) → Prop
  | some w => s'.entered = ⟨some digest, w.moduleH⟩ :: s.entered
  | none => s'.entered = s.entered ∨
      ∃ m, api.CompiledFrom digest m ∧ s'.entered = ⟨some digest, m⟩ :: s.entered

variable {s' : WasmState api}

lemma runPinned_spec (cfg : WasmConfig) (env : RunEnv) {s : WasmState api} (h : s.Vetted)
    (hl : (nkvxObjLookup s.cache oid).filter ObjEntry.filled = some o) (name : Bytes)
    (mod : ModSpec) (osize : Nat)
    (hs' : s' = { s with cache := s.cache.updateObj o.ptr fun o => { o with refcount := o.refcount +
      1 } }) :
    let r := runPinned cfg env s' name (some mod) o.ptr osize
    r.1.mods.Blessed api ∧ LinksOnly mod.sha256 s r.1 ∧
      Enters s r.1 mod.sha256 (warmOn cfg env s oid name) := by
  subst hs'
  unfold warmOn
  rw [hl]
  dsimp only [Option.bind]
  unfold runPinned
  cases ha : cfg.available with
  | false => exact ⟨h.mods, fun _ hw => .inl hw, .inl rfl⟩
  | true =>
    have hm : o ∈ s.cache.objects := List.mem_of_find?_eq_some (Option.filter_eq_some_iff.mp hl).1
    have ho : ((s.cache.updateObj o.ptr fun o => { o with refcount := o.refcount + 1 }).obj
        o.ptr).isSome := Tailq.find_isSome (Tailq.map_mem_modify hm rfl) rfl
    obtain ⟨hb, hlinks, he⟩ := runOnObject_spec cfg env name mod (s := { s with
      cache := s.cache.updateObj o.ptr fun o => { o with refcount := o.refcount + 1 } }) h.mods o.ptr
      osize
    refine ⟨hb, hlinks, ?_⟩
    -- the pin changes no warm entry, so the run looks up what `warmOn` does
    obtain ⟨hq, hn⟩ | ⟨m, hq, hs, ⟨hn, hf⟩ | ⟨w, hw, rfl⟩⟩ := he
    · cases hs : env.storeNew with
      | false => exact .inl hq
      | true =>
        have hk : nkvxWarmLookup s.cache name o.ptr = none := hn ho hs
        simp only [Bool.and_self, if_true, hk]
        exact .inl hq
    · have hk : nkvxWarmLookup s.cache name o.ptr = none := hn
      simp only [hs, Bool.and_self, if_true, hk]
      exact .inr ⟨m, hf, hq⟩
    have hk : nkvxWarmLookup s.cache name o.ptr = some w := hw
    simp only [hs, Bool.and_self, if_true, hk]
    exact hq

lemma warm_coldFill (he : coldFill cfg alloc c objKey objectLen fill = (c', result)) :
    ∀ w ∈ c'.warm, w ∈ c.warm := by
  have hd : c.Draws (fun _ _ _ => True) (coldFill cfg alloc c objKey objectLen fill).1 :=
    draws_coldFill cfg (fun _ _ => trivial) alloc c
  rw [he] at hd
  exact hd.warm

lemma execRun_spec (cfg : WasmConfig) (env : ExecEnv) (ans : RadosAnswers) {s : WasmState api}
    (h : s.Vetted) (ho : oid ≠ []) (name : Bytes) (mod : ModSpec) (osize : Nat) :
    let r := execRun cfg env ans s oid name mod osize
    r.1.mods.Blessed api ∧ LinksOnly mod.sha256 s r.1 ∧
      Enters s r.1 mod.sha256 (warmOn cfg env.run s oid name) := by
  unfold execRun
  rw [cachePin_eq _ ho]
  cases hl : (nkvxObjLookup s.cache oid).filter ObjEntry.filled with
  | some o =>
    obtain ⟨hb, hlinks, he⟩ := runPinned_spec cfg env.run h hl name mod osize rfl
    exact ⟨hb, fun w hw => hlinks w ((Cache.Sheds.unref _ o.ptr).warm w hw), he⟩
  | none =>
    have hr : warmOn cfg env.run s oid name = none := by
      unfold warmOn
      rw [hl]
      split <;> rfl
    rw [hr]
    dsimp only
    split
    · exact ⟨h.mods, fun _ hw => .inl hw, .inl rfl⟩
    · exact ⟨h.mods, fun _ hw => .inl hw, .inl rfl⟩
    unfold runCached
    rw [hl]
    split_ifs
    · exact ⟨h.mods, fun _ hw => .inl hw, .inl rfl⟩
    dsimp only
    split
    · next c status hq =>
      exact ⟨h.mods, fun w hw => .inl (warm_coldFill hq w hw), .inl rfl⟩
    next c p hq =>
    obtain ⟨hb, hlinks, he⟩ := runOnObject_spec cfg env.run name mod
      (s := { s with cache := c }) h.mods p osize
    refine ⟨hb, fun w hw => (hlinks w hw).imp_left (warm_coldFill hq w), ?_⟩
    obtain ⟨hq', _⟩ | ⟨m, hq', _, ⟨_, hf⟩ | ⟨w, hw, _⟩⟩ := he
    · exact .inl hq'
    · exact .inr ⟨m, hf, hq'⟩
    · cases (warmLookup_coldFill h.cache hq name).symm.trans hw

def Executor.warmHit (cfg : WasmConfig) (ex : Executor api) (req : ExecIn) (env : ExecEnv) :
    Option (WarmEntry api.Module) :=
  if ex.wasm.cache.fault then none
  else
    (execGranted cfg env ex.wasm req).bind fun _ =>
      warmOn cfg env.run ex.wasm (nkvxKeyToOid req.key) (runName (req.moduleKey.getD []))

def Executor.HitCompiled (cfg : WasmConfig) (ex : Executor api) : ExecutorEvent → Prop
  | .exec req _ env _ => ∀ w, ex.warmHit cfg req env = some w → api.CompiledFrom req.sha256 w.moduleH
  | _ => True

/-- Every run for a digest was of code compiled from bytes with that digest. -/
def WasmState.Authorized (s : WasmState api) : Prop :=
  ∀ e ∈ s.entered, ∀ d, e.digest = some d → api.CompiledFrom d e.module

lemma authorized_cons {s : WasmState api} (h : s'.entered = ⟨some d, m⟩ :: s.entered) :
    s'.Authorized ↔ s.Authorized ∧ api.CompiledFrom d m := by
  unfold WasmState.Authorized
  rw [h]
  simp only [List.forall_mem_cons, Option.some.injEq, forall_eq']
  exact and_comm

lemma authorized_congr {s : WasmState api} (h : s'.entered = s.entered) : s'.Authorized ↔ s.Authorized := by
  unfold WasmState.Authorized
  rw [h]

variable (ex : Executor api)

lemma authorized_exec (h : ex.wasm.Vetted) (ho : ex.wasm.cache.fault = false)
    (req : ExecIn) (input : Option Bytes) (env : ExecEnv) (faults : RadosFaults) :
    (ex.handle cfg (.exec req input env faults)).1.wasm.Vetted ∧
      ((ex.handle cfg (.exec req input env faults)).1.wasm.Authorized ↔
        ex.wasm.Authorized ∧ ex.HitCompiled cfg (.exec req input env faults)) ∧
      LinksOnly req.sha256 ex.wasm (ex.handle cfg (.exec req input env faults)).1.wasm := by
  have hm := moves_executorRun cfg env (ex.answers faults (nkvxKeyToOid req.key)) ex.wasm req input
  simp only [handle, Executor.HitCompiled, warmHit, ho]
  cases hg : execGranted cfg env ex.wasm req with
  | none =>
    rw [executorRun_refused hg]
    exact ⟨h, by simp, fun _ hw => .inl hw⟩
  | some mod =>
    rw [executorRun_granted hg] at hm ⊢
    obtain ⟨hb, hlinks, he⟩ := execRun_spec cfg env (ex.answers faults (nkvxKeyToOid req.key)) h
      (keyToOid_ne_nil (execGranted_key hg)) (runName (req.moduleKey.getD [])) mod req.osize
    rw [(execGranted_spec hg).1] at hlinks
    refine ⟨⟨hb, h.cache.moves hm⟩, ?_, hlinks⟩
    dsimp only [Option.bind]
    -- only the code of a warm entry can break the authorization, and on a warm hit it is what runs
    cases hw : warmOn cfg env.run ex.wasm (nkvxKeyToOid req.key) (runName (req.moduleKey.getD [])) with
    | some w =>
      rw [hw] at he
      rw [authorized_cons he, (execGranted_spec hg).1]
      simp
    | none =>
      rw [hw] at he
      obtain hq | ⟨m, hf, hq⟩ := he
      · rw [authorized_congr hq]
        simp
      rw [authorized_cons hq]
      simp [hf]

lemma vetted_mutates {ex ex' : Executor api} (h : ex.wasm.Vetted)
    (hm : ex.Mutates oid ex') : ex'.wasm.Vetted ∧ ex'.wasm.entered = ex.wasm.entered := by
  have hd : (ex.invalidate oid).wasm.Vetted := ⟨h.mods, h.cache.sheds (.invalidate _ oid)⟩
  cases hm with
  | refused => exact ⟨h, rfl⟩
  | dropped => exact ⟨hd, rfl⟩
  | wrote => exact ⟨hd, rfl⟩

lemma authorized_step (h : ex.wasm.Vetted) (ev : ExecutorEvent) : (ex.step cfg ev).wasm.Vetted ∧
      ((ex.step cfg ev).wasm.Authorized ↔ ex.wasm.Authorized ∧ ex.HitCompiled cfg ev) := by
  have hs : ∀ {ex' : Executor api}, ex'.wasm.Vetted ∧ ex'.wasm.entered = ex.wasm.entered →
      ex'.wasm.Vetted ∧ (ex'.wasm.Authorized ↔ ex.wasm.Authorized ∧ True) := by
    intro ex' h'
    exact ⟨h'.1, by rw [authorized_congr h'.2, and_true]⟩
  unfold step
  cases hf : ex.wasm.cache.fault with
  | true =>
    refine ⟨h, ?_⟩
    cases ev <;> simp [Executor.HitCompiled, warmHit, hf]
  | false =>
    simp only [Bool.false_eq_true, if_false]
    have hd := handle_does cfg ex ev
    generalize he' : (ex.handle cfg ev).1 = ex' at hd
    cases hd with
    | exec req input env faults =>
      rw [← he']
      obtain ⟨hvetted, hauthorized, _⟩ := authorized_exec ex h hf req input env faults
      exact ⟨hvetted, hauthorized⟩
    | retrieve hv => exact hs ⟨⟨h.mods, h.cache.moves hv.moves⟩, rfl⟩
    | store _ hm => exact hs (vetted_mutates h hm)
    | delete _ hm => exact hs (vetted_mutates h hm)
    | idle hn =>
      cases ev with
      | exec => cases hn
      | _ => exact hs ⟨h, rfl⟩

lemma vetted_init (api : WasmApi) : (WasmState.init api).Vetted :=
  ⟨nofun, List.nodup_nil, nofun, nofun⟩

lemma vetted_after (api : WasmApi) (cfg : WasmConfig) (rados : Bytes → Option Bytes)
    (evs : List ExecutorEvent) : (after api cfg rados evs).wasm.Vetted :=
  Machine.run_induct (step cfg) (P := fun ex => ex.wasm.Vetted) (vetted_init api)
    (fun ex ev h => (authorized_step ex h ev).1) evs

lemma warm_mutates {ex ex' : Executor api} (hm : ex.Mutates oid ex') :
    ∀ w ∈ ex'.wasm.cache.warm, w ∈ ex.wasm.cache.warm := by
  cases hm with
  | refused => exact fun _ hw => hw
  | dropped => exact (Cache.Sheds.invalidate _ oid).warm
  | wrote => exact (Cache.Sheds.invalidate _ oid).warm

lemma links_step (h : ex.wasm.Vetted) (ev : ExecutorEvent) (hold : w ∉ ex.wasm.cache.warm)
    (hnew : w ∈ (ex.step cfg ev).wasm.cache.warm) :
    ∃ req input env faults, ev = .exec req input env faults ∧ api.CompiledFrom req.sha256 w.moduleH := by
  unfold step at hnew
  cases hf : ex.wasm.cache.fault with
  | true =>
    rw [if_pos hf] at hnew
    exact absurd hnew hold
  | false =>
    simp only [hf, Bool.false_eq_true, if_false] at hnew
    have hd := handle_does cfg ex ev
    generalize he : (ex.handle cfg ev).1 = ex' at hd hnew
    cases hd with
    | exec req input env faults =>
      rw [← he] at hnew
      have hlinks := (authorized_exec ex h hf req input env faults).2.2 w hnew
      exact ⟨req, input, env, faults, rfl, hlinks.resolve_left hold⟩
    | retrieve hv => exact absurd (hv.warm w hnew) hold
    | store _ hm => exact absurd (warm_mutates hm w hnew) hold
    | delete _ hm => exact absurd (warm_mutates hm w hnew) hold
    | idle => exact absurd hnew hold

section Builders

variable (api) (cfg) (rados : Bytes → Option Bytes)

/-- Some Exec of the history carried the digest and left the warm entry, which was not there before.
-/
def Executor.BuiltBy (evs : List ExecutorEvent) (w : WarmEntry api.Module) (digest : Bytes) : Prop :=
  ∃ before req input env faults later, evs = before ++ .exec req input env faults :: later ∧
    req.sha256 = digest ∧ w ∉ (after api cfg rados before).wasm.cache.warm ∧
    w ∈ ((after api cfg rados before).step cfg (.exec req input env faults)).wasm.cache.warm

/-- Every Exec that passes the gate and meets a live warm entry, of its run name and on the cached
object of its key, carries the digest of the Exec that built that entry. -/
def Executor.BuilderDigest (evs : List ExecutorEvent) : Prop :=
  ∀ before req input env faults later, evs = before ++ .exec req input env faults :: later →
    ∀ w, (after api cfg rados before).warmHit cfg req env = some w →
      BuiltBy api cfg rados before w req.sha256

variable {api cfg rados}

lemma compiledFrom_of_builtBy (h : BuiltBy api cfg rados evs w digest) :
    api.CompiledFrom digest w.moduleH := by
  obtain ⟨before, req, input, env, faults, later, _, rfl, hold, hnew⟩ := h
  obtain ⟨_, _, _, _, he, hfrom⟩ := links_step _ (vetted_after api cfg rados before) _ hold hnew
  cases he
  exact hfrom

lemma exists_builtBy (evs : List ExecutorEvent) (hw : w ∈ (after api cfg rados evs).wasm.cache.warm) :
    ∃ digest, BuiltBy api cfg rados evs w digest := by
  induction evs using List.reverseRecOn with
  | nil => cases hw
  | append_singleton evs ev ih =>
    have hstep : after api cfg rados (evs ++ [ev]) = (after api cfg rados evs).step cfg ev :=
      Machine.run_append ..
    rw [hstep] at hw
    by_cases hold : w ∈ (after api cfg rados evs).wasm.cache.warm
    · obtain ⟨digest, before, req, input, env, faults, later, rfl, hbuilt⟩ := ih hold
      exact ⟨digest, before, req, input, env, faults, later ++ [ev], by simp, hbuilt⟩
    obtain ⟨req, input, env, faults, rfl, _⟩ :=
      links_step _ (vetted_after api cfg rados evs) ev hold hw
    exact ⟨req.sha256, evs, req, input, env, faults, [], rfl, rfl, hold, hw⟩

lemma mem_warm_of_warmHit {ex : Executor api} {env : ExecEnv} (h : ex.warmHit cfg req env = some w)
    : w ∈ ex.wasm.cache.warm := by
  unfold warmHit warmOn at h
  split at h
  · cases h
  obtain ⟨_, _, hon⟩ := Option.bind_eq_some_iff.mp h
  split at hon
  · obtain ⟨_, _, hl⟩ := Option.bind_eq_some_iff.mp hon
    exact List.mem_of_find?_eq_some hl
  · cases hon

lemma authorized_iff_hitCompiled (evs : List ExecutorEvent) :
    (after api cfg rados evs).wasm.Authorized ↔
      ∀ before ev later, evs = before ++ ev :: later →
        (after api cfg rados before).HitCompiled cfg ev := by
  have hrun : (after api cfg rados evs).wasm.Authorized ↔
      Machine.Along (step cfg) (HitCompiled cfg) (.init api rados) evs :=
    Machine.run_iff_along (step cfg) (I := fun ex => ex.wasm.Vetted)
      (P := fun ex => ex.wasm.Authorized) (N := fun _ => True) (vetted_init api) nofun
      (fun ex ev h _ => (authorized_step ex h ev).1) (fun ex ev h _ => (authorized_step ex h ev).2)
      fun _ _ => trivial
  exact hrun.trans (Machine.along_iff_split _)

end Builders

/-- In every run of the executor, whatever is instantiated under a bound digest was compiled from
bytes with that digest, provided that each Exec carries the digest of the Exec that built the warm
entry it meets. Where no module is compiled from bytes of two digests, the converse holds too. -/
theorem authorized_iff_builderDigest (api : WasmApi) (cfg : WasmConfig)
    (rados : Bytes → Option Bytes)
    (evs : List ExecutorEvent) :
    (Executor.BuilderDigest api cfg rados evs →
      (Executor.after api cfg rados evs).wasm.Authorized) ∧
      ((∀ digest digest' m, api.CompiledFrom digest m → api.CompiledFrom digest' m →
        digest = digest') →
        (Executor.after api cfg rados evs).wasm.Authorized →
          Executor.BuilderDigest api cfg rados evs) := by
  rw [authorized_iff_hitCompiled]
  refine ⟨fun hbuilder before ev later he => ?_, fun hone hhits before req input env faults later he w hw => ?_⟩
  · cases ev with
    | exec req input env faults =>
      exact fun w hw => compiledFrom_of_builtBy (hbuilder before req input env faults later he w hw)
    | _ => trivial
  obtain ⟨digest, hbuilt⟩ := exists_builtBy before (mem_warm_of_warmHit hw)
  obtain rfl : digest = req.sha256 :=
    hone _ _ _ (compiledFrom_of_builtBy hbuilt) (hhits before _ later he w hw)
  exact hbuilt

def toyPool : Bytes → Option Bytes := fun oid => if oid = nkvxKeyToOid [7] then some [9] else none

def toyReq (tag : UInt8) : ExecIn where
  opId := 0
  clientCallId := 0
  readOnly := false
  runtime := .nkvx
  caps := 0
  key := [7]
  sha256 := [tag]
  sha256Valid := true
  moduleKey := some (cstr ['w', 'a', 's', 'm', ':', 'f'])
  moduleNs := some (cstr ['m', 'o', 'd', 's'])
  osize := 16
  inputLen := 0
  inputInline := none
  inputBulk := none
  resultSink := none

def toyEnv (tag : UInt8) : ExecEnv := ⟨.ok [tag], true, true, .good⟩

def toyExec (tag : UInt8) : ExecutorEvent := .exec (toyReq tag) none (toyEnv tag) .none

/-- A run name bound to a second digest runs the code of the first one on the object that the first
request cached. -/
theorem rebound_name_runs_old_code :
    let ex := Executor.after toyApi .default toyPool [toyExec 1]
    (ex.step .default (toyExec 2)).wasm.entered.head? = some ⟨some [2], [1]⟩ ∧
      ¬ toyApi.CompiledFrom [2] [1] ∧
      (ex.handle .default (toyExec 2)).2 = ⟨.success, 1, some [1]⟩ := by
  refine ⟨rfl, ?_, rfl⟩
  rintro ⟨bytes, hsha, hnew⟩
  cases hsha
  cases hnew

end RadosNkv
