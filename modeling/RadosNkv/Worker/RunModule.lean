import RadosNkv.Executor.Verbs
import RadosNkv.Wasm.CarryRef
import RadosNkv.Wasm.PlainRun
import RadosNkv.Worker.Job

/-! What the worker thread does with a run job (`kvdev_rados_nkvx_run_module`): a module named
`wasm:<name>` runs on the pinned object, through the object cache, or on a copy of the object; all
other names are built-ins. -/

namespace RadosNkv.Worker

variable {api : WasmApi}

section

variable (object : Option Bytes)

def objectBytes (objectLen : Nat) : Bytes := (object.getD []).takeD objectLen 0

def fillFromJob (objectLen cap : Nat) : Except Unit Bytes :=
  if objectLen > cap then .error () else .ok (objectBytes object objectLen)

lemma fillFromJob_backing (objectLen : Nat) :
    fillFromJob object objectLen (backing objectLen - wasmObjOff) = .ok (objectBytes object objectLen) := by
  have hl := le_backing objectLen
  rw [fillFromJob, if_neg (by omega)]

end

def wasmName (module : Bytes) : Option Bytes :=
  if module.take 5 = cstr ['w', 'a', 's', 'm', ':'] then some (module.drop 5) else none

lemma wasmName_some (h : wasmName module = some name) :
    module = cstr ['w', 'a', 's', 'm', ':'] ++ name := by
  unfold wasmName at h
  split at h
  · next hf =>
    cases h
    rw [← hf, List.take_append_drop]
  · cases h

/-- The built-ins of `kvdev_rados_nkvx_run_module`, which compute over the object that the job
carries. -/
def RunJob.builtin (job : RunJob) : RunResult :=
  if job.module = cstr ['b', 'y', 't', 'e', 'c', 'o', 'u', 'n', 't'] then
    ⟨fitStatus 8 job.outLen, 8, (leU64 job.objectLen).take job.outLen⟩
  else if job.module = cstr ['i', 'd', 'e', 'n', 't', 'i', 't', 'y'] then
    ⟨fitStatus job.objectLen job.outLen, satU32 job.objectLen,
      (job.object.getD []).take (min job.objectLen job.outLen)⟩
  else .only .notSupported

/-- `kvdev_rados_nkvx_run_module`, apart from the release of the pin. -/
def RunJob.run (cfg : WasmConfig) (eng : PlainEngine api) (files : Bytes → Option Bytes) (env : RunEnv)
    (s : WasmState api) (job : RunJob) : WasmState api × RunResult :=
  match wasmName job.module with
  | none => (s, job.builtin)
  | some name =>
    match job.objPin with
    | some pin => runPinned cfg { env with moduleFile := files name } s name job.mod pin job.outLen
    | none =>
      if job.objKey ≠ [] then
        runCached cfg { env with moduleFile := files name } s name job.mod job.objKey job.objectLen
          (fillFromJob job.object job.objectLen) job.outLen
      else
        (s, wasmRun cfg eng ⟨files name, env.warmEngine, env.storeNew, env.clock⟩ name job.mod job.object
          job.objectLen job.outLen)

/-- The caches and the entry with which a run on a cached object starts, if the job gets to one. -/
def RunJob.start {μ : Type} (cfg : WasmConfig) (env : RunEnv) (c : Cache μ) (job : RunJob) :
    Cache μ × Option ObjPtr :=
  if !cfg.available || (wasmName job.module).isNone then (c, none)
  else
    match job.objPin with
    | some pin => (c, some pin)
    | none =>
      if job.objKey = [] then (c, none)
      else
        match (nkvxObjLookup c job.objKey).filter ObjEntry.filled with
        | some o => (nkvxObjTouch c o.ptr, some o.ptr)
        | none =>
          match coldFill cfg env.objAlloc c job.objKey job.objectLen (fillFromJob job.object job.objectLen) with
          | (c, .error _) => (c, none)
          | (c, .ok p) => (c, some p)

def RunJob.Fills {μ : Type} (c : Cache μ) (job : RunJob) : Prop :=
  (wasmName job.module).isSome ∧ job.objPin = none ∧ job.objKey ≠ [] ∧
    (nkvxObjLookup c job.objKey).filter ObjEntry.filled = none

section Start

variable {cfg : WasmConfig} {s : WasmState api} {job : RunJob} {c : Cache api.Module}

lemma RunJob.run_of_start (eng : PlainEngine api) (files : Bytes → Option Bytes) (h : job.start cfg env s.cache = (c, some p)) :
    ∃ name, wasmName job.module = some name ∧
      job.run cfg eng files env s = nkvxRunOnObjectLocked cfg { env with moduleFile := files name } { s with cache := c }
        name job.mod p job.outLen := by
  unfold RunJob.start at h
  split at h
  · cases h
  next hg =>
  simp only [Bool.or_eq_true, Bool.not_eq_true', not_or, Bool.not_eq_false, Option.isNone_iff_eq_none] at hg
  obtain ⟨ha, hn⟩ := hg
  obtain ⟨name, hn⟩ := Option.ne_none_iff_exists'.mp hn
  refine ⟨name, hn, ?_⟩
  unfold RunJob.run
  rw [hn]
  cases hp : job.objPin with
  | some pin =>
    rw [hp] at h
    cases h
    simp [runPinned, ha]
  | none =>
    rw [hp] at h
    dsimp only at h ⊢
    split at h
    · cases h
    next hk =>
    rw [if_pos hk]
    unfold runCached
    rw [if_neg (by simp [ha]), if_neg hk]
    cases hl : (nkvxObjLookup s.cache job.objKey).filter ObjEntry.filled with
    | some o =>
      rw [hl] at h
      cases h
      rfl
    | none =>
      rw [hl] at h
      rcases hf : coldFill cfg env.objAlloc s.cache job.objKey job.objectLen
        (fillFromJob job.object job.objectLen) with ⟨c', status | p'⟩
      · rw [hf] at h
        cases h
      rw [hf] at h
      cases h
      rfl

variable (cfg : WasmConfig)

lemma RunJob.start_cases (env : RunEnv) (s : WasmState api) (job : RunJob) :
    (job.start cfg env s.cache = (s.cache, none) ∧ ∀ eng files, (job.run cfg eng files env s).1 = s) ∨
      (∃ pin, job.objPin = some pin ∧ job.start cfg env s.cache = (s.cache, some pin)) ∨
      (job.objPin = none ∧ ∃ o, nkvxObjLookup s.cache job.objKey = some o ∧
        job.start cfg env s.cache = (nkvxObjTouch s.cache o.ptr, some o.ptr)) ∨
      (job.Fills s.cache ∧ ∃ c, coldFill cfg env.objAlloc s.cache job.objKey job.objectLen
          (fillFromJob job.object job.objectLen) = (c, .ok s.cache.nextPtr) ∧
        job.start cfg env s.cache = (c, some s.cache.nextPtr)) := by
  unfold RunJob.start RunJob.run RunJob.Fills
  cases hn : wasmName job.module with
  | none => exact .inl ⟨by simp, fun _ _ => rfl⟩
  | some name =>
    cases ha : cfg.available with
    | false =>
      refine .inl ⟨by simp, fun eng files => ?_⟩
      cases job.objPin with
      | some pin => simp [runPinned, ha]
      | none =>
        dsimp only
        split
        · simp [runCached, ha]
        · rfl
    | true =>
      cases hp : job.objPin with
      | some pin => exact .inr (.inl ⟨pin, rfl, by simp⟩)
      | none =>
        by_cases hk : job.objKey = []
        · exact .inl ⟨by simp [hk], by simp [hk]⟩
        cases hl : (nkvxObjLookup s.cache job.objKey).filter ObjEntry.filled with
        | some o =>
          exact .inr (.inr (.inl ⟨rfl, o, (Option.filter_eq_some_iff.mp hl).1, by simp [hk]⟩))
        | none =>
          obtain ⟨status, hf⟩ | ⟨got, c, _, _, hf⟩ := coldFill_cases cfg env.objAlloc s.cache job.objKey
            job.objectLen (fillFromJob job.object job.objectLen)
          · exact .inl ⟨by simp [hk, hf], by simp [runCached, ha, hk, hl, hf]⟩
          · exact .inr (.inr (.inr ⟨⟨rfl, rfl, hk, rfl⟩, c, hf, by simp [hk, hf]⟩))

def RunJob.Carries (job : RunJob) (objKey : Bytes) (objectLen : Nat) (got : Bytes) : Prop :=
  objKey = job.objKey ∧ objectLen = job.objectLen ∧ got = objectBytes job.object job.objectLen

lemma RunJob.moves_start (env : RunEnv) (s : WasmState api) (job : RunJob) :
    s.cache.Moves job.Carries (job.start cfg env s.cache).1 ∧
      ∀ w ∈ (job.start cfg env s.cache).1.warm, w ∈ s.cache.warm := by
  obtain ⟨hs, _⟩ | ⟨pin, _, hs⟩ | ⟨_, o, _, hs⟩ | ⟨_, c, hf, hs⟩ :=
    job.start_cases cfg env s
  · rw [hs]
    exact ⟨.refl, fun _ => id⟩
  · rw [hs]
    exact ⟨.refl, fun _ => id⟩
  · rw [hs]
    exact ⟨(Cache.Sheds.objTouch s.cache o.ptr).moves, fun _ => id⟩
  rw [hs]
  obtain ⟨_, hc⟩ | ⟨got, c', hg, hh, hc⟩ := coldFill_cases cfg env.objAlloc s.cache job.objKey
    job.objectLen (fillFromJob job.object job.objectLen)
  · cases hf.symm.trans hc
  cases hf.symm.trans hc
  cases hg.symm.trans (fillFromJob_backing ..)
  exact ⟨.trans (.single (.fill s.cache ⟨rfl, rfl, rfl⟩)) hh.moves, hh.warm⟩

lemma RunJob.run_cache (eng : PlainEngine api) (files : Bytes → Option Bytes) (env : RunEnv)
    (s : WasmState api) (job : RunJob) : ((job.start cfg env s.cache).2 = none ∧ (job.run cfg eng files env s).1 = s) ∨
      ∃ name p, wasmName job.module = some name ∧ (job.start cfg env s.cache).2 = some p ∧
        job.run cfg eng files env s = nkvxRunOnObjectLocked cfg { env with moduleFile := files name }
          { s with cache := (job.start cfg env s.cache).1 } name job.mod p job.outLen := by
  rcases ht : job.start cfg env s.cache with ⟨c, _ | p⟩
  · obtain ⟨_, hr⟩ | ⟨_, _, hs⟩ | ⟨_, _, _, hs⟩ | ⟨_, _, _, hs⟩ := job.start_cases cfg env s
    · exact .inl ⟨rfl, hr eng files⟩
    all_goals cases ht.symm.trans hs
  obtain ⟨name, hn, hr⟩ := RunJob.run_of_start eng files ht
  exact .inr ⟨name, p, hn, rfl, hr⟩

lemma RunJob.moves_run (eng : PlainEngine api) (files : Bytes → Option Bytes) (env : RunEnv)
    (s : WasmState api) (job : RunJob) : s.cache.Moves job.Carries (job.run cfg eng files env s).1.cache := by
  obtain ⟨_, hr⟩ | ⟨name, p, _, _, hr⟩ := job.run_cache cfg eng files env s
  · rw [hr]
  rw [hr]
  exact (job.moves_start cfg env s).1.trans (moves_runOnObject _ _ name job.mod { s with cache := _ } p _)

end Start

section Counted

variable {cfg : WasmConfig} {s : WasmState api} {job : RunJob} {holds : List ObjPtr}

/-- The entry that the job fills outlives its enforcement of the byte cap. -/
def RunJob.Kept {μ : Type} (cfg : WasmConfig) (c : Cache μ) (holds : List ObjPtr) (job : RunJob) : Prop :=
  job.Fills c → cfg.objMaxBytes = 0 ∨ c.retained holds + backing job.objectLen ≤ cfg.objMaxBytes

lemma RunJob.start_listed (hc : s.cache.Counted holds false) (hi : ∀ p, job.objPin = some p → p ∈ holds)
    (hkp : job.Kept cfg s.cache holds) (env : RunEnv) : (job.start cfg env s.cache).1.Counted holds false ∧
      ∀ p, (job.start cfg env s.cache).2 = some p → ∃ o, (job.start cfg env s.cache).1.obj p = some o := by
  obtain ⟨hs, _⟩ | ⟨pin, hj, hs⟩ | ⟨_, o, hk, hs⟩ | ⟨hfs, c, hf, hs⟩ :=
    job.start_cases cfg env s
  · rw [hs]
    exact ⟨hc, nofun⟩
  · rw [hs]
    refine ⟨hc, fun p hp => ?_⟩
    cases hp
    obtain ⟨o, _, _, hb⟩ := hc.objs.obj_of_ref (List.mem_append_left _ (hi pin hj))
    exact ⟨o, hb⟩
  · rw [hs]
    have ht := hc.objTouch o.ptr
    refine ⟨ht, fun p hp => ?_⟩
    cases hp
    exact ⟨o, Tailq.find_of_mem ht.objs.nodup (Tailq.mem_touch.mpr (objLookup_some hk).1)⟩
  rw [hs]
  have hl := hc.coldFill cfg env.objAlloc job.objKey job.objectLen (fillFromJob job.object job.objectLen)
  rw [hf] at hl
  refine ⟨hl, fun p hp => ?_⟩
  cases hp
  obtain ⟨o, ho, hpt⟩ := (coldFill_keeps_iff cfg hc hf).mpr (hkp hfs)
  exact ⟨o, hpt ▸ Tailq.find_of_mem hl.objs.nodup ho⟩

lemma RunJob.counted_run (hc : s.cache.Counted holds false) (hi : ∀ p, job.objPin = some p → p ∈ holds)
    (hk : job.Kept cfg s.cache holds) (eng : PlainEngine api) (files : Bytes → Option Bytes) (env : RunEnv) :
    (job.run cfg eng files env s).1.cache.Counted holds false := by
  obtain ⟨hs, hl⟩ := RunJob.start_listed hc hi hk env
  obtain ⟨_, hr⟩ | ⟨name, p, _, hp, hr⟩ := job.run_cache cfg eng files env s
  · rw [hr]
    exact hc
  rw [hr]
  obtain ⟨o, ho⟩ := hl p hp
  exact counted_runOnObject cfg _ name job.mod (s := { s with cache := _ }) hs ho job.outLen

end Counted

end RadosNkv.Worker
