import Mathlib.Algebra.BigOperators.Group.List.Basic
import RadosNkv.Library.Machine
import RadosNkv.Wasm.ModuleCache

/-! The module cache under any number of callers. -/

namespace RadosNkv

open List Machine

section

variable (api : WasmApi)

def moduleArtifact (bytes : Bytes) : Option ModuleEntry := do
  let sha256 ← api.sha256 bytes
  let m ← api.moduleNew bytes
  let serialized ← api.moduleSerialize m
  pure ⟨sha256, serialized⟩

variable (cfg : WasmConfig)

def moduleCommit (c : ModCache) (e : ModuleEntry) : ModCache :=
  if (nkvxModcacheLookup c e.sha256).isSome then c
  else
    nkvxModcacheEnforceCaps cfg
      { modules := c.modules ++ [e], count := c.count + 1, bytes := c.bytes + e.serialized.length }

def moduleTouch (c : ModCache) (sha256 : Bytes) : ModCache :=
  match nkvxModcacheLookup c sha256 with
  | none => c
  | some e => { c with modules := c.modules.erase e ++ [e] }

inductive ModSection where
  | commit (bytes : Bytes)
  | touch (sha256 : Bytes)

def ModCache.enter (c : ModCache) : ModSection → ModCache
  | .commit bytes =>
    match moduleArtifact api bytes with
    | none => c
    | some e => moduleCommit cfg c e
  | .touch sha256 => moduleTouch c sha256

def ModCache.after (sections : List ModSection) : ModCache :=
  Machine.run (ModCache.enter api cfg) .init sections

/-- `kvdev_rados_nkvx_wasm_module_insert`, with the sections that other callers enter between its
two: the cache right after the last section of its own, and the status. -/
def moduleInsertAmid (env : ObtainEnv) (c : ModCache)
    (others : List ModSection) (sha256 bytes : Bytes) : ModCache × IoStatus :=
  if !cfg.available then (c, .notSupported)
  else if bytes.length = 0 then (c, .invalid)
  else if !nkvxWasmVerify api bytes sha256 then (c, .invalid)
  else if (nkvxModcacheLookup c sha256).isSome then (c, .success)
  else if !env.insertEngine then (c, .failed)
  else
    match api.moduleNew bytes with
    | none => (c, .failed)
    | some m =>
      match api.moduleSerialize m with
      | none => (c, .failed)
      | some blob =>
        if !env.entryAlloc then (c, .nomem)
        else (moduleCommit cfg (Machine.run (ModCache.enter api cfg) c others) ⟨sha256, blob⟩, .success)

end

variable {api : WasmApi} {cfg : WasmConfig} {c : ModCache}

lemma moduleInsertAmid_nil (env : ObtainEnv) (sha256 bytes : Bytes) :
    moduleInsertAmid api cfg env c [] sha256 bytes = moduleInsert api cfg env c sha256 bytes := by
  unfold moduleInsertAmid moduleInsert
  split_ifs with _ _ _ hhit
  any_goals rfl
  have hcommit (e : ModuleEntry) (he : e.sha256 = sha256) : moduleCommit cfg c e = _ :=
    if_neg (he ▸ hhit)
  cases api.moduleNew bytes with
  | none => rfl
  | some m =>
    dsimp only
    cases api.moduleSerialize m with
    | none => rfl
    | some blob => exact congrArg (·, IoStatus.success) (hcommit ⟨sha256, blob⟩ rfl)

structure ModCache.Tallied (c : ModCache) : Prop where
  count : c.count = c.modules.length
  bytes : c.bytes = (c.modules.map fun e => e.serialized.length).sum

lemma ModCache.Tallied.append (h : c.Tallied) (e : ModuleEntry) :
    (⟨c.modules ++ [e], c.count + 1, c.bytes + e.serialized.length⟩ : ModCache).Tallied := by
  refine ⟨?_, ?_⟩
  · simp [h.count]
  · simp [h.bytes]

lemma tallied_modcacheDrop {count bytes : Nat}
    (h : (⟨l, count, bytes⟩ : ModCache).Tallied) : (modcacheDrop cfg l count bytes).Tallied := by
  induction l generalizing count bytes with
  | nil => exact h
  | cons e rest ih =>
    have hc : count = rest.length + 1 := h.count
    have hb : bytes = e.serialized.length + (rest.map fun e => e.serialized.length).sum := by
      simpa using h.bytes
    unfold modcacheDrop
    split
    · apply ih
      constructor
      · show count - 1 = rest.length
        omega
      show bytes - e.serialized.length = (rest.map fun e => e.serialized.length).sum
      omega
    · exact h

lemma ModCache.Tallied.commit (h : c.Tallied) (e : ModuleEntry) : (moduleCommit cfg c e).Tallied := by
  unfold moduleCommit
  split
  · exact h
  · exact tallied_modcacheDrop (h.append e)

lemma ModCache.Tallied.touch (h : c.Tallied) (sha256 : Bytes) : (moduleTouch c sha256).Tallied := by
  unfold moduleTouch
  split
  · exact h
  next e he =>
  have hp : (c.modules.erase e ++ [e]).Perm c.modules :=
    (perm_append_singleton e _).trans (perm_cons_erase (modcacheLookup_some he).1).symm
  refine ⟨h.count.trans hp.length_eq.symm, h.bytes.trans ?_⟩
  exact (hp.map _).sum_nat.symm

lemma ModCache.Tallied.enter (h : c.Tallied) (sec : ModSection) : (c.enter api cfg sec).Tallied := by
  cases sec with
  | commit bytes =>
    unfold ModCache.enter
    dsimp only
    split
    · exact h
    · exact h.commit _
  | touch sha256 => exact h.touch sha256

lemma moduleArtifact_blessed (h : moduleArtifact api bytes = some e) :
    api.sha256 bytes = some e.sha256 ∧ e.Blessed api := by
  simp only [moduleArtifact, Option.bind_eq_bind, Option.bind_eq_some_iff] at h
  obtain ⟨sha256, hh, m, hm, blob, hs, he⟩ := h
  obtain rfl : (⟨sha256, blob⟩ : ModuleEntry) = e := Option.some.inj he
  exact ⟨hh, m, ⟨bytes, hh, hm⟩, hs⟩

lemma mem_moduleCommit (h : e' ∈ (moduleCommit cfg c e).modules) : e' ∈ c.modules ∨ e' = e := by
  unfold moduleCommit at h
  split at h
  · exact .inl h
  · exact (mem_append.mp (mem_modcacheDrop h)).imp_right mem_singleton.mp

lemma ModCache.Blessed.enter (h : c.Blessed api) (sec : ModSection) : (c.enter api cfg sec).Blessed api := by
  cases sec with
  | commit bytes =>
    unfold ModCache.enter
    dsimp only
    split
    · exact h
    next e he =>
    intro e' he'
    rcases mem_moduleCommit he' with hold | rfl
    · exact h e' hold
    · exact (moduleArtifact_blessed he).2
  | touch sha256 =>
    show (moduleTouch c sha256).Blessed api
    unfold moduleTouch
    split
    · exact h
    next e he =>
    intro e' he'
    rcases mem_append.mp he' with hold | hn
    · exact h e' (mem_of_mem_erase hold)
    obtain rfl := mem_singleton.mp hn
    exact h _ (modcacheLookup_some he).1

lemma modCache_after (api : WasmApi) (cfg : WasmConfig) (sections others : List ModSection) :
    let c := run (ModCache.enter api cfg) (ModCache.after api cfg sections) others
    c.Tallied ∧ c.Blessed api := by
  intro c
  have hr : c = run (ModCache.enter api cfg) .init (sections ++ others) :=
    (run_append ..).symm
  rw [hr]
  exact run_induct (P := fun c : ModCache => c.Tallied ∧ c.Blessed api) (ModCache.enter api cfg)
    ⟨⟨rfl, rfl⟩, fun _ he => absurd he not_mem_nil⟩
    (fun _ sec h => ⟨h.1.enter sec, h.2.enter sec⟩) _

lemma mem_modcacheDrop_tail (cfg : WasmConfig) {count bytes : Nat} (hn : e ∉ l)
    (h : (⟨l ++ [e], count, bytes⟩ : ModCache).Tallied) : e ∈ (modcacheDrop cfg (l ++ [e]) count bytes).modules ↔
      cfg.modMaxBytes = 0 ∨ e.serialized.length ≤ cfg.modMaxBytes := by
  induction l generalizing count bytes with
  | nil =>
    have hc : count = 1 := h.count
    have hb : bytes = e.serialized.length := by simpa using h.bytes
    simp only [nil_append, modcacheDrop]
    split
    · simp only [not_mem_nil, false_iff]
      omega
    simp only [mem_singleton, true_iff]
    omega
  | cons a rest ih =>
    have hc : count = (rest ++ [e]).length + 1 := h.count
    have hb : bytes = a.serialized.length + ((rest ++ [e]).map fun e => e.serialized.length).sum := by
      simpa using h.bytes
    have hl : ((rest ++ [e]).map fun e => e.serialized.length).sum =
        (rest.map fun e => e.serialized.length).sum + e.serialized.length := by simp
    simp only [cons_append, modcacheDrop]
    split
    · apply ih fun hm => hn (mem_cons_of_mem _ hm)
      constructor
      · show count - 1 = (rest ++ [e]).length
        omega
      show bytes - a.serialized.length = ((rest ++ [e]).map fun e => e.serialized.length).sum
      omega
    -- within the caps: everything stays, and the tail entry is a part of the bytes
    refine ⟨fun _ => ?_, fun _ => by simp⟩
    omega

variable {sha256 : Bytes}

lemma moduleCached_iff : moduleCached c sha256 ↔ ∃ e ∈ c.modules, e.sha256 = sha256 := by
  simp [moduleCached, nkvxModcacheLookup]

lemma moduleCached_commit (cfg : WasmConfig) (h : c.Tallied) (e : ModuleEntry) :
    moduleCached (moduleCommit cfg c e) e.sha256 ↔
      moduleCached c e.sha256 ∨ cfg.modMaxBytes = 0 ∨ e.serialized.length ≤ cfg.modMaxBytes := by
  by_cases hh : moduleCached c e.sha256
  · have hs : moduleCommit cfg c e = c := if_pos hh
    simp [hs, hh]
  · have hn : ∀ e' ∈ c.modules, e'.sha256 ≠ e.sha256 := fun e' he' hq =>
      hh (moduleCached_iff.mpr ⟨e', he', hq⟩)
    have hne : e ∉ c.modules := fun he => hn e he rfl
    have ht := mem_modcacheDrop_tail cfg hne (h.append e)
    have hc : moduleCommit cfg c e =
        modcacheDrop cfg (c.modules ++ [e]) (c.count + 1) (c.bytes + e.serialized.length) := if_neg hh
    rw [moduleCached_iff, hc, or_iff_right hh, ← ht]
    constructor
    · rintro ⟨e', he', hk⟩
      rcases mem_append.mp (mem_modcacheDrop he') with hold | hl
      · exact absurd hk (hn e' hold)
      · rwa [mem_singleton.mp hl] at he'
    · exact fun he => ⟨e, he, rfl⟩

lemma obtain_of_cached (hd : ∀ {m blob}, api.moduleSerialize m = some blob → api.moduleDeserialize blob = some m)
    (hc : c.Blessed api) (h : moduleCached c sha256) (env : ObtainEnv)
    (ha : env.blobAlloc = true) (caps : Nat) (readOnly : Bool) :
    ∃ m, (nkvxModuleObtain api cfg env c ⟨sha256, none, caps, readOnly⟩).2 = .ok m ∧ api.CompiledFrom sha256 m := by
  obtain ⟨e, he⟩ := Option.isSome_iff_exists.mp h
  obtain ⟨hm, hk⟩ := modcacheLookup_some he
  obtain ⟨m, hf, hs⟩ := hc e hm
  refine ⟨m, ?_, hk ▸ hf⟩
  have hp : deserializeCopy api e = .ok m := by
    unfold deserializeCopy
    rw [hd hs]
  unfold nkvxModuleObtain
  rw [he]
  simp [ha, hp]

lemma moduleInsertAmid_success
    (h : (moduleInsertAmid api cfg env c others sha256 bytes).2 = .success) :
    (moduleCached c sha256 ∧ (moduleInsertAmid api cfg env c others sha256 bytes).1 = c) ∨
      ∃ e, moduleArtifact api bytes = some e ∧ e.sha256 = sha256 ∧ moduleCached c sha256 = false ∧
        (moduleInsertAmid api cfg env c others sha256 bytes).1 =
          moduleCommit cfg (run (ModCache.enter api cfg) c others) e := by
  revert h
  fun_cases moduleInsertAmid
  case case4 hh => exact fun _ => .inl ⟨hh, rfl⟩
  case case9 hg hms _ m hm blob hs _ =>
    intro _
    have hsh : api.sha256 bytes = some sha256 := by simpa [nkvxWasmVerify] using hg
    exact .inr ⟨⟨sha256, blob⟩, by simp [moduleArtifact, hsh, hm, hs], rfl, by simpa [moduleCached] using hms, rfl⟩
  all_goals
    intro h
    cases h

/-- In every reachable state, with any sections of other callers in between and under every cap: an
insertion that returns SUCCESS leaves its digest cached, and obtainable without fetched bytes,
exactly when the digest was cached at one of its two looks, or its artifact is within the byte cap.
-/
theorem inserted_module_cached_iff (api : WasmApi)
    (hde : ∀ {m blob}, api.moduleSerialize m = some blob → api.moduleDeserialize blob = some m)
    (cfg : WasmConfig) (sections : List ModSection) :
    (ModCache.after api cfg sections).Tallied ∧
      ∀ (env : ObtainEnv) (others : List ModSection) (sha256 bytes : Bytes),
        let c := ModCache.after api cfg sections
        let c₂ := Machine.run (ModCache.enter api cfg) c others
        let r := moduleInsertAmid api cfg env c others sha256 bytes
        r.2 = .success →
          ((moduleCached r.1 sha256 = true ∧
              ∀ (env' : ObtainEnv) (caps : Nat) (readOnly : Bool), env'.blobAlloc = true →
                ∃ m, (nkvxModuleObtain api cfg env' r.1 ⟨sha256, none, caps, readOnly⟩).2 = .ok m ∧
                  api.CompiledFrom sha256 m) ↔
            moduleCached c sha256 ∨ moduleCached c₂ sha256 ∨ cfg.modMaxBytes = 0 ∨
              ∀ e, moduleArtifact api bytes = some e → e.serialized.length ≤ cfg.modMaxBytes) := by
  obtain ⟨htally, hbelow⟩ := modCache_after api cfg sections []
  refine ⟨htally, ?_⟩
  intro env others sha256 bytes c c₂ r hok
  obtain ⟨htly₂, hbls₂⟩ := modCache_after api cfg sections others
  obtain ⟨hhit, hr⟩ | ⟨e, hart, rfl, hms, hr⟩ := moduleInsertAmid_success hok
  · have hr : r.1 = c := hr
    rw [hr]
    exact ⟨fun _ => .inl hhit, fun _ =>
      ⟨hhit, fun env' caps readOnly halc => obtain_of_cached hde hbelow hhit env' halc caps readOnly⟩⟩
  have hr : r.1 = moduleCommit cfg c₂ e := hr
  have hbelow' : (moduleCommit cfg c₂ e).Blessed api := by
    intro e' he'
    rcases mem_moduleCommit he' with hold | rfl
    · exact hbls₂ e' hold
    · exact (moduleArtifact_blessed hart).2
  have hcached := moduleCached_commit cfg htly₂ e
  have hfit : (∀ e', moduleArtifact api bytes = some e' → e'.serialized.length ≤ cfg.modMaxBytes) ↔
      e.serialized.length ≤ cfg.modMaxBytes := by
    constructor
    · exact fun h => h e hart
    intro h e' he'
    obtain rfl : e = e' := Option.some.inj (hart.symm.trans he')
    exact h
  rw [hr, hfit]
  constructor
  · exact fun h => .inr (hcached.mp h.1)
  rintro (hc | h)
  · simp [c, hms] at hc
  exact ⟨hcached.mpr h, fun env' caps readOnly halc =>
    obtain_of_cached hde hbelow' (hcached.mpr h) env' halc caps readOnly⟩

/-- An artifact of two bytes under a byte cap of two, inserted while another caller inserts one of
one byte: the other one makes room. -/
theorem inserted_module_cached_two_bytes :
    let cfg : WasmConfig := { WasmConfig.default with modMaxBytes := 2 }
    let r := moduleInsertAmid toyApi cfg ⟨true, true, true⟩
      (.after toyApi cfg []) [.commit [7]] [5, 6] [5, 6]
    r.2 = .success ∧ r.1.modules = [⟨[5, 6], [5, 6]⟩] ∧
      ∃ m, (nkvxModuleObtain toyApi cfg ⟨true, true, true⟩ r.1 ⟨[5, 6], none, 0, false⟩).2 = .ok m ∧
        toyApi.CompiledFrom [5, 6] m := by
  intro cfg r
  have h := (inserted_module_cached_iff toyApi (fun h => h.symm) cfg []).2 ⟨true, true, true⟩ [.commit [7]] [5, 6]
    [5, 6] rfl
  refine ⟨rfl, rfl, (h.mpr (.inr (.inr (.inr ?_)))).2 _ 0 false rfl⟩
  intro e he
  obtain rfl := Option.some.inj he
  exact le_rfl

/-- An artifact of two bytes under a byte cap of one: the insertion answers SUCCESS and evicts it.
-/
theorem inserted_module_evicted :
    let cfg : WasmConfig := { WasmConfig.default with modMaxBytes := 1 }
    let r := moduleInsert toyApi cfg ⟨true, true, true⟩ (.after toyApi cfg []) [5, 6] [5, 6]
    r.2 = .success ∧ moduleCached r.1 [5, 6] = false ∧
      (nkvxModuleObtain toyApi cfg ⟨true, true, true⟩ r.1 ⟨[5, 6], none, 0, false⟩).2 =
        .error .failed :=
  ⟨rfl, rfl, rfl⟩

end RadosNkv
