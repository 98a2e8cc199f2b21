import RadosNkv.Wasm.Engine

/-! The compiled-module cache, keyed by the SHA-256 of the module's bytes, and the integrity gate in
front of it. -/

namespace RadosNkv

open List

structure ModuleEntry where
  sha256 : Bytes
  serialized : Bytes
deriving DecidableEq

structure ModCache where
  modules : List ModuleEntry
  count : Nat
  bytes : Nat

def ModCache.init : ModCache := ⟨[], 0, 0⟩

structure ModSpec where
  sha256 : Bytes
  bytes : Option Bytes
  caps : Nat
  readOnly : Bool
deriving DecidableEq

structure ObtainEnv where
  insertEngine : Bool
  entryAlloc : Bool
  blobAlloc : Bool

section

variable (api : WasmApi)

def nkvxWasmVerify (bytes bound : Bytes) : Bool := api.sha256 bytes == some bound

def nkvxModcacheLookup (c : ModCache) (sha256 : Bytes) : Option ModuleEntry :=
  c.modules.find? fun e => e.sha256 == sha256

def moduleCached (c : ModCache) (sha256 : Bytes) : Bool := (nkvxModcacheLookup c sha256).isSome

def modcacheDrop (cfg : WasmConfig) : List ModuleEntry → Nat → Nat → ModCache
  | [], count, bytes => ⟨[], count, bytes⟩
  | e :: rest, count, bytes =>
    if (cfg.modMaxCount ≠ 0 ∧ count > cfg.modMaxCount) ∨
        (cfg.modMaxBytes ≠ 0 ∧ bytes > cfg.modMaxBytes) then
      modcacheDrop cfg rest (count - 1) (bytes - e.serialized.length)
    else ⟨e :: rest, count, bytes⟩

def nkvxModcacheEnforceCaps (cfg : WasmConfig) (c : ModCache) : ModCache :=
  modcacheDrop cfg c.modules c.count c.bytes

def moduleVerify (cfg : WasmConfig) (sha256 bytes : Bytes) : IoStatus :=
  if !cfg.available then .notSupported
  else if bytes.length = 0 then .invalid
  else if nkvxWasmVerify api bytes sha256 then .success
  else .invalid

/-- `kvdev_rados_nkvx_wasm_module_insert`. The cache is looked up once: nothing else touches it
between the check before the compilation and the insertion. -/
def moduleInsert (cfg : WasmConfig) (env : ObtainEnv) (c : ModCache)
    (sha256 bytes : Bytes) : ModCache × IoStatus :=
  if !cfg.available then (c, .notSupported)
  else if bytes.length = 0 then (c, .invalid)
  else if !nkvxWasmVerify api bytes sha256 then (c, .invalid)
  else if (nkvxModcacheLookup c sha256).isSome then (c, .success)
  else if !env.insertEngine then (c, .failed)
  else
    match api.moduleNew bytes with
    | none => (c, .failed)
    | some m =>
      match api.moduleSerialize m with
      | none => (c, .failed)
      | some blob =>
        if !env.entryAlloc then (c, .nomem)
        else
          let c' : ModCache :=
            { modules := c.modules ++ [⟨sha256, blob⟩]
              count := c.count + 1
              bytes := c.bytes + blob.length }
          (nkvxModcacheEnforceCaps cfg c', .success)

def deserializeCopy (e : ModuleEntry) : Except IoStatus api.Module :=
  match api.moduleDeserialize e.serialized with
  | none => .error .failed
  | some m => .ok m

def nkvxModuleObtain (cfg : WasmConfig) (env : ObtainEnv) (c : ModCache)
    (mod : ModSpec) : ModCache × Except IoStatus api.Module :=
  match nkvxModcacheLookup c mod.sha256 with
  | some e =>
    if !env.blobAlloc then (c, .error .nomem)
    else
      -- a hit is hot: it moves to the tail
      ({ c with modules := c.modules.erase e ++ [e] }, deserializeCopy api e)
  | none =>
    match mod.bytes with
    | none => (c, .error .failed)
    | some bytes =>
      if bytes.length = 0 then (c, .error .failed)
      else
        match moduleInsert api cfg env c mod.sha256 bytes with
        | (c', .success) =>
          match nkvxModcacheLookup c' mod.sha256 with
          | none => (c', .error .failed)
          | some e =>
            if !env.blobAlloc then (c', .error .failed) else (c', deserializeCopy api e)
        | (c', status) => (c', .error status)

end

section Blessed

variable {api : WasmApi} {c : ModCache}

def ModuleEntry.Blessed (api : WasmApi) (e : ModuleEntry) : Prop :=
  ∃ m, api.CompiledFrom e.sha256 m ∧ api.moduleSerialize m = some e.serialized

def ModCache.Blessed (api : WasmApi) (c : ModCache) : Prop := ∀ e ∈ c.modules, e.Blessed api

variable {e : ModuleEntry}

lemma modcacheLookup_some (h : nkvxModcacheLookup c sha256 = some e) :
    e ∈ c.modules ∧ e.sha256 = sha256 :=
  ⟨mem_of_find?_eq_some h, by simpa using find?_some h⟩

lemma mem_modcacheDrop {l : List ModuleEntry} {count bytes : Nat}
    (h : e ∈ (modcacheDrop cfg l count bytes).modules) : e ∈ l := by
  induction l generalizing count bytes with
  | nil => exact h
  | cons a rest ih =>
    unfold modcacheDrop at h
    split at h
    · exact mem_cons_of_mem _ (ih h)
    · exact h

lemma moduleInsert_cases (api : WasmApi) (cfg : WasmConfig) (env : ObtainEnv) (c : ModCache) (sha256 bytes : Bytes) :
    (moduleInsert api cfg env c sha256 bytes).1 = c ∨
      ∃ m blob, api.sha256 bytes = some sha256 ∧ api.moduleNew bytes = some m ∧ api.moduleSerialize m = some blob ∧
        (moduleInsert api cfg env c sha256 bytes).1 = nkvxModcacheEnforceCaps cfg
          ⟨c.modules ++ [⟨sha256, blob⟩], c.count + 1, c.bytes + blob.length⟩ := by
  fun_cases moduleInsert
  case case9 hg _ _ m hm blob hs _ _ =>
    exact .inr ⟨m, blob, by simpa [nkvxWasmVerify] using hg, hm, hs, rfl⟩
  all_goals exact .inl rfl

lemma blessed_moduleInsert (cfg : WasmConfig) (env : ObtainEnv) (h : c.Blessed api)
    (sha256 bytes : Bytes) : (moduleInsert api cfg env c sha256 bytes).1.Blessed api := by
  obtain hq | ⟨m, blob, hh, hm, hs, hq⟩ := moduleInsert_cases api cfg env c sha256 bytes
  · rw [hq]
    exact h
  · rw [hq]
    intro e he
    have he' : e ∈ c.modules ++ [⟨sha256, blob⟩] := mem_modcacheDrop he
    rcases mem_append.mp he' with hold | hn
    · exact h e hold
    · obtain rfl := mem_singleton.mp hn
      exact ⟨m, ⟨bytes, hh, hm⟩, hs⟩

lemma compiledFrom_of_deserializeCopy (he : e.Blessed api) (h : deserializeCopy api e = .ok m) :
    api.CompiledFrom e.sha256 m := by
  obtain ⟨m0, hf, hs⟩ := he
  unfold deserializeCopy at h
  split at h
  · cases h
  next m' hd =>
  cases h
  rw [api.deserialize_serialize hs hd]
  exact hf

lemma obtain_spec (cfg : WasmConfig) (env : ObtainEnv) (h : c.Blessed api) (mod : ModSpec) :
    (nkvxModuleObtain api cfg env c mod).1.Blessed api ∧
      ∀ m, (nkvxModuleObtain api cfg env c mod).2 = .ok m → api.CompiledFrom mod.sha256 m := by
  have hc : ∀ {c' : ModCache} {e m}, c'.Blessed api →
      nkvxModcacheLookup c' mod.sha256 = some e → deserializeCopy api e = .ok m →
      api.CompiledFrom mod.sha256 m := by
    intro c' e m hc' he hm
    obtain ⟨hme, hk⟩ := modcacheLookup_some he
    rw [← hk]
    exact compiledFrom_of_deserializeCopy (hc' e hme) hm
  have hi : ∀ {bytes c' status}, moduleInsert api cfg env c mod.sha256 bytes = (c', status) →
      c'.Blessed api := by
    intro bytes c' status hq
    have := blessed_moduleInsert cfg env h mod.sha256 bytes
    rwa [hq] at this
  fun_cases nkvxModuleObtain
  case case2 e he _ =>
    refine ⟨fun e' he' => ?_, fun m hm => hc h he hm⟩
    rcases mem_append.mp he' with hold | hn
    · exact h e' (mem_of_mem_erase hold)
    obtain rfl := mem_singleton.mp hn
    exact h _ (modcacheLookup_some he).1
  case case7 hq e he _ => exact ⟨hi hq, fun m hm => hc (hi hq) he hm⟩
  case case5 hq _ => exact ⟨hi hq, nofun⟩
  case case6 hq _ _ _ => exact ⟨hi hq, nofun⟩
  case case8 _ hq => exact ⟨hi hq, nofun⟩
  all_goals exact ⟨h, nofun⟩

end Blessed

end RadosNkv
