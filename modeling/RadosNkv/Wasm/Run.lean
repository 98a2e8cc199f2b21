import RadosNkv.Wasm.ModuleCache
import RadosNkv.Wasm.ObjectCache

/-! Runs of a module on a cached object: the warm entry is looked up or built, and an instance runs
over the object's buffer, which keeps what the guest wrote when the memory aliases it. -/

namespace RadosNkv

structure Entered (api : WasmApi) where
  digest : Option Bytes
  module : api.Module

structure WasmState (api : WasmApi) where
  mods : ModCache
  cache : Cache api.Module
  entered : List (Entered api)

def WasmState.init (api : WasmApi) : WasmState api := ⟨.init, .init, []⟩

structure RunEnv where
  obtain : ObtainEnv
  moduleFile : Option Bytes
  warmEngine : Bool
  warmAlloc : Bool
  storeNew : Bool
  memoryAlloc : Bool
  objAlloc : Bool
  clock : RunClock

def RunEnv.good : RunEnv where
  obtain := ⟨true, true, true⟩
  moduleFile := none
  warmEngine := true
  warmAlloc := true
  storeNew := true
  memoryAlloc := true
  objAlloc := true
  clock := ⟨none, true⟩

variable {api : WasmApi}

section

variable (cfg : WasmConfig)

variable (env : RunEnv)

variable (s : WasmState api)

def warmModule (mod : Option ModSpec) :
    WasmState api × Option api.Module :=
  match mod with
  | some mod =>
    match nkvxModuleObtain api cfg env.obtain s.mods mod with
    | (mods, .error _) => ({ s with mods }, none)
    | (mods, .ok m) => ({ s with mods }, some m)
  | none => (s, env.moduleFile.bind api.moduleNew)

def Cache.linkWarm {μ : Type} (c : Cache μ) (name : Bytes) (m : μ) (o : ObjEntry) : Cache μ :=
  let w : WarmEntry μ := ⟨c.nextPtr, cstrFit 64 name, cstrFit 256 o.objKey, m, o.ptr⟩
  { (c.updateObj o.ptr fun o => { o with refcount := o.refcount + 1 }) with
    warm := c.warm ++ [w]
    warmCount := c.warmCount + 1
    nextPtr := c.nextPtr + 1 }

def nkvxWarmBuild (name : Bytes)
    (mod : Option ModSpec) (o : ObjEntry) : WasmState api × Option api.Module :=
  if mod.isNone && env.moduleFile.isNone then (s, none)
  else if !env.warmEngine then (s, none)
  else
    match warmModule cfg env s mod with
    | (s, none) => (s, none)
    | (s, some m) =>
      if !env.warmAlloc then (s, none)
      else
        ({ s with cache := nkvxWarmCacheEnforceCaps cfg (s.cache.linkWarm name m o) }, some m)

def warmObtain (name : Bytes)
    (mod : Option ModSpec) (o : ObjEntry) : WasmState api × Option api.Module :=
  match nkvxWarmLookup s.cache name o.ptr with
  | some w => ({ s with cache := nkvxWarmTouch s.cache w }, some w.moduleH)
  | none => nkvxWarmBuild cfg env s name mod o

def instanceMemory (api : WasmApi) (m : api.Module) (alloc : Bool) (o : ObjEntry) : Option ZcMem :=
  match api.minimum m with
  | none => some ⟨fun _ => 0, 0, 0, true⟩
  | some minimum => nkvxZcNewMemory ⟨o.mem, o.memSize, o.memCap⟩ minimum alloc

def ObjEntry.writeBack (o : ObjEntry) (z : ZcMem) (after : Mem) : ObjEntry :=
  if z.owned then o else { o with mem := fun a => if a < o.memCap then after a else o.mem a }

/-- The instance of `m` on the object `o`: the fresh store, the instantiation over the object's
buffer and the call. -/
def runModule (name : Bytes)
    (mod : Option ModSpec) (m : api.Module) (o : ObjEntry) (outLen : Nat) :
    WasmState api × RunResult :=
  if !env.storeNew then (s, .only .failed)
  else
    let s := { s with entered := ⟨mod.map ModSpec.sha256, m⟩ :: s.entered }
    match instanceMemory api m env.memoryAlloc o with
    | none => (s, .only .failed)
    | some z =>
      let caps := nkvxWasmCapsLoad cfg ((mod.map ModSpec.caps).getD 0)
      let readOnly := (mod.map ModSpec.readOnly).getD false
      let r := runInstance api caps env.clock m name readOnly o.objLen outLen z
      ({ s with cache := s.cache.updateObj o.ptr fun o => o.writeBack z r.2 }, r.1)

/-- `nkvx_run_on_object_locked`. The object may have been freed by the caller's eviction: then the
run uses freed memory. -/
def nkvxRunOnObjectLocked (name : Bytes)
    (mod : Option ModSpec) (p : ObjPtr) (outLen : Nat) : WasmState api × RunResult :=
  match s.cache.obj p with
  | none => ({ s with cache := s.cache.bad }, .only .failed)
  | some o =>
    match warmObtain cfg env s name mod o with
    | (s, none) => (s, .only .failed)
    | (s, some m) => runModule cfg env s name mod m o outLen

end

def runCached {ε : Type} (cfg : WasmConfig) (env : RunEnv) (s : WasmState api) (name : Bytes)
    (mod : Option ModSpec) (objKey : Bytes) (objectLen : Nat) (fill : Nat → Except ε Bytes)
    (outLen : Nat) : WasmState api × RunResult :=
  if !cfg.available then (s, .only .notSupported)
  else if objKey = [] then (s, .only .invalid)
  else
    match (nkvxObjLookup s.cache objKey).filter ObjEntry.filled with
    | some o =>
      nkvxRunOnObjectLocked cfg env { s with cache := nkvxObjTouch s.cache o.ptr } name mod o.ptr outLen
    | none =>
      match coldFill cfg env.objAlloc s.cache objKey objectLen fill with
      | (cache, .error status) => ({ s with cache }, .only status)
      | (cache, .ok p) => nkvxRunOnObjectLocked cfg env { s with cache } name mod p outLen

def runPinned (cfg : WasmConfig) (env : RunEnv) (s : WasmState api) (name : Bytes)
    (mod : Option ModSpec) (pin : ObjPtr) (outLen : Nat) : WasmState api × RunResult :=
  if !cfg.available then (s, .only .notSupported)
  else nkvxRunOnObjectLocked cfg env s name mod pin outLen

end RadosNkv
