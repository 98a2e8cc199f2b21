import RadosNkv.Library.Memory
import RadosNkv.Wasm.ColdRun

/-! The plain-copy run (`kvdev_rados_nkvx_wasm_run`): the engine gives the instance a memory of its
own, and the object is copied into it after the instantiation. -/

namespace RadosNkv

open List Memory

/-- The engine of a plain-copy run: how its memory grows, and the instantiation and the call where
its configuration has neither fuel nor epochs. -/
structure PlainEngine (api : WasmApi) where
  grow : ZcMem → Nat → Option ZcMem
  instanceUnmetered : (m : api.Module) → (limit : Option Nat) →
    (grow : ZcMem → Nat → Option ZcMem) → ZcMem → Guest (InstanceEnd api.Instance)
  callUnmetered : api.Instance → (name : Bytes) → (deadline : Option Nat) → (grow : ZcMem → Nat → Option ZcMem) →
    (off len : UInt32) → ZcMem → Guest CallEnd

structure PlainEnv where
  moduleFile : Option Bytes
  engineNew : Bool
  storeNew : Bool
  clock : RunClock

def PlainEnv.good (file : Option Bytes) : PlainEnv := ⟨file, true, true, ⟨none, true⟩⟩

variable {api : WasmApi}

def plainMemory (api : WasmApi) (m : api.Module) : ZcMem :=
  let minimum := (api.minimum m).getD 0
  ⟨fun _ => 0, minimum, minimum, true⟩

/-- `instance_new` on the engine of the run. `api.instanceNew` is that of the zero-copy path, whose
engine always has fuel and epochs, none of which are given before the instantiation. -/
def PlainEngine.instanceNew (eng : PlainEngine api) (caps : WasmCaps) (m : api.Module)
    (limit : Option Nat) (z : ZcMem) : Guest (InstanceEnd api.Instance) :=
  if caps.fuelCeiling > 0 ∨ caps.epochDeadlineTicks > 0 then api.instanceNew m limit eng.grow z
  else eng.instanceUnmetered m limit eng.grow z

/-- `kvdev_rados_nkvx_wasm_run`, from the instantiation on. -/
def plainInstance (eng : PlainEngine api) (caps : WasmCaps) (clock : RunClock) (m : api.Module) (name : Bytes)
    (object : Option Bytes) (objectLen outLen : Nat) : RunResult :=
  let limit := if caps.maxMemoryBytes > 0 then some caps.maxMemoryBytes else none
  let start := eng.instanceNew caps m limit (plainMemory api m)
  match start.ending with
  | .error => .only .failed
  | .trap => .only .failed
  | .ready inst =>
    if !api.exportsMemory m then .only .failed
    else if !api.exportsFunc m name then .only .failed
    else if wasmObjOff + objectLen > start.mem.size then .only .failed
    else
      let mem := { start.mem with base := Memory.write start.mem.base wasmObjOff (object.getD []) }
      if caps.fuelCeiling > 0 && !clock.setFuel then .only .failed
      else
        let deadline := if caps.epochDeadlineTicks > 0 then clock.epoch else none
        let off := UInt32.ofNat wasmObjOff
        let len := UInt32.ofNat objectLen
        let call := if caps.fuelCeiling > 0 then
            api.funcCall inst name caps.fuelCeiling deadline eng.grow off len mem
          else eng.callUnmetered inst name deadline eng.grow off len mem
        runFinish start.mem.size outLen call

def wasmRun (cfg : WasmConfig) (eng : PlainEngine api) (env : PlainEnv) (name : Bytes) (mod : Option ModSpec)
    (object : Option Bytes) (objectLen outLen : Nat) : RunResult :=
  if !cfg.available then .only .notSupported
  else if mod.isSome then .only .notSupported
  else
    match env.moduleFile with
    | none => .only .failed
    | some wasm =>
      if !env.engineNew then .only .failed
      else if !env.storeNew then .only .failed
      else
        match api.moduleNew wasm with
        | none => .only .failed
        | some m => plainInstance eng (nkvxWasmCapsLoad cfg 0) env.clock m name object objectLen outLen

structure ZcMem.SameView (z z' : ZcMem) : Prop where
  size : z.size = z'.size
  base : ∀ a < z.size, z.base a = z'.base a

structure ZcMem.AgreeOff (lo hi : Nat) (z z' : ZcMem) : Prop where
  size : z.size = z'.size
  base : ∀ a < z.size, ¬ (lo ≤ a ∧ a < hi) → z.base a = z'.base a

def ZcMem.KeptAt (lo hi : Nat) (z z' : ZcMem) : Prop := ∀ a, lo ≤ a → a < hi → z'.base a = z.base a

def refuseGrow : ZcMem → Nat → Option ZcMem := fun _ _ => none

def writeSegments : List (Nat × Bytes) → ZcMem → ZcMem × Bool
  | [], z => (z, true)
  | (off, bytes) :: rest, z =>
    if off + bytes.length > z.size then (z, false)
    else writeSegments rest { z with base := Memory.write z.base off bytes }

/-- How the engine instantiates a module: the limiter is asked for the declared memory, the active
data segments are written, and the start function runs. -/
structure WasmApi.Instantiation (api : WasmApi) where
  segments : api.Module → List (Nat × Bytes)
  start : api.Module → (grow : ZcMem → Nat → Option ZcMem) → ZcMem → Guest (InstanceEnd api.Instance)
  instanceNew_eq : ∀ m limit grow z, api.instanceNew m limit grow z =
    if limit.any (· < z.size) then ⟨.error, z⟩
    else
      let written := writeSegments (segments m) z
      if written.2 then start m grow written.1 else ⟨.trap, written.1⟩

/-- Guest code whose memory does not grow is a function of the bytes that it can see. -/
structure WasmApi.Instantiation.Deterministic (sem : api.Instantiation) : Prop where
  start_size : ∀ m z, (sem.start m refuseGrow z).mem.size = z.size
  call : ∀ inst name fuel deadline off len {z z' : ZcMem}, z.SameView z' →
    (api.funcCall inst name fuel deadline refuseGrow off len z).ending =
        (api.funcCall inst name fuel deadline refuseGrow off len z').ending ∧
      ∀ a < z.size, (api.funcCall inst name fuel deadline refuseGrow off len z).mem.base a =
        (api.funcCall inst name fuel deadline refuseGrow off len z').mem.base a

def CallEnd.Capped : CallEnd → Prop
  | .trap message => nkvxWasmTrapIsCap message = true
  | .error | .returned _ => False

/-- The module has no start function: its instantiation runs no guest code. -/
def WasmApi.Instantiation.Startless (sem : api.Instantiation) (m : api.Module) : Prop :=
  ∃ inst, ∀ grow z, sem.start m grow z = ⟨.ready inst, z⟩

/-- Metering makes a difference only to guest code, and to a call only if it uses up its fuel. -/
structure PlainEngine.Unmetered (eng : PlainEngine api) (sem : api.Instantiation) : Prop where
  instance_new : ∀ {m}, sem.Startless m → ∀ limit grow z,
    eng.instanceUnmetered m limit grow z = api.instanceNew m limit grow z
  call : ∀ inst name fuel deadline grow off len z,
    ¬ (api.funcCall inst name fuel deadline grow off len z).ending.Capped →
      eng.callUnmetered inst name deadline grow off len z =
        api.funcCall inst name fuel deadline grow off len z

namespace WasmApi.Instantiation

variable (sem : api.Instantiation)

structure NeverGrows (m : api.Module) : Prop where
  start : ∀ grow z, sem.start m grow z = sem.start m refuseGrow z
  call : ∀ {z inst}, (sem.start m refuseGrow z).ending = .ready inst → ∀ name fuel deadline grow off len z',
    api.funcCall inst name fuel deadline grow off len z' = api.funcCall inst name fuel deadline refuseGrow off len z'

/-- Instantiating the module neither reads nor writes the bytes from `lo` up to `hi`: no active data
segment meets them, and the start function, if there is one, leaves them alone. -/
structure KeepsClear (m : api.Module) (lo hi : Nat) : Prop where
  segments : ∀ seg ∈ sem.segments m, seg.1 + seg.2.length ≤ lo ∨ hi ≤ seg.1
  start : ∀ {z z' : ZcMem}, z.AgreeOff lo hi z' →
    (sem.start m refuseGrow z).ending = (sem.start m refuseGrow z').ending ∧
      (sem.start m refuseGrow z).mem.AgreeOff lo hi (sem.start m refuseGrow z').mem ∧
      z.KeptAt lo hi (sem.start m refuseGrow z).mem

/-- The module cannot tell the two runs on an object of `objectLen` bytes apart: its declared memory
holds the object, its instantiation keeps clear of it, it has no start function where the plain run
is not metered, it does not grow its memory, and without a fuel ceiling no call of it uses up the
2^64 - 1 units that the zero-copy run gives it. -/
structure Comparable (cfg : WasmConfig) (m : api.Module) (name : Bytes) (objectLen : Nat) : Prop where
  holds : wasmObjOff + objectLen ≤ (api.minimum m).getD 0
  clear : sem.KeepsClear m wasmObjOff (wasmObjOff + objectLen)
  startless : cfg.fuel = 0 → cfg.epochTicks = 0 → sem.Startless m
  grows : sem.NeverGrows m
  fuel : cfg.fuel = 0 → ∀ {z inst}, (sem.start m refuseGrow z).ending = .ready inst → ∀ off len z',
    ¬ (api.funcCall inst name (2 ^ 64 - 1) none refuseGrow off len z').ending.Capped

end WasmApi.Instantiation

variable {object : Bytes}

section Agree

variable {z z' : ZcMem}

lemma ZcMem.AgreeOff.write (h : z.AgreeOff lo hi z') {bytes : Bytes}
    (hb : off + bytes.length ≤ lo ∨ hi ≤ off) :
    ZcMem.AgreeOff lo hi { z with base := Memory.write z.base off bytes }
        { z' with base := Memory.write z'.base off bytes } ∧
      z.KeptAt lo hi { z with base := Memory.write z.base off bytes } := by
  refine ⟨⟨h.size, fun a ha ho => ?_⟩, fun a hl hh => Memory.write_beyond _ (by omega)⟩
  show Memory.write z.base off bytes a = Memory.write z'.base off bytes a
  by_cases hn : off ≤ a ∧ a < off + bytes.length
  · exact Memory.write_within _ _ hn.1 hn.2
  rw [Memory.write_beyond _ hn, Memory.write_beyond _ hn]
  exact h.base a ha ho

lemma agreeOff_writeSegments (h : z.AgreeOff lo hi z')
    (hb : ∀ seg ∈ segs, seg.1 + seg.2.length ≤ lo ∨ hi ≤ seg.1) :
    (writeSegments segs z).2 = (writeSegments segs z').2 ∧
      (writeSegments segs z).1.AgreeOff lo hi (writeSegments segs z').1 ∧
      z.KeptAt lo hi (writeSegments segs z).1 ∧ (writeSegments segs z').1.size = z'.size := by
  induction segs generalizing z z' with
  | nil => exact ⟨rfl, h, fun _ _ _ => rfl, rfl⟩
  | cons seg segs ih =>
    obtain ⟨off, bytes⟩ := seg
    have hm : off + bytes.length > z'.size ↔ off + bytes.length > z.size := by rw [h.size]
    unfold writeSegments
    by_cases ho : off + bytes.length > z.size
    · rw [if_pos ho, if_pos (hm.mpr ho)]
      exact ⟨rfl, h, fun _ _ _ => rfl, rfl⟩
    rw [if_neg ho, if_neg (hm.not.mpr ho)]
    obtain ⟨ha, hk⟩ := h.write (hb _ mem_cons_self)
    obtain ⟨hf, hr, hk', hz⟩ := ih ha fun seg hs => hb seg (mem_cons_of_mem _ hs)
    exact ⟨hf, hr, fun a hl hh => (hk' a hl hh).trans (hk a hl hh), hz⟩

variable {sem : api.Instantiation} {m : api.Module} {cfg : WasmConfig} {name : Bytes} {eng : PlainEngine api}

lemma WasmApi.Instantiation.KeepsClear.instanceNew (hd : sem.Deterministic) (hc : sem.KeepsClear m lo hi)
    (hg : sem.NeverGrows m) (h : z.AgreeOff lo hi z') (limit : Option Nat) (grow grow' : ZcMem → Nat → Option ZcMem) :
    let start := api.instanceNew m limit grow z
    let start' := api.instanceNew m limit grow' z'
    start.ending = start'.ending ∧
      ∀ inst, start.ending = .ready inst → start.mem.AgreeOff lo hi start'.mem ∧ z.KeptAt lo hi start.mem ∧
        start'.mem.size = z'.size ∧ ∃ w, (sem.start m refuseGrow w).ending = .ready inst := by
  obtain ⟨hf, hw, hk, hs⟩ := agreeOff_writeSegments h hc.segments
  obtain ⟨he, ha, hk'⟩ := hc.start hw
  intro start start'
  simp only [start, start', sem.instanceNew_eq, h.size, hf, hg.start grow, hg.start grow']
  split
  · exact ⟨rfl, nofun⟩
  split
  · refine ⟨he, fun inst hr => ⟨ha, fun a hl hh => (hk' a hl hh).trans (hk a hl hh), ?_, _, hr⟩⟩
    rw [hd.start_size, hs]
  · exact ⟨rfl, nofun⟩

lemma runFinish_congr (hs : memSize = memSize') {call call' : Guest CallEnd}
    (he : call.ending = call'.ending) (hb : ∀ a < memSize, call.mem.base a = call'.mem.base a)
    (outLen : Nat) :
    runFinish memSize outLen call = runFinish memSize' outLen call' := by
  subst hs
  unfold runFinish
  rw [← he]
  split
  · rfl
  · rfl
  · rfl
  next produced _ =>
  split
  · rfl
  next hf =>
  congr 1
  refine map_congr_left fun i hi => hb _ ?_
  have := mem_range.mp hi
  omega

lemma coldImage_within (mem : Mem) (object : Bytes) (hl : wasmObjOff ≤ a)
    (hh : a < wasmObjOff + object.length) : coldImage object a = write mem wasmObjOff object a := by
  unfold coldImage write
  rw [if_neg (by omega), if_pos hl, getD_eq_getElem?_getD, getElem?_eq_getElem (by omega)]
  rfl

lemma coldImage_beyond (object : Bytes) (ho : ¬ (wasmObjOff ≤ a ∧ a < wasmObjOff + object.length)) :
    coldImage object a = 0 := by
  unfold coldImage
  split
  · rfl
  rw [getD_eq_getElem?_getD, getElem?_eq_none (by omega)]
  rfl

lemma instanceMemory_cold {minimum : Nat} (hm : api.minimum m = some minimum) (object : Bytes) :
    ∃ z, instanceMemory api m true (coldEntry 0 [] object.length object) = some z ∧ z.size = minimum ∧
      ∀ a, z.base a = coldImage object a := by
  unfold instanceMemory
  rw [hm]
  dsimp only
  unfold nkvxZcNewMemory
  rw [if_neg (by simp)]
  split
  · exact ⟨_, rfl, rfl, fun _ => rfl⟩
  refine ⟨_, rfl, rfl, fun a => ?_⟩
  have hl := le_backing object.length
  show (if a < backing object.length then coldImage object a else 0) = coldImage object a
  split
  · rfl
  · rw [coldImage_beyond object (by omega)]

lemma coldOutcome_of_memory
    (hz : instanceMemory api m true (coldEntry 0 [] object.length object) = some z) (name : Bytes) (outLen : Nat) :
    coldOutcome api cfg m name 0 false object outLen =
      (runInstance api (nkvxWasmCapsLoad cfg 0) ⟨none, true⟩ m name false object.length outLen z).1 := by
  unfold coldOutcome outcomeOn
  rw [hz]
  rfl

lemma runInstance_of_ready {caps : WasmCaps}
    (hs : api.instanceNew m (if caps.maxMemoryBytes > 0 then some caps.maxMemoryBytes else none)
      nkvxZcGrow z = ⟨.ready inst, z'⟩) (hm : api.exportsMemory m = true)
    (hf : api.exportsFunc m name = true) (objLen outLen : Nat) :
    (runInstance api caps ⟨none, true⟩ m name false objLen outLen z).1 =
      runFinish z'.size outLen (api.funcCall inst name (if caps.fuelCeiling > 0 then caps.fuelCeiling else 2 ^ 64 - 1)
        none nkvxZcGrow (UInt32.ofNat wasmObjOff) (UInt32.ofNat objLen) z') := by
  unfold runInstance
  dsimp only
  rw [hs]
  simp [hm, hf]

lemma plainInstance_too_large
    (hs : ∀ limit, (eng.instanceNew caps m limit (plainMemory api m)).mem.size < wasmObjOff +
      objectLen) (clock : RunClock) (name : Bytes) (object : Option Bytes) (outLen : Nat) :
    plainInstance eng caps clock m name object objectLen outLen = .only .failed := by
  unfold plainInstance
  dsimp only
  split
  · rfl
  · rfl
  rw [if_pos (hs _)]
  split_ifs <;> rfl

lemma coldOutcome_unexported (cfg : WasmConfig)
    (he : ¬ (api.exportsMemory m = true ∧ api.exportsFunc m name = true)) (eng : PlainEngine api)
    (object : Bytes) (outLen : Nat) : coldOutcome api cfg m name 0 false object outLen = .only .failed ∧
      plainInstance eng (nkvxWasmCapsLoad cfg 0) ⟨none, true⟩ m name (some object) object.length outLen = .only .failed := by
  have hs : api.exportsMemory m = false ∨ api.exportsMemory m = true ∧ api.exportsFunc m name = false := by
    cases hm : api.exportsMemory m <;> simp_all
  unfold coldOutcome outcomeOn runInstance plainInstance
  constructor
  · cases instanceMemory api m true (coldEntry 0 [] object.length object) with
    | none => rfl
    | some z =>
      dsimp only
      split
      · rfl
      · rfl
      rcases hs with hm | ⟨hm, hf⟩
      · simp [hm]
      · simp [hm, hf]
  dsimp only
  split
  · rfl
  · rfl
  rcases hs with hm | ⟨hm, hf⟩
  · simp [hm]
  · simp [hm, hf]

lemma PlainEngine.Unmetered.instanceNew (hm : eng.Unmetered sem)
    (hc : sem.Comparable cfg m name objectLen) (limit : Option Nat) (z : ZcMem) :
    eng.instanceNew (nkvxWasmCapsLoad cfg 0) m limit z = api.instanceNew m limit eng.grow z := by
  unfold PlainEngine.instanceNew
  split
  · rfl
  next hn =>
  have hz : cfg.fuel = 0 ∧ cfg.epochTicks = 0 := by simpa [nkvxWasmCapsLoad] using hn
  exact hm.instance_new (hc.startless hz.1 hz.2) ..

lemma call_agrees (hd : sem.Deterministic) (hm : eng.Unmetered sem)
    (hc : sem.Comparable cfg m name objectLen)
    (hr : (sem.start m refuseGrow w).ending = .ready inst) (hv : z.SameView z') (off len : UInt32) :
    let call := api.funcCall inst name (if cfg.fuel > 0 then cfg.fuel else 2 ^ 64 - 1) none nkvxZcGrow off len z
    let call' := if cfg.fuel > 0 then api.funcCall inst name cfg.fuel none eng.grow off len z'
      else eng.callUnmetered inst name none eng.grow off len z'
    call.ending = call'.ending ∧ ∀ a < z.size, call.mem.base a = call'.mem.base a := by
  intro call call'
  have hz : call = api.funcCall inst name (if cfg.fuel > 0 then cfg.fuel else 2 ^ 64 - 1) none refuseGrow off len z :=
    hc.grows.call hr ..
  have hp : call' = api.funcCall inst name (if cfg.fuel > 0 then cfg.fuel else 2 ^ 64 - 1) none refuseGrow off len z' := by
    by_cases hf : cfg.fuel > 0
    · simp only [call', if_pos hf]
      exact hc.grows.call hr ..
    have hs := hc.fuel (by omega) hr off len z'
    rw [← hc.grows.call hr _ _ _ eng.grow] at hs
    simp only [call', if_neg hf]
    rw [hm.call _ _ _ _ _ _ _ _ hs]
    exact hc.grows.call hr ..
  rw [hz, hp]
  exact hd.call _ _ _ _ _ _ hv

lemma coldOutcome_eq_plain (hd : sem.Deterministic) (ht : eng.Unmetered sem)
    (hc : sem.Comparable cfg m name object.length) (hme : api.exportsMemory m = true)
    (hf : api.exportsFunc m name = true) (outLen : Nat) : coldOutcome api cfg m name 0 false object outLen =
      plainInstance eng (nkvxWasmCapsLoad cfg 0) ⟨none, true⟩ m name (some object) object.length outLen := by
  obtain ⟨minimum, hm⟩ : ∃ minimum, api.minimum m = some minimum := by
    have hh := hc.holds
    cases hm : api.minimum m with
    | none =>
      rw [hm, Option.getD_none, wasmObjOff] at hh
      omega
    | some minimum => exact ⟨minimum, rfl⟩
  have hrm : wasmObjOff + object.length ≤ minimum := by
    have hh := hc.holds
    rwa [hm, Option.getD_some] at hh
  obtain ⟨z, hz, hsz, him⟩ := instanceMemory_cold hm object
  have hp : (plainMemory api m).size = minimum := by rw [plainMemory, hm, Option.getD_some]
  have hg : z.AgreeOff wasmObjOff (wasmObjOff + object.length) (plainMemory api m) :=
    ⟨hsz.trans hp.symm, fun a _ hu => (him a).trans (coldImage_beyond object hu)⟩
  obtain ⟨he, hr⟩ := hc.clear.instanceNew hd hc.grows hg
    (if (nkvxWasmCapsLoad cfg 0).maxMemoryBytes > 0 then some (nkvxWasmCapsLoad cfg 0).maxMemoryBytes else none)
    nkvxZcGrow eng.grow
  rw [coldOutcome_of_memory hz]
  unfold runInstance plainInstance
  dsimp only at he hr ⊢
  rw [ht.instanceNew hc, ← he]
  generalize api.instanceNew m _ nkvxZcGrow z = start at hr ⊢
  generalize api.instanceNew m _ eng.grow _ = start' at hr ⊢
  cases hs : start.ending with
  | error => rfl
  | trap => rfl
  | ready inst =>
    obtain ⟨ho, hk, hsm, w, hw⟩ := hr inst hs
    have hv : start.mem.SameView { start'.mem with base := write start'.mem.base wasmObjOff object } := by
      refine ⟨ho.size, fun a ha => ?_⟩
      show start.mem.base a = write start'.mem.base wasmObjOff object a
      by_cases hn : wasmObjOff ≤ a ∧ a < wasmObjOff + object.length
      · rw [hk a hn.1 hn.2, him a, coldImage_within start'.mem.base object hn.1 hn.2]
      rw [write_beyond _ hn]
      exact ho.base a ha hn
    have hft : ¬ wasmObjOff + object.length > start'.mem.size := by rw [hsm, hp]; omega
    obtain ⟨hl, hb⟩ := call_agrees hd ht hc hw hv (UInt32.ofNat wasmObjOff)
      (UInt32.ofNat object.length)
    simp only [hme, hf, hft, Bool.not_true, Bool.false_and, Bool.and_false, Bool.false_eq_true, if_false, ite_self]
    exact runFinish_congr ho.size hl hb outLen

end Agree

/-- A cached run of a file's module on an object that is not cached and the plain-copy run of the
same file on the same object answer alike, in every reachable state of the caches in which the entry
outlives its own enforcement of the caps, if the module cannot tell the two apart. -/
theorem cached_run_eq_plain (sem : api.Instantiation) (hdet : sem.Deterministic)
    (eng : PlainEngine api) (hmeter : eng.Unmetered sem) (cfg : WasmConfig) (evs : List CacheCall)
    (file : Option Bytes) (name objKey object : Bytes) (outLen : Nat)
    (hok : (Callers.after api cfg evs).wasm.cache.fault = false) (hkey : objKey ≠ [])
    (hcold : nkvxObjLookup (Callers.after api cfg evs).wasm.cache objKey = none)
    (hkept : cfg.objMaxBytes = 0 ∨
      (Callers.after api cfg evs).wasm.cache.retained (Callers.after api cfg evs).pins +
        backing object.length ≤ cfg.objMaxBytes)
    (hcomp : ∀ m, file.bind api.moduleNew = some m → api.exportsMemory m = true →
      api.exportsFunc m name = true → sem.Comparable cfg m name object.length) :
    (runCached cfg { RunEnv.good with moduleFile := file }
      (Callers.after api cfg evs).wasm name none objKey
        object.length (fillFrom (some object)) outLen).2 =
      wasmRun cfg eng (.good file) name none (some object) object.length outLen := by
  cases havail : cfg.available with
  | false => simp [runCached, wasmRun, havail]
  | true =>
    have hcounted := hok ▸ counted_after api cfg evs
    rw [runCached_cold hcounted havail hkey (by rw [hcold]; rfl) hkept]
    unfold wasmRun
    rw [havail]
    cases file with
    | none => rfl
    | some wasm =>
      cases hnew : api.moduleNew wasm with
      | none => simp [PlainEnv.good, hnew]
      | some m =>
        have hrun : (some wasm).bind api.moduleNew = some m := hnew
        simp only [PlainEnv.good, hrun, hnew, Bool.not_true, Bool.false_eq_true, if_false, Option.isSome_none]
        by_cases hexp : api.exportsMemory m = true ∧ api.exportsFunc m name = true
        · exact coldOutcome_eq_plain hdet hmeter (hcomp m hrun hexp.1 hexp.2) hexp.1 hexp.2 outLen
        obtain ⟨hzero, hplain⟩ := coldOutcome_unexported cfg hexp eng object outLen
        rw [hzero, hplain]

def ZcMem.answer (z : ZcMem) (b : UInt8) : Guest CallEnd :=
  ⟨.returned (some 1), { z with base := fun a => if a = wasmResOff then b else z.base a }⟩

/-- Modules of two bytes: the pages of the declared memory, and what the module does. One with 3 has
a start function, which traps for want of fuel. -/
def tinyApi : WasmApi where
  Module := Bytes
  Instance := Bytes
  sha256 := some
  moduleNew := some
  moduleSerialize := some
  moduleDeserialize := some
  deserialize_serialize := some_read_back
  minimum := fun m => some (nkvxWasmPage * (m.headD 0).toNat)
  exportsMemory := fun _ => true
  exportsFunc := fun _ _ => true
  instanceNew := fun m limit _ z =>
    if limit.any (· < z.size) then ⟨.error, z⟩
    else
      let written := writeSegments (if m.drop 1 = [1] then [(wasmObjOff, [9])] else []) z
      if written.2 then ⟨if m.drop 1 = [3] then .trap else .ready m, written.1⟩
      else ⟨.trap, written.1⟩
  funcCall := fun m _ _ _ grow _ _ z =>
    if z.size ≤ wasmObjOff then ⟨.trap [], z⟩
    else if m.drop 1 = [2] then
      match grow z (z.size + nkvxWasmPage) with
      | none => z.answer 0
      | some z => z.answer 1
    else z.answer (z.base wasmObjOff)

def tinyInstantiation : tinyApi.Instantiation where
  segments := fun (m : Bytes) => if m.drop 1 = [1] then [(wasmObjOff, [9])] else []
  start := fun (m : Bytes) _ z => ⟨if m.drop 1 = [3] then .trap else .ready m, z⟩
  instanceNew_eq := fun _ _ _ _ => rfl

def tinyEngine : PlainEngine tinyApi where
  grow := fun z n => some { z with size := n, cap := n }
  instanceUnmetered := fun (m : Bytes) limit grow z =>
    if m.drop 1 = [3] then ⟨.ready m, z⟩ else tinyApi.instanceNew m limit grow z
  callUnmetered := fun inst name deadline grow off len z => tinyApi.funcCall inst name 0 deadline grow off len z

lemma ZcMem.SameView.answer {z z' : ZcMem} (h : z.SameView z') (b : UInt8) :
    (z.answer b).ending = (z'.answer b).ending ∧ ∀ a < z.size, (z.answer b).mem.base a = (z'.answer b).mem.base a := by
  refine ⟨rfl, fun a ha => ?_⟩
  unfold ZcMem.answer
  dsimp only
  rw [h.base a ha]

lemma tinyApi_funcCall (inst : tinyApi.Instance) (name : Bytes) (fuel : Nat) (deadline : Option Nat) (off len : UInt32) (z : ZcMem) :
    tinyApi.funcCall inst name fuel deadline refuseGrow off len z = if z.size ≤ wasmObjOff then ⟨.trap [], z⟩
      else z.answer (if List.drop 1 inst = ([2] : Bytes) then 0 else z.base wasmObjOff) := by
  simp only [tinyApi, refuseGrow]
  split
  · rfl
  · split <;> rfl

lemma tinyInstantiation_deterministic : tinyInstantiation.Deterministic where
  start_size := fun _ _ => rfl
  call := by
    intro inst name fuel deadline off len z z' hv
    rw [tinyApi_funcCall, tinyApi_funcCall, ← hv.size]
    split
    · exact ⟨rfl, hv.base⟩
    next hl =>
    rw [← hv.base wasmObjOff (by omega)]
    exact hv.answer _

def tinyFirst : tinyApi.Module := ([1, 0] : Bytes)

lemma tinyEngine_unmetered : tinyEngine.Unmetered tinyInstantiation where
  instance_new := by
    rintro m ⟨inst, h⟩ limit grow z
    refine if_neg fun hm => ?_
    have hs : (if m.drop 1 = ([3] : Bytes) then .trap else .ready m : InstanceEnd Bytes) =
        .ready inst := congrArg Guest.ending (h refuseGrow z)
    rw [if_pos hm] at hs
    cases hs
  call _ _ _ _ _ _ _ _ _ := rfl

lemma tinyInstantiation_comparable (cfg : WasmConfig) (name : Bytes)
    (hl : wasmObjOff + objectLen ≤ nkvxWasmPage) : tinyInstantiation.Comparable cfg [1, 0] name objectLen where
  holds := hl
  clear := ⟨nofun, fun h => ⟨rfl, h, fun _ _ _ => rfl⟩⟩
  startless := fun _ _ => ⟨tinyFirst, fun _ _ => rfl⟩
  grows := ⟨fun _ _ => rfl, fun h _ _ _ _ _ _ _ => by cases h; rfl⟩
  fuel := by
    intro _ z inst _ off len z'
    rw [tinyApi_funcCall]
    split
    · exact Bool.false_ne_true
    · exact id

/-- A module that only reads the object's first byte. -/
theorem cached_run_eq_plain_first_byte :
    (runCached .default { RunEnv.good with moduleFile := some [1, 0] }
      (WasmState.init tinyApi) [102] none [1] 1
        (fillFrom (some [7])) 8).2 = ⟨.success, 1, [7]⟩ ∧
      (runCached .default { RunEnv.good with moduleFile := some [1, 0] } (WasmState.init tinyApi)
        [102] none [1] 1
        (fillFrom (some [7])) 8).2 =
        wasmRun .default tinyEngine (.good (some [1, 0])) [102] none (some [7]) 1 8 :=
  ⟨by decide +kernel,
    cached_run_eq_plain tinyInstantiation tinyInstantiation_deterministic tinyEngine
      tinyEngine_unmetered .default [] (some [1, 0]) [102] [1] [7] 8 rfl (by decide) rfl (.inr (by decide))
      (fun m hm _ _ => by cases hm; exact tinyInstantiation_comparable _ _ (by decide))⟩

lemma tinyFirst_instanceNew {z : ZcMem} (hl : z.size ≤ limit) (grow : ZcMem → Nat → Option ZcMem) :
    tinyApi.instanceNew tinyFirst (some limit) grow z = ⟨.ready tinyFirst, z⟩ := by
  show (if (some limit).any (· < z.size) then _ else _ : Guest (InstanceEnd Bytes)) = _
  rw [if_neg (by simpa using hl)]
  rfl

lemma coldOutcome_tinyFirst (object name : Bytes) :
    coldOutcome tinyApi .default tinyFirst name 0 false object 8 = ⟨.success, 1, [object.headD 0]⟩ := by
  obtain ⟨z, hz, hs, hm⟩ := instanceMemory_cold (m := tinyFirst) rfl object
  have hb : z.base wasmObjOff = object.headD 0 := by
    rw [hm]
    cases object <;> rfl
  have hl : z.size ≤ (nkvxWasmCapsLoad .default 0).maxMemoryBytes := by
    rw [hs]
    decide
  have hcall : ∀ fuel grow off len,
      tinyApi.funcCall tinyFirst name fuel none grow off len z = z.answer (z.base wasmObjOff) :=
    fun _ _ _ _ => if_neg (by rw [hs]; decide)
  rw [coldOutcome_of_memory hz, runInstance_of_ready (tinyFirst_instanceNew hl _) rfl rfl, hcall, hb, hs]
  rfl

lemma wasmRun_tiny_large (hl : wasmObjOff + object.length > nkvxWasmPage) (name : Bytes) :
    wasmRun .default tinyEngine (.good (some [1, 0])) name none (some object) object.length 8 = .only .failed := by
  have hs : ∀ limit, (tinyEngine.instanceNew (nkvxWasmCapsLoad .default 0) tinyFirst limit
      (plainMemory tinyApi tinyFirst)).mem.size < wasmObjOff + object.length := by
    intro limit
    refine lt_of_le_of_lt (le_of_eq ?_) hl
    rw [PlainEngine.instanceNew, if_pos (.inl (by decide))]
    show (if _ then _ else _ : Guest (InstanceEnd Bytes)).mem.size = nkvxWasmPage
    split <;> rfl
  exact plainInstance_too_large hs ..

/-- A data segment over the object, a request for growth, an object that does not fit the declared
memory, and a start function where no cap meters the plain-copy run: the zero-copy run and the
plain-copy run differ in each case. -/
theorem cached_run_ne_plain :
    let cached := fun (cfg : WasmConfig) (file object : Bytes) =>
      (runCached cfg { RunEnv.good with moduleFile := some file } (WasmState.init tinyApi) [102]
        none
        [1] object.length (fillFrom (some object)) 8).2
    let plain := fun (cfg : WasmConfig) (file object : Bytes) =>
      wasmRun cfg tinyEngine (.good (some file)) [102] none (some object) object.length 8
    let unmetered : WasmConfig := { WasmConfig.default with fuel := 0, epochTicks := 0 }
    (cached .default [1, 1] [7] = ⟨.success, 1, [9]⟩ ∧
        plain .default [1, 1] [7] = ⟨.success, 1, [7]⟩) ∧
      (cached .default [1, 2] [7] = ⟨.success, 1, [0]⟩ ∧
        plain .default [1, 2] [7] = ⟨.success, 1, [1]⟩) ∧
      (cached unmetered [1, 3] [7] = .only .failed ∧
        plain unmetered [1, 3] [7] = ⟨.success, 1, [7]⟩) ∧
      cached .default [1, 0] (List.replicate 65536 7) = ⟨.success, 1, [7]⟩ ∧
        plain .default [1, 0] (List.replicate 65536 7) = .only .failed := by
  intro cached plain unmetered
  refine ⟨⟨by decide +kernel, by decide +kernel⟩, ⟨by decide +kernel, by decide +kernel⟩,
    ⟨by decide +kernel, by decide +kernel⟩, ?_, ?_⟩
  · refine (runCached_cold .init rfl (by decide) rfl (.inr ?_) (some [1, 0]) [102] 8).trans
      (coldOutcome_tinyFirst ..)
    simp only [length_replicate]
    decide
  · exact wasmRun_tiny_large (by simp only [length_replicate]; decide) [102]

end RadosNkv
