import RadosNkv.Rpc

/-! The wasm runtime as the executor uses it (`kvdev_rados_nkvx_wasm.c`): the function table, the
zero-copy linear memory, the caps of one invocation and a run from instantiation to the extraction
of the result. -/

namespace RadosNkv

abbrev Mem := Nat → UInt8

def nkvxWasmPage : Nat := 65536

def wasmObjOff : Nat := 256

def wasmResOff : Nat := 8

def nkvxRoundUp (x a : Nat) : Nat := (x + a - 1) / a * a

def cstr (cs : List Char) : Bytes := cs.map fun c => UInt8.ofNat c.toNat

def cstrFit (n : Nat) (s : Bytes) : Bytes := s.take (n - 1)

structure ZcMem where
  base : Mem
  size : Nat
  cap : Nat
  owned : Bool

def nkvxZcGrow (m : ZcMem) (newSize : Nat) : Option ZcMem :=
  if newSize ≤ m.size then some m
  else if newSize ≤ m.cap then some { m with size := newSize }
  else none

structure ZcCtx where
  base : Mem
  size : Nat
  cap : Nat

/-- `nkvx_zc_new_memory`: the object buffer as it stands when it covers the declared minimum, a
private copy with a zeroed tail when it does not. -/
def nkvxZcNewMemory (cctx : ZcCtx) (minimum : Nat) (alloc : Bool) : Option ZcMem :=
  if !alloc then none
  else if minimum ≤ cctx.cap then
    some { base := cctx.base, size := minimum, cap := cctx.cap, owned := false }
  else
    some { base := fun a => if a < cctx.size then cctx.base a else 0
           size := minimum
           cap := nkvxRoundUp minimum nkvxWasmPage
           owned := true }

inductive InstanceEnd (ι : Type) where
  | error
  | trap
  | ready (inst : ι)

inductive CallEnd where
  | error
  | trap (message : Bytes)
  | returned (value : Option UInt32)

structure Guest (ε : Type) where
  ending : ε
  mem : ZcMem

/-- `struct nkvx_wasm_api`, with OpenSSL's digest. -/
structure WasmApi where
  Module : Type
  Instance : Type
  sha256 : Bytes → Option Bytes
  moduleNew : Bytes → Option Module
  moduleSerialize : Module → Option Bytes
  moduleDeserialize : Bytes → Option Module
  deserialize_serialize : ∀ {m m' blob}, moduleSerialize m = some blob →
    moduleDeserialize blob = some m' → m' = m
  /-- The minimum size in bytes of the memory the module declares, if it declares one. -/
  minimum : Module → Option Nat
  exportsMemory : Module → Bool
  exportsFunc : Module → Bytes → Bool
  instanceNew : (m : Module) → (limit : Option Nat) → (grow : ZcMem → Nat → Option ZcMem) →
    ZcMem → Guest (InstanceEnd Instance)
  funcCall : Instance → (name : Bytes) → (fuel : Nat) → (deadline : Option Nat) →
    (grow : ZcMem → Nat → Option ZcMem) → (off len : UInt32) → ZcMem → Guest CallEnd

def WasmApi.CompiledFrom (api : WasmApi) (d : Bytes) (m : api.Module) : Prop :=
  ∃ bytes, api.sha256 bytes = some d ∧ api.moduleNew bytes = some m

structure WasmConfig where
  available : Bool
  objMaxCount : Nat
  objMaxBytes : Nat
  warmMaxCount : Nat
  modMaxCount : Nat
  modMaxBytes : Nat
  fuel : Nat
  epochTicks : Nat
  maxMemory : Nat

def WasmConfig.default : WasmConfig where
  available := true
  objMaxCount := 256
  objMaxBytes := 512 * 1024 * 1024
  warmMaxCount := 256
  modMaxCount := 128
  modMaxBytes := 256 * 1024 * 1024
  fuel := 100000000
  epochTicks := 10
  maxMemory := 8 * 1024 * 1024

structure WasmCaps where
  fuelCeiling : Nat
  epochDeadlineTicks : Nat
  maxMemoryBytes : Nat

def nkvxWasmCapsLoad (cfg : WasmConfig) (capsWord : Nat) : WasmCaps :=
  match capsWord % 256 with
  | 0 => ⟨cfg.fuel, cfg.epochTicks, cfg.maxMemory⟩
  | 1 => ⟨10000000, 5, 1024 * 1024⟩
  | 3 => ⟨1000000000, 100, 64 * 1024 * 1024⟩
  | _ => ⟨100000000, 10, 8 * 1024 * 1024⟩

def toLower (b : UInt8) : UInt8 := if 65 ≤ b.toNat ∧ b.toNat ≤ 90 then b + 32 else b

def nkvxWasmTrapIsCap (message : Bytes) : Bool :=
  [cstr ['f', 'u', 'e', 'l'], cstr ['e', 'p', 'o', 'c', 'h'],
    cstr ['i', 'n', 't', 'e', 'r', 'r', 'u', 'p', 't']].any fun needle =>
      (List.range (message.length + 1 - needle.length)).any fun j =>
        ((message.drop j).take needle.length).map toLower == needle

def wasmWriteExport : Bytes := cstr ['k', 'v', '_', 'w', 'r', 'i', 't', 'e']

structure RunResult where
  status : IoStatus
  resultLen : Nat
  out : Bytes
deriving DecidableEq

def RunResult.only (status : IoStatus) : RunResult := ⟨status, 0, []⟩

structure RunClock where
  epoch : Option Nat
  setFuel : Bool

/-- The end of a run: the result is read from the memory base fetched before the call, against the
size the memory had then. -/
def runFinish (memSize outLen : Nat) (call : Guest CallEnd) : RunResult :=
  match call.ending with
  | .error => .only .failed
  | .trap message => .only (if nkvxWasmTrapIsCap message then .aborted else .failed)
  | .returned none => .only .failed
  | .returned (some produced) =>
    if wasmResOff + produced.toNat > memSize then .only .failed
    else
      { status := if produced.toNat > outLen then .bufferTooSmall else .success
        resultLen := produced.toNat
        out := (List.range (min produced.toNat outLen)).map fun i => call.mem.base (wasmResOff + i) }

/-- The part of `nkvx_run_on_object_locked` that runs guest code, from instantiation to the
extraction of the result. -/
def runInstance (api : WasmApi) (caps : WasmCaps) (clock : RunClock) (m : api.Module) (name : Bytes)
    (readOnly : Bool) (objLen outLen : Nat) (z : ZcMem) : RunResult × Mem :=
  let limit := if caps.maxMemoryBytes > 0 then some caps.maxMemoryBytes else none
  let start := api.instanceNew m limit nkvxZcGrow z
  match start.ending with
  | .error => (.only .failed, start.mem.base)
  | .trap => (.only .failed, start.mem.base)
  | .ready inst =>
    if !api.exportsMemory m then (.only .failed, start.mem.base)
    else if !api.exportsFunc m name then (.only .failed, start.mem.base)
    else if readOnly && api.exportsFunc m wasmWriteExport then (.only .readOnly, start.mem.base)
    else if !clock.setFuel then (.only .failed, start.mem.base)
    else
      let fuel := if caps.fuelCeiling > 0 then caps.fuelCeiling else 2 ^ 64 - 1
      let deadline := if caps.epochDeadlineTicks > 0 then clock.epoch else none
      let call := api.funcCall inst name fuel deadline nkvxZcGrow (UInt32.ofNat wasmObjOff)
        (UInt32.ofNat objLen) start.mem
      (runFinish start.mem.size outLen call, call.mem.base)

lemma some_read_back (h : some m = some blob) (h' : some blob = some m') : m' = m :=
  (Option.some.inj h').symm.trans (Option.some.inj h).symm

/-- A runtime small enough to evaluate: a module is its own bytes and digest, declares one page and
answers with one byte. -/
def toyApi : WasmApi where
  Module := Bytes
  Instance := Bytes
  sha256 := some
  moduleNew := some
  moduleSerialize := some
  moduleDeserialize := some
  deserialize_serialize := some_read_back
  minimum := fun _ => some nkvxWasmPage
  exportsMemory := fun _ => true
  exportsFunc := fun _ name => name != wasmWriteExport
  instanceNew := fun m _ _ z => ⟨.ready m, z⟩
  funcCall := fun m _ _ _ _ _ _ z =>
    let answer := if m = [0] then z.base wasmResOff + 1 else m.headD 0
    ⟨.returned (some 1), { z with base := fun a => if a = wasmResOff then answer else z.base a }⟩

end RadosNkv
