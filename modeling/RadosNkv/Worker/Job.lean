import RadosNkv.Wasm.ModuleCache
import RadosNkv.Wasm.ObjectCache

/-! The jobs of the worker thread (`kvdev_rados_nkvx.c`): what the two dispatch functions check, and
what they copy into a job. -/

namespace RadosNkv.Worker

structure RunArgs where
  module : Option Bytes
  mod : Option ModSpec
  objKey : Option Bytes
  objPin : Option ObjPtr
  object : Option Bytes
  objectLen : Nat
  outLen : Nat
  doneArg : Nat
deriving DecidableEq

structure CompileArgs where
  sha256 : Option Bytes
  bytes : Option Bytes
  bytesLen : Nat
  hasDoneFn : Bool
  doneArg : Nat

structure RunJob where
  module : Bytes
  objKey : Bytes
  objPin : Option ObjPtr
  mod : Option ModSpec
  object : Option Bytes
  objectLen : Nat
  outLen : Nat
deriving DecidableEq

inductive JobKind where
  | run (job : RunJob)
  | compile (sha256 bytes : Bytes)
deriving DecidableEq

structure Job where
  kind : JobKind
  doneArg : Nat
  origin : Nat
deriving DecidableEq

inductive DispatchError where
  | inval
  | nomem
  | nodev
deriving DecidableEq

structure Caller where
  origin : Option Nat
  calloc : Bool

def RunArgs.copy (args : RunArgs) (module : Bytes) : RunJob where
  module := cstrFit 32 module
  objKey := cstrFit 256 (args.objKey.getD [])
  objPin := args.objPin
  mod := args.mod
  object := args.object
  objectLen := args.objectLen
  outLen := args.outLen

def RunArgs.job (args : RunArgs) (caller : Caller) : Except DispatchError Job :=
  match caller.origin, args.module with
  | none, _ | _, none => .error .inval
  | some origin, some module =>
    if !caller.calloc then .error .nomem else .ok ⟨.run (args.copy module), args.doneArg, origin⟩

/-- `kvdev_rados_nkvx_dispatch_compile`, up to the lock. -/
def CompileArgs.job (args : CompileArgs) (caller : Caller) : Except DispatchError Job :=
  match caller.origin, args.sha256, args.bytes with
  | some origin, some sha256, some bytes =>
    if args.bytesLen = 0 ∨ !args.hasDoneFn then .error .inval
    else if !caller.calloc then .error .nomem
    else .ok ⟨.compile sha256 (bytes.take args.bytesLen), args.doneArg, origin⟩
  | _, _, _ => .error .inval

end RadosNkv.Worker
