import Mathlib.Algebra.Order.Ring.Nat
import Mathlib.Logic.Function.Basic

/-! What the two tiers share: completion statuses, Mercury's return codes and the envelopes of the
`nkvx_exec`, `nkvx_cancel` and `nkvx_kv` calls. -/

namespace RadosNkv

abbrev Bytes := List UInt8

abbrev BulkHandle := Nat

abbrev HgHandle := Nat

inductive IoStatus where
  | success
  | failed
  | keyNotExist
  | bufferTooSmall
  | invalid
  | nomem
  | keyExist
  | notSupported
  | aborted
  | readOnly
deriving DecidableEq

def nkvxStatusToWire : IoStatus → Int
  | .success => 0
  | .failed => -1
  | .keyNotExist => -2
  | .bufferTooSmall => -3
  | .invalid => -4
  | .nomem => -5
  | .keyExist => -6
  | .notSupported => -7
  | .aborted => -8
  | .readOnly => -9

def nkvxStatusFromWire (wire : Int) : IoStatus :=
  if wire = 0 then .success
  else if wire = -1 then .failed
  else if wire = -2 then .keyNotExist
  else if wire = -3 then .bufferTooSmall
  else if wire = -4 then .invalid
  else if wire = -5 then .nomem
  else if wire = -6 then .keyExist
  else if wire = -7 then .notSupported
  else if wire = -8 then .aborted
  else if wire = -9 then .readOnly
  else .failed

inductive HgReturn where
  | success
  | canceled
  | timeout
  | error (code : Nat)
deriving DecidableEq

inductive Errno where
  | inval
  | nomem
  | io

def nkvxInlineMax : Nat := 4 * 1024

inductive Runtime where
  | none
  | nkvx
  | cls
deriving DecidableEq

structure ExecIn where
  opId : Nat
  clientCallId : Nat
  readOnly : Bool
  runtime : Runtime
  caps : Nat
  key : Bytes
  sha256 : Bytes
  sha256Valid : Bool
  moduleKey : Option Bytes
  moduleNs : Option Bytes
  osize : Nat
  inputLen : Nat
  inputInline : Option Nat
  inputBulk : Option BulkHandle
  resultSink : Option BulkHandle
deriving DecidableEq

structure ExecOut where
  status : Int
  resultLen : Nat
  resultInline : Option Bytes
deriving DecidableEq

inductive KvVerb where
  | invalid
  | store
  | retrieve
  | delete
  | exist
  | list
deriving DecidableEq

structure KvIn where
  verb : KvVerb
  readOnly : Bool
  clientCallId : Nat
  key : Bytes
  osize : Nat
  storeFlags : Nat
  valueLen : Nat
  valueInline : Option Nat
  valueBulk : Option BulkHandle
  resultSink : Option BulkHandle
deriving DecidableEq

inductive CancelAck where
  | alreadyDone
  | aborted
  | pushCanceled
deriving DecidableEq

end RadosNkv
