import RadosNkv.Library.Machine
import RadosNkv.Library.Tailq
import RadosNkv.Nvme

/-! The SPDK host shim (`kv_host_shim.c`). -/

namespace RadosNkv

inductive ShimOp where
  | store
  | retrieve (wantsLen : Bool)
  | exist
  | delete
deriving DecidableEq

structure KvOpCtx where
  addr : Nat
  number : Nat
  opId : Nat
deriving DecidableEq

structure KvHostShim where
  qpairFailed : Bool
  nextOpId : Nat
  armedOpId : Nat
  done : Bool
  lastSct : Nat
  lastSc : Nat
  lastCdw0 : Nat

/-- Where the shim's thread is. -/
inductive ShimPhase where
  | idle
  /-- In `spdk_nvme_ctrlr_reconnect_io_qpair`, called by `ensure_connected`. -/
  | reconnecting (op : ShimOp)
  /-- In the call number `pass` of `drain_stale_completions`. -/
  | draining (op : ShimOp) (pass : Nat)
  /-- About to call `arm_op`. -/
  | arming (op : ShimOp)
  /-- In the submission, with a context at `addr` that SPDK has queued or not. -/
  | submitting (op : ShimOp) (number addr : Nat) (accepted : Bool)
  /-- In `spdk_nvme_qpair_process_completions`, called by `poll_to_completion`. -/
  | polling (op : ShimOp) (number : Nat)
  /-- In `spdk_nvme_ctrlr_disconnect_io_qpair`, with the error that is then returned. -/
  | disconnecting (op : ShimOp) (rc : Int)
  /-- In `spdk_nvme_ctrlr_free_io_qpair`, called by `kv_host_shim_close`. -/
  | freeing
  | closed
deriving DecidableEq

inductive ShimReturn where
  | failed (op : ShimOp) (rc : Int)
  | completed (op : ShimOp) (number : Nat) (rc : Int) (valueLen : Option Nat)
deriving DecidableEq

structure ShimWorld where
  sh : KvHostShim
  phase : ShimPhase
  heap : List KvOpCtx
  queued : List Nat
  arms : Nat
  frees : List Nat
  fired : List (Nat × NvmeStatus)
  returns : List ShimReturn
  fault : Bool

def ShimWorld.init : ShimWorld where
  sh := ⟨false, 0, 0, false, 0, 0, 0⟩
  phase := .idle
  heap := []
  queued := []
  arms := 0
  frees := []
  fired := []
  returns := []
  fault := false

inductive ShimEvent where
  /-- A caller calls an operation. -/
  | call (op : ShimOp)
  /-- SPDK's reconnect returns. -/
  | reconnected (rc : Int)
  /-- `malloc` in `arm_op` returns an address that is not in use, or null. -/
  | malloc (addr : Option Nat)
  /-- SPDK queues the command that is being submitted. -/
  | accept
  /-- The submission returns. -/
  | submitted (rc : Int)
  /-- `spdk_nvme_qpair_process_completions` returns; `expired` says that the deadline has passed. -/
  | processed (n : Int) (expired : Bool)
  /-- SPDK's disconnect returns. -/
  | disconnected
  /-- SPDK calls the callback of a queued command. -/
  | fire (addr : Nat) (cpl : NvmeStatus)
  /-- `kv_host_shim_close` is called. -/
  | close
  /-- SPDK has freed the qpair. -/
  | freed

def ShimPhase.inSpdk : ShimPhase → Bool
  | .idle | .arming _ | .closed => false
  | _ => true

section

variable (w : ShimWorld)

def ShimWorld.ret (r : ShimReturn) : ShimWorld :=
  { w with phase := .idle, returns := w.returns ++ [r] }

def negErrno (rc : Int) : Int := if rc < 0 then rc else -rc

def disarmOp (sh : KvHostShim) : KvHostShim := { sh with armedOpId := 0 }

def ShimWorld.free (addr : Nat) : ShimWorld :=
  match Tailq.find KvOpCtx.addr addr w.heap with
  | none => { w with fault := true }
  | some ctx =>
    { w with heap := Tailq.remove KvOpCtx.addr addr w.heap, frees := ctx.number :: w.frees }

def recordCpl (sh : KvHostShim) (ctx : KvOpCtx) (cpl : NvmeStatus) : KvHostShim :=
  if ctx.opId = sh.armedOpId then
    { sh with
      armedOpId := 0
      lastSct := cpl.sct
      lastSc := cpl.sc
      lastCdw0 := cpl.cdw0
      done := true }
  else sh

def ioComplete (addr : Nat) (cpl : NvmeStatus) : ShimWorld :=
  match Tailq.find KvOpCtx.addr addr w.heap with
  | none => { w with fault := true }
  | some ctx =>
    { w.free addr with sh := recordCpl w.sh ctx cpl, fired := (ctx.number, cpl) :: w.fired }

section

variable (op : ShimOp)

def armOp : Option Nat → ShimWorld
  | none => w.ret (.failed op (-eNomem))
  | some addr =>
    if addr ∈ w.heap.map KvOpCtx.addr then w
    else
      let id := (w.sh.nextOpId + 1) % 2 ^ 64
      { w with
        sh := { w.sh with nextOpId := id, done := false, armedOpId := id }
        heap := ⟨addr, w.arms + 1, id⟩ :: w.heap
        arms := w.arms + 1
        phase := .submitting op (w.arms + 1) addr false }

def statusToRc (sct sc : Nat) : Int := if sct ≠ sctGeneric then -eIo else sc

def valueLenOut (rc : Int) (cdw0 : Nat) : Option Nat :=
  if op = .retrieve true ∧ rc = 0 then some cdw0 else none

def completeOp (number : Nat) : ShimWorld :=
  let rc := statusToRc w.sh.lastSct w.sh.lastSc
  w.ret (.completed op number rc (valueLenOut op rc w.sh.lastCdw0))

def pollLoop (number : Nat) : ShimWorld :=
  if w.sh.done then completeOp w op number else { w with phase := .polling op number }

def pollTurn (number : Nat) (n : Int) (expired : Bool) : ShimWorld :=
  if n < 0 then { w with sh := disarmOp w.sh, phase := .disconnecting op n }
  else if !w.sh.done && expired then
    { w with sh := disarmOp w.sh, phase := .disconnecting op (-eTimedout) }
  else pollLoop w op number

def afterSubmit (number addr : Nat) (accepted : Bool) (rc : Int) :
    ShimWorld :=
  if accepted then
    if rc = 0 then pollLoop w op number else w
  else if rc ≠ 0 then
    ({ w with sh := disarmOp w.sh }.free addr).ret (.failed op (negErrno rc))
  else w

def afterDrain (pass : Nat) (n : Int) : ShimWorld :=
  if n ≤ 0 ∨ pass + 1 = 8 then
    { w with sh := { w.sh with qpairFailed := false }, phase := .arming op }
  else { w with phase := .draining op (pass + 1) }

end

/-- A step of the shim or of SPDK. -/
def ShimWorld.handle : ShimEvent → ShimWorld
  | .call op =>
    match w.phase with
    | .idle => { w with phase := if w.sh.qpairFailed then .reconnecting op else .arming op }
    | _ => w
  | .reconnected rc =>
    match w.phase with
    | .reconnecting op =>
      if rc ≠ 0 then w.ret (.failed op (negErrno rc))
      else { w with sh := disarmOp w.sh, phase := .draining op 0 }
    | _ => w
  | .malloc addr =>
    match w.phase with
    | .arming op => armOp w op addr
    | _ => w
  | .accept =>
    match w.phase with
    | .submitting op number addr false =>
      { w with queued := addr :: w.queued, phase := .submitting op number addr true }
    | _ => w
  | .submitted rc =>
    match w.phase with
    | .submitting op number addr accepted => afterSubmit w op number addr accepted rc
    | _ => w
  | .processed n expired =>
    match w.phase with
    | .draining op pass => afterDrain w op pass n
    | .polling op number => pollTurn w op number n expired
    | _ => w
  | .disconnected =>
    match w.phase with
    | .disconnecting op rc =>
      { w with sh := { w.sh with qpairFailed := true } }.ret (.failed op rc)
    | _ => w
  | .fire addr cpl =>
    if w.phase.inSpdk ∧ addr ∈ w.queued then
      ioComplete { w with queued := w.queued.erase addr } addr cpl
    else w
  | .close =>
    match w.phase with
    | .idle => { w with phase := .freeing }
    | _ => w
  | .freed =>
    match w.phase with
    -- freeing the qpair aborts what is outstanding, so each callback has been called
    | .freeing => if w.queued = [] then { w with phase := .closed } else w
    | _ => w

def ShimWorld.step (ev : ShimEvent) : ShimWorld := if w.fault then w else w.handle ev

end

def ShimWorld.after (evs : List ShimEvent) : ShimWorld := Machine.run ShimWorld.step .init evs

end RadosNkv
