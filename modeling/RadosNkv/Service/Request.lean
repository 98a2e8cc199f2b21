import RadosNkv.Library.Ledger
import RadosNkv.Library.Machine
import RadosNkv.Rpc

/-! The executor service's handling of `nkvx_exec` and `nkvx_cancel` on its single progress thread
(`nkvx_service.c`). -/

namespace RadosNkv

structure ExecResult where
  status : IoStatus
  resultLen : Nat
  buf : Option Bytes
deriving DecidableEq

def ExecResult.bufLen (res : ExecResult) : Nat := (res.buf.getD []).length

abbrev HgAddr := Nat

inductive BulkOp where
  | pull
  | push
deriving DecidableEq

instance : LawfulBEq (BulkOp × Nat) := inferInstance

structure Req where
  handle : HgHandle
  origin : HgAddr
  input : ExecIn
  res : ExecResult
  out : ExecOut
  inputBuf : Option Nat
  localInput : Option BulkHandle
  localResult : Option BulkHandle
  opId : Nat
  callId : Nat
  registered : Bool
  pushInFlight : Bool
  doNotPush : Bool
  hadPushCanceled : Bool
  cancelHandle : Option HgHandle
  stallTicks : Nat
  pushPending : Bool
  pullStallTicks : Nat
  pullPending : Bool

def Req.hasKey (q : Req) (origin : HgAddr) (callId : Nat) : Bool :=
  q.callId == callId && q.origin == origin

inductive ReqEffect where
  | arrived (origin : HgAddr) (input : ExecIn)
  | ran (res : ExecResult)
  | submitted (op : BulkOp)
  | completed (op : BulkOp) (ret : HgReturn)
  | cancelStashed (h : HgHandle)
  | responded (out : ExecOut) (inFlight : Bool)
  | bulkFreed (h : BulkHandle)
  | acked (h : HgHandle) (inFlight : Bool)
  | freed
deriving DecidableEq

structure Ack where
  origin : HgAddr
  callId : Nat
  code : CancelAck
  busy : Bool
deriving DecidableEq

structure Service where
  executor : Bool
  testPushStallTicks : Nat
  testPullStallTicks : Nat
  inflight : List Nat
  reqs : Nat → Option Req
  nextReq : Nat
  nextHandle : Nat
  ops : List (BulkOp × Nat)
  log : List (Nat × ReqEffect)
  acks : List (Nat × Ack)
  fault : Bool

structure ServeOutcome where
  inputBuf : Option Nat
  bulk : Option BulkHandle
  transferred : Bool
  res : ExecResult

namespace Service

def init (executor : Bool) (pushStall pullStall : Nat) : Service :=
  { executor, testPushStallTicks := pushStall, testPullStallTicks := pullStall, inflight := [],
    reqs := fun _ => none, nextReq := 0, nextHandle := 0, ops := [], log := [], acks := [],
    fault := false }

variable (s : Service)

def emit (r : Nat) (e : ReqEffect) : Service := { s with log := (r, e) :: s.log }

def put (r : Nat) (q : Req) : Service :=
  { s with reqs := Function.update s.reqs r (some q) }

def free (r : Nat) : Service :=
  { s.emit r .freed with reqs := Function.update s.reqs r none }

def useAfterFree : Service := { s with fault := true }

def inFlight (r : Nat) : Bool := s.ops.any fun x => x.2 == r

def hasKey (origin : HgAddr) (callId r : Nat) : Bool :=
  (s.reqs r).any fun q => q.hasKey origin callId

def busy (origin : HgAddr) (callId : Nat) : Bool :=
  s.inflight.any (s.hasKey origin callId) || s.ops.any fun x => s.hasKey origin callId x.2

def respondCancel (h : HgHandle) (origin : HgAddr) (callId : Nat) (code : CancelAck) :
    Service :=
  { s with acks := (h, ⟨origin, callId, code, s.busy origin callId⟩) :: s.acks }

def transfer (r : Nat) (op : BulkOp) (q : Req) : Service :=
  { (s.put r q).emit r (.submitted op) with ops := (op, r) :: s.ops }

def bulkFree (r : Nat) : Option BulkHandle → Service
  | none => s
  | some h => s.emit r (.bulkFreed h)

end Service

section

variable (s : Service)

section

variable (r : Nat)

section

variable (q : Req)

def nkvxRegInsert : Service :=
  if q.registered then s
  else { s.put r { q with registered := true } with inflight := s.inflight ++ [r] }

def nkvxRegRemove : Service :=
  if q.registered then { s with inflight := s.inflight.erase r } else s

def nkvxRegLookup (origin : HgAddr) (callId : Nat) : Option Nat :=
  s.inflight.find? (s.hasKey origin callId)

def Service.ackStashed : Service :=
  match q.cancelHandle with
  | none => s
  | some h =>
    let code := if q.hadPushCanceled then .pushCanceled else .aborted
    (s.emit r (.acked h (s.inFlight r))).respondCancel h q.origin q.callId code

def nkvxReqFinish : Service :=
  let s := nkvxRegRemove s r q
  let s := s.emit r (.responded q.out (s.inFlight r))
  let s := (s.bulkFree r q.localResult).bulkFree r q.localInput
  (s.ackStashed r q).free r

def nkvxReqFail (status : IoStatus) : Service :=
  nkvxReqFinish s r { q with out := ⟨nkvxStatusToWire status, 0, none⟩ }

def nkvxSubmitResultPush (o : ServeOutcome) : Service :=
  if q.doNotPush then nkvxReqFail s r q .aborted
  else
    match o.bulk with
    | none => nkvxReqFail s r q .failed
    | some h =>
      let q := { q with localResult := some h }
      -- `push_in_flight` is set before the transfer and cleared again when it is refused
      if o.transferred then s.transfer r .push { q with pushInFlight := true }
      else nkvxReqFail s r { q with pushInFlight := false } .failed

def routed (input : ExecIn) (res : ExecResult) : Prop :=
  input.resultSink ≠ none ∧ nkvxInlineMax < res.bufLen

instance (input : ExecIn) (res : ExecResult) : Decidable (routed input res) :=
  inferInstanceAs (Decidable (_ ∧ _))

def nkvxReqRunAndDeliver (o : ServeOutcome) : Service :=
  let s := s.emit r (.ran o.res)
  let q := { q with res := o.res }
  if routed q.input q.res then
    if q.doNotPush then nkvxReqFail s r q .aborted
    else if 0 < q.stallTicks then s.put r { q with pushPending := true }
    else nkvxSubmitResultPush s r q o
  else if nkvxInlineMax < q.res.bufLen then
    nkvxReqFinish s r { q with out := ⟨nkvxStatusToWire .notSupported, 0, none⟩ }
  else
    nkvxReqFinish s r { q with out := ⟨nkvxStatusToWire q.res.status, q.res.resultLen, q.res.buf⟩ }

end

def nkvxResultPushedCb (ret : HgReturn) : Service :=
  match s.reqs r with
  | none => s.useAfterFree
  | some q =>
    let q := { q with pushInFlight := false }
    if ret = .canceled then nkvxReqFail s r { q with hadPushCanceled := true } .aborted
    else if ret ≠ .success then nkvxReqFail s r q .failed
    else nkvxReqFinish s r { q with out := ⟨nkvxStatusToWire q.res.status, q.res.resultLen, none⟩ }

def nkvxInputPulledCb (ret : HgReturn) (o : ServeOutcome) : Service :=
  match s.reqs r with
  | none => s.useAfterFree
  | some q =>
    let q := { q with pushInFlight := false }
    if ret = .canceled then nkvxReqFail s r { q with hadPushCanceled := true } .aborted
    else if ret ≠ .success then nkvxReqFail s r q .failed
    else nkvxReqRunAndDeliver s r { q with input := { q.input with inputInline := q.inputBuf } } o

def nkvxSubmitInputPull (q : Req) (o : ServeOutcome) : Service :=
  if q.doNotPush then nkvxReqFail s r q .aborted
  else
    match o.inputBuf with
    | none => nkvxReqFail s r q .nomem
    | some p =>
      let q := { q with inputBuf := some p }
      match o.bulk with
      | none => nkvxReqFail s r q .failed
      | some h =>
        let q := { q with localInput := some h }
        if o.transferred then s.transfer r .pull { q with pushInFlight := true }
        else nkvxReqFail s r { q with pushInFlight := false } .failed

end

section

variable (origin : HgAddr)

/-- The zeroed `nkvx_req` as `nkvx_exec_handler` fills it before it registers the request. -/
def Service.newReq (input : ExecIn) : Req :=
  { handle := s.nextHandle, origin, input, res := ⟨.success, 0, none⟩, out := ⟨0, 0, none⟩,
    inputBuf := none, localInput := none, localResult := none, opId := input.opId,
    callId := input.clientCallId, registered := false, pushInFlight := false, doNotPush := false,
    hadPushCanceled := false, cancelHandle := none, stallTicks := s.testPushStallTicks,
    pushPending := false, pullStallTicks := s.testPullStallTicks, pullPending := false }

def Service.receive (input : ExecIn) : Service :=
  let r := s.nextReq
  let s' := { s with nextReq := r + 1, nextHandle := s.nextHandle + 1 }
  nkvxRegInsert (s'.emit r (.arrived origin input)) r (s.newReq origin input)

def Service.start (r : Nat) (q : Req) (o : ServeOutcome) : Service :=
  if !s.executor then nkvxReqFail s r q .notSupported
  else if q.input.inputBulk ≠ none ∧ nkvxInlineMax < q.input.inputLen then
    if 0 < q.pullStallTicks then s.put r { q with pullPending := true }
    else nkvxSubmitInputPull s r q o
  else nkvxReqRunAndDeliver s r q o

def nkvxExecHandler (decoded : Option ExecIn) (o : ServeOutcome) :
    Service :=
  match decoded with
  | none => s
  | some input =>
    (s.receive origin input).start s.nextReq { s.newReq origin input with registered := true } o

/-- `nkvx_cancel_handler`; `none` is a message that `HG_Get_input` could not decode, `ret` the
answer of `HG_Bulk_cancel`. -/
def nkvxCancelHandler (decoded : Option Nat) (ret : HgReturn) :
    Service :=
  match decoded with
  | none => s
  | some callId =>
    let h := s.nextHandle
    let s := { s with nextHandle := h + 1 }
    match nkvxRegLookup s origin callId with
    | none => s.respondCancel h origin callId .alreadyDone
    | some r =>
      match s.reqs r with
      | none => s.useAfterFree
      | some q =>
        if q.cancelHandle ≠ none then s.respondCancel h origin callId .alreadyDone
        else
          let s := s.emit r (.cancelStashed h)
          let q := { q with cancelHandle := some h }
          if q.pushInFlight then
            -- the operation stays in flight until its callback runs, cancelled or not
            if ret ≠ .success then s.put r { q with doNotPush := true } else s.put r q
          else s.put r { q with doNotPush := true }

end

/-- The body of the walk in `nkvx_service_tick_stalls`. -/
def tickStall (r : Nat) (o : ServeOutcome) : Service :=
  match s.reqs r with
  | none => s.useAfterFree
  | some q =>
    if q.pullPending then
      if q.doNotPush then nkvxReqFail s r { q with pullPending := false } .aborted
      else if 0 < q.pullStallTicks then
        s.put r { q with pullStallTicks := q.pullStallTicks - 1 }
      else nkvxSubmitInputPull s r { q with pullPending := false } o
    else if q.pushPending then
      if q.doNotPush && q.stallTicks = 0 then nkvxReqFail s r { q with pushPending := false } .aborted
      else if 0 < q.stallTicks then s.put r { q with stallTicks := q.stallTicks - 1 }
      else nkvxSubmitResultPush s r { q with pushPending := false } o
    else s

def nkvxServiceTickStalls (o : Nat → ServeOutcome) : Service :=
  if s.testPushStallTicks = 0 ∧ s.testPullStallTicks = 0 then s
  else s.inflight.foldl (fun s r => tickStall s r (o r)) s

inductive ServiceEvent where
  | exec (origin : HgAddr) (decoded : Option ExecIn) (o : ServeOutcome)
  | cancel (origin : HgAddr) (decoded : Option Nat) (ret : HgReturn)
  | complete (op : BulkOp) (r : Nat) (ret : HgReturn) (o : ServeOutcome)
  | tick (o : Nat → ServeOutcome)

def Service.retire (op : BulkOp) (r : Nat) (ret : HgReturn) : Service :=
  { s.emit r (.completed op ret) with ops := s.ops.erase (op, r) }

def Service.bulkDone (op : BulkOp) (r : Nat) (ret : HgReturn) (o : ServeOutcome) :
    Service :=
  match op with
  | .pull => nkvxInputPulledCb (s.retire .pull r ret) r ret o
  | .push => nkvxResultPushedCb (s.retire .push r ret) r ret

def Service.step : ServiceEvent → Service
  | .exec origin decoded o => nkvxExecHandler s origin decoded o
  | .cancel origin decoded ret => nkvxCancelHandler s origin decoded ret
  | .complete op r ret o => if (op, r) ∈ s.ops then s.bulkDone op r ret o else s
  | .tick o => nkvxServiceTickStalls s o

end

def Service.after (executor : Bool) (pushStall pullStall : Nat) (evs : List ServiceEvent) : Service :=
  Machine.run Service.step (Service.init executor pushStall pullStall) evs

end RadosNkv
