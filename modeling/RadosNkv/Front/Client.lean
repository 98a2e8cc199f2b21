import RadosNkv.Front.BulkCache
import RadosNkv.Library.Machine
import RadosNkv.Library.Ledger

/-! The front's Mercury client: Exec calls with the two-phase cancel join, base-verb KV calls, and
the callbacks Mercury fires from a progress call. -/

namespace RadosNkv

def nkvxCallTokenNone : Nat := 0

structure Call where
  handle : Option HgHandle
  inputBulk : Option BulkHandle
  resultSink : Option BulkHandle
  tenantDone : Bool
  cancelling : Bool
  forwardDone : Bool
  cancelAcked : Bool
  detached : Bool
  cancelHandle : Option HgHandle
  opId : Nat
  joinStatus : IoStatus

def Call.held (c : Call) : List BulkHandle := c.inputBulk.toList ++ c.resultSink.toList

inductive CallEffect where
  | acquired (h : BulkHandle)
  | released (h : BulkHandle)
  | execSent (input : ExecIn)
  | cancelBegun
  | cancelSent
  | hgCancel
  | responseDelivered
  | ackDelivered
  | tenant (status : IoStatus) (resultLen : Nat) (resultInline : Option Bytes)
  | freed
deriving DecidableEq

structure KvCall where
  handle : Option HgHandle
  valueBulk : Option BulkHandle
  resultSink : Option BulkHandle

inductive KvEffect where
  | sent (input : KvIn)
  | done (status : IoStatus) (resultLen : Nat) (resultInline : Option Bytes)
  | freed
deriving DecidableEq

structure Front where
  inflight : List Nat
  nInflight : Nat
  nextCallId : Nat
  bulk : BulkCache
  nextHandle : HgHandle
  calls : Nat → Option Call
  forwards : List Nat
  cancels : List Nat
  log : List (Nat × CallEffect)
  kvCalls : Nat → Option KvCall
  nextKvCall : Nat
  kvForwards : List Nat
  kvLog : List (Nat × KvEffect)
  fault : Bool

namespace Front

def init : Front :=
  { inflight := [], nInflight := 0, nextCallId := 0, bulk := .empty, nextHandle := 0,
    calls := fun _ => none, forwards := [], cancels := [], log := [],
    kvCalls := fun _ => none, nextKvCall := 0, kvForwards := [], kvLog := [], fault := false }

variable (s : Front)

variable (id : Nat)

def emit (e : CallEffect) : Front := { s with log := (id, e) :: s.log }

def noteDelivered (ret : HgReturn) (e : CallEffect) : Front :=
  if ret = .success then s.emit id e else s

def put (c : Call) : Front :=
  { s with calls := Function.update s.calls id (some c) }

def free : Front :=
  { s.emit id .freed with calls := Function.update s.calls id none }

def link : Front :=
  { s with inflight := s.inflight ++ [id], nInflight := s.nInflight + 1 }

def unlink : Front :=
  { s with inflight := s.inflight.erase id, nInflight := s.nInflight - 1 }

def hgCreate : Front := { s with nextHandle := s.nextHandle + 1 }

def forwardExec (wire : ExecIn) : Front :=
  { s.emit id (.execSent wire) with forwards := id :: s.forwards }

def forwardCancel : Front :=
  { s.emit id .cancelSent with cancels := id :: s.cancels }

def useAfterFree : Front := { s with fault := true }

def release : Option BulkHandle → Front
  | none => s
  | some h => { s.emit id (.released h) with bulk := nkvxBulkRelease s.bulk (some h) }

def releaseBoth (c : Call) : Front :=
  (s.release id c.inputBulk).release id c.resultSink

def acquire :
    BulkCache × Except Errno BulkHandle → Front × Except Errno (Option BulkHandle)
  | (b, .ok h) => ({ s.emit id (.acquired h) with bulk := b }, .ok (some h))
  | (b, .error e) => ({ s with bulk := b }, .error e)

end Front

def nkvxCallTryComplete (s : Front) (id : Nat) : Front :=
  match s.calls id with
  | none => s.useAfterFree
  | some c =>
    if c.cancelling && c.forwardDone && c.cancelAcked then
      let s := if c.tenantDone then s else s.emit id (.tenant c.joinStatus 0 none)
      let s := s.releaseBoth id c
      let s := if c.detached then s else s.unlink id
      s.free id
    else s

structure CancelOutcome where
  created : Bool
  forwarded : Bool

/-- `nkvx_call_begin_cancel`. Nothing reads the result of `HG_Cancel`. -/
def nkvxCallBeginCancel (s : Front) (id : Nat) (o : CancelOutcome) : Front :=
  match s.calls id with
  | none => s.useAfterFree
  | some c =>
    if c.cancelling then s
    else
      let s := s.emit id .cancelBegun
      let c := { c with cancelling := true, joinStatus := .aborted }
      if c.resultSink = none ∧ c.inputBulk = none then
        (s.emit id .hgCancel).put id { c with cancelAcked := true }
      -- The executor cannot be told: the join waits for the forward to complete by itself.
      else if !o.created then s.put id { c with cancelAcked := true }
      else if !o.forwarded then s.hgCreate.put id { c with cancelAcked := true }
      else
        ((s.hgCreate.forwardCancel id).emit id .hgCancel).put id
          { c with cancelHandle := some s.nextHandle }

def nkvxCancelAckCb (s : Front) (id : Nat) (ret : HgReturn) : Front :=
  match s.calls id with
  | none => s.useAfterFree
  | some c =>
    let s := s.noteDelivered id ret .ackDelivered
    nkvxCallTryComplete (s.put id { c with cancelHandle := none, cancelAcked := true }) id

def forwardResult (ret : HgReturn) (output : Option ExecOut) : IoStatus × Nat × Option Bytes :=
  match ret, output with
  | .success, some out => (nkvxStatusFromWire out.status, out.resultLen, out.resultInline)
  | .success, none => (.failed, 0, none)
  | .canceled, _ => (.aborted, 0, none)
  | _, _ => (.failed, 0, none)

def nkvxFrontForwardCb (s : Front) (id : Nat) (ret : HgReturn) (output : Option ExecOut) :
    Front :=
  match s.calls id with
  | none => s.useAfterFree
  | some c =>
    let s := s.noteDelivered id ret .responseDelivered
    if c.cancelling then
      nkvxCallTryComplete (s.put id { c with forwardDone := true, handle := none }) id
    else if c.tenantDone then (s.releaseBoth id c).free id
    else
      let r := forwardResult ret output
      let s := s.emit id (.tenant r.1 r.2.1 r.2.2)
      ((s.unlink id).releaseBoth id c).free id

structure ForwardOutcome where
  allocated : Bool
  inputCreated : Bool
  sinkCreated : Bool
  handleCreated : Bool
  forwarded : Bool

namespace Front

def registerInput (s : Front) (id : Nat) (input : ExecIn) (created : Bool) :
    Front × Except Errno (Option BulkHandle) :=
  match input.inputInline with
  | some addr =>
    if nkvxInlineMax < input.inputLen then
      s.acquire id (nkvxBulkAcquire s.bulk addr input.inputLen .readOnly created)
    else (s, .ok none)
  | none => (s, .ok none)

/-- The registration of a large result sink as a write bulk, from the dma-buf where there is one. -/
def registerSink (s : Front) (id : Nat) (sink : Option Nat) (sinkLen : Nat) (dmabufFd : Int)
    (created : Bool) : Front × Except Errno (Option BulkHandle) :=
  if (0 ≤ dmabufFd ∨ sink.isSome) ∧ nkvxInlineMax < sinkLen then
    if 0 ≤ dmabufFd then s.acquire id (nkvxBulkAcquireDmabuf s.bulk sink created)
    else s.acquire id (nkvxBulkAcquire s.bulk (sink.getD 0) sinkLen .writeOnly created)
  else (s, .ok none)

/-- The end of `nkvx_front_forward_full`, from `HG_Create` on. -/
def submit (s : Front) (id : Nat) (input : ExecIn) (c : Call) (o : ForwardOutcome) :
    Front × Except Errno Nat :=
  if !o.handleCreated then ((s.releaseBoth id c).free id, .error .io)
  else
    let c := { c with handle := some s.nextHandle }
    let s := s.hgCreate.link id
    if !o.forwarded then (((s.unlink id).releaseBoth id c).free id, .error .io)
    else
      let wire := { input with
        clientCallId := id, inputBulk := c.inputBulk, resultSink := c.resultSink }
      ((s.put id c).forwardExec id wire, .ok id)

end Front

section

variable (s : Front)

def nkvxFrontForwardFull (input : ExecIn) (sink : Option Nat) (sinkLen : Nat)
    (dmabufFd : Int) (o : ForwardOutcome) : Front × Except Errno Nat :=
  if nkvxInlineMax < input.inputLen ∧ input.inputInline = none then (s, .error .inval)
  else if 0 ≤ dmabufFd ∧ sinkLen ≤ nkvxInlineMax then (s, .error .inval)
  else if !o.allocated then (s, .error .nomem)
  else
    let id := s.nextCallId + 1
    let c : Call :=
      { handle := none, inputBulk := none, resultSink := none, tenantDone := false,
        cancelling := false, forwardDone := false, cancelAcked := false, detached := false,
        cancelHandle := none, opId := input.opId, joinStatus := .success }
    let s := { s with nextCallId := id }.put id c
    match s.registerInput id input o.inputCreated with
    | (s, .error e) => (s.free id, .error e)
    | (s, .ok inputBulk) =>
      match s.registerSink id sink sinkLen dmabufFd o.sinkCreated with
      | (s, .error e) => ((s.release id inputBulk).free id, .error e)
      | (s, .ok resultSink) =>
        s.submit id input { c with inputBulk := inputBulk, resultSink := resultSink } o

def nkvxKvForwardCb (id : Nat) (ret : HgReturn) (output : Option ExecOut) : Front :=
  match s.kvCalls id with
  | none => s.useAfterFree
  | some c =>
    let r := match ret, output with
      | .success, some out => (nkvxStatusFromWire out.status, out.resultLen, out.resultInline)
      | _, _ => (.failed, 0, none)
    { s with
      bulk := nkvxBulkRelease (nkvxBulkRelease s.bulk c.valueBulk) c.resultSink
      kvCalls := Function.update s.kvCalls id none
      kvLog := (id, .freed) :: (id, .done r.1 r.2.1 r.2.2) :: s.kvLog }

def BulkCache.kvRegister (b : BulkCache) (wanted created : Bool) :
    BulkCache × Except Errno (Option BulkHandle) :=
  if wanted then
    match b.createUncached created with
    | (b, .ok h) => (b, .ok (some h))
    | (b, .error e) => (b, .error e)
  else (b, .ok none)

def Front.kvAbandon (id : Nat) (b : BulkCache)
    (valueBulk resultSink : Option BulkHandle) : Front :=
  { s with
    bulk := nkvxBulkRelease (nkvxBulkRelease b valueBulk) resultSink
    kvLog := (id, .freed) :: s.kvLog }

def nkvxFrontKvForward (input : KvIn) (sink : Option Nat) (sinkLen : Nat)
    (o : ForwardOutcome) : Front × Except Errno Unit :=
  if nkvxInlineMax < input.valueLen ∧ input.valueInline = none then (s, .error .inval)
  else if !o.allocated then (s, .error .nomem)
  else
    let id := s.nextKvCall
    let s := { s with nextKvCall := id + 1 }
    match s.bulk.kvRegister (decide (nkvxInlineMax < input.valueLen)) o.inputCreated with
    | (b, .error e) => (s.kvAbandon id b none none, .error e)
    | (b, .ok valueBulk) =>
      match b.kvRegister (sink.isSome && decide (nkvxInlineMax < sinkLen)) o.sinkCreated with
      | (b, .error e) => (s.kvAbandon id b valueBulk none, .error e)
      | (b, .ok resultSink) =>
        if !o.handleCreated then (s.kvAbandon id b valueBulk resultSink, .error .io)
        else if !o.forwarded then (s.hgCreate.kvAbandon id b valueBulk resultSink, .error .io)
        else
          let call : KvCall :=
            { handle := some s.nextHandle, valueBulk := valueBulk, resultSink := resultSink }
          let wire := { input with valueBulk := valueBulk, resultSink := resultSink }
          ({ s.hgCreate with
              bulk := b
              kvCalls := Function.update s.kvCalls id (some call)
              kvForwards := id :: s.kvForwards
              kvLog := (id, .sent wire) :: s.kvLog }, .ok ())

def nkvxFrontCancel (token : Nat) (o : CancelOutcome) : Front × Bool :=
  if token = nkvxCallTokenNone then (s, false)
  else if token ∈ s.inflight then (nkvxCallBeginCancel s token o, true)
  else (s, false)

def nkvxFrontCancelAll (o : Nat → CancelOutcome) : Front :=
  s.inflight.foldl (fun s id => nkvxCallBeginCancel s id (o id)) s

end

def failPending (status : IoStatus) (s : Front) (id : Nat) : Front :=
  match s.calls id with
  | none => s.useAfterFree
  | some c =>
    let s := (s.emit id (.tenant status 0 none)).releaseBoth id c
    (s.unlink id).put id
      { c with tenantDone := true, inputBulk := none, resultSink := none, detached := true }

def nkvxFrontFailAllPending (s : Front) (status : IoStatus) : Front :=
  s.inflight.foldl (failPending status) s

def nkvxFrontOutstanding (s : Front) : Nat := s.nInflight

inductive Completion where
  | forward (id : Nat) (ret : HgReturn) (output : Option ExecOut)
  | ack (id : Nat) (ret : HgReturn)
  | kv (id : Nat) (ret : HgReturn) (output : Option ExecOut)

/-- Mercury fires a callback that it owes the front, and only such a one. -/
def fire (s : Front) : Completion → Front
  | .forward id ret output =>
    if id ∈ s.forwards then
      nkvxFrontForwardCb { s with forwards := s.forwards.erase id } id ret output
    else s
  | .ack id ret =>
    if id ∈ s.cancels then nkvxCancelAckCb { s with cancels := s.cancels.erase id } id ret else s
  | .kv id ret output =>
    if id ∈ s.kvForwards then
      nkvxKvForwardCb { s with kvForwards := s.kvForwards.erase id } id ret output
    else s

inductive FrontEvent where
  | forward (input : ExecIn) (sink : Option Nat) (sinkLen : Nat) (dmabufFd : Int)
      (o : ForwardOutcome)
  | kvForward (input : KvIn) (sink : Option Nat) (sinkLen : Nat) (o : ForwardOutcome)
  | cancel (token : Nat) (o : CancelOutcome)
  | cancelAll (o : Nat → CancelOutcome)
  | failAll (status : IoStatus)
  | fire (c : Completion)

def Front.step (s : Front) : FrontEvent → Front
  | .forward input sink sinkLen dmabufFd o =>
    (nkvxFrontForwardFull s input sink sinkLen dmabufFd o).1
  | .kvForward input sink sinkLen o => (nkvxFrontKvForward s input sink sinkLen o).1
  | .cancel token o => (nkvxFrontCancel s token o).1
  | .cancelAll o => nkvxFrontCancelAll s o
  | .failAll status => nkvxFrontFailAllPending s status
  | .fire c => RadosNkv.fire s c

def Front.after (evs : List FrontEvent) : Front := Machine.run Front.step Front.init evs

end RadosNkv
