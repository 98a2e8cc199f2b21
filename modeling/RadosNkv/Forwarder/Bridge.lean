import RadosNkv.Forwarder.Handler
import RadosNkv.Front.Regions

/-! The bridge from the forwarder to the front client (`kvdev_rados_nkvx_front.c`): it fills the
request, hands over the tenant's buffer as the result sink and copies an inline result into it. -/

namespace RadosNkv

structure FwdCtx where
  hostOut : Option Nat
  hostOutLen : UInt32

def FwdCtx.Copies (ctx : FwdCtx) (resultInline : Option Bytes) : Prop :=
  0 < (resultInline.getD []).length ∧ ctx.hostOut.isSome ∧ 0 < ctx.hostOutLen.toNat

instance (ctx : FwdCtx) (resultInline : Option Bytes) : Decidable (ctx.Copies resultInline) :=
  inferInstanceAs (Decidable (_ ∧ _))

def kvdevRadosNkvxFrontDone (ctx : FwdCtx) (mem : HostMem) (status : IoStatus) (resultLen : Nat)
    (resultInline : Option Bytes) : HostMem × IoStatus × Nat :=
  let mem :=
    if ctx.Copies resultInline then
      Memory.write mem (ctx.hostOut.getD 0) ((resultInline.getD []).take ctx.hostOutLen.toNat)
    else mem
  (mem, status, resultLen)

structure ExecArgs where
  key : Bytes
  opId : Nat
  readOnly : Bool
  runtime : Runtime
  moduleKey : Option Bytes
  moduleNs : Option Bytes
  sha256 : Option Bytes
  sha256Valid : Bool
  caps : Nat
  input : Option Nat
  inputLen : UInt32

/-- The `nkvx_exec_in_t` that both Exec entry points fill, for a result buffer of `osize` bytes. -/
def ExecArgs.request (a : ExecArgs) (osize : UInt32) : ExecIn where
  opId := a.opId
  clientCallId := 0
  readOnly := a.readOnly
  runtime := a.runtime
  caps := a.caps
  key := a.key
  -- the digest stays zero unless there is a valid one to copy
  sha256 := if a.sha256Valid then a.sha256.getD (List.replicate 32 0) else List.replicate 32 0
  sha256Valid := a.sha256Valid
  moduleKey := a.moduleKey
  moduleNs := a.moduleNs
  osize := osize.toNat
  inputLen := a.inputLen.toNat
  inputInline := a.input
  inputBulk := none
  resultSink := none

/-- What the Exec entry points share: the empty key, the allocation of the context and the forward.
-/
def execForward (s : Front) (a : ExecArgs) (sink : Option Nat) (sinkLen : UInt32) (dmabufFd : Int) (ctx : FwdCtx)
    (allocated : Bool) (o : ForwardOutcome) : Front × Except Errno (Nat × FwdCtx) :=
  if a.key = [] then (s, .error .inval)
  else if !allocated then (s, .error .nomem)
  else
    match nkvxFrontForwardFull s (a.request sinkLen) sink sinkLen.toNat dmabufFd o with
    | (s, .error e) => (s, .error e)
    | (s, .ok id) => (s, .ok (id, ctx))

def kvdevRadosNkvxFrontForward (s : Front) (a : ExecArgs) (outputBuf : Option Nat) (outputBufLen : UInt32)
    (allocated : Bool) (o : ForwardOutcome) : Front × Except Errno (Nat × FwdCtx) :=
  execForward s a outputBuf outputBufLen (-1) ⟨outputBuf, outputBufLen⟩ allocated o

def kvdevRadosNkvxFrontForwardDmabuf (s : Front) (a : ExecArgs) (sinkVa : Option Nat) (sinkLen : UInt32)
    (sinkFd : Int) (allocated : Bool) (o : ForwardOutcome) : Front × Except Errno (Nat × FwdCtx) :=
  if sinkFd < 0 then (s, .error .inval)
  else execForward s a sinkVa sinkLen sinkFd ⟨none, 0⟩ allocated o

def kvdevRadosNkvxFrontRetrieve (s : Front) (key : Bytes) (readOnly : Bool) (outputBuf : Option Nat)
    (outputBufLen : UInt32) (allocated : Bool) (o : ForwardOutcome) : Front × Except Errno FwdCtx :=
  if key = [] then (s, .error .inval)
  else if !allocated then (s, .error .nomem)
  else
    let request := { kvRequest .retrieve readOnly key with osize := outputBufLen.toNat }
    match nkvxFrontKvForward s request outputBuf outputBufLen.toNat o with
    | (s, .error e) => (s, .error e)
    | (s, .ok ()) => (s, .ok ⟨outputBuf, outputBufLen⟩)

variable {s s' : Front} {id : Nat} {ctx : FwdCtx} {allocated : Bool} {o : ForwardOutcome}

lemma execForward_ok
    (h : execForward s a sink sinkLen dmabufFd ctx' allocated o = (s', .ok (id, ctx))) :
    ctx = ctx' ∧ nkvxFrontForwardFull s (a.request sinkLen) sink sinkLen.toNat dmabufFd o = (s', .ok id) := by
  unfold execForward at h
  split_ifs at h
  · cases h
  · cases h
  rcases hr : nkvxFrontForwardFull s (a.request sinkLen) sink sinkLen.toNat dmabufFd o with ⟨s1, e | id1⟩ <;>
    rw [hr] at h <;> cases h
  exact ⟨rfl, rfl⟩

lemma forwardDmabuf_ok
    (h : kvdevRadosNkvxFrontForwardDmabuf s a sinkVa sinkLen sinkFd allocated o = (s', .ok (id,
      ctx))) :
    0 ≤ sinkFd ∧ ctx = ⟨none, 0⟩ ∧
      nkvxFrontForwardFull s (a.request sinkLen) sinkVa sinkLen.toNat sinkFd o = (s', .ok id) := by
  unfold kvdevRadosNkvxFrontForwardDmabuf at h
  split_ifs at h with hf
  · cases h
  · exact ⟨Int.not_lt.mp hf, execForward_ok h⟩

lemma frontRetrieve_ok
    (h : kvdevRadosNkvxFrontRetrieve s key readOnly outputBuf outputBufLen allocated o = (s', .ok
      ctx)) :
    ctx = ⟨outputBuf, outputBufLen⟩ ∧
      nkvxFrontKvForward s { kvRequest .retrieve readOnly key with osize := outputBufLen.toNat } outputBuf
        outputBufLen.toNat o = (s', .ok ()) := by
  unfold kvdevRadosNkvxFrontRetrieve at h
  split_ifs at h
  · cases h
  · cases h
  dsimp only at h
  rcases hr : nkvxFrontKvForward s { kvRequest .retrieve readOnly key with osize := outputBufLen.toNat } outputBuf
    outputBufLen.toNat o with ⟨s1, e | ⟨⟩⟩ <;> rw [hr] at h <;> cases h
  exact ⟨rfl, rfl⟩

end RadosNkv
