import RadosNkv.Front.Client

/-! The life of one Exec call, apart from every other call of its front. -/

namespace RadosNkv

open Ledger List

@[ext] structure CallView where
  call : Option Call
  forwards : Nat
  cancels : Nat
  listed : Nat
  log : List CallEffect

def Front.view (s : Front) (id : Nat) : CallView :=
  { call := s.calls id
    forwards := s.forwards.count id
    cancels := s.cancels.count id
    listed := s.inflight.count id
    log := about s.log id }

namespace CallView

def unborn : CallView := ⟨none, 0, 0, 0, []⟩

variable (v : CallView)

def emit (e : CallEffect) : CallView := { v with log := e :: v.log }

def noteDelivered (ret : HgReturn) (e : CallEffect) : CallView :=
  if ret = .success then v.emit e else v

def popForward : CallView := { v with forwards := v.forwards - 1 }

def popCancel : CallView := { v with cancels := v.cancels - 1 }

def put (c : Call) : CallView := { v with call := some c }

def free : CallView := { v.emit .freed with call := none }

def link : CallView := { v with listed := v.listed + 1 }

def forwardExec (wire : ExecIn) : CallView :=
  { v.emit (.execSent wire) with forwards := v.forwards + 1 }

def forwardCancel : CallView :=
  { v.emit .cancelSent with cancels := v.cancels + 1 }

def unlink : CallView := { v with listed := v.listed - 1 }

def acquire : Option BulkHandle → CallView
  | none => v
  | some h => v.emit (.acquired h)

def release : Option BulkHandle → CallView
  | none => v
  | some h => v.emit (.released h)

def releaseBoth (c : Call) : CallView :=
  (v.release c.inputBulk).release c.resultSink

def tryComplete : CallView :=
  match v.call with
  | none => v
  | some c =>
    if c.cancelling && c.forwardDone && c.cancelAcked then
      let v := if c.tenantDone then v else v.emit (.tenant c.joinStatus 0 none)
      let v := v.releaseBoth c
      let v := if c.detached then v else v.unlink
      v.free
    else v

def beginCancel (o : CancelOutcome) (ch : HgHandle) : CallView :=
  match v.call with
  | none => v
  | some c =>
    if c.cancelling then v
    else
      let v := v.emit .cancelBegun
      let c := { c with cancelling := true, joinStatus := .aborted }
      if c.resultSink = none ∧ c.inputBulk = none then
        (v.emit .hgCancel).put { c with cancelAcked := true }
      else if o.created && o.forwarded then
        (v.forwardCancel.emit .hgCancel).put { c with cancelHandle := some ch }
      else v.put { c with cancelAcked := true }

def ackCb (ret : HgReturn) : CallView :=
  match v.call with
  | none => v
  | some c =>
    let v := v.noteDelivered ret .ackDelivered
    (v.put { c with cancelHandle := none, cancelAcked := true }).tryComplete

def forwardCb (ret : HgReturn) (output : Option ExecOut) : CallView :=
  match v.call with
  | none => v
  | some c =>
    let v := v.noteDelivered ret .responseDelivered
    if c.cancelling then (v.put { c with forwardDone := true, handle := none }).tryComplete
    else if c.tenantDone then (v.releaseBoth c).free
    else
      let r := forwardResult ret output
      (((v.emit (.tenant r.1 r.2.1 r.2.2)).unlink).releaseBoth c).free

def failPending (status : IoStatus) : CallView :=
  match v.call with
  | none => v
  | some c =>
    (((v.emit (.tenant status 0 none)).releaseBoth c).unlink).put
      { c with tenantDone := true, inputBulk := none, resultSink := none, detached := true }

def refuse (inputBulk resultSink : Option BulkHandle) : CallView :=
  ((((v.acquire inputBulk).acquire resultSink).release inputBulk).release resultSink).free

def accept (c : Call) (wire : ExecIn) : CallView :=
  ((((v.acquire c.inputBulk).acquire c.resultSink).link).put c).forwardExec wire

end CallView

namespace Front

variable (s : Front) {id j : Nat}

@[simp] lemma view_emit_same (e : CallEffect) : (s.emit id e).view id = (s.view id).emit e := by
  simp [view, emit, CallView.emit]

@[simp] lemma view_put_same (c : Call) : (s.put id c).view id = (s.view id).put c := by
  simp [view, put, CallView.put]

@[simp] lemma view_free_same : (s.free id).view id = (s.view id).free := by
  simp [view, free, emit, CallView.free, CallView.emit]

@[simp] lemma view_link_same : (s.link id).view id = (s.view id).link := by
  simp [view, link, CallView.link]

@[simp] lemma view_hgCreate : s.hgCreate.view j = s.view j := rfl

@[simp] lemma view_forwardExec_same (wire : ExecIn) :
    (s.forwardExec id wire).view id = (s.view id).forwardExec wire := by
  simp [view, forwardExec, emit, CallView.forwardExec, CallView.emit]

@[simp] lemma view_forwardCancel_same : (s.forwardCancel id).view id = (s.view id).forwardCancel := by
  simp [view, forwardCancel, emit, CallView.forwardCancel, CallView.emit]

@[simp] lemma view_unlink_same : (s.unlink id).view id = (s.view id).unlink := by
  simp [view, unlink, CallView.unlink, count_erase_self]

@[simp] lemma view_release_same (h : Option BulkHandle) : (s.release id h).view id = (s.view id).release h := by
  cases h <;> simp [view, release, emit, CallView.release, CallView.emit]

@[simp] lemma view_releaseBoth_same (c : Call) : (s.releaseBoth id c).view id = (s.view id).releaseBoth c := by
  simp [releaseBoth, CallView.releaseBoth]

section

variable (hj : j ≠ id)
include hj

lemma view_emit_ne (e : CallEffect) : (s.emit id e).view j = s.view j := by
  simp [view, emit, about_cons_ne (Ne.symm hj)]

lemma view_put_ne (c : Call) : (s.put id c).view j = s.view j := by
  simp [view, put, hj]

lemma view_free_ne : (s.free id).view j = s.view j := by
  simp [view, free, emit, hj, about_cons_ne (Ne.symm hj)]

lemma view_link_ne : (s.link id).view j = s.view j := by
  simp [view, link, Ne.symm hj]

lemma view_forwardExec_ne (wire : ExecIn) : (s.forwardExec id wire).view j = s.view j := by
  simp [view, forwardExec, emit, Ne.symm hj, about_cons_ne (Ne.symm hj)]

lemma view_forwardCancel_ne : (s.forwardCancel id).view j = s.view j := by
  simp [view, forwardCancel, emit, Ne.symm hj, about_cons_ne (Ne.symm hj)]

lemma view_unlink_ne : (s.unlink id).view j = s.view j := by
  simp [view, unlink, count_erase_of_ne hj]

lemma view_release_ne (h : Option BulkHandle) : (s.release id h).view j = s.view j := by
  cases h <;> simp [view, release, emit, about_cons_ne (Ne.symm hj)]

lemma view_releaseBoth_ne (c : Call) : (s.releaseBoth id c).view j = s.view j := by
  simp [releaseBoth, view_release_ne, hj]

end

end Front

structure Front.Rest where
  nextCallId : Nat
  kvCalls : Nat → Option KvCall
  nextKvCall : Nat
  kvForwards : List Nat
  kvLog : List (Nat × KvEffect)
  fault : Bool

namespace Front

variable (s : Front) {id j : Nat}

def rest : Rest := ⟨s.nextCallId, s.kvCalls, s.nextKvCall, s.kvForwards, s.kvLog, s.fault⟩

def queue : List Nat × Nat := (s.inflight, s.nInflight)

variable {c : Call} (e : CallEffect)

@[simp] lemma nextHandle_emit : (s.emit id e).nextHandle = s.nextHandle := rfl

@[simp] lemma rest_emit : (s.emit id e).rest = s.rest := rfl
@[simp] lemma rest_put (c : Call) : (s.put id c).rest = s.rest := rfl
@[simp] lemma rest_free : (s.free id).rest = s.rest := rfl
@[simp] lemma rest_link : (s.link id).rest = s.rest := rfl
@[simp] lemma rest_hgCreate : s.hgCreate.rest = s.rest := rfl
@[simp] lemma rest_forwardExec (wire : ExecIn) : (s.forwardExec id wire).rest = s.rest := rfl
@[simp] lemma rest_unlink : (s.unlink id).rest = s.rest := rfl

@[simp] lemma rest_release (h : Option BulkHandle) : (s.release id h).rest = s.rest := by
  cases h <;> rfl

@[simp] lemma rest_releaseBoth (c : Call) : (s.releaseBoth id c).rest = s.rest := by
  simp [releaseBoth]

@[simp] lemma queue_emit : (s.emit id e).queue = s.queue := rfl
@[simp] lemma queue_put (c : Call) : (s.put id c).queue = s.queue := rfl
@[simp] lemma queue_free : (s.free id).queue = s.queue := rfl

@[simp] lemma queue_hgCreate : s.hgCreate.queue = s.queue := rfl

@[simp] lemma queue_release (h : Option BulkHandle) : (s.release id h).queue = s.queue := by
  cases h <;> rfl

@[simp] lemma queue_releaseBoth (c : Call) : (s.releaseBoth id c).queue = s.queue := by
  simp [releaseBoth]

lemma queue_unlink : (s.unlink id).queue = (s.queue.1.erase id, s.queue.2 - 1) := rfl

structure Acts (s s' : Front) (id : Nat) (v : CallView) : Prop where
  same : s'.view id = v
  other : ∀ j, j ≠ id → s'.view j = s.view j
  rest : s'.rest = s.rest
  queue : s'.queue = s.queue ∨ s'.queue = (s.unlink id).queue

variable {s}

lemma Acts.trans (h1 : Acts s s1 id v1) (hq : s1.queue = s.queue) (h2 : Acts s1 s2 id v2) :
    Acts s s2 id v2 where
  same := h2.same
  other j hj := (h2.other j hj).trans (h1.other j hj)
  rest := h2.rest.trans h1.rest
  queue := by
    rw [queue_unlink, ← hq, ← queue_unlink]
    exact h2.queue

lemma acts_tryComplete (h : s.calls id = some c) : Acts s (nkvxCallTryComplete s id) id (s.view id).tryComplete := by
  have hc : (s.view id).call = some c := h
  simp only [nkvxCallTryComplete, CallView.tryComplete, h, hc]
  by_cases hj : c.cancelling && c.forwardDone && c.cancelAcked
  · simp only [hj, if_true]
    by_cases ht : c.tenantDone <;> by_cases hd : c.detached <;>
      simp only [ht, hd, if_true, if_false, Bool.false_eq_true]
    all_goals
      constructor
      · simp
      · intro j hj
        simp [view_free_ne, view_unlink_ne, view_releaseBoth_ne, view_emit_ne, hj]
      · simp
      · simp [queue_unlink]
  simp only [hj]
  exact ⟨rfl, fun _ _ => rfl, rfl, .inl rfl⟩

lemma acts_noteDelivered (s : Front) (id : Nat) (ret : HgReturn) (e : CallEffect) :
    Acts s (s.noteDelivered id ret e) id ((s.view id).noteDelivered ret e) ∧
      (s.noteDelivered id ret e).queue = s.queue := by
  unfold noteDelivered CallView.noteDelivered
  split
  · exact ⟨⟨s.view_emit_same e, fun _ hj => s.view_emit_ne hj e, rfl, .inl rfl⟩, rfl⟩
  · exact ⟨⟨rfl, fun _ _ => rfl, rfl, .inl rfl⟩, rfl⟩

lemma acts_put_tryComplete (c : Call) (h1 : Acts s s1 id v1) (hq : s1.queue = s.queue) :
    Acts s (nkvxCallTryComplete (s1.put id c) id) id (v1.put c).tryComplete := by
  have hp : Acts s (s1.put id c) id (v1.put c) :=
    h1.trans hq ⟨by simp [h1.same], fun _ hj => s1.view_put_ne hj c, rfl, .inl rfl⟩
  refine hp.trans hq ?_
  rw [← hp.same]
  exact acts_tryComplete (c := c) (by simp [put])

section

variable (h : s.calls id = some c)
include h

lemma acts_ackCb (ret : HgReturn) : Acts s (nkvxCancelAckCb s id ret) id ((s.view id).ackCb ret) := by
  have hc : (s.view id).call = some c := h
  simp only [nkvxCancelAckCb, CallView.ackCb, h, hc]
  obtain ⟨hn, hq⟩ := acts_noteDelivered s id ret .ackDelivered
  exact acts_put_tryComplete _ hn hq

lemma acts_forwardCb (ret : HgReturn) (output : Option ExecOut) :
    Acts s (nkvxFrontForwardCb s id ret output) id ((s.view id).forwardCb ret output) := by
  have hc : (s.view id).call = some c := h
  obtain ⟨hn, hq⟩ := acts_noteDelivered s id ret .responseDelivered
  simp only [nkvxFrontForwardCb, CallView.forwardCb, h, hc]
  generalize s.noteDelivered id ret .responseDelivered = s1 at hn hq ⊢
  rw [← hn.same]
  by_cases ha : c.cancelling
  · simp only [ha, if_true]
    exact acts_put_tryComplete _ ⟨rfl, hn.other, hn.rest, hn.queue⟩ hq
  simp only [ha]
  refine Acts.trans ⟨rfl, hn.other, hn.rest, hn.queue⟩ hq ?_
  by_cases ht : c.tenantDone
  · simp only [ht]
    exact ⟨by simp, fun j hj => by simp [view_free_ne, view_releaseBoth_ne, hj], by simp, .inl (by simp)⟩
  simp only [ht]
  exact ⟨by simp, fun j hj => by
      simp [view_free_ne, view_releaseBoth_ne, view_unlink_ne, view_emit_ne, hj],
    by simp, .inr (by simp [queue_unlink])⟩

lemma queue_tryComplete (hd : c.detached) : (nkvxCallTryComplete s id).queue = s.queue := by
  simp only [nkvxCallTryComplete, h, hd]
  split_ifs <;> simp

lemma queue_fire_ack (hd : c.detached) (ret : HgReturn) : (fire s (.ack id ret)).queue = s.queue := by
  simp only [fire]
  split
  · simp only [nkvxCancelAckCb, h]
    rw [queue_tryComplete (by simp [put]; rfl) (by exact hd), queue_put, (acts_noteDelivered ..).2]
    rfl
  · rfl

lemma queue_fire_forward (hd : c.detached) (ht : c.tenantDone) (ret : HgReturn)
    (output : Option ExecOut) : (fire s (.forward id ret output)).queue = s.queue := by
  simp only [fire]
  split
  · simp only [nkvxFrontForwardCb, h, ht]
    split
    · rw [queue_tryComplete (by simp [put]; rfl) (by exact hd), queue_put, (acts_noteDelivered ..).2]
      rfl
    rw [if_pos trivial, queue_free, queue_releaseBoth, (acts_noteDelivered ..).2]
    rfl
  · rfl

variable (status : IoStatus)

lemma acts_failPending : Acts s (failPending status s id) id ((s.view id).failPending status) := by
  have hc : (s.view id).call = some c := h
  simp only [failPending, CallView.failPending, h, hc]
  exact ⟨by simp, fun j hj => by
      simp [view_put_ne, view_unlink_ne, view_releaseBoth_ne, view_emit_ne, hj],
    by simp, .inr (by simp [queue_unlink])⟩

lemma queue_failPending : (failPending status s id).queue = (s.unlink id).queue := by
  simp only [failPending, h, queue_put, queue_unlink, queue_releaseBoth, queue_emit]

end

lemma queue_beginCancel (s : Front) (id : Nat) (o : CancelOutcome) : (nkvxCallBeginCancel s id o).queue = s.queue := by
  unfold nkvxCallBeginCancel
  cases s.calls id with
  | none => rfl
  | some c => dsimp only; split_ifs <;> rfl

lemma acts_beginCancel (h : s.calls id = some c) (o : CancelOutcome) :
    Acts s (nkvxCallBeginCancel s id o) id ((s.view id).beginCancel o s.nextHandle) := by
  have hc : (s.view id).call = some c := h
  refine ⟨?_, fun j hj => ?_, ?_, .inl (queue_beginCancel s id o)⟩
  · simp only [nkvxCallBeginCancel, CallView.beginCancel, h, hc]
    rcases o with ⟨_ | _, _ | _⟩ <;> simp <;> split_ifs <;> simp
  · simp only [nkvxCallBeginCancel, h]
    split_ifs <;> simp [view_put_ne, view_emit_ne, view_forwardCancel_ne, hj]
  simp only [nkvxCallBeginCancel, h]
  split_ifs <;> rfl

lemma acts_fire_forward (h : s.calls id = some c) (hf : id ∈ s.forwards) (ret : HgReturn) (output : Option ExecOut) :
    Acts s (fire s (.forward id ret output)) id ((s.view id).popForward.forwardCb ret output) := by
  have hp : Acts s { s with forwards := s.forwards.erase id } id (s.view id).popForward :=
    ⟨by simp [view, CallView.popForward, count_erase_self],
      fun j hj => by simp [view, count_erase_of_ne hj], rfl, .inl rfl⟩
  simp only [fire, hf, if_true]
  refine hp.trans rfl ?_
  rw [← hp.same]
  exact acts_forwardCb (s := { s with forwards := s.forwards.erase id }) h ret output

lemma acts_fire_ack (h : s.calls id = some c) (hf : id ∈ s.cancels) (ret : HgReturn) :
    Acts s (fire s (.ack id ret)) id ((s.view id).popCancel.ackCb ret) := by
  have hp : Acts s { s with cancels := s.cancels.erase id } id (s.view id).popCancel :=
    ⟨by simp [view, CallView.popCancel, count_erase_self],
      fun j hj => by simp [view, count_erase_of_ne hj], rfl, .inl rfl⟩
  simp only [fire, hf, if_true]
  refine hp.trans rfl ?_
  rw [← hp.same]
  exact acts_ackCb (s := { s with cancels := s.cancels.erase id }) h ret

end Front

namespace Call

structure Fresh (c : Call) : Prop where
  tenantDone : c.tenantDone = false
  cancelling : c.cancelling = false
  forwardDone : c.forwardDone = false
  cancelAcked : c.cancelAcked = false
  detached : c.detached = false
  cancelHandle : c.cancelHandle = none

end Call

namespace Front

variable {s : Front} {id : Nat}

lemma acts_acquire (s : Front) (id : Nat) (r : BulkCache × Except Errno BulkHandle) :
    Acts s (s.acquire id r).1 id ((s.view id).acquire ((s.acquire id r).2.toOption.join)) ∧
      (s.acquire id r).1.queue = s.queue := by
  rcases r with ⟨b, e | h⟩
  · exact ⟨⟨rfl, fun _ _ => rfl, rfl, .inl rfl⟩, rfl⟩
  refine ⟨⟨?_, fun j hj => ?_, rfl, .inl rfl⟩, rfl⟩
  · exact s.view_emit_same _
  · exact s.view_emit_ne hj _

lemma acts_registerInput (s : Front) (id : Nat) (input : ExecIn) (created : Bool) :
    Acts s (s.registerInput id input created).1 id
        ((s.view id).acquire (s.registerInput id input created).2.toOption.join) ∧
      (s.registerInput id input created).1.queue = s.queue := by
  unfold registerInput
  split
  · split
    · exact acts_acquire s id _
    · exact ⟨⟨rfl, fun _ _ => rfl, rfl, .inl rfl⟩, rfl⟩
  · exact ⟨⟨rfl, fun _ _ => rfl, rfl, .inl rfl⟩, rfl⟩

lemma acts_registerSink (s : Front) (id : Nat) (sink : Option Nat) (sinkLen : Nat) (dmabufFd : Int) (created : Bool) :
    Acts s (s.registerSink id sink sinkLen dmabufFd created).1 id
        ((s.view id).acquire (s.registerSink id sink sinkLen dmabufFd created).2.toOption.join) ∧
      (s.registerSink id sink sinkLen dmabufFd created).1.queue = s.queue := by
  unfold registerSink
  split
  · split <;> exact acts_acquire s id _
  · exact ⟨⟨rfl, fun _ _ => rfl, rfl, .inl rfl⟩, rfl⟩

/-- How a submission ends: it returns an error and, if it allocated a call, freed it again, or it
returns the token of a call that is on the in-flight list with its forward pending. -/
inductive Submitted (s : Front) : Front × Except Errno Nat → Prop where
  | rejected (e : Errno) : Submitted s (s, .error e)
  | refused {s' : Front} (e : Errno) (inputBulk resultSink : Option BulkHandle)
      (same : s'.view (s.nextCallId + 1) =
        (s.view (s.nextCallId + 1)).refuse inputBulk resultSink)
      (other : ∀ j, j ≠ s.nextCallId + 1 → s'.view j = s.view j)
      (rest : s'.rest = { s.rest with nextCallId := s.nextCallId + 1 })
      (queue : s'.queue = s.queue) : Submitted s (s', .error e)
  | accepted {s' : Front} (c : Call) (wire : ExecIn) (fresh : c.Fresh)
      (callId : wire.clientCallId = s.nextCallId + 1)
      (input : wire.inputBulk = c.inputBulk) (sink : wire.resultSink = c.resultSink)
      (same : s'.view (s.nextCallId + 1) = (s.view (s.nextCallId + 1)).accept c wire)
      (other : ∀ j, j ≠ s.nextCallId + 1 → s'.view j = s.view j)
      (rest : s'.rest = { s.rest with nextCallId := s.nextCallId + 1 })
      (queue : s'.queue = (s.inflight ++ [s.nextCallId + 1], s.nInflight + 1)) :
      Submitted s (s', .ok (s.nextCallId + 1))

end Front

namespace CallView

variable (v : CallView)

lemma refuse_put (c : Call) (a b : Option BulkHandle) :
    (((((v.put c).acquire a).acquire b).release a).release b).free = v.refuse a b := by
  cases a <;> cases b <;> rfl

lemma accept_put (c c' : Call) (wire : ExecIn) :
    (((((v.put c').acquire c.inputBulk).acquire c.resultSink).link).put c).forwardExec wire = v.accept c wire := by
  cases hi : c.inputBulk <;> cases hs : c.resultSink <;> simp [accept, hi, hs] <;> rfl

@[simp] lemma unlink_link : v.link.unlink = v := rfl

end CallView

namespace Front

variable {s : Front} {id : Nat}

lemma queue_unlink_link (h : id ∉ s.inflight) : ((s.link id).unlink id).queue = s.queue := by
  simp [queue, link, unlink, erase_append_right _ h]

variable {o : ForwardOutcome}

lemma submit_error {e : Errno} (hi : id ∉ s.inflight) (h : s.submit id input c o = (s', .error e)) :
    Acts s s' id ((s.view id).releaseBoth c).free ∧ s'.queue = s.queue := by
  simp only [submit] at h
  split_ifs at h with hc hf
  · obtain ⟨rfl, -⟩ := Prod.mk.inj h
    exact ⟨⟨by simp, fun j hj => by simp [view_free_ne, view_releaseBoth_ne, hj], by simp, .inl (by simp)⟩, by simp⟩
  · obtain ⟨rfl, -⟩ := Prod.mk.inj h
    have hq := queue_unlink_link (s := s.hgCreate) hi
    refine ⟨⟨?_, fun j hj => ?_, by simp, .inl (by simpa using hq)⟩, by simpa using hq⟩
    · simp [CallView.releaseBoth]
    · simp [view_free_ne, view_releaseBoth_ne, view_unlink_ne, view_link_ne, hj]
  · simp at h

lemma submit_ok (h : s.submit id input c o = (s', .ok t)) :
    t = id ∧ ∃ handle wire, wire.clientCallId = id ∧ wire.inputBulk = c.inputBulk ∧ wire.resultSink = c.resultSink ∧
      s'.view id = (((s.view id).link).put { c with handle := handle }).forwardExec wire ∧
      (∀ j, j ≠ id → s'.view j = s.view j) ∧ s'.rest = s.rest ∧
      s'.queue = (s.inflight ++ [id], s.nInflight + 1) := by
  simp only [submit] at h
  split_ifs at h with hc hf
  all_goals obtain ⟨rfl, ht⟩ := Prod.mk.inj h
  · cases ht
  · cases ht
  cases ht
  refine ⟨rfl, some s.nextHandle, _, rfl, rfl, rfl, by simp; rfl, fun j hj => ?_, by simp, rfl⟩
  simp [view_forwardExec_ne, view_put_ne, view_link_ne, hj]

lemma forwardFull_submitted (input : ExecIn) (sink : Option Nat) (sinkLen : Nat) (dmabufFd : Int)
    (o : ForwardOutcome) (hi : s.nextCallId + 1 ∉ s.inflight) :
    Submitted s (nkvxFrontForwardFull s input sink sinkLen dmabufFd o) := by
  unfold nkvxFrontForwardFull
  split_ifs
  · exact .rejected _
  · exact .rejected _
  · exact .rejected _
  -- `s0` has the call allocated, `s1` its input registered, `s2` its sink, and `s3` is after the send
  · extract_lets id c s0
    have view0 : s0.view id = (s.view id).put c := view_put_same ..
    have other0 : ∀ j, j ≠ id → s0.view j = s.view j := fun j hj => view_put_ne _ hj _
    have rest0 : s0.rest = { s.rest with nextCallId := id } := rfl
    obtain ⟨act1, queue1⟩ := acts_registerInput s0 id input o.inputCreated
    rcases hn : s0.registerInput id input o.inputCreated with ⟨s1, e | a⟩ <;>
      rw [hn] at act1 queue1
    all_goals
      have other1 : ∀ j, j ≠ id → s1.view j = s.view j := fun j hj =>
        (act1.other j hj).trans (other0 j hj)
      have rest1 := act1.rest.trans rest0
    · refine .refused e none none ?_ (fun j hj => ?_) rest1 queue1
      · rw [view_free_same, act1.same, view0]
        rfl
      · rw [view_free_ne _ hj, other1 j hj]
    obtain ⟨act2, queue2⟩ := acts_registerSink s1 id sink sinkLen dmabufFd o.sinkCreated
    dsimp only
    rcases hsn : s1.registerSink id sink sinkLen dmabufFd o.sinkCreated with ⟨s2, e | b⟩ <;>
      rw [hsn] at act2 queue2
    all_goals
      have view2 := act2.same
      rw [act1.same, view0] at view2
      have other2 : ∀ j, j ≠ id → s2.view j = s.view j := fun j hj =>
        (act2.other j hj).trans (other1 j hj)
      have rest2 := act2.rest.trans rest1
      have queue2 : s2.queue = s.queue := queue2.trans queue1
    · refine .refused e a none ?_ (fun j hj => ?_) ?_ (by simp [queue2])
      · rw [view_free_same, view_release_same, view2, ← CallView.refuse_put _ c]
        rfl
      · rw [view_free_ne _ hj, view_release_ne _ hj, other2 j hj]
      rw [rest_free, rest_release]
      exact rest2
    have hi2 : id ∉ s2.inflight := by
      have : s2.inflight = s.inflight := congrArg Prod.fst queue2
      rwa [this]
    rcases hs : s2.submit id input { c with inputBulk := a, resultSink := b } o
      with ⟨s3, e | t⟩ <;> dsimp only <;> rw [hs]
    · obtain ⟨act3, queue3⟩ := submit_error hi2 hs
      refine .refused e a b ?_ (fun j hj => ?_) (act3.rest.trans rest2) (queue3.trans queue2)
      · rw [act3.same, view2]
        exact CallView.refuse_put _ c a b
      · rw [act3.other j hj, other2 j hj]
    obtain ⟨rfl, handle, wire, hc, hb, hr, view3, other3, rest3, queue3⟩ := submit_ok hs
    have list2 : s2.inflight = s.inflight ∧ s2.nInflight = s.nInflight :=
      ⟨congrArg Prod.fst queue2, congrArg Prod.snd queue2⟩
    refine .accepted { c with handle := handle, inputBulk := a, resultSink := b } wire
      ⟨rfl, rfl, rfl, rfl, rfl, rfl⟩ hc hb hr ?_ (fun j hj => ?_) (rest3.trans rest2) ?_
    · rw [view3, view2]
      exact CallView.accept_put ..
    · rw [other3 j hj, other2 j hj]
    · rw [queue3, list2.1, list2.2]

end Front

end RadosNkv
