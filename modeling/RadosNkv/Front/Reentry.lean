import RadosNkv.Front.Evidence
import Mathlib.Data.List.Nodup

/-! Tenant callbacks that call back into the front. -/

namespace RadosNkv

open Option Front

open Ledger List

inductive TenantCall where
  | forward (input : ExecIn) (sink : Option Nat) (sinkLen : Nat) (dmabufFd : Int) (o : ForwardOutcome)
  | kvForward (input : KvIn) (sink : Option Nat) (sinkLen : Nat) (o : ForwardOutcome)
  | cancel (token : Nat) (o : CancelOutcome)
  | cancelAll (o : Nat → CancelOutcome)

def TenantCall.event : TenantCall → FrontEvent
  | .forward input sink sinkLen dmabufFd o => .forward input sink sinkLen dmabufFd o
  | .kvForward input sink sinkLen o => .kvForward input sink sinkLen o
  | .cancel token o => .cancel token o
  | .cancelAll o => .cancelAll o

inductive Frame where
  | forward (id : Nat)
  | join (id : Nat)
  | failAll (id : Nat) (next : Option Nat) (status : IoStatus)

def Frame.id : Frame → Nat
  | .forward id => id
  | .join id => id
  | .failAll id _ _ => id

def Frame.next : Frame → Option Nat
  | .failAll _ next _ => next
  | _ => none

structure Reactor where
  front : Front
  frame : Option Frame

namespace Front

def forwardOut (s : Front) (id : Nat) : Front :=
  match s.calls id with
  | none => s.useAfterFree
  | some c => ((s.unlink id).releaseBoth id c).free id

def joinOut (s : Front) (id : Nat) : Front :=
  match s.calls id with
  | none => s.useAfterFree
  | some c =>
    let s := s.releaseBoth id c
    let s := if c.detached then s else s.unlink id
    s.free id

def failOut (s : Front) (id : Nat) : Front :=
  match s.calls id with
  | none => s.useAfterFree
  | some c =>
    ((s.releaseBoth id c).unlink id).put id
      { c with tenantDone := true, inputBulk := none, resultSink := none, detached := true }

section

variable {s : Front} {id : Nat} {c : Call}

lemma forwardOut_eq (h : s.calls id = some c) : s.forwardOut id = ((s.unlink id).releaseBoth id c).free id := by
  unfold forwardOut
  rw [h]

lemma joinOut_eq (h : s.calls id = some c) :
    s.joinOut id = (if c.detached then s.releaseBoth id c else (s.releaseBoth id c).unlink id).free id := by
  unfold joinOut
  rw [h]

lemma failOut_eq (h : s.calls id = some c) : s.failOut id = ((s.releaseBoth id c).unlink id).put id
      { c with tenantDone := true, inputBulk := none, resultSink := none, detached := true } := by
  unfold failOut
  rw [h]

end

def nextInflight (s : Front) (id : Nat) : Option Nat := ((s.inflight.dropWhile (· ≠ id)).drop 1).head?

end Front

namespace Reactor

variable (s : Front)

def idle : Reactor := ⟨s, none⟩

def tryComplete (id : Nat) : Reactor :=
  match s.calls id with
  | none => idle s.useAfterFree
  | some c =>
    if c.cancelling && c.forwardDone && c.cancelAcked then
      if c.tenantDone then idle (s.joinOut id)
      else ⟨s.emit id (.tenant c.joinStatus 0 none), some (.join id)⟩
    else idle s

def ackCb (id : Nat) (ret : HgReturn) : Reactor :=
  match s.calls id with
  | none => idle s.useAfterFree
  | some c =>
    let s := s.noteDelivered id ret .ackDelivered
    tryComplete (s.put id { c with cancelHandle := none, cancelAcked := true }) id

def forwardCb (id : Nat) (ret : HgReturn) (output : Option ExecOut) : Reactor :=
  match s.calls id with
  | none => idle s.useAfterFree
  | some c =>
    let s := s.noteDelivered id ret .responseDelivered
    if c.cancelling then tryComplete (s.put id { c with forwardDone := true, handle := none }) id
    else if c.tenantDone then idle ((s.releaseBoth id c).free id)
    else
      let r := forwardResult ret output
      ⟨s.emit id (.tenant r.1 r.2.1 r.2.2), some (.forward id)⟩

def failTurn (status : IoStatus) (cur : Option Nat) : Reactor :=
  match cur with
  | none => idle s
  | some id =>
    match s.calls id with
    | none => idle s.useAfterFree
    | some _ => ⟨s.emit id (.tenant status 0 none), some (.failAll id (s.nextInflight id) status)⟩

def fire : Completion → Reactor
  | .forward id ret output =>
    if id ∈ s.forwards then forwardCb { s with forwards := s.forwards.erase id } id ret output else idle s
  | .ack id ret => if id ∈ s.cancels then ackCb { s with cancels := s.cancels.erase id } id ret else idle s
  | .kv id ret output => idle (RadosNkv.fire s (.kv id ret output))

def resume : Frame → Reactor
  | .forward id => idle (s.forwardOut id)
  | .join id => idle (s.joinOut id)
  | .failAll id next status => failTurn (s.failOut id) status next

end Reactor

inductive ReactorEvent where
  | call (c : TenantCall)
  | fire (c : Completion)
  | failAll (status : IoStatus)
  | ret

namespace Reactor

def step (s : Reactor) : ReactorEvent → Reactor
  | .call c => { s with front := s.front.step c.event }
  | .fire c => if s.frame.isNone then fire s.front c else s
  | .failAll status => if s.frame.isNone then failTurn s.front status s.front.inflight.head? else s
  | .ret =>
    match s.frame with
    | none => s
    | some f => resume s.front f

def after (evs : List ReactorEvent) : Reactor := Machine.run step (idle Front.init) evs

def settle (r : Reactor) : Front :=
  match r.frame with
  | none => r.front
  | some f => (resume r.front f).front

variable (s : Front) (id : Nat)

lemma settle_tryComplete : (tryComplete s id).settle = nkvxCallTryComplete s id := by
  unfold tryComplete nkvxCallTryComplete
  cases hc : s.calls id with
  | none => rfl
  | some c =>
    by_cases hj : c.cancelling && c.forwardDone && c.cancelAcked
    · by_cases ht : c.tenantDone
      · simp only [hj, ht, if_true]
        exact Front.joinOut_eq hc
      simp only [hj, ht, if_true, Bool.false_eq_true, if_false]
      exact Front.joinOut_eq (s := s.emit id _) hc
    simp only [hj]
    rfl

lemma settle_ackCb (ret : HgReturn) : (ackCb s id ret).settle = nkvxCancelAckCb s id ret := by
  unfold ackCb nkvxCancelAckCb
  cases s.calls id with
  | none => rfl
  | some c => exact settle_tryComplete _ id

lemma settle_forwardCb (ret : HgReturn) (output : Option ExecOut) :
    (forwardCb s id ret output).settle = nkvxFrontForwardCb s id ret output := by
  unfold forwardCb nkvxFrontForwardCb
  cases hc : s.calls id with
  | none => rfl
  | some c =>
    have hn : (s.noteDelivered id ret .responseDelivered).calls id = some c := by
      unfold Front.noteDelivered
      split <;> exact hc
    by_cases hcan : c.cancelling
    · simp only [hcan, if_true]
      exact settle_tryComplete _ id
    by_cases ht : c.tenantDone
    · simp only [hcan, ht, if_true]
      rfl
    simp only [hcan, ht, Bool.false_eq_true, if_false]
    exact Front.forwardOut_eq (s := Front.emit _ id _) hn

lemma settle_fire (c : Completion) : (fire s c).settle = RadosNkv.fire s c := by
  cases c with
  | forward id ret output =>
    unfold fire RadosNkv.fire
    by_cases hmem : id ∈ s.forwards
    · simp only [if_pos hmem]
      exact settle_forwardCb ..
    simp only [if_neg hmem]
    rfl
  | ack id ret =>
    unfold fire RadosNkv.fire
    by_cases hmem : id ∈ s.cancels
    · simp only [if_pos hmem]
      exact settle_ackCb _ id ret
    simp only [if_neg hmem]
    rfl
  | kv id ret output => rfl

lemma settle_idle {r : Reactor} (h : r.frame = none) : r.settle = r.front := by
  unfold settle
  rw [h]

end Reactor

namespace Front

variable {s : Front} {id : Nat} {c : Call}

lemma acts_forwardOut (h : s.calls id = some c) :
    Acts s (s.forwardOut id) id ((s.view id).unlink.releaseBoth c).free := by
  rw [forwardOut_eq h]
  exact ⟨by simp, fun j hj => by simp [view_free_ne, view_releaseBoth_ne, view_unlink_ne, hj], by simp,
    .inr (by simp [queue_unlink])⟩

lemma acts_joinOut (h : s.calls id = some c) (hd : c.detached = false) :
    Acts s (s.joinOut id) id (((s.view id).releaseBoth c).unlink).free := by
  rw [joinOut_eq h, hd]
  exact ⟨by simp, fun j hj => by simp [view_free_ne, view_releaseBoth_ne, view_unlink_ne, hj], by simp,
    .inr (by simp [queue_unlink])⟩

lemma acts_failOut (h : s.calls id = some c) : Acts s (s.failOut id) id ((((s.view id).releaseBoth c).unlink).put
        { c with tenantDone := true, inputBulk := none, resultSink := none, detached := true }) ∧
      (s.failOut id).inflight = s.inflight.erase id := by
  have hl : (s.releaseBoth id c).inflight = s.inflight := congrArg Prod.fst (queue_releaseBoth s c)
  rw [failOut_eq h]
  refine ⟨⟨by simp, fun j hj => by simp [view_put_ne, view_releaseBoth_ne, view_unlink_ne, hj], by simp,
    .inr (by simp [queue_unlink])⟩, ?_⟩
  exact congrArg (fun l => l.erase id) hl

lemma acts_emit (s : Front) (id : Nat) (e : CallEffect) : Acts s (s.emit id e) id ((s.view id).emit e) :=
  ⟨s.view_emit_same e, fun _ hj => s.view_emit_ne hj e, rfl, .inl rfl⟩

lemma view_beginCancel_ne (hj : id ≠ j) (o : CancelOutcome) :
    (nkvxCallBeginCancel s j o).view id = s.view id := by
  cases hc : s.calls j with
  | none =>
    unfold nkvxCallBeginCancel
    rw [hc]
    rfl
  | some c => exact (acts_beginCancel hc o).other id hj

lemma beginCancel_cancelling (h : s.calls id = some c) (hcan : c.cancelling) (o : CancelOutcome) :
    nkvxCallBeginCancel s id o = s := by
  unfold nkvxCallBeginCancel
  simp only [h, hcan, if_true]

end Front

/-! ### Calls whose tenant callback runs -/

namespace CallView

def Waits (f : Frame) (c : Call) (v : CallView) : Prop :=
  match f with
  | .forward _ => v.forwards = 0 ∧ v.cancels = 0 ∧ c.cancelling = false
  | .join _ => v.forwards = 0 ∧ v.cancels = 0 ∧ c.cancelling = true
  | .failAll _ _ _ => Live c v ∧ ¬(c.forwardDone ∧ c.cancelAcked)

inductive Calling (f : Frame) (c : Call) : CallView → Prop where
  | intro {v : CallView} (st : IoStatus) (n : Nat) (out : Option Bytes) (call : v.call = some c) (owned : Owned c v)
      (waits : Waits f c v) (tenantDone : c.tenantDone = false) (detached : c.detached = false) :
      Calling f c (v.emit (.tenant st n out))

variable {v : CallView} {c : Call} {f : Frame} {id : Nat}

section

variable (h : Calling f c v)
include h

lemma Calling.call_eq : v.call = some c := by
  obtain ⟨_, _, _, hl⟩ := h
  exact hl

lemma Calling.detached_eq : c.detached = false := by
  obtain ⟨_, _, _, -, -, -, -, hd⟩ := h
  exact hd

lemma Calling.listed_eq : v.listed = 1 := by
  obtain ⟨_, _, _, -, ho, -, ht⟩ := h
  simpa [ht] using ho.listed

lemma Calling.tenantCalls_eq : tenantCalls v.log = 1 := by
  obtain ⟨_, _, _, -, ho, -, ht⟩ := h
  simpa [ht] using ho.tenant

end

lemma Calling.ok_forwardOut (h : Calling (.forward id) c v) : Ok (v.unlink.releaseBoth c).free := by
  obtain ⟨st, n, out, -, ho, ⟨hf, hc, -⟩, ht⟩ := h
  rw [releaseBoth_unlink]
  exact .gone (ho.gone_complete ht hf hc st n out)

lemma Calling.ok_joinOut (h : Calling (.join id) c v) : Ok ((v.releaseBoth c).unlink).free := by
  obtain ⟨st, n, out, -, ho, ⟨hf, hc, -⟩, ht⟩ := h
  exact .gone (ho.gone_complete ht hf hc st n out)

lemma Calling.ok_failOut {next : Option Nat} (h : Calling (.failAll id next status) c v) :
    Ok (((v.releaseBoth c).unlink).put
      { c with tenantDone := true, inputBulk := none, resultSink := none, detached := true }) := by
  obtain ⟨st, n, out, -, -, ⟨hl, hw⟩, ht⟩ := h
  exact hl.ok_failed hw ht st n out

lemma Ok.listed_eq_zero (h : Ok v) (hcl : tenantCalls v.log ≠ 0) : v.listed = 0 := by
  cases h with
  | unborn => exact absurd rfl hcl
  | @live c _ hl _ =>
    by_cases ht : c.tenantDone
    · simpa [ht] using hl.listed
    · exact absurd (by simpa [ht] using hl.tenant) hcl
  | gone hg => exact hg.listed

end CallView

namespace Reactor

def Runs (s : Reactor) (id : Nat) : Prop := s.frame.map Frame.id = some id

structure Inv (s : Reactor) : Prop where
  but : s.front.InvBut s.Runs
  calling : ∀ f, s.frame = some f → ∃ c, (s.front.view f.id).Calling f c
  next : ∀ f j, s.frame = some f → f.next = some j → j ∈ s.front.inflight ∧ j ≠ f.id
  zero : s.front.view 0 = .unborn

variable {s : Reactor} {s' : Front} {f : Frame} {c c' : Call} {id : Nat} {v : CallView}

lemma runs_frame (hf : s.frame = some f) : s.Runs f.id := by
  unfold Runs
  rw [hf]
  rfl

lemma Runs.eq_id (h : s.Runs id) (hf : s.frame = some f) : id = f.id := by
  unfold Runs at h
  rw [hf] at h
  exact (Option.some.inj h).symm

lemma not_runs (hf : s.frame = none) (id : Nat) : ¬s.Runs id := by
  unfold Runs
  rw [hf]
  exact nofun

lemma inv_idle (h : s'.Inv) (hz : s'.view 0 = .unborn) : (idle s').Inv :=
  ⟨h.but _, nofun, nofun, hz⟩

lemma Inv.front_inv (h : s.Inv) (hf : s.frame = none) : s.front.Inv := h.but.inv (not_runs hf)

lemma Inv.ne_zero (h : s.Inv) (hc : s.front.calls id = some c) : id ≠ 0 := by
  rintro rfl
  have hl : (s.front.view 0).call = none := by rw [h.zero]; rfl
  exact absurd (hc.symm.trans hl) (by simp)

lemma Inv.zero_act (h : s.Inv) (hc : s.front.calls id = some c) (ha : Front.Acts s.front s' id v) :
    s'.view 0 = .unborn := (ha.other 0 (h.ne_zero hc).symm).trans h.zero

lemma Inv.nodup (h : s.Inv) : s.front.inflight.Nodup := by
  rw [nodup_iff_count_le_one]
  intro j
  change (s.front.view j).listed ≤ 1
  by_cases hj : s.Runs j
  · obtain ⟨f, hf, hi⟩ := map_eq_some_iff.mp hj
    obtain ⟨c, hcl⟩ := h.calling f hf
    exact hi ▸ Nat.le_of_eq hcl.listed_eq
  have ho := h.but.views j hj
  generalize s.front.view j = w at ho
  cases ho with
  | unborn => exact Nat.zero_le 1
  | @live c _ hl _ =>
    rw [hl.listed]
    split <;> omega
  | gone hg => rw [hg.listed]; exact Nat.zero_le 1

lemma Inv.enter (h : s.Inv) (hf : s.frame = none) (hc : s.front.calls f.id = some c)
    (ha : Front.Acts s.front s' f.id v) (hq : s'.queue = s.front.queue) (hv : v.Calling f c')
    (hx : ∀ j, f.next = some j → j ∈ s.front.inflight ∧ j ≠ f.id) : Inv ⟨s', some f⟩ where
  but := h.but.act hc ha (fun hn => absurd rfl hn) (fun j _ _ => not_runs hf j) (.inl hq)
  calling := by
    rintro f' ⟨⟩
    exact ⟨c', ha.same ▸ hv⟩
  next := by
    rintro f' j ⟨⟩ hj
    have hl : s'.inflight = s.front.inflight := congrArg Prod.fst hq
    exact hl ▸ hx j hj
  zero := h.zero_act hc ha

def Spares (s : Reactor) : ReactorEvent → Prop
  | .call (.cancel token _) => ¬s.Runs token
  | .call (.cancelAll _) => (s.frame.bind fun f => s.front.calls f.id).all (·.cancelling)
  | _ => True

instance (s : Reactor) (id : Nat) : Decidable (s.Runs id) := inferInstanceAs (Decidable (_ = _))

instance (s : Reactor) : ∀ e, Decidable (s.Spares e)
  | .call (.forward _ _ _ _ _) | .call (.kvForward _ _ _ _) | .fire _ | .failAll _ | .ret => .isTrue trivial
  | .call (.cancel token _) => inferInstanceAs (Decidable (¬s.Runs token))
  | .call (.cancelAll _) => inferInstanceAs (Decidable (_ = true))

lemma Spares.cancelling (h : s.Spares (.call (.cancelAll o))) (hf : s.frame = some f)
    (hc : s.front.calls f.id = some c) : c.cancelling := by
  have ha : (s.frame.bind fun f => s.front.calls f.id).all (·.cancelling) = true := h
  simpa [hf, hc] using ha

def Called (s : Reactor) (id : Nat) : Prop := tenantCalls (s.front.callLog id) ≠ 0

section

variable (h : s.Inv)
include h

lemma Inv.called_runs (hi : s.Runs id) : s.Called id := by
  obtain ⟨f, hf, rfl⟩ := map_eq_some_iff.mp hi
  obtain ⟨c, hc⟩ := h.calling f hf
  have hone : tenantCalls (s.front.callLog f.id) = 1 := hc.tenantCalls_eq
  exact fun hz => Nat.one_ne_zero (hone.symm.trans hz)

lemma Inv.notMem_of_called (hi : ¬s.Runs id) (hl : s.Called id) : id ∉ s.front.inflight :=
  count_eq_zero.mp ((h.but.views id hi).listed_eq_zero hl)

lemma Inv.born_of_called (hcl : s.Called id) : id ≤ s.front.nextCallId := by
  by_contra ht
  have hl : s.front.callLog id = [] := congrArg CallView.log (h.but.unborn id (Nat.lt_of_not_le ht))
  exact hcl (by rw [hl]; rfl)

lemma Inv.view_call {c : TenantCall} (hs : s.Spares (.call c)) (hb : id ≤ s.front.nextCallId)
    (hls : ¬s.Runs id → id ∉ s.front.inflight) : (s.front.step c.event).view id = s.front.view id := by
  cases c with
  | forward input sink sinkLen dmabufFd o =>
    have he : id ≠ s.front.nextCallId + 1 := ne_of_lt (Nat.lt_succ_of_le hb)
    change (nkvxFrontForwardFull s.front input sink sinkLen dmabufFd o).1.view id = _
    have sub := forwardFull_submitted input sink sinkLen dmabufFd o h.but.next_notMem
    generalize nkvxFrontForwardFull s.front input sink sinkLen dmabufFd o = r at sub
    cases sub with
    | rejected e => rfl
    | refused _ _ _ _ other => exact other id he
    | accepted _ _ _ _ _ _ _ other => exact other id he
  | kvForward input sink sinkLen o => exact view_kvForward ..
  | cancel token o =>
    change (nkvxFrontCancel s.front token o).1.view id = _
    unfold nkvxFrontCancel
    split_ifs with hn hmem
    · rfl
    · have he : id ≠ token := by
        rintro rfl
        exact hls hs hmem
      exact Front.view_beginCancel_ne he o
    · rfl
  | cancelAll o =>
    refine cancelAll_induct (P := fun s' => s'.view id = s.front.view id) rfl ?_
    intro s' j hview hmem
    by_cases hj : id = j
    · subst hj
      have hl : 0 < (s.front.view id).listed := hview ▸ count_pos_iff.mpr hmem
      have hr : s.Runs id := by
        by_contra ho
        exact hls ho (count_pos_iff.mp hl)
      obtain ⟨f, hf, rfl⟩ := map_eq_some_iff.mp hr
      obtain ⟨c, hc⟩ := h.calling f hf
      have hcl : s'.calls f.id = some c := (congrArg CallView.call hview).trans hc.call_eq
      rw [Front.beginCancel_cancelling hcl (hs.cancelling hf hc.call_eq)]
      exact hview
    · exact (Front.view_beginCancel_ne hj (o j)).trans hview

lemma Inv.view_called {c : TenantCall} (hs : s.Spares (.call c)) (hl : s.Called id) :
    (s.front.step c.event).view id = s.front.view id :=
  h.view_call hs (h.born_of_called hl) fun hi => h.notMem_of_called hi hl

lemma Inv.but_call {c : TenantCall} (hs : s.Spares (.call c)) : (s.front.step c.event).InvBut s.Runs := by
  cases c with
  | forward => exact h.but.forward ..
  | kvForward => exact h.but.kvForward ..
  | cancel token o =>
    change (nkvxFrontCancel s.front token o).1.InvBut _
    unfold nkvxFrontCancel
    split_ifs with hn hmem
    · exact h.but
    · exact h.but.beginCancel hs hmem o
    · exact h.but
  | cancelAll o =>
    have ha : (nkvxFrontCancelAll s.front o).InvBut s.Runs ∧
        ∀ id, s.Runs id → (nkvxFrontCancelAll s.front o).view id = s.front.view id := by
      refine cancelAll_induct
        (P := fun s' => s'.InvBut s.Runs ∧ ∀ id, s.Runs id → s'.view id = s.front.view id) ⟨h.but, fun _ _ => rfl⟩ ?_
      rintro s' j ⟨hb, hview⟩ hmem
      by_cases hj : s.Runs j
      · obtain ⟨f, hf, rfl⟩ := map_eq_some_iff.mp hj
        obtain ⟨c, hc⟩ := h.calling f hf
        have hl : s'.calls f.id = some c := (congrArg CallView.call (hview f.id hj)).trans hc.call_eq
        rw [Front.beginCancel_cancelling hl (hs.cancelling hf hc.call_eq)]
        exact ⟨hb, hview⟩
      refine ⟨hb.beginCancel hj hmem (o j), fun id hi => ?_⟩
      have he : id ≠ j := fun hq => hj (hq ▸ hi)
      exact (Front.view_beginCancel_ne he (o j)).trans (hview id hi)
    exact ha.1

end

lemma mem_inflight_of_queue (hq : s'.queue.1 = ids) (hj : j ∈ ids) : j ∈ s'.inflight := by
  rw [← hq] at hj
  exact hj

lemma mem_inflight_call (h : s.Inv) (c : TenantCall) (hj : j ∈ s.front.inflight) :
    j ∈ (s.front.step c.event).inflight := by
  cases c with
  | forward input sink sinkLen dmabufFd o =>
    change j ∈ (nkvxFrontForwardFull s.front input sink sinkLen dmabufFd o).1.inflight
    have sub := forwardFull_submitted input sink sinkLen dmabufFd o h.but.next_notMem
    generalize nkvxFrontForwardFull s.front input sink sinkLen dmabufFd o = r at sub
    cases sub with
    | rejected e => exact hj
    | refused _ _ _ _ _ _ queue => exact mem_inflight_of_queue (congrArg Prod.fst queue) hj
    | accepted _ _ _ _ _ _ _ _ _ queue =>
      exact mem_inflight_of_queue (congrArg Prod.fst queue) (mem_append_left _ hj)
  | kvForward input sink sinkLen o =>
    change j ∈ (nkvxFrontKvForward s.front input sink sinkLen o).1.inflight
    have sub := kvForward_submitted s.front input sink sinkLen o
    generalize nkvxFrontKvForward s.front input sink sinkLen o = r at sub
    cases sub <;> exact hj
  | cancel token o =>
    change j ∈ (nkvxFrontCancel s.front token o).1.inflight
    unfold nkvxFrontCancel
    split_ifs with hn hmem
    · exact hj
    · exact mem_inflight_of_queue (congrArg Prod.fst (queue_beginCancel s.front token o)) hj
    · exact hj
  | cancelAll o =>
    refine cancelAll_induct (P := fun s' => j ∈ s'.inflight) hj fun s' i hmem _ => ?_
    exact mem_inflight_of_queue (congrArg Prod.fst (queue_beginCancel s' i (o i))) hmem

lemma Inv.call (h : s.Inv) {c : TenantCall} (hs : s.Spares (.call c)) : (s.step (.call c)).Inv where
  but := h.but_call hs
  calling := by
    intro f hf
    obtain ⟨c', hc'⟩ := h.calling f hf
    refine ⟨c', ?_⟩
    change ((s.front.step c.event).view f.id).Calling f c'
    rw [h.view_called hs (h.called_runs (runs_frame hf))]
    exact hc'
  next := by
    intro f j hf hj
    obtain ⟨hmem, hn⟩ := h.next f j hf hj
    exact ⟨mem_inflight_call h c hmem, hn⟩
  zero := by
    have hl : 0 ∉ s.front.inflight := count_eq_zero.mp (congrArg CallView.listed h.zero)
    exact (h.view_call hs (Nat.zero_le _) fun _ => hl).trans h.zero

lemma Inv.zero_fire (h : s.Inv) (hf : s.frame = none) (c : Completion) :
    (RadosNkv.fire s.front c).view 0 = .unborn := by
  cases c with
  | forward id ret output =>
    by_cases hmem : id ∈ s.front.forwards
    · obtain ⟨c, hc, -⟩ := (h.front_inv hf).live (.inl hmem)
      exact h.zero_act hc (acts_fire_forward hc hmem ret output)
    · simpa [RadosNkv.fire, hmem] using h.zero
  | ack id ret =>
    by_cases hmem : id ∈ s.front.cancels
    · obtain ⟨c, hc, -⟩ := (h.front_inv hf).live (.inr (.inl hmem))
      exact h.zero_act hc (acts_fire_ack hc hmem ret)
    · simpa [RadosNkv.fire, hmem] using h.zero
  | kv id ret output => exact (view_fire_kv s.front id ret output 0).trans h.zero

lemma Inv.fire_idle (h : s.Inv) (hf : s.frame = none) {c : Completion} (hi : (fire s.front c).frame = none) :
    (fire s.front c).Inv := by
  have hfr : (fire s.front c).front = RadosNkv.fire s.front c := by
    rw [← settle_fire, settle_idle hi]
  have hr : fire s.front c = idle (RadosNkv.fire s.front c) := by
    rw [← hfr]
    exact congrArg (Reactor.mk (fire s.front c).front) hi
  rw [hr]
  exact inv_idle ((h.front_inv hf).step (.fire c)) (h.zero_fire hf c)

lemma Inv.enter_join (h : s.Inv) (hf : s.frame = none) (hc0 : s.front.calls id = some c0)
    (ha : Front.Acts s.front s' id v) (hq : s'.queue = s.front.queue) (hl : v.Live c)
    (hr : (tryComplete s' id).frame ≠ none) : (tryComplete s' id).Inv := by
  have hcl : s'.calls id = some c := (congrArg CallView.call ha.same).trans hl.call
  unfold tryComplete at hr ⊢
  simp only [hcl] at hr ⊢
  by_cases hj : c.cancelling && c.forwardDone && c.cancelAcked
  · by_cases ht : c.tenantDone
    · simp only [hj, ht, if_true] at hr
      exact absurd rfl hr
    simp only [hj, ht, if_true, Bool.false_eq_true, if_false]
    simp only [Bool.and_eq_true] at hj
    obtain ⟨⟨hcan, hd⟩, hca⟩ := hj
    have hn : c.tenantDone = false := by simpa using ht
    have he : Front.Acts s.front (s'.emit id (.tenant c.joinStatus 0 none)) id
        (v.emit (.tenant c.joinStatus 0 none)) := ha.trans hq (ha.same ▸ Front.acts_emit s' id _)
    have hw : v.forwards = 0 := by simpa [hd] using hl.forwards
    have hnc : v.cancels = 0 := by simpa [hcan, hca] using hl.cancels
    have hcn : (v.emit (.tenant c.joinStatus 0 none)).Calling (.join id) c :=
      .intro _ _ _ hl.call hl.toOwned ⟨hw, hnc, hcan⟩ hn (hl.detached.trans hn)
    exact h.enter (f := .join id) hf hc0 he hq hcn nofun
  simp only [hj] at hr
  exact absurd rfl hr

lemma acts_popForward (s : Front) (id : Nat) :
    Front.Acts s { s with forwards := s.forwards.erase id } id (s.view id).popForward :=
  ⟨by simp [view, CallView.popForward, count_erase_self],
    fun j hj => by simp [view, count_erase_of_ne hj], rfl, .inl rfl⟩

lemma acts_popCancel (s : Front) (id : Nat) :
    Front.Acts s { s with cancels := s.cancels.erase id } id (s.view id).popCancel :=
  ⟨by simp [view, CallView.popCancel, count_erase_self],
    fun j hj => by simp [view, count_erase_of_ne hj], rfl, .inl rfl⟩

lemma acts_note_put (ha : Front.Acts s' s1 id v1) (hq : s1.queue = s'.queue) (ret : HgReturn)
    (e : CallEffect) (c : Call) :
    Front.Acts s' ((s1.noteDelivered id ret e).put id c) id ((v1.noteDelivered ret e).put c) := by
  obtain ⟨hn, hq'⟩ := acts_noteDelivered s1 id ret e
  have hb := ha.trans hq (ha.same ▸ hn)
  refine hb.trans (hq'.trans hq) ⟨?_, fun _ hj => Front.view_put_ne _ hj c, rfl, .inl rfl⟩
  rw [view_put_same, hb.same]

lemma Inv.fire_ack (h : s.Inv) (hf : s.frame = none) (id : Nat) (ret : HgReturn) :
    (fire s.front (.ack id ret)).Inv := by
  by_cases hi : (fire s.front (.ack id ret)).frame = none
  · exact h.fire_idle hf hi
  by_cases hmem : id ∈ s.front.cancels
  · obtain ⟨c, hc, hl, -⟩ := (h.front_inv hf).live (.inr (.inl hmem))
    have hr : fire s.front (.ack id ret) = tryComplete ((Front.noteDelivered
        { s.front with cancels := s.front.cancels.erase id } id ret .ackDelivered).put id
        { c with cancelHandle := none, cancelAcked := true }) id := by
      simp only [fire, if_pos hmem, ackCb, hc]
    rw [hr] at hi ⊢
    have hq := (acts_noteDelivered { s.front with cancels := s.front.cancels.erase id } id ret .ackDelivered).2
    exact h.enter_join hf hc (acts_note_put (acts_popCancel s.front id) rfl ret ..) hq
      (hl.acked (count_pos_iff.mpr hmem) ret) hi
  · exact absurd (by simp [fire, hmem, idle]) hi

lemma Inv.fire_forward (h : s.Inv) (hf : s.frame = none) (id : Nat) (ret : HgReturn) (output : Option ExecOut) :
    (fire s.front (.forward id ret output)).Inv := by
  by_cases hi : (fire s.front (.forward id ret output)).frame = none
  · exact h.fire_idle hf hi
  by_cases hmem : id ∈ s.front.forwards
  · obtain ⟨c, hc, hl, -⟩ := (h.front_inv hf).live (.inl hmem)
    have hpo : 0 < (s.front.view id).forwards := count_pos_iff.mpr hmem
    obtain ⟨hnt, hq⟩ := acts_noteDelivered { s.front with forwards := s.front.forwards.erase id } id ret
      .responseDelivered
    have hp := acts_popForward s.front id
    simp only [fire, if_pos hmem, forwardCb, hc] at hi ⊢
    by_cases hcan : c.cancelling
    · simp only [if_pos hcan] at hi ⊢
      exact h.enter_join hf hc (acts_note_put hp rfl ret ..) hq (hl.resolved hpo hcan ret) hi
    by_cases ht : c.tenantDone
    · simp only [if_neg hcan, if_pos ht] at hi
      exact absurd rfl hi
    simp only [if_neg hcan, if_neg ht]
    have htn : c.tenantDone = false := by simpa using ht
    obtain ⟨ho, hr, hcn⟩ := hl.popForward hpo ret
    have hb := hp.trans rfl (hp.same ▸ hnt)
    have hcl := ((s.front.view id).popForward.noteDelivered_fields ret .responseDelivered).1.trans hl.call
    have hz : (s.front.view id).cancels = 0 := by simpa [hcan] using hl.cancels
    have hn : c.cancelling = false := by simpa using hcan
    exact h.enter (f := .forward id) hf hc (hb.trans hq (hb.same ▸ Front.acts_emit _ id _)) hq
      (.intro _ _ _ hcl ho ⟨hr, hcn.trans hz, hn⟩ htn (hl.detached.trans htn)) nofun
  · exact absurd (by simp [fire, hmem, idle]) hi

lemma Inv.fire (h : s.Inv) (hf : s.frame = none) (c : Completion) : (Reactor.fire s.front c).Inv := by
  cases c with
  | forward => exact h.fire_forward hf ..
  | ack id ret => exact h.fire_ack hf id ret
  | kv id ret output => exact h.fire_idle hf rfl

lemma nextInflight_spec {s : Front} (hn : s.inflight.Nodup) {id j : Nat} (h : s.nextInflight id = some j) :
    j ∈ s.inflight ∧ j ≠ id := by
  unfold Front.nextInflight at h
  cases hd : s.inflight.dropWhile (· ≠ id) with
  | nil =>
    rw [hd] at h
    exact absurd h nofun
  | cons x rest =>
    have hh : x = id := by
      have hx := head?_dropWhile_not (fun j => decide (j ≠ id)) s.inflight
      rw [hd] at hx
      simpa using hx
    rw [hd] at h
    have hmem : j ∈ rest := mem_of_mem_head? h
    have hs : (x :: rest).Sublist s.inflight := hd ▸ dropWhile_sublist _
    refine ⟨hs.subset (mem_cons_of_mem x hmem), ?_⟩
    rintro rfl
    exact (nodup_cons.mp (hs.nodup hn)).1 (hh ▸ hmem)

lemma Inv.failTurn (h : (idle s').Inv) (status : IoStatus) (hu : ∀ id ∈ cur, id ∈ s'.inflight) :
    (Reactor.failTurn s' status cur).Inv := by
  cases cur with
  | none => exact h
  | some id =>
    have hmem : id ∈ s'.inflight := hu id rfl
    have hf : s'.Inv := h.front_inv rfl
    obtain ⟨c, hc, hl, hw⟩ := hf.live (.inr (.inr hmem))
    have ht : c.tenantDone = false := by
      by_contra hn
      have hs : 0 < (s'.view id).listed := count_pos_iff.mpr hmem
      rw [hl.listed] at hs
      simp_all
    simp only [Reactor.failTurn, hc]
    exact h.enter (f := .failAll id (s'.nextInflight id) status) rfl hc (Front.acts_emit s' id _) rfl
      (.intro _ _ _ hl.call hl.toOwned ⟨hl, hw⟩ ht (hl.detached.trans ht)) fun j hj => nextInflight_spec h.nodup hj

lemma Inv.leave (h : s.Inv) (hf : s.frame = some f) (hc : s.front.calls f.id = some c)
    (ha : Front.Acts s.front s' f.id v) (hv : v.Ok) : (idle s').Inv := by
  obtain ⟨c', hl⟩ := h.calling f hf
  have hone : s.front.inflight.count f.id = 1 := hl.listed_eq
  have hmem : f.id ∈ s.front.inflight := count_pos_iff.mp (by omega)
  have hb : s'.InvBut (fun _ => False) := by
    refine h.but.act hc ha (fun _ => hv) (fun j hj _ hr => hj (hr.eq_id hf)) (.inr hmem)
  exact inv_idle (hb.inv fun _ => not_false) (h.zero_act hc ha)

lemma Inv.resume (h : s.Inv) (hf : s.frame = some f) : (Reactor.resume s.front f).Inv := by
  obtain ⟨c, hl⟩ := h.calling f hf
  have hc : s.front.calls f.id = some c := hl.call_eq
  cases f with
  | forward id => exact h.leave hf hc (Front.acts_forwardOut hc) hl.ok_forwardOut
  | join id =>
    exact h.leave hf hc (Front.acts_joinOut hc hl.detached_eq) hl.ok_joinOut
  | failAll id next status =>
    obtain ⟨ha, hs⟩ := Front.acts_failOut hc
    refine (h.leave hf hc ha hl.ok_failOut).failTurn status fun j hj => ?_
    obtain ⟨hmem, hn⟩ := h.next _ j hf hj
    rw [hs]
    exact (mem_erase_of_ne hn).mpr hmem

lemma Inv.step (h : s.Inv) (hs : s.Spares e) : (s.step e).Inv := by
  cases e with
  | call c => exact h.call hs
  | fire c =>
    unfold Reactor.step
    by_cases hf : s.frame = none
    · simp only [hf, isNone_none, if_true]
      exact h.fire hf c
    simp only [isNone_iff_eq_none, hf, if_false]
    exact h
  | failAll status =>
    unfold Reactor.step
    by_cases hf : s.frame = none
    · simp only [hf, isNone_none, if_true]
      have hi : (idle s.front).Inv := inv_idle (h.front_inv hf) h.zero
      exact hi.failTurn status fun id hd => mem_of_mem_head? hd
    simp only [isNone_iff_eq_none, hf, if_false]
    exact h
  | ret =>
    unfold Reactor.step
    cases hf : s.frame with
    | none => exact h
    | some f => exact h.resume hf

end Reactor

/-! ### Handshakes -/

namespace Front

def begun (s : Front) (id : Nat) : Nat := (s.callLog id).count .cancelBegun

variable (s : Front) (id : Nat)

lemma begun_emit (he : e ≠ .cancelBegun) : (s.emit j e).begun id = s.begun id := by
  unfold begun callLog emit
  by_cases hj : j = id
  · subst hj
    rw [about_cons_self, count_cons_of_ne he]
  · rw [about_cons_ne hj]

lemma begun_noteDelivered (ret : HgReturn) (he : e ≠ .cancelBegun) :
    (s.noteDelivered j ret e).begun id = s.begun id := by
  unfold noteDelivered
  split
  · exact s.begun_emit id he
  · rfl

lemma begun_release (h : Option BulkHandle) : (s.release j h).begun id = s.begun id := by
  cases h with
  | none => rfl
  | some b => exact s.begun_emit id nofun

lemma begun_releaseBoth (c : Call) : (s.releaseBoth j c).begun id = s.begun id := by
  unfold releaseBoth
  rw [begun_release, begun_release]

lemma begun_free : (s.free j).begun id = s.begun id := s.begun_emit id nofun

lemma begun_forwardOut : (s.forwardOut j).begun id = s.begun id := by
  unfold forwardOut
  split
  · rfl
  rw [begun_free, begun_releaseBoth]
  rfl

lemma begun_joinOut : (s.joinOut j).begun id = s.begun id := by
  unfold joinOut
  split
  · rfl
  dsimp only
  rw [begun_free]
  split
  · exact s.begun_releaseBoth id _
  · exact s.begun_releaseBoth id _

lemma begun_failOut : (s.failOut j).begun id = s.begun id := by
  unfold failOut
  split
  · rfl
  · exact s.begun_releaseBoth id _

lemma begun_emit_self : (s.emit id .cancelBegun).begun id = s.begun id + 1 := by
  unfold begun callLog emit
  rw [about_cons_self, count_cons_self]

variable {s id} in
lemma begun_beginCancel (hc : s.calls id = some c) (hcan : c.cancelling = false) (o : CancelOutcome) :
    (nkvxCallBeginCancel s id o).begun id = s.begun id + 1 := by
  unfold nkvxCallBeginCancel
  simp only [hc, hcan, Bool.false_eq_true, if_false]
  rw [← s.begun_emit_self id]
  split_ifs
  · exact begun_emit _ id nofun
  · rfl
  · rfl
  refine (begun_emit (j := id) (e := .hgCancel) _ id nofun).trans ?_
  exact begun_emit (s.emit id .cancelBegun).hgCreate id nofun

lemma begun_beginCancel_le (o : CancelOutcome) : s.begun id ≤ (nkvxCallBeginCancel s j o).begun id := by
  by_cases hj : id = j
  · subst hj
    cases hc : s.calls id with
    | none =>
      unfold nkvxCallBeginCancel
      rw [hc]
      exact le_rfl
    | some c =>
      cases hcan : c.cancelling with
      | false => exact (begun_beginCancel hc hcan o).symm ▸ Nat.le_succ _
      | true => exact le_of_eq (congrArg (·.begun id) (beginCancel_cancelling hc hcan o)).symm
  · exact le_of_eq (congrArg (fun v => v.log.count .cancelBegun) (view_beginCancel_ne hj o)).symm

variable {s id} in
lemma begun_cancelAll (hmem : id ∈ s.inflight) (hc : s.calls id = some c)
    (hcan : c.cancelling = false) (o : Nat → CancelOutcome) :
    s.begun id < (nkvxFrontCancelAll s o).begun id := by
  unfold nkvxFrontCancelAll
  generalize s.inflight = ids at hmem
  have mono : ∀ (ids : List Nat) (s' : Front),
      s'.begun id ≤ (ids.foldl (fun s j => nkvxCallBeginCancel s j (o j)) s').begun id := by
    intro ids
    induction ids with
    | nil => exact fun s' => le_rfl
    | cons j ids ih => exact fun s' => le_trans (begun_beginCancel_le s' id (o j)) (ih _)
  induction ids generalizing s with
  | nil => exact absurd hmem not_mem_nil
  | cons j ids ih =>
    by_cases hj : id = j
    · subst hj
      have hone := begun_beginCancel hc hcan (o id)
      exact lt_of_lt_of_le (hone ▸ Nat.lt_succ_self _) (mono ids _)
    have hview := view_beginCancel_ne (s := s) hj (o j)
    have hbegun : (nkvxCallBeginCancel s j (o j)).begun id = s.begun id :=
      congrArg (fun v => v.log.count .cancelBegun) hview
    rw [← hbegun]
    exact ih ((congrArg CallView.call hview).trans hc) ((mem_cons.mp hmem).resolve_left hj)

end Front

namespace Reactor

variable {s : Reactor} {f : Frame} {c : Call} {id : Nat}

lemma begun_tryComplete (s : Front) (id j : Nat) : (tryComplete s j).front.begun id = s.begun id := by
  unfold tryComplete
  split
  · rfl
  split_ifs
  · exact s.begun_joinOut id
  · exact s.begun_emit id nofun
  · rfl

lemma begun_fire (s : Front) (c : Completion) (id : Nat) : (fire s c).front.begun id = s.begun id := by
  cases c with
  | forward j ret output =>
    unfold fire
    dsimp only
    split_ifs
    · unfold forwardCb
      split
      · rfl
      dsimp only
      split_ifs
      · exact (begun_tryComplete _ id j).trans (Front.begun_noteDelivered _ id ret nofun)
      · exact (Front.begun_free _ id).trans
          ((Front.begun_releaseBoth _ id _).trans (Front.begun_noteDelivered _ id ret nofun))
      refine (Front.begun_emit (e := .tenant ..) _ id nofun).trans ?_
      exact Front.begun_noteDelivered (e := .responseDelivered) _ id ret nofun
    · rfl
  | ack j ret =>
    unfold fire
    dsimp only
    split_ifs
    · unfold ackCb
      split
      · rfl
      · exact (begun_tryComplete _ id j).trans (Front.begun_noteDelivered _ id ret nofun)
    · rfl
  | kv k ret output => exact congrArg (fun v => v.log.count .cancelBegun) (view_fire_kv s k ret output id)

lemma begun_failTurn (s : Front) (status : IoStatus) (cur : Option Nat) (id : Nat) :
    (failTurn s status cur).front.begun id = s.begun id := by
  unfold failTurn
  split
  · rfl
  split
  · rfl
  · exact s.begun_emit id nofun

lemma begun_resume (s : Front) (f : Frame) (id : Nat) : (resume s f).front.begun id = s.begun id := by
  cases f with
  | forward j => exact s.begun_forwardOut id
  | join j => exact s.begun_joinOut id
  | failAll j next status => exact (begun_failTurn _ status next id).trans (s.begun_failOut id)

/-- What the step `e` does with calls whose tenant callback was made: `nkvx_front_cancel` does not
find them, no cancel handshake begins on them, and Mercury owes no callback to a call that is freed.
-/
structure LeavesTerminal (s : Reactor) (e : ReactorEvent) : Prop where
  cancelMisses : ∀ token o, e = .call (.cancel token o) → s.Called token → (nkvxFrontCancel s.front token o).2 = false
  noHandshake : ∀ id, s.Called id → (s.step e).front.begun id = s.front.begun id
  noneOwed : ∀ id, id ∈ (s.step e).front.forwards ∨ id ∈ (s.step e).front.cancels → (s.step e).front.calls id ≠ none

lemma Inv.noneOwed (h : s.Inv) (hi : id ∈ s.front.forwards ∨ id ∈ s.front.cancels) : s.front.calls id ≠ none := by
  by_cases hr : s.Runs id
  · obtain ⟨f, hf, rfl⟩ := map_eq_some_iff.mp hr
    obtain ⟨c, hc⟩ := h.calling f hf
    have hl : s.front.calls f.id = some c := hc.call_eq
    exact hl ▸ nofun
  obtain ⟨c, hc, -⟩ := h.but.live hr (hi.imp_right .inl)
  exact hc ▸ nofun

variable {e : ReactorEvent}

lemma Inv.noHandshake (h : s.Inv) (hs : s.Spares e) (hl : s.Called id) :
    (s.step e).front.begun id = s.front.begun id := by
  cases e with
  | call c => exact congrArg (fun v => v.log.count .cancelBegun) (h.view_called hs hl)
  | fire c =>
    unfold Reactor.step
    split_ifs
    · exact begun_fire ..
    · rfl
  | failAll status =>
    unfold Reactor.step
    split_ifs
    · exact begun_failTurn ..
    · rfl
  | ret =>
    unfold Reactor.step
    cases s.frame with
    | none => rfl
    | some => exact begun_resume ..

lemma Inv.leavesTerminal (h : s.Inv) (hs : s.Spares e) : s.LeavesTerminal e where
  cancelMisses := by
    rintro token o rfl hl
    unfold nkvxFrontCancel
    split_ifs with hn hmem
    · rfl
    · exact absurd hmem (h.notMem_of_called hs hl)
    · rfl
  noHandshake _ := h.noHandshake hs
  noneOwed _ := (h.step hs).noneOwed

lemma Inv.mem_of_runs (h : s.Inv) (hf : s.frame = some f) : f.id ∈ s.front.inflight := by
  obtain ⟨c, hc⟩ := h.calling f hf
  have hone : s.front.inflight.count f.id = 1 := hc.listed_eq
  exact count_pos_iff.mp (by omega)

lemma Inv.spares (h : s.Inv) (hl : s.LeavesTerminal e) : s.Spares e := by
  cases e with
  | call t =>
    cases t with
    | cancel token o =>
      intro hr
      have hm := hl.cancelMisses token o rfl (h.called_runs hr)
      obtain ⟨f, hf, rfl⟩ := map_eq_some_iff.mp hr
      obtain ⟨c, hc⟩ := h.calling f hf
      have hn : f.id ≠ nkvxCallTokenNone := h.ne_zero hc.call_eq
      rw [nkvxFrontCancel, if_neg hn, if_pos (h.mem_of_runs hf)] at hm
      exact Bool.noConfusion hm
    | cancelAll o =>
      change (s.frame.bind fun f => s.front.calls f.id).all (·.cancelling) = true
      cases hf : s.frame with
      | none => rfl
      | some f =>
        obtain ⟨c, hc⟩ := h.calling f hf
        have hcl : s.front.calls f.id = some c := hc.call_eq
        cases hcan : c.cancelling with
        | true => simp [hcl, hcan]
        | false =>
          have hs := hl.noHandshake f.id (h.called_runs (runs_frame hf))
          exact absurd hs.symm (ne_of_lt (Front.begun_cancelAll (h.mem_of_runs hf) hcl hcan o))
    | forward input sink sinkLen dmabufFd o => trivial
    | kvForward input sink sinkLen o => trivial
  | fire c => trivial
  | failAll status => trivial
  | ret => trivial

lemma inv_init : (idle init).Inv := inv_idle Front.inv_init rfl

end Reactor

/-- In every run, whatever the tenant callbacks call: terminal calls are left alone exactly if no
tenant callback cancels its own call. -/
theorem terminal_calls_left_alone_iff (evs : List ReactorEvent) :
    Machine.Along Reactor.step Reactor.LeavesTerminal (Reactor.idle Front.init) evs ↔
      Machine.Along Reactor.step Reactor.Spares (Reactor.idle Front.init) evs :=
  Machine.along_iff_of_invariant Reactor.step Reactor.inv_init (fun _ _ h hs => h.step hs)
    fun _ _ h => ⟨h.spares, h.leavesTerminal⟩

def sampleCall : ReactorEvent := .call (.forward sampleExec (some 4096) 65536 (-1) ⟨true, true, true, true, true⟩)

def cancelsOther : List ReactorEvent :=
  [sampleCall, sampleCall, .fire (.forward 1 .success (some ⟨0, 0, none⟩)), .call (.cancel 2 ⟨true, true⟩), .ret,
    .fire (.forward 2 .canceled none), .fire (.ack 2 .success), .call (.cancelAll fun _ => ⟨true, true⟩), .ret]

theorem terminal_calls_left_alone_by_others :
    Machine.Along Reactor.step Reactor.Spares (Reactor.idle Front.init) cancelsOther ∧
      Machine.Along Reactor.step Reactor.LeavesTerminal (Reactor.idle Front.init) cancelsOther := by
  have hspares : Machine.Along Reactor.step Reactor.Spares (Reactor.idle init) cancelsOther := by decide
  exact ⟨hspares, (terminal_calls_left_alone_iff cancelsOther).mpr hspares⟩

def cancelsItself : List ReactorEvent :=
  [sampleCall, .fire (.forward 1 .success (some ⟨0, 0, none⟩)), .call (.cancel 1 ⟨true, true⟩), .ret]

/-- The call is still in flight during its callback: `nkvx_front_cancel` finds it and begins a
handshake, the call is freed with the `nkvx_cancel` pending, and the ack follows a pointer to the
freed call. -/
theorem own_cancel_pending_on_freed_call :
    (Reactor.after (cancelsItself.take 2)).Called 1 ∧
      (nkvxFrontCancel (Reactor.after (cancelsItself.take 2)).front 1 ⟨true, true⟩).2 = true ∧
      (Reactor.after (cancelsItself.take 3)).front.begun 1 = 1 ∧
      1 ∈ (Reactor.after cancelsItself).front.cancels ∧
        (Reactor.after cancelsItself).front.calls 1 = none ∧
      (Reactor.after (cancelsItself ++ [.fire (.ack 1 .success)])).front.fault = true ∧
      ¬Machine.Along Reactor.step Reactor.LeavesTerminal (Reactor.idle Front.init) cancelsItself :=
        by
  have hcalled : (Reactor.after (cancelsItself.take 2)).Called 1 := by
    unfold Reactor.Called
    decide
  refine ⟨hcalled, by decide, by decide, by decide, by decide, by decide, fun hall => ?_⟩
  have hms := hall.2.2.1.cancelMisses 1 ⟨true, true⟩ rfl hcalled
  exact absurd hms (by decide)

end RadosNkv
