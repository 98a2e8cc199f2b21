import RadosNkv.Front.CallView
import Mathlib.Data.List.Count

/-! The bookkeeping of Exec calls: each call of a front is pending, with its callbacks still owed to
it, or freed, with its tenant callback fired and its bulk handles given back. -/

namespace RadosNkv

open Prod

open Ledger List

@[simp] def CallEffect.isTenant : CallEffect → Bool
  | .tenant _ _ _ => true
  | _ => false

@[simp] def CallEffect.isSent : CallEffect → Bool
  | .execSent _ => true
  | _ => false

section

variable (log : List CallEffect)

def tenantCalls : Nat := log.countP CallEffect.isTenant

def frees : Nat := log.count .freed

def acquisitions (h : BulkHandle) : Nat := log.count (.acquired h)

def releases (h : BulkHandle) : Nat := log.count (.released h)

def accepted : Bool := log.any CallEffect.isSent

end

variable (e : CallEffect) (s : Front) (log : List CallEffect)

@[simp] lemma tenantCalls_cons : tenantCalls (e :: log) = tenantCalls log + if e.isTenant then 1 else 0 := countP_cons

@[simp] lemma accepted_cons : accepted (e :: log) = (e.isSent || accepted log) := rfl

@[simp] lemma frees_cons : frees (e :: log) = frees log + if e = .freed then 1 else 0 := by
  simp [frees, count_cons]

@[simp] lemma acquisitions_cons (h : BulkHandle) :
    acquisitions (e :: log) h = acquisitions log h + if e = .acquired h then 1 else 0 := by
  simp [acquisitions, count_cons]

@[simp] lemma releases_cons (h : BulkHandle) :
    releases (e :: log) h = releases log h + if e = .released h then 1 else 0 := by
  simp [releases, count_cons]

@[simp] def CallEffect.isNote : CallEffect → Bool
  | .cancelBegun | .cancelSent | .hgCancel | .responseDelivered | .ackDelivered => true
  | _ => false

namespace CallView

/-! ## Pending and freed calls -/

structure Owned (c : Call) (v : CallView) : Prop where
  listed : v.listed = if c.tenantDone then 0 else 1
  accepted : accepted v.log
  tenant : tenantCalls v.log = if c.tenantDone then 1 else 0
  frees : frees v.log = 0
  held : ∀ h, acquisitions v.log h = releases v.log h + c.held.count h
  failed : c.tenantDone → c.held = []

structure Live (c : Call) (v : CallView) : Prop extends Owned c v where
  call : v.call = some c
  detached : c.detached = c.tenantDone
  forwards : v.forwards = if c.forwardDone then 0 else 1
  cancels : v.cancels = if c.cancelling && !c.cancelAcked then 1 else 0
  forwardDone : c.forwardDone → c.cancelling
  cancelAcked : c.cancelAcked → c.cancelling

structure Gone (v : CallView) : Prop where
  call : v.call = none
  listed : v.listed = 0
  forwards : v.forwards = 0
  cancels : v.cancels = 0
  last : v.log.head? = some .freed
  frees : frees v.log = 1
  tenant : tenantCalls v.log = if RadosNkv.accepted v.log then 1 else 0
  balanced : ∀ h, acquisitions v.log h = releases v.log h

inductive Ok : CallView → Prop where
  | unborn : Ok unborn
  | live {c : Call} {v : CallView} (h : Live c v) (waiting : ¬(c.forwardDone ∧ c.cancelAcked)) : Ok v
  | gone {v : CallView} (h : Gone v) : Ok v

variable {v : CallView} {c : Call} (e : CallEffect)

@[simp] lemma emit_log : (v.emit e).log = e :: v.log := rfl
@[simp] lemma emit_listed : (v.emit e).listed = v.listed := rfl
@[simp] lemma emit_forwards : (v.emit e).forwards = v.forwards := rfl
@[simp] lemma emit_cancels : (v.emit e).cancels = v.cancels := rfl
@[simp] lemma popForward_log : v.popForward.log = v.log := rfl
@[simp] lemma popCancel_log : v.popCancel.log = v.log := rfl
@[simp] lemma unlink_log : v.unlink.log = v.log := rfl
@[simp] lemma unlink_forwards : v.unlink.forwards = v.forwards := rfl
@[simp] lemma unlink_cancels : v.unlink.cancels = v.cancels := rfl
@[simp] lemma unlink_listed : v.unlink.listed = v.listed - 1 := rfl

lemma releaseBoth_eq (v : CallView) (c : Call) :
    v.releaseBoth c = { v with log := (c.held.map .released).reverse ++ v.log } := by
  cases hi : c.inputBulk <;> cases hs : c.resultSink <;>
    simp [releaseBoth, release, emit, Call.held, hi, hs]

@[simp] lemma releaseBoth_listed : (v.releaseBoth c).listed = v.listed := by
  rw [releaseBoth_eq]

@[simp] lemma releaseBoth_forwards : (v.releaseBoth c).forwards = v.forwards := by
  rw [releaseBoth_eq]

@[simp] lemma releaseBoth_cancels : (v.releaseBoth c).cancels = v.cancels := by
  rw [releaseBoth_eq]

lemma releaseBoth_unlink : v.unlink.releaseBoth c = (v.releaseBoth c).unlink := by
  rw [releaseBoth_eq, releaseBoth_eq]
  rfl

@[simp] lemma tenantCalls_releaseBoth : tenantCalls (v.releaseBoth c).log = tenantCalls v.log := by
  simp [releaseBoth_eq, tenantCalls, countP_map, Function.comp_def]

@[simp] lemma accepted_releaseBoth : accepted (v.releaseBoth c).log = accepted v.log := by
  simp [releaseBoth_eq, accepted, any_map, Function.comp_def]

@[simp] lemma frees_releaseBoth : frees (v.releaseBoth c).log = frees v.log := by
  simp [releaseBoth_eq, frees, count_eq_zero]

@[simp] lemma acquisitions_releaseBoth (h : BulkHandle) :
    acquisitions (v.releaseBoth c).log h = acquisitions v.log h := by
  simp [releaseBoth_eq, acquisitions, count_eq_zero]

@[simp] lemma releases_releaseBoth (h : BulkHandle) :
    releases (v.releaseBoth c).log h = releases v.log h + c.held.count h := by
  have inj : Function.Injective CallEffect.released := fun a b e => by simpa using e
  simp [releaseBoth_eq, releases, count_map_of_injective _ _ inj, add_comm]

lemma Owned.note (h : Owned c v) {e : CallEffect} (he : e.isNote) : Owned c (v.emit e) := by
  obtain ⟨hl, ha, ht, hf, hh, hfl⟩ := h
  constructor <;> cases e <;> simp_all

lemma Owned.of_eq (h : Owned c v) {c' : Call} {v' : CallView} (hl : v'.listed = v.listed)
    (ho : v'.log = v.log) (ht : c'.tenantDone = c.tenantDone) (hh : c'.held = c.held) : Owned c' v' :=
  ⟨by rw [hl, ht]; exact h.listed, by rw [ho]; exact h.accepted,
    by rw [ho, ht]; exact h.tenant, by rw [ho]; exact h.frees,
    by rw [ho, hh]; exact h.held, by rw [ht, hh]; exact h.failed⟩

lemma gone_free (hl : v.listed = 0) (hf : v.forwards = 0) (hc : v.cancels = 0)
    (hr : frees v.log = 0) (ht : tenantCalls v.log = if accepted v.log then 1 else 0)
    (hb : ∀ h, acquisitions v.log h = releases v.log h) : Gone v.free := by
  refine ⟨rfl, hl, hf, hc, rfl, ?_, ?_, fun h => ?_⟩
  · simpa [free] using hr
  · simpa [free] using ht
  · simpa [free] using hb h

lemma Owned.gone_reap (h : Owned c v) (ht : c.tenantDone) (hf : v.forwards = 0)
    (hc : v.cancels = 0) : Gone (v.releaseBoth c).free := by
  refine gone_free ?_ (by simpa) (by simpa) (by simpa using h.frees) ?_ fun b => ?_
  · simpa [ht] using h.listed
  · simpa [h.accepted, ht] using h.tenant
  · simpa using h.held b

lemma Owned.gone_complete (h : Owned c v) (ht : c.tenantDone = false) (hf : v.forwards = 0)
    (hc : v.cancels = 0) (st : IoStatus) (n : Nat) (out : Option Bytes) :
    Gone (((v.emit (.tenant st n out)).releaseBoth c).unlink).free := by
  have hl : v.listed = 1 := by simpa [ht] using h.listed
  refine gone_free ?_ (by simpa) (by simpa) (by simpa using h.frees) ?_ fun b => ?_
  · simp [hl]
  · simpa [h.accepted, ht] using h.tenant
  · simpa using h.held b

lemma Live.ok_tryComplete (h : Live c v) : Ok v.tryComplete := by
  simp only [tryComplete, h.call]
  by_cases hj : c.cancelling && c.forwardDone && c.cancelAcked
  · simp only [hj, if_true]
    simp only [Bool.and_eq_true] at hj
    obtain ⟨⟨hc, hd⟩, ha⟩ := hj
    have hf : v.forwards = 0 := by simpa [hd] using h.forwards
    have hn : v.cancels = 0 := by simpa [hc, ha] using h.cancels
    rw [h.detached]
    by_cases ht : c.tenantDone
    · simp only [ht, if_true]
      exact .gone (h.gone_reap ht hf hn)
    simp only [ht]
    exact .gone (h.gone_complete (by simpa using ht) hf hn ..)
  simp only [hj]
  refine .live h fun hw => hj ?_
  simp [h.forwardDone hw.1, hw.1, hw.2]

variable (v) in
@[simp] lemma noteDelivered_fields (ret : HgReturn) (e : CallEffect) :
    (v.noteDelivered ret e).call = v.call ∧ (v.noteDelivered ret e).forwards = v.forwards ∧
      (v.noteDelivered ret e).cancels = v.cancels := by
  unfold noteDelivered
  split <;> exact ⟨rfl, rfl, rfl⟩

lemma Owned.noteDelivered (h : Owned c v) (ret : HgReturn) {e : CallEffect} (he : e.isNote) :
    Owned c (v.noteDelivered ret e) := by
  unfold CallView.noteDelivered
  split
  · exact h.note he
  · exact h

section

variable (h : Live c v)
include h

lemma Live.acked (hp : 0 < v.cancels) (ret : HgReturn) : Live { c with cancelHandle := none, cancelAcked := true }
      ((v.popCancel.noteDelivered ret .ackDelivered).put
        { c with cancelHandle := none, cancelAcked := true }) := by
  have hc := h.cancels
  have ht : c.cancelling ∧ c.cancelAcked = false := by
    by_contra hno
    simp_all
  have ho : Owned c v.popCancel := h.of_eq rfl rfl rfl rfl
  have hn := ho.noteDelivered ret (e := .ackDelivered) rfl
  obtain ⟨-, hf', -⟩ := v.popCancel.noteDelivered_fields ret .ackDelivered
  have hz : v.popCancel.cancels = 0 := by simp [popCancel, hc, ht.1, ht.2]
  exact ⟨hn.of_eq rfl rfl rfl rfl, rfl, h.detached, hf'.trans h.forwards,
    by simp [put, hz], h.forwardDone, fun _ => ht.1⟩

lemma Live.ok_ackCb (hp : 0 < v.cancels) (ret : HgReturn) : Ok (v.popCancel.ackCb ret) := by
  have hc : v.popCancel.call = some c := h.call
  simp only [ackCb, hc]
  exact (h.acked hp ret).ok_tryComplete

lemma Live.popForward (hp : 0 < v.forwards) (ret : HgReturn) :
    Owned c (v.popForward.noteDelivered ret .responseDelivered) ∧
      (v.popForward.noteDelivered ret .responseDelivered).forwards = 0 ∧
      (v.popForward.noteDelivered ret .responseDelivered).cancels = v.cancels := by
  have hf := h.forwards
  have hn : c.forwardDone = false := by
    by_contra hno
    simp_all
  have ho : Owned c v.popForward := h.of_eq rfl rfl rfl rfl
  obtain ⟨-, hf', hc'⟩ := v.popForward.noteDelivered_fields ret .responseDelivered
  have hz : v.popForward.forwards = 0 := by simp [CallView.popForward, hf, hn]
  exact ⟨ho.noteDelivered ret rfl, hf'.trans hz, hc'⟩

lemma Live.resolved (hp : 0 < v.forwards) (ha : c.cancelling) (ret : HgReturn) :
    Live { c with forwardDone := true, handle := none }
      ((v.popForward.noteDelivered ret .responseDelivered).put
        { c with forwardDone := true, handle := none }) := by
  obtain ⟨ho, hf, hc⟩ := h.popForward hp ret
  exact ⟨ho.of_eq rfl rfl rfl rfl, rfl, h.detached, hf, hc.trans h.cancels, fun _ => ha, h.cancelAcked⟩

lemma Live.ok_forwardCb (hp : 0 < v.forwards) (ret : HgReturn)
    (output : Option ExecOut) : Ok (v.popForward.forwardCb ret output) := by
  obtain ⟨ho, hf, hc⟩ := h.popForward hp ret
  have hl : v.popForward.call = some c := h.call
  simp only [forwardCb, hl]
  split_ifs with ha ht
  · exact (h.resolved hp ha ret).ok_tryComplete
  · exact .gone (ho.gone_reap ht hf (hc.trans (by simpa [ha] using h.cancels)))
  rw [releaseBoth_unlink]
  exact .gone (ho.gone_complete (by simpa using ht) hf
    (hc.trans (by simpa [ha] using h.cancels)) _ ..)

section

variable (hw : ¬(c.forwardDone ∧ c.cancelAcked))
include hw

lemma Live.ok_beginCancel (o : CancelOutcome) (ch : HgHandle) : Ok (v.beginCancel o ch) := by
  simp only [beginCancel, h.call]
  by_cases hc : c.cancelling
  · simp only [hc, if_true]
    exact .live h hw
  have hf : c.forwardDone = false := by
    by_contra hno
    exact hc (h.forwardDone (by simpa using hno))
  have ha : c.cancelAcked = false := by
    by_contra hno
    exact hc (h.cancelAcked (by simpa using hno))
  have hz : v.cancels = 0 := by simpa [hc] using h.cancels
  have hn : v.forwards = 1 := by simpa [hf] using h.forwards
  have hb : Owned c (v.emit .cancelBegun) := h.note rfl
  simp only [hc, if_false, Bool.false_eq_true]
  -- nothing on the wire, a sent `nkvx_cancel`, or one that could not be sent
  split_ifs
  · have ho := hb.note (e := .hgCancel) rfl
    refine .live (c := { c with cancelling := true, joinStatus := .aborted, cancelAcked := true })
      ⟨ho.of_eq rfl rfl rfl rfl, rfl, h.detached, ?_, ?_, fun _ => rfl, fun _ => rfl⟩ ?_
    · simp [put, hn, hf]
    · simp [put, hz]
    · simp [hf]
  · have ho := (hb.note (e := .cancelSent) rfl).note (e := .hgCancel) rfl
    refine .live
      (c := { c with cancelling := true, joinStatus := .aborted, cancelHandle := some ch })
      ⟨ho.of_eq rfl rfl rfl rfl, rfl, h.detached, ?_, ?_, fun _ => rfl, fun _ => rfl⟩ ?_
    · simp [put, forwardCancel, emit, hn, hf]
    · simp [put, forwardCancel, emit, hz, ha]
    · simp [hf]
  refine .live (c := { c with cancelling := true, joinStatus := .aborted, cancelAcked := true })
    ⟨hb.of_eq rfl rfl rfl rfl, rfl, h.detached, ?_, ?_, fun _ => rfl, fun _ => rfl⟩ ?_
  · simp [put, hn, hf]
  · simp [put, hz]
  · simp [hf]

lemma Live.ok_failed (ht : c.tenantDone = false)
    (st : IoStatus) (n : Nat) (out : Option Bytes) : Ok ((((v.emit (.tenant st n out)).releaseBoth c).unlink).put
      { c with tenantDone := true, inputBulk := none, resultSink := none, detached := true }) := by
  have hl : v.listed = 1 := by simpa [ht] using h.listed
  refine .live ⟨⟨?_, ?_, ?_, ?_, fun b => ?_, fun _ => rfl⟩, rfl, rfl, ?_, ?_, h.forwardDone, h.cancelAcked⟩ hw
  · simp [put, hl]
  · simpa [put] using h.accepted
  · simpa [put, ht] using h.tenant
  · simpa [put] using h.frees
  · simpa [put, Call.held] using h.held b
  · simpa [put] using h.forwards
  · simpa [put] using h.cancels

lemma Live.ok_failPending (ht : c.tenantDone = false) (status : IoStatus) : Ok (v.failPending status) := by
  simp only [failPending, h.call]
  exact h.ok_failed hw ht ..

end

end

lemma gone_refuse (a b : Option BulkHandle) : Gone (unborn.refuse a b) := by
  refine gone_free ?_ ?_ ?_ ?_ ?_ fun h => ?_
  all_goals cases a <;> cases b <;> simp [acquire, release, unborn]
  all_goals simp [frees, tenantCalls, accepted, acquisitions, releases]

lemma live_accept (hc : c.Fresh) (wire : ExecIn) : Live c (unborn.accept c wire) := by
  obtain ⟨ht, hn, hf, ha, hd, -⟩ := hc
  refine ⟨⟨?_, ?_, ?_, ?_, fun h => ?_, ?_⟩, rfl, ?_, ?_, ?_, ?_, ?_⟩
  all_goals
    simp_all [accept, forwardExec, put, link, unborn]
  all_goals cases hi : c.inputBulk <;> cases hs : c.resultSink <;>
    simp_all [acquire, Call.held, frees, tenantCalls, acquisitions, releases, count_cons, add_comm]

end CallView

@[ext] structure KvView where
  call : Option KvCall
  forwards : Nat
  log : List KvEffect

def Front.Rest.kvView (r : Front.Rest) (k : Nat) : KvView :=
  ⟨r.kvCalls k, r.kvForwards.count k, about r.kvLog k⟩

inductive KvView.Ok : KvView → Prop where
  | unborn : Ok ⟨none, 0, []⟩
  | pending (c : KvCall) (wire : KvIn) : Ok ⟨some c, 1, [.sent wire]⟩
  | refused : Ok ⟨none, 0, [.freed]⟩
  | finished (wire : KvIn) (st : IoStatus) (n : Nat) (out : Option Bytes) :
    Ok ⟨none, 0, [.freed, .done st n out, .sent wire]⟩

/-- How a base-verb submission ends: it returns an error and, if it allocated a call, freed it
again, or it returns 0 with the call's forward pending. -/
inductive KvSubmitted (s : Front) : Front × Except Errno Unit → Prop where
  | rejected (e : Errno) : KvSubmitted s (s, .error e)
  | refused (b : BulkCache) (h : HgHandle) (e : Errno) :
    KvSubmitted s ({ s with
      bulk := b
      nextHandle := h
      nextKvCall := s.nextKvCall + 1
      kvLog := (s.nextKvCall, .freed) :: s.kvLog }, .error e)
  | accepted (b : BulkCache) (h : HgHandle) (c : KvCall) (wire : KvIn) :
    KvSubmitted s ({ s with
      bulk := b
      nextHandle := h
      nextKvCall := s.nextKvCall + 1
      kvCalls := Function.update s.kvCalls s.nextKvCall (some c)
      kvForwards := s.nextKvCall :: s.kvForwards
      kvLog := (s.nextKvCall, .sent wire) :: s.kvLog }, .ok ())

lemma kvForward_submitted (input : KvIn) (sink : Option Nat) (sinkLen : Nat) (o : ForwardOutcome) :
    KvSubmitted s (nkvxFrontKvForward s input sink sinkLen o) := by
  unfold nkvxFrontKvForward
  split
  · exact .rejected _
  split
  · exact .rejected _
  dsimp only
  split
  · exact .refused _ s.nextHandle _
  split
  · exact .refused _ s.nextHandle _
  split
  · exact .refused _ s.nextHandle _
  split
  · exact .refused _ (s.nextHandle + 1) _
  · exact .accepted _ (s.nextHandle + 1) _ _

lemma view_kvForward (input : KvIn) (sink : Option Nat) (sinkLen : Nat) (o : ForwardOutcome) (id : Nat) :
    (nkvxFrontKvForward s input sink sinkLen o).1.view id = s.view id := by
  have sub := kvForward_submitted s input sink sinkLen o
  generalize nkvxFrontKvForward s input sink sinkLen o = r at sub
  cases sub <;> rfl

lemma view_fire_kv (k : Nat) (ret : HgReturn) (output : Option ExecOut) (id : Nat) :
    (fire s (.kv k ret output)).view id = s.view id := by
  simp only [fire]
  split
  · simp only [nkvxKvForwardCb]
    split <;> rfl
  · rfl

/-! ## Every state a front reaches -/

namespace Front

/-- What holds of the front whichever Exec calls are being worked on. -/
structure Kept (s : Front) : Prop where
  counted : s.nInflight = s.inflight.length
  unborn : ∀ id, s.nextCallId < id → s.view id = .unborn
  noFault : s.fault = false
  kvViews : ∀ k, (s.rest.kvView k).Ok
  kvUnborn : ∀ k, s.nextKvCall ≤ k → s.rest.kvView k = ⟨none, 0, []⟩

structure Inv (s : Front) : Prop extends Kept s where
  views : ∀ id, (s.view id).Ok

/-- The invariant, but for the views of the calls that are off. -/
structure InvBut (off : Nat → Prop) (s : Front) : Prop extends Kept s where
  views : ∀ id, ¬off id → (s.view id).Ok

variable {s s' : Front} {id : Nat} {off off' : Nat → Prop}

lemma inv_init : Inv init :=
  ⟨⟨rfl, fun _ _ => rfl, rfl, fun _ => .unborn, fun _ _ => rfl⟩, fun _ => .unborn⟩

lemma Inv.but (h : Inv s) (off : Nat → Prop) : InvBut off s :=
  ⟨h.toKept, fun id _ => h.views id⟩

lemma InvBut.inv (h : InvBut off s) (ho : ∀ id, ¬off id) : Inv s :=
  ⟨h.toKept, fun id => h.views id (ho id)⟩

lemma Inv.of_but (h : Inv s) (hb : ∀ off, InvBut off s → InvBut off s') : Inv s' :=
  (hb _ (h.but fun _ => False)).inv fun _ => not_false

lemma InvBut.live (h : InvBut off s) (hi : ¬off id) (hv : id ∈ s.forwards ∨ id ∈ s.cancels ∨ id ∈ s.inflight) :
    ∃ c, s.calls id = some c ∧ (s.view id).Live c ∧ ¬(c.forwardDone ∧ c.cancelAcked) := by
  have hp : 0 < (s.view id).forwards ∨ 0 < (s.view id).cancels ∨ 0 < (s.view id).listed :=
    hv.imp count_pos_iff.mpr (Or.imp count_pos_iff.mpr count_pos_iff.mpr)
  have ho := h.views id hi
  generalize hw : s.view id = w at ho hp
  cases ho with
  | unborn => simp [CallView.unborn] at hp
  | @live c _ hl ht =>
    refine ⟨c, ?_, hl, ht⟩
    rw [← hl.call, ← hw]
    rfl
  | gone hg => simp [hg.forwards, hg.cancels, hg.listed] at hp

lemma Inv.live (h : Inv s) (hv : id ∈ s.forwards ∨ id ∈ s.cancels ∨ id ∈ s.inflight) :
    ∃ c, s.calls id = some c ∧ (s.view id).Live c ∧ ¬(c.forwardDone ∧ c.cancelAcked) :=
  (h.but fun _ => False).live not_false hv

lemma InvBut.born (h : InvBut off s) (hc : s.calls id = some c) : id ≤ s.nextCallId := by
  by_contra hl
  have hv := h.unborn id (by omega)
  have : (s.view id).call = none := by rw [hv]; rfl
  exact absurd (hc.symm.trans this) (by simp)

lemma InvBut.act (h : InvBut off s) (hc : s.calls id = some c) (ha : Acts s s' id v)
    (hv : ¬off' id → v.Ok) (ho : ∀ j, j ≠ id → ¬off' j → ¬off j)
    (hq : s'.queue = s.queue ∨ id ∈ s.inflight) : InvBut off' s' := by
  have hn : s'.nextCallId = s.nextCallId := congrArg Rest.nextCallId ha.rest
  have hk : s'.nextKvCall = s.nextKvCall := congrArg Rest.nextKvCall ha.rest
  refine ⟨⟨?_, fun j hj => ?_, ?_, ?_, ?_⟩, fun j hj' => ?_⟩
  · have same : s'.queue = s.queue → s'.nInflight = s'.inflight.length := by
      intro hq
      have h1 : s'.inflight = s.inflight := congrArg fst hq
      have h2 : s'.nInflight = s.nInflight := congrArg snd hq
      rw [h1, h2, h.counted]
    rcases hq with hq | hm
    · exact same hq
    rcases ha.queue with hq | hq
    · exact same hq
    have h1 : s'.inflight = s.inflight.erase id := congrArg fst hq
    have h2 : s'.nInflight = s.nInflight - 1 := congrArg snd hq
    rw [h1, h2, h.counted, length_erase_of_mem hm]
  · have hl := h.born hc
    rw [hn] at hj
    rw [ha.other j (by omega)]
    exact h.unborn j hj
  · have : s'.fault = s.fault := congrArg Rest.fault ha.rest
    rw [this, h.noFault]
  · rw [ha.rest]
    exact h.kvViews
  · rw [ha.rest, hk]
    exact h.kvUnborn
  by_cases hj : j = id
  · rw [hj, ha.same]
    exact hv (hj ▸ hj')
  rw [ha.other j hj]
  exact h.views j (ho j hj hj')

lemma Inv.act (h : Inv s) (hc : s.calls id = some c) (ha : Acts s s' id v) (hv : v.Ok)
    (hq : s'.queue = s.queue ∨ id ∈ s.inflight) : Inv s' :=
  h.of_but fun _ hb => hb.act hc ha (fun _ => hv) (fun _ _ hj => hj) hq

lemma InvBut.next_notMem (h : InvBut off s) : s.nextCallId + 1 ∉ s.inflight := by
  have hu := h.unborn (s.nextCallId + 1) (by omega)
  have hl : s.inflight.count (s.nextCallId + 1) = 0 := congrArg CallView.listed hu
  simpa [count_eq_zero] using hl

lemma Inv.next_notMem (h : Inv s) : s.nextCallId + 1 ∉ s.inflight := (h.but fun _ => False).next_notMem

lemma InvBut.forward (h : InvBut off s) (input : ExecIn) (sink : Option Nat) (sinkLen : Nat)
    (dmabufFd : Int) (o : ForwardOutcome) : InvBut off (nkvxFrontForwardFull s input sink sinkLen dmabufFd o).1 := by
  have hu := h.unborn (s.nextCallId + 1) (by omega)
  have sub := forwardFull_submitted input sink sinkLen dmabufFd o h.next_notMem
  generalize nkvxFrontForwardFull s input sink sinkLen dmabufFd o = r at sub
  -- The new call gets a proper view; every other call keeps its own.
  have born : ∀ {s' : Front} {v : CallView}, v.Ok → s'.view (s.nextCallId + 1) = v →
      (∀ j, j ≠ s.nextCallId + 1 → s'.view j = s.view j) →
      s'.rest = { s.rest with nextCallId := s.nextCallId + 1 } →
      s'.nInflight = s'.inflight.length → InvBut off s' := by
    intro s' v ho same other rest counted
    have hn : s'.nextCallId = s.nextCallId + 1 := congrArg Rest.nextCallId rest
    have hf : s'.fault = s.fault := congrArg Rest.fault rest
    have hkv : s'.nextKvCall = s.nextKvCall := congrArg Rest.nextKvCall rest
    have hv : ∀ k, s'.rest.kvView k = s.rest.kvView k := fun k => by rw [rest]; rfl
    refine ⟨⟨counted, fun j hj => ?_, hf.trans h.noFault, fun k => hv k ▸ h.kvViews k,
      fun k hk => (hv k).trans (h.kvUnborn k (hkv ▸ hk))⟩, fun j hj' => ?_⟩
    · rw [other j (by omega)]
      exact h.unborn j (by omega)
    by_cases hj : j = s.nextCallId + 1
    · rw [hj, same]
      exact ho
    rw [other j hj]
    exact h.views j hj'
  cases sub with
  | rejected e => exact h
  | @refused s' e a b same other rest queue =>
    rw [hu] at same
    refine born (.gone (CallView.gone_refuse a b)) same other rest ?_
    have h1 : s'.inflight = s.inflight := congrArg fst queue
    have h2 : s'.nInflight = s.nInflight := congrArg snd queue
    rw [h1, h2, h.counted]
  | @accepted s' c wire fresh _ _ _ same other rest queue =>
    rw [hu] at same
    refine born (.live (CallView.live_accept fresh wire) ?_) same other rest ?_
    · simp [fresh.forwardDone]
    have h1 : s'.inflight = s.inflight ++ [s.nextCallId + 1] := congrArg fst queue
    have h2 : s'.nInflight = s.nInflight + 1 := congrArg snd queue
    rw [h1, h2, h.counted]
    simp

lemma Inv.forward (h : Inv s) (input : ExecIn) (sink : Option Nat) (sinkLen : Nat)
    (dmabufFd : Int) (o : ForwardOutcome) : Inv (nkvxFrontForwardFull s input sink sinkLen dmabufFd o).1 :=
  h.of_but fun _ hb => hb.forward input sink sinkLen dmabufFd o

lemma mem_inflight_of_live (hl : (s.view id).Live c) (ht : c.tenantDone = false) :
    id ∈ s.inflight := by
  have : s.inflight.count id = 1 := by
    have := hl.listed
    rwa [ht] at this
  exact count_pos_iff.mp (by omega)

lemma Inv.fire_forward (h : Inv s) (ret : HgReturn) (output : Option ExecOut) :
    Inv (fire s (.forward id ret output)) := by
  by_cases hm : id ∈ s.forwards
  · have hp : 0 < (s.view id).forwards := count_pos_iff.mpr hm
    obtain ⟨c, hc, hl, -⟩ := h.live (.inl hm)
    refine h.act hc (acts_fire_forward hc hm ret output) (hl.ok_forwardCb hp ret output) ?_
    by_cases ht : c.tenantDone
    · exact .inl (queue_fire_forward hc (hl.detached.trans ht) ht ret output)
    · exact .inr (mem_inflight_of_live hl (by simpa using ht))
  · simpa [fire, hm] using h

lemma Inv.fire_ack (h : Inv s) (ret : HgReturn) : Inv (fire s (.ack id ret)) := by
  by_cases hm : id ∈ s.cancels
  · have hp : 0 < (s.view id).cancels := count_pos_iff.mpr hm
    obtain ⟨c, hc, hl, -⟩ := h.live (.inr (.inl hm))
    refine h.act hc (acts_fire_ack hc hm ret) (hl.ok_ackCb hp ret) ?_
    by_cases ht : c.tenantDone
    · exact .inl (queue_fire_ack hc (hl.detached.trans ht) ret)
    · exact .inr (mem_inflight_of_live hl (by simpa using ht))
  · simpa [fire, hm] using h

lemma InvBut.beginCancel (h : InvBut off s) (hi : ¬off id) (hm : id ∈ s.inflight) (o : CancelOutcome) :
    InvBut off (nkvxCallBeginCancel s id o) := by
  obtain ⟨c, hc, hl, hw⟩ := h.live hi (.inr (.inr hm))
  exact h.act hc (acts_beginCancel hc o) (fun _ => hl.ok_beginCancel hw o _) (fun _ _ hj => hj)
    (.inl (queue_beginCancel s id o))

lemma Inv.beginCancel (h : Inv s) (hm : id ∈ s.inflight) (o : CancelOutcome) : Inv (nkvxCallBeginCancel s id o) :=
  ((h.but fun _ => False).beginCancel not_false hm o).inv fun _ => not_false

lemma cancelAll_induct {P : Front → Prop} {o : Nat → CancelOutcome} (h : P s)
    (ht : ∀ s' id, P s' → id ∈ s'.inflight → P (nkvxCallBeginCancel s' id (o id))) : P (nkvxFrontCancelAll s o) := by
  have walk : ∀ (ids : List Nat) (s' : Front), P s' → s'.inflight = s.inflight →
      (∀ id ∈ ids, id ∈ s.inflight) →
      P (ids.foldl (fun s id => nkvxCallBeginCancel s id (o id)) s') := by
    intro ids
    induction ids with
    | nil => exact fun s' hs' _ _ => hs'
    | cons id ids ih =>
      intro s' hs' hq hs
      have hi : id ∈ s'.inflight := hq ▸ hs id (by simp)
      refine ih _ (ht s' id hs' hi) ?_ fun j hj => hs j (by simp [hj])
      exact (congrArg fst (queue_beginCancel s' id (o id))).trans hq
  exact walk s.inflight s h rfl fun _ hi => hi

lemma Inv.cancelAll (h : Inv s) (o : Nat → CancelOutcome) : Inv (nkvxFrontCancelAll s o) :=
  cancelAll_induct h fun _ id hs' hi => hs'.beginCancel hi (o id)

lemma Inv.failPending (h : Inv s) (hm : id ∈ s.inflight) (status : IoStatus) : Inv (failPending status s id) ∧
      (RadosNkv.failPending status s id).inflight = s.inflight.erase id := by
  have hp : 0 < (s.view id).listed := count_pos_iff.mpr hm
  obtain ⟨c, hc, hl, hw⟩ := h.live (.inr (.inr hm))
  have ht : c.tenantDone = false := by
    by_contra hn
    have := hl.listed
    simp_all
  exact ⟨h.act hc (acts_failPending hc status) (hl.ok_failPending hw ht status) (.inr hm),
    congrArg fst (queue_failPending hc status)⟩

lemma Inv.failAll (h : Inv s) (status : IoStatus) :
    Inv (nkvxFrontFailAllPending s status) ∧ (nkvxFrontFailAllPending s status).inflight = [] := by
  -- Each turn removes the head of the list that is left to walk.
  have walk : ∀ (ids : List Nat) (s' : Front), Inv s' → s'.inflight = ids →
      Inv (ids.foldl (RadosNkv.failPending status) s') ∧
        (ids.foldl (RadosNkv.failPending status) s').inflight = [] := by
    intro ids
    induction ids with
    | nil => exact fun s' hs' hq => ⟨hs', hq⟩
    | cons id ids ih =>
      intro s' hs' hq
      have hm : id ∈ s'.inflight := by simp [hq]
      obtain ⟨hi, hq'⟩ := hs'.failPending hm status
      exact ih _ hi (by rw [hq', hq]; simp)
  exact walk s.inflight s h rfl

lemma InvBut.kvStep (h : InvBut off s) (k : Nat) (hv : ∀ id, s'.view id = s.view id)
    (hq : s'.queue = s.queue) (hn : s'.nextCallId = s.nextCallId) (hf : s'.fault = s.fault)
    (same : (s'.rest.kvView k).Ok) (other : ∀ j, j ≠ k → s'.rest.kvView j = s.rest.kvView j)
    (hk : k < s'.nextKvCall) (hm : s.nextKvCall ≤ s'.nextKvCall) : InvBut off s' := by
  have h1 : s'.inflight = s.inflight := congrArg fst hq
  have h2 : s'.nInflight = s.nInflight := congrArg snd hq
  refine ⟨⟨by rw [h1, h2, h.counted], fun id hi => (hv id).trans (h.unborn id (hn ▸ hi)),
    hf.trans h.noFault, fun j => ?_, fun j hj => ?_⟩, fun id hi => hv id ▸ h.views id hi⟩
  · by_cases hjk : j = k
    · exact hjk ▸ same
    · exact other j hjk ▸ h.kvViews j
  rw [other j (by omega)]
  exact h.kvUnborn j (by omega)

lemma Inv.kvPending (h : Inv s) (hm : k ∈ s.kvForwards) :
    ∃ c wire, s.rest.kvView k = ⟨some c, 1, [.sent wire]⟩ := by
  have hp : 0 < s.kvForwards.count k := count_pos_iff.mpr hm
  have ho := h.kvViews k
  have hc : (s.rest.kvView k).forwards = s.kvForwards.count k := rfl
  generalize s.rest.kvView k = w at ho hc
  cases ho with
  | pending c wire => exact ⟨c, wire, rfl⟩
  | _ => simp only at hc; omega

lemma Inv.fire_kv (h : Inv s) (k : Nat) (ret : HgReturn) (output : Option ExecOut) :
    Inv (fire s (.kv k ret output)) := by
  by_cases hm : k ∈ s.kvForwards
  · obtain ⟨c, wire, hw⟩ := h.kvPending hm
    have hc : s.kvCalls k = some c := congrArg KvView.call hw
    have ho : s.kvForwards.count k = 1 := congrArg KvView.forwards hw
    have hl : about s.kvLog k = [.sent wire] := congrArg KvView.log hw
    have ht : k < s.nextKvCall := by
      by_contra hg
      rw [h.kvUnborn k (by omega)] at hw
      cases hw
    simp only [fire, hm, if_true, nkvxKvForwardCb, hc]
    refine h.of_but fun off hb => hb.kvStep k (fun _ => rfl) rfl rfl rfl ?_ (fun j hj => ?_) ht (le_rfl)
    · simp only [rest, Rest.kvView, Function.update_self, count_erase_self, ho, about_cons_self, hl]
      exact .finished ..
    · simp [rest, Rest.kvView, hj, count_erase_of_ne hj, about_cons_ne (Ne.symm hj)]
  · simpa [fire, hm] using h

lemma InvBut.kvForward (h : InvBut off s) (input : KvIn) (sink : Option Nat) (sinkLen : Nat)
    (o : ForwardOutcome) : InvBut off (nkvxFrontKvForward s input sink sinkLen o).1 := by
  have hu := h.kvUnborn s.nextKvCall (le_rfl)
  have hz : s.kvForwards.count s.nextKvCall = 0 := congrArg KvView.forwards hu
  have hn : s.kvCalls s.nextKvCall = none := congrArg KvView.call hu
  have hi : about s.kvLog s.nextKvCall = [] := congrArg KvView.log hu
  have sub := kvForward_submitted s input sink sinkLen o
  generalize nkvxFrontKvForward s input sink sinkLen o = r at sub
  cases sub with
  | rejected e => exact h
  | refused b hd e =>
    refine h.kvStep s.nextKvCall (fun _ => rfl) rfl rfl rfl ?_ (fun j hj => ?_)
      (Nat.lt_succ_self _) (Nat.le_succ _)
    · simp only [rest, Rest.kvView, hn, hz, about_cons_self, hi]
      exact .refused
    · simp [rest, Rest.kvView, about_cons_ne (Ne.symm hj)]
  | accepted b hd c wire =>
    refine h.kvStep s.nextKvCall (fun _ => rfl) rfl rfl rfl ?_ (fun j hj => ?_)
      (Nat.lt_succ_self _) (Nat.le_succ _)
    · simp only [rest, Rest.kvView, Function.update_self, count_cons_self, hz, about_cons_self, hi]
      exact .pending ..
    · simp [rest, Rest.kvView, hj, Ne.symm hj, about_cons_ne (Ne.symm hj)]

lemma Inv.kvForward (h : Inv s) (input : KvIn) (sink : Option Nat) (sinkLen : Nat)
    (o : ForwardOutcome) : Inv (nkvxFrontKvForward s input sink sinkLen o).1 :=
  h.of_but fun _ hb => hb.kvForward input sink sinkLen o

lemma Inv.step (h : Inv s) (e : FrontEvent) : Inv (s.step e) := by
  cases e with
  | forward => exact h.forward ..
  | kvForward => exact h.kvForward ..
  | cancel token o =>
    simp only [Front.step, nkvxFrontCancel]
    split_ifs with hn hm
    · exact h
    · exact h.beginCancel hm o
    · exact h
  | cancelAll o => exact h.cancelAll o
  | failAll status => exact (h.failAll status).1
  | fire c =>
    cases c with
    | forward => exact h.fire_forward ..
    | ack id ret => exact h.fire_ack ret
    | kv => exact h.fire_kv ..

lemma inv_after (evs : List FrontEvent) : Inv (after evs) :=
  Machine.run_induct Front.step inv_init (fun _ e h => h.step e) evs

end Front

namespace Front

def callLog (s : Front) (id : Nat) : List CallEffect := about s.log id

def owed (s : Front) (id : Nat) : Nat := s.forwards.count id + s.cancels.count id

/-- The bookkeeping of Exec calls. -/
structure Bookkept (s : Front) : Prop where
  noUseAfterFree : s.fault = false
  counted : s.nInflight = s.inflight.length
  tenantAtMostOnce : ∀ id, tenantCalls (s.callLog id) ≤ if accepted (s.callLog id) then 1 else 0
  freedAtMostOnce : ∀ id, frees (s.callLog id) ≤ 1
  releasedAtMostOnce : ∀ id h, releases (s.callLog id) h ≤ acquisitions (s.callLog id) h
  freedAfterCallbacks : ∀ id, .freed ∈ s.callLog id →
    s.owed id = 0 ∧ (s.callLog id).head? = some .freed
  settled : ∀ id, s.callLog id ≠ [] → s.owed id = 0 →
    tenantCalls (s.callLog id) = (if accepted (s.callLog id) then 1 else 0) ∧
    frees (s.callLog id) = 1 ∧
    ∀ h, releases (s.callLog id) h = acquisitions (s.callLog id) h

end Front

namespace CallView

lemma Live.waits (h : Live c v) (hw : ¬(c.forwardDone ∧ c.cancelAcked)) : v.forwards + v.cancels ≠ 0 := by
  have hf := h.forwards
  have hc := h.cancels
  cases hd : c.forwardDone
  · simp [hf, hd]
  cases ha : c.cancelAcked
  · simp [hc, ha, h.forwardDone hd]
  · exact absurd ⟨hd, ha⟩ hw

lemma Ok.tenant_le (h : Ok v) : tenantCalls v.log ≤ if accepted v.log then 1 else 0 := by
  cases h with
  | unborn => simp [CallView.unborn, tenantCalls]
  | live hl _ =>
    rw [hl.tenant, hl.accepted]
    split <;> simp
  | gone hg => exact le_of_eq hg.tenant

lemma Ok.frees_le (h : Ok v) : frees v.log ≤ 1 := by
  cases h with
  | unborn => simp [CallView.unborn, frees]
  | live hl _ => simp [hl.frees]
  | gone hg => exact le_of_eq hg.frees

lemma Ok.releases_le (h : Ok v) (b : BulkHandle) : releases v.log b ≤ acquisitions v.log b := by
  cases h with
  | unborn => simp [CallView.unborn, releases]
  | live hl _ =>
    have := hl.held b
    omega
  | gone hg => exact le_of_eq (hg.balanced b).symm

lemma Ok.freed (h : Ok v) (hf : .freed ∈ v.log) : v.forwards + v.cancels = 0 ∧ v.log.head? = some .freed := by
  cases h with
  | unborn => simp [CallView.unborn] at hf
  | live hl _ =>
    have : 0 < frees v.log := count_pos_iff.mpr hf
    rw [hl.frees] at this
    omega
  | gone hg => exact ⟨by rw [hg.forwards, hg.cancels], hg.last⟩

lemma Ok.settled (h : Ok v) (hn : v.log ≠ []) (hz : v.forwards + v.cancels = 0) :
    tenantCalls v.log = (if accepted v.log then 1 else 0) ∧ frees v.log = 1 ∧
      ∀ b, releases v.log b = acquisitions v.log b := by
  cases h with
  | unborn => exact absurd rfl hn
  | live hl hw => exact absurd hz (hl.waits hw)
  | gone hg => exact ⟨hg.tenant, hg.frees, fun b => (hg.balanced b).symm⟩

end CallView

lemma Front.Inv.bookkept {s : Front} (h : s.Inv) : s.Bookkept where
  noUseAfterFree := h.noFault
  counted := h.counted
  tenantAtMostOnce id := (h.views id).tenant_le
  freedAtMostOnce id := (h.views id).frees_le
  releasedAtMostOnce id := (h.views id).releases_le
  freedAfterCallbacks id := (h.views id).freed
  settled id := (h.views id).settled

/-- In every interleaving of submissions, completions, acks, cancels and forced failures, the tenant
callback of each accepted call fires exactly once, each call is freed exactly once and after the
last of its callbacks, each bulk handle is released once for each time it was acquired, and no freed
call is touched. -/
theorem front_calls_bookkept (evs : List FrontEvent) : (Front.after evs).Bookkept :=
  (Front.inv_after evs).bookkept

end RadosNkv
