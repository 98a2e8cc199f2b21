import RadosNkv.Service.Fades
import RadosNkv.TwoTier.CallSafety

/-! The two tiers together: any number of fronts and one executor service, connected by the messages
they send. -/

namespace RadosNkv

open Function Service

open Ledger List

def Service.respondedTo (s : Service) (f : HgAddr) (id : Nat) : Bool :=
  s.log.any fun x =>
    match x.2 with
    | .arrived origin input =>
      origin == f && input.clientCallId == id && (about s.log x.1).any ReqEffect.isResponse
    | _ => false

def Service.ackedTo (s : Service) (f : HgAddr) (id : Nat) : Bool :=
  s.acks.any fun x => x.2.origin == f && x.2.callId == id

structure Joint where
  fronts : HgAddr → Front
  svc : Service
  execs : List (HgAddr × Nat)
  cancels : List (HgAddr × Nat)

inductive JointEvent where
  | front (f : HgAddr) (e : FrontEvent)
  | exec (f : HgAddr) (id : Nat) (wire : ExecIn) (decoded : Bool) (o : ServeOutcome)
  | cancel (f : HgAddr) (id : Nat) (decoded : Bool) (ret : HgReturn)
  | complete (op : BulkOp) (r : Nat) (ret : HgReturn) (o : ServeOutcome)
  | tick (o : Nat → ServeOutcome)

namespace Joint

def init (executor : Bool) (pushStall pullStall : Nat) : Joint :=
  { fronts := fun _ => Front.init, svc := Service.init executor pushStall pullStall, execs := [],
    cancels := [] }

def step (j : Joint) : JointEvent → Joint
  | .front f e => { j with fronts := Function.update j.fronts f ((j.fronts f).step e) }
  | .exec f id wire decoded o =>
    { j with
      svc := j.svc.step (.exec f (if decoded then some wire else none) o)
      execs := (f, id) :: j.execs }
  | .cancel f id decoded ret =>
    { j with
      svc := j.svc.step (.cancel f (if decoded then some id else none) ret)
      cancels := (f, id) :: j.cancels }
  | .complete op r ret o => { j with svc := j.svc.step (.complete op r ret o) }
  | .tick o => { j with svc := j.svc.step (.tick o) }

def MayForward (j : Joint) (f : HgAddr) (id : Nat) (ret : HgReturn) : Prop :=
  .hgCancel ∈ (j.fronts f).callLog id ∨ ret = .success ∧ j.svc.respondedTo f id = true

/-- When an event can happen. -/
def Enabled (j : Joint) : JointEvent → Prop
  | .front f (.fire (.forward id ret _)) => j.MayForward f id ret
  | .front f (.fire (.ack id ret)) => ret = .success ∧ j.svc.ackedTo f id = true
  | .front _ (.failAll _) => False
  | .front _ _ => True
  | .exec f id wire _ _ =>
    .execSent wire ∈ (j.fronts f).callLog id ∧
      j.execs.count (f, id) < ((j.fronts f).callLog id).countP CallEffect.isSent
  | .cancel f id _ _ =>
    (f, id) ∈ j.execs ∧ j.cancels.count (f, id) < ((j.fronts f).callLog id).count .cancelSent
  | .complete .. => True
  | .tick _ => True

def Closed (j : Joint) (f : HgAddr) (id : Nat) : Prop :=
  (f, id) ∈ j.execs ∧ ∀ r q, j.svc.reqs r = some q → q.origin = f → q.callId ≠ id

/-- What ties the fronts' calls, the messages and the service's requests together. -/
structure Links (j : Joint) : Prop where
  /-- A live request is known by its arrival. -/
  known : ∀ r q, j.svc.reqs r = some q →
    ∃ input, .arrived q.origin input ∈ (j.svc.view r).log ∧ input.clientCallId = q.callId
  /-- A request comes from an `nkvx_exec` that was handled, and no other request does. -/
  arrived : ∀ r f input, .arrived f input ∈ (j.svc.view r).log → (f, input.clientCallId) ∈ j.execs
  unique : ∀ r r' f input input', .arrived f input ∈ (j.svc.view r).log →
    .arrived f input' ∈ (j.svc.view r').log → input.clientCallId = input'.clientCallId → r = r'
  stashed : ∀ r q, j.svc.reqs r = some q → q.cancelHandle ≠ none → (q.origin, q.callId) ∈ j.cancels
  acked : ∀ h a, (h, a) ∈ j.svc.acks → j.Closed a.origin a.callId
  safe : ∀ f, (j.fronts f).Safe (fun id => (f, id) ∈ j.execs) (fun id => j.Closed f id)

structure Inv (j : Joint) : Prop where
  svc : j.svc.Inv
  traced : ∀ f, (j.fronts f).TracedInv
  links : j.Links

variable {j j' : Joint} {f : HgAddr} {id : Nat}

lemma inv_init (executor : Bool) (pushStall pullStall : Nat) : (init executor pushStall pullStall).Inv where
  svc := Service.inv_init executor pushStall pullStall
  traced _ := Front.tracedInv_init
  links :=
    { known := fun _ _ hq => by simp [init, Service.init] at hq
      arrived := fun _ _ _ hm => by simp [init, Service.init, view] at hm
      unique := fun _ _ _ _ _ hm => by simp [init, Service.init, view] at hm
      stashed := fun _ _ hq => by simp [init, Service.init] at hq
      acked := fun _ _ hm => by simp [init, Service.init] at hm
      safe := fun _ _ => CallView.safe_unborn (by simp [init]) }

lemma Links.handled (h : j.Links) (hq : j.svc.reqs r = some q) :
    (q.origin, q.callId) ∈ j.execs := by
  obtain ⟨input, hm, hi⟩ := h.known r q hq
  exact hi ▸ h.arrived r q.origin input hm

lemma Links.sole (h : j.Links) (hq : j.svc.reqs r = some q) (hq' : j.svc.reqs r' = some q')
    (ho : q'.origin = q.origin) (hd : q'.callId = q.callId) : r' = r := by
  obtain ⟨input, hm, hi⟩ := h.known r q hq
  obtain ⟨input', hm', hi'⟩ := h.known r' q' hq'
  rw [ho] at hm'
  exact h.unique r' r q.origin input' input hm' hm (by rw [hi', hi, hd])

lemma Inv.closed_of_responded (h : j.Inv) (hr : j.svc.respondedTo f id = true) : j.Closed f id := by
  obtain ⟨⟨r, e⟩, hm, he⟩ := any_eq_true.mp hr
  cases e with
  | arrived origin input =>
    simp only [Bool.and_eq_true, beq_iff_eq] at he
    obtain ⟨⟨rfl, rfl⟩, hs⟩ := he
    have ha := mem_about.mpr hm
    refine ⟨h.links.arrived r origin input ha, fun r' q hq ho hi => ?_⟩
    obtain ⟨input', hm', hi'⟩ := h.links.known r' q hq
    rw [ho] at hm'
    have hrr := h.links.unique r' r origin input' input hm' ha (hi'.trans hi)
    subst hrr
    -- the ledger of a live request holds no response
    obtain ⟨-, p, q', hl⟩ := h.svc.registered (h.svc.mem_inflight hq)
    obtain ⟨e, hme, hs⟩ := any_eq_true.mp hs
    have hsl := hl.trace.silent e hme
    cases e <;> simp_all [ReqEffect.isResponse, ReqEffect.isFinal]
  | _ => simp at he

lemma Links.closed_of_acked (h : j.Links) (ha : j.svc.ackedTo f id = true) : j.Closed f id := by
  obtain ⟨⟨hd, a⟩, hm, he⟩ := any_eq_true.mp ha
  simp only [Bool.and_eq_true, beq_iff_eq] at he
  obtain ⟨rfl, rfl⟩ := he
  exact h.acked hd a hm

lemma Links.fades (h : j.Links) (hf : j.svc.Fades s') : { j with svc := s' }.Links := by
  have hl : ∀ f id, j.Closed f id → { j with svc := s' }.Closed f id := by
    rintro f id ⟨hm, hno⟩
    refine ⟨hm, fun r q hq ho hi => ?_⟩
    obtain ⟨q1, hq1, hk⟩ := hf.reqs r q hq
    exact hno r q1 hq1 (hk.origin.symm.trans ho) (hk.callId.symm.trans hi)
  refine ⟨fun r q hq => ?_, fun r f input hm => ?_, fun r r' f input input' hm hm' => ?_,
    fun r q hq hc => ?_, fun hd a hm => ?_, fun f id => ?_⟩
  · obtain ⟨q1, hq1, hk⟩ := hf.reqs r q hq
    obtain ⟨input, hm, hi⟩ := h.known r q1 hq1
    refine ⟨input, (hf.arrivals r _ input).mpr (hk.origin ▸ hm), hi.trans hk.callId.symm⟩
  · exact h.arrived r f input ((hf.arrivals r f input).mp hm)
  · exact h.unique r r' f input input' ((hf.arrivals r f input).mp hm)
      ((hf.arrivals r' f input').mp hm')
  · obtain ⟨q1, hq1, hk⟩ := hf.reqs r q hq
    rw [hk.origin, hk.callId]
    exact h.stashed r q1 hq1 (hk.cancelHandle ▸ hc)
  · rcases hf.acks hd a hm with hm | ⟨r, q, hq, ho, hi, hn⟩
    · exact hl _ _ (h.acked hd a hm)
    refine ⟨by rw [← ho, ← hi]; exact h.handled hq, fun r' q' hq' ho' hi' => ?_⟩
    -- the request that was acked was the only one of its key
    obtain ⟨q1, hq1, hk⟩ := hf.reqs r' q' hq'
    have hr := h.sole hq hq1 (by rw [← hk.origin, ho', ho]) (by rw [← hk.callId, hi', hi])
    rw [hr, hn] at hq'
    cases hq'
  · exact (h.safe f id).mono (h.safe f id).sent (hl f id)

lemma Links.receive (h : j.Links) (hi : j.svc.Inv) {wire : ExecIn} (hn : (f, id) ∉ j.execs)
    (hw : wire.clientCallId = id) (hsn : .execSent wire ∈ (j.fronts f).callLog id) :
    { j with svc := j.svc.receive f wire, execs := (f, id) :: j.execs }.Links := by
  have hs := view_receive_same hi f wire
  have hre : (j.svc.receive f wire).reqs j.svc.nextReq =
      some { j.svc.newReq f wire with registered := true } := congrArg ReqView.req hs
  have hne : ∀ r, r ≠ j.svc.nextReq → (j.svc.receive f wire).view r = j.svc.view r :=
    fun r hr => view_receive_ne f wire hr
  have hrq : ∀ r, r ≠ j.svc.nextReq → (j.svc.receive f wire).reqs r = j.svc.reqs r :=
    fun r hr => congrArg ReqView.req (hne r hr)
  -- an arrival is the new one or an old one
  have ha : ∀ r f' input, .arrived f' input ∈ ((j.svc.receive f wire).view r).log →
      (r = j.svc.nextReq ∧ f' = f ∧ input = wire) ∨
        (r ≠ j.svc.nextReq ∧ .arrived f' input ∈ (j.svc.view r).log) := by
    intro r f' input hm
    by_cases hr : r = j.svc.nextReq
    · subst hr
      rw [hs] at hm
      have : f' = f ∧ input = wire := by simpa using hm
      exact .inl ⟨rfl, this⟩
    rw [hne r hr] at hm
    exact .inr ⟨hr, hm⟩
  have hl : ∀ f' id', j.Closed f' id' →
      { j with svc := j.svc.receive f wire, execs := (f, id) :: j.execs }.Closed f' id' := by
    rintro f' id' ⟨hm, hno⟩
    refine ⟨mem_cons_of_mem _ hm, fun r q hq ho hid => ?_⟩
    by_cases hr : r = j.svc.nextReq
    · subst hr
      cases hre.symm.trans hq
      have ho : f = f' := ho
      have hid : wire.clientCallId = id' := hid
      exact hn (by rw [ho, ← hw, hid]; exact hm)
    · exact hno r q ((hrq r hr).symm.trans hq) ho hid
  refine ⟨fun r q hq => ?_, fun r f' input hm => ?_, fun r r' f' input input' hm hm' he => ?_,
    fun r q hq hc => ?_, fun hd a hm => hl _ _ (h.acked hd a hm), fun f' id' => ?_⟩
  · by_cases hr : r = j.svc.nextReq
    · subst hr
      cases hre.symm.trans hq
      change ∃ input, .arrived f input ∈ ((j.svc.receive f wire).view j.svc.nextReq).log ∧ _
      rw [hs]
      exact ⟨wire, by simp, rfl⟩
    obtain ⟨input, hm, hid⟩ := h.known r q ((hrq r hr).symm.trans hq)
    refine ⟨input, ?_, hid⟩
    change .arrived q.origin input ∈ ((j.svc.receive f wire).view r).log
    rw [hne r hr]
    exact hm
  · rcases ha r f' input hm with ⟨-, rfl, rfl⟩ | ⟨-, hm⟩
    · exact mem_cons.mpr (.inl (by rw [hw]))
    · exact mem_cons_of_mem _ (h.arrived r f' input hm)
  · rcases ha r f' input hm with ⟨hr, hf, hin⟩ | ⟨-, hold⟩ <;>
      rcases ha r' f' input' hm' with ⟨hr', hf', hin'⟩ | ⟨-, hold'⟩
    · rw [hr, hr']
    · exact absurd (h.arrived r' f' input' hold') (by rw [← he, hin, hw, hf]; exact hn)
    · exact absurd (h.arrived r f' input hold) (by rw [he, hin', hw, hf']; exact hn)
    · exact h.unique r r' f' input input' hold hold' he
  · by_cases hr : r = j.svc.nextReq
    · subst hr
      cases hre.symm.trans hq
      exact absurd rfl hc
    · exact h.stashed r q ((hrq r hr).symm.trans hq) hc
  refine (h.safe f' id').mono (fun hm => ?_) (hl f' id')
  rcases mem_cons.mp hm with he | hm
  · cases he
    exact ⟨wire, hsn⟩
  · exact (h.safe f' id').sent hm

lemma Links.drop (h : j.Links) (hs : ∃ wire, .execSent wire ∈ (j.fronts f).callLog id) :
    { j with execs := (f, id) :: j.execs }.Links := by
  have hl : ∀ f' id', j.Closed f' id' →
      { j with execs := (f, id) :: j.execs }.Closed f' id' :=
    fun f' id' hc => ⟨mem_cons_of_mem _ hc.1, hc.2⟩
  refine ⟨h.known, fun r f' input hm => mem_cons_of_mem _ (h.arrived r f' input hm), h.unique,
    h.stashed, fun hd a hm => hl _ _ (h.acked hd a hm), fun f' id' => ?_⟩
  refine (h.safe f' id').mono (fun hm => ?_) (hl f' id')
  rcases mem_cons.mp hm with he | hm
  · cases he
    exact hs
  · exact (h.safe f' id').sent hm

lemma Links.cancels (h : j.Links) (hi : j.svc.Inv) (hx : (f, id) ∈ j.execs)
    (hne : (f, id) ∉ j.cancels) (hs : Cancels j.svc f id s') :
    { j with svc := s', cancels := (f, id) :: j.cancels }.Links := by
  have hme := fun r q (hq : j.svc.reqs r = some q) hc => mem_cons_of_mem (f, id) (h.stashed r q hq hc)
  cases hs with
  | unknown hr =>
    have hn := find?_eq_none.mp hr
    refine ⟨h.known, h.arrived, h.unique, hme, fun hd a hm => ?_, h.safe⟩
    rcases mem_cons.mp hm with he | hm
    · cases he
      refine ⟨hx, fun r q hq ho hid => ?_⟩
      exact hn r (hi.mem_inflight hq) (hasKey_iff.mpr ⟨q, hq, ho, hid⟩)
    · exact h.acked hd a hm
  | duplicate hr hq hc =>
    obtain ⟨-, q', hq', ho, hid⟩ := regLookup_some hr
    cases hq.symm.trans hq'
    exact absurd (ho ▸ hid ▸ h.stashed _ _ hq hc) hne
  | @stashed r q d hr hq hc hd =>
    obtain ⟨-, q', hq', ho, hid⟩ := regLookup_some hr
    cases hq.symm.trans hq'
    generalize hs' : ({ j.svc with nextHandle := j.svc.nextHandle + 1 }.emit r
      (.cancelStashed j.svc.nextHandle)).put r
        { q with cancelHandle := some j.svc.nextHandle, doNotPush := d } = s'
    -- the stash moves no request to another key, and is neither an arrival nor an ack
    have hb : ∀ i qi, s'.reqs i = some qi → ∃ qi', j.svc.reqs i = some qi' ∧
        qi.origin = qi'.origin ∧ qi.callId = qi'.callId ∧ (i ≠ r → qi = qi') := by
      intro i qi hqi
      subst hs'
      exact reqs_update_back hq hqi rfl rfl
    have ha : ∀ i f' input, .arrived f' input ∈ (s'.view i).log ↔
        .arrived f' input ∈ (j.svc.view i).log := by
      intro i f' input
      subst hs'
      exact (fades_emit _ r (by simp)).arrivals i f' input
    have hac : s'.acks = j.svc.acks := by subst hs'; rfl
    have hl : ∀ f' id', j.Closed f' id' →
        { j with svc := s', cancels := (f, id) :: j.cancels }.Closed f' id' := by
      rintro f' id' ⟨hm, hno⟩
      refine ⟨hm, fun i qi hqi ho' hid' => ?_⟩
      obtain ⟨qi', hqi', ho1, hid1, -⟩ := hb i qi hqi
      exact hno i qi' hqi' (ho1.symm.trans ho') (hid1.symm.trans hid')
    refine ⟨fun i qi hqi => ?_, fun i f' input hm => h.arrived i f' input ((ha i f' input).mp hm),
      fun i i' f' input input' hm hm' =>
        h.unique i i' f' input input' ((ha i f' input).mp hm) ((ha i' f' input').mp hm'),
      fun i qi hqi hci => ?_, fun hd' a hm => hl _ _ (h.acked hd' a (hac ▸ hm)),
      fun f' id' => (h.safe f' id').mono (h.safe f' id').sent (hl f' id')⟩
    · obtain ⟨qi', hqi', ho1, hid1, -⟩ := hb i qi hqi
      obtain ⟨input, hm, hin⟩ := h.known i qi' hqi'
      exact ⟨input, (ha i _ input).mpr (ho1 ▸ hm), hin.trans hid1.symm⟩
    obtain ⟨qi', hqi', ho1, hid1, hsm⟩ := hb i qi hqi
    by_cases hir : i = r
    · subst hir
      cases hq.symm.trans hqi'
      rw [ho1, hid1, ho, hid]
      exact mem_cons_self
    rw [hsm hir] at hci ⊢
    exact hme i qi' hqi' hci

lemma Inv.prompted (h : j.Inv) (he : j.Enabled (.front f e)) :
    (j.fronts f).Prompted (fun id => j.Closed f id) e := by
  cases e with
  | fire c =>
    cases c with
    | forward id ret output =>
      rcases he with hg | ⟨-, hr⟩
      · exact .inl hg
      · exact .inr (h.closed_of_responded hr)
    | ack id ret => exact h.links.closed_of_acked he.2
    | kv => trivial
  | failAll => exact he
  | _ => trivial

lemma Inv.front (h : j.Inv) (he : j.Enabled (.front f e)) : (j.step (.front f e)).Inv := by
  have hp := h.prompted he
  refine ⟨h.svc, fun f' => ?_, { h.links with safe := fun f' => ?_ }⟩
  · change (update j.fronts f _ f').TracedInv
    by_cases hf : f' = f
    · subst hf
      rw [update_self]
      exact (Front.decides_step (h.traced f') e fun st he => by subst he; exact hp).1
    rw [update_of_ne hf]
    exact h.traced f'
  change (update j.fronts f _ f').Safe _ _
  by_cases hf : f' = f
  · subst hf
    rw [update_self]
    exact (h.links.safe f').step (h.traced f') hp
  rw [update_of_ne hf]
  exact h.links.safe f'

lemma Inv.exec (h : j.Inv) (he : j.Enabled (.exec f id wire decoded o)) :
    (j.step (.exec f id wire decoded o)).Inv := by
  obtain ⟨hs, hcn⟩ := he
  have hf := h.links.safe f id
  have hw : wire.clientCallId = id := hf.wire wire hs
  have hn : (f, id) ∉ j.execs := by
    intro hm
    have hp : 0 < j.execs.count (f, id) := count_pos_iff.mpr hm
    have : ((j.fronts f).callLog id).countP CallEffect.isSent ≤ 1 := hf.sentOnce
    omega
  refine ⟨h.svc.step (.exec f (if decoded then some wire else none) o), h.traced, ?_⟩
  cases decoded with
  | false => exact h.links.drop ⟨wire, hs⟩
  | true =>
    have hc := h.links.receive h.svc hn hw hs
    have hr : (j.svc.receive f wire).reqs j.svc.nextReq =
        some { j.svc.newReq f wire with registered := true } :=
      congrArg ReqView.req (view_receive_same h.svc f wire)
    exact hc.fades (fades_start (h.svc.receive f wire) hr o)

lemma Inv.cancel (h : j.Inv) (he : j.Enabled (.cancel f id decoded ret)) :
    (j.step (.cancel f id decoded ret)).Inv := by
  obtain ⟨hx, hcn⟩ := he
  have hn : (f, id) ∉ j.cancels := by
    intro hm
    have hp : 0 < j.cancels.count (f, id) := count_pos_iff.mpr hm
    have : ((j.fronts f).callLog id).count .cancelSent ≤ 1 := (h.links.safe f id).cancelOnce
    omega
  refine ⟨h.svc.step (.cancel f (if decoded then some id else none) ret), h.traced, ?_⟩
  cases decoded with
  | false =>
    exact { h.links with
      stashed := fun r q hq hc => mem_cons_of_mem _ (h.links.stashed r q hq hc) }
  | true => exact h.links.cancels h.svc hx hn (cancelHandler_cancels j.svc f id ret)

lemma Inv.step (h : j.Inv) (he : j.Enabled e) : (j.step e).Inv := by
  cases e with
  | front f e => exact h.front he
  | exec f id wire decoded o => exact h.exec he
  | cancel f id decoded ret => exact h.cancel he
  | complete op r ret o =>
    refine ⟨h.svc.step (.complete op r ret o), h.traced, ?_⟩
    by_cases hm : (op, r) ∈ j.svc.ops
    · have hs : j.svc.step (.complete op r ret o) = j.svc.bulkDone op r ret o := if_pos hm
      change ({ j with svc := j.svc.step (.complete op r ret o) } : Joint).Links
      rw [hs]
      exact h.links.fades (h.svc.fades_bulkDone hm ret o)
    have hs : j.svc.step (.complete op r ret o) = j.svc := if_neg hm
    change ({ j with svc := j.svc.step (.complete op r ret o) } : Joint).Links
    rw [hs]
    exact h.links
  | tick o => exact ⟨h.svc.step (.tick o), h.traced, h.links.fades (h.svc.fades_tick o)⟩

lemma Inv.no_transfer (h : j.Inv) (hr : .released b ∈ (j.fronts f).callLog id)
    (hp : (op, r) ∈ j.svc.ops) :
    ∃ q, j.svc.reqs r = some q ∧ ¬(q.origin = f ∧ q.callId = id) := by
  obtain ⟨q, hq⟩ := h.svc.req_of_op hp
  refine ⟨q, hq, fun ⟨ho, hi⟩ => ?_⟩
  have he : (f, id) ∈ j.execs := by
    rw [← ho, ← hi]
    exact h.links.handled hq
  have hs := h.links.safe f id
  obtain ⟨wire, hn⟩ := hs.sent he
  exact (hs.released b wire hr hn).2 r q hq ho hi

lemma Inv.mem_callLog_step (h : j.Inv) (he : j.Enabled e) (hx : x ∈ (j.fronts f).callLog id) :
    x ∈ ((j.step e).fronts f).callLog id := by
  cases e with
  | front f' e =>
    change x ∈ (update j.fronts f' _ f).callLog id
    by_cases hf : f = f'
    · subst hf
      rw [update_self]
      refine (Front.suffix_step (h.traced f) ?_ id).subset hx
      rintro st rfl
      exact he
    rw [update_of_ne hf]
    exact hx
  | exec => exact hx
  | cancel => exact hx
  | complete => exact hx
  | tick => exact hx

def after (executor : Bool) (pushStall pullStall : Nat) (evs : List JointEvent) : Joint :=
  Machine.run step (init executor pushStall pullStall) evs

instance (j : Joint) (f : HgAddr) (id : Nat) (ret : HgReturn) : Decidable (j.MayForward f id ret) :=
  inferInstanceAs (Decidable (_ ∨ _))

instance (j : Joint) : (e : JointEvent) → Decidable (j.Enabled e)
  | .front f (.fire (.forward id ret _)) => inferInstanceAs (Decidable (j.MayForward f id ret))
  | .front _ (.fire (.ack _ _)) => inferInstanceAs (Decidable (_ ∧ _))
  | .front _ (.fire (.kv _ _ _)) => .isTrue trivial
  | .front _ (.failAll _) => .isFalse fun h => h
  | .front _ (.forward _ _ _ _ _) => .isTrue trivial
  | .front _ (.kvForward _ _ _ _) => .isTrue trivial
  | .front _ (.cancel _ _) => .isTrue trivial
  | .front _ (.cancelAll _) => .isTrue trivial
  | .exec _ _ _ _ _ => inferInstanceAs (Decidable (_ ∧ _))
  | .cancel _ _ _ _ => inferInstanceAs (Decidable (_ ∧ _))
  | .complete _ _ _ _ => .isTrue trivial
  | .tick _ => .isTrue trivial

end Joint

/-- When a front has released a bulk handle of a call, the executor has no bulk transfer for that
call in flight, then or at any time later: every transfer is one of a live request of another call.
-/
theorem released_call_has_no_transfer (executor : Bool) (pushStall pullStall : Nat)
    (evs later : List JointEvent)
    (h : Machine.Along Joint.step Joint.Enabled (Joint.init executor pushStall pullStall)
      (evs ++ later))
    (f : HgAddr) (id : Nat) (b : BulkHandle)
    (hrel : .released b ∈ ((Joint.after executor pushStall pullStall evs).fronts f).callLog id)
    (op : BulkOp) (r : Nat)
    (hop : (op, r) ∈ (Joint.after executor pushStall pullStall (evs ++ later)).svc.ops) :
    ∃ q, (Joint.after executor pushStall pullStall (evs ++ later)).svc.reqs r = some q ∧
      ¬(q.origin = f ∧ q.callId = id) := by
  obtain ⟨hnow, hlater⟩ := (Machine.along_append Joint.step).mp h
  have hinv := Machine.run_induct_along Joint.step (Joint.inv_init executor pushStall pullStall)
      (fun _ _ hj he => hj.step he) hnow
  have hend := Machine.run_induct_along Joint.step
    (P := fun j => j.Inv ∧ .released b ∈ (j.fronts f).callLog id) ⟨hinv, hrel⟩
    (fun _ _ hj he => ⟨hj.1.step he, hj.1.mem_callLog_step he hj.2⟩) hlater
  rw [Joint.after, Machine.run_append] at hop ⊢
  exact hend.1.no_transfer hend.2 hop

/-- An Exec with a large input is aborted while its input is pulled: the cancelled PULL, the
cancelled forward and the ack. -/
def abortDuringPull : List JointEvent :=
  [.front 1 (.forward { sampleExec with inputLen := 8192, inputInline := some 64, osize := 64 }
      (some 4096) 64 (-1) ⟨true, true, true, true, true⟩),
    .exec 1 1 { sampleExec with
      clientCallId := 1, inputLen := 8192, inputInline := some 64, osize := 64, inputBulk := some 0 }
      true (allGood ⟨.success, 0, none⟩),
    .front 1 (.cancel 1 ⟨true, true⟩), .cancel 1 1 true .success,
    .complete .pull 0 .canceled (allGood ⟨.success, 0, none⟩),
    .front 1 (.fire (.forward 1 .canceled none)), .front 1 (.fire (.ack 1 .success))]

/-- The run takes place, and the front has released the input handle at its end. -/
theorem abortDuringPull_released :
    (Machine.Along Joint.step Joint.Enabled (Joint.init true 0 0) (abortDuringPull ++ []) ∧
      .released 0 ∈ ((Joint.after true 0 0 abortDuringPull).fronts 1).callLog 1) ∧
    ∀ op r, (op, r) ∈ (Joint.after true 0 0 (abortDuringPull ++ [])).svc.ops →
      ∃ q, (Joint.after true 0 0 (abortDuringPull ++ [])).svc.reqs r = some q ∧
        ¬(q.origin = 1 ∧ q.callId = 1) := by
  have hrun : Machine.Along Joint.step Joint.Enabled (Joint.init true 0 0) (abortDuringPull ++ []) := by
    decide
  have hrel : .released 0 ∈ ((Joint.after true 0 0 abortDuringPull).fronts 1).callLog 1 := by decide
  exact ⟨⟨hrun, hrel⟩, released_call_has_no_transfer true 0 0 abortDuringPull [] hrun 1 1 0 hrel⟩

end RadosNkv
