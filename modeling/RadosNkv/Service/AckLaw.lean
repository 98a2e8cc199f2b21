import RadosNkv.Service.Invariant

/-! When the executor acks a cancel. -/

namespace RadosNkv

open Function

open Ledger List ReqView

/-- No cancel was acknowledged while a transfer of its call was under way. -/
def Service.AckLaw (s : Service) : Prop := ∀ h a, (h, a) ∈ s.acks → a.busy = false

def Service.Sole (s : Service) : Prop :=
  ∀ r j q q', s.reqs r = some q → s.reqs j = some q' → q.cancelHandle ≠ none →
    q'.origin = q.origin → q'.callId = q.callId → j = r

structure Req.SameKey (q' q : Req) : Prop where
  origin : q'.origin = q.origin
  callId : q'.callId = q.callId
  cancelHandle : q'.cancelHandle = q.cancelHandle

lemma Req.Same.sameKey {q' q : Req} (h : q'.Same q) : q'.SameKey q :=
  ⟨h.origin, h.callId, h.cancelHandle⟩

section Settling

variable {s s' : Service} {q : Req}

lemma reqs_finish (s : Service) (r : Nat) (q : Req) : (nkvxReqFinish s r q).reqs r = none := by
  simp [nkvxReqFinish, Service.free]

lemma Finishes.reqs (h : Finishes s r q b s') : s'.reqs r = none := by
  cases h with
  | failed => exact reqs_finish s r _
  | delivered => exact reqs_finish s r _

lemma Settles.reqs (h : Settles s r q b s') : s'.reqs r = none ∨ ∃ q', s'.reqs r = some q' ∧ q'.SameKey q := by
  cases h with
  | finishes h => exact .inl h.reqs
  | pushStalled => exact .inr ⟨_, update_self .., rfl, rfl, rfl⟩
  | pushing same => exact .inr ⟨_, update_self .., same.sameKey⟩
  | pullStalled => exact .inr ⟨_, update_self .., rfl, rfl, rfl⟩
  | pulling same => exact .inr ⟨_, update_self .., same.sameKey⟩

lemma regRemove_congr (s : Service) (r : Nat) {q' q : Req} (h : q'.registered = q.registered) :
    nkvxRegRemove s r q' = nkvxRegRemove s r q := by
  simp only [nkvxRegRemove, h]

lemma Finishes.acks (h : Finishes s r q b s') : ∃ a : Ack, a.origin = q.origin ∧ a.callId = q.callId ∧
      a.busy = (nkvxRegRemove s r q).busy q.origin q.callId ∧ s'.acks = q.cancelHandle.toList.map (·, a) ++ s.acks := by
  have key : ∀ q' : Req, q'.Same q → ∃ a : Ack, a.origin = q.origin ∧ a.callId = q.callId ∧
      a.busy = (nkvxRegRemove s r q).busy q.origin q.callId ∧
      (nkvxReqFinish s r q').acks = q.cancelHandle.toList.map (·, a) ++ s.acks := by
    intro q' same
    have ha := acks_finish s r q'
    rw [same.cancelHandle, same.origin, same.callId, regRemove_congr s r same.registered] at ha
    exact ⟨_, same.origin, same.callId, rfl, ha⟩
  cases h with
  | failed same => exact key _ { same with }
  | delivered same => exact key _ same

lemma Settles.acks (h : Settles s r q b s') :
    s'.acks = s.acks ∨ ∃ hd a, q.cancelHandle = some hd ∧ a.origin = q.origin ∧
      a.callId = q.callId ∧ a.busy = (nkvxRegRemove s r q).busy q.origin q.callId ∧ s'.acks = (hd, a) :: s.acks := by
  cases h with
  | finishes h =>
    obtain ⟨a, ho, hi, hb, ha⟩ := h.acks
    cases hc : q.cancelHandle with
    | none => exact .inl (by simpa [hc] using ha)
    | some hd => exact .inr ⟨hd, a, rfl, ho, hi, hb, by simpa [hc] using ha⟩
  | pushStalled => exact .inl rfl
  | pushing => exact .inl rfl
  | pullStalled => exact .inl rfl
  | pulling => exact .inl rfl

end Settling

namespace Service

variable {s s' : Service} {q q₀ : Req} {origin : HgAddr} {callId : Nat}

lemma Handling.mem_of_op (h : s.Handling r q b) (hm : (op, j) ∈ s.ops) : j ≠ r := by
  rintro rfl
  have hl : s.ops.count (.pull, j) = 0 := h.ready.pulls
  have hp : s.ops.count (.push, j) = 0 := h.ready.pushes
  cases op with
  | pull => exact count_eq_zero.mp hl hm
  | push => exact count_eq_zero.mp hp hm

lemma Handling.not_busy (h : s.Handling r q b) (hs : s.Sole) (hq : s.reqs r = some q₀)
    (hk : q₀.SameKey q) (hc : q.cancelHandle ≠ none) : (nkvxRegRemove s r q).busy q.origin q.callId = false := by
  have hrm : nkvxRegRemove s r q = { s with inflight := s.inflight.erase r } := by
    rw [nkvxRegRemove, if_pos h.ready.trace.registered]
  have hw : ∀ j, s.hasKey q.origin q.callId j = true → j = r := by
    intro j hj
    obtain ⟨q', hq', ho, hi⟩ := hasKey_iff.mp hj
    exact hs r j q₀ q' hq hq' (hk.cancelHandle ▸ hc) (ho.trans hk.origin.symm)
      (hi.trans hk.callId.symm)
  rw [hrm, Service.busy, Bool.or_eq_false_iff, any_eq_false, any_eq_false]
  constructor
  · intro j hj he
    have hr := hw j he
    subst hr
    have hl : s.inflight.count j = 1 := h.ready.listed
    have hp : 0 < (s.inflight.erase j).count j := count_pos_iff.mpr hj
    rw [count_erase_self] at hp
    omega
  rintro ⟨op, j⟩ hm he
  exact h.mem_of_op hm (hw j he)

structure AckInv (s : Service) : Prop where
  law : s.AckLaw
  sole : s.Sole

lemma Sole.of_sameKey (h : s.Sole)
    (hb : ∀ j q', s'.reqs j = some q' → ∃ q'', s.reqs j = some q'' ∧ q'.SameKey q'') : s'.Sole := by
  intro i j qi qj hi hj hc ho hd
  obtain ⟨qi', hi', hk⟩ := hb i qi hi
  obtain ⟨qj', hj', hkj⟩ := hb j qj hj
  refine h i j qi' qj' hi' hj' (hk.cancelHandle ▸ hc) ?_ ?_
  · rw [← hkj.origin, ho, hk.origin]
  · rw [← hkj.callId, hd, hk.callId]

lemma Sole.put (h : s.Sole) (hq : s.reqs r = some q₀) (hk : q.SameKey q₀) : (s.put r q).Sole := by
  refine h.of_sameKey fun j q' hj => ?_
  change update s.reqs r (some q) j = some q' at hj
  by_cases hr : j = r
  · subst hr
    rw [update_self] at hj
    cases hj
    exact ⟨q₀, hq, hk⟩
  rw [update_of_ne hr] at hj
  exact ⟨q', hj, rfl, rfl, rfl⟩

lemma settles_sameKey (hq : s.reqs r = some q₀) (hk : q₀.SameKey q) (hs : Settles s r q b s') (j : Nat) (q' : Req)
    (hj : s'.reqs j = some q') : ∃ q'', s.reqs j = some q'' ∧ q'.SameKey q'' := by
  by_cases hr : j = r
  · subst hr
    rcases hs.reqs with hn | ⟨q1, hq1, hk1⟩
    · rw [hn] at hj
      cases hj
    cases hq1.symm.trans hj
    exact ⟨q₀, hq, hk1.origin.trans hk.origin.symm, hk1.callId.trans hk.callId.symm,
      hk1.cancelHandle.trans hk.cancelHandle.symm⟩
  · exact ⟨q', (congrArg ReqView.req (hs.view_ne hr)).symm.trans hj, rfl, rfl, rfl⟩

lemma AckInv.settles (h : s.AckInv) (hh : s.Handling r q b) (hq : s.reqs r = some q₀)
    (hk : q₀.SameKey q) (hs : Settles s r q b s') : s'.AckInv := by
  refine ⟨?_, h.sole.of_sameKey (settles_sameKey hq hk hs)⟩
  rcases hs.acks with ha | ⟨hd, a, hc, ho, hi, hb, ha⟩
  · rw [AckLaw, ha]
    exact h.law
  rw [AckLaw, ha]
  intro hd' a' hm
  rcases mem_cons.mp hm with he | hm
  · cases he
    rw [hb]
    exact hh.not_busy h.sole hq hk (by rw [hc]; exact Option.some_ne_none hd)
  · exact h.law hd' a' hm

def cancelPending (s : Service) (origin : HgAddr) (callId : Nat) : Bool :=
  s.inflight.any fun r => (s.reqs r).any fun q => q.hasKey origin callId && q.cancelHandle.isSome

def AtMostOne (s : Service) (origin : HgAddr) (callId : Nat) : Prop :=
  ∀ r ∈ s.inflight, ∀ j ∈ s.inflight, s.hasKey origin callId r = true →
    s.hasKey origin callId j = true → j = r

instance (s : Service) (origin : HgAddr) (callId : Nat) : Decidable (s.AtMostOne origin callId) :=
  inferInstanceAs (Decidable (∀ r ∈ s.inflight, ∀ j ∈ s.inflight, _))

/-- No cancel of the call is pending, and a cancel names at most one request in flight. -/
def Undisturbed (s : Service) : ServiceEvent → Prop
  | .exec origin (some input) _ => s.cancelPending origin input.clientCallId = false
  | .cancel origin (some callId) _ =>
    s.cancelPending origin callId = false ∧ s.AtMostOne origin callId
  | _ => True

instance (s : Service) : (e : ServiceEvent) → Decidable (s.Undisturbed e)
  | .exec _ none _ => .isTrue trivial
  | .exec _ (some _) _ => inferInstanceAs (Decidable (_ = _))
  | .cancel _ none _ => .isTrue trivial
  | .cancel _ (some _) _ => inferInstanceAs (Decidable (_ ∧ _))
  | .complete .. => .isTrue trivial
  | .tick _ => .isTrue trivial

lemma cancelPending_of_mem (hm : r ∈ s.inflight) (hq : s.reqs r = some q) (ho : q.origin = origin)
    (hi : q.callId = callId) (hc : q.cancelHandle ≠ none) : s.cancelPending origin callId = true := by
  rw [cancelPending, any_eq_true]
  refine ⟨r, hm, ?_⟩
  simp [hq, Req.hasKey, ho, hi, Option.isSome_iff_ne_none.mpr hc]

lemma Inv.mem_inflight (h : s.Inv) (hq : s.reqs r = some q) : r ∈ s.inflight := by
  have hb : s.view r ≠ unborn := by
    intro hu
    have : s.reqs r = none := congrArg ReqView.req hu
    rw [hq] at this
    cases this
  have hn : ¬ (s.view r).Gone := by
    intro hg
    have : s.reqs r = none := hg.req
    rw [hq] at this
    cases this
  obtain ⟨-, p, q', hl⟩ := h.live hb hn
  exact count_pos_iff.mp (Nat.lt_of_lt_of_eq Nat.one_pos hl.listed.symm)

lemma Inv.req_of_op (h : s.Inv) (hm : (op, r) ∈ s.ops) : ∃ q, s.reqs r = some q := by
  obtain ⟨-, q, hl⟩ := h.inFlight hm
  cases op with
  | pull => exact ⟨q, ReqView.Live.req hl⟩
  | push => exact ⟨q, ReqView.Live.req hl⟩

lemma Inv.mem_of_op (h : s.Inv) (hm : (op, r) ∈ s.ops) : r ∈ s.inflight := by
  obtain ⟨q, hq⟩ := h.req_of_op hm
  exact h.mem_inflight hq

lemma Inv.not_busy (h : s.Inv) (hr : nkvxRegLookup s origin callId = none) : s.busy origin callId = false := by
  have hn := find?_eq_none.mp hr
  rw [Service.busy, Bool.or_eq_false_iff, any_eq_false, any_eq_false]
  exact ⟨hn, fun x hx => hn x.2 (h.mem_of_op hx)⟩

lemma ackInv_init (executor : Bool) (pushStall pullStall : Nat) : (init executor pushStall pullStall).AckInv where
  law _ _ hm := by simp [init] at hm
  sole _ _ _ _ hq := by simp [init] at hq

lemma AckInv.start (h : s.AckInv) (hh : s.Handling r q false) (hq : s.reqs r = some q)
    (o : ServeOutcome) : (s.start r q o).AckInv := by
  rcases start_settles s r q o with hs | hs
  · exact h.settles hh hq ⟨rfl, rfl, rfl⟩ hs
  have hr : (s.emit r (.ran o.res)).AckInv := ⟨h.law, h.sole⟩
  exact hr.settles (hh.ran o.res) hq ⟨rfl, rfl, rfl⟩ hs

lemma AckInv.exec (h : s.AckInv) (hi : s.Inv) (origin : HgAddr) (input : ExecIn)
    (hg : s.cancelPending origin input.clientCallId = false) (o : ServeOutcome) :
    (nkvxExecHandler s origin (some input) o).AckInv := by
  have hm := view_receive_same hi origin input
  have hr : (s.receive origin input).reqs s.nextReq =
      some { s.newReq origin input with registered := true } := congrArg ReqView.req hm
  have hn : ∀ j, j ≠ s.nextReq → (s.receive origin input).reqs j = s.reqs j :=
    fun j hj => congrArg ReqView.req (view_receive_ne origin input hj)
  have hs : (s.receive origin input).Sole := by
    intro i j qi qj hq hqj hc ho hd
    by_cases hi' : i = s.nextReq
    · rw [hi', hr] at hq
      cases hq
      exact absurd rfl hc
    rw [hn i hi'] at hq
    by_cases hj' : j = s.nextReq
    · rw [hj', hr] at hqj
      cases hqj
      have hp : s.cancelPending origin input.clientCallId = true :=
        cancelPending_of_mem (hi.mem_inflight hq) hq ho.symm hd.symm hc
      rw [hg] at hp
      cases hp
    rw [hn j hj'] at hqj
    exact h.sole i j qi qj hq hqj hc ho hd
  have ha : (s.receive origin input).AckInv := ⟨h.law, hs⟩
  exact ha.start (hi.receive origin input) hr o

lemma AckInv.cancels (h : s.AckInv) (hi : s.Inv)
    (hg : s.cancelPending origin callId = false ∧ s.AtMostOne origin callId) (hs : Cancels s origin callId s') :
    s'.AckInv := by
  cases hs with
  | unknown hr =>
    refine ⟨?_, h.sole⟩
    intro hd a hm
    rcases mem_cons.mp hm with he | hm
    · cases he
      exact hi.not_busy hr
    · exact h.law hd a hm
  | duplicate hr hq hc =>
    obtain ⟨hme, q', hq', ho, hid⟩ := regLookup_some hr
    cases hq.symm.trans hq'
    have hp := cancelPending_of_mem hme hq ho hid hc
    rw [hg.1] at hp
    cases hp
  | @stashed r q d hr hq hc hd =>
    refine ⟨h.law, ?_⟩
    obtain ⟨hme, q', hq', ho, hid⟩ := regLookup_some hr
    cases hq.symm.trans hq'
    intro i j qi qj hqi hj hci hoi hii
    -- the key of a request is the one it had before the cancel
    obtain ⟨qi', hqi', hoi', hii', hsm⟩ := reqs_update_back hq hqi rfl rfl
    obtain ⟨qj', hj', hoj', hij', -⟩ := reqs_update_back hq hj rfl rfl
    by_cases hir : i = r
    · subst hir
      cases hq.symm.trans hqi'
      refine hg.2 i hme j (hi.mem_inflight hj') (hasKey_iff.mpr ⟨q, hq, ho, hid⟩)
        (hasKey_iff.mpr ⟨qj', hj', ?_, ?_⟩)
      · rw [← hoj', hoi, hoi', ho]
      · rw [← hij', hii, hii', hid]
    have he := hsm hir
    subst he
    refine h.sole i j qi qj' hqi' hj' hci ?_ ?_
    · rw [← hoj', hoi]
    · rw [← hij', hii]

/-- The end of a transfer settles its request, with a run of the executor before it or without one.
-/
lemma Inv.bulkDone_settles (h : s.Inv) (hm : (op, r) ∈ s.ops) (ret : HgReturn) (o : ServeOutcome) :
    let t := s.retire op r ret
    ∃ q₀ q b, t.reqs r = some q₀ ∧ (t.Handling r q b ∧ Settles t r q b (s.bulkDone op r ret o) ∨
      (t.emit r (.ran o.res)).Handling r q b ∧ Settles (t.emit r (.ran o.res)) r q b (s.bulkDone op r ret o)) ∧
      q₀.SameKey q := by
  obtain ⟨ht, q, hl⟩ := h.inFlight hm
  cases op with
  | pull =>
    have hr : (s.retire .pull r ret).reqs r = some q := ReqView.Live.req hl
    have hh := h.retirePull ht hl ret
    rcases pulledCb_settles hr ret o with hs | ⟨-, hs⟩
    · exact ⟨q, _, _, hr, .inl ⟨hh q.input rfl, .finishes hs⟩, rfl, rfl, rfl⟩
    have hh := hh { q.input with inputInline := q.inputBuf } rfl
    exact ⟨q, _, _, hr, .inr ⟨hh.ran o.res, hs⟩, rfl, rfl, rfl⟩
  | push =>
    have hr : (s.retire .push r ret).reqs r = some q := ReqView.Live.req hl
    exact ⟨q, _, _, hr, .inl ⟨h.retirePush ht hl ret,
      .finishes (pushedCb_finishes hr (s.mem_log_retire_push r ret))⟩, rfl, rfl, rfl⟩

lemma AckInv.bulkDone (h : s.AckInv) (hi : s.Inv) (hm : (op, r) ∈ s.ops) (ret : HgReturn) (o : ServeOutcome) :
    (s.bulkDone op r ret o).AckInv := by
  have ht : (s.retire op r ret).AckInv := ⟨h.law, h.sole⟩
  have ha : ((s.retire op r ret).emit r (.ran o.res)).AckInv := ⟨h.law, h.sole⟩
  obtain ⟨q₀, q, b, hr, ⟨hh, hs⟩ | ⟨hh, hs⟩, hk⟩ := hi.bulkDone_settles hm ret o
  · exact ht.settles hh hr hk hs
  · exact ha.settles hh hr hk hs

lemma AckInv.ticks (h : s.AckInv) (hi : s.Inv) (hl : (s.view r).Live p q) (hs : Ticks s r p q s') :
    s'.AckInv := by
  have hr : s.reqs r = some q := hl.req
  cases hs with
  | idle => exact h
  | counts n m => exact ⟨h.law, h.sole.put hr ⟨rfl, rfl, rfl⟩⟩
  | settles hp hs => exact h.settles (hi.unstall hl hp) hr ⟨rfl, rfl, rfl⟩ hs

lemma AckInv.step (h : s.AckInv) (hi : s.Inv) (hg : s.Undisturbed e) : (s.step e).AckInv := by
  refine hi.keeps h (fun origin input o he => ?_) (fun origin callId ret s' he hc => ?_)
    (fun op r ret o _ hm => h.bulkDone hi hm ret o) fun _ _ _ _ _ hi h _ hl hs => h.ticks hi hl hs
  · subst he
    exact h.exec hi origin input hg o
  subst he
  exact h.cancels hi hg hc

end Service

/-- In every run in which no cancel arrives for a key whose cancel is already pending, and no key
with a pending cancel has two requests, no cancel is acked while a request of its key is busy. -/
theorem ackLaw_of_undisturbed (executor : Bool) (pushStall pullStall : Nat)
    (evs : List ServiceEvent)
    (hg : Machine.Along Service.step Service.Undisturbed
      (Service.init executor pushStall pullStall) evs) :
    (Service.after executor pushStall pullStall evs).AckLaw := by
  have hrun := Machine.run_induct_along Service.step (P := fun s => s.Inv ∧ s.AckInv)
    ⟨Service.inv_init executor pushStall pullStall, Service.ackInv_init executor pushStall pullStall⟩
    (fun s e h hg => ⟨h.1.step e, h.2.step h.1 hg⟩) hg
  exact hrun.2.law

def largeInput : ExecIn :=
  { opId := 1, clientCallId := 7, readOnly := false, runtime := .nkvx, caps := 0, key := [107],
    sha256 := [], sha256Valid := false, moduleKey := none, moduleNs := none, osize := 64,
    inputLen := 8192, inputInline := none, inputBulk := some 3, resultSink := none }

def allGood (res : ExecResult) : ServeOutcome :=
  { inputBuf := some 4096, bulk := some 5, transferred := true, res }

def cancelTwice : List ServiceEvent :=
  [.exec 1 (some largeInput) (allGood ⟨.success, 0, none⟩), .cancel 1 (some 7) .success,
    .cancel 1 (some 7) .success]

/-- The second cancel is acked while the PULL is in flight. -/
theorem second_cancel_acked_busy :
    (Service.after true 0 0 cancelTwice).acks = [(2, ⟨1, 7, .alreadyDone, true⟩)] ∧
      ¬ (Service.after true 0 0 cancelTwice).AckLaw := by
  have hack : (Service.after true 0 0 cancelTwice).acks = [(2, ⟨1, 7, .alreadyDone, true⟩)] := by
    decide
  refine ⟨hack, fun hlaw => ?_⟩
  have := hlaw 2 ⟨1, 7, .alreadyDone, true⟩ (by rw [hack]; exact mem_singleton.mpr rfl)
  cases this

def cancelAgainLater : List ServiceEvent :=
  [.exec 1 (some largeInput) (allGood ⟨.success, 0, none⟩), .cancel 1 (some 7) .success,
    .complete .pull 0 .canceled (allGood ⟨.success, 0, none⟩), .cancel 1 (some 7) .success]

theorem cancelAgainLater_ackLaw :
    ((Service.after true 0 0 cancelAgainLater).acks =
        [(2, ⟨1, 7, .alreadyDone, false⟩), (1, ⟨1, 7, .pushCanceled, false⟩)]) ∧
      (Service.after true 0 0 cancelAgainLater).AckLaw := by
  exact ⟨by decide, ackLaw_of_undisturbed true 0 0 cancelAgainLater (by decide)⟩

end RadosNkv
