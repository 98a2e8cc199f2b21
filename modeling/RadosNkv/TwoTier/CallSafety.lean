import RadosNkv.Front.Evidence

/-! The front's half of the cancel handshake: a front that gives the handles of a sent call up does
so because the executor is done with the call. -/

namespace RadosNkv

open Front

open Ledger List

def CallEffect.isOutgoing : CallEffect → Bool
  | .execSent _ | .cancelSent | .hgCancel => true
  | _ => false

namespace CallView

/-- What the ledger of call `id` says when the executor has handled its `nkvx_exec` only if
`handled`, and is done with it only if `closed`. -/
structure Safe (v : CallView) (id : Nat) (handled closed : Prop) : Prop where
  sent : handled → ∃ wire, .execSent wire ∈ v.log
  wire : ∀ wire, .execSent wire ∈ v.log → wire.clientCallId = id
  sentOnce : v.log.countP CallEffect.isSent ≤ 1
  cancelOnce : v.log.count .cancelSent ≤ 1
  begun : ∀ c, v.call = some c → .hgCancel ∈ v.log ∨ .cancelSent ∈ v.log → c.cancelling
  released : ∀ h wire, .released h ∈ v.log → .execSent wire ∈ v.log → closed
  acked : ∀ c, v.call = some c → c.cancelAcked → c.held ≠ [] → .hgCancel ∈ v.log → closed

variable {v v' : CallView} {c : Call} {id : Nat} {handled closed : Prop}

lemma Safe.mono {handled' closed' : Prop} (h : v.Safe id handled closed)
    (hh : handled' → ∃ wire, .execSent wire ∈ v.log) (hc : closed → closed') : v.Safe id handled' closed' :=
  { h with
    sent := hh
    released := fun b w hb hw => hc (h.released b w hb hw)
    acked := fun c hl ha hn hg => hc (h.acked c hl ha hn hg) }

lemma Safe.extend (h : v.Safe id handled closed) (new : List CallEffect)
    (hl : v'.log = new ++ v.log) (hn : ∀ e ∈ new, e.isOutgoing = false) (hr : ∀ b, .released b ∈ new → closed)
    (hcl : ∀ c', v'.call = some c' → ∃ c, v.call = some c ∧ (c.cancelling → c'.cancelling) ∧
      (c'.cancelAcked → c'.held ≠ [] → .hgCancel ∈ v.log → closed)) : v'.Safe id handled closed := by
  have ho : ∀ e : CallEffect, e.isOutgoing = true → (e ∈ v'.log ↔ e ∈ v.log) := by
    intro e he
    rw [hl, mem_append]
    refine or_iff_right fun hm => ?_
    rw [hn e hm] at he
    cases he
  have hcn : new.countP CallEffect.isSent = 0 := by
    rw [countP_eq_zero]
    intro e he hs
    have := hn e he
    cases e <;> simp_all [CallEffect.isOutgoing]
  have hnc : new.count .cancelSent = 0 := by
    rw [count_eq_zero]
    intro hm
    have := hn _ hm
    simp [CallEffect.isOutgoing] at this
  refine ⟨fun hh => ?_, fun w hw => ?_, ?_, ?_, fun c' hc' hm => ?_, fun b w hb hw => ?_, fun c' hc' ha hne hg => ?_⟩
  · obtain ⟨w, hw⟩ := h.sent hh
    exact ⟨w, (ho _ rfl).mpr hw⟩
  · exact h.wire w ((ho _ rfl).mp hw)
  · rw [hl, countP_append, hcn]
    have := h.sentOnce
    omega
  · rw [hl, count_append, hnc]
    have := h.cancelOnce
    omega
  · obtain ⟨c, hc, hi, -⟩ := hcl c' hc'
    refine hi (h.begun c hc ?_)
    exact hm.imp (ho _ rfl).mp (ho _ rfl).mp
  · rw [hl, mem_append] at hb
    rcases hb with hb | hb
    · exact hr b hb
    · exact h.released b w hb ((ho _ rfl).mp hw)
  obtain ⟨c, hc, -, hac⟩ := hcl c' hc'
  exact hac ha hne ((ho _ rfl).mp hg)

def delivered (ret : HgReturn) (e : CallEffect) : List CallEffect := if ret = .success then [e] else []

lemma noteDelivered_eq (v : CallView) (ret : HgReturn) (e : CallEffect) :
    v.noteDelivered ret e = { v with log := delivered ret e ++ v.log } := by
  unfold noteDelivered delivered
  split <;> rfl

variable {ret : HgReturn}

lemma mem_delivered (h : e' ∈ delivered ret e) : e' = e := by
  unfold delivered at h
  split at h
  · exact mem_singleton.mp h
  · cases h

def givenUp (c : Call) (st : IoStatus) (n : Nat) (out : Option Bytes) : List CallEffect :=
  .freed :: ((c.held.map .released).reverse ++ [.tenant st n out])

lemma mem_givenUp (h : e ∈ givenUp c st n out) :
    e = .freed ∨ (∃ b ∈ c.held, e = .released b) ∨ e = .tenant st n out := by
  simp only [givenUp, mem_cons, mem_append, mem_reverse, mem_map, not_mem_nil, or_false] at h
  rcases h with h | ⟨b, hb, h⟩ | h
  · exact .inl h
  · exact .inr (.inl ⟨b, hb, h.symm⟩)
  · exact .inr (.inr h)

lemma quiet_delivered {x : CallEffect} (hx : x.isOutgoing = false) :
    ∀ e ∈ delivered ret x, e.isOutgoing = false := fun _ he => mem_delivered he ▸ hx

lemma quiet_givenUp {x : CallEffect} (hx : x.isOutgoing = false) :
    ∀ e ∈ givenUp c st n out ++ delivered ret x, e.isOutgoing = false := by
  intro e he
  rcases mem_append.mp he with he | he
  · rcases mem_givenUp he with rfl | ⟨b, -, rfl⟩ | rfl <;> rfl
  · exact quiet_delivered hx e he

lemma tryComplete_eq (hc : v.call = some c) (ht : c.tenantDone = false) (hd : c.detached = false) :
    (v.tryComplete.call = some c ∧ v.tryComplete.log = v.log) ∨ (c.cancelAcked ∧ v.tryComplete.call = none ∧
        v.tryComplete.log = givenUp c c.joinStatus 0 none ++ v.log) := by
  simp only [tryComplete, hc]
  by_cases hj : c.cancelling && c.forwardDone && c.cancelAcked
  · refine .inr ⟨by simp_all, ?_, ?_⟩ <;>
      simp [hj, ht, hd, free, releaseBoth_eq, givenUp]
  · exact .inl (by simp [hj, hc])

lemma Live.safe_forwardCb (hl : Live c v) (ht : Traced c v) (h : v.Safe id handled closed)
    (ret : HgReturn) (output : Option ExecOut) (hf : .hgCancel ∈ v.log ∨ closed) :
    (v.popForward.forwardCb ret output).Safe id handled closed := by
  have hcl : v.popForward.call = some c := hl.call
  have hd : c.detached = false := hl.detached.trans ht.open_
  simp only [forwardCb, hcl, noteDelivered_eq]
  by_cases hca : c.cancelling
  · rw [if_pos hca]
    -- the join: it gives the call up only when the ack is in
    generalize hw : CallView.put _ _ = w
    have hwc : w.call = some { c with forwardDone := true, handle := none } := by rw [← hw]; rfl
    have hwl : w.log = delivered ret .responseDelivered ++ v.log := by rw [← hw]; rfl
    rcases tryComplete_eq hwc ht.open_ hd with ⟨hc', ho'⟩ | ⟨ha, hc', ho'⟩
    · refine h.extend _ (ho'.trans hwl) (quiet_delivered rfl) ?_ ?_
      · intro b hb
        cases mem_delivered hb
      intro c' hcc
      cases hc'.symm.trans hcc
      exact ⟨c, hl.call, fun hb => hb, h.acked c hl.call⟩
    have hs : c.held ≠ [] → closed := fun hn =>
      hf.elim (h.acked c hl.call ha hn) fun hc => hc
    refine h.extend (givenUp _ c.joinStatus 0 none ++ delivered ret .responseDelivered)
      (by rw [ho', hwl, append_assoc]) (quiet_givenUp rfl) ?_ ?_
    · intro b hb
      rcases mem_append.mp hb with hb | hb
      · rcases mem_givenUp hb with he | ⟨b', hb', -⟩ | he
        · cases he
        · exact hs (ne_nil_of_mem hb')
        · cases he
      · cases mem_delivered hb
    intro c' hcc
    rw [hc'] at hcc
    cases hcc
  rw [if_neg hca, if_neg (by simp [ht.open_]), releaseBoth_unlink]
  -- a call that was not cancelled is given up on its response
  have hs : closed := by
    rcases hf with hg | hc
    · exact absurd (h.begun c hl.call (.inl hg)) hca
    · exact hc
  generalize forwardResult ret output = res
  refine h.extend (givenUp c res.1 res.2.1 res.2.2 ++ delivered ret .responseDelivered)
    ?_ (quiet_givenUp rfl) (fun _ _ => hs) ?_
  · simp [free, releaseBoth_eq, givenUp]
  intro c' hcc
  simp [free] at hcc

lemma Live.safe_ackCb (hl : Live c v) (ht : Traced c v) (h : v.Safe id handled closed)
    (ret : HgReturn) (hs : closed) : (v.popCancel.ackCb ret).Safe id handled closed := by
  have hcl : v.popCancel.call = some c := hl.call
  have hd : c.detached = false := hl.detached.trans ht.open_
  simp only [ackCb, hcl, noteDelivered_eq]
  generalize hw : CallView.put _ _ = w
  have hwc : w.call = some { c with cancelHandle := none, cancelAcked := true } := by
    rw [← hw]
    rfl
  have hwl : w.log = delivered ret .ackDelivered ++ v.log := by rw [← hw]; rfl
  rcases tryComplete_eq hwc ht.open_ hd with ⟨hc', ho'⟩ | ⟨-, hc', ho'⟩
  · refine h.extend _ (ho'.trans hwl) (quiet_delivered rfl) (fun _ _ => hs) fun c' hc => ?_
    cases hc'.symm.trans hc
    exact ⟨c, hl.call, fun hb => hb, fun _ _ _ => hs⟩
  refine h.extend (givenUp _ c.joinStatus 0 none ++ delivered ret .ackDelivered)
    (by rw [ho', hwl, append_assoc]) (quiet_givenUp rfl) (fun _ _ => hs) fun c' hc => ?_
  rw [hc'] at hc
  cases hc

lemma Live.safe_beginCancel (hl : Live c v) (h : v.Safe id handled closed) (o : CancelOutcome)
    (ch : HgHandle) : (v.beginCancel o ch).Safe id handled closed := by
  simp only [beginCancel, hl.call]
  by_cases hc : c.cancelling
  · rw [if_pos hc]
    exact h
  rw [if_neg hc]
  have hs : .hgCancel ∉ v.log ∧ .cancelSent ∉ v.log :=
    ⟨fun hm => hc (h.begun c hl.call (.inl hm)), fun hm => hc (h.begun c hl.call (.inr hm))⟩
  have hn : v.log.count .cancelSent = 0 := count_eq_zero.mpr hs.2
  have hac : ¬ c.cancelAcked := fun ha => hc (hl.cancelAcked ha)
  -- the call holds no handle, its `nkvx_cancel` is sent, or it could not be sent
  split_ifs with hi hst
  · have hh : c.held = [] := by
      simp [Call.held, hi.1, hi.2]
    refine ⟨by simpa [put] using h.sent, by simpa [put] using h.wire, by simpa [put] using h.sentOnce,
      by simpa [put] using h.cancelOnce, fun c' hc' _ => ?_, by simpa [put] using h.released, ?_⟩
    · cases hc'
      rfl
    intro c' hc' _ he
    cases hc'
    exact absurd hh he
  · refine ⟨by simpa [put, forwardCancel] using h.sent, by simpa [put, forwardCancel] using h.wire,
      by simpa [put, forwardCancel] using h.sentOnce, ?_, fun c' hc' _ => ?_,
      by simpa [put, forwardCancel] using h.released, ?_⟩
    · simp [put, forwardCancel, hn]
    · cases hc'
      rfl
    intro c' hc' ha
    cases hc'
    exact absurd ha hac
  refine ⟨by simpa [put] using h.sent, by simpa [put] using h.wire, by simpa [put] using h.sentOnce,
    by simpa [put] using h.cancelOnce, fun c' hc' _ => ?_, by simpa [put] using h.released, ?_⟩
  · cases hc'
    rfl
  intro c' _ _ _ hg
  simp [put, hs.1] at hg

lemma safe_unborn (hh : ¬ handled) : unborn.Safe id handled closed := by
  refine ⟨fun hh' => absurd hh' hh, ?_, ?_, ?_, ?_, ?_, ?_⟩ <;> simp [unborn]

lemma Safe.unhandled (h : unborn.Safe id handled closed) : ¬ handled := by
  intro hh
  obtain ⟨w, hw⟩ := h.sent hh
  cases hw

lemma safe_refuse (hh : ¬ handled) (a b : Option BulkHandle) : (unborn.refuse a b).Safe id handled closed := by
  refine ⟨fun hh' => absurd hh' hh, ?_, ?_, ?_, ?_, ?_, ?_⟩ <;> cases a <;> cases b <;>
    simp [refuse, acquire, release, free, unborn]

lemma safe_accept (hh : ¬ handled) (hc : c.Fresh) {wire : ExecIn} (hw : wire.clientCallId = id) :
    (unborn.accept c wire).Safe id handled closed := by
  have hl : (unborn.accept c wire).log =
      .execSent wire :: (c.resultSink.toList.map .acquired ++ c.inputBulk.toList.map .acquired) := by
    cases hi : c.inputBulk <;> cases hs : c.resultSink <;>
      simp [accept, acquire, forwardExec, put, link, unborn, hi, hs]
  have hcl : ∀ c', (unborn.accept c wire).call = some c' → c' = c := by
    intro c' hc'
    exact (Option.some.inj hc').symm
  refine ⟨fun hh' => absurd hh' hh, ?_, ?_, ?_, ?_, ?_, ?_⟩
  · intro w hm
    rw [hl] at hm
    have : w = wire := by simpa using hm
    rw [this, hw]
  · rw [hl]
    cases c.inputBulk <;> cases c.resultSink <;> simp [countP_cons]
  · rw [hl]
    cases c.inputBulk <;> cases c.resultSink <;> simp
  · intro c' _ hm
    rw [hl] at hm
    simp at hm
  · intro b w hm
    rw [hl] at hm
    simp at hm
  intro c' hc' ha
  rw [hcl c' hc', hc.cancelAcked] at ha
  cases ha

variable (v : CallView)

lemma suffix_emit (e : CallEffect) : v.log <:+ (v.emit e).log :=
  suffix_cons e v.log

lemma suffix_free : v.log <:+ v.free.log := v.suffix_emit .freed

lemma suffix_releaseBoth (c : Call) : v.log <:+ (v.releaseBoth c).log := by
  rw [releaseBoth_eq]
  exact suffix_append ..

lemma suffix_noteDelivered (ret : HgReturn) (e : CallEffect) :
    v.log <:+ (v.noteDelivered ret e).log := by
  rw [noteDelivered_eq]
  exact suffix_append ..

lemma suffix_tryComplete : v.log <:+ v.tryComplete.log := by
  unfold tryComplete
  cases v.call with
  | none => exact suffix_refl _
  | some c =>
    dsimp only
    split
    · have hn : v.log <:+ (if c.tenantDone then v
          else v.emit (.tenant c.joinStatus 0 none)).log := by
        split
        · exact suffix_refl _
        · exact v.suffix_emit _
      have hf : ∀ w : CallView, w.log <:+ (if c.detached then w else w.unlink).free.log := by
        intro w
        split
        · exact w.suffix_free
        · exact w.unlink.suffix_free
      exact hn.trans ((suffix_releaseBoth _ c).trans (hf _))
    · exact suffix_refl _

lemma suffix_forwardCb (ret : HgReturn) (output : Option ExecOut) :
    v.log <:+ (v.forwardCb ret output).log := by
  unfold forwardCb
  cases v.call with
  | none => exact suffix_refl _
  | some c =>
    refine (v.suffix_noteDelivered ret .responseDelivered).trans ?_
    dsimp only
    split
    · exact suffix_tryComplete (CallView.put ..)
    split
    · exact (suffix_releaseBoth _ c).trans (suffix_free _)
    have hr : ∀ w : CallView, w.log <:+ (w.unlink.releaseBoth c).free.log := fun w =>
      (w.unlink.suffix_releaseBoth c).trans (suffix_free _)
    exact (suffix_emit ..).trans (hr _)

lemma suffix_ackCb (ret : HgReturn) : v.log <:+ (v.ackCb ret).log := by
  unfold ackCb
  cases v.call with
  | none => exact suffix_refl _
  | some c =>
    exact (v.suffix_noteDelivered ret .ackDelivered).trans (suffix_tryComplete (CallView.put ..))

lemma suffix_beginCancel (o : CancelOutcome) (ch : HgHandle) : v.log <:+ (v.beginCancel o ch).log := by
  unfold beginCancel
  cases v.call with
  | none => exact suffix_refl _
  | some c =>
    dsimp only
    split
    · exact suffix_refl _
    refine (v.suffix_emit .cancelBegun).trans ?_
    split
    · exact suffix_emit ..
    split
    · exact (suffix_emit ..).trans (suffix_emit (CallView.forwardCancel _) _)
    · exact suffix_refl _

end CallView

namespace Front

variable {s s' : Front} {id : Nat} {handled closed : Nat → Prop}

def Safe (s : Front) (handled closed : Nat → Prop) : Prop :=
  ∀ id, (s.view id).Safe id (handled id) (closed id)

def Prompted (s : Front) (closed : Nat → Prop) : FrontEvent → Prop
  | .fire (.forward id _ _) => .hgCancel ∈ s.callLog id ∨ closed id
  | .fire (.ack id _) => closed id
  | .failAll _ => False
  | _ => True

variable {v : CallView} {e : FrontEvent}

section

variable (h : s.Safe handled closed)
include h

lemma Safe.act (ha : Acts s s' id v) (hv : v.Safe id (handled id) (closed id)) : s'.Safe handled closed := by
  intro j
  by_cases hj : j = id
  · subst hj
    rw [ha.same]
    exact hv
  rw [ha.other j hj]
  exact h j

section

variable (ht : s.TracedInv)
include ht

lemma Safe.beginCancel (hm : id ∈ s.inflight)
    (o : CancelOutcome) : (nkvxCallBeginCancel s id o).Safe handled closed := by
  obtain ⟨c, hc, hl, -⟩ := ht.live (.inr (.inr hm))
  exact h.act (acts_beginCancel hc o) (hl.safe_beginCancel (h id) o s.nextHandle)

lemma Safe.cancelAll (o : Nat → CancelOutcome) : (nkvxFrontCancelAll s o).Safe handled closed := by
  have hb : (nkvxFrontCancelAll s o).TracedInv ∧ (nkvxFrontCancelAll s o).Safe handled closed := by
    apply cancelAll_induct (P := fun s' => s'.TracedInv ∧ s'.Safe handled closed)
    · exact ⟨ht, h⟩
    rintro s' id ⟨ht', hs'⟩ hi
    exact ⟨(ht'.beginCancel hi (o id)).1, hs'.beginCancel ht' hi (o id)⟩
  exact hb.2

lemma Safe.forward (input : ExecIn) (sink : Option Nat) (sinkLen : Nat) (dmabufFd : Int) (o : ForwardOutcome) :
    (nkvxFrontForwardFull s input sink sinkLen dmabufFd o).1.Safe handled closed := by
  have hu := ht.inv.unborn (s.nextCallId + 1) (by omega)
  have hn := h (s.nextCallId + 1)
  rw [hu] at hn
  have sub := forwardFull_submitted input sink sinkLen dmabufFd o ht.inv.next_notMem
  generalize nkvxFrontForwardFull s input sink sinkLen dmabufFd o = r at sub
  have born : ∀ {s' : Front} {v : CallView}, s'.view (s.nextCallId + 1) = v →
      v.Safe (s.nextCallId + 1) (handled (s.nextCallId + 1)) (closed (s.nextCallId + 1)) →
      (∀ j, j ≠ s.nextCallId + 1 → s'.view j = s.view j) → s'.Safe handled closed := by
    intro s' v same hv other j
    by_cases hj : j = s.nextCallId + 1
    · rw [hj, same]
      exact hv
    rw [other j hj]
    exact h j
  cases sub with
  | rejected e => exact h
  | refused e a b same other _ _ =>
    rw [hu] at same
    exact born same (CallView.safe_refuse hn.unhandled a b) other
  | accepted c wire fresh callId _ _ same other _ _ =>
    rw [hu] at same
    exact born same (CallView.safe_accept hn.unhandled fresh callId) other

lemma Safe.step (hp : s.Prompted closed e) : (s.step e).Safe handled closed := by
  cases e with
  | forward input sink sinkLen dmabufFd o => exact h.forward ht input sink sinkLen dmabufFd o
  | kvForward input sink sinkLen o =>
    intro j
    change ((nkvxFrontKvForward s input sink sinkLen o).1.view j).Safe ..
    rw [view_kvForward]
    exact h j
  | cancel token o =>
    simp only [step, nkvxFrontCancel]
    split_ifs with hn hm
    · exact h
    · exact h.beginCancel ht hm o
    · exact h
  | cancelAll o => exact h.cancelAll ht o
  | failAll st => exact hp.elim
  | fire c =>
    cases c with
    | forward id ret output =>
      by_cases hm : id ∈ s.forwards
      · obtain ⟨c, hc, hl, hr⟩ := ht.live (.inl hm)
        exact h.act (acts_fire_forward hc hm ret output)
          (hl.safe_forwardCb hr (h id) ret output hp)
      · simpa [step, RadosNkv.fire, hm] using h
    | ack id ret =>
      by_cases hm : id ∈ s.cancels
      · obtain ⟨c, hc, hl, hr⟩ := ht.live (.inr (.inl hm))
        exact h.act (acts_fire_ack hc hm ret) (hl.safe_ackCb hr (h id) ret hp)
      · simpa [step, RadosNkv.fire, hm] using h
    | kv k ret output =>
      intro j
      change ((RadosNkv.fire s (.kv k ret output)).view j).Safe ..
      rw [view_fire_kv]
      exact h j

end

end

lemma suffix_of_view_eq (h : v' = v) : v.log <:+ v'.log :=
  h ▸ suffix_refl v.log

lemma Acts.suffix (ha : Acts s s' id v) (hv : (s.view id).log <:+ v.log) (j : Nat) : s.callLog j <:+ s'.callLog j := by
  change (s.view j).log <:+ (s'.view j).log
  by_cases hj : j = id
  · subst hj
    rw [ha.same]
    exact hv
  · exact suffix_of_view_eq (ha.other j hj)

lemma suffix_cancelAll (ht : s.TracedInv) (o : Nat → CancelOutcome) (k : Nat) :
    s.callLog k <:+ (nkvxFrontCancelAll s o).callLog k := by
  have hb : (nkvxFrontCancelAll s o).TracedInv ∧
      s.callLog k <:+ (nkvxFrontCancelAll s o).callLog k := by
    apply cancelAll_induct (P := fun s' => s'.TracedInv ∧ s.callLog k <:+ s'.callLog k)
    · exact ⟨ht, suffix_refl _⟩
    rintro s' id ⟨ht', hs⟩ hi
    obtain ⟨c, hc, -, -⟩ := ht'.live (.inr (.inr hi))
    have hst := (acts_beginCancel hc (o id)).suffix (CallView.suffix_beginCancel ..) k
    exact ⟨(ht'.beginCancel hi (o id)).1, hs.trans hst⟩
  exact hb.2

lemma suffix_step (ht : s.TracedInv) (he : ∀ st, e ≠ .failAll st) (k : Nat) : s.callLog k <:+ (s.step e).callLog k := by
  cases e with
  | forward input sink sinkLen dmabufFd o =>
    have hu := ht.inv.unborn (s.nextCallId + 1) (by omega)
    have sub := forwardFull_submitted input sink sinkLen dmabufFd o ht.inv.next_notMem
    change (s.view k).log <:+ ((nkvxFrontForwardFull s input sink sinkLen dmabufFd o).1.view k).log
    generalize nkvxFrontForwardFull s input sink sinkLen dmabufFd o = r at sub
    -- a submission writes to the ledger of the next id alone, which is still empty
    have old : ∀ s' : Front, (∀ j, j ≠ s.nextCallId + 1 → s'.view j = s.view j) →
        (s.view k).log <:+ (s'.view k).log := by
      intro s' other
      by_cases hk : k = s.nextCallId + 1
      · rw [hk, hu]
        exact nil_suffix
      · exact suffix_of_view_eq (other k hk)
    cases sub with
    | rejected e => exact suffix_refl _
    | refused e a b same other _ _ => exact old _ other
    | accepted c wire fresh callId _ _ same other _ _ => exact old _ other
  | kvForward input sink sinkLen o =>
    change (s.view k).log <:+ ((nkvxFrontKvForward s input sink sinkLen o).1.view k).log
    exact suffix_of_view_eq (view_kvForward ..)
  | cancel token o =>
    simp only [step, nkvxFrontCancel]
    split_ifs with hn hm
    · exact suffix_refl _
    · obtain ⟨c, hc, -, -⟩ := ht.live (.inr (.inr hm))
      exact (acts_beginCancel hc o).suffix (CallView.suffix_beginCancel ..) k
    · exact suffix_refl _
  | cancelAll o => exact suffix_cancelAll ht o k
  | failAll st => exact absurd rfl (he st)
  | fire c =>
    cases c with
    | forward id ret output =>
      by_cases hm : id ∈ s.forwards
      · obtain ⟨c, hc, -, -⟩ := ht.live (.inl hm)
        exact (acts_fire_forward hc hm ret output).suffix
          (CallView.suffix_forwardCb (s.view id).popForward ret output) k
      · simp [step, RadosNkv.fire, hm]
    | ack id ret =>
      by_cases hm : id ∈ s.cancels
      · obtain ⟨c, hc, -, -⟩ := ht.live (.inr (.inl hm))
        exact (acts_fire_ack hc hm ret).suffix
          (CallView.suffix_ackCb (s.view id).popCancel ret) k
      · simp [step, RadosNkv.fire, hm]
    | kv i ret output =>
      change (s.view k).log <:+ ((RadosNkv.fire s (.kv i ret output)).view k).log
      exact suffix_of_view_eq (view_fire_kv ..)

end Front

end RadosNkv
