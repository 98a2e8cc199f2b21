import RadosNkv.Front.Bookkeeping

/-! What a front knows when it gives up a cancelled call: whether an ack or a response was delivered
before the bulk handles are released and the tenant is told. -/

namespace RadosNkv

open Ledger List

/-- The peer has shown that it is done with the call. -/
def Evidence (log : List CallEffect) : Prop := .responseDelivered ∈ log ∨ .ackDelivered ∈ log

def Warranted (log : List CallEffect) : Prop :=
  .cancelBegun ∈ log → (∃ h, .acquired h ∈ log) → Evidence log

def evidenceLaw : CallEffect → List CallEffect → Prop
  | .released _, older => Warranted older
  | .tenant _ _ _, older => Warranted older
  | _, _ => True

/-- Handles are released, and the tenant is told, only with evidence if the call was cancelled. -/
def Front.EvidenceLaw (s : Front) : Prop := ∀ id, Justified evidenceLaw (s.callLog id)

def Front.LastHope (s : Front) (id : Nat) (other : Call → Bool) : Prop :=
  ∃ c, s.calls id = some c ∧ c.cancelling ∧ other c ∧ c.held ≠ [] ∧ ¬Evidence (s.callLog id)

/-- The last callback of a cancelled call fails, and there is no evidence so far. -/
def Front.Blind (s : Front) : FrontEvent → Prop
  | .fire (.forward id ret _) => id ∈ s.forwards ∧ ret ≠ .success ∧ s.LastHope id Call.cancelAcked
  | .fire (.ack id ret) => id ∈ s.cancels ∧ ret ≠ .success ∧ s.LastHope id Call.forwardDone
  | _ => False

namespace CallView

variable {v : CallView} {c : Call}

structure Traced (c : Call) (v : CallView) : Prop where
  open_ : c.tenantDone = false
  begun : .cancelBegun ∈ v.log ↔ c.cancelling
  kept : ∀ h, .released h ∉ v.log

def TracedOk (v : CallView) : Prop := ∀ c, v.call = some c → Traced c v

variable {e : CallEffect}

lemma Traced.note (h : Traced c v) (he : e.isNote) (hb : e ≠ .cancelBegun) : Traced c (v.emit e) := by
  refine ⟨h.open_, ?_, fun b hb' => ?_⟩
  · rw [← h.begun]
    simp [Ne.symm hb]
  · cases e <;> simp_all [h.kept b]

lemma Live.bulk_iff (h : Live c v) (ht : Traced c v) : (∃ b, .acquired b ∈ v.log) ↔ c.held ≠ [] := by
  have hc : ∀ b, acquisitions v.log b = c.held.count b := by
    intro b
    have := h.held b
    have hz : releases v.log b = 0 := count_eq_zero.mpr (ht.kept b)
    omega
  constructor
  · rintro ⟨b, hb⟩ hn
    have hp : 0 < acquisitions v.log b := count_pos_iff.mpr hb
    rw [hc b, hn] at hp
    simp at hp
  intro he
  obtain ⟨b, hb⟩ := exists_mem_of_ne_nil _ he
  refine ⟨b, count_pos_iff.mp ?_⟩
  show 0 < acquisitions v.log b
  rw [hc b]
  exact count_pos_iff.mpr hb

lemma justified_released (bs : List BulkHandle) {log : List CallEffect} (hw : Warranted log) :
    Justified evidenceLaw (bs.map .released ++ log) ↔ Justified evidenceLaw log := by
  have ha : ∀ bs : List BulkHandle, Warranted (bs.map .released ++ log) := by
    intro bs
    induction bs with
    | nil => exact hw
    | cons b bs ih => simpa [Warranted, Evidence] using ih
  induction bs with
  | nil => rfl
  | cons b bs ih => exact ⟨fun h => ih.mp h.2, fun h => ⟨ha bs, ih.mpr h⟩⟩

lemma justified_giveUp (st : IoStatus) (n : Nat) (out : Option Bytes) :
    Justified evidenceLaw (((v.emit (.tenant st n out)).releaseBoth c).unlink).free.log ↔
      Justified evidenceLaw v.log ∧ Warranted v.log := by
  have hl : (((v.emit (.tenant st n out)).releaseBoth c).unlink).free.log =
      .freed :: (c.held.reverse.map .released ++ .tenant st n out :: v.log) := by
    simp [free, releaseBoth_eq]
  rw [hl]
  have hf : ∀ l, Justified evidenceLaw (.freed :: l) ↔ Justified evidenceLaw l :=
    fun l => ⟨fun h => h.2, fun h => ⟨trivial, h⟩⟩
  rw [hf]
  constructor
  · intro h
    have ht : ∀ (bs : List BulkHandle) {l : List CallEffect},
        Justified evidenceLaw (bs.map .released ++ l) → Justified evidenceLaw l := by
      intro bs l h
      induction bs with
      | nil => exact h
      | cons b bs ih => exact ih h.2
    exact ⟨(ht _ h).2, (ht _ h).1⟩
  rintro ⟨hj, hw⟩
  exact (justified_released _ (by simpa [Warranted, Evidence] using hw)).mpr ⟨hw, hj⟩

lemma Traced.warranted_iff (h : Live c v) (ht : Traced c v) (hc : c.cancelling) :
    Warranted v.log ↔ (c.held ≠ [] → Evidence v.log) := by
  have hb : .cancelBegun ∈ v.log := ht.begun.mpr hc
  rw [← h.bulk_iff ht]
  simp [Warranted, hb]

lemma Live.justified_tryComplete (h : Live c v) (ht : Traced c v) :
    TracedOk v.tryComplete ∧ (Justified evidenceLaw v.tryComplete.log ↔ Justified evidenceLaw v.log ∧
        (c.cancelling → c.forwardDone → c.cancelAcked → c.held ≠ [] → Evidence v.log)) := by
  simp only [tryComplete, h.call]
  by_cases hj : c.cancelling && c.forwardDone && c.cancelAcked
  · simp only [hj, if_true, h.detached, ht.open_]
    simp only [Bool.and_eq_true] at hj
    refine ⟨fun c' hc' => by simp [free] at hc', ?_⟩
    simp only [if_false, Bool.false_eq_true]
    rw [justified_giveUp, Traced.warranted_iff h ht hj.1.1]
    simp [hj.1.1, hj.1.2, hj.2]
  simp only [hj]
  refine ⟨fun c' hc' => ?_, ?_⟩
  · obtain rfl : c = c' := by simpa [h.call] using hc'
    exact ht
  simp only [Bool.and_eq_true, not_and, Bool.not_eq_true] at hj
  simp_all

lemma evidence_noteDelivered (ret : HgReturn) (he : e = .ackDelivered ∨ e = .responseDelivered) :
    Evidence (v.noteDelivered ret e).log ↔ ret = .success ∨ Evidence v.log := by
  unfold noteDelivered
  split
  · rcases he with rfl | rfl <;> simp_all [Evidence]
  · simp_all

lemma justified_noteDelivered (ret : HgReturn) (he : e.isNote) :
    Justified evidenceLaw (v.noteDelivered ret e).log ↔ Justified evidenceLaw v.log := by
  unfold noteDelivered
  split
  · cases e <;> simp_all [Justified, evidenceLaw]
  · rfl

lemma Traced.noteDelivered (h : Traced c v) (ret : HgReturn) (he : e.isNote) (hb : e ≠ .cancelBegun) :
    Traced c (v.noteDelivered ret e) := by
  unfold CallView.noteDelivered
  split
  · exact h.note he hb
  · exact h

lemma justified_join (he : e = .ackDelivered ∨ e = .responseDelivered) (ht : Traced c w)
    (h : Live c' ((w.noteDelivered ret e).put c')) (htn : c'.tenantDone = c.tenantDone)
    (hca : c'.cancelling = c.cancelling) (hh : c'.held = c.held) :
    TracedOk ((w.noteDelivered ret e).put c').tryComplete ∧
      (Justified evidenceLaw ((w.noteDelivered ret e).put c').tryComplete.log ↔ Justified evidenceLaw w.log ∧
          ¬(ret ≠ .success ∧ c.cancelling ∧ (c'.forwardDone ∧ c'.cancelAcked) ∧ c.held ≠ [] ∧ ¬Evidence w.log)) := by
  have hnt : e.isNote := by rcases he with rfl | rfl <;> rfl
  have hne : e ≠ .cancelBegun := by rcases he with rfl | rfl <;> simp
  obtain ⟨ho, hg, hk⟩ := ht.noteDelivered ret hnt hne
  obtain ⟨htr, hi⟩ :=
    h.justified_tryComplete ⟨htn ▸ ho, hca ▸ hg, hk⟩
  refine ⟨htr, hi.trans ?_⟩
  have hl : ((w.noteDelivered ret e).put c').log = (w.noteDelivered ret e).log := rfl
  rw [hl, justified_noteDelivered ret hnt, evidence_noteDelivered ret he, hca, hh]
  refine and_congr_right fun _ => ⟨?_, ?_⟩
  · rintro hal ⟨hre, hc, ⟨hf, ha⟩, hb, hno⟩
    exact (hal hc hf ha hb).elim hre hno
  intro hn hc hf ha hb
  by_contra hno
  exact hn ⟨fun hr => hno (.inl hr), hc, ⟨hf, ha⟩, hb, fun hv => hno (.inr hv)⟩

lemma Live.justified_ackCb (h : Live c v) (ht : Traced c v) (hp : 0 < v.cancels) (ret : HgReturn) :
    TracedOk (v.popCancel.ackCb ret) ∧ (Justified evidenceLaw (v.popCancel.ackCb ret).log ↔
      Justified evidenceLaw v.log ∧
        ¬(ret ≠ .success ∧ c.cancelling ∧ c.forwardDone ∧ c.held ≠ [] ∧ ¬Evidence v.log)) := by
  have hc : v.popCancel.call = some c := h.call
  have hr : Traced c v.popCancel := ⟨ht.open_, ht.begun, ht.kept⟩
  simp only [ackCb, hc]
  have hj := justified_join (.inl rfl) hr (h.acked hp ret) rfl rfl rfl
  simpa using hj

lemma Live.justified_forwardCb (h : Live c v) (ht : Traced c v) (hp : 0 < v.forwards)
    (ret : HgReturn) (output : Option ExecOut) : TracedOk (v.popForward.forwardCb ret output) ∧
      (Justified evidenceLaw (v.popForward.forwardCb ret output).log ↔ Justified evidenceLaw v.log ∧
          ¬(ret ≠ .success ∧ c.cancelling ∧ c.cancelAcked ∧ c.held ≠ [] ∧ ¬Evidence v.log)) := by
  have hl : v.popForward.call = some c := h.call
  have hr : Traced c v.popForward := ⟨ht.open_, ht.begun, ht.kept⟩
  simp only [forwardCb, hl]
  by_cases hc : c.cancelling
  · rw [if_pos hc]
    have hj := justified_join (.inr rfl) hr (h.resolved hp hc ret) rfl rfl rfl
    simpa using hj
  rw [if_neg hc, if_neg (by simp [ht.open_]), releaseBoth_unlink]
  have hw : Warranted (v.popForward.noteDelivered ret .responseDelivered).log := fun hb =>
    absurd ((hr.noteDelivered ret rfl (by simp)).begun.mp hb) hc
  refine ⟨fun c' hc' => by simp [free] at hc', ?_⟩
  rw [justified_giveUp, justified_noteDelivered ret rfl]
  simp [hw, hc]

lemma Live.traced_beginCancel (h : Live c v) (ht : Traced c v) (o : CancelOutcome) (ch : HgHandle) :
    TracedOk (v.beginCancel o ch) ∧ (Justified evidenceLaw (v.beginCancel o ch).log ↔ Justified evidenceLaw v.log) := by
  simp only [beginCancel, h.call]
  split_ifs with hc hi hs
  · refine ⟨fun c' hc' => ?_, Iff.rfl⟩
    obtain rfl : c = c' := by simpa [h.call] using hc'
    exact ht
  all_goals
    refine ⟨fun c' hc' => ?_, ?_⟩
    · obtain rfl := Option.some.inj hc'
      refine ⟨ht.open_, ?_, fun b => ?_⟩
      · simp [put, forwardCancel]
      · simpa [put, forwardCancel] using ht.kept b
    · simp [put, forwardCancel, Justified, evidenceLaw]

lemma justified_refuse (a b : Option BulkHandle) : Justified evidenceLaw (unborn.refuse a b).log := by
  cases a <;> cases b <;>
    simp [refuse, acquire, release, free, unborn, Justified, evidenceLaw, Warranted]

lemma traced_accept (hc : c.Fresh) (wire : ExecIn) :
    TracedOk (unborn.accept c wire) ∧ Justified evidenceLaw (unborn.accept c wire).log := by
  refine ⟨fun c' hc' => ?_, ?_⟩
  · obtain rfl := Option.some.inj hc'
    refine ⟨hc.tenantDone, ?_, fun b => ?_⟩ <;> cases hi : c.inputBulk <;>
      cases hs : c.resultSink <;>
      simp [accept, acquire, forwardExec, put, link, unborn, hc.cancelling, hi, hs]
  cases hi : c.inputBulk <;> cases hs : c.resultSink <;>
    simp [accept, acquire, forwardExec, put, link, unborn, Justified, evidenceLaw, hi, hs]

end CallView

namespace Front

variable {s s' : Front} {id : Nat}

structure TracedInv (s : Front) : Prop where
  inv : s.Inv
  traced : ∀ id, (s.view id).TracedOk

lemma tracedInv_init : TracedInv init :=
  ⟨inv_init, fun _ _ h => by cases h⟩

lemma TracedInv.live (h : TracedInv s) (hv : id ∈ s.forwards ∨ id ∈ s.cancels ∨ id ∈ s.inflight) :
    ∃ c, s.calls id = some c ∧ (s.view id).Live c ∧ (s.view id).Traced c := by
  obtain ⟨c, hc, hl, -⟩ := h.inv.live hv
  exact ⟨c, hc, hl, h.traced id c hc⟩

lemma evidenceLaw_act {v : CallView} {p : Prop} (ha : Acts s s' id v)
    (hi : Justified evidenceLaw v.log ↔ Justified evidenceLaw (s.view id).log ∧ p) :
    s'.EvidenceLaw ↔ s.EvidenceLaw ∧ p := by
  have hs : s'.callLog id = v.log := congrArg CallView.log ha.same
  have ho : ∀ j, j ≠ id → s'.callLog j = s.callLog j := fun j hj =>
    congrArg CallView.log (ha.other j hj)
  constructor
  · intro h
    have hd := h id
    rw [hs, hi] at hd
    refine ⟨fun j => ?_, hd.2⟩
    by_cases hj : j = id
    · rw [hj]
      exact hd.1
    rw [← ho j hj]
    exact h j
  rintro ⟨h, hp⟩ j
  by_cases hj : j = id
  · rw [hj, hs, hi]
    exact ⟨h id, hp⟩
  rw [ho j hj]
  exact h j

lemma tracedOk_act (h : TracedInv s) (ha : Acts s s' id v) (hv : v.TracedOk) :
    ∀ j, (s'.view j).TracedOk := by
  intro j
  by_cases hj : j = id
  · rw [hj, ha.same]
    exact hv
  rw [ha.other j hj]
  exact h.traced j

def Decides (s : Front) (e : FrontEvent) : Prop :=
  TracedInv (s.step e) ∧ ((s.step e).EvidenceLaw ↔ s.EvidenceLaw ∧ ¬s.Blind e)

section

variable (h : TracedInv s)
include h

lemma decides_fire_forward (ret : HgReturn) (output : Option ExecOut) : Decides s (.fire (.forward id ret output)) := by
  refine ⟨⟨h.inv.fire_forward ret output, ?_⟩, ?_⟩ <;> simp only [step, Blind]
  all_goals by_cases hm : id ∈ s.forwards
  · have hp : 0 < (s.view id).forwards := count_pos_iff.mpr hm
    obtain ⟨c, hc, hl, ht⟩ := h.live (.inl hm)
    exact tracedOk_act h (acts_fire_forward hc hm ret output)
      (hl.justified_forwardCb ht hp ret output).1
  · simpa [RadosNkv.fire, hm] using h.traced
  · have hp : 0 < (s.view id).forwards := count_pos_iff.mpr hm
    obtain ⟨c, hc, hl, ht⟩ := h.live (.inl hm)
    rw [evidenceLaw_act (acts_fire_forward hc hm ret output)
      (hl.justified_forwardCb ht hp ret output).2]
    have ho : s.callLog id = (s.view id).log := rfl
    simp [hm, LastHope, hc, ho]
  · simp [RadosNkv.fire, hm]

lemma decides_fire_ack (ret : HgReturn) : Decides s (.fire (.ack id ret)) := by
  refine ⟨⟨h.inv.fire_ack ret, ?_⟩, ?_⟩ <;> simp only [step, Blind]
  all_goals by_cases hm : id ∈ s.cancels
  · have hp : 0 < (s.view id).cancels := count_pos_iff.mpr hm
    obtain ⟨c, hc, hl, ht⟩ := h.live (.inr (.inl hm))
    exact tracedOk_act h (acts_fire_ack hc hm ret) (hl.justified_ackCb ht hp ret).1
  · simpa [RadosNkv.fire, hm] using h.traced
  · have hp : 0 < (s.view id).cancels := count_pos_iff.mpr hm
    obtain ⟨c, hc, hl, ht⟩ := h.live (.inr (.inl hm))
    rw [evidenceLaw_act (acts_fire_ack hc hm ret) (hl.justified_ackCb ht hp ret).2]
    have ho : s.callLog id = (s.view id).log := rfl
    simp [hm, LastHope, hc, ho]
  · simp [RadosNkv.fire, hm]

lemma TracedInv.beginCancel (hm : id ∈ s.inflight) (o : CancelOutcome) :
    TracedInv (nkvxCallBeginCancel s id o) ∧ ((nkvxCallBeginCancel s id o).EvidenceLaw ↔ s.EvidenceLaw) := by
  obtain ⟨c, hc, hl, ht⟩ := h.live (.inr (.inr hm))
  have ha := acts_beginCancel hc o
  obtain ⟨hr, hi⟩ := hl.traced_beginCancel ht o s.nextHandle
  refine ⟨⟨h.inv.beginCancel hm o, tracedOk_act h ha hr⟩, ?_⟩
  rw [evidenceLaw_act (p := True) ha (by rw [hi]; simp)]
  simp

lemma TracedInv.cancelAll (o : Nat → CancelOutcome) : TracedInv (nkvxFrontCancelAll s o) ∧
      ((nkvxFrontCancelAll s o).EvidenceLaw ↔ s.EvidenceLaw) := by
  apply cancelAll_induct (P := fun s' => TracedInv s' ∧ (s'.EvidenceLaw ↔ s.EvidenceLaw))
  · exact ⟨h, Iff.rfl⟩
  rintro s' id ⟨ht, hi⟩ hd
  obtain ⟨ht', hi'⟩ := ht.beginCancel hd (o id)
  exact ⟨ht', hi'.trans hi⟩

lemma decides_forward (input : ExecIn) (sink : Option Nat) (sinkLen : Nat)
    (dmabufFd : Int) (o : ForwardOutcome) : Decides s (.forward input sink sinkLen dmabufFd o) := by
  have hu := h.inv.unborn (s.nextCallId + 1) (by omega)
  have hi := h.inv.forward input sink sinkLen dmabufFd o
  have sub := forwardFull_submitted input sink sinkLen dmabufFd o h.inv.next_notMem
  simp only [Decides, step, Blind, not_false_eq_true, and_true]
  generalize nkvxFrontForwardFull s input sink sinkLen dmabufFd o = r at sub hi
  -- The new call's ledger obeys the law; every other call keeps its ledger.
  have born : ∀ {s' : Front} {v : CallView}, s'.Inv → s'.view (s.nextCallId + 1) = v →
      v.TracedOk → Justified evidenceLaw v.log →
      (∀ j, j ≠ s.nextCallId + 1 → s'.view j = s.view j) →
      TracedInv s' ∧ (s'.EvidenceLaw ↔ s.EvidenceLaw) := by
    intro s' v hs' same ht hj other
    have ho : ∀ j, j ≠ s.nextCallId + 1 → s'.callLog j = s.callLog j := fun j hj =>
      congrArg CallView.log (other j hj)
    refine ⟨⟨hs', fun j => ?_⟩, fun hl j => ?_, fun hl j => ?_⟩ <;>
      by_cases hn : j = s.nextCallId + 1
    · rw [hn, same]
      exact ht
    · rw [other j hn]
      exact h.traced j
    · have : s.callLog j = [] := by rw [hn]; exact congrArg CallView.log hu
      rw [this]
      trivial
    · rw [← ho j hn]
      exact hl j
    · have : s'.callLog j = v.log := by rw [hn]; exact congrArg CallView.log same
      rw [this]
      exact hj
    rw [ho j hn]
    exact hl j
  cases sub with
  | rejected e => exact ⟨h, Iff.rfl⟩
  | refused e a b same other _ _ =>
    rw [hu] at same
    exact born hi same (fun _ hc => by cases hc) (CallView.justified_refuse a b) other
  | accepted c wire fresh _ _ _ same other _ _ =>
    rw [hu] at same
    obtain ⟨ht, hj⟩ := CallView.traced_accept fresh wire
    exact born hi same ht hj other

lemma decides_kv (hs' : s'.Inv) (hv : ∀ id, s'.view id = s.view id) :
    TracedInv s' ∧ (s'.EvidenceLaw ↔ s.EvidenceLaw) := by
  refine ⟨⟨hs', fun id => hv id ▸ h.traced id⟩, ?_⟩
  have hl : ∀ id, s'.callLog id = s.callLog id := fun id => congrArg CallView.log (hv id)
  simp [EvidenceLaw, hl]

lemma decides_step (e : FrontEvent) (he : ∀ st, e ≠ .failAll st) : Decides s e := by
  cases e with
  | forward => exact decides_forward h ..
  | kvForward input sink sinkLen o =>
    simpa [Decides, step, Blind] using
      decides_kv h (h.inv.kvForward input sink sinkLen o) (view_kvForward s input sink sinkLen o)
  | cancel token o =>
    simp only [Decides, step, Blind, nkvxFrontCancel, not_false_eq_true, and_true]
    split_ifs with hn hm
    · exact ⟨h, Iff.rfl⟩
    · exact h.beginCancel hm o
    · exact ⟨h, Iff.rfl⟩
  | cancelAll o =>
    simpa [Decides, step, Blind] using h.cancelAll o
  | failAll st => exact absurd rfl (he st)
  | fire c =>
    cases c with
    | forward => exact decides_fire_forward h ..
    | ack id ret => exact decides_fire_ack h ret
    | kv k ret output =>
      simpa [Decides, step, Blind] using
        decides_kv h (h.inv.fire_kv k ret output) (view_fire_kv s k ret output)

end

end Front

/-- In a run without the forced teardown, cancelled calls are given up only on evidence exactly when
no step of the run completes a join by an error with nothing delivered before. -/
theorem evidenceLaw_iff_not_blind (evs : List FrontEvent) (hno : ∀ st, .failAll st ∉ evs) :
    (Front.after evs).EvidenceLaw ↔
      Machine.Along Front.step (fun s e => ¬s.Blind e) Front.init evs := by
  refine Machine.run_iff_along Front.step (I := Front.TracedInv)
    (N := fun e => ∀ st, e ≠ FrontEvent.failAll st) Front.tracedInv_init (fun _ => trivial)
    (fun s e h he => (Front.decides_step h e he).1) (fun s e h he => (Front.decides_step h e he).2)
    fun e he st heq => hno st (heq ▸ he)

def sampleExec : ExecIn :=
  { opId := 7, clientCallId := 0, readOnly := true, runtime := .nkvx, caps := 0, key := [107],
    sha256 := [], sha256Valid := false, moduleKey := none, moduleNs := none, osize := 65536,
    inputLen := 0, inputInline := none, inputBulk := none, resultSink := none }

def sampleForward : FrontEvent := .forward sampleExec (some 4096) 65536 (-1) ⟨true, true, true, true, true⟩

def abortWithLostAck : List FrontEvent :=
  [sampleForward, .cancel 1 ⟨true, true⟩, .fire (.forward 1 .canceled none), .fire (.ack 1 (.error 5))]

/-- The front releases the sink although neither an ack nor a response was delivered. -/
theorem lost_ack_releases_sink :
    (∀ st, .failAll st ∉ abortWithLostAck) ∧ .released 0 ∈
    (Front.after abortWithLostAck).callLog 1 ∧
      ¬Evidence ((Front.after abortWithLostAck).callLog 1) ∧
      ¬(Front.after abortWithLostAck).EvidenceLaw := by
  have hlog : (Front.after abortWithLostAck).callLog 1 =
      [.freed, .released 0, .tenant .aborted 0 none, .hgCancel, .cancelSent, .cancelBegun,
        .execSent { sampleExec with clientCallId := 1, resultSink := some 0 }, .acquired 0] := by
    decide
  refine ⟨by simp [abortWithLostAck, sampleForward], by simp [hlog], by simp [hlog, Evidence],
    fun h => ?_⟩
  have h1 := h 1
  rw [hlog] at h1
  simp [Justified, evidenceLaw, Warranted, Evidence] at h1

def abortWithAck : List FrontEvent :=
  [sampleForward, .cancel 1 ⟨true, true⟩, .fire (.forward 1 .canceled none), .fire (.ack 1 .success)]

theorem abortWithAck_evidence :
    (∀ st, .failAll st ∉ abortWithAck) ∧ (Front.after abortWithAck).EvidenceLaw := by
  have hno : ∀ st, .failAll st ∉ abortWithAck := by simp [abortWithAck, sampleForward]
  refine ⟨hno, (evidenceLaw_iff_not_blind abortWithAck hno).mpr ⟨id, id, ?_, ?_, trivial⟩⟩
  · -- The forward completes first: the ack is still to come.
    rintro ⟨-, -, c, hc, -, hack, -⟩
    cases hc
    cases hack
  rintro ⟨-, hret, -⟩
  exact hret rfl

end RadosNkv
