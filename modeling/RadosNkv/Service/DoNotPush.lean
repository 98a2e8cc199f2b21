import RadosNkv.Service.Invariant

/-! The do-not-PUSH flag. A cancel recorded before the result PUSH is submitted is to keep the PUSH
from being submitted. -/

namespace RadosNkv

open Ledger ReqView

/-- A cancel was stashed before any push was submitted. -/
def CancelledFirst (log : List ReqEffect) : Prop :=
  ∃ newer h older, log = newer ++ .cancelStashed h :: older ∧ .submitted .push ∉ older

def pushLaw : ReqEffect → List ReqEffect → Prop
  | .submitted .push, older => ¬ CancelledFirst older
  | .responded out _, older =>
    reports out.status → ∀ origin input res, .arrived origin input ∈ older → .ran res ∈ older →
      routed input res → ¬ CancelledFirst older
  | _, _ => True

/-- Behind a cancel that came first nothing is pushed, nor a routed result reported. -/
structure Service.PushLaw (s : Service) : Prop where
  lawful : ∀ r, Justified pushLaw (about s.log r)

variable {log : List ReqEffect}

lemma cancelledFirst_cons (he : ∀ h, e ≠ .cancelStashed h) :
    CancelledFirst (e :: log) ↔ CancelledFirst log := by
  constructor
  · rintro ⟨newer, h, older, hq, hn⟩
    cases newer with
    | nil => exact absurd (List.cons.inj hq).1 (he h)
    | cons e' newer => exact ⟨newer, h, older, (List.cons.inj hq).2, hn⟩
  rintro ⟨newer, h, older, rfl, hn⟩
  exact ⟨e :: newer, h, older, rfl, hn⟩

lemma CancelledFirst.of_getElem? (hn : log[n]? = some (.cancelStashed h))
    (ho : .submitted .push ∉ log.drop (n + 1)) : CancelledFirst log := by
  obtain ⟨hl, hg⟩ := List.getElem?_eq_some_iff.mp hn
  refine ⟨log.take n, h, log.drop (n + 1), ?_, ho⟩
  rw [← hg, ← List.drop_eq_getElem_cons hl, List.take_append_drop]

lemma not_cancelledFirst (h : ∀ hd, .cancelStashed hd ∉ log) : ¬ CancelledFirst log := by
  rintro ⟨newer, hd, older, rfl, -⟩
  exact h hd (by simp)

lemma not_cancelledFirst_stash (hd : HgHandle) (h : ¬ CancelledFirst log) (hp : .submitted .push ∈ log) :
    ¬ CancelledFirst (.cancelStashed hd :: log) := by
  rintro ⟨newer, hd', older, he, hn⟩
  cases newer with
  | nil =>
    have : log = older := (List.cons.inj he).2
    exact hn (this ▸ hp)
  | cons e newer => exact h ⟨newer, hd', older, (List.cons.inj he).2, hn⟩

structure ReqView.Heeds (v : ReqView) : Prop where
  lawful : Justified pushLaw v.log
  unpushed : v.pushes = 0 → v.req ≠ none → Unpushed v.log
  pushed : v.pushes ≠ 0 → .submitted .push ∈ v.log ∧ ¬ CancelledFirst v.log
  heeded : ∀ q, v.req = some q → q.cancelHandle ≠ none → v.pulls = 0 → v.pushes = 0 →
    q.doNotPush = true

structure Req.Heeding (q : Req) (b : Bool) (log : List ReqEffect) : Prop where
  lawful : Justified pushLaw log
  unpushed : Unpushed log
  heeded : q.cancelHandle ≠ none → (b = true → routed q.input q.res) → q.doNotPush = true

section Settling

variable {s s' : Service} {r : Nat} {q : Req}

lemma justified_pushLaw_finish {q : Req} (h : Justified pushLaw log)
    (hr : pushLaw (.responded q.out i) log) :
    Justified pushLaw (q.finishEffects i ++ log) :=
  justified_finishEffects h hr fun e he hn older => by
    cases e <;> trivial

lemma Finishes.lawful (h : Finishes s r q b s') (hv : (s.view r).Ready b q) (hl : Justified pushLaw (s.view r).log)
    (hc : .completed .push .success ∈ (s.view r).log → ¬ CancelledFirst (s.view r).log) :
    Justified pushLaw (s'.view r).log := by
  cases h with
  | @failed _ q' status same hn =>
    let q'' : Req := { q' with out := ⟨nkvxStatusToWire status, 0, none⟩ }
    have ht : q''.Trace b (s.view r).log := hv.trace.same { same with }
    rw [nkvxReqFail, s.view_finish_same q'' ht.registered]
    exact justified_pushLaw_finish hl fun he => absurd he hn
  | @delivered q' same hr =>
    have ht := hv.trace.same same
    rw [s.view_finish_same q' ht.registered]
    refine justified_pushLaw_finish hl fun _ origin input res ha hra hrt => ?_
    obtain ⟨-, rfl⟩ := hv.trace.ran res hra
    have hs := (hv.trace.arrival origin input ha).2.2
    refine hc (hr ?_)
    rwa [routed, ← hs]

lemma Finishes.heeds (h : Finishes s r q b s') (hv : (s.view r).Ready b q) (hl : Justified pushLaw (s.view r).log)
    (hc : .completed .push .success ∈ (s.view r).log → ¬ CancelledFirst (s.view r).log) : (s'.view r).Heeds := by
  have hg := h.gone hv
  refine ⟨h.lawful hv hl hc, fun _ hr => absurd hg.req hr, fun hp => absurd hg.pushes hp, fun q' hq' => ?_⟩
  rw [hg.req] at hq'
  cases hq'

lemma Req.Trace.not_cancelled (h : q.Trace b log) (hc : q.cancelHandle = none) :
    ∀ hd, .cancelStashed hd ∉ log := by
  intro hd hm
  rw [(h.stash hd).mp hm] at hc
  cases hc

lemma Settles.heeds (h : Settles s r q b s') (hv : (s.view r).Ready b q)
    (hq : q.Heeding b (s.view r).log) : (s'.view r).Heeds := by
  have hs := hv.pushes
  cases h with
  | finishes h => exact h.heeds hv hq.lawful fun hm => absurd hm (hq.unpushed.completed _)
  | pushStalled hr hd =>
    rw [s.view_put_same]
    refine ⟨hq.lawful, fun _ _ => hq.unpushed, fun hp => absurd hs hp, ?_⟩
    rintro q' hq' hc - -
    cases hq'
    exact hq.heeded hc fun _ => hr
  | @pushing q' same hr hd hf =>
    have hn : q.cancelHandle = none := by
      by_contra hc
      rw [hq.heeded hc fun _ => hr] at hd
      cases hd
    have hl := not_cancelledFirst (hv.trace.not_cancelled hn)
    rw [s.view_push_same]
    refine ⟨⟨hl, hq.lawful⟩, fun hp => by simp at hp, fun _ => ⟨by simp, ?_⟩, fun _ _ _ _ hp => by simp at hp⟩
    rwa [cancelledFirst_cons (by simp)]
  | pullStalled =>
    rw [s.view_put_same]
    refine ⟨hq.lawful, fun _ _ => hq.unpushed, fun hp => absurd hs hp, ?_⟩
    rintro q' hq' hc - -
    cases hq'
    exact hq.heeded hc nofun
  | pulling same hd hf =>
    rw [s.view_pull_same]
    exact ⟨⟨trivial, hq.lawful⟩, fun _ _ => hq.unpushed.cons (by simp) (by simp),
      fun hp => absurd hs hp, fun _ _ _ hp => by simp at hp⟩

end Settling

namespace Service

variable {s s' : Service} {r : Nat} {q : Req}

def Heeds (s : Service) : Prop := ∀ r, (s.view r).Heeds

lemma Heeds.of_view (h : s.Heeds) (hn : ∀ j, j ≠ r → s'.view j = s.view j) (hr : (s'.view r).Heeds) : s'.Heeds :=
  forall_view h hn hr

lemma Heeds.settles (h : s.Heeds) (hh : s.Handling r q b) (hq : q.Heeding b (s.view r).log)
    (hs : Settles s r q b s') : s'.Heeds :=
  h.of_view (fun _ hj => hs.view_ne hj) (hs.heeds hh.ready hq)

lemma Heeding.ran (h : q.Heeding false log) (res : ExecResult)
    (hc : q.cancelHandle ≠ none → routed q.input res → q.doNotPush = true) :
    ({ q with res } : Req).Heeding true (.ran res :: log) :=
  ⟨⟨trivial, h.lawful⟩, h.unpushed.cons (by simp) (by simp), fun hn hr => hc hn (hr rfl)⟩

lemma Heeds.ran (h : s.Heeds) (hh : s.Handling r q false) (hq : q.Heeding false (s.view r).log)
    (hc : q.cancelHandle ≠ none → routed q.input res → q.doNotPush = true)
    (hs : Settles (s.emit r (.ran res)) r { q with res } true s') : s'.Heeds := by
  refine h.of_view (fun j hj => (hs.view_ne hj).trans (s.view_emit_ne hj _)) ?_
  refine hs.heeds (hh.ran res).ready ?_
  rw [s.view_emit_same]
  exact Heeding.ran hq res hc

lemma Heeds.exec (h : s.Heeds) (hi : s.Inv) (origin : HgAddr) (input : ExecIn)
    (o : ServeOutcome) : (nkvxExecHandler s origin (some input) o).Heeds := by
  have hh := hi.receive origin input
  have hv := view_receive_same hi origin input
  have hl : ((s.receive origin input).view s.nextReq).log = [.arrived origin input] := by
    rw [hv]
  have hq : ({ s.newReq origin input with registered := true } : Req).Heeding false
      ((s.receive origin input).view s.nextReq).log := by
    rw [hl]
    exact ⟨⟨trivial, trivial⟩, ⟨by simp, by simp⟩, fun hc => absurd rfl hc⟩
  have hr : (s.receive origin input).Heeds := by
    refine h.of_view (fun j hj => view_receive_ne origin input hj) ?_
    rw [hv]
    exact ⟨⟨trivial, trivial⟩, fun _ _ => ⟨by simp, by simp⟩, fun hp => absurd rfl hp,
      fun q hq hc => absurd (by cases hq; rfl) hc⟩
  rcases start_settles (s.receive origin input) s.nextReq _ o with hs | hs
  · exact hr.settles hh hq hs
  · exact hr.ran hh hq (fun hc => absurd rfl hc) hs

lemma Heeds.cancels (h : s.Heeds) (hi : s.Inv) (hs : Cancels s origin callId s') : s'.Heeds := by
  cases hs with
  | unknown => exact h
  | duplicate => exact h
  | @stashed r q d hr hq hc hd =>
    have hr' := h r
    obtain ⟨-, p, q', hl⟩ := hi.registered (regLookup_some hr).1
    cases hl.req.symm.trans hq
    refine h.of_view (r := r) (fun j hj => ?_) ?_
    · rw [view_put_ne _ _ hj, view_emit_ne _ hj]
      rfl
    rw [view_put_same, view_emit_same]
    have hm : (s.view r).req ≠ none := hl.req_ne
    refine ⟨⟨trivial, hr'.lawful⟩, fun hp _ => (hr'.unpushed hp hm).cons (by simp) (by simp), fun hp => ?_, ?_⟩
    · obtain ⟨hu, hcl⟩ := hr'.pushed hp
      exact ⟨List.mem_cons_of_mem _ hu, not_cancelledFirst_stash _ hcl hu⟩
    rintro q' hq' - hpl hps
    cases hq'
    -- with nothing in flight the handler sets the flag
    rcases hd with rfl | ⟨hf, -⟩
    · rfl
    have hpl : (s.view r).pulls = 0 := hpl
    have hps : (s.view r).pushes = 0 := hps
    rw [hl.pulls] at hpl
    rw [hl.pushes] at hps
    rw [hl.pushInFlight] at hf
    cases p <;> simp_all

lemma Heeds.pushed (h : s.Heeds) (hi : s.Inv) (hm : (.push, r) ∈ s.ops) (ret : HgReturn) :
    (nkvxResultPushedCb (s.retire .push r ret) r ret).Heeds := by
  obtain ⟨ht, q, hl⟩ := hi.inFlight hm
  have hr : (s.retire .push r ret).reqs r = some q := ReqView.Live.req hl
  have hv : (s.view r).Live .pushing q := hl
  have hp : (s.view r).pushes ≠ 0 := by rw [hv.pushes]; simp
  have hs := pushedCb_finishes hr (s.mem_log_retire_push r ret)
  have ho := s.view_retire_push (r := r) ret
  have hn : ∀ j, j ≠ r → (nkvxResultPushedCb (s.retire .push r ret) r ret).view j = s.view j :=
    fun j hj => ((Settles.finishes hs).view_ne hj).trans (s.view_retire_ne .push ret hj)
  refine h.of_view hn (hs.heeds (hi.retirePush ht hl ret).ready ?_ fun _ => ?_)
  · rw [ho]
    exact ⟨trivial, (h r).lawful⟩
  rw [ho, cancelledFirst_cons (by simp)]
  exact ((h r).pushed hp).2

/-- A pull ends and its run is to push although a cancel is waiting. -/
def lateRun (s : Service) : ServiceEvent → Bool
  | .complete .pull r .success o =>
    decide ((.pull, r) ∈ s.ops) &&
      (s.reqs r).any fun q => q.cancelHandle.isSome && !q.doNotPush && decide (routed q.input o.res)
  | _ => false

lemma Heeds.pulled (h : s.Heeds) (hi : s.Inv) (he : (.pull, r) ∈ s.ops) (ret : HgReturn)
    (o : ServeOutcome) (hg : s.lateRun (.complete .pull r ret o) = false) :
    (nkvxInputPulledCb (s.retire .pull r ret) r ret o).Heeds := by
  obtain ⟨ht, q, hl⟩ := hi.inFlight he
  have hre : (s.retire .pull r ret).reqs r = some q := ReqView.Live.req hl
  have hv : (s.view r).Live .pulling q := hl
  have ho := s.view_retire_pull (r := r) ret
  have ha : Justified pushLaw ((s.retire .pull r ret).view r).log := by
    rw [ho]
    exact ⟨trivial, (h r).lawful⟩
  have hu : Unpushed ((s.retire .pull r ret).view r).log := by
    have hp : (s.view r).pushes = 0 := hv.pushes
    have hsm : (s.view r).req ≠ none := hv.req_ne
    rw [ho]
    exact ((h r).unpushed hp hsm).cons (by simp) (by simp)
  have hh := hi.retirePull ht hl ret
  rcases pulledCb_settles hre ret o with hs | ⟨rfl, hs⟩
  · have hn : ∀ j, j ≠ r → (nkvxInputPulledCb (s.retire .pull r ret) r ret o).view j = s.view j :=
      fun j hj => ((Settles.finishes hs).view_ne hj).trans (s.view_retire_ne .pull ret hj)
    exact h.of_view hn (hs.heeds (hh q.input rfl).ready ha
      fun hm => absurd hm (hu.completed _))
  have hh := hh { q.input with inputInline := q.inputBuf } rfl
  have hrd := (hh.ran o.res).ready
  refine h.of_view (fun j hj => ?_) (hs.heeds hrd ?_)
  · rw [hs.view_ne hj, view_emit_ne _ hj, view_retire_ne _ _ _ hj]
  rw [view_emit_same]
  refine ⟨⟨trivial, ha⟩, hu.cons (by simp) (by simp), fun hc hr => ?_⟩
  -- a clear flag would make this the late run
  by_contra hd
  have hrt : routed q.input o.res := hr rfl
  have hsm : q.cancelHandle.isSome = true := Option.isSome_iff_ne_none.mpr hc
  have hf : q.doNotPush = false := Bool.eq_false_iff.mpr hd
  have hq : s.reqs r = some q := hre
  simp [lateRun, he, hq, hsm, hf, hrt] at hg

lemma Heeds.ticks (h : s.Heeds) (hi : s.Inv) (hl : (s.view r).Live p q) (hs : Ticks s r p q s') :
    s'.Heeds := by
  cases hs with
  | idle => exact h
  | counts n m =>
    refine h.of_view (fun _ hj => s.view_put_ne _ hj) ?_
    have hr := h r
    have hm : (s.view r).req ≠ none := hl.req_ne
    rw [view_put_same]
    refine ⟨hr.lawful, fun hp _ => hr.unpushed hp hm, hr.pushed, ?_⟩
    rintro q' hq' hc
    cases hq'
    exact hr.heeded q hl.req hc
  | settles hp hs =>
    have hr := h r
    have hh := hi.unstall hl hp
    have hm : (s.view r).req ≠ none := hl.req_ne
    refine h.settles hh ⟨hr.lawful, hr.unpushed hh.ready.pushes hm, fun hc _ => ?_⟩ hs
    exact hr.heeded q hl.req hc hh.ready.pulls hh.ready.pushes

lemma Heeds.step (h : s.Heeds) (hi : s.Inv) (hg : s.lateRun e = false) : (s.step e).Heeds := by
  refine hi.keeps h (fun origin input o _ => h.exec hi origin input o) (fun _ _ _ _ _ hc => h.cancels hi hc)
    (fun op r ret o he hm => ?_) fun _ _ _ _ _ hi h _ hl hs => h.ticks hi hl hs
  subst he
  cases op with
  | pull => exact h.pulled hi hm ret o hg
  | push => exact h.pushed hi hm ret

lemma heeds_init (executor : Bool) (pushStall pullStall : Nat) : (init executor pushStall pullStall).Heeds := by
  intro r
  exact ⟨trivial, fun _ hr => absurd rfl hr, fun hp => absurd rfl hp, fun q hq => by simp [view, init] at hq⟩

end Service

/-- In every run in which no PULL completes successfully, with a result for the sink, on a request
whose recorded cancel left `do_not_push` clear, a request cancelled before its PUSH submits none and
reports no result that would have needed one. -/
theorem pushLaw_of_no_lateRun (executor : Bool) (pushStall pullStall : Nat)
    (evs : List ServiceEvent)
    (hg : Machine.Along Service.step (fun s e => s.lateRun e = false)
      (Service.init executor pushStall pullStall) evs) :
    (Service.after executor pushStall pullStall evs).PushLaw := by
  have hrun := Machine.run_induct_along Service.step (P := fun s => s.Inv ∧ s.Heeds)
    ⟨Service.inv_init executor pushStall pullStall, Service.heeds_init executor pushStall pullStall⟩
    (fun s e h hg => ⟨h.1.step e, h.2.step h.1 hg⟩) hg
  exact ⟨fun r => (hrun.2 r).lawful⟩

lemma Service.not_pushLaw_of_getElem? {s : Service}
    (hp : (about s.log r)[n]? = some (.submitted .push))
    (hs : ((about s.log r).drop (n + 1))[m]? = some (.cancelStashed h))
    (hf : .submitted .push ∉ ((about s.log r).drop (n + 1)).drop (m + 1)) : ¬ s.PushLaw :=
  fun hl => (hl.lawful r).of_getElem? hp (CancelledFirst.of_getElem? hs hf)

def largeExec : ExecIn :=
  { opId := 1, clientCallId := 7, readOnly := false, runtime := .nkvx, caps := 0, key := [107],
    sha256 := [], sha256Valid := false, moduleKey := none, moduleNs := none, osize := 65536,
    inputLen := 8192, inputInline := none, inputBulk := some 3, resultSink := some 4 }

def largeResult : ExecResult := ⟨.success, 4097, some (List.replicate 4097 0)⟩

def largeOutcome : ServeOutcome :=
  { inputBuf := some 4096, bulk := some 5, transferred := true, res := largeResult }

def cancelDuringPull : List ServiceEvent :=
  [.exec 1 (some largeExec) largeOutcome, .cancel 1 (some 7) .success,
    .complete .pull 0 .success largeOutcome, .complete .push 0 .success largeOutcome]

/-- The PUSH is submitted after the cancel was recorded, and the result is reported. -/
theorem cancel_during_pull_pushes :
    ((about (Service.after true 0 0 cancelDuringPull).log 0)[9]? = some (.cancelStashed 1) ∧
      (about (Service.after true 0 0 cancelDuringPull).log 0)[6]? = some (.submitted .push) ∧
      (about (Service.after true 0 0 cancelDuringPull).log 0)[4]? =
        some (.responded ⟨0, 4097, none⟩ false)) ∧
      ¬ (Service.after true 0 0 cancelDuringPull).PushLaw := by
  exact ⟨by decide +kernel, Service.not_pushLaw_of_getElem? (r := 0) (n := 6) (m := 2) (h := 1) (by decide +kernel)
    (by decide +kernel) (by decide +kernel)⟩

def cancelRefused : List ServiceEvent :=
  [.exec 1 (some largeExec) largeOutcome, .cancel 1 (some 7) (.error 1),
    .complete .pull 0 .success largeOutcome]

theorem cancelRefused_pushLaw :
    (about (Service.after true 0 0 cancelRefused).log 0)[3]? =
        some (.responded ⟨-8, 0, none⟩ false) ∧
      (Service.after true 0 0 cancelRefused).PushLaw := by
  refine ⟨by decide +kernel, ?_⟩
  exact pushLaw_of_no_lateRun true 0 0 cancelRefused (by decide +kernel)

end RadosNkv
