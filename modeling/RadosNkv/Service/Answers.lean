import RadosNkv.Service.Lifecycle

/-! How the executor service answers the Exec requests that ran. -/

namespace RadosNkv

open Ledger List ReqView

lemma Req.Trace.no_response {q : Req} {b : Bool} {log : List ReqEffect} (h : q.Trace b log) (out : ExecOut)
    (i : Bool) : .responded out i ∉ log :=
  fun hm => by simpa [ReqEffect.isFinal] using h.silent _ hm

structure ReqView.Answers (v : ReqView) : Prop where
  answer : ∀ origin input res out i, .arrived origin input ∈ v.log → .ran res ∈ v.log →
    .responded out i ∈ v.log → Answer input.resultSink res v.log out
  uncompleted : v.req ≠ none → ∀ ret, .completed .push ret ∉ v.log
  unsubmitted : v.req ≠ none → v.pushes = 0 → .submitted .push ∉ v.log

section Settling

variable {s s' : Service} {q : Req}

lemma ReqView.Answers.unpushed {v : ReqView} (h : v.Answers) (hr : v.req ≠ none) (hp : v.pushes = 0) :
    Unpushed v.log :=
  ⟨h.unsubmitted hr hp, h.uncompleted hr⟩

lemma answers_live {v : ReqView} (ht : q.Trace b v.log) (hc : ∀ ret, .completed .push ret ∉ v.log)
    (hs : v.pushes = 0 → .submitted .push ∉ v.log) : v.Answers where
  answer _ _ _ out i _ _ hr := absurd hr (ht.no_response out i)
  uncompleted _ := hc
  unsubmitted _ := hs

lemma answers_finish (ht : q.Trace b (s.view r).log)
    (hn : b = true → Answer q.input.resultSink q.res (s.view r).log q.out) :
    ((nkvxReqFinish s r q).view r).Answers := by
  have hf : ∀ e ∈ q.finishEffects (s.inFlight r), e.isFinal = true := by
    intro e he
    rcases Req.mem_finishEffects he with rfl | ⟨_, rfl⟩ | ⟨_, rfl⟩ | rfl <;> rfl
  rw [s.view_finish_same q ht.registered]
  refine ⟨fun origin input res out i ha hra hs => ?_, fun hr => absurd rfl hr, fun hr => absurd rfl hr⟩
  have ha : .arrived origin input ∈ (s.view r).log := (mem_append.mp ha).resolve_left fun hm => by
    simpa [ReqEffect.isFinal] using hf _ hm
  have hra : .ran res ∈ (s.view r).log := (mem_append.mp hra).resolve_left fun hm => by
    simpa [ReqEffect.isFinal] using hf _ hm
  obtain ⟨hb, rfl⟩ := ht.ran res hra
  rw [(ht.arrival origin input ha).2.2]
  rcases mem_append.mp hs with hm | hm
  · rcases Req.mem_finishEffects hm with he | ⟨_, he⟩ | ⟨_, he⟩ | he <;> cases he
    exact (hn hb).append hf
  · exact absurd hm (ht.no_response out i)

lemma answers_fail {q' : Req} (ht : q.Trace b (s.view r).log) (hu : Unpushed (s.view r).log)
    (hr : b = true → routed q.input q.res) (same : q'.Same q)
    (hn : ¬ reports (nkvxStatusToWire status)) : ((nkvxReqFail s r q' status).view r).Answers := by
  refine answers_finish (q := { q' with out := _ }) (ht.same { same with }) fun hb => ?_
  obtain ⟨hs, hl⟩ := hr hb
  rw [← same.input] at hs
  rw [← same.res] at hl
  exact .failed hs hl hn (.inr (.inr hu.submitted))

lemma Settles.answers (h : Settles s r q b s') (hv : (s.view r).Ready b q) (hu : Unpushed (s.view r).log)
    (ht : b = true → routed q.input q.res) : (s'.view r).Answers := by
  cases h with
  | finishes h =>
    cases h with
    | failed same hn => exact answers_fail hv.trace hu ht same hn
    | delivered same hr => exact absurd (hr (ht rfl)) (hu.completed _)
  | pushStalled hr hd =>
    rw [s.view_put_same]
    exact answers_live hv.trace hu.completed fun _ => hu.submitted
  | pushing same hr hd hf =>
    rw [s.view_push_same]
    exact answers_live (hv.trace.note (.inl ⟨_, rfl⟩)) (by simpa using hu.completed) fun hp => by simp at hp
  | pullStalled =>
    rw [s.view_put_same]
    exact answers_live hv.trace hu.completed fun _ => hu.submitted
  | pulling same hd hf =>
    have hl := hu.cons (e := .submitted .pull) (by simp) (by simp)
    rw [s.view_pull_same]
    exact answers_live (hv.trace.note (.inl ⟨_, rfl⟩)) hl.completed fun _ => hl.submitted

lemma runAndDeliver_unrouted {o : ServeOutcome} (hr : ¬ routed q.input o.res) : nkvxReqRunAndDeliver s r q o =
      if nkvxInlineMax < o.res.bufLen then nkvxReqFinish (s.emit r (.ran o.res)) r
          { q with res := o.res, out := ⟨nkvxStatusToWire .notSupported, 0, none⟩ }
      else
        nkvxReqFinish (s.emit r (.ran o.res)) r
          { q with res := o.res, out := ⟨nkvxStatusToWire o.res.status, o.res.resultLen, o.res.buf⟩ } :=
  if_neg hr

lemma Service.Handling.answers_run (h : s.Handling r q false) (hu : Unpushed (s.view r).log)
    (o : ServeOutcome) : ((nkvxReqRunAndDeliver s r q o).view r).Answers := by
  have hd := (h.ran o.res).ready
  have ha : Unpushed ((s.emit r (.ran o.res)).view r).log := by
    rw [s.view_emit_same]
    exact hu.cons (by simp) (by simp)
  by_cases hr : routed q.input o.res
  · exact (runAndDeliver_settles s r q o).answers hd ha fun _ => hr
  rw [runAndDeliver_unrouted hr]
  split
  · rename_i hl
    have hn : q.input.resultSink = none := by
      by_contra hm
      exact hr ⟨hm, hl⟩
    exact answers_finish (hd.trace.same (by constructor <;> rfl)) fun _ => .declined hn hl
  rename_i hs
  exact answers_finish (hd.trace.same (by constructor <;> rfl)) fun _ =>
    .inline (Nat.not_lt.mp hs) (pushes_eq_zero (ha.completed _))

end Settling

namespace Service

variable {s s' : Service}

def Answers (s : Service) : Prop := ∀ r, (s.view r).Answers

lemma Answers.of_view (h : s.Answers) (hn : ∀ j, j ≠ r → s'.view j = s.view j) (hr : (s'.view r).Answers) :
    s'.Answers :=
  forall_view h hn hr

lemma answers_unborn : unborn.Answers where
  answer _ _ _ _ _ ha := by cases ha
  uncompleted hr := absurd rfl hr
  unsubmitted hr := absurd rfl hr

lemma view_runAndDeliver_ne (s : Service) (q : Req) (o : ServeOutcome) (hj : j ≠ r) :
    (nkvxReqRunAndDeliver s r q o).view j = s.view j :=
  ((runAndDeliver_settles s r q o).view_ne hj).trans (s.view_emit_ne hj _)

section

variable (h : s.Answers)
include h

section

variable (hi : s.Inv)
include hi

lemma Answers.exec (origin : HgAddr) (input : ExecIn) (o : ServeOutcome) :
    (nkvxExecHandler s origin (some input) o).Answers := by
  have hh := hi.receive origin input
  have hn : ∀ j, j ≠ s.nextReq → (s.receive origin input).view j = s.view j :=
    fun j hj => view_receive_ne origin input hj
  have hu : Unpushed ((s.receive origin input).view s.nextReq).log := by
    rw [view_receive_same hi origin input]
    exact ⟨by simp, by simp⟩
  change ((s.receive origin input).start s.nextReq _ o).Answers
  rcases start_cases (s.receive origin input) s.nextReq { s.newReq origin input with registered := true } o with
    hs | hr
  · exact h.of_view (fun j hj => (hs.view_ne hj).trans (hn j hj)) (hs.answers hh.ready hu nofun)
  rw [hr]
  exact h.of_view (fun j hj => (view_runAndDeliver_ne _ _ o hj).trans (hn j hj)) (hh.answers_run hu o)

lemma Answers.cancels (hs : Cancels s origin callId s') : s'.Answers := by
  cases hs with
  | unknown => exact h
  | duplicate => exact h
  | @stashed r q d hr hq hc hd =>
    obtain ⟨-, p, q', hl⟩ := hi.registered (regLookup_some hr).1
    cases hl.req.symm.trans hq
    have hsm : (s.view r).req ≠ none := hl.req_ne
    refine h.of_view (r := r) (fun j hj => ?_) ?_
    · rw [view_put_ne _ _ hj, view_emit_ne _ hj]
      rfl
    rw [view_put_same, view_emit_same]
    refine answers_live (hl.trace.stashing hc s.nextHandle d) ?_ fun hp => ?_
    · exact fun ret hm => (h r).uncompleted hsm ret ((mem_cons.mp hm).resolve_left nofun)
    · exact fun hm => (h r).unsubmitted hsm hp ((mem_cons.mp hm).resolve_left nofun)

lemma Answers.pushed (hm : (.push, r) ∈ s.ops) (ret : HgReturn) :
    (nkvxResultPushedCb (s.retire .push r ret) r ret).Answers := by
  obtain ⟨ht, q, hl⟩ := hi.inFlight hm
  have hv : (s.view r).Live .pushing q := hl
  have he : (s.retire .push r ret).reqs r = some q := hv.req
  have hd := (hi.retirePush ht hl ret).ready
  have ho : ((s.retire .push r ret).view r).log = .completed .push ret :: (s.view r).log := by
    rw [s.view_retire_push]
  have hsm : (s.view r).req ≠ none := hv.req_ne
  obtain ⟨hs, hlr⟩ : routed q.input q.res := hv.routed rfl
  have hfn := pushedCb_finishes he (s.mem_log_retire_push r ret)
  refine h.of_view (fun j hj => ((Settles.finishes hfn).view_ne hj).trans (s.view_retire_ne .push ret hj)) ?_
  unfold nkvxResultPushedCb
  rw [he]
  dsimp only
  have hf : ∀ (q' : Req) (status : IoStatus), q'.Same { q with pushInFlight := false } → ret ≠ .success →
      ¬ reports (nkvxStatusToWire status) → ((nkvxReqFail (s.retire .push r ret) r q' status).view r).Answers := by
    intro q' status same hr hn
    refine answers_finish (q := { q' with out := _ }) (hd.trace.same { same with }) fun _ => ?_
    have hc : Impeded ((s.retire .push r ret).view r).log :=
      .inr (.inl ⟨.push, ret, by rw [ho]; exact mem_cons_self, hr⟩)
    refine .failed ?_ ?_ hn hc
    · rw [same.input]
      exact hs
    rw [same.res]
    exact hlr
  split
  · rename_i hr
    exact hf _ _ (by constructor <;> rfl) (by rw [hr]; decide) (by decide)
  split
  · rename_i hr
    exact hf _ _ (by constructor <;> rfl) hr (by decide)
  rename_i hr
  obtain rfl : ret = .success := by simpa using hr
  refine answers_finish (hd.trace.same (by constructor <;> rfl)) fun _ => .pushed hs hlr ?_
  rw [ho, pushes, count_cons_self]
  exact congrArg (· + 1) (pushes_eq_zero ((h r).uncompleted hsm _))

lemma Answers.pulled (hm : (.pull, r) ∈ s.ops) (ret : HgReturn)
    (o : ServeOutcome) : (nkvxInputPulledCb (s.retire .pull r ret) r ret o).Answers := by
  obtain ⟨ht, q, hl⟩ := hi.inFlight hm
  have hv : (s.view r).Live .pulling q := hl
  have he : (s.retire .pull r ret).reqs r = some q := hv.req
  have hsm : (s.view r).req ≠ none := hv.req_ne
  have hu : Unpushed ((s.retire .pull r ret).view r).log := by
    rw [s.view_retire_pull]
    exact ((h r).unpushed hsm hv.pushes).cons (by simp) (by simp)
  have hn : ∀ j, j ≠ r → (s.retire .pull r ret).view j = s.view j := fun j hj => s.view_retire_ne .pull ret hj
  rcases pulledCb_cases he ret o with hs | ⟨-, hr⟩
  · have hs := Settles.finishes hs
    exact h.of_view (fun j hj => (hs.view_ne hj).trans (hn j hj))
      (hs.answers (hi.retirePull ht hl ret q.input rfl).ready hu nofun)
  have hh := hi.retirePull ht hl ret { q.input with inputInline := q.inputBuf } rfl
  rw [hr]
  exact h.of_view (fun j hj => (view_runAndDeliver_ne _ _ o hj).trans (hn j hj)) (hh.answers_run hu o)

lemma Answers.ticks (hl : (s.view r).Live p q) (hs : Ticks s r p q s') : s'.Answers := by
  have hm : (s.view r).req ≠ none := hl.req_ne
  cases hs with
  | idle => exact h
  | counts n m =>
    refine h.of_view (fun _ hj => s.view_put_ne _ hj) ?_
    rw [view_put_same]
    exact answers_live hl.trace ((h r).uncompleted hm) ((h r).unsubmitted hm)
  | settles hp hs =>
    have hr := (hi.unstall hl hp).ready
    exact h.of_view (fun _ hj => hs.view_ne hj)
      (hs.answers hr ((h r).unpushed hm hr.pushes) hl.routed)

lemma Answers.step (e : ServiceEvent) : (s.step e).Answers := by
  refine hi.keeps h (fun origin input o _ => h.exec hi origin input o) (fun _ _ _ _ _ hc => h.cancels hi hc)
    (fun op r ret o _ hm => ?_) fun _ _ _ _ _ hi h _ hl hs => h.ticks hi hl hs
  cases op with
  | pull => exact h.pulled hi hm ret o
  | push => exact h.pushed hi hm ret

end

end

lemma answers_after (executor : Bool) (pushStall pullStall : Nat) (evs : List ServiceEvent) :
    (after executor pushStall pullStall evs).Answers := by
  have hr := Machine.run_induct step (P := fun s => s.Inv ∧ s.Answers)
    ⟨inv_init executor pushStall pullStall, fun _ => answers_unborn⟩
    (fun _ e h => ⟨h.1.step e, h.2.step h.1 e⟩) evs
  exact hr.2

end Service

end RadosNkv
