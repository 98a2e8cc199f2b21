import Mathlib.Data.List.Nodup
import RadosNkv.Service.Trace

/-! The invariant of the service's runs: every request waits for one thing or is gone, and a stashed
cancel handle is answered when its request is freed. -/

namespace RadosNkv

open Ledger List ReqView

/-- Every stashed cancel handle belongs to one request and is answered when that request is freed,
and only then. -/
structure Service.Answered (s : Service) : Prop where
  fresh : ∀ h, s.nextHandle ≤ h → about s.acks h = []
  stashed : ∀ r h, .cancelStashed h ∈ (s.view r).log → h < s.nextHandle
  owner : ∀ r j h, .cancelStashed h ∈ (s.view r).log → .cancelStashed h ∈ (s.view j).log → r = j
  count : ∀ r h, .cancelStashed h ∈ (s.view r).log →
    (about s.acks h).length = (s.view r).log.count .freed

def Req.stashedAck (q : Req) (busy : Bool) : Ack :=
  ⟨q.origin, q.callId, if q.hadPushCanceled then .pushCanceled else .aborted, busy⟩

variable (s : Service) (r : Nat)

@[simp] lemma acks_bulkFree (h : Option BulkHandle) : (s.bulkFree r h).acks = s.acks := by
  cases h <;> rfl

@[simp] lemma busy_bulkFree (h : Option BulkHandle) (origin : HgAddr) (callId : Nat) :
    (s.bulkFree r h).busy origin callId = s.busy origin callId := by
  cases h <;> rfl

lemma acks_ackStashed (q : Req) : (s.ackStashed r q).acks =
      q.cancelHandle.toList.map (·, q.stashedAck (s.busy q.origin q.callId)) ++ s.acks := by
  unfold Service.ackStashed
  cases q.cancelHandle <;> rfl

lemma acks_finish (q : Req) : (nkvxReqFinish s r q).acks = q.cancelHandle.toList.map
        (·, q.stashedAck ((nkvxRegRemove s r q).busy q.origin q.callId)) ++ s.acks := by
  have ha : (nkvxRegRemove s r q).acks = s.acks := by
    unfold nkvxRegRemove
    split <;> rfl
  change (Service.ackStashed _ r q).acks = _
  rw [acks_ackStashed, acks_bulkFree, acks_bulkFree, busy_bulkFree, busy_bulkFree]
  exact congrArg _ ha

lemma Service.Answered.keep {s s' : Service} (h : s.Answered) (ha : s'.acks = s.acks)
    (hn : s.nextHandle ≤ s'.nextHandle)
    (hs : ∀ r hd, .cancelStashed hd ∈ (s'.view r).log ↔ .cancelStashed hd ∈ (s.view r).log)
    (hf : ∀ r, (s'.view r).log.count .freed = (s.view r).log.count .freed) : s'.Answered where
  fresh hd hl := by rw [ha]; exact h.fresh hd (by omega)
  stashed r hd hm := by
    have := h.stashed r hd ((hs r hd).mp hm)
    omega
  owner r j hd hm hj := h.owner r j hd ((hs r hd).mp hm) ((hs j hd).mp hj)
  count r hd hm := by rw [ha, hf]; exact h.count r hd ((hs r hd).mp hm)

lemma Service.Answered.finish {s : Service} {r : Nat} {q : Req} (h : s.Answered)
    (ht : q.Trace b (s.view r).log) (hx : (nkvxReqFinish s r q).nextHandle = s.nextHandle) :
    (nkvxReqFinish s r q).Answered := by
  have hl : ((nkvxReqFinish s r q).view r).log =
      q.finishEffects (s.inFlight r) ++ (s.view r).log := by
    rw [s.view_finish_same q ht.registered]
  have hs : ∀ j hd, .cancelStashed hd ∈ ((nkvxReqFinish s r q).view j).log ↔
      .cancelStashed hd ∈ (s.view j).log := by
    intro j hd
    by_cases hj : j = r
    · subst hj
      rw [hl, mem_append]
      refine or_iff_right fun hm => ?_
      rcases Req.mem_finishEffects hm with he | ⟨_, he⟩ | ⟨_, he⟩ | he <;> cases he
    · rw [s.view_finish_ne q hj]
  -- a handle that is not the one stashed on `r` is answered as often as before
  have ho : ∀ hd, q.cancelHandle ≠ some hd →
      about (nkvxReqFinish s r q).acks hd = about s.acks hd := by
    intro hd hne
    rw [acks_finish]
    cases hc : q.cancelHandle with
    | none => rfl
    | some hd' =>
      have : hd' ≠ hd := fun he => hne (by rw [hc, he])
      exact about_cons_ne this ..
  refine ⟨?_, ?_, ?_, ?_⟩
  · intro hd hle
    rw [ho hd fun hc => ?_]
    · exact h.fresh hd (by omega)
    have := h.stashed r hd ((ht.stash hd).mpr hc)
    omega
  · intro j hd hm
    rw [hx]
    exact h.stashed j hd ((hs j hd).mp hm)
  · intro j k hd hj hk
    exact h.owner j k hd ((hs j hd).mp hj) ((hs k hd).mp hk)
  intro j hd hm
  replace hm := (hs j hd).mp hm
  by_cases hj : j = r
  · subst hj
    have hc := (ht.stash hd).mp hm
    have hn := h.count j hd hm
    rw [ht.count_freed] at hn
    rw [hl, count_append, q.count_finishEffects, ht.count_freed, acks_finish, hc]
    simp [hn]
  rw [s.view_finish_ne q hj, ho hd fun hc => hj ?_]
  · exact h.count j hd hm
  · exact h.owner j r hd hm ((ht.stash hd).mpr hc)

structure Service.Inv (s : Service) : Prop where
  views : ∀ r, r < s.nextReq → (s.view r).Ok
  notArrived : ∀ r, s.nextReq ≤ r → s.view r = unborn
  noFault : s.fault = false
  answered : s.Answered

structure Service.Handling (s : Service) (r : Nat) (q : Req) (b : Bool) : Prop where
  others : ∀ j, j ≠ r → j < s.nextReq → (s.view j).Ok
  notArrived : ∀ j, s.nextReq ≤ j → s.view j = unborn
  noFault : s.fault = false
  answered : s.Answered
  ready : (s.view r).Ready b q

namespace Service

variable (executor : Bool)

lemma inv_init (pushStall pullStall : Nat) : (init executor pushStall pullStall).Inv where
  views r h := absurd h (Nat.not_lt_zero r)
  notArrived _ _ := rfl
  noFault := rfl
  answered := ⟨fun _ _ => rfl, nofun, nofun, nofun⟩

variable {s s' : Service} {r : Nat} {q : Req}

def counters (s : Service) : Nat × Nat × Bool := (s.nextReq, s.nextHandle, s.fault)

lemma counters_bulkFree (s : Service) (h : Option BulkHandle) : (s.bulkFree r h).counters = s.counters := by
  cases h <;> rfl

lemma counters_ackStashed (s : Service) (q : Req) : (s.ackStashed r q).counters = s.counters := by
  unfold ackStashed
  cases q.cancelHandle <;> rfl

lemma counters_finish (s : Service) (q : Req) : (nkvxReqFinish s r q).counters = s.counters := by
  have hr : (nkvxRegRemove s r q).counters = s.counters := by
    unfold nkvxRegRemove
    split <;> rfl
  change (ackStashed _ r q).counters = _
  rw [counters_ackStashed, counters_bulkFree, counters_bulkFree]
  exact hr

lemma counters_settles (h : Settles s r q b s') : s'.counters = s.counters := by
  cases h with
  | finishes h =>
    cases h with
    | failed => exact s.counters_finish _
    | delivered => exact s.counters_finish _
  | pushStalled => rfl
  | pushing => rfl
  | pullStalled => rfl
  | pulling => rfl

lemma Answered.note (h : s.Answered) (ha : s'.acks = s.acks) (hx : s'.nextHandle = s.nextHandle)
    (ho : ∀ j, j ≠ r → s'.view j = s.view j) (new : List ReqEffect) (hl : (s'.view r).log = new ++ (s.view r).log)
    (hn : ∀ e ∈ new, e ≠ .freed ∧ ∀ hd, e ≠ .cancelStashed hd) : s'.Answered := by
  refine h.keep ha (le_of_eq hx.symm) ?_ ?_
  · intro j hd
    by_cases hj : j = r
    · subst hj
      rw [hl, mem_append]
      exact or_iff_right fun hm => (hn _ hm).2 hd rfl
    · rw [ho j hj]
  intro j
  by_cases hj : j = r
  · subst hj
    have hz : new.count .freed = 0 := count_eq_zero.mpr fun hm => (hn _ hm).1 rfl
    rw [hl, count_append, hz, zero_add]
  · rw [ho j hj]

lemma Answered.settles (h : s.Answered) (ht : q.Trace b (s.view r).log) (hs : Settles s r q b s') : s'.Answered := by
  have hn := fun j (hj : j ≠ r) => hs.view_ne hj
  have hc : s'.nextHandle = s.nextHandle := congrArg (·.2.1) (counters_settles hs)
  cases hs with
  | finishes hs =>
    cases hs with
    | @failed _ q' status same hn' =>
      exact h.finish (q := { q' with out := ⟨nkvxStatusToWire status, 0, none⟩ })
        (ht.same { same with }) hc
    | delivered same => exact h.finish (ht.same same) hc
  | pushStalled =>
    exact h.note rfl hc hn [] (by rw [s.view_put_same]; rfl) (by simp)
  | pushing =>
    exact h.note rfl hc hn [.submitted .push] (by rw [s.view_push_same]; rfl) (by simp)
  | pullStalled =>
    exact h.note rfl hc hn [] (by rw [s.view_put_same]; rfl) (by simp)
  | pulling =>
    exact h.note rfl hc hn [.submitted .pull] (by rw [s.view_pull_same]; rfl) (by simp)

variable {j : Nat} {op : BulkOp} {p : Phase}

lemma Handling.ne_of_le (h : s.Handling r q b) (he : s.nextReq ≤ j) : j ≠ r := by
  rintro rfl
  have hl := h.ready.listed
  rw [h.notArrived j he] at hl
  cases hl

lemma Handling.settles (h : s.Handling r q b) (hs : Settles s r q b s') : s'.Inv := by
  have hr : s'.nextReq = s.nextReq := congrArg (·.1) (counters_settles hs)
  have hf : s'.fault = s.fault := congrArg (·.2.2) (counters_settles hs)
  refine ⟨?_, ?_, hf.trans h.noFault, h.answered.settles h.ready.trace hs⟩
  · intro j hj
    by_cases hjr : j = r
    · subst hjr
      exact hs.ok h.ready
    rw [hs.view_ne hjr]
    exact h.others j hjr (by omega)
  intro j hj
  have hl : s.nextReq ≤ j := by omega
  rw [hs.view_ne (h.ne_of_le hl)]
  exact h.notArrived j hl

lemma view_receive_same (h : s.Inv) (origin : HgAddr) (input : ExecIn) : (s.receive origin input).view s.nextReq =
      ⟨some { s.newReq origin input with registered := true }, 0, 0, 1, [.arrived origin input]⟩ := by
  have hv := h.notArrived s.nextReq (le_rfl)
  simp only [view, unborn, ReqView.mk.injEq] at hv
  obtain ⟨-, hpl, hp, hs, hl⟩ := hv
  simp [receive, nkvxRegInsert, newReq, view, put, emit, hpl, hp, hs, hl]

lemma view_receive_ne (origin : HgAddr) (input : ExecIn) (hj : j ≠ s.nextReq) :
    (s.receive origin input).view j = s.view j := by
  simp [receive, nkvxRegInsert, newReq, view, put, emit, hj, about_cons_ne (Ne.symm hj), Ne.symm hj]

lemma Inv.receive (h : s.Inv) (origin : HgAddr) (input : ExecIn) :
    (s.receive origin input).Handling s.nextReq { s.newReq origin input with registered := true }
      false := by
  have hs := view_receive_same h origin input
  have hr : (s.receive origin input).nextReq = s.nextReq + 1 := rfl
  have hh : (s.receive origin input).nextHandle = s.nextHandle + 1 := rfl
  refine ⟨?_, ?_, h.noFault, ?_, ?_⟩
  · intro j hj ht
    rw [view_receive_ne origin input hj]
    exact h.views j (by omega)
  · intro j hl
    rw [view_receive_ne origin input (by omega)]
    exact h.notArrived j (by omega)
  · refine h.answered.keep rfl (by omega) ?_ ?_
    · intro j hd
      by_cases hj : j = s.nextReq
      · subst hj
        rw [hs, h.notArrived _ (le_rfl)]
        simp [unborn]
      · rw [view_receive_ne origin input hj]
    intro j
    by_cases hj : j = s.nextReq
    · subst hj
      rw [hs, h.notArrived _ (le_rfl)]
      simp [unborn]
    · rw [view_receive_ne origin input hj]
  rw [hs]
  refine ⟨rfl, rfl, rfl, rfl, rfl, rfl, ⟨rfl, ⟨input, by simp [newReq]⟩, ?_, ?_, ?_, ?_, ?_⟩⟩
  · simp [newReq]
  · simp [newReq]
  · simp [ReqEffect.isFinal]
  · simp
  · exact ⟨trivial, trivial⟩

lemma Handling.ran (h : s.Handling r q false) (res : ExecResult) :
    (s.emit r (.ran res)).Handling r { q with res } true := by
  have hn := fun j (hj : j ≠ r) => s.view_emit_ne hj (.ran res)
  have hs := s.view_emit_same (r := r) (.ran res)
  have hr := h.ready
  refine ⟨fun j hj ht => ?_, fun j hl => ?_, h.noFault, ?_, ?_⟩
  · rw [hn j hj]
    exact h.others j hj ht
  · rw [hn j (h.ne_of_le hl)]
    exact h.notArrived j hl
  · exact h.answered.note rfl rfl hn [.ran res] (by rw [hs]; rfl) (by simp)
  rw [hs]
  exact ⟨hr.listed, hr.pulls, hr.pushes, hr.pushInFlight, hr.pullPending, hr.pushPending, hr.trace.ranNow res⟩

lemma Handling.start (h : s.Handling r q false) (o : ServeOutcome) : (s.start r q o).Inv := by
  rcases start_settles s r q o with hs | hs
  · exact h.settles hs
  · exact (h.ran o.res).settles hs

lemma Inv.exec (h : s.Inv) (origin : HgAddr) (decoded : Option ExecIn) (o : ServeOutcome) :
    (nkvxExecHandler s origin decoded o).Inv := by
  cases decoded with
  | none => exact h
  | some input => exact (h.receive origin input).start o

lemma Inv.live (h : s.Inv) (hv : s.view r ≠ unborn) (hn : ¬ (s.view r).Gone) :
    r < s.nextReq ∧ ∃ p q, (s.view r).Live p q := by
  have ht : r < s.nextReq := by
    by_contra he
    exact hv (h.notArrived r (by omega))
  refine ⟨ht, ?_⟩
  cases h.views r ht with
  | live p q hl => exact ⟨p, q, hl⟩
  | gone hg => exact absurd hg hn

lemma Inv.inFlight (h : s.Inv) (hm : (op, r) ∈ s.ops) : r < s.nextReq ∧ ∃ q, match op with
      | .pull => (s.view r).Live .pulling q
      | .push => (s.view r).Live .pushing q := by
  have hpo : 0 < (s.view r).pulls + (s.view r).pushes := by
    cases op with
    | pull => exact Nat.add_pos_left (count_pos_iff.mpr hm) _
    | push => exact Nat.add_pos_right _ (count_pos_iff.mpr hm)
  have hb : s.view r ≠ unborn := by
    intro hu
    rw [hu] at hpo
    simp [unborn] at hpo
  have hgn : ¬ (s.view r).Gone := by
    intro hg
    rw [hg.pulls, hg.pushes] at hpo
    simp at hpo
  obtain ⟨ht, p, q, hl⟩ := h.live hb hgn
  refine ⟨ht, q, ?_⟩
  -- each kind of operation is in flight in one phase only
  cases op with
  | pull =>
    have ho : 0 < (s.view r).pulls := count_pos_iff.mpr hm
    have hp : p = .pulling := by
      by_contra hn
      rw [hl.pulls, if_neg hn] at ho
      omega
    exact hp ▸ hl
  | push =>
    have ho : 0 < (s.view r).pushes := count_pos_iff.mpr hm
    have hp : p = .pushing := by
      by_contra hn
      rw [hl.pushes, if_neg hn] at ho
      omega
    exact hp ▸ hl

lemma view_retire_ne (s : Service) (op : BulkOp) (ret : HgReturn) (hj : j ≠ r) :
    (s.retire op r ret).view j = s.view j := by
  have hn : ∀ op', (op', j) ≠ (op, r) := fun op' he => hj (congrArg Prod.snd he)
  simp [view, retire, emit, about_cons_ne (Ne.symm hj), count_erase_of_ne (hn _)]

lemma view_retire_pull (s : Service) (ret : HgReturn) : (s.retire .pull r ret).view r = { s.view r with
        pulls := (s.view r).pulls - 1, log := .completed .pull ret :: (s.view r).log } := by
  simp [view, retire, emit, count_erase_self, count_erase_of_ne]

lemma view_retire_push (s : Service) (ret : HgReturn) : (s.retire .push r ret).view r = { s.view r with
        pushes := (s.view r).pushes - 1, log := .completed .push ret :: (s.view r).log } := by
  simp [view, retire, emit, count_erase_self, count_erase_of_ne]

lemma Inv.retire (h : s.Inv) (ht : r < s.nextReq) (hr : ((s.retire op r ret).view r).Ready b q)
    (hl : ((s.retire op r ret).view r).log = .completed op ret :: (s.view r).log) :
    (s.retire op r ret).Handling r q b := by
  have hn := fun j (hj : j ≠ r) => s.view_retire_ne op ret hj
  refine ⟨fun j hj ht' => ?_, fun j he => ?_, h.noFault, ?_, hr⟩
  · rw [hn j hj]
    exact h.views j ht'
  · have he : s.nextReq ≤ j := he
    rw [hn j (by omega)]
    exact h.notArrived j he
  · exact h.answered.note rfl rfl hn [.completed op ret] hl (by simp)

lemma Inv.retirePull (h : s.Inv) (hlt : r < s.nextReq) (hl : (s.view r).Live .pulling q)
    (ret : HgReturn) (input : ExecIn) (hs : input.resultSink = q.input.resultSink) :
    (s.retire .pull r ret).Handling r { q with pushInFlight := false, input := input } false := by
  have hv := s.view_retire_pull (r := r) ret
  have ht := hl.trace.note (.inr ⟨.pull, ret, rfl⟩)
  refine h.retire hlt ?_ (by rw [hv])
  rw [hv]
  refine ⟨hl.listed, by simp [hl.pulls], hl.pushes, rfl, hl.pullPending, hl.pushPending, { ht with arrival := ?_ }⟩
  rw [hs]
  exact ht.arrival

lemma Inv.retirePush (h : s.Inv) (hlt : r < s.nextReq) (hl : (s.view r).Live .pushing q) (ret : HgReturn) :
    (s.retire .push r ret).Handling r { q with pushInFlight := false } true := by
  have hv := s.view_retire_push (r := r) ret
  have ht := hl.trace.note (.inr ⟨.push, ret, rfl⟩)
  refine h.retire hlt ?_ (by rw [hv])
  rw [hv]
  exact ⟨hl.listed, hl.pulls, by simp [hl.pushes], rfl, hl.pullPending, hl.pushPending, { ht with }⟩

lemma Inv.pulled (h : s.Inv) (hm : (.pull, r) ∈ s.ops) (ret : HgReturn) (o : ServeOutcome) :
    (nkvxInputPulledCb (s.retire .pull r ret) r ret o).Inv := by
  obtain ⟨ht, q, hl⟩ := h.inFlight hm
  have hr : (s.retire .pull r ret).reqs r = some q := ReqView.Live.req hl
  rcases pulledCb_settles hr ret o with hs | ⟨-, hs⟩
  · exact (h.retirePull ht hl ret q.input rfl).settles (.finishes hs)
  have hh := h.retirePull ht hl ret { q.input with inputInline := q.inputBuf } rfl
  exact (hh.ran o.res).settles hs

lemma mem_log_retire_push (s : Service) (r : Nat) (ret : HgReturn) :
    .completed .push ret ∈ ((s.retire .push r ret).view r).log := by
  rw [s.view_retire_push]
  exact mem_cons_self

lemma Inv.pushed (h : s.Inv) (hm : (.push, r) ∈ s.ops) (ret : HgReturn) :
    (nkvxResultPushedCb (s.retire .push r ret) r ret).Inv := by
  obtain ⟨ht, q, hl⟩ := h.inFlight hm
  have hr : (s.retire .push r ret).reqs r = some q := ReqView.Live.req hl
  exact (h.retirePush ht hl ret).settles
    (.finishes (pushedCb_finishes hr (s.mem_log_retire_push r ret)))

lemma Inv.bulkDone (h : s.Inv) (hm : (op, r) ∈ s.ops) (ret : HgReturn) (o : ServeOutcome) :
    (s.bulkDone op r ret o).Inv := by
  cases op with
  | pull => exact h.pulled hm ret o
  | push => exact h.pushed hm ret

lemma Inv.registered (h : s.Inv) (hm : r ∈ s.inflight) : r < s.nextReq ∧ ∃ p q, (s.view r).Live p q := by
  have hp : 0 < (s.view r).listed := count_pos_iff.mpr hm
  refine h.live ?_ ?_
  · intro hu
    rw [hu] at hp
    simp [unborn] at hp
  intro hg
  rw [hg.listed] at hp
  simp at hp

lemma Inv.put (h : s.Inv) (ht : r < s.nextReq) (ho : ((s.put r q').view r).Ok) :
    (s.put r q').Inv := by
  have hn := fun j (hj : j ≠ r) => s.view_put_ne q' hj
  refine ⟨fun j hj => ?_, fun j hl => ?_, h.noFault, ?_⟩
  · by_cases hr : j = r
    · subst hr
      exact ho
    rw [hn j hr]
    exact h.views j hj
  · have hl : s.nextReq ≤ j := hl
    rw [hn j (by omega)]
    exact h.notArrived j hl
  · exact h.answered.note rfl rfl hn [] (by rw [s.view_put_same]; rfl) (by simp)

lemma Inv.respondCancel (h : s.Inv) (origin : HgAddr) (callId : Nat) (code : CancelAck) :
    ({ s with nextHandle := s.nextHandle + 1 }.respondCancel s.nextHandle origin callId code).Inv where
  views := h.views
  notArrived := h.notArrived
  noFault := h.noFault
  answered :=
    { fresh := by
        intro hd hl
        have hl : s.nextHandle + 1 ≤ hd := hl
        exact (about_cons_ne (by omega) _ _).trans (h.answered.fresh hd (by omega))
      stashed := by
        intro j hd hm
        have := h.answered.stashed j hd hm
        change hd < s.nextHandle + 1
        omega
      owner := h.answered.owner
      count := by
        intro j hd hm
        have ht := h.answered.stashed j hd hm
        have hn : s.nextHandle ≠ hd := by omega
        exact (congrArg List.length (about_cons_ne hn ..)).trans (h.answered.count j hd hm) }

lemma Answered.stash (h : s.Answered) (ha : s'.acks = s.acks) (hx : s'.nextHandle = s.nextHandle + 1)
    (ho : ∀ j, j ≠ r → s'.view j = s.view j) (hl : (s'.view r).log = .cancelStashed s.nextHandle :: (s.view r).log)
    (hn : ∀ hd, .cancelStashed hd ∉ (s.view r).log) (hf : (s.view r).log.count .freed = 0) : s'.Answered := by
  -- a stashed handle is the fresh one, on `r`, or an older one on another request
  have hme : ∀ j hd, .cancelStashed hd ∈ (s'.view j).log →
      j = r ∧ hd = s.nextHandle ∨ j ≠ r ∧ .cancelStashed hd ∈ (s.view j).log := by
    intro j hd hm
    by_cases hj : j = r
    · subst hj
      rw [hl] at hm
      rcases mem_cons.mp hm with he | hm
      · exact .inl ⟨rfl, by simpa using he⟩
      · exact absurd hm (hn hd)
    rw [ho j hj] at hm
    exact .inr ⟨hj, hm⟩
  refine ⟨fun hd hle => ?_, fun j hd hm => ?_, fun j k hd hj hk => ?_, fun j hd hm => ?_⟩
  · rw [ha]
    exact h.fresh hd (by omega)
  · rcases hme j hd hm with ⟨-, rfl⟩ | ⟨-, hm⟩
    · omega
    have := h.stashed j hd hm
    omega
  · rcases hme j hd hj with ⟨rfl, rfl⟩ | ⟨-, hj⟩ <;> rcases hme k _ hk with ⟨rfl, he⟩ | ⟨-, hk⟩
    · rfl
    · have := h.stashed k _ hk
      omega
    · subst he
      have := h.stashed j _ hj
      omega
    · exact h.owner j k hd hj hk
  rcases hme j hd hm with ⟨rfl, rfl⟩ | ⟨hj, hm⟩
  · rw [ha, h.fresh _ (le_rfl), hl]
    simp [hf]
  rw [ha, ho j hj]
  exact h.count j hd hm

lemma Inv.stash (h : s.Inv) (ht : r < s.nextReq) (hl : (s.view r).Live p q) (hc : q.cancelHandle = none) (d : Bool) :
    (({ s with nextHandle := s.nextHandle + 1 }.emit r (.cancelStashed s.nextHandle)).put r
      { q with cancelHandle := some s.nextHandle, doNotPush := d }).Inv := by
  generalize hs' : ({ s with nextHandle := s.nextHandle + 1 }.emit r
    (.cancelStashed s.nextHandle)).put r
      { q with cancelHandle := some s.nextHandle, doNotPush := d } = s'
  have hn : ∀ j, j ≠ r → s'.view j = s.view j := by
    intro j hj
    subst hs'
    rw [view_put_ne _ _ hj, view_emit_ne _ hj]
    rfl
  have hs : s'.view r = { s.view r with
      req := some { q with cancelHandle := some s.nextHandle, doNotPush := d },
      log := .cancelStashed s.nextHandle :: (s.view r).log } := by
    subst hs'
    rw [view_put_same, view_emit_same]
    rfl
  have hr : s'.nextReq = s.nextReq := by subst hs'; rfl
  refine ⟨fun j hj => ?_, fun j he => ?_, by subst hs'; exact h.noFault, ?_⟩
  · by_cases hjr : j = r
    · subst hjr
      rw [hs]
      exact .live p _ ⟨rfl, hl.listed, hl.pulls, hl.pushes, hl.pushInFlight, hl.pullPending,
        hl.pushPending, hl.routed, hl.trace.stashing hc _ d⟩
    rw [hn j hjr]
    exact h.views j (by omega)
  · rw [hn j (by omega)]
    exact h.notArrived j (by omega)
  exact h.answered.stash (by subst hs'; rfl) (by subst hs'; rfl) hn (congrArg ReqView.log hs)
    (hl.trace.not_stashed hc) hl.trace.count_freed

lemma Inv.cancels (h : s.Inv) (hs : Cancels s origin callId s') : s'.Inv := by
  cases hs with
  | unknown => exact h.respondCancel ..
  | duplicate => exact h.respondCancel ..
  | stashed hr hq hc =>
    obtain ⟨ht, p, q', hl⟩ := h.registered (regLookup_some hr).1
    have hqq : q' = _ := Option.some.inj (hl.req.symm.trans hq)
    subst hqq
    exact h.stash ht hl hc _

lemma Inv.cancel (h : s.Inv) (origin : HgAddr) (decoded : Option Nat) (ret : HgReturn) :
    (nkvxCancelHandler s origin decoded ret).Inv := by
  cases decoded with
  | none => exact h
  | some callId => exact h.cancels (cancelHandler_cancels s origin callId ret)

inductive Ticks (s : Service) (r : Nat) (p : Phase) (q : Req) : Service → Prop
  | idle : Ticks s r p q s
  | counts (n m : Nat) : Ticks s r p q (s.put r { q with pullStallTicks := n, stallTicks := m })
  | settles {s' : Service} (hp : p = .pullStalled ∨ p = .pushStalled)
      (hs : Settles s r { q with pullPending := false, pushPending := false } p.ran s') :
      Ticks s r p q s'

lemma tickStall_ticks (hl : (s.view r).Live p q) (o : ServeOutcome) : Ticks s r p q (tickStall s r o) := by
  have hr : s.reqs r = some q := hl.req
  have hp := hl.pullPending
  have hs := hl.pushPending
  unfold tickStall
  rw [hr]
  dsimp only
  cases p with
  | pullStalled =>
    have hq : ({ q with pullPending := false } : Req) =
        { q with pullPending := false, pushPending := false } := by
      have : q.pushPending = false := hs
      rw [← this]
    have hp : q.pullPending = true := hp
    rw [if_pos hp, hq]
    split
    · exact .settles (.inl rfl) (.fail .aborted (by decide))
    split
    · exact .counts _ q.stallTicks
    · exact .settles (.inl rfl) (submitInputPull_settles ..)
  | pushStalled =>
    have hp : q.pullPending = false := hp
    have hs : q.pushPending = true := hs
    have hq : ({ q with pushPending := false } : Req) =
        { q with pullPending := false, pushPending := false } := by
      rw [← hp]
    rw [if_neg (by simp [hp]), if_pos hs, hq]
    split
    · exact .settles (.inr rfl) (.fail .aborted (by decide))
    split
    · exact .counts q.pullStallTicks _
    · exact .settles (.inr rfl) (submitResultPush_settles _ _ _ (hl.routed rfl))
  | pulling =>
    rw [if_neg (by simp [hp]), if_neg (by simp [hs])]
    exact .idle
  | pushing =>
    rw [if_neg (by simp [hp]), if_neg (by simp [hs])]
    exact .idle

lemma Ticks.view_ne (h : Ticks s r p q s') (hj : j ≠ r) : s'.view j = s.view j := by
  cases h with
  | idle => rfl
  | counts n m => exact s.view_put_ne _ hj
  | settles hp hs => exact hs.view_ne hj

lemma Inv.unstall (h : s.Inv) (hl : (s.view r).Live p q) (hp : p = .pullStalled ∨ p = .pushStalled) :
    s.Handling r { q with pullPending := false, pushPending := false } p.ran := by
  have ht : ({ q with pullPending := false, pushPending := false } : Req).Trace p.ran
      (s.view r).log := { hl.trace with }
  refine ⟨fun j _ hlt => h.views j hlt, h.notArrived, h.noFault, h.answered, ?_⟩
  refine ⟨hl.listed, ?_, ?_, ?_, rfl, rfl, ht⟩
  · rw [hl.pulls]
    rcases hp with rfl | rfl <;> rfl
  · rw [hl.pushes]
    rcases hp with rfl | rfl <;> rfl
  have := hl.pushInFlight
  rcases hp with rfl | rfl <;> exact this

lemma Inv.ticks (h : s.Inv) (ht : r < s.nextReq) (hl : (s.view r).Live p q) (hs : Ticks s r p q s') : s'.Inv := by
  cases hs with
  | idle => exact h
  | counts n m =>
    refine h.put ht (.live p { q with pullStallTicks := n, stallTicks := m } ?_)
    rw [s.view_put_same]
    exact ⟨rfl, hl.listed, hl.pulls, hl.pushes, hl.pushInFlight, hl.pullPending, hl.pushPending,
      hl.routed, { hl.trace with }⟩
  | settles hp hs => exact (h.unstall hl hp).settles hs

lemma Inv.nodup (h : s.Inv) : s.inflight.Nodup := by
  rw [nodup_iff_count_le_one]
  intro r
  change (s.view r).listed ≤ 1
  by_cases ht : r < s.nextReq
  · cases h.views r ht with
    | live p q hl => exact Nat.le_of_eq hl.listed
    | gone hg => rw [hg.listed]; exact Nat.zero_le 1
  rw [h.notArrived r (by omega)]
  exact Nat.zero_le 1

variable {P : Service → Prop}

lemma Inv.walk (h : s.Inv) (hP : P s)
    (hs : ∀ s r p q s', Inv s → P s → r ∈ s.inflight → (s.view r).Live p q → Ticks s r p q s' →
      P s') (o : Nat → ServeOutcome) : (nkvxServiceTickStalls s o).Inv ∧ P (nkvxServiceTickStalls s o) := by
  unfold nkvxServiceTickStalls
  split
  · exact ⟨h, hP⟩
  -- the requests still to be visited are registered, since a visit changes only its own request
  have key : ∀ (rs : List Nat) (s : Service), s.Inv → P s → rs.Nodup → (∀ r ∈ rs, r ∈ s.inflight) →
      (rs.foldl (fun s r => tickStall s r (o r)) s).Inv ∧
        P (rs.foldl (fun s r => tickStall s r (o r)) s) := by
    intro rs
    induction rs with
    | nil => exact fun s h hP _ _ => ⟨h, hP⟩
    | cons r rs ih =>
      intro s h hP hn hm
      have hr := hm r (by simp)
      obtain ⟨hlt, p, q, hl⟩ := h.registered hr
      have ht := tickStall_ticks hl (o r)
      obtain ⟨hf, hn⟩ := nodup_cons.mp hn
      refine ih _ (h.ticks hlt hl ht) (hs s r p q _ h hP hr hl ht) hn ?_
      intro j hj
      have hne : j ≠ r := fun he => hf (he ▸ hj)
      have hp : 0 < (s.view j).listed := count_pos_iff.mpr (hm j (by simp [hj]))
      rw [← ht.view_ne hne] at hp
      exact count_pos_iff.mp hp
  exact key s.inflight s h hP h.nodup fun r hr => hr

lemma Inv.step (h : s.Inv) (e : ServiceEvent) : (s.step e).Inv := by
  cases e with
  | exec => exact h.exec ..
  | cancel => exact h.cancel ..
  | complete op r ret o =>
    change (if (op, r) ∈ s.ops then s.bulkDone op r ret o else s).Inv
    split
    · rename_i hm
      exact h.bulkDone hm ret o
    · exact h
  | tick o => exact (h.walk (P := fun _ => True) trivial (fun _ _ _ _ _ _ _ _ _ _ => trivial) o).1

lemma forall_view {P : ReqView → Prop} (h : ∀ j, P (s.view j)) (hn : ∀ j, j ≠ r → s'.view j = s.view j)
    (hr : P (s'.view r)) (j : Nat) : P (s'.view j) := by
  by_cases hj : j = r
  · rw [hj]
    exact hr
  rw [hn j hj]
  exact h j

/-- The step rule: a property is kept if the handlers of decoded messages, the end of a transfer in
flight and each visit of the stall walk keep it. -/
lemma Inv.keeps (hi : s.Inv) (h : P s)
    (he : ∀ origin input o, e = .exec origin (some input) o → P (nkvxExecHandler s origin (some
      input) o))
    (hc : ∀ origin callId ret s', e = .cancel origin (some callId) ret → Cancels s origin callId s'
      → P s')
    (hd : ∀ op r ret o, e = .complete op r ret o → (op, r) ∈ s.ops → P (s.bulkDone op r ret o))
    (hs : ∀ s r p q s', Inv s → P s → r ∈ s.inflight → (s.view r).Live p q → Ticks s r p q s' → P
      s') :
    P (s.step e) := by
  cases e with
  | exec origin decoded o =>
    cases decoded with
    | none => exact h
    | some input => exact he origin input o rfl
  | cancel origin decoded ret =>
    cases decoded with
    | none => exact h
    | some callId => exact hc origin callId ret _ rfl (cancelHandler_cancels s origin callId ret)
  | complete op r ret o =>
    change P (if (op, r) ∈ s.ops then s.bulkDone op r ret o else s)
    split
    · rename_i hm
      exact hd op r ret o rfl hm
    · exact h
  | tick o => exact (hi.walk h hs o).2

lemma inv_after (pushStall pullStall : Nat) (evs : List ServiceEvent) : (after executor pushStall pullStall evs).Inv :=
  Machine.run_induct step (inv_init executor pushStall pullStall) (fun _ e h => h.step e) evs

end Service

end RadosNkv
