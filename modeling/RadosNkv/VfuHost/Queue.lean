import RadosNkv.Library.Machine
import RadosNkv.Library.PhaseRing
import RadosNkv.Nvme

/-! The submission and completion queue pair of the raw vfio-user driver (`nkv_vfu.h`). -/

namespace RadosNkv

open List

def ioQEntries : Nat := 128

structure NvfuQueue where
  depth : Nat
  sqTail : Nat
  cqHead : Nat
  cqPhase : Bool
  cid : Nat
  cq : Nat → NvmeCpl

structure NvfuController where
  pending : List NvmeCmd
  cqTail : Nat
  phase : Bool
  cqDb : Nat

inductive NvfuResult where
  | timedOut
  | completed (status : Nat) (cpl : NvmeCpl)
deriving DecidableEq

structure NvfuReturn where
  cid : Nat
  result : NvfuResult
deriving DecidableEq

structure NvfuPair where
  q : NvfuQueue
  ctlr : NvfuController
  polling : Option NvmeCmd
  returns : List NvfuReturn

inductive NvfuEvent where
  /-- A call of `nvfu_submit_poll` submits its command. -/
  | submit (cmd : NvmeCmd)
  /-- The controller completes the oldest command that is not completed. -/
  | post (status : NvmeStatus)
  /-- The polling loop reads the slot; `expired` says that the deadline has passed. -/
  | poll (expired : Bool)

def nvfuQueueInitDb (depth : Nat) : NvfuQueue where
  depth := depth
  sqTail := 0
  cqHead := 0
  cqPhase := true
  cid := 0
  cq := fun _ => .zero

def NvfuPair.init (depth : Nat) : NvfuPair where
  q := nvfuQueueInitDb depth
  ctlr := ⟨[], 0, true, 0⟩
  polling := none
  returns := []

def nvfuSubmit (s : NvfuPair) (cmd : NvmeCmd) : NvfuPair :=
  let cmd := { cmd with cid := s.q.cid }
  { s with
    q := { s.q with
      cid := (s.q.cid + 1) % 2 ^ 16
      sqTail := (s.q.sqTail + 1) % s.q.depth }
    ctlr := { s.ctlr with pending := s.ctlr.pending ++ [cmd] }
    polling := some cmd }

def nvfuStatus (cpl : NvmeCpl) : Nat := cpl.sc ||| cpl.sct <<< 8

/-- One turn of the loop of `nvfu_submit_poll` in the call that submitted `cmd`. -/
def nvfuPoll (s : NvfuPair) (cmd : NvmeCmd) (expired : Bool) : NvfuPair :=
  let cqe := s.q.cq s.q.cqHead
  if cqe.p = s.q.cqPhase then
    let head := (s.q.cqHead + 1) % s.q.depth
    { s with
      q := { s.q with
        cqHead := head
        cqPhase := if head = 0 then !s.q.cqPhase else s.q.cqPhase }
      ctlr := { s.ctlr with cqDb := head }
      polling := none
      returns := s.returns ++ [⟨cmd.cid, .completed (nvfuStatus cqe) cqe⟩] }
  else if expired then
    { s with polling := none, returns := s.returns ++ [⟨cmd.cid, .timedOut⟩] }
  else s

/-- The controller posts the completion of its oldest command, unless the completion queue is full.
-/
def nvfuPost (s : NvfuPair) (status : NvmeStatus) : NvfuPair :=
  match s.ctlr.pending with
  | [] => s
  | cmd :: rest =>
    let tail := (s.ctlr.cqTail + 1) % s.q.depth
    if tail = s.ctlr.cqDb then s
    else
      { s with
        q := { s.q with
          cq := Function.update s.q.cq s.ctlr.cqTail
            ⟨status.cdw0, cmd.cid, s.ctlr.phase, status.sct, status.sc⟩ }
        ctlr := { s.ctlr with
          pending := rest
          cqTail := tail
          phase := if tail = 0 then !s.ctlr.phase else s.ctlr.phase } }

def NvfuPair.step (s : NvfuPair) : NvfuEvent → NvfuPair
  | .submit cmd => if s.polling.isSome then s else nvfuSubmit s cmd
  | .post status => nvfuPost s status
  | .poll expired =>
    match s.polling with
    | none => s
    | some cmd => nvfuPoll s cmd expired

def NvfuPair.after (depth : Nat) (evs : List NvfuEvent) : NvfuPair :=
  Machine.run NvfuPair.step (.init depth) evs

def NvfuReturn.timedOut (r : NvfuReturn) : Bool :=
  match r.result with
  | .timedOut => true
  | .completed _ _ => false

def timeouts (rs : List NvfuReturn) : Nat := rs.countP NvfuReturn.timedOut
def completions (rs : List NvfuReturn) : Nat := rs.countP fun r => !r.timedOut

variable {depth : Nat} (rs : List NvfuReturn) (own : Nat)

lemma timeouts_add_completions : timeouts rs + completions rs = rs.length := by
  rw [length_eq_countP_add_countP NvfuReturn.timedOut]
  congr 1
  exact countP_congr fun r _ => by simp

@[simp] lemma completions_completed (status : Nat) (cpl : NvmeCpl) :
    completions (rs ++ [⟨own, .completed status cpl⟩]) = completions rs + 1 := by
  simp [completions, NvfuReturn.timedOut]

@[simp] lemma timeouts_completed (status : Nat) (cpl : NvmeCpl) :
    timeouts (rs ++ [⟨own, .completed status cpl⟩]) = timeouts rs := by
  simp [timeouts, NvfuReturn.timedOut]

@[simp] lemma completions_timedOut : completions (rs ++ [⟨own, .timedOut⟩]) = completions rs := by
  simp [completions, NvfuReturn.timedOut]

@[simp] lemma timeouts_timedOut : timeouts (rs ++ [⟨own, .timedOut⟩]) = timeouts rs + 1 := by
  simp [timeouts, NvfuReturn.timedOut]

lemma forall_split_concat {α : Type*} {P : List α → α → Prop} {xs : List α} {x : α} :
    (∀ earlier r later, xs ++ [x] = earlier ++ r :: later → P earlier r) ↔
      (∀ earlier r later, xs = earlier ++ r :: later → P earlier r) ∧ P xs x := by
  constructor
  · intro h
    exact ⟨fun earlier r later he => h earlier r (later ++ [x]) (by simp [he]), h xs x [] rfl⟩
  rintro ⟨ha, hl⟩ earlier r later he
  rcases eq_nil_or_concat later with rfl | ⟨later, y, rfl⟩
  · obtain ⟨rfl, hr⟩ := append_inj' he rfl
    rw [singleton_inj] at hr
    exact hr ▸ hl
  have hn : xs ++ [x] = (earlier ++ r :: later) ++ [y] := by simpa using he
  exact ha earlier r later (append_inj' hn rfl).1

def NvfuPair.ring (s : NvfuPair) : PhaseRing NvmeCpl where
  depth := s.q.depth
  slots := s.q.cq
  tail := s.ctlr.cqTail
  tailPhase := s.ctlr.phase
  head := s.q.cqHead
  headPhase := s.q.cqPhase

def cidOf (n : Nat) : Nat := n % 2 ^ 16

def NvfuReturn.Lags (earlier : List NvfuReturn) (r : NvfuReturn) : Prop :=
  match r.result with
  | .timedOut => True
  | .completed _ cpl => cpl.cid = cidOf (completions earlier) ∧ r.cid = cidOf earlier.length

/-- The queue pair after `returns`: every completion that was posted and not taken waits in the ring
`waiting`, in the order of submission and ahead of the commands that are still to be completed. -/
structure NvfuPair.Ordered (s : NvfuPair) (waiting : List NvmeCpl) : Prop where
  carries : s.ring.Carries NvmeCpl.p (completions s.returns) waiting
  doorbell : s.ctlr.cqDb = s.q.cqHead
  cid : s.q.cid = cidOf (s.returns.length + s.polling.toList.length)
  polling : ∀ cmd ∈ s.polling, cmd.cid = cidOf s.returns.length
  outstanding : waiting.map NvmeCpl.cid ++ s.ctlr.pending.map NvmeCmd.cid =
    (List.range' (completions s.returns) (timeouts s.returns + s.polling.toList.length)).map cidOf
  lags : ∀ earlier r later, s.returns = earlier ++ r :: later → r.Lags earlier

lemma ordered_init (hd : 0 < depth) : (NvfuPair.init depth).Ordered [] where
  carries := .init hd fun _ => rfl
  doorbell := rfl
  cid := rfl
  polling := nofun
  outstanding := rfl
  lags := fun earlier r later h => by simp [NvfuPair.init] at h

namespace NvfuPair.Ordered

variable {s : NvfuPair} {waiting : List NvmeCpl}

lemma submit (h : s.Ordered waiting) (hi : s.polling = none) (cmd : NvmeCmd) : (nvfuSubmit s cmd).Ordered waiting where
  carries := h.carries
  doorbell := h.doorbell
  cid := by
    have hc := h.cid
    rw [hi] at hc
    show (s.q.cid + 1) % 2 ^ 16 = cidOf (s.returns.length + 1)
    rw [hc]
    exact Nat.mod_add_mod ..
  polling := by
    rintro _ ⟨⟩
    have hc := h.cid
    rw [hi] at hc
    exact hc
  outstanding := by
    have ho := h.outstanding
    have hc := h.cid
    rw [hi] at ho hc
    have hl := timeouts_add_completions s.returns
    have hn : completions s.returns + timeouts s.returns = s.returns.length := by omega
    show waiting.map NvmeCpl.cid ++ (s.ctlr.pending ++ [_]).map NvmeCmd.cid =
      (List.range' (completions s.returns) (timeouts s.returns + 1)).map cidOf
    rw [map_append, ← append_assoc, ho, range'_1_concat, map_append, hn]
    exact congrArg (_ ++ [·]) hc
  lags := h.lags

variable {cmd : NvmeCmd}

lemma post_room (h : s.Ordered waiting) (hp : s.ctlr.pending = cmd :: rest) (hf : ¬ s.ring.Full)
    (status : NvmeStatus) : (nvfuPost s status).Ordered
      (waiting ++ [⟨status.cdw0, cmd.cid, s.ctlr.phase, status.sct, status.sc⟩]) := by
  let cpl : NvmeCpl := ⟨status.cdw0, cmd.cid, s.ctlr.phase, status.sct, status.sc⟩
  have hr : ¬ (s.ctlr.cqTail + 1) % s.q.depth = s.ctlr.cqDb := by
    rw [h.doorbell]
    exact hf
  have hc := h.carries.post (x := cpl) hf rfl
  have ho := h.outstanding
  rw [hp] at ho
  unfold nvfuPost
  rw [hp]
  dsimp only
  rw [if_neg hr]
  refine ⟨hc, h.doorbell, h.cid, h.polling, ?_, h.lags⟩
  simpa using ho

lemma post (h : s.Ordered waiting) (status : NvmeStatus) : ∃ waiting', (nvfuPost s status).Ordered waiting' := by
  cases hp : s.ctlr.pending with
  | nil => exact ⟨waiting, by simpa [nvfuPost, hp] using h⟩
  | cons cmd rest =>
    by_cases hf : s.ring.Full
    · have hd : (s.ctlr.cqTail + 1) % s.q.depth = s.ctlr.cqDb := by
        rw [h.doorbell]
        exact hf
      exact ⟨waiting, by simpa [nvfuPost, hp, hd] using h⟩
    · exact ⟨_, h.post_room hp hf status⟩

lemma poll_ready (h : s.Ordered (x :: rest)) (hm : s.polling = some cmd) (expired : Bool) :
    (nvfuPoll s cmd expired).Ordered rest ∧ (nvfuPoll s cmd expired).polling = none ∧
      (nvfuPoll s cmd expired).returns = s.returns ++ [⟨cmd.cid, .completed (nvfuStatus x) x⟩] := by
  have hw : cmd.cid = cidOf s.returns.length := h.polling cmd hm
  have hd : (s.q.cq s.q.cqHead).p = s.q.cqPhase := h.carries.ready_iff.mpr (by simp)
  have hs : s.q.cq s.q.cqHead = x := h.carries.slot_head
  have hc := h.cid
  have ho := h.outstanding
  rw [hm] at hc ho
  simp only [Option.toList_some, length_singleton, range'_succ, map_cons, cons_append, List.cons.injEq] at ho
  obtain ⟨hx, hr⟩ := ho
  unfold nvfuPoll
  rw [if_pos hd, hs]
  refine ⟨⟨?_, rfl, ?_, nofun, ?_, ?_⟩, rfl, rfl⟩
  · rw [completions_completed]
    exact h.carries.take
  · simpa using hc
  · simpa [completions_completed, timeouts_completed] using hr
  · exact forall_split_concat.mpr ⟨h.lags, hx, hw⟩

lemma poll (h : s.Ordered waiting) (hm : s.polling = some cmd) (expired : Bool) :
    ∃ waiting', (nvfuPoll s cmd expired).Ordered waiting' := by
  cases waiting with
  | cons x rest => exact ⟨rest, (h.poll_ready hm expired).1⟩
  | nil =>
    have hr : ¬ (s.q.cq s.q.cqHead).p = s.q.cqPhase := fun hr => h.carries.ready_iff.mp hr rfl
    have hc := h.cid
    have ho := h.outstanding
    rw [hm] at hc ho
    unfold nvfuPoll
    rw [if_neg hr]
    cases expired with
    | false => exact ⟨[], h⟩
    | true =>
      refine ⟨[], ?_, h.doorbell, ?_, nofun, ?_, ?_⟩
      · rw [if_pos rfl, completions_timedOut]
        exact h.carries
      · simpa using hc
      · simpa [completions_timedOut, timeouts_timedOut] using ho
      · exact forall_split_concat.mpr ⟨h.lags, trivial⟩

lemma step (h : s.Ordered waiting) (ev : NvfuEvent) : ∃ waiting', (s.step ev).Ordered waiting' := by
  cases ev with
  | submit cmd =>
    cases hp : s.polling with
    | none => exact ⟨waiting, by simpa [NvfuPair.step, hp] using h.submit hp cmd⟩
    | some cmd' => exact ⟨waiting, by simpa [NvfuPair.step, hp] using h⟩
  | post status => exact h.post status
  | poll expired =>
    cases hp : s.polling with
    | none => exact ⟨waiting, by simpa [NvfuPair.step, hp] using h⟩
    | some cmd => simpa [NvfuPair.step, hp] using h.poll hp expired

end NvfuPair.Ordered

lemma ordered_after (hd : 0 < depth) (evs : List NvfuEvent) : ∃ waiting, (NvfuPair.after depth evs).Ordered waiting :=
  Machine.run_induct (P := fun s => ∃ waiting, NvfuPair.Ordered s waiting) NvfuPair.step
    ⟨[], ordered_init hd⟩ (fun _ ev ⟨_, h⟩ => h.step ev) evs

structure NvfuPair.Settled (s : NvfuPair) : Prop where
  depth : 1 < s.q.depth
  idle : s.polling = none
  prompt : timeouts s.returns = 0
  ordered : s.Ordered []

lemma settled_init (hd : 1 < depth) : (NvfuPair.init depth).Settled :=
  ⟨hd, rfl, rfl, ordered_init (by omega)⟩

def NvfuPair.inTime (s : NvfuPair) (cmd : NvmeCmd) (status : NvmeStatus) : NvfuPair :=
  Machine.run NvfuPair.step s [.submit cmd, .post status, .poll false]

lemma settled_inTime {s : NvfuPair} (h : s.Settled) (cmd : NvmeCmd) (status : NvmeStatus) :
    (s.inTime cmd status).Settled ∧ ∃ cpl : NvmeCpl,
      (s.inTime cmd status).returns = s.returns ++ [⟨s.q.cid, .completed (nvfuStatus cpl) cpl⟩] ∧
        cpl.sct = status.sct ∧ cpl.sc = status.sc ∧ cpl.cdw0 = status.cdw0 := by
  obtain ⟨hd, hi, hpr, hor⟩ := h
  have he : s.ctlr.pending = [] := by
    have ho := hor.outstanding
    rw [hi, hpr] at ho
    simpa using ho
  have hs := hor.submit hi cmd
  have hpn : (nvfuSubmit s cmd).ctlr.pending = [{ cmd with cid := s.q.cid }] := by
    show s.ctlr.pending ++ [_] = _
    rw [he]
    rfl
  have hm : ¬ (nvfuSubmit s cmd).ring.Full := by
    rw [hs.carries.full_iff]
    show ¬ 0 + 1 = s.q.depth
    omega
  have hp := hs.post_room hpn hm status
  have hps : (nvfuPost (nvfuSubmit s cmd) status).polling = some { cmd with cid := s.q.cid } ∧
      (nvfuPost (nvfuSubmit s cmd) status).returns = s.returns ∧
      (nvfuPost (nvfuSubmit s cmd) status).q.depth = s.q.depth := by
    unfold nvfuPost
    rw [hpn]
    dsimp only
    split <;> exact ⟨rfl, rfl, rfl⟩
  obtain ⟨hpl, ht, hd'⟩ := hps
  obtain ⟨hdn, hn, hl⟩ := hp.poll_ready hpl false
  have hr : s.inTime cmd status =
      nvfuPoll (nvfuPost (nvfuSubmit s cmd) status) { cmd with cid := s.q.cid } false := by
    simp [NvfuPair.inTime, NvfuPair.step, hi, hpl]
  rw [ht] at hl
  rw [hr]
  refine ⟨⟨?_, hn, ?_, hdn⟩, _, hl, rfl, rfl, rfl⟩
  · have hk : ∀ (t : NvfuPair) (c : NvmeCmd), (nvfuPoll t c false).q.depth = t.q.depth := by
      intro t c
      unfold nvfuPoll
      dsimp only
      split <;> rfl
    rw [hk, hd']
    exact hd
  rw [hl, timeouts_completed]
  exact hpr

lemma cidOf_eq_iff (h : m ≤ n) : cidOf m = cidOf n ↔ 2 ^ 16 ∣ n - m := by
  rw [cidOf, cidOf]
  exact Nat.modEq_iff_dvd' h

/-- A call that returns a completion returns that of its own command exactly when the number of
earlier calls on the queue that timed out is a multiple of 2^16. -/
theorem completion_own_iff (depth : Nat) (hd : 0 < depth) (evs : List NvfuEvent)
    (earlier later : List NvfuReturn) (own status : Nat) (cpl : NvmeCpl)
    (h : (NvfuPair.after depth evs).returns = earlier ++ ⟨own, .completed status cpl⟩ :: later) :
    cpl.cid = own ↔ 2 ^ 16 ∣ timeouts earlier := by
  obtain ⟨waiting, hord⟩ := ordered_after hd evs
  obtain ⟨hcpl, hown⟩ := hord.lags earlier _ later h
  dsimp only at hown
  have hsum := timeouts_add_completions earlier
  have hrest : earlier.length - completions earlier = timeouts earlier := by omega
  rw [hcpl, hown, cidOf_eq_iff (by omega), hrest]

/-- A call whose command is completed before it looks. -/
theorem first_call_returns_own :
    (NvfuPair.after ioQEntries [.submit .zero, .post ⟨0, 0, 5⟩, .poll false]).returns =
        [] ++ ⟨0, .completed 0 ⟨5, 0, true, 0, 0⟩⟩ :: [] ∧
      ((⟨5, 0, true, 0, 0⟩ : NvmeCpl).cid = 0 ↔ 2 ^ 16 ∣ timeouts []) :=
  ⟨by decide, completion_own_iff ioQEntries (by decide) [.submit .zero, .post ⟨0, 0, 5⟩, .poll false]
    [] [] 0 0 _ (by decide)⟩

/-- A call times out, and the next one returns the completion of its command: the second command is
reported done, with the first one's status and length, before the controller has completed it. -/
theorem stale_completion_returned :
    (NvfuPair.after ioQEntries
        [.submit .zero, .poll true, .post ⟨0, 0, 5⟩, .submit .zero, .poll false]).returns =
      [⟨0, .timedOut⟩, ⟨1, .completed 0 ⟨5, 0, true, 0, 0⟩⟩] := by
  decide

end RadosNkv
