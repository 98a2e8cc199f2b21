import RadosNkv.Library.Machine
import RadosNkv.Worker.Job

/-! The queue between the SPDK threads and the worker thread (`g_nkvx`). -/

namespace RadosNkv.Worker

open List Machine

structure Queued where
  serial : Nat
  job : Job
deriving DecidableEq

structure Sent where
  job : Queued
  status : IoStatus
  resultLen : Nat
deriving DecidableEq

inductive Phase where
  | asleep
  | awake
  | busy (job : Queued)
  | exited
  | joined
deriving DecidableEq

def Phase.job : Phase → Option Queued
  | .busy job => some job
  | .asleep | .awake | .exited | .joined => none

def Phase.woken : Phase → Phase
  | .asleep => .awake
  | ph => ph

structure Nkvx where
  queue : List Queued
  running : Bool
  stop : Bool
  tid : Nat
  threads : List Phase
  joining : Nat
  joined : Nat
  fault : Bool
  accepted : List Queued
  sent : List Sent
deriving DecidableEq

def Nkvx.init : Nkvx := ⟨[], false, false, 0, [], 0, 0, false, [], []⟩

def signal (pick : Nat) (threads : List Phase) : List Phase :=
  if threads[pick]? = some .asleep then threads.set pick .awake
  else
    match threads.findIdx? (· = .asleep) with
    | some i => threads.set i .awake
    | none => threads

def broadcast (threads : List Phase) : List Phase := threads.map Phase.woken

inductive Event where
  | dispatch (args : RunArgs) (caller : Caller) (pick : Nat)
  | dispatchCompile (args : CompileArgs) (caller : Caller) (pick : Nat)
  | worker (thread : Nat) (status : IoStatus) (resultLen : Nat)
  /-- A spurious wake-up. -/
  | wake (thread : Nat)
  | start (created : Bool)
  | stopEnter
  | stopJoin
  | stopLeave

namespace Nkvx

section

variable (s : Nkvx)

def enqueue (job : Except DispatchError Job) (pick : Nat) : Nkvx × Except DispatchError Unit :=
  match job with
  | .error e => (s, .error e)
  | .ok job =>
    if !s.running then (s, .error .nodev)
    else
      let q : Queued := ⟨s.accepted.length, job⟩
      ({ s with queue := s.queue ++ [q], threads := signal pick s.threads, accepted := s.accepted ++ [q] }, .ok ())

/-- `kvdev_rados_nkvx_worker_main`, from one point at which the mutex is free to the next. -/
def work (thread : Nat) (status : IoStatus) (resultLen : Nat) : Nkvx :=
  match s.threads[thread]? with
  | some .awake =>
    match s.queue with
    | [] => { s with threads := s.threads.set thread (if s.stop then .exited else .asleep) }
    | q :: queue => { s with queue, threads := s.threads.set thread (.busy q) }
  | some (.busy q) =>
    { s with sent := s.sent ++ [⟨q, status, resultLen⟩], threads := s.threads.set thread .awake }
  | _ => s

def start (created : Bool) : Nkvx :=
  if s.running then s
  else
    let s := { s with queue := [], stop := false }
    if created then { s with threads := s.threads ++ [.awake], tid := s.threads.length, running := true } else s

def stopEnter : Nkvx :=
  if !s.running then s
  else { s with stop := true, threads := broadcast s.threads, joining := s.joining + 1 }

def stopJoin : Nkvx :=
  if s.joining = 0 then s
  else
    match s.threads[s.tid]? with
    | some .exited =>
      { s with threads := s.threads.set s.tid .joined, joining := s.joining - 1, joined := s.joined + 1 }
    | some .joined | none => { s with fault := true }
    | some _ => s

def stopLeave : Nkvx :=
  if s.joined = 0 then s else { s with running := false, joined := s.joined - 1 }

def handle : Event → Nkvx
  | .dispatch args caller pick => (s.enqueue (args.job caller) pick).1
  | .dispatchCompile args caller pick => (s.enqueue (args.job caller) pick).1
  | .worker thread status resultLen => s.work thread status resultLen
  | .wake thread =>
    if s.threads[thread]? = some .asleep then { s with threads := s.threads.set thread .awake } else s
  | .start created => s.start created
  | .stopEnter => s.stopEnter
  | .stopJoin => s.stopJoin
  | .stopLeave => s.stopLeave

def step (ev : Event) : Nkvx := if s.fault then s else s.handle ev

/-- The step is one with which a call of stop returns. -/
def StopReturns : Event → Prop
  | .stopEnter => s.running = false
  | .stopLeave => s.joined ≠ 0
  | _ => False

/-- The worker of `tid` has not left its loop. -/
def InLoop : Prop :=
  s.threads[s.tid]? ≠ some .exited ∧ s.threads[s.tid]? ≠ some .joined

/-- No dispatch passes its checks while the executor counts as running and its worker has left its
loop, and no `stop` enters while another is under way. -/
def Orderly : Event → Prop
  | .dispatch args caller _ => (args.job caller).isOk → s.running = true → s.InLoop
  | .dispatchCompile args caller _ => (args.job caller).isOk → s.running = true → s.InLoop
  | .stopEnter => s.running = true → s.joining = 0 ∧ s.joined = 0
  | .worker _ _ _ | .wake _ | .start _ | .stopJoin | .stopLeave => True

end

instance (s : Nkvx) : ∀ ev, Decidable (s.Orderly ev)
  | .dispatch _ _ _ => inferInstanceAs (Decidable (_ = true → _ = true → _ ∧ _))
  | .dispatchCompile _ _ _ => inferInstanceAs (Decidable (_ = true → _ = true → _ ∧ _))
  | .stopEnter => inferInstanceAs (Decidable (_ = true → _ ∧ _))
  | .worker _ _ _ | .wake _ | .start _ | .stopJoin | .stopLeave => .isTrue trivial

/-- For every accepted job exactly one message has been sent. -/
def AllSentOnce (s : Nkvx) : Prop := ∀ q ∈ s.accepted, (s.sent.map Sent.job).count q = 1

def held (s : Nkvx) : List Queued := s.threads.filterMap Phase.job

/-! ### Orderly runs -/

def Current (s : Nkvx) : Phase → Prop
  | .asleep => s.queue = [] ∧ s.stop = false ∧ s.joining = 0 ∧ s.joined = 0
  | .awake | .busy _ => s.joining = (if s.stop then 1 else 0) ∧ s.joined = 0
  | .exited => s.queue = [] ∧ s.stop = true ∧ s.joining = 1 ∧ s.joined = 0
  | .joined => s.queue = [] ∧ s.stop = true ∧ s.joining = 0 ∧ s.joined = 1

/-- Either nothing runs and nothing is queued, or there is one worker and every earlier thread has
been joined. -/
inductive Mode (s : Nkvx) : Prop where
  | down (running : s.running = false) (queue : s.queue = []) (joining : s.joining = 0) (joined : s.joined = 0)
      (threads : ∀ ph ∈ s.threads, ph = .joined)
  | up (old : List Phase) (ph : Phase) (running : s.running = true) (threads : s.threads = old ++ [ph])
      (tid : s.tid = old.length) (gone : ∀ p ∈ old, p = .joined) (current : s.Current ph)

structure Sound (s : Nkvx) : Prop where
  fault : s.fault = false
  mode : s.Mode
  fifo : s.accepted = s.sent.map Sent.job ++ s.held ++ s.queue
  serial : s.accepted.map Queued.serial = List.range s.accepted.length

variable {s : Nkvx} {old : List Phase}

lemma filterMap_gone (hgn : ∀ p ∈ old, p = .joined) : old.filterMap Phase.job = [] := by
  rw [filterMap_eq_nil_iff]
  intro p hp
  rw [hgn p hp]
  rfl

lemma held_up (ht : s.threads = old ++ [ph]) (hgn : ∀ p ∈ old, p = .joined) : s.held = ph.job.toList := by
  rw [held, ht, filterMap_append, filterMap_gone hgn, nil_append, filterMap_cons]
  cases ph <;> rfl

lemma thread_gone (hgn : ∀ p ∈ old, p = .joined) (hi : i ≠ old.length)
    (hp : (old ++ [ph])[i]? = some p) : p = .joined := by
  rcases Nat.lt_or_gt_of_ne hi with hl | hg
  · rw [getElem?_append_left hl] at hp
    exact hgn p (mem_of_getElem? hp)
  rw [getElem?_eq_none (by simp; omega)] at hp
  cases hp

lemma getElem?_last : (old ++ [ph])[old.length]? = some ph := by simp

lemma set_last (new : Phase) : (old ++ [ph]).set old.length new = old ++ [new] := by simp

lemma job_woken (ph : Phase) : ph.woken.job = ph.job := by cases ph <;> rfl

section

variable (hgn : ∀ p ∈ old, p = .joined)
include hgn

lemma findIdx_gone : old.findIdx? (· = Phase.asleep) = none := by
  rw [findIdx?_eq_none_iff]
  intro p hp
  rw [hgn p hp]
  rfl

lemma signal_up (pick : Nat) : signal pick (old ++ [ph]) = old ++ [ph.woken] := by
  unfold signal
  split
  · next hp =>
    by_cases hl : pick = old.length
    · subst hl
      rw [getElem?_last] at hp
      cases hp
      rw [set_last]
      rfl
    · cases thread_gone hgn hl hp
  rw [findIdx?_append, findIdx_gone hgn]
  cases ph <;> simp [findIdx?_cons, Phase.woken]

lemma broadcast_up : broadcast (old ++ [ph]) = old ++ [ph.woken] := by
  rw [broadcast, map_append]
  congr 1
  refine (map_congr_left fun p hp => ?_).trans (map_id old)
  rw [hgn p hp]
  rfl

end

section

variable (h : s.Sound)
include h

lemma Sound.enqueue {job : Except DispatchError Job}
    (hp : job.isOk → s.running = true → s.InLoop) (pick : Nat) : (s.enqueue job pick).1.Sound := by
  unfold Nkvx.enqueue
  split
  · exact h
  split
  · exact h
  next hr =>
  have hr : s.running = true := by simpa using hr
  cases h.mode with
  | down hd => simp [hr] at hd
  | up old ph _ hh ht hgn hc =>
    have hl := hp rfl hr
    rw [InLoop, hh, ht, getElem?_last] at hl
    have hhl := held_up hh hgn
    have hn : signal pick s.threads = old ++ [ph.woken] := by rw [hh, signal_up hgn]
    refine ⟨h.fault, .up old ph.woken hr hn ht hgn ?_, ?_, ?_⟩
    · cases ph with
      | asleep =>
        obtain ⟨-, hs, hjn, hj⟩ := hc
        exact ⟨by simpa [hs] using hjn, hj⟩
      | awake => exact hc
      | busy q => exact hc
      | exited => exact absurd rfl hl.1
      | joined => exact absurd rfl hl.2
    · rw [held_up hn hgn, job_woken, ← hhl]
      show s.accepted ++ _ = s.sent.map Sent.job ++ s.held ++ (s.queue ++ _)
      rw [h.fifo]
      simp only [append_assoc]
    simp only [map_append, map_cons, map_nil, length_append, length_cons, length_nil]
    rw [h.serial, range_succ]

lemma Sound.work (thread : Nat) (status : IoStatus) (resultLen : Nat) : (s.work thread status resultLen).Sound := by
  unfold Nkvx.work
  cases h.mode with
  | down _ _ _ _ hj =>
    split
    · next hp => cases hj _ (mem_of_getElem? hp)
    · next hp => cases hj _ (mem_of_getElem? hp)
    · exact h
  | up old ph hr hth ht hgn hc =>
    have hh := held_up hth hgn
    by_cases hl : thread = old.length
    · subst hl
      rw [hth, getElem?_last]
      cases ph with
      | awake =>
        obtain ⟨hg, hj⟩ := hc
        dsimp only
        split
        · next hq =>
          -- the queue is empty: the worker goes to sleep, or leaves its loop if it is to stop
          cases hs : s.stop with
          | false =>
            rw [hs] at hg
            refine ⟨h.fault, .up old .asleep hr (set_last _) ht hgn ⟨hq, rfl, hg, hj⟩, ?_, h.serial⟩
            rw [held_up (set_last _) hgn, h.fifo, hh]
            rfl
          | true =>
            rw [hs] at hg
            refine ⟨h.fault, .up old .exited hr (set_last _) ht hgn ⟨hq, rfl, hg, hj⟩, ?_, h.serial⟩
            rw [held_up (set_last _) hgn, h.fifo, hh]
            rfl
        next q queue hq =>
        refine ⟨h.fault, .up old (.busy q) hr (set_last _) ht hgn ⟨hg, hj⟩, ?_, h.serial⟩
        rw [held_up (set_last _) hgn, h.fifo, hh, hq]
        simp [Phase.job]
      | busy q =>
        refine ⟨h.fault, .up old .awake hr (set_last _) ht hgn hc, ?_, h.serial⟩
        rw [held_up (set_last _) hgn, h.fifo, hh]
        simp [Phase.job]
      | asleep | exited | joined => exact h
    split
    · next hp => cases thread_gone hgn hl (hth ▸ hp)
    · next hp => cases thread_gone hgn hl (hth ▸ hp)
    · exact h

lemma Sound.wake (thread : Nat) : (s.handle (.wake thread)).Sound := by
  unfold handle
  dsimp only
  split
  · next hp =>
    cases h.mode with
    | down _ _ _ _ hj => cases hj _ (mem_of_getElem? hp)
    | up old ph hr hh ht hgn hc =>
      by_cases hl : thread = old.length
      · subst hl
        have hs : s.threads.set old.length .awake = old ++ [.awake] := by rw [hh, set_last]
        rw [hh, getElem?_last] at hp
        cases hp
        obtain ⟨-, hst, hg, hj⟩ := hc
        refine ⟨h.fault, .up old .awake hr hs ht hgn ⟨by simpa [hst] using hg, hj⟩, ?_, h.serial⟩
        rw [held_up hs hgn, h.fifo, held_up hh hgn]
        rfl
      · cases thread_gone hgn hl (hh ▸ hp)
  · exact h

lemma Sound.start (created : Bool) : (s.start created).Sound := by
  unfold Nkvx.start
  cases h.mode with
  | up old ph hr _ _ _ _ =>
    rw [if_pos hr]
    exact h
  | down hr hq hn hj ht =>
    rw [if_neg (by simp [hr])]
    have hf := h.fifo
    rw [hq] at hf
    cases created with
    | false => exact ⟨h.fault, .down hr rfl hn hj ht, hf, h.serial⟩
    | true =>
      refine ⟨h.fault, .up s.threads .awake rfl rfl rfl ht ⟨hn, hj⟩, ?_, h.serial⟩
      rw [held_up rfl ht]
      rw [held, filterMap_gone ht] at hf
      exact hf

lemma Sound.stopEnter (ha : s.running = true → s.joining = 0 ∧ s.joined = 0) : s.stopEnter.Sound := by
  unfold Nkvx.stopEnter
  split
  · exact h
  next hr =>
  have hr : s.running = true := by simpa using hr
  obtain ⟨hg, hj⟩ := ha hr
  cases h.mode with
  | down hd => simp [hr] at hd
  | up old ph _ hh ht hgn hc =>
    have hn : broadcast s.threads = old ++ [ph.woken] := by rw [hh, broadcast_up hgn]
    refine ⟨h.fault, .up old ph.woken hr hn ht hgn ?_, ?_, h.serial⟩
    · have ho : s.joining + 1 = 1 := by omega
      cases ph with
      | asleep | awake | busy => exact ⟨ho, hj⟩
      | exited =>
        obtain ⟨-, -, hb, -⟩ := hc
        omega
      | joined =>
        obtain ⟨-, -, -, hb⟩ := hc
        omega
    rw [held_up hn hgn, job_woken, ← held_up hh hgn]
    exact h.fifo

lemma Sound.stopJoin : s.stopJoin.Sound := by
  unfold Nkvx.stopJoin
  split
  · exact h
  next hj =>
  cases h.mode with
  | down _ _ hn => exact absurd hn hj
  | up old ph hr hh ht hgn hc =>
    rw [hh, ht, getElem?_last]
    cases ph with
    | asleep | awake | busy => exact h
    | joined => exact absurd hc.2.2.1 hj
    | exited =>
      obtain ⟨hq, hs, ho, hd⟩ := hc
      rw [set_last]
      refine ⟨h.fault, .up old .joined hr rfl rfl hgn ⟨hq, hs, ?_, ?_⟩, ?_, h.serial⟩
      · show s.joining - 1 = 0
        omega
      · show s.joined + 1 = 1
        omega
      rw [held_up rfl hgn, h.fifo, held_up hh hgn]
      rfl

lemma Sound.stopLeave : s.stopLeave.Sound := by
  unfold Nkvx.stopLeave
  split
  · exact h
  next hj =>
  cases h.mode with
  | down _ _ _ hn => exact absurd hn hj
  | up old ph hr hh ht hgn hc =>
    cases ph with
    | asleep => exact absurd hc.2.2.2 hj
    | awake => exact absurd hc.2 hj
    | busy q => exact absurd hc.2 hj
    | exited => exact absurd hc.2.2.2 hj
    | joined =>
      obtain ⟨hq, -, hg, ho⟩ := hc
      refine ⟨h.fault, .down rfl hq hg ?_ fun p hp => ?_, h.fifo, h.serial⟩
      · show s.joined - 1 = 0
        omega
      rw [show ({ s with running := false, joined := s.joined - 1 } : Nkvx).threads = old ++ [.joined] from hh] at hp
      rcases mem_append.mp hp with hold | he
      · exact hgn p hold
      · exact mem_singleton.mp he

lemma Sound.step (ho : s.Orderly ev) : (s.step ev).Sound := by
  unfold Nkvx.step
  rw [if_neg (by simp [h.fault])]
  cases ev with
  | dispatch args caller pick => exact h.enqueue ho pick
  | dispatchCompile args caller pick => exact h.enqueue ho pick
  | worker => exact h.work ..
  | wake thread => exact h.wake thread
  | start created => exact h.start created
  | stopEnter => exact h.stopEnter ho
  | stopJoin => exact h.stopJoin
  | stopLeave => exact h.stopLeave

end

lemma Sound.init : Nkvx.init.Sound := ⟨rfl, .down rfl rfl rfl rfl nofun, rfl, rfl⟩

lemma Sound.nodup (h : s.Sound) : s.accepted.Nodup :=
  .of_map Queued.serial (h.serial ▸ nodup_range)

lemma Sound.allSentOnce (h : s.Sound) (hh : s.held = []) (hu : s.queue = []) : s.AllSentOnce := by
  intro q hq
  have hf := h.fifo
  rw [hh, hu, append_nil, append_nil] at hf
  rw [← hf]
  exact count_eq_one_of_mem h.nodup hq

lemma Sound.allSentOnce_down (h : s.Sound) (hr : s.running = false) : s.AllSentOnce := by
  cases h.mode with
  | down _ hq _ _ ht => exact h.allSentOnce (filterMap_gone ht) hq
  | up _ _ hu => simp [hr] at hu

lemma Sound.allSentOnce_stop (h : s.Sound) (ho : s.Orderly ev) (ht : s.StopReturns ev) :
    (s.step ev).AllSentOnce := by
  have hn := h.step ho
  refine hn.allSentOnce_down ?_
  unfold Nkvx.step
  rw [if_neg (by simp [h.fault])]
  cases ev with
  | stopEnter =>
    have hr : s.running = false := ht
    simp [handle, Nkvx.stopEnter, hr]
  | stopLeave =>
    have hj : s.joined ≠ 0 := ht
    simp [handle, Nkvx.stopLeave, hj]
  | _ => cases ht

def pending (s : Nkvx) : Nat := 2 * s.queue.length + s.held.length

lemma Sound.pending_le (h : s.Sound) : s.pending ≤ 2 * s.accepted.length := by
  rw [pending, h.fifo]
  simp only [length_append]
  omega

lemma Sound.pending_work (h : s.Sound) (status : IoStatus) (resultLen : Nat) :
    (s.work s.tid status resultLen).pending = s.pending - 1 := by
  unfold Nkvx.work
  cases h.mode with
  | down _ hq _ _ hj =>
    have hn : s.pending = 0 := by rw [pending, hq, held, filterMap_gone hj]; rfl
    split
    · next hp => cases hj _ (mem_of_getElem? hp)
    · next hp => cases hj _ (mem_of_getElem? hp)
    · rw [hn]
  | up old ph hr hh ht hgn hc =>
    have hb : s.pending = 2 * s.queue.length + ph.job.toList.length := by rw [pending, held_up hh hgn]
    rw [hb, ht, hh, getElem?_last]
    cases ph with
    | awake =>
      dsimp only
      split
      · next hq =>
        rw [pending, held_up (set_last _) hgn, hq]
        cases s.stop <;> rfl
      next q queue hq =>
      rw [pending, held_up (set_last _) hgn, hq]
      simp [Phase.job]
      omega
    | busy q =>
      rw [pending, held_up (set_last _) hgn]
      simp [Phase.job]
    | asleep | exited | joined =>
      rw [hb, hc.1]
      rfl

lemma Sound.drains (h : s.Sound) {outs : List (IoStatus × Nat)} (he : s.pending ≤ outs.length) :
    (run Nkvx.step s (outs.map fun out => .worker s.tid out.1 out.2)).AllSentOnce := by
  induction outs generalizing s with
  | nil =>
    have hn : s.queue.length = 0 ∧ s.held.length = 0 := by
      rw [pending, length_nil] at he
      omega
    exact h.allSentOnce (eq_nil_of_length_eq_zero hn.2) (eq_nil_of_length_eq_zero hn.1)
  | cons out outs ih =>
    have hs : s.step (.worker s.tid out.1 out.2) = s.work s.tid out.1 out.2 := if_neg (by simp [h.fault])
    have ht : (s.work s.tid out.1 out.2).tid = s.tid := by
      unfold Nkvx.work
      split
      · split <;> rfl
      · rfl
      · rfl
    rw [length_cons] at he
    have hr := ih (h.work s.tid out.1 out.2) (by rw [h.pending_work]; omega)
    rw [ht] at hr
    rw [map_cons, run_cons, hs]
    exact hr

end Nkvx

/-- In every interleaving in which nothing is dispatched to a worker that has left its loop and
calls of `stop` do not overlap: no message is sent twice, or without a dispatch that returned 0;
when a call of `stop` returns, the message of every such dispatch has been sent; and at any time the
worker alone sends those that are left. -/
theorem delivered_once (evs : List Event)
    (horder : Machine.Along Nkvx.step Nkvx.Orderly .init evs) :
    let s := run Nkvx.step .init evs
    (s.sent.map Sent.job).Nodup ∧ (∀ m ∈ s.sent, m.job ∈ s.accepted) ∧
      Machine.Along Nkvx.step (fun s ev => s.StopReturns ev → (s.step ev).AllSentOnce) .init evs ∧
      ∀ outs : List (IoStatus × Nat), 2 * s.accepted.length ≤ outs.length →
        (run Nkvx.step s (outs.map fun out => .worker s.tid out.1 out.2)).AllSentOnce := by
  intro s
  have hsound : s.Sound :=
    run_induct_along _ Nkvx.Sound.init (fun _ _ h horder => h.step horder) horder
  have hsent : (s.sent.map Sent.job).Sublist s.accepted := by
    rw [hsound.fifo, append_assoc]
    exact sublist_append_left _ _
  refine ⟨hsound.nodup.sublist hsent, fun m hm => hsent.subset (mem_map_of_mem hm), ?_, fun outs henough => ?_⟩
  · exact along_of_invariant _ Nkvx.Sound.init (fun _ _ h horder => h.step horder)
      (fun _ _ h horder => h.allSentOnce_stop horder) horder
  · exact hsound.drains (Nat.le_trans hsound.pending_le henough)

def byteCountArgs (doneArg : Nat) : RunArgs :=
  ⟨some (cstr ['b', 'y', 't', 'e', 'c', 'o', 'u', 'n', 't']), none, none, none, some [7], 1, 8, doneArg⟩

def goodCaller : Caller := ⟨some 0, true⟩

def stopAmidJobs : List Event :=
  [.start true, .worker 0 .success 0, .dispatch (byteCountArgs 1) goodCaller 0, .worker 0 .success 0, .stopEnter,
    .dispatch (byteCountArgs 2) goodCaller 0, .worker 0 .success 8, .worker 0 .success 0, .worker 0 .success 8,
    .worker 0 .success 0, .stopJoin, .stopLeave]

theorem delivered_once_stop :
    let s := run Nkvx.step .init stopAmidJobs
    s.accepted.length = 2 ∧ s.running = false ∧ (s.sent.map fun m => m.job.job.doneArg) = [1, 2] ∧
      (s.sent.map Sent.job).Nodup :=
  ⟨by decide, by decide, by decide, (delivered_once stopAmidJobs (by decide)).1⟩

/-- In such an interleaving the messages are sent in the order of the dispatches, one job at a time,
and every job that was accepted is sent, held by the worker or still queued. -/
theorem sent_in_order (evs : List Event) (horder : Machine.Along Nkvx.step Nkvx.Orderly .init evs) :
    let s := run Nkvx.step .init evs
    s.accepted = s.sent.map Sent.job ++ s.held ++ s.queue ∧ s.held.length ≤ 1 := by
  intro s
  have h : s.Sound := run_induct_along _ Nkvx.Sound.init (fun _ _ h ho => h.step ho) horder
  refine ⟨h.fifo, ?_⟩
  cases h.mode with
  | down _ _ _ _ hj => simp [Nkvx.held, Nkvx.filterMap_gone hj]
  | up old ph _ ht _ hg => cases ph <;> simp [Nkvx.held_up ht hg, Phase.job]

theorem sent_in_order_stop : (run Nkvx.step .init stopAmidJobs).held.length ≤ 1 :=
  (sent_in_order stopAmidJobs (by decide)).2

/-- A job is accepted after the worker has left its loop and before `stop` has cleared the flag:
`stop` returns without its message, and the next `start` drops the job. -/
theorem late_dispatch_lost :
    let s := run Nkvx.step .init [.start true, .stopEnter, .worker 0 .success 0]
    let r := s.enqueue ((byteCountArgs 1).job goodCaller) 0
    let s' := run Nkvx.step r.1 [.stopJoin, .stopLeave]
    r.2 = .ok () ∧ s'.running = false ∧ s'.accepted.length = 1 ∧ s'.sent = [] ∧
      (s'.step (.start true)).queue = [] := by
  decide

end RadosNkv.Worker
