import RadosNkv.Forwarder.Submission

/-! Every `bdev_io` is completed once, its context and its bounce buffer are freed once, and
`exec_inflight` has the Execs that are not completed yet. -/

namespace RadosNkv

open List Option Function

open Ledger (Accounted Passed)

namespace KvradosChannel

variable {s s' : KvradosChannel}

def Awaits (s : KvradosChannel) (io : Nat) : Prop :=
  ∃ c x, s.owed c ≠ none ∧ s.ctxs c = some x ∧ x.bdevIo = io

def Bounces (s : KvradosChannel) (b : Nat) : Prop :=
  ∃ c x, s.owed c ≠ none ∧ s.ctxs c = some x ∧ x.inputBounce = some b

/-- Between two events the contexts on the heap are those of the front. -/
structure Inv (s : KvradosChannel) : Prop where
  owed : ∀ c, s.owed c = (s.ctxs c).map fun x => if x.isExec then .execDone else .retrieveDone
  ios : Accounted s.ios.length s.Awaits (completions s.acts)
  ctxs : Accounted s.nextCtx (fun c => s.owed c ≠ none) (ctxFrees s.acts)
  bounces : Accounted s.nextBlock s.Bounces (bounceFrees s.acts)
  io_inj : ∀ c d x y, s.ctxs c = some x → s.ctxs d = some y → x.bdevIo = y.bdevIo → c = d
  bounce_inj : ∀ c d x y b, s.ctxs c = some x → s.ctxs d = some y → x.inputBounce = some b → y.inputBounce = some b →
    c = d
  nodup : s.execInflight.Nodup
  inflight : ∀ c, c ∈ s.execInflight ↔ ∃ x, s.ctxs c = some x ∧ x.isExec = true
  exec : ∀ c x, s.ctxs c = some x → (x.isExec = true ↔ s.ios[x.bdevIo]? = some (.kv opcKvExec))
  forwarded_lt : ∀ io, .forwarded io 0 ∈ s.acts → io < s.ios.length
  fault : s.fault = false

abbrev Accepts (s : KvradosChannel) (k : BdevIo) (x : KvIoCtx) (s' : KvradosChannel) : Prop :=
  (s.submitted k).Forwarded s.ios.length x s'

namespace Inv

variable {c : Nat} {x : KvIoCtx}

lemma new : KvradosChannel.new.Inv where
  owed _ := rfl
  ios := ⟨fun _ ⟨_, _, ho, _⟩ => absurd rfl ho, fun _ hl => absurd hl (Nat.not_lt_zero _), fun _ _ => rfl⟩
  ctxs := ⟨fun _ ho => absurd rfl ho, fun _ hl => absurd hl (Nat.not_lt_zero _), fun _ _ => rfl⟩
  bounces := ⟨fun _ ⟨_, _, ho, _⟩ => absurd rfl ho, fun _ hl => absurd hl (Nat.not_lt_zero _), fun _ _ => rfl⟩
  io_inj _ _ _ _ hx := nomatch hx
  bounce_inj _ _ _ _ _ hx := nomatch hx
  nodup := nodup_nil
  inflight _ := ⟨fun hc => absurd hc not_mem_nil, fun ⟨_, hx, _⟩ => nomatch hx⟩
  exec _ _ hx := nomatch hx
  forwarded_lt _ hm := absurd hm not_mem_nil
  fault := rfl

section

variable (h : s.Inv)
include h

section

variable (hx : s.ctxs c = some x)

include hx

lemma owed_ne : s.owed c ≠ none := by
  rw [h.owed, hx]
  exact some_ne_none _

lemma awaits : s.Awaits x.bdevIo := ⟨c, x, h.owed_ne hx, hx, rfl⟩

lemma ctx_lt : c < s.nextCtx := (h.ctxs.holds c (h.owed_ne hx)).1

lemma io_lt : x.bdevIo < s.ios.length := (h.ios.holds _ (h.awaits hx)).1

lemma bounce_lt (hb : x.inputBounce = some b) : b < s.nextBlock :=
  (h.bounces.holds b ⟨c, x, h.owed_ne hx, hx, hb⟩).1

end

lemma ctxs_next : s.ctxs s.nextCtx = none := by
  cases hx : s.ctxs s.nextCtx with
  | none => rfl
  | some x => exact absurd (h.ctx_lt hx) (lt_irrefl _)

lemma ctxFresh : s.CtxFresh where
  ctxs := h.ctxs_next
  inflight hm := by
    obtain ⟨x, hx, -⟩ := (h.inflight _).mp hm
    exact absurd (h.ctx_lt hx) (lt_irrefl _)

lemma getElem?_ios (hx : s.ctxs c = some x) (k : BdevIo) : (s.ios ++ [k])[x.bdevIo]? = s.ios[x.bdevIo]? :=
  getElem?_append_left (h.io_lt hx)

lemma settled (hs : (s.submitted k).Settled s.ios.length s') : s'.Inv := by
  have hi : s'.ios = s.ios ++ [k] := hs.ios
  have hc : s'.ctxs = s.ctxs := hs.ctxs
  have ho : s'.owed = s.owed := hs.owed
  have hn : s'.execInflight = s.execInflight := hs.inflight
  have ha : s'.Awaits = s.Awaits := by
    unfold Awaits
    rw [hc, ho]
  have hb : s'.Bounces = s.Bounces := by
    unfold Bounces
    rw [hc, ho]
  constructor
  · rw [hc, ho]
    exact h.owed
  · rw [ha, hi, length_append]
    exact h.ios.pass (.inr ⟨rfl, hs.completed⟩)
  · rw [ho]
    exact h.ctxs.pass hs.ctxFreed
  · rw [hb]
    exact h.bounces.pass hs.bounceFreed
  · rw [hc]
    exact h.io_inj
  · rw [hc]
    exact h.bounce_inj
  · rw [hn]
    exact h.nodup
  · rw [hn, hc]
    exact h.inflight
  · rw [hc, hi]
    intro c x hx
    rw [h.getElem?_ios hx]
    exact h.exec c x hx
  · intro io hm
    rw [hi, length_append]
    exact Nat.lt_succ_of_lt (h.forwarded_lt io (hs.forwarded io hm))
  rw [hs.fault]
  exact h.fault

lemma ctxs_forwarded (hf : s.Accepts k x s') :
    s'.ctxs d = some y ↔ s.ctxs d = some y ∨ (d = s.nextCtx ∧ y = x) := by
  have hc : s'.ctxs = update s.ctxs s.nextCtx (some x) := hf.ctxs
  rw [hc]
  by_cases hd : d = s.nextCtx
  · subst hd
    rw [update_self, h.ctxs_next]
    simp [eq_comm]
  rw [update_of_ne hd]
  simp [hd]

lemma owed_forwarded (hf : s.Accepts k x s') (d : Nat) :
    s'.owed d = (s'.ctxs d).map fun y => if y.isExec then .execDone else .retrieveDone := by
  have hc : s'.ctxs = update s.ctxs s.nextCtx (some x) := hf.ctxs
  have ho : s'.owed = update s.owed s.nextCtx _ := hf.owed
  rw [hc, ho]
  by_cases hd : d = s.nextCtx
  · subst hd
    rw [update_self, update_self]
    rfl
  · rw [update_of_ne hd, update_of_ne hd, h.owed]

end

lemma exists_owed_iff (ho : ∀ c, s.owed c = (s.ctxs c).map fun x => if x.isExec then .execDone else .retrieveDone)
    (P : KvIoCtx → Prop) : (∃ c x, s.owed c ≠ none ∧ s.ctxs c = some x ∧ P x) ↔ ∃ c x, s.ctxs c = some x ∧ P x := by
  constructor
  · rintro ⟨c, x, -, hx, hP⟩
    exact ⟨c, x, hx, hP⟩
  rintro ⟨c, x, hx, hP⟩
  refine ⟨c, x, ?_, hx, hP⟩
  rw [ho, hx]
  exact some_ne_none _

section

variable (h : s.Inv)

include h

lemma exists_forwarded (hf : s.Accepts k x s')
    (P : KvIoCtx → Prop) : (∃ c y, s'.owed c ≠ none ∧ s'.ctxs c = some y ∧ P y) ↔
      (∃ c y, s.owed c ≠ none ∧ s.ctxs c = some y ∧ P y) ∨ P x := by
  rw [exists_owed_iff (h.owed_forwarded hf), exists_owed_iff h.owed]
  constructor
  · rintro ⟨c, y, hy, hP⟩
    rcases (h.ctxs_forwarded hf).mp hy with hy | ⟨-, rfl⟩
    · exact .inl ⟨c, y, hy, hP⟩
    · exact .inr hP
  rintro (⟨c, y, hy, hP⟩ | hP)
  · exact ⟨c, y, (h.ctxs_forwarded hf).mpr (.inl hy), hP⟩
  · exact ⟨s.nextCtx, x, (h.ctxs_forwarded hf).mpr (.inr ⟨rfl, rfl⟩), hP⟩

lemma forwarded_bounces (hf : s.Accepts k x s') :
    Accounted s'.nextBlock s'.Bounces (bounceFrees s'.acts) := by
  have hh := h.exists_forwarded hf
  have hr : bounceFrees s'.acts = bounceFrees s.acts := by
    rw [hf.acts]
    rfl
  rw [hr]
  rcases hf.bounced with ⟨hn, hsm⟩ | ⟨hs, hm⟩
  · have hsm : s'.nextBlock = s.nextBlock := hsm
    rw [hsm]
    refine h.bounces.congr fun b => (hh _).trans ?_
    rw [hn]
    simp [Bounces]
  have hs : x.inputBounce = some s.nextBlock := hs
  have hm : s'.nextBlock = s.nextBlock + 1 := hm
  rw [hm]
  refine h.bounces.issue fun b => (hh _).trans ?_
  rw [hs, Option.some.injEq, @eq_comm _ b]
  rfl

lemma forwarded_io_inj (hf : s.Accepts k x s') (hy : s'.ctxs c = some y) (hz : s'.ctxs d = some z)
    (he : y.bdevIo = z.bdevIo) : c = d := by
  have hn {d : Nat} {y : KvIoCtx} (hy : s.ctxs d = some y) : y.bdevIo ≠ x.bdevIo := by
    have := h.io_lt hy
    rw [hf.bdevIo]
    omega
  rcases (h.ctxs_forwarded hf).mp hy with hy | ⟨rfl, rfl⟩ <;> rcases (h.ctxs_forwarded hf).mp hz with hz | ⟨rfl, rfl⟩
  · exact h.io_inj c d y z hy hz he
  · exact absurd he (hn hy)
  · exact absurd he.symm (hn hz)
  · rfl

lemma forwarded_bounce_inj (hf : s.Accepts k x s') (hy : s'.ctxs c = some y)
    (hz : s'.ctxs d = some z) (hyb : y.inputBounce = some b) (hzb : z.inputBounce = some b) :
    c = d := by
  have he {d : Nat} {y : KvIoCtx} (hy : s.ctxs d = some y) (hb : y.inputBounce = some b) :
      x.inputBounce ≠ some b := by
    have hl := h.bounce_lt hy hb
    intro hs
    rcases hf.bounced with ⟨hn, -⟩ | ⟨hx, -⟩
    · rw [hn] at hs
      cases hs
    rw [hx] at hs
    cases hs
    exact lt_irrefl _ hl
  rcases (h.ctxs_forwarded hf).mp hy with hy | ⟨rfl, rfl⟩ <;> rcases (h.ctxs_forwarded hf).mp hz with hz | ⟨rfl, rfl⟩
  · exact h.bounce_inj c d y z b hy hz hyb hzb
  · exact absurd hzb (he hy hyb)
  · exact absurd hyb (he hz hzb)
  · rfl

lemma forwarded_inflight (hf : s.Accepts k x s') (c : Nat) :
    c ∈ s'.execInflight ↔ ∃ y, s'.ctxs c = some y ∧ y.isExec = true := by
  have hi : s'.execInflight = if x.isExec then s.execInflight ++ [s.nextCtx] else s.execInflight := hf.inflight
  have hm : c ∈ s'.execInflight ↔ c ∈ s.execInflight ∨ (c = s.nextCtx ∧ x.isExec = true) := by
    rw [hi]
    cases x.isExec <;> simp
  rw [hm, h.inflight]
  constructor
  · rintro (⟨y, hy, he⟩ | ⟨rfl, he⟩)
    · exact ⟨y, (h.ctxs_forwarded hf).mpr (.inl hy), he⟩
    · exact ⟨x, (h.ctxs_forwarded hf).mpr (.inr ⟨rfl, rfl⟩), he⟩
  rintro ⟨y, hy, he⟩
  rcases (h.ctxs_forwarded hf).mp hy with hy | ⟨rfl, rfl⟩
  · exact .inl ⟨y, hy, he⟩
  · exact .inr ⟨rfl, he⟩

lemma forwarded (hf : s.Accepts k x s') (he : x.isExec = true ↔ k = .kv opcKvExec) : s'.Inv := by
  have hi : s'.ios = s.ios ++ [k] := hf.ios
  have ha := hf.acts
  have hn : s'.nextCtx = s.nextCtx + 1 := hf.nextCtx
  have ho : s'.owed = update s.owed s.nextCtx _ := hf.owed
  have hin := hf.inflight
  refine ⟨h.owed_forwarded hf, ?_, ?_, h.forwarded_bounces hf, fun _ _ _ _ => h.forwarded_io_inj hf,
    fun _ _ _ _ _ => h.forwarded_bounce_inj hf, ?_, h.forwarded_inflight hf, ?_, ?_, ?_⟩
  · rw [ha, hi, length_append]
    refine h.ios.issue fun io => (h.exists_forwarded hf _).trans ?_
    rw [hf.bdevIo, @eq_comm _ io]
    rfl
  · rw [ha, hn, ho]
    refine h.ctxs.issue fun d => ?_
    by_cases hd : d = s.nextCtx
    · subst hd
      simp
    · rw [update_of_ne hd]
      simp [hd]
  · rw [hin]
    cases x.isExec with
    | false => exact h.nodup
    | true =>
      rw [if_pos rfl, ← concat_eq_append]
      exact h.nodup.concat h.ctxFresh.inflight
  · intro c y hy
    rw [hi]
    rcases (h.ctxs_forwarded hf).mp hy with hy | ⟨rfl, rfl⟩
    · rw [h.getElem?_ios hy]
      exact h.exec c y hy
    · rw [hf.bdevIo, getElem?_concat_length, Option.some.injEq]
      exact he
  · intro io hm
    rw [ha] at hm
    rw [hi, length_append]
    rcases mem_cons.mp hm with hq | hm
    · rw [(BdevAct.forwarded.inj hq).1]
      exact Nat.lt_succ_self _
    · exact Nat.lt_succ_of_lt (h.forwarded_lt io hm)
  · rw [hf.fault]
    exact h.fault

end

lemma ctxs_finished (s : KvradosChannel) (inflight : List Nat) (status : NvmeStatus) {d : Nat} {y : KvIoCtx} :
    ((s.returned c).finished c x inflight status).ctxs d = some y ↔ s.ctxs d = some y ∧ d ≠ c := by
  show update s.ctxs c none d = some y ↔ _
  by_cases hd : d = c
  · subst hd
    simp
  rw [update_of_ne hd]
  simp [hd]

section

variable (h : s.Inv)
include h

lemma owed_finished (inflight : List Nat) (status : NvmeStatus) (d : Nat) :
    ((s.returned c).finished c x inflight status).owed d =
      (((s.returned c).finished c x inflight status).ctxs d).map
        fun y => if y.isExec then .execDone else .retrieveDone := by
  show update s.owed c none d = (update s.ctxs c none d).map _
  by_cases hd : d = c
  · subst hd
    simp
  · rw [update_of_ne hd, update_of_ne hd, h.owed]

lemma exists_finished (inflight : List Nat) (status : NvmeStatus) (P : KvIoCtx → Prop) :
    (∃ d y, ((s.returned c).finished c x inflight status).owed d ≠ none ∧
      ((s.returned c).finished c x inflight status).ctxs d = some y ∧ P y) ↔
    ∃ d y, s.ctxs d = some y ∧ d ≠ c ∧ P y := by
  rw [exists_owed_iff (h.owed_finished inflight status)]
  simp only [ctxs_finished, and_assoc]

section

variable (hx : s.ctxs c = some x)

include hx

lemma finished_bounces (inflight : List Nat) (status : NvmeStatus) :
    Accounted s.nextBlock ((s.returned c).finished c x inflight status).Bounces
      (bounceFrees ((s.returned c).finished c x inflight status).acts) := by
  have hf := (finished_closes (s.returned c) c x inflight status).bounceFreed
  -- A context other than `c` has another bounce, so that of `c` is no longer held.
  have hh (b : Nat) : ((s.returned c).finished c x inflight status).Bounces b ↔
      s.Bounces b ∧ x.inputBounce ≠ some b := by
    refine (h.exists_finished inflight status _).trans ⟨?_, ?_⟩
    · rintro ⟨d, y, hy, hn, hyb⟩
      exact ⟨⟨d, y, h.owed_ne hy, hy, hyb⟩, fun hxb => hn (h.bounce_inj d c y x b hy hx hyb hxb)⟩
    · rintro ⟨⟨d, y, -, hy, hyb⟩, hn⟩
      refine ⟨d, y, hy, fun he => hn ?_, hyb⟩
      rw [he, hx] at hy
      cases hy
      exact hyb
  cases hb : x.inputBounce with
  | none =>
    have hs : bounceFrees ((s.returned c).finished c x inflight status).acts = bounceFrees s.acts := by
      funext k
      rw [hf, hb, if_neg (by simp), add_zero]
      rfl
    rw [hs]
    refine h.bounces.congr fun b => (hh b).trans ?_
    rw [hb]
    simp
  | some j =>
    refine h.bounces.release ⟨c, x, h.owed_ne hx, hx, hb⟩ (fun b => (hh b).trans ?_) fun k => ?_
    · rw [hb, ne_eq, Option.some.injEq, ne_comm, ne_eq]
    · rw [hf, hb]
      simp [eq_comm, returned]

lemma finished_inflight (status : NvmeStatus) (inflight : List Nat)
    (hi : inflight = if x.isExec then s.execInflight.erase c else s.execInflight) (d : Nat) :
    d ∈ inflight ↔ ∃ y, ((s.returned c).finished c x inflight status).ctxs d = some y ∧ y.isExec = true := by
  have hm : d ∈ inflight ↔ d ∈ s.execInflight ∧ d ≠ c := by
    rw [hi]
    cases he : x.isExec with
    | true => exact h.nodup.mem_erase_iff.trans and_comm
    | false =>
      refine ⟨fun hd => ⟨hd, fun hq => ?_⟩, And.left⟩
      obtain ⟨y, hy, hy'⟩ := (h.inflight d).mp hd
      rw [hq, hx] at hy
      cases hy
      rw [he] at hy'
      cases hy'
  rw [hm, h.inflight]
  simp only [ctxs_finished]
  constructor
  · rintro ⟨⟨y, hy, he⟩, hn⟩
    exact ⟨y, ⟨hy, hn⟩, he⟩
  · rintro ⟨y, ⟨hy, hn⟩, he⟩
    exact ⟨⟨y, hy, he⟩, hn⟩

lemma finished (status : NvmeStatus) :
    ((s.returned c).finished c x (if x.isExec then s.execInflight.erase c else s.execInflight) status).Inv := by
  generalize hi : (if x.isExec then s.execInflight.erase c else s.execInflight) = inflight
  have hc := finished_closes (s.returned c) c x inflight status
  have hl := @ctxs_finished c x s inflight status
  refine ⟨h.owed_finished inflight status, ?_, ?_, h.finished_bounces hx inflight status, ?_, ?_, ?_,
    h.finished_inflight hx status inflight hi.symm, ?_,
    fun io hm => h.forwarded_lt io (hc.forwarded io hm), h.fault⟩
  · refine h.ios.release (h.awaits hx) (fun io => (h.exists_finished inflight status _).trans ?_) hc.completed
    constructor
    · rintro ⟨d, y, hy, hn, rfl⟩
      exact ⟨h.awaits hy, fun he => hn (h.io_inj d c y x hy hx he)⟩
    · rintro ⟨⟨d, y, -, hy, rfl⟩, hn⟩
      refine ⟨d, y, hy, fun he => hn ?_, rfl⟩
      rw [he, hx] at hy
      cases hy
      rfl
  · refine h.ctxs.release (h.owed_ne hx) (fun d => ?_) hc.ctxFreed
    show update s.owed c none d ≠ none ↔ _
    by_cases hd : d = c
    · subst hd
      simp
    · rw [update_of_ne hd]
      simp [hd]
  · intro d e y z hy hz
    exact h.io_inj d e y z (hl.mp hy).1 (hl.mp hz).1
  · intro d e y z b hy hz
    exact h.bounce_inj d e y z b (hl.mp hy).1 (hl.mp hz).1
  · show inflight.Nodup
    rw [← hi]
    split
    · exact h.nodup.erase c
    · exact h.nodup
  · intro d y hy
    exact h.exec d y (hl.mp hy).1

lemma step_done (cfg : BdevConfig) (status : IoStatus) (len : Nat) :
    s.step cfg (.done c status len) =
      (s.returned c).finished c x (if x.isExec then s.execInflight.erase c else s.execInflight)
        (kvradosComplete status len) := by
  have ho := h.owed c
  rw [hx] at ho
  have hx' : (s.returned c).ctxs c = some x := hx
  unfold step
  cases he : x.isExec with
  | true =>
    rw [map_some, he, if_pos rfl] at ho
    simp only [ho]
    rw [execComplete_finished hx', he]
    rfl
  | false =>
    rw [map_some, he, if_neg (by simp)] at ho
    simp only [ho]
    exact retrieveDone_finished hx' ..

end

lemma step_kv (cfg : BdevConfig) (r : BdevKvIo) (env : BdevEnv) :
    (s.submitted (.kv r.cmd.opc)).Handled s.ios.length (r.cmd.opc = opcKvExec) (s.step cfg (.kv r env)) := by
  have hf : (s.submitted (.kv r.cmd.opc)).CtxFresh := ⟨h.ctxFresh.ctxs, h.ctxFresh.inflight⟩
  unfold step
  by_cases hn : r.cmd.nsid = cfg.nsid
  · simp only [if_neg (not_not.mpr hn)]
    exact hf.handled_handleKvIo r
  simp only [if_pos hn]
  exact handled_reject ..

lemma step (cfg : BdevConfig) (e : BdevEvent) : (s.step cfg e).Inv := by
  cases e with
  | kv r env =>
    rcases h.step_kv cfg r env with hs | ⟨x, he, hf⟩
    · exact h.settled hs
    refine h.forwarded hf ?_
    rw [he, decide_eq_true_iff, BdevIo.kv.injEq]
  | abort toAbort cancelled => exact h.settled (settled_complete ..)
  | done c status len =>
    cases hx : s.ctxs c with
    | some x =>
      rw [h.step_done hx]
      exact h.finished hx _
    | none =>
      have ho : s.owed c = none := by
        rw [h.owed, hx]
        rfl
      unfold KvradosChannel.step
      simp only [ho]
      exact h

end

end Inv

end KvradosChannel

end RadosNkv
