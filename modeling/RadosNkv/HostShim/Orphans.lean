import RadosNkv.HostShim.Shim

/-! What the shim makes of late completions. -/

namespace RadosNkv

open List Machine Tailq ShimWorld

def ShimPhase.unsent : ShimPhase → Option Nat
  | .submitting _ _ addr false => some addr
  | _ => none

def ShimPhase.current : ShimPhase → Option Nat
  | .submitting _ number _ _ => some number
  | .polling _ number => some number
  | _ => none

variable {w : ShimWorld} {arms : Nat} {c : KvOpCtx}

lemma free_of_mem (hn : (w.heap.map KvOpCtx.addr).Nodup) (hc : c ∈ w.heap) : w.free c.addr =
      { w with heap := remove KvOpCtx.addr c.addr w.heap, frees := c.number :: w.frees } := by
  rw [free, find_of_mem hn hc]

lemma ioComplete_of_mem (hn : (w.heap.map KvOpCtx.addr).Nodup) (hc : c ∈ w.heap) (cpl : NvmeStatus) :
    ioComplete w c.addr cpl =
      { w with
        sh := recordCpl w.sh c cpl
        heap := remove KvOpCtx.addr c.addr w.heap
        frees := c.number :: w.frees
        fired := (c.number, cpl) :: w.fired } := by
  rw [ioComplete, find_of_mem hn hc]
  rw [free_of_mem hn hc]

lemma armOp_arms (hf : addr ∉ w.heap.map KvOpCtx.addr) :
    (armOp w op (some addr)).arms = w.arms + 1 := by
  unfold armOp
  dsimp only
  rw [if_neg hf]

variable {phase : ShimPhase}

lemma ShimPhase.unsent_of_current (h : phase.current = none) : phase.unsent = none := by
  cases phase with
  | submitting => cases h
  | _ => rfl

/-- The moves of the shim and of SPDK. -/
inductive ShimWorld.Acts (w : ShimWorld) : ShimWorld → Prop where
  | stay : w.Acts w
  | drift (sh : KvHostShim) (phase : ShimPhase) (hunsent : w.phase.unsent = none)
      (hcurrent : phase.current = none) (hnext : sh.nextOpId = w.sh.nextOpId)
      (harmed : sh.armedOpId = 0 ∨ w.phase.current = none ∧ sh.armedOpId = w.sh.armedOpId)
      (hclosed : phase = .closed → w.queued = []) : w.Acts { w with sh, phase }
  | fail (sh : KvHostShim) (op : ShimOp) (rc : Int) (hcurrent : w.phase.current = none)
      (hnext : sh.nextOpId = w.sh.nextOpId) (harmed : sh.armedOpId = w.sh.armedOpId) :
      w.Acts ({ w with sh }.ret (.failed op rc))
  | arm (op : ShimOp) (addr : Nat) (hphase : w.phase = .arming op) (hfresh : addr ∉ w.heap.map KvOpCtx.addr) :
      w.Acts (armOp w op (some addr))
  | accept (op : ShimOp) (number addr : Nat) (hphase : w.phase = .submitting op number addr false) :
      w.Acts { w with queued := addr :: w.queued, phase := .submitting op number addr true }
  | await (op : ShimOp) (number : Nat) (hunsent : w.phase.unsent = none)
      (hcurrent : w.phase.current = some number) : w.Acts (pollLoop w op number)
  | abandon (op : ShimOp) (number addr : Nat) (rc : Int) (hphase : w.phase = .submitting op number addr false) :
      w.Acts (({ w with sh := disarmOp w.sh }.free addr).ret (.failed op rc))
  | fire (addr : Nat) (cpl : NvmeStatus) (hqueued : addr ∈ w.queued) :
      w.Acts (ioComplete { w with queued := w.queued.erase addr } addr cpl)

namespace ShimWorld.Acts

lemma goOn (hp : w.phase = before) (hb : before.current = none) (sh : KvHostShim)
    (hr : phase.current = none) (hx : sh.nextOpId = w.sh.nextOpId)
    (ha : sh.armedOpId = 0 ∨ sh.armedOpId = w.sh.armedOpId) (hc : phase = .closed → w.queued = []) :
    w.Acts { w with sh, phase } := by
  have hn : w.phase.current = none := hp ▸ hb
  exact .drift sh phase (ShimPhase.unsent_of_current hn) hr hx
    (ha.imp id fun he => ⟨hn, he⟩) hc

lemma armOp (hp : w.phase = .arming op) (addr : Option Nat) : w.Acts (armOp w op addr) := by
  cases addr with
  | none => exact .fail w.sh op _ (by rw [hp]; rfl) rfl rfl
  | some addr =>
    by_cases hu : addr ∈ w.heap.map KvOpCtx.addr
    · have hs : RadosNkv.armOp w op (some addr) = w := if_pos hu
      rw [hs]
      exact .stay
    · exact .arm op addr hp hu

lemma pollTurn (hp : w.phase = .polling op number) (n : Int) (expired : Bool) :
    w.Acts (pollTurn w op number n expired) := by
  have hu : w.phase.unsent = none := by rw [hp]; rfl
  unfold RadosNkv.pollTurn
  split
  · exact .drift _ _ hu rfl rfl (.inl rfl) nofun
  split
  · exact .drift _ _ hu rfl rfl (.inl rfl) nofun
  · exact .await op number hu (by rw [hp]; rfl)

lemma afterSubmit {accepted : Bool} (hp : w.phase = .submitting op number addr accepted) (rc : Int) :
    w.Acts (afterSubmit w op number addr accepted rc) := by
  unfold RadosNkv.afterSubmit
  cases accepted with
  | true =>
    rw [if_pos rfl]
    split
    · exact .await op number (by rw [hp]; rfl) (by rw [hp]; rfl)
    · exact .stay
  | false =>
    rw [if_neg nofun]
    split
    · exact .abandon op number addr _ hp
    · exact .stay

end ShimWorld.Acts

lemma step_acts (w : ShimWorld) (ev : ShimEvent) : w.Acts (w.step ev) := by
  unfold ShimWorld.step
  split
  · exact .stay
  cases ev with
  | call op =>
    simp only [handle]
    split
    next hp =>
      cases hf : w.sh.qpairFailed with
      | true => exact .goOn hp rfl w.sh rfl rfl (.inr rfl) nofun
      | false => exact .goOn hp rfl w.sh rfl rfl (.inr rfl) nofun
    · exact .stay
  | reconnected rc =>
    simp only [handle]
    split
    next op hp =>
      split
      · exact .fail w.sh op _ (by rw [hp]; rfl) rfl rfl
      · exact .goOn hp rfl (disarmOp w.sh) rfl rfl (.inl rfl) nofun
    · exact .stay
  | malloc addr =>
    simp only [handle]
    split
    next op hp => exact .armOp hp addr
    · exact .stay
  | accept =>
    simp only [handle]
    split
    next op number addr hp => exact .accept op number addr hp
    · exact .stay
  | submitted rc =>
    simp only [handle]
    split
    next hp => exact .afterSubmit hp rc
    · exact .stay
  | processed n expired =>
    simp only [handle]
    split
    next op pass hp =>
      unfold afterDrain
      split
      · exact .goOn hp rfl _ rfl rfl (.inr rfl) nofun
      · exact .goOn hp rfl w.sh rfl rfl (.inr rfl) nofun
    next hp => exact .pollTurn hp n expired
    · exact .stay
  | disconnected =>
    simp only [handle]
    split
    next op rc hp => exact .fail _ op rc (by rw [hp]; rfl) rfl rfl
    · exact .stay
  | fire addr cpl =>
    simp only [handle]
    split
    next he => exact .fire addr cpl he.2
    · exact .stay
  | close =>
    simp only [handle]
    split
    next hp => exact .goOn hp rfl w.sh rfl rfl (.inr rfl) nofun
    · exact .stay
  | freed =>
    simp only [handle]
    split
    next hp =>
      split
      next hm => exact .goOn hp rfl w.sh rfl rfl (.inr rfl) fun _ => hm
      · exact .stay
    · exact .stay

/-- Every context on the heap is owed a callback or is the one being submitted, and every context
that was allocated is either on the heap or was freed, once. -/
structure ShimWorld.Owned (w : ShimWorld) : Prop where
  fault : w.fault = false
  addrs : (w.heap.map KvOpCtx.addr).Nodup
  queued : w.queued.Nodup
  held : ∀ a ∈ w.queued, a ∈ w.heap.map KvOpCtx.addr
  owed : ∀ c ∈ w.heap, c.addr ∈ w.queued ∨ w.phase.unsent = some c.addr
  unsent : ∀ a ∈ w.phase.unsent, a ∉ w.queued ∧ a ∈ w.heap.map KvOpCtx.addr
  ledger : (w.frees ++ w.heap.map KvOpCtx.number).Perm (List.range' 1 w.arms)
  delivered : ∀ x ∈ w.fired, x.1 ∈ w.frees
  once : (w.fired.map Prod.fst).Nodup
  drained : w.phase = .closed → w.queued = []

variable {w' : ShimWorld}

namespace ShimWorld.Owned

lemma init : ShimWorld.init.Owned where
  fault := rfl
  addrs := .nil
  queued := .nil
  held := fun _ h => absurd h not_mem_nil
  owed := fun _ h => absurd h not_mem_nil
  unsent := nofun
  ledger := .refl _
  delivered := fun _ h => absurd h not_mem_nil
  once := .nil
  drained := nofun

lemma nodup (h : w.Owned) : (w.frees ++ w.heap.map KvOpCtx.number).Nodup :=
  h.ledger.nodup_iff.mpr nodup_range'

lemma number_le (h : w.Owned) (hc : c ∈ w.heap) : 1 ≤ c.number ∧ c.number ≤ w.arms := by
  have hm : c.number ∈ List.range' 1 w.arms :=
    h.ledger.subset (mem_append_right _ (mem_map_of_mem hc))
  rw [mem_range'_1] at hm
  omega

lemma move (h : w.Owned) (sh : KvHostShim) (phase : ShimPhase) (returns : List ShimReturn) (hb : w.phase.unsent = none)
    (hf : phase.unsent = none) (hl : phase = .closed → w.queued = []) :
    { w with sh, phase, returns }.Owned where
  fault := h.fault
  addrs := h.addrs
  queued := h.queued
  held := h.held
  owed := by
    intro c hc
    have ho := h.owed c hc
    rw [hb] at ho
    exact .inl (ho.resolve_right nofun)
  unsent := by
    intro a ha
    rw [show ({ w with sh, phase, returns } : ShimWorld).phase.unsent = none from hf] at ha
    cases ha
  ledger := h.ledger
  delivered := h.delivered
  once := h.once
  drained := hl

lemma ledger_free (h : w.Owned) (hc : c ∈ w.heap) :
    ((c.number :: w.frees) ++ (remove KvOpCtx.addr c.addr w.heap).map KvOpCtx.number).Perm
      (List.range' 1 w.arms) := by
  have hp := (perm_cons_remove h.addrs hc).map KvOpCtx.number
  exact (perm_middle.symm.trans (hp.symm.append_left w.frees)).trans h.ledger

lemma mem_addr_remove (hb : b ∈ w.heap.map KvOpCtx.addr) (hn : b ≠ a) :
    b ∈ (remove KvOpCtx.addr a w.heap).map KvOpCtx.addr := by
  obtain ⟨c, hc, rfl⟩ := mem_map.mp hb
  exact mem_map_of_mem (mem_remove.mpr ⟨hc, hn⟩)

variable {op : ShimOp}

section

variable (h : w.Owned)
include h

lemma arm (hp : w.phase = .arming op) (hf : addr ∉ w.heap.map KvOpCtx.addr) : (armOp w op (some addr)).Owned := by
  have hi : w.phase.unsent = none := by rw [hp]; rfl
  have hn : ∀ a ∈ w.queued, a ≠ addr := fun a ha he => hf (he ▸ h.held a ha)
  unfold armOp
  dsimp only
  rw [if_neg hf]
  constructor
  · exact h.fault
  · exact nodup_cons.mpr ⟨hf, h.addrs⟩
  · exact h.queued
  · exact fun a ha => mem_cons_of_mem _ (h.held a ha)
  · intro c hc
    rcases mem_cons.mp hc with rfl | hc
    · exact .inr rfl
    have ho := h.owed c hc
    rw [hi] at ho
    exact .inl (ho.resolve_right nofun)
  · rintro a ⟨⟩
    exact ⟨fun ha => hn _ ha rfl, mem_cons_self⟩
  · show (w.frees ++ (w.arms + 1) :: w.heap.map KvOpCtx.number).Perm (List.range' 1 (w.arms + 1))
    rw [range'_1_concat, add_comm 1 w.arms]
    exact perm_middle.trans ((h.ledger.cons _).trans (perm_append_singleton ..).symm)
  · exact h.delivered
  · exact h.once
  · nofun

lemma accept (hp : w.phase = .submitting op number addr false) :
    { w with queued := addr :: w.queued, phase := .submitting op number addr true }.Owned := by
  have hu : w.phase.unsent = some addr := by rw [hp]; rfl
  obtain ⟨hn, hh⟩ := h.unsent addr hu
  constructor
  · exact h.fault
  · exact h.addrs
  · exact nodup_cons.mpr ⟨hn, h.queued⟩
  · intro a ha
    rcases mem_cons.mp ha with rfl | ha
    · exact hh
    · exact h.held a ha
  · intro c hc
    left
    rcases h.owed c hc with hi | hs
    · exact mem_cons_of_mem _ hi
    rw [hu] at hs
    exact Option.some.inj hs ▸ mem_cons_self
  · nofun
  · exact h.ledger
  · exact h.delivered
  · exact h.once
  · nofun

lemma abandon (hp : w.phase = .submitting op number addr false) (r : ShimReturn) :
    (({ w with sh := disarmOp w.sh }.free addr).ret r).Owned := by
  have hu : w.phase.unsent = some addr := by rw [hp]; rfl
  obtain ⟨hn, hh⟩ := h.unsent addr hu
  obtain ⟨c, hc, rfl⟩ := mem_map.mp hh
  rw [free_of_mem (w := { w with sh := disarmOp w.sh }) h.addrs hc]
  constructor
  · exact h.fault
  · exact nodup_remove h.addrs
  · exact h.queued
  · exact fun a ha => mem_addr_remove (h.held a ha) fun he => hn (he ▸ ha)
  · intro c' hc'
    obtain ⟨hm, hne⟩ := mem_remove.mp hc'
    have ho := h.owed c' hm
    rw [hu] at ho
    exact .inl (ho.resolve_right fun he => hne (Option.some.inj he).symm)
  · nofun
  · exact h.ledger_free hc
  · exact fun x hx => mem_cons_of_mem _ (h.delivered x hx)
  · exact h.once
  · nofun

lemma fire (hd : addr ∈ w.queued) (cpl : NvmeStatus) :
    (ioComplete { w with queued := w.queued.erase addr } addr cpl).Owned := by
  obtain ⟨c, hc, rfl⟩ := mem_map.mp (h.held addr hd)
  have hf : c.number ∉ w.frees := by
    intro hi
    exact (nodup_append.mp h.nodup).2.2 _ hi _ (mem_map_of_mem hc) rfl
  rw [ioComplete_of_mem (w := { w with queued := w.queued.erase c.addr }) h.addrs hc]
  constructor
  · exact h.fault
  · exact nodup_remove h.addrs
  · exact h.queued.erase _
  · intro a ha
    obtain ⟨hne, hi⟩ := h.queued.mem_erase_iff.mp ha
    exact mem_addr_remove (h.held a hi) hne
  · intro c' hc'
    obtain ⟨hm, hne⟩ := mem_remove.mp hc'
    rcases h.owed c' hm with hi | hs
    · exact .inl (h.queued.mem_erase_iff.mpr ⟨hne, hi⟩)
    · exact .inr hs
  · intro a ha
    obtain ⟨hn, hh⟩ := h.unsent a ha
    have hne : a ≠ c.addr := fun hq => hn (hq ▸ hd)
    exact ⟨fun hi => hn (mem_of_mem_erase hi), mem_addr_remove hh hne⟩
  · exact h.ledger_free hc
  · intro x hx
    rcases mem_cons.mp hx with rfl | hx
    · exact mem_cons_self
    · exact mem_cons_of_mem _ (h.delivered x hx)
  · refine nodup_cons.mpr ⟨fun hi => hf ?_, h.once⟩
    obtain ⟨x, hx, hq⟩ := mem_map.mp hi
    change x.1 = c.number at hq
    exact hq ▸ h.delivered x hx
  intro hl
  have he := h.drained hl
  rw [he] at hd
  cases hd

lemma pollLoop (hb : w.phase.unsent = none) (op : ShimOp) (number : Nat) : (pollLoop w op number).Owned := by
  unfold RadosNkv.pollLoop
  split
  · exact h.move w.sh .idle _ hb rfl nofun
  · exact h.move w.sh (.polling op number) w.returns hb rfl nofun

lemma acts (ha : w.Acts w') : w'.Owned := by
  cases ha with
  | stay => exact h
  | drift sh phase hu hc _ _ hl =>
    exact h.move sh phase w.returns hu (ShimPhase.unsent_of_current hc) hl
  | fail sh op rc hc => exact h.move sh .idle _ (ShimPhase.unsent_of_current hc) rfl nofun
  | arm op addr hp hf => exact h.arm hp hf
  | accept op number addr hp => exact h.accept hp
  | await op number hu => exact h.pollLoop hu ..
  | abandon op number addr rc hp => exact h.abandon hp _
  | fire addr cpl hq => exact h.fire hq cpl

lemma heap_of_closed (hl : w.phase = .closed) : w.heap = [] := by
  apply eq_nil_iff_forall_not_mem.mpr
  intro c hc
  rcases h.owed c hc with hi | hs
  · rw [h.drained hl] at hi
    cases hi
  rw [hl] at hs
  cases hs

end

end ShimWorld.Owned

variable (evs : List ShimEvent)

/-! ### Whose completion an operation returns -/

/-- What a call returns is the completion of its own operation. -/
def ShimReturn.Own (fired : List (Nat × NvmeStatus)) : ShimReturn → Prop
  | .failed _ _ => True
  | .completed op number rc valueLen =>
    ∃ cpl, (number, cpl) ∈ fired ∧ rc = statusToRc cpl.sct cpl.sc ∧ valueLen = valueLenOut op rc cpl.cdw0

variable {r : ShimReturn}

lemma ShimReturn.Own.mono {fired : List (Nat × NvmeStatus)} (h : r.Own fired)
    (x : Nat × NvmeStatus) : r.Own (x :: fired) := by
  cases r with
  | failed op rc => trivial
  | completed op number rc valueLen =>
    obtain ⟨cpl, hm, hr, hl⟩ := h
    exact ⟨cpl, mem_cons_of_mem _ hm, hr, hl⟩

def ShimReturn.number? : ShimReturn → Option Nat
  | .failed _ _ => none
  | .completed _ number _ _ => some number

def ShimWorld.issued (w : ShimWorld) : List Nat :=
  w.returns.filterMap ShimReturn.number? ++ w.phase.current.toList

def ShimWorld.Awaits (w : ShimWorld) (n : Nat) : Prop :=
  (w.sh.done = false ∧ w.sh.armedOpId = n) ∨
    (w.sh.done = true ∧ w.sh.armedOpId = 0 ∧ (n, ⟨w.sh.lastSct, w.sh.lastSc, w.sh.lastCdw0⟩) ∈ w.fired)

structure ShimWorld.Matched (w : ShimWorld) : Prop where
  next : w.sh.nextOpId = w.arms
  tokens : ∀ c ∈ w.heap, c.opId = c.number
  disarmed : w.phase.current = none → w.sh.armedOpId = 0
  waiting : ∀ n ∈ w.phase.current, w.Awaits n
  returns : ∀ r ∈ w.returns, r.Own w.fired
  issued : w.issued.Pairwise (· < ·)
  bounded : ∀ n ∈ w.issued, n ≤ w.arms

namespace ShimWorld.Matched

lemma init : ShimWorld.init.Matched where
  next := rfl
  tokens := fun _ h => absurd h not_mem_nil
  disarmed := fun _ => rfl
  waiting := nofun
  returns := fun _ h => absurd h not_mem_nil
  issued := .nil
  bounded := fun _ h => absurd h not_mem_nil

lemma issued_congr (hr : w'.returns = w.returns) (hc : w'.phase.current = w.phase.current) : w'.issued = w.issued := by
  rw [ShimWorld.issued, ShimWorld.issued, hr, hc]

variable {sh : KvHostShim}

lemma issued_sublist (hp : phase.current = none) : ({ w with sh, phase } : ShimWorld).issued.Sublist w.issued := by
  unfold ShimWorld.issued
  rw [show ({ w with sh, phase } : ShimWorld).phase.current = none from hp, Option.toList_none, append_nil]
  exact sublist_append_left ..

lemma rest (h : w.Matched) (hx : sh.nextOpId = w.sh.nextOpId)
    (ha : sh.armedOpId = 0) (hp : phase.current = none) : { w with sh, phase }.Matched where
  next := hx.trans h.next
  tokens := h.tokens
  disarmed := fun _ => ha
  waiting := by
    intro n hn
    rw [show ({ w with sh, phase } : ShimWorld).phase.current = none from hp] at hn
    cases hn
  returns := h.returns
  issued := h.issued.sublist (issued_sublist hp)
  bounded := fun n hn => h.bounded n ((issued_sublist hp).subset hn)

lemma ret_issued (hn : r.number?.toList.Sublist w.phase.current.toList) : (w.ret r).issued.Sublist w.issued := by
  have he : (w.ret r).issued = w.returns.filterMap ShimReturn.number? ++ r.number?.toList := by
    cases hr : r.number? <;> simp [ShimWorld.issued, ShimWorld.ret, ShimPhase.current, hr]
  rw [he]
  exact hn.append_left _

section

variable (h : w.Matched)
include h

lemma ret (ha : w.sh.armedOpId = 0) (hr : r.Own w.fired)
    (hm : r.number?.toList.Sublist w.phase.current.toList) : (w.ret r).Matched where
  next := h.next
  tokens := h.tokens
  disarmed := fun _ => ha
  waiting := nofun
  returns := by
    intro r' hr'
    rcases mem_append.mp hr' with hold | he
    · exact h.returns r' hold
    rw [mem_singleton.mp he]
    exact hr
  issued := h.issued.sublist (ret_issued hm)
  bounded := fun n hn => h.bounded n ((ret_issued hm).subset hn)

lemma arm (hp : w.phase = .arming op) (hf : addr ∉ w.heap.map KvOpCtx.addr)
    (hbn : w.arms + 1 < 2 ^ 64) :
    (armOp w op (some addr)).Matched := by
  have ha : w.issued = w.returns.filterMap ShimReturn.number? := by
    simp [ShimWorld.issued, hp, ShimPhase.current]
  have hi := ha ▸ h.issued
  have hb := ha ▸ h.bounded
  have hd : (w.sh.nextOpId + 1) % 2 ^ 64 = w.arms + 1 := by
    rw [h.next]
    exact Nat.mod_eq_of_lt hbn
  unfold armOp
  dsimp only
  rw [if_neg hf]
  constructor
  · exact hd
  · intro c hc
    rcases mem_cons.mp hc with rfl | hc
    · exact hd
    · exact h.tokens c hc
  · nofun
  · rintro n ⟨⟩
    exact .inl ⟨rfl, hd⟩
  · exact h.returns
  · refine pairwise_append.mpr ⟨hi, pairwise_singleton .., fun n hn m hm => ?_⟩
    rw [mem_singleton.mp hm]
    exact Nat.lt_succ_of_le (hb n hn)
  intro n hn
  rcases mem_append.mp hn with hold | he
  · exact Nat.le_succ_of_le (hb n hold)
  · exact le_of_eq (mem_singleton.mp he)

lemma accept (hp : w.phase = .submitting op number addr false) :
    { w with queued := addr :: w.queued, phase := .submitting op number addr true }.Matched := by
  have hc : w.phase.current = some number := by rw [hp]; rfl
  have hw := h.waiting number hc
  have hs : ({ w with queued := addr :: w.queued, phase := .submitting op number addr true } :
      ShimWorld).issued = w.issued := issued_congr rfl hc.symm
  refine ⟨h.next, h.tokens, nofun, ?_, h.returns, hs ▸ h.issued, hs ▸ h.bounded⟩
  rintro n ⟨⟩
  exact hw

lemma pollLoop (hc : w.phase.current = some number) (op : ShimOp) :
    (pollLoop w op number).Matched := by
  have hw : w.Awaits number := h.waiting number hc
  unfold RadosNkv.pollLoop
  rcases hw with ⟨hd, ha⟩ | ⟨hd, ha, hf⟩
  · rw [hd, if_neg nofun]
    have hs : ({ w with phase := .polling op number } : ShimWorld).issued = w.issued :=
      issued_congr rfl hc.symm
    refine ⟨h.next, h.tokens, nofun, ?_, h.returns, hs ▸ h.issued, hs ▸ h.bounded⟩
    rintro n ⟨⟩
    exact .inl ⟨hd, ha⟩
  rw [hd, if_pos rfl]
  refine h.ret ha ⟨_, hf, rfl, rfl⟩ ?_
  rw [hc]
  exact .refl _

lemma abandon (ho : w.Owned) (hh : addr ∈ w.heap.map KvOpCtx.addr) (op : ShimOp) (rc : Int) :
    (({ w with sh := disarmOp w.sh }.free addr).ret (.failed op rc)).Matched := by
  obtain ⟨c, hc, rfl⟩ := mem_map.mp hh
  have hi : { w with sh := disarmOp w.sh, phase := .idle }.Matched := h.rest rfl rfl rfl
  have hr := hi.ret (r := .failed op rc) rfl trivial (nil_sublist _)
  rw [free_of_mem (w := { w with sh := disarmOp w.sh }) ho.addrs hc]
  refine ⟨h.next, ?_, fun _ => rfl, nofun, hr.returns, hr.issued, hr.bounded⟩
  exact fun c' hc' => h.tokens c' (mem_remove.mp hc').1

lemma fire (ho : w.Owned) (hq : addr ∈ w.queued) (cpl : NvmeStatus) :
    (ioComplete { w with queued := w.queued.erase addr } addr cpl).Matched := by
  obtain ⟨c, hc, rfl⟩ := mem_map.mp (ho.held addr hq)
  have hk := h.tokens c hc
  have hm := ho.number_le hc
  rw [ioComplete_of_mem (w := { w with queued := w.queued.erase c.addr }) ho.addrs hc]
  constructor
  · unfold recordCpl
    split <;> exact h.next
  · exact fun c' hc' => h.tokens c' (mem_remove.mp hc').1
  · intro hno
    have ha : w.sh.armedOpId = 0 := h.disarmed hno
    unfold recordCpl
    split
    · rfl
    · exact ha
  · intro n hn
    unfold recordCpl
    rcases h.waiting n hn with ⟨hd, ha⟩ | ⟨hd, ha, hf⟩
    · by_cases hw : c.opId = w.sh.armedOpId
      · have hs : c.number = n := by omega
        rw [if_pos hw, ← hs]
        exact .inr ⟨rfl, rfl, mem_cons_self⟩
      rw [if_neg hw]
      exact .inl ⟨hd, ha⟩
    -- Numbers start at 1, so no late completion carries the token 0 of a disarmed shim.
    · have ht : c.opId ≠ w.sh.armedOpId := by omega
      rw [if_neg ht]
      exact .inr ⟨hd, ha, mem_cons_of_mem _ hf⟩
  · exact fun r hr => (h.returns r hr).mono _
  · exact h.issued
  · exact h.bounded

lemma acts (ho : w.Owned) (ha : w.Acts w') (hb : w'.arms < 2 ^ 64) : w'.Matched := by
  cases ha with
  | stay => exact h
  | drift sh phase _ hc hx hr =>
    refine h.rest hx ?_ hc
    rcases hr with hz | ⟨hn, hs⟩
    · exact hz
    · exact hs.trans (h.disarmed hn)
  | fail sh op rc hc hx hr =>
    have hz : sh.armedOpId = 0 := hr.trans (h.disarmed hc)
    have hi : { w with sh, phase := .idle }.Matched := h.rest hx hz rfl
    exact hi.ret hz trivial (nil_sublist _)
  | arm op addr hp hf =>
    rw [armOp_arms hf] at hb
    exact h.arm hp hf hb
  | accept op number addr hp => exact h.accept hp
  | await op number _ hc => exact h.pollLoop hc op
  | abandon op number addr rc hp => exact h.abandon ho (ho.unsent addr (by rw [hp]; rfl)).2 op rc
  | fire addr cpl hq => exact h.fire ho hq cpl

end

end ShimWorld.Matched

@[simp] lemma free_arms (w : ShimWorld) (addr : Nat) : (w.free addr).arms = w.arms := by
  unfold free
  split <;> rfl

lemma ShimWorld.Acts.arms_le (ha : w.Acts w') : w.arms ≤ w'.arms := by
  cases ha with
  | stay | drift | fail | accept => exact le_rfl
  | arm op addr _ hf =>
    rw [armOp_arms hf]
    exact Nat.le_succ _
  | await =>
    unfold pollLoop
    split <;> exact le_rfl
  | abandon => simp [ShimWorld.ret]
  | fire =>
    unfold ioComplete
    split <;> simp

lemma matched_after (hb : (after evs).arms < 2 ^ 64) : (after evs).Matched := by
  refine (run_induct (P := fun w => w.Owned ∧ (w.arms < 2 ^ 64 → w.Matched)) ShimWorld.step
    ⟨.init, fun _ => .init⟩ ?_ evs).2 hb
  rintro w ev ⟨ho, hm⟩
  have ha := step_acts w ev
  refine ⟨ho.acts ha, fun hn => ?_⟩
  exact (hm (lt_of_le_of_lt ha.arms_le hn)).acts ho ha hn

/-- However late the completions of abandoned commands are delivered: while fewer than 2^64 contexts
have been armed, every operation that returns a status and a length returns those of the completion
delivered to its own context, and no two operations share a context. -/
theorem own_completion_freed_once (evs : List ShimEvent) :
    ((ShimWorld.after evs).arms < 2 ^ 64 →
        (∀ r ∈ (ShimWorld.after evs).returns, r.Own (ShimWorld.after evs).fired) ∧
          ((ShimWorld.after evs).returns.filterMap ShimReturn.number?).Nodup) ∧
      ((ShimWorld.after evs).fired.map Prod.fst).Nodup ∧
      (ShimWorld.after evs).fault = false ∧
      (ShimWorld.after evs).frees.Nodup ∧
      ((ShimWorld.after evs).frees ++ (ShimWorld.after evs).heap.map KvOpCtx.number).Perm
        (List.range' 1 (ShimWorld.after evs).arms) ∧
      (∀ c ∈ (ShimWorld.after evs).heap,
        c.addr ∈ (ShimWorld.after evs).queued ∨ (ShimWorld.after evs).phase.unsent = some c.addr) ∧
      ((ShimWorld.after evs).phase = .closed →
        (ShimWorld.after evs).frees.Perm (List.range' 1 (ShimWorld.after evs).arms)) := by
  have hown := run_induct (P := ShimWorld.Owned) ShimWorld.step .init (fun w ev h => h.acts (step_acts w ev)) evs
  refine ⟨fun hbound => ?_, hown.once, hown.fault, hown.nodup.sublist (sublist_append_left ..),
    hown.ledger, hown.owed, fun hcalls => ?_⟩
  · have hmatch := matched_after evs hbound
    refine ⟨hmatch.returns, ?_⟩
    have hisd := hmatch.issued.sublist (sublist_append_left ..)
    exact hisd.imp fun hlt => ne_of_lt hlt
  have hlog := hown.ledger
  rwa [hown.heap_of_closed hcalls, map_nil, append_nil] at hlog

def lateRun : List ShimEvent :=
  [.call .store, .malloc (some 5), .accept, .submitted 0, .processed 0 true, .disconnected,
    .call (.retrieve true), .reconnected 0, .processed 0 false, .malloc (some 7), .accept, .submitted 0,
    .fire 5 ⟨1, 0x87, 3⟩, .fire 7 ⟨0, 0, 9⟩, .processed 2 false, .close, .freed]

theorem late_completion_dropped :
    (ShimWorld.after lateRun).returns =
        [.failed .store (-eTimedout), .completed (.retrieve true) 2 0 (some 9)] ∧
      ∀ r ∈ (ShimWorld.after lateRun).returns, r.Own (ShimWorld.after lateRun).fired :=
  ⟨by decide, ((own_completion_freed_once lateRun).1 (by decide)).1⟩

def spentToken : List ShimEvent := [.call .store, .malloc (some 7), .submitted 12]

structure ShimWorld.Abandoned (w : ShimWorld) (arms : Nat) : Prop where
  fault : w.fault = false
  phase : w.phase = .idle
  connected : w.sh.qpairFailed = false
  next : w.sh.nextOpId = arms % 2 ^ 64
  arms : w.arms = arms
  heap : w.heap = [⟨5, 1, 1⟩]
  queued : w.queued = [5]
  fired : w.fired = []

lemma abandoned_spent (h : w.Abandoned arms) : (run ShimWorld.step w spentToken).Abandoned (arms + 1) := by
  obtain ⟨hl, hp, hc, hn, ha, hh, hq, hf⟩ := h
  simp only [spentToken, run_cons, run_nil, ShimWorld.step, handle, hl, hp,
    hc, hh, ha, armOp, afterSubmit, free, find, remove, ShimWorld.ret]
  constructor <;> simp [hc, hn, hq, hf, disarmOp]

lemma abandoned_spents (h : w.Abandoned arms) (k : Nat) :
    (run ShimWorld.step w (List.replicate k spentToken).flatten).Abandoned (arms + k) := by
  induction k generalizing w arms with
  | zero => exact h
  | succ k ih =>
    rw [replicate_succ, flatten_cons, run_append, add_comm k 1, ← add_assoc]
    exact ih (abandoned_spent h)

def abandonRun : List ShimEvent :=
  [.call .store, .malloc (some 5), .accept, .submitted 0, .processed 0 true, .disconnected,
    .call .store, .reconnected 0, .processed 0 false, .malloc (some 7), .submitted 12]

def latePoll : List ShimEvent :=
  [.call (.retrieve true), .malloc (some 7), .accept, .submitted 0, .fire 5 ⟨0, 0, 9⟩, .processed 1 false]

lemma latePoll_returns (h : w.Abandoned arms) (hw : (arms % 2 ^ 64 + 1) % 2 ^ 64 = 1) :
    .completed (.retrieve true) (arms + 1) 0 (some 9) ∈ (run ShimWorld.step w latePoll).returns ∧
      (run ShimWorld.step w latePoll).fired = [(1, ⟨0, 0, 9⟩)] := by
  obtain ⟨hl, hp, hc, hn, ha, hh, hq, hf⟩ := h
  have ht : (w.sh.nextOpId + 1) % 18446744073709551616 = 1 := by
    rw [hn]
    exact hw
  simp [latePoll, ShimWorld.step, handle, hl, hp, hc, hh, ha, ht, hq,
    hf, armOp, afterSubmit, pollLoop, pollTurn, completeOp, ioComplete, recordCpl,
    free, find, remove, ShimWorld.ret, ShimPhase.inSpdk, statusToRc, sctGeneric,
    valueLenOut]

def wrapRun : List ShimEvent :=
  abandonRun ++ (List.replicate (2 ^ 64 - 2) spentToken).flatten ++ latePoll

/-- After 2^64 operations a Retrieve is answered with the completion of the first, abandoned one:
the only completion that was delivered is that of context 1, and operation 2^64 + 1 returns its
length. -/
theorem wrapped_token_returns_stale :
    .completed (.retrieve true) (2 ^ 64 + 1) 0 (some 9) ∈ (ShimWorld.after wrapRun).returns ∧
      (ShimWorld.after wrapRun).fired = [(1, ⟨0, 0, 9⟩)] ∧
      ¬ ∀ r ∈ (ShimWorld.after wrapRun).returns, r.Own (ShimWorld.after wrapRun).fired := by
  have hstore : (ShimWorld.after abandonRun).Abandoned 2 := by
    constructor <;> decide
  have hspan := abandoned_spents hstore (2 ^ 64 - 2)
  have hinv : 2 + (2 ^ 64 - 2) = 2 ^ 64 := by decide
  rw [hinv] at hspan
  have hlt := latePoll_returns hspan (by decide)
  have hrun : ShimWorld.after wrapRun = run ShimWorld.step (run ShimWorld.step
      (ShimWorld.after abandonRun) (List.replicate (2 ^ 64 - 2) spentToken).flatten) latePoll := by
    simp only [ShimWorld.after, wrapRun, run_append]
  rw [← hrun] at hlt
  obtain ⟨hret, hfreed⟩ := hlt
  refine ⟨hret, hfreed, fun hown => ?_⟩
  obtain ⟨cpl, hmem, -⟩ := hown _ hret
  rw [hfreed] at hmem
  simp at hmem

end RadosNkv
