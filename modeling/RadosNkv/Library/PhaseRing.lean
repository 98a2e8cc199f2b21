import Mathlib.Algebra.Order.Ring.Nat
import Mathlib.Logic.Function.Basic
import Mathlib.Data.Nat.ModEq

/-! Rings of `depth` slots whose entries carry a phase bit: neither side clears a slot, and the
consumer tells a new entry from one of the lap before by its own phase. -/

structure PhaseRing (α : Type*) where
  depth : Nat
  slots : Nat → α
  tail : Nat
  tailPhase : Bool
  head : Nat
  headPhase : Bool

namespace PhaseRing

variable {α : Type*} (tag : α → Bool)

def phaseAt (pos : Nat) (phase : Bool) : Bool := if pos = 0 then !phase else phase

section

variable (r : PhaseRing α)

def Full : Prop := (r.tail + 1) % r.depth = r.head

def Ready : Prop := tag (r.slots r.head) = r.headPhase

def post (x : α) : PhaseRing α :=
  { r with
    slots := Function.update r.slots r.tail x
    tail := (r.tail + 1) % r.depth
    tailPhase := phaseAt ((r.tail + 1) % r.depth) r.tailPhase }

def take : PhaseRing α :=
  { r with
    head := (r.head + 1) % r.depth
    headPhase := phaseAt ((r.head + 1) % r.depth) r.headPhase }

end

variable {depth : Nat} (r : PhaseRing α)

@[simp] lemma post_depth (x : α) : (r.post x).depth = r.depth := rfl

def lap (depth n : Nat) : Bool := decide (n / depth % 2 = 0)

lemma lap_add_depth (hd : 0 < depth) (n : Nat) : lap depth (n + depth) = !lap depth n := by
  rw [lap, lap, Nat.add_div_right n hd, ← decide_not, decide_eq_decide]
  omega

lemma mod_succ (depth n : Nat) : (n % depth + 1) % depth = (n + 1) % depth := by
  rw [Nat.mod_add_mod]

lemma phaseAt_lap (n : Nat) : phaseAt ((n + 1) % depth) (lap depth n) = lap depth (n + 1) := by
  unfold phaseAt lap
  by_cases hw : depth ∣ n + 1
  · rw [if_pos (Nat.mod_eq_zero_of_dvd hw), Nat.succ_div, if_pos hw, ← decide_not, decide_eq_decide]
    omega
  rw [if_neg (fun hz => hw (Nat.dvd_of_mod_eq_zero hz)), Nat.succ_div, if_neg hw]
  rfl

lemma slot_inj (hi : i < depth) (hj : j < depth) (h : (c + i) % depth = (c + j) % depth) :
    i = j := by
  have hm : i % depth = j % depth := Nat.ModEq.add_left_cancel' c h
  rwa [Nat.mod_eq_of_lt hi, Nat.mod_eq_of_lt hj] at hm

/-- The ring from which `taken` entries were taken so far holds the entries `q`, oldest first. -/
structure Carries (r : PhaseRing α) (taken : Nat) (q : List α) : Prop where
  room : q.length < r.depth
  head : r.head = taken % r.depth
  headPhase : r.headPhase = lap r.depth taken
  tail : r.tail = (taken + q.length) % r.depth
  tailPhase : r.tailPhase = lap r.depth (taken + q.length)
  held : ∀ i (hi : i < q.length),
    r.slots ((taken + i) % r.depth) = q[i] ∧ tag q[i] = lap r.depth (taken + i)
  stale : ∀ i, q.length ≤ i → i < r.depth →
    tag (r.slots ((taken + i) % r.depth)) ≠ lap r.depth (taken + i)

namespace Carries

variable {tag} {r : PhaseRing α} {taken : Nat} {q : List α}

lemma init {depth : Nat} {slots : Nat → α} (hd : 0 < depth) (hc : ∀ i, tag (slots i) = false) :
    Carries tag ⟨depth, slots, 0, true, 0, true⟩ 0 [] where
  room := hd
  head := (Nat.zero_mod depth).symm
  headPhase := by simp [lap]
  tail := (Nat.zero_mod depth).symm
  tailPhase := by simp [lap]
  held := fun i hi => absurd hi (Nat.not_lt_zero i)
  stale := by
    intro i _ hi
    simp [hc, lap, Nat.div_eq_of_lt hi]

lemma full_iff (h : Carries tag r taken q) : r.Full ↔ q.length + 1 = r.depth := by
  have hr := h.room
  rw [Full, h.tail, h.head, mod_succ, add_assoc]
  constructor
  · intro he
    by_contra hn
    have hz := slot_inj (i := q.length + 1) (j := 0) (by omega) (by omega) he
    omega
  intro he
  rw [he, Nat.add_mod_right]

lemma ready_iff (h : Carries tag r taken q) : r.Ready tag ↔ q ≠ [] := by
  have hr := h.room
  rw [Ready, h.head, h.headPhase]
  cases q with
  | nil =>
    have hst := h.stale 0 (le_refl 0) hr
    simpa using hst
  | cons x q =>
    obtain ⟨hs, ht⟩ := h.held 0 (Nat.succ_pos _)
    rw [add_zero] at hs ht
    rw [hs]
    simpa using ht

lemma slot_head (h : Carries tag r taken (x :: q)) : r.slots r.head = x := by
  have hs := (h.held 0 (Nat.succ_pos _)).1
  rwa [add_zero, ← h.head] at hs

lemma post (h : Carries tag r taken q) (hf : ¬ r.Full) (hx : tag x = r.tailPhase) :
    Carries tag (r.post x) taken (q ++ [x]) := by
  have hr := h.room
  have hls : q.length + 1 < r.depth := by
    rw [h.full_iff] at hf
    omega
  have hl : (q ++ [x]).length = q.length + 1 := by simp
  -- A slot of the ring other than the one just written is as it was.
  have ho : ∀ i, i ≠ q.length → i < r.depth →
      (r.post x).slots ((taken + i) % r.depth) = r.slots ((taken + i) % r.depth) := by
    intro i hn hi
    apply Function.update_of_ne
    rw [h.tail]
    exact fun hq => hn (slot_inj hi hr hq)
  refine ⟨by rw [hl]; exact hls, h.head, h.headPhase, ?_, ?_, ?_, ?_⟩
  · show (r.tail + 1) % r.depth = _
    rw [h.tail, mod_succ, hl, post_depth, add_assoc]
  · show phaseAt ((r.tail + 1) % r.depth) r.tailPhase = _
    rw [h.tail, h.tailPhase, mod_succ, phaseAt_lap, hl]
    rfl
  · intro i hi
    rw [hl] at hi
    by_cases hn : i = q.length
    · subst hn
      have hsl : (r.post x).slots ((taken + q.length) % r.depth) = x := by
        rw [← h.tail]
        exact Function.update_self ..
      refine ⟨by simpa only [post_depth, List.getElem_concat_length] using hsl, ?_⟩
      rw [List.getElem_concat_length rfl, hx, h.tailPhase]
      rfl
    have ht : i < q.length := by omega
    have hh := h.held i ht
    rw [← ho i hn (by omega)] at hh
    rw [List.getElem_append_left ht]
    exact hh
  intro i he hi
  rw [hl] at he
  have hs := h.stale i (by omega) hi
  rwa [← ho i (by omega) hi] at hs

lemma take (h : Carries tag r taken (x :: q)) : Carries tag r.take (taken + 1) q := by
  have hr := h.room
  have hl : (x :: q).length = q.length + 1 := rfl
  refine ⟨by change q.length < r.depth; omega, ?_, ?_, ?_, ?_, ?_, ?_⟩
  · show (r.head + 1) % r.depth = _
    rw [h.head, mod_succ]
    rfl
  · show phaseAt ((r.head + 1) % r.depth) r.headPhase = _
    rw [h.head, h.headPhase, mod_succ, phaseAt_lap]
    rfl
  · rw [show r.take.tail = r.tail from rfl, h.tail, hl, add_assoc, add_comm 1]
    rfl
  · rw [show r.take.tailPhase = r.tailPhase from rfl, h.tailPhase, hl, add_assoc, add_comm 1]
    rfl
  · intro i hi
    have hh := h.held (i + 1) (by omega)
    have hp : taken + (i + 1) = taken + 1 + i := by omega
    rwa [hp] at hh
  intro i he hi
  change i < r.depth at hi
  change tag (r.slots ((taken + 1 + i) % r.depth)) ≠ lap r.depth (taken + 1 + i)
  by_cases hw : i + 1 = r.depth
  -- The slot just left comes up again a lap later, with the other phase.
  · have hp : taken + 1 + i = taken + r.depth := by omega
    obtain ⟨hs, ht⟩ := h.held 0 (Nat.succ_pos _)
    rw [hp, Nat.add_mod_right, lap_add_depth (by omega)]
    rw [add_zero] at hs ht
    rw [hs, ht]
    simp
  have hst := h.stale (i + 1) (by omega) (by omega)
  rwa [add_comm i 1, ← add_assoc] at hst

end Carries

end PhaseRing
