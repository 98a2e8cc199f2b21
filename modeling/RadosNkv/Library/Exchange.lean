import Mathlib.Algebra.Order.Ring.Nat
import Mathlib.Data.List.Perm.Basic

/-! Arrays that change in place: removal that fills the hole with the last element, and the sort
that exchanges every pair out of order. -/

namespace Exchange

open List

variable {α : Type*}

def swapRemove (l : List α) (i : Nat) : List α :=
  match l.getLast? with
  | none => []
  | some last => (l.set i last).dropLast

lemma swapRemove_perm {l : List α} (h : i < l.length) : (swapRemove l i).Perm (l.eraseIdx i) := by
  obtain rfl | ⟨init, last, rfl⟩ := eq_nil_or_concat' l
  · exact absurd h (Nat.not_lt_zero i)
  simp only [swapRemove, getLast?_concat]
  by_cases hi : i < init.length
  · rw [set_append_left _ _ hi, dropLast_concat, eraseIdx_append_of_lt_length hi]
    exact (set_perm_cons_eraseIdx hi last).trans (perm_append_singleton last _).symm
  -- the last slot is the hole itself
  have hl : i = init.length := by
    rw [length_append, length_singleton] at h
    omega
  subst hl
  rw [set_append_right _ _ (le_rfl), eraseIdx_append_of_length_le (le_rfl)]
  simp

variable (gt : α → α → Bool)

def pass : α → List α → α × List α
  | x, [] => (x, [])
  | x, y :: rest =>
    if gt x y then ((pass y rest).1, x :: (pass y rest).2)
    else ((pass x rest).1, y :: (pass x rest).2)

lemma pass_perm (x : α) (l : List α) : ((pass gt x l).1 :: (pass gt x l).2).Perm (x :: l) := by
  induction l generalizing x with
  | nil => exact .refl _
  | cons y rest ih =>
    rw [pass]
    split
    · exact (List.Perm.swap x ..).trans ((ih y).cons x)
    · exact ((List.Perm.swap y ..).trans ((ih x).cons y)).trans (.swap x y rest)

def sortFrom : Nat → List α → List α
  | 0, l => l
  | _ + 1, [] => []
  | fuel + 1, x :: rest => (pass gt x rest).1 :: sortFrom fuel (pass gt x rest).2

def sort (l : List α) : List α := sortFrom gt l.length l

lemma sortFrom_perm (fuel : Nat) (l : List α) : (sortFrom gt fuel l).Perm l := by
  induction fuel generalizing l with
  | zero => exact .refl _
  | succ fuel ih =>
    cases l with
    | nil => exact .refl _
    | cons x rest => exact ((ih _).cons _).trans (pass_perm gt x rest)

lemma sort_perm (l : List α) : (sort gt l).Perm l := sortFrom_perm gt _ l

end Exchange
