import Mathlib.Algebra.Order.Ring.Nat
import Mathlib.Data.List.Basic

/-! Ledgers of effects, newest entry first: the entries about one object, laws about their order,
and accounts of numbered resources that are released once. -/

namespace Ledger

variable {ι α : Type*} [DecidableEq ι]

def about (log : List (ι × α)) (i : ι) : List α :=
  (log.filter fun x => x.1 = i).map Prod.snd

@[simp] lemma about_nil (i : ι) : about ([] : List (ι × α)) i = [] := rfl

@[simp] lemma about_cons_self (i : ι) (a : α) (log : List (ι × α)) : about ((i, a) :: log) i = a :: about log i := by
  simp [about]

lemma about_cons_ne (h : j ≠ i) (a : α) (log : List (ι × α)) :
    about ((j, a) :: log) i = about log i := by
  simp [about, h]

lemma mem_about {log : List (ι × α)} {i : ι} {a : α} : a ∈ about log i ↔ (i, a) ∈ log := by
  simp [about]

def Justified (J : α → List α → Prop) : List α → Prop
  | [] => True
  | a :: older => J a older ∧ Justified J older

lemma Justified.append (h : Justified J log) (hn : ∀ a ∈ new, ∀ older, J a older) :
    Justified J (new ++ log) := by
  induction new with
  | nil => exact h
  | cons a new ih =>
    exact ⟨hn a (by simp) _, ih fun b hb => hn b (by simp [hb])⟩

lemma Justified.of_getElem? (h : Justified J log) (hn : log[n]? = some a) :
    J a (log.drop (n + 1)) := by
  induction log generalizing n with
  | nil => cases hn
  | cons b log ih =>
    cases n with
    | zero =>
      cases hn
      exact h.1
    | succ n => exact ih h.2 hn

structure Accounted (issued : Nat) (held : Nat → Prop) (released : Nat → Nat) : Prop where
  holds : ∀ k, held k → k < issued ∧ released k = 0
  once : ∀ k < issued, ¬ held k → released k = 1
  fresh : ∀ k, issued ≤ k → released k = 0

def Passed (issued issued' : Nat) (released released' : Nat → Nat) : Prop :=
  (issued' = issued ∧ released' = released) ∨
    (issued' = issued + 1 ∧ ∀ k, released' k = released k + if k = issued then 1 else 0)

namespace Accounted

section

variable (h : Accounted issued held released)
include h

lemma issue (hh : ∀ k, held' k ↔ held k ∨ k = issued) : Accounted (issued + 1) held' released where
  holds k hk := by
    rcases (hh k).mp hk with hk | rfl
    · exact ⟨Nat.lt_succ_of_lt (h.holds k hk).1, (h.holds k hk).2⟩
    · exact ⟨Nat.lt_succ_self k, h.fresh k (le_refl k)⟩
  once k ht hk := by
    have hn : k ≠ issued := fun he => hk ((hh k).mpr (.inr he))
    exact h.once k (by omega) fun hold => hk ((hh k).mpr (.inl hold))
  fresh k hl := h.fresh k (by omega)

lemma release (hj : held j) (hh : ∀ k, held' k ↔ held k ∧ k ≠ j)
    (hr : ∀ k, released' k = released k + if k = j then 1 else 0) :
    Accounted issued held' released' where
  holds k hk := by
    obtain ⟨hold, hn⟩ := (hh k).mp hk
    rw [hr, if_neg hn]
    exact h.holds k hold
  once k ht hk := by
    rw [hr]
    by_cases he : k = j
    · rw [if_pos he, he, (h.holds j hj).2]
    rw [if_neg he]
    exact h.once k ht fun hold => hk ((hh k).mpr ⟨hold, he⟩)
  fresh k hl := by
    have hn : k ≠ j := by
      have := (h.holds j hj).1
      omega
    rw [hr, if_neg hn]
    exact h.fresh k hl

lemma congr (hh : ∀ k, held' k ↔ held k) : Accounted issued held' released where
  holds k hk := h.holds k ((hh k).mp hk)
  once k hl hk := h.once k hl fun hold => hk ((hh k).mpr hold)
  fresh := h.fresh

lemma pass (hp : Passed issued issued' released released') : Accounted issued' held released' := by
  rcases hp with ⟨rfl, rfl⟩ | ⟨rfl, hr⟩
  · exact h
  have hn : ¬ held issued := fun hold => lt_irrefl _ (h.holds issued hold).1
  refine (h.issue fun k => Iff.rfl).release (.inr rfl) (fun k => ?_) hr
  constructor
  · exact fun hold => ⟨.inl hold, fun he => hn (he ▸ hold)⟩
  · exact fun hold => hold.1.resolve_right hold.2

end

end Accounted

end Ledger
