import Mathlib.Algebra.Order.Ring.Nat
import Mathlib.Data.List.Basic

/-! Streams of fields that carry their lengths in front. -/

lemma mod_pow_eq_of_digits {b m n w : Nat} (h : ∀ i < w, m / b ^ i % b = n / b ^ i % b) : m % b ^ w = n % b ^ w := by
  induction w with
  | zero => rw [Nat.pow_zero, Nat.mod_one, Nat.mod_one]
  | succ w ih =>
    rw [Nat.mod_pow_succ, Nat.mod_pow_succ, ih fun i hi => h i (Nat.lt_succ_of_lt hi), h w (Nat.lt_succ_self w)]

structure LengthCode (α : Type*) where
  enc : Nat → List α
  width : Nat
  bound : Nat
  length_enc : ∀ n, (enc n).length = width
  enc_inj : ∀ {m n}, m < bound → n < bound → enc m = enc n → m = n

namespace LengthCode

variable {α : Type*} (c : LengthCode α) {a b r s : List α}

def frame (b : List α) : List α := c.enc b.length ++ b

lemma frame_append_inj (ha : a.length < c.bound) (hb : b.length < c.bound)
    (h : c.frame a ++ r = c.frame b ++ s) : a = b ∧ r = s := by
  unfold frame at h
  rw [List.append_assoc, List.append_assoc] at h
  have hw : (c.enc a.length).length = (c.enc b.length).length := by rw [c.length_enc, c.length_enc]
  obtain ⟨he, hr⟩ := List.append_inj h hw
  exact List.append_inj hr (c.enc_inj ha hb he)

lemma frame_inj (ha : a.length < c.bound) (hb : b.length < c.bound) (h : c.frame a = c.frame b) : a = b := by
  have hp : c.frame a ++ [] = c.frame b ++ [] := by rw [List.append_nil, List.append_nil, h]
  exact (c.frame_append_inj ha hb hp).1

end LengthCode
