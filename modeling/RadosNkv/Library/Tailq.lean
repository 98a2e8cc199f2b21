import Mathlib.Algebra.Order.Ring.Nat
import Mathlib.Data.List.Nodup

/-! Tail queues of objects that are known by their address: an element is found, taken out, moved to
the tail or updated in place by its address. -/

namespace Tailq

open List

variable {α ι : Type*} [DecidableEq ι] (ptr : α → ι)

def find (p : ι) (q : List α) : Option α := q.find? fun a => ptr a = p

def remove (p : ι) (q : List α) : List α := q.filter fun a => ptr a ≠ p

def touch (p : ι) (q : List α) : List α := remove ptr p q ++ q.filter fun a => ptr a = p

def modify (p : ι) (f : α → α) (q : List α) : List α := q.map fun a => if ptr a = p then f a else a

variable {ptr} {q : List α}

lemma find_some (h : find ptr p q = some a) : a ∈ q ∧ ptr a = p := by
  have hp := find?_some h
  exact ⟨mem_of_find?_eq_some h, by simpa using hp⟩

lemma find_isSome (h : a ∈ q) (hp : ptr a = p) : (find ptr p q).isSome := by
  rw [find, find?_isSome]
  exact ⟨a, h, by simpa using hp⟩

@[simp] lemma mem_remove : a ∈ remove ptr p q ↔ a ∈ q ∧ ptr a ≠ p := by
  simp [remove]

@[simp] lemma mem_touch : a ∈ touch ptr p q ↔ a ∈ q := by
  by_cases h : ptr a = p <;> simp [touch, h]

lemma mem_modify (h : a ∈ modify ptr p f q) : ∃ b ∈ q, (ptr b = p ∧ a = f b) ∨ (ptr b ≠ p ∧ a = b) := by
  obtain ⟨b, hb, rfl⟩ := mem_map.mp h
  by_cases hp : ptr b = p
  · exact ⟨b, hb, .inl ⟨hp, by simp [hp]⟩⟩
  · exact ⟨b, hb, .inr ⟨hp, by simp [hp]⟩⟩

lemma map_modify {β : Type*} {g : α → β} (hf : ∀ a, g (f a) = g a) : (modify ptr p f q).map g = q.map g := by
  rw [modify, map_map]
  apply map_congr_left
  intro b _
  by_cases hp : ptr b = p <;> simp [hp, hf]

lemma nodup_remove (hn : (q.map ptr).Nodup) : ((remove ptr p q).map ptr).Nodup :=
  hn.sublist (filter_sublist.map ptr)

lemma perm_touch : (touch ptr p q).Perm q := by
  have hs := filter_append_perm (fun a => decide (ptr a ≠ p)) q
  simpa [touch, remove] using hs

lemma find_of_mem (hn : (q.map ptr).Nodup) (ha : a ∈ q) : find ptr (ptr a) q = some a := by
  obtain ⟨b, hb⟩ := Option.isSome_iff_exists.mp (find_isSome ha (rfl : ptr a = ptr a))
  obtain ⟨hm, hp⟩ := find_some hb
  rw [hb, inj_on_of_nodup_map hn hm ha hp]

lemma perm_cons_remove (hn : (q.map ptr).Nodup) (ha : a ∈ q) : q.Perm (a :: remove ptr (ptr a) q) := by
  induction q with
  | nil => cases ha
  | cons b q ih =>
    obtain ⟨hb, hn⟩ := nodup_cons.mp hn
    rcases mem_cons.mp ha with rfl | hi
    · have hr : remove ptr (ptr a) q = q := by
        rw [remove, filter_eq_self]
        intro x hx
        have he : ptr x ≠ ptr a := fun hp => hb (mem_map.mpr ⟨x, hx, hp⟩)
        simpa using he
      have hh : remove ptr (ptr a) (a :: q) = remove ptr (ptr a) q := by simp [remove]
      rw [hh, hr]
    have he : ptr b ≠ ptr a := fun hp => hb (hp ▸ mem_map_of_mem hi)
    have hc : remove ptr (ptr a) (b :: q) = b :: remove ptr (ptr a) q := by
      simp [remove, he]
    rw [hc]
    exact ((ih hn hi).cons b).trans (.swap a b _)

lemma remove_modify (hf : ∀ a, ptr (f a) = ptr a) : remove ptr p (modify ptr p f q) = remove ptr p q := by
  induction q with
  | nil => rfl
  | cons b q ih =>
    by_cases hp : ptr b = p
    · simpa [remove, modify, hp, hf] using ih
    · simpa [remove, modify, hp] using ih

lemma remove_remove : remove ptr p (remove ptr p q) = remove ptr p q := by
  simp [remove]

lemma map_mem_modify (h : a ∈ q) (hp : ptr a = p) : f a ∈ modify ptr p f q :=
  mem_map.mpr ⟨a, h, by simp [hp]⟩

end Tailq
