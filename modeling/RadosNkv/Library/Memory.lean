import Mathlib.Algebra.Order.Ring.Nat
import Mathlib.Data.List.Basic

/-! Memories addressed by natural numbers: ranges that are read and written as lists, and lists of
segments that are read as one. -/

namespace Memory

open List

variable {β : Type*}

def read (mem : Nat → β) (a n : Nat) : List β := (List.range n).map fun i => mem (a + i)

def write (mem : Nat → β) (a : Nat) (xs : List β) : Nat → β :=
  fun b => if a ≤ b then (xs[b - a]?).getD (mem b) else mem b

variable {xs : List β} (mem : Nat → β) (a : Nat)

@[simp] lemma length_read (n : Nat) : (read mem a n).length = n := by
  simp [read]

@[simp] lemma read_zero : read mem a 0 = [] := rfl

lemma read_add (m n : Nat) : read mem a (m + n) = read mem a m ++ read mem (a + m) n := by
  simp [read, range_add, add_assoc]

lemma take_read (h : m ≤ n) : (read mem a n).take m = read mem a m := by
  obtain ⟨k, rfl⟩ := Nat.exists_eq_add_of_le h
  rw [read_add, take_left' (length_read mem a m)]

lemma drop_read (m n : Nat) : (read mem a n).drop m = read mem (a + m) (n - m) := by
  rcases Nat.le_total m n with h | h
  · obtain ⟨k, rfl⟩ := Nat.exists_eq_add_of_le h
    rw [read_add, drop_left' (length_read mem a m), Nat.add_sub_cancel_left]
  · rw [drop_eq_nil_of_le (by rwa [length_read]), Nat.sub_eq_zero_of_le h, read_zero]

lemma write_nil : write mem a [] = mem := by
  funext b
  simp [write]

lemma write_beyond {a : Nat} (h : ¬ (a ≤ b ∧ b < a + xs.length)) : write mem a xs b = mem b := by
  unfold write
  split
  · rw [getElem?_eq_none (by omega), Option.getD_none]
  · rfl

lemma write_within (mem' : Nat → β) {a : Nat} (hl : a ≤ b) (hh : b < a + xs.length) :
    write mem a xs b = write mem' a xs b := by
  unfold write
  rw [if_pos hl, if_pos hl, getElem?_eq_getElem (by omega), Option.getD_some, Option.getD_some]

lemma read_write (xs : List β) (h : n ≤ xs.length) : read (write mem a xs) a n = xs.take n := by
  apply ext_getElem
  · simp [h]
  intro i hi _
  rw [length_read] at hi
  have hl : i < xs.length := by omega
  simp [read, write, hl]

lemma read_write_after (k : Nat) (xs : List β) (h : n ≤ k + xs.length) :
    read (write mem (a + k) xs) a n = (read mem a k ++ xs).take n := by
  have hb : read (write mem (a + k) xs) a k = read mem a k := by
    apply ext_getElem
    · simp
    intro i hi _
    rw [length_read] at hi
    have hl : ¬ k ≤ i := by omega
    simp [read, write, hl]
  have ha : read (write mem (a + k) xs) a (k + xs.length) = read mem a k ++ xs := by
    rw [read_add, hb, read_write mem (a + k) xs (le_rfl), take_length]
  rw [← ha, take_read _ _ h]

lemma write_append (xs ys : List β) : write (write mem a xs) (a + xs.length) ys = write mem a (xs ++ ys) := by
  funext b
  unfold write
  by_cases hl : a ≤ b
  · obtain ⟨i, rfl⟩ := Nat.exists_eq_add_of_le hl
    by_cases hi : i < xs.length
    · have hb : ¬ a + xs.length ≤ a + i := by omega
      simp [hb, getElem?_append_left hi]
    have ha : a + xs.length ≤ a + i := by omega
    have hx : xs[i]? = none := getElem?_eq_none (by omega)
    have hp : a + i - (a + xs.length) = i - xs.length := by omega
    simp [ha, hp, hx, getElem?_append_right (Nat.le_of_not_lt hi)]
  have hb : ¬ a + xs.length ≤ b := by omega
  simp [hl, hb]

lemma write_over (xs ys : List β) : write (write mem a ys) a xs = write mem a (xs ++ ys.drop xs.length) := by
  funext b
  unfold write
  by_cases hl : a ≤ b
  · obtain ⟨i, rfl⟩ := Nat.exists_eq_add_of_le hl
    by_cases hi : i < xs.length
    · simp [getElem?_append_left hi, hi]
    have hx : xs[i]? = none := getElem?_eq_none (by omega)
    have hp : xs.length + (i - xs.length) = i := by omega
    simp [hx, getElem?_append_right (Nat.le_of_not_lt hi), hp]
  · simp [hl]

structure Seg where
  base : Nat
  len : Nat

def payload (mem : Nat → β) (segs : List Seg) : List β := segs.flatMap fun s => read mem s.base s.len

def total (segs : List Seg) : Nat := (segs.map Seg.len).sum

@[simp] lemma payload_nil : payload mem [] = [] := rfl

@[simp] lemma payload_cons (s : Seg) (segs : List Seg) :
    payload mem (s :: segs) = read mem s.base s.len ++ payload mem segs := rfl

@[simp] lemma length_payload (segs : List Seg) : (payload mem segs).length = total segs := by
  induction segs with
  | nil => rfl
  | cons s segs ih => simp [total, ih]

def Seg.Covers (s : Seg) (x : Nat) : Prop := s.base ≤ x ∧ x < s.base + s.len

instance (s : Seg) (x : Nat) : Decidable (s.Covers x) := inferInstanceAs (Decidable (_ ∧ _))

def Apart (segs : List Seg) : Prop := segs.Pairwise fun s t => ∀ x, s.Covers x → ¬ t.Covers x

lemma apart_of_ordered {segs : List Seg} (h : segs.Pairwise fun s t => s.base + s.len ≤ t.base) : Apart segs :=
  h.imp fun hl x hs ht => lt_irrefl x (lt_of_lt_of_le hs.2 (le_trans hl ht.1))

def splice (l : List β) (i : Nat) (xs : List β) : List β := l.take i ++ xs ++ l.drop (i + xs.length)

@[simp] lemma splice_nil (l : List β) (i : Nat) : splice l i [] = l := by
  simp [splice]

lemma splice_append_left {l l' : List β} (h : i + xs.length ≤ l.length) :
    splice (l ++ l') i xs = splice l i xs ++ l' := by
  unfold splice
  rw [take_append_of_le_length (by omega), drop_append_of_le_length h, append_assoc _ _ l']

lemma splice_append_right (l l' : List β) (i : Nat) (xs : List β) :
    splice (l ++ l') (l.length + i) xs = l ++ splice l' i xs := by
  unfold splice
  rw [take_length_add_append, add_assoc, drop_length_add_append]
  simp only [append_assoc]

lemma read_write_apart {a : Nat} (h : ∀ x, a ≤ x → x < a + n → ¬ (b ≤ x ∧ x < b + xs.length)) :
    read (write mem b xs) a n = read mem a n := by
  apply map_congr_left
  intro i hi
  rw [mem_range] at hi
  exact write_beyond mem (h (a + i) (by omega) (by omega))

lemma read_write_splice {a k : Nat} (h : k + xs.length ≤ n) :
    read (write mem (a + k) xs) a n = splice (read mem a n) k xs := by
  obtain ⟨m, rfl⟩ := Nat.exists_eq_add_of_le h
  have hf : read (write mem (a + k) xs) a (k + xs.length) = read mem a k ++ xs := by
    rw [read_write_after mem a k xs (le_rfl), take_of_length_le (by simp)]
  have hr : read (write mem (a + k) xs) (a + (k + xs.length)) m = read mem (a + (k + xs.length)) m :=
    read_write_apart mem fun x hl _ => by omega
  have hd : k + xs.length + m - (k + xs.length) = m := by omega
  rw [read_add, hf, hr, splice, take_read mem a (by omega), drop_read, hd]

lemma payload_write_apart (h : ∀ s ∈ segs, ∀ x, s.Covers x → ¬ (b ≤ x ∧ x < b + xs.length)) :
    payload (write mem b xs) segs = payload mem segs := by
  induction segs with
  | nil => rfl
  | cons s segs ih =>
    rw [payload_cons, payload_cons, ih fun t ht => h t (mem_cons_of_mem _ ht),
      read_write_apart mem fun x hl hh => h s mem_cons_self x ⟨hl, hh⟩]

end Memory
