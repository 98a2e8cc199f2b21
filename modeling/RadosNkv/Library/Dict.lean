import Mathlib.Algebra.Order.Ring.Nat
import Mathlib.Data.List.Basic
import Mathlib.Data.List.Nodup

/-! Dictionaries that keep the order in which their keys were first inserted. -/

structure Dict (κ ν : Type*) where
  entries : List (κ × ν)
  nodup : (entries.map Prod.fst).Nodup

namespace Dict

open List Prod

variable {κ ν μ : Type*} [DecidableEq κ]

def putEntry (k : κ) (v : ν) : List (κ × ν) → List (κ × ν)
  | [] => [(k, v)]
  | e :: es => if e.1 = k then (k, v) :: es else e :: putEntry k v es

variable {es : List (κ × ν)}

lemma mem_keys_putEntry : a ∈ (putEntry k v es).map fst ↔ a = k ∨ a ∈ es.map fst := by
  induction es with
  | nil => simp [putEntry]
  | cons e es ih =>
    simp only [putEntry]
    split
    · next h =>
      subst h
      simp
    simp only [map_cons, mem_cons, ih]
    tauto

lemma nodup_putEntry (h : (es.map fst).Nodup) : ((putEntry k v es).map fst).Nodup := by
  induction es with
  | nil => simp [putEntry]
  | cons e es ih =>
    obtain ⟨hn, ht⟩ := nodup_cons.mp h
    simp only [putEntry]
    split
    · next he =>
      subst he
      exact h
    next hne =>
    refine nodup_cons.mpr ⟨fun hm => ?_, ih ht⟩
    rcases mem_keys_putEntry.mp hm with he | hm
    · exact hne he
    · exact hn hm

def empty : Dict κ ν := ⟨[], nodup_nil⟩

instance : Inhabited (Dict κ ν) := ⟨empty⟩

section

variable (d : Dict κ ν)

def keys : List κ := d.entries.map Prod.fst

def get (k : κ) : Option ν := (d.entries.find? fun e => e.1 = k).map Prod.snd

def contains (k : κ) : Bool := (d.get k).isSome

def insert (k : κ) (v : ν) : Dict κ ν := ⟨putEntry k v d.entries, nodup_putEntry d.nodup⟩

def erase (k : κ) : Dict κ ν :=
  ⟨d.entries.filter fun e => e.1 ≠ k, d.nodup.sublist (filter_sublist.map _)⟩

end

instance [DecidableEq ν] : DecidableEq (Dict κ ν) := fun d d' =>
  decidable_of_iff (d.entries = d'.entries) ⟨fun h => by cases d; cases d'; cases h; rfl, fun h => h ▸ rfl⟩

variable {d : Dict κ ν}

@[simp] lemma get_empty (k : κ) : (empty : Dict κ ν).get k = none := rfl

omit [DecidableEq κ] in
lemma nodup_keys (d : Dict κ ν) : d.keys.Nodup := d.nodup

lemma mem_keys : k ∈ d.keys ↔ (d.get k).isSome := by
  simp [keys, get]

lemma get_eq_none : d.get k = none ↔ k ∉ d.keys := by
  rw [mem_keys, Bool.not_eq_true, Option.isSome_eq_false_iff, Option.isNone_iff_eq_none]

lemma mem_entries : (k, v) ∈ d.entries ↔ d.get k = some v := by
  obtain ⟨es, hn⟩ := d
  simp only [get]
  induction es with
  | nil => simp
  | cons e es ih =>
    obtain ⟨hw, ht⟩ := nodup_cons.mp hn
    rw [find?_cons]
    by_cases h : e.1 = k
    · subst h
      have ho : (e.1, v) ∉ es := fun hm => hw (mem_map.mpr ⟨_, hm, rfl⟩)
      simp [ho, Prod.ext_iff, eq_comm]
    have hne : (k, v) ≠ e := fun he => h (he ▸ rfl)
    simp [h, hne, ih ht]

section

variable (d : Dict κ ν)

@[simp] lemma get_insert_self (k : κ) (v : ν) : (d.insert k v).get k = some v := by
  obtain ⟨es, hn⟩ := d
  simp only [get, insert]
  clear hn
  induction es with
  | nil => simp [putEntry]
  | cons e es ih =>
    simp only [putEntry]
    split
    · simp
    next h =>
    rw [find?_cons_of_neg (by simpa using h)]
    exact ih

lemma get_insert_ne (v : ν) (h : k' ≠ k) : (d.insert k v).get k' = d.get k' := by
  obtain ⟨es, hn⟩ := d
  simp only [get, insert]
  clear hn
  induction es with
  | nil => simp [putEntry, h.symm]
  | cons e es ih =>
    simp only [putEntry]
    split
    · next he =>
      rw [find?_cons_of_neg (by simpa using h.symm), find?_cons_of_neg (by simpa [he] using h.symm)]
    rw [find?_cons, find?_cons]
    split
    · rfl
    · exact ih

lemma get_insert (k k' : κ) (v : ν) : (d.insert k v).get k' = if k' = k then some v else d.get k' := by
  split
  · next h => rw [h, get_insert_self]
  · next h => rw [get_insert_ne d v h]

lemma get_erase (k k' : κ) : (d.erase k).get k' = if k' = k then none else d.get k' := by
  split
  · next h =>
    subst h
    rw [get_eq_none]
    simp [keys, erase]
  next h =>
  simp only [get, erase]
  congr 1
  induction d.entries with
  | nil => rfl
  | cons e es ih =>
    by_cases he : e.1 = k
    · have hn : ¬ e.1 = k' := fun hq => h (hq ▸ he)
      rw [filter_cons_of_neg (by simpa using he), find?_cons_of_neg (by simpa using hn), ih]
    · rw [filter_cons_of_pos (by simpa using he), find?_cons, find?_cons, ih]

def reorder (es : List (κ × ν)) (h : es.Perm d.entries) : Dict κ ν :=
  ⟨es, (h.map Prod.fst).nodup_iff.mpr d.nodup⟩

@[simp] lemma get_reorder (es : List (κ × ν)) (h : es.Perm d.entries) (k : κ) :
    (d.reorder es h).get k = d.get k := by
  ext v
  rw [← mem_entries, ← mem_entries]
  exact h.mem_iff

end

lemma mem_keys_insert : k' ∈ (d.insert k v).keys ↔ k' = k ∨ k' ∈ d.keys := mem_keys_putEntry

lemma get_foldl_insert (hd : (es.map Prod.fst).Nodup) (d : Dict κ ν) :
    (es.foldl (fun d e => d.insert e.1 e.2) d).get k = some v ↔
      (k, v) ∈ es ∨ k ∉ es.map Prod.fst ∧ d.get k = some v := by
  induction es generalizing d with
  | nil => simp
  | cons e es ih =>
    obtain ⟨hn, ht⟩ := nodup_cons.mp hd
    rw [foldl_cons, ih ht, get_insert]
    by_cases hk : k = e.1
    · subst hk
      have ho : (e.1, v) ∉ es := fun hm => hn (mem_map.mpr ⟨_, hm, rfl⟩)
      simp [hn, ho, Prod.ext_iff, eq_comm]
    · simp [hk, Prod.ext_iff]

lemma keys_insert (d : Dict κ ν) (k : κ) (v : ν) :
    (d.insert k v).keys = if k ∈ d.keys then d.keys else d.keys ++ [k] := by
  have hp : ∀ es : List (κ × ν), (putEntry k v es).map fst =
      if k ∈ es.map fst then es.map fst else es.map fst ++ [k] := by
    intro es
    induction es with
    | nil => rfl
    | cons e es ih =>
      rw [putEntry]
      by_cases he : e.1 = k
      · simp [he]
      have hk : ¬ k = e.1 := fun h => he h.symm
      rw [if_neg he, map_cons, map_cons, ih]
      by_cases hm : k ∈ es.map fst
      · rw [if_pos hm, if_pos (mem_cons_of_mem _ hm)]
      · rw [if_neg hm, if_neg (by simpa [hk] using hm), cons_append]
  exact hp d.entries

end Dict
