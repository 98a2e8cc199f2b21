import RadosNkv.Library.Dict
import RadosNkv.Library.Exchange
import RadosNkv.Rpc

/-! The table of the executor's in-memory backend (`nkvx_executor.c`), which serves the base verbs
where there is no cluster. -/

namespace RadosNkv

open List Dict Exchange

def nkvxMemMaxObjs : Nat := 64

def memOidSize : Nat := 255 * 2 + 1

structure MemStore where
  objs : Dict Bytes Bytes
  length_le : objs.entries.length ≤ nkvxMemMaxObjs

variable (m : MemStore)

namespace MemStore

def empty : MemStore := ⟨.empty, Nat.zero_le _⟩

def get (m : MemStore) (oid : Bytes) : Option Bytes := m.objs.get oid

lemma nodup_swapRemove (h : i < m.objs.entries.length) :
    ((swapRemove m.objs.entries i).map Prod.fst).Nodup :=
  ((swapRemove_perm h).map Prod.fst).nodup_iff.mpr
    (m.objs.nodup.sublist ((eraseIdx_sublist _ i).map Prod.fst))

def compact (m : MemStore) (i : Nat) (h : i < m.objs.entries.length) : MemStore where
  objs := ⟨swapRemove m.objs.entries i, m.nodup_swapRemove h⟩
  length_le := by
    rw [(swapRemove_perm h).length_eq]
    exact Nat.le_trans (eraseIdx_sublist _ i).length_le m.length_le

lemma get_compact (h : i < m.objs.entries.length) (oid : Bytes) :
    (m.compact i h).get oid = if oid = (m.objs.entries.get ⟨i, h⟩).1 then none else m.get oid := by
  have hp := ((swapRemove_perm h).cons _).trans (getElem_cons_eraseIdx_perm h)
  have hd := (hp.map Prod.fst).nodup_iff.mpr m.objs.nodup
  split
  · next he =>
    -- the entry was the only one of its oid
    refine get_eq_none.mpr ?_
    rw [he]
    exact (nodup_cons.mp hd).1
  next hn =>
  unfold get
  ext value
  rw [← mem_entries, ← mem_entries, ← hp.mem_iff, mem_cons]
  exact (or_iff_right fun he => hn (congrArg Prod.fst he)).symm

lemma length_putEntry {es : List (Bytes × Bytes)} : (putEntry oid value es).length ≤ es.length + 1 ∧
      (oid ∈ es.map Prod.fst → (putEntry oid value es).length = es.length) := by
  induction es with
  | nil => exact ⟨le_rfl, fun h => absurd h (by simp)⟩
  | cons e es ih =>
    rw [putEntry]
    split
    · exact ⟨Nat.le_succ _, fun _ => rfl⟩
    next hn =>
    refine ⟨Nat.succ_le_succ ih.1, fun h => congrArg Nat.succ (ih.2 ?_)⟩
    exact (mem_cons.mp h).resolve_left (fun he => hn he.symm)

def put (m : MemStore) (oid value : Bytes) : Option MemStore :=
  if h : (m.objs.get oid).isSome then
    some ⟨m.objs.insert oid value, (length_putEntry.2 (Dict.mem_keys.mpr h)).symm ▸ m.length_le⟩
  else if h : m.objs.entries.length < nkvxMemMaxObjs then
    some ⟨m.objs.insert oid value, Nat.le_trans length_putEntry.1 h⟩
  else none

lemma get_put {m m' : MemStore} (h : m.put oid value = some m') (oid' : Bytes) :
    m'.get oid' = if oid' = oid then some value else m.get oid' := by
  unfold put at h
  split_ifs at h
  all_goals
    cases h
    exact get_insert ..

def sorted (m : MemStore) : MemStore where
  objs := m.objs.reorder (sort (fun a b => b.1 < a.1) m.objs.entries) (sort_perm _ _)
  length_le := (sort_perm _ m.objs.entries).length_eq.symm ▸ m.length_le

@[simp] lemma get_sorted : m.sorted.get = m.get := funext fun oid =>
  get_reorder m.objs _ (sort_perm ..) oid

end MemStore

def nkvxMemFind (m : MemStore) (oid : Bytes) : Option Bytes := m.get oid

def nkvxMemDel (m : MemStore) (oid : Bytes) : MemStore × Bool :=
  if h : m.objs.entries.findIdx (fun e => e.1 = oid) < m.objs.entries.length then (m.compact _ h, true)
  else (m, false)

lemma nkvxMemDel_spec (oid : Bytes) : (nkvxMemDel m oid).2 = (m.get oid).isSome ∧
    ∀ oid', (nkvxMemDel m oid).1.get oid' = if oid' = oid then none else m.get oid' := by
  have hi : m.objs.entries.findIdx (fun e => e.1 = oid) < m.objs.entries.length ↔ (m.get oid).isSome := by
    rw [findIdx_lt_length, MemStore.get, ← Dict.mem_keys]
    simp only [Dict.keys, mem_map, decide_eq_true_eq]
  unfold nkvxMemDel
  split
  · next h =>
    have hk : (m.objs.entries.get ⟨_, h⟩).1 = oid := by simpa using findIdx_getElem (w := h)
    exact ⟨(hi.mp h).symm, fun oid' => by rw [MemStore.get_compact, hk]⟩
  next h =>
  have ha : m.get oid = none := by simpa using mt hi.mpr h
  refine ⟨by rw [ha]; rfl, fun oid' => ?_⟩
  split
  · next he => rw [he, ha]
  · rfl

end RadosNkv
