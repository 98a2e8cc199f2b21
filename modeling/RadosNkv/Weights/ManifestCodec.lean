import Mathlib.Data.List.Perm.Subperm
import RadosNkv.Weights.Manifest

/-! What `from_ipc` reads from the table of a manifest: the manifest again if no precision has a
comma in its name, and no manifest otherwise. -/

namespace RadosNkv

namespace Weights

namespace WeightManifest

open List Variant

variable {ε α β : Type} {xs : List α} {p : Str} {m : WeightManifest} {f : α → Except ε β}

lemma mapM_eq_ok (h : ∀ x ∈ xs, f x = .ok (g x)) : xs.mapM f = .ok (xs.map g) := by
  induction xs with
  | nil => rfl
  | cons x xs ih =>
    rw [mapM_cons, h x (mem_cons_self ..), ih fun y hy => h y (mem_cons_of_mem _ hy)]
    rfl

lemma exists_of_mapM (h : xs.mapM f = .ok ys) : ∀ x ∈ xs, ∃ y, f x = .ok y := by
  induction xs generalizing ys with
  | nil => exact fun x hx => absurd hx not_mem_nil
  | cons x xs ih =>
    rw [mapM_cons] at h
    obtain ⟨y, hy, h⟩ := bind_eq_ok.mp h
    obtain ⟨ys, hs, -⟩ := bind_eq_ok.mp h
    intro z hz
    rcases mem_cons.mp hz with rfl | hz
    · exact ⟨y, hy⟩
    · exact ih hs z hz

lemma exists_of_foldlM {f : β → α → Except ε β} (h : xs.foldlM f b = .ok b') :
    ∀ x ∈ xs, ∃ c c', f c x = .ok c' := by
  induction xs generalizing b with
  | nil => exact fun x hx => absurd hx not_mem_nil
  | cons x xs ih =>
    rw [foldlM_cons] at h
    obtain ⟨c, hc, h⟩ := bind_eq_ok.mp h
    intro z hz
    rcases mem_cons.mp hz with rfl | hz
    · exact ⟨b, c, hc⟩
    · exact ih h z hz

def suffixes : List Str :=
  [dtypeSuffix, ['_', '_', 'k', 'e', 'y', 's'], ['_', '_', 'o', 'f', 'f', 's', 'e', 't', 's'],
    ['_', '_', 's', 'i', 'z', 'e', 's']]

lemma append_suffix_inj (hs : s ∈ suffixes) (ht : t ∈ suffixes) (h : p ++ s = q ++ t) :
    p = q ∧ s = t := by
  have ha : ∀ s ∈ suffixes, ∀ t ∈ suffixes, s <:+ t → s = t := by decide
  have hst : s = t := by
    rcases suffix_or_suffix_of_suffix (suffix_append p s) (h ▸ suffix_append q t) with hl | hl
    · exact ha s hs t ht hl
    · exact (ha t ht s hs hl).symm
  subst hst
  exact ⟨append_cancel_right h, rfl⟩

def columnsOf (p : Str) : List Str := suffixes.map fun s => p ++ s

lemma columnNames_precisionColumns (m : WeightManifest) (p : Str) :
    (m.precisionColumns p).map Prod.fst = columnsOf p := rfl

lemma nodup_columnsOf (p : Str) : (columnsOf p).Nodup :=
  (show suffixes.Nodup by decide).map fun _ _ h => append_cancel_left h

lemma disjoint_columnsOf (h : p ≠ q) : List.Disjoint (columnsOf p) (columnsOf q) := by
  intro c hp hq
  obtain ⟨s, hs, rfl⟩ := mem_map.mp hp
  obtain ⟨t, ht, he⟩ := mem_map.mp hq
  exact h (append_suffix_inj ht hs he).1.symm

lemma columnNames_toTable (m : WeightManifest) :
    m.toTable.columnNames = tensorNameCol :: shapeCol :: m.precisions.flatMap columnsOf := by
  simp [Table.columnNames, toTable, map_flatMap, columnNames_precisionColumns]

lemma nodup_columnNames (m : WeightManifest) : m.toTable.columnNames.Nodup := by
  have hf : ∀ c ∈ [tensorNameCol, shapeCol], ∀ s ∈ suffixes, ¬ s <:+ c := by decide
  have ho : ∀ c ∈ [tensorNameCol, shapeCol], c ∉ m.precisions.flatMap columnsOf := by
    intro c hc hm
    obtain ⟨p, -, hp⟩ := mem_flatMap.mp hm
    obtain ⟨s, hs, rfl⟩ := mem_map.mp hp
    exact hf _ hc s hs (suffix_append p s)
  have hg : (m.precisions.flatMap columnsOf).Nodup :=
    nodup_flatMap.mpr ⟨fun p _ => nodup_columnsOf p, m.nodup.imp fun h => disjoint_columnsOf h⟩
  rw [columnNames_toTable, nodup_cons, nodup_cons, mem_cons, not_or]
  exact ⟨⟨by decide, ho _ (by simp)⟩, ho _ (by simp), hg⟩

lemma filter_columns {columns : List (Str × Column)} (hn : (columns.map Prod.fst).Nodup)
    (h : (name, c) ∈ columns) : (columns.filter fun d => d.1 = name) = [(name, c)] := by
  induction columns with
  | nil => exact absurd h not_mem_nil
  | cons d columns ih =>
    obtain ⟨hw, ht⟩ := nodup_cons.mp hn
    rcases mem_cons.mp h with rfl | hm
    · have hr : (columns.filter fun d => d.1 = name) = [] := by
        rw [filter_eq_nil_iff]
        intro d hd he
        exact hw (mem_map.mpr ⟨d, hd, by simpa using he⟩)
      rw [filter_cons_of_pos (by simp), hr]
    have hne : d.1 ≠ name := fun he => hw (he ▸ mem_map.mpr ⟨_, hm, rfl⟩)
    rw [filter_cons_of_neg (by simpa using hne), ih ht hm]

lemma column_toTable (h : (name, c) ∈ m.toTable.columns) : m.toTable.column name = .ok c := by
  simp only [Table.column, filter_columns m.nodup_columnNames h]

lemma mem_precisions_of_column (h : m.toTable.column (dtypeCol p) = .ok c) : p ∈ m.precisions := by
  have hm : dtypeCol p ∈ m.toTable.columnNames := by
    by_contra ho
    have hn : (m.toTable.columns.filter fun d => d.1 = dtypeCol p) = [] := by
      rw [filter_eq_nil_iff]
      intro d hd he
      exact ho (mem_map.mpr ⟨d, hd, by simpa using he⟩)
    simp only [Table.column, hn, reduceCtorEq] at h
  have hx : ∀ c ∈ [tensorNameCol, shapeCol], ¬ dtypeSuffix <:+ c := by decide
  have hf : dtypeSuffix <:+ dtypeCol p := suffix_append p _
  rw [columnNames_toTable, mem_cons, mem_cons] at hm
  rcases hm with he | he | hm
  · exact absurd (he ▸ hf) (hx _ (by simp))
  · exact absurd (he ▸ hf) (hx _ (by simp))
  obtain ⟨q, hq, hc⟩ := mem_flatMap.mp hm
  obtain ⟨s, hs, he⟩ := mem_map.mp hc
  rw [← (append_suffix_inj hs (by simp [suffixes]) he).1]
  exact hq

def groupOf (m : WeightManifest) (p : Str) : Table.Group where
  dtypes := m.cells p dtype
  keys := m.cells p keys
  offsets := some (m.cells p offsets)
  sizes := m.cells p sizes

lemma strings_tensorName (m : WeightManifest) : m.toTable.strings tensorNameCol = .ok m.rows.keys := by
  have hc : m.toTable.column tensorNameCol = .ok (.strings m.rows.keys) := column_toTable (by simp [toTable])
  simp only [Table.strings, hc]
  rfl

lemma ints_shape (m : WeightManifest) : m.toTable.ints shapeCol = .ok (m.rows.entries.map fun e => some e.2.shape) := by
  have hc : m.toTable.column shapeCol = .ok (.ints (m.rows.entries.map fun e => some e.2.shape)) :=
    column_toTable (by simp [toTable])
  simp only [Table.ints, hc]
  rfl

lemma group_toTable (hp : p ∈ m.precisions) : m.toTable.group p = .ok (m.groupOf p) := by
  have hm : ∀ c ∈ m.precisionColumns p, c ∈ m.toTable.columns := by
    intro c hc
    exact mem_cons_of_mem _ (mem_cons_of_mem _ (mem_flatMap.mpr ⟨p, hp, hc⟩))
  have hd := column_toTable (hm (dtypeCol p, .strings (m.cells p dtype)) (by simp [precisionColumns]))
  have hk := column_toTable (hm (keysCol p, .binaries (m.cells p keys)) (by simp [precisionColumns]))
  have ho := column_toTable (hm (offsetsCol p, .ints (m.cells p offsets)) (by simp [precisionColumns]))
  have hs := column_toTable (hm (sizesCol p, .ints (m.cells p sizes)) (by simp [precisionColumns]))
  have hn : offsetsCol p ∈ m.toTable.columnNames :=
    mem_map.mpr ⟨_, hm (offsetsCol p, .ints (m.cells p offsets)) (by simp [precisionColumns]), rfl⟩
  simp only [Table.group, Table.strings, Table.binaries, Table.ints, Table.offsets, if_pos hn, hd, hk, ho, hs]
  rfl

lemma mem_precisions_of_group (h : m.toTable.group p = .ok g) : p ∈ m.precisions := by
  obtain ⟨offsets, -, h⟩ := bind_eq_ok.mp h
  obtain ⟨dtypes, hd, -⟩ := bind_eq_ok.mp h
  obtain ⟨c, hc, -⟩ := bind_eq_ok.mp hd
  exact mem_precisions_of_column hc

/-! ### The cells of a row -/

variable {ps : List Str}

section

variable {m : WeightManifest} {i : Nat} {name : Name} {row : Row}

section

variable (h : m.rows.entries[i]? = some (name, row))
include h

lemma rows_get : m.rows.get name = some row :=
  Dict.mem_entries.mp (mem_of_getElem? h)

lemma nth_cells {α : Type} (p : Str) (f : Variant → α) : nth (m.cells p f) i = .ok ((m.variantOf name p).map f) := by
  simp [nth, cells, h, variantOf, variantIn, rows_get h]

lemma addCell_groupOf (shape : List (Option Int)) (m' : WeightManifest) (p : Str) :
    addCell i name shape m' (p, m.groupOf p) =
      match m.variantOf name p with
      | none => .ok m'
      | some v => m'.addTensor name p v.dtype shape v.keys v.sizes (some v.offsets) := by
  simp only [addCell, groupOf, offsetsAt, nth_cells h]
  cases m.variantOf name p with
  | none => rfl
  | some v => rfl

end

structure ReadSoFar (m : WeightManifest) (S : Name → Str → Prop) (m' : WeightManifest) : Prop where
  read : ∀ n p, S n p → m'.variantOf n p = m.variantOf n p
  rest : ∀ n p, ¬ S n p → m'.variantOf n p = none
  shape : ∀ n s, m'.shapeOf n = some s → m.shapeOf n = some s

lemma readSoFar_empty (m : WeightManifest) : ReadSoFar m (fun _ _ => False) empty where
  read := fun _ _ h => h.elim
  rest := fun _ _ _ => rfl
  shape := fun _ _ h => (nomatch h)

variable {S : Name → Str → Prop} {m' : WeightManifest}

lemma ReadSoFar.congr (h : ReadSoFar m S m') (hST : ∀ n p, S n p ↔ T n p) :
    ReadSoFar m T m' := by
  have he : S = T := funext fun n => funext fun p => propext (hST n p)
  exact he ▸ h

lemma ReadSoFar.same (h : ReadSoFar m S m') (ha : ∀ n p v, m.variantOf n p = some v → S n p) : m'.Same m where
  variant := by
    intro n p
    by_cases hS : S n p
    · exact h.read n p hS
    rw [h.rest n p hS]
    cases hv : m.variantOf n p with
    | none => rfl
    | some v => exact absurd (ha n p v hv) hS
  shape := by
    intro n
    cases hs : m.shapeOf n with
    | none =>
      cases hs' : m'.shapeOf n with
      | none => rfl
      | some s => rw [h.shape n s hs'] at hs; cases hs
    | some s =>
      obtain ⟨p, v, hv⟩ := exists_variantOf hs
      have hr := h.read n p (ha n p v hv)
      obtain ⟨s', hs'⟩ := shapeOf_isSome (hr.trans hv)
      rw [hs', ← hs, h.shape n s' hs']

lemma ReadSoFar.addCell (h : ReadSoFar m S m') (hr : m.rows.entries[i]? = some (name, row))
    (he : ¬ S name p) :
    ∃ m'', WeightManifest.addCell i name row.shape m' (p, m.groupOf p) = .ok m'' ∧
      ReadSoFar m (fun n q => S n q ∨ n = name ∧ q = p) m'' := by
  have hh : m.shapeOf name = some row.shape := by simp [shapeOf, shapeIn, rows_get hr]
  rw [addCell_groupOf hr]
  cases hv : m.variantOf name p with
  | none =>
    refine ⟨m', rfl, ⟨?_, fun n q hq => h.rest n q fun hS => hq (.inl hS), h.shape⟩⟩
    rintro n q (hS | ⟨rfl, rfl⟩)
    · exact h.read n q hS
    · rw [h.rest n q he, hv]
  | some v =>
    refine ⟨_, addTensor_eq_ok.mpr ⟨v, rfl, rfl, rfl, rfl, ?_, h.rest name p he, rfl⟩, ⟨?_, ?_, ?_⟩⟩
    · intro s hs
      rw [h.shape name s hs] at hh
      exact Option.some.inj hh
    · rintro n q (hS | ⟨rfl, rfl⟩)
      · rw [variantOf_record, if_neg (fun hp : n = name ∧ q = p => he (hp.1 ▸ hp.2 ▸ hS)), h.read n q hS]
      · rw [variantOf_record, if_pos ⟨rfl, rfl⟩, hv]
    · intro n q hq
      rw [variantOf_record, if_neg (fun hp => hq (.inr hp)), h.rest n q fun hS => hq (.inl hS)]
    intro n s hs
    rw [shapeOf_record] at hs
    split at hs
    · next hn =>
      subst hn
      cases hold : m'.shapeOf n with
      | none =>
        rw [hold] at hs
        exact hh.trans hs
      | some t =>
        rw [hold] at hs
        exact (h.shape n t hold).trans hs
    · exact h.shape n s hs

lemma ReadSoFar.addCells (ps : List Str) (h : ReadSoFar m S m') (hr : m.rows.entries[i]? = some (name, row))
    (hs : ps.Nodup) (hn : ∀ p ∈ ps, ¬ S name p) :
    ∃ m'', (ps.map fun p => (p, m.groupOf p)).foldlM (WeightManifest.addCell i name row.shape) m' = .ok m'' ∧
      ReadSoFar m (fun n q => S n q ∨ n = name ∧ q ∈ ps) m'' := by
  induction ps generalizing S m' with
  | nil => exact ⟨m', rfl, h.congr (by simp)⟩
  | cons p ps ih =>
    obtain ⟨hp, hs⟩ := nodup_cons.mp hs
    obtain ⟨m1, hm1, h1⟩ := h.addCell hr (hn p (mem_cons_self ..))
    have hn1 : ∀ q ∈ ps, ¬ (S name q ∨ name = name ∧ q = p) := by
      rintro q hq (hS | ⟨-, rfl⟩)
      · exact hn q (mem_cons_of_mem _ hq) hS
      · exact hp hq
    obtain ⟨m2, hm2, h2⟩ := ih h1 hs hn1
    refine ⟨m2, ?_, h2.congr fun n q => ?_⟩
    · rw [map_cons, foldlM_cons, hm1]
      exact hm2
    simp only [mem_cons]
    tauto

lemma ReadSoFar.addRows (h : ReadSoFar m S m') (hp : ps.Nodup)
    (hd : m.rows.entries.drop i = entries) (hn : ∀ e ∈ entries, ∀ p, ¬ S e.1 p) :
    ∃ m'', ((entries.map Prod.fst).zipIdx i).foldlM
        (WeightManifest.addRow (m.rows.entries.map fun e => some e.2.shape) (ps.map fun p => (p, m.groupOf p))) m' =
          .ok m'' ∧ ReadSoFar m (fun n q => S n q ∨ n ∈ entries.map Prod.fst ∧ q ∈ ps) m'' := by
  induction entries generalizing S m' i with
  | nil => exact ⟨m', rfl, h.congr (by simp)⟩
  | cons e entries ih =>
    have hr : m.rows.entries[i]? = some (e.1, e.2) := by
      rw [← head?_drop, hd]
      rfl
    have hnd : ((e :: entries).map Prod.fst).Nodup := by
      rw [← hd]
      exact m.rows.nodup.sublist ((drop_sublist i _).map _)
    obtain ⟨m1, hm1, h1⟩ := h.addCells ps hr hp fun p _ => hn e (mem_cons_self ..) p
    have hn1 : ∀ e' ∈ entries, ∀ p, ¬ (S e'.1 p ∨ e'.1 = e.1 ∧ p ∈ ps) := by
      rintro e' he' p (hS | ⟨he, -⟩)
      · exact hn e' (mem_cons_of_mem _ he') p hS
      · exact (nodup_cons.mp hnd).1 (he ▸ mem_map_of_mem he')
    have hd1 : m.rows.entries.drop (i + 1) = entries := by
      rw [← tail_drop, hd]
      rfl
    obtain ⟨m2, hm2, h2⟩ := ih h1 hd1 hn1
    refine ⟨m2, ?_, h2.congr fun n q => ?_⟩
    · have hs : nth (m.rows.entries.map fun e => some e.2.shape) i = .ok (some e.2.shape) := by
        simp [nth, hr]
      rw [map_cons, zipIdx_cons, foldlM_cons, addRow]
      simp only [hs]
      exact bind_eq_ok.mpr ⟨m1, hm1, hm2⟩
    simp only [map_cons, mem_cons]
    tauto

end

def CommaFree (m : WeightManifest) : Prop := ∀ p ∈ m.precisions, ',' ∉ p

instance (m : WeightManifest) : Decidable m.CommaFree := inferInstanceAs (Decidable (∀ p ∈ m.precisions, _))

def readPrecisions (m : WeightManifest) : List Str :=
  if [','].intercalate m.precisions = [] then m.precisions else ([','].intercalate m.precisions).splitOn ','

lemma precisions_of_columns (m : WeightManifest) :
    ((m.toTable.columnNames.filter fun c => dtypeSuffix.isSuffixOf c).map fun c => c.rdrop dtypeSuffix.length) =
      m.precisions := by
  have hg : ∀ p : Str, ((columnsOf p).filter fun c => dtypeSuffix.isSuffixOf c) = [dtypeCol p] := by
    intro p
    have hi : ∀ s ∈ suffixes, dtypeSuffix.isSuffixOf (p ++ s) = decide (s = dtypeSuffix) := by
      intro s hs
      rw [Bool.eq_iff_iff, isSuffixOf_iff_suffix, decide_eq_true_iff]
      constructor
      · rintro ⟨q, hq⟩
        exact (append_suffix_inj (by simp [suffixes]) hs hq).2.symm
      rintro rfl
      exact suffix_append p _
    have hl : (suffixes.filter fun s => decide (s = dtypeSuffix)) = [dtypeSuffix] := by decide
    have hc : (suffixes.filter ((fun c => dtypeSuffix.isSuffixOf c) ∘ fun s => p ++ s)) = [dtypeSuffix] := by
      rw [← hl]
      exact filter_congr hi
    rw [columnsOf, filter_map, hc]
    rfl
  have hf : ([tensorNameCol, shapeCol].filter fun c => dtypeSuffix.isSuffixOf c) = [] := by decide
  have hp : m.toTable.columnNames = [tensorNameCol, shapeCol] ++ m.precisions.flatMap columnsOf :=
    m.columnNames_toTable
  rw [hp, filter_append, hf, nil_append, filter_flatMap]
  simp only [hg, map_flatMap, map_cons, map_nil, dtypeCol, rdrop_append_length]
  exact flatMap_singleton' m.precisions

lemma precisions_toTable (m : WeightManifest) : m.toTable.precisions = .ok m.readPrecisions := by
  have hg : m.toTable.metadata.get precisionsMeta = some (utf8Encode ([','].intercalate m.precisions)) :=
    Dict.get_insert_self ..
  have hd := utf8Decode_utf8Encode ([','].intercalate m.precisions)
  simp only [Table.precisions, hg, Option.getD_some, readPrecisions, precisions_of_columns]
  cases hr : utf8Encode ([','].intercalate m.precisions) with
  | nil =>
    rw [hr] at hd
    rw [if_pos (Option.some.inj hd).symm]
  | cons b raw =>
    rw [hr] at hd
    have hn : [','].intercalate m.precisions ≠ [] := by
      intro h
      rw [h] at hr
      cases hr
    simp only [hd, if_neg hn]

lemma readPrecisions_of_commaFree (h : m.CommaFree) : m.readPrecisions = m.precisions := by
  unfold readPrecisions
  split
  · rfl
  next he =>
  refine splitOn_intercalate ',' h fun hn => he ?_
  rw [hn]
  rfl

lemma fromTable_toTable (h : m.CommaFree) : ∃ m', fromTable m.toTable = .ok m' ∧ m'.Same m := by
  have hg : (m.precisions.mapM fun p => do pure (p, ← m.toTable.group p)) =
      (.ok (m.precisions.map fun p => (p, m.groupOf p)) : Except Exn _) :=
    mapM_eq_ok fun p hp => by rw [group_toTable hp]; rfl
  obtain ⟨m', hm', hd⟩ := (readSoFar_empty m).addRows m.nodup (drop_zero (l := m.rows.entries))
    (fun _ _ _ => id)
  refine ⟨m', ?_, hd.same ?_⟩
  · simp only [fromTable, precisions_toTable, readPrecisions_of_commaFree h, strings_tensorName, ints_shape]
    refine bind_eq_ok.mpr ⟨_, rfl, bind_eq_ok.mpr ⟨_, rfl, bind_eq_ok.mpr ⟨_, rfl, bind_eq_ok.mpr ⟨_, hg, hm'⟩⟩⟩⟩
  intro n p v hv
  refine .inr ⟨?_, mem_precisions.mpr ⟨n, v, hv⟩⟩
  obtain ⟨row, hr, -⟩ := Option.bind_eq_some_iff.mp hv
  exact mem_map.mpr ⟨_, Dict.mem_entries.mpr hr, rfl⟩

lemma splitOn_intercalate_flatMap (h : ps ≠ []) :
    ([','].intercalate ps).splitOn ',' = ps.flatMap fun p => p.splitOn ',' := by
  induction ps with
  | nil => exact absurd rfl h
  | cons p ps ih =>
    cases ps with
    | nil => simp
    | cons q ps =>
      have hj : [','].intercalate (p :: q :: ps) = p ++ ',' :: [','].intercalate (q :: ps) := by
        simp [intercalate_cons_cons]
      rw [hj, splitOn_append_cons_self, ih (cons_ne_nil q ps)]
      rfl

lemma commaFree_of_length (h : (ps.flatMap fun p => p.splitOn ',').length ≤ ps.length) : ∀ p ∈ ps, ',' ∉ p := by
  have ho : ∀ p : Str, 1 ≤ (p.splitOn ',').length := fun p =>
    length_pos_iff.mpr (splitOn_ne_nil ',' p)
  have hl : ∀ ps : List Str, ps.length ≤ (ps.flatMap fun p => p.splitOn ',').length := by
    intro ps
    induction ps with
    | nil => exact le_rfl
    | cons p ps ih =>
      have := ho p
      rw [flatMap_cons, length_append, length_cons]
      omega
  induction ps with
  | nil => exact fun p hp => absurd hp not_mem_nil
  | cons p ps ih =>
    have hp := ho p
    have hs := hl ps
    rw [flatMap_cons, length_append, length_cons] at h
    intro q hq
    rcases mem_cons.mp hq with rfl | hq
    · intro hc
      obtain ⟨a, b, rfl⟩ := append_of_mem hc
      have ha := ho a
      have hb := ho b
      rw [splitOn_append_cons_self, length_append] at h
      omega
    · exact ih (by omega) q hq

lemma nodup_of_addCells {qs : List Str} (hr : m.rows.entries[i]? = some (name, row))
    (h : (qs.map fun p => (p, m.groupOf p)).foldlM (addCell i name shape) m' = .ok m'') :
    (∀ q ∈ qs, (m.variantOf name q).isSome → m'.variantOf name q = none) ∧
      (qs.filter fun q => (m.variantOf name q).isSome).Nodup := by
  induction qs generalizing m' with
  | nil => exact ⟨fun q hq => absurd hq not_mem_nil, nodup_nil⟩
  | cons p qs ih =>
    rw [map_cons, foldlM_cons, addCell_groupOf hr] at h
    obtain ⟨m1, hm1, h⟩ := bind_eq_ok.mp h
    obtain ⟨hn, hd⟩ := ih h
    cases hv : m.variantOf name p with
    | none =>
      rw [hv] at hm1
      cases hm1
      rw [filter_cons_of_neg (by simp [hv])]
      refine ⟨fun q hq hs => ?_, hd⟩
      rcases mem_cons.mp hq with rfl | hq
      · rw [hv] at hs
        cases hs
      · exact hn q hq hs
    | some v =>
      rw [hv] at hm1
      obtain ⟨w, -, -, -, -, -, hf, rfl⟩ := addTensor_eq_ok.mp hm1
      -- what the later cells find free was free before, and is not `p`
      have hl : ∀ q ∈ qs, (m.variantOf name q).isSome → q ≠ p ∧ m'.variantOf name q = none := by
        intro q hq hs
        have hq := hn q hq hs
        rw [variantOf_record] at hq
        split at hq
        · cases hq
        · next he => exact ⟨fun heq => he ⟨rfl, heq⟩, hq⟩
      rw [filter_cons_of_pos (by simp [hv])]
      refine ⟨fun q hq hs => ?_, nodup_cons.mpr ⟨fun hp => ?_, hd⟩⟩
      · rcases mem_cons.mp hq with rfl | hq
        · exact hf
        · exact (hl q hq hs).2
      obtain ⟨hp, hs⟩ := mem_filter.mp hp
      exact (hl p hp hs).1 rfl

lemma commaFree_of_fromTable {m' : WeightManifest} (h : fromTable m.toTable = .ok m') : m.CommaFree := by
  simp only [fromTable, precisions_toTable, strings_tensorName, ints_shape] at h
  obtain ⟨_, hqs, h⟩ := bind_eq_ok.mp h
  obtain ⟨_, hnm, h⟩ := bind_eq_ok.mp h
  obtain ⟨_, hh, h⟩ := bind_eq_ok.mp h
  cases hqs
  cases hnm
  cases hh
  obtain ⟨groups, hgr, hf⟩ := bind_eq_ok.mp h
  have hs : ∀ q ∈ m.readPrecisions, q ∈ m.precisions := by
    intro q hq
    obtain ⟨pg, hpg⟩ := exists_of_mapM hgr q hq
    obtain ⟨g, hg, -⟩ := bind_eq_ok.mp hpg
    exact mem_precisions_of_group hg
  have hm : groups = m.readPrecisions.map fun p => (p, m.groupOf p) := by
    have ha : (m.readPrecisions.mapM fun p => do pure (p, ← m.toTable.group p)) =
        (.ok (m.readPrecisions.map fun p => (p, m.groupOf p)) : Except Exn _) :=
      mapM_eq_ok fun p hp => by rw [group_toTable (hs p hp)]; rfl
    rw [ha] at hgr
    exact (Except.ok.inj hgr).symm
  subst hm
  have hd : m.readPrecisions.Nodup := by
    rw [nodup_iff_count_le_one]
    intro q
    by_cases hq : q ∈ m.readPrecisions
    · obtain ⟨n, v, hv⟩ := mem_precisions.mp (hs q hq)
      obtain ⟨row, hr, -⟩ := Option.bind_eq_some_iff.mp hv
      obtain ⟨i, hi⟩ := mem_iff_getElem?.mp (Dict.mem_entries.mpr hr)
      have hme : (n, i) ∈ m.rows.keys.zipIdx := by
        rw [mem_zipIdx_iff_getElem?]
        simp [Dict.keys, hi]
      obtain ⟨m1, m2, hrwO⟩ := exists_of_foldlM hf _ hme
      obtain ⟨shape, -, hl⟩ := bind_eq_ok.mp hrwO
      have hc := nodup_iff_count_le_one.mp (nodup_of_addCells hi hl).2 q
      rwa [count_filter (by simp [hv])] at hc
    rw [count_eq_zero_of_not_mem hq]
    exact Nat.zero_le 1
  refine commaFree_of_length ?_
  by_cases hn : m.precisions = []
  · simp [hn]
  rw [← splitOn_intercalate_flatMap hn]
  by_cases he : [','].intercalate m.precisions = []
  · rw [he]
    exact length_pos_iff.mpr hn
  rw [readPrecisions, if_neg he] at hd hs
  exact (hd.subperm hs).length_le

section

variable {L : Libs} {m m' : WeightManifest}

lemma fromIpc_toIpc (hL : L.Lossless) (hd : m.toIpc L = .ok data) : fromIpc L data = fromTable m.toTable := by
  unfold toIpc at hd
  cases hw : L.write m.toTable with
  | none =>
    rw [hw] at hd
    cases hd
  | some written =>
    rw [hw] at hd
    cases hd
    rw [fromIpc, hL _ _ hw]

lemma exists_fromIpc (hL : L.Lossless) (hd : m.toIpc L = .ok data) (h : m.CommaFree) :
    ∃ m', fromIpc L data = .ok m' ∧ m'.Same m := by
  rw [fromIpc_toIpc hL hd]
  exact fromTable_toTable h

lemma same_of_fromIpc (hL : L.Lossless) (hd : m.toIpc L = .ok data) (h : fromIpc L data = .ok m') :
    m.CommaFree ∧ m'.Same m := by
  rw [fromIpc_toIpc hL hd] at h
  have hf := commaFree_of_fromTable h
  obtain ⟨m'', hm'', hs⟩ := fromTable_toTable hf
  rw [h] at hm''
  cases hm''
  exact ⟨hf, hs⟩

end

end WeightManifest

end Weights

end RadosNkv
