import RadosNkv.Weights.Keys

/-! The Weight manifest (`manifest.py`): built tensor by tensor, written as an Arrow table and read
back. -/

namespace RadosNkv

namespace Weights

open List

abbrev Name := Option Str

/-- The exceptions of the catalog's code, each with what its message says. -/
inductive Exn where
  | arrow
  | client
  | keyError (column : Str)
  | indexError
  | typeError
  | assertionError
  | unicodeDecodeError
  | lengthMismatch (keys offsets sizes : Nat) (tensor : Name)
  | shapeMismatch (tensor : Name) (old new : List (Option Int))
  | alreadyRecorded (precision : Str) (tensor : Name)
  | tensorNotInManifest (tensor : Name)
  | precisionNotPresent (precision : Str) (tensor : Name)
  | maxValueLen (n : Int)
  | manifestNotFound (canonical : Str)
  | precisionNotFound (precision canonical : Str) (available : List Str)
  | missingChunk (key : Bytes) (tensor : Name) (revision precision : Str)
  | integrity (tensor : Name) (revision precision : Str) (key actual : Bytes)
  | sliceOutOfRange (offset stop : Int) (tensor : Name) (key : Bytes) (len : Nat)
  | lengthOfTensor (tensor : Name) (len : Nat) (total : Int)
  | gcUnsafe (unreadable : List Str)
deriving DecidableEq

structure Variant where
  dtype : Str
  keys : List (Option Bytes)
  offsets : List (Option Int)
  sizes : List (Option Int)
  aligned : keys.length = sizes.length ∧ sizes.length = offsets.length

def Variant.slices (v : Variant) : List (Option Bytes × Option Int × Option Int) :=
  v.keys.zip (v.offsets.zip v.sizes)

structure Row where
  shape : List (Option Int)
  variants : Dict Str Variant

section

variable (rows : Dict Name Row)

variable (name : Name)

def rowOr (shape : List (Option Int)) : Row :=
  (rows.get name).getD ⟨shape, .empty⟩

def addVariant (shape : List (Option Int)) (precision : Str) (v : Variant) :
    Dict Name Row :=
  let row := rowOr rows name shape
  rows.insert name { row with variants := row.variants.insert precision v }

def addPrecision (precisions : List Str) (precision : Str) : List Str :=
  if precision ∈ precisions then precisions else precisions ++ [precision]

def variantIn (precision : Str) : Option Variant :=
  (rows.get name).bind fun row => row.variants.get precision

def shapeIn : Option (List (Option Int)) := (rows.get name).map Row.shape

end

section

variable {name n : Name} {shape : List (Option Int)} {precisions : List Str} {precision p : Str}
  {v : Variant}

lemma variantIn_addVariant : variantIn (addVariant rows name shape precision v) n p =
      if n = name ∧ p = precision then some v else variantIn rows n p := by
  simp only [variantIn, addVariant, rowOr, Dict.get_insert]
  by_cases hn : n = name
  · subst hn
    cases hr : rows.get n with
    | none => simp [Dict.get_insert]
    | some row => simp [Dict.get_insert]
  · simp [hn]

lemma shapeIn_addVariant : shapeIn (addVariant rows name shape precision v) n =
      if n = name then some ((shapeIn rows name).getD shape) else shapeIn rows n := by
  simp only [shapeIn, addVariant, rowOr, Dict.get_insert]
  by_cases hn : n = name
  · subst hn
    cases hr : rows.get n <;> simp
  · simp [hn]

lemma mem_addPrecision : p ∈ addPrecision precisions precision ↔ p = precision ∨ p ∈ precisions := by
  unfold addPrecision
  split
  · next h => exact ⟨.inr, fun hp => hp.elim (fun he => he ▸ h) id⟩
  · rw [mem_append, mem_singleton, or_comm]

lemma nodup_addPrecision (h : precisions.Nodup) : (addPrecision precisions precision).Nodup := by
  unfold addPrecision
  split
  · exact h
  · next hn => exact nodup_append.mpr ⟨h, nodup_singleton _, by grind⟩

end

structure WeightManifest where
  rows : Dict Name Row
  precisions : List Str
  nodup : precisions.Nodup
  recorded : ∀ p, p ∈ precisions ↔ ∃ n, (variantIn rows n p).isSome
  filled : ∀ n, (shapeIn rows n).isSome → ∃ p, (variantIn rows n p).isSome

namespace WeightManifest

def empty : WeightManifest where
  rows := .empty
  precisions := []
  nodup := nodup_nil
  recorded := by simp [variantIn]
  filled := by simp [shapeIn]

section

variable (m : WeightManifest)

/-- The variant added to the row of the tensor, and its precision to the precisions. -/
def record (name : Name) (shape : List (Option Int)) (precision : Str) (v : Variant) :
    WeightManifest where
  rows := addVariant m.rows name shape precision v
  precisions := addPrecision m.precisions precision
  nodup := nodup_addPrecision m.nodup
  recorded := by
    intro p
    simp only [mem_addPrecision, variantIn_addVariant, m.recorded p]
    constructor
    · rintro (rfl | ⟨n, hn⟩)
      · exact ⟨name, by simp⟩
      · exact ⟨n, by split <;> simp [hn]⟩
    · rintro ⟨n, hn⟩
      split at hn
      · next h => exact .inl h.2
      · exact .inr ⟨n, hn⟩
  filled := by
    intro n hn
    simp only [shapeIn_addVariant, variantIn_addVariant] at hn ⊢
    by_cases h : n = name
    · exact ⟨precision, by simp [h]⟩
    · rw [if_neg h] at hn
      obtain ⟨p, hp⟩ := m.filled n hn
      exact ⟨p, by simp [h, hp]⟩

def addTensor (name : Name) (precision dtype : Str) (shape : List (Option Int))
    (chunkKeys : List (Option Bytes)) (sizes : List (Option Int)) (offsets : Option (List (Option Int))) :
    Except Exn WeightManifest :=
  let offsets := offsets.getD (List.replicate chunkKeys.length (some 0))
  if h : chunkKeys.length = sizes.length ∧ sizes.length = offsets.length then
    let row := rowOr m.rows name shape
    if shape ≠ row.shape then .error (.shapeMismatch name row.shape shape)
    else if row.variants.contains precision then .error (.alreadyRecorded precision name)
    else .ok (m.record name shape precision ⟨dtype, chunkKeys, offsets, sizes, h⟩)
  else .error (.lengthMismatch chunkKeys.length offsets.length sizes.length name)

def tensors (precision : Str) : List Name :=
  (m.rows.entries.filter fun e => e.2.variants.contains precision).map Prod.fst

def variant (tensor : Name) (precision : Str) : Except Exn Variant :=
  match m.rows.get tensor with
  | none => .error (.tensorNotInManifest tensor)
  | some row =>
    match row.variants.get precision with
    | none => .error (.precisionNotPresent precision tensor)
    | some v => .ok v

def chunkKeys (tensor : Name) (precision : Str) : Except Exn (List (Option Bytes)) :=
  Variant.keys <$> m.variant tensor precision

def chunkSlices (tensor : Name) (precision : Str) :
    Except Exn (List (Option Bytes × Option Int × Option Int)) :=
  Variant.slices <$> m.variant tensor precision

end

def tensorNameCol : Str := ['t', 'e', 'n', 's', 'o', 'r', '_', 'n', 'a', 'm', 'e']

def shapeCol : Str := ['s', 'h', 'a', 'p', 'e']

def dtypeSuffix : Str := ['_', '_', 'd', 't', 'y', 'p', 'e']

def dtypeCol (p : Str) : Str := p ++ dtypeSuffix

def keysCol (p : Str) : Str := p ++ ['_', '_', 'k', 'e', 'y', 's']

def offsetsCol (p : Str) : Str := p ++ ['_', '_', 'o', 'f', 'f', 's', 'e', 't', 's']

def sizesCol (p : Str) : Str := p ++ ['_', '_', 's', 'i', 'z', 'e', 's']

def precisionsMeta : Bytes := utf8Encode ['p', 'r', 'e', 'c', 'i', 's', 'i', 'o', 'n', 's']

def cells {α : Type} (m : WeightManifest) (p : Str) (f : Variant → α) : List (Option α) :=
  m.rows.entries.map fun e => (e.2.variants.get p).map f

def precisionColumns (m : WeightManifest) (p : Str) : List (Str × Column) :=
  [(dtypeCol p, .strings (m.cells p Variant.dtype)), (keysCol p, .binaries (m.cells p Variant.keys)),
    (offsetsCol p, .ints (m.cells p Variant.offsets)), (sizesCol p, .ints (m.cells p Variant.sizes))]

def toTable (m : WeightManifest) : Table where
  columns :=
    (tensorNameCol, .strings m.rows.keys) ::
    (shapeCol, .ints (m.rows.entries.map fun e => some e.2.shape)) ::
    m.precisions.flatMap m.precisionColumns
  metadata := Dict.empty.insert precisionsMeta (utf8Encode ([','].intercalate m.precisions))

def toIpc (L : Libs) (m : WeightManifest) : Except Exn Bytes :=
  match L.write m.toTable with
  | none => .error .arrow
  | some data => .ok data

end WeightManifest

lemma bind_eq_ok {ε α β : Type} {x : Except ε α} {f : α → Except ε β} {b : β} :
    x >>= f = .ok b ↔ ∃ a, x = .ok a ∧ f a = .ok b := by
  cases x with
  | error e => exact ⟨fun h => (nomatch h), fun ⟨_, h, _⟩ => (nomatch h)⟩
  | ok a => exact ⟨fun h => ⟨a, rfl, h⟩, fun ⟨_, h, hf⟩ => by cases h; exact hf⟩

def nth {α : Type} (xs : List α) (i : Nat) : Except Exn α :=
  match xs[i]? with
  | none => .error .indexError
  | some x => .ok x

def pyList {α : Type} : Option (List α) → Except Exn (List α)
  | none => .error .typeError
  | some xs => .ok xs

namespace Table

variable (t : Table)

def column (name : Str) : Except Exn Column :=
  match t.columns.filter fun c => c.1 = name with
  | [c] => .ok c.2
  | _ => .error (.keyError name)

def strings (name : Str) : Except Exn (List (Option Str)) := do
  match ← t.column name with
  | .strings cells => .ok cells
  | _ => .error .typeError

def ints (name : Str) : Except Exn (List (Option (List (Option Int)))) := do
  match ← t.column name with
  | .ints cells => .ok cells
  | _ => .error .typeError

def binaries (name : Str) : Except Exn (List (Option (List (Option Bytes)))) := do
  match ← t.column name with
  | .binaries cells => .ok cells
  | _ => .error .typeError

def columnNames : List Str := t.columns.map Prod.fst

/-- The precisions that `from_ipc` reads: from the metadata, or from the names of the columns. -/
def precisions : Except Exn (List Str) :=
  match (t.metadata.get WeightManifest.precisionsMeta).getD [] with
  | [] =>
    .ok ((t.columnNames.filter fun c => WeightManifest.dtypeSuffix.isSuffixOf c).map fun c =>
      c.rdrop WeightManifest.dtypeSuffix.length)
  | b :: raw =>
    match utf8Decode (b :: raw) with
    | none => .error .unicodeDecodeError
    | some decoded => .ok (if decoded = [] then [] else decoded.splitOn ',')

structure Group where
  dtypes : List (Option Str)
  keys : List (Option (List (Option Bytes)))
  offsets : Option (List (Option (List (Option Int))))
  sizes : List (Option (List (Option Int)))

def offsets (p : Str) : Except Exn (Option (List (Option (List (Option Int))))) :=
  if WeightManifest.offsetsCol p ∈ t.columnNames then some <$> t.ints (WeightManifest.offsetsCol p) else pure none

def group (p : Str) : Except Exn Group := do
  let offsets ← t.offsets p
  let dtypes ← t.strings (WeightManifest.dtypeCol p)
  let keys ← t.binaries (WeightManifest.keysCol p)
  let sizes ← t.ints (WeightManifest.sizesCol p)
  pure ⟨dtypes, keys, offsets, sizes⟩

end Table

namespace WeightManifest

def offsetsAt (g : Table.Group) (i : Nat) : Except Exn (Option (List (Option Int))) :=
  match g.offsets with
  | none => pure none
  | some offsets => some <$> (nth offsets i >>= pyList)

/-- The cell of a row and a precision added to the manifest, unless its dtype is null. -/
def addCell (i : Nat) (name : Name) (shape : List (Option Int)) (m : WeightManifest) (pg : Str × Table.Group) :
    Except Exn WeightManifest := do
  match ← nth pg.2.dtypes i with
  | none => pure m
  | some dtype =>
    let offsets ← offsetsAt pg.2 i
    let keys ← nth pg.2.keys i >>= pyList
    let sizes ← nth pg.2.sizes i >>= pyList
    m.addTensor name pg.1 dtype shape keys sizes offsets

def addRow (shapes : List (Option (List (Option Int)))) (groups : List (Str × Table.Group)) (m : WeightManifest)
    (row : Name × Nat) : Except Exn WeightManifest := do
  let shape ← nth shapes row.2
  groups.foldlM (addCell row.2 row.1 (shape.getD [])) m

def fromTable (t : Table) : Except Exn WeightManifest := do
  let precisions ← t.precisions
  let names ← t.strings tensorNameCol
  let shapes ← t.ints shapeCol
  let groups ← precisions.mapM fun p => do pure (p, ← t.group p)
  names.zipIdx.foldlM (addRow shapes groups) empty

def fromIpc (L : Libs) (data : Bytes) : Except Exn WeightManifest :=
  match L.read data with
  | none => .error .arrow
  | some table => fromTable table

def variantOf (m : WeightManifest) (name : Name) (precision : Str) : Option Variant := variantIn m.rows name precision

def shapeOf (m : WeightManifest) (name : Name) : Option (List (Option Int)) := shapeIn m.rows name

structure Same (m m' : WeightManifest) : Prop where
  variant : ∀ n p, m.variantOf n p = m'.variantOf n p
  shape : ∀ n, m.shapeOf n = m'.shapeOf n

@[simp] lemma variantOf_empty (n : Name) (p : Str) : empty.variantOf n p = none := rfl

variable {m : WeightManifest}

lemma mem_precisions : p ∈ m.precisions ↔ ∃ n v, m.variantOf n p = some v := by
  simp only [m.recorded p, variantOf, Option.isSome_iff_exists]

lemma shapeOf_isSome (h : m.variantOf n p = some v) : ∃ s, m.shapeOf n = some s := by
  simp only [variantOf, variantIn, shapeOf, shapeIn] at h ⊢
  cases hr : m.rows.get n with
  | none => simp [hr] at h
  | some row => exact ⟨row.shape, rfl⟩

lemma exists_variantOf (h : m.shapeOf n = some s) :
    ∃ p v, m.variantOf n p = some v := by
  obtain ⟨p, hp⟩ := m.filled n (by rw [← shapeOf, h]; rfl)
  exact ⟨p, Option.isSome_iff_exists.mp hp⟩

lemma variant_eq_ok : m.variant n p = .ok v ↔ m.variantOf n p = some v := by
  simp only [variant, variantOf, variantIn]
  cases m.rows.get n with
  | none => simp
  | some row => cases h : row.variants.get p <;> simp [h]

lemma mem_tensors : n ∈ m.tensors p ↔ ∃ v, m.variantOf n p = some v := by
  simp only [tensors, variantOf, variantIn, mem_map, mem_filter, Prod.exists, Dict.contains]
  constructor
  · rintro ⟨n, row, ⟨hr, hv⟩, rfl⟩
    rw [Dict.mem_entries.mp hr]
    exact Option.isSome_iff_exists.mp hv
  rintro ⟨v, hv⟩
  obtain ⟨row, hr, hv⟩ := Option.bind_eq_some_iff.mp hv
  exact ⟨n, row, ⟨Dict.mem_entries.mpr hr, by simp [hv]⟩, rfl⟩

lemma addTensor_eq_ok {keys : List (Option Bytes)} :
    m.addTensor name precision dtype shape keys sizes offsets = .ok m' ↔
      ∃ v : Variant, v.dtype = dtype ∧ v.keys = keys ∧ v.sizes = sizes ∧
        v.offsets = offsets.getD (List.replicate keys.length (some 0)) ∧
        (∀ s, m.shapeOf name = some s → s = shape) ∧ m.variantOf name precision = none ∧
        m' = m.record name shape precision v := by
  have hh : shape = (rowOr m.rows name shape).shape ↔ ∀ s, m.shapeOf name = some s → s = shape := by
    simp only [rowOr, shapeOf, shapeIn]
    cases m.rows.get name <;> simp [eq_comm]
  have hn : (rowOr m.rows name shape).variants.contains precision = false ↔ m.variantOf name precision = none := by
    simp only [rowOr, variantOf, variantIn, Dict.contains]
    cases m.rows.get name <;> simp
  simp only [addTensor]
  split
  · next hl =>
    by_cases hs : shape = (rowOr m.rows name shape).shape
    · rw [if_neg (not_not.mpr hs)]
      cases hc : (rowOr m.rows name shape).variants.contains precision with
      | true =>
        have hm : m.variantOf name precision ≠ none := fun h => by simp [hn.mpr h] at hc
        simp [hm]
      | false =>
        simp only [Bool.false_eq_true, if_false, Except.ok.injEq]
        constructor
        · rintro rfl
          exact ⟨⟨dtype, keys, _, sizes, hl⟩, rfl, rfl, rfl, rfl, hh.mp hs, hn.mp hc, rfl⟩
        rintro ⟨⟨d, k, o, z, hv⟩, hd, hk, hz, ho, -, -, rfl⟩
        cases hd
        cases hk
        cases hz
        congr 2
        exact ho.symm
    rw [if_pos hs]
    have hno := fun h => hs (hh.mpr h)
    simp only [reduceCtorEq, false_iff]
    rintro ⟨v, -, -, -, -, h, -⟩
    exact hno h
  next hl =>
  simp only [reduceCtorEq, false_iff]
  rintro ⟨v, -, rfl, rfl, hf, -⟩
  exact hl (hf ▸ v.aligned)

lemma variantOf_record (m : WeightManifest) (name n : Name) (shape : List (Option Int)) (precision p : Str)
    (v : Variant) : (m.record name shape precision v).variantOf n p =
      if n = name ∧ p = precision then some v else m.variantOf n p := variantIn_addVariant

lemma shapeOf_record (m : WeightManifest) (name n : Name) (shape : List (Option Int)) (precision : Str)
    (v : Variant) : (m.record name shape precision v).shapeOf n =
      if n = name then some ((m.shapeOf name).getD shape) else m.shapeOf n := shapeIn_addVariant

end WeightManifest

end Weights

end RadosNkv
