import RadosNkv.Weights.RoundTrip

/-! The order of tensors and precisions in a manifest that is read back. -/

namespace RadosNkv.Weights.WeightManifest

open List

variable {m m' m'' : WeightManifest} {name : Name} {ps : List Str}

def usedBy (m : WeightManifest) (ps : List Str) (name : Name) : List Str :=
  ps.filter fun p => (m.variantOf name p).isSome

def rowOrder (m : WeightManifest) : List Str := (m.rows.keys.flatMap (m.usedBy m.precisions)).foldl addPrecision []

structure Equals (m m' : WeightManifest) : Prop extends Same m m' where
  names : m.rows.keys = m'.rows.keys
  precisions : m.precisions = m'.precisions

lemma keys_record (m : WeightManifest) (name : Name) (shape : List (Option Int)) (p : Str) (v : Variant) :
    (m.record name shape p v).rows.keys = if name ∈ m.rows.keys then m.rows.keys else m.rows.keys ++ [name] := by
  refine (Dict.keys_insert ..).trans ?_
  congr

lemma addCells_order (hr : m.rows.entries[i]? = some (name, row))
    (h : (ps.map fun p => (p, m.groupOf p)).foldlM (addCell i name shape) m' = .ok m'') :
    m''.precisions = (m.usedBy ps name).foldl addPrecision m'.precisions ∧ m''.rows.keys =
        if m.usedBy ps name = [] ∨ name ∈ m'.rows.keys then m'.rows.keys else m'.rows.keys ++ [name] := by
  induction ps generalizing m' with
  | nil =>
    cases h
    exact ⟨rfl, rfl⟩
  | cons p ps ih =>
    rw [map_cons, foldlM_cons, addCell_groupOf hr] at h
    obtain ⟨m1, hm1, h⟩ := bind_eq_ok.mp h
    obtain ⟨hp, hk⟩ := ih h
    cases hv : m.variantOf name p with
    | none =>
      have hu : m.usedBy (p :: ps) name = m.usedBy ps name := filter_cons_of_neg (by simp [hv])
      rw [hv] at hm1
      cases hm1
      rw [hu]
      exact ⟨hp, hk⟩
    | some v =>
      have hu : m.usedBy (p :: ps) name = p :: m.usedBy ps name := filter_cons_of_pos (by simp [hv])
      rw [hv] at hm1
      obtain ⟨w, -, -, -, -, -, -, rfl⟩ := addTensor_eq_ok.mp hm1
      rw [keys_record] at hk
      rw [hu]
      refine ⟨hp, hk.trans ?_⟩
      by_cases hi : name ∈ m'.rows.keys <;> simp [hi]

lemma addRows_order (hd : m.rows.entries.drop i = entries)
    (hu : ∀ e ∈ entries, m.usedBy ps e.1 ≠ []) (hn : ∀ e ∈ entries, e.1 ∉ m'.rows.keys)
    (h : ((entries.map Prod.fst).zipIdx i).foldlM (addRow (m.rows.entries.map fun e => some
      e.2.shape) (ps.map fun p => (p, m.groupOf p))) m' = .ok m'') :
    m''.precisions = ((entries.map Prod.fst).flatMap (m.usedBy ps)).foldl addPrecision m'.precisions ∧
      m''.rows.keys = m'.rows.keys ++ entries.map Prod.fst := by
  induction entries generalizing m' i with
  | nil =>
    cases h
    exact ⟨rfl, (append_nil _).symm⟩
  | cons e entries ih =>
    have hr : m.rows.entries[i]? = some (e.1, e.2) := by
      rw [← head?_drop, hd]
      rfl
    have hnd : ((e :: entries).map Prod.fst).Nodup := by
      rw [← hd]
      exact m.rows.nodup.sublist ((drop_sublist i _).map _)
    have hd1 : m.rows.entries.drop (i + 1) = entries := by
      rw [← tail_drop, hd]
      rfl
    rw [map_cons, zipIdx_cons, foldlM_cons] at h
    obtain ⟨m1, hm1, h⟩ := bind_eq_ok.mp h
    obtain ⟨shape, -, hc⟩ := bind_eq_ok.mp hm1
    obtain ⟨hp1, hk1⟩ := addCells_order hr hc
    rw [if_neg (not_or.mpr ⟨hu e mem_cons_self, hn e mem_cons_self⟩)] at hk1
    have hn1 : ∀ e' ∈ entries, e'.1 ∉ m1.rows.keys := by
      intro e' he' hm
      rw [hk1, mem_append, mem_singleton] at hm
      rcases hm with hold | he
      · exact hn e' (mem_cons_of_mem _ he') hold
      · exact (nodup_cons.mp hnd).1 (he ▸ mem_map_of_mem he')
    obtain ⟨hp, hk⟩ := ih hd1 (fun e' he' => hu e' (mem_cons_of_mem _ he')) hn1 h
    refine ⟨?_, ?_⟩
    · rw [hp, hp1, map_cons, flatMap_cons, foldl_append]
    rw [hk, hk1, append_assoc]
    rfl

lemma order_fromTable (hf : m.CommaFree) (h : fromTable m.toTable = .ok m') :
    m'.precisions = m.rowOrder ∧ m'.rows.keys = m.rows.keys := by
  have hg : (m.precisions.mapM fun p => do pure (p, ← m.toTable.group p)) =
      (.ok (m.precisions.map fun p => (p, m.groupOf p)) : Except Exn _) :=
    mapM_eq_ok fun p hp => by rw [group_toTable hp]; rfl
  simp only [fromTable, precisions_toTable, readPrecisions_of_commaFree hf, strings_tensorName, ints_shape] at h
  obtain ⟨_, hq, h⟩ := bind_eq_ok.mp h
  obtain ⟨_, hnm, h⟩ := bind_eq_ok.mp h
  obtain ⟨_, hs, h⟩ := bind_eq_ok.mp h
  cases hq
  cases hnm
  cases hs
  rw [hg] at h
  refine addRows_order (drop_zero (l := m.rows.entries)) (fun e he hn => ?_)
    (fun _ _ => not_mem_nil) h
  -- every row has a variant, and its precision is on the list
  have hh : m.shapeOf e.1 = some e.2.shape := by
    simp [shapeOf, shapeIn, Dict.mem_entries.mp he]
  obtain ⟨p, v, hv⟩ := exists_variantOf hh
  have hm : p ∈ m.usedBy m.precisions e.1 := mem_filter.mpr ⟨mem_precisions.mpr ⟨_, v, hv⟩, by simp [hv]⟩
  exact not_mem_nil (hn ▸ hm)

/-- A manifest is read back as it was written exactly if no precision has a comma in its name and
the precisions are in the order in which the rows use them. -/
theorem manifest_round_trip_iff (L : Libs) (hL : L.Lossless) (m : WeightManifest) (data : Bytes)
    (hdata : m.toIpc L = .ok data) :
    (∃ m', fromIpc L data = .ok m' ∧ m'.Equals m) ↔ m.CommaFree ∧ m.rowOrder = m.precisions := by
  constructor
  · rintro ⟨m', hrd, heql⟩
    have hfr := (same_of_fromIpc hL hdata hrd).1
    rw [fromIpc_toIpc hL hdata] at hrd
    exact ⟨hfr, (order_fromTable hfr hrd).1.symm.trans heql.precisions⟩
  rintro ⟨hfr, hord⟩
  obtain ⟨m', hrd, hsm⟩ := exists_fromIpc hL hdata hfr
  obtain ⟨hprec, hnames⟩ := order_fromTable hfr (fromIpc_toIpc hL hdata ▸ hrd)
  exact ⟨m', hrd, hsm, hnames, hprec.trans hord⟩

def addAll : List (Str × Str) → Except Exn WeightManifest :=
  List.foldlM (fun m (e : Str × Str) => m.addTensor (some e.1) e.2 ['f'] [some 1] [some [7]] [some 1] none) empty

def added (es : List (Str × Str)) : WeightManifest :=
  match addAll es with
  | .ok m => m
  | .error _ => empty

theorem manifest_round_trip_added :
    let m := added [(['t'], ['p']), (['u'], ['q'])]
    let L := standIn [] [m.toTable]
    m.rows.keys = [some ['t'], some ['u']] ∧ ∃ data m', m.toIpc L = .ok data ∧
      fromIpc L data = .ok m' ∧ m'.Equals m := by
  intro m L
  obtain ⟨data, hdt⟩ : ∃ data, m.toIpc L = .ok data := ⟨stream 0, by decide +kernel⟩
  obtain ⟨m', hrd, heql⟩ := (manifest_round_trip_iff L (standIn_lossless _ _) m data hdt).mpr
    ⟨by decide +kernel, by decide +kernel⟩
  exact ⟨by decide +kernel, data, m', hdt, hrd, heql⟩

/-- The precision `q`, first used by the second row, comes after `r` of the first row when the
manifest is read; and a precision with a comma in its name is not found again. -/
theorem manifest_reordered :
    let m := added [(['t'], ['p']), (['u'], ['q']), (['t'], ['r'])]
    m.precisions = [['p'], ['q'], ['r']] ∧
      (fromTable m.toTable).map WeightManifest.precisions = .ok [['p'], ['r'], ['q']] ∧
      (fromTable (added [(['t'], ['p', ',', 'q'])]).toTable).map WeightManifest.precisions =
        .error (.keyError (dtypeCol ['p'])) := by
  decide +kernel

end RadosNkv.Weights.WeightManifest
