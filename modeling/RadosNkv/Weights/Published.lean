import RadosNkv.Weights.Layout
import RadosNkv.Weights.Loads

/-! What the layout of a publish holds: its Values are the tensors' bytes in order, none is longer
than the cap, and the records name exactly the bytes of each tensor. -/

namespace RadosNkv

namespace Weights

open List WeightManifest TensorsSpec

lemma iterChunks_cons {max : Nat} (hm : 0 < max) (hd : data ≠ []) :
    iterChunks data max = data.take max :: iterChunks (data.drop max) max := by
  have hn := length_pos_iff.mpr hd
  have hc : (data.length + max - 1) / max = ((data.drop max).length + max - 1) / max + 1 := by
    rw [length_drop]
    by_cases he : max ≤ data.length
    · rw [← Nat.add_div_right _ hm]
      congr 1
      omega
    have hl : (data.length - max + max - 1) / max = 0 := Nat.div_eq_of_lt (by omega)
    rw [hl]
    have hs : data.length + max - 1 = (data.length - 1) + max := by omega
    rw [hs, Nat.add_div_right _ hm, Nat.div_eq_of_lt (by omega)]
  unfold iterChunks
  rw [hc, range'_succ, map_cons, drop_zero]
  congr 1
  rw [zero_add, ← add_zero max, ← map_add_range', map_map]
  simp only [add_zero]
  refine map_congr_left fun off _ => ?_
  rw [Function.comp_apply, drop_drop]

lemma flatten_iterChunks {max : Nat} (hm : 0 < max) (data : Bytes) : (iterChunks data max).flatten = data := by
  induction hn : data.length using Nat.strong_induction_on generalizing data with
  | _ n ih =>
    by_cases hd : data = []
    · rw [hd, iterChunks_nil]
      rfl
    have hl := length_pos_iff.mpr hd
    have hr := ih (data.drop max).length (by rw [length_drop]; omega) (data.drop max) rfl
    rw [iterChunks_cons hm hd, flatten_cons, hr, take_append_drop]

lemma length_le_of_mem_iterChunks {max : Nat} (h : chunk ∈ iterChunks data max) :
    chunk.length ≤ max := by
  obtain ⟨off, -, rfl⟩ := mem_map.mp h
  exact length_take_le ..

variable {tensors : TensorsSpec}

section

variable {max : Nat}

lemma length_le_of_mem_piecesOf {tensors : List ((Str × Str) × TensorSpec)}
    (h : c ∈ piecesOf max tensors) : c.bytes.length ≤ max := by
  obtain ⟨t, -, hc⟩ := mem_flatMap.mp h
  obtain ⟨chunk, hh, rfl⟩ := mem_map.mp hc
  exact length_le_of_mem_iterChunks hh

structure Layout.Fits (max : Nat) (l : Layout) : Prop where
  closed : ∀ g ∈ l.closed, (valueOf g).length ≤ max
  pending : (valueOf l.pending).length ≤ max

variable {l : Layout}

lemma Layout.Fits.close (h : l.Fits max) : ∀ g ∈ l.close.closed, (valueOf g).length ≤ max := by
  intro g hg
  rcases mem_append.mp hg with hg | hg
  · exact h.closed g hg
  · unfold pendingGroup at hg
    split at hg
    · exact absurd hg not_mem_nil
    · rw [mem_singleton.mp hg]
      exact h.pending

lemma Layout.Fits.add (h : l.Fits max) {c : Piece} (hc : c.bytes.length ≤ max) : (l.add max pack c).Fits max := by
  have ho : (valueOf [c]).length ≤ max := by simpa [valueOf] using hc
  unfold Layout.add
  split
  · refine ⟨fun g hg => ?_, by simp [valueOf]⟩
    rcases mem_append.mp hg with hg | hg
    · exact h.close g hg
    rw [mem_singleton.mp hg]
    exact ho
  split
  · exact ⟨h.close, ho⟩
  next hf =>
  refine ⟨h.closed, ?_⟩
  have hl : (valueOf (l.pending ++ [c])).length = (valueOf l.pending).length + c.bytes.length := by
    simp [valueOf]
  rw [hl]
  omega

lemma Layout.Fits.foldl {cs : List Piece} (h : l.Fits max) (hc : ∀ c ∈ cs, c.bytes.length ≤ max) :
    (cs.foldl (Layout.add max pack) l).Fits max := by
  induction cs generalizing l with
  | nil => exact h
  | cons c cs ih =>
    exact ih (h.add (hc c (mem_cons_self ..))) fun d hd => hc d (mem_cons_of_mem _ hd)

lemma length_le_of_mem_groupsOf (h : g ∈ groupsOf max pack tensors) : (valueOf g).length ≤ max := by
  have hint : ({} : Layout).Fits max := ⟨fun g hg => absurd hg not_mem_nil, Nat.zero_le max⟩
  exact (hint.foldl fun c hc => length_le_of_mem_piecesOf hc).close g h

lemma flatten_pendingGroup (l : Layout) : l.pendingGroup.flatten = l.pending := by
  unfold Layout.pendingGroup
  split
  · next h => rw [h]; rfl
  · exact flatten_singleton

lemma flatten_add (l : Layout) (c : Piece) :
    (l.add max pack c).closed.flatten ++ (l.add max pack c).pending = l.closed.flatten ++ l.pending ++ [c] := by
  unfold Layout.add
  split
  · simp [flatten_pendingGroup]
  split
  · simp [flatten_pendingGroup]
  · simp

lemma flatten_groupsOf (tensors : TensorsSpec) : (groupsOf max pack tensors).flatten = piecesOf max (all tensors) := by
  have hf : ∀ (cs : List Piece) (l : Layout),
      (cs.foldl (Layout.add max pack) l).closed.flatten ++ (cs.foldl (Layout.add max pack) l).pending =
        l.closed.flatten ++ l.pending ++ cs := by
    intro cs
    induction cs with
    | nil => simp
    | cons c cs ih =>
      intro l
      rw [foldl_cons, ih, flatten_add, append_assoc, singleton_append]
  rw [groupsOf, Layout.close, flatten_append, flatten_pendingGroup, hf]
  rfl

end

def NamesChunk (L : Libs) (values : List Bytes) (r : SliceRec) (c : Piece) : Prop :=
  ∃ v ∈ values, ∃ off, r = ⟨some (chunkKey L v), some off, c.bytes.length⟩ ∧ off + c.bytes.length ≤ v.length ∧
    (v.drop off).take c.bytes.length = c.bytes

variable {get : Bytes → Option Bytes}

section

variable {L : Libs}

lemma place_names (before : List Piece) (h : valueOf (before ++ cs) ∈ values) :
    List.Forall₂ (fun x c => x.1 = c.owner ∧ NamesChunk L values x.2 c)
      (place (chunkKey L (valueOf (before ++ cs))) (valueOf before).length cs) cs := by
  induction cs generalizing before with
  | nil => exact .nil
  | cons c cs ih =>
    have ha : before ++ c :: cs = (before ++ [c]) ++ cs := by simp
    have hs : valueOf (before ++ c :: cs) = valueOf before ++ (c.bytes ++ valueOf cs) := by simp [valueOf]
    have hn : (valueOf before).length + c.bytes.length = (valueOf (before ++ [c])).length := by simp [valueOf]
    refine .cons ⟨rfl, _, h, (valueOf before).length, rfl, ?_, ?_⟩ ?_
    · rw [hs, length_append, length_append]
      omega
    · rw [hs, drop_left, take_left]
    rw [hn, ha]
    exact ih (before ++ [c]) (ha ▸ h)

lemma placed_names (h : ∀ g ∈ groups, valueOf g ∈ values) :
    List.Forall₂ (fun x c => x.1 = c.owner ∧ NamesChunk L values x.2 c) (placed L groups) groups.flatten := by
  induction groups with
  | nil => exact .nil
  | cons g groups ih =>
    have hg : List.Forall₂ (fun x c => x.1 = c.owner ∧ NamesChunk L values x.2 c)
        (place (chunkKey L (valueOf g)) 0 g) g :=
      place_names [] (h g (mem_cons_self ..))
    exact rel_append hg (ih fun g' hg' => h g' (mem_cons_of_mem _ hg'))

lemma ofOwner_names (h : List.Forall₂ (fun x c => x.1 = c.owner ∧ NamesChunk L values x.2 c) xs cs)
    (o : Str × Str) :
    List.Forall₂ (NamesChunk L values) (ofOwner o xs) (cs.filter fun c => c.owner = o) := by
  induction h with
  | nil => exact .nil
  | @cons x c xs cs hx _ ih =>
    obtain ⟨ho, hn⟩ := hx
    by_cases hc : c.owner = o
    · rw [filter_cons_of_pos (by simpa using hc), ofOwner, filter_cons_of_pos (by simpa [ho] using hc)]
      exact .cons hn ih
    · rw [filter_cons_of_neg (by simpa using hc), ofOwner, filter_cons_of_neg (by simpa [ho] using hc)]
      exact ih

structure Variant.Of (v : Variant) (rs : List SliceRec) : Prop where
  keys : v.keys = rs.map SliceRec.key
  offsets : v.offsets = rs.map fun r => r.offset.map Int.ofNat
  sizes : v.sizes = rs.map fun r => some (r.size : Int)

lemma Variant.Of.slices {v : Variant} (h : v.Of rs) :
    v.slices = rs.map fun r => (r.key, r.offset.map Int.ofNat, some (r.size : Int)) := by
  rw [Variant.slices, h.keys, h.offsets, h.sizes, zip_map', zip_map']

lemma pySlice_natCast (value : Bytes) (off len : Nat) :
    pySlice value off ((off : Int) + len) = (value.drop off).take len := by
  have hs : ¬ ((off : Int) + len < 0) := by omega
  have htNt : ((off : Int) + len).toNat = off + len := by omega
  simp only [pySlice, if_neg hs, htNt, Int.toNat_natCast, drop_take, Nat.add_sub_cancel_left]

lemma denotes_of_names {v : Variant} (hv : v.Of rs) (hs : List.Forall₂ (NamesChunk L values) rs cs)
    (hg : ∀ w ∈ values, get (chunkKey L w) = some w) : Denotes L get v (valueOf cs) := by
  refine ⟨cs.map Piece.bytes, ?_, ?_, ?_⟩
  · rw [hv.slices, forall₂_map_left_iff, forall₂_map_right_iff]
    refine hs.imp fun r c hr => ?_
    obtain ⟨w, hw, off, rfl, hl, hb⟩ := hr
    refine ⟨chunkKey L w, (off : Int), (c.bytes.length : Int), w, rfl, hg w hw, rfl, Int.natCast_nonneg off, ?_, ?_⟩
    · exact_mod_cast hl
    · rw [pySlice_natCast, hb]
  · rw [valueOf, flatMap_def]
  · rw [hv.slices, totalSize, map_map]
    clear hv
    induction hs with
    | nil => rfl
    | cons hr _ ih =>
      obtain ⟨w, -, off, rfl, -⟩ := hr
      simp only [valueOf, flatMap_cons, length_append, map_cons, sum_cons, Function.comp_apply,
        Option.getD_some, Int.natCast_add] at ih ⊢
      rw [ih]

end

def TensorsSpec.find (tensors : TensorsSpec) (o : Str × Str) : Option TensorSpec :=
  (tensors.get o.1).bind fun byPrecision => byPrecision.get o.2

lemma mem_all : (o, t) ∈ TensorsSpec.all tensors ↔ TensorsSpec.find tensors o = some t := by
  simp only [TensorsSpec.all, TensorsSpec.find, mem_flatMap, mem_map, Option.bind_eq_some_iff, Prod.exists]
  constructor
  · rintro ⟨n, byPrecision, hn, p, t', hp, he⟩
    cases he
    exact ⟨byPrecision, Dict.mem_entries.mp hn, Dict.mem_entries.mp hp⟩
  rintro ⟨byPrecision, hn, hp⟩
  exact ⟨o.1, byPrecision, Dict.mem_entries.mpr hn, o.2, t, Dict.mem_entries.mpr hp, rfl⟩

lemma nodup_all (tensors : TensorsSpec) : ((TensorsSpec.all tensors).map Prod.fst).Nodup := by
  rw [TensorsSpec.all, map_flatMap, nodup_flatMap]
  constructor
  · rintro ⟨n, byPrecision⟩ -
    rw [map_map]
    have hm : byPrecision.entries.map (Prod.fst ∘ fun p => ((n, p.1), p.2)) =
        (byPrecision.entries.map Prod.fst).map (Prod.mk n) := by
      rw [map_map]
      rfl
    exact hm ▸ byPrecision.nodup.map fun _ _ h => (Prod.mk.inj h).2
  · refine (pairwise_map.mp tensors.nodup).imp fun {a b} hn => ?_
    intro o ha hb
    obtain ⟨_, hx, rfl⟩ := mem_map.mp ha
    obtain ⟨_, -, rfl⟩ := mem_map.mp hx
    obtain ⟨_, hy, he⟩ := mem_map.mp hb
    obtain ⟨_, -, rfl⟩ := mem_map.mp hy
    exact hn (Prod.mk.inj he).1.symm

variable {ts : List ((Str × Str) × TensorSpec)}

lemma valueOf_filter_piecesOf {max : Nat} (hm : 0 < max) (hd : (ts.map Prod.fst).Nodup) (h : (o, t) ∈ ts) :
    valueOf ((piecesOf max ts).filter fun c => c.owner = o) = t.data := by
  have ho : ∀ t : (Str × Str) × TensorSpec,
      ((iterChunks t.2.data max).map (Piece.mk t.1)).filter (fun c => c.owner = o) =
        if t.1 = o then (iterChunks t.2.data max).map (Piece.mk t.1) else [] := by
    intro t
    split
    · next ht =>
      refine filter_eq_self.mpr fun c hc => ?_
      obtain ⟨_, -, rfl⟩ := mem_map.mp hc
      simpa using ht
    next ht =>
    refine filter_eq_nil_iff.mpr fun c hc => ?_
    obtain ⟨_, -, rfl⟩ := mem_map.mp hc
    simpa using ht
  have hdt : ∀ t : (Str × Str) × TensorSpec, valueOf ((iterChunks t.2.data max).map (Piece.mk t.1)) = t.2.data := by
    intro t
    rw [valueOf, flatMap_map]
    exact flatMap_id'.trans (flatten_iterChunks hm t.2.data)
  induction ts with
  | nil => exact absurd h not_mem_nil
  | cons u ts ih =>
    obtain ⟨hn, hl⟩ := nodup_cons.mp hd
    have hcn : piecesOf max (u :: ts) = (iterChunks u.2.data max).map (Piece.mk u.1) ++ piecesOf max ts := rfl
    rw [hcn, filter_append, ho]
    rcases mem_cons.mp h with rfl | h
    · have hr : (piecesOf max ts).filter (fun c => c.owner = o) = [] := by
        refine filter_eq_nil_iff.mpr fun c hc => ?_
        obtain ⟨u, hu, hc⟩ := mem_flatMap.mp hc
        obtain ⟨_, -, rfl⟩ := mem_map.mp hc
        intro he
        exact hn (mem_map.mpr ⟨u, hu, by simpa using he⟩)
      rw [if_pos rfl, hr, append_nil, hdt (o, t)]
    have hne : u.1 ≠ o := fun he => hn (mem_map.mpr ⟨_, h, he.symm⟩)
    rw [if_neg hne, nil_append]
    exact ih hl h

variable {m : WeightManifest}

lemma recordTensors_ok (h : ts.foldlM (recordTensor recs) base = .ok m) (n : Name) (p : Str) :
    (∃ t ∈ ts, n = some t.1.1 ∧ p = t.1.2 ∧ base.variantOf n p = none ∧
        ∃ v, m.variantOf n p = some v ∧ v.Of (recs t.1)) ∨
      ((∀ t ∈ ts, ¬ (n = some t.1.1 ∧ p = t.1.2)) ∧ m.variantOf n p = base.variantOf n p) := by
  induction ts generalizing base with
  | nil =>
    cases h
    exact .inr ⟨fun t ht => absurd ht not_mem_nil, rfl⟩
  | cons t ts ih =>
    rw [foldlM_cons] at h
    obtain ⟨m1, hm1, h⟩ := bind_eq_ok.mp h
    obtain ⟨v, -, hk, hs, ho, -, hf, rfl⟩ := addTensor_eq_ok.mp hm1
    have hv : v.Of (recs t.1) := ⟨hk, ho, hs⟩
    have hr := variantOf_record base (some t.1.1) n (t.2.shape.map some) t.1.2 p v
    by_cases ht : n = some t.1.1 ∧ p = t.1.2
    · rw [if_pos ht] at hr
      obtain ⟨rfl, rfl⟩ := ht
      left
      refine ⟨t, mem_cons_self .., rfl, rfl, hf, ?_⟩
      rcases ih h with ⟨u, -, -, -, hno, -⟩ | ⟨-, he⟩
      · rw [hno] at hr
        cases hr
      · exact ⟨v, he.trans hr, hv⟩
    rw [if_neg ht] at hr
    rcases ih h with ⟨u, hu, hn, hp, hno, ha⟩ | ⟨hou, he⟩
    · exact .inl ⟨u, mem_cons_of_mem _ hu, hn, hp, hr ▸ hno, ha⟩
    refine .inr ⟨fun u hu => ?_, he.trans hr⟩
    rcases mem_cons.mp hu with rfl | hu
    · exact ht
    · exact hou u hu

def TensorsSpec.at (tensors : TensorsSpec) (p : Str) (n : Name) : Option Bytes :=
  n.bind fun name => (TensorsSpec.find tensors (name, p)).map TensorSpec.data

def TensorsSpec.Has (tensors : TensorsSpec) (p : Str) : Prop := ∃ t ∈ TensorsSpec.all tensors, t.1.2 = p

instance (tensors : TensorsSpec) (p : Str) : Decidable (TensorsSpec.Has tensors p) :=
  inferInstanceAs (Decidable (∃ t ∈ TensorsSpec.all tensors, _))

abbrev Held := Option (Name → Option Bytes)

def TensorsSpec.onto (tensors : TensorsSpec) (p : Str) (held : Held) : Held :=
  if TensorsSpec.Has tensors p then
    some fun n => (TensorsSpec.at tensors p n).or ((held.getD fun _ => none) n)
  else held

def Holds (L : Libs) (get : Bytes → Option Bytes) (m : WeightManifest) (p : Str) : Held → Prop
  | none => p ∉ m.precisions
  | some f => Shows L get m p f

lemma holds_empty (L : Libs) (get : Bytes → Option Bytes) (p : Str) : Holds L get .empty p none := not_mem_nil

lemma Holds.none_variantOf (h : Holds L get m p none) (n : Name) :
    m.variantOf n p = none := by
  cases hv : m.variantOf n p with
  | none => rfl
  | some v => exact absurd (mem_precisions.mpr ⟨n, v, hv⟩) h

namespace PublishCall

variable {call : PublishCall}

section

variable (hcap : 0 < call.cap kvvml)
include hcap

lemma values_length_le (h : v ∈ call.values kvvml) : (v.length : Int) ≤ call.cap kvvml := by
  obtain ⟨g, hg, rfl⟩ := mem_map.mp h
  have hl := length_le_of_mem_groupsOf hg
  omega

lemma denotes_recs (he : ∀ v ∈ call.values kvvml, get (chunkKey L v) = some v)
    (ht : (o, t) ∈ all call.tensors) (hv : v.Of (call.recs L kvvml o)) :
    Denotes L get v t.data := by
  have hn : List.Forall₂ (fun x c => x.1 = c.owner ∧ NamesChunk L (call.values kvvml) x.2 c)
      (placed L (call.groups kvvml)) (call.groups kvvml).flatten :=
    placed_names fun g hg => mem_map.mpr ⟨g, hg, rfl⟩
  have hd := denotes_of_names hv (ofOwner_names hn o) he
  have hf : (call.groups kvvml).flatten = piecesOf (call.cap kvvml).toNat (all call.tensors) :=
    flatten_groupsOf call.tensors
  rwa [hf, valueOf_filter_piecesOf (by omega) (nodup_all call.tensors) ht] at hd

lemma holds_manifest (hg : ∀ v ∈ call.values kvvml, get (chunkKey L v) = some v)
    (hm : call.manifest L kvvml base = .ok m) (hb : Holds L get (base.getD .empty) p held) :
    Holds L get m p (onto call.tensors p held) := by
  have hr := recordTensors_ok hm
  have hbsA : ∀ n, ((base.getD .empty).variantOf n p = none ∧ (held.getD fun _ => none) n = none) ∨
      ∃ v data, (base.getD .empty).variantOf n p = some v ∧ Denotes L get v data ∧
        (held.getD fun _ => none) n = some data := by
    intro n
    cases held with
    | none => exact .inl ⟨hb.none_variantOf n, rfl⟩
    | some f => exact hb.2 n
  unfold onto
  split
  · next hh =>
    refine ⟨?_, fun n => ?_⟩
    · obtain ⟨t, ht, rfl⟩ := hh
      rcases hr (some t.1.1) t.1.2 with ⟨u, -, -, -, -, v, hv, -⟩ | ⟨ho, -⟩
      · exact mem_precisions.mpr ⟨_, v, hv⟩
      · exact absurd ⟨rfl, rfl⟩ (ho t ht)
    rcases hr n p with ⟨t, ht, rfl, rfl, -, v, hv, hof⟩ | ⟨ho, hs⟩
    · right
      refine ⟨v, t.2.data, hv, denotes_recs hcap hg ht hof, ?_⟩
      have hf := mem_all.mp (show (t.1, t.2) ∈ _ from ht)
      simp [TensorsSpec.at, hf]
    have ha : TensorsSpec.at call.tensors p n = none := by
      cases n with
      | none => rfl
      | some name =>
        cases hf : find call.tensors (name, p) with
        | none => simp [TensorsSpec.at, hf]
        | some t => exact absurd ⟨rfl, rfl⟩ (ho _ (mem_all.mpr hf))
    simp only [ha, hs, Option.none_or]
    exact hbsA n
  next hh =>
  have hs : ∀ n, m.variantOf n p = (base.getD .empty).variantOf n p := by
    intro n
    rcases hr n p with ⟨t, ht, -, rfl, -⟩ | ⟨-, hs⟩
    · exact absurd ⟨t, ht, rfl⟩ hh
    · exact hs
  cases held with
  | none =>
    intro hp
    obtain ⟨n, v, hv⟩ := mem_precisions.mp hp
    exact hb (mem_precisions.mpr ⟨n, v, (hs n).symm.trans hv⟩)
  | some f =>
    obtain ⟨hp, hn⟩ := hb
    obtain ⟨n, v, hv⟩ := mem_precisions.mp hp
    refine ⟨mem_precisions.mpr ⟨n, v, (hs n).trans hv⟩, fun n => ?_⟩
    rw [hs n]
    exact hn n

end

end PublishCall

end Weights

end RadosNkv
