import Mathlib.Algebra.BigOperators.Group.List.Basic
import RadosNkv.Weights.RoundTrip

/-! The GPU-direct load (`iter_named_tensors_gpu`) beside the load through the host. -/

namespace RadosNkv.Weights

open List WeightManifest

/-- The exceptions of the GPU-direct load; `reshape` is torch's. -/
inductive GpuExn where
  | manifest (e : Exn)
  | precisionNotFound (precision : Str) (available : List Str)
  | unknownDtype (dtype : Str)
  | typeError
  | missingChunk (key : Bytes)
  | integrity (key actual : Bytes)
  | sliceExceedsValue (size : Int) (tensor : Name) (len : Nat)
  | sliceSize (size : Int) (tensor : Name) (expected : Int)
  | sliceOutOfRange (offset stop : Int) (tensor : Name) (key : Bytes) (len : Nat)
  | indexError
  | lengthOfTensor (tensor : Name) (len : Nat) (total : Int)
  | reshape (shape : List (Option Int))
deriving DecidableEq

section

variable (L : Libs) (get : Bytes → Option Bytes) (verify : Bool) (itemsize : Str → Option Nat)

/-- `_retrieve_value_gpu`, with the Values that are in GPU regions already. -/
def retrieveValueGpu (gpuValues : Dict Bytes Bytes) (key : Option Bytes) : Except GpuExn (Bytes × Dict Bytes Bytes) :=
  match key with
  | none => .error .typeError
  | some key =>
    match gpuValues.get key with
    | some cached => .ok (cached, gpuValues)
    | none =>
      match get key with
      | none => .error (.missingChunk key)
      | some value =>
        if verify ∧ chunkKey L value ≠ key then .error (.integrity key (chunkKey L value))
        else .ok (value, gpuValues.insert key value)

def addPartGpu (tensor : Name) (st : Dict Bytes Bytes × List Bytes) (slice : Option Bytes × Option Int × Option Int) :
    Except GpuExn (Dict Bytes Bytes × List Bytes) := do
  let (value, gpuValues) ← retrieveValueGpu L get verify st.1 slice.1
  match slice.2.1, slice.2.2 with
  | some offset, some size =>
    if offset < 0 ∨ offset + size > value.length then
      .error (.sliceOutOfRange offset (offset + size) tensor (slice.1.getD []) value.length)
    else .ok (gpuValues, st.2 ++ [pySlice value offset (offset + size)])
  | _, _ => .error .typeError

def nelem (shape : List (Option Int)) : Int := (shape.map (·.getD 0)).prod

def asTensor (data : Bytes) (item : Nat) (shape : List (Option Int)) : Except GpuExn Bytes :=
  if (∀ d ∈ shape, 0 ≤ d.getD (-1)) ∧ (data.length : Int) = nelem shape * item then .ok data
  else .error (.reshape shape)

/-- The fast path: one slice from the start of its Value. -/
def wholeTensorGpu (gpuValues : Dict Bytes Bytes) (tensor : Name) (item : Nat) (shape : List (Option Int))
    (key : Option Bytes) (size : Option Int) : Except GpuExn (Dict Bytes Bytes × Bytes) := do
  let (value, gpuValues) ← retrieveValueGpu L get verify gpuValues key
  match size with
  | none => .error .typeError
  | some size =>
    if size > value.length then .error (.sliceExceedsValue size tensor value.length)
    else if size ≠ nelem shape * item then .error (.sliceSize size tensor (nelem shape * item))
    else do
      let data ← asTensor (pySlice value 0 size) item shape
      .ok (gpuValues, data)

/-- The path of packed and of several slices. -/
def packedTensorGpu (gpuValues : Dict Bytes Bytes) (tensor : Name) (item : Nat) (shape : List (Option Int))
    (slices : List (Option Bytes × Option Int × Option Int)) : Except GpuExn (Dict Bytes Bytes × Bytes) := do
  let (gpuValues, parts) ← slices.foldlM (addPartGpu L get verify tensor) (gpuValues, [])
  if parts = [] then .error .indexError
  else if (parts.flatten.length : Int) ≠ totalSize slices then
    .error (.lengthOfTensor tensor parts.flatten.length (totalSize slices))
  else do
    let data ← asTensor parts.flatten item shape
    .ok (gpuValues, data)

/-- One round of the loop: the tensor that is yielded behind those before it. -/
def loadTensorGpu (m : WeightManifest) (p : Str) (st : Dict Bytes Bytes × List (Name × Bytes)) (tensor : Name) :
    Except GpuExn (Dict Bytes Bytes × List (Name × Bytes)) :=
  match m.variant tensor p with
  | .error e => .error (.manifest e)
  | .ok v =>
    let shape := (m.shapeOf tensor).getD []
    match itemsize v.dtype with
    | none => .error (.unknownDtype v.dtype)
    | some item => do
      let (gpuValues, data) ← match v.slices with
        | [(key, some 0, size)] => wholeTensorGpu L get verify st.1 tensor item shape key size
        | slices => packedTensorGpu L get verify st.1 tensor item shape slices
      .ok (gpuValues, st.2 ++ [(tensor, data)])

def iterNamedTensorsGpu (m : WeightManifest) (p : Str) : Except GpuExn (List (Name × Bytes)) :=
  if p ∉ m.precisions then .error (.precisionNotFound p m.precisions)
  else ((m.tensors p).foldlM (loadTensorGpu L get verify itemsize m p) (.empty, [])).map Prod.snd

def TensorSpec.Sized (t : TensorSpec) : Prop :=
  (∀ d ∈ t.shape, 0 ≤ d) ∧ ∃ item, itemsize t.dtype = some item ∧ (t.data.length : Int) = t.shape.prod * item

/-- The manifests that publishes of such tensors make, each on the one before it or on none, and
those that are read back from them, on a catalog that has their Values. -/
inductive PublishedManifest (kvvml : Int) : WeightManifest → Prop
  | empty : PublishedManifest kvvml .empty
  | publish {base m : WeightManifest} (call : PublishCall) : PublishedManifest kvvml base → 0 < call.cap kvvml →
    (∀ t ∈ TensorsSpec.all call.tensors, t.2.Sized itemsize) →
    (∀ v ∈ call.values kvvml, get (chunkKey L v) = some v) → call.manifest L kvvml (some base) = .ok m →
    PublishedManifest kvvml m
  | reread {m m' : WeightManifest} : PublishedManifest kvvml m → m'.Same m → PublishedManifest kvvml m'

def WellSized (m : WeightManifest) : Prop :=
  ∀ n p v, m.variantOf n p = some v → ∃ (data : Bytes) (shape : List Int) (item : Nat), Denotes L get v data ∧
    m.shapeOf n = some (shape.map some) ∧ (∀ d ∈ shape, 0 ≤ d) ∧ itemsize v.dtype = some item ∧
    (data.length : Int) = shape.prod * item

end

variable {L : Libs} {get : Bytes → Option Bytes} {itemsize : Str → Option Nat} {m : WeightManifest}

lemma WellSized.recordTensor {t : (Str × Str) × TensorSpec} (h : WellSized L get itemsize m) (hz : t.2.Sized itemsize)
    (hc : ∀ v : Variant, v.Of (recs t.1) → Denotes L get v t.2.data) (hm : Weights.recordTensor recs m t = .ok m') :
    WellSized L get itemsize m' := by
  obtain ⟨v, ht, hk, hzs, ho, hh, -, rfl⟩ := addTensor_eq_ok.mp hm
  have hsm : (m.shapeOf (some t.1.1)).getD (t.2.shape.map some) = t.2.shape.map some := by
    cases hs : m.shapeOf (some t.1.1) with
    | none => rfl
    | some s => exact hh s hs
  intro n p w hw
  rw [variantOf_record] at hw
  rw [shapeOf_record, hsm]
  split at hw
  · next he =>
    cases hw
    obtain ⟨hdm, item, hi, hl⟩ := hz
    exact ⟨t.2.data, t.2.shape, item, hc v ⟨hk, ho, hzs⟩, if_pos he.1, hdm, ht ▸ hi, hl⟩
  obtain ⟨data, shape, item, hd, hold, hr⟩ := h n p w hw
  refine ⟨data, shape, item, hd, ?_, hr⟩
  split
  · next he => exact congrArg some (hh _ (he ▸ hold)).symm
  · exact hold

lemma WellSized.recordTensors {ts : List ((Str × Str) × TensorSpec)}
    (h : WellSized L get itemsize m) (hs : ∀ t ∈ ts, t.2.Sized itemsize)
    (hr : ∀ t ∈ ts, ∀ v : Variant, v.Of (recs t.1) → Denotes L get v t.2.data)
    (hm : ts.foldlM (Weights.recordTensor recs) m = .ok m') : WellSized L get itemsize m' := by
  induction ts generalizing m with
  | nil =>
    cases hm
    exact h
  | cons t ts ih =>
    rw [foldlM_cons] at hm
    obtain ⟨m1, hm1, hm⟩ := bind_eq_ok.mp hm
    exact ih (h.recordTensor (hs t mem_cons_self) (hr t mem_cons_self) hm1)
      (fun t ht => hs t (mem_cons_of_mem _ ht)) (fun t ht => hr t (mem_cons_of_mem _ ht)) hm

lemma PublishedManifest.wellSized {kvvml : Int}
    (h : PublishedManifest L get itemsize kvvml m) : WellSized L get itemsize m := by
  induction h with
  | empty => exact fun n p v hv => by simp at hv
  | publish call _ hc hz hg hm ih =>
    exact ih.recordTensors hz (fun t ht v hv => PublishCall.denotes_recs hc hg ht hv) hm
  | reread _ hs ih =>
    intro n p v hv
    rw [hs.shape]
    exact ih n p v (hs.variant n p ▸ hv)

def Landed (get : Bytes → Option Bytes) (gpuValues : Dict Bytes Bytes) : Prop :=
  ∀ key v, gpuValues.get key = some v → get key = some v

variable {p : Str}

section

variable {gpuValues : Dict Bytes Bytes} (verify : Bool)

lemma retrieveValueGpu_ok (hland : Landed get gpuValues) (hg : get key = some value)
    (hk : chunkKey L value = key) :
    ∃ gpuValues', retrieveValueGpu L get verify gpuValues (some key) = .ok (value, gpuValues') ∧
      Landed get gpuValues' := by
  simp only [retrieveValueGpu]
  cases hc : gpuValues.get key with
  | some cached =>
    have hh := hland key cached hc
    rw [hg] at hh
    cases hh
    exact ⟨gpuValues, rfl, hland⟩
  | none =>
    refine ⟨gpuValues.insert key value, by simp [hg, hk], fun k v hv => ?_⟩
    rw [Dict.get_insert] at hv
    split at hv
    · next he => rw [he, hg, ← hv]
    · exact hland k v hv

variable {parts : List Bytes}

lemma addPartsGpu_ok (tensor : Name)
    (ht : List.Forall₂ (Cut L get) slices parts) (acc : List Bytes) (hland : Landed get gpuValues) :
    ∃ gpuValues', slices.foldlM (addPartGpu L get verify tensor) (gpuValues, acc) = .ok (gpuValues', acc ++ parts) ∧
      Landed get gpuValues' := by
  induction ht generalizing gpuValues acc with
  | nil => exact ⟨gpuValues, by rw [append_nil]; rfl, hland⟩
  | @cons slice piece slices parts hc _ ih =>
    obtain ⟨key, offset, size, value, rfl, hg, hk, hl, hh, rfl⟩ := hc
    obtain ⟨values, hvl, hv⟩ := retrieveValueGpu_ok verify hland hg hk
    have hp : addPartGpu L get verify tensor (gpuValues, acc) (some key, some offset, some size) =
        .ok (values, acc ++ [pySlice value offset (offset + size)]) := by
      have hi : ¬ (offset < 0 ∨ offset + size > (value.length : Int)) := by omega
      simp only [addPartGpu, hvl]
      exact if_neg hi
    obtain ⟨values', hr, hv'⟩ := ih (acc ++ [pySlice value offset (offset + size)]) hv
    refine ⟨values', ?_, hv'⟩
    rw [append_assoc] at hr
    rw [foldlM_cons, hp]
    exact hr

lemma nelem_some (shape : List Int) : nelem (shape.map some) = shape.prod := by
  rw [nelem, map_map]
  exact congrArg List.prod (map_id shape)

lemma asTensor_ok {data : Bytes} {shape : List Int} {item : Nat} (hm : ∀ d ∈ shape, 0 ≤ d)
    (hl : (data.length : Int) = shape.prod * item) : asTensor data item (shape.map some) = .ok data := by
  refine if_pos ⟨fun d hd => ?_, by rw [nelem_some]; exact hl⟩
  obtain ⟨i, hi, rfl⟩ := mem_map.mp hd
  exact hm i hi

variable {tensor : Name} {data : Bytes} {shape : List Int} {item : Nat}

section

variable (hland : Landed get gpuValues)
include hland

lemma wholeTensorGpu_ok (hc : Cut L get (key, some 0, size) data) (hd : ∀ d ∈ shape, 0 ≤ d)
    (hl : (data.length : Int) = shape.prod * item)
    (ht : (data.length : Int) = totalSize [(key, some 0, size)]) :
    ∃ gpuValues', wholeTensorGpu L get verify gpuValues tensor item (shape.map some) key size =
      .ok (gpuValues', data) ∧ Landed get gpuValues' := by
  obtain ⟨k, offset, n, value, he, hg, hk, -, hh, rfl⟩ := hc
  cases he
  obtain ⟨values, hvl, hv⟩ := retrieveValueGpu_ok verify hland hg hk
  refine ⟨values, ?_, hv⟩
  have hn : ((pySlice value 0 (0 + n)).length : Int) = n := by simpa [totalSize] using ht
  have hf : ¬ n > (value.length : Int) := by omega
  have hs : ¬ n ≠ nelem (shape.map some) * item := by
    rw [nelem_some, ← hl]
    omega
  rw [Int.zero_add] at hl ⊢
  simp only [wholeTensorGpu, hvl]
  exact (if_neg hf).trans ((if_neg hs).trans (by rw [asTensor_ok hd hl]; rfl))

lemma packedTensorGpu_ok (hc : List.Forall₂ (Cut L get) slices parts) (hs : slices ≠ [])
    (ht : (parts.flatten.length : Int) = totalSize slices) (hd : ∀ d ∈ shape, 0 ≤ d)
    (hl : (parts.flatten.length : Int) = shape.prod * item) :
    ∃ gpuValues', packedTensorGpu L get verify gpuValues tensor item (shape.map some) slices =
      .ok (gpuValues', parts.flatten) ∧ Landed get gpuValues' := by
  obtain ⟨values, hp, hv⟩ := addPartsGpu_ok verify tensor hc [] hland
  refine ⟨values, ?_, hv⟩
  have hn : parts ≠ [] := by
    rintro rfl
    exact hs (forall₂_nil_right_iff.mp hc)
  simp only [packedTensorGpu, hp]
  exact (if_neg hn).trans ((if_neg (not_not.mpr ht)).trans (by
    simp only [nil_append]
    rw [asTensor_ok hd hl]
    rfl))

lemma loadTensorGpu_ok (out : List (Name × Bytes)) (hv : m.variantOf tensor p = some v)
    (hd : Denotes L get v data) (hs : m.shapeOf tensor = some (shape.map some))
    (hm : ∀ d ∈ shape, 0 ≤ d) (hi : itemsize v.dtype = some item)
    (hl : (data.length : Int) = shape.prod * item) (hsm : v.slices ≠ []) :
    ∃ gpuValues', loadTensorGpu L get verify itemsize m p (gpuValues, out) tensor =
      .ok (gpuValues', out ++ [(tensor, data)]) ∧ Landed get gpuValues' := by
  obtain ⟨parts, hct, rfl, ht⟩ := hd
  simp only [loadTensorGpu, variant_eq_ok.mpr hv, hs, hi, Option.getD_some]
  split
  · next key size he =>
    rw [he] at hct ht
    obtain ⟨piece, rest, hc, hn, rfl⟩ := forall₂_cons_left_iff.mp hct
    obtain rfl := forall₂_nil_left_iff.mp hn
    rw [flatten_singleton] at hl ht ⊢
    obtain ⟨values, hld, hvl⟩ := wholeTensorGpu_ok verify hland hc hm hl ht
    exact ⟨values, by rw [hld]; rfl, hvl⟩
  obtain ⟨values, hld, hvl⟩ := packedTensorGpu_ok verify hland hct hsm ht hm hl
  exact ⟨values, by rw [hld]; rfl, hvl⟩

end

lemma loadTensorsGpu_ok (h : WellSized L get itemsize m)
    (hsm : ∀ n v, m.variantOf n p = some v → v.slices ≠ []) (hf : Shows L get m p f)
    {names : List Name} (hm : ∀ n ∈ names, n ∈ m.tensors p) (out : List (Name × Bytes))
    (hland : Landed get gpuValues) :
    ∃ gpuValues' out', names.foldlM (loadTensorGpu L get verify itemsize m p) (gpuValues, out) =
      .ok (gpuValues', out ++ out') ∧ out'.map Prod.fst = names ∧ ∀ e ∈ out', f e.1 = some e.2 := by
  induction names generalizing gpuValues out with
  | nil => exact ⟨gpuValues, [], by rw [append_nil]; rfl, rfl, fun e he => absurd he not_mem_nil⟩
  | cons n names ih =>
    obtain ⟨v, hv⟩ := mem_tensors.mp (hm n mem_cons_self)
    obtain ⟨data, shape, item, hd, hh, hdm, hi, hl⟩ := h n p v hv
    obtain ⟨values, hld, hvl⟩ :=
      loadTensorGpu_ok verify hland out hv hd hh hdm hi hl (hsm n v hv)
    obtain ⟨values', out', hr, hs, ha⟩ :=
      ih (fun n hn => hm n (mem_cons_of_mem _ hn)) (out ++ [(n, data)]) hvl
    have ht : f n = some data := by
      rcases hf.2 n with ⟨ho, -⟩ | ⟨w, data', hw, hd', ht'⟩
      · rw [ho] at hv
        cases hv
      rw [hv] at hw
      cases hw
      rw [ht', hd.agree hd' fun w w' hw hw' _ => Option.some.inj (hw.symm.trans hw')]
    refine ⟨values', (n, data) :: out', ?_, by rw [map_cons, hs], ?_⟩
    · rw [append_assoc] at hr
      rw [foldlM_cons, hld]
      exact hr
    intro e he
    rcases mem_cons.mp he with rfl | he
    · exact ht
    · exact ha e he

end

lemma WellSized.shows (h : WellSized L get itemsize m) (hp : p ∈ m.precisions) : ∃ f, Shows L get m p f := by
  have ha : ∀ n, ∃ o : Option Bytes, (m.variantOf n p = none ∧ o = none) ∨
      ∃ v data, m.variantOf n p = some v ∧ Denotes L get v data ∧ o = some data := by
    intro n
    cases hv : m.variantOf n p with
    | none => exact ⟨none, .inl ⟨rfl, rfl⟩⟩
    | some v =>
      obtain ⟨data, -, -, hd, -⟩ := h n p v hv
      exact ⟨some data, .inr ⟨v, data, rfl, hd, rfl⟩⟩
  choose f hf using ha
  exact ⟨f, hp, hf⟩

/-- A load that gets through has met no tensor without slices: there would be no part to clone. -/
lemma slices_ne_nil_of_load {names : List Name}
    (h : names.foldlM (loadTensorGpu L get verify itemsize m p) st = .ok st') (hn : n ∈ names)
    (hv : m.variantOf n p = some v) : v.slices ≠ [] := by
  induction names generalizing st with
  | nil => cases hn
  | cons k names ih =>
    rw [foldlM_cons] at h
    obtain ⟨st1, hk, h⟩ := bind_eq_ok.mp h
    rcases mem_cons.mp hn with rfl | hn
    · intro hs
      simp only [loadTensorGpu, variant_eq_ok.mpr hv, hs] at hk
      split at hk <;> cases hk
    · exact ih h hn

/-- For published tensors the GPU-direct load yields the tensors of the precision with the bytes
that the load through the host returns, exactly if none of them is without slices; both fail for a
precision that is not there. -/
theorem gpu_load_agrees (L : Libs) (c : Catalog) (verify : Bool) (itemsize : Str → Option Nat)
    (kvvml : Int) (m : WeightManifest) (hm : PublishedManifest L c.get itemsize kvvml m)
    (rev p : Str) :
    (p ∈ m.precisions →
      ((∃ out host, iterNamedTensorsGpu L c.get verify itemsize m p = .ok out ∧
        (reassemble L m rev p).run serve c = (.ok host, c) ∧ out.map Prod.fst = m.tensors p ∧
          ∀ n data, (n, data) ∈ out ↔ host.get n = some data) ↔
        ∀ n v, m.variantOf n p = some v → v.slices ≠ [])) ∧
    (p ∉ m.precisions →
      iterNamedTensorsGpu L c.get verify itemsize m p = .error (.precisionNotFound p m.precisions) ∧
      (reassemble L m rev p).run serve c =
        (.error (.precisionNotFound p (canonicalRevision L rev) m.precisions), c)) := by
  refine ⟨fun hp => ⟨?_, fun hsome => ?_⟩, fun hp => ⟨if_pos hp, by rw [reassemble, if_pos hp]; rfl⟩⟩
  · rintro ⟨out, -, hload, -⟩ n v hv
    rw [iterNamedTensorsGpu, if_neg (not_not.mpr hp)] at hload
    cases hfold : (m.tensors p).foldlM (loadTensorGpu L c.get verify itemsize m p) (.empty, []) with
    | error e =>
      rw [hfold] at hload
      cases hload
    | ok st => exact slices_ne_nil_of_load hfold (mem_tensors.mpr ⟨v, hv⟩) hv
  obtain ⟨f, hshows⟩ := hm.wellSized.shows hp
  obtain ⟨host, hhost⟩ := reassemble_run rev hshows
  obtain ⟨values, hvalues, hshows'⟩ := reassemble_ok (serve_retrieve c) rfl hhost
  have hget : host.get = f := hshows'.unique hshows fun w w' hw hw' _ =>
    Option.some.inj (((hvalues _ w hw).1).symm.trans hw')
  obtain ⟨_, out, hfold, hnames, hout⟩ := loadTensorsGpu_ok verify hm.wellSized hsome hshows (fun _ hn => hn) []
    (show Landed c.get .empty from fun key v hv => by simp at hv)
  refine ⟨out, host, ?_, hhost, hnames, fun n data => ⟨fun hmem => ?_, fun hdata => ?_⟩⟩
  · rw [iterNamedTensorsGpu, if_neg (not_not.mpr hp), hfold]
    rfl
  · rw [hget]
    exact hout _ hmem
  · rw [hget] at hdata
    have hn : n ∈ out.map Prod.fst := by
      rw [hnames]
      rcases hshows.2 n with ⟨-, hnone⟩ | ⟨v, _, hv, -⟩
      · rw [hnone] at hdata
        cases hdata
      · exact mem_tensors.mpr ⟨v, hv⟩
    obtain ⟨e, he, rfl⟩ := mem_map.mp hn
    have heq := hout e he
    rw [hdata] at heq
    cases heq
    exact he

def u8Size (dtype : Str) : Option Nat := if dtype = ['U', '8'] then some 1 else none

lemma publishFp16_sized (data : Bytes) : ∀ t ∈ TensorsSpec.all (oneTensor ['t'] fp16 data), t.2.Sized u8Size := by
  intro t ht
  have ht := ht
  rw [mem_singleton.mp ht]
  exact ⟨by simp, 1, rfl, by simp⟩

theorem gpu_load_agrees_fp16 :
    let L := standIn someDigests []
    let c := putValues L .empty (publishFp16.values 64)
    let m := manifestOr L publishFp16 (some .empty)
    ∃ out host, iterNamedTensorsGpu L c.get true u8Size m fp16 = .ok out ∧
      (reassemble L m modelRev fp16).run serve c = (.ok host, c) ∧
        out.map Prod.fst = m.tensors fp16 ∧
        ∀ n data, (n, data) ∈ out ↔ host.get n = some data := by
  intro L c m
  have hok : publishFp16.manifest L 64 (some .empty) = .ok m := by
    have hres : (publishFp16.manifest L 64 (some .empty)).toOption.isSome = true := by decide +kernel
    show _ = Except.ok (manifestOr L publishFp16 (some .empty))
    unfold manifestOr
    cases hm : publishFp16.manifest L 64 (some .empty) with
    | ok m' => rfl
    | error e =>
      rw [hm] at hres
      cases hres
  have hsm : ∀ n v, m.variantOf n fp16 = some v → v.slices ≠ [] := by
    intro n v hv
    have hn := mem_tensors.mpr ⟨v, hv⟩
    rw [show m.tensors fp16 = [some ['t']] from by decide +kernel] at hn
    rw [mem_singleton.mp hn] at hv
    have hall : (m.variantOf (some ['t']) fp16).all (fun v => v.slices ≠ []) = true := by decide +kernel
    rw [hv] at hall
    simpa using hall
  exact (gpu_load_agrees L c true u8Size 64 m (.publish publishFp16 .empty (by decide) (publishFp16_sized _)
    (by decide +kernel) hok) modelRev fp16).1 (by decide +kernel) |>.mpr hsm

def publishEmpty : PublishCall := { modelRevision := modelRev, tensors := oneTensor ['t'] fp16 [] }

/-- A tensor of the shape `[0]`: the host load returns no bytes for it, and the GPU-direct load an
`IndexError`. -/
theorem gpu_load_fails_on_empty :
    let L := standIn someDigests []
    let m := manifestOr L publishEmpty (some .empty)
    (∀ t ∈ TensorsSpec.all publishEmpty.tensors, t.2.Sized u8Size) ∧
      (publishEmpty.manifest L 64 (some .empty)).toOption.isSome ∧ publishEmpty.values 64 = [] ∧
      iterNamedTensorsGpu L (Dict.empty : Catalog).get false u8Size m fp16 = .error .indexError ∧
      (((reassemble L m modelRev fp16).run serve .empty).1.toOption.map fun host =>
        host.get (some ['t'])) =
        some (some []) :=
  ⟨publishFp16_sized _, by decide +kernel⟩

end RadosNkv.Weights
