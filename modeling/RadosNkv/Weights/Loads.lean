import RadosNkv.Weights.Loader

/-! What a load returns. A manifest names slices of Values; a tensor is what is cut out of Values
that hash to their keys. -/

namespace RadosNkv

namespace Weights

open List Prog WeightManifest

variable {L : Libs}

def Cut (L : Libs) (get : Bytes → Option Bytes) (slice : Option Bytes × Option Int × Option Int) (piece : Bytes) :
    Prop :=
  ∃ key offset size value, slice = (some key, some offset, some size) ∧ get key = some value ∧
    chunkKey L value = key ∧ 0 ≤ offset ∧ offset + size ≤ value.length ∧
    piece = pySlice value offset (offset + size)

def Denotes (L : Libs) (get : Bytes → Option Bytes) (v : Variant) (data : Bytes) : Prop :=
  ∃ parts, List.Forall₂ (Cut L get) v.slices parts ∧ data = parts.flatten ∧ (data.length : Int) = totalSize v.slices

def Shows (L : Libs) (get : Bytes → Option Bytes) (m : WeightManifest) (p : Str) (f : Name → Option Bytes) : Prop :=
  p ∈ m.precisions ∧
    ∀ n, (m.variantOf n p = none ∧ f n = none) ∨
      ∃ v data, m.variantOf n p = some v ∧ Denotes L get v data ∧ f n = some data

abbrev KeepsChunks (L : Libs) (get get' : Bytes → Option Bytes) : Prop :=
  ∀ key v, get key = some v → chunkKey L v = key → get' key = some v

section

variable {get get' : Bytes → Option Bytes}

lemma Cut.mono (hg : KeepsChunks L get get') (h : Cut L get slice piece) :
    Cut L get' slice piece := by
  obtain ⟨key, offset, size, value, hs, hv, hk, hr⟩ := h
  exact ⟨key, offset, size, value, hs, hg key value hv hk, hk, hr⟩

variable {v : Variant} {data : Bytes} {m : WeightManifest} {p : Str} {f : Name → Option Bytes}

lemma Denotes.mono (hg : KeepsChunks L get get') (h : Denotes L get v data) : Denotes L get' v data := by
  obtain ⟨parts, hp, hd⟩ := h
  exact ⟨parts, hp.imp fun _ _ hc => hc.mono hg, hd⟩

lemma Denotes.isSome_get (h : Denotes L get v data) (hk : some key ∈ v.keys) :
    (get key).isSome := by
  obtain ⟨parts, ht, -⟩ := h
  have hy : v.slices.map Prod.fst = v.keys := map_fst_zip (by simp [v.aligned.1, v.aligned.2])
  rw [← hy] at hk
  obtain ⟨slice, hs, hf⟩ := mem_map.mp hk
  clear hy hk
  generalize v.slices = slices at ht hs
  induction ht with
  | nil => exact absurd hs not_mem_nil
  | cons hc _ ih =>
    rcases mem_cons.mp hs with rfl | hs
    · obtain ⟨k, offset, size, value, rfl, hv, -⟩ := hc
      cases hf
      simp [hv]
    · exact ih hs

lemma Denotes.agree (h : Denotes L get v data) (h' : Denotes L get' v data')
    (hg : ∀ w w', get (chunkKey L w) = some w → get' (chunkKey L w) = some w' → chunkKey L w' =
      chunkKey L w → w = w') :
    data = data' := by
  obtain ⟨parts, hp, rfl, -⟩ := h
  obtain ⟨parts', hp', rfl, -⟩ := h'
  congr 1
  generalize v.slices = slices at hp hp'
  induction hp generalizing parts' with
  | nil =>
    cases hp'
    rfl
  | cons hc _ ih =>
    cases hp' with
    | cons hc' hr =>
      obtain ⟨key, offset, size, value, rfl, hv, hk, -, -, rfl⟩ := hc
      obtain ⟨key', offset', size', value', he, hv', hk', -, -, rfl⟩ := hc'
      cases he
      subst hk
      rw [hg value value' hv hv' hk', ih _ hr]

lemma Shows.unique (h : Shows L get m p f) (h' : Shows L get' m p f')
    (hg : ∀ w w', get (chunkKey L w) = some w → get' (chunkKey L w) = some w' → chunkKey L w' =
      chunkKey L w → w = w') :
    f = f' := by
  funext n
  rcases h.2 n with ⟨hn, hf⟩ | ⟨v, data, hv, hd, hf⟩
  · rcases h'.2 n with ⟨-, hf'⟩ | ⟨v, data, hv, -⟩
    · rw [hf, hf']
    rw [hn] at hv
    cases hv
  rcases h'.2 n with ⟨hn, -⟩ | ⟨v', data', hv', hd', hf'⟩
  · rw [hn] at hv
    cases hv
  rw [hv] at hv'
  cases hv'
  rw [hf, hf', hd.agree hd' hg]

lemma Shows.mono (h : Shows L get m p f) (hg : KeepsChunks L get get') :
    Shows L get' m p f := by
  refine ⟨h.1, fun n => ?_⟩
  rcases h.2 n with hn | ⟨v, data, hv, hd, hf⟩
  · exact .inl hn
  · exact .inr ⟨v, data, hv, hd.mono hg, hf⟩

lemma Shows.same {m' : WeightManifest} (h : Shows L get m p f) (hs : m'.Same m) : Shows L get m' p f := by
  obtain ⟨hp, ht⟩ := h
  refine ⟨?_, fun n => ?_⟩
  · obtain ⟨n, v, hv⟩ := mem_precisions.mp hp
    exact mem_precisions.mpr ⟨n, v, (hs.variant n p).trans hv⟩
  rw [hs.variant n p]
  exact ht n

end

def Verified (L : Libs) (answered : Bytes → Bytes → Prop) (verified : Dict Bytes Bytes) : Prop :=
  ∀ key v, verified.get key = some v → answered key v ∧ chunkKey L v = key

section

variable {σ : Type} {h : Handler KvOp KvOp.Resp Exn σ} {I : σ → Prop} {answered : Bytes → Bytes → Prop}
  (hret : ∀ key s r s', I s → h (.retrieve key) s = (r, s') → I s' ∧ ∀ v, r = .ok (some v) → answered key v)
  {rev p : Str} {tensor : Name} {s s' : σ} {verified verified' : Dict Bytes Bytes}

include hret

lemma getVerified_ok (hs : I s) (hv : Verified L answered verified)
    (hr : (getVerified L rev p verified key tensor).run h s = (.ok (value, verified'), s')) :
    ∃ k, key = some k ∧ verified'.get k = some value ∧ Verified L answered verified' ∧
      (∀ k v, verified.get k = some v → verified'.get k = some v) ∧ I s' := by
  cases key with
  | none => cases hr
  | some k =>
    refine ⟨k, rfl, ?_⟩
    simp only [getVerified] at hr
    cases hc : verified.get k with
    | some cached =>
      rw [hc] at hr
      cases hr
      exact ⟨hc, hv, fun _ _ => id, hs⟩
    | none =>
      rw [hc] at hr
      obtain ⟨answer, s1, ha, hr⟩ := (run_bind_ok h).mp hr
      have hl : h (.retrieve k) s = (.ok answer, s1) := by
        simp only [Kv.retrieve, perform, run_call] at ha
        cases hk : h (.retrieve k) s with
        | mk r t =>
          rw [hk] at ha
          cases r with
          | ok a => exact ha
          | error e => cases ha
      obtain ⟨hs1, hg⟩ := hret k s _ s1 hs hl
      cases answer with
      | none => cases hr
      | some v =>
        simp only at hr
        split at hr
        · cases hr
        next hke =>
        cases hr
        refine ⟨Dict.get_insert_self _ _ _, fun k' v' hv' => ?_, fun k' v' hv' => ?_, hs1⟩
        · rw [Dict.get_insert] at hv'
          split at hv'
          · next he =>
            cases hv'
            exact ⟨he ▸ hg _ rfl, he ▸ not_not.mp hke⟩
          · exact hv k' v' hv'
        rw [Dict.get_insert_ne _ _ fun he => by simp [he, hc] at hv']
        exact hv'

lemma addPart_ok (hs : I s) (hv : Verified L answered verified)
    (hr : (addPart L rev p tensor (verified, parts) slice).run h s = (.ok (verified', parts'), s')) :
    (∃ piece, Cut L verified'.get slice piece ∧ parts' = parts ++ [piece]) ∧ Verified L answered verified' ∧
      (∀ k v, verified.get k = some v → verified'.get k = some v) ∧ I s' := by
  obtain ⟨⟨value, w⟩, s1, hg, hr⟩ := (run_bind_ok h).mp hr
  obtain ⟨key, hk, hl, hw, he, hs1⟩ := getVerified_ok hret hs hv hg
  obtain ⟨k, offset, size⟩ := slice
  cases hk
  cases offset with
  | none => cases hr
  | some offset =>
    cases size with
    | none => cases hr
    | some size =>
      simp only at hr
      split at hr
      · cases hr
      next hn =>
      cases hr
      rw [not_or, Int.not_lt, gt_iff_lt, Int.not_lt] at hn
      exact ⟨⟨_, ⟨key, offset, size, value, rfl, hl, (hw key value hl).2, hn.1, hn.2, rfl⟩, rfl⟩, hw, he, hs1⟩

lemma loadTensor_ok (hs : I s) (hv : Verified L answered verified)
    (hr : (loadTensor L m rev p (verified, out) tensor).run h s = (.ok (verified', out'), s')) :
    (∃ v data, m.variantOf tensor p = some v ∧ Denotes L verified'.get v data ∧ out' = out.insert tensor data) ∧
      Verified L answered verified' ∧ (∀ k v, verified.get k = some v → verified'.get k = some v) ∧ I s' := by
  obtain ⟨slices, s1, hl, hr⟩ := (run_bind_ok h).mp hr
  cases hl' : m.chunkSlices tensor p with
  | error e =>
    rw [hl'] at hl
    cases hl
  | ok slices' =>
    rw [hl'] at hl
    cases hl
    obtain ⟨v, hvr, hvs⟩ := bind_eq_ok.mp (show m.variant tensor p >>= _ = .ok slices from hl')
    cases hvs
    obtain ⟨⟨w, parts⟩, s2, hp, hr⟩ := (run_bind_ok h).mp hr
    have hf := run_foldlM_ok h
      (fun done (st : Dict Bytes Bytes × List Bytes) s => I s ∧ Verified L answered st.1 ∧
        (∀ k v, verified.get k = some v → st.1.get k = some v) ∧ List.Forall₂ (Cut L st.1.get) done st.2) []
      (fun done x st s st' s' hI hx => by
        obtain ⟨hs, hv, he, ht⟩ := hI
        obtain ⟨⟨piece, hu, hp⟩, hv', he', hs'⟩ := addPart_ok hret hs hv hx
        refine ⟨hs', hv', fun k v hk => he' k v (he k v hk), ?_⟩
        rw [hp]
        exact rel_append (ht.imp fun _ _ hc => hc.mono fun k v hk _ => he' k v hk) (.cons hu .nil))
      ⟨hs, hv, fun _ _ => id, .nil⟩ hp
    obtain ⟨hs2, hw, he, ht⟩ := hf
    simp only at hr
    split at hr
    · cases hr
    next htl =>
    cases hr
    exact ⟨⟨v, _, variant_eq_ok.mp hvr, ⟨parts, ht, rfl, not_not.mp htl⟩, rfl⟩, hw, he, hs2⟩

lemma reassemble_ok (hs : I s) (hr : (reassemble L m rev p).run h s = (.ok out, s')) :
    ∃ values, Verified L answered values ∧ Shows L values.get m p out.get := by
  unfold reassemble at hr
  split at hr
  · cases hr
  next hp =>
  obtain ⟨⟨values, out'⟩, s1, hf, hr⟩ := (run_bind_ok h).mp hr
  cases hr
  have hi := run_foldlM_ok h
    (fun done (st : Dict Bytes Bytes × Dict Name Bytes) s => I s ∧ Verified L answered st.1 ∧ ∀ n, (n ∉ done ∧ st.2.get n = none) ∨
      (n ∈ done ∧ ∃ v data, m.variantOf n p = some v ∧ Denotes L st.1.get v data ∧ st.2.get n = some data)) []
    (fun done x st s st' s' hI hx => by
      obtain ⟨hs, hv, ht⟩ := hI
      obtain ⟨⟨v, data, ha, hd, ho⟩, hv', he, hs'⟩ := loadTensor_ok hret hs hv hx
      refine ⟨hs', hv', fun n => ?_⟩
      rw [ho, Dict.get_insert]
      by_cases hn : n = x
      · subst hn
        exact .inr ⟨by simp, v, data, ha, hd, by simp⟩
      rw [if_neg hn]
      rcases ht n with ⟨ho, hno⟩ | ⟨hin, w, data, hw, hd, hdt⟩
      · exact .inl ⟨by simp [ho, hn], hno⟩
      · exact .inr ⟨by simp [hin], w, data, hw, hd.mono fun k v hk _ => he k v hk, hdt⟩)
    ⟨hs, fun _ _ hk => absurd hk (by simp), fun n => .inl ⟨not_mem_nil, rfl⟩⟩ hf
  obtain ⟨-, hl, ht⟩ := hi
  refine ⟨values, hl, not_not.mp hp, fun n => ?_⟩
  rcases ht n with ⟨ho, hno⟩ | ⟨-, hin⟩
  · left
    refine ⟨?_, hno⟩
    cases hv : m.variantOf n p with
    | none => rfl
    | some v => exact absurd (mem_tensors.mpr ⟨v, hv⟩) ho
  · exact .inr hin

end

section

variable {c : Catalog} {rev p : Str} {tensor : Name} {verified : Dict Bytes Bytes}

lemma serve_retrieve (c : Catalog) :
    ∀ key s r s', s = c → serve (.retrieve key) s = (r, s') → s' = c ∧ ∀ v, r = .ok (some v) → c.get key = some v := by
  rintro key s r s' rfl hs
  cases hs
  exact ⟨rfl, fun v hv => Except.ok.inj hv⟩

lemma getVerified_run (rev p : Str) (tensor : Name)
    (hv : Verified L (fun key v => c.get key = some v) verified) (hg : c.get key = some value)
    (hk : chunkKey L value = key) :
    ∃ verified', (getVerified L rev p verified (some key) tensor).run serve c = (.ok (value, verified'), c) := by
  simp only [getVerified]
  cases hc : verified.get key with
  | some cached =>
    have hh : c.get key = some cached := (hv key cached hc).1
    rw [hg] at hh
    cases hh
    exact ⟨verified, rfl⟩
  | none =>
    refine ⟨verified.insert key value, ?_⟩
    simp [Kv.retrieve, perform, run_call, serve, hg, hk]

lemma addParts_run (rev p : Str) (tensor : Name) (ht : List.Forall₂ (Cut L c.get) slices parts)
    (acc : List Bytes) (hv : Verified L (fun key v => c.get key = some v) verified) :
    ∃ verified', (slices.foldlM (addPart L rev p tensor) (verified, acc)).run serve c =
        (.ok (verified', acc ++ parts), c) ∧ Verified L (fun key v => c.get key = some v) verified' := by
  induction ht generalizing verified acc with
  | nil => exact ⟨verified, by simp, hv⟩
  | @cons slice piece slices parts hc _ ih =>
    obtain ⟨key, offset, size, value, rfl, hg, hk, hl, hh, rfl⟩ := hc
    obtain ⟨w, hw⟩ := getVerified_run rev p tensor hv hg hk
    have hp : (addPart L rev p tensor (verified, acc) (some key, some offset, some size)).run serve c =
        (.ok (w, acc ++ [pySlice value offset (offset + size)]), c) := by
      refine (run_bind_ok serve).mpr ⟨_, _, hw, ?_⟩
      simp only
      rw [if_neg (by omega)]
      rfl
    have hwv := (addPart_ok (serve_retrieve c) rfl hv hp).2.1
    obtain ⟨w', hr, hw'⟩ := ih (acc ++ [pySlice value offset (offset + size)]) hwv
    refine ⟨w', ?_, hw'⟩
    rw [foldlM_cons]
    refine (run_bind_ok serve).mpr ⟨_, _, hp, ?_⟩
    rw [hr, append_assoc]
    rfl

lemma loadTensor_run (rev : Str) {m : WeightManifest} (out : Dict Name Bytes)
    (ha : m.variantOf tensor p = some v) (hd : Denotes L c.get v data)
    (hv : Verified L (fun key v => c.get key = some v) verified) :
    ∃ st, (loadTensor L m rev p (verified, out) tensor).run serve c = (.ok st, c) := by
  obtain ⟨parts, hc, rfl, ht⟩ := hd
  obtain ⟨w, hp, -⟩ := addParts_run rev p tensor hc [] hv
  have hs : m.chunkSlices tensor p = .ok v.slices := by
    rw [chunkSlices, variant_eq_ok.mpr ha]
    rfl
  refine ⟨(w, out.insert tensor parts.flatten), (run_bind_ok serve).mpr ⟨v.slices, c, ?_, ?_⟩⟩
  · rw [hs]
    rfl
  refine (run_bind_ok serve).mpr ⟨_, _, hp, ?_⟩
  simp only [nil_append]
  rw [if_neg (not_not.mpr ht)]
  rfl

lemma reassemble_run (rev : Str) (hh : Shows L c.get m p f) :
    ∃ out, (reassemble L m rev p).run serve c = (.ok out, c) := by
  obtain ⟨hp, htn⟩ := hh
  unfold reassemble
  rw [if_neg (not_not.mpr hp)]
  let I : List Name → Dict Bytes Bytes × Dict Name Bytes → Catalog → Prop :=
    fun _ st s => s = c ∧ Verified L (fun key v => c.get key = some v) st.1
  have ht : ∀ done n st s, n ∈ m.tensors p → I done st s →
      ∃ st' s', (loadTensor L m rev p st n).run serve s = (.ok st', s') ∧ I (done ++ [n]) st' s' := by
    rintro done n st s hn ⟨rfl, hv⟩
    obtain ⟨v, ha⟩ := mem_tensors.mp hn
    rcases htn n with ⟨ho, -⟩ | ⟨w, data, hw, hd, -⟩
    · rw [ho] at ha
      cases ha
    obtain ⟨st', ht'⟩ := loadTensor_run rev st.2 hw hd hv
    obtain ⟨-, hv', -, hs'⟩ := loadTensor_ok (serve_retrieve s) rfl hv ht'
    exact ⟨st', s, ht', hs', hv'⟩
  obtain ⟨st, s, hf, hs, -⟩ := run_foldlM_total serve I [] ht
    (b := (.empty, .empty)) ⟨rfl, fun _ _ hk => absurd hk (by simp)⟩
  subst hs
  exact ⟨st.2, (run_bind_ok serve).mpr ⟨st, s, hf, rfl⟩⟩

def Loads (L : Libs) (c : Catalog) (rev p : Str) (f : Name → Option Bytes) : Prop :=
  ∃ out, ((load L rev p).run serve c).1 = .ok out ∧ out.get = f

def manifestOf (L : Libs) (c : Catalog) (rev : Str) : Option WeightManifest :=
  match c.get (manifestKey L rev) with
  | none => none
  | some raw =>
    match WeightManifest.fromIpc L raw with
    | .ok m => some m
    | .error _ => none

lemma loadManifest_run (L : Libs) (c : Catalog) (rev : Str) :
    (loadManifest L rev).run serve c = (.ok m, c) ↔ manifestOf L c rev = some m := by
  simp only [loadManifest, Kv.retrieve, perform_bind, run_call, serve, manifestOf]
  cases c.get (manifestKey L rev) with
  | none => simp [raise]
  | some raw =>
    simp only
    cases fromIpc L raw with
    | ok m' => exact ⟨fun h => by cases h; rfl, fun h => by cases h; rfl⟩
    | error e => exact ⟨fun h => (by cases h), fun h => by cases h⟩

lemma reads_loadManifest (L : Libs) (rev : Str) : Reads (fun key => key = manifestKey L rev) (loadManifest L rev) := by
  refine ⟨⟨_, rfl, rfl⟩, fun r => ?_⟩
  cases r <;> trivial

lemma loads_iff :
    Loads L c rev p f ↔ ∃ m, manifestOf L c rev = some m ∧ Shows L c.get m p f := by
  constructor
  · rintro ⟨out, hr, rfl⟩
    have hld : (load L rev p).run serve c = (.ok out, ((load L rev p).run serve c).2) := Prod.ext hr rfl
    obtain ⟨m, s, hm, hrs⟩ := (run_bind_ok serve).mp hld
    have hs : s = c := by
      have hrd := run_of_reads (reads_loadManifest L rev) fun key _ => (rfl : c.get key = c.get key)
      rw [hm] at hrd
      exact (Prod.mk.inj hrd).2
    subst hs
    obtain ⟨values, hl, hh⟩ := reassemble_ok (serve_retrieve s) rfl hrs
    refine ⟨m, (loadManifest_run L s rev).mp hm, hh.1, fun n => ?_⟩
    rcases hh.2 n with hn | ⟨v, data, hv, hd, ht⟩
    · exact .inl hn
    · exact .inr ⟨v, data, hv, hd.mono fun key w hw _ => (hl key w hw).1, ht⟩
  rintro ⟨m, hm, hh⟩
  obtain ⟨out, ho⟩ := reassemble_run rev hh
  obtain ⟨values, hl, hh'⟩ := reassemble_ok (serve_retrieve c) rfl ho
  have hld : (load L rev p).run serve c = (.ok out, c) :=
    (run_bind_ok serve).mpr ⟨m, c, (loadManifest_run L c rev).mpr hm, ho⟩
  refine ⟨out, by rw [hld], hh'.unique hh fun w w' hw hw' _ => ?_⟩
  have hc : c.get (chunkKey L w) = some w := (hl _ w hw).1
  rw [hc] at hw'
  exact Option.some.inj hw'

end

end Weights

end RadosNkv
