import RadosNkv.Weights.RoundTrip

/-! A load against a store that answers whatever it likes. -/

namespace RadosNkv

namespace Weights

open Prog

structure Provenance where
  published : Name → Str → Option Bytes
  foreign : Name → Str → Prop
  values : Set Bytes

namespace Provenance

def none : Provenance := ⟨fun _ _ => .none, fun _ _ => False, ∅⟩

def elsewhere (m : WeightManifest) : Provenance := ⟨fun _ _ => .none, fun n p => m.variantOf n p ≠ .none, ∅⟩

def add (pr : Provenance) (kvvml : Int) (call : PublishCall) : Provenance where
  published n p := (TensorsSpec.at call.tensors p n).or (pr.published n p)
  foreign := pr.foreign
  values := { v | v ∈ pr.values ∨ v ∈ call.values kvvml }

end Provenance

/-- The bytes of a manifest that publishes have made, each on a catalog of its own: the first one
without a base or on a manifest from elsewhere, and each later one on the manifest of the one
before. -/
inductive Produced (L : Libs) : Bytes → Provenance → Prop where
  | elsewhere {raw : Bytes} {m : WeightManifest} (hm : WeightManifest.fromIpc L raw = .ok m) :
    Produced L raw (.elsewhere m)
  | fresh {kvvml : Int} {call : PublishCall} {c c' : Catalog} {stats : PublishStats} {raw : Bytes}
    (hrun : (publish L kvvml call).run serve c = (.ok stats, c'))
    (hbase : call.merge = false ∨ c.get (manifestKey L call.modelRevision) = none)
    (hraw : c'.get (manifestKey L call.modelRevision) = some raw) : Produced L raw (Provenance.none.add kvvml call)
  | merged {kvvml : Int} {call : PublishCall} {c c' : Catalog} {stats : PublishStats} {raw raw' : Bytes}
    {pr : Provenance} (hbefore : Produced L raw pr) (hmerge : call.merge = true)
    (hbase : c.get (manifestKey L call.modelRevision) = some raw)
    (hrun : (publish L kvvml call).run serve c = (.ok stats, c'))
    (hraw : c'.get (manifestKey L call.modelRevision) = some raw') : Produced L raw' (pr.add kvvml call)

def Tells (L : Libs) (get : Bytes → Option Bytes) (m : WeightManifest) (pr : Provenance) : Prop :=
  ∀ n p, (∀ data, pr.published n p = some data → ∃ v, m.variantOf n p = some v ∧ Denotes L get v data) ∧
    (m.variantOf n p ≠ none → pr.published n p ≠ none ∨ pr.foreign n p)

section

variable {L : Libs} {get : Bytes → Option Bytes} {pr : Provenance} {m : WeightManifest}

lemma Tells.same {m' : WeightManifest} (h : Tells L get m pr) (hs : m'.Same m) : Tells L get m' pr := by
  intro n p
  rw [hs.variant n p]
  exact h n p

lemma at_eq_some :
    TensorsSpec.at tensors p n = some data ↔ ∃ name t, n = some name ∧ ((name, p), t) ∈ TensorsSpec.all tensors ∧ t.data = data := by
  simp only [TensorsSpec.at, Option.bind_eq_some_iff, Option.map_eq_some_iff, mem_all]
  constructor
  · rintro ⟨name, rfl, t, ht, rfl⟩
    exact ⟨name, t, rfl, ht, rfl⟩
  rintro ⟨name, t, rfl, ht, rfl⟩
  exact ⟨name, rfl, t, ht, rfl⟩

variable {call : PublishCall}

lemma Tells.manifest {base : Option WeightManifest} (h : Tells L get (base.getD .empty) pr)
    (hc : 0 < call.cap kvvml) (hg : ∀ v ∈ call.values kvvml, get (chunkKey L v) = some v)
    (hm : call.manifest L kvvml base = .ok m) :
    Tells L get m (pr.add kvvml call) := by
  intro n p
  rcases recordTensors_ok hm n p with ⟨⟨o, t⟩, ht, rfl, rfl, -, v, hv, ho⟩ | ⟨hn, hs⟩
  · -- a tensor of the call
    have ha := at_eq_some.mpr ⟨o.1, t, rfl, ht, rfl⟩
    simp only [Provenance.add, ha, Option.some_or]
    refine ⟨fun data hd => ?_, fun _ => .inl (by simp)⟩
    cases hd
    exact ⟨v, hv, PublishCall.denotes_recs hc hg ht ho⟩
  -- a tensor of the base
  have ha : TensorsSpec.at call.tensors p n = none := by
    cases ha : TensorsSpec.at call.tensors p n with
    | none => rfl
    | some data =>
      obtain ⟨name, t, rfl, ht, -⟩ := at_eq_some.mp ha
      exact absurd ⟨rfl, rfl⟩ (hn _ ht)
  simp only [Provenance.add, ha, Option.none_or, hs]
  exact h n p

lemma Tells.publish (hL : L.Lossless) (hu : (publish L kvvml call).run serve c = (.ok stats, c'))
    (hr : c'.get (manifestKey L call.modelRevision) = some raw)
    (hm : WeightManifest.fromIpc L raw = .ok m)
    (hg : ∀ v ∈ call.values kvvml, get (chunkKey L v) = some v)
    (hb : ∀ base, call.base L c = .ok base → Tells L get (base.getD .empty) pr) :
    Tells L get m (pr.add kvvml call) := by
  obtain ⟨hc, base, data, ho, hd, rfl⟩ := PublishCall.publish_ok hu
  obtain ⟨m0, hm0, hd⟩ := bind_eq_ok.mp hd
  rw [Dict.get_insert_self] at hr
  cases hr
  obtain ⟨-, hs⟩ := WeightManifest.same_of_fromIpc hL hd hm
  exact ((hb base ho).manifest hc hg hm0).same hs

lemma Produced.tells (hL : L.Lossless) (h : Produced L raw pr)
    (hg : ∀ v ∈ pr.values, get (chunkKey L v) = some v) (hm : WeightManifest.fromIpc L raw = .ok m) :
    Tells L get m pr := by
  induction h generalizing m with
  | elsewhere hm' =>
    rw [hm] at hm'
    cases hm'
    exact fun n p => ⟨fun data hd => (nomatch hd), .inr⟩
  | fresh hu hb hr =>
    refine Tells.publish hL hu hr hm (fun v hv => hg v (.inr hv)) fun base ho => ?_
    have hn : base = none := by
      unfold PublishCall.base at ho
      rcases hb with hmr | hn
      · rw [hmr] at ho
        cases ho
        rfl
      rw [hn] at ho
      split at ho <;> · cases ho; rfl
    rw [hn]
    exact fun n p => ⟨fun data hd => (nomatch hd), fun h => absurd rfl h⟩
  | @merged _ call _ _ _ raw _ _ _ hmr hb hu hr ih =>
    refine Tells.publish hL hu hr hm (fun v hv => hg v (.inr hv)) fun base ho => ?_
    rw [PublishCall.base, if_pos hmr, hb] at ho
    simp only at ho
    cases hm0 : WeightManifest.fromIpc L raw with
    | error e =>
      rw [hm0] at ho
      cases ho
    | ok m0 =>
      rw [hm0] at ho
      cases ho
      exact ih (fun v hv => hg v (.inl hv)) hm0

end

def answers {σ : Type} (L : Libs) (h : Handler KvOp KvOp.Resp Exn σ) (rev p : Str) (s : σ) : Set Bytes :=
  { v | ∃ key t, (KvOp.retrieve key, t) ∈ (load L rev p).trace h s ∧ key ≠ manifestKey L rev ∧
    (h (.retrieve key) t).1 = .ok (some v) }

section

variable {L : Libs} {σ : Type} {h : Handler KvOp KvOp.Resp Exn σ} {rev p : Str} {s : σ}

open Classical in
noncomputable def valueIn (L : Libs) (U : Set Bytes) (key : Bytes) : Option Bytes :=
  if h : ∃ v ∈ U, chunkKey L v = key then some h.choose else none

lemma valueIn_spec (h : valueIn L U key = some v) : v ∈ U ∧ chunkKey L v = key := by
  unfold valueIn at h
  split at h
  · next he =>
    cases h
    exact he.choose_spec
  · cases h

lemma valueIn_chunkKey (hf : Set.InjOn L.blake2b U) (hv : v ∈ U) :
    valueIn L U (chunkKey L v) = some v := by
  have he : ∃ w ∈ U, chunkKey L w = chunkKey L v := ⟨v, hv, rfl⟩
  rw [valueIn, dif_pos he, hf he.choose_spec.1 hv (chunkKey_inj.mp he.choose_spec.2)]

lemma load_ok (hint : (h (.retrieve (manifestKey L rev)) s).1 = .ok (some raw))
    (hr : ((load L rev p).run h s).1 = .ok out) :
    ∃ m values, WeightManifest.fromIpc L raw = .ok m ∧ Shows L values m p out.get ∧
      ∀ key v, values key = some v → v ∈ answers L h rev p s ∧ chunkKey L v = key := by
  -- the store that answers only what the load asks
  let h' := only h ((load L rev p).trace h s) .typeError
  have hld : (load L rev p).run h' s = (.ok out, ((load L rev p).run h s).2) := by
    rw [run_only]
    exact Prod.ext hr rfl
  obtain ⟨m, s1, hn, hs⟩ := (run_bind_ok h').mp hld
  have hm : WeightManifest.fromIpc L raw = .ok m := by
    have ha : (KvOp.retrieve (manifestKey L rev), s) ∈ (load L rev p).trace h s := by
      simp [load, loadManifest, Kv.retrieve, perform_bind, trace]
    have han : (h' (.retrieve (manifestKey L rev)) s).1 = .ok (some raw) :=
      (congrArg Prod.fst (only_of_mem h ha)).trans hint
    simp only [loadManifest, Kv.retrieve, perform_bind, run_call] at hn
    cases hc : h' (.retrieve (manifestKey L rev)) s with
    | mk r t =>
      rw [hc] at han hn
      cases han
      simp only at hn
      cases ho : WeightManifest.fromIpc L raw with
      | error e =>
        rw [ho] at hn
        cases hn
      | ok m' =>
        rw [ho] at hn
        cases hn
        rfl
  have he : ∀ key t r t', True → h' (.retrieve key) t = (r, t') →
      True ∧ ∀ v, r = .ok (some v) → key ≠ manifestKey L rev → v ∈ answers L h rev p s := by
    refine fun key t r t' _ hc => ⟨trivial, fun v hv hk => ?_⟩
    subst hv
    have ha := mem_of_only_ok h hc
    refine ⟨key, t, ha, hk, ?_⟩
    rw [← only_of_mem h (e := .typeError) ha]
    exact congrArg Prod.fst hc
  obtain ⟨values, hl, hh⟩ := reassemble_ok he trivial hs
  refine ⟨m, values.get, hm, hh, fun key v hv => ?_⟩
  obtain ⟨hd, hk⟩ := hl key v hv
  exact ⟨hd (hk ▸ (manifestKey_ne_chunkKey rev v).symm), hk⟩

end

/-- For any manifest that publishes have made and that is read back intact, and any answers of the
store to the keys of chunks: a load raises, or returns for every published tensor exactly the bytes
that were published, and no other tensors but those that were in a manifest from elsewhere. -/
theorem load_raises_or_returns_published (L : Libs) (hL : L.Lossless) (raw : Bytes)
    (pr : Provenance)
    (hproduced : Produced L raw pr) {σ : Type} (h : Handler KvOp KvOp.Resp Exn σ) (s : σ)
    (rev p : Str)
    (hintact : (h (.retrieve (manifestKey L rev)) s).1 = .ok (some raw))
    (hfree : Set.InjOn L.blake2b { v | v ∈ pr.values ∨ v ∈ answers L h rev p s }) :
    (∃ e, ((load L rev p).run h s).1 = .error e) ∨
      ∃ out, ((load L rev p).run h s).1 = .ok out ∧
        ∀ n, (∀ data, pr.published n p = some data → out.get n = some data) ∧
          (out.get n ≠ none → pr.published n p ≠ none ∨ pr.foreign n p) := by
  cases hrun : ((load L rev p).run h s).1 with
  | error e => exact .inl ⟨e, rfl⟩
  | ok out =>
    right
    refine ⟨out, rfl, fun n => ?_⟩
    obtain ⟨m, values, hm, hshow, hvals⟩ := load_ok hintact hrun
    have hpublished : Set.InjOn L.blake2b pr.values := hfree.mono fun v hv => .inl hv
    obtain ⟨hdt, hoth⟩ := hproduced.tells hL (fun v hv => valueIn_chunkKey hpublished hv) hm n p
    refine ⟨fun data hpub => ?_, fun hout => hoth ?_⟩
    · obtain ⟨v, hv, hden⟩ := hdt data hpub
      rcases hshow.2 n with ⟨hn, -⟩ | ⟨v', data', hv', hden', hout⟩
      · rw [hn] at hv
        cases hv
      rw [hv] at hv'
      cases hv'
      rw [hout, hden'.agree hden fun w w' hw hw' hkey => ?_]
      exact hfree (.inr (hvals _ w hw).1) (.inl (valueIn_spec hw').1) (chunkKey_inj.mp hkey).symm
    rcases hshow.2 n with ⟨-, hn⟩ | ⟨v, -, hv, -⟩
    · exact absurd hn hout
    rw [hv]
    exact Option.some_ne_none v

def forgetful : Handler KvOp KvOp.Resp Exn Catalog
  | .retrieve key, c => (.ok (c.get key), c.erase key)
  | op, c => serve op c

def twoCatalog : Catalog := ((publish twoLibs 64 mergeFp8).run serve fp16Catalog).2

lemma run_of_isSome {α : Type} {x : Except Exn α × Catalog} (h : x.1.toOption.isSome = true) :
    ∃ a, x = (.ok a, x.2) := by
  obtain ⟨r, c⟩ := x
  cases r with
  | ok a => exact ⟨a, rfl⟩
  | error e => cases h

theorem load_raises_or_returns_published_forgetful :
    ∃ out, ((load twoLibs modelRev fp16).run forgetful twoCatalog).1 = .ok out ∧
      out.get (some ['t']) = some [1, 2, 3] := by
  let pr := (Provenance.none.add 64 publishFp16).add 64 mergeFp8
  obtain ⟨_, hfp16⟩ := run_of_isSome (x := (publish twoLibs 64 publishFp16).run serve .empty) (by decide +kernel)
  obtain ⟨_, hfp8⟩ := run_of_isSome (x := (publish twoLibs 64 mergeFp8).run serve fp16Catalog) (by decide +kernel)
  have hnew : Produced twoLibs (stream 0) (Provenance.none.add 64 publishFp16) :=
    .fresh hfp16 (.inl rfl) (by decide +kernel)
  have hprd : Produced twoLibs (stream 1) pr := hnew.merged rfl (by decide +kernel) hfp8 (by decide +kernel)
  have htrace : ((load twoLibs modelRev fp16).trace forgetful twoCatalog).all (fun x =>
      match x.1 with
      | .retrieve key => decide (key = manifestKey twoLibs modelRev) || decide (x.2.get key ∈ [some [1, 2], some [3]])
      | _ => true) = true := by
    decide +kernel
  have hansw : ∀ v ∈ answers twoLibs forgetful modelRev fp16 twoCatalog, v ∈ [[1, 2], [3], [4]] := by
    rintro v ⟨key, t, hask, hkey, hans⟩
    have hknown := List.all_eq_true.mp htrace _ hask
    have hget : t.get key = some v := Except.ok.inj hans
    simp only [hget, hkey, decide_false, Bool.false_or, decide_eq_true_eq] at hknown
    revert hknown
    simp +contextual [or_imp]
  have hvals : ∀ v ∈ pr.values, v ∈ [[1, 2], [3], [4]] := by
    have hfp16 : ∀ v ∈ publishFp16.values 64, v ∈ [[1, 2], [3], [4]] := by decide +kernel
    have hfp8 : ∀ v ∈ mergeFp8.values 64, v ∈ [[1, 2], [3], [4]] := by decide +kernel
    rintro v ((hv | hv) | hv)
    · exact absurd hv (Set.notMem_empty v)
    · exact hfp16 v hv
    · exact hfp8 v hv
  have hinj : ∀ v ∈ [[1, 2], [3], [4]], ∀ w ∈ [[1, 2], [3], [4]],
      twoLibs.blake2b v = twoLibs.blake2b w → v = w := by decide +kernel
  have hknown : ∀ v, v ∈ pr.values ∨ v ∈ answers twoLibs forgetful modelRev fp16 twoCatalog →
      v ∈ [[1, 2], [3], [4]] := fun v hv => hv.elim (hvals v) (hansw v)
  rcases load_raises_or_returns_published twoLibs (standIn_lossless _ _) (stream 1) pr hprd forgetful twoCatalog
    modelRev fp16 (by decide +kernel) (fun v hv w hw => hinj v (hknown v hv) w (hknown w hw)) with
    ⟨e, he⟩ | ⟨out, hout, htensors⟩
  · have hret : ((load twoLibs modelRev fp16).run forgetful twoCatalog).1.toOption.isSome = true := by
      decide +kernel
    rw [he] at hret
    cases hret
  · exact ⟨out, hout, (htensors (some ['t'])).1 _ (by decide +kernel)⟩

end Weights

end RadosNkv
