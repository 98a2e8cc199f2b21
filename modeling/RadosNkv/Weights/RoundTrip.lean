import RadosNkv.Weights.Contents

/-! After any sequence of publishes that return, a load gives back what the publishes that make up
the revision's manifest were given. -/

namespace RadosNkv

namespace Weights

open List Prog WeightManifest

def publishStep (L : Libs) (kvvml : Int) (c : Catalog) (call : PublishCall) : Option Catalog :=
  match (publish L kvvml call).run serve c with
  | (.ok _, c') => some c'
  | (.error _, _) => none

def publishAll (L : Libs) (kvvml : Int) (c : Catalog) (calls : List PublishCall) : Option Catalog :=
  calls.foldlM (publishStep L kvvml) c

def PublishCall.Into (L : Libs) (rev : Str) (call : PublishCall) : Prop :=
  canonicalRevision L call.modelRevision = canonicalRevision L rev

instance (L : Libs) (rev : Str) (call : PublishCall) : Decidable (call.Into L rev) :=
  inferInstanceAs (Decidable (_ = _))

def PublishCall.after (L : Libs) (rev p : Str) (held : Held) (call : PublishCall) : Held :=
  if call.Into L rev then TensorsSpec.onto call.tensors p (if call.merge then held else none) else held

def heldAfter (L : Libs) (rev p : Str) (held : Held) (calls : List PublishCall) : Held :=
  calls.foldl (PublishCall.after L rev p) held

def usedValues (L : Libs) (kvvml : Int) (prior : Catalog) (calls : List PublishCall) : Set Bytes :=
  { v | (∃ w, prior.get (chunkKey L w) = some v) ∨ ∃ call ∈ calls, v ∈ call.values kvvml }

/-- BLAKE2b has no collision among the values, and none among the canonical revisions. -/
def CollisionFree (L : Libs) (values : Set Bytes) (revisions : Set Str) : Prop :=
  Set.InjOn L.blake2b values ∧
    Set.InjOn L.blake2b { name | ∃ rev ∈ revisions, name = utf8Encode (canonicalRevision L rev) }

lemma publishStep_eq_some {L : Libs} {kvvml : Int} {c c' : Catalog} {call : PublishCall}
    (h : publishStep L kvvml c call = some c') : ∃ stats, (publish L kvvml call).run serve c = (.ok stats, c') := by
  unfold publishStep at h
  cases hr : (publish L kvvml call).run serve c with
  | mk r c1 =>
    rw [hr] at h
    cases r with
    | ok stats =>
      cases h
      exact ⟨stats, rfl⟩
    | error e => cases h

lemma publishAll_concat {L : Libs} {kvvml : Int} {c c' : Catalog} {calls : List PublishCall} {call : PublishCall} :
    publishAll L kvvml c (calls ++ [call]) = some c' ↔
      ∃ c1, publishAll L kvvml c calls = some c1 ∧ publishStep L kvvml c1 call = some c' := by
  simp [publishAll, foldlM_append, Option.bind_eq_some_iff]

section

variable {L : Libs} {kvvml : Int} {prior : Catalog} {rev p : Str} {held : Held}

lemma CollisionFree.manifestKey_ne (h : CollisionFree L values revisions) (hr : r ∈ revisions)
    (hr' : r' ∈ revisions) (hn : canonicalRevision L r ≠ canonicalRevision L r') :
    manifestKey L r ≠ manifestKey L r' := by
  intro he
  have hd : L.blake2b (utf8Encode (canonicalRevision L r)) = L.blake2b (utf8Encode (canonicalRevision L r')) := by
    simpa [manifestKey] using he
  exact hn (utf8Encode_injective (h.2 ⟨r, hr, rfl⟩ ⟨r', hr', rfl⟩ hd))

lemma addressed_publishAll {calls : List PublishCall} {c : Catalog} (ha : Addressed L U prior)
    (hU : ∀ call ∈ calls, ∀ v ∈ call.values kvvml, v ∈ U) (hr : publishAll L kvvml prior calls = some c) :
    Addressed L U c := by
  induction calls using List.reverseRecOn generalizing c with
  | nil =>
    cases hr
    exact ha
  | append_singleton calls call ih =>
    obtain ⟨c1, hs, hc⟩ := publishAll_concat.mp hr
    obtain ⟨stats, hc⟩ := publishStep_eq_some hc
    have h1 := ih (fun d hd => hU d (mem_append_left _ hd)) hs
    exact h1.publish (hU call (mem_append_right _ (mem_singleton_self call))) hc

lemma heldAfter_concat (calls : List PublishCall) (call : PublishCall) :
    heldAfter L rev p held (calls ++ [call]) = call.after L rev p (heldAfter L rev p held calls) := by
  simp [heldAfter]

/-- What the revision held is known and can be merged onto, or a call replaces it. -/
def Counts (L : Libs) (prior : Catalog) (rev p : Str) (held : Held) (calls : List PublishCall) : Prop :=
  (∃ call ∈ calls, call.Into L rev ∧ call.merge = false) ∨
    Holding L prior rev p held ∧ ((∃ call ∈ calls, call.Into L rev) → Mergeable L prior rev)

def Tracks (L : Libs) (prior c : Catalog) (rev p : Str) (held : Held) (calls : List PublishCall) : Prop :=
  Counts L prior rev p held calls →
    Holding L c rev p (heldAfter L rev p held calls) ∧
      ((∃ call ∈ calls, call.Into L rev) ∨ Mergeable L prior rev → Mergeable L c rev)

section

variable {calls : List PublishCall} {call : PublishCall} {c c' : Catalog}

lemma tracks_init (L : Libs) (prior : Catalog) (rev p : Str) (held : Held) : Tracks L prior prior rev p held [] := by
  rintro (⟨call, hc, -⟩ | ⟨hh, -⟩)
  · exact absurd hc not_mem_nil
  · exact ⟨hh, fun h => h.elim (fun ⟨d, hd, _⟩ => absurd hd not_mem_nil) id⟩

lemma Tracks.keep (h : Tracks L prior c rev p held calls) (hk : SameManifest L c c' rev)
    (hh : ∀ held, Holding L c rev p held → Holding L c' rev p held) : Tracks L prior c' rev p held calls := by
  intro hc
  obtain ⟨hn, hm⟩ := h hc
  exact ⟨hh _ hn, fun hint => (hm hint).congr hk⟩

lemma Counts.of_concat (h : Counts L prior rev p held (calls ++ [call]))
    (hk : ¬ (call.Into L rev ∧ call.merge = false)) : Counts L prior rev p held calls := by
  rcases h with ⟨d, hd, hint⟩ | ⟨hh, hm⟩
  · rcases mem_append.mp hd with hd | hd
    · exact .inl ⟨d, hd, hint⟩
    rw [mem_singleton.mp hd] at hint
    exact absurd hint hk
  · exact .inr ⟨hh, fun ⟨d, hd, hint⟩ => hm ⟨d, mem_append_left _ hd, hint⟩⟩

lemma Tracks.other (h : Tracks L prior c rev p held calls) (hint : ¬ call.Into L rev) (hk : SameManifest L c c' rev)
    (hg : KeepsChunks L c.get c'.get) :
    Tracks L prior c' rev p held (calls ++ [call]) := by
  intro hc
  obtain ⟨hh, hm⟩ := h.keep hk (fun _ hold => hold.mono hk hg) (hc.of_concat fun h => hint h.1)
  rw [heldAfter_concat, PublishCall.after, if_neg hint]
  refine ⟨hh, fun ha => hm (ha.imp_left fun ⟨d, hd, hd'⟩ => ?_)⟩
  rcases mem_append.mp hd with hd | hd
  · exact ⟨d, hd, hd'⟩
  rw [mem_singleton.mp hd] at hd'
  exact absurd hd' hint

lemma Tracks.into (h : Tracks L prior c rev p held calls) (hint : call.Into L rev)
    (hs : ∀ held, (call.merge = true → Holding L c rev p held ∧ Mergeable L c rev) →
      Holding L c' rev p (TensorsSpec.onto call.tensors p (if call.merge then held else none)) ∧ Mergeable L c' rev) :
    Tracks L prior c' rev p held (calls ++ [call]) := by
  intro hc
  rw [heldAfter_concat, PublishCall.after, if_pos hint]
  have hn := hs (heldAfter L rev p held calls) fun hr => ?_
  · exact ⟨hn.1, fun _ => hn.2⟩
  -- a call that merges extends what the calls before it have made
  have hb := hc.of_concat fun h => by simp [hr] at h
  obtain ⟨hh, hm⟩ := h hb
  refine ⟨hh, hm ?_⟩
  rcases hc with ⟨d, hd, hd', hf⟩ | ⟨-, hp⟩
  · rcases mem_append.mp hd with hd | hd
    · exact .inl ⟨d, hd, hd'⟩
    rw [mem_singleton.mp hd, hr] at hf
    cases hf
  · exact .inr (hp ⟨call, mem_append_right _ (mem_singleton_self call), hint⟩)

end

lemma tracks_publishAll (hL : L.Lossless) {calls : List PublishCall} {c : Catalog}
    (hvl : Set.InjOn L.blake2b U) (ha : Addressed L U prior)
    (hy : ∀ call ∈ calls, ¬ call.Into L rev → manifestKey L rev ≠ manifestKey L call.modelRevision)
    (hU : ∀ call ∈ calls, ∀ v ∈ call.values kvvml, v ∈ U)
    (hn : ∀ call ∈ calls, ∀ p, TensorsSpec.Has call.tensors p → ',' ∉ p)
    (hr : publishAll L kvvml prior calls = some c) : Tracks L prior c rev p held calls := by
  induction calls using List.reverseRecOn generalizing c with
  | nil =>
    cases hr
    exact tracks_init L prior rev p held
  | append_singleton calls call ih =>
    obtain ⟨c1, hs, hc⟩ := publishAll_concat.mp hr
    obtain ⟨stats, hc⟩ := publishStep_eq_some hc
    have hl : call ∈ calls ++ [call] := mem_append_right _ (mem_singleton_self call)
    have ha1 := addressed_publishAll ha (fun d hd => hU d (mem_append_left _ hd)) hs
    have hb := ih (fun d hd => hy d (mem_append_left _ hd))
      (fun d hd => hU d (mem_append_left _ hd)) (fun d hd => hn d (mem_append_left _ hd)) hs
    by_cases hint : call.Into L rev
    · exact hb.into hint fun held hold =>
        holding_publish hL (fun v hv => ha1.get_putValues hvl (hU call hl) hv) (hn call hl) hc
          (manifestKey_congr hint) hold
    obtain ⟨hk, hg⟩ := get_of_publish_other hc (hy call hl hint)
    exact hb.other hint hk hg

end

/-- After any sequence of publishes that return, from any catalog whose chunk keys map to bytes that
hash to them, a load returns for each revision and precision exactly the tensors and bytes of the
publishes that make up the revision's manifest. -/
theorem load_after_publishes (L : Libs) (hL : L.Lossless) (kvvml : Int) (prior : Catalog)
    (calls : List PublishCall)
    (rev p : Str) (held : Held) (c : Catalog)
    (haddressed : ∀ v w, prior.get (chunkKey L v) = some w → chunkKey L w = chunkKey L v)
    (hfree : CollisionFree L (usedValues L kvvml prior calls)
      { r | r = rev ∨ ∃ call ∈ calls, r = call.modelRevision })
    (hnames : ∀ call ∈ calls, ∀ q, TensorsSpec.Has call.tensors q → ',' ∉ q)
    (hprior : (∃ call ∈ calls, call.Into L rev ∧ call.merge = false) ∨
      Holding L prior rev p held ∧ ((∃ call ∈ calls, call.Into L rev) → Mergeable L prior rev))
    (hrun : publishAll L kvvml prior calls = some c) :
    LoadsHeld L c rev p (heldAfter L rev p held calls) := by
  have hadr : Addressed L (usedValues L kvvml prior calls) prior :=
    fun v w hw => ⟨.inl ⟨v, hw⟩, haddressed v w hw⟩
  have hkeys : ∀ call ∈ calls, ¬ call.Into L rev → manifestKey L rev ≠ manifestKey L call.modelRevision :=
    fun call hcl hint => hfree.manifestKey_ne (.inl rfl) (.inr ⟨call, hcl, rfl⟩) (Ne.symm hint)
  have hU : ∀ call ∈ calls, ∀ v ∈ call.values kvvml, v ∈ usedValues L kvvml prior calls :=
    fun call hcl v hv => .inr ⟨call, hcl, hv⟩
  exact (tracks_publishAll hL hfree.1 hadr hkeys hU hnames hrun hprior).1.loadsHeld

def stream (i : Nat) : Bytes := [0xFF, 0xFF, 0xFF, 0xFF] ++ List.replicate (12 + i) 0

def standIn (digests : List (Bytes × Bytes)) (tables : List Table) : Libs where
  blake2b v := (digests.lookup v).getD v
  nfc := id
  write t := if t ∈ tables then some (stream (tables.idxOf t)) else none
  read data := tables[data.length - 16]?

lemma standIn_lossless (digests : List (Bytes × Bytes)) (tables : List Table) : (standIn digests tables).Lossless := by
  intro t data h
  simp only [standIn] at h
  split at h
  · next ht =>
    cases h
    have hl : (stream (tables.idxOf t)).length - 16 = tables.idxOf t := by
      simp [stream]
    simp only [standIn, hl]
    rw [getElem?_eq_getElem (idxOf_lt_length_of_mem ht), getElem_idxOf]
  · cases h

def modelRev : Str := ['m', '@', 'v', '1']

def otherRev : Str := ['n', '@', 'v', '1']

def fp16 : Str := ['f', 'p', '1', '6']

def fp8 : Str := ['f', 'p', '8']

/-- The digests of the revisions and of the Values of the examples. -/
def someDigests : List (Bytes × Bytes) :=
  [(utf8Encode modelRev, [142, 205, 188, 20, 232, 219, 45, 225, 225, 3, 60, 202, 131, 151, 179]),
    (utf8Encode otherRev, [255, 249, 61, 160, 175, 39, 98, 34, 15, 39, 99, 209, 229, 3, 31]),
    ([1, 2], [0, 11, 190, 33, 222, 198, 137, 255, 76, 173, 36, 187, 17, 132, 50]),
    ([3], [79, 4, 158, 206, 147, 171, 135, 182, 67, 212, 219, 63, 3, 135, 71]),
    ([4], [19, 244, 246, 8, 116, 65, 151, 73, 145, 171, 228, 71, 105, 103, 164])]

def oneTensor (name precision : Str) (data : Bytes) : TensorsSpec :=
  Dict.empty.insert name (Dict.empty.insert precision ⟨['U', '8'], [data.length], data⟩)

def publishFp16 : PublishCall :=
  { modelRevision := modelRev, tensors := oneTensor ['t'] fp16 [1, 2, 3], maxValueLen := some 2 }

def mergeFp8 : PublishCall :=
  { modelRevision := ' ' :: modelRev ++ ['/'], tensors := oneTensor ['u'] fp8 [4], merge := true }

def manifestOr (L : Libs) (call : PublishCall) (base : Option WeightManifest) : WeightManifest :=
  (call.manifest L 64 base).toOption.getD .empty

def reread (m : WeightManifest) : WeightManifest := (fromTable m.toTable).toOption.getD .empty

def oneLibs (call : PublishCall) : Libs := standIn someDigests [(manifestOr (standIn someDigests []) call none).toTable]

def twoTables : List Table :=
  let L := standIn someDigests []
  let m := manifestOr L publishFp16 none
  [m.toTable, (manifestOr L mergeFp8 (some (reread m))).toTable]

def twoLibs : Libs := standIn someDigests twoTables

def fp16Catalog : Catalog := ((publish twoLibs 64 publishFp16).run serve .empty).2

def raises {α : Type} : Except Exn α → Bool
  | .ok _ => false
  | .error _ => true

theorem load_after_publishes_two :
    ∃ c, publishAll twoLibs 64 .empty [publishFp16, mergeFp8] = some c ∧
      LoadsHeld twoLibs c modelRev fp16
        (heldAfter twoLibs modelRev fp16 none [publishFp16, mergeFp8]) := by
  obtain ⟨c, hc⟩ : ∃ c, publishAll twoLibs 64 .empty [publishFp16, mergeFp8] = some c :=
    Option.isSome_iff_exists.mp (by decide +kernel)
  refine ⟨c, hc, load_after_publishes twoLibs (standIn_lossless _ _) 64 .empty _ modelRev fp16 none c
    (fun v w h => absurd h (by simp)) ⟨?_, ?_⟩ ?_ (.inl ⟨publishFp16, by simp, by decide +kernel, rfl⟩) hc⟩
  · have hcalls : ∀ call ∈ [publishFp16, mergeFp8], ∀ v ∈ call.values 64, v ∈ [[1, 2], [3], [4]] := by
      decide +kernel
    have hvals : ∀ v ∈ usedValues twoLibs 64 .empty [publishFp16, mergeFp8], v ∈ [[1, 2], [3], [4]] := by
      rintro v (⟨w, hw⟩ | ⟨call, hcl, hv⟩)
      · simp at hw
      · exact hcalls call hcl v hv
    have hinj : ∀ v ∈ [[1, 2], [3], [4]], ∀ w ∈ [[1, 2], [3], [4]],
        twoLibs.blake2b v = twoLibs.blake2b w → v = w := by decide +kernel
    exact fun v hv w hw => hinj v (hvals v hv) w (hvals w hw)
  · have hnm : ∀ call ∈ [publishFp16, mergeFp8], canonicalRevision twoLibs call.modelRevision = modelRev := by
      decide +kernel
    have hone : ∀ r, r = modelRev ∨ (∃ call ∈ [publishFp16, mergeFp8], r = call.modelRevision) →
        canonicalRevision twoLibs r = modelRev := by
      rintro r (rfl | ⟨call, hcl, rfl⟩)
      · decide +kernel
      · exact hnm call hcl
    rintro _ ⟨r, hr, rfl⟩ _ ⟨r', hr', rfl⟩ -
    rw [hone r hr, hone r' hr']
  simp only [forall_mem_cons]
  have hfp16 : ∀ t ∈ TensorsSpec.all publishFp16.tensors, ',' ∉ t.1.2 := by decide +kernel
  have hfp8 : ∀ t ∈ TensorsSpec.all mergeFp8.tensors, ',' ∉ t.1.2 := by decide +kernel
  refine ⟨?_, ?_, forall_mem_nil _⟩
  · rintro _ ⟨t, ht, rfl⟩
    exact hfp16 t ht
  rintro _ ⟨t, ht, rfl⟩
  exact hfp8 t ht

def danglingManifest : WeightManifest :=
  manifestOr (standIn someDigests []) { modelRevision := modelRev, tensors := oneTensor ['t'] fp8 [3] } none

def danglingTables : List Table :=
  [danglingManifest.toTable, (manifestOr (standIn someDigests []) mergeFp8 (some (reread danglingManifest))).toTable]

def danglingLibs : Libs := standIn someDigests danglingTables

def danglingPrior : Catalog := Dict.empty.insert (manifestKey danglingLibs modelRev) (stream 0)

/-- A table from before the metadata, with a precision that has a comma in its name. -/
def commaTable : Table where
  columns :=
    [(tensorNameCol, .strings [some ['t']]), (shapeCol, .ints [some [some 1]]),
      (dtypeCol ['a', ',', 'b'], .strings [some ['U', '8']]),
      (keysCol ['a', ',', 'b'], .binaries [some [some (chunkKey (standIn someDigests []) [3])]]),
      (sizesCol ['a', ',', 'b'], .ints [some [some 1]])]
  metadata := .empty

def commaTables : List Table :=
  let base := (fromTable commaTable).toOption.getD .empty
  [commaTable, (manifestOr (standIn someDigests []) mergeFp8 (some base)).toTable]

def commaLibs : Libs := standIn someDigests commaTables

def commaPrior : Catalog :=
  (Dict.empty.insert (chunkKey commaLibs [3]) [3]).insert (manifestKey commaLibs modelRev) (stream 0)

lemma addressed_insert_manifest {c : Catalog}
    (h : ∀ v w, c.get (chunkKey L v) = some w → chunkKey L w = chunkKey L v) :
    ∀ v w, (c.insert (manifestKey L rev) data).get (chunkKey L v) = some w → chunkKey L w = chunkKey L v := by
  intro v w hw
  rw [Dict.get_insert_ne _ _ (manifestKey_ne_chunkKey rev v).symm] at hw
  exact h v w hw

lemma exists_error {α : Type} {x : Option Catalog} {f : Catalog → Except Exn α}
    (h : (x.any fun c => (f c).toOption.isNone) = true) : ∃ c e, x = some c ∧ f c = .error e := by
  cases x with
  | none => cases h
  | some c =>
    cases hf : f c with
    | ok a => simp [hf, Except.toOption] at h
    | error e => exact ⟨c, e, rfl, hf⟩

/-- From some catalogs whose chunk keys map to bytes that hash to them, a publish that merges
returns and the precision it publishes does not load: when the manifest there names a Value that the
catalog does not have, and when it has a precision with a comma in its name, which was readable
before. -/
theorem merge_into_prior_does_not_load :
    ((∀ v w, danglingPrior.get (chunkKey danglingLibs v) = some w →
      chunkKey danglingLibs w = chunkKey danglingLibs v) ∧
      ∃ c e, publishAll danglingLibs 64 danglingPrior [mergeFp8] = some c ∧
        ((load danglingLibs modelRev fp8).run serve c).1 = .error e) ∧
    ((∀ v w, commaPrior.get (chunkKey commaLibs v) = some w →
      chunkKey commaLibs w = chunkKey commaLibs v) ∧
      (∃ f, Loads commaLibs commaPrior modelRev ['a', ',', 'b'] f) ∧
      ∃ c e, publishAll commaLibs 64 commaPrior [mergeFp8] = some c ∧
        ((load commaLibs modelRev fp8).run serve c).1 = .error e) := by
  refine ⟨⟨?_, exists_error (by decide +kernel)⟩, ?_, ?_, exists_error (by decide +kernel)⟩
  · exact addressed_insert_manifest fun v w h => absurd h (by simp)
  · refine addressed_insert_manifest fun v w h => ?_
    rw [Dict.get_insert] at h
    split at h
    · next hkey =>
      cases h
      exact hkey.symm
    · exact absurd h (by simp)
  have hld : ((load commaLibs modelRev ['a', ',', 'b']).run serve commaPrior).1.toOption.isSome = true := by
    decide +kernel
  cases hout : ((load commaLibs modelRev ['a', ',', 'b']).run serve commaPrior).1 with
  | ok out => exact ⟨out.get, out, hout, rfl⟩
  | error e =>
    rw [hout] at hld
    cases hld

end Weights

end RadosNkv
