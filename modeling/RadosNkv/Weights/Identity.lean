import RadosNkv.Weights.RoundTrip

/-! The identity of a model in the catalog, as the publisher and as the vLLM loader derive it. -/

namespace RadosNkv.Weights

open List

/-- What the vLLM loader reads of a `ModelConfig`; `override` is its `rados_nkv_revision`. -/
structure ModelConfig where
  model : Option Str
  revision : Option Str
  override : Option Str

/-- A string that Python's `if` takes for true. -/
def truthy (s : Option Str) : Option Str := s.filter fun s => s ≠ []

def main : Str := ['m', 'a', 'i', 'n']

variable (L : Libs)

def revisionFromModelConfig (cfg : ModelConfig) : Option Str :=
  match truthy cfg.override with
  | some override => some (canonicalRevision L override)
  | none =>
    (truthy cfg.model).map fun model =>
      canonicalRevision L (match truthy cfg.revision with
        | some revision => model ++ '@' :: revision
        | none => model)

/-- The arguments that name the model: of `publish` and `publish_safetensors`, or of
`publish_huggingface`. -/
inductive PublishAs where
  | given (modelRevision : Str)
  | huggingface (repoId : Str) (revision modelRevision : Option Str)

/-- The revision that reaches `publish`. -/
def PublishAs.modelRevision : PublishAs → Str
  | .given rev => rev
  | .huggingface repoId rev override =>
    canonicalRevision L (override.getD (repoId ++ '@' :: (truthy rev).getD main))

/-- The config has the same id, revision or override. A string given to `publish` is an override, an
id and a revision, or an id alone. -/
def PublishAs.Carries : PublishAs → ModelConfig → Prop
  | .given rev, cfg => cfg.override = some rev ∨ cfg = ⟨some rev, none, none⟩ ∨
    ∃ repoId r, rev = repoId ++ '@' :: r ∧ repoId ≠ [] ∧ r ≠ [] ∧ cfg = ⟨some repoId, some r, none⟩
  | .huggingface repoId rev override, cfg => cfg = ⟨some repoId, rev, override⟩

/-- Stripped, the text does not end in a slash behind a slash or white space. -/
def Tidy (s : Str) : Prop :=
  ∀ w c, strip (L.nfc s) = w ++ [c, '/'] → c ≠ '/' ∧ isSpace c = false

/-- The config has no revision, and an id of which canonicalising leaves nothing. -/
def ModelConfig.Blank (cfg : ModelConfig) : Prop :=
  truthy cfg.revision = none ∧
    ∃ model, truthy cfg.model = some model ∧ canonicalRevision L (canonicalRevision L model) = []

/-- A string given to `publish` is tidy; `publish_huggingface` has an override, or an id and a
revision. An empty override, which is none to the loader alone, needs a blank config. -/
def PublishAs.Settled : PublishAs → ModelConfig → Prop
  | .given rev, cfg => if rev = [] then cfg.Blank L else Tidy L rev
  | .huggingface _ _ (some override), cfg => override = [] → cfg.Blank L
  | .huggingface repoId rev none, _ => repoId ≠ [] ∧ (truthy rev).isSome

/-- What is used of Unicode's normal form C. -/
structure Libs.Normalises (L : Libs) : Prop where
  idem : ∀ s, L.nfc (L.nfc s) = L.nfc s
  part : ∀ {s t}, s <:+: t → L.nfc t = t → L.nfc s = s
  at_sign : ∀ s t, L.nfc (s ++ '@' :: t) = L.nfc s ++ '@' :: L.nfc t
  ascii : ∀ s, (∀ c ∈ s, c.toNat < 128) → L.nfc s = s

/-- `canonical_revision` behind the normal form. -/
def trim (s : Str) : Str := if (strip s).getLast? = some '/' then (strip s).dropLast else strip s

lemma strip_part (s : Str) : strip s <:+: s.dropWhile isSpace := ( rdropWhile_prefix _ _).isInfix

lemma trim_part_strip (s : Str) : trim s <:+: strip s := by
  unfold trim
  split
  · exact ( dropLast_prefix _).isInfix
  · exact infix_rfl

lemma trim_part (s : Str) : trim s <:+: s :=
  (trim_part_strip s).trans ((strip_part s).trans (dropWhile_suffix _).isInfix)

/-- A text is stripped as it is if it neither begins nor ends with white space. -/
lemma strip_eq {s : Str} (hh : ∀ c ∈ s.head?, isSpace c = false)
    (hl : ∀ c ∈ s.getLast?, isSpace c = false) : strip s = s := by
  have hd : s.dropWhile isSpace = s := by
    cases s with
    | nil => rfl
    | cons c s => exact dropWhile_cons_of_neg (by simp [hh c rfl])
  rw [strip, hd]
  rcases eq_nil_or_concat' s with rfl | ⟨w, c, rfl⟩
  · rfl
  · exact rdropWhile_concat_neg _ _ _ (by simp [hl c (by simp)])

lemma head_strip (s : Str) : ∀ c ∈ (strip s).head?, isSpace c = false := by
  intro c hc
  have hp : strip s <+: s.dropWhile isSpace := rdropWhile_prefix _ _
  have hd : (s.dropWhile isSpace).head? = some c := by
    obtain ⟨t, ht⟩ := hp
    rw [← ht, head?_append, hc]
    rfl
  simpa [hd] using head?_dropWhile_not isSpace s

lemma getLast_strip (s : Str) : ∀ c ∈ (strip s).getLast?, isSpace c = false := by
  intro c hc
  rcases eq_nil_or_concat' (strip s) with hn | ⟨w, d, hw⟩
  · rw [hn] at hc
    cases hc
  rw [hw, getLast?_concat] at hc
  cases hc
  by_contra hs
  have hr := congrArg (rdropWhile isSpace) hw
  rw [strip, rdropWhile_idempotent] at hr
  rw [rdropWhile_concat_pos _ _ _ (by simpa using hs)] at hr
  have hl := ( rdropWhile_prefix isSpace w).length_le
  rw [← hr, show rdropWhile isSpace (s.dropWhile isSpace) = _ from hw] at hl
  simp at hl

/-- Trimming again changes nothing exactly if no slash or white space is uncovered. -/
lemma trim_trim_iff (s : Str) : trim (trim s) = trim s ↔
    ∀ w c, strip s = w ++ [c, '/'] → c ≠ '/' ∧ isSpace c = false := by
  by_cases hs : (strip s).getLast? = some '/'
  · obtain ⟨u, hu⟩ : ∃ u, strip s = u ++ ['/'] := getLast?_eq_some_iff.mp hs
    have ht : trim s = u := by simp [trim, hu]
    rw [ht, hu]
    rcases eq_nil_or_concat' u with rfl | ⟨w, c, rfl⟩
    · refine iff_of_true rfl fun w c hw => ?_
      have hl := congrArg List.length hw
      simp at hl
    constructor
    · intro he w' c' hw
      rw [append_assoc] at hw
      obtain ⟨rfl, hcc⟩ := append_inj' hw rfl
      cases hcc
      have hle : (w ++ [c]).length ≤ (strip (w ++ [c])).length := by
        conv_lhs => rw [← he]
        exact (trim_part_strip _).length_le
      have hst : strip (w ++ [c]) = w ++ [c] :=
        ((strip_part _).trans (dropWhile_suffix _).isInfix).eq_of_length_le hle
      refine ⟨?_, getLast_strip (w ++ [c]) c (by rw [hst]; simp)⟩
      rintro rfl
      have hl := congrArg List.length he
      simp [trim, hst] at hl
    intro hc
    obtain ⟨hne, hsp⟩ := hc w c (by simp)
    have hst : strip (w ++ [c]) = w ++ [c] := by
      refine strip_eq (fun d hd => head_strip s d ?_) (fun d hd => ?_)
      · rw [hu, head?_append, hd]
        rfl
      rw [getLast?_concat] at hd
      cases hd
      exact hsp
    simp [trim, hst, hne]
  have ht : trim s = strip s := if_neg hs
  have hst : strip (strip s) = strip s := strip_eq (head_strip s) (getLast_strip s)
  rw [ht]
  refine iff_of_true (by rw [trim, hst, if_neg hs]) fun w c hw => ?_
  rw [hw] at hs
  simp at hs

/-- The trimmed text behind `@` stays, and before it only white space in front goes. -/
lemma trim_at (s : Str) (hl : ∀ c ∈ ('@' :: t).getLast?, isSpace c = false ∧ c ≠ '/') :
    trim (s ++ '@' :: t) = s.dropWhile isSpace ++ '@' :: t := by
  have hd : (s ++ '@' :: t).dropWhile isSpace = s.dropWhile isSpace ++ '@' :: t := by
    rw [dropWhile_append]
    split
    · next he =>
      rw [isEmpty_iff.mp he, dropWhile_cons_of_neg (by decide)]
      rfl
    · rfl
  obtain ⟨w, c, hw⟩ : ∃ w c, '@' :: t = w ++ [c] := by
    rcases eq_nil_or_concat' ('@' :: t) with hn | hw
    · cases hn
    · exact hw
  obtain ⟨hsp, hne⟩ := hl c (by rw [hw]; simp)
  have hst : strip (s ++ '@' :: t) = s.dropWhile isSpace ++ '@' :: t := by
    rw [strip, hd, hw, ← append_assoc]
    exact rdropWhile_concat_neg _ _ _ (by simp [hsp])
  have hg : (s.dropWhile isSpace ++ '@' :: t).getLast? = some c := by rw [hw]; simp
  rw [trim, hst, hg, if_neg (by simpa using hne)]

lemma at_mem_trim (h : '@' ∈ s) : '@' ∈ trim s := by
  have hd : '@' ∈ s.dropWhile isSpace := by
    rw [← takeWhile_append_dropWhile (p := isSpace) (l := s)] at h
    refine (mem_append.mp h).resolve_left fun ht => ?_
    exact absurd (mem_takeWhile_imp ht) (by decide)
  have hs : '@' ∈ strip s := by
    unfold strip
    generalize s.dropWhile isSpace = u at hd
    induction u using reverseRecOn with
    | nil => cases hd
    | append_singleton u c ih =>
      by_cases hc : isSpace c
      · rw [rdropWhile_concat_pos _ _ _ hc]
        refine ih ((mem_append.mp hd).resolve_right fun hm => ?_)
        rw [← mem_singleton.mp hm] at hc
        exact absurd hc (by decide)
      · rwa [rdropWhile_concat_neg _ _ _ hc]
  unfold trim
  split
  · next hg =>
    obtain ⟨u, hu⟩ := getLast?_eq_some_iff.mp hg
    rw [hu] at hs ⊢
    simpa using hs
  · exact hs

variable {L} (hL : L.Normalises)
include hL

lemma canonical_twice (s : Str) : canonicalRevision L (canonicalRevision L s) = trim (trim (L.nfc s)) := by
  have hn : L.nfc (trim (L.nfc s)) = trim (L.nfc s) := hL.part (trim_part _) (hL.idem s)
  exact congrArg trim hn

lemma canonical_twice_iff (s : Str) :
    canonicalRevision L (canonicalRevision L s) = canonicalRevision L s ↔ Tidy L s := by
  rw [canonical_twice hL]
  exact trim_trim_iff (L.nfc s)

lemma canonical_nil : canonicalRevision L [] = [] := by
  rw [canonicalRevision, hL.ascii [] (by simp)]
  rfl

/-- With a revision behind it, the id alone is another identity. -/
lemma canonical_twice_ne (s : Str) : canonicalRevision L (canonicalRevision L s) ≠
    canonicalRevision L (canonicalRevision L (s ++ '@' :: main)) := by
  have hl : ∀ c ∈ ('@' :: main).getLast?, isSpace c = false ∧ c ≠ '/' := by
    intro c hc
    obtain rfl : 'n' = c := Option.some.inj hc
    decide
  rw [canonical_twice hL, canonical_twice hL, hL.at_sign, hL.ascii main (by simp [main]), trim_at _ hl, trim_at _ hl]
  intro he
  have h1 := ((trim_part (trim (L.nfc s))).trans
    ((trim_part_strip _).trans (strip_part (L.nfc s)))).length_le
  have hd : ((L.nfc s).dropWhile isSpace).dropWhile isSpace = (L.nfc s).dropWhile isSpace :=
    dropWhile_idempotent _ _
  rw [he, hd] at h1
  simp at h1

lemma canonical_twice_at_ne (s r : Str) :
    canonicalRevision L (canonicalRevision L (s ++ '@' :: r)) ≠ [] := by
  rw [canonical_twice hL, hL.at_sign]
  exact ne_nil_of_mem (at_mem_trim (at_mem_trim (mem_append_right _ mem_cons_self)))

omit hL

@[simp] lemma truthy_none : truthy none = none := rfl

lemma truthy_some (h : s ≠ []) : truthy (some s) = some s := by
  simp [truthy, h]

/-- The string of which the loader canonicalises. -/
lemma revisionFrom_eq (cfg : ModelConfig) : revisionFromModelConfig L cfg =
    ((truthy cfg.override).or ((truthy cfg.model).map fun model =>
      ((truthy cfg.revision).map (model ++ '@' :: ·)).getD model)).map (canonicalRevision L) := by
  unfold revisionFromModelConfig
  cases truthy cfg.override <;> cases truthy cfg.model <;> cases truthy cfg.revision <;> rfl

/-- The loader reads what the publisher wrote exactly if their canonical identities are one. -/
lemma finds_iff (hf : CollisionFree L ∅ {r | r = rev ∨ revisionFromModelConfig L cfg = some r}) :
    (revisionFromModelConfig L cfg).map (manifestKey L) = some (manifestKey L rev) ↔
      (revisionFromModelConfig L cfg).map (canonicalRevision L) = some (canonicalRevision L rev) := by
  cases hr : revisionFromModelConfig L cfg with
  | none => simp
  | some r =>
    simp only [Option.map_some, Option.some.injEq]
    refine ⟨fun hk => ?_, manifestKey_congr⟩
    by_contra hn
    exact hf.manifestKey_ne (.inr hr) (.inl rfl) hn hk

include hL in
/-- An empty override is none to the loader, which then has its id and revision. -/
lemma blank_iff {cfg : ModelConfig} (ho : truthy cfg.override = none) :
    (revisionFromModelConfig L cfg).map (canonicalRevision L) = some [] ↔ cfg.Blank L := by
  rw [revisionFrom_eq, ho]
  unfold ModelConfig.Blank
  cases truthy cfg.model with
  | none => simp
  | some model =>
    cases truthy cfg.revision with
    | none => simp
    | some r => simpa using canonical_twice_at_ne hL model r

/-- The loader reads the manifest key that the publisher wrote exactly if the identity is settled,
where no two of the identities have one digest; canonicalising again changes nothing exactly for
tidy strings. -/
theorem loader_finds_published_key (L : Libs) (hnormal : L.Normalises) (pub : PublishAs)
    (cfg : ModelConfig) (hcarries : pub.Carries cfg) (call : PublishCall)
    (hcall : call.modelRevision = pub.modelRevision L)
    (hfree : CollisionFree L ∅
      {rev | rev = call.modelRevision ∨ revisionFromModelConfig L cfg = some rev}) :
    ((revisionFromModelConfig L cfg).map (manifestKey L) = some (manifestKey L call.modelRevision) ↔
      pub.Settled L cfg) ∧
    ∀ s, canonicalRevision L (canonicalRevision L s) = canonicalRevision L s ↔ Tidy L s := by
  refine ⟨?_, canonical_twice_iff hnormal⟩
  rw [finds_iff hfree, hcall]
  cases pub with
  | given rev =>
    unfold PublishAs.modelRevision PublishAs.Settled
    dsimp only
    by_cases hrev : rev = []
    · rw [if_pos hrev, hrev, canonical_nil hnormal]
      refine blank_iff hnormal ?_
      rcases hcarries with hoverride | rfl | ⟨repoId, r, rfl, -⟩
      · rw [hoverride, hrev]
        rfl
      · rfl
      · simp at hrev
    rw [if_neg hrev, ← canonical_twice_iff hnormal, revisionFrom_eq]
    rcases hcarries with hoverride | rfl | ⟨repoId, r, rfl, hrepo, hr, rfl⟩
    · simp [hoverride, truthy_some hrev]
    · simp [truthy_some hrev]
    · simp [truthy_some hrepo, truthy_some hr]
  | huggingface repoId rev override =>
    unfold PublishAs.modelRevision
    obtain rfl := show cfg = _ from hcarries
    cases override with
    | some override =>
      unfold PublishAs.Settled
      dsimp only [Option.getD_some]
      by_cases hoverride : override = []
      · subst hoverride
        rw [canonical_nil hnormal, canonical_nil hnormal, blank_iff hnormal rfl]
        simp
      rw [revisionFrom_eq]
      simp [truthy_some hoverride, hoverride]
    | none =>
      unfold PublishAs.Settled
      rw [revisionFrom_eq]
      by_cases hrepo : repoId = []
      · simp [hrepo, truthy]
      cases hrev : truthy rev with
      | some r => simp [truthy_some hrepo, hrev, hrepo]
      | none => simpa [truthy_some hrepo, hrev] using canonical_twice_ne hnormal repoId

lemma standIn_normalises (digests : List (Bytes × Bytes)) (tables : List Table) :
    (standIn digests tables).Normalises :=
  ⟨fun _ => rfl, fun _ _ => rfl, fun _ _ => rfl, fun _ _ => rfl⟩

/-- `a/b` at `main`, published and read with the revision given. -/
theorem loader_finds_published_key_main :
    let L := standIn [] []
    let cfg : ModelConfig := ⟨some ['a', '/', 'b'], some main, none⟩
    (revisionFromModelConfig L cfg).map (manifestKey L) =
      some (manifestKey L
        ((PublishAs.huggingface ['a', '/', 'b'] (some main) none).modelRevision L)) :=
  (loader_finds_published_key (standIn [] []) (standIn_normalises [] [])
    (.huggingface ['a', '/', 'b'] (some main) none) _ rfl
    { publishFp16 with modelRevision := _ } rfl ⟨by simp, fun _ _ _ _ h => h⟩).1.mpr ⟨by decide, rfl⟩

/-- Without a revision the publisher takes `main` and the loader takes none; and `a//` is another
text after each of two canonicalisations, of which a direct publish makes one and the loader two. -/
theorem loader_misses_published_key :
    let L := standIn [] []
    let pub : PublishAs := .huggingface ['a'] none none
    (pub.Carries ⟨some ['a'], none, none⟩ ∧
      (revisionFromModelConfig L ⟨some ['a'], none, none⟩).map (manifestKey L) ≠
        some (manifestKey L (pub.modelRevision L))) ∧
    canonicalRevision L ['a', '/', '/'] = ['a', '/'] ∧ canonicalRevision L ['a', '/'] = ['a'] ∧
      (revisionFromModelConfig L ⟨none, none, some ['a', '/', '/']⟩).map (manifestKey L) ≠
        some (manifestKey L ((PublishAs.given ['a', '/', '/']).modelRevision L)) := by
  exact ⟨⟨rfl, by decide +kernel⟩, by decide +kernel⟩

end RadosNkv.Weights
