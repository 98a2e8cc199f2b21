import Mathlib.Data.Set.Function
import RadosNkv.Weights.Published

/-! A publish on a catalog: the Values it puts, the manifest it stores, and what each revision holds
after it. -/

namespace RadosNkv

namespace Weights

open List Prog WeightManifest

def putValue (L : Libs) (c : Catalog) (v : Bytes) : Catalog :=
  if c.contains (chunkKey L v) then c else c.insert (chunkKey L v) v

def putValues (L : Libs) (c : Catalog) (vs : List Bytes) : Catalog := vs.foldl (putValue L) c

section

variable {L : Libs} {c : Catalog} {v w key : Bytes}

lemma run_puts {α : Type} {Q : Kv α → Prop} {p : Kv α} (h : Puts L vs Q p) (c : Catalog) :
    ∃ p', Q p' ∧ p.run serve c = p'.run serve (putValues L c vs) := by
  induction vs generalizing p c with
  | nil => exact ⟨p, h, rfl⟩
  | cons v vs ih =>
    obtain ⟨k, hk, rfl⟩ := h
    obtain ⟨p', hQ, hr⟩ := ih (hk (c.contains (chunkKey L v))) (putValue L c v)
    refine ⟨p', hQ, Eq.trans ?_ hr⟩
    simp only [run_call, serve, putValue]
    cases c.contains (chunkKey L v) <;> rfl

lemma get_putValue (L : Libs) (c : Catalog) (v key : Bytes) :
    (putValue L c v).get key = if c.get key = none ∧ key = chunkKey L v then some v else c.get key := by
  unfold putValue Dict.contains
  by_cases hk : key = chunkKey L v
  · subst hk
    cases hc : c.get (chunkKey L v) with
    | none => simp
    | some w => simp [hc]
  split
  · simp [hk]
  · simp [hk, Dict.get_insert_ne]

lemma get_putValues_of_some (vs : List Bytes) (h : c.get key = some w) : (putValues L c vs).get key = some w := by
  induction vs generalizing c with
  | nil => exact h
  | cons v vs ih =>
    refine ih ?_
    rw [get_putValue, if_neg (by simp [h]), h]

lemma get_putValues_of_ne (vs : List Bytes) (h : ∀ v, key ≠ chunkKey L v) : (putValues L c vs).get key = c.get key := by
  induction vs generalizing c with
  | nil => rfl
  | cons v vs ih =>
    refine ih.trans ?_
    rw [get_putValue, if_neg fun hv => h v hv.2]

lemma isSome_get_putValues (h : v ∈ vs) : ((putValues L c vs).get (chunkKey L v)).isSome := by
  induction vs generalizing c with
  | nil => exact absurd h not_mem_nil
  | cons u vs ih =>
    rcases mem_cons.mp h with rfl | h
    · have hp : ∃ w, (putValue L c v).get (chunkKey L v) = some w := by
        rw [get_putValue]
        cases hc : c.get (chunkKey L v) with
        | none => exact ⟨v, by simp⟩
        | some w => exact ⟨w, by simp⟩
      obtain ⟨w, hw⟩ := hp
      have hg : (putValues L c (v :: vs)).get (chunkKey L v) = some w := get_putValues_of_some vs hw
      rw [hg]
      rfl
    · exact ih h

lemma of_get_putValues (h : (putValues L c vs).get key = some w) :
    c.get key = some w ∨ w ∈ vs ∧ key = chunkKey L w := by
  induction vs generalizing c with
  | nil => exact .inl h
  | cons v vs ih =>
    rcases ih h with hg | ⟨hw, hk⟩
    · rw [get_putValue] at hg
      split at hg
      · next hn =>
        cases hg
        exact .inr ⟨mem_cons_self .., hn.2⟩
      · exact .inl hg
    · exact .inr ⟨mem_cons_of_mem _ hw, hk⟩

def Addressed (L : Libs) (U : Set Bytes) (c : Catalog) : Prop :=
  ∀ v w, c.get (chunkKey L v) = some w → w ∈ U ∧ chunkKey L w = chunkKey L v

section

variable (h : Addressed L U c)
include h

lemma Addressed.putValues (hv : ∀ v ∈ vs, v ∈ U) : Addressed L U (putValues L c vs) := by
  intro u w hw
  rcases of_get_putValues hw with hw | ⟨hm, hk⟩
  · exact h u w hw
  · exact ⟨hv w hm, hk.symm⟩

lemma Addressed.insert_manifest (rev : Str) (data : Bytes) : Addressed L U (c.insert (manifestKey L rev) data) := by
  intro u w hw
  rw [Dict.get_insert_ne _ _ (manifestKey_ne_chunkKey rev u).symm] at hw
  exact h u w hw

lemma Addressed.eq (hf : Set.InjOn L.blake2b U) (hv : v ∈ U) (hw : c.get (chunkKey L v) = some w) : w = v := by
  obtain ⟨hwU, hk⟩ := h v w hw
  exact hf hwU hv (chunkKey_inj.mp hk)

lemma Addressed.get_putValues (hf : Set.InjOn L.blake2b U) (hs : ∀ v ∈ vs, v ∈ U)
    (hv : v ∈ vs) : (Weights.putValues L c vs).get (chunkKey L v) = some v := by
  obtain ⟨w, hw⟩ := Option.isSome_iff_exists.mp (isSome_get_putValues (c := c) hv)
  rw [hw, (h.putValues hs).eq hf (hs v hv) hw]

end

end

namespace PublishCall

def base (L : Libs) (c : Catalog) (call : PublishCall) : Except Exn (Option WeightManifest) :=
  if call.merge then
    match c.get (manifestKey L call.modelRevision) with
    | none => .ok none
    | some existing => some <$> WeightManifest.fromIpc L existing
  else .ok none

variable {L : Libs} {kvvml : Int} {call : PublishCall} {c : Catalog}

lemma reads_readBase (L : Libs) (call : PublishCall) :
    Reads (fun key => key = manifestKey L call.modelRevision) (readBase L call) := by
  unfold readBase
  split
  · refine ⟨⟨_, rfl, rfl⟩, fun r => ?_⟩
    cases r with
    | none => trivial
    | some existing =>
      show Uses _ (some <$> (fromIpc L existing : Kv WeightManifest))
      cases fromIpc L existing <;> trivial
  · trivial

lemma readBase_run : (readBase L call).run serve c = (call.base L c, c) := by
  unfold readBase base
  split
  · simp only [Kv.retrieve, perform_bind, run_call, serve]
    cases c.get (manifestKey L call.modelRevision) with
    | none => rfl
    | some existing =>
      simp only
      cases fromIpc L existing <;> rfl
  · rfl

lemma publish_run (L : Libs) (kvvml : Int) (call : PublishCall) (c : Catalog) :
    ∃ stats, (publish L kvvml call).run serve c =
      if call.cap kvvml ≤ 0 then (.error (.maxValueLen (call.cap kvvml)), c)
      else
        match call.base L c with
        | .error e => (.error e, c)
        | .ok base =>
          match call.manifestBytes L kvvml base with
          | .error e => (.error e, putValues L c (call.values kvvml))
          | .ok data =>
            (.ok stats, (putValues L c (call.values kvvml)).insert (manifestKey L call.modelRevision) data) := by
  by_cases hc : call.cap kvvml ≤ 0
  · refine ⟨{}, ?_⟩
    rw [publish, if_pos hc, if_pos hc]
    rfl
  rw [publish_of_cap_pos (Int.not_le.mp hc), run_bind, readBase_run]
  cases hb : call.base L c with
  | error e => exact ⟨{}, by rw [if_neg hc]⟩
  | ok base =>
    obtain ⟨p, hf, hr⟩ := run_puts (puts_publishOnto L kvvml call base) c
    simp only [if_neg hc, hr]
    unfold Finishes at hf
    cases hd : call.manifestBytes L kvvml base with
    | error e =>
      rw [hd] at hf
      exact ⟨{}, by rw [hf]; rfl⟩
    | ok data =>
      rw [hd] at hf
      obtain ⟨stats, rfl⟩ := hf
      exact ⟨stats, rfl⟩

lemma publish_ok (h : (publish L kvvml call).run serve c = (.ok stats, c')) :
    0 < call.cap kvvml ∧ ∃ base data, call.base L c = .ok base ∧ call.manifestBytes L kvvml base = .ok data ∧
      c' = (putValues L c (call.values kvvml)).insert (manifestKey L call.modelRevision) data := by
  obtain ⟨stats', hr⟩ := publish_run L kvvml call c
  rw [hr] at h
  by_cases hc : call.cap kvvml ≤ 0
  · rw [if_pos hc] at h
    cases h
  rw [if_neg hc] at h
  refine ⟨Int.not_le.mp hc, ?_⟩
  cases hb : call.base L c with
  | error e =>
    rw [hb] at h
    cases h
  | ok base =>
    cases hd : call.manifestBytes L kvvml base with
    | error e =>
      simp only [hb, hd] at h
      cases h
    | ok data =>
      simp only [hb, hd] at h
      cases h
      exact ⟨base, data, rfl, hd, rfl⟩

end PublishCall

/-- The catalog has no manifest of the revision, or one with these tensors. -/
def Holding (L : Libs) (c : Catalog) (rev p : Str) (held : Held) : Prop :=
  match manifestOf L c rev with
  | none => held = none
  | some m => Holds L c.get m p held

/-- A manifest that is there has no comma in its precisions. -/
def Mergeable (L : Libs) (c : Catalog) (rev : Str) : Prop := ∀ m, manifestOf L c rev = some m → m.CommaFree

def LoadsHeld (L : Libs) (c : Catalog) (rev p : Str) : Held → Prop
  | none => ∃ e, ((load L rev p).run serve c).1 = .error e
  | some f => Loads L c rev p f

section

variable {L : Libs} {c c' : Catalog} {rev rev' p : Str} {held : Held}

lemma Holding.loadsHeld (h : Holding L c rev p held) : LoadsHeld L c rev p held := by
  unfold Holding at h
  cases held with
  | some f =>
    refine loads_iff.mpr ?_
    cases hm : manifestOf L c rev with
    | none =>
      rw [hm] at h
      cases h
    | some m =>
      rw [hm] at h
      exact ⟨m, rfl, h⟩
  | none =>
    show ∃ e, _ = _
    cases hr : ((load L rev p).run serve c).1 with
    | error e => exact ⟨e, rfl⟩
    | ok out =>
      obtain ⟨m, hm, hs⟩ := loads_iff.mp ⟨out, hr, rfl⟩
      rw [hm] at h
      exact absurd hs.1 h

abbrev SameManifest (L : Libs) (c c' : Catalog) (rev : Str) : Prop :=
  c'.get (manifestKey L rev) = c.get (manifestKey L rev)

lemma manifestOf_congr (h : c'.get (manifestKey L rev') = c.get (manifestKey L rev)) :
    manifestOf L c' rev' = manifestOf L c rev := by
  rw [manifestOf, h]
  rfl

variable {m : WeightManifest} {get : Bytes → Option Bytes}

lemma Holds.mono (h : Holds L get m p held) (hg : KeepsChunks L get get') :
    Holds L get' m p held := by
  cases held with
  | none => exact h
  | some f => exact Shows.mono h hg

lemma Holding.mono (h : Holding L c rev p held) (hk : SameManifest L c c' rev)
    (hg : KeepsChunks L c.get c'.get) : Holding L c' rev p held := by
  unfold Holding at h ⊢
  rw [manifestOf_congr hk]
  cases hm : manifestOf L c rev with
  | none =>
    rw [hm] at h
    exact h
  | some m =>
    rw [hm] at h
    exact Holds.mono h hg

lemma commaFree_of_same {m' : WeightManifest} (h : m.CommaFree) (hs : m'.Same m) : m'.CommaFree := by
  intro p hp
  obtain ⟨n, v, hv⟩ := mem_precisions.mp hp
  exact h p (mem_precisions.mpr ⟨n, v, (hs.variant n p).symm.trans hv⟩)

variable {base : Option WeightManifest}

lemma PublishCall.commaFree_manifest {call : PublishCall} (hm : call.manifest L kvvml base = .ok m)
    (hb : (base.getD .empty).CommaFree) (hs : ∀ p, TensorsSpec.Has call.tensors p → ',' ∉ p) :
    m.CommaFree := by
  intro p hp
  obtain ⟨n, v, hv⟩ := mem_precisions.mp hp
  rcases recordTensors_ok hm n p with ⟨t, ht, -, rfl, -⟩ | ⟨-, hsm⟩
  · exact hs _ ⟨t, ht, rfl⟩
  · exact hb p (mem_precisions.mpr ⟨n, v, hsm.symm.trans hv⟩)

lemma Holds.same {m' : WeightManifest} (h : Holds L get m p held) (hs : m'.Same m) : Holds L get m' p held := by
  cases held with
  | some f => exact Shows.same h hs
  | none =>
    intro hp
    obtain ⟨n, v, hv⟩ := mem_precisions.mp hp
    exact h (mem_precisions.mpr ⟨n, v, (hs.variant n p).symm.trans hv⟩)

lemma holding_insert_manifest (hL : L.Lossless) (hd : m.toIpc L = .ok data) (hf : m.CommaFree)
    (hh : Holds L c.get m p held) : Holding L (c.insert (manifestKey L rev) data) rev p held ∧
      Mergeable L (c.insert (manifestKey L rev) data) rev := by
  obtain ⟨m', hm', hs⟩ := exists_fromIpc hL hd hf
  have ho : manifestOf L (c.insert (manifestKey L rev) data) rev = some m' := by
    simp [manifestOf, hm']
  have hg : ∀ key v, c.get key = some v → chunkKey L v = key →
      (c.insert (manifestKey L rev) data).get key = some v := by
    rintro key v hv rfl
    rw [Dict.get_insert_ne _ _ (manifestKey_ne_chunkKey rev v).symm, hv]
  refine ⟨?_, fun m'' hm'' => ?_⟩
  · unfold Holding
    rw [ho]
    exact (hh.mono hg).same hs
  rw [ho] at hm''
  cases hm''
  exact commaFree_of_same hf hs

lemma PublishCall.holds_base {call : PublishCall} (hb : call.base L c = .ok base)
    (hre : manifestKey L call.modelRevision = manifestKey L rev)
    (hold : call.merge = true → Holding L c rev p held ∧ Mergeable L c rev) :
    Holds L c.get (base.getD .empty) p (if call.merge then held else none) ∧ (base.getD .empty).CommaFree := by
  have he : empty.CommaFree := fun p hp => absurd hp not_mem_nil
  unfold PublishCall.base at hb
  cases hmr : call.merge with
  | false =>
    rw [hmr] at hb
    cases hb
    exact ⟨holds_empty L c.get p, he⟩
  | true =>
    obtain ⟨hh, hf⟩ := hold hmr
    rw [hmr, if_pos rfl, hre] at hb
    simp only [Holding, Mergeable, manifestOf] at hh hf
    cases hr : c.get (manifestKey L rev) with
    | none =>
      rw [hr] at hb hh
      cases hb
      cases hh
      exact ⟨holds_empty L c.get p, he⟩
    | some raw =>
      simp only [hr] at hb hh hf
      cases hm : fromIpc L raw with
      | error e =>
        rw [hm] at hb
        cases hb
      | ok m =>
        rw [hm] at hb
        cases hb
        rw [hm] at hh hf
        exact ⟨hh, hf m rfl⟩

end

section

variable {L : Libs} {kvvml : Int} {call : PublishCall} {c c' : Catalog} {rev p : Str} {held : Held}

lemma Addressed.publish (h : Addressed L U c) (hU : ∀ v ∈ call.values kvvml, v ∈ U)
    (hr : (publish L kvvml call).run serve c = (.ok stats, c')) : Addressed L U c' := by
  obtain ⟨-, base, data, -, -, rfl⟩ := PublishCall.publish_ok hr
  exact (h.putValues hU).insert_manifest _ _

lemma get_of_publish_other (hu : (publish L kvvml call).run serve c = (.ok stats, c'))
    (hr : manifestKey L rev ≠ manifestKey L call.modelRevision) :
    c'.get (manifestKey L rev) = c.get (manifestKey L rev) ∧
      KeepsChunks L c.get c'.get := by
  obtain ⟨-, base, data, -, -, rfl⟩ := PublishCall.publish_ok hu
  refine ⟨?_, fun key v hv hk => ?_⟩
  · rw [Dict.get_insert_ne _ _ hr, get_putValues_of_ne _ (manifestKey_ne_chunkKey rev)]
  subst hk
  rw [Dict.get_insert_ne _ _ (manifestKey_ne_chunkKey _ v).symm, get_putValues_of_some _ hv]

lemma holding_store (hL : L.Lossless) (hc : 0 < call.cap kvvml)
    (hg : ∀ v ∈ call.values kvvml, c.get (chunkKey L v) = some v)
    (hs : ∀ p, TensorsSpec.Has call.tensors p → ',' ∉ p) (hb : call.base L c = .ok base)
    (hd : call.manifestBytes L kvvml base = .ok data)
    (hr : manifestKey L call.modelRevision = manifestKey L rev)
    (hold : call.merge = true → Holding L c rev p held ∧ Mergeable L c rev) :
    Holding L (c.insert (manifestKey L call.modelRevision) data) rev p
        (TensorsSpec.onto call.tensors p (if call.merge then held else none)) ∧
      Mergeable L (c.insert (manifestKey L call.modelRevision) data) rev := by
  obtain ⟨m, hm, hd⟩ := bind_eq_ok.mp hd
  obtain ⟨hh, hbsF⟩ := PublishCall.holds_base hb hr hold
  have hm' := PublishCall.holds_manifest hc hg hm hh
  rw [hr]
  exact holding_insert_manifest hL hd (PublishCall.commaFree_manifest hm hbsF hs) hm'

lemma PublishCall.base_putValues (vs : List Bytes) : call.base L (putValues L c vs) = call.base L c := by
  rw [base, base, get_putValues_of_ne vs (manifestKey_ne_chunkKey call.modelRevision)]

lemma Holding.putValues (h : Holding L c rev p held) (vs : List Bytes) : Holding L (putValues L c vs) rev p held :=
  h.mono (get_putValues_of_ne vs (manifestKey_ne_chunkKey rev)) fun _ _ hv _ => get_putValues_of_some vs hv

lemma Mergeable.congr (h : Mergeable L c rev) (hk : SameManifest L c c' rev) :
    Mergeable L c' rev := by
  intro m hm
  rw [manifestOf_congr hk] at hm
  exact h m hm

lemma holding_publish (hL : L.Lossless)
    (hg : ∀ v ∈ call.values kvvml, (putValues L c (call.values kvvml)).get (chunkKey L v) = some v)
    (hs : ∀ p, TensorsSpec.Has call.tensors p → ',' ∉ p) (hu : (publish L kvvml call).run serve c = (.ok stats, c'))
    (hr : manifestKey L call.modelRevision = manifestKey L rev)
    (hold : call.merge = true → Holding L c rev p held ∧ Mergeable L c rev) :
    Holding L c' rev p (TensorsSpec.onto call.tensors p (if call.merge then held else none)) ∧ Mergeable L c' rev := by
  obtain ⟨hc, base, data, hb, hd, rfl⟩ := PublishCall.publish_ok hu
  refine holding_store hL hc hg hs ((PublishCall.base_putValues _).trans hb) hd hr fun hmr => ?_
  obtain ⟨hh, hm⟩ := hold hmr
  exact ⟨hh.putValues _, hm.congr (get_putValues_of_ne _ (manifestKey_ne_chunkKey rev))⟩

end

end Weights

end RadosNkv
