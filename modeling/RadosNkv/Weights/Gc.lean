import RadosNkv.Weights.Contents

/-! Garbage collection (`gc.py`): the keys of the live manifests and of the Values they name are
marked, and every other key of the namespace is swept. -/

namespace RadosNkv

namespace Weights

open List Prog WeightManifest

def addKeys (live : List Bytes) (keys : List (Option Bytes)) : Except Exn (List Bytes) :=
  keys.foldlM
    (fun live key =>
      match key with
      | none => .error .typeError
      | some key => .ok (live.insert key))
    live

def markManifest (manifest : WeightManifest) (live : List Bytes) : Except Exn (List Bytes) :=
  manifest.precisions.foldlM
    (fun live precision =>
      (manifest.tensors precision).foldlM
        (fun live tensor => do addKeys live (← manifest.chunkKeys tensor precision)) live)
    live

structure MarkState where
  live : List Bytes := []
  unreadable : List Str := []
  liveManifests : Nat := 0
  seen : List Bytes := []

variable (L : Libs)

/-- The rest of a round of `_mark`'s loop, once the manifest is retrieved. -/
def markAnswer (st : MarkState) (rev : Str) (raw : Option Bytes) : Except Exn MarkState :=
  let st := { st with seen := manifestKey L rev :: st.seen }
  match raw with
  | none => .ok { st with unreadable := st.unreadable ++ [canonicalRevision L rev] }
  | some raw =>
    match WeightManifest.fromIpc L raw with
    | .error _ => .ok { st with unreadable := st.unreadable ++ [canonicalRevision L rev] }
    | .ok manifest => do
      let live ← markManifest manifest (st.live.insert (manifestKey L rev))
      pure { st with live := live, liveManifests := st.liveManifests + 1 }

def markRevision (st : MarkState) (rev : Str) : Kv MarkState :=
  if manifestKey L rev ∈ st.seen then pure st
  else do
    let raw ← Kv.retrieve (manifestKey L rev)
    markAnswer L st rev raw

def marked (st : MarkState) : Except Exn (List Bytes × Nat) :=
  if st.unreadable ≠ [] then .error (.gcUnsafe st.unreadable) else .ok (st.live, st.liveManifests)

def mark (liveRevisions : List Str) : Kv (List Bytes × Nat) := do
  let st ← liveRevisions.foldlM (markRevision L) {}
  marked st

structure GcStats where
  liveChunks : Int := 0
  liveManifests : Nat := 0
  swept : Nat := 0
  bytesSwept : Nat := 0
  dryRun : Bool := false
  sweptKeys : List Bytes := []

def GcStats.sweep (stats : GcStats) (key : Bytes) (value : Option Bytes) : GcStats :=
  { stats with
    bytesSwept := stats.bytesSwept + (value.getD []).length
    swept := stats.swept + 1
    sweptKeys := stats.sweptKeys ++ [key] }

def sweepKey (live : List Bytes) (dryRun : Bool) (stats : GcStats) (key : Bytes) : Kv GcStats :=
  if key ∈ live then pure stats
  else do
    let value ← Kv.retrieve key
    if dryRun then pure (stats.sweep key value)
    else do
      Kv.delete key
      pure (stats.sweep key value)

def gc (liveRevisions : List Str) (dryRun : Bool) : Kv GcStats := do
  let (live, liveManifests) ← mark L liveRevisions
  let keys ← Kv.iterKeys
  keys.foldlM (sweepKey live dryRun)
    { liveChunks := (live.length : Int) - liveManifests, liveManifests := liveManifests, dryRun := dryRun }

variable {L}

def WeightManifest.References (m : WeightManifest) (key : Bytes) : Prop :=
  ∃ n p v, m.variantOf n p = some v ∧ some key ∈ v.keys

def WeightManifest.KeysPresent (m : WeightManifest) : Prop := ∀ n p v, m.variantOf n p = some v → none ∉ v.keys

/-- The key of a live manifest, or one that a live manifest references. -/
def LiveKey (L : Libs) (c : Catalog) (revs : List Str) (key : Bytes) : Prop :=
  ∃ rev ∈ revs, key = manifestKey L rev ∨ ∃ m, manifestOf L c rev = some m ∧ m.References key

def Adds (step : List Bytes → Except Exn (List Bytes)) (G : Prop) (S : Bytes → Prop) : Prop :=
  ∀ live, (∀ live', step live = .ok live' → G ∧ ∀ key, key ∈ live' ↔ key ∈ live ∨ S key) ∧
    (G → ∃ live', step live = .ok live')

lemma Adds.congr {step : List Bytes → Except Exn (List Bytes)} {G G' : Prop} {S S' : Bytes → Prop}
    (h : Adds step G S) (hG : G ↔ G') (hS : ∀ key, S key ↔ S' key) : Adds step G' S' := by
  intro live
  obtain ⟨ho, ht⟩ := h live
  refine ⟨fun live' he => ?_, fun hg => ht (hG.mpr hg)⟩
  obtain ⟨hg, hm⟩ := ho live' he
  exact ⟨hG.mp hg, fun key => by rw [hm, hS]⟩

lemma Adds.foldlM {α : Type} {f : List Bytes → α → Except Exn (List Bytes)} {G : α → Prop} {S : α → Bytes → Prop}
    {xs : List α} (h : ∀ x ∈ xs, Adds (fun live => f live x) (G x) (S x)) :
    Adds (fun live => xs.foldlM f live) (∀ x ∈ xs, G x) (fun key => ∃ x ∈ xs, S x key) := by
  induction xs with
  | nil =>
    refine fun live => ⟨fun live' he => ?_, fun _ => ⟨live, rfl⟩⟩
    cases he
    simp
  | cons x xs ih =>
    have hx := h x (mem_cons_self ..)
    have hxs := ih fun y hy => h y (mem_cons_of_mem _ hy)
    refine fun live => ⟨fun live' he => ?_, fun hg => ?_⟩
    · simp only [foldlM_cons] at he
      obtain ⟨live1, h1, h2⟩ := bind_eq_ok.mp he
      obtain ⟨hg, hm⟩ := (hx live).1 live1 h1
      obtain ⟨hs, hms⟩ := (hxs live1).1 live' h2
      refine ⟨forall_mem_cons.mpr ⟨hg, hs⟩, fun key => ?_⟩
      rw [hms, hm, or_assoc]
      simp only [exists_mem_cons_iff]
    obtain ⟨hg, hs⟩ := forall_mem_cons.mp hg
    obtain ⟨live1, h1⟩ := (hx live).2 hg
    obtain ⟨live2, h2⟩ := (hxs live1).2 hs
    refine ⟨live2, ?_⟩
    simp only [foldlM_cons]
    exact bind_eq_ok.mpr ⟨live1, h1, h2⟩

lemma adds_addKeys (keys : List (Option Bytes)) :
    Adds (fun live => addKeys live keys) (none ∉ keys) (fun key => some key ∈ keys) := by
  refine (Adds.foldlM (G := fun k => k ≠ none) (S := fun k key => k = some key) fun k _ => ?_).congr ?_ fun key => ?_
  · intro live
    cases k with
    | none => exact ⟨fun live' he => (nomatch he), fun hg => absurd rfl hg⟩
    | some k =>
      refine ⟨fun live' he => ?_, fun _ => ⟨_, rfl⟩⟩
      cases he
      refine ⟨by simp, fun key => ?_⟩
      simp only [mem_insert_iff, Option.some.injEq]
      rw [or_comm, eq_comm]
  · exact ⟨fun ha hn => ha none hn rfl, fun hn k hk he => hn (he ▸ hk)⟩
  · exact ⟨fun ⟨k, hk, he⟩ => he ▸ hk, fun hk => ⟨_, hk, rfl⟩⟩

variable (m : WeightManifest)

lemma adds_markManifest : Adds (markManifest m) m.KeysPresent m.References := by
  have ht : ∀ p n v, m.variantOf n p = some v →
      Adds (fun live => do addKeys live (← m.chunkKeys n p)) (none ∉ v.keys) (fun key => some key ∈ v.keys) := by
    intro p n v hv
    have hy : m.chunkKeys n p = .ok v.keys := by
      rw [chunkKeys, variant_eq_ok.mpr hv]
      rfl
    rw [hy]
    exact adds_addKeys v.keys
  have hp : ∀ p, Adds (fun live => (m.tensors p).foldlM
      (fun live tensor => do addKeys live (← m.chunkKeys tensor p)) live)
      (∀ n ∈ m.tensors p, ∀ v, m.variantOf n p = some v → none ∉ v.keys)
      (fun key => ∃ n ∈ m.tensors p, ∃ v, m.variantOf n p = some v ∧ some key ∈ v.keys) := by
    intro p
    refine Adds.foldlM fun n hn => ?_
    obtain ⟨v, hv⟩ := mem_tensors.mp hn
    exact (ht p n v hv).congr (by simp [hv]) fun key => by simp [hv]
  refine (Adds.foldlM fun p _ => hp p).congr ?_ fun key => ?_
  · constructor
    · intro h n p v hv
      exact h p (mem_precisions.mpr ⟨n, v, hv⟩) n (mem_tensors.mpr ⟨v, hv⟩) v hv
    · exact fun h p _ n _ v hv => h n p v hv
  constructor
  · rintro ⟨p, -, n, -, v, hv, hk⟩
    exact ⟨n, p, v, hv, hk⟩
  rintro ⟨n, p, v, hv, hk⟩
  exact ⟨p, mem_precisions.mpr ⟨n, v, hv⟩, n, mem_tensors.mpr ⟨v, hv⟩, v, hv, hk⟩

/-! ### The mark on a catalog -/

section

variable {c : Catalog} {rev : Str} {done : List Str} {st : MarkState}

lemma manifestOf_eq_some {m : WeightManifest} : manifestOf L c rev = some m ↔
      ∃ raw, c.get (manifestKey L rev) = some raw ∧ fromIpc L raw = .ok m := by
  unfold manifestOf
  cases c.get (manifestKey L rev) with
  | none => simp
  | some raw =>
    simp only [Option.some.injEq, exists_eq_left']
    cases fromIpc L raw <;> simp

lemma manifestOf_congr_key (h : manifestKey L rev = manifestKey L rev') :
    manifestOf L c rev = manifestOf L c rev' := manifestOf_congr (by rw [h])

/-- What the loop of `_mark` has found after some revisions. -/
structure MarkInv (L : Libs) (c : Catalog) (done : List Str) (st : MarkState) : Prop where
  seen : ∀ key, key ∈ st.seen ↔ ∃ rev ∈ done, key = manifestKey L rev
  readable : st.unreadable = [] ↔ ∀ rev ∈ done, ∃ m, manifestOf L c rev = some m
  present : ∀ rev ∈ done, ∀ m, manifestOf L c rev = some m → m.KeysPresent
  live : ∀ key, key ∈ st.live ↔ ∃ rev ∈ done, ∃ m, manifestOf L c rev = some m ∧
    (key = manifestKey L rev ∨ m.References key)

lemma markInv_init (L : Libs) (c : Catalog) : MarkInv L c [] {} := by
  constructor <;> simp

section

variable (h : MarkInv L c done st)
include h

lemma MarkInv.again (hs : manifestKey L rev ∈ st.seen) : MarkInv L c (done ++ [rev]) st := by
  obtain ⟨rev', he', hk⟩ := (h.seen _).mp hs
  have ho : manifestOf L c rev = manifestOf L c rev' := manifestOf_congr_key hk
  constructor
  · intro key
    rw [h.seen]
    constructor
    · rintro ⟨r, hr, rfl⟩
      exact ⟨r, mem_append_left _ hr, rfl⟩
    rintro ⟨r, hr, rfl⟩
    rcases mem_append.mp hr with hr | hr
    · exact ⟨r, hr, rfl⟩
    rw [mem_singleton.mp hr]
    exact ⟨rev', he', hk⟩
  · rw [h.readable]
    constructor
    · intro ha r hr
      rcases mem_append.mp hr with hr | hr
      · exact ha r hr
      rw [mem_singleton.mp hr, ho]
      exact ha rev' he'
    · exact fun ha r hr => ha r (mem_append_left _ hr)
  · intro r hr m hm
    rcases mem_append.mp hr with hr | hr
    · exact h.present r hr m hm
    rw [mem_singleton.mp hr, ho] at hm
    exact h.present rev' he' m hm
  intro key
  rw [h.live]
  constructor
  · rintro ⟨r, hr, hm⟩
    exact ⟨r, mem_append_left _ hr, hm⟩
  rintro ⟨r, hr, m, hm, hy⟩
  rcases mem_append.mp hr with hr | hr
  · exact ⟨r, hr, m, hm, hy⟩
  rw [mem_singleton.mp hr] at hm hy
  exact ⟨rev', he', m, ho ▸ hm, hk ▸ hy⟩

lemma MarkInv.skip (hn : ∀ rev ∈ skipped, manifestKey L rev ∈ st.seen) :
    MarkInv L c (done ++ skipped) st := by
  induction skipped generalizing done with
  | nil => rwa [append_nil]
  | cons rev skipped ih =>
    obtain ⟨hr, hs⟩ := forall_mem_cons.mp hn
    rw [append_cons]
    exact ih (h.again hr) hs

lemma MarkInv.congr (ho : ∀ rev ∈ done, manifestOf L c' rev = manifestOf L c rev) :
    MarkInv L c' done st := by
  refine ⟨h.seen, h.readable.trans ?_, fun rev hr m hm => h.present rev hr m ((ho rev hr).symm.trans hm), ?_⟩
  · exact forall₂_congr fun rev hr => by rw [ho rev hr]
  intro key
  rw [h.live]
  exact exists_congr fun rev => and_congr_right fun hr => by rw [ho rev hr]

lemma MarkInv.answer (ha : markAnswer L st rev (c.get (manifestKey L rev)) = .ok st') :
    MarkInv L c (done ++ [rev]) st' := by
  have hs : ∀ key, key ∈ manifestKey L rev :: st.seen ↔ ∃ r ∈ done ++ [rev], key = manifestKey L r := by
    intro key
    rw [mem_cons, h.seen]
    simp only [mem_append, mem_singleton, or_and_right, exists_or, exists_eq_left]
    rw [or_comm]
  -- the two ways in which the manifest is not readable
  have hu : manifestOf L c rev = none →
      MarkInv L c (done ++ [rev]) { st with
        seen := manifestKey L rev :: st.seen
        unreadable := st.unreadable ++ [canonicalRevision L rev] } := by
    intro hn
    refine ⟨hs, ?_, ?_, ?_⟩
    · simp [hn]
    · intro r hr m hm
      rcases mem_append.mp hr with hr | hr
      · exact h.present r hr m hm
      rw [mem_singleton.mp hr, hn] at hm
      cases hm
    intro key
    rw [h.live]
    simp [or_and_right, exists_or, hn]
  unfold markAnswer at ha
  cases hra : c.get (manifestKey L rev) with
  | none =>
    rw [hra] at ha
    cases ha
    exact hu (by simp [manifestOf, hra])
  | some raw =>
    rw [hra] at ha
    cases hm : fromIpc L raw with
    | error e =>
      simp only [hm] at ha
      cases ha
      exact hu (by simp [manifestOf, hra, hm])
    | ok m =>
      simp only [hm] at ha
      obtain ⟨live, hl, ht⟩ := bind_eq_ok.mp ha
      cases ht
      obtain ⟨hp, he⟩ := (adds_markManifest m _).1 live hl
      have ho : manifestOf L c rev = some m := by simp [manifestOf, hra, hm]
      refine ⟨hs, ?_, ?_, ?_⟩
      · simp only [h.readable, mem_append, mem_singleton, or_imp, forall_and, forall_eq, ho]
        simp
      · intro r hr m' hm'
        rcases mem_append.mp hr with hr | hr
        · exact h.present r hr m' hm'
        rw [mem_singleton.mp hr, ho] at hm'
        cases hm'
        exact hp
      intro key
      rw [he, mem_insert_iff, h.live]
      simp only [mem_append, mem_singleton, or_and_right, exists_or, exists_eq_left, ho,
        Option.some.injEq, exists_eq_left']
      rw [or_assoc, or_left_comm]

end

lemma markAnswer_error (h : markAnswer L st rev (c.get (manifestKey L rev)) = .error e) :
    ∃ m, manifestOf L c rev = some m ∧ ¬ m.KeysPresent := by
  unfold markAnswer at h
  cases hr : c.get (manifestKey L rev) with
  | none =>
    rw [hr] at h
    cases h
  | some raw =>
    rw [hr] at h
    cases hm : fromIpc L raw with
    | error e =>
      simp only [hm] at h
      cases h
    | ok m =>
      refine ⟨m, by simp [manifestOf, hr, hm], fun hp => ?_⟩
      obtain ⟨live, hl⟩ := (adds_markManifest m (st.live.insert (manifestKey L rev))).2 hp
      simp only [hm, hl] at h
      cases h

lemma markRevision_run (st : MarkState) (rev : Str) : (markRevision L st rev).run serve c =
      (if manifestKey L rev ∈ st.seen then .ok st else markAnswer L st rev (c.get (manifestKey L rev)), c) := by
  unfold markRevision
  split
  · rfl
  simp only [Kv.retrieve, perform_bind, run_call, serve]
  rfl

/-- Every live manifest is read, and no key is missing in it. -/
def AllReadable (L : Libs) (c : Catalog) (revs : List Str) : Prop :=
  ∀ rev ∈ revs, ∃ m, manifestOf L c rev = some m ∧ m.KeysPresent

lemma MarkInv.live_iff (h : MarkInv L c revs st) (hd : st.unreadable = []) (key : Bytes) :
    key ∈ st.live ↔ LiveKey L c revs key := by
  rw [h.live]
  constructor
  · rintro ⟨rev, hr, m, hm, hk⟩
    exact ⟨rev, hr, hk.imp_right fun he => ⟨m, hm, he⟩⟩
  rintro ⟨rev, hr, rfl | ⟨m, hm, he⟩⟩
  · obtain ⟨m, hm⟩ := h.readable.mp hd rev hr
    exact ⟨rev, hr, m, hm, .inl rfl⟩
  · exact ⟨rev, hr, m, hm, .inr he⟩

lemma markRevisions_run (h : MarkInv L c done st) (revs : List Str) :
    (∃ st', (revs.foldlM (markRevision L) st).run serve c = (.ok st', c) ∧ MarkInv L c (done ++ revs) st') ∨
      ∃ e, (revs.foldlM (markRevision L) st).run serve c = (.error e, c) ∧
        ∃ rev ∈ revs, ∃ m, manifestOf L c rev = some m ∧ ¬ m.KeysPresent := by
  induction revs generalizing done st with
  | nil => exact .inl ⟨st, rfl, by rwa [append_nil]⟩
  | cons rev revs ih =>
    have hx : ∀ st1, (markRevision L st rev).run serve c = (.ok st1, c) → MarkInv L c (done ++ [rev]) st1 := by
      intro st1 h1
      rw [markRevision_run] at h1
      split at h1
      · next hn =>
        cases h1
        exact h.again hn
      · exact h.answer (Prod.mk.inj h1).1
    rw [foldlM_cons, run_bind]
    cases hu : (markRevision L st rev).run serve c with
    | mk r c1 =>
      have hc : c1 = c := by
        rw [markRevision_run] at hu
        exact (Prod.mk.inj hu).2.symm
      subst hc
      cases r with
      | error e =>
        right
        refine ⟨e, rfl, rev, mem_cons_self .., ?_⟩
        rw [markRevision_run] at hu
        split at hu
        · cases hu
        · exact markAnswer_error (Prod.mk.inj hu).1
      | ok st1 =>
        rcases ih (hx st1 hu) with ⟨st', hs', hi⟩ | ⟨e, he, r, hr, hm⟩
        · exact .inl ⟨st', hs', by rwa [append_cons]⟩
        · exact .inr ⟨e, he, r, mem_cons_of_mem _ hr, hm⟩

lemma mark_run (L : Libs) (c : Catalog) (revs : List Str) :
    (AllReadable L c revs ∧ ∃ live n, (mark L revs).run serve c = (.ok (live, n), c) ∧
        ∀ key, key ∈ live ↔ LiveKey L c revs key) ∨
      (¬ AllReadable L c revs ∧ ∃ e, (mark L revs).run serve c = (.error e, c)) := by
  unfold mark
  rw [run_bind]
  rcases markRevisions_run (markInv_init L c) revs with ⟨st, hs, hi⟩ | ⟨e, he, rev, hr, m, hm, hk⟩
  · rw [hs]
    rw [nil_append] at hi
    by_cases hd : st.unreadable = []
    · left
      have ha := hi.readable.mp hd
      refine ⟨fun rev hr => ?_, st.live, st.liveManifests, ?_, hi.live_iff hd⟩
      · obtain ⟨m, hm⟩ := ha rev hr
        exact ⟨m, hm, hi.present rev hr m hm⟩
      simp only [marked, hd, ne_eq, not_true_eq_false, if_false]
      rfl
    right
    refine ⟨fun ha => hd (hi.readable.mpr fun rev hr => ?_), .gcUnsafe st.unreadable, ?_⟩
    · obtain ⟨m, hm, -⟩ := ha rev hr
      exact ⟨m, hm⟩
    simp only [marked, hd, ne_eq, not_false_eq_true, if_true]
    rfl
  right
  refine ⟨fun ha => ?_, e, by rw [he]⟩
  obtain ⟨m', hm', hk'⟩ := ha rev hr
  rw [hm] at hm'
  cases hm'
  exact hk hk'

end

def sweepStats (live : List Bytes) (c : Catalog) (stats : GcStats) (keys : List Bytes) : GcStats :=
  keys.foldl (fun stats key => if key ∈ live then stats else stats.sweep key (c.get key)) stats

def sweepAll (live : List Bytes) (c : Catalog) (keys : List Bytes) : Catalog :=
  keys.foldl (fun c key => if key ∈ live then c else c.erase key) c

section

variable {live : List Bytes} {c : Catalog} {stats : GcStats}

lemma get_sweepAll (live : List Bytes) (c : Catalog) (keys : List Bytes) (key : Bytes) :
    (sweepAll live c keys).get key = if key ∈ keys ∧ key ∉ live then none else c.get key := by
  induction keys generalizing c with
  | nil => simp [sweepAll]
  | cons k keys ih =>
    have hc : sweepAll live c (k :: keys) = sweepAll live (if k ∈ live then c else c.erase k) keys := rfl
    rw [hc, ih]
    by_cases hl : key ∈ live
    · simp only [hl, not_true_eq_false, and_false, if_false]
      split
      · rfl
      · next hk => rw [Dict.get_erase, if_neg fun (he : key = k) => hk (he ▸ hl)]
    by_cases hy : key ∈ keys
    · simp [hy, hl]
    by_cases hk : key = k
    · subst hk
      simp [hy, hl, Dict.get_erase]
    simp only [hy, hk, mem_cons, false_and, or_self, if_false]
    split
    · rfl
    · rw [Dict.get_erase, if_neg hk]

variable {keys : List Bytes}

lemma sweepStats_congr {c' : Catalog} (h : ∀ key ∈ keys, c'.get key = c.get key) :
    sweepStats live c' stats keys = sweepStats live c stats keys := by
  induction keys generalizing stats with
  | nil => rfl
  | cons k keys ih =>
    have hk := h k (mem_cons_self ..)
    unfold sweepStats at ih ⊢
    rw [foldl_cons, foldl_cons, hk, ih fun key he => h key (mem_cons_of_mem _ he)]

lemma sweepKeys_run (dryRun : Bool) (hy : keys.Nodup) : (keys.foldlM (sweepKey live dryRun) stats).run serve c =
      (.ok (sweepStats live c stats keys), if dryRun then c else sweepAll live c keys) := by
  induction keys generalizing c stats with
  | nil => cases dryRun <;> rfl
  | cons k keys ih =>
    obtain ⟨hk, hy⟩ := nodup_cons.mp hy
    rw [foldlM_cons, run_bind]
    by_cases hl : k ∈ live
    · simp only [sweepKey, if_pos hl, run_pure, ih hy, sweepStats, sweepAll, foldl_cons]
    have hs : sweepStats live c stats (k :: keys) = sweepStats live c (stats.sweep k (c.get k)) keys := by
      simp only [sweepStats, foldl_cons, if_neg hl]
    have ha : sweepAll live c (k :: keys) = sweepAll live (c.erase k) keys := by
      simp only [sweepAll, foldl_cons, if_neg hl]
    cases dryRun with
    | true =>
      have hr : (sweepKey live true stats k).run serve c = (.ok (stats.sweep k (c.get k)), c) := by
        rw [sweepKey, if_neg hl]
        rfl
      rw [hr, hs]
      exact ih hy
    | false =>
      have hr : (sweepKey live false stats k).run serve c = (.ok (stats.sweep k (c.get k)), c.erase k) := by
        rw [sweepKey, if_neg hl]
        rfl
      have hm : ∀ key ∈ keys, (c.erase k).get key = c.get key := by
        intro key hke
        rw [Dict.get_erase, if_neg fun (he : key = k) => hk (he ▸ hke)]
      rw [hr, hs, ha, ← sweepStats_congr hm]
      exact ih hy

lemma sweptKeys_sweepStats (keys : List Bytes) :
    (sweepStats live c stats keys).sweptKeys = stats.sweptKeys ++ keys.filter fun key => key ∉ live := by
  induction keys generalizing stats with
  | nil => simp [sweepStats]
  | cons k keys ih =>
    unfold sweepStats at ih ⊢
    rw [foldl_cons, ih]
    by_cases hl : k ∈ live
    · simp [hl]
    · simp [hl, GcStats.sweep]

lemma swept_sweepStats (keys : List Bytes) (h : stats.swept = stats.sweptKeys.length) :
    (sweepStats live c stats keys).swept = (sweepStats live c stats keys).sweptKeys.length := by
  induction keys generalizing stats with
  | nil => exact h
  | cons k keys ih =>
    unfold sweepStats at ih ⊢
    rw [foldl_cons]
    split
    · exact ih h
    · exact ih (by simp [GcStats.sweep, h])

lemma sweepStats_dryRun (dryRun : Bool) (keys : List Bytes) :
    sweepStats live c { stats with dryRun := dryRun } keys = { sweepStats live c stats keys with dryRun := dryRun } := by
  induction keys generalizing stats with
  | nil => rfl
  | cons k keys ih =>
    unfold sweepStats at ih ⊢
    rw [foldl_cons, foldl_cons]
    split
    · exact ih
    · exact @ih (stats.sweep k (c.get k))

lemma sweepAll_of_live (h : ∀ key ∈ keys, key ∈ live) : sweepAll live c keys = c := by
  induction keys generalizing c with
  | nil => rfl
  | cons k keys ih =>
    have hk := h k (mem_cons_self ..)
    unfold sweepAll at ih ⊢
    rw [foldl_cons, if_pos hk, ih fun key he => h key (mem_cons_of_mem _ he)]

end

section

variable {c : Catalog} {revs : List Str}

lemma gc_run_error (h : (mark L revs).run serve c = (.error e, c)) (dryRun : Bool) :
    (gc L revs dryRun).run serve c = (.error e, c) := by
  unfold gc
  rw [run_bind, h]

lemma gc_run_ok (h : (mark L revs).run serve c = (.ok (live, n), c)) (dryRun : Bool) :
    (gc L revs dryRun).run serve c = (.ok (sweepStats live c
        { liveChunks := (live.length : Int) - n, liveManifests := n, dryRun := dryRun } c.keys),
        if dryRun then c else sweepAll live c c.keys) := by
  unfold gc
  rw [run_bind, h]
  exact sweepKeys_run dryRun c.nodup_keys

lemma get_sweepAll_keys (live : List Bytes) (c : Catalog) (key : Bytes) :
    (sweepAll live c c.keys).get key = if key ∈ live then c.get key else none := by
  rw [get_sweepAll]
  by_cases hl : key ∈ live
  · simp [hl]
  by_cases hk : key ∈ c.keys
  · simp [hl, hk]
  simp only [hl, hk, false_and, if_false]
  exact Dict.get_eq_none.mpr hk

lemma reads_getVerified (rev p : Str) (verified : Dict Bytes Bytes) (key : Option Bytes)
    (tensor : Name) (hK : ∀ k, key = some k → K k) :
    Reads K (getVerified L rev p verified key tensor) := by
  unfold getVerified
  cases key with
  | none => trivial
  | some k =>
    simp only
    cases verified.get k with
    | some cached => trivial
    | none =>
      refine ⟨⟨k, hK k rfl, rfl⟩, fun r => ?_⟩
      cases r with
      | none => trivial
      | some v =>
        show Uses _ (if chunkKey L v ≠ k then _ else _)
        split <;> trivial

lemma reads_addPart (rev p : Str) (tensor : Name) (st : Dict Bytes Bytes × List Bytes)
    (slice : Option Bytes × Option Int × Option Int) (hK : ∀ k, slice.1 = some k → K k) :
    Reads K (addPart L rev p tensor st slice) := by
  refine (reads_getVerified rev p st.1 slice.1 tensor hK).bind fun (value, verified) => ?_
  rcases slice with ⟨key, _ | offset, _ | size⟩
  case some.some =>
    simp only
    split <;> trivial
  all_goals trivial

lemma reads_loadTensor (rev p : Str) (st : Dict Bytes Bytes × Dict Name Bytes) (tensor : Name) :
    Reads m.References (loadTensor L m rev p st tensor) := by
  unfold loadTensor
  cases hs : m.chunkSlices tensor p with
  | error e => trivial
  | ok slices =>
    obtain ⟨v, hr, hv⟩ := bind_eq_ok.mp (show m.variant tensor p >>= _ = .ok slices from hs)
    cases hv
    refine Uses.bind (f := fun st' : Dict Bytes Bytes × List Bytes => _)
      (Uses.foldlM fun st slice hl => reads_addPart rev p tensor st slice fun k hk => ?_) fun st' => ?_
    · refine ⟨tensor, p, v, variant_eq_ok.mp hr, ?_⟩
      rw [← hk]
      exact (of_mem_zip hl).1
    simp only
    split <;> trivial

lemma reads_reassemble (rev p : Str) : Reads m.References (reassemble L m rev p) := by
  unfold reassemble
  split
  · trivial
  · exact Uses.bind (Uses.foldlM fun st n _ => reads_loadTensor m rev p st n) fun _ => trivial

variable {c' : Catalog}

lemma load_congr (p : Str) (hn : SameManifest L c c' rev)
    (hy : ∀ m, manifestOf L c rev = some m → ∀ key, m.References key → c'.get key = c.get key) :
    ((load L rev p).run serve c').1 = ((load L rev p).run serve c).1 := by
  have hr : ∀ key, key = manifestKey L rev → c'.get key = c.get key := fun key hk => hk ▸ hn
  have hc' := run_of_reads (reads_loadManifest L rev) hr
  have hc := run_of_reads (reads_loadManifest L rev) fun key _ => (rfl : c.get key = c.get key)
  unfold load
  rw [run_bind, run_bind, hc', hc]
  cases hm : ((loadManifest L rev).run serve c).1 with
  | error e => rfl
  | ok m =>
    have ho : manifestOf L c rev = some m := by
      rw [← loadManifest_run, hc, hm]
    simp only
    rw [run_of_reads (reads_reassemble m rev p) (hy m ho)]

lemma Shows.congr_references {get get' : Bytes → Option Bytes} {m : WeightManifest} {p : Str}
    {f : Name → Option Bytes} (h : Shows L get m p f) (hg : ∀ key, m.References key → get' key = get key) :
    Shows L get' m p f := by
  refine ⟨h.1, fun n => (h.2 n).imp_right ?_⟩
  rintro ⟨v, data, hv, ⟨parts, ht, hd⟩, hf⟩
  have hn : ∀ slice ∈ v.slices, slice.1 ∈ v.keys := fun slice hs => (of_mem_zip hs).1
  refine ⟨v, data, hv, ⟨parts, ?_, hd⟩, hf⟩
  refine ((forall₂_and_left _ _).mpr ⟨hn, ht⟩).imp fun slice piece hc => ?_
  obtain ⟨hk, key, offset, size, value, rfl, hl, hr⟩ := hc
  exact ⟨key, offset, size, value, rfl, (hg key ⟨n, p, v, hv, hk⟩).trans hl, hr⟩

lemma Holding.congr_references {rev p : Str} {held : Held} (h : Holding L c rev p held) (hk : SameManifest L c c' rev)
    (hg : ∀ m, manifestOf L c rev = some m → ∀ key, m.References key → c'.get key = c.get key) :
    Holding L c' rev p held := by
  unfold Holding at h ⊢
  rw [manifestOf_congr hk]
  cases hm : manifestOf L c rev with
  | none =>
    rw [hm] at h
    exact h
  | some m =>
    rw [hm] at h
    cases held with
    | none => exact h
    | some f => exact Shows.congr_references h (hg m hm)

lemma liveKey_congr (h : ∀ rev ∈ revs, manifestOf L c' rev = manifestOf L c rev) (key : Bytes) :
    LiveKey L c' revs key ↔ LiveKey L c revs key :=
  exists_congr fun rev => and_congr_right fun hr => by rw [h rev hr]

lemma gc_of_all_live (hr : AllReadable L c revs) (ha : ∀ key ∈ c.keys, LiveKey L c revs key) :
    ∃ stats, (gc L revs false).run serve c = (.ok stats, c) ∧ stats.sweptKeys = [] ∧ stats.swept = 0 := by
  rcases mark_run L c revs with ⟨-, live, n, hm, hl⟩ | ⟨hn, -⟩
  · have hy : ∀ key ∈ c.keys, key ∈ live := fun key hk => (hl key).mpr (ha key hk)
    have hs : (sweepStats live c { liveChunks := (live.length : Int) - n, liveManifests := n } c.keys).sweptKeys = [] := by
      rw [sweptKeys_sweepStats, nil_append, filter_eq_nil_iff]
      simpa using hy
    refine ⟨_, (gc_run_ok hm false).trans ?_, hs, ?_⟩
    · rw [if_neg Bool.false_ne_true, sweepAll_of_live hy]
    rw [swept_sweepStats _ rfl, hs]
    rfl
  · exact absurd hr hn

/-- A collection, or a dry run of it, from any catalog and for any live revisions. -/
theorem gc_sweeps_exactly_dead_keys (L : Libs) (c : Catalog) (revs : List Str) :
    (¬ AllReadable L c revs ∧ ∀ dryRun, ∃ e, (gc L revs dryRun).run serve c = (.error e, c)) ∨
      (AllReadable L c revs ∧ ∃ stats c',
        (gc L revs false).run serve c = (.ok stats, c') ∧
        (∀ key, LiveKey L c revs key → c'.get key = c.get key) ∧
        (∀ key, ¬ LiveKey L c revs key → c'.get key = none) ∧
        (stats.sweptKeys.Nodup ∧ stats.swept = stats.sweptKeys.length ∧
          ∀ key, key ∈ stats.sweptKeys ↔ key ∈ c.keys ∧ ¬ LiveKey L c revs key) ∧
        (∀ rev ∈ revs, ∀ p, ((load L rev p).run serve c').1 = ((load L rev p).run serve c).1) ∧
        (gc L revs true).run serve c = (.ok { stats with dryRun := true }, c) ∧
        ∃ again, (gc L revs false).run serve c' = (.ok again, c') ∧ again.sweptKeys = [] ∧
          again.swept = 0) := by
  rcases mark_run L c revs with ⟨hrd, live, n, hmark, hlv⟩ | ⟨hrd, e, hmark⟩
  · right
    have hget := get_sweepAll_keys live c
    have hkept : ∀ key, LiveKey L c revs key → (sweepAll live c c.keys).get key = c.get key :=
      fun key hkey => by rw [hget, if_pos ((hlv key).mpr hkey)]
    have hgn : ∀ key, ¬ LiveKey L c revs key → (sweepAll live c c.keys).get key = none :=
      fun key hkey => by rw [hget, if_neg fun hmem => hkey ((hlv key).mp hmem)]
    have hmanifest : ∀ rev ∈ revs, manifestOf L (sweepAll live c c.keys) rev = manifestOf L c rev :=
      fun rev hrev => manifestOf_congr (hkept _ ⟨rev, hrev, .inl rfl⟩)
    refine ⟨hrd, _, sweepAll live c c.keys, gc_run_ok hmark false, hkept, hgn, ⟨?_, ?_, fun key => ?_⟩, fun rev hrev p => ?_, ?_, ?_⟩
    · rw [sweptKeys_sweepStats, nil_append]
      exact c.nodup_keys.filter _
    · exact swept_sweepStats c.keys rfl
    · rw [sweptKeys_sweepStats, nil_append, mem_filter, decide_eq_true_eq, hlv]
    · exact load_congr p (hkept _ ⟨rev, hrev, .inl rfl⟩) fun m hm key hkey => hkept key ⟨rev, hrev, .inr ⟨m, hm, hkey⟩⟩
    · rw [gc_run_ok hmark true, ← sweepStats_dryRun]
      rfl
    refine gc_of_all_live (fun rev hrev => ?_) fun key hkey => ?_
    · rw [hmanifest rev hrev]
      exact hrd rev hrev
    rw [liveKey_congr hmanifest]
    by_contra hd
    rw [Dict.mem_keys, hgn key hd] at hkey
    cases hkey
  · exact .inl ⟨hrd, fun dryRun => ⟨e, gc_run_error hmark dryRun⟩⟩

end

end Weights

end RadosNkv
