import RadosNkv.Weights.Pool

/-! Publishes beside each other and beside a garbage collection. Nothing in the code keeps them
apart. -/

namespace RadosNkv

open Dict

namespace Weights

open List Prog Pool WeightManifest

/-- What is assumed of the catalog before, of the calls and of the live revisions. -/
structure Setting (L : Libs) (kvvml : Int) (prior : Catalog) (calls : List PublishCall) (revs : List Str) : Prop where
  lossless : L.Lossless
  values : Set.InjOn L.blake2b (usedValues L kvvml prior calls)
  keys : ∀ call ∈ calls, ∀ rev ∈ revs, ¬ call.Into L rev → manifestKey L rev ≠ manifestKey L call.modelRevision
  names : ∀ call ∈ calls, ∀ p, TensorsSpec.Has call.tensors p → ',' ∉ p
  live : ∀ call ∈ calls, ∃ rev ∈ revs, call.Into L rev

def JobInv (L : Libs) (kvvml : Int) (c : Catalog) (j : Job) : Prop :=
  j.rest = publish L kvvml j.call ∧ j.begun = false ∨ ended j.rest = true ∨
    j.begun = true ∧ Underway L kvvml c j.call j.rest

def Pool.Watched (L : Libs) (w : Pool) (rev : Str) : Prop :=
  manifestKey L rev ∈ w.read ∧ ∀ (n : Nat) (j : Job), w.jobs[n]? = some j → j.underway = true → j.key L ≠ manifestKey L rev

/-- The collection marks, sweeps or has ended. -/
inductive GcInv (L : Libs) (revs : List Str) (w : Pool) : Prop where
  | ended (h : Weights.ended w.gc = true)
  | marks {dryRun : Bool} {st : MarkState} {done rest : List Str} (hrevs : revs = done ++ rest)
    (hgc : w.gc = gcFrom L dryRun st rest) (hmark : MarkInv L w.catalog done st)
    (hwatched : ∀ rev ∈ done, w.Watched L rev)
  | sweeps {live : List Bytes} (hgc : w.gc.Uses (Sweeps live))
    (hlive : ∀ key, LiveKey L w.catalog revs key → key ∈ live) (hwatched : ∀ rev ∈ revs, w.Watched L rev)

structure Pool.Inv (L : Libs) (kvvml : Int) (prior : Catalog) (calls : List PublishCall) (revs : List Str) (w : Pool) :
    Prop where
  sameCalls : w.jobs.map Job.call = calls
  addressed : Addressed L (usedValues L kvvml prior calls) w.catalog
  job : ∀ (n : Nat) (j : Job), w.jobs[n]? = some j → JobInv L kvvml w.catalog j
  finished : w.finished.Perm ((w.jobs.filter fun j => returned j.rest).map Job.call)
  tracks : ∀ rev ∈ revs, ∀ p held, Tracks L prior w.catalog rev p held w.finished
  kept : ∀ key, LiveKey L w.catalog revs key → key ∈ prior.keys → key ∈ w.catalog.keys
  gc : GcInv L revs w

section

variable {L : Libs} {kvvml : Int} {prior : Catalog} {calls : List PublishCall} {revs : List Str} {w : Pool}

lemma inv_start (ha : Addressed L (usedValues L kvvml prior calls) prior) (dryRun : Bool) :
    (start L kvvml prior calls revs dryRun).Inv L kvvml prior calls revs where
  sameCalls := by
    rw [start, map_map]
    exact map_id' calls
  addressed := ha
  job := by
    intro n j hj
    simp only [start, getElem?_map, Option.map_eq_some_iff] at hj
    obtain ⟨call, -, rfl⟩ := hj
    exact .inl ⟨rfl, rfl⟩
  finished := by
    have hn : (calls.map fun call => Job.mk call false (publish L kvvml call)).filter (fun j => returned j.rest) = [] := by
      rw [filter_eq_nil_iff]
      rintro j hj
      obtain ⟨call, -, rfl⟩ := mem_map.mp hj
      simp [returned_publish]
    rw [start, hn]
    exact List.Perm.refl _
  tracks := fun rev _ p held => tracks_init L prior rev p held
  kept := fun key _ hk => hk
  gc := .marks (show revs = [] ++ revs from rfl) (gc_eq_gcFrom L revs dryRun) (markInv_init L prior)
    fun rev hr => absurd hr not_mem_nil

lemma getElem?_set_of_some {α : Type} {l : List α} {i : Nat} {a : α} (b : α) (h : l[i]? = some a) (n : Nat) :
    (l.set i b)[n]? = if n = i then some b else l[n]? := by
  have hl : i < l.length := (List.getElem?_eq_some_iff.mp h).1
  rw [getElem?_set]
  by_cases hn : n = i
  · subst hn
    simp [hl]
  · rw [if_neg (Ne.symm hn), if_neg hn]

lemma filter_set_perm {α : Type} {l : List α} {i : Nat} {a b : α} (q : α → Bool) (h : l[i]? = some a)
    (ha : q a = false) : ((l.set i b).filter q).Perm (if q b then l.filter q ++ [b] else l.filter q) := by
  induction l generalizing i with
  | nil => cases h
  | cons x l ih =>
    cases i with
    | zero =>
      cases h
      cases hb : q b with
      | true => simpa [ha, hb] using (perm_append_singleton b _).symm
      | false => simp [ha, hb]
    | succ i =>
      have hr := ih h
      rw [set_cons_succ, filter_cons, filter_cons]
      split
      · refine (hr.cons x).trans ?_
        split <;> exact List.Perm.refl _
      · exact hr

variable {i : Nat} {j : Job} {rest : Kv PublishStats} {c : Catalog}

lemma Job.underway_of_step (hb : j.begun = true) (hs : j.rest.step serve w.catalog = some (rest, c)) :
    j.underway = true := by
  cases hr : j.rest with
  | done r =>
    rw [hr] at hs
    cases hs
  | call op k => simp [Job.underway, hb, hr, ended]

lemma Pool.Inv.operates (h : w.Inv L kvvml prior calls revs) (hset : Setting L kvvml prior calls revs)
    (hj : w.jobs[i]? = some j) (hs : j.rest.step serve w.catalog = some (rest, c)) :
    Operates L kvvml w.catalog j.call j.rest rest c := by
  have hc : j.call ∈ calls := h.sameCalls ▸ mem_map_of_mem (mem_of_getElem? hj)
  have hU : ∀ v ∈ j.call.values kvvml, v ∈ usedValues L kvvml prior calls := fun v hv => .inr ⟨j.call, hc, hv⟩
  rcases h.job i j hj with ⟨hr, -⟩ | he | ⟨-, hu⟩
  · rw [hr] at hs ⊢
    exact publish_step hset.values h.addressed hU hs
  · cases hr : j.rest with
    | done r =>
      rw [hr] at hs
      cases hs
    | call op k =>
      rw [hr] at he
      cases he
  · exact hu.step hset.values h.addressed hU hs

variable {call : PublishCall} {before : Kv PublishStats} {rev p : Str}

lemma Operates.keeps (h : Operates L kvvml c call before rest c') (hf : Set.InjOn L.blake2b U)
    (ha : Addressed L U c) (hU : ∀ v ∈ call.values kvvml, v ∈ U) :
    Keeps L c c' (· = manifestKey L call.modelRevision) ∧ Addressed L U c' := by
  cases h with
  | raise e => exact ⟨.refl .., ha⟩
  | look h => exact ⟨.refl .., ha⟩
  | put hv h => exact ⟨keeps_insert hf ha (hU _ hv), ha.insert (hU _ hv)⟩
  | store h hd hb =>
    refine ⟨⟨fun rev hr => get_insert_ne _ _ hr, fun k v hv hk => ?_⟩, ha.insert_manifest _ _⟩
    rw [get_insert_ne _ _ fun he => manifestKey_ne_chunkKey _ v (hk.trans he).symm, hv]

lemma Operates.tracks (hset : Setting L kvvml prior calls revs) (hc : call ∈ calls) {c : Catalog}
    (h : Operates L kvvml c call before rest c') (ha : Addressed L (usedValues L kvvml prior calls) c)
    (hr : rev ∈ revs) {held : Held} {finished : List PublishCall} (ht : Tracks L prior c rev p held finished) :
    Tracks L prior c' rev p held (if returned rest then finished ++ [call] else finished) := by
  have hU : ∀ v ∈ call.values kvvml, v ∈ usedValues L kvvml prior calls := fun v hv => .inr ⟨call, hc, hv⟩
  have htc := (h.keeps hset.values ha hU).1
  cases h with
  | raise e => exact ht
  | look h =>
    rw [h.not_returned]
    exact ht
  | put hv h =>
    have hg : Keeps L c _ fun _ => False := keeps_insert hset.values ha (hU _ hv)
    have hm := hg.manifest rev not_false
    rw [h.not_returned]
    exact ht.keep hm fun _ hh => hh.mono hm hg.value
  | store h hd hb =>
    show Tracks L prior _ rev p held (finished ++ [call])
    by_cases hint : call.Into L rev
    · exact ht.into hint fun held hold =>
        holding_store hset.lossless h.cap h.there (hset.names call hc) h.base hd (manifestKey_congr hint) hold
    · exact ht.other hint (htc.manifest rev (hset.keys call hc rev hr hint)) htc.value

lemma PutSoFar.references (hL : L.Lossless) {c : Catalog} {base : Option WeightManifest}
    (h : PutSoFar L kvvml c call base (call.values kvvml) []) {data : Bytes} {m : WeightManifest}
    (hdt : call.manifestBytes L kvvml base = .ok data) (hm : fromIpc L data = .ok m) {key : Bytes}
    (hk : m.References key) :
    key ∈ c.keys ∨ ∃ m0, manifestOf L c call.modelRevision = some m0 ∧ m0.References key := by
  obtain ⟨m1, hm1, hdt⟩ := bind_eq_ok.mp hdt
  obtain ⟨-, hs⟩ := same_of_fromIpc hL hdt hm
  obtain ⟨n, p, v, hv, he⟩ := hk
  rw [hs.variant n p] at hv
  rcases recordTensors_ok hm1 n p with ⟨⟨o, t⟩, ht, rfl, rfl, -, u, hu, ho⟩ | ⟨-, hb⟩
  · rw [hu] at hv
    cases hv
    exact .inl (Dict.mem_keys.mpr ((PublishCall.denotes_recs h.cap h.there ht ho).isSome_get he))
  right
  rw [hb] at hv
  have ho := h.base
  unfold PublishCall.base at ho
  cases hmr : call.merge with
  | false =>
    rw [hmr] at ho
    cases ho
    cases hv
  | true =>
    rw [hmr, if_pos rfl] at ho
    cases hr : c.get (manifestKey L call.modelRevision) with
    | none =>
      rw [hr] at ho
      cases ho
      cases hv
    | some raw =>
      simp only [hr] at ho
      cases hd : fromIpc L raw with
      | error e =>
        rw [hd] at ho
        cases ho
      | ok m0 =>
        rw [hd] at ho
        cases ho
        exact ⟨m0, by simp [manifestOf, hr, hd], n, p, v, hv, he⟩

lemma Operates.kept (hset : Setting L kvvml prior calls revs) {c : Catalog} (h : Operates L kvvml c call before rest c')
    {P : Bytes → Prop} (hp : ∀ key, LiveKey L c revs key → P key → key ∈ c.keys) :
    ∀ key, LiveKey L c' revs key → P key → key ∈ c'.keys := by
  cases h with
  | raise e => exact hp
  | look h => exact hp
  | put hv h =>
    intro key hl hP
    rw [liveKey_congr fun rev _ => manifestOf_congr (get_insert_ne _ _ (manifestKey_ne_chunkKey rev _))] at hl
    exact mem_keys_insert.mpr (.inr (hp key hl hP))
  | @store base data _ _ h hdt _ =>
    intro key hl hP
    rw [mem_keys_insert]
    obtain ⟨rev, he, hk⟩ := hl
    by_cases hs : manifestKey L rev = manifestKey L call.modelRevision
    · rcases hk with rfl | ⟨m, hm, hr⟩
      · exact .inl hs
      right
      have hd : fromIpc L data = .ok m := by
        obtain ⟨raw, ha, hd⟩ := manifestOf_eq_some.mp hm
        rw [hs, get_insert_self] at ha
        cases ha
        exact hd
      rcases h.references hset.lossless hdt hd hr with ht | ⟨m0, hm0, hr0⟩
      · exact ht
      refine hp key ⟨rev, he, .inr ⟨m0, ?_, hr0⟩⟩ hP
      rw [manifestOf_congr_key hs, hm0]
    right
    refine hp key ⟨rev, he, hk.imp_right ?_⟩ hP
    rintro ⟨m, hm, hr⟩
    rw [manifestOf_congr (get_insert_ne _ _ hs)] at hm
    exact ⟨m, hm, hr⟩

lemma Operates.others {j j' : Job} (h : Operates L kvvml c j.call before rest c')
    (ht : Keeps L c c' (· = j.key L)) (hj' : JobInv L kvvml c j')
    (ha : (∃ stats, rest = .done (.ok stats)) → j'.underway = true → j'.call.merge = true → j'.key L
      ≠ j.key L) :
    JobInv L kvvml c' j' := by
  rcases hj' with hw | he | ⟨hb, hu⟩
  · exact .inl hw
  · exact .inr (.inl he)
  cases he : ended j'.rest with
  | true => exact .inr (.inl he)
  | false =>
    have hn : j'.underway = true := by simp [Job.underway, hb, he]
    refine .inr (.inr ⟨hb, hu.grows (fun hm => ?_) ht.value⟩)
    cases h with
    | raise e => rfl
    | look h => rfl
    | put hv h => exact get_insert_ne _ _ (manifestKey_ne_chunkKey _ _)
    | store h hd hf => exact get_insert_ne _ _ (ha ⟨_, rfl⟩ hn hm)

lemma Operates.self {j : Job} (h : Operates L kvvml c j.call before rest c') :
    JobInv L kvvml c' { j with begun := true, rest := rest } := by
  cases h with
  | raise e => exact .inr (.inl rfl)
  | look h => exact .inr (.inr ⟨rfl, h⟩)
  | put hv h => exact .inr (.inr ⟨rfl, h⟩)
  | store h hd hb => exact .inr (.inl rfl)

lemma Pool.Inv.gc_advance (h : w.Inv L kvvml prior calls revs) (hset : Setting L kvvml prior calls revs)
    (hj : w.jobs[i]? = some j) (hs : j.rest.step serve w.catalog = some (rest, c))
    (ht : Keeps L w.catalog c (· = j.key L)) (ha : j.begun = false → ended w.gc = true ∨ j.key L ∉ w.read) :
    GcInv L revs (w.advance i j rest c) := by
  by_cases he : ended w.gc = true
  · exact .ended he
  have ho : ∀ rev, w.Watched L rev → j.key L ≠ manifestKey L rev := by
    rintro rev ⟨hrd, hi⟩
    cases hb : j.begun with
    | true => exact hi i j hj (Job.underway_of_step hb hs)
    | false =>
      rcases ha hb with hg | hn
      · exact absurd hg he
      · exact fun hq => hn (hq ▸ hrd)
  have hw : ∀ rev, w.Watched L rev → (w.advance i j rest c).Watched L rev := by
    rintro rev hr
    refine ⟨hr.1, fun n j' hj' hu => ?_⟩
    rw [advance, getElem?_set_of_some _ hj] at hj'
    split at hj'
    · cases hj'
      exact ho rev hr
    · exact hr.2 n j' hj' hu
  cases h.gc with
  | ended hg => exact absurd hg he
  | marks hv hg hm hd =>
    refine .marks hv hg (hm.congr fun rev hr => ?_) fun rev hr => hw rev (hd rev hr)
    exact manifestOf_congr (ht.manifest rev (ho rev (hd rev hr)).symm)
  | sweeps hg hlv hl =>
    have hc : j.call ∈ calls := h.sameCalls ▸ mem_map_of_mem (mem_of_getElem? hj)
    obtain ⟨rev, hr, hint⟩ := hset.live j.call hc
    exact absurd (manifestKey_congr hint) (ho rev (hl rev hr))

lemma Pool.Inv.advance (h : w.Inv L kvvml prior calls revs) (hset : Setting L kvvml prior calls revs)
    (hp : w.Apart L (.publish i)) (hj : w.jobs[i]? = some j) (hs : j.rest.step serve w.catalog = some (rest, c)) :
    (w.advance i j rest c).Inv L kvvml prior calls revs := by
  have hc : j.call ∈ calls := h.sameCalls ▸ mem_map_of_mem (mem_of_getElem? hj)
  have ho := h.operates hset hj hs
  obtain ⟨ht, ha⟩ := ho.keeps hset.values h.addressed fun v hv => .inr ⟨j.call, hc, hv⟩
  obtain ⟨hb, hsr⟩ := hp j hj
  -- no job returns twice
  have hno : returned j.rest = false := by
    cases hrs : j.rest with
    | done r =>
      rw [hrs] at hs
      cases hs
    | call op k => rfl
  constructor
  · show (w.jobs.set i _).map Job.call = calls
    rw [map_set, ← h.sameCalls]
    refine ext_getElem? fun n => ?_
    rw [getElem?_set_of_some (a := j.call) _ (by rw [getElem?_map, hj]; rfl)]
    split
    · next hn =>
      rw [hn, getElem?_map, hj]
      rfl
    · rfl
  · exact ha
  · intro n j' hj'
    rw [Pool.advance, getElem?_set_of_some _ hj] at hj'
    split at hj'
    · cases hj'
      exact ho.self
    next hn =>
    refine ho.others ht (h.job n j' hj') fun ⟨stats, hrs⟩ hu hm => ?_
    refine hsr ?_ j' ?_ hu hm
    · subst hrs
      cases ho with
      | look hu => exact absurd hu.not_returned (by simp [returned])
      | put hv hu => exact absurd hu.not_returned (by simp [returned])
      | store _ _ hf => simp [Job.storesManifest, hf, Job.key]
    · exact mem_eraseIdx_iff_getElem?.mpr ⟨n, hn, hj'⟩
  · have hpr := (filter_set_perm (b := { j with begun := true, rest := rest }) (fun j : Job => returned j.rest) hj hno).map
      Job.call
    refine List.Perm.trans ?_ hpr.symm
    show List.Perm (if returned rest then w.finished ++ [j.call] else w.finished) _
    split
    · rw [map_append]
      exact h.finished.append_right _
    · exact h.finished
  · exact fun rev hr p held => ho.tracks hset hc h.addressed hr (h.tracks rev hr p held)
  · exact ho.kept hset h.kept
  · exact h.gc_advance hset hj hs ht hb

lemma Addressed.erase (h : Addressed L U c) (key : Bytes) : Addressed L U (c.erase key) := by
  intro v u hu
  rw [get_erase] at hu
  split at hu
  · cases hu
  · exact h v u hu

variable {g : Kv GcStats}

lemma Pool.Inv.gc_same (h : w.Inv L kvvml prior calls revs) {read : List Bytes}
    (hg : GcInv L revs { w with gc := g, read := read }) :
    Pool.Inv L kvvml prior calls revs { w with gc := g, read := read } :=
  ⟨h.sameCalls, h.addressed, h.job, h.finished, h.tracks, h.kept, hg⟩

lemma Pool.Watched.read_more (h : w.Watched L rev) (keys : List Bytes) :
    Pool.Watched L { w with gc := g, read := keys ++ w.read } rev :=
  ⟨mem_append_right _ h.1, h.2⟩

lemma Pool.Watched.congr (h : w.Watched L rev) (hk : manifestKey L rev' = manifestKey L rev) :
    w.Watched L rev' := by
  unfold Pool.Watched
  rw [hk]
  exact h

section

variable (h : w.Inv L kvvml prior calls revs)
include h

lemma Pool.Inv.mark_step (hp : w.Apart L .gc) {dryRun : Bool}
    {st : MarkState} {done todo : List Str} (hv : revs = done ++ todo) (hg : w.gc = gcFrom L dryRun st todo)
    (hmr : MarkInv L w.catalog done st) (hw : ∀ rev ∈ done, w.Watched L rev) :
    (w.step .gc).Inv L kvvml prior calls revs := by
  have hsn : ∀ rev, manifestKey L rev ∈ st.seen → w.Watched L rev := by
    intro rev he
    obtain ⟨rev', he', hk⟩ := (hmr.seen _).mp he
    exact (hw rev' he').congr hk
  rcases gcFrom_cases L dryRun st todo with ⟨e, hn⟩ | ⟨skipped, rev, rest', rfl, hsk, hn⟩ | ⟨ha, hd, hn⟩
  · have hsm : w.step .gc = w := by simp only [step, hg, hn, Prog.step]
    rw [hsm]
    exact h
  · -- the manifest of the next revision is retrieved
    have hs : w.step .gc = { w with
        gc := (Prog.done (markAnswer L st rev (w.catalog.get (manifestKey L rev))) : Kv MarkState) >>=
          fun st' => gcFrom L dryRun st' rest'
        read := [manifestKey L rev] ++ w.read } := by
      simp only [step, hg, hn, Prog.step, serve, retrieves, Option.toList_some]
    rw [hs]
    refine h.gc_same ?_
    cases han : markAnswer L st rev (w.catalog.get (manifestKey L rev)) with
    | error e => exact .ended rfl
    | ok st' =>
      have hv' : revs = done ++ skipped ++ [rev] ++ rest' := by simp [hv]
      refine .marks hv' rfl ((hmr.skip hsk).answer han) fun r hr => ?_
      rcases mem_append.mp hr with hr | hr
      · refine Pool.Watched.read_more ?_ _
        rcases mem_append.mp hr with hr | hr
        · exact hw r hr
        · exact hsn r (hsk r hr)
      rw [mem_singleton.mp hr]
      refine ⟨mem_append_left _ (mem_singleton_self _), fun n j hj hu => ?_⟩
      exact hp _ (by rw [hg, hn]; rfl) j (mem_of_getElem? hj) hu
  -- all manifests are marked, and the keys are enumerated
  have hs : w.step .gc = { w with
      gc := sweepFrom dryRun st.live st.liveManifests w.catalog.keys, read := [] ++ w.read } := by
    simp only [step, hg, hn, Prog.step, serve, retrieves, Option.toList_none]
  rw [hs]
  have hm : MarkInv L w.catalog revs st := by
    rw [hv]
    exact hmr.skip ha
  refine h.gc_same (.sweeps (uses_sweepFrom dryRun st.live st.liveManifests _)
    (fun key hk => (hm.live_iff hd key).mpr hk) fun rev he => Pool.Watched.read_more ?_ _)
  rw [hv] at he
  rcases mem_append.mp he with he | he
  · exact hw rev he
  · exact hsn rev (ha rev he)

section

variable (hset : Setting L kvvml prior calls revs)
include hset

lemma Pool.Inv.delete {live : List Bytes} (hv : ∀ key, LiveKey L w.catalog revs key → key ∈ live)
    (hw : ∀ rev ∈ revs, w.Watched L rev) {key : Bytes} (hke : key ∉ live)
    (hc : g.Uses (Sweeps live)) {read : List Bytes} (hrd : ∀ k ∈ w.read, k ∈ read) :
    Pool.Inv L kvvml prior calls revs { w with catalog := w.catalog.erase key, gc := g, read := read } := by
  have hd : ¬ LiveKey L w.catalog revs key := fun hl => hke (hv key hl)
  have hg : ∀ k, LiveKey L w.catalog revs k → (w.catalog.erase key).get k = w.catalog.get k := by
    intro k hk
    rw [get_erase, if_neg fun (hq : k = key) => hd (hq ▸ hk)]
  have hn : ∀ rev ∈ revs, (w.catalog.erase key).get (manifestKey L rev) = w.catalog.get (manifestKey L rev) :=
    fun rev hr => hg _ ⟨rev, hr, .inl rfl⟩
  have hl := liveKey_congr fun rev hr => manifestOf_congr (hn rev hr)
  refine ⟨h.sameCalls, h.addressed.erase key, fun n j hj => ?_, h.finished, fun rev hr p held => ?_, ?_, ?_⟩
  · rcases h.job n j hj with hs | he | ⟨hb, -⟩
    · exact .inl hs
    · exact .inr (.inl he)
    have hcl : j.call ∈ calls := h.sameCalls ▸ mem_map_of_mem (mem_of_getElem? hj)
    obtain ⟨rev, hr, hint⟩ := hset.live j.call hcl
    have hi : j.underway ≠ true :=
      fun hu => (hw rev hr).2 n j hj hu (manifestKey_congr hint)
    exact .inr (.inl (by simpa [Job.underway, hb] using hi))
  · refine (h.tracks rev hr p held).keep (hn rev hr) fun _ hh => ?_
    exact hh.congr_references (hn rev hr) fun m hm k hk => hg k ⟨rev, hr, .inr ⟨m, hm, hk⟩⟩
  · intro k hk hp
    rw [hl] at hk
    rw [Dict.mem_keys, hg k hk, ← Dict.mem_keys]
    exact h.kept k hk hp
  refine .sweeps hc (fun k hk => hv k ((hl k).mp hk)) fun rev hr => ?_
  exact ⟨hrd _ (hw rev hr).1, (hw rev hr).2⟩

lemma Pool.Inv.gc_step (ha : w.Apart L .gc) : (w.step .gc).Inv L kvvml prior calls revs := by
  cases h.gc with
  | ended hg =>
    have hm : w.step .gc = w := by
      cases hs : w.gc with
      | done r => simp only [step, hs, Prog.step]
      | call op k =>
        rw [hs] at hg
        cases hg
    rw [hm]
    exact h
  | marks hv hg hmr hw => exact h.mark_step ha hv hg hmr hw
  | sweeps hg hl hw =>
    cases hs : w.gc with
    | done r =>
      have hm : w.step .gc = w := by simp only [step, hs, Prog.step]
      rw [hm]
      exact h
    | call op k =>
      rw [hs] at hg
      obtain ⟨ho, hk⟩ := hg
      rcases ho with ⟨key, rfl⟩ | ⟨key, he, rfl⟩
      · have ht : w.step .gc = { w with gc := k (w.catalog.get key), read := [key] ++ w.read } := by
          simp only [step, hs, Prog.step, serve, retrieves, Option.toList_some]
        rw [ht]
        exact h.gc_same (.sweeps (hk _) hl fun rev hr => (hw rev hr).read_more _)
      have ht : w.step .gc = { w with catalog := w.catalog.erase key, gc := k (), read := [] ++ w.read } := by
        simp only [step, hs, Prog.step, serve, retrieves, Option.toList_none]
      rw [ht]
      exact h.delete hset hl hw he (hk ()) fun _ hk => hk

lemma Pool.Inv.step (turn : Turn) (ha : w.Apart L turn) : (w.step turn).Inv L kvvml prior calls revs := by
  cases turn with
  | gc => exact h.gc_step hset ha
  | publish i =>
    cases hj : w.jobs[i]? with
    | none =>
      have hm : w.step (.publish i) = w := by simp only [Pool.step, hj]
      rw [hm]
      exact h
    | some j =>
      cases hs : j.rest.step serve w.catalog with
      | none =>
        have hm : w.step (.publish i) = w := by simp only [Pool.step, hj, hs]
        rw [hm]
        exact h
      | some next =>
        obtain ⟨rest, c⟩ := next
        have hd : w.step (.publish i) = w.advance i j rest c := by simp only [Pool.step, hj, hs]
        rw [hd]
        exact h.advance hset ha hj hs

end

end

lemma inv_after (hset : Setting L kvvml prior calls revs)
    (ha : Addressed L (usedValues L kvvml prior calls) prior)
    (hp : Machine.Along step (Pool.Apart L) (.start L kvvml prior calls revs dryRun) turns) :
    ((start L kvvml prior calls revs dryRun).after turns).Inv L kvvml prior calls revs :=
  Machine.run_induct_along step (inv_start ha dryRun) (fun _ turn hi ht => hi.step hset turn ht) hp

lemma counts_perm {calls' : List PublishCall} (hp : calls'.Perm calls)
    (h : Counts L prior rev p held calls) : Counts L prior rev p held calls' := by
  refine h.imp (fun ⟨d, hd, hint⟩ => ⟨d, hp.mem_iff.mpr hd, hint⟩) fun ⟨hh, hm⟩ => ?_
  exact ⟨hh, fun ⟨d, hd, hint⟩ => hm ⟨d, hp.mem_iff.mp hd, hint⟩⟩

variable {later : List PublishCall}

lemma heldAfter_of_merges (held : Held)
    (hl : ∀ d ∈ later, d.Into L rev → d.merge = true ∧ ¬ TensorsSpec.Has d.tensors p) :
    heldAfter L rev p held later = held := by
  induction later with
  | nil => rfl
  | cons d later ih =>
    obtain ⟨hd, hr⟩ := forall_mem_cons.mp hl
    have hs : d.after L rev p held = held := by
      unfold PublishCall.after
      split
      · next hint => rw [TensorsSpec.onto, if_neg (hd hint).2, (hd hint).1, if_pos rfl]
      · rfl
    rw [heldAfter, foldl_cons, hs]
    exact ih hr

lemma heldAfter_append_cons (held : Held) (before : List PublishCall)
    (hint : call.Into L rev) (hh : TensorsSpec.Has call.tensors p)
    (hl : ∀ d ∈ later, d.Into L rev → d.merge = true ∧ ¬ TensorsSpec.Has d.tensors p) :
    ∃ f, heldAfter L rev p held (before ++ call :: later) = some f ∧
      ∀ n data, TensorsSpec.at call.tensors p n = some data → f n = some data := by
  have hm : ∀ held, ∃ f, call.after L rev p held = some f ∧
      ∀ n data, TensorsSpec.at call.tensors p n = some data → f n = some data := by
    intro held
    rw [PublishCall.after, if_pos hint, TensorsSpec.onto, if_pos hh]
    exact ⟨_, rfl, fun n data hd => by simp only [hd, Option.some_or]⟩
  have hs : heldAfter L rev p held (before ++ call :: later) =
      heldAfter L rev p (call.after L rev p (heldAfter L rev p held before)) later := by
    rw [heldAfter, foldl_append, foldl_cons]
    rfl
  rw [hs, heldAfter_of_merges _ hl]
  exact hm _

end

/-- Any number of publishes into live revisions and a collection, interleaved in any way in which
they stay apart, once all publishes have returned. -/
theorem interleaved_publishes_load (L : Libs) (hL : L.Lossless) (kvvml : Int) (prior : Catalog)
    (calls : List PublishCall) (revs : List Str) (dryRun : Bool) (turns : List Turn) (w : Pool)
    (hw : w = (Pool.start L kvvml prior calls revs dryRun).after turns)
    (haddressed : ∀ v u, prior.get (chunkKey L v) = some u → chunkKey L u = chunkKey L v)
    (hfree : CollisionFree L (usedValues L kvvml prior calls)
      { r | r ∈ revs ∨ ∃ call ∈ calls, r = call.modelRevision })
    (hnames : ∀ call ∈ calls, ∀ q, TensorsSpec.Has call.tensors q → ',' ∉ q)
    (hlive : ∀ call ∈ calls, ∃ rev ∈ revs, call.Into L rev)
    (hapart : Machine.Along Pool.step (Pool.Apart L) (.start L kvvml prior calls revs dryRun) turns)
    (hreturned : ∀ j ∈ w.jobs, returned j.rest = true) :
    w.finished.Perm calls ∧
      (∀ rev ∈ revs, ∀ p held, Counts L prior rev p held calls →
        LoadsHeld L w.catalog rev p (heldAfter L rev p held w.finished)) ∧
      (∀ rev ∈ revs, ∀ p held, Counts L prior rev p held calls →
        ∀ before call later, w.finished = before ++ call :: later → call.Into L rev →
          TensorsSpec.Has call.tensors p →
          (∀ d ∈ later, d.Into L rev → d.merge = true ∧ ¬ TensorsSpec.Has d.tensors p) →
          ∃ f, Loads L w.catalog rev p f ∧ ∀ n data, TensorsSpec.at call.tensors p n = some data →
            f n = some data) ∧
      ∀ key, LiveKey L w.catalog revs key → key ∈ prior.keys → key ∈ w.catalog.keys := by
  have hset : Setting L kvvml prior calls revs :=
    ⟨hL, hfree.1, fun call hcl rev hrev hint =>
      hfree.manifestKey_ne (.inl hrev) (.inr ⟨call, hcl, rfl⟩) (Ne.symm hint), hnames, hlive⟩
  have hinv : w.Inv L kvvml prior calls revs :=
    hw ▸ inv_after hset (fun v u hu => ⟨.inl ⟨v, hu⟩, haddressed v u hu⟩) hapart
  have hperm : w.finished.Perm calls := by
    have hall := hinv.finished
    rwa [filter_eq_self.mpr hreturned, hinv.sameCalls] at hall
  have hloads : ∀ rev ∈ revs, ∀ p held, Counts L prior rev p held calls →
      LoadsHeld L w.catalog rev p (heldAfter L rev p held w.finished) :=
    fun rev hrev p held hcnt => (hinv.tracks rev hrev p held (counts_perm hperm hcnt)).1.loadsHeld
  refine ⟨hperm, hloads, fun rev hrev p held hcnt before call later hfinish hint hhas hlater => ?_, hinv.kept⟩
  obtain ⟨f, hf, hdt⟩ := heldAfter_append_cons held before hint hhas hlater
  have hld := hloads rev hrev p held hcnt
  rw [hfinish, hf] at hld
  exact ⟨f, hld, hdt⟩

def mergeOther : PublishCall := { mergeFp8 with modelRevision := otherRev }

def apartLibs : Libs :=
  standIn someDigests [(manifestOr (standIn someDigests []) publishFp16 none).toTable,
    (manifestOr (standIn someDigests []) mergeOther none).toTable]

def apartPrior : Catalog := Dict.empty.insert [0] [7]

def apartTurns : List Turn :=
  [.publish 0, .publish 1, .publish 0, .publish 1, .publish 0, .publish 0, .publish 0, .gc, .publish 1, .publish 1,
    .gc, .gc, .gc, .gc]

def apartPool : Pool :=
  (Pool.start apartLibs 64 apartPrior [publishFp16, mergeOther] [modelRev, otherRev] false).after apartTurns

theorem interleaved_publishes_load_apart :
    returned apartPool.gc = true ∧ apartPool.catalog.get [0] = none ∧
      LoadsHeld apartLibs apartPool.catalog otherRev fp8
        (heldAfter apartLibs otherRev fp8 none apartPool.finished) := by
  have hpr : ∀ v u, apartPrior.get (chunkKey apartLibs v) ≠ some u := by
    intro v u
    rw [apartPrior, get_insert_ne _ _ (by simp [chunkKey, chunkTag])]
    simp
  have hcalls : ∀ call ∈ [publishFp16, mergeOther], ∀ v ∈ call.values 64, v ∈ [[1, 2], [3], [4]] := by
    decide +kernel
  have hvals : ∀ v ∈ usedValues apartLibs 64 apartPrior [publishFp16, mergeOther], v ∈ [[1, 2], [3], [4]] := by
    rintro v (⟨u, hu⟩ | ⟨call, hcl, hv⟩)
    · exact absurd hu (hpr u v)
    · exact hcalls call hcl v hv
  have hinj : ∀ v ∈ [[1, 2], [3], [4]], ∀ u ∈ [[1, 2], [3], [4]],
      apartLibs.blake2b v = apartLibs.blake2b u → v = u := by decide +kernel
  have hrvs : ∀ r, r ∈ [modelRev, otherRev] ∨ (∃ call ∈ [publishFp16, mergeOther], r = call.modelRevision) →
      utf8Encode (canonicalRevision apartLibs r) ∈ [utf8Encode modelRev, utf8Encode otherRev] := by
    have hlv : ∀ r ∈ [modelRev, otherRev],
        utf8Encode (canonicalRevision apartLibs r) ∈ [utf8Encode modelRev, utf8Encode otherRev] := by decide +kernel
    rintro r (hr | ⟨call, hcl, rfl⟩)
    · exact hlv r hr
    rcases mem_cons.mp hcl with rfl | hcl
    · exact hlv modelRev (by simp)
    rw [mem_singleton.mp hcl]
    exact hlv otherRev (by simp)
  have hnmI : ∀ v ∈ [utf8Encode modelRev, utf8Encode otherRev], ∀ u ∈ [utf8Encode modelRev, utf8Encode otherRev],
      apartLibs.blake2b v = apartLibs.blake2b u → v = u := by decide +kernel
  have hnms : ∀ call ∈ [publishFp16, mergeOther], ∀ t ∈ TensorsSpec.all call.tensors, ',' ∉ t.1.2 := by
    decide +kernel
  refine ⟨by decide +kernel, by decide +kernel, (interleaved_publishes_load apartLibs (standIn_lossless _ _) 64 apartPrior
    [publishFp16, mergeOther] [modelRev, otherRev] false apartTurns apartPool rfl (fun v u hu => absurd hu (hpr v u))
    ⟨fun v hv u hu => hinj v (hvals v hv) u (hvals u hu), ?_⟩ ?_ ?_ (by decide +kernel) (by decide +kernel)).2.1
      otherRev (by simp) fp8 none ?_⟩
  · rintro _ ⟨r, hr, rfl⟩ _ ⟨r', hr', rfl⟩
    exact hnmI _ (hrvs r hr) _ (hrvs r' hr')
  · rintro call hcl _ ⟨t, ht, rfl⟩
    exact hnms call hcl t ht
  · simp only [forall_mem_cons]
    exact ⟨⟨modelRev, by simp, rfl⟩, ⟨otherRev, by simp, rfl⟩, forall_mem_nil _⟩
  have hn : manifestOf apartLibs apartPrior otherRev = none := by decide +kernel
  refine .inr ⟨?_, fun _ m hm => ?_⟩
  · unfold Holding
    rw [hn]
  rw [hn] at hm
  cases hm

/-- All calls have returned, and a precision whose publish merged it does not load. -/
def Loses (L : Libs) (prior : Catalog) (calls : List PublishCall) (turns : List Turn) (p : Str) : Prop :=
  let w := (Pool.start L 64 prior calls [modelRev] false).after turns
  (∀ j ∈ w.jobs, returned j.rest = true) ∧ returned w.gc = true ∧
    (∀ call ∈ calls, call.Into L modelRev) ∧ (∃ call ∈ calls, call.merge = true ∧ TensorsSpec.Has call.tensors p) ∧
    raises ((load L modelRev p).run serve w.catalog).1

instance (L : Libs) (prior : Catalog) (calls : List PublishCall) (turns : List Turn) (p : Str) :
    Decidable (Loses L prior calls turns p) :=
  inferInstanceAs (Decidable (_ ∧ _ ∧ _ ∧ _ ∧ _))

def mergeFp4 : PublishCall := { modelRevision := modelRev, tensors := oneTensor ['v'] ['f', 'p', '4'] [3], merge := true }

def racingLibs : Libs :=
  standIn someDigests [(manifestOr (standIn someDigests []) mergeFp8 none).toTable,
    (manifestOr (standIn someDigests []) mergeFp4 none).toTable, (manifestOr (standIn someDigests []) publishFp16 none).toTable]

def racingTurns : List Turn :=
  [.publish 0, .publish 1, .publish 0, .publish 0, .publish 0, .publish 1, .publish 1, .publish 1, .gc, .gc, .gc, .gc]

def replacingTurns : List Turn :=
  [.publish 0, .publish 0, .publish 0, .publish 0, .publish 1, .publish 1, .publish 1, .publish 1, .publish 1,
    .gc, .gc, .gc, .gc]

def sweepingTurns : List Turn := [.publish 0, .publish 0, .publish 0, .gc, .gc, .gc, .gc, .publish 0]

def lateTurns : List Turn := [.gc, .gc, .publish 0, .publish 0, .gc, .gc, .publish 0]

def orphanPrior : Catalog := fp16Catalog.insert (chunkKey twoLibs [4]) [4]

/-- Two merges that have both retrieved the manifest before either stores it lose the first one; a
publish that does not merge replaces a completed merge; and a collection sweeps the chunk of a
publish that is underway when it retrieves the manifest, or that begins after that and finds the
chunk there. -/
theorem interleaved_merge_lost :
    Loses racingLibs .empty [mergeFp8, mergeFp4] racingTurns fp8 ∧
      Loses racingLibs .empty [mergeFp8, publishFp16] replacingTurns fp8 ∧
      Loses twoLibs fp16Catalog [mergeFp8] sweepingTurns fp8 ∧
        Loses twoLibs orphanPrior [mergeFp8] lateTurns fp8 :=
  ⟨by decide +kernel, by decide +kernel, by decide +kernel, by decide +kernel⟩

end Weights

end RadosNkv
