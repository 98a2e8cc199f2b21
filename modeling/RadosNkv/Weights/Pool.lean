import RadosNkv.Library.Machine
import RadosNkv.Weights.Gc
import RadosNkv.Weights.RoundTrip

/-! Publishes and a garbage collection on one catalog, interleaved at the granularity of single
`KvClient` operations. -/

namespace RadosNkv

namespace Weights

open List Prog PublishCall

structure Job where
  call : PublishCall
  begun : Bool
  rest : Kv PublishStats

def returned {α : Type} : Kv α → Bool
  | .done (.ok _) => true
  | _ => false

def ended {α : Type} : Kv α → Bool
  | .done _ => true
  | .call _ _ => false

def retrieves {α : Type} : Kv α → Option Bytes
  | .call (.retrieve key) _ => some key
  | _ => none

def Job.underway (j : Job) : Bool := j.begun && !ended j.rest

structure Pool where
  catalog : Catalog
  jobs : List Job
  gc : Kv GcStats
  /-- The keys that the garbage collection has retrieved. -/
  read : List Bytes := []
  /-- The calls that have returned, in that order. -/
  finished : List PublishCall := []

def Pool.start (L : Libs) (kvvml : Int) (prior : Catalog) (calls : List PublishCall) (revs : List Str) (dryRun : Bool) :
    Pool where
  catalog := prior
  jobs := calls.map fun call => ⟨call, false, publish L kvvml call⟩
  gc := Weights.gc L revs dryRun

inductive Turn where
  | publish (i : Nat)
  | gc

def Pool.advance (w : Pool) (i : Nat) (j : Job) (rest : Kv PublishStats) (c : Catalog) : Pool :=
  { w with
    catalog := c
    jobs := w.jobs.set i { j with begun := true, rest := rest }
    finished := if returned rest then w.finished ++ [j.call] else w.finished }

/-- One operation; nothing if there is none left. -/
def Pool.step (w : Pool) : Turn → Pool
  | .publish i =>
    match w.jobs[i]? with
    | none => w
    | some j =>
      match j.rest.step serve w.catalog with
      | none => w
      | some (rest, c) => w.advance i j rest c
  | .gc =>
    match w.gc.step serve w.catalog with
    | none => w
    | some (rest, c) =>
      { w with catalog := c, gc := rest, read := (retrieves w.gc).toList ++ w.read }

def Pool.after (w : Pool) (turns : List Turn) : Pool := Machine.run Pool.step w turns

def Job.key (L : Libs) (j : Job) : Bytes := manifestKey L j.call.modelRevision

def Job.storesManifest (L : Libs) (j : Job) : Bool :=
  match j.rest with
  | .call (.store key _) _ => key = j.key L
  | _ => false

/-- What nothing in the code ensures. -/
def Pool.Apart (L : Libs) (w : Pool) : Turn → Prop
  | .publish i => ∀ j ∈ w.jobs[i]?,
      (j.begun = false → ended w.gc = true ∨ j.key L ∉ w.read) ∧
        (j.storesManifest L = true →
          ∀ j' ∈ w.jobs.eraseIdx i, j'.underway = true → j'.call.merge = true → j'.key L ≠ j.key L)
  | .gc => ∀ key ∈ retrieves w.gc, ∀ j ∈ w.jobs, j.underway = true → j.key L ≠ key

instance (L : Libs) (w : Pool) : ∀ turn, Decidable (w.Apart L turn)
  | .publish _ => inferInstanceAs (Decidable (∀ _ ∈ _, _))
  | .gc => inferInstanceAs (Decidable (∀ _ ∈ _, _))

section

variable {L : Libs} {kvvml : Int} {call : PublishCall} {c c' : Catalog} {rest : Kv PublishStats}

/-- The chunks stay, and so does every manifest but those at the keys that are off. -/
structure Keeps (L : Libs) (c c' : Catalog) (off : Bytes → Prop) : Prop where
  manifest : ∀ rev, ¬off (manifestKey L rev) → c'.get (manifestKey L rev) = c.get (manifestKey L rev)
  value : KeepsChunks L c.get c'.get

lemma Keeps.refl (L : Libs) (c : Catalog) (off : Bytes → Prop) : Keeps L c c off :=
  ⟨fun _ _ => rfl, fun _ _ hv _ => hv⟩

variable {v : Bytes}

lemma keeps_insert (hf : Set.InjOn L.blake2b U) (ha : Addressed L U c) (hv : v ∈ U) :
    Keeps L c (c.insert (chunkKey L v) v) off where
  manifest rev _ := Dict.get_insert_ne _ _ (manifestKey_ne_chunkKey rev v)
  value key w hw hk := by
    rw [Dict.get_insert]
    split
    · next he =>
      subst he
      rw [ha.eq hf hv hw]
    · exact hw

lemma Addressed.insert (ha : Addressed L U c) (hv : v ∈ U) : Addressed L U (c.insert (chunkKey L v) v) := by
  intro u w hw
  rw [Dict.get_insert] at hw
  split at hw
  · next he =>
    cases hw
    exact ⟨hv, he.symm⟩
  · exact ha u w hw

structure PutSoFar (L : Libs) (kvvml : Int) (c : Catalog) (call : PublishCall) (base : Option WeightManifest)
    (us vs : List Bytes) : Prop where
  cap : 0 < call.cap kvvml
  values : call.values kvvml = us ++ vs
  there : ∀ u ∈ us, c.get (chunkKey L u) = some u
  base : call.base L c = .ok base

lemma PublishCall.base_congr (hb : call.merge = true → SameManifest L c c' call.modelRevision) :
    call.base L c' = call.base L c := by
  unfold base
  split
  · next hm => rw [hb hm]
  · rfl

variable {base : Option WeightManifest} {us vs : List Bytes}

lemma PutSoFar.grows (h : PutSoFar L kvvml c call base us vs)
    (hb : call.merge = true → SameManifest L c c' call.modelRevision) (hg : KeepsChunks L c.get c'.get) :
    PutSoFar L kvvml c' call base us vs :=
  ⟨h.cap, h.values, fun u hu => hg _ u (h.there u hu) rfl, (base_congr hb).trans h.base⟩

lemma PutSoFar.put (h : PutSoFar L kvvml c call base us (v :: vs)) (hv : c.get (chunkKey L v) = some v) :
    PutSoFar L kvvml c call base (us ++ [v]) vs := by
  refine ⟨h.cap, by rw [h.values, append_assoc, singleton_append], fun u hu => ?_, h.base⟩
  rcases mem_append.mp hu with hu | hu
  · exact h.there u hu
  · rw [mem_singleton.mp hu, hv]

/-- What is left of a call that has its base: the rest of its Values to put, the first one of them
perhaps found absent, and the manifest to store. -/
inductive Underway (L : Libs) (kvvml : Int) (c : Catalog) (call : PublishCall) : Kv PublishStats → Prop where
  | puts {base : Option WeightManifest} {us vs : List Bytes} {rest : Kv PublishStats}
    (h : PutSoFar L kvvml c call base us vs) (hrest : Puts L vs (call.Finishes L kvvml base) rest) :
    Underway L kvvml c call rest
  | stores {base : Option WeightManifest} {us vs : List Bytes} {v : Bytes} {rest : Kv PublishStats}
    (h : PutSoFar L kvvml c call base us (v :: vs)) (hrest : Puts L vs (call.Finishes L kvvml base) rest) :
    Underway L kvvml c call (.call (.store (chunkKey L v) v) fun _ => rest)

lemma Underway.grows (h : Underway L kvvml c call rest) (hb : call.merge = true → SameManifest L c c' call.modelRevision)
    (hg : KeepsChunks L c.get c'.get) :
    Underway L kvvml c' call rest := by
  cases h with
  | puts h hr => exact .puts (h.grows hb hg) hr
  | stores h hr => exact .stores (h.grows hb hg) hr

lemma Underway.not_returned (h : Underway L kvvml c call rest) : returned rest = false := by
  cases h with
  | stores h hr => rfl
  | @puts base us vs _ h hr =>
    cases vs with
    | cons v vs =>
      obtain ⟨k, -, rfl⟩ := hr
      rfl
    | nil =>
      simp only [Puts, PublishCall.Finishes] at hr
      cases hd : call.manifestBytes L kvvml base with
      | error e =>
        rw [hd] at hr
        rw [hr]
        rfl
      | ok data =>
        rw [hd] at hr
        obtain ⟨stats, rfl⟩ := hr
        rfl

/-- What an operation of a call does to the catalog and what it leaves of the call. -/
inductive Operates (L : Libs) (kvvml : Int) (c : Catalog) (call : PublishCall) (before : Kv PublishStats) :
    Kv PublishStats → Catalog → Prop where
  | raise (e : Exn) : Operates L kvvml c call before (.done (.error e)) c
  | look {rest : Kv PublishStats} (h : Underway L kvvml c call rest) : Operates L kvvml c call before rest c
  | put {rest : Kv PublishStats} {v : Bytes} (hv : v ∈ call.values kvvml)
    (h : Underway L kvvml (c.insert (chunkKey L v) v) call rest) :
    Operates L kvvml c call before rest (c.insert (chunkKey L v) v)
  | store {base : Option WeightManifest} {data : Bytes} {stats : PublishStats} {k : Unit → Kv PublishStats}
    (h : PutSoFar L kvvml c call base (call.values kvvml) [])
    (hdata : call.manifestBytes L kvvml base = .ok data)
    (hbefore : before = .call (.store (manifestKey L call.modelRevision) data) k) :
    Operates L kvvml c call before (.done (.ok stats)) (c.insert (manifestKey L call.modelRevision) data)

lemma Underway.step (h : Underway L kvvml c call rest) (hfr : Set.InjOn L.blake2b U)
    (ha : Addressed L U c) (hU : ∀ v ∈ call.values kvvml, v ∈ U)
    (hs : rest.step serve c = some (rest', c')) :
    Operates L kvvml c call rest rest' c' := by
  cases h with
  | @stores base us vs v rest h hr =>
    have hv : v ∈ call.values kvvml := by simp [h.values]
    cases hs
    have hg : Keeps L c _ fun _ => False := keeps_insert hfr ha (hU v hv)
    have h' := h.grows (fun _ => hg.manifest _ not_false) hg.value
    exact .put hv (.puts (h'.put (Dict.get_insert_self _ _ _)) hr)
  | @puts base us vs _ h hr =>
    cases vs with
    | nil =>
      simp only [Puts, PublishCall.Finishes] at hr
      cases hd : call.manifestBytes L kvvml base with
      | error e =>
        rw [hd] at hr
        rw [hr] at hs
        cases hs
      | ok data =>
        rw [hd] at hr
        obtain ⟨stats, rfl⟩ := hr
        cases hs
        have hl : us = call.values kvvml := by rw [h.values, append_nil]
        exact .store (hl ▸ h) hd rfl
    | cons v vs =>
      obtain ⟨k, hk, rfl⟩ := hr
      have hv : v ∈ call.values kvvml := by simp [h.values]
      cases hf : c.contains (chunkKey L v) with
      | true =>
        obtain ⟨w, hw⟩ := Option.isSome_iff_exists.mp hf
        simp only [Prog.step, serve, hf, if_true] at hs
        cases hs
        refine .look (.puts (h.put ?_) (hk true))
        rw [hw, ha.eq hfr (hU v hv) hw]
      | false =>
        simp only [Prog.step, serve, hf, Bool.false_eq_true, if_false] at hs
        cases hs
        exact .look (.stores h (hk false))

lemma publish_of_merge (hc : 0 < call.cap kvvml) (hm : call.merge = true) :
    ∃ k, publish L kvvml call = .call (.retrieve (manifestKey L call.modelRevision)) k ∧
      ∀ c : Catalog, k (c.get (manifestKey L call.modelRevision)) =
        match call.base L c with
        | .error e => .done (.error e)
        | .ok base => call.publishOnto L kvvml base := by
  refine ⟨fun found => (do
      match found with
      | none => pure none
      | some existing => some <$> (WeightManifest.fromIpc L existing : Except Exn WeightManifest)) >>=
        call.publishOnto L kvvml, ?_, fun c => ?_⟩
  · rw [publish_of_cap_pos hc, readBase, if_pos hm, Kv.retrieve, perform_bind, call_bind]
    congr 1
    funext found
    cases found <;> rfl
  rw [base, if_pos hm]
  cases c.get (manifestKey L call.modelRevision) with
  | none => rfl
  | some existing =>
    simp only
    cases WeightManifest.fromIpc L existing <;> rfl

lemma publish_of_replace (hc : 0 < call.cap kvvml) (hm : call.merge = false) :
    publish L kvvml call = call.publishOnto L kvvml none := by
  rw [publish_of_cap_pos hc, readBase, if_neg (by simp [hm])]
  rfl

lemma returned_publish (L : Libs) (kvvml : Int) (call : PublishCall) : returned (publish L kvvml call) = false := by
  by_cases hc : call.cap kvvml ≤ 0
  · rw [publish, if_pos hc]
    rfl
  have hc := Int.not_le.mp hc
  cases hm : call.merge with
  | false =>
    have hb : call.base L .empty = .ok none := by simp [base, hm]
    rw [publish_of_replace hc hm]
    exact (Underway.puts ⟨hc, rfl, fun u hu => absurd hu not_mem_nil, hb⟩
      (puts_publishOnto L kvvml call none)).not_returned
  | true =>
    obtain ⟨k, hp, -⟩ := publish_of_merge (L := L) hc hm
    rw [hp]
    rfl

lemma publish_step (hf : Set.InjOn L.blake2b U) (ha : Addressed L U c)
    (hU : ∀ v ∈ call.values kvvml, v ∈ U) (hs : (publish L kvvml call).step serve c = some (rest, c')) :
    Operates L kvvml c call (publish L kvvml call) rest c' := by
  by_cases hc : call.cap kvvml ≤ 0
  · rw [publish, if_pos hc] at hs
    cases hs
  have hp := fun base => puts_publishOnto L kvvml call base
  have hc := Int.not_le.mp hc
  cases hm : call.merge with
  | false =>
    have hb : call.base L c = .ok none := by simp [base, hm]
    rw [publish_of_replace hc hm] at hs ⊢
    exact (Underway.puts ⟨hc, rfl, fun u hu => absurd hu not_mem_nil, hb⟩ (hp none)).step hf ha hU hs
  | true =>
    obtain ⟨k, hpb, hk⟩ := publish_of_merge (L := L) hc hm
    rw [hpb] at hs
    simp only [Prog.step, serve, hk, Option.some.injEq, Prod.mk.injEq] at hs
    obtain ⟨hr, rfl⟩ := hs
    cases hb : call.base L c with
    | error e =>
      rw [hb] at hr
      rw [← hr]
      exact .raise e
    | ok base =>
      rw [hb] at hr
      rw [← hr]
      exact .look (.puts ⟨hc, rfl, fun u hu => absurd hu not_mem_nil, hb⟩ (hp base))

end

section

variable {L : Libs} {dryRun : Bool} {st : MarkState} {rest : List Str}

def sweepFrom (dryRun : Bool) (live : List Bytes) (liveManifests : Nat) (keys : List Bytes) : Kv GcStats :=
  keys.foldlM (sweepKey live dryRun)
    { liveChunks := (live.length : Int) - liveManifests, liveManifests := liveManifests, dryRun := dryRun }

def gcFrom (L : Libs) (dryRun : Bool) (st : MarkState) (rest : List Str) : Kv GcStats := do
  let st ← rest.foldlM (markRevision L) st
  let (live, liveManifests) ← (marked st : Except Exn (List Bytes × Nat))
  let keys ← Kv.iterKeys
  sweepFrom dryRun live liveManifests keys

lemma gc_eq_gcFrom (L : Libs) (revs : List Str) (dryRun : Bool) : Weights.gc L revs dryRun = gcFrom L dryRun {} revs := by
  simp only [Weights.gc, mark, gcFrom, sweepFrom, bind_assoc]

lemma gcFrom_cons (rev : Str) :
    gcFrom L dryRun st (rev :: rest) = markRevision L st rev >>= fun st => gcFrom L dryRun st rest := by
  simp only [gcFrom, foldlM_cons, bind_assoc]

lemma gcFrom_cases (L : Libs) (dryRun : Bool) (st : MarkState) (rest : List Str) :
    (∃ e, gcFrom L dryRun st rest = .done (.error e)) ∨
      (∃ skipped rev rest', rest = skipped ++ rev :: rest' ∧ (∀ r ∈ skipped, manifestKey L r ∈ st.seen) ∧
        gcFrom L dryRun st rest = .call (.retrieve (manifestKey L rev)) fun raw =>
          (Prog.done (markAnswer L st rev raw) : Kv MarkState) >>= fun st' => gcFrom L dryRun st' rest') ∨
      ((∀ r ∈ rest, manifestKey L r ∈ st.seen) ∧ st.unreadable = [] ∧
        gcFrom L dryRun st rest = .call .iterKeys fun keys => sweepFrom dryRun st.live st.liveManifests keys) := by
  induction rest with
  | nil =>
    by_cases hd : st.unreadable = []
    · right; right
      refine ⟨fun r hr => absurd hr not_mem_nil, hd, ?_⟩
      simp only [gcFrom, foldlM_nil, pure_bind, marked, hd, ne_eq, not_true_eq_false, if_false]
      rfl
    left
    refine ⟨.gcUnsafe st.unreadable, ?_⟩
    simp only [gcFrom, foldlM_nil, pure_bind, marked, hd, ne_eq, not_false_eq_true, if_true]
    rfl
  | cons rev rest ih =>
    rw [gcFrom_cons]
    by_cases hs : manifestKey L rev ∈ st.seen
    · rw [markRevision, if_pos hs, pure_bind]
      rcases ih with hrs | ⟨skipped, r, rest', rfl, hk, hn⟩ | ⟨ha, hd, hn⟩
      · exact .inl hrs
      · exact .inr (.inl ⟨rev :: skipped, r, rest', rfl, forall_mem_cons.mpr ⟨hs, hk⟩, hn⟩)
      · exact .inr (.inr ⟨forall_mem_cons.mpr ⟨hs, ha⟩, hd, hn⟩)
    refine .inr (.inl ⟨[], rev, rest, rfl, fun r hr => absurd hr not_mem_nil, ?_⟩)
    rw [markRevision, if_neg hs]
    rfl

def Sweeps (live : List Bytes) (op : KvOp) : Prop :=
  (∃ key, op = .retrieve key) ∨ ∃ key, key ∉ live ∧ op = .delete key

lemma uses_sweepFrom (dryRun : Bool) (live : List Bytes) (n : Nat) (keys : List Bytes) :
    (sweepFrom dryRun live n keys).Uses (Sweeps live) := by
  refine Uses.foldlM fun stats key _ => ?_
  unfold sweepKey
  split
  · trivial
  next hl =>
  refine ⟨.inl ⟨key, rfl⟩, fun value => ?_⟩
  cases dryRun with
  | true => trivial
  | false => exact ⟨.inr ⟨key, hl, rfl⟩, fun _ => trivial⟩

end

end Weights

end RadosNkv
