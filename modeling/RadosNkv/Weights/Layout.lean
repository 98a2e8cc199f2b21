import RadosNkv.Weights.Publisher

/-! How the publisher lays tensors out in Values. -/

namespace RadosNkv

namespace Weights

open List

lemma iterChunks_nil (max : Nat) : iterChunks [] max = [] := by
  rcases Nat.eq_zero_or_pos max with rfl | hm
  · rfl
  have hc : ([] : Bytes).length + max - 1 < max := by
    rw [length_nil]
    omega
  simp only [iterChunks, Nat.div_eq_of_lt hc]
  rfl

structure Piece where
  owner : Str × Str
  bytes : Bytes

def valueOf (group : List Piece) : Bytes := group.flatMap Piece.bytes

structure Layout where
  closed : List (List Piece) := []
  pending : List Piece := []

namespace Layout

def pendingGroup (l : Layout) : List (List Piece) := if l.pending = [] then [] else [l.pending]

def close (l : Layout) : Layout := ⟨l.closed ++ l.pendingGroup, []⟩

def add (max : Nat) (pack : Bool) (l : Layout) (c : Piece) : Layout :=
  if !pack || c.bytes.length = max then ⟨l.closed ++ l.pendingGroup ++ [[c]], []⟩
  else if (valueOf l.pending).length + c.bytes.length > max then ⟨l.closed ++ l.pendingGroup, [c]⟩
  else ⟨l.closed, l.pending ++ [c]⟩

lemma closed_add (l : Layout) (max : Nat) (pack : Bool) (c : Piece) :
    ∃ groups, (l.add max pack c).closed = l.closed ++ groups := by
  unfold add
  split
  · exact ⟨_, append_assoc ..⟩
  split
  · exact ⟨_, rfl⟩
  · exact ⟨[], (append_nil _).symm⟩

lemma closed_foldl (l : Layout) (max : Nat) (pack : Bool) (cs : List Piece) :
    ∃ groups, (cs.foldl (add max pack) l).closed = l.closed ++ groups := by
  induction cs generalizing l with
  | nil => exact ⟨[], (append_nil _).symm⟩
  | cons c cs ih =>
    obtain ⟨first, hf⟩ := l.closed_add max pack c
    obtain ⟨later, hl⟩ := ih (l.add max pack c)
    exact ⟨first ++ later, by rw [foldl_cons, hl, hf, append_assoc]⟩

end Layout

def piecesOf (max : Nat) (tensors : List ((Str × Str) × TensorSpec)) : List Piece :=
  tensors.flatMap fun t => (iterChunks t.2.data max).map (Piece.mk t.1)

def groupsOf (max : Nat) (pack : Bool) (tensors : TensorsSpec) : List (List Piece) :=
  ((piecesOf max (TensorsSpec.all tensors)).foldl (Layout.add max pack) {}).close.closed

def ofOwner (o : Str × Str) (xs : List ((Str × Str) × SliceRec)) : List SliceRec :=
  (xs.filter fun x => x.1 = o).map Prod.snd

def place (key : Bytes) : Nat → List Piece → List ((Str × Str) × SliceRec)
  | _, [] => []
  | off, c :: cs => (c.owner, ⟨some key, some off, c.bytes.length⟩) :: place key (off + c.bytes.length) cs

def unplaced (cs : List Piece) : List ((Str × Str) × SliceRec) :=
  cs.map fun c => (c.owner, ⟨none, none, c.bytes.length⟩)

def placed (L : Libs) (groups : List (List Piece)) : List ((Str × Str) × SliceRec) :=
  groups.flatMap fun g => place (chunkKey L (valueOf g)) 0 g

def memberList : List ((Str × Str) × SliceRec) → Nat → List Piece → List (Slice × Nat × Nat)
  | _, _, [] => []
  | before, off, c :: cs =>
    (⟨c.owner.1, c.owner.2, (ofOwner c.owner before).length⟩, off, c.bytes.length) ::
      memberList (before ++ unplaced [c]) (off + c.bytes.length) cs

section

variable {o : Str × Str} {c : Piece} {cs : List Piece}

@[simp] lemma ofOwner_nil : ofOwner o [] = [] := rfl

@[simp] lemma ofOwner_append : ofOwner o (xs ++ ys) = ofOwner o xs ++ ofOwner o ys := by
  simp [ofOwner]

lemma ofOwner_cons_self (r : SliceRec) : ofOwner o ((o, r) :: xs) = r :: ofOwner o xs := by
  simp [ofOwner]

lemma ofOwner_cons_ne (r : SliceRec) (h : o' ≠ o) : ofOwner o ((o', r) :: xs) = ofOwner o xs := by
  simp [ofOwner, h]

@[simp] lemma unplaced_nil : unplaced [] = [] := rfl

@[simp] lemma unplaced_cons : unplaced (c :: cs) = (c.owner, ⟨none, none, c.bytes.length⟩) :: unplaced cs := rfl

@[simp] lemma unplaced_append : unplaced (cs ++ ds) = unplaced cs ++ unplaced ds := by
  simp [unplaced]

lemma length_ofOwner_place (key : Bytes) (off : Nat) (cs : List Piece) :
    (ofOwner o (place key off cs)).length = (ofOwner o (unplaced cs)).length := by
  induction cs generalizing off with
  | nil => rfl
  | cons c cs ih =>
    by_cases hc : c.owner = o
    · subst hc
      simp only [place, unplaced_cons, ofOwner_cons_self, length_cons, ih]
    · simp only [place, unplaced_cons, ofOwner_cons_ne _ hc, ih]

lemma memberList_append_one (before : List ((Str × Str) × SliceRec)) (off : Nat) (cs : List Piece) (c : Piece) :
    memberList before off (cs ++ [c]) = memberList before off cs ++
        [(⟨c.owner.1, c.owner.2, (ofOwner c.owner (before ++ unplaced cs)).length⟩, off + (valueOf cs).length,
          c.bytes.length)] := by
  induction cs generalizing before off with
  | nil => simp [memberList, valueOf]
  | cons d cs ih =>
    simp only [cons_append, memberList, ih]
    simp [valueOf, add_assoc]

end

def Puts (L : Libs) {α : Type} : List Bytes → (Kv α → Prop) → Kv α → Prop
  | [], Q, p => Q p
  | v :: vs, Q, p =>
    ∃ k : Bool → Kv α, (∀ found, Puts L vs Q (k found)) ∧
      p = .call (.exists_ (chunkKey L v)) fun found =>
        if found then k true else .call (.store (chunkKey L v) v) fun _ => k false

def PutsOk (L : Libs) {α : Type} (vs : List Bytes) (P : α → Prop) (p : Kv α) : Prop :=
  Puts L vs (fun p => ∃ a, p = .done (.ok a) ∧ P a) p

section

variable {L : Libs} {α β : Type} {p : Kv α}

lemma Puts.bind (hp : PutsOk L vs P p) (hf : ∀ a, P a → Puts L ws Q (f a)) :
    Puts L (vs ++ ws) Q (p >>= f) := by
  induction vs generalizing p with
  | nil =>
    obtain ⟨a, rfl, ha⟩ := hp
    exact hf a ha
  | cons v vs ih =>
    obtain ⟨k, hk, rfl⟩ := hp
    refine ⟨fun found => k found >>= f, fun found => ih (hk found), ?_⟩
    rw [Prog.call_bind]
    congr 1
    funext found
    cases found <;> rfl

lemma PutsOk.pure (h : P a) : PutsOk L [] P (pure a) := ⟨a, rfl, h⟩

lemma putsOk_storeValue (b : Builder) (v : Bytes) :
    PutsOk L [v] (fun b' => ∃ stats, b' = { b with stats := stats }) (b.storeValue (chunkKey L v) v) := by
  refine ⟨fun found =>
    if found then Pure.pure { b with
      stats.valuesTotal := b.stats.valuesTotal + 1, stats.valuesDeduped := b.stats.valuesDeduped + 1 }
    else Pure.pure { b with
      stats.valuesTotal := b.stats.valuesTotal + 1, stats.valuesStored := b.stats.valuesStored + 1 },
    fun found => ?_, ?_⟩
  · cases found <;> exact ⟨_, rfl, _, rfl⟩
  simp only [Builder.storeValue, Kv.exists_, Kv.store, Prog.perform_bind]
  rfl

end

/-! ### The builder -/

structure Represents (L : Libs) (max : Nat) (pack : Bool) (b : Builder) (l : Layout)
    (rest : List ((Str × Str) × SliceRec)) : Prop where
  recs : ∀ o, b.recs o = ofOwner o (placed L l.closed ++ unplaced l.pending ++ rest)
  buf : b.pending.buf = valueOf l.pending
  members : b.pending.members = memberList (placed L l.closed) 0 l.pending
  max : b.max = max
  pack : b.pack = pack

lemma recs_insert (b : Builder) (o o' : Str × Str) (rs : List SliceRec) :
    ({ b with records := b.records.insert o rs } : Builder).recs o' = if o' = o then rs else b.recs o' := by
  simp only [Builder.recs, Dict.get_insert]
  split <;> rfl

lemma fill_first {b : Builder} (key : Bytes) (off : Nat)
    (h : ∀ o, b.recs o = ofOwner o (done ++ unplaced [c] ++ rest)) :
    ∃ records, b.fill ⟨c.owner.1, c.owner.2, (ofOwner c.owner done).length⟩ key off c.bytes.length =
        .ok { b with records := records } ∧
      ∀ o, ({ b with records := records } : Builder).recs o =
        ofOwner o (done ++ (c.owner, ⟨some key, some off, c.bytes.length⟩) :: rest) := by
  have hr : b.recs c.owner =
      ofOwner c.owner done ++ ⟨none, none, c.bytes.length⟩ :: ofOwner c.owner rest := by
    rw [h]
    simp [ofOwner_cons_self]
  have he : b.records.get (c.owner.1, c.owner.2) = some (b.recs c.owner) := by
    cases hg : b.records.get (c.owner.1, c.owner.2) with
    | none =>
      simp only [Builder.recs, hg, Option.getD_none] at hr
      exact absurd hr.symm (by simp)
    | some rs => simp [Builder.recs, hg]
  have hn : (b.recs c.owner)[(ofOwner c.owner done).length]? = some ⟨none, none, c.bytes.length⟩ := by
    rw [hr]
    simp
  refine ⟨b.records.insert c.owner
    ((b.recs c.owner).set (ofOwner c.owner done).length ⟨some key, some off, c.bytes.length⟩), ?_, fun o => ?_⟩
  · simp only [Builder.fill, he, hn, if_true]
  rw [recs_insert]
  split
  · next ho =>
    subst ho
    rw [hr, set_append_right _ _ (Nat.le_refl _), Nat.sub_self, set_cons_zero, ofOwner_append, ofOwner_cons_self]
  next ho =>
  rw [h, ofOwner_append, ofOwner_append, ofOwner_append, ofOwner_cons_ne _ (Ne.symm ho), unplaced_cons,
    ofOwner_cons_ne _ (Ne.symm ho)]
  simp

lemma fill_all {b : Builder} (key : Bytes) (off : Nat)
    (hl : ∀ o, (ofOwner o before).length = (ofOwner o done).length)
    (h : ∀ o, b.recs o = ofOwner o (done ++ unplaced cs ++ rest)) :
    ∃ records, (memberList before off cs).foldlM (fun b m => Builder.fill b m.1 key m.2.1 m.2.2) b =
        .ok { b with records := records } ∧
      ∀ o, ({ b with records := records } : Builder).recs o = ofOwner o (done ++ place key off cs ++ rest) := by
  induction cs generalizing b before done off with
  | nil => exact ⟨b.records, rfl, h⟩
  | cons c cs ih =>
    have hf : ∀ o, b.recs o = ofOwner o (done ++ unplaced [c] ++ (unplaced cs ++ rest)) := by
      intro o
      rw [h o]
      simp
    obtain ⟨records, hfl, hr⟩ := fill_first key off hf
    have hl' : ∀ o, (ofOwner o (before ++ unplaced [c])).length =
        (ofOwner o (done ++ [(c.owner, ⟨some key, some off, c.bytes.length⟩)])).length := by
      intro o
      have ho := length_ofOwner_place (o := o) key off [c]
      simp only [place] at ho
      rw [ofOwner_append, ofOwner_append, length_append, length_append, hl o, ho]
    have hs : ∀ o, ({ b with records := records } : Builder).recs o =
        ofOwner o (done ++ [(c.owner, ⟨some key, some off, c.bytes.length⟩)] ++ unplaced cs ++ rest) := by
      intro o
      rw [hr o]
      simp
    obtain ⟨records', hd, hr'⟩ := ih (off + c.bytes.length) hl' hs
    refine ⟨records', ?_, fun o => ?_⟩
    · rw [memberList, foldlM_cons, hl c.owner]
      exact bind_eq_ok.mpr ⟨_, hfl, hd⟩
    rw [hr' o]
    simp [place]

section

variable {L : Libs} {max : Nat} {pack : Bool} {b : Builder} {l : Layout} {rest : List ((Str × Str) × SliceRec)}

lemma Represents.withStats (h : Represents L max pack b l rest) (stats : PublishStats) :
    Represents L max pack { b with stats := stats } l rest := ⟨h.recs, h.buf, h.members, h.max, h.pack⟩

lemma placed_append (L : Libs) (gs hs : List (List Piece)) : placed L (gs ++ hs) = placed L gs ++ placed L hs := by
  simp [placed]

lemma Represents.flushPending (h : Represents L max pack b l rest) :
    PutsOk L (l.pendingGroup.map valueOf) (fun b' => Represents L max pack b' l.close rest) (b.flushPending L) := by
  unfold Builder.flushPending Layout.pendingGroup
  cases hp : l.pending with
  | nil =>
    have hm : b.pending.members = [] := by rw [h.members, hp]; rfl
    rw [if_pos hm, if_pos rfl]
    have hc : l.close = l := by
      obtain ⟨closed, pending⟩ := l
      cases hp
      simp [Layout.close, Layout.pendingGroup]
    rw [hc]
    exact PutsOk.pure h
  | cons c cs =>
    have hm : b.pending.members ≠ [] := by rw [h.members, hp]; simp [memberList]
    rw [if_neg hm, if_neg (cons_ne_nil c cs), ← hp, h.buf]
    show PutsOk L ([valueOf l.pending] ++ []) _ _
    refine Puts.bind (putsOk_storeValue b (valueOf l.pending)) ?_
    rintro _ ⟨stats, rfl⟩
    obtain ⟨records, hf, hr⟩ := fill_all (b := { b with stats := stats }) (chunkKey L (valueOf l.pending)) 0
      (fun _ => rfl) h.recs
    have hf' : ({ b with stats := stats } : Builder).fillMembers (chunkKey L (valueOf l.pending)) =
        .ok { b with stats := stats, records := records } := by
      rw [Builder.fillMembers, h.members]
      exact hf
    rw [hf']
    refine PutsOk.pure ⟨fun o => ?_, rfl, rfl, h.max, h.pack⟩
    rw [show ({ b with stats := stats, records := records, pending := {} } : Builder).recs o = _ from hr o]
    have hn : l.pending ≠ [] := by rw [hp]; exact cons_ne_nil c cs
    simp [Layout.close, Layout.pendingGroup, hn, placed]

lemma length_ofOwner_close (L : Libs) (l : Layout) (o : Str × Str) :
    (ofOwner o (placed L l.closed ++ unplaced l.pending)).length = (ofOwner o (placed L l.close.closed)).length := by
  have hg : (ofOwner o (placed L l.pendingGroup)).length = (ofOwner o (unplaced l.pending)).length := by
    unfold Layout.pendingGroup
    split
    · next h => simp [h, placed]
    · simp [placed, length_ofOwner_place]
  rw [Layout.close, placed_append, ofOwner_append, ofOwner_append, length_append, length_append, hg]

lemma Represents.newSlice (h : Represents L max pack b l []) (c : Piece) :
    (b.newSlice c.owner.1 c.owner.2 c.bytes.length).1 =
        ⟨c.owner.1, c.owner.2, (ofOwner c.owner (placed L l.close.closed)).length⟩ ∧
      Represents L max pack (b.newSlice c.owner.1 c.owner.2 c.bytes.length).2 l (unplaced [c]) := by
  have hr : b.recs c.owner = ofOwner c.owner (placed L l.closed ++ unplaced l.pending) := by
    rw [h.recs, append_nil]
  refine ⟨?_, ⟨fun o => ?_, h.buf, h.members, h.max, h.pack⟩⟩
  · show Slice.mk _ _ (b.recs c.owner).length = _
    rw [hr, length_ofOwner_close]
  have hi := recs_insert b c.owner o (b.recs c.owner ++ [⟨none, none, c.bytes.length⟩])
  refine Eq.trans hi ?_
  split
  · next ho =>
    subst ho
    rw [hr]
    simp [ofOwner_cons_self]
  next ho =>
  rw [h.recs]
  simp [ofOwner_cons_ne _ (Ne.symm ho)]

lemma Represents.storeWhole (h : Represents L max pack b ⟨closed, []⟩ (unplaced [c])) :
    PutsOk L [c.bytes] (fun b' => Represents L max pack b' ⟨closed ++ [[c]], []⟩ [])
      (b.storeWhole L ⟨c.owner.1, c.owner.2, (ofOwner c.owner (placed L closed)).length⟩ c.bytes) := by
  show PutsOk L ([c.bytes] ++ []) _ _
  refine Puts.bind (putsOk_storeValue b c.bytes) ?_
  rintro _ ⟨stats, rfl⟩
  have hr : ∀ o, ({ b with stats := stats } : Builder).recs o =
      ofOwner o (placed L closed ++ unplaced [c] ++ []) := by
    intro o
    rw [append_nil]
    exact (h.recs o).trans (by simp)
  obtain ⟨records, hf, hr'⟩ := fill_first (chunkKey L c.bytes) 0 hr
  rw [hf]
  refine PutsOk.pure ⟨fun o => ?_, h.buf, h.members, h.max, h.pack⟩
  rw [hr' o]
  simp [placed, place, valueOf]

lemma Represents.append (h : Represents L max pack b l (unplaced [c])) :
    Represents L max pack { b with
        pending.buf := b.pending.buf ++ c.bytes
        pending.members := b.pending.members ++
          [(⟨c.owner.1, c.owner.2, (ofOwner c.owner (placed L l.closed ++ unplaced l.pending)).length⟩,
            b.pending.buf.length, c.bytes.length)] }
      ⟨l.closed, l.pending ++ [c]⟩ [] where
  recs := fun o => (h.recs o).trans (by simp)
  buf := by simp [h.buf, valueOf]
  members := by simp [memberList_append_one, h.members, h.buf]
  max := h.max
  pack := h.pack

variable {groups : List (List Piece)}

section

variable (h : Represents L max pack b l [])
include h

lemma Represents.addChunk (c : Piece) (hg : (l.add max pack c).closed = l.closed ++ groups) :
    PutsOk L (groups.map valueOf) (fun b' => Represents L max pack b' (l.add max pack c) [])
      (b.addChunk L c.owner.1 c.owner.2 c.bytes) := by
  obtain ⟨hs, hn⟩ := h.newSlice c
  simp only [Builder.addChunk, hs, hn.max, hn.pack, Layout.add] at hg ⊢
  by_cases hw : (!pack || decide (c.bytes.length = max)) = true
  · rw [if_pos hw, append_assoc] at hg
    rw [← append_cancel_left hg, if_pos hw, if_pos hw, map_append]
    have hb : [[c]].map valueOf = [c.bytes] := by simp [valueOf]
    rw [hb]
    exact Puts.bind hn.flushPending fun b' hb' => Represents.storeWhole hb'
  rw [if_neg hw] at hg ⊢
  rw [if_neg hw]
  unfold Builder.appendPacked
  rw [hn.buf, hn.max]
  by_cases hf : (valueOf l.pending).length + c.bytes.length > max
  · rw [if_pos hf] at hg ⊢
    rw [if_pos hf, ← append_cancel_left hg, ← append_nil (l.pendingGroup.map valueOf)]
    refine Puts.bind hn.flushPending fun b' hb' => PutsOk.pure ?_
    simpa [Layout.close] using hb'.append
  rw [if_neg hf] at hg ⊢
  have hi : groups = [] := by simpa using hg
  rw [if_neg hf, hi, ← length_ofOwner_close]
  exact PutsOk.pure hn.append

lemma Represents.addChunks (o : Str × Str) (chunks : List Bytes)
    (hg : ((chunks.map (Piece.mk o)).foldl (Layout.add max pack) l).closed = l.closed ++ groups) :
    PutsOk L (groups.map valueOf)
      (fun b' => Represents L max pack b' ((chunks.map (Piece.mk o)).foldl (Layout.add max pack) l) [])
      (chunks.foldlM (Builder.addChunk L o.1 o.2) b) := by
  induction chunks generalizing b l groups with
  | nil =>
    have hn : groups = [] := by simpa using hg
    rw [hn]
    exact PutsOk.pure h
  | cons chunk chunks ih =>
    obtain ⟨first, hf⟩ := l.closed_add max pack ⟨o, chunk⟩
    obtain ⟨later, hl⟩ := (l.add max pack ⟨o, chunk⟩).closed_foldl max pack (chunks.map (Piece.mk o))
    have ha : groups = first ++ later := by
      rw [map_cons, foldl_cons, hl, hf, append_assoc] at hg
      exact (append_cancel_left hg).symm
    rw [ha, map_append, foldlM_cons]
    exact Puts.bind (h.addChunk ⟨o, chunk⟩ hf) fun b' hb' => ih hb' hl

lemma Represents.addTensor (o : Str × Str) (data : Bytes)
    (hg : (((iterChunks data max).map (Piece.mk o)).foldl (Layout.add max pack) l).closed = l.closed ++ groups) :
    PutsOk L (groups.map valueOf)
      (fun b' => Represents L max pack b' (((iterChunks data max).map (Piece.mk o)).foldl (Layout.add max pack) l) [])
      (b.addTensor L o.1 o.2 data) := by
  unfold Builder.addTensor
  by_cases hd : data.length = 0
  · have hc : iterChunks data max = [] := by
      rw [eq_nil_of_length_eq_zero hd]
      exact iterChunks_nil max
    rw [hc] at hg ⊢
    have hn : groups = [] := by simpa using hg
    rw [hn, if_pos hd]
    refine PutsOk.pure ⟨fun o' => ?_, h.buf, h.members, h.max, h.pack⟩
    refine Eq.trans (recs_insert b o o' (b.recs o)) ?_
    split
    · next ho => rw [ho, h.recs]; rfl
    · rw [h.recs]; rfl
  obtain rfl := h.max
  rw [if_neg hd]
  exact (h.withStats _).addChunks o _ hg

lemma Represents.addTensors (tensors : List ((Str × Str) × TensorSpec))
    (hg : ((piecesOf max tensors).foldl (Layout.add max pack) l).closed = l.closed ++ groups) :
    PutsOk L (groups.map valueOf)
      (fun b' => Represents L max pack b' ((piecesOf max tensors).foldl (Layout.add max pack) l) [])
      (tensors.foldlM (fun (b : Builder) t => b.addTensor L t.1.1 t.1.2 t.2.data) b) := by
  induction tensors generalizing b l groups with
  | nil =>
    have hn : groups = [] := by simpa [piecesOf] using hg
    rw [hn]
    exact PutsOk.pure h
  | cons t tensors ih =>
    have hp : piecesOf max (t :: tensors) =
        (iterChunks t.2.data max).map (Piece.mk t.1) ++ piecesOf max tensors := rfl
    obtain ⟨first, hf⟩ := l.closed_foldl max pack ((iterChunks t.2.data max).map (Piece.mk t.1))
    obtain ⟨later, hl⟩ := (((iterChunks t.2.data max).map (Piece.mk t.1)).foldl (Layout.add max pack) l).closed_foldl
      max pack (piecesOf max tensors)
    rw [hp, foldl_append] at hg ⊢
    have ha : groups = first ++ later := by
      rw [hl, hf, append_assoc] at hg
      exact (append_cancel_left hg).symm
    rw [ha, map_append, foldlM_cons]
    exact Puts.bind (h.addTensor t.1 t.2.data hf) fun b' hb' => ih hb' hl

end

end

namespace PublishCall

variable (L : Libs) (kvvml : Int) (call : PublishCall)

def groups : List (List Piece) := groupsOf (call.cap kvvml).toNat call.pack call.tensors

def values : List Bytes := (call.groups kvvml).map valueOf

def recs (o : Str × Str) : List SliceRec := ofOwner o (placed L (call.groups kvvml))

section

variable (base : Option WeightManifest)

def manifest : Except Exn WeightManifest :=
  buildManifest (call.recs L kvvml) base call.tensors

def manifestBytes : Except Exn Bytes := do
  let manifest ← call.manifest L kvvml base
  manifest.toIpc L

def Finishes (p : Kv PublishStats) : Prop :=
  match call.manifestBytes L kvvml base with
  | .error e => p = .done (.error e)
  | .ok data => ∃ stats, p = .call (.store (manifestKey L call.modelRevision) data) fun _ => .done (.ok stats)

def publishOnto : Kv PublishStats := do
  let b ← (TensorsSpec.all call.tensors).foldlM (fun (b : Builder) t => b.addTensor L t.1.1 t.1.2 t.2.data)
    { max := (call.cap kvvml).toNat, pack := call.pack }
  b.finalize L call.tensors call.modelRevision base

end

variable {L kvvml call}

lemma finalize_finishes {b : Builder} (base : Option WeightManifest) (hr : b.recs = call.recs L kvvml) :
    call.Finishes L kvvml base (do
      let manifest ← buildManifest b.recs base call.tensors
      let data ← manifest.toIpc L
      Kv.store (manifestKey L call.modelRevision) data
      pure b.stats) := by
  rw [hr]
  cases hm : buildManifest (call.recs L kvvml) base call.tensors with
  | error e =>
    have hb : call.manifestBytes L kvvml base = .error e := by
      rw [manifestBytes, manifest, hm]
      rfl
    rw [Finishes, hb]
    rfl
  | ok m =>
    have hb : call.manifestBytes L kvvml base = m.toIpc L := by
      rw [manifestBytes, manifest, hm]
      rfl
    rw [Finishes, hb]
    cases hd : m.toIpc L with
    | error e =>
      show (do let data ← (monadLift (m.toIpc L) : Kv Bytes); _) = _
      rw [hd]
      rfl
    | ok data =>
      refine ⟨b.stats, ?_⟩
      show (do let data ← (monadLift (m.toIpc L) : Kv Bytes); _) = _
      rw [hd]
      rfl

lemma puts_publishOnto (L : Libs) (kvvml : Int) (call : PublishCall) (base : Option WeightManifest) :
    Puts L (call.values kvvml) (call.Finishes L kvvml base) (call.publishOnto L kvvml base) := by
  have hint : Represents L (call.cap kvvml).toNat call.pack
      { max := (call.cap kvvml).toNat, pack := call.pack } {} [] := ⟨fun _ => rfl, rfl, rfl, rfl, rfl⟩
  obtain ⟨sealed, hs⟩ := ({} : Layout).closed_foldl (call.cap kvvml).toNat call.pack
    (piecesOf (call.cap kvvml).toNat (TensorsSpec.all call.tensors))
  have hg : call.groups kvvml = sealed ++
      ((piecesOf (call.cap kvvml).toNat (TensorsSpec.all call.tensors)).foldl
        (Layout.add (call.cap kvvml).toNat call.pack) {}).pendingGroup := by
    rw [groups, groupsOf, Layout.close, hs]
    rfl
  rw [values, hg, map_append]
  refine Puts.bind (hint.addTensors _ hs) fun b hb => ?_
  rw [← append_nil (List.map valueOf (Layout.pendingGroup _))]
  refine Puts.bind hb.flushPending fun b' hb' => ?_
  refine finalize_finishes base (funext fun o => ?_)
  rw [hb'.recs]
  simp [Layout.close, recs, groups, groupsOf]

lemma publish_of_cap_pos (h : 0 < call.cap kvvml) :
    publish L kvvml call = readBase L call >>= call.publishOnto L kvvml := by
  rw [publish, if_neg (Int.not_le.mpr h)]
  rfl

end PublishCall

end Weights

end RadosNkv
