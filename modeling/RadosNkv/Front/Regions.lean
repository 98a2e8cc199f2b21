import RadosNkv.Front.Client

/-! The memory behind the front's bulk handles. -/

namespace RadosNkv

open List

inductive Region where
  | host (addr len : Nat) (flags : BulkFlags)
  | dmabuf (fd : Int) (len : Nat)
deriving DecidableEq

abbrev Regions := BulkHandle → Option Region

def Regions.note (m : Regions) (before after : BulkCache) (r : Region) : Regions :=
  if before.nextHandle < after.nextHandle then Function.update m before.nextHandle (some r) else m

lemma Regions.note_eq (m : Regions) {before after : BulkCache} (h : after.nextHandle = before.nextHandle)
    (r : Region) : m.note before after r = m :=
  if_neg (not_lt.mpr (le_of_eq h))

def BulkCache.Tracks (b : BulkCache) (m : Regions) : Prop :=
  ∀ e ∈ b.slots, ∀ h, e.handle = some h → h < b.nextHandle ∧ m h = some (.host e.addr e.len e.flags)

namespace BulkCache

variable {b b' : BulkCache} {m : Regions}

lemma tracks_empty : empty.Tracks m := by
  intro e he h hh
  rw [(mem_replicate.mp he).2] at hh
  cases hh

lemma Tracks.mono (h : b.Tracks m) (he : e ∈ b.slots) (hh : e.handle = some hd) {c : BulkCache}
    (hn : b.nextHandle ≤ c.nextHandle) (r : Region) :
    hd < c.nextHandle ∧ m.note b c r hd = some (.host e.addr e.len e.flags) := by
  obtain ⟨hl, hm⟩ := h e he hd hh
  refine ⟨lt_of_lt_of_le hl hn, ?_⟩
  unfold Regions.note
  split
  · rw [Function.update_of_ne (ne_of_lt hl), hm]
  · exact hm

lemma Tracks.of_slots (h : b.Tracks m) (hx : b'.nextHandle = b.nextHandle) (hs : ∀ e' ∈ b'.slots, ∃ e ∈ b.slots,
      e'.handle = e.handle ∧ e'.addr = e.addr ∧ e'.len = e.len ∧ e'.flags = e.flags) : b'.Tracks m := by
  intro e' he' hd hh
  obtain ⟨e, he, hn, ha, hl, hf⟩ := hs e' he'
  rw [hx, ha, hl, hf]
  exact h e he hd (hn ▸ hh)

lemma mem_modify {α : Type} {xs : List α} {i : Nat} {f : α → α} {x : α} (h : x ∈ xs.modify i f) :
    ∃ y ∈ xs, x = y ∨ x = f y := by
  obtain ⟨j, hj, rfl⟩ := mem_iff_getElem.mp h
  rw [length_modify] at hj
  refine ⟨xs[j], getElem_mem hj, ?_⟩
  rw [getElem_modify]
  split
  · exact .inr rfl
  · exact .inl rfl

lemma mem_modify_refs {i : Nat} {e' : BulkEntry} {refs usedSeq : BulkEntry → Nat}
    (h : e' ∈ b.slots.modify i fun e => { e with refs := refs e, usedSeq := usedSeq e }) :
    ∃ e ∈ b.slots, e'.handle = e.handle ∧ e'.addr = e.addr ∧ e'.len = e.len ∧ e'.flags = e.flags := by
  obtain ⟨e, he, rfl | rfl⟩ := mem_modify h
  · exact ⟨e', he, rfl, rfl, rfl, rfl⟩
  · exact ⟨e, he, rfl, rfl, rfl, rfl⟩

lemma Tracks.release (h : b.Tracks m) (hd : Option BulkHandle) : (nkvxBulkRelease b hd).Tracks m := by
  cases hd with
  | none => exact h
  | some hd =>
    unfold nkvxBulkRelease
    dsimp only
    split
    · exact h.of_slots rfl fun e' he' => mem_modify_refs he'
    · exact h.of_slots rfl fun e' he' => ⟨e', he', rfl, rfl, rfl, rfl⟩

lemma Tracks.createUncached (h : b.Tracks m) (created : Bool) (r : Region) :
    (b.createUncached created).1.Tracks (m.note b (b.createUncached created).1 r) ∧
      ∀ hd, (b.createUncached created).2 = .ok hd → hd < (b.createUncached created).1.nextHandle ∧
          m.note b (b.createUncached created).1 r hd = some r := by
  unfold BulkCache.createUncached
  cases created with
  | false =>
    refine ⟨fun e he hd hh => ?_, fun hd hh => by cases hh⟩
    exact h.mono (c := { b with misses := b.misses + 1 }) he hh (le_rfl) r
  | true =>
    refine ⟨fun e he hd hh => ?_, fun hd hh => ?_⟩
    · exact h.mono (c := { b with misses := b.misses + 1, nextHandle := b.nextHandle + 1 }) he hh
        (Nat.le_succ _) r
    cases hh
    simp [Regions.note]

lemma Tracks.acquire (h : b.Tracks m) (addr len : Nat) (flags : BulkFlags) (created : Bool) :
    (nkvxBulkAcquire b addr len flags created).1.Tracks
        (m.note b (nkvxBulkAcquire b addr len flags created).1 (.host addr len flags)) ∧
      ∀ hd, (nkvxBulkAcquire b addr len flags created).2 = .ok hd →
        m.note b (nkvxBulkAcquire b addr len flags created).1 (.host addr len flags) hd =
          some (.host addr len flags) := by
  have ha := b.acquired addr len flags created
  have hc := h.createUncached true (.host addr len flags)
  generalize nkvxBulkAcquire b addr len flags created = r at ha ⊢
  cases ha with
  | hit ht hh hk =>
    obtain ⟨rfl, rfl, rfl⟩ := hk
    rw [m.note_eq (by rfl)]
    refine ⟨h.of_slots rfl fun e' he' => mem_modify_refs he', fun hd' ho => ?_⟩
    cases ho
    exact (h _ (mem_of_getElem? ht) _ hh).2
  | failed => exact ⟨(h.createUncached false _).1, fun hd ho => by cases ho⟩
  | overflow => exact ⟨hc.1, fun hd ho => (hc.2 hd ho).2⟩
  | filled =>
    refine ⟨fun e he hd hh => ?_, fun hd ho => (hc.2 hd ho).2⟩
    rcases mem_or_eq_of_mem_set he with he | rfl
    · exact hc.1 e he hd hh
    · exact hc.2 hd (congrArg Except.ok (Option.some.inj hh))

lemma Tracks.acquireDmabuf (h : b.Tracks m) (base : Option Nat) (created : Bool) (r : Region) :
    (nkvxBulkAcquireDmabuf b base created).1.Tracks (m.note b (nkvxBulkAcquireDmabuf b base created).1 r) ∧
      ∀ hd, (nkvxBulkAcquireDmabuf b base created).2 = .ok hd →
        m.note b (nkvxBulkAcquireDmabuf b base created).1 r hd = some r := by
  cases base with
  | none =>
    refine ⟨fun e he hd hh => ?_, fun hd ho => by cases ho⟩
    exact h.mono (c := b) he hh (le_rfl) r
  | some _ => exact ⟨(h.createUncached created r).1, fun hd ho => ((h.createUncached created r).2 hd ho).2⟩

end BulkCache

/-! ### The front's registrations -/

def Front.opened (s : Front) (opId : Nat) : Front :=
  { s with nextCallId := s.nextCallId + 1 }.put (s.nextCallId + 1)
    { handle := none, inputBulk := none, resultSink := none, tenantDone := false, cancelling := false,
      forwardDone := false, cancelAcked := false, detached := false, cancelHandle := none, opId,
      joinStatus := .success }

def sinkRegion (sink : Option Nat) (sinkLen : Nat) (dmabufFd : Int) : Region :=
  if 0 ≤ dmabufFd then .dmabuf dmabufFd sinkLen else .host (sink.getD 0) sinkLen .writeOnly

namespace Regions

/-- The registrations of `nkvx_front_forward_full`: the input's, and if it succeeds the sink's. -/
def forward (m : Regions) (s : Front) (input : ExecIn) (sink : Option Nat) (sinkLen : Nat) (dmabufFd : Int)
    (o : ForwardOutcome) : Regions :=
  if nkvxInlineMax < input.inputLen ∧ input.inputInline = none then m
  else if 0 ≤ dmabufFd ∧ sinkLen ≤ nkvxInlineMax then m
  else if !o.allocated then m
  else
    let id := s.nextCallId + 1
    let s := s.opened input.opId
    let r := s.registerInput id input o.inputCreated
    let m := m.note s.bulk r.1.bulk (.host (input.inputInline.getD 0) input.inputLen .readOnly)
    match r.2 with
    | .error _ => m
    | .ok _ =>
      m.note r.1.bulk (r.1.registerSink id sink sinkLen dmabufFd o.sinkCreated).1.bulk
        (sinkRegion sink sinkLen dmabufFd)

/-- The registrations of `nkvx_front_kv_forward`: the value's, and if it succeeds the sink's. -/
def kvForward (m : Regions) (s : Front) (input : KvIn) (sink : Option Nat) (sinkLen : Nat) (o : ForwardOutcome) :
    Regions :=
  if nkvxInlineMax < input.valueLen ∧ input.valueInline = none then m
  else if !o.allocated then m
  else
    let r := s.bulk.kvRegister (decide (nkvxInlineMax < input.valueLen)) o.inputCreated
    let m := m.note s.bulk r.1 (.host (input.valueInline.getD 0) input.valueLen .readOnly)
    match r.2 with
    | .error _ => m
    | .ok _ =>
      m.note r.1 (r.1.kvRegister (sink.isSome && decide (nkvxInlineMax < sinkLen)) o.sinkCreated).1
        (.host (sink.getD 0) sinkLen .writeOnly)

def step (m : Regions) (s : Front) : FrontEvent → Regions
  | .forward input sink sinkLen dmabufFd o => m.forward s input sink sinkLen dmabufFd o
  | .kvForward input sink sinkLen o => m.kvForward s input sink sinkLen o
  | _ => m

def after (m : Regions) (s : Front) : List FrontEvent → Regions
  | [] => m
  | e :: evs => (m.step s e).after (s.step e) evs

end Regions

def Front.regions (evs : List FrontEvent) : Regions := Regions.after (fun _ => none) Front.init evs

namespace Front

variable {s : Front} {m : Regions}

@[simp] lemma bulk_emit (s : Front) (id : Nat) (e : CallEffect) : (s.emit id e).bulk = s.bulk := rfl
@[simp] lemma bulk_put (s : Front) (id : Nat) (c : Call) : (s.put id c).bulk = s.bulk := rfl
@[simp] lemma bulk_free (s : Front) (id : Nat) : (s.free id).bulk = s.bulk := rfl
@[simp] lemma bulk_unlink (s : Front) (id : Nat) : (s.unlink id).bulk = s.bulk := rfl
@[simp] lemma bulk_link (s : Front) (id : Nat) : (s.link id).bulk = s.bulk := rfl
@[simp] lemma bulk_hgCreate (s : Front) : s.hgCreate.bulk = s.bulk := rfl

@[simp] lemma bulk_noteDelivered (s : Front) (id : Nat) (ret : HgReturn) (e : CallEffect) :
    (s.noteDelivered id ret e).bulk = s.bulk := by
  unfold noteDelivered
  split <;> rfl

@[simp] lemma bulk_release (s : Front) (id : Nat) (h : Option BulkHandle) :
    (s.release id h).bulk = nkvxBulkRelease s.bulk h := by
  cases h <;> rfl

@[simp] lemma bulk_releaseBoth (s : Front) (id : Nat) (c : Call) :
    (s.releaseBoth id c).bulk = nkvxBulkRelease (nkvxBulkRelease s.bulk c.inputBulk) c.resultSink := by
  simp [releaseBoth]

section

variable (h : s.bulk.Tracks m)
include h

lemma tracks_tryComplete (id : Nat) : (nkvxCallTryComplete s id).bulk.Tracks m := by
  unfold nkvxCallTryComplete
  cases s.calls id with
  | none => exact h
  | some c =>
    dsimp only
    split
    · have hb := (h.release c.inputBulk).release c.resultSink
      by_cases ht : c.tenantDone <;> by_cases hd : c.detached <;> simpa [ht, hd] using hb
    · exact h

lemma tracks_beginCancel (id : Nat) (o : CancelOutcome) : (nkvxCallBeginCancel s id o).bulk.Tracks m := by
  unfold nkvxCallBeginCancel
  cases s.calls id with
  | none => exact h
  | some c =>
    dsimp only
    split_ifs <;> exact h

lemma tracks_failPending (st : IoStatus) (id : Nat) : (failPending st s id).bulk.Tracks m := by
  unfold failPending
  cases s.calls id with
  | none => exact h
  | some c => simpa using (h.release c.inputBulk).release c.resultSink

lemma tracks_forwardCb (id : Nat) (ret : HgReturn) (output : Option ExecOut) :
    (nkvxFrontForwardCb s id ret output).bulk.Tracks m := by
  unfold nkvxFrontForwardCb
  cases s.calls id with
  | none => exact h
  | some c =>
    have hb := (h.release c.inputBulk).release c.resultSink
    dsimp only
    split_ifs
    · exact tracks_tryComplete (by simpa using h) id
    · simpa using hb
    · simpa using hb

lemma tracks_ackCb (id : Nat) (ret : HgReturn) : (nkvxCancelAckCb s id ret).bulk.Tracks m := by
  unfold nkvxCancelAckCb
  cases s.calls id with
  | none => exact h
  | some c => exact tracks_tryComplete (by simpa using h) id

lemma tracks_kvForwardCb (id : Nat) (ret : HgReturn) (output : Option ExecOut) :
    (nkvxKvForwardCb s id ret output).bulk.Tracks m := by
  unfold nkvxKvForwardCb
  cases s.kvCalls id with
  | none => exact h
  | some c => exact (h.release c.valueBulk).release c.resultSink

lemma tracks_fire (c : Completion) : (fire s c).bulk.Tracks m := by
  cases c with
  | forward id ret output =>
    dsimp only [fire]
    split
    · exact tracks_forwardCb (s := { s with forwards := s.forwards.erase id }) h id ret output
    · exact h
  | ack id ret =>
    dsimp only [fire]
    split
    · exact tracks_ackCb (s := { s with cancels := s.cancels.erase id }) h id ret
    · exact h
  | kv id ret output =>
    dsimp only [fire]
    split
    · exact tracks_kvForwardCb (s := { s with kvForwards := s.kvForwards.erase id }) h id ret output
    · exact h

end

lemma tracks_foldl (hf : ∀ s id, s.bulk.Tracks m → (f s id).bulk.Tracks m) (ids : List Nat)
    (h : s.bulk.Tracks m) : (ids.foldl f s).bulk.Tracks m := by
  induction ids generalizing s with
  | nil => exact h
  | cons id ids ih => exact ih (hf s id h)

/-! ### Submissions -/

@[simp] lemma bulk_acquire (s : Front) (id : Nat) (r : BulkCache × Except Errno BulkHandle) :
    (s.acquire id r).1.bulk = r.1 := by
  rcases r with ⟨b, e | h⟩ <;> rfl

variable {id : Nat}

lemma acquire_ok {h : Option BulkHandle} (ho : (s.acquire id r).2 = .ok h) :
    ∃ hd, h = some hd ∧ r.2 = .ok hd := by
  rcases r with ⟨b, e | hd⟩ <;> cases ho
  exact ⟨hd, rfl, rfl⟩

lemma tracks_registerInput (h : s.bulk.Tracks m) (id : Nat) (input : ExecIn) (created : Bool) :
    (s.registerInput id input created).1.bulk.Tracks (m.note s.bulk (s.registerInput id input created).1.bulk
        (.host (input.inputInline.getD 0) input.inputLen .readOnly)) := by
  unfold registerInput
  split
  · rename_i addr ha
    split
    · rw [bulk_acquire, ha]
      exact (h.acquire addr input.inputLen .readOnly created).1
    · rwa [m.note_eq rfl]
  · rwa [m.note_eq rfl]

lemma tracks_registerSink (h : s.bulk.Tracks m) (id : Nat) (sink : Option Nat) (sinkLen : Nat) (dmabufFd : Int)
    (created : Bool) : (s.registerSink id sink sinkLen dmabufFd created).1.bulk.Tracks
        (m.note s.bulk (s.registerSink id sink sinkLen dmabufFd created).1.bulk (sinkRegion sink sinkLen dmabufFd)) ∧
      ∀ hd, (s.registerSink id sink sinkLen dmabufFd created).2 = .ok (some hd) →
        m.note s.bulk (s.registerSink id sink sinkLen dmabufFd created).1.bulk
          (sinkRegion sink sinkLen dmabufFd) hd = some (sinkRegion sink sinkLen dmabufFd) := by
  unfold registerSink
  split
  · split
    · rename_i hf
      obtain ⟨ht, hn⟩ := h.acquireDmabuf sink created (sinkRegion sink sinkLen dmabufFd)
      rw [bulk_acquire]
      refine ⟨ht, fun hd ho => ?_⟩
      obtain ⟨hd', he, hr⟩ := acquire_ok ho
      cases he
      exact hn hd hr
    rename_i hf
    have hg : sinkRegion sink sinkLen dmabufFd = .host (sink.getD 0) sinkLen .writeOnly := if_neg hf
    obtain ⟨ht, hn⟩ := h.acquire (sink.getD 0) sinkLen .writeOnly created
    rw [bulk_acquire, hg]
    refine ⟨ht, fun hd ho => ?_⟩
    obtain ⟨hd', he, hr⟩ := acquire_ok ho
    cases he
    exact hn hd hr
  rw [m.note_eq rfl]
  exact ⟨h, fun hd ho => by cases ho⟩

variable {input : ExecIn} {sink : Option Nat} {sinkLen : Nat} {dmabufFd : Int} {o : ForwardOutcome}
  {s' : Front}

lemma registerSink_none_iff (ho : (s.registerSink id sink sinkLen dmabufFd created).2 = .ok r) :
    r = none ↔ ¬ ((0 ≤ dmabufFd ∨ sink.isSome) ∧ nkvxInlineMax < sinkLen) := by
  unfold registerSink at ho
  split at ho
  · rename_i hl
    have hm : ∃ hd, r = some hd := by
      split at ho
      · exact (acquire_ok ho).imp fun _ h => h.1
      · exact (acquire_ok ho).imp fun _ h => h.1
    obtain ⟨hd, rfl⟩ := hm
    simp [hl]
  rename_i hs
  cases ho
  simp [hs]

lemma tracks_submit (h : s.bulk.Tracks m) (id : Nat) (input : ExecIn) (c : Call) (o : ForwardOutcome) :
    (s.submit id input c o).1.bulk.Tracks m := by
  have hb := (h.release c.inputBulk).release c.resultSink
  unfold submit
  split_ifs
  · simpa using hb
  · simpa using hb
  · exact h

lemma forwardFull_eq (hi : ¬ (nkvxInlineMax < input.inputLen ∧ input.inputInline = none))
    (hd : ¬ (0 ≤ dmabufFd ∧ sinkLen ≤ nkvxInlineMax)) (ha : ¬ (!o.allocated) = true) :
    nkvxFrontForwardFull s input sink sinkLen dmabufFd o =
      match (s.opened input.opId).registerInput (s.nextCallId + 1) input o.inputCreated with
      | (s1, .error e) => (s1.free (s.nextCallId + 1), .error e)
      | (s1, .ok inputBulk) =>
        match s1.registerSink (s.nextCallId + 1) sink sinkLen dmabufFd o.sinkCreated with
        | (s2, .error e) => ((s2.release (s.nextCallId + 1) inputBulk).free (s.nextCallId + 1), .error e)
        | (s2, .ok resultSink) =>
          s2.submit (s.nextCallId + 1) input
            { handle := none, inputBulk, resultSink, tenantDone := false, cancelling := false, forwardDone := false,
              cancelAcked := false, detached := false, cancelHandle := none, opId := input.opId,
              joinStatus := .success } o := by
  unfold nkvxFrontForwardFull
  rw [if_neg hi, if_neg hd, if_neg ha]
  rfl

lemma tracks_forward (h : s.bulk.Tracks m) (input : ExecIn) (sink : Option Nat) (sinkLen : Nat) (dmabufFd : Int)
    (o : ForwardOutcome) : (nkvxFrontForwardFull s input sink sinkLen dmabufFd o).1.bulk.Tracks
      (m.forward s input sink sinkLen dmabufFd o) := by
  unfold Regions.forward
  split_ifs with hi hd ha
  · rwa [nkvxFrontForwardFull, if_pos hi]
  · rwa [nkvxFrontForwardFull, if_neg hi, if_pos hd]
  · rwa [nkvxFrontForwardFull, if_neg hi, if_neg hd, if_pos ha]
  rw [forwardFull_eq hi hd ha]
  have he := tracks_registerInput (s := s.opened input.opId) h (s.nextCallId + 1) input o.inputCreated
  rcases hr : (s.opened input.opId).registerInput (s.nextCallId + 1) input o.inputCreated with ⟨s1, e | a⟩ <;>
    simp only [hr] at he ⊢
  · exact he
  have hs := (tracks_registerSink he (s.nextCallId + 1) sink sinkLen dmabufFd o.sinkCreated).1
  rcases hr' : s1.registerSink (s.nextCallId + 1) sink sinkLen dmabufFd o.sinkCreated with ⟨s2, e | b⟩ <;>
    simp only [hr'] at hs ⊢
  · simpa using hs.release a
  · exact tracks_submit hs _ _ _ _

lemma tracks_kvRegister {b : BulkCache} (h : b.Tracks m) (wanted created : Bool) (r : Region) :
    (b.kvRegister wanted created).1.Tracks (m.note b (b.kvRegister wanted created).1 r) ∧
      ∀ hd, (b.kvRegister wanted created).2 = .ok (some hd) → m.note b (b.kvRegister wanted created).1 r hd = some r := by
  obtain ⟨ht, hn⟩ := h.createUncached created r
  unfold BulkCache.kvRegister
  cases wanted with
  | false =>
    rw [m.note_eq (by rfl)]
    exact ⟨h, fun hd ho => by cases ho⟩
  | true =>
    rw [if_pos rfl]
    rcases hr : b.createUncached created with ⟨b', e | hd⟩ <;> rw [hr] at ht hn
    · exact ⟨ht, fun hd ho => by cases ho⟩
    refine ⟨ht, fun hd' ho => ?_⟩
    cases ho
    exact (hn hd rfl).2

lemma tracks_kvForward (h : s.bulk.Tracks m) (input : KvIn) (sink : Option Nat) (sinkLen : Nat) (o : ForwardOutcome) :
    (nkvxFrontKvForward s input sink sinkLen o).1.bulk.Tracks (m.kvForward s input sink sinkLen o) := by
  unfold nkvxFrontKvForward Regions.kvForward
  by_cases hv : nkvxInlineMax < input.valueLen ∧ input.valueInline = none
  · rwa [if_pos hv, if_pos hv]
  by_cases ha : (!o.allocated) = true
  · rwa [if_neg hv, if_pos ha, if_neg hv, if_pos ha]
  rw [if_neg hv, if_neg ha, if_neg hv, if_neg ha]
  have he := (tracks_kvRegister h (decide (nkvxInlineMax < input.valueLen)) o.inputCreated
    (.host (input.valueInline.getD 0) input.valueLen .readOnly)).1
  rcases hr : s.bulk.kvRegister (decide (nkvxInlineMax < input.valueLen)) o.inputCreated with ⟨b1, e | a⟩ <;>
    simp only [hr] at he ⊢
  · exact he
  have hs := (tracks_kvRegister he (sink.isSome && decide (nkvxInlineMax < sinkLen)) o.sinkCreated
    (.host (sink.getD 0) sinkLen .writeOnly)).1
  rcases hr' : b1.kvRegister (sink.isSome && decide (nkvxInlineMax < sinkLen)) o.sinkCreated with ⟨b2, e | b⟩ <;>
    simp only [hr'] at hs ⊢
  · exact hs.release a
  split_ifs
  · exact (hs.release a).release b
  · exact (hs.release a).release b
  · exact hs

lemma tracks_step (h : s.bulk.Tracks m) (e : FrontEvent) : (s.step e).bulk.Tracks (m.step s e) := by
  cases e with
  | forward input sink sinkLen dmabufFd o => exact tracks_forward h input sink sinkLen dmabufFd o
  | kvForward input sink sinkLen o => exact tracks_kvForward h input sink sinkLen o
  | cancel token o =>
    change (nkvxFrontCancel s token o).1.bulk.Tracks m
    unfold nkvxFrontCancel
    split_ifs
    · exact h
    · exact tracks_beginCancel h token o
    · exact h
  | cancelAll o => exact tracks_foldl (fun s id hs => tracks_beginCancel hs id (o id)) s.inflight h
  | failAll st => exact tracks_foldl (fun s id hs => tracks_failPending hs st id) s.inflight h
  | fire c => exact tracks_fire h c

lemma tracks_after (evs : List FrontEvent) : (Front.after evs).bulk.Tracks (regions evs) := by
  have key : ∀ (evs : List FrontEvent) (s : Front) (m : Regions), s.bulk.Tracks m →
      (Machine.run Front.step s evs).bulk.Tracks (m.after s evs) := by
    intro evs
    induction evs with
    | nil => exact fun _ _ h => h
    | cons e evs ih => exact fun s m h => ih (s.step e) (m.step s e) (tracks_step h e)
  exact key evs Front.init _ BulkCache.tracks_empty

/-- What an accepted Exec leaves: its request is on the wire and its callback is owed. -/
structure Sends (s s' : Front) (m : Regions) (input : ExecIn) (sink : Option Nat) (sinkLen : Nat) (dmabufFd : Int)
    (id : Nat) (wire : ExecIn) : Prop where
  fresh : id = s.nextCallId + 1
  sent : s'.log.head? = some (id, .execSent wire)
  request : wire = { input with clientCallId := id, inputBulk := wire.inputBulk, resultSink := wire.resultSink }
  sink_none_iff : wire.resultSink = none ↔ ¬ ((0 ≤ dmabufFd ∨ sink.isSome) ∧ nkvxInlineMax < sinkLen)
  sink_stands : ∀ hd, wire.resultSink = some hd → m hd = some (sinkRegion sink sinkLen dmabufFd)

lemma submit_sends (ho : s.submit id input c o = (s', .ok id')) : id' = id ∧ s'.log.head? =
      some (id, .execSent { input with clientCallId := id, inputBulk := c.inputBulk, resultSink := c.resultSink }) := by
  unfold submit at ho
  split_ifs at ho
  · cases ho
  · cases ho
  cases ho
  exact ⟨rfl, rfl⟩

lemma forwardFull_parts (ho : nkvxFrontForwardFull s input sink sinkLen dmabufFd o = (s', .ok id)) :
    ∃ s1 s2 inputBulk resultSink,
      (s.opened input.opId).registerInput (s.nextCallId + 1) input o.inputCreated = (s1, .ok inputBulk) ∧
      s1.registerSink (s.nextCallId + 1) sink sinkLen dmabufFd o.sinkCreated = (s2, .ok resultSink) ∧
      (id = s.nextCallId + 1 ∧ s'.log.head? = some (id, .execSent { input with
        clientCallId := id, inputBulk := inputBulk, resultSink := resultSink })) ∧
      ∀ m : Regions, m.forward s input sink sinkLen dmabufFd o =
        (m.note s.bulk s1.bulk (.host (input.inputInline.getD 0) input.inputLen .readOnly)).note s1.bulk s2.bulk
          (sinkRegion sink sinkLen dmabufFd) := by
  by_cases hi : nkvxInlineMax < input.inputLen ∧ input.inputInline = none
  · rw [nkvxFrontForwardFull, if_pos hi] at ho
    cases ho
  by_cases hd : 0 ≤ dmabufFd ∧ sinkLen ≤ nkvxInlineMax
  · rw [nkvxFrontForwardFull, if_neg hi, if_pos hd] at ho
    cases ho
  by_cases ha : (!o.allocated) = true
  · rw [nkvxFrontForwardFull, if_neg hi, if_neg hd, if_pos ha] at ho
    cases ho
  rw [forwardFull_eq hi hd ha] at ho
  rcases hr : (s.opened input.opId).registerInput (s.nextCallId + 1) input o.inputCreated with ⟨s1, e | a⟩ <;>
    simp only [hr] at ho
  · cases ho
  rcases hr' : s1.registerSink (s.nextCallId + 1) sink sinkLen dmabufFd o.sinkCreated with ⟨s2, e | b⟩ <;>
    simp only [hr'] at ho
  · cases ho
  obtain ⟨rfl, hs⟩ := submit_sends ho
  refine ⟨s1, s2, a, b, rfl, hr', ⟨rfl, hs⟩, fun m => ?_⟩
  unfold Regions.forward
  rw [if_neg hi, if_neg hd, if_neg ha]
  simp only [hr, hr']
  rfl

lemma forwardFull_ok (h : s.bulk.Tracks m) (ho : nkvxFrontForwardFull s input sink sinkLen dmabufFd o = (s', .ok id)) :
    ∃ wire, s.Sends s' (m.forward s input sink sinkLen dmabufFd o) input sink sinkLen dmabufFd id wire := by
  obtain ⟨s1, s2, a, b, hr, hr', ⟨hi, hsn⟩, hm⟩ := forwardFull_parts ho
  have he := tracks_registerInput (s := s.opened input.opId) h (s.nextCallId + 1) input o.inputCreated
  rw [hr] at he
  have hs := (tracks_registerSink he (s.nextCallId + 1) sink sinkLen dmabufFd o.sinkCreated).2
  rw [hr'] at hs
  have hn := registerSink_none_iff (congrArg Prod.snd hr')
  exact ⟨_, { fresh := hi, sent := hsn, request := rfl, sink_none_iff := hn,
              sink_stands := fun hd hb => (congrFun (hm m) hd).trans (hs hd (congrArg Except.ok hb)) }⟩

lemma registerInput_ok (h : s.bulk.Tracks m) (hr : s.registerInput id input created = (s1, .ok r)) :
    (r = none ↔ ¬ (input.inputInline.isSome ∧ nkvxInlineMax < input.inputLen)) ∧ ∀ hd, r = some hd →
        m.note s.bulk s1.bulk (.host (input.inputInline.getD 0) input.inputLen .readOnly) hd =
            some (.host (input.inputInline.getD 0) input.inputLen .readOnly) ∧ hd < s1.bulk.nextHandle ∧
          (hd < s.bulk.nextHandle ↔
            ∃ e ∈ s.bulk.slots, e.Serves (input.inputInline.getD 0) input.inputLen .readOnly) := by
  unfold registerInput at hr
  cases hi : input.inputInline with
  | none =>
    rw [hi] at hr
    cases hr
    exact ⟨by simp, fun hd hh => by cases hh⟩
  | some addr =>
    rw [hi] at hr
    dsimp only at hr
    by_cases hl : nkvxInlineMax < input.inputLen
    · rw [if_pos hl] at hr
      obtain ⟨hd, rfl, ho⟩ := acquire_ok (congrArg Prod.snd hr)
      have hb : (nkvxBulkAcquire s.bulk addr input.inputLen .readOnly created).1 = s1.bulk := by
        rw [← bulk_acquire s id, hr]
      have ht := (h.acquire addr input.inputLen .readOnly created).2 hd ho
      rw [hb] at ht
      refine ⟨by simp [hl], fun hd' hh => ?_⟩
      cases hh
      refine ⟨ht, ?_⟩
      have ha := s.bulk.acquired addr input.inputLen .readOnly created
      rw [← hb]
      generalize nkvxBulkAcquire s.bulk addr input.inputLen .readOnly created = r at ha ho ⊢
      cases ha with
      | hit hat hh hk =>
        cases ho
        have hold := (h _ (mem_of_getElem? hat) hd hh).1
        exact ⟨hold, iff_of_true hold ⟨_, mem_of_getElem? hat, by rw [hh]; rfl, hk⟩⟩
      | failed => cases ho
      | overflow hm =>
        cases ho
        exact ⟨Nat.lt_succ_self _, iff_of_false (lt_irrefl _) fun ⟨e, he, hs⟩ => hm e he hs⟩
      | filled hm =>
        cases ho
        exact ⟨Nat.lt_succ_self _, iff_of_false (lt_irrefl _) fun ⟨e, he, hs⟩ => hm e he hs⟩
    rw [if_neg hl] at hr
    cases hr
    exact ⟨by simp [hl], fun hd hh => by cases hh⟩

lemma forwardFull_ships (h : s.bulk.Tracks m)
    (ho : nkvxFrontForwardFull s input sink sinkLen dmabufFd o = (s', .ok id)) :
    ∃ wire, s'.log.head? = some (id, .execSent wire) ∧
      (wire.inputBulk = none ↔ ¬ (input.inputInline.isSome ∧ nkvxInlineMax < input.inputLen)) ∧
      (∀ hd, wire.inputBulk = some hd → m.forward s input sink sinkLen dmabufFd o hd =
            some (.host (input.inputInline.getD 0) input.inputLen .readOnly) ∧ (hd < s.bulk.nextHandle ↔
            ∃ e ∈ s.bulk.slots, e.Serves (input.inputInline.getD 0) input.inputLen .readOnly)) ∧
      ∀ hd, wire.resultSink = some hd →
        m.forward s input sink sinkLen dmabufFd o hd = some (sinkRegion sink sinkLen dmabufFd) := by
  obtain ⟨wire, hsd⟩ := forwardFull_ok h ho
  obtain ⟨s1, s2, a, b, hr, hr', ⟨hid, hsn⟩, hm⟩ := forwardFull_parts ho
  have hw := hsd.sent.symm.trans hsn
  cases hw
  obtain ⟨hn, hi⟩ := registerInput_ok (s := s.opened input.opId) h hr
  refine ⟨_, hsn, hn, fun hd hh => ?_, hsd.sink_stands⟩
  obtain ⟨hs, hl, hold⟩ := hi hd hh
  refine ⟨?_, hold⟩
  rw [hm]
  -- the registration of the sink leaves the older handles alone
  unfold Regions.note at hs ⊢
  split
  · rw [Function.update_of_ne (ne_of_lt hl)]
    exact hs
  · exact hs

/-- What an accepted base-verb call leaves: its request is on the wire and its callback is owed. -/
structure KvSends (s s' : Front) (m : Regions) (input : KvIn) (sink : Option Nat) (sinkLen : Nat) (wire : KvIn) :
    Prop where
  sent : s'.kvLog.head? = some (s.nextKvCall, .sent wire)
  owed : s.nextKvCall ∈ s'.kvForwards
  request : wire = { input with valueBulk := wire.valueBulk, resultSink := wire.resultSink }
  sink_none_iff : wire.resultSink = none ↔ ¬ (sink.isSome ∧ nkvxInlineMax < sinkLen)
  sink_stands : ∀ hd, wire.resultSink = some hd → m hd = some (.host (sink.getD 0) sinkLen .writeOnly)

lemma kvRegister_none_iff {b b' : BulkCache} (ho : b.kvRegister wanted created = (b', .ok r)) :
    r = none ↔ wanted = false := by
  unfold BulkCache.kvRegister at ho
  cases wanted with
  | false =>
    cases ho
    simp
  | true =>
    rw [if_pos rfl] at ho
    split at ho <;> cases ho
    simp

lemma kvForward_ok (h : s.bulk.Tracks m) {input : KvIn}
    (ho : nkvxFrontKvForward s input sink sinkLen o = (s', .ok ())) :
    ∃ wire, s.KvSends s' (m.kvForward s input sink sinkLen o) input sink sinkLen wire := by
  unfold nkvxFrontKvForward at ho
  unfold Regions.kvForward
  by_cases hv : nkvxInlineMax < input.valueLen ∧ input.valueInline = none
  · rw [if_pos hv] at ho
    cases ho
  by_cases ha : (!o.allocated) = true
  · rw [if_neg hv, if_pos ha] at ho
    cases ho
  rw [if_neg hv, if_neg ha] at ho
  rw [if_neg hv, if_neg ha]
  have he := (tracks_kvRegister h (decide (nkvxInlineMax < input.valueLen)) o.inputCreated
    (.host (input.valueInline.getD 0) input.valueLen .readOnly)).1
  rcases hr : s.bulk.kvRegister (decide (nkvxInlineMax < input.valueLen)) o.inputCreated with ⟨b1, e | a⟩ <;>
    simp only [hr] at he ho ⊢
  · cases ho
  have hs := (tracks_kvRegister he (sink.isSome && decide (nkvxInlineMax < sinkLen)) o.sinkCreated
    (.host (sink.getD 0) sinkLen .writeOnly)).2
  rcases hr' : b1.kvRegister (sink.isSome && decide (nkvxInlineMax < sinkLen)) o.sinkCreated with ⟨b2, e | b⟩ <;>
    simp only [hr'] at hs ho ⊢
  · cases ho
  have hn := kvRegister_none_iff hr'
  split_ifs at ho
  · cases ho
  · cases ho
  cases ho
  exact ⟨_, { sent := rfl, owed := mem_cons_self, request := rfl,
              sink_none_iff := hn.trans (by simp), sink_stands := fun hd hb => hs hd (congrArg Except.ok hb) }⟩

end Front

end RadosNkv
