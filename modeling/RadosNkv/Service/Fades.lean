import RadosNkv.Service.AckLaw

/-! What the service's events do to the requests of a key: apart from arrivals and cancels, requests
only leave, and a cancel is acked when its request leaves. -/

namespace RadosNkv

open Ledger List

namespace Service

/-- From `s` to `s'` no request arrives, requests only leave, and every cancel acked in between
belongs to a request that left. -/
structure Fades (s s' : Service) : Prop where
  reqs : ∀ j q', s'.reqs j = some q' → ∃ q, s.reqs j = some q ∧ q'.SameKey q
  acks : ∀ h a, (h, a) ∈ s'.acks → (h, a) ∈ s.acks ∨
    ∃ r q, s.reqs r = some q ∧ q.origin = a.origin ∧ q.callId = a.callId ∧ s'.reqs r = none
  arrivals : ∀ j origin input, .arrived origin input ∈ (s'.view j).log ↔
    .arrived origin input ∈ (s.view j).log

variable {s s' s'' : Service} {q q₀ : Req}

lemma Fades.refl (s : Service) : s.Fades s :=
  ⟨fun _ q' h => ⟨q', h, rfl, rfl, rfl⟩, fun _ _ h => .inl h, fun _ _ _ => Iff.rfl⟩

lemma Fades.trans (h : s.Fades s') (h' : s'.Fades s'') : s.Fades s'' := by
  refine ⟨fun j q' hj => ?_, fun hd a hm => ?_, fun j origin input => ?_⟩
  · obtain ⟨q1, hq1, hk1⟩ := h'.reqs j q' hj
    obtain ⟨q2, hq2, hk2⟩ := h.reqs j q1 hq1
    exact ⟨q2, hq2, hk1.origin.trans hk2.origin, hk1.callId.trans hk2.callId, hk1.cancelHandle.trans hk2.cancelHandle⟩
  · rcases h'.acks hd a hm with hm | ⟨r, q, hq, ho, hi, hn⟩
    · rcases h.acks hd a hm with hm | ⟨r, q, hq, ho, hi, hn⟩
      · exact .inl hm
      refine .inr ⟨r, q, hq, ho, hi, ?_⟩
      by_contra hs
      obtain ⟨q', hq'⟩ := Option.ne_none_iff_exists'.mp hs
      obtain ⟨q1, hq1, -⟩ := h'.reqs r q' hq'
      rw [hn] at hq1
      cases hq1
    obtain ⟨q1, hq1, hk1⟩ := h.reqs r q hq
    exact .inr ⟨r, q1, hq1, hk1.origin.symm.trans ho, hk1.callId.symm.trans hi, hn⟩
  · exact (h'.arrivals j origin input).trans (h.arrivals j origin input)

lemma Fades.of_ledger (hr : s'.reqs = s.reqs) (ha : s'.acks = s.acks)
    (hl : ∀ j origin input, .arrived origin input ∈ (s'.view j).log ↔
      .arrived origin input ∈ (s.view j).log) : s.Fades s' :=
  ⟨fun _ q' h => ⟨q', hr ▸ h, rfl, rfl, rfl⟩, fun _ _ h => .inl (ha ▸ h), hl⟩

lemma fades_emit (s : Service) (r : Nat) (he : ∀ origin input, e ≠ .arrived origin input) :
    s.Fades (s.emit r e) := by
  refine .of_ledger rfl rfl fun j origin input => ?_
  by_cases hj : j = r
  · subst hj
    rw [view_emit_same]
    exact ⟨fun hm => (mem_cons.mp hm).resolve_left fun h => he origin input h.symm, mem_cons_of_mem _⟩
  · rw [view_emit_ne _ hj]

lemma fades_retire (s : Service) (op : BulkOp) (r : Nat) (ret : HgReturn) : s.Fades (s.retire op r ret) := by
  have h := fades_emit s r (e := .completed op ret) (by simp)
  exact ⟨h.reqs, h.acks, h.arrivals⟩

lemma arrived_finish (ht : q.Trace b (s.view r).log) (j : Nat) (origin : HgAddr) (input : ExecIn) :
    .arrived origin input ∈ ((nkvxReqFinish s r q).view j).log ↔ .arrived origin input ∈ (s.view j).log := by
  by_cases hj : j = r
  · subst hj
    rw [s.view_finish_same q ht.registered, mem_append]
    refine or_iff_right fun hm => ?_
    rcases Req.mem_finishEffects hm with h | ⟨_, h⟩ | ⟨_, h⟩ | h <;> cases h
  · rw [s.view_finish_ne q hj]

lemma arrived_settles (ht : q.Trace b (s.view r).log) (hs : Settles s r q b s') (j : Nat)
    (origin : HgAddr) (input : ExecIn) :
    .arrived origin input ∈ (s'.view j).log ↔ .arrived origin input ∈ (s.view j).log := by
  cases hs with
  | finishes h =>
    cases h with
    | @failed _ q' status same =>
      exact arrived_finish (q := { q' with out := ⟨nkvxStatusToWire status, 0, none⟩ })
        (ht.same { same with }) j origin input
    | delivered same => exact arrived_finish (ht.same same) ..
  | pushStalled => exact Iff.rfl
  | pushing => exact (fades_emit s r (by simp)).arrivals j origin input
  | pullStalled => exact Iff.rfl
  | pulling => exact (fades_emit s r (by simp)).arrivals j origin input

lemma fades_settles (hh : s.Handling r q b) (hq : s.reqs r = some q₀) (hk : q₀.SameKey q)
    (hs : Settles s r q b s') : s.Fades s' := by
  refine ⟨settles_sameKey hq hk hs, fun hd a hm => ?_, arrived_settles hh.ready.trace hs⟩
  · cases hs with
    | finishes h =>
      obtain ⟨a', ho, hi, -, ha⟩ := h.acks
      rw [ha, mem_append] at hm
      rcases hm with hm | hm
      · obtain ⟨hd', -, he⟩ := mem_map.mp hm
        cases he
        exact .inr ⟨r, q₀, hq, hk.origin.trans ho.symm, hk.callId.trans hi.symm, h.reqs⟩
      · exact .inl hm
    | pushStalled => exact .inl hm
    | pushing => exact .inl hm
    | pullStalled => exact .inl hm
    | pulling => exact .inl hm

lemma fades_start (hh : s.Handling r q false) (hq : s.reqs r = some q) (o : ServeOutcome) :
    s.Fades (s.start r q o) := by
  rcases start_settles s r q o with hs | hs
  · exact fades_settles hh hq ⟨rfl, rfl, rfl⟩ hs
  · exact (fades_emit s r (by simp)).trans (fades_settles (hh.ran o.res) hq ⟨rfl, rfl, rfl⟩ hs)

lemma Inv.fades_bulkDone (h : s.Inv) (hm : (op, r) ∈ s.ops) (ret : HgReturn) (o : ServeOutcome) :
    s.Fades (s.bulkDone op r ret o) := by
  refine (fades_retire s op r ret).trans ?_
  obtain ⟨q₀, q, b, hr, ⟨hh, hs⟩ | ⟨hh, hs⟩, hk⟩ := h.bulkDone_settles hm ret o
  · exact fades_settles hh hr hk hs
  · exact (fades_emit _ r (by simp)).trans (fades_settles hh hr hk hs)

lemma Inv.fades_ticks (h : s.Inv) (hl : (s.view r).Live p q) (hs : Ticks s r p q s') :
    s.Fades s' := by
  have hr : s.reqs r = some q := hl.req
  cases hs with
  | idle => exact .refl s
  | counts n m =>
    refine ⟨fun j q' hj => ?_, fun _ _ hm => .inl hm, fun _ _ _ => Iff.rfl⟩
    change Function.update s.reqs r _ j = some q' at hj
    by_cases hjr : j = r
    · subst hjr
      rw [Function.update_self] at hj
      cases hj
      exact ⟨q, hr, rfl, rfl, rfl⟩
    rw [Function.update_of_ne hjr] at hj
    exact ⟨q', hj, rfl, rfl, rfl⟩
  | settles hp hs => exact fades_settles (h.unstall hl hp) hr ⟨rfl, rfl, rfl⟩ hs

lemma Inv.fades_tick (h : s.Inv) (o : Nat → ServeOutcome) : s.Fades (nkvxServiceTickStalls s o) :=
  (h.walk (P := s.Fades) (.refl s) (fun _ _ _ _ _ hi hf _ hl hs => hf.trans (hi.fades_ticks hl hs)) o).2

end Service

end RadosNkv
