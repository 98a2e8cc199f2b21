import RadosNkv.Front.Evidence

/-! The end of a channel: progress calls, the drain loop of `kvrados_destroy_channel_cb`, the forced
failure of what is left and the destruction of the front. -/

namespace RadosNkv

open Front

open Ledger List

def Front.owes (s : Front) : Completion → Bool
  | .forward id _ _ => decide (id ∈ s.forwards)
  | .ack id _ => decide (id ∈ s.cancels)
  | .kv id _ _ => decide (id ∈ s.kvForwards)

structure Progress where
  ready : List Completion
  failed : Bool

def triggerAll : Front → List Completion → Front × Nat
  | s, [] => (s, 0)
  | s, c :: cs =>
    let r := triggerAll (fire s c) cs
    (r.1, if s.owes c then r.2 + 1 else r.2)

def nkvxFrontProgress (s : Front) (p : Progress) : Front × Except Errno Nat :=
  let r := triggerAll s p.ready
  (r.1, if p.failed then .error .io else .ok r.2)

def BulkCache.handles (c : BulkCache) : List BulkHandle := c.slots.filterMap BulkEntry.handle

/-- The loop of `nkvx_front_fini` over the cache of bulk handles. -/
def BulkCache.fini (c : BulkCache) : BulkCache :=
  { c with slots := [], bulkFreed := c.handles ++ c.bulkFreed }

def nkvxFrontFini (s : Front) : Front := { s with bulk := s.bulk.fini }

def drainLoop (peer : Nat → Progress) : Nat → Nat → Front → Option (Front × Nat)
  | 0, i, s => if nkvxFrontOutstanding s = 0 then some (s, i) else none
  | fuel + 1, i, s =>
    if nkvxFrontOutstanding s = 0 then some (s, i)
    else
      match nkvxFrontProgress s (peer i) with
      | (s, .error _) => some (s, i + 1)
      | (s, .ok _) => drainLoop peer fuel (i + 1) s

def failResidual (s : Front) : Front :=
  if nkvxFrontOutstanding s = 0 then s else nkvxFrontFailAllPending s .failed

def kvradosDestroyChannelCb (s : Front) (o : Nat → CancelOutcome) (peer : Nat → Progress)
    (fuel : Nat) : Option (Front × Nat) :=
  match drainLoop peer fuel 0 (nkvxFrontCancelAll s o) with
  | none => none
  | some (s, n) => some (nkvxFrontFini (failResidual s), n)

/-- The state before progress call `j` of a drain that begins in `s` and gets that far. -/
def beforeCall (s : Front) (peer : Nat → Progress) : Nat → Front
  | 0 => s
  | j + 1 => (nkvxFrontProgress (beforeCall s peer j) (peer j)).1

/-- The drain makes progress call `j`: no call before it fails, and an Exec call is still in flight
before it and before each earlier one. -/
def DrainCalls (s : Front) (peer : Nat → Progress) (j : Nat) : Prop :=
  (∀ i < j, (peer i).failed = false) ∧ ∀ i ≤ j, (beforeCall s peer i).inflight ≠ []

lemma queue_cancelAll (s : Front) (o : Nat → CancelOutcome) : (nkvxFrontCancelAll s o).queue = s.queue := by
  unfold nkvxFrontCancelAll
  generalize s.inflight = ids
  induction ids generalizing s with
  | nil => rfl
  | cons id ids ih => exact (ih _).trans (queue_beginCancel s id (o id))

def silentPeer : Nat → Progress := fun _ => ⟨[], false⟩

lemma drainLoop_silentPeer (fuel i : Nat) (h : nkvxFrontOutstanding s ≠ 0) :
    drainLoop silentPeer fuel i s = none := by
  induction fuel generalizing i with
  | zero => simp [drainLoop, h]
  | succ fuel ih => simpa [drainLoop, h, nkvxFrontProgress, triggerAll, silentPeer] using ih (i + 1)

/-- The number of progress calls of the drain has a bound that does not depend on the peer exactly
when no Exec call is in flight when the channel is destroyed. -/
theorem drain_bounded_iff_idle (evs : List FrontEvent) (o : Nat → CancelOutcome) :
    (∃ bound, ∀ peer, (kvradosDestroyChannelCb (Front.after evs) o peer bound).isSome) ↔
      (Front.after evs).inflight = [] := by
  have hinv := inv_after evs
  have hout : nkvxFrontOutstanding (nkvxFrontCancelAll (Front.after evs) o) =
      (Front.after evs).inflight.length := by
    rw [← hinv.counted]
    exact congrArg Prod.snd (queue_cancelAll _ o)
  constructor
  · rintro ⟨bound, hall⟩
    by_contra hne
    have hpos : nkvxFrontOutstanding (nkvxFrontCancelAll (Front.after evs) o) ≠ 0 := by
      rw [hout]
      simpa using hne
    have := hall silentPeer
    rw [kvradosDestroyChannelCb, drainLoop_silentPeer bound 0 hpos] at this
    simp at this
  intro hnil
  refine ⟨0, fun peer => ?_⟩
  simp [kvradosDestroyChannelCb, drainLoop, hout, hnil]

/-- One Exec call is in flight and the executor never answers: after any number of progress calls
the drain loop is still running. -/
theorem silent_peer_never_drains :
    (Front.after [sampleForward]).inflight = [1] ∧
      ∀ fuel, kvradosDestroyChannelCb (Front.after [sampleForward]) (fun _ => ⟨true, true⟩)
        silentPeer fuel = none := by
  have hout : nkvxFrontOutstanding
      (nkvxFrontCancelAll (Front.after [sampleForward]) fun _ => ⟨true, true⟩) = 1 := by decide
  refine ⟨by decide, fun fuel => ?_⟩
  rw [kvradosDestroyChannelCb, drainLoop_silentPeer fuel 0 (by rw [hout]; simp)]

def KvEffect.isDone : KvEffect → Bool
  | .done _ _ _ => true
  | _ => false

def Front.kvCallLog (s : Front) (k : Nat) : List KvEffect := about s.kvLog k

/-- Every accepted call has had its callback, once. -/
structure Front.NoneLost (s : Front) : Prop where
  exec : ∀ id, accepted (s.callLog id) → tenantCalls (s.callLog id) = 1
  kv : ∀ k wire, .sent wire ∈ s.kvCallLog k → (s.kvCallLog k).countP KvEffect.isDone = 1

namespace Front

variable {s s' : Front}

section

variable (h : Inv s)
include h

lemma Inv.fire (c : Completion) : Inv (RadosNkv.fire s c) := by
  cases c with
  | forward => exact h.fire_forward ..
  | ack id ret => exact h.fire_ack ret
  | kv => exact h.fire_kv ..

lemma Inv.mem_kvForwards_fire (c : Completion) (k : Nat) : k ∈ (RadosNkv.fire s c).kvForwards ↔
      k ∈ s.kvForwards ∧ ∀ ret output, c ≠ .kv k ret output := by
  cases c with
  | forward id ret output =>
    have : (RadosNkv.fire s (.forward id ret output)).kvForwards = s.kvForwards := by
      by_cases hm : id ∈ s.forwards
      · obtain ⟨c, hc, -⟩ := h.live (.inl hm)
        exact congrArg Rest.kvForwards (acts_fire_forward hc hm ret output).rest
      · simp [RadosNkv.fire, hm]
    simp [this]
  | ack id ret =>
    have : (RadosNkv.fire s (.ack id ret)).kvForwards = s.kvForwards := by
      by_cases hm : id ∈ s.cancels
      · obtain ⟨c, hc, -⟩ := h.live (.inr (.inl hm))
        exact congrArg Rest.kvForwards (acts_fire_ack hc hm ret).rest
      · simp [RadosNkv.fire, hm]
    simp [this]
  | kv j ret output =>
    by_cases hm : j ∈ s.kvForwards
    · obtain ⟨c, wire, hw⟩ := h.kvPending hm
      have hl : s.kvCalls j = some c := congrArg KvView.call hw
      have ho : s.kvForwards.count j = 1 := congrArg KvView.forwards hw
      have he : (RadosNkv.fire s (.kv j ret output)).kvForwards = s.kvForwards.erase j := by
        simp [RadosNkv.fire, hm, nkvxKvForwardCb, hl]
      rw [he]
      by_cases hk : k = j
      · subst hk
        have : k ∉ s.kvForwards.erase k := by
          rw [← count_eq_zero, count_erase_self, ho]
        simp [this]
      · simp [mem_erase_of_ne hk, Ne.symm hk]
    by_cases hk : k = j
    · subst hk
      simp [RadosNkv.fire, hm]
    · simp [RadosNkv.fire, hm, Ne.symm hk]

lemma Inv.triggerAll (cs : List Completion) :
    Inv (triggerAll s cs).1 ∧ ∀ k, k ∈ (RadosNkv.triggerAll s cs).1.kvForwards ↔
      k ∈ s.kvForwards ∧ ∀ ret output, .kv k ret output ∉ cs := by
  induction cs generalizing s with
  | nil => exact ⟨h, fun k => by simp [RadosNkv.triggerAll]⟩
  | cons c cs ih =>
    obtain ⟨hi, hm⟩ := ih (h.fire c)
    refine ⟨hi, fun k => ?_⟩
    simp only [RadosNkv.triggerAll]
    rw [hm k, h.mem_kvForwards_fire c k]
    simp only [mem_cons, not_or, and_assoc, ← forall_and, ne_comm]

lemma Inv.exec_noneLost (hn : s.inflight = []) (id : Nat)
    (ha : accepted (s.callLog id)) : tenantCalls (s.callLog id) = 1 := by
  have hs : (s.view id).listed = 0 := by simp [view, hn]
  have ho := h.views id
  have hlo : s.callLog id = (s.view id).log := rfl
  rw [hlo] at ha ⊢
  generalize s.view id = v at ho hs ha
  cases ho with
  | unborn => simp [CallView.unborn, accepted] at ha
  | @live c _ hl _ =>
    have hd : c.tenantDone := by
      by_contra hno
      have := hl.listed
      simp_all
    simpa [hd] using hl.tenant
  | gone hg => simpa [ha] using hg.tenant

lemma Inv.kv_noneLost_iff :
    (∀ k wire, .sent wire ∈ s.kvCallLog k → (s.kvCallLog k).countP KvEffect.isDone = 1) ↔ ∀ k, k ∉ s.kvForwards := by
  have hl : ∀ k, s.kvCallLog k = (s.rest.kvView k).log := fun _ => rfl
  constructor
  · intro ha k hm
    obtain ⟨c, wire, hw⟩ := h.kvPending hm
    have := ha k wire (by rw [hl, hw]; simp)
    rw [hl, hw] at this
    simp [KvEffect.isDone] at this
  intro hn k wire hs
  have hz : (s.rest.kvView k).forwards = 0 := count_eq_zero.mpr (hn k)
  have ho := h.kvViews k
  rw [hl] at hs ⊢
  generalize s.rest.kvView k = v at ho hs hz
  cases ho <;> simp_all [KvEffect.isDone, countP_cons]

end

/-- A drain from call `i` on ends in `s'`, and the base-verb calls pending there are those that were
not ready in a call it made. -/
def DrainLeaves (s₀ : Front) (peer : Nat → Progress) (i : Nat) (s' : Front) : Prop :=
  Inv s' ∧ ∀ k, k ∈ s'.kvForwards ↔ k ∈ (beforeCall s₀ peer i).kvForwards ∧
    ∀ j, i ≤ j → DrainCalls s₀ peer j → ∀ ret output, .kv k ret output ∉ (peer j).ready

variable {peer : Nat → Progress}

lemma Inv.idle (h : Inv (beforeCall s₀ peer i))
    (hz : nkvxFrontOutstanding (beforeCall s₀ peer i) = 0)
    (he : some (beforeCall s₀ peer i, i) = some (s', n)) : DrainLeaves s₀ peer i s' := by
  obtain ⟨rfl, rfl⟩ := Prod.mk.inj (Option.some.inj he)
  have hn := length_eq_zero_iff.mp (h.counted.symm.trans hz)
  exact ⟨h, fun k => ⟨fun hk => ⟨hk, fun j hj hc => absurd hn (hc.2 i hj)⟩, And.left⟩⟩

lemma Inv.drainLoop (h : Inv (beforeCall s₀ peer i))
    (hm : ∀ j < i, (peer j).failed = false ∧ (beforeCall s₀ peer j).inflight ≠ [])
    (hd : drainLoop peer fuel i (beforeCall s₀ peer i) = some (s', n)) :
    DrainLeaves s₀ peer i s' := by
  induction fuel generalizing i with
  | zero =>
    simp only [RadosNkv.drainLoop] at hd
    split_ifs at hd with hz
    exact h.idle hz hd
  | succ fuel ih =>
    simp only [RadosNkv.drainLoop] at hd
    split_ifs at hd with hz
    · exact h.idle hz hd
    have hb : (beforeCall s₀ peer i).inflight ≠ [] :=
      fun hn => hz (h.counted.trans (by rw [hn]; rfl))
    have hc : DrainCalls s₀ peer i :=
      ⟨fun j hj => (hm j hj).1, fun j hj => hj.lt_or_eq.elim (fun hj => (hm j hj).2) (· ▸ hb)⟩
    -- call `i` completes what is ready in it, the later ones the rest
    obtain ⟨hn, hk⟩ := h.triggerAll (peer i).ready
    have rest : DrainLeaves s₀ peer (i + 1) s' := by
      cases hf : (peer i).failed <;> simp only [nkvxFrontProgress, hf] at hd
      · refine ih hn (fun j hj => ?_) hd
        rcases Nat.lt_succ_iff_lt_or_eq.mp hj with hj | rfl
        · exact hm j hj
        · exact ⟨hf, hb⟩
      obtain ⟨rfl, -⟩ := Prod.mk.inj (Option.some.inj hd)
      refine ⟨hn, fun k => ⟨fun hk => ⟨hk, fun j hj hc => ?_⟩, And.left⟩⟩
      rw [hc.1 i hj] at hf
      cases hf
    refine ⟨rest.1, fun k => (rest.2 k).trans (((and_congr_left' (hk k)).trans and_assoc).trans ?_)⟩
    refine and_congr_right fun _ => ⟨fun ⟨hi, hl⟩ j hj hcall => ?_, fun ha => ⟨ha i le_rfl hc, ?_⟩⟩
    · rcases hj.lt_or_eq with hj | rfl
      · exact hl j hj hcall
      · exact hi
    · exact fun j hj hcall => ha j (by omega) hcall

end Front

lemma kvForwards_failAll (s : Front) (status : IoStatus) :
    (nkvxFrontFailAllPending s status).kvForwards = s.kvForwards := by
  unfold nkvxFrontFailAllPending
  generalize s.inflight = ids
  induction ids generalizing s with
  | nil => rfl
  | cons id ids ih =>
    refine (ih _).trans ?_
    cases hc : s.calls id with
    | none => simp [failPending, hc, useAfterFree]
    | some c => exact congrArg Front.Rest.kvForwards (acts_failPending hc status).rest

lemma kvForwards_cancelAll (s : Front) (o : Nat → CancelOutcome) :
    (nkvxFrontCancelAll s o).kvForwards = s.kvForwards := by
  unfold nkvxFrontCancelAll
  generalize s.inflight = ids
  induction ids generalizing s with
  | nil => rfl
  | cons id ids ih =>
    refine (ih _).trans ?_
    cases hc : s.calls id with
    | none => simp [nkvxCallBeginCancel, hc, useAfterFree]
    | some c => exact congrArg Front.Rest.kvForwards (acts_beginCancel hc (o id)).rest

lemma noneLost_fini (s : Front) : (nkvxFrontFini s).NoneLost ↔ s.NoneLost :=
  ⟨fun h => ⟨h.exec, h.kv⟩, fun h => ⟨h.exec, h.kv⟩⟩

lemma Front.Inv.failResidual {s : Front} (h : s.Inv) : (failResidual s).Inv ∧ (RadosNkv.failResidual s).inflight = [] ∧
      (RadosNkv.failResidual s).kvForwards = s.kvForwards := by
  unfold RadosNkv.failResidual
  split
  · rename_i hz
    have hl : s.inflight.length = 0 := h.counted.symm.trans hz
    exact ⟨h, length_eq_zero_iff.mp hl, rfl⟩
  obtain ⟨hf, he⟩ := h.failAll .failed
  exact ⟨hf, he, kvForwards_failAll s .failed⟩

/-- When a channel has been destroyed, no command that was accepted on it is lost exactly when every
base-verb call that was pending at its destruction is ready in a progress call that is made while an
Exec call is still in flight. -/
theorem destroy_noneLost_iff (evs : List FrontEvent) (o : Nat → CancelOutcome)
    (peer : Nat → Progress) (fuel n : Nat) (s' : Front)
    (hdestroy : kvradosDestroyChannelCb (Front.after evs) o peer fuel = some (s', n)) :
    s'.NoneLost ↔ ∀ k ∈ (Front.after evs).kvForwards,
      ∃ j, DrainCalls (nkvxFrontCancelAll (Front.after evs) o) peer j ∧
        ∃ ret output, .kv k ret output ∈ (peer j).ready := by
  have hinv := (inv_after evs).cancelAll o
  simp only [kvradosDestroyChannelCb] at hdestroy
  split at hdestroy
  · cases hdestroy
  rename_i s₂ n' hdrain
  obtain ⟨rfl, rfl⟩ := Prod.mk.inj (Option.some.inj hdestroy)
  obtain ⟨hinv₂, hkv⟩ : DrainLeaves (nkvxFrontCancelAll (Front.after evs) o) peer 0 s₂ :=
    Front.Inv.drainLoop (i := 0) hinv (fun j hj => absurd hj (Nat.not_lt_zero j)) hdrain
  obtain ⟨hinv₃, hnil, hkv₃⟩ := hinv₂.failResidual
  rw [noneLost_fini]
  -- the Exec calls are all settled by now, so only base-verb calls can be lost
  have hiff : (failResidual s₂).NoneLost ↔ ∀ k, k ∉ s₂.kvForwards := by
    rw [← hkv₃, ← hinv₃.kv_noneLost_iff]
    exact ⟨Front.NoneLost.kv, fun h => ⟨hinv₃.exec_noneLost hnil, h⟩⟩
  rw [hiff]
  refine forall_congr' fun k => ?_
  rw [hkv k, beforeCall, kvForwards_cancelAll]
  constructor
  · intro hnot hmem
    by_contra hno
    exact hnot ⟨hmem, fun j _ hcall ret output hin => hno ⟨j, hcall, ret, output, hin⟩⟩
  rintro hall ⟨hmem, hnone⟩
  obtain ⟨j, hcall, ret, output, hin⟩ := hall hmem
  exact hnone j (Nat.zero_le j) hcall ret output hin

def sampleRetrieveIn : KvIn :=
  { verb := .retrieve, readOnly := true, clientCallId := 0, key := [107], osize := 512,
    storeFlags := 0, valueLen := 0, valueInline := none, valueBulk := none, resultSink := none }

def sampleRetrieve : FrontEvent :=
  .kvForward sampleRetrieveIn (some 4096) 512 ⟨true, true, true, true, true⟩

/-- A channel with one pending Retrieve is destroyed without a progress call, whatever the peer
does, and the done callback of the Retrieve never fires. -/
theorem pending_retrieve_lost :
    ∃ s', (∀ peer, kvradosDestroyChannelCb (Front.after [sampleRetrieve]) (fun _ => ⟨true, true⟩)
        peer 0 = some (s', 0)) ∧
      .sent sampleRetrieveIn ∈ s'.kvCallLog 0 ∧ (s'.kvCallLog 0).countP KvEffect.isDone = 0 ∧
      ¬s'.NoneLost := by
  refine ⟨_, fun peer => rfl, ?_⟩
  have hlog : (nkvxFrontFini (failResidual (nkvxFrontCancelAll (Front.after [sampleRetrieve])
      fun _ => ⟨true, true⟩))).kvCallLog 0 = [.sent sampleRetrieveIn] := by decide
  refine ⟨by rw [hlog]; simp, by rw [hlog]; rfl, fun h => ?_⟩
  have hdn := h.kv 0 sampleRetrieveIn (by rw [hlog]; simp)
  rw [hlog] at hdn
  cases hdn

def promptPeer : Nat → Progress := fun _ =>
  ⟨[.kv 0 .success (some ⟨0, 3, some [1, 2, 3]⟩), .forward 1 .canceled none, .ack 1 .success], false⟩

theorem promptPeer_noneLost :
    ∃ s', kvradosDestroyChannelCb (Front.after [sampleForward, sampleRetrieve])
        (fun _ => ⟨true, true⟩) promptPeer 1 = some (s', 1) ∧ s'.NoneLost := by
  refine ⟨_, rfl, (destroy_noneLost_iff [sampleForward, sampleRetrieve] (fun _ => ⟨true, true⟩)
    promptPeer 1 1 _ rfl).mpr fun k hk => ?_⟩
  have hk : k = 0 := by
    have : (Front.after [sampleForward, sampleRetrieve]).kvForwards = [0] := by decide
    simpa [this] using hk
  refine ⟨0, ⟨fun i hi => absurd hi (Nat.not_lt_zero i), fun i hi => ?_⟩, .success,
    some ⟨0, 3, some [1, 2, 3]⟩, by simp [promptPeer, hk]⟩
  rw [Nat.le_zero.mp hi]
  decide

end RadosNkv
