import Mathlib.Data.List.Count
import RadosNkv.Service.Request

/-! The life of one executor request: the operations of the service act on one request and leave the
others alone, and the ways in which its handling can end. -/

namespace RadosNkv

open Ledger List

@[ext] structure ReqView where
  req : Option Req
  pulls : Nat
  pushes : Nat
  listed : Nat
  log : List ReqEffect

def Service.view (s : Service) (r : Nat) : ReqView :=
  { req := s.reqs r
    pulls := s.ops.count (.pull, r)
    pushes := s.ops.count (.push, r)
    listed := s.inflight.count r
    log := about s.log r }

def Req.finishEffects (q : Req) (inFlight : Bool) : List ReqEffect :=
  .freed :: (q.cancelHandle.toList.map (.acked · inFlight) ++ q.localInput.toList.map .bulkFreed ++
    q.localResult.toList.map .bulkFreed ++ [.responded q.out inFlight])

namespace Service

variable (s : Service) {r j : Nat} (q : Req)

lemma view_emit_same (e : ReqEffect) : (s.emit r e).view r = { s.view r with log := e :: (s.view r).log } := by
  simp [view, emit]

lemma view_emit_ne (hj : j ≠ r) (e : ReqEffect) : (s.emit r e).view j = s.view j := by
  simp [view, emit, about_cons_ne (Ne.symm hj)]

lemma view_put_same : (s.put r q).view r = { s.view r with req := some q } := by
  simp [view, put]

lemma view_put_ne (hj : j ≠ r) : (s.put r q).view j = s.view j := by
  simp [view, put, hj]

lemma view_pull_same : (s.transfer r .pull q).view r =
      { s.view r with
        req := some q, pulls := (s.view r).pulls + 1,
        log := .submitted .pull :: (s.view r).log } := by
  simp [view, transfer, put, emit]

lemma view_push_same : (s.transfer r .push q).view r =
      { s.view r with
        req := some q, pushes := (s.view r).pushes + 1,
        log := .submitted .push :: (s.view r).log } := by
  simp [view, transfer, put, emit]

section

variable (hj : j ≠ r)
include hj

lemma view_transfer_ne (op : BulkOp) : (s.transfer r op q).view j = s.view j := by
  simp [view, transfer, put, emit, hj, Ne.symm hj, about_cons_ne (Ne.symm hj)]

lemma view_bulkFree_ne (h : Option BulkHandle) : (s.bulkFree r h).view j = s.view j := by
  cases h with
  | none => rfl
  | some h => exact view_emit_ne s hj _

lemma view_ackStashed_ne : (s.ackStashed r q).view j = s.view j := by
  unfold ackStashed
  cases q.cancelHandle with
  | none => rfl
  | some h => exact view_emit_ne s hj _

lemma view_free_ne : (s.free r).view j = s.view j := by
  simp [view, free, emit, hj, about_cons_ne (Ne.symm hj)]

lemma view_regRemove_ne : (nkvxRegRemove s r q).view j = s.view j := by
  unfold nkvxRegRemove
  split
  · simp [view, count_erase_of_ne hj]
  · rfl

lemma view_finish_ne : (nkvxReqFinish s r q).view j = s.view j := by
  unfold nkvxReqFinish
  rw [view_free_ne _ hj, view_ackStashed_ne _ _ hj, view_bulkFree_ne _ hj, view_bulkFree_ne _ hj,
    view_emit_ne _ hj, view_regRemove_ne _ _ hj]

end

lemma view_bulkFree_same (h : Option BulkHandle) : (s.bulkFree r h).view r =
      { s.view r with log := h.toList.map .bulkFreed ++ (s.view r).log } := by
  cases h with
  | none => rfl
  | some h => exact view_emit_same s _

lemma view_ackStashed_same : (s.ackStashed r q).view r =
      { s.view r with
        log := q.cancelHandle.toList.map (.acked · (s.inFlight r)) ++ (s.view r).log } := by
  unfold ackStashed
  cases q.cancelHandle with
  | none => rfl
  | some h => exact view_emit_same s _

lemma view_free_same : (s.free r).view r = { s.view r with req := none, log := .freed :: (s.view r).log } := by
  simp [view, free, emit]

lemma view_regRemove_same (hq : q.registered = true) :
    (nkvxRegRemove s r q).view r = { s.view r with listed := (s.view r).listed - 1 } := by
  simp [nkvxRegRemove, hq, view, count_erase_self]

@[simp] lemma inFlight_emit (e : ReqEffect) : (s.emit j e).inFlight r = s.inFlight r := rfl

@[simp] lemma inFlight_bulkFree (h : Option BulkHandle) : (s.bulkFree j h).inFlight r = s.inFlight r := by
  cases h <;> rfl

@[simp] lemma inFlight_regRemove : (nkvxRegRemove s j q).inFlight r = s.inFlight r := by
  unfold nkvxRegRemove
  split <;> rfl

lemma view_finish_same (hq : q.registered = true) : (nkvxReqFinish s r q).view r =
      { s.view r with
        req := none, listed := (s.view r).listed - 1,
        log := q.finishEffects (s.inFlight r) ++ (s.view r).log } := by
  unfold nkvxReqFinish
  rw [view_free_same, view_ackStashed_same, view_bulkFree_same, view_bulkFree_same, view_emit_same,
    view_regRemove_same _ _ hq]
  simp [Req.finishEffects]

lemma inFlight_eq_false (hl : (s.view r).pulls = 0) (hp : (s.view r).pushes = 0) : s.inFlight r = false := by
  have hl : (BulkOp.pull, r) ∉ s.ops := count_eq_zero.mp hl
  have hp : (BulkOp.push, r) ∉ s.ops := count_eq_zero.mp hp
  simp only [inFlight, any_eq_false, beq_iff_eq, Prod.forall]
  rintro op r' hm rfl
  cases op with
  | pull => exact hl hm
  | push => exact hp hm

end Service

structure Req.Same (q' q : Req) : Prop where
  origin : q'.origin = q.origin
  input : q'.input = q.input
  res : q'.res = q.res
  callId : q'.callId = q.callId
  registered : q'.registered = q.registered
  doNotPush : q'.doNotPush = q.doNotPush
  cancelHandle : q'.cancelHandle = q.cancelHandle
  pushPending : q'.pushPending = q.pushPending
  pullPending : q'.pullPending = q.pullPending

def reports (wire : Int) : Prop :=
  wire = nkvxStatusToWire .success ∨ wire = nkvxStatusToWire .bufferTooSmall

instance (wire : Int) : Decidable (reports wire) := inferInstanceAs (Decidable (_ ∨ _))

/-- The ways in which `nkvx_req_finish` ends a request that waits for nothing: with a status that
reports no result, or with the module's result. -/
inductive Finishes (s : Service) (r : Nat) (q : Req) : (ran : Bool) → Service → Prop
  | failed {b : Bool} {q' : Req} {status : IoStatus} (same : q'.Same q)
      (hne : ¬ reports (nkvxStatusToWire status)) : Finishes s r q b (nkvxReqFail s r q' status)
  | delivered {q' : Req} (same : q'.Same q)
      (hr : routed q.input q.res → .completed .push .success ∈ (s.view r).log) :
      Finishes s r q true (nkvxReqFinish s r q')

/-- The ways in which the handling of a request that waits for nothing can end. -/
inductive Settles (s : Service) (r : Nat) (q : Req) : (ran : Bool) → Service → Prop
  | finishes {b : Bool} {s' : Service} (h : Finishes s r q b s') : Settles s r q b s'
  | pushStalled (hr : routed q.input q.res) (hd : q.doNotPush = false) :
      Settles s r q true (s.put r { q with pushPending := true })
  | pushing {q' : Req} (same : q'.Same q) (hr : routed q.input q.res) (hd : q.doNotPush = false)
      (hf : q'.pushInFlight = true) : Settles s r q true (s.transfer r .push q')
  | pullStalled : Settles s r q false (s.put r { q with pullPending := true })
  | pulling {q' : Req} (same : q'.Same q) (hd : q.doNotPush = false) (hf : q'.pushInFlight = true) :
      Settles s r q false (s.transfer r .pull q')

variable {s : Service} {r : Nat} {q : Req}

lemma Settles.failed {q' : Req} (same : q'.Same q) (hn : ¬ reports (nkvxStatusToWire status)) :
    Settles s r q b (nkvxReqFail s r q' status) :=
  .finishes (.failed same hn)

lemma Settles.fail (status : IoStatus) (hn : ¬ reports (nkvxStatusToWire status)) :
    Settles s r q b (nkvxReqFail s r q status) :=
  .failed ⟨rfl, rfl, rfl, rfl, rfl, rfl, rfl, rfl, rfl⟩ hn

section

variable (s : Service)

variable (r : Nat)

lemma submitResultPush_settles (o : ServeOutcome) (hr : routed q.input q.res) :
    Settles s r q true (nkvxSubmitResultPush s r q o) := by
  unfold nkvxSubmitResultPush
  split
  · exact .fail .aborted (by decide)
  rename_i hd
  cases o.bulk with
  | none => exact .fail .failed (by decide)
  | some h =>
    dsimp only
    split
    · exact .pushing (by constructor <;> rfl) hr (by simpa using hd) rfl
    · exact .failed (by constructor <;> rfl) (by decide)

lemma submitInputPull_settles (q : Req) (o : ServeOutcome) :
    Settles s r q false (nkvxSubmitInputPull s r q o) := by
  unfold nkvxSubmitInputPull
  split
  · exact .fail .aborted (by decide)
  rename_i hd
  cases o.inputBuf with
  | none => exact .fail .nomem (by decide)
  | some p =>
    cases o.bulk with
    | none => exact .failed (by constructor <;> rfl) (by decide)
    | some h =>
      dsimp only
      split
      · exact .pulling (by constructor <;> rfl) (by simpa using hd) rfl
      · exact .failed (by constructor <;> rfl) (by decide)

lemma runAndDeliver_settles (q : Req) (o : ServeOutcome) :
    Settles (s.emit r (.ran o.res)) r { q with res := o.res } true (nkvxReqRunAndDeliver s r q o) := by
  unfold nkvxReqRunAndDeliver
  dsimp only
  split
  · rename_i hr
    split
    · exact .fail .aborted (by decide)
    rename_i hd
    split
    · exact .pushStalled hr (by simpa using hd)
    · exact submitResultPush_settles _ _ _ hr
  rename_i hr
  split
  · exact .finishes (.delivered (by constructor <;> rfl) fun h => absurd h hr)
  · exact .finishes (.delivered (by constructor <;> rfl) fun h => absurd h hr)

lemma start_cases (q : Req) (o : ServeOutcome) :
    Settles s r q false (s.start r q o) ∨ s.start r q o = nkvxReqRunAndDeliver s r q o := by
  unfold Service.start
  split
  · exact .inl (.fail .notSupported (by decide))
  split
  · split
    · exact .inl .pullStalled
    · exact .inl (submitInputPull_settles s r q o)
  · exact .inr rfl

lemma start_settles (q : Req) (o : ServeOutcome) : Settles s r q false (s.start r q o) ∨
      Settles (s.emit r (.ran o.res)) r { q with res := o.res } true (s.start r q o) := by
  rcases start_cases s r q o with hs | hr
  · exact .inl hs
  rw [hr]
  exact .inr (runAndDeliver_settles s r q o)

end

def Req.pulled (q : Req) : Req :=
  { q with pushInFlight := false, input := { q.input with inputInline := q.inputBuf } }

lemma pulledCb_cases (hq : s.reqs r = some q) (ret : HgReturn) (o : ServeOutcome) :
    Finishes s r { q with pushInFlight := false } false (nkvxInputPulledCb s r ret o) ∨
      ret = .success ∧ nkvxInputPulledCb s r ret o = nkvxReqRunAndDeliver s r q.pulled o := by
  unfold nkvxInputPulledCb
  rw [hq]
  dsimp only
  split
  · exact .inl (.failed (by constructor <;> rfl) (by decide))
  split
  · exact .inl (.failed (by constructor <;> rfl) (by decide))
  rename_i hr
  exact .inr ⟨by simpa using hr, rfl⟩

lemma pulledCb_settles (hq : s.reqs r = some q) (ret : HgReturn) (o : ServeOutcome) :
    Finishes s r { q with pushInFlight := false } false (nkvxInputPulledCb s r ret o) ∨
      ret = .success ∧ Settles (s.emit r (.ran o.res)) r { q.pulled with res := o.res } true
        (nkvxInputPulledCb s r ret o) := by
  rcases pulledCb_cases hq ret o with hs | ⟨hr, hu⟩
  · exact .inl hs
  rw [hu]
  exact .inr ⟨hr, runAndDeliver_settles s r q.pulled o⟩

lemma pushedCb_finishes (hq : s.reqs r = some q) (hl : .completed .push ret ∈ (s.view r).log) :
    Finishes s r { q with pushInFlight := false } true (nkvxResultPushedCb s r ret) := by
  unfold nkvxResultPushedCb
  rw [hq]
  dsimp only
  split
  · exact .failed (by constructor <;> rfl) (by decide)
  split
  · exact .failed (by constructor <;> rfl) (by decide)
  rename_i hr
  have hr : ret = .success := by simpa using hr
  exact .delivered (by constructor <;> rfl) fun _ => hr ▸ hl

lemma Settles.view_ne (h : Settles s r q b s') (hj : j ≠ r) : s'.view j = s.view j := by
  cases h with
  | finishes h =>
    cases h with
    | failed => exact s.view_finish_ne _ hj
    | delivered => exact s.view_finish_ne _ hj
  | pushStalled => exact s.view_put_ne _ hj
  | pushing => exact s.view_transfer_ne _ hj _
  | pullStalled => exact s.view_put_ne _ hj
  | pulling => exact s.view_transfer_ne _ hj _

lemma Service.hasKey_iff : s.hasKey origin callId r = true ↔
      ∃ q, s.reqs r = some q ∧ q.origin = origin ∧ q.callId = callId := by
  unfold Service.hasKey Req.hasKey
  cases s.reqs r with
  | none => simp
  | some q => simp [and_comm]

lemma regLookup_some (h : nkvxRegLookup s origin callId = some r) :
    r ∈ s.inflight ∧ ∃ q, s.reqs r = some q ∧ q.origin = origin ∧ q.callId = callId :=
  ⟨mem_of_find?_eq_some h, Service.hasKey_iff.mp (find?_some h)⟩

/-- What a decoded cancel of `(origin, callId)` can do: it is acked at once when the registry has no
such request or the first one has a cancel already, and is stashed on that request otherwise. -/
inductive Cancels (s : Service) (origin : HgAddr) (callId : Nat) : Service → Prop
  | unknown (hr : nkvxRegLookup s origin callId = none) :
      Cancels s origin callId ({ s with nextHandle := s.nextHandle + 1 }.respondCancel s.nextHandle
        origin callId .alreadyDone)
  | duplicate {r : Nat} {q : Req} (hr : nkvxRegLookup s origin callId = some r)
      (hq : s.reqs r = some q) (hc : q.cancelHandle ≠ none) :
      Cancels s origin callId ({ s with nextHandle := s.nextHandle + 1 }.respondCancel s.nextHandle
        origin callId .alreadyDone)
  | stashed {r : Nat} {q : Req} {d : Bool} (hr : nkvxRegLookup s origin callId = some r)
      (hq : s.reqs r = some q) (hc : q.cancelHandle = none)
      (hd : d = true ∨ q.pushInFlight = true ∧ d = q.doNotPush) :
      Cancels s origin callId (({ s with nextHandle := s.nextHandle + 1 }.emit r
        (.cancelStashed s.nextHandle)).put r
          { q with cancelHandle := some s.nextHandle, doNotPush := d })

lemma reqs_update_back (hq : reqs r = some q) (h : Function.update reqs r (some q') i = some qi)
    (ho : q'.origin = q.origin) (hd : q'.callId = q.callId) :
    ∃ qi', reqs i = some qi' ∧ qi.origin = qi'.origin ∧ qi.callId = qi'.callId ∧ (i ≠ r → qi = qi') := by
  by_cases hi : i = r
  · subst hi
    rw [Function.update_self] at h
    cases h
    exact ⟨q, hq, ho, hd, fun hn => absurd rfl hn⟩
  rw [Function.update_of_ne hi] at h
  exact ⟨qi, h, rfl, rfl, fun _ => rfl⟩

lemma cancelHandler_cancels (s : Service) (origin : HgAddr) (callId : Nat) (ret : HgReturn) :
    Cancels s origin callId (nkvxCancelHandler s origin (some callId) ret) := by
  unfold nkvxCancelHandler
  dsimp only
  -- the lookup does not depend on the fresh handle
  have hl : nkvxRegLookup { s with nextHandle := s.nextHandle + 1 } origin callId = nkvxRegLookup s origin callId :=
    rfl
  rw [hl]
  cases hr : nkvxRegLookup s origin callId with
  | none => exact .unknown hr
  | some r =>
    obtain ⟨-, q, hq, -⟩ := regLookup_some hr
    dsimp only
    rw [hq]
    dsimp only
    split
    · rename_i hc
      exact .duplicate hr hq hc
    rename_i hc
    have hc : q.cancelHandle = none := by simpa using hc
    split
    · rename_i hf
      split
      · exact .stashed hr hq hc (.inl rfl)
      · exact .stashed hr hq hc (.inr ⟨hf, rfl⟩)
    · exact .stashed hr hq hc (.inl rfl)

end RadosNkv
