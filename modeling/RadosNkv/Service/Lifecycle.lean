import RadosNkv.Service.Invariant

/-! The lifecycle of the executor's Exec requests, read off the invariant. -/

namespace RadosNkv

open Ledger List ReqView

def Service.reqLog (s : Service) (r : Nat) : List ReqEffect := about s.log r

def Service.Decoded (s : Service) (r : Nat) : Prop :=
  ∃ origin input, .arrived origin input ∈ s.reqLog r

/-- The lifecycle of the requests of a service. -/
structure Service.Lifecycle (s : Service) : Prop where
  /-- A freed request was responded to once and freed once. -/
  once : ∀ r, .freed ∈ s.reqLog r →
    responses (s.reqLog r) = 1 ∧ (s.reqLog r).count .freed = 1
  /-- No response and no ack of `nkvx_req_finish` was sent while a bulk operation was in flight. -/
  quiet : ∀ r, ∀ e ∈ s.reqLog r, e.Quiet
  /-- A result routed to its sink is reported only after its PUSH completed successfully. -/
  pushedFirst : ∀ r, Justified sinkLaw (s.reqLog r)
  /-- A cancel changes no request but those with its own key. -/
  ownCancels : ∀ origin callId ret r, s.hasKey origin callId r = false →
    (s.step (.cancel origin (some callId) ret)).view r = s.view r
  /-- A stashed cancel handle is answered once, when its request is finished. -/
  answeredOnce : ∀ r h, .cancelStashed h ∈ s.reqLog r →
    (about s.acks h).length = if .freed ∈ s.reqLog r then 1 else 0
  /-- The registry holds the decoded requests that are not finished, each once. -/
  registry : s.inflight.Nodup ∧ ∀ r, r ∈ s.inflight ↔ s.Decoded r ∧ .freed ∉ s.reqLog r
  /-- A registered request has one bulk callback or one stall pending. -/
  waits : ∀ r ∈ s.inflight, ∃ q, s.reqs r = some q ∧
    s.ops.count (.pull, r) + s.ops.count (.push, r) + q.pullPending.toNat + q.pushPending.toNat = 1
  /-- No freed request is followed. -/
  noFault : s.fault = false

namespace Service.Inv

variable {s : Service}

lemma not_freed {p : Phase} {q : Req} (hl : (s.view r).Live p q) : .freed ∉ s.reqLog r :=
  count_eq_zero.mp hl.trace.count_freed

lemma freed (hg : (s.view r).Gone) : .freed ∈ s.reqLog r :=
  count_pos_iff.mp (Nat.lt_of_lt_of_eq Nat.one_pos hg.log.freed.symm)

lemma reqLog_cases (h : s.Inv) {P : List ReqEffect → Prop} (hn : P [])
    (hv : ∀ p q, (s.view r).Live p q → P (s.reqLog r)) (hgn : (s.view r).Gone → P (s.reqLog r)) : P (s.reqLog r) := by
  by_cases ht : r < s.nextReq
  · cases h.views r ht with
    | live p q hl => exact hv p q hl
    | gone hg => exact hgn hg
  have ho : s.reqLog r = [] := congrArg ReqView.log (h.notArrived r (by omega))
  rw [ho]
  exact hn

lemma ownCancels (s : Service) (origin : HgAddr) (callId : Nat) (ret : HgReturn)
    (hk : s.hasKey origin callId r = false) : (s.step (.cancel origin (some callId) ret)).view r = s.view r := by
  have hcn := cancelHandler_cancels s origin callId ret
  change (nkvxCancelHandler s origin (some callId) ret).view r = s.view r
  generalize nkvxCancelHandler s origin (some callId) ret = s' at hcn
  cases hcn with
  | unknown => rfl
  | duplicate => rfl
  | @stashed r' q d hr hq hc hd =>
    have hn : r ≠ r' := by
      rintro rfl
      rw [find?_some hr] at hk
      cases hk
    rw [Service.view_put_ne _ _ hn, Service.view_emit_ne _ hn]
    rfl

lemma mem_inflight_iff (h : s.Inv) : r ∈ s.inflight ↔ s.Decoded r ∧ .freed ∉ s.reqLog r := by
  constructor
  · intro hm
    obtain ⟨-, p, q, hl⟩ := h.registered hm
    obtain ⟨input, ha⟩ := hl.trace.arrived
    exact ⟨⟨q.origin, input, ha⟩, not_freed hl⟩
  · rintro ⟨⟨origin, input, ha⟩, hf⟩
    have hb : s.view r ≠ unborn := by
      intro hu
      rw [show s.reqLog r = [] from congrArg ReqView.log hu] at ha
      cases ha
    obtain ⟨-, p, q, hl⟩ := h.live hb fun hg => hf (freed hg)
    exact count_pos_iff.mp (Nat.lt_of_lt_of_eq Nat.one_pos hl.listed.symm)

lemma waits (h : s.Inv) (hm : r ∈ s.inflight) : ∃ q, s.reqs r = some q ∧
      s.ops.count (.pull, r) + s.ops.count (.push, r) + q.pullPending.toNat + q.pushPending.toNat = 1 := by
  obtain ⟨-, p, q, hl⟩ := h.registered hm
  refine ⟨q, hl.req, ?_⟩
  have hpl : s.ops.count (.pull, r) = _ := hl.pulls
  have hp : s.ops.count (.push, r) = _ := hl.pushes
  rw [hpl, hp, hl.pullPending, hl.pushPending]
  cases p <;> rfl

lemma answeredOnce (h : s.Inv) {hd : HgHandle} (hm : .cancelStashed hd ∈ s.reqLog r) :
    (about s.acks hd).length = if .freed ∈ s.reqLog r then 1 else 0 := by
  have hc := h.answered.count r hd hm
  rw [hc]
  refine h.reqLog_cases (P := fun log => log.count .freed = if .freed ∈ log then 1 else 0) rfl ?_ ?_
  · intro p q hl
    rw [if_neg (not_freed hl)]
    exact hl.trace.count_freed
  intro hg
  rw [if_pos (freed hg)]
  exact hg.log.freed

lemma lifecycle (h : s.Inv) : s.Lifecycle where
  once r hf := by
    refine h.reqLog_cases
      (P := fun log => .freed ∈ log → responses log = 1 ∧ log.count .freed = 1) nofun ?_ ?_ hf
    · exact fun p q hl hf => absurd hf (not_freed hl)
    · exact fun hg _ => ⟨hg.log.responded, hg.log.freed⟩
  quiet r :=
    h.reqLog_cases (P := fun log => ∀ e ∈ log, e.Quiet) nofun (fun _ _ hl => hl.trace.quiet)
      fun hg => hg.log.quiet
  pushedFirst r :=
    h.reqLog_cases (P := Justified sinkLaw) trivial (fun _ _ hl => hl.trace.lawful)
      fun hg => hg.log.lawful
  ownCancels origin callId ret _ hk := ownCancels s origin callId ret hk
  answeredOnce _ _ hm := h.answeredOnce hm
  registry := ⟨h.nodup, fun _ => h.mem_inflight_iff⟩
  waits _ he := h.waits he
  noFault := h.noFault

end Service.Inv

/-- In every run of the service, whatever its configuration and the order of its events, the
requests keep their lifecycle. -/
theorem service_requests_lifecycle (executor : Bool) (pushStall pullStall : Nat)
    (evs : List ServiceEvent) : (Service.after executor pushStall pullStall evs).Lifecycle :=
  (Service.inv_after executor pushStall pullStall evs).lifecycle

end RadosNkv
