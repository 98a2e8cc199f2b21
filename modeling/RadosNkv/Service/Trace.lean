import RadosNkv.Service.ReqView

/-! The ledger of one executor request, from its registration to its one response and its one free.
-/

namespace RadosNkv

open Ledger List

namespace ReqEffect

def isResponse : ReqEffect → Bool
  | .responded .. => true
  | _ => false

def isFinal : ReqEffect → Bool
  | .responded .. | .bulkFreed _ | .acked .. | .freed => true
  | _ => false

def Quiet : ReqEffect → Prop
  | .responded _ inFlight => inFlight = false
  | .acked _ inFlight => inFlight = false
  | _ => True

end ReqEffect

def responses (log : List ReqEffect) : Nat := log.countP ReqEffect.isResponse

def sinkLaw : ReqEffect → List ReqEffect → Prop
  | .responded out _, older =>
    reports out.status → ∀ origin input res, .arrived origin input ∈ older → .ran res ∈ older →
      routed input res → .completed .push .success ∈ older
  | _, _ => True

/-- The ledger of a live request `q`; `b` says whether its module may have run. -/
structure Req.Trace (q : Req) (b : Bool) (log : List ReqEffect) : Prop where
  registered : q.registered = true
  arrived : ∃ input, .arrived q.origin input ∈ log
  arrival : ∀ origin input, .arrived origin input ∈ log →
    origin = q.origin ∧ input.clientCallId = q.callId ∧ input.resultSink = q.input.resultSink
  stash : ∀ h, .cancelStashed h ∈ log ↔ q.cancelHandle = some h
  silent : ∀ e ∈ log, e.isFinal = false
  ran : ∀ res, .ran res ∈ log → b = true ∧ res = q.res
  lawful : Justified sinkLaw log

structure Finished (log : List ReqEffect) : Prop where
  arrived : ∃ origin input, .arrived origin input ∈ log
  responded : responses log = 1
  freed : log.count .freed = 1
  quiet : ∀ e ∈ log, e.Quiet
  lawful : Justified sinkLaw log

namespace Req.Trace

variable {q q' : Req} {b : Bool} {log : List ReqEffect}

section

variable (h : q.Trace b log)
include h

lemma same (hs : q'.Same q) : q'.Trace b log :=
  { registered := hs.registered.trans h.registered
    arrived := by rw [hs.origin]; exact h.arrived
    arrival := by rw [hs.origin, hs.callId, hs.input]; exact h.arrival
    stash := by rw [hs.cancelHandle]; exact h.stash
    silent := h.silent
    ran := by rw [hs.res]; exact h.ran
    lawful := h.lawful }

lemma note (he : (∃ op, e = .submitted op) ∨ ∃ op ret, e = .completed op ret) : q.Trace b (e :: log) := by
  obtain ⟨op, rfl⟩ | ⟨op, ret, rfl⟩ := he
  all_goals
    exact
      { registered := h.registered
        arrived := h.arrived.imp fun _ hm => mem_cons_of_mem _ hm
        arrival := by simpa using h.arrival
        stash := by simpa using h.stash
        silent := by simpa [ReqEffect.isFinal] using h.silent
        ran := by simpa using h.ran
        lawful := ⟨trivial, h.lawful⟩ }

lemma count_freed : log.count .freed = 0 := by
  rw [count_eq_zero]
  intro hm
  have := h.silent _ hm
  simp [ReqEffect.isFinal] at this

lemma not_stashed (hc : q.cancelHandle = none) (hd : HgHandle) : .cancelStashed hd ∉ log := by
  intro hm
  have := (h.stash hd).mp hm
  rw [hc] at this
  cases this

lemma stashing (hc : q.cancelHandle = none) (hd : HgHandle) (d : Bool) :
    ({ q with cancelHandle := some hd, doNotPush := d } : Req).Trace b (.cancelStashed hd :: log) where
  registered := h.registered
  arrived := h.arrived.imp fun _ hm => mem_cons_of_mem _ hm
  arrival := by simpa using h.arrival
  stash := by simp [h.not_stashed hc, eq_comm]
  silent := by simpa [ReqEffect.isFinal] using h.silent
  ran := by simpa using h.ran
  lawful := ⟨trivial, h.lawful⟩

lemma responses_eq : responses log = 0 := by
  rw [responses, countP_eq_zero]
  intro e he
  have hs := h.silent e he
  cases e <;> simp_all [ReqEffect.isFinal, ReqEffect.isResponse]

lemma quiet : ∀ e ∈ log, e.Quiet := by
  intro e he
  have hs := h.silent e he
  cases e <;> simp_all [ReqEffect.isFinal, ReqEffect.Quiet]

end

lemma ranNow (h : q.Trace false log) (res : ExecResult) : ({ q with res } : Req).Trace true (.ran res :: log) :=
  { registered := h.registered
    arrived := h.arrived.imp fun _ hm => mem_cons_of_mem _ hm
    arrival := by simpa using h.arrival
    stash := by simpa using h.stash
    silent := by simpa [ReqEffect.isFinal] using h.silent
    ran := by
      intro res' hm
      rcases mem_cons.mp hm with he | hm
      · exact ⟨rfl, by simpa using he⟩
      · exact absurd (h.ran res' hm).1 (by simp)
    lawful := ⟨trivial, h.lawful⟩ }

end Req.Trace

variable {q : Req} {log : List ReqEffect} {b : Bool}

lemma Req.mem_finishEffects (h : e ∈ q.finishEffects i) :
    e = .freed ∨ (∃ hd, e = .acked hd i) ∨ (∃ hd, e = .bulkFreed hd) ∨ e = .responded q.out i := by
  simp only [finishEffects, mem_cons, mem_append, mem_map, not_mem_nil, or_false] at h
  rcases h with rfl | ((⟨hd, -, rfl⟩ | ⟨hd, -, rfl⟩) | ⟨hd, -, rfl⟩) | rfl
  · exact .inl rfl
  · exact .inr (.inl ⟨hd, rfl⟩)
  · exact .inr (.inr (.inl ⟨hd, rfl⟩))
  · exact .inr (.inr (.inl ⟨hd, rfl⟩))
  · exact .inr (.inr (.inr rfl))

lemma Req.count_finishEffects (q : Req) (i : Bool) : (q.finishEffects i).count .freed = 1 := by
  cases hc : q.cancelHandle <;> cases hi : q.localInput <;> cases hr : q.localResult <;>
    simp [finishEffects, hc, hi, hr]

lemma Req.responses_finishEffects (q : Req) (i : Bool) : responses (q.finishEffects i) = 1 := by
  cases hc : q.cancelHandle <;> cases hi : q.localInput <;> cases hr : q.localResult <;>
    simp [responses, finishEffects, ReqEffect.isResponse, hc, hi, hr]

lemma justified_finishEffects (h : Justified J log) (hr : J (.responded q.out i) log)
    (ho : ∀ e, e.isFinal = true → e.isResponse = false → ∀ older, J e older) :
    Justified J (q.finishEffects i ++ log) := by
  have hs : q.finishEffects i ++ log =
      (.freed :: (q.cancelHandle.toList.map (.acked · i) ++ q.localInput.toList.map .bulkFreed ++
        q.localResult.toList.map .bulkFreed)) ++ (.responded q.out i :: log) := by
    simp [Req.finishEffects]
  rw [hs]
  refine Justified.append ⟨hr, h⟩ ?_
  intro e he
  simp only [mem_cons, mem_append, mem_map] at he
  rcases he with rfl | (⟨_, -, rfl⟩ | ⟨_, -, rfl⟩) | ⟨_, -, rfl⟩
  all_goals exact ho _ rfl rfl

lemma Req.Trace.finish (h : q.Trace b log)
    (hn : reports q.out.status → b = true → routed q.input q.res → .completed .push .success ∈ log) :
    Finished (q.finishEffects false ++ log) where
  arrived := by
    obtain ⟨input, hm⟩ := h.arrived
    exact ⟨q.origin, input, mem_append_right _ hm⟩
  responded := by
    have hf := q.responses_finishEffects false
    have hl := h.responses_eq
    simp only [responses, countP_append] at *
    omega
  freed := by rw [count_append, q.count_finishEffects, h.count_freed]
  quiet := by
    intro e he
    rcases mem_append.mp he with he | he
    · rcases Req.mem_finishEffects he with rfl | ⟨_, rfl⟩ | ⟨_, rfl⟩ | rfl <;> trivial
    · exact h.quiet e he
  lawful := by
    have hs : sinkLaw (.responded q.out false) log := by
      intro hre origin input res ha hr ht
      obtain ⟨hb, rfl⟩ := h.ran res hr
      have hsm := (h.arrival origin input ha).2.2
      refine hn hre hb ?_
      rwa [routed, ← hsm]
    exact justified_finishEffects h.lawful hs fun e he hne older => by
      cases e <;> trivial

inductive Phase where
  | pullStalled
  | pulling
  | pushStalled
  | pushing
deriving DecidableEq

def Phase.ran : Phase → Bool
  | .pullStalled | .pulling => false
  | .pushStalled | .pushing => true

namespace ReqView

def unborn : ReqView := ⟨none, 0, 0, 0, []⟩

/-- Request `q` is registered and waits for `p` alone. -/
structure Live (p : Phase) (q : Req) (v : ReqView) : Prop where
  req : v.req = some q
  listed : v.listed = 1
  pulls : v.pulls = if p = .pulling then 1 else 0
  pushes : v.pushes = if p = .pushing then 1 else 0
  pushInFlight : q.pushInFlight = decide (p = .pulling ∨ p = .pushing)
  pullPending : q.pullPending = decide (p = .pullStalled)
  pushPending : q.pushPending = decide (p = .pushStalled)
  routed : p.ran = true → routed q.input q.res
  trace : q.Trace p.ran v.log

lemma Live.req_ne {v : ReqView} (h : v.Live p q) : v.req ≠ none := by
  rw [h.req]
  exact Option.some_ne_none q

structure Ready (b : Bool) (q : Req) (v : ReqView) : Prop where
  listed : v.listed = 1
  pulls : v.pulls = 0
  pushes : v.pushes = 0
  pushInFlight : q.pushInFlight = false
  pullPending : q.pullPending = false
  pushPending : q.pushPending = false
  trace : q.Trace b v.log

structure Gone (v : ReqView) : Prop where
  req : v.req = none
  listed : v.listed = 0
  pulls : v.pulls = 0
  pushes : v.pushes = 0
  log : Finished v.log

inductive Ok (v : ReqView) : Prop
  | live (p : Phase) (q : Req) (h : Live p q v)
  | gone (h : Gone v)

end ReqView

open ReqView

lemma Finishes.gone (h : Finishes s r q b s') (hv : (s.view r).Ready b q) :
    (s'.view r).Gone := by
  have hi := s.inFlight_eq_false hv.pulls hv.pushes
  have hl := hv.listed
  cases h with
  | @failed _ q' status same hn =>
    let q'' : Req := { q' with out := ⟨nkvxStatusToWire status, 0, none⟩ }
    have ht : q''.Trace b (s.view r).log := hv.trace.same { same with }
    rw [nkvxReqFail, s.view_finish_same q'' ht.registered, hi]
    exact ⟨rfl, by simp [hl], hv.pulls, hv.pushes, ht.finish fun he => absurd he hn⟩
  | @delivered q' same hr =>
    have ht := hv.trace.same same
    rw [s.view_finish_same q' ht.registered, hi]
    refine ⟨rfl, by simp [hl], hv.pulls, hv.pushes, ht.finish fun _ _ hrt => hr ?_⟩
    rwa [← same.input, ← same.res]

lemma Settles.ok (h : Settles s r q b s') (hv : (s.view r).Ready b q) : (s'.view r).Ok := by
  have hl := hv.pulls
  have hp := hv.pushes
  have hs := hv.listed
  cases h with
  | finishes h => exact .gone (h.gone hv)
  | pushStalled hr hd =>
    refine .live .pushStalled { q with pushPending := true } ?_
    rw [s.view_put_same]
    exact ⟨rfl, hs, hl, hp, hv.pushInFlight, hv.pullPending, rfl, fun _ => hr, { hv.trace with }⟩
  | @pushing q' same hr hd hf =>
    refine .live .pushing q' ?_
    rw [s.view_push_same]
    refine ⟨rfl, hs, hl, by simp [hp], hf, same.pullPending.trans hv.pullPending,
      same.pushPending.trans hv.pushPending, fun _ => ?_, (hv.trace.same same).note (.inl ⟨_, rfl⟩)⟩
    rwa [same.input, same.res]
  | pullStalled =>
    refine .live .pullStalled { q with pullPending := true } ?_
    rw [s.view_put_same]
    exact ⟨rfl, hs, hl, hp, hv.pushInFlight, rfl, hv.pushPending, nofun, { hv.trace with }⟩
  | @pulling q' same hd hf =>
    refine .live .pulling q' ?_
    rw [s.view_pull_same]
    exact ⟨rfl, hs, by simp [hl], hp, hf, same.pullPending.trans hv.pullPending,
      same.pushPending.trans hv.pushPending, nofun, (hv.trace.same same).note (.inl ⟨_, rfl⟩)⟩

def pushes (log : List ReqEffect) : Nat := log.count (.completed .push .success)

def Impeded (log : List ReqEffect) : Prop :=
  (∃ h, .cancelStashed h ∈ log) ∨ (∃ op ret, .completed op ret ∈ log ∧ ret ≠ .success) ∨ .submitted .push ∉ log

structure Unpushed (log : List ReqEffect) : Prop where
  submitted : .submitted .push ∉ log
  completed : ∀ ret, .completed .push ret ∉ log

lemma Unpushed.cons (h : Unpushed log) (hs : e ≠ .submitted .push)
    (hc : ∀ ret, e ≠ .completed .push ret) : Unpushed (e :: log) :=
  ⟨fun hm => (mem_cons.mp hm).elim (fun he => hs he.symm) h.submitted,
    fun ret hm => (mem_cons.mp hm).elim (fun he => hc ret he.symm) (h.completed ret)⟩

/-- The answer `out` to a request that offered `sink` and ran with the result `res`, whose ledger is
`log`. -/
inductive Answer (sink : Option BulkHandle) (res : ExecResult) (log : List ReqEffect) : ExecOut → Prop
  | pushed (hsink : sink ≠ none) (hlarge : nkvxInlineMax < res.bufLen) (hpush : pushes log = 1) :
      Answer sink res log ⟨nkvxStatusToWire res.status, res.resultLen, none⟩
  | inline (hsmall : res.bufLen ≤ nkvxInlineMax) (hpush : pushes log = 0) :
      Answer sink res log ⟨nkvxStatusToWire res.status, res.resultLen, res.buf⟩
  | declined (hsink : sink = none) (hlarge : nkvxInlineMax < res.bufLen) :
      Answer sink res log ⟨nkvxStatusToWire .notSupported, 0, none⟩
  | failed {out : ExecOut} (hsink : sink ≠ none) (hlarge : nkvxInlineMax < res.bufLen)
      (hne : ¬ reports out.status) (hcause : Impeded log) : Answer sink res log out

lemma pushes_eq_zero (h : .completed .push .success ∉ log) : pushes log = 0 :=
  count_eq_zero.mpr h

lemma Answer.append (h : Answer sink res log out) (hn : ∀ e ∈ new, e.isFinal = true) :
    Answer sink res (new ++ log) out := by
  have hp : pushes (new ++ log) = pushes log := by
    have hz : pushes new = 0 := pushes_eq_zero fun hm => by simpa [ReqEffect.isFinal] using hn _ hm
    rw [pushes, count_append]
    exact (congrArg (· + pushes log) hz).trans (Nat.zero_add _)
  cases h with
  | pushed hs hl hps => exact .pushed hs hl (hp.trans hps)
  | inline hsm hps => exact .inline hsm (hp.trans hps)
  | declined hs hl => exact .declined hs hl
  | failed hs hl he hc =>
    refine .failed hs hl he ?_
    rcases hc with ⟨h, hm⟩ | ⟨op, ret, hm, hr⟩ | ho
    · exact .inl ⟨h, mem_append_right _ hm⟩
    · exact .inr (.inl ⟨op, ret, mem_append_right _ hm, hr⟩)
    refine .inr (.inr fun hm => ?_)
    rcases mem_append.mp hm with hm | hm
    · simpa [ReqEffect.isFinal] using hn _ hm
    · exact ho hm

end RadosNkv
