import RadosNkv.Service.Trace

/-! The executor service's handling of one `nkvx_kv` request (`nkvx_service.c`). -/

namespace RadosNkv

open List ReqEffect

structure KvReq where
  input : KvIn
  res : ExecResult
  out : ExecOut
  valueBuf : Option Nat
  localValue : Option BulkHandle
  localResult : Option BulkHandle

structure KvServing where
  waits : Option (BulkOp × KvReq)
  log : List ReqEffect

section

variable (q : KvReq)

def KvReq.finishEffects : List ReqEffect :=
  .freed :: (q.localValue.toList.map .bulkFreed ++ q.localResult.toList.map .bulkFreed ++ [.responded q.out false])

variable (log : List ReqEffect)

def nkvxKvReqFinish : KvServing := ⟨none, q.finishEffects ++ log⟩

def nkvxKvReqFail (status : IoStatus) : KvServing :=
  nkvxKvReqFinish { q with out := ⟨nkvxStatusToWire status, 0, none⟩ } log

def nkvxKvResultPushedCb (ret : HgReturn) : KvServing :=
  if ret ≠ .success then nkvxKvReqFail q log .failed
  else nkvxKvReqFinish { q with out := ⟨nkvxStatusToWire q.res.status, q.res.resultLen, none⟩ } log

def nkvxKvRunAndDeliver (o : ServeOutcome) : KvServing :=
  let log := .ran o.res :: log
  let q := { q with res := o.res }
  if q.input.resultSink ≠ none ∧ nkvxInlineMax < q.res.bufLen then
    match o.bulk with
    | none => nkvxKvReqFail q log .failed
    | some h =>
      let q := { q with localResult := some h }
      if o.transferred then ⟨some (.push, q), .submitted .push :: log⟩ else nkvxKvReqFail q log .failed
  else if nkvxInlineMax < q.res.bufLen then nkvxKvReqFail q log .notSupported
  else nkvxKvReqFinish { q with out := ⟨nkvxStatusToWire q.res.status, q.res.resultLen, q.res.buf⟩ } log

def nkvxKvValuePulledCb (ret : HgReturn) (o : ServeOutcome) : KvServing :=
  if ret ≠ .success then nkvxKvReqFail q log .failed
  else nkvxKvRunAndDeliver { q with input := { q.input with valueInline := q.valueBuf } } log o

def nkvxKvSubmitValuePull (o : ServeOutcome) : KvServing :=
  match o.inputBuf with
  | none => nkvxKvReqFail q log .nomem
  | some p =>
    let q := { q with valueBuf := some p }
    match o.bulk with
    | none => nkvxKvReqFail q log .failed
    | some h =>
      let q := { q with localValue := some h }
      if o.transferred then ⟨some (.pull, q), .submitted .pull :: log⟩ else nkvxKvReqFail q log .failed

end

/-- `nkvx_kv_handler`, for a request that could be allocated and decoded; any other is dropped. -/
def nkvxKvHandler (executor : Bool) (input : KvIn) (o : ServeOutcome) : KvServing :=
  let q : KvReq :=
    { input, res := ⟨.success, 0, none⟩, out := ⟨0, 0, none⟩, valueBuf := none, localValue := none,
      localResult := none }
  if !executor then nkvxKvReqFail q [] .notSupported
  else if input.valueBulk ≠ none ∧ nkvxInlineMax < input.valueLen then nkvxKvSubmitValuePull q [] o
  else nkvxKvRunAndDeliver q [] o

namespace KvServing

def complete (s : KvServing) (c : HgReturn × ServeOutcome) : KvServing :=
  match s.waits with
  | none => s
  | some (.pull, q) => nkvxKvValuePulledCb q (.completed .pull c.1 :: s.log) c.1 c.2
  | some (.push, q) => nkvxKvResultPushedCb q (.completed .push c.1 :: s.log) c.1

def after (executor : Bool) (input : KvIn) (o : ServeOutcome) (cs : List (HgReturn × ServeOutcome)) : KvServing :=
  Machine.run complete (nkvxKvHandler executor input o) cs

end KvServing

def ReqEffect.isPull : ReqEffect → Bool
  | .submitted .pull | .completed .pull _ => true
  | _ => false

lemma KvReq.mem_finishEffects {q : KvReq} (h : e ∈ q.finishEffects) :
    e = .freed ∨ (∃ hd, e = .bulkFreed hd) ∨ e = .responded q.out false := by
  simp only [finishEffects, mem_cons, mem_append, mem_map, not_mem_nil, or_false] at h
  rcases h with rfl | (⟨hd, -, rfl⟩ | ⟨hd, -, rfl⟩) | rfl
  · exact .inl rfl
  · exact .inr (.inl ⟨hd, rfl⟩)
  · exact .inr (.inl ⟨hd, rfl⟩)
  · exact .inr (.inr rfl)

lemma not_reports_failed : ¬ reports (nkvxStatusToWire .failed) := by decide

namespace KvServing

/-- A request that offers `sink` has not run yet, waits for its PUSH, or was answered. -/
inductive Ok (sink : Option BulkHandle) : KvServing → Prop
  | pulling {q : KvReq} {log : List ReqEffect} (hsink : q.input.resultSink = sink)
      (hpull : ∀ e ∈ log, e.isPull = true) : Ok sink ⟨some (.pull, q), log⟩
  | pushing {q : KvReq} {log : List ReqEffect} (hsink : sink ≠ none) (hlarge : nkvxInlineMax < q.res.bufLen)
      (hpull : ∀ e ∈ log, e.isPull = true) : Ok sink ⟨some (.push, q), .submitted .push :: .ran q.res :: log⟩
  | gone {log : List ReqEffect}
      (hanswer : ∀ res out i, .ran res ∈ log → .responded out i ∈ log → Answer sink res log out) :
      Ok sink ⟨none, log⟩

variable {sink : Option BulkHandle} {q : KvReq} {log : List ReqEffect}

lemma finish_ok (hl : ∀ out i, .responded out i ∉ log)
    (ha : ∀ res, .ran res ∈ log → Answer sink res log q.out) : Ok sink (nkvxKvReqFinish q log) := by
  have hf : ∀ e ∈ q.finishEffects, e.isFinal = true := by
    intro e he
    rcases KvReq.mem_finishEffects he with rfl | ⟨_, rfl⟩ | rfl <;> rfl
  refine .gone fun res out i hr hs => ?_
  have hr : .ran res ∈ log := (mem_append.mp hr).resolve_left fun hm => by
    simpa [isFinal] using hf _ hm
  rcases mem_append.mp hs with hm | hm
  · rcases KvReq.mem_finishEffects hm with he | ⟨_, he⟩ | he <;> cases he
    exact (ha res hr).append hf
  · exact absurd hm (hl out i)

lemma finish_unrun (hp : ∀ e ∈ log, e.isPull = true) : Ok sink (nkvxKvReqFinish q log) :=
  finish_ok (fun _ _ hm => by simpa [isPull] using hp _ hm)
    fun _ hm => by simpa [isPull] using hp _ hm

lemma finish_ran (hp : ∀ e ∈ log, e.isPull = true)
    (ha : Answer sink q.res (.ran q.res :: log) q.out) : Ok sink (nkvxKvReqFinish q (.ran q.res :: log)) := by
  refine finish_ok (fun _ _ hm => ?_) fun res hm => ?_
  · rcases mem_cons.mp hm with he | hm
    · cases he
    · simpa [isPull] using hp _ hm
  rcases mem_cons.mp hm with he | hm
  · cases he
    exact ha
  · simpa [isPull] using hp _ hm

lemma runAndDeliver_ok (hs : q.input.resultSink = sink) (hp : ∀ e ∈ log, e.isPull = true)
    (o : ServeOutcome) : Ok sink (nkvxKvRunAndDeliver q log o) := by
  have hun : .submitted .push ∉ ran o.res :: log := by
    intro hm
    rcases mem_cons.mp hm with he | hm
    · cases he
    · simpa [isPull] using hp _ hm
  have hu : pushes (.ran o.res :: log) = 0 := by
    refine pushes_eq_zero fun hm => ?_
    rcases mem_cons.mp hm with he | hm
    · cases he
    · simpa [isPull] using hp _ hm
  subst hs
  unfold nkvxKvRunAndDeliver
  by_cases hr : q.input.resultSink ≠ none ∧ nkvxInlineMax < o.res.bufLen
  · have hf : ∀ out : ExecOut, ¬ reports out.status →
        Answer q.input.resultSink o.res (.ran o.res :: log) out :=
      fun out hne => .failed hr.1 hr.2 hne (.inr (.inr hun))
    rw [if_pos hr]
    cases o.bulk with
    | none => exact finish_ran (q := { q with res := o.res, out := _ }) hp (hf _ not_reports_failed)
    | some h =>
      dsimp only
      split
      · exact .pushing (q := { q with res := o.res, localResult := some h }) hr.1 hr.2 hp
      · exact finish_ran (q := { q with res := o.res, localResult := some h, out := _ }) hp (hf _ not_reports_failed)
  rw [if_neg hr]
  by_cases hl : nkvxInlineMax < o.res.bufLen
  · have hn : q.input.resultSink = none := by
      by_contra hsm
      exact hr ⟨hsm, hl⟩
    rw [if_pos hl]
    exact finish_ran (q := { q with res := o.res, out := _ }) hp (.declined hn hl)
  rw [if_neg hl]
  exact finish_ran (q := { q with res := o.res, out := _ }) hp (.inline (Nat.not_lt.mp hl) hu)

lemma submitValuePull_ok (hs : q.input.resultSink = sink) (hp : ∀ e ∈ log, e.isPull = true)
    (o : ServeOutcome) : Ok sink (nkvxKvSubmitValuePull q log o) := by
  unfold nkvxKvSubmitValuePull
  cases o.inputBuf with
  | none => exact finish_unrun hp
  | some p =>
    cases o.bulk with
    | none => exact finish_unrun hp
    | some h =>
      split_ifs
      · refine .pulling hs fun e he => ?_
        rcases mem_cons.mp he with rfl | he
        · rfl
        · exact hp e he
      · exact finish_unrun hp

lemma handler_ok (executor : Bool) (input : KvIn) (o : ServeOutcome) :
    Ok input.resultSink (nkvxKvHandler executor input o) := by
  unfold nkvxKvHandler
  split_ifs
  · exact finish_unrun (by simp)
  · exact submitValuePull_ok (by rfl) (by simp) o
  · exact runAndDeliver_ok (by rfl) (by simp) o

lemma resultPushedCb_ok (hn : sink ≠ none) (hl : nkvxInlineMax < q.res.bufLen)
    (hp : ∀ e ∈ log, e.isPull = true) (ret : HgReturn) :
    Ok sink (nkvxKvResultPushedCb q (.completed .push ret :: .submitted .push :: .ran q.res :: log) ret) := by
  have ha : ∀ res, .ran res ∈ completed .push ret :: .submitted .push :: .ran q.res :: log → res = q.res := by
    intro res hm
    simp only [mem_cons, reduceCtorEq, ran.injEq, false_or] at hm
    exact hm.resolve_right fun hm => by simpa [isPull] using hp _ hm
  have hs : ∀ out i, .responded out i ∉ completed .push ret :: .submitted .push :: .ran q.res :: log := by
    intro out i hm
    simp only [mem_cons, reduceCtorEq, false_or] at hm
    simpa [isPull] using hp _ hm
  unfold nkvxKvResultPushedCb
  split_ifs with hr
  · refine finish_ok hs fun res hm => ?_
    cases ha res hm
    exact .failed hn hl not_reports_failed (.inr (.inl ⟨.push, ret, mem_cons_self, hr⟩))
  refine finish_ok hs fun res hm => ?_
  cases ha res hm
  obtain rfl : ret = .success := by simpa using hr
  have hz : pushes log = 0 := pushes_eq_zero fun hm => by simpa [isPull] using hp _ hm
  refine .pushed hn hl ?_
  simpa [pushes] using hz

lemma Ok.complete (h : Ok sink s) (c : HgReturn × ServeOutcome) : Ok sink (s.complete c) := by
  cases h with
  | @pulling q log hs hp =>
    change Ok sink (nkvxKvValuePulledCb q (.completed .pull c.1 :: log) c.1 c.2)
    have hp' : ∀ e ∈ completed .pull c.1 :: log, e.isPull = true := by
      intro e he
      rcases mem_cons.mp he with rfl | he
      · rfl
      · exact hp e he
    unfold nkvxKvValuePulledCb
    split_ifs
    · exact finish_unrun hp'
    · exact runAndDeliver_ok (by exact hs) hp' c.2
  | pushing hs hl hp => exact resultPushedCb_ok hs hl hp c.1
  | gone ha => exact .gone ha

lemma ok_after (executor : Bool) (input : KvIn) (o : ServeOutcome) (cs : List (HgReturn × ServeOutcome)) :
    Ok input.resultSink (after executor input o cs) :=
  Machine.run_induct complete (handler_ok executor input o) (fun _ c h => h.complete c) cs

lemma answer (hr : .ran res ∈ (after executor input o cs).log)
    (hs : .responded out i ∈ (after executor input o cs).log) :
    Answer input.resultSink res (after executor input o cs).log out := by
  have ho := ok_after executor input o cs
  generalize after executor input o cs = s at ho hr hs
  cases ho with
  | pulling hn hp => simpa [isPull] using hp _ hr
  | pushing hn hl hp =>
    simp only [mem_cons, reduceCtorEq, false_or] at hs
    simpa [isPull] using hp _ hs
  | gone ha => exact ha res out i hr hs

end KvServing

end RadosNkv
