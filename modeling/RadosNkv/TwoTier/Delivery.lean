import RadosNkv.Executor.Truncation
import RadosNkv.Forwarder.Bridge
import RadosNkv.Service.Answers
import RadosNkv.Service.KvRequest

/-! The delivery of a result through the two tiers. -/

namespace RadosNkv

open List Memory Front

structure HostSide where
  mem : HostMem
  dmabuf : Int → HostMem
deriving Inhabited

def HostSide.writeDmabuf (w : HostSide) (fd : Int) (bytes : Bytes) : HostSide :=
  { w with dmabuf := Function.update w.dmabuf fd (Memory.write (w.dmabuf fd) 0 bytes) }

@[simp] lemma HostSide.dmabuf_writeDmabuf (w : HostSide) (fd : Int) (bytes : Bytes) :
    (w.writeDmabuf fd bytes).dmabuf fd = write (w.dmabuf fd) 0 bytes :=
  Function.update_self ..

def hgBulkPush (m : Regions) (sink : Option BulkHandle) (bytes : Bytes) (w : HostSide) : HostSide :=
  match sink.bind m with
  | some (.host addr len .writeOnly) =>
    if bytes.length ≤ len then { w with mem := Memory.write w.mem addr bytes } else w
  | some (.dmabuf fd len) => if bytes.length ≤ len then w.writeDmabuf fd bytes else w
  | _ => w

def hostAfter (m : Regions) (sink : Option BulkHandle) (res : ExecResult) (log : List ReqEffect) (ctx : FwdCtx)
    (out : ExecOut) (w : HostSide) : HostSide × IoStatus × Nat :=
  let w := (hgBulkPush m sink (res.buf.getD []))^[pushes log] w
  let r := forwardResult .success (some out)
  let done := kvdevRadosNkvxFrontDone ctx w.mem r.1 r.2.1 r.2.2
  ({ w with mem := done.1 }, done.2)

/-- No cancel came, no transfer failed, and a push that is needed was made. -/
structure Unimpeded (sink : Option BulkHandle) (res : ExecResult) (log : List ReqEffect) : Prop where
  notCancelled : ∀ h, .cancelStashed h ∉ log
  completed : ∀ op ret, .completed op ret ∈ log → ret = .success
  submitted : sink ≠ none → nkvxInlineMax < res.bufLen → .submitted .push ∈ log

lemma Unimpeded.not_impeded {sink : Option BulkHandle} {res : ExecResult} {log : List ReqEffect}
    (h : Unimpeded sink res log) (hs : sink ≠ none) (hl : nkvxInlineMax < res.bufLen) : ¬ Impeded log := by
  rintro (⟨hd, hm⟩ | ⟨op, ret, hm, hr⟩ | hn)
  · exact h.notCancelled hd hm
  · exact hr (h.completed op ret hm)
  · exact hn (h.submitted hs hl)

@[simp] lemma statusFromWire_toWire (st : IoStatus) : nkvxStatusFromWire (nkvxStatusToWire st) = st := by
  cases st <;> rfl

structure OutputBuf where
  addr : Option Nat
  len : UInt32
  null : addr = none → len = 0

namespace OutputBuf

def base (buf : OutputBuf) : Nat := buf.addr.getD 0

def holds (buf : OutputBuf) (result : Bytes) : Nat := min result.length buf.len.toNat

lemma addr_isSome {buf : OutputBuf} (h : 0 < buf.len.toNat) : buf.addr.isSome := by
  cases ha : buf.addr with
  | some _ => rfl
  | none =>
    rw [buf.null ha] at h
    cases h

end OutputBuf

/-- The buffer got the first bytes of `result`, as many as it has room for, and nothing else was
written. -/
structure Delivered (result : Bytes) (buf : OutputBuf) (res : ExecResult) (w : HostSide)
    (w' : HostSide × IoStatus × Nat) (copied : Prop) (pushed : Nat) : Prop where
  holds : Memory.read w'.1.mem buf.base (buf.holds result) = result.take buf.len.toNat
  beyond : ∀ a, ¬ (buf.base ≤ a ∧ a < buf.base + buf.holds result) → w'.1.mem a = w.mem a
  dmabuf : w'.1.dmabuf = w.dmabuf
  copied : copied ↔ 0 < buf.holds result ∧ buf.holds result ≤ nkvxInlineMax
  pushed : pushed = if nkvxInlineMax < buf.holds result then 1 else 0
  status : w'.2.1 = res.status
  dw0 : w'.2.2 = satU32 result.length

lemma delivered_of_write {result : Bytes} {buf : OutputBuf} {res : ExecResult} {w : HostSide}
    {w' : HostSide × IoStatus × Nat} {copied : Prop} {pushed : Nat}
    (hw : w' = ({ w with mem := write w.mem buf.base (result.take buf.len.toNat) }, res.status, satU32 result.length))
    (hc : copied ↔ 0 < buf.holds result ∧ buf.holds result ≤ nkvxInlineMax)
    (hp : pushed = if nkvxInlineMax < buf.holds result then 1 else 0) :
    Delivered result buf res w w' copied pushed := by
  have hlen : (result.take buf.len.toNat).length = buf.holds result := by
    rw [length_take, OutputBuf.holds, min_comm]
  subst hw
  refine ⟨?_, fun a ha => ?_, rfl, hc, hp, rfl, rfl⟩
  · rw [← hlen]
    rw [read_write _ _ _ (le_rfl), take_length]
  rw [← hlen] at ha
  exact write_beyond w.mem ha

section

variable {sink : Option BulkHandle} {res : ExecResult} {log : List ReqEffect} {out : ExecOut} {m : Regions}
  {result : Bytes}

lemma sink_of_large {buf : OutputBuf} (hf : res.bufLen ≤ buf.len.toNat)
    (hn : sink = none ↔ ¬ (buf.addr.isSome ∧ nkvxInlineMax < buf.len.toNat)) (hl : nkvxInlineMax < res.bufLen) :
    sink ≠ none := by
  intro hs
  have hlen : nkvxInlineMax < buf.len.toNat := lt_of_lt_of_le hl hf
  exact hn.mp hs ⟨OutputBuf.addr_isSome (Nat.zero_lt_of_lt hlen), hlen⟩

lemma Answer.delivers {buf : OutputBuf} (h : Answer sink res log out) (hu : Unimpeded sink res log)
    (hr : res.Carries result buf.len.toNat) (hn : sink = none ↔ ¬ (buf.addr.isSome ∧ nkvxInlineMax < buf.len.toNat))
    (ht : ∀ hd, sink = some hd → m hd = some (.host (buf.addr.getD 0) buf.len.toNat .writeOnly)) (w : HostSide) :
    Delivered result buf res w (hostAfter m sink res log ⟨buf.addr, buf.len⟩ out w)
      (FwdCtx.Copies ⟨buf.addr, buf.len⟩ out.resultInline) (pushes log) := by
  have hlen : res.bufLen = buf.holds result := by
    rw [ExecResult.bufLen, hr.bytes, length_take, OutputBuf.holds, min_comm]
  have hf : res.bufLen ≤ buf.len.toNat := by
    rw [hlen]
    exact min_le_right ..
  have hb := hr.bytes
  cases h with
  | pushed hsn hl hs =>
    obtain ⟨hd, rfl⟩ := Option.ne_none_iff_exists'.mp hsn
    refine delivered_of_write ?_ ?_ ?_
    · simp [hostAfter, hs, hgBulkPush, ht hd rfl, kvdevRadosNkvxFrontDone, FwdCtx.Copies,
        forwardResult, hb, OutputBuf.base, hr.resultLen]
    · rw [← hlen]
      simp [FwdCtx.Copies, not_le.mpr hl]
    · rw [← hlen, if_pos hl, hs]
  | inline hsm hs =>
    have hcp : FwdCtx.Copies ⟨buf.addr, buf.len⟩ res.buf ↔ 0 < buf.holds result := by
      rw [← hlen]
      constructor
      · exact fun hc => hc.1
      intro hp
      have hm : 0 < buf.len.toNat := lt_of_lt_of_le hp hf
      exact ⟨hp, OutputBuf.addr_isSome hm, hm⟩
    refine delivered_of_write ?_ ?_ ?_
    · have hy : (if FwdCtx.Copies ⟨buf.addr, buf.len⟩ res.buf then
          write w.mem (buf.addr.getD 0) ((res.buf.getD []).take buf.len.toNat) else w.mem) =
          write w.mem buf.base (result.take buf.len.toNat) := by
        split
        · rw [hb, take_take, min_self]
          rfl
        rename_i ho
        have hi : result.take buf.len.toNat = [] := by
          rw [← hb]
          apply eq_nil_of_length_eq_zero
          rw [hcp, ← hlen] at ho
          exact Nat.eq_zero_of_not_pos ho
        rw [hi, write_nil]
      simp [hostAfter, hs, kvdevRadosNkvxFrontDone, forwardResult, hy, hr.resultLen]
    · rw [hcp, and_iff_left]
      rw [← hlen]
      exact hsm
    · rw [← hlen, if_neg (not_lt.mpr hsm), hs]
  | declined hsn hl => exact absurd hsn (sink_of_large hf hn hl)
  | failed hsn hl he hcs => exact absurd hcs (hu.not_impeded hsn hl)

end

/-! ### Exec -/

structure Front.Awaits (u : Front) (id : Nat) : Prop where
  owed : id ∈ u.forwards
  call : ∃ c, u.calls id = some c ∧ c.cancelling = false ∧ c.tenantDone = false

lemma Front.mem_log_release {u : Front} {id : Nat} {e : Nat × CallEffect} (h : e ∈ u.log) (hd : Option BulkHandle) :
    e ∈ (u.release id hd).log := by
  cases hd with
  | none => exact h
  | some hd => exact mem_cons_of_mem _ h

lemma Front.Awaits.tenant {u : Front} {id : Nat} (h : u.Awaits id) (ret : HgReturn) (output : Option ExecOut) :
    (id, .tenant (forwardResult ret output).1 (forwardResult ret output).2.1 (forwardResult ret output).2.2) ∈
      (fire u (.forward id ret output)).log := by
  obtain ⟨c, hc, hn, hd⟩ := h.call
  dsimp only [fire]
  rw [if_pos h.owed]
  unfold nkvxFrontForwardCb
  rw [hc]
  simp only [hn, hd, Bool.false_eq_true, if_false]
  exact mem_cons_of_mem _ (mem_log_release (mem_log_release mem_cons_self _) _)

structure ExecTrip (api : WasmApi) where
  history : List FrontEvent
  args : ExecArgs
  allocated : Bool
  sending : ForwardOutcome
  front : Front
  id : Nat
  ctx : FwdCtx
  wire : ExecIn
  cfg : WasmConfig
  ex : Executor api
  input : Option Bytes
  env : ExecEnv
  faults : RadosFaults
  log : List ReqEffect
  out : ExecOut
  meanwhile : List FrontEvent

namespace ExecTrip

variable {api : WasmApi} (x : ExecTrip api)

def run (osize : Nat) : ExecResult :=
  (x.ex.handle x.cfg (.exec { x.wire with osize := osize } x.input x.env x.faults)).2

def res : ExecResult := x.run x.wire.osize

def regions (sink : Option Nat) (sinkLen : UInt32) (dmabufFd : Int) : Regions :=
  (Front.regions x.history).forward (Front.after x.history) (x.args.request sinkLen) sink sinkLen.toNat dmabufFd
    x.sending

def host (sink : Option Nat) (sinkLen : UInt32) (dmabufFd : Int) (w : HostSide) : HostSide × IoStatus × Nat :=
  hostAfter (x.regions sink sinkLen dmabufFd) x.wire.resultSink x.res x.log x.ctx x.out w

structure Sent (sink : Option Nat) (sinkLen : UInt32) (dmabufFd : Int) : Prop where
  accepted : nkvxFrontForwardFull (Front.after x.history) (x.args.request sinkLen) sink sinkLen.toNat dmabufFd x.sending =
    (x.front, .ok x.id)
  sent : x.front.log.head? = some (x.id, .execSent x.wire)
  input : InputWhole x.wire.inputLen x.input

structure Completes : Prop where
  service : ∃ executor pushStall pullStall evs r, x.log = (Service.after executor pushStall pullStall evs).reqLog r
  arrived : ∃ origin, .arrived origin x.wire ∈ x.log
  ran : .ran x.res ∈ x.log
  responded : ∃ i, .responded x.out i ∈ x.log
  awaits : (Machine.run Front.step x.front x.meanwhile).Awaits x.id

variable {x}

lemma Completes.answer (h : x.Completes) : Answer x.wire.resultSink x.res x.log x.out := by
  obtain ⟨executor, pushStall, pullStall, evs, r, hl⟩ := h.service
  obtain ⟨origin, ha⟩ := h.arrived
  obtain ⟨i, hs⟩ := h.responded
  have hr := h.ran
  rw [hl] at ha hr hs ⊢
  exact (Service.answers_after executor pushStall pullStall evs r).answer origin x.wire x.res x.out i ha hr hs

variable {sink : Option Nat} {sinkLen : UInt32}

section

variable (h : x.Sent sink sinkLen dmabufFd)
include h

lemma Sent.sends :
    (after x.history).Sends x.front (x.regions sink sinkLen dmabufFd) (x.args.request sinkLen) sink sinkLen.toNat
      dmabufFd x.id x.wire := by
  obtain ⟨wire, hs⟩ := forwardFull_ok (tracks_after x.history) h.accepted
  have hw := Option.some.inj (hs.sent.symm.trans h.sent)
  cases hw
  exact hs

lemma Sent.osize : x.wire.osize = sinkLen.toNat :=
  congrArg ExecIn.osize h.sends.request

lemma Sent.truncates : ∃ result, Truncates x.run result := by
  have hlen : x.wire.inputLen = x.args.inputLen.toNat := congrArg ExecIn.inputLen h.sends.request
  refine handle_exec_truncates x.cfg x.ex x.wire x.env x.faults ?_ h.input
  rw [hlen]
  exact x.args.inputLen.toNat_lt

lemma Sent.cutTo (ht : Truncates x.run result) : x.res.CutTo result sinkLen.toNat := by
  rw [res, h.osize]
  exact ht sinkLen.toNat sinkLen.toNat_lt

lemma Sent.fits : x.res.bufLen ≤ sinkLen.toNat := by
  obtain ⟨result, ht⟩ := h.truncates
  exact (h.cutTo ht).bufLen_le

end

structure HostCall (x : ExecTrip api) (buf : OutputBuf) : Prop where
  accepted : kvdevRadosNkvxFrontForward (Front.after x.history) x.args buf.addr buf.len x.allocated x.sending =
    (x.front, .ok (x.id, x.ctx))
  sent : x.front.log.head? = some (x.id, .execSent x.wire)
  input : InputWhole x.wire.inputLen x.input

variable {buf : OutputBuf}

section

variable (h : x.HostCall buf)

include h

lemma HostCall.toSent : x.Sent buf.addr buf.len (-1) :=
  ⟨(execForward_ok h.accepted).2, h.sent, h.input⟩

lemma HostCall.sink_none_iff :
    x.wire.resultSink = none ↔ ¬ (buf.addr.isSome ∧ nkvxInlineMax < buf.len.toNat) := by
  have hn := h.toSent.sends.sink_none_iff
  simpa using hn

lemma HostCall.never_sinkless : ¬ (x.wire.resultSink = none ∧ nkvxInlineMax < x.res.bufLen) :=
  fun ⟨hn, hl⟩ => sink_of_large h.toSent.fits h.sink_none_iff hl hn

lemma HostCall.delivers (hc : x.Completes) (hr : x.res.status.HasResult)
    (hu : Unimpeded x.wire.resultSink x.res x.log) (ht : Truncates x.run result) (w : HostSide) :
    Delivered result buf x.res w (x.host buf.addr buf.len (-1) w) (x.ctx.Copies x.out.resultInline) (pushes x.log) := by
  have hct : x.ctx = ⟨buf.addr, buf.len⟩ := (execForward_ok h.accepted).1
  rw [host, hct]
  exact hc.answer.delivers hu ((h.toSent.cutTo ht).carries hr) h.sink_none_iff h.toSent.sends.sink_stands w

end

end ExecTrip

structure Front.KvAwaits (u : Front) (id : Nat) : Prop where
  owed : id ∈ u.kvForwards
  call : ∃ c, u.kvCalls id = some c

lemma Front.KvAwaits.done {u : Front} {id : Nat} (h : u.KvAwaits id) (out : ExecOut) :
    (id, .done (nkvxStatusFromWire out.status) out.resultLen out.resultInline) ∈
      (fire u (.kv id .success (some out))).kvLog := by
  obtain ⟨c, hc⟩ := h.call
  dsimp only [fire]
  rw [if_pos h.owed]
  unfold nkvxKvForwardCb
  rw [hc]
  exact mem_cons_of_mem _ mem_cons_self

structure RetrieveTrip (api : WasmApi) where
  history : List FrontEvent
  key : Bytes
  readOnly : Bool
  allocated : Bool
  sending : ForwardOutcome
  front : Front
  ctx : FwdCtx
  wire : KvIn
  cfg : WasmConfig
  ex : Executor api
  env : RetrieveEnv
  faults : RadosFaults
  log : List ReqEffect
  out : ExecOut
  meanwhile : List FrontEvent

namespace RetrieveTrip

variable {api : WasmApi} (x : RetrieveTrip api)

def run (osize : Nat) : ExecResult :=
  (x.ex.handle x.cfg (.retrieve { x.wire with osize := osize } x.env x.faults)).2

def res : ExecResult := x.run x.wire.osize

def id : Nat := (Front.after x.history).nextKvCall

def regions (buf : OutputBuf) : Regions :=
  (Front.regions x.history).kvForward (Front.after x.history)
    { kvRequest .retrieve x.readOnly x.key with osize := buf.len.toNat } buf.addr buf.len.toNat x.sending

def host (buf : OutputBuf) (w : HostSide) : HostSide × IoStatus × Nat :=
  hostAfter (x.regions buf) x.wire.resultSink x.res x.log x.ctx x.out w

structure HostCall (buf : OutputBuf) : Prop where
  accepted : kvdevRadosNkvxFrontRetrieve (Front.after x.history) x.key x.readOnly buf.addr buf.len x.allocated
    x.sending = (x.front, .ok x.ctx)
  sent : x.front.kvLog.head? = some (x.id, .sent x.wire)

structure Completes : Prop where
  service : ∃ executor o cs, x.log = (KvServing.after executor x.wire o cs).log
  ran : .ran x.res ∈ x.log
  responded : ∃ i, .responded x.out i ∈ x.log
  awaits : (Machine.run Front.step x.front x.meanwhile).KvAwaits x.id

variable {x} {buf : OutputBuf}

lemma Completes.answer (h : x.Completes) : Answer x.wire.resultSink x.res x.log x.out := by
  obtain ⟨executor, o, cs, hl⟩ := h.service
  obtain ⟨i, hs⟩ := h.responded
  have hr := h.ran
  rw [hl] at hr hs ⊢
  exact KvServing.answer hr hs

lemma HostCall.sends (h : x.HostCall buf) : (after x.history).KvSends x.front (x.regions buf)
      { kvRequest .retrieve x.readOnly x.key with osize := buf.len.toNat } buf.addr buf.len.toNat x.wire := by
  obtain ⟨wire, hs⟩ := kvForward_ok (tracks_after x.history) (frontRetrieve_ok h.accepted).2
  have hw := Option.some.inj (hs.sent.symm.trans h.sent)
  cases hw
  exact hs

lemma HostCall.truncates (x : RetrieveTrip api) : ∃ result, Truncates x.run result :=
  handle_retrieve_truncates x.cfg x.ex x.wire x.env x.faults

section

variable (h : x.HostCall buf)

include h

lemma HostCall.cutTo (ht : Truncates x.run result) :
    x.res.CutTo result buf.len.toNat := by
  have ho : x.wire.osize = buf.len.toNat := congrArg KvIn.osize h.sends.request
  rw [res, ho]
  exact ht buf.len.toNat buf.len.toNat_lt

lemma HostCall.sink_none_iff :
    x.wire.resultSink = none ↔ ¬ (buf.addr.isSome ∧ nkvxInlineMax < buf.len.toNat) :=
  h.sends.sink_none_iff

lemma HostCall.never_sinkless : ¬ (x.wire.resultSink = none ∧ nkvxInlineMax < x.res.bufLen) := by
  rintro ⟨hn, hl⟩
  obtain ⟨result, ht⟩ := HostCall.truncates x
  exact sink_of_large (h.cutTo ht).bufLen_le h.sink_none_iff hl hn

lemma HostCall.delivers (hc : x.Completes) (hr : x.res.status.HasResult)
    (hu : Unimpeded x.wire.resultSink x.res x.log) (ht : Truncates x.run result) (w : HostSide) :
    Delivered result buf x.res w (x.host buf w) (x.ctx.Copies x.out.resultInline) (pushes x.log) := by
  have hct : x.ctx = ⟨buf.addr, buf.len⟩ := (frontRetrieve_ok h.accepted).1
  rw [host, hct]
  exact hc.answer.delivers hu ((h.cutTo ht).carries hr) h.sink_none_iff h.sends.sink_stands w

end

end RetrieveTrip

/-- Whatever the lengths of the result and of the tenant's buffer are: the executor never has a
large result without a sink for an Exec or a Retrieve of this front. -/
theorem result_delivered_once :
    (∀ (api : WasmApi) (x : ExecTrip api) (buf : OutputBuf), x.HostCall buf →
      ¬ (x.wire.resultSink = none ∧ nkvxInlineMax < x.res.bufLen) ∧
      (x.Completes → x.res.status.HasResult → Unimpeded x.wire.resultSink x.res x.log →
        ∃ result, Truncates x.run result ∧
          (x.id, .tenant x.res.status (satU32 result.length) x.out.resultInline) ∈
            (fire (Machine.run Front.step x.front x.meanwhile)
              (.forward x.id .success (some x.out))).log ∧
          ∀ w, Delivered result buf x.res w (x.host buf.addr buf.len (-1) w)
            (x.ctx.Copies x.out.resultInline)
            (pushes x.log))) ∧
    (∀ (api : WasmApi) (x : RetrieveTrip api) (buf : OutputBuf), x.HostCall buf →
      ¬ (x.wire.resultSink = none ∧ nkvxInlineMax < x.res.bufLen) ∧
      (x.Completes → x.res.status.HasResult → Unimpeded x.wire.resultSink x.res x.log →
        ∃ result, Truncates x.run result ∧
          (x.id, .done x.res.status (satU32 result.length) x.out.resultInline) ∈
            (fire (Machine.run Front.step x.front x.meanwhile)
              (.kv x.id .success (some x.out))).kvLog ∧
          ∀ w, Delivered result buf x.res w (x.host buf w) (x.ctx.Copies x.out.resultInline)
            (pushes x.log))) := by
  constructor
  · intro api x buf h
    refine ⟨h.never_sinkless, fun hc hres hunm => ?_⟩
    obtain ⟨result, ht⟩ := h.toSent.truncates
    have hd := h.delivers hc hres hunm ht
    refine ⟨result, ht, ?_, hd⟩
    have hstatus := (hd default).status
    have hlen : x.out.resultLen = satU32 result.length := (hd default).dw0
    rw [← hstatus, ← hlen]
    exact hc.awaits.tenant ..
  intro api x buf h
  refine ⟨h.never_sinkless, fun hc hres hunm => ?_⟩
  obtain ⟨result, ht⟩ := RetrieveTrip.HostCall.truncates x
  have hd := h.delivers hc hres hunm ht
  refine ⟨result, ht, ?_, hd⟩
  have hstatus := (hd default).status
  have hlen : x.out.resultLen = satU32 result.length := (hd default).dw0
  rw [← hstatus, ← hlen]
  exact hc.awaits.done x.out

/-! ### A copied and a pushed result -/

def sendingAll : ForwardOutcome := ⟨true, true, true, true, true⟩

def inputlenArgs : ExecArgs where
  key := [107]
  opId := 1
  readOnly := true
  runtime := .nkvx
  moduleKey := some inputlen
  moduleNs := some (cstr ['n', 'k', 'v', 'x'])
  sha256 := none
  sha256Valid := false
  caps := 0
  input := some 64
  inputLen := 3

def inputlenOutcome : ServeOutcome := ⟨none, none, true, ⟨.success, 8, some [3, 0, 0, 0, 0, 0, 0, 0]⟩⟩

def copiedTrip : ExecTrip toyApi where
  history := []
  args := inputlenArgs
  allocated := true
  sending := sendingAll
  front := (kvdevRadosNkvxFrontForward Front.init inputlenArgs (some 65536) 16 true sendingAll).1
  id := 1
  ctx := ⟨some 65536, 16⟩
  wire := { inputlenArgs.request 16 with clientCallId := 1 }
  cfg := .default
  ex := .init toyApi fun _ => none
  input := some [1, 2, 3]
  env := ⟨.error .noent, true, true, .good⟩
  faults := .none
  log := (Service.after true 0 0
    [.exec 1 (some { inputlenArgs.request 16 with clientCallId := 1 }) inputlenOutcome]).reqLog 0
  out := ⟨0, 8, some [3, 0, 0, 0, 0, 0, 0, 0]⟩
  meanwhile := []

def sixteenBytes : OutputBuf := ⟨some 65536, 16, nofun⟩

lemma copiedTrip_hostCall : copiedTrip.HostCall sixteenBytes where
  accepted := rfl
  sent := rfl
  input := by
    intro bytes h
    cases h
    rfl

lemma copiedTrip_log : copiedTrip.log =
    [.freed, .responded copiedTrip.out false, .ran copiedTrip.res, .arrived 1 copiedTrip.wire] := by decide

lemma copiedTrip_completes : copiedTrip.Completes where
  service := ⟨true, 0, 0, _, 0, rfl⟩
  arrived := ⟨1, by simp [copiedTrip_log]⟩
  ran := by simp [copiedTrip_log]
  responded := ⟨false, by simp [copiedTrip_log]⟩
  awaits := ⟨by decide, _, rfl, rfl, rfl⟩

lemma copiedTrip_unimpeded : Unimpeded copiedTrip.wire.resultSink copiedTrip.res copiedTrip.log where
  notCancelled := by simp [copiedTrip_log]
  completed := by simp [copiedTrip_log]
  submitted := fun h => absurd rfl h

def twoPages : OutputBuf := ⟨some 65536, 8192, nofun⟩

def retrieveWire : KvIn := { kvRequest .retrieve true [107] with osize := 8192, resultSink := some 0 }

def valueOutcome (value : Bytes) : ServeOutcome := ⟨none, some 5, true, ⟨.success, 4097, some value⟩⟩

def pushedTrip (value : Bytes) : RetrieveTrip toyApi where
  history := []
  key := [107]
  readOnly := true
  allocated := true
  sending := sendingAll
  front := (kvdevRadosNkvxFrontRetrieve Front.init [107] true (some 65536) 8192 true sendingAll).1
  ctx := ⟨some 65536, 8192⟩
  wire := retrieveWire
  cfg := { WasmConfig.default with available := false }
  ex := .init toyApi fun _ => some value
  env := ⟨true, true, true⟩
  faults := .none
  log := (KvServing.after true retrieveWire (valueOutcome value) [(.success, valueOutcome value)]).log
  out := ⟨0, 4097, none⟩
  meanwhile := []

lemma pushedTrip_hostCall (value : Bytes) : (pushedTrip value).HostCall twoPages where
  accepted := rfl
  sent := rfl

section

variable {value : Bytes} (hlen : value.length = 4097)
include hlen

lemma pushedTrip_res : (pushedTrip value).res = ⟨.success, 4097, some value⟩ := by
  have hd : (pushedTrip value).res =
      retrieveDirect ⟨true, true, true⟩ ((pushedTrip value).ex.answers .none (nkvxKeyToOid [107])) value.length 8192 := rfl
  have ht : value.take 4097 = value := take_of_length_le (le_of_eq hlen)
  rw [hd, hlen]
  simp [retrieveDirect, Executor.answers, radosCall, RadosFaults.none, pushedTrip, Executor.init, satU32, fitStatus, ht]

lemma pushedTrip_log : (pushedTrip value).log =
    [.freed, .bulkFreed 5, .responded (pushedTrip value).out false, .completed .push .success, .submitted .push,
      .ran (pushedTrip value).res] := by
  rw [pushedTrip_res hlen]
  simp [pushedTrip, KvServing.after, Machine.run, nkvxKvHandler, nkvxKvRunAndDeliver, retrieveWire, kvRequest,
    valueOutcome, ExecResult.bufLen, hlen, nkvxInlineMax, KvServing.complete, nkvxKvResultPushedCb, nkvxKvReqFinish,
    KvReq.finishEffects, nkvxStatusToWire]

lemma pushedTrip_completes : (pushedTrip value).Completes where
  service := ⟨true, valueOutcome value, [(.success, valueOutcome value)], rfl⟩
  ran := by simp [pushedTrip_log hlen]
  responded := ⟨false, by simp [pushedTrip_log hlen]⟩
  awaits := ⟨mem_cons_self, _, rfl⟩

lemma pushedTrip_unimpeded :
    Unimpeded (pushedTrip value).wire.resultSink (pushedTrip value).res (pushedTrip value).log where
  notCancelled := by simp [pushedTrip_log hlen]
  completed := by
    intro op ret hm
    rw [pushedTrip_log hlen] at hm
    exact (by simpa using hm : op = .push ∧ ret = .success).2
  submitted := by simp [pushedTrip_log hlen]

end

theorem result_delivered_once_both :
    (∃ result, Truncates copiedTrip.run result ∧
      ∀ w, Delivered result sixteenBytes copiedTrip.res w (copiedTrip.host (some 65536) 16 (-1) w)
        (copiedTrip.ctx.Copies copiedTrip.out.resultInline) (pushes copiedTrip.log)) ∧
    (∃ result, Truncates (pushedTrip (List.replicate 4097 7)).run result ∧
      ∀ w, Delivered result twoPages (pushedTrip (List.replicate 4097 7)).res w
        ((pushedTrip (List.replicate 4097 7)).host twoPages w)
        ((pushedTrip (List.replicate 4097 7)).ctx.Copies
          (pushedTrip (List.replicate 4097 7)).out.resultInline)
        (pushes (pushedTrip (List.replicate 4097 7)).log)) := by
  have hlen : (List.replicate 4097 (7 : UInt8)).length = 4097 := length_replicate
  obtain ⟨-, hcopied⟩ := result_delivered_once.1 toyApi copiedTrip sixteenBytes copiedTrip_hostCall
  obtain ⟨-, hpush⟩ := result_delivered_once.2 toyApi (pushedTrip (List.replicate 4097 7)) twoPages
    (pushedTrip_hostCall _)
  have hsuccess : (pushedTrip (List.replicate 4097 7)).res.status.HasResult := by
    rw [pushedTrip_res hlen]
    exact .inl rfl
  obtain ⟨result, ht, -, hd⟩ := hcopied copiedTrip_completes (.inl rfl) copiedTrip_unimpeded
  obtain ⟨result', ht', -, hd'⟩ := hpush (pushedTrip_completes hlen) hsuccess (pushedTrip_unimpeded hlen)
  exact ⟨⟨result, ht, hd⟩, result', ht', hd'⟩

def saturatedResult : ExecResult := ⟨.bufferTooSmall, 4294967295, none⟩

/-- A Retrieve without a buffer, as a probe for the length of the value. -/
def probeTrip (value : Bytes) : RetrieveTrip toyApi :=
  { pushedTrip value with
    front := (kvdevRadosNkvxFrontRetrieve Front.init [107] true none 0 true sendingAll).1
    ctx := ⟨none, 0⟩
    wire := kvRequest .retrieve true [107]
    log := [.freed, .responded ⟨-3, 4294967295, none⟩ false, .ran saturatedResult]
    out := ⟨-3, 4294967295, none⟩ }

lemma probeTrip_truncates (value : Bytes) : Truncates (probeTrip value).run value := by
  intro osize hs
  change (retrieveDirect ⟨true, true, true⟩ ((probeTrip value).ex.answers .none (nkvxKeyToOid [107])) value.length
    osize).CutTo value osize
  exact direct_cutTo hs (fitStatus_hasResult _ osize) true none

lemma probeTrip_res {value : Bytes} (hlen : value.length = 2 ^ 32) : (probeTrip value).res = saturatedResult := by
  have hd : (probeTrip value).res =
      retrieveDirect ⟨true, true, true⟩ ((probeTrip value).ex.answers .none (nkvxKeyToOid [107])) value.length 0 := rfl
  rw [hd, hlen]
  simp [retrieveDirect, satU32, fitStatus, saturatedResult]

/-- A value of `2 ^ 32` bytes: every transfer succeeds, and the tenant is told one byte less. -/
theorem length_saturates :
    ∃ (x : RetrieveTrip toyApi) (buf : OutputBuf) (value : Bytes), x.ex.rados
      (nkvxKeyToOid x.key) = some value ∧
      Truncates x.run value ∧ x.HostCall buf ∧ x.Completes ∧ x.res.status.HasResult ∧
      Unimpeded x.wire.resultSink x.res x.log ∧ ∀ w, (x.host buf w).2.2 ≠ value.length := by
  have hlen : (List.replicate (2 ^ 32) (0 : UInt8)).length = 2 ^ 32 := length_replicate
  generalize List.replicate (2 ^ 32) (0 : UInt8) = value at hlen
  have hres := probeTrip_res hlen
  refine ⟨probeTrip value, ⟨none, 0, fun _ => rfl⟩, value, rfl, probeTrip_truncates value, ⟨rfl, rfl⟩, ?_, ?_, ?_, ?_⟩
  · exact
      { service := ⟨true, ⟨none, none, true, saturatedResult⟩, [], rfl⟩
        ran := by
          rw [hres]
          simp [probeTrip]
        responded := ⟨false, by simp [probeTrip]⟩
        awaits := ⟨mem_cons_self, _, rfl⟩ }
  · rw [hres]
    exact .inr rfl
  · exact ⟨by simp [probeTrip], by simp [probeTrip], fun h => absurd rfl h⟩
  intro w
  rw [hlen]
  change (4294967295 : Nat) ≠ 2 ^ 32
  decide

end RadosNkv
