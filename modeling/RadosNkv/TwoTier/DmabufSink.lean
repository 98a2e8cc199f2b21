import RadosNkv.TwoTier.Delivery

/-! The delivery of an Exec result into a dma-buf. -/

namespace RadosNkv

open List

namespace ExecTrip

variable {api : WasmApi} {x : ExecTrip api} {sinkVa : Option Nat} {sinkLen : UInt32} {sinkFd : Int}

structure DmabufCall (x : ExecTrip api) (sinkVa : Option Nat) (sinkLen : UInt32) (sinkFd : Int) : Prop where
  accepted : kvdevRadosNkvxFrontForwardDmabuf (Front.after x.history) x.args sinkVa sinkLen sinkFd x.allocated
    x.sending = (x.front, .ok (x.id, x.ctx))
  sent : x.front.log.head? = some (x.id, .execSent x.wire)
  input : InputWhole x.wire.inputLen x.input

section

variable (h : x.DmabufCall sinkVa sinkLen sinkFd)
include h

lemma DmabufCall.toSent : x.Sent sinkVa sinkLen sinkFd :=
  ⟨(forwardDmabuf_ok h.accepted).2.2, h.sent, h.input⟩

lemma DmabufCall.sink_stands (hn : x.wire.resultSink = some hd) :
    x.regions sinkVa sinkLen sinkFd hd = some (.dmabuf sinkFd sinkLen.toNat) := by
  have hs := h.toSent.sends.sink_stands hd hn
  rwa [sinkRegion, if_pos (forwardDmabuf_ok h.accepted).1] at hs

lemma DmabufCall.host_eq (hc : x.Completes) (hs : nkvxStatusFromWire x.out.status = .success)
    (ht : Truncates x.run result) (w : HostSide) :
    (x.host sinkVa sinkLen sinkFd w).1 =
      if nkvxInlineMax < min result.length sinkLen.toNat then w.writeDmabuf sinkFd (result.take sinkLen.toNat)
      else w := by
  have hct : x.ctx = ⟨none, 0⟩ := (forwardDmabuf_ok h.accepted).2.1
  have hu := h.toSent.cutTo ht
  have ha := hc.answer
  -- the run reports what the tenant sees
  have hcr : x.out.status = nkvxStatusToWire x.res.status → x.res.Carries result sinkLen.toNat := by
    intro hst
    rw [hst, statusFromWire_toWire] at hs
    exact hu.carries (.inl hs)
  unfold host hostAfter
  rw [hct]
  generalize x.out = out at ha hs hcr
  cases ha with
  | pushed hn hr hp =>
    obtain ⟨hd, hh⟩ := Option.ne_none_iff_exists'.mp hn
    have hb := (hcr rfl).bytes
    have hl : x.res.bufLen = min result.length sinkLen.toNat := by
      rw [ExecResult.bufLen, hb, length_take, min_comm]
    rw [← hl, if_pos hr]
    simp [hp, hgBulkPush, hh, h.sink_stands hh, hb, kvdevRadosNkvxFrontDone, FwdCtx.Copies]
  | inline hm hp =>
    have hl : x.res.bufLen = min result.length sinkLen.toNat := by
      rw [ExecResult.bufLen, (hcr rfl).bytes, length_take, min_comm]
    rw [← hl, if_neg (not_lt.mpr hm)]
    simp [hp, kvdevRadosNkvxFrontDone, FwdCtx.Copies]
  | declined hn hr => cases hs
  | failed hn hr he hcs =>
    refine absurd (.inl ?_) he
    unfold nkvxStatusFromWire at hs
    split at hs
    · assumption
    · split_ifs at hs

end

end ExecTrip

/-- A call into a dma-buf that completes with `SUCCESS` has left the first bytes of the result in
the sink if and only if they are more than travel inline, or the sink held them before. -/
theorem dmabuf_sink_filled_iff (api : WasmApi) (x : ExecTrip api) (sinkVa : Option Nat)
    (sinkLen : UInt32)
    (sinkFd : Int) (h : x.DmabufCall sinkVa sinkLen sinkFd) (hc : x.Completes)
    (hsuccess : (x.host sinkVa sinkLen sinkFd default).2.1 = .success) :
    (∃ result, Truncates x.run result) ∧
    ∀ result, Truncates x.run result → ∀ w,
      Memory.read ((x.host sinkVa sinkLen sinkFd w).1.dmabuf sinkFd) 0
        (min result.length sinkLen.toNat) =
          result.take sinkLen.toNat ↔
        nkvxInlineMax < min result.length sinkLen.toNat ∨
          Memory.read (w.dmabuf sinkFd) 0 (min result.length sinkLen.toNat) =
            result.take sinkLen.toNat := by
  refine ⟨h.toSent.truncates, fun result ht w => ?_⟩
  rw [h.host_eq hc hsuccess ht w]
  split
  · rename_i hlarge
    have hlen : min result.length sinkLen.toNat = (result.take sinkLen.toNat).length := by
      rw [length_take, min_comm]
    rw [HostSide.dmabuf_writeDmabuf, hlen, Memory.read_write _ _ _ (le_rfl), take_length]
    exact iff_of_true rfl (.inl (hlen ▸ hlarge))
  rename_i hsmall
  exact (or_iff_right hsmall).symm

def droppedWire : ExecIn := { inputlenArgs.request 8192 with clientCallId := 1, resultSink := some 0 }

def droppedTrip : ExecTrip toyApi :=
  { copiedTrip with
    front := (kvdevRadosNkvxFrontForwardDmabuf Front.init inputlenArgs (some 65536) 8192 3 true
      sendingAll).1
    ctx := ⟨none, 0⟩
    wire := droppedWire
    log := (Service.after true 0 0 [.exec 1 (some droppedWire) inputlenOutcome]).reqLog 0 }

lemma droppedTrip_call : droppedTrip.DmabufCall (some 65536) 8192 3 where
  accepted := rfl
  sent := rfl
  input := by
    intro bytes h
    cases h
    rfl

lemma droppedTrip_log : droppedTrip.log =
    [.freed, .responded droppedTrip.out false, .ran droppedTrip.res, .arrived 1 droppedTrip.wire] := by decide

lemma droppedTrip_completes : droppedTrip.Completes where
  service := ⟨true, 0, 0, _, 0, rfl⟩
  arrived := ⟨1, by simp [droppedTrip_log]⟩
  ran := by simp [droppedTrip_log]
  responded := ⟨false, by simp [droppedTrip_log]⟩
  awaits := ⟨by decide, _, rfl, rfl, rfl⟩

theorem dmabuf_sink_filled_iff_dropped :
    (∃ result, Truncates droppedTrip.run result) ∧
    ∀ result, Truncates droppedTrip.run result → ∀ w,
      Memory.read ((droppedTrip.host (some 65536) 8192 3 w).1.dmabuf 3) 0 (min result.length 8192) =
          result.take 8192 ↔
        nkvxInlineMax < min result.length 8192 ∨
          Memory.read (w.dmabuf 3) 0 (min result.length 8192) = result.take 8192 :=
  dmabuf_sink_filled_iff toyApi droppedTrip (some 65536) 8192 3 droppedTrip_call droppedTrip_completes rfl

/-- The call completes with `SUCCESS` and the length 8, and no byte of the result is in the sink. -/
theorem short_result_dropped :
    droppedTrip.DmabufCall (some 65536) 8192 3 ∧ droppedTrip.Completes ∧
      droppedTrip.res = ⟨.success, 8, some [3, 0, 0, 0, 0, 0, 0, 0]⟩ ∧
      (droppedTrip.host (some 65536) 8192 3 default).2 = (.success, 8) ∧
      Memory.read ((droppedTrip.host (some 65536) 8192 3 default).1.dmabuf 3) 0 8 =
        [0, 0, 0, 0, 0, 0, 0, 0] :=
  ⟨droppedTrip_call, droppedTrip_completes, by decide, rfl, rfl⟩

end RadosNkv
