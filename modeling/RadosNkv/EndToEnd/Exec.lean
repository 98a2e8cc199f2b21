import RadosNkv.EndToEnd.Get

/-! An Exec from end to end: the clients that drive it through one bidirectional buffer, and the
forwarder. -/

namespace RadosNkv

open List Memory

open Memory (Seg)

variable {σ : Type}

section

variable (disk : KvradosDisk)

def forwardedCall (mem : HostMem) (cmd : NvmeCmd) : Option ExecCall :=
  let iovs := transportIovs cmd
  let payloadLen := Memory.total iovs
  if cmd.opc = opcKvExec then
    let (key, valueOff) := (kvradosParseInpayloadKey mem iovs payloadLen).getD ([], 0)
    (kvradosExecCall disk .good mem cmd iovs key valueOff payloadLen).toOption
  else none

variable (front : NkvxFront σ)

def notedTarget : VfuTarget (σ × Option ExecCall) :=
  fun s mem cmd =>
    let r := forwarderTarget disk front s.1 mem cmd
    ((r.1, forwardedCall disk mem cmd), r.2)

/-- The op is allowed and bound, with capabilities within the highest tier. -/
def KvradosDisk.Binds (opId : Nat) (b : ResolvedBinding) : Prop :=
  ∃ e, kvradosExecOpAllowed disk opId = some e ∧ e.binding = some b ∧ b.caps ≤ execCapsTierMax

/-- The module computes `f` of the input it is handed: it reports the length of the result, delivers
what fits the sink and says whether everything did. -/
def Computes (b : ResolvedBinding) (opId : Nat) (key : Bytes)
    (f : Bytes → Bytes) : Prop :=
  ∀ (s : σ) (call : ExecCall), call.binding = b → call.opId = opId → call.key = key → call.inputLen < 2 ^ 32 →
    (call.input.getD []).length = call.inputLen →
      (execModule disk front s call).2.status = fitStatus (f (call.input.getD [])).length call.outLen ∧
      (execModule disk front s call).2.resultLen = (f (call.input.getD [])).length ∧
      ((execModule disk front s call).2.buf.getD []).take call.outLen = (f (call.input.getD [])).take call.outLen

/-- The module got exactly the input, and the host what fits of the result. -/
def ExecExact (f : Bytes → Bytes) (input : Bytes) (outLen : Nat)
    (r : VfuWorld (σ × Option ExecCall) × ExecReturn) : Prop :=
  (∃ call, r.1.target.2 = some call ∧ call.inputLen = input.length ∧ call.input.getD [] = input) ∧
    ∃ rc reported, r.2 = some (rc, (f input).take outLen, reported)

def nativeBinding (name : Bytes) : ResolvedBinding := ⟨.nkvx, some (cstr ['n', 'k', 'v', 'x']), some name, none, 0⟩

lemma execModule_native (s : σ) {call : ExecCall}
    (hb : call.binding = nativeBinding name)
    (hr : (kvradosNativeBuiltinExec (some name) call.input call.inputLen call.sink).status ≠
      .notSupported) :
    execModule disk front s call = (s, kvradosNativeBuiltinExec (some name) call.input call.inputLen call.sink) := by
  unfold execModule
  rw [hb]
  exact if_pos ⟨rfl, rfl, hr⟩

lemma inputecho_computes (opId : Nat) (key : Bytes) :
    Computes disk front (nativeBinding inputecho) opId key id := by
  intro s call hb _ _ _ hl
  have hr : ∃ buf, kvradosNativeBuiltinExec (some inputecho) call.input call.inputLen call.sink =
      ⟨fitStatus call.inputLen call.outLen, call.inputLen, buf⟩ ∧
        (buf.getD []).take call.outLen = (call.input.getD []).take call.outLen := by
    unfold kvradosNativeBuiltinExec
    rw [if_neg (by decide), if_pos rfl]
    change ∃ buf, (if min call.outLen call.inputLen > 0 then _ else _) = _ ∧ _
    by_cases hm : min call.outLen call.inputLen > 0
    · rw [if_pos hm]
      cases hi : call.input with
      | none =>
        rw [hi] at hl
        simp only [Option.getD_none, length_nil] at hl
        omega
      | some bytes =>
        rw [hi, Option.getD_some] at hl
        refine ⟨some (bytes.take (min call.outLen call.inputLen)), rfl, ?_⟩
        rw [Option.getD_some, Option.getD_some, take_take, ← hl, ← Nat.min_assoc, Nat.min_self, ← take_eq_take_min]
    refine ⟨none, by rw [if_neg hm]; rfl, ?_⟩
    have he : call.outLen = 0 ∨ (call.input.getD []).length = 0 := by omega
    rcases he with hz | hz
    · rw [hz]
      rfl
    rw [eq_nil_of_length_eq_zero hz]
    rfl
  obtain ⟨buf, hr, hu⟩ := hr
  rw [execModule_native disk front s hb (by rw [hr, fitStatus]; split <;> simp), hr]
  exact ⟨by rw [id, hl], by rw [id, hl], hu⟩

end

variable {key : Bytes} {disk : KvradosDisk} {b : ResolvedBinding} {f : Bytes → Bytes} {outLen : Nat}
  (report : Nat → Nat → Nat)

lemma noted_exec (front : NkvxFront σ) (s : σ × Option ExecCall) {cmd : NvmeCmd}
    (ho : cmd.opc = opcKvExec) (hc : forwardedCall disk mem cmd = some call) :
    notedTarget disk front s mem cmd =
      (((execModule disk front s.1 call).1, some call), frontDeliver mem call.sink (execModule disk front s.1 call).2,
        kvradosComplete (execModule disk front s.1 call).2.status (execModule disk front s.1 call).2.resultLen) := by
  have hm := hc
  unfold forwardedCall at hm
  rw [if_pos ho] at hm
  unfold notedTarget
  rw [hc]
  unfold forwarderTarget kvradosHandleKvIo
  rw [ho]
  simp only [opcKvExec, opcKvStore, opcKvDelete, opcKvRetrieve, opcKvExist, opcKvList, kvradosHandleExec]
  generalize (kvradosParseInpayloadKey mem (transportIovs cmd) (total (transportIovs cmd))).getD ([], 0) =
    parsed at hm ⊢
  obtain ⟨key, valueOff⟩ := parsed
  dsimp only at hm ⊢
  cases hx : kvradosExecCall disk .good mem cmd (transportIovs cmd) key valueOff (total (transportIovs cmd)) with
  | error status =>
    rw [hx] at hm
    cases hm
  | ok made =>
    rw [hx] at hm
    cases hm
    simp

lemma forwardedCall_eq {cmd : NvmeCmd} (ho : cmd.opc = opcKvExec) (hn : disk.Binds cmd.cdw13 b)
    (hy : payload mem (transportIovs cmd) = leU16 key.length ++ key ++ rest) (hp : 0 < key.length)
    (hm : key.length ≤ 255) (htl : total (transportIovs cmd) < 2 ^ 32) :
    ∃ input, forwardedCall disk mem cmd = some
        ⟨b, cmd.cdw13, key, rest.length, input, execSink (transportIovs cmd) (2 + key.length) cmd.cdw12⟩ ∧
      input.getD [] = rest := by
  obtain ⟨e, ha, hb, hc⟩ := hn
  have hr := parse_eq mem (transportIovs cmd) hy hp hm
  obtain ⟨input, hi, hby⟩ := execInput_eq mem (transportIovs cmd) (2 + key.length) htl
  have hl : total (transportIovs cmd) - (2 + key.length) = rest.length := by
    rw [← length_payload mem, hy, length_append, length_keyHead, Nat.add_sub_cancel_left]
  have hk : key ≠ [] := ne_nil_of_length_pos hp
  have ht : ¬ b.caps > execCapsTierMax := Nat.not_lt.mpr hc
  rw [hl] at hi
  rw [hy, drop_left' (length_keyHead key)] at hby
  refine ⟨input, ?_, hby⟩
  unfold forwardedCall kvradosExecCall
  rw [if_pos ho, hr, Option.getD_some]
  dsimp only
  rw [if_neg hk, ha]
  dsimp only
  rw [hb]
  dsimp only
  rw [if_neg ht]
  dsimp only [KvIoEnv.good]
  rw [hi]
  rfl

lemma execSink_outLen (v : Seg) (vs : List Seg) (off osize : Nat) :
    ((execSink (v :: vs) off osize).map Prod.snd).getD 0 = min (v.len - off) osize := by
  unfold execSink
  dsimp only
  by_cases hr : v.len > off
  · rw [if_pos hr]
    rfl
  rw [if_neg hr, Nat.sub_eq_zero_of_le (Nat.le_of_not_lt hr), Nat.zero_min]
  rfl

lemma deliver_execSink (mem : HostMem) (v : Seg) (vs : List Seg) (off osize : Nat) (res : ExecResult) :
    frontDeliver mem (execSink (v :: vs) off osize) res =
      write mem (v.base + off) ((res.buf.getD []).take (min (v.len - off) osize)) := by
  unfold execSink
  dsimp only
  by_cases hr : v.len > off
  · rw [if_pos hr]
    rfl
  rw [if_neg hr, Nat.sub_eq_zero_of_le (Nat.le_of_not_lt hr), Nat.zero_min, take_zero, write_nil]
  rfl

variable {front : NkvxFront σ}

lemma noted_request (s : σ × Option ExecCall) (mem : HostMem) (cmd : NvmeCmd)
    (ho : cmd.opc = opcKvExec) (hbn : disk.Binds cmd.cdw13 b)
    (hf : Computes disk front b cmd.cdw13 key f) (hi : transportIovs cmd = v :: vs)
    (hy : payload mem (v :: vs) = leU16 key.length ++ key ++ seen) (hp : 0 < key.length)
    (hm : key.length ≤ 255) (ht : total (v :: vs) < 2 ^ 32)
    (hr : room = min (v.len - (2 + key.length)) cmd.cdw12) :
    ∃ s' call, notedTarget disk front s mem cmd =
        ((s', some call), write mem (v.base + (2 + key.length)) ((f seen).take room),
          kvradosComplete (fitStatus (f seen).length room) (f seen).length) ∧
      call.inputLen = seen.length ∧ call.input.getD [] = seen := by
  rw [← hi] at hy ht
  obtain ⟨input, hc, hby⟩ := forwardedCall_eq ho hbn hy hp hm ht
  have hz : seen.length < 2 ^ 32 := by
    rw [← length_payload mem, hy, length_append] at ht
    omega
  generalize hd : ExecCall.mk b cmd.cdw13 key seen.length input
    (execSink (transportIovs cmd) (2 + key.length) cmd.cdw12) = call at hc
  have hs : call.input.getD [] = seen := by rw [← hd, hby]
  have hn : call.inputLen = seen.length := by rw [← hd]
  have hk : call.sink = execSink (v :: vs) (2 + key.length) cmd.cdw12 := by rw [← hd, hi]
  have hu : call.outLen = room := by rw [ExecCall.outLen, hk, execSink_outLen, hr]
  obtain ⟨hst, hl, hb⟩ := hf s.1 call (by rw [← hd]) (by rw [← hd]) (by rw [← hd])
    (by rwa [hn]) (by rw [hs, hn])
  rw [hs, hu] at hst hb
  rw [hs] at hl
  refine ⟨(execModule disk front s.1 call).1, call, ?_, hn, hs⟩
  rw [noted_exec front s ho hc, hst, hl, hk, deliver_execSink, ← hr, hb]

def handedOver (key input : Bytes) (outLen : Nat) : Bytes :=
  input ++ List.replicate (outLen - (2 + key.length + input.length)) 0

def resultRoom (buf : DmaAlloc) (key input : Bytes) (outLen : Nat) : Nat :=
  min (min (firstChunk buf.iova) (max (2 + key.length + input.length) outLen) - (2 + key.length)) outLen

lemma read_handedOver (mem : HostMem) (buf : DmaAlloc) (key input : Bytes) (outLen : Nat)
    (hf : 2 + key.length + input.length ≤ max outLen 4096) :
    read (stageRequest (dmaZmalloc mem buf (max outLen 4096)) buf.iova key.length key input) buf.iova
        (max (2 + key.length + input.length) outLen) = leU16 key.length ++ key ++ handedOver key input outLen := by
  have hl : (leU16 key.length ++ key ++ input).length = 2 + key.length + input.length := by
    rw [length_append, length_keyHead]
  have hz : min (max (2 + key.length + input.length) outLen - (2 + key.length + input.length))
      (max outLen 4096 - (2 + key.length + input.length)) = outLen - (2 + key.length + input.length) := by omega
  rw [read_stageRequest mem buf key input (by omega), take_append, hl,
    take_of_length_le (by omega), take_replicate, hz, handedOver, append_assoc _ input]

variable {w : VfuWorld (σ × Option ExecCall)}

lemma execThroughDptr_eq (hs : w.pair.Settled) (nsid : Nat) (k : CStr) (hp : 0 < k.bytes.length)
    (hm : k.bytes.length ≤ 255) (hbn : disk.Binds opId b)
    (hf : Computes disk front b opId k.bytes f) (input : Bytes) (outLen : Nat)
    (hfi : 2 + k.bytes.length + input.length ≤ max outLen 4096) (ho : outLen < 2 ^ 32)
    (buf : DmaAlloc) (head : Option DmaAlloc) (hsn : seen = handedOver k.bytes input outLen)
    (hr : result = f seen) : ∃ w' call,
      execThroughDptr report (notedTarget disk front) w nsid k opId input outLen ⟨some buf, head, true⟩ =
        (w', some (if result.length ≤ resultRoom buf k.bytes input outLen then
            (0, (leU16 k.bytes.length ++ k.bytes ++ result).take result.length, report result.length outLen)
          else (-eIo, [], 0))) ∧ w'.target.2 = some call ∧ call.inputLen = seen.length ∧ call.input.getD [] = seen := by
  have hk := k.len_mod hm
  have hsm : (2 + k.bytes.length + input.length) % 2 ^ 32 = 2 + k.bytes.length + input.length :=
    Nat.mod_eq_of_lt (by omega)
  have hg := read_handedOver w.mem buf k.bytes input outLen hfi
  rw [← hsn] at hg
  have hh : read (stageRequest (dmaZmalloc w.mem buf (max outLen 4096)) buf.iova k.bytes.length k.bytes
      input) buf.iova (2 + k.bytes.length) = leU16 k.bytes.length ++ k.bytes := by
    rw [read_stageRequest w.mem buf k.bytes input (by omega), append_assoc _ input]
    exact take_left' (length_keyHead _)
  obtain ⟨rest, hdp, hbl⟩ := setDptr_eq buf.iova (max (2 + k.bytes.length + input.length) outLen)
  unfold execThroughDptr
  dsimp only
  rw [hk, hsm, if_neg (by omega), if_neg (by omega), hdp]
  dsimp only
  generalize stageRequest (dmaZmalloc w.mem buf (max outLen 4096)) buf.iova k.bytes.length k.bytes input = mem
    at hg hh ⊢
  have hy := hbl mem
  rw [map_cons] at hy
  have hn := congrArg List.length hy
  rw [hg] at hy
  rw [length_payload, length_read] at hn
  obtain ⟨s', call, htr, hi, hby⟩ := noted_request w.target mem
    { execCmd nsid (2 + k.bytes.length + input.length) outLen opId
      (⟨buf.iova, min (firstChunk buf.iova) (max (2 + k.bytes.length + input.length) outLen)⟩ :: rest) with
        cid := w.pair.q.cid } rfl hbn hf rfl hy hp hm (hn.trans_lt (by omega))
    (show resultRoom buf k.bytes input outLen = _ from rfl)
  obtain ⟨pair, cpl, he, -, ht, hsc, hd0⟩ := submitPoll_settled (w := { w with mem }) hs htr
  rw [← hr] at he ht hsc hd0
  rw [he]
  dsimp only [kvradosComplete] at ht hsc hd0 ⊢
  generalize ha : write mem (buf.iova + (2 + k.bytes.length))
    (result.take (resultRoom buf k.bytes input outLen)) = after
  refine ⟨⟨pair, after, s', some call⟩, call, ?_, rfl, hi, hby⟩
  by_cases hl : result.length ≤ resultRoom buf k.bytes input outLen
  · have hts : fitStatus result.length (resultRoom buf k.bytes input outLen) = .success :=
      if_neg (Nat.not_lt.mpr hl)
    have hc : result.length ≤ outLen := Nat.le_trans hl (Nat.min_le_right ..)
    have hok := (nvfuStatus_eq_zero_iff ht hsc).mpr hts
    have hcp : read after buf.iova result.length =
        (leU16 k.bytes.length ++ k.bytes ++ result).take result.length := by
      rw [← ha, take_of_length_le hl, read_write_after mem _ _ result (Nat.le_add_left ..), hh]
    rw [if_pos hl, hok, hd0, Nat.min_eq_left hc, hcp]
    rfl
  have hts : fitStatus result.length (resultRoom buf k.bytes input outLen) = .bufferTooSmall :=
    if_pos (Nat.lt_of_not_le hl)
  have hb : nvfuStatus cpl ≠ 0 := fun hz => by
    cases hts.symm.trans ((nvfuStatus_eq_zero_iff ht hsc).mp hz)
  rw [if_neg hl, if_pos (Int.natCast_ne_zero.mpr hb)]

variable {input : Bytes}

lemma execThroughDptr_overrun (target : VfuTarget σ) (w : VfuWorld σ) (nsid : Nat) (k : CStr)
    (hm : k.bytes.length ≤ 255) (opId : Nat) (ha : (2 + k.bytes.length + input.length) % 2 ^ 32 ≤ max outLen 4096)
    (hl : max outLen 4096 < 2 + k.bytes.length + input.length) (buf : DmaAlloc) (head : Option DmaAlloc) (segs : Bool)
    : (execThroughDptr report target w nsid k opId input outLen ⟨some buf, head, segs⟩).2 = none := by
  have hk := k.len_mod hm
  unfold execThroughDptr
  dsimp only
  rw [hk, if_neg (not_lt.mpr ha), if_pos hl]

/-- Key, input and result fit one buffer, the result before its first region boundary. -/
def ExecFits (buf : DmaAlloc) (key input result : Bytes) (outLen : Nat) : Prop :=
  2 + key.length + input.length < 2 ^ 32 ∧ outLen ≤ 2 + key.length + input.length ∧
    (outLen = 0 ∨
      (result.length ≤ input.length ∧ result.length ≤ outLen ∧
        2 + key.length + result.length ≤ firstChunk buf.iova ∧ result <+: leU16 key.length ++ key ++ result))

lemma handedOver_eq_iff (key input : Bytes) (outLen : Nat) :
    handedOver key input outLen = input ↔ outLen ≤ 2 + key.length + input.length := by
  simp [handedOver, Nat.sub_eq_zero_iff_le]

lemma le_resultRoom_iff (buf : DmaAlloc) (hm : key.length ≤ 255)
    (ho : outLen ≤ 2 + key.length + input.length) (n : Nat) : n ≤ resultRoom buf key input outLen ↔
      n ≤ input.length ∧ n ≤ outLen ∧ 2 + key.length + n ≤ firstChunk buf.iova := by
  have hp := page_le_firstChunk buf
  unfold resultRoom
  rw [max_eq_left ho]
  omega

lemma copied_iff (buf : DmaAlloc) {result : Bytes} (hm : key.length ≤ 255)
    (ho : outLen ≤ 2 + key.length + input.length) :
    (∃ rc n, (some (if result.length ≤ resultRoom buf key input outLen then
        (0, (leU16 key.length ++ key ++ result).take result.length, reported)
        else (-eIo, [], 0)) : ExecReturn) = some (rc, result.take outLen, n)) ↔
      outLen = 0 ∨ (result.length ≤ input.length ∧ result.length ≤ outLen ∧
        2 + key.length + result.length ≤ firstChunk buf.iova ∧ result <+: leU16 key.length ++ key ++ result) := by
  have hr := le_resultRoom_iff buf hm ho result.length
  by_cases hl : result.length ≤ resultRoom buf key input outLen
  · obtain ⟨hi, hc, hch⟩ := hr.mp hl
    rw [if_pos hl, take_of_length_le hc]
    constructor
    · rintro ⟨rc, n, hq⟩
      simp only [Option.some.injEq, Prod.mk.injEq] at hq
      exact .inr ⟨hi, hc, hch, prefix_iff_eq_take.mpr hq.2.1.symm⟩
    intro hf
    refine ⟨0, reported, ?_⟩
    have hh : result <+: leU16 key.length ++ key ++ result := by
      rcases hf with hz | ⟨-, -, -, hh⟩
      · have hn : result = [] := eq_nil_of_length_eq_zero (by omega)
        rw [hn]
        exact nil_prefix
      · exact hh
    rw [← prefix_iff_eq_take.mp hh]
  rw [if_neg hl]
  constructor
  · rintro ⟨rc, n, hq⟩
    simp only [Option.some.injEq, Prod.mk.injEq] at hq
    have he := congrArg List.length hq.2.1
    rw [length_take, length_nil] at he
    exact .inl (by omega)
  rintro (hz | ⟨hi, hc, hch, -⟩)
  · exact ⟨-eIo, 0, by rw [hz, take_zero]⟩
  · exact absurd (hr.mpr ⟨hi, hc, hch⟩) hl

lemma execThroughDptr_exact_iff (hs : w.pair.Settled) (nsid : Nat) (k : CStr)
    (hp : 0 < k.bytes.length) (hm : k.bytes.length ≤ 255) (hbn : disk.Binds opId b)
    (hf : Computes disk front b opId k.bytes f) (input : Bytes) (ho : outLen < 2 ^ 32)
    (ha : (2 + k.bytes.length + input.length) % 2 ^ 32 ≤ max outLen 4096) (buf : DmaAlloc)
    (head : Option DmaAlloc) :
    ExecExact f input outLen
        (execThroughDptr report (notedTarget disk front) w nsid k opId input outLen ⟨some buf, head, true⟩) ↔
      ExecFits buf k.bytes input (f input) outLen := by
  by_cases hfi : 2 + k.bytes.length + input.length ≤ max outLen 4096
  · obtain ⟨w', call, he, hcl, hl, hb⟩ := execThroughDptr_eq report hs nsid k hp hm hbn hf input outLen
      hfi ho buf head rfl rfl
    rw [he]
    constructor
    · rintro ⟨⟨made, hd, -, hi⟩, hcp⟩
      obtain rfl : made = call := Option.some.inj (hd.symm.trans hcl)
      have hsm : handedOver k.bytes input outLen = input := hb.symm.trans hi
      have hc := (handedOver_eq_iff ..).mp hsm
      rw [hsm] at hcp
      exact ⟨by omega, hc, (copied_iff buf hm hc).mp hcp⟩
    rintro ⟨-, hc, hcp⟩
    have hsm := (handedOver_eq_iff ..).mpr hc
    rw [hsm] at hl hb ⊢
    exact ⟨⟨call, hcl, hl, hb⟩, (copied_iff buf hm hc).mpr hcp⟩
  have hn := execThroughDptr_overrun report (notedTarget disk front) w nsid k hm opId ha
    (Nat.lt_of_not_le hfi) buf head true
  constructor
  · rintro ⟨-, rc, n, hso⟩
    rw [hn] at hso
    cases hso
  rintro ⟨hw, -, -⟩
  rw [Nat.mod_eq_of_lt hw] at ha
  exact absurd ha hfi

/-- An accepted Exec of either client is exact exactly when it fits. -/
theorem exec_exact_iff (disk : KvradosDisk) (front : NkvxFront σ)
    (w : VfuWorld (σ × Option ExecCall))
    (hs : w.pair.Settled) (nsid : Nat) (k : CStr) (hpos : 0 < k.bytes.length)
    (hmax : k.bytes.length ≤ 255)
    (opId : Nat) (b : ResolvedBinding) (f : Bytes → Bytes) (hbind : disk.Binds opId b)
    (hf : Computes disk front b opId k.bytes f) (input : Bytes) (outLen : Nat)
    (hout : outLen < 2 ^ 32)
    (haccept : (2 + k.bytes.length + input.length) % 2 ^ 32 ≤ max outLen 4096) (buf : DmaAlloc)
    (head : Option DmaAlloc) :
    (ExecExact f input outLen
        (NkvxShim.nkvxExec (notedTarget disk front) w nsid k opId input outLen
          ⟨some buf, head, true⟩) ↔
      ExecFits buf k.bytes input (f input) outLen) ∧
    (ExecExact f input outLen
        (nvfuKvExec (notedTarget disk front) w nsid k opId input outLen ⟨some buf, head, true⟩) ↔
      ExecFits buf k.bytes input (f input) outLen) :=
  ⟨execThroughDptr_exact_iff _ hs nsid k hpos hmax hbind hf input hout haccept buf head,
    execThroughDptr_exact_iff _ hs nsid k hpos hmax hbind hf input hout haccept buf head⟩

def echoDisk : KvradosDisk := ⟨false, [⟨1, some (nativeBinding inputecho)⟩]⟩

def localFront : NkvxFront Unit where
  kv := fun s _ => (s, .only .notSupported)
  list := fun _ _ => .only .notSupported
  exec := fun s _ _ => (s, .only .notSupported)

def echoWorld : VfuWorld (Unit × Option ExecCall) := ⟨.init ioQEntries, fun _ => 0, (), none⟩

lemma echoDisk_binds : echoDisk.Binds 1 (nativeBinding inputecho) :=
  ⟨_, rfl, rfl, by decide⟩

theorem echo_one_exact :
    ExecExact id [1] 1
      (NkvxShim.nkvxExec (notedTarget echoDisk localFront) echoWorld 1 ⟨[1], by decide⟩ 1 [1] 1
      ⟨some ⟨0, rfl⟩, none, true⟩) ∧
    ExecExact id [1] 1
      (nvfuKvExec (notedTarget echoDisk localFront) echoWorld 1 ⟨[1], by decide⟩ 1 [1] 1
      ⟨some ⟨0, rfl⟩, none, true⟩) := by
  have hfits : ExecFits ⟨0, rfl⟩ [1] [1] (id [1]) 1 :=
    ⟨by decide, by decide, .inr ⟨by decide, by decide, by decide, by decide⟩⟩
  have hiff := exec_exact_iff echoDisk localFront echoWorld (settled_init (by decide)) 1 ⟨[1], by decide⟩ (by decide)
    (by decide) 1 _ id echoDisk_binds (inputecho_computes _ _ _ _) [1] 1 (by decide) (by decide) ⟨0, rfl⟩ none
  exact ⟨hiff.1.mpr hfits, hiff.2.mpr hfits⟩

/-- The echo of one byte returns the low byte of the key length; with room for eight bytes of output
the module observes four zeros behind the byte. -/
theorem echo_returns_key_head :
    (NkvxShim.nkvxExec (notedTarget echoDisk localFront) echoWorld 1 ⟨[7], by decide⟩ 1 [5] 1
      ⟨some ⟨0, rfl⟩, none, true⟩).2 = some (0, [1], 1) ∧
    ¬ ExecExact id [5] 1
      (NkvxShim.nkvxExec (notedTarget echoDisk localFront) echoWorld 1 ⟨[7], by decide⟩ 1 [5] 1
      ⟨some ⟨0, rfl⟩, none, true⟩) ∧
    ∃ call, (NkvxShim.nkvxExec
      (notedTarget echoDisk localFront) echoWorld 1 ⟨[7], by decide⟩ 1 [5] 8
      ⟨some ⟨0, rfl⟩, none, true⟩).1.target.2 = some call ∧
        call.input.getD [] = [5, 0, 0, 0, 0] := by
  have heq := fun outLen hfit hout => execThroughDptr_eq (fun cdw0 _ => cdw0) (w := echoWorld)
    (settled_init (by decide)) 1 ⟨[7], by decide⟩ (by decide) (by decide) echoDisk_binds
    (inputecho_computes echoDisk localFront 1 [7]) [5] outLen hfit hout ⟨0, rfl⟩ none rfl rfl
  obtain ⟨w', call, hret, -⟩ := heq 1 (by decide) (by decide)
  have hbyte := congrArg Prod.snd hret
  refine ⟨hbyte.trans rfl, ?_, ?_⟩
  · rintro ⟨-, rc, n, hexc⟩
    exact absurd (hbyte.symm.trans hexc) (by simp [handedOver, leU16, resultRoom, firstChunk, nvfuDmaRegion])
  obtain ⟨w', call, hret, hcl, -, hsn⟩ := heq 8 (by decide) (by decide)
  refine ⟨call, ?_, hsn⟩
  rw [← hcl]
  exact congrArg (fun r => r.1.target.2) hret

end RadosNkv
