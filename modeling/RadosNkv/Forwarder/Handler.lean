import RadosNkv.Executor.BaseVerbs
import RadosNkv.Library.Memory
import RadosNkv.Nvme

/-! The forwarder's command handler (`bdev_kvrados.c`): it parses the key of the payload, finds the
value or the result sink in the host's segments, forwards the verb and completes the command with
the mapped status. -/

namespace RadosNkv

open List Memory

open Memory (Seg)

def kvradosKeyHdrLen : Nat := 2
def kvradosKeyMaxLen : Nat := 255

def kvradosGather (mem : HostMem) : List Seg → Nat → Nat → Nat → Bytes
  | [], _, _, _ => []
  | v :: vs, pos, off, n =>
    if n = 0 then []
    else if off ≥ pos + v.len then kvradosGather mem vs (pos + v.len) off n
    else
      let segOff := if off > pos then off - pos else 0
      let take := min (v.len - segOff) n
      Memory.read mem (v.base + segOff) take ++
        kvradosGather mem vs (pos + v.len) (pos + v.len) (n - take)

def fromLe16 : Bytes → Nat
  | [lo, hi] => lo.toNat + 256 * hi.toNat
  | _ => 0

def kvradosParseInpayloadKey (mem : HostMem) (iovs : List Seg) (payloadLen : Nat) :
    Option (Bytes × Nat) :=
  if payloadLen < kvradosKeyHdrLen then none
  else
    let hdr := kvradosGather mem iovs 0 0 kvradosKeyHdrLen
    let keyLen := fromLe16 hdr
    if hdr.length ≠ kvradosKeyHdrLen then none
    else if keyLen = 0 ∨ keyLen > kvradosKeyMaxLen then none
    else if payloadLen < kvradosKeyHdrLen + keyLen then none
    else
      let key := kvradosGather mem iovs 0 kvradosKeyHdrLen keyLen
      if key.length ≠ keyLen then none else some (key, kvradosKeyHdrLen + keyLen)

def kvradosKvdevStatusToNvme : IoStatus → Nat × Nat
  | .success => (sctGeneric, scSuccess)
  | .keyNotExist => (sctCommandSpecific, scKvKeyDoesNotExist)
  | .keyExist => (sctCommandSpecific, scKeyExists)
  | .bufferTooSmall => (sctCommandSpecific, scCapacityExceeded)
  | .invalid => (sctGeneric, scInvalidField)
  | .nomem => (sctGeneric, scInternalDeviceError)
  | .notSupported => (sctGeneric, scInvalidOpcode)
  | .readOnly => (sctCommandSpecific, scAttemptedWriteToRoRange)
  | .aborted => (sctGeneric, scAbortedByRequest)
  | .failed => (sctGeneric, scInternalDeviceError)

def kvradosComplete (status : IoStatus) (valueLen : Nat) : NvmeStatus :=
  ⟨(kvradosKvdevStatusToNvme status).1, (kvradosKvdevStatusToNvme status).2, valueLen⟩

def kvradosReject (sct sc : Nat) : NvmeStatus := ⟨sct, sc, 0⟩

def execCapsTierMax : Nat := 3

structure ResolvedBinding where
  runtime : Runtime
  moduleNs : Option Bytes
  moduleKey : Option Bytes
  sha256 : Option Bytes
  caps : Nat

structure ExecEntry where
  opId : Nat
  binding : Option ResolvedBinding

structure KvradosDisk where
  readOnly : Bool
  execAllowlist : List ExecEntry

def kvradosExecOpAllowed (disk : KvradosDisk) (opId : Nat) : Option ExecEntry :=
  disk.execAllowlist.find? fun e => e.opId = opId

structure NkvxFront (σ : Type) where
  kv : σ → BaseRequest → σ × ExecResult
  list : σ → KvIn → ExecResult
  exec : σ → ExecIn → Option Bytes → σ × ExecResult

structure KvIoEnv where
  kctx : Bool
  bounce : Bool

def KvIoEnv.good : KvIoEnv := ⟨true, true⟩

variable {σ : Type}

def kvRequest (verb : KvVerb) (readOnly : Bool) (key : Bytes) : KvIn where
  verb := verb
  readOnly := readOnly
  clientCallId := 0
  key := key
  osize := 0
  storeFlags := 0
  valueLen := 0
  valueInline := none
  valueBulk := none
  resultSink := none

def frontDeliver (mem : HostMem) (sink : Option (Nat × Nat)) (res : ExecResult) : HostMem :=
  match sink with
  | none => mem
  | some (base, len) => Memory.write mem base ((res.buf.getD []).take len)

def spanAt : List Seg → Nat → Nat → Option (Nat × Nat)
  | [], _, _ => none
  | v :: vs, ioOff, off =>
    if off < ioOff + v.len then some (v.base + (off - ioOff), v.len - (off - ioOff))
    else spanAt vs (ioOff + v.len) off

def kvradosDecodeStoreFlags (cmd : NvmeCmd) : Nat :=
  (if cmd.ro.testBit 0 then 1 else 0) + (if cmd.ro.testBit 1 then 2 else 0)

section

variable (disk : KvradosDisk)

def retrieveRequest (key : Bytes) (osize : Nat) : BaseRequest :=
  .retrieve { kvRequest .retrieve disk.readOnly key with osize }

variable (env : KvIoEnv)

variable (front : NkvxFront σ)

def handleRetrieve (s : σ) (mem : HostMem)
    (iovs : List Seg) (key : Bytes) (valueOff : Nat) : σ × HostMem × NvmeStatus :=
  let sink := spanAt iovs 0 valueOff
  let outLen := min (sink.map Prod.snd |>.getD 0) (2 ^ 32 - 1)
  if !env.kctx then (s, mem, kvradosReject sctGeneric scInternalDeviceError)
  else
    let r := front.kv s (retrieveRequest disk key outLen)
    (r.1, frontDeliver mem (sink.map fun p => (p.1, outLen)) r.2, kvradosComplete r.2.status r.2.resultLen)

/-- The value of a Store: a small one that stands in one segment is handed over where it is, any
other is gathered into a bounce buffer. -/
def storeValue (mem : HostMem) (iovs : List Seg) (valueOff valueLen : Nat) (bounce : Bool) :
    Except Unit (Option Bytes) :=
  if valueLen = 0 then .ok none
  else
    match spanAt iovs 0 valueOff with
    | some (base, len) =>
      if valueLen ≤ nkvxInlineMax ∧ len ≥ valueLen then .ok (some (Memory.read mem base valueLen))
      else if bounce then .ok (some (kvradosGather mem iovs 0 valueOff valueLen))
      else .error ()
    | none => if bounce then .ok (some (kvradosGather mem iovs 0 valueOff valueLen)) else .error ()

def handleStore (s : σ) (mem : HostMem)
    (cmd : NvmeCmd) (iovs : List Seg) (key : Bytes) (valueOff payloadLen : Nat) :
    σ × HostMem × NvmeStatus :=
  let valueLen := min (payloadLen - valueOff) (2 ^ 32 - 1)
  match storeValue mem iovs valueOff valueLen env.bounce with
  | .error () => (s, mem, kvradosReject sctGeneric scInternalDeviceError)
  | .ok value =>
    if !env.kctx then (s, mem, kvradosReject sctGeneric scInternalDeviceError)
    else
      let req := { kvRequest .store disk.readOnly key with
        storeFlags := kvradosDecodeStoreFlags cmd, valueLen := valueLen }
      let r := front.kv s (.store req value)
      (r.1, mem, kvradosComplete r.2.status r.2.resultLen)

/-- Delete and Exist return a status and no body. -/
def handleStatusOnly (s : σ) (mem : HostMem)
    (isDelete : Bool) (key : Bytes) : σ × HostMem × NvmeStatus :=
  if !env.kctx then (s, mem, kvradosReject sctGeneric scInternalDeviceError)
  else
    let r := front.kv s (if isDelete then .delete (kvRequest .delete disk.readOnly key)
      else .exist (kvRequest .exist disk.readOnly key))
    (r.1, mem, kvradosComplete r.2.status r.2.resultLen)

/-- The listing goes to the first segment. -/
def handleList (s : σ) (mem : HostMem)
    (iovs : List Seg) (start : Bytes) : σ × HostMem × NvmeStatus :=
  let sink := iovs.head?.map fun v => (v.base, min v.len (2 ^ 32 - 1))
  if !env.kctx then (s, mem, kvradosReject sctGeneric scInternalDeviceError)
  else
    let res := front.list s { kvRequest .list disk.readOnly start with osize := sink.map Prod.snd |>.getD 0 }
    (s, frontDeliver mem sink res, kvradosComplete res.status res.resultLen)

/-! ### Exec -/

/-- The input of an Exec: everything in the payload behind the key. -/
def execInput (mem : HostMem) (iovs : List Seg) (valueOff payloadLen : Nat) (bounce : Bool) :
    Except Unit (Nat × Option Bytes) :=
  if payloadLen > valueOff then
    let inputLen := min (payloadLen - valueOff) (2 ^ 32 - 1)
    match iovs with
    | v :: _ =>
      if v.len ≥ valueOff + inputLen then .ok (inputLen, some (Memory.read mem (v.base + valueOff) inputLen))
      else if inputLen > 0 then
        if bounce then .ok (inputLen, some (kvradosGather mem iovs 0 valueOff inputLen)) else .error ()
      else .ok (inputLen, none)
    | [] =>
      if inputLen > 0 then
        if bounce then .ok (inputLen, some (kvradosGather mem iovs 0 valueOff inputLen)) else .error ()
      else .ok (inputLen, none)
  else .ok (0, none)

def execSink (iovs : List Seg) (valueOff osize : Nat) : Option (Nat × Nat) :=
  match iovs with
  | v :: _ => if v.len > valueOff then some (v.base + valueOff, min (v.len - valueOff) osize) else none
  | [] => none

def inputlen : Bytes := cstr ['i', 'n', 'p', 'u', 't', 'l', 'e', 'n']
def inputecho : Bytes := cstr ['i', 'n', 'p', 'u', 't', 'e', 'c', 'h', 'o']

def kvradosNativeBuiltinExec (moduleKey : Option Bytes) (input : Option Bytes) (inputLen : Nat)
    (sink : Option (Nat × Nat)) : ExecResult :=
  let outLen := (sink.map Prod.snd).getD 0
  if moduleKey = some inputlen then
    let deliver := min outLen 8
    ⟨fitStatus 8 outLen, 8, if deliver > 0 then some ((leU64 inputLen).take deliver) else none⟩
  else if moduleKey = some inputecho then
    let deliver := min outLen inputLen
    if deliver > 0 then
      match input with
      | none => ⟨.invalid, inputLen, none⟩
      | some bytes => ⟨fitStatus inputLen outLen, inputLen, some (bytes.take deliver)⟩
    else ⟨fitStatus inputLen outLen, inputLen, none⟩
  else .only .notSupported

structure ExecCall where
  binding : ResolvedBinding
  opId : Nat
  key : Bytes
  inputLen : Nat
  input : Option Bytes
  sink : Option (Nat × Nat)

def ExecCall.outLen (c : ExecCall) : Nat := (c.sink.map Prod.snd).getD 0

/-- The run of the module an Exec is bound to: a native built-in in the forwarder, any other module
by the executor. -/
def execModule (s : σ) (c : ExecCall) : σ × ExecResult :=
  let native := kvradosNativeBuiltinExec c.binding.moduleKey c.input c.inputLen c.sink
  if c.binding.runtime = .nkvx ∧ c.binding.moduleNs = some (cstr ['n', 'k', 'v', 'x']) ∧
      native.status ≠ .notSupported then
    (s, native)
  else
    front.exec s
      { opId := c.opId
        clientCallId := 0
        readOnly := disk.readOnly
        runtime := c.binding.runtime
        caps := c.binding.caps
        key := c.key
        sha256 := c.binding.sha256.getD []
        sha256Valid := c.binding.sha256.isSome
        moduleKey := c.binding.moduleKey
        moduleNs := c.binding.moduleNs
        osize := c.outLen
        inputLen := c.inputLen
        inputInline := none
        inputBulk := none
        resultSink := none }
      c.input

/-- `kvrados_handle_exec` up to the run of the module: the allowlist, the binding and its tier, the
input and the sink. -/
def kvradosExecCall (mem : HostMem) (cmd : NvmeCmd)
    (iovs : List Seg) (key : Bytes) (valueOff payloadLen : Nat) : Except NvmeStatus ExecCall :=
  let osize := cmd.cdw12
  let opId := cmd.cdw13
  if key = [] then .error (kvradosReject sctGeneric scInvalidKeySize)
  else
    match kvradosExecOpAllowed disk opId with
    | none => .error (kvradosReject sctGeneric scInvalidOpcode)
    | some e =>
      match e.binding with
      | none => .error (kvradosReject sctGeneric scInvalidField)
      | some b =>
        if b.caps > execCapsTierMax then .error (kvradosReject sctGeneric scInvalidField)
        else
          match execInput mem iovs valueOff payloadLen env.bounce with
          | .error () => .error (kvradosReject sctGeneric scInternalDeviceError)
          | .ok (inputLen, input) =>
            let sink := execSink iovs valueOff osize
            if !env.kctx then .error (kvradosReject sctGeneric scInternalDeviceError)
            else .ok ⟨b, opId, key, inputLen, input, sink⟩

def kvradosHandleExec (s : σ) (mem : HostMem)
    (cmd : NvmeCmd) (iovs : List Seg) (key : Bytes) (valueOff payloadLen : Nat) :
    σ × HostMem × NvmeStatus :=
  match kvradosExecCall disk env mem cmd iovs key valueOff payloadLen with
  | .error status => (s, mem, status)
  | .ok call =>
    let r := execModule disk front s call
    (r.1, frontDeliver mem call.sink r.2, kvradosComplete r.2.status r.2.resultLen)

def kvradosHandleKvIo (s : σ) (mem : HostMem)
    (cmd : NvmeCmd) (iovs : List Seg) : σ × HostMem × NvmeStatus :=
  let payloadLen := Memory.total iovs
  let parsed := kvradosParseInpayloadKey mem iovs payloadLen
  if disk.readOnly ∧ (cmd.opc = opcKvStore ∨ cmd.opc = opcKvDelete) then
    (s, mem, kvradosReject sctCommandSpecific scAttemptedWriteToRoRange)
  else if cmd.opc = opcKvRetrieve then
    match parsed with
    | none => (s, mem, kvradosReject sctGeneric scInvalidField)
    | some (key, valueOff) => handleRetrieve disk env front s mem iovs key valueOff
  else if cmd.opc = opcKvStore then
    match parsed with
    | none => (s, mem, kvradosReject sctGeneric scInvalidField)
    | some (key, valueOff) => handleStore disk env front s mem cmd iovs key valueOff payloadLen
  else if cmd.opc = opcKvDelete ∨ cmd.opc = opcKvExist then
    match parsed with
    | none => (s, mem, kvradosReject sctGeneric scInvalidField)
    | some (key, _) => handleStatusOnly disk env front s mem (cmd.opc = opcKvDelete) key
  else if cmd.opc = opcKvList then
    handleList disk env front s mem iovs ((parsed.map Prod.fst).getD [])
  else if cmd.opc = opcKvExec then
    let (key, valueOff) := parsed.getD ([], 0)
    kvradosHandleExec disk env front s mem cmd iovs key valueOff payloadLen
  else (s, mem, kvradosReject sctGeneric scInvalidOpcode)

end

variable {key : Bytes} (mem : HostMem) (iovs : List Seg)

lemma gather_eq (n : Nat) (h : pos ≤ off) :
    kvradosGather mem iovs pos off n = ((Memory.payload mem iovs).drop (off - pos)).take n := by
  induction iovs generalizing pos off n with
  | nil => simp [kvradosGather]
  | cons v vs ih =>
    unfold kvradosGather
    by_cases hn : n = 0
    · simp [hn]
    rw [if_neg hn]
    by_cases hs : off ≥ pos + v.len
    -- The segment lies before the offset.
    · have hb : (read mem v.base v.len).drop (off - pos) = [] :=
        drop_eq_nil_of_le (by rw [length_read]; omega)
      have hr : off - (pos + v.len) = off - pos - v.len := by omega
      rw [if_pos hs, ih n hs, payload_cons, drop_append, length_read, hb, nil_append, hr]
    have hsgO : (if off > pos then off - pos else 0) = off - pos := by
      split <;> omega
    rw [if_neg hs]
    dsimp only
    rw [hsgO, ih _ (Nat.le_refl _), Nat.sub_self, drop_zero, payload_cons,
      drop_append_of_le_length (by simp; omega), drop_read, take_append, length_read]
    have ht : (read mem (v.base + (off - pos)) (v.len - (off - pos))).take n =
        read mem (v.base + (off - pos)) (min (v.len - (off - pos)) n) := by
      rcases Nat.le_total n (v.len - (off - pos)) with hl | hl
      · rw [take_read _ _ hl, Nat.min_eq_right hl]
      · rw [take_of_length_le (by simpa using hl), Nat.min_eq_left hl]
    have hf : n - min (v.len - (off - pos)) n = n - (v.len - (off - pos)) := by omega
    rw [ht, hf]

lemma parse_eq (hy : Memory.payload mem iovs = leU16 key.length ++ key ++ rest)
    (hp : 0 < key.length) (hm : key.length ≤ 255) :
    kvradosParseInpayloadKey mem iovs (total iovs) = some (key, 2 + key.length) := by
  obtain ⟨he, hl⟩ := leU16_toNat hm
  have ht : total iovs = 2 + key.length + rest.length := by
    rw [← length_payload mem, hy]
    simp [leU16]
    omega
  have hh : kvradosGather mem iovs 0 0 kvradosKeyHdrLen = [UInt8.ofNat key.length, 0] := by
    rw [gather_eq mem iovs _ (Nat.le_refl 0), hy, he]
    rfl
  have hk : kvradosGather mem iovs 0 kvradosKeyHdrLen key.length = key := by
    rw [gather_eq mem iovs _ (Nat.zero_le _), hy, he]
    simp [kvradosKeyHdrLen]
  unfold kvradosParseInpayloadKey
  have hs : ¬ total iovs < kvradosKeyHdrLen := by
    simp only [kvradosKeyHdrLen]
    omega
  have hrn : ¬ (key.length = 0 ∨ key.length > kvradosKeyMaxLen) := by
    simp only [kvradosKeyMaxLen]
    omega
  have hr : ¬ total iovs < kvradosKeyHdrLen + key.length := by
    simp only [kvradosKeyHdrLen]
    omega
  rw [if_neg hs]
  rw [hh, if_neg (fun hn => hn rfl), fromLe16, hl, if_neg hrn, if_neg hr, hk, if_neg (by simp)]
  rfl

lemma read_spanAt {iovs : List Seg} (hp : pos ≤ off) (h : spanAt iovs pos off = some (base, len)) :
    ∃ rest, (Memory.payload mem iovs).drop (off - pos) = read mem base len ++ rest := by
  induction iovs generalizing pos with
  | nil => cases h
  | cons v vs ih =>
    unfold spanAt at h
    by_cases hi : off < pos + v.len
    · rw [if_pos hi] at h
      cases h
      refine ⟨Memory.payload mem vs, ?_⟩
      rw [payload_cons, drop_append_of_le_length (by rw [length_read]; omega), drop_read]
    rw [if_neg hi] at h
    obtain ⟨rest, hr⟩ := ih (Nat.le_of_not_lt hi) h
    have hs : off - pos = v.len + (off - (pos + v.len)) := by omega
    refine ⟨rest, ?_⟩
    rw [payload_cons, ← hr, hs, ← drop_drop, drop_left' (length_read ..)]

lemma storeValue_take (off n : Nat) : storeValue mem iovs off n true =
      .ok (if n = 0 then none else some (((Memory.payload mem iovs).drop off).take n)) := by
  have hg : kvradosGather mem iovs 0 off n = ((Memory.payload mem iovs).drop off).take n := by
    rw [gather_eq mem iovs _ (Nat.zero_le off), Nat.sub_zero]
  unfold storeValue
  by_cases hz : n = 0
  · rw [if_pos hz, if_pos hz]
  rw [if_neg hz, if_neg hz]
  cases hs : spanAt iovs 0 off with
  | none =>
    rw [if_pos rfl, hg]
  | some span =>
    obtain ⟨base, len⟩ := span
    dsimp only
    by_cases ho : n ≤ nkvxInlineMax ∧ len ≥ n
    · obtain ⟨rest, hr⟩ := read_spanAt mem (Nat.zero_le off) hs
      have hd : ((Memory.payload mem iovs).drop off).take n = read mem base n := by
        rw [Nat.sub_zero] at hr
        rw [hr, take_append_of_le_length (by rw [length_read]; exact ho.2), take_read mem base ho.2]
      rw [if_pos ho, hd]
    · rw [if_neg ho, if_pos rfl, hg]

lemma execInput_take (off : Nat) : execInput mem iovs off (total iovs) true =
      .ok (min (total iovs - off) (2 ^ 32 - 1), if total iovs > off then
          some (((Memory.payload mem iovs).drop off).take (min (total iovs - off) (2 ^ 32 - 1))) else none) := by
  unfold execInput
  by_cases hb : total iovs > off
  · have hs : min (total iovs - off) (2 ^ 32 - 1) > 0 := by omega
    have hg : kvradosGather mem iovs 0 off (min (total iovs - off) (2 ^ 32 - 1)) =
        ((Memory.payload mem iovs).drop off).take (min (total iovs - off) (2 ^ 32 - 1)) := by
      rw [gather_eq mem iovs _ (Nat.zero_le off), Nat.sub_zero]
    rw [if_pos hb, if_pos hb]
    cases iovs with
    | nil => exact absurd hb (by simp [total])
    | cons v vs =>
      dsimp only
      generalize min (total (v :: vs) - off) (2 ^ 32 - 1) = n at hs hg ⊢
      by_cases ho : v.len ≥ off + n
      · have hf : n ≤ v.len - off := by omega
        rw [if_pos ho, payload_cons, drop_append_of_le_length (by rw [length_read]; omega),
          drop_read, take_append_of_le_length (by rw [length_read]; exact hf),
          take_read mem _ hf]
      · rw [if_neg ho, if_pos hs, if_pos rfl, hg]
  · rw [if_neg hb, if_neg hb, Nat.sub_eq_zero_of_le (Nat.le_of_not_lt hb), Nat.zero_min]

lemma execInput_eq (off : Nat) (ht : total iovs < 2 ^ 32) :
    ∃ input, execInput mem iovs off (total iovs) true = .ok (total iovs - off, input) ∧
      input.getD [] = (Memory.payload mem iovs).drop off := by
  have hl := length_payload mem iovs
  have hm : min (total iovs - off) (2 ^ 32 - 1) = total iovs - off := by omega
  rw [execInput_take, hm]
  refine ⟨_, rfl, ?_⟩
  by_cases hb : total iovs > off
  · rw [if_pos hb, Option.getD_some, take_of_length_le (by rw [length_drop, hl])]
  · rw [if_neg hb, Option.getD_none, drop_eq_nil_of_le (by omega)]

lemma handle_retrieve (disk : KvradosDisk) (front : NkvxFront σ) (s : σ) (mem : HostMem)
    (cmd : NvmeCmd) (ho : cmd.opc = opcKvRetrieve)
    (hh : read mem hedI (2 + key.length) = leU16 key.length ++ key) (hp : 0 < key.length)
    (ha : key.length ≤ 255) (hl : 0 < len ∨ rest = []) (hl32 : len < 2 ^ 32) :
    kvradosHandleKvIo disk .good front s mem cmd (⟨hedI, 2 + key.length⟩ :: ⟨base, len⟩ :: rest) =
      ((front.kv s (retrieveRequest disk key len)).1,
        write mem base (((front.kv s (retrieveRequest disk key len)).2.buf.getD []).take len),
        kvradosComplete (front.kv s (retrieveRequest disk key len)).2.status
          (front.kv s (retrieveRequest disk key len)).2.resultLen) := by
  have hy : Memory.payload mem (⟨hedI, 2 + key.length⟩ :: ⟨base, len⟩ :: rest) =
      leU16 key.length ++ key ++ Memory.payload mem (⟨base, len⟩ :: rest) := by
    rw [payload_cons, hh]
  have hr := parse_eq mem _ hy hp ha
  have hm : min len 4294967295 = len := min_eq_left (by omega)
  unfold kvradosHandleKvIo
  dsimp only
  rw [hr, ho]
  rcases Nat.eq_zero_or_pos len with hz | hs
  -- An empty buffer is no sink, and nothing is delivered.
  · obtain rfl : rest = [] := hl.resolve_left (by omega)
    simp [opcKvRetrieve, opcKvStore, opcKvDelete, handleRetrieve, spanAt, KvIoEnv.good, frontDeliver, hz, write_nil]
  · simp [opcKvRetrieve, opcKvStore, opcKvDelete, handleRetrieve, spanAt, hs, KvIoEnv.good, frontDeliver, hm]

def storeRequest (disk : KvradosDisk) (cmd : NvmeCmd) (key value : Bytes) : BaseRequest :=
  .store
    { kvRequest .store disk.readOnly key with
      storeFlags := kvradosDecodeStoreFlags cmd, valueLen := value.length }
    (if value.length = 0 then none else some value)

lemma handle_store {disk : KvradosDisk} (hr : disk.readOnly = false) (front : NkvxFront σ) (s : σ)
    {mem : HostMem} {cmd : NvmeCmd} (ho : cmd.opc = opcKvStore) {iovs : List Seg}
    (hy : Memory.payload mem iovs = leU16 key.length ++ key ++ value) (hp : 0 < key.length)
    (hm : key.length ≤ 255) (hv : value.length < 2 ^ 32) :
    kvradosHandleKvIo disk .good front s mem cmd iovs =
      ((front.kv s (storeRequest disk cmd key value)).1, mem,
        kvradosComplete (front.kv s (storeRequest disk cmd key value)).2.status
          (front.kv s (storeRequest disk cmd key value)).2.resultLen) := by
  have hl : min (total iovs - (2 + key.length)) (2 ^ 32 - 1) = value.length := by
    rw [← length_payload mem, hy, length_append, length_keyHead]
    omega
  have hb : (Memory.payload mem iovs).drop (2 + key.length) = value := by
    rw [hy, drop_left' (length_keyHead key)]
  unfold kvradosHandleKvIo handleStore
  dsimp only
  rw [parse_eq mem iovs hy hp hm, ho, hr]
  dsimp only
  rw [hl]
  dsimp only [KvIoEnv.good]
  rw [storeValue_take, hb, take_length]
  simp [opcKvStore, opcKvRetrieve, storeRequest, hr]

def statusOnlyRequest (disk : KvradosDisk) (isDelete : Bool) (key : Bytes) : BaseRequest :=
  if isDelete then .delete (kvRequest .delete disk.readOnly key) else .exist (kvRequest .exist disk.readOnly key)

lemma handle_statusOnly {disk : KvradosDisk} (hr : disk.readOnly = false) (front : NkvxFront σ)
    (s : σ) {mem : HostMem} {cmd : NvmeCmd} (isDelete : Bool)
    (ho : cmd.opc = if isDelete then opcKvDelete else opcKvExist) {iovs : List Seg}
    (hy : Memory.payload mem iovs = leU16 key.length ++ key ++ rest) (hp : 0 < key.length)
    (hm : key.length ≤ 255) : kvradosHandleKvIo disk .good front s mem cmd iovs =
      ((front.kv s (statusOnlyRequest disk isDelete key)).1, mem,
        kvradosComplete (front.kv s (statusOnlyRequest disk isDelete key)).2.status
          (front.kv s (statusOnlyRequest disk isDelete key)).2.resultLen) := by
  unfold kvradosHandleKvIo handleStatusOnly
  dsimp only
  rw [parse_eq mem iovs hy hp hm, ho, hr]
  cases isDelete <;>
    simp [opcKvStore, opcKvRetrieve, opcKvDelete, opcKvExist, statusOnlyRequest, KvIoEnv.good, hr]

end RadosNkv
