import RadosNkv.Executor.MayCall

/-! The lengths of a request from the wire to the verbs that consume its bytes. -/

namespace RadosNkv

def RadosOp.InBounds : RadosOp → Prop
  | .writeFull _ _ src len | .writeOpOperate _ _ _ src len | .memcpy src len => len ≤ src.length
  | _ => True

variable {op : RadosOp}

lemma RadosOp.Observes.inBounds (h : op.Observes) : op.InBounds := by
  cases op <;> trivial

def pulls (bulk : Option BulkHandle) (len : UInt32) : Prop := bulk ≠ none ∧ nkvxInlineMax < len.toNat

instance (bulk : Option BulkHandle) (len : UInt32) : Decidable (pulls bulk len) :=
  inferInstanceAs (Decidable (_ ∧ _))

def KvMsg.served (msg : KvMsg) (pulled : Bytes) : KvMsg :=
  if pulls msg.valueBulk msg.valueLen then { msg with valueInline := some pulled } else msg

def ExecMsg.served (msg : ExecMsg) (pulled : Bytes) : ExecMsg :=
  if pulls msg.inputBulk msg.inputLen then { msg with inputInline := some pulled } else msg

/-- Whatever was pulled, its operations on RADOS read within their buffers. -/
def KvMsg.StaysInBounds (msg : KvMsg) : Prop :=
  ∀ (api : WasmApi) (cfg : WasmConfig) (env : Calls.KvAlloc) (ex : ExecutorState api) (pulled : Bytes),
    pulled.length = msg.valueLen.toNat →
      (Calls.nkvxExecutorKv cfg env ex (msg.served pulled)).Uses RadosOp.InBounds

def ExecMsg.StaysInBounds (msg : ExecMsg) : Prop :=
  ∀ (api : WasmApi) (cfg : WasmConfig) (env : Calls.ExecAlloc) (ctx : IoCtx) (s : WasmState api) (pulled : Bytes),
    pulled.length = msg.inputLen.toNat →
      (Calls.nkvxExecutorRun cfg env ctx s (msg.served pulled)).Uses RadosOp.InBounds

lemma length_le_of_inlineHolds (hn : buf ≠ some []) (hh : InlineHolds len buf) (hs : buf = some src)
    : len.toNat ≤ src.length := by
  subst hs
  have hl : src.length = inlineLen len.toNat := hh
  rw [inlineLen] at hl
  split at hl
  · exact le_of_eq hl.symm
  · exact absurd (congrArg some (List.length_eq_zero_iff.mp hl)) hn

lemma KvMsg.length_le_of_served {msg : KvMsg} {pulled : Bytes} (hn : msg.valueInline ≠ some [])
    (hh : InlineHolds msg.valueLen msg.valueInline) (hd : pulled.length = msg.valueLen.toNat)
    (hs : (msg.served pulled).valueInline = some src) : (msg.served pulled).valueLen.toNat ≤ src.length := by
  unfold KvMsg.served at hs ⊢
  split
  · next hp =>
    rw [if_pos hp] at hs
    cases hs
    exact le_of_eq hd.symm
  next hp =>
  rw [if_neg hp] at hs
  exact length_le_of_inlineHolds hn hh hs

lemma ExecMsg.length_le_of_served {msg : ExecMsg} {pulled : Bytes} (hn : msg.inputInline ≠ some [])
    (hh : InlineHolds msg.inputLen msg.inputInline) (hd : pulled.length = msg.inputLen.toNat)
    (hs : (msg.served pulled).inputInline = some src) : (msg.served pulled).inputLen.toNat ≤ src.length := by
  unfold ExecMsg.served at hs ⊢
  split
  · next hp =>
    rw [if_pos hp] at hs
    cases hs
    exact le_of_eq hd.symm
  next hp =>
  rw [if_neg hp] at hs
  exact length_le_of_inlineHolds hn hh hs

lemma KvMsg.MayCall.inBounds {req : KvMsg} (hc : ∀ src, req.valueInline = some src → req.valueLen.toNat ≤ src.length)
    (h : req.MayCall op) : op.InBounds := by
  have hsp : ∀ {src : Bytes} {len : Nat}, req.Supplies src len → len ≤ src.length := by
    intro src len hs
    rcases Nat.eq_zero_or_pos len with rfl | hp
    · exact Nat.zero_le _
    · exact Nat.le_trans (hs.2 hp).2 (hc src (hs.2 hp).1)
  cases op with
  | writeFull | writeOpOperate | memcpy => exact hsp h
  | _ => trivial

lemma ExecMsg.MayCall.inBounds {req : ExecMsg} (hc : ∀ src, req.inputInline = some src → req.inputLen.toNat ≤ src.length)
    (h : req.MayCall op) : op.InBounds := by
  cases op with
  | memcpy src len => exact le_trans h.2 (hc src h.1)
  | _ => exact RadosOp.Observes.inBounds h

/-- For every accepted message: the inline buffer holds exactly the bytes its true length calls for,
and no verb reads past the end of its buffer, exactly when the two lengths of the message agree. -/
theorem decoded_lengths_safe_iff (proc : HgProc) (alloc : Bool) (wire rest : Bytes) :
    (∀ msg, hgProcNkvxKvIn proc alloc wire = .ok (msg, rest) →
      (InlineHolds msg.valueLen msg.valueInline ∧ msg.StaysInBounds ↔
        LensAgree (kvLens proc) wire)) ∧
    ∀ msg, hgProcNkvxExecIn proc alloc wire = .ok (msg, rest) →
      (InlineHolds msg.inputLen msg.inputInline ∧ msg.StaysInBounds ↔
        LensAgree (execLens proc) wire) := by
  constructor
  · intro msg hmsg
    obtain ⟨hne, hiff⟩ := kvIn_spec hmsg
    refine ⟨fun h => hiff.mp h.1, fun hagr => ⟨hiff.mpr hagr, ?_⟩⟩
    intro api cfg env ex pulled hpull
    exact (Calls.nkvxExecutorKv_mayCall ..).mono fun _ hop =>
      hop.inBounds fun _ => KvMsg.length_le_of_served hne (hiff.mpr hagr) hpull
  intro msg hmsg
  obtain ⟨hne, hiff⟩ := execIn_spec hmsg
  refine ⟨fun h => hiff.mp h.1, fun hagr => ⟨hiff.mpr hagr, ?_⟩⟩
  intro api cfg env ctx s pulled hpull
  exact (Calls.nkvxExecutorRun_mayCall ..).mono fun _ hop =>
    hop.inBounds fun _ => ExecMsg.length_le_of_served hne (hiff.mpr hagr) hpull

def storeWire (len : UInt8) : Bytes :=
  [1, 0] ++ [0, 0, 0, 0, 0, 0, 0, 0] ++ [1, 107] ++ [0, 0, 0, 0] ++ [0] ++ [len, 0, 0, 0] ++ [1, 0, 0, 0] ++ [7] ++
    List.replicate 16 0

def echoWire (len : UInt8) : Bytes :=
  [0, 0, 0, 0] ++ List.replicate 8 0 ++ [0, 1] ++ List.replicate 8 0 ++ [1, 107] ++ List.replicate 32 0 ++ [0] ++
    [10, 0, 0, 0, 0, 0, 0, 0] ++ cstr ['i', 'n', 'p', 'u', 't', 'e', 'c', 'h', 'o'] ++ [0, 0, 0] ++
    [5, 0, 0, 0, 0, 0, 0, 0] ++ cstr ['n', 'k', 'v', 'x'] ++ [0, 0, 0] ++
    [16, 0, 0, 0] ++ [len, 0, 0, 0] ++ [1, 0, 0, 0] ++ [7] ++ List.replicate 16 0

def storeMsg (len : UInt32) : KvMsg :=
  { verb := 1, readOnly := 0, clientCallId := 0, key := ⟨[107], key_k_fits⟩, osize := 0, storeFlags := 0,
    valueLen := len, valueInline := some [7], valueBulk := none, resultSink := none }

def echoMsg (len : UInt32) : ExecMsg :=
  { opId := 0, clientCallId := 0, readOnly := 0, runtime := 1, caps := 0, key := ⟨[107], key_k_fits⟩,
    sha256 := List.replicate 32 0, sha256Valid := 0,
    moduleKey := some (cstr ['i', 'n', 'p', 'u', 't', 'e', 'c', 'h', 'o']),
    moduleNs := some (cstr ['n', 'k', 'v', 'x']), osize := 16, inputLen := len, inputInline := some [7],
    inputBulk := none, resultSink := none }

theorem decoded_lengths_safe_iff_one :
    hgProcNkvxKvIn .plain true (storeWire 1) = .ok (storeMsg 1, []) ∧
    InlineHolds (storeMsg 1).valueLen (storeMsg 1).valueInline ∧ (storeMsg 1).StaysInBounds ∧
    hgProcNkvxExecIn .plain true (echoWire 1) = .ok (echoMsg 1, []) ∧
    InlineHolds (echoMsg 1).inputLen (echoMsg 1).inputInline ∧ (echoMsg 1).StaysInBounds := by
  have hstore : hgProcNkvxKvIn .plain true (storeWire 1) = .ok (storeMsg 1, []) := rfl
  have hech : hgProcNkvxExecIn .plain true (echoWire 1) = .ok (echoMsg 1, []) := rfl
  have hkvL : LensAgree (kvLens .plain) (storeWire 1) := (lensAgree_iff (x := (1, 1)) rfl).mpr rfl
  have hexc : LensAgree (execLens .plain) (echoWire 1) := (lensAgree_iff (x := (1, 1)) rfl).mpr rfl
  obtain ⟨hsto, hstays⟩ := ((decoded_lengths_safe_iff .plain true (storeWire 1) []).1 _ hstore).mpr hkvL
  obtain ⟨hecd, hstays'⟩ := ((decoded_lengths_safe_iff .plain true (echoWire 1) []).2 _ hech).mpr hexc
  exact ⟨hstore, hsto, hstays, hech, hecd, hstays'⟩

/-- One byte behind a declared length of sixteen is accepted, and sixteen bytes are read from it:
Store writes them to the object, `inputecho` sends them back. -/
theorem short_inline_field_overread :
    (hgProcNkvxKvIn .plain true (storeWire 16) = .ok (storeMsg 16, []) ∧
      ¬ InlineHolds (storeMsg 16).valueLen (storeMsg 16).valueInline ∧
        ¬ (storeMsg 16).StaysInBounds) ∧
    hgProcNkvxExecIn .plain true (echoWire 16) = .ok (echoMsg 16, []) ∧
      ¬ InlineHolds (echoMsg 16).inputLen (echoMsg 16).inputInline ∧
        ¬ (echoMsg 16).StaysInBounds := by
  have hpull : (List.replicate 16 (0 : UInt8)).length = 16 := rfl
  refine ⟨⟨rfl, by decide, fun h => ?_⟩, rfl, by decide, fun h => ?_⟩
  · let alloc : Calls.KvAlloc := ⟨⟨true, true, true⟩, true, true, true⟩
    have hus := h toyApi .default alloc ⟨.rados ⟨[], []⟩, .init toyApi⟩ (List.replicate 16 0) hpull
    have hrd : 16 ≤ 1 := hus.1
    exact absurd hrd (by decide)
  let alloc : Calls.ExecAlloc := ⟨true, true, true, .good⟩
  have hus := h toyApi .default alloc ⟨[], []⟩ (.init toyApi) (List.replicate 16 0) hpull
  have hrd : 16 ≤ 1 := hus.1
  exact absurd hrd (by decide)

end RadosNkv
