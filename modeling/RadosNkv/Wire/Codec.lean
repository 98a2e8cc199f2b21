import RadosNkv.Rpc

/-! The decode phase of the request envelopes (`nkvx_exec_rpc.c`): what the executor makes of the
bytes of an `nkvx_exec` or `nkvx_kv` message. -/

namespace RadosNkv

abbrev Decoder := StateT Bytes (Except HgReturn)

lemma Decoder.bind_ok {α β : Type} {d : Decoder α} {f : α → Decoder β} {wire rest : Bytes} {b : β} :
    (d >>= f) wire = .ok (b, rest) ↔ ∃ a mid, d wire = .ok (a, mid) ∧ f a mid = .ok (b, rest) := by
  change (d wire >>= fun x => f x.1 x.2) = .ok (b, rest) ↔ _
  cases d wire with
  | error e => exact ⟨nofun, nofun⟩
  | ok x =>
    constructor
    · exact fun h => ⟨x.1, x.2, rfl, h⟩
    rintro ⟨a, mid, he, h⟩
    cases he
    exact h

lemma Decoder.pure_ok {α : Type} {a b : α} {wire rest : Bytes} :
    (pure a : Decoder α) wire = .ok (b, rest) ↔ a = b ∧ wire = rest := by
  change (Except.ok (a, wire) : Except HgReturn (α × Bytes)) = .ok (b, rest) ↔ _
  simp

structure HgProc where
  uint8 : Decoder UInt8
  uint32 : Decoder UInt32
  uint64 : Decoder UInt64
  bytes : (n : Nat) → Decoder { b : Bytes // b.length = n }
  string : Decoder (Option Bytes)
  bulk : Decoder (Option BulkHandle)

def HgReturn.nomem : HgReturn := .error 5

abbrev WireKey := { key : Bytes // key.length ≤ 255 }

lemma key_k_fits : ([107] : Bytes).length ≤ 255 := by decide

structure ExecHead where
  opId : UInt32
  clientCallId : UInt64
  readOnly : UInt8
  runtime : UInt8
  caps : UInt64
  key : WireKey
  sha256 : Bytes
  sha256Valid : UInt8
  moduleKey : Option Bytes
  moduleNs : Option Bytes
  osize : UInt32

structure ExecMsg extends ExecHead where
  inputLen : UInt32
  inputInline : Option Bytes
  inputBulk : Option BulkHandle
  resultSink : Option BulkHandle

structure KvHead where
  verb : UInt8
  readOnly : UInt8
  clientCallId : UInt64
  key : WireKey
  osize : UInt32
  storeFlags : UInt8

structure KvMsg extends KvHead where
  valueLen : UInt32
  valueInline : Option Bytes
  valueBulk : Option BulkHandle
  resultSink : Option BulkHandle

def KvVerb.ofByte (b : UInt8) : KvVerb :=
  if b = 1 then .store
  else if b = 2 then .retrieve
  else if b = 3 then .delete
  else if b = 4 then .exist
  else if b = 5 then .list
  else .invalid

variable (proc : HgProc) (alloc : Bool)

def nkvxProcOpaque : Decoder (Option Bytes) := do
  let len ← proc.uint32
  if len > 0 then
    if !alloc then throw .nomem
    else do
      let buf ← proc.bytes len.toNat
      pure (some buf.val)
  else pure none

def procKey : Decoder WireKey := do
  let len ← proc.uint8
  if len > 0 then do
    let key ← proc.bytes len.toNat
    pure ⟨key.val, Nat.le_trans (Nat.le_of_eq key.property) (Nat.le_of_lt_succ len.toNat_lt)⟩
  else pure ⟨[], Nat.zero_le _⟩

structure Payload where
  len : UInt32
  inlined : Option Bytes
  bulk : Option BulkHandle
  resultSink : Option BulkHandle

def procPayload : Decoder Payload := do
  let len ← proc.uint32
  let inlined ← nkvxProcOpaque proc alloc
  let bulk ← proc.bulk
  let resultSink ← proc.bulk
  pure { len, inlined, bulk, resultSink }

def procExecHead : Decoder ExecHead := do
  let opId ← proc.uint32
  let clientCallId ← proc.uint64
  let readOnly ← proc.uint8
  let runtime ← proc.uint8
  let caps ← proc.uint64
  let key ← procKey proc
  let sha256 ← proc.bytes 32
  let sha256Valid ← proc.uint8
  let moduleKey ← proc.string
  let moduleNs ← proc.string
  let osize ← proc.uint32
  pure { opId, clientCallId, readOnly, runtime, caps, key, sha256 := sha256.val, sha256Valid, moduleKey,
         moduleNs, osize }

def hgProcNkvxExecIn : Decoder ExecMsg := do
  let head ← procExecHead proc
  let input ← procPayload proc alloc
  pure { head with
    inputLen := input.len
    inputInline := input.inlined
    inputBulk := input.bulk
    resultSink := input.resultSink }

def procKvHead : Decoder KvHead := do
  let verb ← proc.uint8
  let readOnly ← proc.uint8
  let clientCallId ← proc.uint64
  let key ← procKey proc
  let osize ← proc.uint32
  let storeFlags ← proc.uint8
  pure { verb, readOnly, clientCallId, key, osize, storeFlags }

def hgProcNkvxKvIn : Decoder KvMsg := do
  let head ← procKvHead proc
  let value ← procPayload proc alloc
  pure { head with
    valueLen := value.len
    valueInline := value.inlined
    valueBulk := value.bulk
    resultSink := value.resultSink }

def payloadLens : Decoder (UInt32 × UInt32) := do
  let len ← proc.uint32
  let fieldLen ← proc.uint32
  pure (len, fieldLen)

def execLens : Decoder (UInt32 × UInt32) := procExecHead proc >>= fun _ => payloadLens proc

def kvLens : Decoder (UInt32 × UInt32) := procKvHead proc >>= fun _ => payloadLens proc

def inlineLen (len : Nat) : Nat := if len ≤ nkvxInlineMax then len else 0

/-- The inline length on the wire is the one that the whole length calls for. -/
def LensAgree (lens : Decoder (UInt32 × UInt32)) (wire : Bytes) : Prop :=
  ∀ x rest, lens wire = .ok (x, rest) → x.2.toNat = inlineLen x.1.toNat

def InlineHolds (len : UInt32) (buf : Option Bytes) : Prop := (buf.getD []).length = inlineLen len.toNat

instance (len : UInt32) (buf : Option Bytes) : Decidable (InlineHolds len buf) := inferInstanceAs (Decidable (_ = _))

variable {proc alloc}

lemma lensAgree_iff (h : lens wire = .ok (x, rest)) :
    LensAgree lens wire ↔ x.2.toNat = inlineLen x.1.toNat := by
  constructor
  · exact fun ha => ha x rest h
  intro hx x' rest' h'
  obtain ⟨rfl, -⟩ := Prod.mk.inj (Except.ok.inj (h.symm.trans h'))
  exact hx

lemma nkvxProcOpaque_ok (h : nkvxProcOpaque proc alloc wire = .ok (buf, rest)) :
    buf ≠ some [] ∧ ∃ len mid, proc.uint32 wire = .ok (len, mid) ∧ (buf.getD []).length = len.toNat := by
  obtain ⟨len, mid, hl, h⟩ := Decoder.bind_ok.mp h
  by_cases hp : len > 0
  · rw [if_pos hp] at h
    cases alloc with
    | false => cases h
    | true =>
      obtain ⟨b, mid', -, h⟩ := Decoder.bind_ok.mp h
      obtain ⟨rfl, -⟩ := Decoder.pure_ok.mp h
      refine ⟨fun hn => ?_, len, mid, hl, b.property⟩
      have hln := b.property
      rw [Option.some.inj hn] at hln
      exact absurd (UInt32.toNat_inj.mp hln.symm) (by simpa [UInt32.pos_iff_ne_zero] using hp)
  rw [if_neg hp] at h
  obtain ⟨rfl, -⟩ := Decoder.pure_ok.mp h
  have hz : len = 0 := by simpa using hp
  exact ⟨nofun, len, mid, hl, by simp [hz]⟩

lemma procPayload_ok (h : procPayload proc alloc wire = .ok (p, rest)) :
    p.inlined ≠ some [] ∧ ∃ fieldLen mid, payloadLens proc wire = .ok ((p.len, fieldLen), mid) ∧
      (p.inlined.getD []).length = fieldLen.toNat := by
  obtain ⟨len, mid, hl, h⟩ := Decoder.bind_ok.mp h
  obtain ⟨inlined, mid1, hi, h⟩ := Decoder.bind_ok.mp h
  obtain ⟨bulk, mid2, -, h⟩ := Decoder.bind_ok.mp h
  obtain ⟨sink, mid3, -, h⟩ := Decoder.bind_ok.mp h
  obtain ⟨rfl, -⟩ := Decoder.pure_ok.mp h
  obtain ⟨hn, fieldLen, mid4, hf, hln⟩ := nkvxProcOpaque_ok hi
  refine ⟨hn, fieldLen, mid4, ?_, hln⟩
  exact Decoder.bind_ok.mpr ⟨len, mid, hl, Decoder.bind_ok.mpr ⟨fieldLen, mid4, hf, rfl⟩⟩

lemma payload_spec {α : Type} {head : Decoder α} {a : α} {mid : Bytes} {p : Payload}
    (hh : head wire = .ok (a, mid)) (h : procPayload proc alloc mid = .ok (p, rest)) : p.inlined ≠ some [] ∧
      (InlineHolds p.len p.inlined ↔ LensAgree (head >>= fun _ => payloadLens proc) wire) := by
  obtain ⟨hn, fieldLen, mid', hln, hl⟩ := procPayload_ok h
  have hw : (head >>= fun _ => payloadLens proc) wire = .ok ((p.len, fieldLen), mid') :=
    Decoder.bind_ok.mpr ⟨a, mid, hh, hln⟩
  refine ⟨hn, ?_⟩
  rw [lensAgree_iff hw, InlineHolds, hl]

lemma kvIn_spec (h : hgProcNkvxKvIn proc alloc wire = .ok (msg, rest)) :
    msg.valueInline ≠ some [] ∧ (InlineHolds msg.valueLen msg.valueInline ↔ LensAgree (kvLens proc) wire) := by
  obtain ⟨head, mid, hh, h⟩ := Decoder.bind_ok.mp h
  obtain ⟨value, mid', hv, h⟩ := Decoder.bind_ok.mp h
  obtain ⟨rfl, -⟩ := Decoder.pure_ok.mp h
  exact payload_spec hh hv

lemma execIn_spec (h : hgProcNkvxExecIn proc alloc wire = .ok (msg, rest)) :
    msg.inputInline ≠ some [] ∧ (InlineHolds msg.inputLen msg.inputInline ↔ LensAgree (execLens proc) wire) := by
  obtain ⟨head, mid, hh, h⟩ := Decoder.bind_ok.mp h
  obtain ⟨input, mid', hi, h⟩ := Decoder.bind_ok.mp h
  obtain ⟨rfl, -⟩ := Decoder.pure_ok.mp h
  exact payload_spec hh hi

namespace HgProc

def raw (n : Nat) : Decoder { b : Bytes // b.length = n } := fun wire =>
  if h : n ≤ wire.length then .ok (⟨wire.take n, List.length_take_of_le h⟩, wire.drop n) else .error (.error 13)

def leNat (b : Bytes) : Nat := b.foldr (fun x n => x.toNat + 256 * n) 0

def rawUint64 : Decoder UInt64 := (fun b => UInt64.ofNat (leNat b.val)) <$> raw 8

/-- Mercury's processors without checksums: scalars and bytes are copied, strings and bulk handles
stand behind their length, and an absent one is a length of zero. -/
def plain : HgProc where
  uint8 := (fun b => UInt8.ofNat (leNat b.val)) <$> raw 1
  uint32 := (fun b => UInt32.ofNat (leNat b.val)) <$> raw 4
  uint64 := rawUint64
  bytes := raw
  string := do
    let len ← rawUint64
    if len = 0 then pure none
    else do
      let text ← raw len.toNat
      -- two flags follow the text
      let _ ← raw 2
      pure (some (text.val.takeWhile (· ≠ 0)))
  bulk := do
    let size ← rawUint64
    if size = 0 then pure none
    else do
      let handle ← raw size.toNat
      pure (some (leNat handle.val))

end HgProc

end RadosNkv
