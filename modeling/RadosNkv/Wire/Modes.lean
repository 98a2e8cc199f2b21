import RadosNkv.Library.Processor
import RadosNkv.Wire.Codec

/-! The serializers of `nkvx_exec_rpc.c` in their three modes. -/

namespace RadosNkv.Wire

open List Processor

inductive Kind where
  | heap
  | bulk
deriving DecidableEq

abbrev HgProcM := Processor.M Kind HgReturn

/-- Mercury's processors with their encoders, and that each reads what it wrote. -/
structure HgCodec extends HgProc where
  int32 : Decoder Int32
  putUint8 : UInt8 → Bytes
  putUint32 : UInt32 → Bytes
  putUint64 : UInt64 → Bytes
  putInt32 : Int32 → Bytes
  putBytes : Bytes → Bytes
  putString : Option Bytes → Bytes
  putBulk : Option BulkHandle → Bytes
  uint8_put : ∀ v rest, uint8 (putUint8 v ++ rest) = .ok (v, rest)
  uint32_put : ∀ v rest, uint32 (putUint32 v ++ rest) = .ok (v, rest)
  uint64_put : ∀ v rest, uint64 (putUint64 v ++ rest) = .ok (v, rest)
  int32_put : ∀ v rest, int32 (putInt32 v ++ rest) = .ok (v, rest)
  bytes_put : ∀ b rest, bytes b.length (putBytes b ++ rest) = .ok (⟨b, rfl⟩, rest)
  string_put : ∀ s : Option Bytes, (∀ t ∈ s, 0 ∉ t) → ∀ rest, string (putString s ++ rest) = .ok (s, rest)
  bulk_put : ∀ h rest, bulk (putBulk h ++ rest) = .ok (h, rest)

abbrev Fixed (n : Nat) := { b : Bytes // b.length = n }

def Fixed.overwrite {n N : Nat} (b : Fixed N) (c : Fixed n) (h : n ≤ N) : Fixed N :=
  ⟨c.val ++ b.val.drop n, by rw [length_append, length_drop, c.property, b.property]; omega⟩

def keyMaxLen : Nat := 255

lemma toNat_le_keyMaxLen (len : UInt8) : len.toNat ≤ keyMaxLen := Nat.le_of_lt_succ len.toNat_lt

structure ExecInHead where
  opId : UInt32
  clientCallId : UInt64
  readOnly : UInt8
  runtime : UInt8
  caps : UInt64
  keyLen : UInt8
  key : Fixed keyMaxLen
  sha256 : Fixed 32
  sha256Valid : UInt8
  moduleKey : Option (Ref Bytes)
  moduleNs : Option (Ref Bytes)
  osize : UInt32

structure PayloadIn where
  len : UInt32
  inlined : Option (Ref Bytes)
  bulk : Option (Ref BulkHandle)
  resultSink : Option (Ref BulkHandle)

structure NkvxExecIn where
  head : ExecInHead
  input : PayloadIn

structure KvInHead where
  verb : UInt8
  readOnly : UInt8
  clientCallId : UInt64
  keyLen : UInt8
  key : Fixed keyMaxLen
  osize : UInt32
  storeFlags : UInt8

structure NkvxKvIn where
  head : KvInHead
  value : PayloadIn

structure NkvxOut where
  status : Int32
  resultLen : UInt32
  resultInlineLen : UInt32
  resultInline : Option (Ref Bytes)

section Procedures

variable (hg : HgCodec) (alloc : Bool)

def hgProcUint8 : Mode → UInt8 → HgProcM UInt8 := scalar hg.putUint8 hg.uint8

def hgProcUint32 : Mode → UInt32 → HgProcM UInt32 := scalar hg.putUint32 hg.uint32

def hgProcUint64 : Mode → UInt64 → HgProcM UInt64 := scalar hg.putUint64 hg.uint64

def hgProcInt32 : Mode → Int32 → HgProcM Int32 := scalar hg.putInt32 hg.int32

def hgProcBytes {n N : Nat} (h : n ≤ N) : Mode → Fixed N → HgProcM (Fixed N)
  | .encode, b => do
    emit (hg.putBytes (b.val.take n))
    pure b
  | .decode, b => do
    let c ← fetch (hg.bytes n)
    pure (b.overwrite c h)
  | .free, b => pure b

def nkvxProcString : Mode → Option (Ref Bytes) → HgProcM (Option (Ref Bytes)) :=
  owned .heap hg.putString hg.string

def hgProcBulk : Mode → Option (Ref BulkHandle) → HgProcM (Option (Ref BulkHandle)) :=
  owned .bulk hg.putBulk hg.bulk

section

variable (mode : Mode)

/-- `nkvx_proc_opaque`, with the buffer and the length that it leaves. -/
def nkvxProcOpaque (buf : Option (Ref Bytes)) (len : UInt32) :
    HgProcM (Option (Ref Bytes) × UInt32) := do
  let wireLen ← hgProcUint32 hg mode len
  match mode with
  | .encode =>
    if wireLen > 0 then emit (hg.putBytes ((buf.elim [] (·.val)).take wireLen.toNat))
    pure (buf, len)
  | .decode =>
    if wireLen > 0 then
      if !alloc then throw .nomem
      else do
        let addr ← acquire .heap
        let bytes ← fetch (hg.bytes wireLen.toNat)
        pure (some ⟨addr, bytes.val⟩, wireLen)
    else pure (none, wireLen)
  | .free =>
    release .heap buf
    pure (none, len)

def procKey (len : UInt8) (key : Fixed keyMaxLen) : HgProcM (UInt8 × Fixed keyMaxLen) := do
  let len ← hgProcUint8 hg mode len
  if len > 0 then do
    let key ← hgProcBytes hg (toNat_le_keyMaxLen len) mode key
    pure (len, key)
  else pure (len, key)

def procPayload (p : PayloadIn) : HgProcM PayloadIn := do
  let len ← hgProcUint32 hg mode p.len
  let inlined ← nkvxProcOpaque hg alloc mode p.inlined (if len.toNat ≤ nkvxInlineMax then len else 0)
  let bulk ← hgProcBulk hg mode p.bulk
  let resultSink ← hgProcBulk hg mode p.resultSink
  pure { len, inlined := inlined.1, bulk, resultSink }

def procExecHead (r : ExecInHead) : HgProcM ExecInHead := do
  let opId ← hgProcUint32 hg mode r.opId
  let clientCallId ← hgProcUint64 hg mode r.clientCallId
  let readOnly ← hgProcUint8 hg mode r.readOnly
  let runtime ← hgProcUint8 hg mode r.runtime
  let caps ← hgProcUint64 hg mode r.caps
  let key ← procKey hg mode r.keyLen r.key
  let sha256 ← hgProcBytes hg (Nat.le_refl 32) mode r.sha256
  let sha256Valid ← hgProcUint8 hg mode r.sha256Valid
  let moduleKey ← nkvxProcString hg mode r.moduleKey
  let moduleNs ← nkvxProcString hg mode r.moduleNs
  let osize ← hgProcUint32 hg mode r.osize
  pure { opId, clientCallId, readOnly, runtime, caps, keyLen := key.1, key := key.2, sha256, sha256Valid,
         moduleKey, moduleNs, osize }

def hgProcNkvxExecIn (r : NkvxExecIn) : HgProcM NkvxExecIn := do
  let head ← procExecHead hg mode r.head
  let input ← procPayload hg alloc mode r.input
  pure { head, input }

def procKvHead (r : KvInHead) : HgProcM KvInHead := do
  let verb ← hgProcUint8 hg mode r.verb
  let readOnly ← hgProcUint8 hg mode r.readOnly
  let clientCallId ← hgProcUint64 hg mode r.clientCallId
  let key ← procKey hg mode r.keyLen r.key
  let osize ← hgProcUint32 hg mode r.osize
  let storeFlags ← hgProcUint8 hg mode r.storeFlags
  pure { verb, readOnly, clientCallId, keyLen := key.1, key := key.2, osize, storeFlags }

def hgProcNkvxKvIn (r : NkvxKvIn) : HgProcM NkvxKvIn := do
  let head ← procKvHead hg mode r.head
  let value ← procPayload hg alloc mode r.value
  pure { head, value }

def procOut (r : NkvxOut) : HgProcM NkvxOut := do
  let status ← hgProcInt32 hg mode r.status
  let resultLen ← hgProcUint32 hg mode r.resultLen
  let inlined ← nkvxProcOpaque hg alloc mode r.resultInline r.resultInlineLen
  pure { status, resultLen, resultInlineLen := inlined.2, resultInline := inlined.1 }

end

def hgProcNkvxExecOut : Mode → NkvxOut → HgProcM NkvxOut := procOut hg alloc

def hgProcNkvxKvOut : Mode → NkvxOut → HgProcM NkvxOut := procOut hg alloc

end Procedures

def nkvxExecInFree (r : NkvxExecIn) : List (Kind × Nat) × NkvxExecIn :=
  (resource .heap r.head.moduleKey ++ resource .heap r.head.moduleNs ++ resource .heap r.input.inlined,
    { r with
      head := { r.head with moduleKey := none, moduleNs := none }
      input := { r.input with inlined := none } })

def nkvxKvInFree (r : NkvxKvIn) : List (Kind × Nat) × NkvxKvIn :=
  (resource .heap r.value.inlined, { r with value := { r.value with inlined := none } })

def freeOut (r : NkvxOut) : List (Kind × Nat) × NkvxOut :=
  (resource .heap r.resultInline, { r with resultInline := none, resultInlineLen := 0 })

def nkvxExecOutFree : NkvxOut → List (Kind × Nat) × NkvxOut := freeOut

def nkvxKvOutFree : NkvxOut → List (Kind × Nat) × NkvxOut := freeOut

section Fields

variable {hg : HgCodec} {n : Nat}

lemma trip_uint8 (v junk : UInt8) (n : Nat) :
    Trip n (hgProcUint8 hg .encode v) (hgProcUint8 hg .decode junk) (hgProcUint8 hg .free v) v v v [] :=
  Trip.scalar (hg.uint8_put v) n junk

lemma trip_uint32 (v junk : UInt32) (n : Nat) :
    Trip n (hgProcUint32 hg .encode v) (hgProcUint32 hg .decode junk) (hgProcUint32 hg .free v) v v v [] :=
  Trip.scalar (hg.uint32_put v) n junk

lemma trip_uint64 (v junk : UInt64) (n : Nat) :
    Trip n (hgProcUint64 hg .encode v) (hgProcUint64 hg .decode junk) (hgProcUint64 hg .free v) v v v [] :=
  Trip.scalar (hg.uint64_put v) n junk

lemma trip_int32 (v junk : Int32) (n : Nat) :
    Trip n (hgProcInt32 hg .encode v) (hgProcInt32 hg .decode junk) (hgProcInt32 hg .free v) v v v [] :=
  Trip.scalar (hg.int32_put v) n junk

lemma trip_bulk (h junk : Option (Ref BulkHandle)) (n : Nat) :
    Trip n (hgProcBulk hg .encode h) (hgProcBulk hg .decode junk) (hgProcBulk hg .free (landed n h))
      h (landed n h) none (resource .bulk (landed n h)) :=
  Trip.owned (hg.bulk_put _) n junk

def CString (s : Option (Ref Bytes)) : Prop := ∀ r ∈ s, 0 ∉ r.val

lemma trip_string (hs : CString s) (junk : Option (Ref Bytes)) (n : Nat) :
    Trip n (nkvxProcString hg .encode s) (nkvxProcString hg .decode junk) (nkvxProcString hg .free (landed n s))
      s (landed n s) none (resource .heap (landed n s)) := by
  refine Trip.owned (hg.string_put _ fun t ht => ?_) n junk
  obtain ⟨r, hr, rfl⟩ := Option.map_eq_some_iff.mp ht
  exact hs r hr

lemma fetch_bytes {b : Bytes} (hb : b.length = k) {s : Stream Kind}
    (h : s.bytes = hg.putBytes b ++ rest) :
    fetch (hg.bytes k) s = .ok (⟨b, hb⟩, s.took rest []) := by
  subst hb
  exact fetch_ok (by rw [h]; exact hg.bytes_put b rest)

def firstBytes {N : Nat} (b : Fixed N) {k : Nat} (h : k ≤ N) : Fixed k :=
  ⟨b.val.take k, by rw [length_take, b.property]; exact Nat.min_eq_left h⟩

lemma trip_bytes (h : k ≤ N) (b junk : Fixed N) (n : Nat) :
    Trip n (hgProcBytes hg h .encode b) (hgProcBytes hg h .decode junk)
      (hgProcBytes hg h .free (junk.overwrite (firstBytes b h) h)) b (junk.overwrite (firstBytes b h) h)
      (junk.overwrite (firstBytes b h) h) [] where
  fits := by
    refine ⟨hg.putBytes (b.val.take k), fun s => rfl, fun s rest hb _ => ?_⟩
    change (fetch (hg.bytes k) s >>= _) = _
    rw [fetch_bytes (firstBytes b h).property hb]
    rfl
  frees := fun s => by
    rw [s.gave_nil]
    rfl

def keyAfter (len : UInt8) (key junk : Fixed keyMaxLen) : Fixed keyMaxLen :=
  if len > 0 then junk.overwrite (firstBytes key (toNat_le_keyMaxLen len)) (toNat_le_keyMaxLen len) else junk

lemma trip_key (len junkLen : UInt8) (key junk : Fixed keyMaxLen) (n : Nat) :
    Trip n (procKey hg .encode len key) (procKey hg .decode junkLen junk)
      (procKey hg .free len (keyAfter len key junk)) (len, key) (len, keyAfter len key junk)
      (len, keyAfter len key junk) [] := by
  unfold procKey keyAfter
  refine (trip_uint8 len junkLen n).bind_nil ?_
  by_cases hp : len > 0
  · simp only [if_pos hp]
    exact (trip_bytes _ key junk n).bind_nil (Trip.pure' n _ _ _)
  simp only [if_neg hp]
  exact Trip.pure' n _ _ _

def Holds (len : UInt32) (buf : Option (Ref Bytes)) : Prop := len > 0 → ∃ r ∈ buf, len.toNat ≤ r.val.length

def blobAfter (n : Nat) (len : UInt32) (buf : Option (Ref Bytes)) : Option (Ref Bytes) :=
  if len > 0 then landed n (buf.map fun r => { r with val := r.val.take len.toNat }) else none

lemma trip_blob (hb : Holds len buf) (junk : Option (Ref Bytes)) (junkLen : UInt32) (n : Nat) :
    Trip n (nkvxProcOpaque hg true .encode buf len) (nkvxProcOpaque hg true .decode junk junkLen)
      (nkvxProcOpaque hg true .free (blobAfter n len buf) len) (buf, len) (blobAfter n len buf, len) (none, len)
      (resource .heap (blobAfter n len buf)) := by
  unfold nkvxProcOpaque blobAfter
  refine (trip_uint32 len junkLen n).bind_nil ?_
  by_cases hp : len > 0
  · obtain ⟨r, rfl, hl⟩ := hb hp
    have hln : (r.val.take len.toNat).length = len.toNat := length_take_of_le hl
    simp only [if_pos hp, Bool.not_true, Bool.false_eq_true, if_false]
    refine ⟨⟨hg.putBytes (r.val.take len.toNat), fun s => rfl, fun s rest hy hn => ?_⟩, fun s => rfl⟩
    subst hn
    change (fetch (hg.bytes len.toNat) (s.took s.bytes [(Kind.heap, s.next)]) >>= _) = _
    rw [fetch_bytes (s := s.took s.bytes _) hln hy]
    change Except.ok (_, (s.took s.bytes [(Kind.heap, s.next)]).took rest []) = _
    rw [s.took_took]
    rfl
  simp only [if_neg hp]
  exact ⟨(Trip.pure' n _ _ ()).fits, fun s => rfl⟩

end Fields

end RadosNkv.Wire
