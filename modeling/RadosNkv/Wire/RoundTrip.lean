import RadosNkv.Wire.Modes

/-! What the receiver makes of the sender's record: the same value, but for inline bytes longer than
`NKVX_INLINE_MAX`, in buffers that freeing the record releases. -/

namespace RadosNkv.Wire

open List Processor HgProc

def inlineField (len : UInt32) : UInt32 := if len.toNat ≤ nkvxInlineMax then len else 0

section Records

variable {hg : HgCodec}

def PayloadIn.after (n : Nat) (p : PayloadIn) : PayloadIn :=
  let inlined := blobAfter n (inlineField p.len) p.inlined
  let bulk := landed (n + (resource Kind.heap inlined).length) p.bulk
  let sinkAt := n + (resource Kind.heap inlined).length + (resource Kind.bulk bulk).length
  { len := p.len, inlined, bulk, resultSink := landed sinkAt p.resultSink }

def PayloadIn.cleared (p : PayloadIn) : PayloadIn := { p with inlined := none, bulk := none, resultSink := none }

def PayloadIn.resources (p : PayloadIn) : List (Kind × Nat) :=
  resource .heap p.inlined ++ (resource .bulk p.bulk ++ resource .bulk p.resultSink)

def PayloadIn.WellFormed (p : PayloadIn) : Prop := Holds (inlineField p.len) p.inlined

lemma trip_payload {p : PayloadIn} (hp : p.WellFormed) (junk : PayloadIn) (n : Nat) :
    Trip n (procPayload hg true .encode p) (procPayload hg true .decode junk)
      (procPayload hg true .free (p.after n)) p (p.after n) (p.after n).cleared (p.after n).resources := by
  refine (trip_uint32 p.len junk.len n).bind_nil ?_
  refine (trip_blob hp junk.inlined _ n).bind ?_
  refine (trip_bulk p.bulk junk.bulk _).bind ?_
  rw [← append_nil (resource Kind.bulk (p.after n).resultSink)]
  exact (trip_bulk p.resultSink junk.resultSink _).bind (Trip.pure' ..)

lemma sha256_fits : 32 ≤ 32 := le_refl 32

def ExecInHead.after (n : Nat) (r junk : ExecInHead) : ExecInHead :=
  let moduleKey := landed n r.moduleKey
  { r with
    key := keyAfter r.keyLen r.key junk.key
    sha256 := junk.sha256.overwrite (firstBytes r.sha256 sha256_fits) sha256_fits
    moduleKey
    moduleNs := landed (n + (resource Kind.heap moduleKey).length) r.moduleNs }

def ExecInHead.cleared (r : ExecInHead) : ExecInHead := { r with moduleKey := none, moduleNs := none }

def ExecInHead.resources (r : ExecInHead) : List (Kind × Nat) :=
  resource .heap r.moduleKey ++ resource .heap r.moduleNs

def ExecInHead.WellFormed (r : ExecInHead) : Prop := CString r.moduleKey ∧ CString r.moduleNs

lemma trip_execHead {r : ExecInHead} (hr : r.WellFormed) (junk : ExecInHead) (n : Nat) :
    Trip n (procExecHead hg .encode r) (procExecHead hg .decode junk) (procExecHead hg .free (r.after n junk))
      r (r.after n junk) (r.after n junk).cleared (r.after n junk).resources := by
  refine (trip_uint32 r.opId junk.opId n).bind_nil ?_
  refine (trip_uint64 r.clientCallId junk.clientCallId n).bind_nil ?_
  refine (trip_uint8 r.readOnly junk.readOnly n).bind_nil ?_
  refine (trip_uint8 r.runtime junk.runtime n).bind_nil ?_
  refine (trip_uint64 r.caps junk.caps n).bind_nil ?_
  refine (trip_key r.keyLen junk.keyLen r.key junk.key n).bind_nil ?_
  refine (trip_bytes _ r.sha256 junk.sha256 n).bind_nil ?_
  refine (trip_uint8 r.sha256Valid junk.sha256Valid n).bind_nil ?_
  refine (trip_string hr.1 junk.moduleKey n).bind ?_
  rw [← append_nil (resource Kind.heap (r.after n junk).moduleNs)]
  refine (trip_string hr.2 junk.moduleNs _).bind ?_
  exact (trip_uint32 r.osize junk.osize _).bind_nil (Trip.pure' ..)

def KvInHead.after (r junk : KvInHead) : KvInHead := { r with key := keyAfter r.keyLen r.key junk.key }

lemma trip_kvHead (r junk : KvInHead) (n : Nat) :
    Trip n (procKvHead hg .encode r) (procKvHead hg .decode junk) (procKvHead hg .free (r.after junk))
      r (r.after junk) (r.after junk) [] := by
  refine (trip_uint8 r.verb junk.verb n).bind_nil ?_
  refine (trip_uint8 r.readOnly junk.readOnly n).bind_nil ?_
  refine (trip_uint64 r.clientCallId junk.clientCallId n).bind_nil ?_
  refine (trip_key r.keyLen junk.keyLen r.key junk.key n).bind_nil ?_
  refine (trip_uint32 r.osize junk.osize n).bind_nil ?_
  exact (trip_uint8 r.storeFlags junk.storeFlags n).bind_nil (Trip.pure' ..)

def NkvxExecIn.after (n : Nat) (r junk : NkvxExecIn) : NkvxExecIn :=
  let head := r.head.after n junk.head
  { head, input := r.input.after (n + head.resources.length) }

def NkvxExecIn.cleared (r : NkvxExecIn) : NkvxExecIn := { head := r.head.cleared, input := r.input.cleared }

def NkvxExecIn.resources (r : NkvxExecIn) : List (Kind × Nat) := r.head.resources ++ r.input.resources

def NkvxExecIn.WellFormed (r : NkvxExecIn) : Prop := r.head.WellFormed ∧ r.input.WellFormed

lemma trip_execIn {r : NkvxExecIn} (hr : r.WellFormed) (junk : NkvxExecIn) (n : Nat) :
    Trip n (hgProcNkvxExecIn hg true .encode r) (hgProcNkvxExecIn hg true .decode junk)
      (hgProcNkvxExecIn hg true .free (r.after n junk)) r (r.after n junk) (r.after n junk).cleared
      (r.after n junk).resources := by
  refine (trip_execHead hr.1 junk.head n).bind ?_
  rw [← append_nil (r.after n junk).input.resources]
  exact (trip_payload hr.2 junk.input _).bind (Trip.pure' ..)

def NkvxKvIn.after (n : Nat) (r junk : NkvxKvIn) : NkvxKvIn :=
  { head := r.head.after junk.head, value := r.value.after n }

def NkvxKvIn.cleared (r : NkvxKvIn) : NkvxKvIn := { r with value := r.value.cleared }

def NkvxKvIn.WellFormed (r : NkvxKvIn) : Prop := r.value.WellFormed

lemma trip_kvIn {r : NkvxKvIn} (hr : r.WellFormed) (junk : NkvxKvIn) (n : Nat) :
    Trip n (hgProcNkvxKvIn hg true .encode r) (hgProcNkvxKvIn hg true .decode junk)
      (hgProcNkvxKvIn hg true .free (r.after n junk)) r (r.after n junk) (r.after n junk).cleared
      (r.after n junk).value.resources := by
  refine (trip_kvHead r.head junk.head n).bind_nil ?_
  rw [← append_nil (r.after n junk).value.resources]
  exact (trip_payload hr junk.value n).bind (Trip.pure' ..)

def NkvxOut.after (n : Nat) (r : NkvxOut) : NkvxOut :=
  { r with resultInline := blobAfter n r.resultInlineLen r.resultInline }

def NkvxOut.cleared (r : NkvxOut) : NkvxOut := { r with resultInline := none }

def NkvxOut.WellFormed (r : NkvxOut) : Prop := Holds r.resultInlineLen r.resultInline

lemma trip_out {r : NkvxOut} (hr : r.WellFormed) (junk : NkvxOut) (n : Nat) :
    Trip n (procOut hg true .encode r) (procOut hg true .decode junk) (procOut hg true .free (r.after n))
      r (r.after n) (r.after n).cleared (resource .heap (r.after n).resultInline) := by
  refine (trip_int32 r.status junk.status n).bind_nil ?_
  refine (trip_uint32 r.resultLen junk.resultLen n).bind_nil ?_
  rw [← append_nil (resource Kind.heap (r.after n).resultInline)]
  exact (trip_blob hr junk.resultInline junk.resultInlineLen n).bind (Trip.pure' ..)

end Records

def wireKey (len : UInt8) (key : Fixed keyMaxLen) : WireKey :=
  ⟨key.val.take len.toNat, Nat.le_trans (length_take_le ..) (toNat_le_keyMaxLen len)⟩

def ExecInHead.wire (r : ExecInHead) : ExecHead :=
  { opId := r.opId, clientCallId := r.clientCallId, readOnly := r.readOnly, runtime := r.runtime, caps := r.caps
    key := wireKey r.keyLen r.key, sha256 := r.sha256.val, sha256Valid := r.sha256Valid
    moduleKey := r.moduleKey.map (·.val), moduleNs := r.moduleNs.map (·.val), osize := r.osize }

def KvInHead.wire (r : KvInHead) : KvHead :=
  { verb := r.verb, readOnly := r.readOnly, clientCallId := r.clientCallId, key := wireKey r.keyLen r.key
    osize := r.osize, storeFlags := r.storeFlags }

lemma overwrite_all (b c : Fixed N) : b.overwrite c (le_refl N) = c := by
  refine Subtype.ext ?_
  change c.val ++ b.val.drop N = c.val
  rw [drop_of_length_le (le_of_eq b.property), append_nil]

lemma wireKey_overwrite (len : UInt8) (key : Fixed keyMaxLen) (c : Fixed len.toNat) :
    (wireKey len (key.overwrite c (toNat_le_keyMaxLen len))).val = c.val := by
  have ht : (c.val ++ key.val.drop len.toNat).take len.toNat = c.val.take len.toNat :=
    take_append_of_le_length (le_of_eq c.property.symm)
  exact ht.trans (take_of_length_le (le_of_eq c.property))

def declared (len : UInt32) (buf : Option (Ref Bytes)) : Option Bytes :=
  if len = 0 then none else buf.map (·.val.take len.toNat)

structure PayloadIn.Received (sent got : PayloadIn) : Prop where
  len : got.len = sent.len
  inlined : declared got.len got.inlined =
    if sent.len.toNat > nkvxInlineMax then none else declared sent.len sent.inlined
  bulk : got.bulk.map (·.val) = sent.bulk.map (·.val)
  resultSink : got.resultSink.map (·.val) = sent.resultSink.map (·.val)

structure NkvxExecIn.Received (sent got : NkvxExecIn) : Prop where
  head : got.head.wire = sent.head.wire
  input : sent.input.Received got.input

structure NkvxKvIn.Received (sent got : NkvxKvIn) : Prop where
  head : got.head.wire = sent.head.wire
  value : sent.value.Received got.value

structure NkvxOut.Received (sent got : NkvxOut) : Prop where
  status : got.status = sent.status
  resultLen : got.resultLen = sent.resultLen
  resultInlineLen : got.resultInlineLen = sent.resultInlineLen
  resultInline : declared got.resultInlineLen got.resultInline = declared sent.resultInlineLen sent.resultInline

section Values

variable (n : Nat)

lemma map_val_landed {α : Type} (p : Option (Ref α)) : (landed n p).map (·.val) = p.map (·.val) := by
  cases p <;> rfl

lemma wireKey_keyAfter (len : UInt8) (key junk : Fixed keyMaxLen) :
    wireKey len (keyAfter len key junk) = wireKey len key := by
  unfold keyAfter
  by_cases hp : len > 0
  · rw [if_pos hp]
    exact Subtype.ext (wireKey_overwrite len junk _)
  have hz : len = 0 := by simpa using hp
  rw [if_neg hp, hz]
  rfl

lemma declared_blobAfter (len : UInt32) (buf : Option (Ref Bytes)) :
    declared len (blobAfter n len buf) = declared len buf := by
  unfold declared blobAfter
  by_cases hp : len > 0
  · rw [if_pos hp]
    cases buf with
    | none => rfl
    | some r => simp [landed, take_take]
  have hz : len = 0 := by simpa using hp
  rw [if_pos hz, if_pos hz]

lemma PayloadIn.received_after (p : PayloadIn) : p.Received (p.after n) where
  len := rfl
  inlined := by
    change declared p.len (blobAfter n (inlineField p.len) p.inlined) = _
    by_cases hl : p.len.toNat > nkvxInlineMax
    · have hf : inlineField p.len = 0 := if_neg (Nat.not_le_of_gt hl)
      rw [if_pos hl, hf]
      exact ite_self _
    have hf : inlineField p.len = p.len := if_pos (Nat.le_of_not_gt hl)
    rw [if_neg hl, hf, declared_blobAfter]
  bulk := map_val_landed ..
  resultSink := map_val_landed ..

lemma ExecInHead.wire_after (r junk : ExecInHead) : (r.after n junk).wire = r.wire := by
  have hs : (r.after n junk).sha256 = r.sha256 := by
    refine (overwrite_all junk.sha256 _).trans (Subtype.ext ?_)
    exact take_of_length_le (le_of_eq r.sha256.property)
  unfold ExecInHead.wire
  rw [hs]
  simp only [ExecInHead.after, wireKey_keyAfter, map_val_landed]

lemma KvInHead.wire_after (r junk : KvInHead) : (r.after junk).wire = r.wire := by
  simp only [KvInHead.wire, KvInHead.after, wireKey_keyAfter]

end Values

/-- For every well-formed record there are bytes that the encoder writes, and it leaves the record
alone. -/
def RoundTrips {σ : Type} (proc : Mode → σ → HgProcM σ) (helper : σ → List (Kind × Nat) × σ)
    (WellFormed : σ → Prop) (Received : σ → σ → Prop) : Prop :=
  ∀ sent, WellFormed sent → ∃ wire, (∀ n, proc .encode sent (.start [] n) = .ok (sent, .start wire n)) ∧
    ∀ junk n rest, ∃ got left acq,
      proc .decode junk (.start (wire ++ rest) n) = .ok (got, ⟨rest, n + acq.length, acq, []⟩) ∧
      Received sent got ∧ acq.Nodup ∧ (∀ r ∈ acq, n ≤ r.2) ∧
      (∀ m, proc .free got (.start [] m) = .ok (left, ⟨[], m, [], acq⟩)) ∧
      (helper got).1 = acq.filter (·.1 = .heap)

section RoundTrips

variable {hg : HgCodec} {σ : Type}

lemma roundTrips_of_trip (after : Nat → σ → σ → σ) (cleared : σ → σ) (resources : σ → List (Kind × Nat))
    (ht : ∀ {sent}, WellFormed sent → ∀ junk n,
      Trip n (proc .encode sent) (proc .decode junk) (proc .free (after n sent junk)) sent (after n sent junk)
        (cleared (after n sent junk)) (resources (after n sent junk)))
    (hc : ∀ n sent junk, Received sent (after n sent junk))
    (hn : ∀ n sent junk, InTurn n (resources (after n sent junk)))
    (hh : ∀ r, (helper r).1 = (resources r).filter (·.1 = .heap)) : RoundTrips proc helper WellFormed Received := by
  intro sent hs
  obtain ⟨wire, hw, -⟩ := (ht hs sent 0).fits
  refine ⟨wire, fun n => hw _, fun junk n rest => ?_⟩
  obtain ⟨wire', hw', hd⟩ := (ht hs junk n).fits
  -- the encoder writes the same bytes whatever they are read into
  have hwr : wire' = wire := by
    have hm := (hw' (.start [] 0)).symm.trans (hw (.start [] 0))
    exact congrArg (fun x : σ × Stream Kind => x.2.bytes) (Except.ok.inj hm)
  subst hwr
  refine ⟨after n sent junk, cleared (after n sent junk), resources (after n sent junk), ?_, hc n sent junk,
    (hn n sent junk).nodup, fun r hr => (hn n sent junk).fresh hr, ?_, hh _⟩
  · exact hd (.start (wire' ++ rest) n) rest rfl rfl
  · exact fun m => (ht hs junk n).frees (.start [] m)

lemma filter_heap {α : Type} (p : Option (Ref α)) : (resource Kind.heap p).filter (·.1 = .heap) = resource .heap p := by
  cases p <;> rfl

lemma filter_bulk {α : Type} (p : Option (Ref α)) : (resource Kind.bulk p).filter (·.1 = .heap) = [] := by
  cases p <;> rfl

lemma inTurn_blobAfter (n : Nat) (len : UInt32) (buf : Option (Ref Bytes)) :
    InTurn n (resource Kind.heap (blobAfter n len buf)) := by
  unfold blobAfter
  by_cases hp : len > 0
  · rw [if_pos hp]
    exact inTurn_resource_landed n ..
  rw [if_neg hp]
  exact InTurn.nil n

lemma PayloadIn.inTurn_after (n : Nat) (p : PayloadIn) : InTurn n (p.after n).resources :=
  (inTurn_blobAfter n ..).append ((inTurn_resource_landed ..).append (inTurn_resource_landed ..))

lemma ExecInHead.inTurn_after (n : Nat) (r junk : ExecInHead) : InTurn n (r.after n junk).resources :=
  (inTurn_resource_landed n ..).append (inTurn_resource_landed ..)

lemma PayloadIn.filter_resources (p : PayloadIn) : p.resources.filter (·.1 = .heap) = resource .heap p.inlined := by
  unfold PayloadIn.resources
  rw [filter_append, filter_append, filter_heap, filter_bulk, filter_bulk]
  simp

lemma roundTrips_execIn : RoundTrips (hgProcNkvxExecIn hg true) nkvxExecInFree NkvxExecIn.WellFormed
    NkvxExecIn.Received := by
  refine roundTrips_of_trip NkvxExecIn.after NkvxExecIn.cleared NkvxExecIn.resources trip_execIn ?_ ?_ ?_
  · exact fun n sent junk => ⟨sent.head.wire_after n junk.head, sent.input.received_after _⟩
  · exact fun n sent junk => (sent.head.inTurn_after n junk.head).append (sent.input.inTurn_after _)
  intro r
  unfold NkvxExecIn.resources ExecInHead.resources
  rw [filter_append, filter_append, filter_heap, filter_heap, PayloadIn.filter_resources]
  rfl

lemma roundTrips_kvIn : RoundTrips (hgProcNkvxKvIn hg true) nkvxKvInFree NkvxKvIn.WellFormed NkvxKvIn.Received := by
  refine roundTrips_of_trip NkvxKvIn.after NkvxKvIn.cleared (·.value.resources) trip_kvIn ?_ ?_ ?_
  · exact fun n sent junk => ⟨sent.head.wire_after junk.head, sent.value.received_after n⟩
  · exact fun n sent junk => sent.value.inTurn_after n
  · exact fun r => r.value.filter_resources.symm

lemma roundTrips_out : RoundTrips (procOut hg true) freeOut NkvxOut.WellFormed NkvxOut.Received := by
  refine roundTrips_of_trip (fun n r _ => r.after n) NkvxOut.cleared (fun r => resource .heap r.resultInline)
    trip_out ?_ ?_ ?_
  · exact fun n sent junk => ⟨rfl, rfl, rfl, declared_blobAfter n ..⟩
  · exact fun n sent junk => inTurn_blobAfter n ..
  · exact fun r => (filter_heap r.resultInline).symm

end RoundTrips

/-- Requests and responses of both calls survive the wire: the receiver has the sender's value, its
key compared on the bytes that `key_len` covers and its inline bytes dropped exactly when they are
longer than `NKVX_INLINE_MAX`. -/
theorem codec_round_trips (hg : HgCodec) :
    RoundTrips (hgProcNkvxExecIn hg true) nkvxExecInFree NkvxExecIn.WellFormed NkvxExecIn.Received ∧
      RoundTrips (hgProcNkvxExecOut hg true) nkvxExecOutFree NkvxOut.WellFormed NkvxOut.Received ∧
      RoundTrips (hgProcNkvxKvIn hg true) nkvxKvInFree NkvxKvIn.WellFormed NkvxKvIn.Received ∧
      RoundTrips (hgProcNkvxKvOut hg true) nkvxKvOutFree NkvxOut.WellFormed NkvxOut.Received :=
  ⟨roundTrips_execIn, roundTrips_out, roundTrips_kvIn, roundTrips_out⟩

def leBytes : Nat → Nat → Bytes
  | 0, _ => []
  | w + 1, n => UInt8.ofNat n :: leBytes w (n / 256)

lemma length_leBytes (w n : Nat) : (leBytes w n).length = w := by
  induction w generalizing n with
  | zero => rfl
  | succ w ih => exact congrArg (· + 1) (ih _)

lemma leNat_leBytes (w n : Nat) : leNat (leBytes w n) = n % 256 ^ w := by
  induction w generalizing n with
  | zero => rw [Nat.pow_zero, Nat.mod_one]; rfl
  | succ w ih =>
    change (UInt8.ofNat n).toNat + 256 * leNat (leBytes w (n / 256)) = _
    rw [ih, Nat.pow_succ', Nat.mod_mul]
    rfl

lemma raw_append {b : Bytes} (hb : b.length = k) (rest : Bytes) :
    raw k (b ++ rest) = .ok (⟨b, hb⟩, rest) := by
  subst hb
  unfold raw
  rw [dif_pos (by simp)]
  simp

lemma raw_leBytes {α : Type} {w n : Nat} {f : Nat → α} {v : α} (hn : n < 256 ^ w) (hv : f n = v) (rest : Bytes) :
    ((fun b => f (leNat b.val)) <$> raw w) (leBytes w n ++ rest) = .ok (v, rest) := by
  change (fun x => (f (leNat x.1.val), x.2)) <$> raw w (leBytes w n ++ rest) = _
  rw [raw_append (length_leBytes w n)]
  change Except.ok (f (leNat (leBytes w n)), rest) = _
  rw [leNat_leBytes, Nat.mod_eq_of_lt hn, hv]

def putFlagged : Option Bytes → Bytes
  | none => [0]
  | some s => 1 :: (s ++ [0])

def getFlagged : Decoder (Option Bytes)
  | [] => .error (.error 13)
  | flag :: rest =>
    if flag = 0 then .ok (none, rest)
    else .ok (some (rest.takeWhile (· ≠ 0)), (rest.dropWhile (· ≠ 0)).tail)

lemma getFlagged_put (s : Option Bytes) (hs : ∀ t ∈ s, 0 ∉ t) (rest : Bytes) :
    getFlagged (putFlagged s ++ rest) = .ok (s, rest) := by
  cases s with
  | none => rfl
  | some t =>
    have ha : ∀ b ∈ t, decide (b ≠ 0) = true := by
      intro b hb
      exact decide_eq_true fun hz => hs t rfl (hz ▸ hb)
    change Except.ok (some (((t ++ [0]) ++ rest).takeWhile (· ≠ 0)), (((t ++ [0]) ++ rest).dropWhile (· ≠ 0)).tail) = _
    rw [append_assoc, takeWhile_append_of_pos ha, dropWhile_append_of_pos ha]
    simp

/-- Scalars and bytes as Mercury copies them, and strings and bulk handles behind a flag. -/
def flaggedCodec : HgCodec where
  toHgProc := { plain with string := getFlagged, bulk := (Option.map List.length) <$> getFlagged }
  int32 := UInt32.toInt32 <$> plain.uint32
  putUint8 v := leBytes 1 v.toNat
  putUint32 v := leBytes 4 v.toNat
  putUint64 v := leBytes 8 v.toNat
  putInt32 v := leBytes 4 v.toUInt32.toNat
  putBytes := id
  putString := putFlagged
  putBulk h := putFlagged (h.map (List.replicate · 1))
  uint8_put v := raw_leBytes v.toNat_lt UInt8.ofNat_toNat
  uint32_put v := raw_leBytes v.toNat_lt UInt32.ofNat_toNat
  uint64_put v := raw_leBytes v.toNat_lt UInt64.ofNat_toNat
  int32_put v rest := by
    change (fun x => (x.1.toInt32, x.2)) <$> plain.uint32 (leBytes 4 v.toUInt32.toNat ++ rest) = _
    rw [show plain.uint32 _ = _ from raw_leBytes v.toUInt32.toNat_lt UInt32.ofNat_toNat rest]
    rfl
  bytes_put b rest := raw_append rfl rest
  string_put := getFlagged_put
  bulk_put h rest := by
    change (fun x => (x.1.map List.length, x.2)) <$> getFlagged (putFlagged (h.map (List.replicate · 1)) ++ rest) = _
    rw [getFlagged_put]
    · cases h <;> simp [Functor.map, Except.map]
    · intro t ht
      obtain ⟨k, -, rfl⟩ := Option.map_eq_some_iff.mp ht
      simp

def keyOfByte (b : UInt8) : Fixed keyMaxLen :=
  ⟨b :: List.replicate 254 0, by rw [length_cons, length_replicate]; rfl⟩

def sentExec : NkvxExecIn where
  head :=
    { opId := 7, clientCallId := 1, readOnly := 0, runtime := 1, caps := 0, keyLen := 1
      key := keyOfByte 107, sha256 := ⟨List.replicate 32 0, by simp⟩
      sha256Valid := 0, moduleKey := some ⟨100, [102]⟩, moduleNs := none, osize := 64 }
  input := { len := 1, inlined := some ⟨200, [9]⟩, bulk := none, resultSink := some ⟨300, 5⟩ }

def sentStore : NkvxKvIn where
  head :=
    { verb := 1, readOnly := 0, clientCallId := 2, keyLen := 1
      key := keyOfByte 107, osize := 0, storeFlags := 0 }
  value := { len := 5000, inlined := none, bulk := some ⟨400, 6⟩, resultSink := none }

def sentOut : NkvxOut := { status := 0, resultLen := 3, resultInlineLen := 2, resultInline := some ⟨500, [1, 2]⟩ }

/-- The four records at concrete values, over processors that read what they wrote. -/
theorem codec_round_trips_flagged :
    (sentExec.WellFormed ∧ sentStore.WellFormed ∧ sentOut.WellFormed) ∧
      RoundTrips (hgProcNkvxExecIn flaggedCodec true) nkvxExecInFree NkvxExecIn.WellFormed
        NkvxExecIn.Received ∧
      RoundTrips (hgProcNkvxExecOut flaggedCodec true) nkvxExecOutFree NkvxOut.WellFormed
        NkvxOut.Received ∧
      RoundTrips (hgProcNkvxKvIn flaggedCodec true) nkvxKvInFree NkvxKvIn.WellFormed
        NkvxKvIn.Received ∧
      RoundTrips (hgProcNkvxKvOut flaggedCodec true) nkvxKvOutFree NkvxOut.WellFormed
        NkvxOut.Received := by
  refine ⟨⟨⟨⟨?_, ?_⟩, ?_⟩, ?_, ?_⟩, codec_round_trips flaggedCodec⟩
  · rintro r ⟨rfl⟩
    decide
  · rintro r ⟨⟩
  · exact fun _ => ⟨_, rfl, by decide⟩
  · intro hpos
    exact absurd hpos (by decide)
  · exact fun _ => ⟨_, rfl, by decide⟩

end RadosNkv.Wire
