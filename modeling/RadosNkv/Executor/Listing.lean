import Mathlib.Data.List.TakeWhile
import RadosNkv.Executor.BaseVerbs
import RadosNkv.Executor.ReadOnly
import RadosNkv.Wire.RoundTrip

/-! The List verb: which keys one pass over the enumeration of a pool selects, and how they are
written into a buffer of a given size. -/

namespace RadosNkv

open List Calls

open Calls (Listing listRound listResult nkvxListEmit nkvxListEntrySize nkvxListNrkSize nkvxOidToKey unhex hexValue)

variable {key key' oid : Bytes}

variable {n : Nat}

lemma hexValue_hexDigit (h : n < 16) : hexValue (hexDigit n) = some n := by
  revert n
  decide

lemma hexDigit_hexValue (h : hexValue c = some n) : n < 16 ∧ hexDigit n = c := by
  revert h
  unfold hexValue hexDigit
  split
  · rintro ⟨⟩
    exact ⟨by omega, by rw [if_pos (by omega)]; exact UInt8.toNat_inj.mp (by simp; omega)⟩
  split
  · rintro ⟨⟩
    exact ⟨by omega, by rw [if_neg (by omega)]; exact UInt8.toNat_inj.mp (by simp; omega)⟩
  · nofun

lemma keyToOid_cons (b : UInt8) (key : Bytes) :
    nkvxKeyToOid (b :: key) = hexDigit (b.toNat / 16) :: hexDigit (b.toNat % 16) :: nkvxKeyToOid key := rfl

lemma unhex_keyToOid (key : Bytes) : unhex (nkvxKeyToOid key) = some key := by
  induction key with
  | nil => rfl
  | cons b key ih =>
    have hb := b.toNat_lt
    have hy : UInt8.ofNat (b.toNat / 16 * 16 + b.toNat % 16) = b := by
      rw [Nat.div_add_mod', UInt8.ofNat_toNat]
    rw [keyToOid_cons, unhex, hexValue_hexDigit (by omega), hexValue_hexDigit (by omega), ih]
    simp only [Option.bind_eq_bind, Option.bind_some, hy]
    rfl

lemma keyToOid_unhex : ∀ {oid key : Bytes}, unhex oid = some key → nkvxKeyToOid key = oid
  | [], _, h => by cases h; rfl
  | [_], _, h => by cases h
  | hi :: lo :: rest, _, h => by
    simp only [unhex, Option.bind_eq_bind, Option.bind_eq_some_iff, Option.pure_def, Option.some.injEq] at h
    obtain ⟨m, hm, n, hn, key, hr, rfl⟩ := h
    obtain ⟨hm16, rfl⟩ := hexDigit_hexValue hm
    obtain ⟨hn16, rfl⟩ := hexDigit_hexValue hn
    have hb : (UInt8.ofNat (m * 16 + n)).toNat = m * 16 + n := by
      rw [UInt8.toNat_ofNat', Nat.mod_eq_of_lt (by omega)]
    rw [keyToOid_cons, hb, keyToOid_unhex hr]
    congr 2 <;> congr 1 <;> omega

lemma oidToKey_iff : nkvxOidToKey oid = some key ↔ oid = nkvxKeyToOid key ∧ key ≠ [] ∧ key.length ≤ 255 := by
  unfold nkvxOidToKey
  constructor
  · intro h
    split at h
    · cases h
    next ho =>
    obtain rfl := keyToOid_unhex h
    rw [length_keyToOid] at ho
    refine ⟨rfl, fun hn => ho (.inl ?_), by omega⟩
    rw [hn]
    rfl
  rintro ⟨rfl, he, hl⟩
  rw [if_neg, unhex_keyToOid]
  rw [length_keyToOid]
  rintro (hn | hln)
  · exact keyToOid_ne_nil he hn
  · omega

lemma hexDigit_lt (hm : m < 16) (hn : n < 16) : hexDigit m < hexDigit n ↔ m < n := by
  revert n
  revert m
  decide

lemma keyToOid_lt : nkvxKeyToOid key < nkvxKeyToOid key' ↔ key < key' := by
  induction key generalizing key' with
  | nil =>
    cases key' with
    | nil => exact ⟨nofun, nofun⟩
    | cons b key' => exact iff_of_true (by rw [keyToOid_cons]; exact nil_lt_cons ..) (nil_lt_cons ..)
  | cons b key ih =>
    cases key' with
    | nil => exact ⟨nofun, nofun⟩
    | cons b' key' =>
      have hb := b.toNat_lt
      have hb' := b'.toNat_lt
      have hh : hexDigit (b.toNat / 16) = hexDigit (b'.toNat / 16) ↔ b.toNat / 16 = b'.toNat / 16 :=
        ⟨hexDigit_inj (by omega) (by omega), congrArg hexDigit⟩
      have hl : hexDigit (b.toNat % 16) = hexDigit (b'.toNat % 16) ↔ b.toNat % 16 = b'.toNat % 16 :=
        ⟨hexDigit_inj (by omega) (by omega), congrArg hexDigit⟩
      rw [keyToOid_cons, keyToOid_cons, cons_lt_cons_iff, cons_lt_cons_iff, cons_lt_cons_iff,
        hexDigit_lt (by omega) (by omega), hexDigit_lt (by omega) (by omega), hh, hl, ih, UInt8.lt_iff_toNat_lt,
        ← UInt8.toNat_inj]
      by_cases hr : key < key' <;> simp only [hr, and_true, and_false, or_false] <;> omega

/-! ### The copies of the encoder -/

def hexTable : Bytes := [48, 49, 50, 51, 52, 53, 54, 55, 56, 57, 97, 98, 99, 100, 101, 102]

/-- The loop of the encoders from index `i` on: two digits for each byte, and a NUL after the last.
-/
def writeOid (hex : Bytes) : Bytes → Nat → Bytes → Bytes
  | [], i, oid => oid.set (i * 2) 0
  | b :: key, i, oid =>
    writeOid hex key (i + 1)
      ((oid.set (i * 2) (hex.getD (b >>> 4).toNat 0)).set (i * 2 + 1) (hex.getD (b &&& 0xf).toNat 0))

/-- `nkvx_key_to_oid` of `nkvx_executor.c`. -/
def executorKeyToOid (key oid : Bytes) : Bytes := writeOid hexTable key 0 oid

/-- `nkvx_key_to_oid` of `nkvx_oid.h`. -/
def oidHeaderKeyToOid (key oid : Bytes) : Bytes := writeOid hexTable key 0 oid

def kvdevRadosKeyToOid (key oid : Bytes) : Bytes := writeOid hexTable key 0 oid

/-- The loop for a `--mem-object` of `nkvx_service.c`. -/
def memObjectOid (key oid : Bytes) : Bytes := writeOid hexTable key 0 oid

/-- `ut_key_to_oid` of `kvdev_rados_nkvx_ut.c`. -/
def utKeyToOid (key oid : Bytes) : Bytes := writeOid hexTable key 0 oid

def oidEncoders : List (Bytes → Bytes → Bytes) :=
  [executorKeyToOid, oidHeaderKeyToOid, kvdevRadosKeyToOid, memObjectOid, utKeyToOid]

lemma hexTable_getD (h : n < 16) : hexTable.getD n 0 = hexDigit n := by
  revert n
  decide

lemma hexDigit_ne_zero (h : n < 16) : hexDigit n ≠ 0 := by
  revert n
  decide

lemma writeOid_eq {hd rest : Bytes} (hl : 2 * key.length < rest.length) (hi : hd.length = i * 2) :
    writeOid hexTable key i (hd ++ rest) = hd ++ nkvxKeyToOid key ++ 0 :: rest.drop (2 * key.length + 1) := by
  induction key generalizing hd rest i with
  | nil =>
    obtain ⟨c, rest, rfl⟩ := exists_cons_of_length_pos (l := rest) (by omega)
    rw [writeOid, ← hi, set_append_right _ _ le_rfl, Nat.sub_self]
    simp [nkvxKeyToOid]
  | cons b key ih =>
    rw [length_cons] at hl
    obtain ⟨c, rest, rfl⟩ := exists_cons_of_length_pos (l := rest) (by omega)
    rw [length_cons] at hl
    obtain ⟨d, rest, rfl⟩ := exists_cons_of_length_pos (l := rest) (by omega)
    rw [length_cons] at hl
    have hb := b.toNat_lt
    have hh : (b >>> 4).toNat = b.toNat / 16 := by simp [Nat.shiftRight_eq_div_pow]
    have ho : (b &&& 0xf).toNat = b.toNat % 16 := by
      rw [UInt8.toNat_and]
      exact Nat.and_two_pow_sub_one_eq_mod b.toNat 4
    rw [writeOid, hh, ho, hexTable_getD (by omega), hexTable_getD (by omega), set_append_right _ _ (by omega),
      set_append_right _ _ (by omega)]
    have ha : i * 2 - hd.length = 0 ∧ i * 2 + 1 - hd.length = 1 := by omega
    rw [ha.1, ha.2, set_cons_zero, set_cons_succ, set_cons_zero, append_cons, append_cons]
    rw [ih (by omega) (by simp; omega), keyToOid_cons]
    simp [Nat.mul_add]

lemma oidEncoder_eq (h : encode ∈ oidEncoders) {buf : Bytes} (hu : 2 * key.length < buf.length) :
    (encode key buf).takeWhile (· ≠ 0) = nkvxKeyToOid key := by
  obtain rfl : encode = fun key buf => writeOid hexTable key 0 buf := by
    simp only [oidEncoders, mem_cons, not_mem_nil, or_false] at h
    rcases h with rfl | rfl | rfl | rfl | rfl <;> rfl
  have hd : ∀ c ∈ nkvxKeyToOid key, decide (c ≠ 0) = true := by
    intro c hc
    obtain ⟨b, -, hc⟩ := mem_flatMap.mp hc
    have hb := b.toNat_lt
    simp only [mem_cons, not_mem_nil, or_false] at hc
    rcases hc with rfl | rfl
    · exact decide_eq_true (hexDigit_ne_zero (by omega))
    · exact decide_eq_true (hexDigit_ne_zero (by omega))
  have hw : writeOid hexTable key 0 ([] ++ buf) = [] ++ nkvxKeyToOid key ++ 0 :: buf.drop (2 * key.length + 1) :=
    writeOid_eq hu rfl
  rw [nil_append, nil_append] at hw
  show (writeOid hexTable key 0 buf).takeWhile _ = _
  rw [hw, takeWhile_append_of_pos hd, takeWhile_cons_of_neg (by simp), append_nil]

/-- The keys of 1 to 255 bytes and the oids that `nkvx_oid_to_key` accepts are in a bijection that
keeps the order, and every copy of the encoder writes the same oid. -/
theorem keys_oids_correspond :
    (∀ key : Bytes, key ≠ [] → key.length ≤ 255 → nkvxOidToKey (nkvxKeyToOid key) = some key) ∧
    (∀ oid key : Bytes, nkvxOidToKey oid = some key → nkvxKeyToOid key = oid) ∧
    (∀ encode ∈ oidEncoders, ∀ key buf : Bytes, 2 * key.length < buf.length →
      (encode key buf).takeWhile (· ≠ 0) = nkvxKeyToOid key) ∧
    ∀ key key' : Bytes, key < key' ↔ nkvxKeyToOid key < nkvxKeyToOid key' := by
  refine ⟨fun key hne hlen => oidToKey_iff.mpr ⟨rfl, hne, hlen⟩, fun oid key h => (oidToKey_iff.mp h).1.symm, ?_, ?_⟩
  · exact fun encode h key buf hbuf => oidEncoder_eq h hbuf
  · exact fun key key' => keyToOid_lt.symm

/-- The key of the two bytes `0x00 0xff`. -/
theorem keys_oids_correspond_00ff :
    nkvxOidToKey [48, 48, 102, 102] = some [0, 255] ∧ nkvxKeyToOid [0, 255] = [48, 48, 102, 102] ∧
      (kvdevRadosKeyToOid [0, 255] (replicate 9 7)).takeWhile (· ≠ 0) = [48, 48, 102, 102] := by
  obtain ⟨hkey, hoid, hcp, -⟩ := keys_oids_correspond
  have h := hkey [0, 255] (by decide) (by decide)
  exact ⟨h, hoid _ _ h, hcp kvdevRadosKeyToOid (by simp [oidEncoders]) [0, 255] (replicate 9 7) (by decide)⟩

def listedKeys (start : Bytes) (oids : List Bytes) : List Bytes :=
  (oids.dropWhile fun oid => decide (oid < nkvxKeyToOid start)).filterMap nkvxOidToKey

def listKey (cap : Nat) (acc : Listing) (key : Bytes) : Listing :=
  let fullLen := (acc.fullLen + nkvxListEntrySize key.length) % 2 ^ 32
  match if acc.overflow then none else nkvxListEmit cap acc.body key with
  | some body => { acc with fullLen, body, nrk := acc.nrk + 1 }
  | none => { acc with fullLen, overflow := true }

def Calls.Listing.forget (acc : Listing) : Listing := { acc with started := true }

variable (cap : Nat)

lemma forget_listKey (acc : Listing) (key : Bytes) : (listKey cap acc key).forget = listKey cap acc.forget key := by
  unfold listKey Calls.Listing.forget
  generalize (if acc.overflow = true then none else nkvxListEmit cap acc.body key) = emitted
  cases emitted <;> rfl

lemma forget_foldl (start : Bytes) (oids : List Bytes) (acc : Listing) : (oids.foldl (listRound cap start) acc).forget =
      ((if acc.started then oids else oids.dropWhile fun oid => decide (oid < start)).filterMap nkvxOidToKey).foldl
        (listKey cap) acc.forget := by
  induction oids generalizing acc with
  | nil => cases acc.started <;> rfl
  | cons oid oids ih =>
    rw [foldl_cons, ih]
    by_cases hsk : acc.started = false ∧ oid < start
    · obtain ⟨hs, hl⟩ := hsk
      have hr : listRound cap start acc oid = acc := if_pos (by simp [hs, hl])
      simp [hr, hs, hl]
    have hy : (if acc.started then oid :: oids else (oid :: oids).dropWhile fun oid => decide (oid < start)) =
        oid :: oids := by
      cases hs : acc.started with
      | true => rfl
      | false =>
        rw [if_neg Bool.false_ne_true]
        exact dropWhile_cons_of_neg (by simpa [hs] using hsk)
    have hr : listRound cap start acc oid =
        (nkvxOidToKey oid).elim acc.forget fun key => (listKey cap acc key).forget := by
      unfold listRound
      rw [if_neg (by simpa using hsk)]
      cases nkvxOidToKey oid with
      | none => rfl
      | some key =>
        unfold listKey
        dsimp only [Option.elim_some]
        generalize (if acc.overflow = true then none else nkvxListEmit cap acc.body key) = emitted
        cases emitted <;> rfl
    rw [hy, hr]
    cases hk : nkvxOidToKey oid with
    | none => simp [Calls.Listing.forget, hk]
    | some key =>
      rw [filterMap_cons, hk, foldl_cons, ← forget_listKey]
      rfl

def listStart : Listing := ⟨true, [], 0, nkvxListNrkSize, false⟩

lemma listResult_eq (req : KvMsg) (oids : List Bytes) :
    let acc := (listedKeys req.key.val oids).foldl (listKey (max req.osize.toNat nkvxListNrkSize)) listStart
    listResult req oids = ⟨fitStatus acc.fullLen req.osize.toNat, acc.fullLen,
      some (leBytes nkvxListNrkSize acc.nrk ++ acc.body)⟩ := by
  have hf := forget_foldl (max req.osize.toNat nkvxListNrkSize) (nkvxKeyToOid req.key.val) oids
    ⟨req.key.val = [], [], 0, nkvxListNrkSize, false⟩
  have hk : (if decide (req.key.val = []) then oids else
      oids.dropWhile fun oid => decide (oid < nkvxKeyToOid req.key.val)).filterMap nkvxOidToKey =
        listedKeys req.key.val oids := by
    unfold listedKeys
    by_cases hn : req.key.val = []
    · have ha : (oids.dropWhile fun oid => decide (oid < nkvxKeyToOid [])) = oids := by
        cases oids with
        | nil => rfl
        | cons oid oids => exact dropWhile_cons_of_neg (by simp [nkvxKeyToOid])
      rw [hn, ha]
      rfl
    · rw [if_neg (by simpa using hn)]
  rw [hk] at hf
  intro acc
  have hc : (oids.foldl (listRound (max req.osize.toNat nkvxListNrkSize) (nkvxKeyToOid req.key.val))
      ⟨req.key.val = [], [], 0, nkvxListNrkSize, false⟩).forget = acc := hf
  rw [← hc]
  rfl

/-! ### The encoding -/

def listEntry (key : Bytes) : Bytes :=
  Calls.leBytes 2 key.length ++ key ++ List.replicate (nkvxListEntrySize key.length - 2 - key.length) 0

def listingLength (keys : List Bytes) : Nat := nkvxListNrkSize + (keys.map fun key => nkvxListEntrySize key.length).sum

def decodeEntries : Nat → Bytes → Option (List Bytes)
  | 0, bytes => if bytes = [] then some [] else none
  | n + 1, bytes =>
    let len := HgProc.leNat (bytes.take 2)
    let size := nkvxListEntrySize len
    if bytes.length < size then none
    else (decodeEntries n (bytes.drop size)).map ((bytes.drop 2).take len :: ·)

def decodeListing (buf : Bytes) : Option (List Bytes) :=
  if buf.length < nkvxListNrkSize then none
  else decodeEntries (HgProc.leNat (buf.take nkvxListNrkSize)) (buf.drop nkvxListNrkSize)

lemma leBytes_eq (w n : Nat) : leBytes w n = Wire.leBytes w n := by
  induction w generalizing n with
  | zero => rfl
  | succ w ih =>
    rw [Wire.leBytes, ← ih]
    unfold leBytes
    rw [range_succ_eq_map, map_cons, map_map, Nat.pow_zero, Nat.div_one]
    refine congrArg _ (map_congr_left fun i _ => ?_)
    rw [Function.comp_apply, Nat.succ_eq_add_one, Nat.pow_succ', Nat.div_div_eq_div_mul]

lemma leNat_leBytes_append (hn : n < 256 ^ w) (rest : Bytes) :
    HgProc.leNat ((leBytes w n ++ rest).take w) = n := by
  have hl : (Wire.leBytes w n).length = w := Wire.length_leBytes w n
  rw [leBytes_eq, take_append_of_le_length (le_of_eq hl.symm), take_of_length_le (le_of_eq hl),
    Wire.leNat_leBytes, Nat.mod_eq_of_lt hn]

lemma entry_le (n : Nat) : 2 + n ≤ nkvxListEntrySize n := by
  unfold nkvxListEntrySize
  omega

lemma length_listEntry (key : Bytes) : (listEntry key).length = nkvxListEntrySize key.length := by
  have hl := entry_le key.length
  unfold listEntry
  rw [length_append, length_append, leBytes_eq, Wire.length_leBytes, length_replicate]
  omega

lemma length_body (keys : List Bytes) : nkvxListNrkSize + (keys.flatMap listEntry).length = listingLength keys := by
  rw [length_flatMap]
  simp only [length_listEntry]
  rfl

variable {keys : List Bytes}

lemma decodeEntries_flatMap (h : ∀ key ∈ keys, key.length ≤ 255) :
    decodeEntries keys.length (keys.flatMap listEntry) = some keys := by
  induction keys with
  | nil => rfl
  | cons key keys ih =>
    have hl : key.length < 256 ^ 2 := lt_of_le_of_lt (h key mem_cons_self) (by decide)
    have he := length_listEntry key
    have hw : (leBytes 2 key.length).length = 2 := by rw [leBytes_eq, Wire.length_leBytes]
    have hke : ((listEntry key ++ keys.flatMap listEntry).drop 2).take key.length = key := by
      unfold listEntry
      rw [append_assoc, append_assoc, drop_append_of_le_length (le_of_eq hw.symm),
        drop_of_length_le (le_of_eq hw), nil_append, take_left]
    have hh : HgProc.leNat ((listEntry key ++ keys.flatMap listEntry).take 2) = key.length := by
      unfold listEntry
      rw [append_assoc, append_assoc]
      exact leNat_leBytes_append hl _
    rw [length_cons, flatMap_cons, decodeEntries, hh, hke, ← he,
      if_neg (by rw [length_append]; omega), drop_left, ih fun k hk => h k (mem_cons_of_mem _ hk)]
    rfl

structure ListsIn (keys : List Bytes) (osize : Nat) (res : ExecResult) : Prop where
  entries : ∃ shown buf, res.buf = some buf ∧ decodeListing buf = some shown ∧ shown <+: keys
  room : ∀ buf, res.buf = some buf → buf.length ≤ osize
  full : res.resultLen = listingLength keys
  status : res.status = if listingLength keys ≤ osize then .success else .bufferTooSmall

lemma listingLength_concat (keys : List Bytes) (key : Bytes) :
    listingLength (keys ++ [key]) = listingLength keys + nkvxListEntrySize key.length := by
  simp [listingLength, add_assoc]

lemma fullLen_listKey (acc : Listing) (key : Bytes) :
    (listKey cap acc key).fullLen = (acc.fullLen + nkvxListEntrySize key.length) % 2 ^ 32 := by
  unfold listKey
  generalize (if acc.overflow = true then none else nkvxListEmit cap acc.body key) = emitted
  cases emitted <;> rfl

lemma fullLen_foldl (keys : List Bytes) :
    (keys.foldl (listKey cap) listStart).fullLen = listingLength keys % 2 ^ 32 := by
  induction keys using List.reverseRecOn with
  | nil => rfl
  | append_singleton keys key ih =>
    rw [foldl_append, foldl_cons, foldl_nil, fullLen_listKey, listingLength_concat, ih, Nat.mod_add_mod]

structure Shows (cap : Nat) (keys shown : List Bytes) (acc : Listing) : Prop where
  pre : shown <+: keys
  body : acc.body = shown.flatMap listEntry
  nrk : acc.nrk = shown.length
  room : listingLength shown ≤ cap
  all : acc.overflow = false → shown = keys
  rest : acc.overflow = true → cap < listingLength keys

lemma Shows.listKey {cap : Nat} (h : Shows cap keys shown acc)
    (hl : listingLength (keys ++ [key]) < 2 ^ 32) :
    ∃ shown', Shows cap (keys ++ [key]) shown' (listKey cap acc key) := by
  obtain ⟨hp, hb, hn, hr, ha, hs⟩ := h
  have hc := listingLength_concat keys key
  unfold RadosNkv.listKey
  cases ho : acc.overflow with
  | true =>
    have hln := hs ho
    exact ⟨shown, hp.trans (prefix_append ..), hb, hn, hr, nofun, fun _ => by omega⟩
  | false =>
    obtain rfl := ha ho
    have hz : nkvxListNrkSize + acc.body.length = listingLength shown := by rw [hb, length_body]
    rw [if_neg Bool.false_ne_true]
    unfold nkvxListEmit
    dsimp only
    rw [hz, ← hc, Nat.mod_eq_of_lt hl]
    by_cases hf : listingLength (shown ++ [key]) > cap
    · rw [if_pos hf]
      exact ⟨shown, prefix_append .., hb, hn, hr, nofun, fun _ => hf⟩
    rw [if_neg hf]
    refine ⟨shown ++ [key], prefix_rfl, ?_, ?_, not_lt.mp hf, fun _ => rfl, nofun⟩
    · simp [hb, listEntry]
    rw [length_append, ← hn]
    rfl

lemma shows_foldl {cap : Nat} (hc : nkvxListNrkSize ≤ cap) (h : listingLength keys < 2 ^ 32) :
    ∃ shown, Shows cap keys shown (keys.foldl (listKey cap) listStart) := by
  induction keys using List.reverseRecOn with
  | nil => exact ⟨[], prefix_rfl, rfl, rfl, hc, fun _ => rfl, nofun⟩
  | append_singleton keys key ih =>
    obtain ⟨shown, hs⟩ := ih (by rw [listingLength_concat] at h; omega)
    rw [foldl_append, foldl_cons, foldl_nil]
    exact hs.listKey h

variable {oids : List Bytes}

lemma length_listedKeys (h : key ∈ listedKeys start oids) : key.length ≤ 255 := by
  obtain ⟨oid, -, hk⟩ := mem_filterMap.mp h
  exact (oidToKey_iff.mp hk).2.2

lemma decodeListing_shows {cap : Nat} (h : Shows cap keys shown acc)
    (hl : ∀ key ∈ keys, key.length ≤ 255) (hz : listingLength shown < 2 ^ 32) :
    decodeListing (leBytes nkvxListNrkSize acc.nrk ++ acc.body) = some shown := by
  have hw : (leBytes nkvxListNrkSize acc.nrk).length = nkvxListNrkSize := by rw [leBytes_eq, Wire.length_leBytes]
  have hc : shown.length ≤ listingLength shown := by
    have hs : ∀ keys : List Bytes, keys.length ≤ (keys.map fun key => nkvxListEntrySize key.length).sum := by
      intro keys
      induction keys with
      | nil => exact Nat.le_refl _
      | cons key keys ih =>
        have he := entry_le key.length
        rw [length_cons, map_cons, sum_cons]
        omega
    exact Nat.le_trans (hs shown) (Nat.le_add_left ..)
  unfold decodeListing
  rw [if_neg (by rw [length_append, hw]; omega), leNat_leBytes_append (by rw [h.nrk]; exact Nat.lt_of_le_of_lt hc hz),
    drop_append_of_le_length (Nat.le_of_eq hw.symm), drop_of_length_le (Nat.le_of_eq hw), nil_append,
    h.nrk, h.body]
  exact decodeEntries_flatMap fun key hk => hl key (h.pre.subset hk)

/-- A listing is encoded as it should be exactly if the buffer has room for the count and the length
of the whole listing does not wrap. -/
theorem list_encodes_iff (req : KvMsg) (oids : List Bytes) :
    ListsIn (listedKeys req.key.val oids) req.osize.toNat (listResult req oids) ↔
      nkvxListNrkSize ≤ req.osize.toNat ∧ listingLength (listedKeys req.key.val oids) < 2 ^ 32 := by
  rw [listResult_eq]
  have hfl := fullLen_foldl (max req.osize.toNat nkvxListNrkSize) (listedKeys req.key.val oids)
  constructor
  · intro h
    have hrm := h.room _ rfl
    rw [length_append, leBytes_eq, Wire.length_leBytes] at hrm
    refine ⟨by omega, ?_⟩
    rw [← h.full]
    exact hfl ▸ Nat.mod_lt _ (by decide)
  rintro ⟨hrm, hlen⟩
  rw [max_eq_left hrm] at hfl ⊢
  rw [Nat.mod_eq_of_lt hlen] at hfl
  obtain ⟨shown, hshow⟩ := shows_foldl hrm hlen
  have hsz : listingLength shown < 2 ^ 32 := lt_of_le_of_lt hshow.room req.osize.toNat_lt
  have hbuf := decodeListing_shows hshow (fun _ => length_listedKeys) hsz
  refine ⟨⟨shown, _, rfl, hbuf, hshow.pre⟩, ?_, hfl, ?_⟩
  · rintro buf ⟨⟩
    rw [length_append, leBytes_eq, Wire.length_leBytes, hshow.body, length_body]
    exact hshow.room
  show fitStatus _ _ = _
  rw [hfl]
  unfold fitStatus
  by_cases hfits : listingLength (listedKeys req.key.val oids) ≤ req.osize.toNat
  · rw [if_pos hfits, if_neg (not_lt.mpr hfits)]
  · rw [if_neg hfits, if_pos (not_le.mp hfits)]

def listMsg (start : WireKey) (osize : UInt32) : KvMsg :=
  { verb := 5, readOnly := 1, clientCallId := 0, key := start, osize, storeFlags := 0, valueLen := 0, valueInline := none,
    valueBulk := none, resultSink := none }

/-- Into no room the count is written all the same. -/
theorem list_without_room :
    ¬ ListsIn (listedKeys [] []) 0 (listResult (listMsg ⟨[], by decide⟩ 0) []) := by
  intro h
  exact absurd (h.room _ rfl) (by decide)

def poolOids (ctx : IoCtx) (objs : Objects) : List Bytes := (objs.keys.filter fun k => k.1 = ctx).map Prod.snd

/-- The key is a legal one, and its object is among the oids. -/
def StoredIn (oids : List Bytes) (key : Bytes) : Prop := key ≠ [] ∧ key.length ≤ 255 ∧ nkvxKeyToOid key ∈ oids

lemma nodup_poolOids (ctx : IoCtx) (objs : Objects) : (poolOids ctx objs).Nodup := by
  refine (objs.nodup_keys.filter _).map_on fun a ha b hb he => ?_
  have hc : a.1 = b.1 := by
    rw [of_decide_eq_true (mem_filter.mp ha).2, of_decide_eq_true (mem_filter.mp hb).2]
  exact Prod.ext hc he

lemma mem_filterMap_oidToKey : key ∈ oids.filterMap nkvxOidToKey ↔ StoredIn oids key := by
  rw [mem_filterMap]
  constructor
  · rintro ⟨oid, ho, hk⟩
    obtain ⟨rfl, hn, hl⟩ := oidToKey_iff.mp hk
    exact ⟨hn, hl, ho⟩
  rintro ⟨hn, hl, ho⟩
  exact ⟨_, ho, oidToKey_iff.mpr ⟨rfl, hn, hl⟩⟩

lemma decode_listResult (req : KvMsg) (oids : List Bytes)
    (hr : listingLength (oids.filterMap nkvxOidToKey) ≤ req.osize.toNat) :
    ∃ buf, (listResult req oids).buf = some buf ∧ decodeListing buf = some (listedKeys req.key.val oids) := by
  have hl : listingLength (listedKeys req.key.val oids) ≤ req.osize.toNat :=
    Nat.le_trans (Nat.add_le_add_left ((((dropWhile_sublist _).filterMap _).map _).sum_le_sum fun _ _ => Nat.zero_le _) _) hr
  have ht : listingLength (listedKeys req.key.val oids) < 2 ^ 32 := Nat.lt_of_le_of_lt hl req.osize.toNat_lt
  have hc : nkvxListNrkSize ≤ req.osize.toNat := Nat.le_trans (Nat.le_add_right ..) hl
  obtain ⟨shown, hs⟩ := shows_foldl hc ht
  have ha : shown = listedKeys req.key.val oids := by
    refine hs.all ?_
    by_contra ho
    exact absurd hl (Nat.not_le.mpr (hs.rest (by simpa using ho)))
  rw [listResult_eq, Nat.max_eq_left hc]
  refine ⟨_, rfl, ?_⟩
  rw [decodeListing_shows hs (fun _ => length_listedKeys) (ha ▸ ht), ha]

/-- With room for every stored key, a List returns the stored keys from the start on, each once,
exactly if no stored key below the start is enumerated after an oid that is not below it. -/
theorem list_selects_iff {api : WasmApi} (ex : ExecutorState api) (ctx : IoCtx) (req : KvMsg)
    (objs : Objects)
    (hroom : listingLength ((poolOids ctx objs).filterMap nkvxOidToKey) ≤ req.osize.toNat) :
    let run := Calls.nkvxList true { ex with backend := .rados ctx } req
    (∃ buf keys, (run.outcome (clusterAnswer .none) objs).1.2.buf = some buf ∧
      decodeListing buf = some keys ∧ keys.Nodup ∧
        ∀ key, key ∈ keys ↔ StoredIn (poolOids ctx objs) key ∧ req.key.val ≤ key) ↔
      ∀ key, StoredIn (poolOids ctx objs) key → key < req.key.val →
        nkvxKeyToOid key ∉ (poolOids ctx objs).dropWhile fun oid =>
          decide (oid < nkvxKeyToOid req.key.val) := by
  have hresult : ((nkvxList true { ex with backend := .rados ctx } req).outcome (clusterAnswer .none) objs).1.2 =
      listResult req (poolOids ctx objs) := rfl
  dsimp only
  rw [hresult]
  obtain ⟨buf, hbuf, hkeys⟩ := decode_listResult req (poolOids ctx objs) hroom
  have hmem : ∀ key, key ∈ listedKeys req.key.val (poolOids ctx objs) ↔
      StoredIn ((poolOids ctx objs).dropWhile fun oid => decide (oid < nkvxKeyToOid req.key.val)) key :=
    fun key => mem_filterMap_oidToKey
  have hsub := dropWhile_sublist (l := poolOids ctx objs) fun oid => decide (oid < nkvxKeyToOid req.key.val)
  constructor
  · rintro ⟨_, keys, hbuf', hkeys', -, hexc⟩ key hstore hlt hrest
    cases hbuf.symm.trans hbuf'
    cases hkeys.symm.trans hkeys'
    have hlist := (hmem key).mpr ⟨hstore.1, hstore.2.1, hrest⟩
    exact ((hexc key).mp hlist).2 hlt
  intro hord
  have hnodup := (hsub.nodup (nodup_poolOids ctx objs)).filterMap fun _ _ _ hk hk' =>
    (oidToKey_iff.mp hk).1.trans (oidToKey_iff.mp hk').1.symm
  refine ⟨buf, _, hbuf, hkeys, hnodup, fun key => (hmem key).trans ⟨?_, ?_⟩⟩
  · rintro ⟨hne, hlen, hrest⟩
    have hstore : StoredIn (poolOids ctx objs) key := ⟨hne, hlen, hsub.subset hrest⟩
    exact ⟨hstore, fun hlt => hord key hstore hlt hrest⟩
  rintro ⟨⟨hne, hlen, hin⟩, hle⟩
  -- an oid that the pass skips is below the start, and then so is its key
  rw [← takeWhile_append_dropWhile (p := fun oid => decide (oid < nkvxKeyToOid req.key.val))
    (l := poolOids ctx objs)] at hin
  rcases mem_append.mp hin with hskip | hrest
  · have hbelow := mem_takeWhile_imp hskip
    exact absurd (keyToOid_lt.mp (of_decide_eq_true hbelow)) hle
  · exact ⟨hne, hlen, hrest⟩

def unsortedPool : Objects :=
  (Dict.empty.insert (dataPool, nkvxKeyToOid [98]) []).insert (dataPool, nkvxKeyToOid [97]) []

theorem list_selects_all :
    ∃ buf keys,
      ((Calls.nkvxList true ⟨.rados dataPool, .init toyApi⟩ (listMsg ⟨[], by decide⟩ 64)).outcome
        (clusterAnswer .none) unsortedPool).1.2.buf = some buf ∧ decodeListing buf = some keys ∧
          keys.Nodup ∧
      ∀ key, key ∈ keys ↔ StoredIn (poolOids dataPool unsortedPool) key ∧ ([] : Bytes) ≤ key :=
  (list_selects_iff ⟨.rados dataPool, .init toyApi⟩ dataPool (listMsg ⟨[], by decide⟩ 64) unsortedPool
    (by decide +kernel)).mpr fun _ _ hlt => absurd hlt (not_lt_nil _)

/-- A List from `b` on also returns `a`, which is enumerated later. -/
theorem list_returns_smaller :
    (((Calls.nkvxList true ⟨.rados dataPool, .init toyApi⟩ (listMsg ⟨[98], by decide⟩ 64)).outcome
        (clusterAnswer .none) unsortedPool).1.2.buf.bind decodeListing = some [[98], [97]]) ∧
      ([97] : Bytes) < [98] := by
  decide +kernel

end RadosNkv
