import RadosNkv.Rkv.Config
import RadosNkv.Weights.Manifest
import RadosNkv.Wire.RoundTrip

/-! The messages between the command-line client and its daemon (`proto.rs`). -/

namespace RadosNkv.Rkv

open List hiding utf8Encode
open Weights (utf8Encode utf8Decode bind_eq_ok)

inductive Request where
  | store (nsid : UInt32) (key : Str) (val : Bytes)
  | get (nsid : UInt32) (key : Str)
  | exec (nsid opId : UInt32) (key : Str) (input : Bytes)
  | ping
  | shutdown
deriving DecidableEq

inductive Response where
  | ok (payload : Bytes)
  | err (msg : Str)
deriving DecidableEq

inductive ProtoError where
  | unexpectedEof
  | zeroLength
  | tooLong (len : Nat)
  | truncated (need offset left : Nat)
  | nonUtf8
  | trailing (n : Nat)
  | unknownRequest (tag : UInt8)
  | emptyResponse
  | nonUtf8Message
  | unknownResponse (tag : UInt8)
deriving DecidableEq

def maxFrame : Nat := 80 * 1024 * 1024

def putU32 (v : UInt32) : Bytes := Wire.leBytes 4 v.toNat

def putBytes (b : Bytes) : Bytes := putU32 (.ofNat b.length) ++ b

def frame (body : Bytes) : Bytes := putU32 (.ofNat body.length) ++ body

def Request.body : Request → Bytes
  | .store nsid key val => 1 :: (putU32 nsid ++ (putBytes (utf8Encode key) ++ putBytes val))
  | .get nsid key => 2 :: (putU32 nsid ++ putBytes (utf8Encode key))
  | .exec nsid opId key input => 3 :: (putU32 nsid ++ (putU32 opId ++ (putBytes (utf8Encode key) ++ putBytes input)))
  | .ping => [4]
  | .shutdown => [5]

def Response.body : Response → Bytes
  | .ok payload => 1 :: payload
  | .err msg => 2 :: utf8Encode msg

namespace Cursor

variable (len : Nat)

/-- The cursor over a body of `len` bytes stands before the bytes `c` that are left. -/
def take (n : Nat) (c : Bytes) : Except ProtoError (Bytes × Bytes) :=
  if c.length < n then .error (.truncated n (len - c.length) c.length) else .ok (List.take n c, c.drop n)

variable (c : Bytes)

def u8 : Except ProtoError (UInt8 × Bytes) := do
  let (s, c) ← take len 1 c
  pure (s.getD 0 0, c)

def u32 : Except ProtoError (UInt32 × Bytes) := do
  let (s, c) ← take len 4 c
  pure (.ofNat (HgProc.leNat s), c)

def bytes : Except ProtoError (Bytes × Bytes) := do
  let (n, c) ← u32 len c
  take len n.toNat c

def string : Except ProtoError (Str × Bytes) := do
  let (b, c) ← bytes len c
  match utf8Decode b with
  | some s => pure (s, c)
  | none => throw .nonUtf8

def expectEnd : Except ProtoError Unit := if c ≠ [] then .error (.trailing c.length) else .ok ()

end Cursor

open Cursor (u8 u32 bytes string expectEnd)

def Request.fields (len : Nat) (tag : UInt8) (c : Bytes) : Except ProtoError (Request × Bytes) :=
  if tag = 1 then do
    let (nsid, c) ← u32 len c
    let (key, c) ← string len c
    let (val, c) ← bytes len c
    pure (.store nsid key val, c)
  else if tag = 2 then do
    let (nsid, c) ← u32 len c
    let (key, c) ← string len c
    pure (.get nsid key, c)
  else if tag = 3 then do
    let (nsid, c) ← u32 len c
    let (opId, c) ← u32 len c
    let (key, c) ← string len c
    let (input, c) ← bytes len c
    pure (.exec nsid opId key input, c)
  else if tag = 4 then pure (.ping, c)
  else if tag = 5 then pure (.shutdown, c)
  else throw (.unknownRequest tag)

def Request.decode (body : Bytes) : Except ProtoError Request := do
  let (tag, c) ← u8 body.length body
  let (req, c) ← Request.fields body.length tag c
  expectEnd c
  pure req

def Response.decode : Bytes → Except ProtoError Response
  | [] => .error .emptyResponse
  | tag :: rest =>
    if tag = 1 then .ok (.ok rest)
    else if tag = 2 then
      match utf8Decode rest with
      | some msg => .ok (.err msg)
      | none => .error .nonUtf8Message
    else .error (.unknownResponse tag)

/-- What the reads to come deliver. A read of no bytes is the end of the stream. -/
abbrev Source := List Bytes

def readExact : Nat → Source → Except ProtoError (Bytes × Source)
  | 0, r => .ok ([], r)
  | _ + 1, [] => .error .unexpectedEof
  | n + 1, chunk :: r =>
    if chunk = [] then .error .unexpectedEof
    else if n + 1 < chunk.length then .ok (chunk.take (n + 1), chunk.drop (n + 1) :: r)
    else (readExact (n + 1 - chunk.length) r).map fun p => (chunk ++ p.1, p.2)

def readFrame (r : Source) : Except ProtoError (Bytes × Source) := do
  let (lenbuf, r) ← readExact 4 r
  let len := HgProc.leNat lenbuf
  if len = 0 then throw .zeroLength
  if len > maxFrame then throw (.tooLong len)
  readExact len r

variable {μ : Type}

def readFrom (decode : Bytes → Except ProtoError μ) (r : Source) : Except ProtoError (μ × Source) := do
  let (body, r) ← readFrame r
  let m ← decode body
  pure (m, r)

/-- The next `n` messages. -/
def readMany (decode : Bytes → Except ProtoError μ) : Nat → Source → Except ProtoError (List μ × Source)
  | 0, r => pure ([], r)
  | n + 1, r => do
    let (m, r) ← readFrom decode r
    let (ms, r) ← readMany decode n r
    pure (m :: ms, r)

/-! ### What a body decodes to -/

section

variable {b c d s : Bytes}

lemma take_ok : Cursor.take len n c = .ok (s, d) ↔ s.length = n ∧ c = s ++ d := by
  unfold Cursor.take
  grind [take_append_drop]

lemma leBytes_leNat (b : Bytes) : Wire.leBytes b.length (HgProc.leNat b) = b := by
  induction b with
  | nil => rfl
  | cons x b ih =>
    have hx := x.toNat_lt
    show UInt8.ofNat (x.toNat + 256 * HgProc.leNat b) :: Wire.leBytes b.length ((x.toNat + 256 * HgProc.leNat b) / 256) = _
    rw [show (x.toNat + 256 * HgProc.leNat b) / 256 = HgProc.leNat b by omega, ih]
    congr 1
    exact UInt8.toNat_inj.mp (by simp)

lemma leNat_putU32 (v : UInt32) : HgProc.leNat (putU32 v) = v.toNat := by
  rw [putU32, Wire.leNat_leBytes, Nat.mod_eq_of_lt (show v.toNat < 256 ^ 4 from v.toNat_lt)]

lemma putU32_leNat (h : s.length = 4) : putU32 (.ofNat (HgProc.leNat s)) = s := by
  have hs := leBytes_leNat s
  have hl := Wire.leNat_leBytes 4 (HgProc.leNat s)
  rw [h] at hs
  rw [hs] at hl
  rw [putU32, UInt32.toNat_ofNat', ← show 256 ^ 4 = 2 ^ 32 from rfl, ← hl, hs]

lemma u8_ok : u8 len c = .ok (v, d) ↔ c = v :: d := by
  simp only [u8, bind_eq_ok, Prod.exists, take_ok, pure, Except.pure, Except.ok.injEq, Prod.mk.injEq]
  constructor
  · rintro ⟨s, _, ⟨hs, rfl⟩, rfl, rfl⟩
    obtain ⟨v, rfl⟩ := length_eq_one_iff.mp hs
    rfl
  rintro rfl
  exact ⟨[v], d, ⟨rfl, rfl⟩, rfl, rfl⟩

lemma u32_ok : u32 len c = .ok (v, d) ↔ c = putU32 v ++ d := by
  simp only [u32, bind_eq_ok, Prod.exists, take_ok, pure, Except.pure, Except.ok.injEq, Prod.mk.injEq]
  constructor
  · rintro ⟨s, _, ⟨hs, rfl⟩, rfl, rfl⟩
    rw [putU32_leNat hs]
  rintro rfl
  exact ⟨putU32 v, d, ⟨Wire.length_leBytes .., rfl⟩, by simp [leNat_putU32], rfl⟩

lemma bytes_ok : bytes len c = .ok (b, d) ↔ b.length < 2 ^ 32 ∧ c = putBytes b ++ d := by
  simp only [bytes, bind_eq_ok, Prod.exists, u32_ok, take_ok, putBytes, append_assoc]
  constructor
  · rintro ⟨n, _, rfl, hb, rfl⟩
    simp [hb, n.toNat_lt]
  rintro ⟨hb, rfl⟩
  exact ⟨_, _, rfl, (UInt32.toNat_ofNat_of_lt' hb).symm, rfl⟩

lemma string_ok {s : Str} :
    string len c = .ok (s, d) ↔ (utf8Encode s).length < 2 ^ 32 ∧ c = putBytes (utf8Encode s) ++ d := by
  simp only [string, bind_eq_ok, Prod.exists, bytes_ok]
  constructor
  · rintro ⟨b, _, hb, h⟩
    split at h
    · next hs =>
      cases h
      rwa [Weights.utf8Encode_of_upTo hs]
    · cases h
  · exact fun h => ⟨_, _, h, by simp only [Weights.utf8Decode_utf8Encode]; rfl⟩

end

variable {body : Bytes} {m : Request}

lemma Request.fields_ok {len : Nat} {c d : Bytes} (h : Request.fields len tag c = .ok (m, d)) :
    m.body ++ d = tag :: c := by
  unfold Request.fields at h
  split_ifs at h with h1 h2 h3 h4 h5 <;>
    simp only [bind_eq_ok, Prod.exists, u32_ok, string_ok, bytes_ok, pure, Except.pure, Except.ok.injEq, Prod.mk.injEq] at h
  · obtain ⟨nsid, _, rfl, key, _, ⟨-, rfl⟩, val, _, ⟨-, rfl⟩, rfl, rfl⟩ := h
    simp [h1, Request.body]
  · obtain ⟨nsid, _, rfl, key, _, ⟨-, rfl⟩, rfl, rfl⟩ := h
    simp [h2, Request.body]
  · obtain ⟨nsid, _, rfl, opId, _, rfl, key, _, ⟨-, rfl⟩, input, _, ⟨-, rfl⟩, rfl, rfl⟩ := h
    simp [h3, Request.body]
  · obtain ⟨rfl, rfl⟩ := h
    rw [h4]
    rfl
  obtain ⟨rfl, rfl⟩ := h
  rw [h5]
  rfl

lemma Request.body_of_decode (h : Request.decode body = .ok m) : m.body = body := by
  obtain ⟨⟨tag, c⟩, ht, h⟩ := bind_eq_ok.mp h
  obtain ⟨⟨req, d⟩, hfields, h⟩ := bind_eq_ok.mp h
  obtain ⟨_, he, h⟩ := bind_eq_ok.mp h
  cases h
  have hn : d = [] := by
    by_contra hne
    rw [expectEnd, if_pos hne] at he
    cases he
  rw [u8_ok.mp ht, ← Request.fields_ok hfields, hn, append_nil]

lemma Request.fields_body (h : m.body.length < 2 ^ 32) (len : Nat) :
    ∃ tag c, m.body = tag :: c ∧ Request.fields len tag c = .ok (m, []) := by
  cases m <;> simp only [Request.body, putBytes, length_cons, length_append] at h
  case store nsid key val =>
    refine ⟨1, _, rfl, bind_eq_ok.mpr ⟨(nsid, _), u32_ok.mpr rfl, ?_⟩⟩
    refine bind_eq_ok.mpr ⟨(key, _), string_ok.mpr ⟨by omega, rfl⟩, ?_⟩
    exact bind_eq_ok.mpr ⟨(val, []), bytes_ok.mpr ⟨by omega, (append_nil _).symm⟩, rfl⟩
  case get nsid key =>
    refine ⟨2, _, rfl, bind_eq_ok.mpr ⟨(nsid, _), u32_ok.mpr rfl, ?_⟩⟩
    exact bind_eq_ok.mpr ⟨(key, []), string_ok.mpr ⟨by omega, (append_nil _).symm⟩, rfl⟩
  case exec nsid opId key input =>
    refine ⟨3, _, rfl, bind_eq_ok.mpr ⟨(nsid, _), u32_ok.mpr rfl, bind_eq_ok.mpr ⟨(opId, _), u32_ok.mpr rfl, ?_⟩⟩⟩
    refine bind_eq_ok.mpr ⟨(key, _), string_ok.mpr ⟨by omega, rfl⟩, ?_⟩
    exact bind_eq_ok.mpr ⟨(input, []), bytes_ok.mpr ⟨by omega, (append_nil _).symm⟩, rfl⟩
  case ping => exact ⟨4, [], rfl, rfl⟩
  case shutdown => exact ⟨5, [], rfl, rfl⟩

lemma Request.decode_body (h : m.body.length < 2 ^ 32) : Request.decode m.body = .ok m := by
  obtain ⟨tag, c, hb, hfields⟩ := Request.fields_body h m.body.length
  refine bind_eq_ok.mpr ⟨(tag, c), u8_ok.mpr hb, bind_eq_ok.mpr ⟨(m, []), hfields, rfl⟩⟩

lemma Response.body_of_decode {m : Response} (h : Response.decode body = .ok m) : m.body = body := by
  unfold Response.decode at h
  split at h
  · cases h
  split_ifs at h with h1 h2
  · cases h
    rw [h1]
    rfl
  split at h
  · next hm =>
    cases h
    rw [h2, Response.body, Weights.utf8Encode_of_upTo hm]
  · cases h

lemma Response.decode_body (m : Response) : Response.decode m.body = .ok m := by
  cases m with
  | ok payload => rfl
  | err msg => simp [Response.body, Response.decode]

section

variable {r : Source}

lemma readExact_flatten (hr : [] ∉ r) (h : r.flatten = b ++ rest) :
    ∃ r', readExact b.length r = .ok (b, r') ∧ [] ∉ r' ∧ r'.flatten = rest := by
  induction r generalizing b with
  | nil =>
    obtain ⟨rfl, rfl⟩ := append_eq_nil_iff.mp h.symm
    exact ⟨[], rfl, hr, rfl⟩
  | cons chunk r ih =>
    obtain ⟨hchunk, hr'⟩ : [] ≠ chunk ∧ [] ∉ r := by simpa using hr
    cases b with
    | nil => exact ⟨chunk :: r, rfl, hr, h⟩
    | cons x b =>
      rw [length_cons, readExact, if_neg hchunk.symm]
      split
      · next ht =>
        have hk := congrArg (List.take (b.length + 1)) h
        have hd := congrArg (List.drop (b.length + 1)) h
        simp only [flatten_cons, take_append_of_le_length (le_of_lt ht), drop_append_of_le_length (le_of_lt ht)] at hk hd
        refine ⟨chunk.drop (b.length + 1) :: r, by rw [hk]; simp, ?_, by simpa using hd⟩
        simp [hr', drop_eq_nil_iff, ht]
      next hg =>
      -- the whole chunk is the head of what is read
      obtain ⟨b', hb'⟩ : chunk <+: x :: b :=
        prefix_of_prefix_length_le ⟨_, h⟩ (prefix_append _ rest) (by simpa using hg)
      rw [← hb', flatten_cons, append_assoc, append_cancel_left_eq] at h
      obtain ⟨r', hread, hn, hflat⟩ := ih hr' h
      have hl : b.length + 1 - chunk.length = b'.length := by
        have hs := congrArg length hb'
        rw [length_append, length_cons] at hs
        omega
      exact ⟨r', by rw [hl, hread, ← hb']; rfl, hn, hflat⟩

variable {body : μ → Bytes}

lemma readFrom_frame {m : μ} (hd : decode (body m) = .ok m) (hl : (body m).length ≤ maxFrame) (hn : body m ≠ [])
    (hr : [] ∉ r) (h : r.flatten = frame (body m) ++ rest) :
    ∃ r', readFrom decode r = .ok (m, r') ∧ [] ∉ r' ∧ r'.flatten = rest := by
  rw [frame, append_assoc] at h
  obtain ⟨r1, hread1, hn1, hflat1⟩ := readExact_flatten hr h
  obtain ⟨r2, hread2, hn2, hflat2⟩ := readExact_flatten hn1 hflat1
  have hbound : maxFrame < 2 ^ 32 := by decide
  have hv : HgProc.leNat (putU32 (.ofNat (body m).length)) = (body m).length := by
    rw [leNat_putU32, UInt32.toNat_ofNat_of_lt' (by show _ < 2 ^ 32; omega)]
  refine ⟨r2, bind_eq_ok.mpr ⟨(body m, r2), ?_, bind_eq_ok.mpr ⟨m, hd, rfl⟩⟩, hn2, hflat2⟩
  refine bind_eq_ok.mpr ⟨_, (Wire.length_leBytes 4 _ ▸ hread1 : readExact 4 r = _), ?_⟩
  have hp := length_pos_iff.mpr hn
  simp only [hv, pos_iff_ne_zero.mp hp, if_false, not_lt.mpr hl, hread2]

lemma readMany_frames
    (hs : ∀ m ∈ ms, decode (body m) = .ok m ∧ (body m).length ≤ maxFrame ∧ body m ≠ [])
    (hr : [] ∉ r) (h : r.flatten = ms.flatMap fun m => frame (body m)) :
    readMany decode ms.length r = .ok (ms, []) := by
  induction ms generalizing r with
  | nil =>
    cases r with
    | nil => rfl
    | cons chunk r =>
      have hn : chunk = [] := by simpa using congrArg (List.take chunk.length) h
      exact absurd (hn ▸ mem_cons_self) hr
  | cons m ms ih =>
    obtain ⟨hd, hl, he⟩ := hs m mem_cons_self
    obtain ⟨r', hread, he', hflat⟩ := readFrom_frame hd hl he hr (h.trans flatMap_cons)
    refine bind_eq_ok.mpr ⟨(m, r'), hread, bind_eq_ok.mpr ⟨(ms, []), ?_, rfl⟩⟩
    exact ih (fun m hm => hs m (mem_cons_of_mem _ hm)) he' hflat

end

def Request.encode (m : Request) : Bytes := frame m.body

def Response.encode (m : Response) : Bytes := frame m.body

/-- However the frames of a list of messages are cut into reads, they are read as that list and
nothing is left, and a body that is accepted is the body of what it is read as. -/
theorem frames_round_trip :
    (∀ (reqs : List Request) (r : Source), (∀ m ∈ reqs, m.body.length ≤ maxFrame) → [] ∉ r →
      r.flatten = reqs.flatMap Request.encode →
        readMany Request.decode reqs.length r = .ok (reqs, [])) ∧
    (∀ (resps : List Response) (r : Source), (∀ m ∈ resps, m.body.length ≤ maxFrame) → [] ∉ r →
      r.flatten = resps.flatMap Response.encode →
        readMany Response.decode resps.length r = .ok (resps, [])) ∧
    (∀ body m, Request.decode body = .ok m → m.body = body) ∧
    ∀ body m, Response.decode body = .ok m → m.body = body := by
  have hbound : maxFrame < 2 ^ 32 := by decide
  refine ⟨fun reqs r hlen hr h => ?_, fun resps r hlen hr h => ?_, fun _ _ => Request.body_of_decode,
    fun _ _ => Response.body_of_decode⟩
  · refine readMany_frames (fun m hm => ⟨Request.decode_body ?_, hlen m hm, ?_⟩) hr h
    · have := hlen m hm
      omega
    · cases m <;> exact cons_ne_nil _ _
  refine readMany_frames (fun m hm => ⟨Response.decode_body m, hlen m hm, ?_⟩) hr h
  cases m <;> exact cons_ne_nil _ _

/-- A probe and a read of the key `k`, of which the first read delivers two bytes, and an error. -/
theorem frames_round_trip_get :
    readMany Request.decode 2
        [[1, 0], [0, 0, 4, 10, 0, 0], [0, 2, 7, 0, 0, 0, 1, 0, 0, 0, 107]] =
        .ok ([.ping, .get 7 ['k']], []) ∧
      readMany Response.decode 1 [[2, 0, 0], [0, 2, 110]] = .ok ([.err ['n']], []) ∧
      (Request.get 7 ['k']).body = [2, 7, 0, 0, 0, 1, 0, 0, 0, 107] ∧
      (Response.err ['n']).body = [2, 110] := by
  obtain ⟨hreq, hresp, hbody, hbody'⟩ := frames_round_trip
  exact ⟨hreq [.ping, .get 7 ['k']] _ (by decide) (by decide) (by decide +kernel),
    hresp [.err ['n']] _ (by decide) (by decide) (by decide +kernel),
    hbody _ (.get 7 ['k']) (by decide +kernel), hbody' _ (.err ['n']) (by decide +kernel)⟩

end RadosNkv.Rkv
