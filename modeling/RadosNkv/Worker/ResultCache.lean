import Mathlib.Data.Set.Function
import RadosNkv.Executor.Truncation
import RadosNkv.Library.Framing

/-! The cache of computed results (`g_nkvx_result` in `kvdev_rados_nkvx.c`). -/

namespace RadosNkv.Worker

abbrev Digest := { b : Bytes // b.length = 32 }

structure ResultReq where
  module : Bytes
  modSha256 : Option Digest
  object : Bytes
  input : Bytes
  module_lt : module.length < 2 ^ 64
  input_lt : input.length < 2 ^ 64
deriving DecidableEq

lemma leU64_inj (hm : m < 2 ^ 64) (hn : n < 2 ^ 64) (h : leU64 m = leU64 n) : m = n := by
  have hb : ∀ i < 8, m / 256 ^ i % 256 = n / 256 ^ i % 256 := by
    intro i hi
    have he := congrArg (fun l : Bytes => (l.getD i 0).toNat) h
    simpa [leU64, hi] using he
  have hp : 256 ^ 8 = 2 ^ 64 := rfl
  have ho := mod_pow_eq_of_digits hb
  rwa [hp, Nat.mod_eq_of_lt hm, Nat.mod_eq_of_lt hn] at ho

def keyLengths : LengthCode UInt8 where
  enc := leU64
  width := 8
  bound := 2 ^ 64
  length_enc := fun _ => by simp [leU64]
  enc_inj := leU64_inj

def nkvxResultHashUpdate (buf : Bytes) : Bytes := keyLengths.frame buf

def ResultReq.stream (sha256 : Bytes → Digest) (req : ResultReq) : Bytes :=
  nkvxResultHashUpdate req.module ++
    (nkvxResultHashUpdate [if req.modSha256.isSome then 1 else 0] ++
      ((match req.modSha256 with
        | some sha => nkvxResultHashUpdate sha.val
        | none => []) ++
        (nkvxResultHashUpdate (sha256 req.object).val ++ nkvxResultHashUpdate req.input)))

def resultKey (sha256 : Bytes → Digest) (digests : Bool) (req : ResultReq) : Option Digest :=
  if digests then some (sha256 (req.stream sha256)) else none

structure ResultEntry where
  key : Digest
  kvstatus : IoStatus
  resultLen : Nat
  bytes : Bytes
deriving DecidableEq

structure ResultStats where
  hits : Nat
  misses : Nat
  inserts : Nat
  evictions : Nat

structure ResultKnobs where
  enabled : Bool
  maxCount : Nat

structure ResultCache where
  entries : List ResultEntry
  count : Nat
  knobs : ResultKnobs
  stats : ResultStats

def ResultCache.reset (knobs : ResultKnobs) : ResultCache := ⟨[], 0, knobs, ⟨0, 0, 0, 0⟩⟩

def nkvxResultLookupLocked (c : ResultCache) (key : Digest) : Option ResultEntry :=
  c.entries.find? fun e => e.key = key

def ResultCache.touch (c : ResultCache) (e : ResultEntry) : ResultCache :=
  { c with entries := c.entries.erase e ++ [e] }

/-- `kvdev_rados_nkvx_result_lookup` with room for `outLen` bytes. -/
def resultLookup (c : ResultCache) (key : Digest) (outLen : Nat) : ResultCache × Option RunResult :=
  if !c.knobs.enabled then (c, none)
  else
    match nkvxResultLookupLocked c key with
    | none => ({ c with stats := { c.stats with misses := c.stats.misses + 1 } }, none)
    | some e =>
      ({ c.touch e with stats := { c.stats with hits := c.stats.hits + 1 } },
        some ⟨e.kvstatus, e.resultLen, e.bytes.take outLen⟩)

def resultEvict : List ResultEntry → ResultCache → ResultCache
  | [], c => c
  | _ :: rest, c =>
    if c.knobs.maxCount ≠ 0 ∧ c.count > c.knobs.maxCount then
      resultEvict rest
        { c with
          entries := rest
          count := c.count - 1
          stats := { c.stats with evictions := c.stats.evictions + 1 } }
    else c

structure ResultAlloc where
  copy : Bool
  entry : Bool

/-- `kvdev_rados_nkvx_result_insert` of a run's result and the bytes that it delivered. -/
def resultInsert (alloc : ResultAlloc) (c : ResultCache) (key : Digest) (r : RunResult) : ResultCache :=
  if ¬ r.status.HasResult then c
  else if !c.knobs.enabled then c
  else
    match nkvxResultLookupLocked c key with
    | some e => c.touch e
    | none =>
      if r.out.length > 0 ∧ !alloc.copy then c
      else if !alloc.entry then c
      else
        let c : ResultCache :=
          { c with
            entries := c.entries ++ [⟨key, r.status, r.resultLen, r.out⟩]
            count := c.count + 1
            stats := { c.stats with inserts := c.stats.inserts + 1 } }
        resultEvict c.entries c

variable {sha256 : Bytes → Digest}

def hashed (sha256 : Bytes → Digest) (reqs : List ResultReq) : Set Bytes :=
  { b | ∃ req ∈ reqs, b = req.object ∨ b = req.stream sha256 }

lemma digest_lt (d : Digest) : d.val.length < keyLengths.bound := by
  rw [d.property]
  decide

lemma byte_lt (b : UInt8) : [b].length < keyLengths.bound := by
  show 1 < 2 ^ 64
  decide

lemma stream_inj {req req' : ResultReq} (ht : req.stream sha256 = req'.stream sha256) :
    req.module = req'.module ∧ req.modSha256 = req'.modSha256 ∧ sha256 req.object = sha256 req'.object ∧
      req.input = req'.input := by
  obtain ⟨hd, ht⟩ := keyLengths.frame_append_inj req.module_lt req'.module_lt ht
  obtain ⟨hm, ht⟩ := keyLengths.frame_append_inj (byte_lt _) (byte_lt _) ht
  -- the marker says whether a module digest follows
  have hp : req.modSha256 = req'.modSha256 ∧
      keyLengths.frame (sha256 req.object).val ++ keyLengths.frame req.input =
        keyLengths.frame (sha256 req'.object).val ++ keyLengths.frame req'.input := by
    cases hs : req.modSha256 with
    | none =>
      cases hs' : req'.modSha256 with
      | none =>
        rw [hs, hs'] at ht
        exact ⟨rfl, ht⟩
      | some sha' => simp [hs, hs'] at hm
    | some sha =>
      cases hs' : req'.modSha256 with
      | none => simp [hs, hs'] at hm
      | some sha' =>
        rw [hs, hs'] at ht
        obtain ⟨hsm, hr⟩ := keyLengths.frame_append_inj (digest_lt sha) (digest_lt sha') ht
        exact ⟨congrArg some (Subtype.ext hsm), hr⟩
  obtain ⟨hs, ht⟩ := hp
  obtain ⟨ho, ht⟩ := keyLengths.frame_append_inj (digest_lt _) (digest_lt _) ht
  exact ⟨hd, hs, Subtype.ext ho, keyLengths.frame_inj req.input_lt req'.input_lt ht⟩

lemma resultKey_inj (hi : Set.InjOn sha256 (hashed sha256 reqs)) (hr : req ∈ reqs)
    (hr' : req' ∈ reqs) (h : sha256 (req.stream sha256) = sha256 (req'.stream sha256)) :
    req = req' := by
  obtain ⟨hm, hs, ho, hn⟩ := stream_inj (hi ⟨req, hr, .inr rfl⟩ ⟨req', hr', .inr rfl⟩ h)
  have ho := hi ⟨req, hr, .inl rfl⟩ ⟨req', hr', .inl rfl⟩ ho
  cases req
  cases req'
  simp only [ResultReq.mk.injEq]
  exact ⟨hm, hs, ho, hn⟩

end RadosNkv.Worker
