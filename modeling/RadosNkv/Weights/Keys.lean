import Mathlib.Algebra.Order.Ring.Int
import Mathlib.Data.List.DropRight
import RadosNkv.Library.Dict
import RadosNkv.Rpc

/-! The keys of the weights catalog (`keys.py`), and what the catalog takes from outside: text, its
encoding and normal form, the digest, and Arrow's tables. -/

namespace RadosNkv

namespace Weights

open List

abbrev Str := List Char

instance : LawfulBEq Str := inferInstance

def utf8Encode (s : Str) : Bytes := s.flatMap String.utf8EncodeChar

def utf8DecodeUpTo : Nat → Bytes → Option Str
  | _, [] => some []
  | 0, _ :: _ => none
  | n + 1, b :: bs =>
    match (b :: bs).toByteArray.utf8DecodeChar? 0 with
    | none => none
    | some c => (utf8DecodeUpTo n ((b :: bs).drop c.utf8Size)).map (c :: ·)

def utf8Decode (raw : Bytes) : Option Str := utf8DecodeUpTo raw.length raw

lemma utf8EncodeChar_ne_nil (c : Char) : String.utf8EncodeChar c ≠ [] := by
  intro h
  have hl := congrArg List.length h
  rw [String.length_utf8EncodeChar, length_nil] at hl
  exact absurd hl (pos_iff_ne_zero.mp c.utf8Size_pos)

lemma utf8DecodeUpTo_utf8Encode {s : Str} (h : s.length ≤ n) :
    utf8DecodeUpTo n (utf8Encode s) = some s := by
  induction s generalizing n with
  | nil => cases n <;> rfl
  | cons c s ih =>
    obtain ⟨n, rfl⟩ : ∃ m, n = m + 1 := ⟨n - 1, by rw [length_cons] at h; omega⟩
    have hs : utf8Encode (c :: s) = String.utf8EncodeChar c ++ utf8Encode s := rfl
    have hd : (String.utf8EncodeChar c ++ utf8Encode s).toByteArray.utf8DecodeChar? 0 = some c := by
      rw [toByteArray_append]
      exact ByteArray.utf8DecodeChar?_utf8EncodeChar_append
    have hr : (String.utf8EncodeChar c ++ utf8Encode s).drop c.utf8Size = utf8Encode s :=
      drop_left' (String.length_utf8EncodeChar c)
    rw [hs]
    cases he : String.utf8EncodeChar c with
    | nil => exact absurd he (utf8EncodeChar_ne_nil c)
    | cons b bs =>
      rw [he] at hd hr
      rw [cons_append] at hd hr ⊢
      simp only [utf8DecodeUpTo, hd, hr, ih (Nat.le_of_succ_le_succ h), Option.map_some]

lemma length_le_length_utf8Encode (s : Str) : s.length ≤ (utf8Encode s).length := by
  induction s with
  | nil => exact le_rfl
  | cons c s ih =>
    have hp := c.utf8Size_pos
    have hl : (utf8Encode (c :: s)).length = c.utf8Size + (utf8Encode s).length := by
      simp [utf8Encode, String.length_utf8EncodeChar]
    rw [hl, length_cons]
    omega

@[simp] lemma utf8Decode_utf8Encode (s : Str) : utf8Decode (utf8Encode s) = some s :=
  utf8DecodeUpTo_utf8Encode (length_le_length_utf8Encode s)

lemma utf8Encode_injective : Function.Injective utf8Encode := by
  intro s s' h
  have hs := utf8Decode_utf8Encode s
  rw [h, utf8Decode_utf8Encode] at hs
  exact (Option.some.inj hs).symm

lemma utf8Encode_of_upTo (h : utf8DecodeUpTo n raw = some s) : utf8Encode s = raw := by
  fun_induction utf8DecodeUpTo n raw generalizing s with
  | case1 =>
    cases h
    rfl
  | case2 => cases h
  | case3 => cases h
  | case4 n b bs c hc ih =>
    obtain ⟨s, hs, rfl⟩ := Option.map_eq_some_iff.mp h
    have ha := congrArg (fun a => a.data.toList) (ByteArray.eq_of_utf8DecodeChar?_eq_some hc)
    have hr : ((b :: bs).drop c.utf8Size).take (bs.length + 1 - c.utf8Size) = (b :: bs).drop c.utf8Size :=
      take_of_length_le (by simp)
    have hhead : b :: bs = String.utf8EncodeChar c ++ (b :: bs).drop c.utf8Size := by simpa [hr] using ha
    rw [hhead, ← ih hs]
    rfl

inductive Column where
  | strings (cells : List (Option Str))
  | ints (cells : List (Option (List (Option Int))))
  | binaries (cells : List (Option (List (Option Bytes))))
deriving DecidableEq

structure Table where
  columns : List (Str × Column)
  metadata : Dict Bytes Bytes
deriving DecidableEq

structure Libs where
  blake2b : Bytes → Bytes
  nfc : Str → Str
  write : Table → Option Bytes
  read : Bytes → Option Table

/-- Arrow IPC reads back the table that it wrote. -/
def Libs.Lossless (L : Libs) : Prop := ∀ table data, L.write table = some data → L.read data = some table

def manifestTag : UInt8 := 0x00

def chunkTag : UInt8 := 0x01

def isSpace (c : Char) : Bool :=
  let n := c.toNat
  (0x09 ≤ n && n ≤ 0x0D) || (0x1C ≤ n && n ≤ 0x20) || n == 0x85 || n == 0xA0 || n == 0x1680 ||
    (0x2000 ≤ n && n ≤ 0x200A) || n == 0x2028 || n == 0x2029 || n == 0x202F || n == 0x205F || n == 0x3000

def strip (s : Str) : Str := (s.dropWhile isSpace).rdropWhile isSpace

variable (L : Libs)

def canonicalRevision (s : Str) : Str :=
  let out := strip (L.nfc s)
  if out.getLast? = some '/' then out.dropLast else out

def chunkKey (chunk : Bytes) : Bytes := chunkTag :: L.blake2b chunk

def manifestKey (modelRevision : Str) : Bytes :=
  manifestTag :: L.blake2b (utf8Encode (canonicalRevision L modelRevision))

variable {L}

lemma manifestKey_ne_chunkKey (rev : Str) (v : Bytes) : manifestKey L rev ≠ chunkKey L v := by
  simp [manifestKey, chunkKey, manifestTag, chunkTag]

lemma chunkKey_inj : chunkKey L v = chunkKey L w ↔ L.blake2b v = L.blake2b w := by
  simp [chunkKey]

lemma manifestKey_congr (h : canonicalRevision L rev = canonicalRevision L rev') :
    manifestKey L rev = manifestKey L rev' := by
  simp only [manifestKey, h]

end Weights

end RadosNkv
