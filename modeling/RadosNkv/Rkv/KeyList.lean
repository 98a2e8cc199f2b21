import RadosNkv.Executor.Listing
import RadosNkv.Forwarder.Binding
import RadosNkv.Rkv.Config

/-! The keys of a namespace, asked for page by page (`commands/list.rs`). The target sends a key as
hex text, which stands here as the bytes of the text. -/

namespace RadosNkv.Rkv

open List

inductive ListError where
  | noNqn
  | unknownNamespace (name : Str)
  | enumerating (name : Str) (nsid : UInt32)
  | moreButNone
  | oddLength (hex : Bytes)
  | notHex (hex : Bytes)
  | splitChar
deriving DecidableEq

/-- `u8::from_str_radix` of two bytes, where a plus sign may stand for the first digit. -/
def parseByte (hi lo : UInt8) : Option UInt8 :=
  if hi = 43 then (hexDigitValue lo).map .ofNat
  else do
    let h ← hexDigitValue hi
    let l ← hexDigitValue lo
    pure (.ofNat (h * 16 + l))

def isContinuation (c : UInt8) : Bool := 0x80 ≤ c && c < 0xC0

def decodePairs (hex : Bytes) : Bytes → Except ListError Bytes
  | hi :: lo :: rest =>
    -- a slice that ends inside a character panics
    if rest.head?.any isContinuation then .error .splitChar
    else
      match parseByte hi lo with
      | none => .error (.notHex hex)
      | some b => (decodePairs hex rest).map (b :: ·)
  | _ => .ok []

def decodeHex (hex : Bytes) : Except ListError Bytes :=
  if hex.length % 2 ≠ 0 then .error (.oddLength hex) else decodePairs hex hex

def encodeHex (bytes : Bytes) : Bytes := bytes.flatMap fun b => [hexDigit (b.toNat / 16), hexDigit (b.toNat % 16)]

abbrev Printable (bytes : Bytes) : Prop := bytes ≠ [] ∧ bytes.all fun b => 0x20 ≤ b ∧ b < 0x7f

def formatKey (hex : Bytes) : Except ListError Bytes :=
  (decodeHex hex).map fun bytes => if Printable bytes then bytes else 48 :: 120 :: hex

def bumpFrom (bytes : Bytes) : Nat → Bytes
  | 0 => bytes
  | i + 1 => if bytes.getD i 0 ≠ 0xff then (bytes.set i (bytes.getD i 0 + 1)).take (i + 1) else bumpFrom bytes i

def nextKey (bytes : Bytes) : Bytes := if bytes.length < 16 then bytes ++ [0] else bumpFrom bytes bytes.length

def nextHexKey (hex : Bytes) : Except ListError Bytes := (decodeHex hex).map fun bytes => encodeHex (nextKey bytes)

structure KvListParams where
  nqn : Str
  nsid : UInt32
  startKey : Option Bytes

structure KvListResult where
  keys : List Bytes
  more : Bool

inductive Ending where
  | done
  | failed (e : ListError)
  | running

def printKeys : List Bytes → List Bytes × Option ListError
  | [] => ([], none)
  | hex :: rest =>
    match formatKey hex with
    | .error e => ([], some e)
    | .ok line =>
      let (lines, e) := printKeys rest
      (line :: lines, e)

def listLoop (ask : Nat → Option Bytes → Except ListError KvListResult) : Nat → Nat → Option Bytes → List Bytes × Ending
  | 0, _, _ => ([], .running)
  | fuel + 1, n, start =>
    match ask n start with
    | .error e => ([], .failed e)
    | .ok res =>
      match printKeys res.keys with
      | (lines, some e) => (lines, .failed e)
      | (lines, none) =>
        if !res.more then (lines, .done)
        else
          match res.keys.getLast? with
          | none => (lines, .failed .moreButNone)
          | some last =>
            match nextHexKey last with
            | .error e => (lines, .failed e)
            | .ok next =>
              let (later, ending) := listLoop ask fuel (n + 1) (some next)
              (lines ++ later, ending)

def listKeys (cfg : Config) (name : Str) (server : Nat → KvListParams → Option KvListResult) (fuel : Nat) :
    List Bytes × Ending :=
  match cfg.target .nqn with
  | none => ([], .failed .noNqn)
  | some nqn =>
    match cfg.namespaces.get name with
    | none => ([], .failed (.unknownNamespace name))
    | some nsid =>
      listLoop (fun n start => (server n ⟨nqn, nsid, start⟩).elim (.error (.enumerating name nsid)) .ok) fuel 0 none

variable {k key hex : Bytes}

lemma parseByte_hexDigit (hm : m < 16) (hn : n < 16) :
    parseByte (hexDigit m) (hexDigit n) = some (.ofNat (m * 16 + n)) ∧ isContinuation (hexDigit m) = false := by
  revert n
  revert m
  decide +kernel

lemma decodePairs_encodeHex (key : Bytes) : decodePairs hex (encodeHex key) = .ok key := by
  induction key with
  | nil => rfl
  | cons b key ih =>
    have hb := b.toNat_lt
    have hc : (encodeHex key).head?.any isContinuation = false := by
      cases key with
      | nil => rfl
      | cons c key => exact (parseByte_hexDigit (n := 0) (by have := c.toNat_lt; omega) (by decide)).2
    show decodePairs hex (hexDigit (b.toNat / 16) :: hexDigit (b.toNat % 16) :: encodeHex key) = _
    rw [decodePairs, hc, (parseByte_hexDigit (by omega) (by omega)).1, ih, Nat.div_add_mod', UInt8.ofNat_toNat]
    rfl

lemma decodeHex_encodeHex (key : Bytes) : decodeHex (encodeHex key) = .ok key := by
  have hl : (encodeHex key).length = 2 * key.length := length_keyToOid key
  rw [decodeHex, if_neg (by omega), decodePairs_encodeHex]

lemma formatKey_eq (h : decodeHex hex = .ok key) :
    formatKey hex = .ok (if Printable key then key else 48 :: 120 :: hex) := by
  rw [formatKey, h]
  rfl

/-- Two keys that are shown as one text are the same key exactly if both are printable or neither
is. -/
theorem formatKey_injective_iff (hexA hexB a b : Bytes) (ha : decodeHex hexA = .ok a)
    (hb : decodeHex hexB = .ok b)
    (h : formatKey hexA = formatKey hexB) : a = b ↔ (Printable a ↔ Printable b) := by
  rw [formatKey_eq ha, formatKey_eq hb, Except.ok.injEq] at h
  refine ⟨fun heq => by rw [heq], fun hiff => ?_⟩
  by_cases hpa : Printable a
  · rwa [if_pos hpa, if_pos (hiff.mp hpa)] at h
  rw [if_neg hpa, if_neg fun hpb => hpa (hiff.mpr hpb)] at h
  obtain rfl : hexA = hexB := by simpa using h
  exact Except.ok.inj (ha.symm.trans hb)

/-- The texts `4a` and `4A` of one printable key. -/
theorem formatKey_injective_iff_4a :
    formatKey [52, 97] = formatKey [52, 65] ∧
      ([74] = ([74] : Bytes) ↔ (Printable [74] ↔ Printable [74])) := by
  have h : formatKey [52, 97] = formatKey [52, 65] := by decide
  exact ⟨h, formatKey_injective_iff [52, 97] [52, 65] [74] [74] (by decide) (by decide) h⟩

/-- The key `00` and the printable key `0x00` are both shown as `0x00`. -/
theorem formatKey_shows_two_keys :
    decodeHex [48, 48] = .ok [0] ∧
      decodeHex [51, 48, 55, 56, 51, 48, 51, 48] = .ok [48, 120, 48, 48] ∧
      formatKey [48, 48] = .ok [48, 120, 48, 48] ∧
      formatKey [51, 48, 55, 56, 51, 48, 51, 48] = .ok [48, 120, 48, 48] := by
  decide

/-- Among the keys of at most `n` bytes, those from `u` on are those beyond `v`. -/
def Next (n : Nat) (v u : Bytes) : Prop := ∀ y : Bytes, y.length ≤ n → (u ≤ y ↔ v < y)

variable {n : Nat}

lemma Next.cons (b : UInt8) (h : Next n v u) : Next (n + 1) (b :: v) (b :: u) := by
  intro y hy
  cases y with
  | nil => simp
  | cons a t =>
    rw [cons_le_cons_iff, cons_lt_cons_iff, h t (by simpa using hy)]

lemma Next.append (h : Next n v u) (l : Bytes) : Next (l.length + n) (l ++ v) (l ++ u) := by
  induction l with
  | nil => rwa [length_nil, zero_add]
  | cons b l ih =>
    rw [length_cons, add_right_comm]
    exact ih.cons b

lemma next_zero (n : Nat) : Next n [] [0] := by
  intro y hy
  cases y with
  | nil => simp
  | cons a t => simp [cons_le_cons_iff, UInt8.lt_iff_toNat_lt, ← UInt8.toNat_inj]; omega

lemma not_replicate_lt {t : Bytes} (ht : t.length ≤ m) : ¬ replicate m 255 < t := by
  induction m generalizing t with
  | zero => simp_all
  | succ m ih =>
    cases t with
    | nil => exact not_lt_nil _
    | cons a t =>
      have ha := a.toNat_lt
      simp only [replicate_succ, cons_lt_cons_iff, not_or, not_and]
      exact ⟨by simp [UInt8.lt_iff_toNat_lt]; omega, fun _ => ih (by simpa using ht)⟩

lemma next_bump (hb : b ≠ 255) (m : Nat) : Next (m + 1) (b :: replicate m 255) [b + 1] := by
  intro y hy
  cases y with
  | nil => simp
  | cons a t =>
    have hr := not_replicate_lt (m := m) (t := t) (by simpa using hy)
    have hl := b.toNat_lt
    have hn : b.toNat ≠ 255 := fun h => hb (UInt8.toNat_inj.mp h)
    have hs : (b + 1).toNat = b.toNat + 1 := by rw [UInt8.toNat_add]; simp; omega
    rw [cons_le_cons_iff, cons_lt_cons_iff, UInt8.lt_iff_toNat_lt, UInt8.lt_iff_toNat_lt, ← UInt8.toNat_inj, hs]
    simp [hr]
    omega

lemma bumpFrom_eq (hb : b ≠ 255) (l s : Bytes) (m : Nat) :
    bumpFrom (l ++ b :: (replicate m 255 ++ s)) (l.length + 1 + m) = l ++ [b + 1] := by
  induction m generalizing s with
  | zero => simp [bumpFrom, hb, set_append_right, take_append]
  | succ m ih =>
    have ha : (l ++ b :: (replicate (m + 1) 255 ++ s)).getD (l.length + 1 + m) 0 = 255 := by
      simp [add_assoc, add_comm 1 m]
    rw [← add_assoc, bumpFrom, ha, if_neg (by simp), replicate_succ', append_assoc]
    exact ih (255 :: s)

lemma eq_replicate_or (k : Bytes) :
    (∃ l b m, b ≠ 255 ∧ k = l ++ b :: replicate m 255) ∨ k = replicate k.length 255 := by
  induction k with
  | nil => exact .inr rfl
  | cons a k ih =>
    obtain ⟨l, b, m, hb, rfl⟩ | hl := ih
    · exact .inl ⟨a :: l, b, m, hb, rfl⟩
    by_cases ha : a = 255
    · exact .inr (by rw [length_cons, replicate_succ, ← hl, ha])
    · exact .inl ⟨[], a, k.length, ha, by rw [← hl]; rfl⟩

lemma next_nextKey (hk : k.length ≤ 16) {x : Bytes} (hx : x.length ≤ 16) (ht : k < x) : Next 16 k (nextKey k) := by
  unfold nextKey
  split
  · have h := (next_zero (16 - k.length)).append k
    rwa [append_nil, Nat.add_sub_cancel' hk] at h
  next hl =>
  obtain ⟨l, b, m, hb, rfl⟩ | ha := eq_replicate_or k
  · rw [length_append, length_cons, length_replicate] at hk hl
    have hm := bumpFrom_eq hb l [] m
    rw [append_nil, add_assoc, add_comm 1 m] at hm
    rw [length_append, length_cons, length_replicate, hm]
    have h := (next_bump hb m).append l
    rwa [show l.length + (m + 1) = 16 by omega] at h
  rw [ha] at ht
  exact absurd ht (not_replicate_lt (by omega))

/-- A finite set of keys, as its ascending list. -/
structure KeySet where
  keys : List Bytes
  ascending : keys.Pairwise (· < ·)
  sizes : ∀ k ∈ keys, 1 ≤ k.length ∧ k.length ≤ 16

def KeySet.atLeast (stored : KeySet) (start : Bytes) : List Bytes := stored.keys.filter fun k => decide (start ≤ k)

def StartsAt : Option Bytes → Bytes → Prop
  | none, k => k = []
  | some hex, k => decodeHex hex = .ok k

/-- A page of the keys that remain: those it holds are the first ones, and it says whether there are
others. -/
def PageOf (rest : List Bytes) (res : KvListResult) : Prop :=
  ∃ page, Forall₂ (fun hex k => decodeHex hex = .ok k) res.keys page ∧ page <+: rest ∧ (page = [] → rest = []) ∧
    (res.more = true ↔ page ≠ rest)

/-- Every call for a start key gets a page of the stored keys from there on. -/
def Serves (stored : KeySet) (nqn : Str) (nsid : UInt32) (server : Nat → KvListParams → Option KvListResult) : Prop :=
  ∀ n start k, StartsAt start k → ∃ res, server n ⟨nqn, nsid, start⟩ = some res ∧ PageOf (stored.atLeast k) res

def Renders (key line : Bytes) : Prop := ∃ hex, decodeHex hex = .ok key ∧ formatKey hex = .ok line

variable {stored : KeySet}

lemma printKeys_renders (h : Forall₂ (fun hex k => decodeHex hex = .ok k) hexes page) :
    ∃ lines, printKeys hexes = (lines, none) ∧ Forall₂ Renders page lines := by
  induction h with
  | nil => exact ⟨[], rfl, .nil⟩
  | cons hd _ ih =>
    obtain ⟨lines, hp, ha⟩ := ih
    rw [printKeys, formatKey_eq hd, hp]
    exact ⟨_, rfl, .cons ⟨_, hd, formatKey_eq hd⟩ ha⟩

lemma filter_lt_of_ascending (h : (l ++ k :: r).Pairwise (· < ·)) :
    (l ++ k :: r).filter (fun x => decide (k < x)) = r := by
  obtain ⟨-, hr, hl⟩ := pairwise_append.mp h
  have hn : l.filter (fun x => decide (k < x)) = [] :=
    filter_eq_nil_iff.mpr fun x hx => by simpa using List.le_of_lt (hl x hx k mem_cons_self)
  have hself : r.filter (fun x => decide (k < x)) = r :=
    filter_eq_self.mpr fun x hx => by simpa using rel_of_pairwise_cons hr hx
  simp [hn, hself]

/-- What remains after a page that is not the last one. -/
lemma atLeast_nextKey (h : stored.atLeast start = l ++ k :: r) (hr : r ≠ []) :
    stored.atLeast (nextKey k) = r := by
  have ha : (l ++ k :: r).Pairwise (· < ·) := h ▸ stored.ascending.filter _
  have hm : ∀ x ∈ l ++ k :: r, x ∈ stored.keys ∧ start ≤ x := by
    intro x hx
    rw [← h] at hx
    simpa [KeySet.atLeast] using hx
  obtain ⟨hk, hstart⟩ := hm k (by simp)
  obtain ⟨x, hx⟩ := exists_mem_of_ne_nil r hr
  have hl : k < x := rel_of_pairwise_cons (pairwise_append.mp ha).2.1 hx
  have hnext := next_nextKey (stored.sizes k hk).2 (stored.sizes x (hm x (by simp [hx])).1).2 hl
  rw [← filter_lt_of_ascending ha, ← h, KeySet.atLeast, KeySet.atLeast, filter_filter]
  refine filter_congr fun y hy => ?_
  have hi := hnext y (stored.sizes y hy).2
  by_cases hky : k < y
  · simp [hi, hky, List.le_of_lt (List.lt_of_le_of_lt hstart hky)]
  · simp [hi, hky]

lemma listLoop_emits
    (hk : ∀ n start k, StartsAt start k → ∃ res, ask n start = .ok res ∧ PageOf (stored.atLeast k)
      res) (fuel : Nat) :
    ∀ n start k, StartsAt start k → (stored.atLeast k).length < fuel →
      ∃ lines, listLoop ask fuel n start = (lines, .done) ∧ Forall₂ Renders (stored.atLeast k) lines := by
  induction fuel with
  | zero => exact fun _ _ _ _ h => absurd h (Nat.not_lt_zero _)
  | succ fuel ih =>
    intro n start k ht hf
    obtain ⟨res, hr, page, hd, ⟨rest, hrest⟩, he, hmore⟩ := hk n start k ht
    obtain ⟨lines, hpr, ha⟩ := printKeys_renders hd
    rw [listLoop, hr]
    simp only [hpr]
    cases hm : res.more with
    | false =>
      obtain rfl : page = stored.atLeast k := by
        by_contra hp
        rw [hmore.mpr hp] at hm
        cases hm
      exact ⟨lines, rfl, ha⟩
    | true =>
      have hp := hmore.mp hm
      obtain rfl | ⟨page, last, rfl⟩ := page.eq_nil_or_concat
      · exact absurd (he rfl).symm hp
      have hs : stored.atLeast k = page ++ last :: rest := by rw [← hrest]; simp
      have hlater : stored.atLeast (nextKey last) = rest :=
        atLeast_nextKey hs fun hn => hp (by rw [← hrest, hn, append_nil])
      -- the text of the last key of the page
      obtain ⟨hex, hexes, hlast, -, hkeys⟩ : ∃ hex hexes, decodeHex hex = .ok last ∧
          Forall₂ (fun hex k => decodeHex hex = .ok k) hexes page.reverse ∧ res.keys.reverse = hex :: hexes :=
        forall₂_cons_right_iff.mp (by simpa using rel_reverse hd)
      have hg : res.keys.getLast? = some hex := by rw [getLast?_eq_head?_reverse, hkeys]; rfl
      have hx : nextHexKey hex = .ok (encodeHex (nextKey last)) := by rw [nextHexKey, hlast]; rfl
      rw [hs, length_append, length_cons] at hf
      obtain ⟨lines', hloop, ha'⟩ := ih (n + 1) (some (encodeHex (nextKey last))) (nextKey last)
        (decodeHex_encodeHex _) (by rw [hlater]; omega)
      rw [hlater] at ha'
      refine ⟨lines ++ lines', ?_, by rw [← hrest]; exact rel_append ha ha'⟩
      simp [hg, hx, hloop]

/-- Against a target that answers with pages of the stored keys, the command ends and prints every
stored key once, in ascending order. -/
theorem list_emits_every_key (cfg : Config) (name nqn : Str) (nsid : UInt32)
    (hnqn : cfg.target .nqn = some nqn)
    (hns : cfg.namespaces.get name = some nsid) (stored : KeySet)
    (server : Nat → KvListParams → Option KvListResult)
    (hserve : Serves stored nqn nsid server) (fuel : Nat) (hfuel : stored.keys.length < fuel) :
    ∃ lines, listKeys cfg name server fuel = (lines, .done) ∧
      Forall₂ Renders stored.keys lines := by
  have hall : stored.atLeast [] = stored.keys := filter_eq_self.mpr fun k _ => by simp
  simp only [listKeys, hnqn, hns]
  rw [← hall]
  refine listLoop_emits (fun n start k hst => ?_) fuel 0 none [] rfl (by rwa [hall])
  obtain ⟨res, hres, hpg⟩ := hserve n start k hst
  exact ⟨res, by rw [hres]; rfl, hpg⟩

def twoKeys : KeySet := ⟨[[97], [255]], by decide, by decide⟩

/-- A target that sends one key at a time. -/
def oneByOne (stored : KeySet) (_ : Nat) (params : KvListParams) : Option KvListResult :=
  let rest := stored.atLeast ((params.startKey.bind fun hex => (decodeHex hex).toOption).getD [])
  some ⟨(rest.take 1).map encodeHex, decide (1 < rest.length)⟩

theorem list_emits_every_key_two :
    let cfg : Config := { target := fun _ => some ['n'], namespaces := Dict.empty.insert ['a'] 1 }
    ∃ lines, listKeys cfg ['a'] (oneByOne twoKeys) 3 = (lines, .done) ∧
      Forall₂ Renders twoKeys.keys lines := by
  refine list_emits_every_key _ _ ['n'] 1 rfl rfl twoKeys _ (fun n start k hst => ?_) 3 (by decide)
  have hstart : (start.bind fun hex => (decodeHex hex).toOption).getD [] = k := by
    cases start with
    | none => exact hst.symm
    | some hex => rw [Option.bind_some, show decodeHex hex = .ok k from hst]; rfl
  refine ⟨_, rfl, (twoKeys.atLeast k).take 1, ?_, take_prefix .., fun hnil => ?_, ?_⟩
  · simp only [hstart]
    exact forall₂_map_left_iff.mpr (forall₂_same.mpr fun key _ => decodeHex_encodeHex key)
  · simpa using hnil
  simp only [hstart]
  rw [decide_eq_true_iff, Ne, take_eq_self_iff, not_le]

end RadosNkv.Rkv
