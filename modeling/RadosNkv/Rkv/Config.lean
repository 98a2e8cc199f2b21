import Mathlib.Data.Char
import Mathlib.Data.List.Lex
import Mathlib.Data.List.DropRight
import Mathlib.Data.List.Sort
import RadosNkv.Library.Dict

/-! The configuration file of the command-line client (`config.rs`), read by `Config::parse` and
written by `to_ini`. -/

namespace RadosNkv.Rkv

open List

abbrev Str := List Char

def isWhitespace (c : Char) : Bool :=
  let n := c.toNat
  (0x09 ≤ n && n ≤ 0x0D) || n == 0x20 || n == 0x85 || n == 0xA0 || n == 0x1680 ||
    (0x2000 ≤ n && n ≤ 0x200A) || n == 0x2028 || n == 0x2029 || n == 0x202F || n == 0x205F || n == 0x3000

def trim (s : Str) : Str := (s.dropWhile isWhitespace).rdropWhile isWhitespace

def linesFrom (line : Str) : Str → List Str
  | [] => if line = [] then [] else [line]
  | c :: text =>
    if c = '\n' then (if line.getLast? = some '\r' then line.dropLast else line) :: linesFrom [] text
    else linesFrom (line ++ [c]) text

def stripFrom (prevWs : Bool) : Str → Str
  | [] => []
  | c :: rest => if (c = '#' ∨ c = ';') ∧ prevWs then [] else c :: stripFrom (c = ' ' || c = '\t') rest

def stripInlineComment (line : Str) : Str := stripFrom true line

def parseU32 (s : Str) : Option UInt32 :=
  let digits := if s.head? = some '+' then s.tail else s
  if digits ≠ [] ∧ digits.all Char.isDigit ∧ Nat.ofDigitChars 10 digits 0 < 2 ^ 32 then
    some (.ofNat (Nat.ofDigitChars 10 digits 0))
  else none

inductive TargetKey where
  | traddr | rpcSock | nqn | gpuBin | daemonSock
deriving DecidableEq

namespace TargetKey

def name : TargetKey → Str
  | traddr => ['t', 'r', 'a', 'd', 'd', 'r']
  | rpcSock => ['r', 'p', 'c', '_', 's', 'o', 'c', 'k']
  | nqn => ['n', 'q', 'n']
  | gpuBin => ['g', 'p', 'u', '_', 'b', 'i', 'n']
  | daemonSock => ['d', 'a', 'e', 'm', 'o', 'n', '_', 's', 'o', 'c', 'k']

def all : List TargetKey := [traddr, rpcSock, nqn, gpuBin, daemonSock]

end TargetKey

def targetSection : Str := ['t', 'a', 'r', 'g', 'e', 't']

def namespacesSection : Str := ['n', 'a', 'm', 'e', 's', 'p', 'a', 'c', 'e', 's']

def execSection : Str := ['e', 'x', 'e', 'c']

def opcodesSection : Str := ['o', 'p', 'c', 'o', 'd', 'e', 's']

structure Config where
  target : TargetKey → Option Str := fun _ => none
  namespaces : Dict Str UInt32 := .empty
  exec : Dict Str UInt32 := .empty
  opcodes : Dict Str Str := .empty

inductive ParseError where
  | expectedKeyValue (line : Nat)
  | emptyKey (line : Nat)
  | nsidNotInteger (line : Nat) (key : Str)
  | opIdNotInteger (line : Nat) (key : Str)

namespace Config

/-- The `match` on the section. -/
def assign (cfg : Config) (sect key val : Str) (line : Nat) : Except ParseError Config :=
  if sect = targetSection then
    match TargetKey.all.find? fun k => k.name = key with
    | some k => .ok { cfg with target := Function.update cfg.target k (some val) }
    | none => .ok cfg
  else if sect = namespacesSection then
    match parseU32 val with
    | some nsid => .ok { cfg with namespaces := cfg.namespaces.insert key nsid }
    | none => .error (.nsidNotInteger line key)
  else if sect = execSection then
    match parseU32 val with
    | some op => .ok { cfg with exec := cfg.exec.insert key op }
    | none => .error (.opIdNotInteger line key)
  else if sect = opcodesSection then .ok { cfg with opcodes := cfg.opcodes.insert key val }
  else .ok cfg

/-- The body of the loop of `Config::parse`: the configuration and the section after a line. -/
def parseLine (st : Config × Str) (raw : Str × Nat) : Except ParseError (Config × Str) :=
  let line := trim (stripInlineComment raw.1)
  if line = [] then .ok st
  else if line.head? = some '[' ∧ line.tail.getLast? = some ']' then
    .ok (st.1, (trim line.tail.dropLast).map Char.toLower)
  else if '=' ∉ line then .error (.expectedKeyValue (raw.2 + 1))
  else
    let key := trim (line.takeWhile (· ≠ '='))
    let val := trim (line.dropWhile (· ≠ '=')).tail
    if key = [] then .error (.emptyKey (raw.2 + 1))
    else (st.1.assign st.2 key val (raw.2 + 1)).map fun cfg => (cfg, st.2)

def parse (text : Str) : Except ParseError Config :=
  ((linesFrom [] text).zipIdx.foldlM parseLine ({}, [])).map Prod.fst

def entry (key val : Str) : Str := key ++ ' ' :: '=' :: ' ' :: val

def header (name : Str) : Str := '[' :: name ++ [']']

def decimal (n : UInt32) : Str := Nat.toDigits 10 n.toNat

def sorted {α : Type} (d : Dict Str α) : List (Str × α) := d.entries.insertionSort fun a b => a.1 ≤ b.1

def targetLines (cfg : Config) : List (TargetKey × Str) :=
  TargetKey.all.filterMap fun k => (cfg.target k).map (k, ·)

def iniLines (cfg : Config) : List Str :=
  header targetSection :: cfg.targetLines.map (fun e => entry e.1.name e.2) ++
    ([] :: header namespacesSection :: (sorted cfg.namespaces).map (fun e => entry e.1 (decimal e.2)) ++
      ([] :: header execSection :: (sorted cfg.exec).map (fun e => entry e.1 (decimal e.2)) ++
        if cfg.opcodes.entries = [] then []
        else [] :: header opcodesSection :: (sorted cfg.opcodes).map fun e => entry e.1 e.2))

def toIni (cfg : Config) : Str := cfg.iniLines.flatMap (· ++ ['\n'])

def recordNs (cfg : Config) (name : Str) (nsid : UInt32) : Config :=
  { cfg with namespaces := cfg.namespaces.insert name nsid }

structure Equals (c c' : Config) : Prop where
  target : c.target = c'.target
  namespaces : ∀ k, c.namespaces.get k = c'.namespaces.get k
  exec : ∀ k, c.exec.get k = c'.exec.get k
  opcodes : ∀ k, c.opcodes.get k = c'.opcodes.get k

end Config

def Trimmed (s : Str) : Prop := s.dropWhile isWhitespace = s ∧ s.rdropWhile isWhitespace = s

structure PlainName (key : Str) : Prop where
  nonempty : key ≠ []
  trimmed : Trimmed key
  noEquals : '=' ∉ key
  oneLine : '\n' ∉ key
  noComment : stripInlineComment key = key

structure PlainEntry (key val : Str) : Prop where
  nonempty : key ≠ []
  trimmed : Trimmed key ∧ Trimmed val
  noEquals : '=' ∉ key
  oneLine : '\n' ∉ key ∧ '\n' ∉ val
  noComment : stripInlineComment (Config.entry key val) = Config.entry key val
  noHeader : ¬ (key.head? = some '[' ∧ val.getLast? = some ']')

structure Config.Plain (cfg : Config) : Prop where
  target : ∀ k v, cfg.target k = some v → PlainEntry k.name v
  namespaces : ∀ k v, cfg.namespaces.get k = some v → PlainName k
  exec : ∀ k v, cfg.exec.get k = some v → PlainName k
  opcodes : ∀ k v, cfg.opcodes.get k = some v → PlainEntry k v

lemma linesFrom_append (h : '\n' ∉ l) : linesFrom line (l ++ '\n' :: text) =
      (if (line ++ l).getLast? = some '\r' then (line ++ l).dropLast else line ++ l) :: linesFrom [] text := by
  induction l generalizing line with
  | nil => simp [linesFrom]
  | cons c l ih =>
    have hc : c ≠ '\n' := fun he => h (he ▸ mem_cons_self)
    rw [cons_append, linesFrom, if_neg hc, ih fun hl => h (mem_cons_of_mem _ hl), append_assoc]
    rfl

lemma linesFrom_flatMap (h : ∀ l ∈ ls, '\n' ∉ l ∧ l.getLast? ≠ some '\r') :
    linesFrom [] (ls.flatMap (· ++ ['\n'])) = ls := by
  induction ls with
  | nil => rfl
  | cons l ls ih =>
    obtain ⟨ho, hc⟩ := h l mem_cons_self
    rw [flatMap_cons, append_assoc, singleton_append, linesFrom_append ho, nil_append,
      if_neg hc, ih fun l hl => h l (mem_cons_of_mem _ hl)]

lemma Trimmed.last (h : Trimmed s) (hc : isWhitespace c = true) : s.getLast? ≠ some c := by
  intro hs
  obtain ⟨s, rfl⟩ := getLast?_eq_some_iff.mp hs
  have hd := h.2
  rw [rdropWhile_concat_pos _ _ _ hc] at hd
  have hl := ( rdropWhile_prefix isWhitespace (l := s)).length_le
  rw [hd, length_append, length_singleton] at hl
  omega

lemma dropWhile_append (hn : k ≠ []) (h : k.dropWhile isWhitespace = k) :
    (k ++ s).dropWhile isWhitespace = k ++ s := by
  cases k with
  | nil => exact absurd rfl hn
  | cons c k =>
    have hc : isWhitespace c = false := by
      by_contra hc
      rw [dropWhile_cons_of_pos (by simpa using hc)] at h
      have hl := (dropWhile_suffix isWhitespace (l := k)).length_le
      rw [h, length_cons] at hl
      omega
    rw [cons_append, dropWhile_cons_of_neg (by simp [hc])]

lemma rdropWhile_append (hn : s ≠ []) (h : s.rdropWhile isWhitespace = s) :
    (k ++ s).rdropWhile isWhitespace = k ++ s := by
  rw [rdropWhile_eq_self_iff] at h ⊢
  intro hl
  rw [getLast_append_of_ne_nil _ hn]
  exact h hn

section

lemma trim_entry (h : PlainEntry key val) :
    ∃ rest, trim (Config.entry key val) = key ++ ' ' :: '=' :: rest ∧ trim rest = val ∧
      (rest = [] ∨ rest.getLast? = val.getLast?) := by
  have hd := dropWhile_append (s := ' ' :: '=' :: ' ' :: val) h.nonempty h.trimmed.1.1
  by_cases hv : val = []
  · subst hv
    refine ⟨[], ?_, rfl, .inl rfl⟩
    have he : key ++ [' ', '=', ' '] = (key ++ [' ', '=']) ++ [' '] := by simp
    have hs : key ++ [' ', '='] = (key ++ [' ']) ++ ['='] := by simp
    rw [Config.entry, trim, hd, he, rdropWhile_concat_pos _ _ _ (by decide), hs,
      rdropWhile_concat_neg _ _ _ (by decide)]
  refine ⟨' ' :: val, ?_, ?_, .inr (getLast?_cons_of_ne_nil hv)⟩
  · have he : key ++ ' ' :: '=' :: ' ' :: val = (key ++ [' ', '=', ' ']) ++ val := by simp
    rw [Config.entry, trim, hd, he, rdropWhile_append hv h.trimmed.2.2]
  · rw [trim, dropWhile_cons_of_pos (by decide), h.trimmed.2.1, h.trimmed.2.2]

lemma trim_key (hn : key ≠ []) (h : Trimmed key) : trim (key ++ [' ']) = key := by
  rw [trim, dropWhile_append hn h.1, rdropWhile_concat_pos _ _ _ (by decide), h.2]

lemma parseLine_entry (h : PlainEntry key val) (st : Config × Str) (n : Nat) :
    Config.parseLine st (Config.entry key val, n) = (st.1.assign st.2 key val (n + 1)).map fun cfg => (cfg, st.2) := by
  obtain ⟨rest, hn, hrs, hl⟩ := trim_entry h
  have he : key ++ ' ' :: '=' :: rest ≠ [] := by simp
  have hr : ¬ ((key ++ ' ' :: '=' :: rest).head? = some '[' ∧
      (key ++ ' ' :: '=' :: rest).tail.getLast? = some ']') := by
    rintro ⟨hh, ht⟩
    rw [tail_append_of_ne_nil h.nonempty, getLast?_append] at ht
    rw [head?_append_of_ne_nil _ h.nonempty] at hh
    rcases hl with rfl | hl
    · simp at ht
    refine h.noHeader ⟨hh, ?_⟩
    cases hv : val.getLast? with
    | none => simp [hl, hv, getLast?_cons] at ht
    | some c => simp_all [getLast?_cons]
  have hm : '=' ∈ key ++ ' ' :: '=' :: rest := by simp
  have hk : ∀ c ∈ key ++ [' '], decide (c ≠ '=') = true := by
    intro c hc
    rcases mem_append.mp hc with hc | hc
    · exact decide_eq_true fun hq => h.noEquals (hq ▸ hc)
    rw [mem_singleton.mp hc]
    decide
  have hs : key ++ ' ' :: '=' :: rest = (key ++ [' ']) ++ '=' :: rest := by simp
  have htk : (key ++ ' ' :: '=' :: rest).takeWhile (· ≠ '=') = key ++ [' '] := by
    rw [hs, takeWhile_append_of_pos hk]
    simp
  have hd : (key ++ ' ' :: '=' :: rest).dropWhile (· ≠ '=') = '=' :: rest := by
    rw [hs, dropWhile_append_of_pos hk]
    simp
  unfold Config.parseLine
  simp only [h.noComment, hn]
  rw [if_neg he, if_neg hr, if_neg (not_not.mpr hm), htk, hd, tail_cons,
    trim_key h.nonempty h.trimmed.1, hrs, if_neg h.nonempty]

lemma not_isWhitespace_of_isDigit {c : Char} (h : c.isDigit = true) : isWhitespace c = false := by
  have hr : 48 ≤ c.toNat ∧ c.toNat ≤ 57 := by
    simpa [Char.isDigit, UInt32.le_iff_toNat_le] using h
  simp [isWhitespace]
  omega

lemma trimmed_of_isDigit (h : ∀ c ∈ s, c.isDigit = true) : Trimmed s := by
  constructor
  · rw [dropWhile_eq_self_iff]
    intro hl
    simp [not_isWhitespace_of_isDigit (h _ (getElem_mem hl))]
  rw [rdropWhile_eq_self_iff]
  intro hl
  simp [not_isWhitespace_of_isDigit (h _ (getLast_mem hl))]

lemma isDigit_decimal (h : c ∈ Config.decimal n) : c.isDigit = true :=
  Nat.isDigit_of_mem_toDigits (by decide) (by decide) h

lemma parseU32_decimal (n : UInt32) : parseU32 (Config.decimal n) = some n := by
  have hp : (Config.decimal n).head? ≠ some '+' := fun hh =>
    absurd (isDigit_decimal (mem_of_head? hh)) (by decide)
  have hv : Nat.ofDigitChars 10 (Config.decimal n) 0 = n.toNat :=
    Nat.ofDigitChars_toDigits (by decide) (by decide)
  unfold parseU32
  simp only [if_neg hp, hv]
  rw [if_pos ⟨Nat.toDigits_ne_nil, all_eq_true.mpr fun c hc => isDigit_decimal hc, n.toNat_lt⟩, UInt32.ofNat_toNat]

lemma stripFrom_append (h : stripFrom b k = k) :
    ∃ b', ∀ s, stripFrom b (k ++ s) = k ++ stripFrom b' s := by
  induction k generalizing b with
  | nil => exact ⟨b, fun s => rfl⟩
  | cons c k ih =>
    unfold stripFrom at h
    split at h
    · cases h
    next hm =>
    obtain ⟨b', hb'⟩ := ih (List.cons.inj h).2
    refine ⟨b', fun s => ?_⟩
    rw [cons_append, stripFrom, if_neg hm, hb', cons_append]

lemma stripFrom_of_not_mem (h : '#' ∉ s ∧ ';' ∉ s) : stripFrom b s = s := by
  induction s generalizing b with
  | nil => rfl
  | cons c s ih =>
    simp only [mem_cons, not_or] at h
    have hm : ¬ ((c = '#' ∨ c = ';') ∧ b = true) := by
      rintro ⟨rfl | rfl, -⟩
      · exact h.1.1 rfl
      · exact h.2.1 rfl
    rw [stripFrom, if_neg hm, ih ⟨h.1.2, h.2.2⟩]

lemma PlainName.entry (h : PlainName key) (n : UInt32) : PlainEntry key (Config.decimal n) where
  nonempty := h.nonempty
  trimmed := ⟨h.trimmed, trimmed_of_isDigit fun _ hc => isDigit_decimal hc⟩
  noEquals := h.noEquals
  oneLine := ⟨h.oneLine, fun hm => absurd (isDigit_decimal hm) (by decide)⟩
  noComment := by
    obtain ⟨b, hb⟩ := stripFrom_append h.noComment
    have hn : ∀ c, c.isDigit = false → c ≠ ' ' → c ≠ '=' → c ∉ ' ' :: '=' :: ' ' :: Config.decimal n := by
      intro c hc hl hs hm
      simp only [mem_cons, hl, hs, false_or] at hm
      rw [isDigit_decimal hm] at hc
      cases hc
    rw [stripInlineComment, Config.entry, hb, stripFrom_of_not_mem ⟨hn _ (by decide) (by decide) (by decide),
      hn _ (by decide) (by decide) (by decide)⟩]
  noHeader := by
    rintro ⟨-, hls⟩
    exact absurd (isDigit_decimal (mem_of_getLast? hls)) (by decide)

end

/-! ### The file -/

namespace Config

variable {cfg : Config}

lemma foldlM_entries {α : Type} {sect : Str} {f : Config → α → Config} {key val : α → Str} {es : List α}
    (hp : ∀ e ∈ es, PlainEntry (key e) (val e))
    (hf : ∀ cfg e n, assign cfg sect (key e) (val e) n = .ok (f cfg e)) (cfg : Config) (n : Nat) :
    ((es.map fun e => entry (key e) (val e)).zipIdx n).foldlM parseLine (cfg, sect) = .ok (es.foldl f cfg, sect) := by
  induction es generalizing cfg n with
  | nil => rfl
  | cons e es ih =>
    rw [map_cons, zipIdx_cons, foldlM_cons, parseLine_entry (hp e mem_cons_self), hf]
    exact ih (fun e he => hp e (mem_cons_of_mem _ he)) ..

lemma assign_target (cfg : Config) (k : TargetKey) (v : Str) (n : Nat) :
    assign cfg targetSection k.name v n = .ok { cfg with target := Function.update cfg.target k (some v) } := by
  cases k <;> rfl

lemma assign_namespaces (cfg : Config) (k : Str) (nsid : UInt32) (n : Nat) :
    assign cfg namespacesSection k (decimal nsid) n = .ok { cfg with namespaces := cfg.namespaces.insert k nsid } := by
  rw [assign, if_neg (by decide), if_pos rfl, parseU32_decimal]

lemma assign_exec (cfg : Config) (k : Str) (op : UInt32) (n : Nat) :
    assign cfg execSection k (decimal op) n = .ok { cfg with exec := cfg.exec.insert k op } := by
  rw [assign, if_neg (by decide), if_neg (by decide), if_pos rfl, parseU32_decimal]

lemma assign_opcodes (cfg : Config) (k v : Str) (n : Nat) :
    assign cfg opcodesSection k v n = .ok { cfg with opcodes := cfg.opcodes.insert k v } := by
  rw [assign, if_neg (by decide), if_neg (by decide), if_neg (by decide), if_pos rfl]

lemma foldl_target (t : TargetKey → Option Str) (ks : List TargetKey) (cfg : Config) :
    (ks.filterMap fun k => (t k).map (k, ·)).foldl
        (fun cfg e => { cfg with target := Function.update cfg.target e.1 (some e.2) }) cfg =
      { cfg with target := fun k => if k ∈ ks then (t k).or (cfg.target k) else cfg.target k } := by
  induction ks generalizing cfg with
  | nil => simp
  | cons k ks ih =>
    cases hk : t k with
    | none =>
      rw [filterMap_cons_none (by simp [hk]), ih]
      congr 1
      funext j
      by_cases hj : j = k
      · simp [hj, hk]
      · simp [hj]
    | some v =>
      rw [filterMap_cons_some (b := (k, v)) (by simp [hk]), foldl_cons, ih]
      congr 1
      funext j
      by_cases hj : j = k
      · simp [hj, hk]
      · simp [hj]

lemma get_foldl_sorted {α : Type} (d : Dict Str α) (k : Str) :
    ((sorted d).foldl (fun d e => d.insert e.1 e.2) Dict.empty).get k = d.get k := by
  have hp : (sorted d).Perm d.entries := perm_insertionSort _ _
  refine Option.ext fun v => ?_
  rw [Dict.get_foldl_insert ((hp.map Prod.fst).nodup_iff.mpr d.nodup), hp.mem_iff, Dict.mem_entries]
  simp

lemma mem_sorted {α : Type} {d : Dict Str α} {e : Str × α} (h : e ∈ sorted d) : d.get e.1 = some e.2 :=
  Dict.mem_entries.mp ((perm_insertionSort _ _).mem_iff.mp h)

lemma mem_targetLines (h : e ∈ cfg.targetLines) : cfg.target e.1 = some e.2 := by
  obtain ⟨k, -, hk⟩ := mem_filterMap.mp h
  obtain ⟨v, hv, rfl⟩ := Option.map_eq_some_iff.mp hk
  exact hv

lemma foldlM_section {α : Type} {name sect : Str} {f : Config → α → Config} {key val : α → Str} {es : List α}
    (hn : ∀ st n, parseLine st (header name, n) = .ok (st.1, name)) (hp : ∀ e ∈ es, PlainEntry (key e) (val e))
    (hf : ∀ cfg e n, assign cfg name (key e) (val e) n = .ok (f cfg e)) (cfg : Config) (n : Nat) :
    ((header name :: es.map fun e => entry (key e) (val e)).zipIdx n).foldlM parseLine (cfg, sect) =
      .ok (es.foldl f cfg, name) := by
  rw [zipIdx_cons, foldlM_cons, hn]
  exact foldlM_entries hp hf ..

lemma foldlM_blank (ls : List Str) (st : Config × Str) (n : Nat) :
    (([] :: ls).zipIdx n).foldlM parseLine st = (ls.zipIdx (n + 1)).foldlM parseLine st := by
  rw [zipIdx_cons, foldlM_cons]
  rfl

lemma entry_ends (h : PlainEntry k v) : '\n' ∉ entry k v ∧ (entry k v).getLast? ≠ some '\r' := by
  refine ⟨by simp [entry, h.oneLine], fun hl => ?_⟩
  by_cases hv : v = []
  · simp [entry, hv] at hl
  rw [entry, getLast?_append, getLast?_cons_of_ne_nil (by simp), getLast?_cons_of_ne_nil (by simp),
    getLast?_cons_of_ne_nil hv] at hl
  cases ha : v.getLast? with
  | none => exact hv (getLast?_eq_none_iff.mp ha)
  | some c => exact h.trimmed.2.last (c := '\r') (by decide) (by simpa [ha] using hl)

lemma iniLines_ends (h : cfg.Plain) : ∀ l ∈ cfg.iniLines, '\n' ∉ l ∧ l.getLast? ≠ some '\r' := by
  intro l hl
  rw [iniLines, mem_append, mem_append, mem_append, mem_cons, mem_cons, mem_cons,
    mem_cons, mem_cons, mem_map, mem_map, mem_map] at hl
  rcases hl with (rfl | ⟨e, he, rfl⟩) | (rfl | rfl | ⟨e, he, rfl⟩) | (rfl | rfl | ⟨e, he, rfl⟩) | hl
  · decide
  · exact entry_ends (h.target _ _ (mem_targetLines he))
  · decide
  · decide
  · exact entry_ends ((h.namespaces _ _ (mem_sorted he)).entry e.2)
  · decide
  · decide
  · exact entry_ends ((h.exec _ _ (mem_sorted he)).entry e.2)
  split at hl
  · exact absurd hl not_mem_nil
  rcases mem_cons.mp hl with rfl | hl
  · decide
  rcases mem_cons.mp hl with rfl | hl
  · decide
  obtain ⟨e, he, rfl⟩ := mem_map.mp hl
  exact entry_ends (h.opcodes _ _ (mem_sorted he))

def reread (cfg : Config) : Config where
  target := cfg.target
  namespaces := (sorted cfg.namespaces).foldl (fun d e => d.insert e.1 e.2) .empty
  exec := (sorted cfg.exec).foldl (fun d e => d.insert e.1 e.2) .empty
  opcodes := (sorted cfg.opcodes).foldl (fun d e => d.insert e.1 e.2) .empty

variable (es : List (Str × UInt32))

lemma foldl_namespaces (cfg : Config) :
    es.foldl (fun cfg e => { cfg with namespaces := cfg.namespaces.insert e.1 e.2 }) cfg =
      { cfg with namespaces := es.foldl (fun d e => d.insert e.1 e.2) cfg.namespaces } :=
  foldl_hom (fun d => { cfg with namespaces := d }) fun _ _ => rfl

lemma foldl_exec (cfg : Config) : es.foldl (fun cfg e => { cfg with exec := cfg.exec.insert e.1 e.2 }) cfg =
      { cfg with exec := es.foldl (fun d e => d.insert e.1 e.2) cfg.exec } :=
  foldl_hom (fun d => { cfg with exec := d }) fun _ _ => rfl

lemma foldl_opcodes (es : List (Str × Str)) (cfg : Config) :
    es.foldl (fun cfg e => { cfg with opcodes := cfg.opcodes.insert e.1 e.2 }) cfg =
      { cfg with opcodes := es.foldl (fun d e => d.insert e.1 e.2) cfg.opcodes } :=
  foldl_hom (fun d => { cfg with opcodes := d }) fun _ _ => rfl

lemma foldlM_then {l1 l2 : List Str} (h : (l1.zipIdx n).foldlM parseLine st = .ok st1) :
    ((l1 ++ l2).zipIdx n).foldlM parseLine st = (l2.zipIdx (n + l1.length)).foldlM parseLine st1 := by
  rw [zipIdx_append, foldlM_append, h]
  rfl

lemma parse_toIni (h : cfg.Plain) : parse cfg.toIni = .ok cfg.reread := by
  have ht : cfg.targetLines.foldl
      (fun cfg e => { cfg with target := Function.update cfg.target e.1 (some e.2) }) {} =
        ({ target := cfg.target } : Config) := by
    refine (foldl_target cfg.target TargetKey.all {}).trans ?_
    congr 1
    funext k
    cases k <;> simp [TargetKey.all]
  rw [parse, toIni, linesFrom_flatMap (iniLines_ends h), iniLines,
    foldlM_then (foldlM_section (fun _ _ => rfl) (fun e he => h.target _ _ (mem_targetLines he))
      (fun cfg e n => assign_target cfg e.1 e.2 n) _ _), ht, cons_append, foldlM_blank,
    foldlM_then (foldlM_section (fun _ _ => rfl) (fun e he => (h.namespaces _ _ (mem_sorted he)).entry e.2)
      (fun cfg e n => assign_namespaces cfg e.1 e.2 n) _ _), foldl_namespaces, cons_append, foldlM_blank,
    foldlM_then (foldlM_section (fun _ _ => rfl) (fun e he => (h.exec _ _ (mem_sorted he)).entry e.2)
      (fun cfg e n => assign_exec cfg e.1 e.2 n) _ _), foldl_exec]
  split
  · next hn =>
    have hs : sorted cfg.opcodes = [] := by rw [sorted, hn, insertionSort_nil]
    rw [reread, hs]
    rfl
  · rw [foldlM_blank, foldlM_section (fun _ _ => rfl) (fun e he => h.opcodes _ _ (mem_sorted he))
      (fun cfg e n => assign_opcodes cfg e.1 e.2 n), foldl_opcodes]
    rfl

lemma Plain.recordNs (h : cfg.Plain) {name : Str} (hn : PlainName name) (nsid : UInt32) :
    (cfg.recordNs name nsid).Plain where
  target := h.target
  namespaces := by
    intro k v hk
    simp only [Config.recordNs, Dict.get_insert] at hk
    split at hk
    · next he => exact he ▸ hn
    · exact h.namespaces k v hk
  exec := h.exec
  opcodes := h.opcodes

lemma plain_foldl (h : cfg.Plain) {names : List (Str × UInt32)} (hn : ∀ e ∈ names, PlainName e.1) :
    (names.foldl (fun cfg e => cfg.recordNs e.1 e.2) cfg).Plain := by
  induction names generalizing cfg with
  | nil => exact h
  | cons e names ih =>
    exact ih (h.recordNs (hn e mem_cons_self) e.2) fun e he => hn e (mem_cons_of_mem _ he)

/-- A plain configuration, with namespaces of plain names recorded in it, is read back as it was
written. -/
theorem config_round_trip (cfg : Config) (hplain : cfg.Plain) (names : List (Str × UInt32))
    (hnames : ∀ e ∈ names, PlainName e.1) :
    ∃ c', parse (names.foldl (fun cfg e => cfg.recordNs e.1 e.2) cfg).toIni = .ok c' ∧
      c'.Equals (names.foldl (fun cfg e => cfg.recordNs e.1 e.2) cfg) :=
  ⟨reread _, parse_toIni (plain_foldl hplain hnames), rfl, get_foldl_sorted _, get_foldl_sorted _, get_foldl_sorted _⟩

theorem config_round_trip_default : ∃ c',
    parse (recordNs {} ['m', 'y', '#', 'n', 's'] 7).toIni = .ok c' ∧
      c'.namespaces.get ['m', 'y', '#', 'n', 's'] = some 7 := by
  obtain ⟨c', hparse, heql⟩ := config_round_trip {} ⟨fun _ _ h => (nomatch h), fun _ _ h => (nomatch h),
    fun _ _ h => (nomatch h), fun _ _ h => (nomatch h)⟩ [(['m', 'y', '#', 'n', 's'], 7)]
    (fun e he => by
      rw [mem_singleton.mp he]
      exact ⟨by decide, ⟨by decide +kernel, by decide +kernel⟩, by decide, by decide, by decide +kernel⟩)
  exact ⟨c', hparse, heql.namespaces _⟩

/-- A value behind the sign is a comment when it is written with a blank; a name with the sign in it
leaves a file that cannot be read; and a name of two lines redirects another namespace. -/
theorem config_not_reread :
    let value := (parse ("[target]\ntraddr=#a".toList)).toOption
    let signed := recordNs {} ['a', '=', 'b'] 1
    let default := ['d', 'e', 'f']
    let injected := recordNs (recordNs {} default 1) (['x', ' ', '=', ' ', '1', '\n'] ++ default) 9
    (value.map fun c => c.target .traddr) = some (some ['#', 'a']) ∧
      (value.bind fun c => (parse c.toIni).toOption.map fun c => c.target .traddr) =
        some (some []) ∧
    (parse signed.toIni).toOption.isNone ∧
    injected.namespaces.get default = some 1 ∧
      ((parse injected.toIni).toOption.map fun c => c.namespaces.get default) = some (some 9) := by
  decide +kernel

end Config

end RadosNkv.Rkv
