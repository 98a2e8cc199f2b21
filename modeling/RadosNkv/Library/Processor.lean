import Mathlib.Algebra.Order.Ring.Nat
import Mathlib.Data.List.Nodup

/-! Processors of records: one procedure that writes a record to a stream, reads it back in place,
or releases what reading it acquired, by the mode it runs in. -/

namespace Processor

open List

inductive Mode where
  | encode
  | decode
  | free

structure Ref (α : Type*) where
  addr : Nat
  val : α

structure Stream (κ : Type*) where
  bytes : List UInt8
  next : Nat
  acquired : List (κ × Nat)
  released : List (κ × Nat)

variable {κ ε : Type} {α β γ : Type}

abbrev M (κ ε : Type) := StateT (Stream κ) (Except ε)

abbrev Getter (ε α : Type) := List UInt8 → Except ε (α × List UInt8)

namespace Stream

def start (bytes : List UInt8) (next : Nat) : Stream κ := ⟨bytes, next, [], []⟩

def wrote (s : Stream κ) (w : List UInt8) : Stream κ := { s with bytes := s.bytes ++ w }

def took (s : Stream κ) (rest : List UInt8) (acq : List (κ × Nat)) : Stream κ :=
  { s with bytes := rest, next := s.next + acq.length, acquired := s.acquired ++ acq }

def gave (s : Stream κ) (rel : List (κ × Nat)) : Stream κ := { s with released := s.released ++ rel }

variable (s : Stream κ)

lemma wrote_wrote (v w : List UInt8) : (s.wrote v).wrote w = s.wrote (v ++ w) := by
  simp [wrote]

lemma wrote_nil : s.wrote [] = s := by
  simp [wrote]

lemma took_took (r r' : List UInt8) (a b : List (κ × Nat)) : (s.took r a).took r' b = s.took r' (a ++ b) := by
  simp [took, Nat.add_assoc]

lemma took_nil : s.took s.bytes [] = s := by
  simp [took]

lemma gave_gave (a b : List (κ × Nat)) : (s.gave a).gave b = s.gave (a ++ b) := by
  simp [gave]

lemma gave_nil : s.gave [] = s := by
  simp [gave]

end Stream

def emit (w : List UInt8) : M κ ε Unit := modify (·.wrote w)

def fetch (get : Getter ε α) : M κ ε α := fun s => do
  let (a, rest) ← get s.bytes
  pure (a, { s with bytes := rest })

variable {get : Getter ε α}

lemma fetch_ok {s : Stream κ} (h : get s.bytes = .ok (a, rest)) :
    fetch get s = .ok (a, s.took rest []) := by
  have ht : s.took rest [] = { s with bytes := rest } := by simp [Stream.took]
  unfold fetch
  rw [h, ht]
  rfl

def acquire (kind : κ) : M κ ε Nat := fun s => pure (s.next, s.took s.bytes [(kind, s.next)])

def release (kind : κ) (p : Option (Ref α)) : M κ ε Unit :=
  modify (·.gave (p.map fun r => (kind, r.addr)).toList)

def scalar (put : α → List UInt8) (get : Getter ε α) : Mode → α → M κ ε α
  | .encode, a => do
    emit (put a)
    pure a
  | .decode, _ => fetch get
  | .free, a => pure a

/-- A field that points at a resource of its own, and may be null. -/
def owned (kind : κ) (put : Option α → List UInt8) (get : Getter ε (Option α)) :
    Mode → Option (Ref α) → M κ ε (Option (Ref α))
  | .encode, p => do
    emit (put (p.map (·.val)))
    pure p
  | .decode, _ => do
    match ← fetch get with
    | none => pure none
    | some a =>
      let addr ← acquire kind
      pure (some ⟨addr, a⟩)
  | .free, p => do
    release kind p
    pure none

def landed (n : Nat) (p : Option (Ref α)) : Option (Ref α) := p.map fun r => ⟨n, r.val⟩

def resource (kind : κ) (p : Option (Ref α)) : List (κ × Nat) := (p.map fun r => (kind, r.addr)).toList

structure Trip (n : Nat) (e d : M κ ε α) (f : M κ ε γ) (a b : α) (c : γ) (acq : List (κ × Nat)) : Prop where
  fits : ∃ w, (∀ s, e s = .ok (a, s.wrote w)) ∧
    ∀ s rest, s.bytes = w ++ rest → s.next = n → d s = .ok (b, s.took rest acq)
  frees : ∀ s, f s = .ok (c, s.gave acq)

def InTurn (n : Nat) (acq : List (κ × Nat)) : Prop := acq.map Prod.snd = List.range' n acq.length

lemma InTurn.nil (n : Nat) : InTurn n ([] : List (κ × Nat)) := rfl

lemma InTurn.append (ha : InTurn n a) (hb : InTurn (n + a.length) b) :
    InTurn n (a ++ b) := by
  unfold InTurn at *
  rw [map_append, ha, hb, length_append, range'_append_1]

lemma InTurn.nodup (h : InTurn n acq) : acq.Nodup := by
  refine List.Nodup.of_map Prod.snd ?_
  rw [h]
  exact nodup_range'

lemma InTurn.fresh (h : InTurn n acq) (hr : r ∈ acq) : n ≤ r.2 := by
  have hm : r.2 ∈ acq.map Prod.snd := mem_map_of_mem hr
  rw [h] at hm
  exact (mem_range'_1.mp hm).1

lemma inTurn_resource_landed (n : Nat) (kind : κ) (p : Option (Ref α)) : InTurn n (resource kind (landed n p)) := by
  cases p <;> rfl

namespace Trip

lemma pure' (n : Nat) (a b : α) (c : γ) : Trip n (pure a : M κ ε α) (pure b) (pure c) a b c [] where
  fits := by
    refine ⟨[], fun s => ?_, fun s rest hb _ => ?_⟩
    · rw [s.wrote_nil]
      rfl
    rw [nil_append] at hb
    rw [← hb, s.took_nil]
    rfl
  frees := fun s => by
    rw [s.gave_nil]
    rfl

lemma bind {α' γ' : Type} {e d : M κ ε α} {f : M κ ε γ} {ke kd : α → M κ ε α'} {kf : γ → M κ ε γ'} {a' b' : α'}
    {c' : γ'} (h : Trip n e d f a b c acq) (h' : Trip (n + acq.length) (ke a) (kd b) (kf c) a' b' c' acq') :
    Trip n (e >>= ke) (d >>= kd) (f >>= kf) a' b' c' (acq ++ acq') where
  fits := by
    obtain ⟨w, hw, hr⟩ := h.fits
    obtain ⟨w', hw', hr'⟩ := h'.fits
    refine ⟨w ++ w', fun s => ?_, fun s rest hb hn => ?_⟩
    · change (e s >>= fun x => ke x.1 x.2) = _
      rw [hw s]
      exact (hw' _).trans (by rw [s.wrote_wrote])
    change (d s >>= fun x => kd x.1 x.2) = _
    rw [hr s (w' ++ rest) (by rw [hb, append_assoc]) hn]
    refine (hr' (s.took (w' ++ rest) acq) rest rfl ?_).trans ?_
    · exact congrArg (· + acq.length) hn
    · rw [s.took_took]
  frees := fun s => by
    change (f s >>= fun x => kf x.1 x.2) = _
    rw [h.frees s]
    exact (h'.frees _).trans (by rw [s.gave_gave])

lemma bind_nil {α' γ' : Type} {e d : M κ ε α} {f : M κ ε γ} {ke kd : α → M κ ε α'} {kf : γ → M κ ε γ'} {a' b' : α'}
    {c' : γ'} (h : Trip n e d f a b c []) (h' : Trip n (ke a) (kd b) (kf c) a' b' c' acq') :
    Trip n (e >>= ke) (d >>= kd) (f >>= kf) a' b' c' acq' := h.bind h'

lemma scalar (hg : ∀ rest, get (put a ++ rest) = .ok (a, rest)) (n : Nat) (junk : α) :
    Trip n (scalar put get .encode a) (scalar put get .decode junk) (scalar put get .free a) a a a
      ([] : List (κ × Nat)) where
  fits := by
    refine ⟨put a, fun s => rfl, fun s rest hb _ => ?_⟩
    exact fetch_ok (by rw [hb, hg])
  frees := fun s => by
    rw [s.gave_nil]
    rfl

lemma owned {get : Getter ε (Option α)} {p : Option (Ref α)}
    (hg : ∀ rest, get (put (p.map (·.val)) ++ rest) = .ok (p.map (·.val), rest)) (n : Nat)
    (junk : Option (Ref α)) :
    Trip n (owned kind put get .encode p) (owned kind put get .decode junk) (owned kind put get .free (landed n p))
      p (landed n p) none (resource kind (landed n p)) where
  fits := by
    refine ⟨put (p.map (·.val)), fun s => rfl, fun s rest hb hn => ?_⟩
    subst hn
    have hf : fetch get s = .ok (p.map (·.val), s.took rest []) := fetch_ok (by rw [hb, hg])
    change (fetch get s >>= _) = _
    rw [hf]
    cases p with
    | none => rfl
    | some r =>
      change Except.ok (_, (s.took rest []).took rest [(kind, s.next)]) = _
      rw [s.took_took]
      rfl
  frees := fun s => rfl

end Trip

end Processor
