import Mathlib.Algebra.Order.Ring.Nat
import Mathlib.Logic.Function.Basic

/-! Programs that call the operations of an interface: the operations and what the program does with
each answer, with no interpretation of them. -/

inductive Prog (Op : Type) (Resp : Op → Type) (ε α : Type) where
  | done (r : Except ε α)
  | call (op : Op) (k : Resp op → Prog Op Resp ε α)

namespace Prog

open List

variable {Op : Type} {Resp : Op → Type} {ε α β σ : Type}

def bind : Prog Op Resp ε α → (α → Prog Op Resp ε β) → Prog Op Resp ε β
  | .done (.ok a), f => f a
  | .done (.error e), _ => .done (.error e)
  | .call op k, f => .call op fun r => (k r).bind f

instance : Monad (Prog Op Resp ε) where
  pure a := .done (.ok a)
  bind := Prog.bind

def perform (op : Op) : Prog Op Resp ε (Resp op) := .call op pure

def raise (e : ε) : Prog Op Resp ε α := .done (.error e)

instance : MonadLift (Except ε) (Prog Op Resp ε) := ⟨.done⟩

variable {p : Prog Op Resp ε α} (op : Op) (k : Resp op → Prog Op Resp ε α)

@[simp] lemma call_bind (f : α → Prog Op Resp ε β) :
    (.call op k : Prog Op Resp ε α) >>= f = .call op fun r => k r >>= f := rfl

lemma perform_bind (f : Resp op → Prog Op Resp ε β) : perform op >>= f = .call op f := rfl

instance : LawfulMonad (Prog Op Resp ε) := LawfulMonad.mk' _
  (fun p => by
    induction p with
    | done r => cases r <;> rfl
    | call op k ih => exact congrArg (Prog.call op) (funext ih))
  (fun _ _ => rfl)
  (fun p f g => by
    induction p with
    | done r => cases r <;> rfl
    | call op k ih => exact congrArg (Prog.call op) (funext ih))

abbrev Handler (Op : Type) (Resp : Op → Type) (ε σ : Type) := (op : Op) → σ → Except ε (Resp op) × σ

variable (h : Handler Op Resp ε σ)

def run : Prog Op Resp ε α → σ → Except ε α × σ
  | .done r, s => (r, s)
  | .call op k, s =>
    match h op s with
    | (.ok r, s) => (k r).run s
    | (.error e, s) => (.error e, s)

def trace : Prog Op Resp ε α → σ → List (Op × σ)
  | .done _, _ => []
  | .call op k, s =>
    (op, s) :: match h op s with
    | (.ok r, s) => (k r).trace s
    | (.error _, _) => []

@[simp] lemma run_done (r : Except ε α) (s : σ) : (.done r : Prog Op Resp ε α).run h s = (r, s) := rfl

@[simp] lemma run_pure (a : α) (s : σ) : (pure a : Prog Op Resp ε α).run h s = (.ok a, s) := rfl

lemma run_call (s : σ) : (.call op k : Prog Op Resp ε α).run h s =
      match h op s with
      | (.ok r, s) => (k r).run h s
      | (.error e, s) => (.error e, s) := by
  rw [run]

lemma run_bind (p : Prog Op Resp ε α) (f : α → Prog Op Resp ε β) (s : σ) : (p >>= f).run h s =
      match p.run h s with
      | (.ok a, s) => (f a).run h s
      | (.error e, s) => (.error e, s) := by
  induction p generalizing s with
  | done r => cases r <;> rfl
  | call op k ih =>
    simp only [call_bind, run_call]
    cases h op s with
    | mk r s' =>
      cases r with
      | ok r => exact ih r s'
      | error e => rfl

variable {s : σ} {b : β} {s' : σ}

lemma run_bind_ok :
    (p >>= f).run h s = (.ok b, s') ↔ ∃ a s1, p.run h s = (.ok a, s1) ∧ (f a).run h s1 = (.ok b, s') := by
  rw [run_bind]
  cases hp : p.run h s with
  | mk r s1 =>
    cases r with
    | ok a =>
      constructor
      · exact fun hf => ⟨a, s1, rfl, hf⟩
      rintro ⟨_, _, he, hf⟩
      cases he
      exact hf
    | error e =>
      constructor
      · exact fun hf => absurd (Prod.mk.inj hf).1 (by simp)
      rintro ⟨_, _, he, -⟩
      exact absurd (Prod.mk.inj he).1 (by simp)

variable {xs : List α}

section

variable (I : List α → β → σ → Prop) {f : β → α → Prog Op Resp ε β}

lemma run_foldlM_ok (done : List α)
    (ht : ∀ done x b s b' s', I done b s → (f b x).run h s = (.ok b', s') → I (done ++ [x]) b' s')
    (hint : I done b s) (hr : (xs.foldlM f b).run h s = (.ok b', s')) : I (done ++ xs) b' s' := by
  induction xs generalizing done b s with
  | nil =>
    cases hr
    rw [append_nil]
    exact hint
  | cons x xs ih =>
    rw [foldlM_cons] at hr
    obtain ⟨b1, s1, hx, hs⟩ := (run_bind_ok h).mp hr
    rw [append_cons]
    exact ih (done ++ [x]) (ht done x b s b1 s1 hint hx) hs

lemma run_foldlM_total (done : List α)
    (hs : ∀ done x b s, x ∈ xs → I done b s → ∃ b' s', (f b x).run h s = (.ok b', s') ∧ I (done ++ [x]) b' s')
    (hint : I done b s) : ∃ b' s', (xs.foldlM f b).run h s = (.ok b', s') ∧ I (done ++ xs) b' s' := by
  induction xs generalizing done b s with
  | nil =>
    rw [append_nil]
    exact ⟨b, s, rfl, hint⟩
  | cons x xs ih =>
    obtain ⟨b1, s1, hx, h1⟩ := hs done x b s (mem_cons_self ..) hint
    obtain ⟨b2, s2, hxs, h2⟩ := ih (done ++ [x]) (fun done y b s hy => hs done y b s (mem_cons_of_mem _ hy)) h1
    refine ⟨b2, s2, ?_, ?_⟩
    · rw [foldlM_cons]
      exact (run_bind_ok h).mpr ⟨b1, s1, hx, hxs⟩
    rw [append_cons]
    exact h2

end

@[simp] lemma trace_perform (s : σ) : (perform op : Prog Op Resp ε (Resp op)).trace h s = [(op, s)] := by
  rw [perform, trace]
  cases h op s with
  | mk r s' => cases r <;> rfl

lemma trace_bind (p : Prog Op Resp ε α) (f : α → Prog Op Resp ε β) (s : σ) : (p >>= f).trace h s = p.trace h s ++
      match p.run h s with
      | (.ok a, s) => (f a).trace h s
      | (.error _, _) => [] := by
  induction p generalizing s with
  | done r => cases r <;> rfl
  | call op k ih =>
    simp only [call_bind, trace, run_call]
    cases h op s with
    | mk r s' =>
      cases r with
      | ok r => simp only [ih r s', cons_append]
      | error e => rfl

lemma run_congr_trace (h' : Handler Op Resp ε σ) (ha : ∀ x ∈ p.trace h s, h' x.1 x.2 = h x.1 x.2) :
    p.run h' s = p.run h s := by
  induction p generalizing s with
  | done r => rfl
  | call op k ih =>
    simp only [trace, forall_mem_cons] at ha
    obtain ⟨ho, hr⟩ := ha
    rw [run_call, run_call, ho]
    cases he : h op s with
    | mk r s' =>
      cases r with
      | ok r =>
        rw [he] at hr
        exact ih r hr
      | error e => rfl

open Classical in
noncomputable def only (T : List (Op × σ)) (e : ε) : Handler Op Resp ε σ :=
  fun op s => if (op, s) ∈ T then h op s else (.error e, s)

lemma only_of_mem {op : Op} (hm : (op, s) ∈ T) : only h T e op s = h op s :=
  if_pos hm

lemma mem_of_only_ok {e : ε} {op : Op} {r : Resp op} (ho : only h T e op s = (.ok r, s')) : (op, s) ∈ T := by
  unfold only at ho
  split at ho
  · assumption
  · cases ho

lemma run_only (p : Prog Op Resp ε α) (s : σ) (e : ε) : p.run (only h (p.trace h s) e) s = p.run h s :=
  run_congr_trace h _ fun _ hx => only_of_mem h hx

section Total

variable (h : Handler Op Resp Empty σ)

def outcome (p : Prog Op Resp Empty α) (s : σ) : α × σ :=
  match p.run h s with
  | (.ok a, s) => (a, s)
  | (.error e, _) => nomatch e

variable (p : Prog Op Resp Empty α)

lemma run_eq_outcome (s : σ) : p.run h s = (.ok (p.outcome h s).1, (p.outcome h s).2) := by
  unfold outcome
  cases p.run h s with
  | mk r s' =>
    cases r with
    | ok a => rfl
    | error e => exact nomatch e

@[simp] lemma outcome_pure (a : α) (s : σ) : (pure a : Prog Op Resp Empty α).outcome h s = (a, s) := rfl

lemma outcome_bind (f : α → Prog Op Resp Empty β) (s : σ) :
    (p >>= f).outcome h s = (f (p.outcome h s).1).outcome h (p.outcome h s).2 := by
  have hr := run_bind h p f s
  rw [run_eq_outcome h p s] at hr
  rw [outcome, hr]
  rfl

end Total

def Uses (P : Op → Prop) : Prog Op Resp ε α → Prop
  | .done _ => True
  | .call op k => P op ∧ ∀ r, (k r).Uses P

lemma Uses.bind {f : α → Prog Op Resp ε β} (hp : p.Uses P) (hf : ∀ a, (f a).Uses P) : (p >>= f).Uses P := by
  induction p with
  | done r =>
    cases r with
    | ok a => exact hf a
    | error e => trivial
  | call op k ih => exact ⟨hp.1, fun r => ih r (hp.2 r)⟩

lemma Uses.perform_bind {op : Op} {f : Resp op → Prog Op Resp ε β} (ho : P op) (hf : ∀ r, (f r).Uses P) :
    (perform op >>= f).Uses P := ⟨ho, hf⟩

lemma Uses.mono (hp : p.Uses P) (hPQ : ∀ op, P op → Q op) : p.Uses Q := by
  induction p with
  | done r => trivial
  | call op k ih => exact ⟨hPQ op hp.1, fun r => ih r (hp.2 r)⟩

lemma Uses.foldlM {f : β → α → Prog Op Resp ε β} (hf : ∀ b, ∀ x ∈ xs, (f b x).Uses P) : (xs.foldlM f b).Uses P := by
  induction xs generalizing b with
  | nil => trivial
  | cons x xs ih =>
    rw [foldlM_cons]
    exact (hf b x (mem_cons_self ..)).bind fun _ => ih fun b y hy => hf b y (mem_cons_of_mem _ hy)

lemma Uses.run_keeps {I : σ → Prop} (hp : p.Uses P) (ho : ∀ op s, P op → I s → I (h op s).2) (hs : I s) :
    I (p.run h s).2 := by
  induction p generalizing s with
  | done r => exact hs
  | call op k ih =>
    have hn := ho op s hp.1 hs
    rw [run_call]
    cases he : h op s with
    | mk r s' =>
      rw [he] at hn
      cases r with
      | ok r => exact ih r (hp.2 r) hn
      | error e => exact hn

lemma Uses.of_mem_trace (hp : p.Uses P) (hx : x ∈ p.trace h s) : P x.1 := by
  induction p generalizing s with
  | done r => cases hx
  | call op k ih =>
    rw [trace] at hx
    rcases mem_cons.mp hx with rfl | hr
    · exact hp.1
    cases he : h op s with
    | mk r s' =>
      rw [he] at hr
      cases r with
      | ok r => exact ih r (hp.2 r) hr
      | error e => cases hr

def step : Prog Op Resp ε α → σ → Option (Prog Op Resp ε α × σ)
  | .done _, _ => none
  | .call op k, s =>
    match h op s with
    | (.ok r, s) => some (k r, s)
    | (.error e, s) => some (.done (.error e), s)

end Prog
