import Mathlib.Algebra.Order.Ring.Nat
import Mathlib.Logic.Function.Basic

/-! Deterministic machines driven by events: the state a run reaches, conditions met by every step,
and induction rules for invariants. -/

namespace Machine

variable {σ ε : Type*} (step : σ → ε → σ)

def run (s : σ) (evs : List ε) : σ := evs.foldl step s

/-- The guard holds before each step of the run. -/
def Along (G : σ → ε → Prop) : σ → List ε → Prop
  | _, [] => True
  | s, e :: evs => G s e ∧ Along G (step s e) evs

instance decidableAlong (G : σ → ε → Prop) [∀ s e, Decidable (G s e)] :
    ∀ s evs, Decidable (Along step G s evs)
  | _, [] => .isTrue trivial
  | s, e :: evs =>
    have := decidableAlong G (step s e) evs
    inferInstanceAs (Decidable (G s e ∧ Along step G (step s e) evs))

@[simp] lemma run_nil (s : σ) : run step s [] = s := rfl

@[simp] lemma run_cons (s : σ) (e : ε) (evs : List ε) : run step s (e :: evs) = run step (step s e) evs := rfl

lemma run_append (s : σ) (evs evs' : List ε) : run step s (evs ++ evs') = run step (run step s evs) evs' :=
  List.foldl_append

variable {s : σ} {evs : List ε} {P : σ → Prop} {G : σ → ε → Prop} {N : ε → Prop} {I : σ → Prop} {τ : Type*}
  {R : σ → τ → Prop} {t : τ}

lemma run_induct_along (h : P s) (hs : ∀ s e, P s → G s e → P (step s e)) (hG : Along step G s evs) :
    P (run step s evs) := by
  induction evs generalizing s with
  | nil => exact h
  | cons e evs ih => exact ih (hs s e h hG.1) hG.2

lemma run_induct (h : P s) (hs : ∀ s e, P s → P (step s e)) (evs : List ε) : P (run step s evs) := by
  induction evs generalizing s with
  | nil => exact h
  | cons e evs ih => exact ih (hs s e h)

lemma exists_of_not_along (h : ¬ Along step G s evs) :
    ∃ evs1 e evs2, evs = evs1 ++ e :: evs2 ∧ ¬ G (run step s evs1) e := by
  induction evs generalizing s with
  | nil => exact absurd trivial h
  | cons e evs ih =>
    by_cases he : G s e
    · obtain ⟨evs1, e', evs2, rfl, hb⟩ := ih fun hr => h ⟨he, hr⟩
      exact ⟨e :: evs1, e', evs2, rfl, hb⟩
    · exact ⟨[], e, evs, rfl, he⟩

lemma along_of_forall (h : ∀ e ∈ evs, N e) : Along step (fun _ e => N e) s evs := by
  induction evs generalizing s with
  | nil => trivial
  | cons e evs ih => exact ⟨h e (by simp), ih fun e' he' => h e' (by simp [he'])⟩

lemma along_and (hG : Along step G s evs) (hH : Along step H s evs) :
    Along step (fun s e => G s e ∧ H s e) s evs := by
  induction evs generalizing s with
  | nil => trivial
  | cons e evs ih => exact ⟨⟨hG.1, hH.1⟩, ih hG.2 hH.2⟩

lemma along_of_invariant {P : σ → ε → Prop} (hI : I s) (hi : ∀ s e, I s → G s e → I (step s e))
    (hP : ∀ s e, I s → G s e → P s e) (hG : Along step G s evs) : Along step P s evs := by
  induction evs generalizing s with
  | nil => trivial
  | cons e evs ih => exact ⟨hP s e hI hG.1, ih (hi s e hI hG.1) hG.2⟩

lemma along_iff_of_invariant_along {N P : σ → ε → Prop} (hI : I s)
    (hi : ∀ s e, I s → N s e → G s e → I (step s e)) (hP : ∀ s e, I s → N s e → (P s e ↔ G s e))
    (hN : Along step N s evs) : Along step P s evs ↔ Along step G s evs := by
  induction evs generalizing s with
  | nil => exact Iff.rfl
  | cons e evs ih =>
    change P s e ∧ Along step P (step s e) evs ↔ G s e ∧ Along step G (step s e) evs
    rw [hP s e hI hN.1]
    exact and_congr_right fun hG => ih (hi s e hI hN.1 hG) hN.2

lemma along_iff_of_invariant {P : σ → ε → Prop} (hI : I s) (hi : ∀ s e, I s → G s e → I (step s e))
    (hP : ∀ s e, I s → (P s e ↔ G s e)) : Along step P s evs ↔ Along step G s evs :=
  along_iff_of_invariant_along (N := fun _ _ => True) step hI (fun s e h _ => hi s e h) (fun s e h _ => hP s e h)
    (along_of_forall step fun _ _ => trivial)

lemma along_append : Along step G s (evs ++ evs') ↔
      Along step G s evs ∧ Along step G (run step s evs) evs' := by
  induction evs generalizing s with
  | nil => simp [Along]
  | cons e evs ih => simp [Along, ih, and_assoc]

lemma along_iff_split : Along step G s evs ↔
      ∀ before e later, evs = before ++ e :: later → G (run step s before) e := by
  refine ⟨fun h before e later he => ?_, fun h => ?_⟩
  · subst he
    exact ((along_append step).mp h).2.1
  by_contra hnot
  obtain ⟨before, e, later, he, hbad⟩ := exists_of_not_along step hnot
  exact hbad (h before e later he)

lemma run_iff_along (hI : I s) (hP : P s) (hi : ∀ s e, I s → N e → I (step s e))
    (hs : ∀ s e, I s → N e → (P (step s e) ↔ P s ∧ G s e)) (hN : ∀ e ∈ evs, N e) :
    P (run step s evs) ↔ Along step G s evs := by
  have key : ∀ s, I s → (P (run step s evs) ↔ P s ∧ Along step G s evs) := by
    clear hI hP
    induction evs with
    | nil => simp [Along]
    | cons e evs ih =>
      intro s hI
      have he : N e := hN e (by simp)
      rw [run_cons, ih (fun e' h => hN e' (by simp [h])) _ (hi s e hI he), hs s e hI he, and_assoc]
      rfl
  rw [key s hI]
  exact and_iff_right hP

def replies {ρ : Type*} (f : σ → ε → σ × ρ) : σ → List ε → List ρ
  | _, [] => []
  | s, e :: es => (f s e).2 :: replies f (f s e).1 es

lemma run_related_along (step' : τ → ε → τ) (h : ∀ s t e, G s e → R s t → R (step s e) (step' t e)) (hR : R s t)
    (hG : Along step G s evs) : R (run step s evs) (run step' t evs) := by
  induction evs generalizing s t with
  | nil => exact hR
  | cons e evs ih => exact ih (h s t e hG.1 hR) hG.2

lemma replies_eq_of_related {ρ : Type*} {f : σ → ε → σ × ρ} {g : τ → ε → τ × ρ}
    (h : ∀ s t e, R s t → (f s e).2 = (g t e).2 ∧ R (f s e).1 (g t e).1) (hR : R s t) (es : List ε) :
    replies f s es = replies g t es := by
  induction es generalizing s t with
  | nil => rfl
  | cons e es ih =>
    obtain ⟨hr, hn⟩ := h s t e hR
    rw [replies, replies, hr, ih hn]

lemma replies_eq_iff_along {ρ : Type*} {f : σ → ε → σ × ρ} {g : τ → ε → τ × ρ}
    (hr : ∀ s t e, R s t → N e → ((f s e).2 = (g t e).2 ↔ G s e))
    (hn : ∀ s t e, R s t → N e → G s e → R (f s e).1 (g t e).1) (hR : R s t) {es : List ε} (hN : ∀ e ∈ es, N e) :
    replies f s es = replies g t es ↔ Along (fun s e => (f s e).1) G s es := by
  induction es generalizing s t with
  | nil => exact iff_of_true rfl trivial
  | cons e es ih =>
    have he : N e := hN e List.mem_cons_self
    rw [replies, replies, List.cons.injEq, hr s t e hR he]
    exact and_congr_right fun hG => ih (hn s t e hR he hG) fun e' he' => hN e' (List.mem_cons_of_mem _ he')

end Machine
