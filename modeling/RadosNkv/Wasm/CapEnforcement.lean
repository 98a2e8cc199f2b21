import RadosNkv.Wasm.Callers

/-! The loop of `nkvx_obj_cache_enforce_caps`, round by round. -/

namespace RadosNkv

open List

variable {μ : Type} {cfg : WasmConfig} {c c' c'' : Cache μ} {holds : List ObjPtr} {fault : Bool}
  {victims victims' : List ObjPtr}

/-- A cap that is set is exceeded. -/
def Cache.Over (cfg : WasmConfig) (c : Cache μ) : Prop :=
  (cfg.objMaxCount ≠ 0 ∧ c.live.length > cfg.objMaxCount) ∨
    (cfg.objMaxBytes ≠ 0 ∧ c.objBytes > cfg.objMaxBytes)

/-- The loop started on `c` ends with `c'` and has evicted `victims`, in this order. -/
inductive Enforces (cfg : WasmConfig) : Cache μ → List ObjPtr → Cache μ → Prop
  | within {c : Cache μ} (hcaps : ¬ c.Over cfg) : Enforces cfg c [] c
  | empty {c : Cache μ} (hcaps : c.Over cfg) (hlive : c.live = []) : Enforces cfg c [] c
  | last {c : Cache μ} {victim : ObjEntry} (hcaps : c.Over cfg) (hlive : c.live = [victim]) :
      Enforces cfg c [victim.ptr] (nkvxObjEvictLocked c victim.ptr)
  | round {c c' : Cache μ} {victim : ObjEntry} {rest : List ObjEntry} {victims : List ObjPtr}
      (hcaps : c.Over cfg) (hlive : c.live = victim :: rest) (hrest : rest ≠ [])
      (hloop : Enforces cfg (nkvxObjEvictLocked c victim.ptr) victims c') :
      Enforces cfg c (victim.ptr :: victims) c'

def Cache.evictAll (c : Cache μ) (victims : List ObjPtr) : Cache μ := victims.foldl nkvxObjEvictLocked c

lemma enforceObjCaps_within (hp : ¬ c.Over cfg) (fuel : Nat) : enforceObjCaps cfg fuel c = c := by
  cases fuel with
  | zero => rfl
  | succ fuel =>
    unfold Cache.Over at hp
    unfold enforceObjCaps
    rw [if_pos (by omega)]

lemma enforces_enforceObjCaps (cfg : WasmConfig) (h : c.Counted holds fault)
    (hf : c.live.length ≤ fuel) :
    ∃ victims, Enforces cfg c victims (enforceObjCaps cfg fuel c) := by
  induction fuel generalizing c with
  | zero =>
    have hn : c.live = [] := eq_nil_of_length_eq_zero (Nat.le_zero.mp hf)
    by_cases hp : c.Over cfg
    · exact ⟨[], .empty hp hn⟩
    · exact ⟨[], .within hp⟩
  | succ fuel ih =>
    by_cases hp : c.Over cfg
    · unfold enforceObjCaps
      rw [if_neg (by unfold Cache.Over at hp; omega)]
      split
      · next hn => exact ⟨[], .empty hp hn⟩
      next victim rest hcn =>
      split
      · next hr =>
        subst hr
        exact ⟨[victim.ptr], .last hp hcn⟩
      next hr =>
      rw [hcn, length_cons] at hf
      obtain ⟨victims, hl⟩ := ih (h.evict_head hcn) (by rw [evict_live_head h hcn]; omega)
      exact ⟨_, .round hp hcn hr hl⟩
    rw [enforceObjCaps_within hp]
    exact ⟨[], .within hp⟩

namespace Enforces

section

variable (h : Enforces cfg c victims c')
include h

lemma unique (h' : Enforces cfg c victims' c'') : victims' = victims ∧ c'' = c' := by
  induction h generalizing victims' c'' with
  | within hp =>
    cases h' with
    | within => exact ⟨rfl, rfl⟩
    | empty => exact ⟨rfl, rfl⟩
    | last ho => exact absurd ho hp
    | round ho => exact absurd ho hp
  | empty hp hl =>
    cases h' with
    | within => exact ⟨rfl, rfl⟩
    | empty => exact ⟨rfl, rfl⟩
    | last _ hl' => simp [hl] at hl'
    | round _ hl' => simp [hl] at hl'
  | last hp hl =>
    cases h' with
    | within hw => exact absurd hp hw
    | empty _ hl' => simp [hl] at hl'
    | last _ hl' =>
      obtain rfl : _ = _ := singleton_inj.mp (hl.symm.trans hl')
      exact ⟨rfl, rfl⟩
    | round _ hl' hr' =>
      have hs := List.cons.inj (hl.symm.trans hl')
      exact absurd hs.2.symm hr'
  | round hp hl hr _ ih =>
    cases h' with
    | within hw => exact absurd hp hw
    | empty _ hl' => simp [hl] at hl'
    | last _ hl' =>
      have hs := List.cons.inj (hl.symm.trans hl')
      exact absurd hs.2 hr
    | round _ hl' _ hlp' =>
      obtain ⟨rfl, -⟩ := List.cons.inj (hl.symm.trans hl')
      obtain ⟨rfl, rfl⟩ := ih hlp'
      exact ⟨rfl, rfl⟩

section

variable (hc : c.Counted holds fault)
include hc

lemma exit : ¬ c'.Over cfg ∨ c'.live = [] := by
  induction h with
  | within hp => exact .inl hp
  | empty _ hl => exact .inr hl
  | last _ hl => exact .inr (evict_live_head hc hl)
  | round _ hl _ _ ih => exact ih (hc.evict_head hl)

lemma counted : c'.Counted holds fault := by
  induction h with
  | within => exact hc
  | empty => exact hc
  | last _ hl => exact hc.evict_head hl
  | round _ hl _ _ ih => exact ih (hc.evict_head hl)

lemma live : c.live.map ObjEntry.ptr = victims ++ c'.live.map ObjEntry.ptr ∧ c'.live <:+ c.live := by
  induction h with
  | within => exact ⟨rfl, suffix_rfl⟩
  | empty => exact ⟨rfl, suffix_rfl⟩
  | last _ hl =>
    rw [evict_live_head hc hl, hl]
    exact ⟨rfl, nil_suffix⟩
  | round _ hl _ _ ih =>
    obtain ⟨hm, hs⟩ := ih (hc.evict_head hl)
    rw [evict_live_head hc hl] at hm hs
    rw [hl, map_cons, hm]
    exact ⟨rfl, hs.trans (suffix_cons ..)⟩

end

lemma exceeds {before after : List ObjPtr} {victim : ObjPtr}
    (hs : victims = before ++ victim :: after) : (c.evictAll before).Over cfg := by
  induction h generalizing before with
  | within => simp at hs
  | empty => simp at hs
  | last hp =>
    cases before with
    | nil => exact hp
    | cons => simp at hs
  | round hp _ _ _ ih =>
    cases before with
    | nil => exact hp
    | cons p before =>
      obtain ⟨rfl, hr⟩ := List.cons.inj hs
      exact ih hr

lemma elsewhere {o : ObjEntry} (ho : o.ptr ∉ victims) : o ∈ c'.objects ↔ o ∈ c.objects := by
  have he : ∀ (c : Cache μ) {p : ObjPtr}, o.ptr ≠ p → (o ∈ (nkvxObjEvictLocked c p).objects ↔ o ∈ c.objects) := by
    intro c p hn
    have hs := congrArg (o ∈ ·) (evict_elsewhere c p)
    simpa [hn] using hs
  induction h with
  | within => rfl
  | empty => rfl
  | last => exact he _ (by simpa using ho)
  | round _ _ _ _ ih =>
    exact (ih (not_mem_of_not_mem_cons ho)).trans (he _ (ne_of_not_mem_cons ho))

lemma warm (hc : c.Counted holds fault) (hw : w ∈ c'.warm) : w ∈ c.warm ∧ w.obj ∉ victims := by
  have he : ∀ {c : Cache μ} {victim rest}, c.Counted holds fault → c.live = victim :: rest →
      w ∈ (nkvxObjEvictLocked c victim.ptr).warm → w ∈ c.warm ∧ w.obj ≠ victim.ptr := by
    intro c victim rest hc hl hw
    obtain ⟨hi, hd⟩ := mem_filter.mp (show victim ∈ c.live by simp [hl])
    exact ⟨(Cache.Sheds.evict c victim.ptr).warm w hw, (hc.evict ⟨victim, hi, rfl, by simpa using hd⟩).2 w hw⟩
  induction h with
  | within => exact ⟨hw, not_mem_nil⟩
  | empty => exact ⟨hw, not_mem_nil⟩
  | last _ hl => simpa using he hc hl hw
  | round _ hl _ _ ih =>
    obtain ⟨hi, hr⟩ := ih (hc.evict_head hl) hw
    obtain ⟨hi, hn⟩ := he hc hl hi
    exact ⟨hi, not_mem_cons_of_ne_of_not_mem hn hr⟩

end

end Enforces

def Cache.filled (c : Cache μ) (fill : Option (Bytes × Nat × Bytes)) : Cache μ :=
  match fill with
  | none => c
  | some (objKey, objectLen, got) =>
    nkvxObjListAdd { c with nextPtr := c.nextPtr + 1 } (coldEntry c.nextPtr objKey objectLen got)

lemma Cache.Counted.filled (h : c.Counted holds fault) (fill : Option (Bytes × Nat × Bytes)) :
    (c.filled fill).Counted holds fault := by
  cases fill with
  | none => exact h
  | some => exact h.listAdd ..

lemma coldFill_enforces {ε : Type} (cfg : WasmConfig) (h : c.Counted holds fault) {alloc : Bool} {objKey : Bytes}
    {objectLen : Nat} {fill : Nat → Except ε Bytes} {p : ObjPtr}
    (he : coldFill cfg alloc c objKey objectLen fill = (c', .ok p)) :
    p = c.nextPtr ∧ ∃ got victims, fill (backing objectLen - wasmObjOff) = .ok got ∧
      Enforces cfg (c.filled (some (objKey, objectLen, got))) victims c' := by
  revert he
  fun_cases coldFill
  case case3 got hg o c1 =>
    intro he
    obtain ⟨rfl, hp⟩ := Prod.mk.inj he
    obtain ⟨victims, hl⟩ := enforces_enforceObjCaps cfg (h.listAdd objKey objectLen got) (le_rfl)
    exact ⟨(Except.ok.inj hp).symm, got, victims, hg, hl⟩
  all_goals
    intro he
    cases he

/-- In every reachable state of the caches, with or without an entry just filled, and under all
caps, the loop ends, in one way only, and that is what the model computes. -/
theorem caps_enforced (api : WasmApi) (cfg₀ : WasmConfig) (evs : List CacheCall)
    (fill : Option (Bytes × Nat × Bytes)) (cfg : WasmConfig) :
    let s := Callers.after api cfg₀ evs
    let c := s.wasm.cache.filled fill
    let c' := nkvxObjCacheEnforceCaps cfg c
    ∃ victims, Enforces cfg c victims c' ∧
      (∀ victims' c'', Enforces cfg c victims' c'' → victims' = victims ∧ c'' = c') ∧
      (¬ c'.Over cfg ∨ c'.live = []) ∧
      c.live.map ObjEntry.ptr = victims ++ c'.live.map ObjEntry.ptr ∧
      (∀ before victim after, victims = before ++ victim :: after → (c.evictAll before).Over cfg) ∧
      (∀ o : ObjEntry, o.ptr ∉ victims → (o ∈ c'.objects ↔ o ∈ c.objects)) ∧
      (∀ w ∈ c'.warm, w ∈ c.warm ∧ w.obj ∉ victims) ∧
      (∀ p ∈ s.pins, ∃ o ∈ c'.objects, o.ptr = p) ∧ c'.fault = c.fault := by
  intro s c c'
  have hinv : c.Counted s.pins s.wasm.cache.fault := (counted_after api cfg₀ evs).filled fill
  obtain ⟨victims, hlp⟩ := enforces_enforceObjCaps cfg hinv (le_rfl)
  have hinv' := hlp.counted hinv
  refine ⟨victims, hlp, fun _ _ h' => hlp.unique h', hlp.exit hinv, (hlp.live hinv).1,
    fun _ _ _ => hlp.exceeds, fun _ => hlp.elsewhere, fun _ => hlp.warm hinv, fun p hp => ?_, ?_⟩
  · exact hinv'.objs.held p (mem_append_left _ hp)
  · exact hinv'.objs.fault.trans hinv.objs.fault.symm

end RadosNkv
