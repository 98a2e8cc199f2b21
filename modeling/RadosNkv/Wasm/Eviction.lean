import Mathlib.Algebra.Order.BigOperators.Group.List
import Mathlib.Algebra.Order.Group.Nat
import RadosNkv.Wasm.Counted

/-! What the cap enforcement after a cold fill leaves. -/

namespace RadosNkv

open List Tailq ObjEntry

variable {μ : Type} {holds : List ObjPtr} {fault : Bool} {c c' : Cache μ}

def ObjEntry.stuck (holds : List ObjPtr) (o : ObjEntry) : Nat :=
  if o.dead ∨ o.ptr ∈ holds then o.memCap else 0

def Cache.retained (holds : List ObjPtr) (c : Cache μ) : Nat :=
  (c.objects.map (ObjEntry.stuck holds)).sum

variable {o : ObjEntry} (cfg : WasmConfig)

lemma ObjEntry.stuck_live (hlive : o.dead = false) (hf : o.ptr ∉ holds) : o.stuck holds = 0 := by
  simp [stuck, hlive, hf]

section

variable (h : c.Counted holds fault)
include h

lemma retained_split (ho : o ∈ c.objects) : c.retained holds = o.stuck holds +
      ((remove ptr o.ptr c.objects).map (stuck holds)).sum := by
  have hs := perm_cons_remove h.objs.nodup ho
  simpa [Cache.retained] using (hs.map (stuck holds)).sum_nat

lemma objBytes_split (ho : o ∈ c.objects) : c.objBytes = o.memCap +
      ((remove ptr o.ptr c.objects).map memCap).sum := by
  have hs := perm_cons_remove h.objs.nodup ho
  rw [h.objs.objBytes]
  simpa using (hs.map memCap).sum_nat

lemma retained_add_le (ho : o ∈ c.objects) (hlive : o.dead = false)
    (hf : o.ptr ∉ holds) : c.retained holds + o.memCap ≤ c.objBytes := by
  rw [retained_split h ho, objBytes_split h ho, stuck_live hlive hf]
  have hl : ((remove ptr o.ptr c.objects).map (stuck holds)).sum ≤
      ((remove ptr o.ptr c.objects).map memCap).sum :=
    sum_le_sum fun o' _ => by unfold stuck; split <;> omega
  omega

lemma retained_add_eq (hn : c.live = [o]) (hf : o.ptr ∉ holds) : c.retained holds + o.memCap = c.objBytes := by
  have hm : o ∈ c.live := by simp [hn]
  obtain ⟨ho, hlive⟩ := mem_filter.mp hm
  rw [retained_split h ho, objBytes_split h ho, stuck_live (by simpa using hlive) hf]
  have hr : (remove ptr o.ptr c.objects).map (stuck holds) =
      (remove ptr o.ptr c.objects).map memCap := by
    apply map_congr_left
    intro o' ho'
    obtain ⟨hin, he⟩ := mem_remove.mp ho'
    have hd : o'.dead = true := by
      by_contra hl'
      have hi' : o' ∈ c.live := mem_filter.mpr ⟨hin, by simpa using hl'⟩
      rw [hn, mem_singleton] at hi'
      exact he (congrArg ptr hi')
    simp [stuck, hd]
  rw [hr]
  omega

end

lemma evict_dead (ho' : o' ∈ (nkvxObjEvictLocked c p).objects) (hp : o'.ptr = p) : o'.dead := by
  rw [nkvxObjEvictLocked] at ho'
  exact Cache.kill_dead _ ho' hp

lemma evict_live : (nkvxObjEvictLocked c p).live = remove ptr p c.live := by
  have hd : (nkvxObjEvictLocked c p).live =
      (remove ptr p (nkvxObjEvictLocked c p).objects).filter
        fun o => !o.dead := by
    rw [Cache.live, remove, filter_filter]
    apply filter_congr
    intro o' ho'
    by_cases hp : o'.ptr = p
    · simp [hp, evict_dead ho' hp]
    · simp [hp]
  rw [hd, evict_elsewhere, Cache.live, remove, remove, filter_filter, filter_filter]
  apply filter_congr
  intro o' _
  exact Bool.and_comm ..

variable {rest : List ObjEntry}

lemma evict_live_head (h : c.Counted holds fault) (hlive : c.live = victim :: rest) :
    (nkvxObjEvictLocked c victim.ptr).live = rest := by
  have hn : (c.live.map ptr).Nodup := h.objs.nodup.sublist (filter_sublist.map _)
  rw [hlive, map_cons, nodup_cons] at hn
  rw [evict_live, hlive, remove, filter_cons_of_neg (by simp), filter_eq_self]
  intro o ho
  have hne : o.ptr ≠ victim.ptr := fun he => hn.1 (he ▸ mem_map_of_mem ho)
  simpa using hne

lemma Cache.Counted.evict_head (h : c.Counted holds fault) (hlive : c.live = victim :: rest) :
    (nkvxObjEvictLocked c victim.ptr).Counted holds fault := by
  obtain ⟨hin, hd⟩ := mem_filter.mp (show victim ∈ c.live by simp [hlive])
  exact (h.evict ⟨victim, hin, rfl, by simpa using hd⟩).1

section Evict

variable (h : c.Counted holds fault) {victim : ObjEntry} (hin : victim ∈ c.objects)
  (hlive : victim.dead = false)
include h hin hlive

lemma evict_listed_iff :
    (∃ o' ∈ (nkvxObjEvictLocked c victim.ptr).objects, o'.ptr = victim.ptr) ↔ victim.ptr ∈ holds := by
  obtain ⟨hc, hg⟩ := h.evict ⟨victim, hin, rfl, hlive⟩
  constructor
  · rintro ⟨o', ho', hp⟩
    have hpo := hc.objs.dead o' ho' (evict_dead ho' hp)
    rw [hc.objs.refcount o' ho', hp] at hpo
    rcases mem_append.mp (count_pos_iff.mp hpo) with hh | hr
    · exact hh
    obtain ⟨w, hw, ho⟩ := mem_map.mp hr
    exact absurd ho (hg w hw)
  intro hh
  exact hc.objs.held _ (mem_append_left _ hh)

lemma evict_retained : (nkvxObjEvictLocked c victim.ptr).retained holds = c.retained holds := by
  have hc := (h.evict ⟨victim, hin, rfl, hlive⟩).1
  have he := evict_elsewhere c victim.ptr
  rw [retained_split h hin]
  by_cases hh : victim.ptr ∈ holds
  · obtain ⟨o', ho', hp⟩ := (evict_listed_iff h hin hlive).mpr hh
    obtain ⟨o, ho, ha⟩ := (Cache.Sheds.evict c victim.ptr).objects o' ho'
    have hm : o = victim :=
      inj_on_of_nodup_map h.objs.nodup ho hin (ha.ptr.symm.trans hp)
    rw [retained_split hc ho', hp, he]
    simp [stuck, hp, hh, ha.memCap, hm]
  have hn : ∀ o' ∈ (nkvxObjEvictLocked c victim.ptr).objects, o'.ptr ≠ victim.ptr :=
    fun o' ho' hp => hh ((evict_listed_iff h hin hlive).mp ⟨o', ho', hp⟩)
  have hs : remove ptr victim.ptr (nkvxObjEvictLocked c victim.ptr).objects =
      (nkvxObjEvictLocked c victim.ptr).objects := by
    rw [remove, filter_eq_self]
    exact fun o' ho' => by simpa using hn o' ho'
  rw [stuck_live hlive hh, ← he, hs, zero_add]
  rfl

end Evict

lemma enforceObjCaps_keeps_iff (h : c.Counted holds fault) (hfl : c.live.length = fuel)
    (hx : c.live.getLast? = some x) (hfr : x.ptr ∉ holds) :
    (∃ o ∈ (enforceObjCaps cfg fuel c).objects, o.ptr = x.ptr) ↔
      cfg.objMaxBytes = 0 ∨ c.retained holds + x.memCap ≤ cfg.objMaxBytes := by
  induction fuel generalizing c with
  | zero =>
    rw [length_eq_zero_iff] at hfl
    rw [hfl] at hx
    cases hx
  | succ fuel ih =>
    obtain ⟨hin, hlive⟩ := mem_filter.mp (mem_of_getLast? hx)
    have hlive : x.dead = false := by simpa using hlive
    unfold enforceObjCaps
    split
    · next hp =>
      -- within the caps: the loop stops and everything is still there
      have he := retained_add_le h hin hlive hfr
      refine ⟨fun _ => ?_, fun _ => ⟨x, hin, rfl⟩⟩
      omega
    next hp =>
    split
    · next hn =>
      rw [hn] at hx
      cases hx
    next victim rest hc =>
    obtain ⟨hv, hl⟩ := mem_filter.mp (show victim ∈ c.live by simp [hc])
    have hl : victim.dead = false := by simpa using hl
    have ht := (h.evict ⟨victim, hv, rfl, hl⟩).1
    split
    · next hr =>
      -- the entry itself is the only live one left: it is evicted and freed
      subst hr
      obtain rfl : victim = x := by simpa [hc] using hx
      have hq := retained_add_eq h hc hfr
      rw [evict_listed_iff h hv hl]
      simp only [hc, length_singleton] at hp
      refine ⟨fun hh => absurd hh hfr, fun hf => ?_⟩
      omega
    next hr =>
    have hlv' := evict_live_head h hc
    have hs : rest.getLast? = some x := by
      rw [hc, getLast?_cons_of_ne_nil hr] at hx
      exact hx
    rw [← evict_retained h hv hl]
    refine ih ht ?_ (hlv'.symm ▸ hs)
    rw [hlv']
    simpa [hc] using hfl

lemma coldFill_keeps_iff {ε : Type} (h : c.Counted holds fault) {alloc : Bool} {objKey : Bytes}
    {fill : Nat → Except ε Bytes} (hf : coldFill cfg alloc c objKey objectLen fill = (c', .ok p)) :
    (∃ o ∈ c'.objects, o.ptr = p) ↔ cfg.objMaxBytes = 0 ∨ c.retained holds + backing objectLen ≤ cfg.objMaxBytes := by
  unfold coldFill at hf
  split at hf
  · cases hf
  cases hg : fill (backing objectLen - wasmObjOff) with
  | error e =>
    rw [hg] at hf
    cases hf
  | ok got =>
    rw [hg] at hf
    cases hf
    have ha := h.listAdd objKey objectLen got
    have hfr : c.nextPtr ∉ holds := by
      intro hh
      obtain ⟨o, ho, hp⟩ := h.objs.held _ (mem_append_left _ hh)
      exact absurd hp (ne_of_lt (h.objs.fresh o ho))
    have hr : (nkvxObjListAdd { c with nextPtr := c.nextPtr + 1 }
        (coldEntry c.nextPtr objKey objectLen got)).retained holds = c.retained holds := by
      simp [Cache.retained, nkvxObjListAdd, coldEntry, stuck, hfr]
    rw [← hr]
    refine enforceObjCaps_keeps_iff cfg ha rfl (x := coldEntry c.nextPtr objKey objectLen got) ?_ hfr
    simp [Cache.live, nkvxObjListAdd, coldEntry]

lemma counted_runCached_fits {ε : Type} {api : WasmApi} (env : RunEnv) (name : Bytes) (mod : Option ModSpec)
    {s : WasmState api} (h : s.cache.Counted holds fault) (objKey : Bytes) (fill : Nat → Except ε Bytes) (outLen : Nat)
    (hf : cfg.objMaxBytes = 0 ∨ s.cache.retained holds + backing objectLen ≤ cfg.objMaxBytes) :
    (runCached cfg env s name mod objKey objectLen fill outLen).1.cache.Counted holds fault := by
  refine counted_runCached_listed cfg env name mod h objKey objectLen fill outLen ?_
  intro _ _ _ c p he hg
  obtain ⟨o, ho, hp⟩ := (coldFill_keeps_iff cfg h he).mpr hf
  have hc := h.coldFill cfg env.objAlloc objKey objectLen fill
  rw [he] at hc
  rw [← hp, show c.obj o.ptr = some o from find_of_mem hc.objs.nodup ho] at hg
  cases hg

end RadosNkv
