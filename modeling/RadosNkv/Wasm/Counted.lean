import RadosNkv.Wasm.Moves

/-! The bookkeeping of the object and warm caches: the counters agree with the lists, and the
reference count of an entry is the number of references to it. -/

namespace RadosNkv

open List Tailq ObjEntry

variable {μ : Type}

/-- The object list against the references `refs`, one list entry for each reference. -/
structure Cache.Tallied (refs : List ObjPtr) (fault : Bool) (c : Cache μ) : Prop where
  nodup : (c.objects.map ObjEntry.ptr).Nodup
  fresh : ∀ o ∈ c.objects, o.ptr < c.nextPtr
  objCount : c.objCount = c.objects.length
  objBytes : c.objBytes = (c.objects.map ObjEntry.memCap).sum
  refcount : ∀ o ∈ c.objects, o.refcount = refs.count o.ptr
  dead : ∀ o ∈ c.objects, o.dead → 0 < o.refcount
  held : ∀ p ∈ refs, ∃ o ∈ c.objects, o.ptr = p
  filled : ∀ o ∈ c.objects, o.filled
  fault : c.fault = fault

structure Cache.Counted (holds : List ObjPtr) (fault : Bool) (c : Cache μ) : Prop where
  objs : c.Tallied (holds ++ c.warm.map WarmEntry.obj) fault
  warmNodup : (c.warm.map WarmEntry.ptr).Nodup
  warmFresh : ∀ w ∈ c.warm, w.ptr < c.nextPtr
  warmCount : c.warmCount = c.warm.length

variable {refs refs' holds : List ObjPtr} {fault : Bool} {c c' : Cache μ} {p : ObjPtr}

abbrev SameSlot (f : ObjEntry → ObjEntry) : Prop :=
  ∀ o : ObjEntry, (f o).ptr = o.ptr ∧ (f o).memCap = o.memCap ∧ (f o).filled = o.filled

namespace Cache.Tallied

lemma perm (h : c.Tallied refs fault) (hp : refs.Perm refs') : c.Tallied refs' fault where
  nodup := h.nodup
  fresh := h.fresh
  objCount := h.objCount
  objBytes := h.objBytes
  refcount := fun o ho => (h.refcount o ho).trans (hp.count_eq o.ptr)
  dead := h.dead
  held := fun q hq => h.held q (hp.mem_iff.mpr hq)
  filled := h.filled
  fault := h.fault

lemma obj_of_ref (h : c.Tallied refs fault) (hp : p ∈ refs) : ∃ o ∈ c.objects, o.ptr = p ∧ c.obj p = some o := by
  obtain ⟨o, ho, rfl⟩ := h.held p hp
  exact ⟨o, ho, rfl, find_of_mem h.nodup ho⟩

variable {f : ObjEntry → ObjEntry}

lemma mem_updateObj (c : Cache μ) (h : o' ∈ (c.updateObj p f).objects) :
    ∃ o ∈ c.objects, (o.ptr = p ∧ o' = f o) ∨ (o.ptr ≠ p ∧ o' = o) := mem_modify h

section

variable (h : c.Tallied refs fault)
include h

lemma update (hf : SameSlot f) (hcn : ∀ o ∈ c.objects, o.ptr = p → (f o).refcount = refs'.count p)
    (hot : ∀ q, q ≠ p → refs'.count q = refs.count q)
    (hde : ∀ o ∈ c.objects, o.ptr = p → (f o).dead → 0 < (f o).refcount) (hh : ∀ q ∈ refs', ∃ o ∈ c.objects, o.ptr = q)
    : (c.updateObj p f).Tallied refs' fault := by
  have ht : (c.updateObj p f).objects.map ptr = c.objects.map ptr :=
    map_modify fun o => (hf o).1
  have hc : (c.updateObj p f).objects.map memCap = c.objects.map memCap :=
    map_modify fun o => (hf o).2.1
  constructor
  · exact ht ▸ h.nodup
  · intro o' ho'
    obtain ⟨o, ho, ⟨_, rfl⟩ | ⟨_, rfl⟩⟩ := mem_updateObj c ho'
    · rw [(hf o).1]
      exact h.fresh o ho
    · exact h.fresh o' ho
  · rw [show (c.updateObj p f).objCount = c.objCount from rfl, h.objCount]
    simpa using (congrArg List.length ht).symm
  · rw [hc]
    exact h.objBytes
  · intro o' ho'
    obtain ⟨o, ho, ⟨hp, rfl⟩ | ⟨he, rfl⟩⟩ := mem_updateObj c ho'
    · rw [(hf o).1, hp]
      exact hcn o ho hp
    rw [hot _ he]
    exact h.refcount o' ho
  · intro o' ho' hd
    obtain ⟨o, ho, ⟨hp, rfl⟩ | ⟨_, rfl⟩⟩ := mem_updateObj c ho'
    · exact hde o ho hp hd
    · exact h.dead o' ho hd
  · intro q hq
    have hm : q ∈ (c.updateObj p f).objects.map ptr := by
      rw [ht]
      exact mem_map.mpr (hh q hq)
    exact mem_map.mp hm
  · intro o' ho'
    obtain ⟨o, ho, ⟨_, rfl⟩ | ⟨_, rfl⟩⟩ := mem_updateObj c ho'
    · rw [(hf o).2.2]
      exact h.filled o ho
    · exact h.filled o' ho
  · exact h.fault

lemma take (hp : ∃ o ∈ c.objects, o.ptr = p) (hf : SameSlot f) (hr : ∀ o : ObjEntry, (f o).refcount = o.refcount + 1)
    : (c.updateObj p f).Tallied (p :: refs) fault := by
  apply h.update hf
  · intro o ho hop
    rw [hr, h.refcount o ho, hop, count_cons_self]
  · intro q hq
    exact count_cons_of_ne (Ne.symm hq)
  · intro o _ _ _
    rw [hr]
    exact Nat.succ_pos _
  intro q hq
  rcases mem_cons.mp hq with rfl | hq
  · exact hp
  · exact h.held q hq

lemma rewrite (hf : SameSlot f)
    (he : ∀ o : ObjEntry, (f o).dead = o.dead) (hr : ∀ o : ObjEntry, (f o).refcount = o.refcount) :
    (c.updateObj p f).Tallied refs fault := by
  apply h.update hf
  · intro o ho hp
    rw [hr, h.refcount o ho, hp]
  · exact fun _ _ => rfl
  · intro o ho _ hd
    rw [he] at hd
    rw [hr]
    exact h.dead o ho hd
  · exact h.held

end

lemma unlink (h : c.Tallied (p :: refs) fault) (ho : o ∈ c.objects) (hop : o.ptr = p)
    (hon : o.refcount = 1) (hf : SameSlot f) :
    (nkvxObjListRemove (c.updateObj p f) o).Tallied refs fault := by
  subst hop
  have hn : o.ptr ∉ refs := by
    have hc := h.refcount o ho
    rw [hon, count_cons_self] at hc
    exact count_eq_zero.mp (by omega)
  have hp : (c.updateObj o.ptr f).objCount ≠ 0 := by
    rw [show (c.updateObj o.ptr f).objCount = c.objCount from rfl, h.objCount]
    exact Nat.pos_iff_ne_zero.mp (length_pos_of_mem ho)
  have hsp : c.objects.Perm (o :: remove ptr o.ptr c.objects) :=
    perm_cons_remove h.nodup ho
  have hr : remove ptr o.ptr (c.updateObj o.ptr f).objects =
      remove ptr o.ptr c.objects := remove_modify fun o => (hf o).1
  rw [nkvxObjListRemove, if_neg hp, hr]
  constructor
  · exact nodup_remove h.nodup
  · exact fun o' ho' => h.fresh o' (mem_remove.mp ho').1
  · have hl := hsp.length_eq
    rw [length_cons] at hl
    show c.objCount - 1 = (remove ptr o.ptr c.objects).length
    rw [h.objCount, hl]
    rfl
  · have hs := (hsp.map memCap).sum_nat
    rw [map_cons, sum_cons] at hs
    show c.objBytes - o.memCap = ((remove ptr o.ptr c.objects).map memCap).sum
    rw [h.objBytes, hs]
    exact Nat.add_sub_cancel_left _ _
  · intro o' ho'
    obtain ⟨hi, he⟩ := mem_remove.mp ho'
    rw [h.refcount o' hi, count_cons_of_ne (Ne.symm he)]
  · exact fun o' ho' => h.dead o' (mem_remove.mp ho').1
  · intro q hq
    obtain ⟨o', ho', rfl⟩ := h.held q (mem_cons_of_mem _ hq)
    have he : o'.ptr ≠ o.ptr := fun heq => hn (heq ▸ hq)
    exact ⟨o', mem_remove.mpr ⟨ho', he⟩, rfl⟩
  · exact fun o' ho' => h.filled o' (mem_remove.mp ho').1
  · exact h.fault

lemma unref (h : c.Tallied (p :: refs) fault) : (nkvxObjUnref c p).Tallied refs fault := by
  obtain ⟨o, ho, hop, hb⟩ := h.obj_of_ref (mem_cons_self (a := p) (l := refs))
  have hc : o.refcount = refs.count p + 1 := by
    rw [h.refcount o ho, hop, count_cons_self]
  unfold nkvxObjUnref
  rw [hb]
  dsimp only
  rw [if_neg (by omega)]
  split
  · next hl => exact h.unlink ho hop hl.1 fun _ => ⟨rfl, rfl, rfl⟩
  next hl =>
  have hu : ∀ o' ∈ c.objects, o'.ptr = p → o' = o := fun o' ho' hp =>
    inj_on_of_nodup_map h.nodup ho' ho (hp.trans hop.symm)
  refine h.update (fun _ => ⟨rfl, rfl, rfl⟩) ?_ ?_ ?_ ?_
  · intro o' ho' hp
    rw [hu o' ho' hp]
    show o.refcount - 1 = _
    omega
  · exact fun q hq => (count_cons_of_ne (Ne.symm hq)).symm
  · intro o' ho' hp hd
    rw [hu o' ho' hp] at hd ⊢
    show 0 < o.refcount - 1
    have he : o.refcount ≠ 1 := fun hon => hl ⟨hon, hd⟩
    omega
  · exact fun q hq => h.held q (mem_cons_of_mem _ hq)

lemma add (h : c.Tallied refs fault) (objKey : Bytes) (objectLen : Nat) (got : Bytes) :
    (nkvxObjListAdd { c with nextPtr := c.nextPtr + 1 }
      (coldEntry c.nextPtr objKey objectLen got)).Tallied refs fault := by
  have hw : ∀ o' ∈ c.objects ++ [coldEntry c.nextPtr objKey objectLen got],
      o' ∈ c.objects ∨ o' = coldEntry c.nextPtr objKey objectLen got := by
    intro o' ho'
    simpa using ho'
  have hn : c.nextPtr ∉ refs := by
    intro hi
    obtain ⟨o, ho, hp⟩ := h.held _ hi
    exact absurd hp (ne_of_lt (h.fresh o ho))
  constructor
  · have he : ∀ o ∈ c.objects, o.ptr ≠ c.nextPtr := fun o ho => ne_of_lt (h.fresh o ho)
    simpa [nkvxObjListAdd, coldEntry, nodup_append] using ⟨h.nodup, he⟩
  · intro o' ho'
    rcases hw o' ho' with hold | rfl
    · exact Nat.lt_succ_of_lt (h.fresh o' hold)
    · exact Nat.lt_succ_self _
  · simp [nkvxObjListAdd, h.objCount]
  · simp [nkvxObjListAdd, h.objBytes]
  · intro o' ho'
    rcases hw o' ho' with hold | rfl
    · exact h.refcount o' hold
    · exact (count_eq_zero.mpr hn).symm
  · intro o' ho' hd
    rcases hw o' ho' with hold | rfl
    · exact h.dead o' hold hd
    · cases hd
  · intro q hq
    obtain ⟨o, ho, hp⟩ := h.held q hq
    exact ⟨o, mem_append_left _ ho, hp⟩
  · intro o' ho'
    rcases hw o' ho' with hold | rfl
    · exact h.filled o' hold
    · rfl
  · exact h.fault

lemma touch (h : c.Tallied refs fault) (p : ObjPtr) : (nkvxObjTouch c p).Tallied refs fault := by
  have hp : (nkvxObjTouch c p).objects.Perm c.objects := perm_touch
  constructor
  · exact (hp.map ptr).nodup_iff.mpr h.nodup
  · exact fun o ho => h.fresh o (hp.mem_iff.mp ho)
  · exact h.objCount.trans hp.length_eq.symm
  · exact h.objBytes.trans (hp.map memCap).sum_nat.symm
  · exact fun o ho => h.refcount o (hp.mem_iff.mp ho)
  · exact fun o ho => h.dead o (hp.mem_iff.mp ho)
  · intro q hq
    obtain ⟨o, ho, hop⟩ := h.held q hq
    exact ⟨o, hp.mem_iff.mpr ho, hop⟩
  · exact fun o ho => h.filled o (hp.mem_iff.mp ho)
  · exact h.fault

end Cache.Tallied

section

variable (c : Cache μ)

lemma unref_elsewhere (p : ObjPtr) :
    remove ptr p (nkvxObjUnref c p).objects = remove ptr p c.objects := by
  fun_cases nkvxObjUnref
  case case1 => rfl
  case case2 => rfl
  case case3 o ho _ c1 _ =>
    have hu : remove ptr p c1.objects = remove ptr p c.objects :=
      remove_modify fun _ => rfl
    unfold nkvxObjListRemove
    split
    · exact hu
    show remove ptr p (remove ptr o.ptr c1.objects) = _
    rw [(find_some ho).2, remove_remove, hu]
  case case4 => exact remove_modify fun _ => rfl

lemma unref_warm (p : ObjPtr) :
    (nkvxObjUnref c p).warm = c.warm ∧ (nkvxObjUnref c p).warmCount = c.warmCount := by
  fun_cases nkvxObjUnref
  case case3 =>
    unfold nkvxObjListRemove
    split <;> exact ⟨rfl, rfl⟩
  all_goals exact ⟨rfl, rfl⟩

lemma kill_elsewhere (p : ObjPtr) : remove ptr p (c.kill p).objects = remove ptr p c.objects := by
  rw [Cache.kill, unref_elsewhere]
  exact remove_modify fun _ => rfl

lemma kill_warm (p : ObjPtr) : (c.kill p).warm = c.warm :=
  (unref_warm _ p).1

lemma warmDestroy_elsewhere (w : WarmEntry μ) :
    remove ptr w.obj (nkvxWarmDestroy c w).objects = remove ptr w.obj c.objects := by
  unfold nkvxWarmDestroy
  split
  · rfl
  · exact unref_elsewhere _ w.obj

end

lemma exists_of_elsewhere (h : remove ptr p c'.objects = remove ptr p c.objects) (he : q ≠ p)
    (hq : ∃ o ∈ c.objects, o.ptr = q) : ∃ o ∈ c'.objects, o.ptr = q := by
  obtain ⟨o, ho, rfl⟩ := hq
  have hi : o ∈ remove ptr p c'.objects := by
    rw [h]
    exact mem_remove.mpr ⟨ho, he⟩
  exact ⟨o, (mem_remove.mp hi).1, rfl⟩

/-! ### The operations keep the bookkeeping -/

variable {l : List (WarmEntry μ)}

namespace Cache.Counted

lemma init : (Cache.init : Cache μ).Counted [] false := by
  refine ⟨⟨?_, ?_, rfl, rfl, ?_, ?_, ?_, ?_, rfl⟩, ?_, ?_, rfl⟩ <;> simp [Cache.init]

lemma unref (h : c.Counted (p :: holds) fault) : (nkvxObjUnref c p).Counted holds fault := by
  obtain ⟨hw, hc⟩ := unref_warm c p
  constructor
  · rw [hw]
    exact Cache.Tallied.unref h.objs
  · rw [hw]
    exact h.warmNodup
  · rw [hw, (Cache.Sheds.unref c p).nextPtr]
    exact h.warmFresh
  rw [hw, hc]
  exact h.warmCount

section

variable (h : c.Counted holds fault)
include h

lemma take (hp : ∃ o ∈ c.objects, o.ptr = p) (hf : SameSlot f)
    (hr : ∀ o : ObjEntry, (f o).refcount = o.refcount + 1) :
    (c.updateObj p f).Counted (p :: holds) fault :=
  ⟨h.objs.take hp hf hr, h.warmNodup, h.warmFresh, h.warmCount⟩

lemma kill (hp : ∃ o ∈ c.objects, o.ptr = p) : (c.kill p).Counted holds fault :=
  unref (h.take hp (fun _ => ⟨rfl, rfl, rfl⟩) fun _ => rfl)

lemma foldl_kill {l : List ObjPtr} (hn : l.Nodup)
    (hl : ∀ p ∈ l, ∃ o ∈ c.objects, o.ptr = p) : (l.foldl Cache.kill c).Counted holds fault := by
  induction l generalizing c with
  | nil => exact h
  | cons p l ih =>
    obtain ⟨ho, hn⟩ := nodup_cons.mp hn
    refine ih (h.kill (hl p (by simp))) hn fun q hq => ?_
    have hne : q ≠ p := fun he => ho (he ▸ hq)
    exact exists_of_elsewhere (kill_elsewhere c p) hne (hl q (mem_cons_of_mem _ hq))

lemma warmDestroy (hw : w ∈ c.warm) : (nkvxWarmDestroy c w).Counted holds fault ∧
      (nkvxWarmDestroy c w).warm = remove WarmEntry.ptr w.ptr c.warm := by
  have hs := perm_cons_remove h.warmNodup hw
  have hp : c.warmCount ≠ 0 := by
    rw [h.warmCount]
    exact pos_iff_ne_zero.mp (length_pos_of_mem hw)
  unfold nkvxWarmDestroy
  rw [if_neg hp]
  refine ⟨unref ⟨?_, nodup_remove h.warmNodup, ?_, ?_⟩, (unref_warm _ w.obj).1⟩
  · have hr := ((hs.map WarmEntry.obj).append_left holds).trans perm_middle
    have ho := h.objs.perm hr
    exact ⟨ho.nodup, ho.fresh, ho.objCount, ho.objBytes, ho.refcount, ho.dead, ho.held, ho.filled, ho.fault⟩
  · exact fun w' hw' => h.warmFresh w' (mem_remove.mp hw').1
  have hl := hs.length_eq
  rw [length_cons] at hl
  show c.warmCount - 1 = (remove WarmEntry.ptr w.ptr c.warm).length
  rw [h.warmCount, hl]
  rfl

lemma foldl_warmDestroy
    (hn : (l.map WarmEntry.ptr).Nodup) (hl : ∀ w ∈ l, w ∈ c.warm) : (l.foldl nkvxWarmDestroy c).Counted holds fault ∧
      ∀ w, w ∈ (l.foldl nkvxWarmDestroy c).warm ↔ w ∈ c.warm ∧ w ∉ l := by
  induction l generalizing c with
  | nil => exact ⟨h, fun w => by simp⟩
  | cons w l ih =>
    obtain ⟨ho, hn⟩ := nodup_cons.mp hn
    obtain ⟨hc, hw⟩ := h.warmDestroy (hl w (by simp))
    have hf : ∀ w' ∈ l, w' ∈ (nkvxWarmDestroy c w).warm := by
      intro w' hw'
      have hne : w'.ptr ≠ w.ptr := fun he => ho (he ▸ mem_map_of_mem hw')
      rw [hw]
      exact mem_remove.mpr ⟨hl w' (mem_cons_of_mem _ hw'), hne⟩
    obtain ⟨hc', hr⟩ := ih hc hn hf
    refine ⟨hc', fun w' => (hr w').trans ?_⟩
    rw [hw, mem_remove, mem_cons, not_or, and_assoc]
    -- on the list, entries are told apart by their addresses
    refine and_congr_right fun hi => and_congr_left fun _ => not_congr ⟨fun he => ?_, fun he => he ▸ rfl⟩
    exact inj_on_of_nodup_map h.warmNodup hi (hl w (by simp)) he

lemma destroyMatching (test : WarmEntry μ → Bool) : ((c.warm.filter test).foldl nkvxWarmDestroy c).Counted holds fault ∧
      ∀ w, w ∈ ((c.warm.filter test).foldl nkvxWarmDestroy c).warm ↔ w ∈ c.warm ∧ test w = false := by
  have hn : ((c.warm.filter test).map WarmEntry.ptr).Nodup :=
    h.warmNodup.sublist (filter_sublist.map _)
  obtain ⟨hc, hl⟩ := h.foldl_warmDestroy hn fun w hw => (mem_filter.mp hw).1
  refine ⟨hc, fun w => (hl w).trans (and_congr_right fun hi => ?_)⟩
  rw [mem_filter, not_and, Bool.not_eq_true]
  exact ⟨fun ho => ho hi, fun ho _ => ho⟩

lemma invalidateLocked (objKey : Bytes) : (nkvxCacheInvalidateLocked c objKey).Counted holds fault := by
  have hw := (h.destroyMatching fun w => w.objKey == objKey).1
  unfold nkvxCacheInvalidateLocked
  refine hw.foldl_kill ?_ fun p hp => ?_
  · exact hw.objs.nodup.sublist (filter_sublist.map _)
  obtain ⟨o, ho, rfl⟩ := mem_map.mp hp
  exact ⟨o, (mem_filter.mp ho).1, rfl⟩

lemma invalidate (objKey : Bytes) : (cacheInvalidate c objKey).Counted holds fault := by
  unfold cacheInvalidate
  split
  · exact h
  · exact h.invalidateLocked objKey

end

end Cache.Counted

lemma foldl_warmDestroy_elsewhere (hl : ∀ w ∈ l, w.obj = p) (c : Cache μ) :
    remove ptr p (l.foldl nkvxWarmDestroy c).objects = remove ptr p c.objects := by
  induction l generalizing c with
  | nil => rfl
  | cons w l ih =>
    have hw : w.obj = p := hl w (by simp)
    refine (ih (fun w' hw' => hl w' (mem_cons_of_mem _ hw')) _).trans ?_
    subst hw
    exact warmDestroy_elsewhere c w

lemma evict_elsewhere (c : Cache μ) (p : ObjPtr) : remove ptr p (nkvxObjEvictLocked c p).objects =
      remove ptr p c.objects := by
  rw [nkvxObjEvictLocked, kill_elsewhere]
  apply foldl_warmDestroy_elsewhere
  intro w hw
  simpa using (mem_filter.mp hw).2

def Cache.LiveAt (c : Cache μ) (p : ObjPtr) : Prop := ∃ o ∈ c.objects, o.ptr = p ∧ o.dead = false

lemma Cache.LiveAt.listed (h : c.LiveAt p) : ∃ o ∈ c.objects, o.ptr = p :=
  let ⟨o, ho, hp, _⟩ := h
  ⟨o, ho, hp⟩

section

variable (hn : (c.objects.map ptr).Nodup)
include hn

lemma liveAt_unref (h : c.LiveAt p) (q : ObjPtr) : (nkvxObjUnref c q).LiveAt p := by
  obtain ⟨o, ho, hp, hl⟩ := h
  by_cases he : p = q
  · subst he
    have hb : c.obj p = some o := hp ▸ find_of_mem hn ho
    unfold nkvxObjUnref
    rw [hb]
    dsimp only
    split
    · exact ⟨o, ho, hp, hl⟩
    rw [if_neg (by simp [hl])]
    exact ⟨_, map_mem_modify ho hp, hp, hl⟩
  have hi : o ∈ remove ptr q (nkvxObjUnref c q).objects := by
    rw [unref_elsewhere]
    exact mem_remove.mpr ⟨ho, hp ▸ he⟩
  exact ⟨o, (mem_remove.mp hi).1, hp, hl⟩

lemma liveAt_warmDestroy (h : c.LiveAt p) (w : WarmEntry μ) : (nkvxWarmDestroy c w).LiveAt p := by
  unfold nkvxWarmDestroy
  split
  · exact h
  refine liveAt_unref ?_ ?_ w.obj
  · exact hn
  · exact h

lemma liveAt_foldl_warmDestroy (h : c.LiveAt p) (l : List (WarmEntry μ)) : (l.foldl nkvxWarmDestroy c).LiveAt p := by
  induction l generalizing c with
  | nil => exact h
  | cons w l ih => exact ih ((Cache.Sheds.warmDestroy c w).nodup hn) (liveAt_warmDestroy hn h w)

end

namespace Cache.Counted

lemma evict (h : c.Counted holds fault) (hp : c.LiveAt p) : (nkvxObjEvictLocked c p).Counted holds fault ∧
      ∀ w ∈ (nkvxObjEvictLocked c p).warm, w.obj ≠ p := by
  obtain ⟨hc, hg⟩ := h.destroyMatching fun w => w.obj == p
  have hl := liveAt_foldl_warmDestroy h.objs.nodup hp (c.warm.filter fun w => w.obj == p)
  refine ⟨hc.kill hl.listed, fun w hw => ?_⟩
  rw [nkvxObjEvictLocked, kill_warm] at hw
  simpa using ((hg w).mp hw).2

variable (cfg : WasmConfig)

lemma enforceObjCaps (fuel : Nat) (h : c.Counted holds fault) :
    (RadosNkv.enforceObjCaps cfg fuel c).Counted holds fault := by
  induction fuel generalizing c with
  | zero => exact h
  | succ fuel ih =>
    unfold RadosNkv.enforceObjCaps
    split
    · exact h
    split
    · exact h
    next victim rest hl =>
    have hm : victim ∈ c.live := by simp [hl]
    obtain ⟨hi, hd⟩ := mem_filter.mp hm
    have he := (h.evict ⟨victim, hi, rfl, by simpa using hd⟩).1
    split
    · exact he
    · exact ih he

section

variable (h : c.Counted holds fault)
include h

lemma enforceWarmCaps (hn : (l.map WarmEntry.ptr).Nodup)
    (hl : ∀ w ∈ l, w ∈ c.warm) : (RadosNkv.enforceWarmCaps cfg l c).Counted holds fault := by
  induction l generalizing c with
  | nil => exact h
  | cons w l ih =>
    obtain ⟨ho, hn⟩ := nodup_cons.mp hn
    unfold RadosNkv.enforceWarmCaps
    split
    · obtain ⟨hc, hw⟩ := h.warmDestroy (hl w (by simp))
      refine ih hc hn fun w' hw' => ?_
      have hne : w'.ptr ≠ w.ptr := fun he => ho (he ▸ mem_map_of_mem hw')
      rw [hw]
      exact mem_remove.mpr ⟨hl w' (mem_cons_of_mem _ hw'), hne⟩
    · exact h

lemma warmCacheEnforceCaps : (nkvxWarmCacheEnforceCaps cfg c).Counted holds fault := by
  unfold nkvxWarmCacheEnforceCaps
  split
  · exact h
  · exact h.enforceWarmCaps cfg h.warmNodup fun _ hw => hw

lemma objTouch (p : ObjPtr) : (nkvxObjTouch c p).Counted holds fault :=
  ⟨h.objs.touch p, h.warmNodup, h.warmFresh, h.warmCount⟩

lemma warmTouch (w : WarmEntry μ) : (nkvxWarmTouch c w).Counted holds fault := by
  have hp : (nkvxWarmTouch c w).warm.Perm c.warm := perm_touch
  have ho := h.objs.perm ((hp.map WarmEntry.obj).symm.append_left holds)
  refine ⟨?_, (hp.map WarmEntry.ptr).nodup_iff.mpr h.warmNodup, ?_, ?_⟩
  · exact ⟨ho.nodup, ho.fresh, ho.objCount, ho.objBytes, ho.refcount, ho.dead, ho.held, ho.filled, ho.fault⟩
  · exact fun w' hw' => h.warmFresh w' (hp.mem_iff.mp hw')
  · exact h.warmCount.trans hp.length_eq.symm

lemma linkWarm (ho : o ∈ c.objects) (name : Bytes) (m : μ) :
    (c.linkWarm name m o).Counted holds fault := by
  have hp := h.objs.take ⟨o, ho, rfl⟩ (f := fun o => { o with refcount := o.refcount + 1 })
    (fun _ => ⟨rfl, rfl, rfl⟩) fun _ => rfl
  have hr : (o.ptr :: (holds ++ c.warm.map WarmEntry.obj)).Perm
      (holds ++ (c.linkWarm name m o).warm.map WarmEntry.obj) := by
    simp only [Cache.linkWarm, map_append, map_cons, map_nil, ← append_assoc]
    exact perm_append_singleton o.ptr _ |>.symm
  have hb := hp.perm hr
  refine ⟨?_, ?_, ?_, ?_⟩
  · exact ⟨hb.nodup, fun o' ho' => Nat.lt_succ_of_lt (hb.fresh o' ho'), hb.objCount,
      hb.objBytes, hb.refcount, hb.dead, hb.held, hb.filled, hb.fault⟩
  · have he : ∀ w ∈ c.warm, w.ptr ≠ c.nextPtr := fun w hw => ne_of_lt (h.warmFresh w hw)
    simpa [Cache.linkWarm, nodup_append] using ⟨h.warmNodup, he⟩
  · intro w hw
    rcases mem_append.mp hw with hold | hnw
    · exact Nat.lt_succ_of_lt (h.warmFresh w hold)
    obtain rfl := mem_singleton.mp hnw
    exact Nat.lt_succ_self _
  · simp [Cache.linkWarm, h.warmCount]

lemma writeBack (p : ObjPtr) (z : ZcMem) (after : Mem) :
    (c.updateObj p fun o => o.writeBack z after).Counted holds fault := by
  have hs : ∀ o : ObjEntry, (o.writeBack z after).ptr = o.ptr ∧
      (o.writeBack z after).memCap = o.memCap ∧ (o.writeBack z after).filled = o.filled ∧
      (o.writeBack z after).dead = o.dead ∧ (o.writeBack z after).refcount = o.refcount := by
    intro o
    unfold ObjEntry.writeBack
    split <;> exact ⟨rfl, rfl, rfl, rfl, rfl⟩
  refine ⟨h.objs.rewrite (fun o => ?_) (fun o => (hs o).2.2.2.1) fun o => (hs o).2.2.2.2,
    h.warmNodup, h.warmFresh, h.warmCount⟩
  exact ⟨(hs o).1, (hs o).2.1, (hs o).2.2.1⟩

lemma pin (objKey : Bytes) : (cachePin c objKey).1.Counted ((cachePin c objKey).2.toList ++ holds) fault := by
  fun_cases cachePin
  case case3 o hl _ =>
    exact h.take ⟨o, mem_of_find?_eq_some hl, rfl⟩ (fun _ => ⟨rfl, rfl, rfl⟩) fun _ => rfl
  all_goals exact h

lemma listAdd (objKey : Bytes) (objectLen : Nat) (got : Bytes) : (nkvxObjListAdd { c with nextPtr := c.nextPtr + 1 }
      (coldEntry c.nextPtr objKey objectLen got)).Counted holds fault :=
  ⟨h.objs.add objKey objectLen got, h.warmNodup, fun w hw => Nat.lt_succ_of_lt (h.warmFresh w hw), h.warmCount⟩

end

lemma coldFill {ε : Type} (alloc : Bool) (h : c.Counted holds fault) (objKey : Bytes) (objectLen : Nat)
    (fill : Nat → Except ε Bytes) : (RadosNkv.coldFill cfg alloc c objKey objectLen fill).1.Counted holds fault := by
  fun_cases RadosNkv.coldFill
  case case3 got _ o c1 => exact (h.listAdd objKey objectLen got).enforceObjCaps cfg _
  all_goals exact h

lemma cacheFill {ε : Type} (alloc : Bool) (h : c.Counted holds fault) (objKey : Bytes) (objectLen : Nat)
    (fill : Nat → Except ε Bytes) : (RadosNkv.cacheFill cfg alloc c objKey objectLen fill).1.Counted holds fault := by
  have hc := h.coldFill cfg alloc objKey objectLen fill
  fun_cases RadosNkv.cacheFill
  case case3 o _ => exact h.objTouch o.ptr
  case case4 he =>
    rw [he] at hc
    exact hc
  case case5 he =>
    rw [he] at hc
    exact hc
  all_goals exact h

end Cache.Counted

section Runs

variable {api : WasmApi} (cfg : WasmConfig) (env : RunEnv) (name : Bytes) (mod : Option ModSpec)
  {s : WasmState api}

variable {o : ObjEntry}

section

variable (h : s.cache.Counted holds fault)
include h

lemma counted_warmObtain (ho : o ∈ s.cache.objects) :
    (warmObtain cfg env s name mod o).1.cache.Counted holds fault := by
  obtain ⟨w, _, he⟩ | ⟨_, _, m, he⟩ | ⟨_, _, he, _⟩ := warmObtain_cases cfg env name mod s o
  · rw [he]
    exact h.warmTouch w
  · rw [he]
    exact (h.linkWarm ho name m).warmCacheEnforceCaps cfg
  rw [he]
  exact h

lemma counted_runModule (m : api.Module) (o : ObjEntry)
    (outLen : Nat) : (runModule cfg env s name mod m o outLen).1.cache.Counted holds fault := by
  fun_cases runModule
  case case3 z _ _ _ r => exact h.writeBack o.ptr z r.2
  all_goals exact h

lemma counted_runOnObject (ho : s.cache.obj p = some o) (outLen : Nat) :
    (nkvxRunOnObjectLocked cfg env s name mod p outLen).1.cache.Counted holds fault := by
  have hw := counted_warmObtain cfg env name mod h (find_some ho).1
  unfold nkvxRunOnObjectLocked
  rw [ho]
  dsimp only
  generalize warmObtain cfg env s name mod o = r at hw
  obtain ⟨s', _ | m⟩ := r
  · exact hw
  · exact counted_runModule cfg env name mod hw ..

lemma counted_runPinned (ho : s.cache.obj p = some o) (outLen : Nat) :
    (runPinned cfg env s name mod p outLen).1.cache.Counted holds fault := by
  unfold runPinned
  split
  · exact h
  · exact counted_runOnObject cfg env name mod h ho outLen

lemma counted_runCached_listed {ε : Type} (objKey : Bytes)
    (objectLen : Nat) (fill : Nat → Except ε Bytes) (outLen : Nat) (hl : cfg.available = true → objKey ≠ [] →
      (nkvxObjLookup s.cache objKey).filter ObjEntry.filled = none →
      ∀ c p, coldFill cfg env.objAlloc s.cache objKey objectLen fill = (c, .ok p) → c.obj p ≠ none) :
    (runCached cfg env s name mod objKey objectLen fill outLen).1.cache.Counted holds fault := by
  have hc := h.coldFill cfg env.objAlloc objKey objectLen fill
  fun_cases runCached
  case case3 ha hk o hh =>
    obtain ⟨hlk, -⟩ := Option.filter_eq_some_iff.mp hh
    have ht := h.objTouch o.ptr
    have hi : o ∈ (nkvxObjTouch s.cache o.ptr).objects :=
      mem_touch.mpr (mem_of_find?_eq_some hlk)
    exact counted_runOnObject cfg env name mod (s := { s with cache := _ }) ht
      (find_of_mem ht.objs.nodup hi) outLen
  case case4 he =>
    rw [he] at hc
    exact hc
  case case5 ha hk hm c p he =>
    rw [he] at hc
    obtain ⟨o, ho⟩ := Option.ne_none_iff_exists'.mp (hl (by simpa using ha) hk hm c p he)
    exact counted_runOnObject cfg env name mod (s := { s with cache := c }) hc ho outLen
  all_goals exact h

end

end Runs

end RadosNkv
