import RadosNkv.Wasm.ObjectCache

/-! What eviction, invalidation, pins and touches leave of the caches: entries go and the rest keep
everything but their pins, order and life. -/

namespace RadosNkv

open Tailq

structure ObjEntry.Ages (o o' : ObjEntry) : Prop where
  ptr : o'.ptr = o.ptr
  objKey : o'.objKey = o.objKey
  mem : o'.mem = o.mem
  memCap : o'.memCap = o.memCap
  memSize : o'.memSize = o.memSize
  objLen : o'.objLen = o.objLen
  filled : o'.filled = o.filled
  dead : o.dead → o'.dead

lemma ObjEntry.Ages.refl (o : ObjEntry) : o.Ages o := ⟨rfl, rfl, rfl, rfl, rfl, rfl, rfl, id⟩

lemma ObjEntry.Ages.trans {o1 o2 o3 : ObjEntry} (h : o1.Ages o2) (h' : o2.Ages o3) : o1.Ages o3 :=
  ⟨h'.ptr.trans h.ptr, h'.objKey.trans h.objKey, h'.mem.trans h.mem, h'.memCap.trans h.memCap,
    h'.memSize.trans h.memSize, h'.objLen.trans h.objLen, h'.filled.trans h.filled,
    fun hd => h'.dead (h.dead hd)⟩

variable {μ : Type}

structure Cache.Sheds (c c' : Cache μ) : Prop where
  objects : ∀ o' ∈ c'.objects, ∃ o ∈ c.objects, o.Ages o'
  nodup : (c.objects.map ObjEntry.ptr).Nodup → (c'.objects.map ObjEntry.ptr).Nodup
  warm : ∀ w ∈ c'.warm, w ∈ c.warm
  nextPtr : c'.nextPtr = c.nextPtr

namespace Cache.Sheds

variable {c c' c'' : Cache μ}

lemma refl (c : Cache μ) : c.Sheds c := ⟨fun o ho => ⟨o, ho, .refl o⟩, id, fun _ h => h, rfl⟩

lemma trans (h : c.Sheds c') (h' : c'.Sheds c'') : c.Sheds c'' where
  objects := by
    intro o'' ho''
    obtain ⟨o', ho', ha'⟩ := h'.objects o'' ho''
    obtain ⟨o, ho, ha⟩ := h.objects o' ho'
    exact ⟨o, ho, ha.trans ha'⟩
  nodup := fun hn => h'.nodup (h.nodup hn)
  warm := fun w hw => h.warm w (h'.warm w hw)
  nextPtr := h'.nextPtr.trans h.nextPtr

section

variable (c : Cache μ)

lemma bad : c.Sheds c.bad := ⟨fun o ho => ⟨o, ho, .refl o⟩, id, fun _ h => h, rfl⟩

lemma updateObj (p : ObjPtr) (hf : ∀ o : ObjEntry, o.Ages (f o)) :
    c.Sheds (c.updateObj p f) where
  objects := by
    intro o' ho'
    obtain ⟨o, ho, ⟨_, rfl⟩ | ⟨_, rfl⟩⟩ := mem_modify ho'
    · exact ⟨o, ho, hf o⟩
    · exact ⟨o', ho, .refl o'⟩
  nodup := by
    intro hn
    have hm : (c.updateObj p f).objects.map ObjEntry.ptr = c.objects.map ObjEntry.ptr :=
      map_modify fun o => (hf o).ptr
    exact hm ▸ hn
  warm := fun _ h => h
  nextPtr := rfl

lemma objTouch (p : ObjPtr) : c.Sheds (nkvxObjTouch c p) :=
  ⟨fun o ho => ⟨o, mem_touch.mp ho, .refl o⟩,
    fun hn => (perm_touch.map ObjEntry.ptr).nodup_iff.mpr hn, fun _ h => h, rfl⟩

lemma warmTouch (w : WarmEntry μ) : c.Sheds (nkvxWarmTouch c w) :=
  ⟨fun o ho => ⟨o, ho, .refl o⟩, id, fun _ h => mem_touch.mp h, rfl⟩

lemma listRemove (o : ObjEntry) : c.Sheds (nkvxObjListRemove c o) := by
  unfold nkvxObjListRemove
  split
  · exact bad c
  · exact ⟨fun o' ho' => ⟨o', (mem_remove.mp ho').1, .refl o'⟩, nodup_remove, fun _ h => h, rfl⟩

lemma unref (p : ObjPtr) : c.Sheds (nkvxObjUnref c p) := by
  fun_cases nkvxObjUnref
  case case1 => exact bad c
  case case2 => exact bad c
  case case3 o _ _ c1 _ =>
    have hd : c.Sheds c1 := updateObj c p fun _ => ⟨rfl, rfl, rfl, rfl, rfl, rfl, rfl, id⟩
    exact hd.trans (listRemove c1 o)
  case case4 => exact updateObj c p fun _ => ⟨rfl, rfl, rfl, rfl, rfl, rfl, rfl, id⟩

lemma warmDestroy (w : WarmEntry μ) : c.Sheds (nkvxWarmDestroy c w) := by
  unfold nkvxWarmDestroy
  split
  · exact bad c
  have hr : c.Sheds
      { c with warm := remove WarmEntry.ptr w.ptr c.warm, warmCount := c.warmCount - 1 } :=
    ⟨fun o ho => ⟨o, ho, .refl o⟩, id, fun w' hw' => (mem_remove.mp hw').1, rfl⟩
  exact hr.trans (unref _ w.obj)

end

lemma foldl {β : Type} {f : Cache μ → β → Cache μ} (hf : ∀ (c : Cache μ) b, c.Sheds (f c b)) (l : List β)
    (c : Cache μ) : c.Sheds (l.foldl f c) := by
  induction l generalizing c with
  | nil => exact refl c
  | cons b l ih => exact (hf c b).trans (ih (f c b))

lemma kill (c : Cache μ) (p : ObjPtr) : c.Sheds (c.kill p) := by
  have hm : c.Sheds (c.updateObj p fun o => { o with dead := true, refcount := o.refcount + 1 }) :=
    updateObj c p fun _ => ⟨rfl, rfl, rfl, rfl, rfl, rfl, rfl, fun _ => rfl⟩
  exact hm.trans (unref _ p)

lemma invalidateLocked (c : Cache μ) (objKey : Bytes) : c.Sheds (nkvxCacheInvalidateLocked c objKey) :=
  (foldl warmDestroy _ c).trans (foldl kill _ _)

lemma evict (c : Cache μ) (p : ObjPtr) : c.Sheds (nkvxObjEvictLocked c p) :=
  (foldl warmDestroy _ c).trans (kill _ p)

variable (cfg : WasmConfig)

lemma enforceObjCaps (fuel : Nat) (c : Cache μ) : c.Sheds (RadosNkv.enforceObjCaps cfg fuel c) := by
  induction fuel generalizing c with
  | zero => exact refl c
  | succ fuel ih =>
    unfold RadosNkv.enforceObjCaps
    split
    · exact refl c
    split
    · exact refl c
    next victim rest _ =>
    have he := evict c victim.ptr
    split
    · exact he
    · exact he.trans (ih _)

lemma enforceWarmCaps (l : List (WarmEntry μ)) (c : Cache μ) : c.Sheds (RadosNkv.enforceWarmCaps cfg l c) := by
  induction l generalizing c with
  | nil => exact refl c
  | cons w l ih =>
    unfold RadosNkv.enforceWarmCaps
    split
    · exact (warmDestroy c w).trans (ih _)
    · exact refl c

lemma warmCacheEnforceCaps (c : Cache μ) : c.Sheds (nkvxWarmCacheEnforceCaps cfg c) := by
  unfold nkvxWarmCacheEnforceCaps
  split
  · exact refl c
  · exact enforceWarmCaps ..

lemma pin (c : Cache μ) (objKey : Bytes) : c.Sheds (cachePin c objKey).1 := by
  fun_cases cachePin
  case case3 o _ _ => exact updateObj c o.ptr fun _ => ⟨rfl, rfl, rfl, rfl, rfl, rfl, rfl, id⟩
  all_goals exact refl c

lemma invalidate (c : Cache μ) (objKey : Bytes) : c.Sheds (cacheInvalidate c objKey) := by
  unfold cacheInvalidate
  split
  · exact refl c
  · exact invalidateLocked c objKey

end Cache.Sheds

lemma Cache.kill_dead (c : Cache μ) (h : o' ∈ (c.kill p).objects) (hp : o'.ptr = p) : o'.dead := by
  obtain ⟨o1, ho1, ha⟩ := (Cache.Sheds.unref _ p).objects o' h
  apply ha.dead
  obtain ⟨o, _, ⟨_, rfl⟩ | ⟨hn, rfl⟩⟩ := mem_modify ho1
  · rfl
  · exact absurd (ha.ptr.symm.trans hp) hn

lemma Cache.foldl_kill_dead {l : List ObjPtr} (h : o' ∈ (l.foldl Cache.kill c).objects)
    (hp : o'.ptr ∈ l) : o'.dead := by
  induction l generalizing c with
  | nil => cases hp
  | cons p l ih =>
    by_cases hi : o'.ptr ∈ l
    · exact ih h hi
    have hh : o'.ptr = p := (List.mem_cons.mp hp).resolve_right hi
    -- the rounds after this one only age the entry
    obtain ⟨o1, ho1, ha⟩ := (Cache.Sheds.foldl Cache.Sheds.kill l (c.kill p)).objects o' h
    exact ha.dead (c.kill_dead ho1 (ha.ptr.symm.trans hh))

lemma invalidate_dead (hn : objKey ≠ []) (h : o' ∈ (cacheInvalidate c objKey).objects)
    (he : o'.objKey = objKey) : o'.dead := by
  simp only [cacheInvalidate, hn, if_false, nkvxCacheInvalidateLocked] at h
  generalize (c.warm.filter _).foldl nkvxWarmDestroy c = c1 at h
  obtain ⟨o, ho, ha⟩ := (Cache.Sheds.foldl Cache.Sheds.kill _ c1).objects o' h
  by_cases hd : o.dead
  · exact ha.dead hd
  refine Cache.foldl_kill_dead h (List.mem_map.mpr ⟨o, ?_, ha.ptr.symm⟩)
  have hk : o.objKey = objKey := ha.objKey.symm.trans he
  simp [ho, hd, hk]

lemma invalidate_live_ne (hn : objKey ≠ []) (h : o' ∈ (cacheInvalidate c objKey).objects)
    (hl : o'.dead = false) : o'.objKey ≠ objKey := by
  intro he
  have hd := invalidate_dead hn h he
  rw [hl] at hd
  cases hd

end RadosNkv
