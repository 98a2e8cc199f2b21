import RadosNkv.Wasm.DeadEntries
import RadosNkv.Wasm.LiveOrder

/-! The entries of one key on the object list: whether there is one, and that there is no second. -/

namespace RadosNkv

open List ObjEntry

variable {μ : Type} {c c' c'' : Cache μ} {k : Bytes}

def Cache.Lacks (c : Cache μ) (k : Bytes) : Prop := ∀ o ∈ c.objects, o.objKey ≠ k

/-- A live entry has the key. -/
def Cache.Has (c : Cache μ) (k : Bytes) : Prop := ∃ o ∈ c.live, o.objKey = k

def Cache.SoleAt (c : Cache μ) (k : Bytes) : Prop :=
  ∀ o ∈ c.objects, ∀ o' ∈ c.objects, o.objKey = k → o'.objKey = k → o.ptr = o'.ptr

def Cache.KeyFrom (k : Bytes) (c c' : Cache μ) : Prop :=
  ∀ o' ∈ c'.objects, o'.objKey = k → ∃ o ∈ c.objects, o.Evolves o'

namespace Cache.KeyFrom

lemma lacks (h : KeyFrom k c c') (hc : c.Lacks k) : c'.Lacks k := by
  intro o' ho' hk
  obtain ⟨o, ho, he⟩ := h o' ho' hk
  exact hc o ho (he.objKey ▸ hk)

lemma soleAt (h : KeyFrom k c c') (hc : c.SoleAt k) : c'.SoleAt k := by
  intro o1 ho1 o2 ho2 hk1 hk2
  obtain ⟨p1, hp1, he1⟩ := h o1 ho1 hk1
  obtain ⟨p2, hp2, he2⟩ := h o2 ho2 hk2
  rw [he1.ptr, he2.ptr]
  exact hc p1 hp1 p2 hp2 (he1.objKey ▸ hk1) (he2.objKey ▸ hk2)

lemma moves (h : c.Moves F c')
    (hF : ∀ {objKey objectLen got}, F objKey objectLen got → cstrFit 256 objKey ≠ k) :
    KeyFrom k c c' := by
  intro o' ho' hk
  obtain hold | ⟨objKey, _, _, hf, _, he⟩ := h.origin.2 o' ho'
  · exact hold
  · exact absurd (he.objKey.symm.trans hk) (hF hf)

lemma sheds (h : c.Sheds c') : KeyFrom k c c' :=
  moves (F := fun _ _ _ => False) h.moves False.elim

end Cache.KeyFrom

lemma Cache.SoleAt.length_le (h : c.SoleAt k) (hn : (c.objects.map ptr).Nodup) :
    (c.objects.filter fun o => o.objKey = k).length ≤ 1 := by
  have hd : ((c.objects.filter fun o => o.objKey = k).map ptr).Nodup :=
    hn.sublist (filter_sublist.map _)
  have hi : ∀ o ∈ c.objects.filter fun o => o.objKey = k, o ∈ c.objects ∧ o.objKey = k := fun o ho => by
    simpa using ho
  generalize c.objects.filter (fun o => o.objKey = k) = l at hd hi
  match l with
  | [] => exact Nat.zero_le 1
  | [_] => exact Nat.le_refl 1
  | o1 :: o2 :: rest =>
    obtain ⟨hi1, hk1⟩ := hi o1 (by simp)
    obtain ⟨hi2, hk2⟩ := hi o2 (by simp)
    have hs := h o1 hi1 o2 hi2 hk1 hk2
    simp [hs] at hd

lemma Cache.Lacks.soleAt (h : c.Lacks k) : c.SoleAt k := fun o ho _ _ hk => absurd hk (h o ho)

lemma Cache.Lacks.not_has (h : c.Lacks k) : ¬ c.Has k := by
  rintro ⟨o, ho, hk⟩
  exact h o (mem_filter.mp ho).1 hk

lemma Cache.SameLive.has (h : c.SameLive c') (hc : c.Has k) : c'.Has k := by
  obtain ⟨o, ho, hk⟩ := hc
  have hm : o.face ∈ c'.live.map face := h ▸ mem_map_of_mem ho
  obtain ⟨o', ho', hf⟩ := mem_map.mp hm
  exact ⟨o', ho', (congrArg (fun x => x.2.1) hf).trans hk⟩

lemma Cache.Has.lookup (h : c.Has k) (hf : ∀ o ∈ c.objects, o.filled) :
    ∃ o, (nkvxObjLookup c k).filter ObjEntry.filled = some o := by
  obtain ⟨o, ho, hk⟩ := h
  obtain ⟨hi, hl⟩ := mem_filter.mp ho
  by_contra hn
  have hm : (nkvxObjLookup c k).filter ObjEntry.filled = none := by
    cases hlk : (nkvxObjLookup c k).filter ObjEntry.filled with
    | none => rfl
    | some o' => exact absurd ⟨o', hlk⟩ hn
  exact live_key_ne_of_miss hf hm hi (by simpa using hl) hk

lemma Cache.Lacks.lookup (h : c.Lacks k) : (nkvxObjLookup c k).filter ObjEntry.filled = none := by
  have hn : nkvxObjLookup c k = none := by
    rw [nkvxObjLookup, find?_eq_none]
    intro o ho
    simp [h o ho]
  rw [hn]
  rfl

variable {holds : List ObjPtr} {fault : Bool} {objKey : Bytes}

lemma live_invalidate (hc : c.Counted holds fault) (ho : o ∈ c.objects) (hl : o.dead = false)
    (hn : o.objKey ≠ objKey) :
    ∃ o' ∈ (cacheInvalidate c objKey).objects, o.Ages o' ∧ o'.dead = false := by
  have ht : c.LiveAt o.ptr := ⟨o, ho, rfl, hl⟩
  have hst : (cacheInvalidate c objKey).LiveAt o.ptr := by
    unfold cacheInvalidate
    split
    · exact ht
    have hcn := (hc.destroyMatching fun w => w.objKey == objKey).1
    refine (liveAt_foldl_warmDestroy hc.objs.nodup ht _).foldl_kill fun hm => ?_
    -- the address has kept its key, which is not the one that is dropped
    obtain ⟨o1, ho1, hp1⟩ := mem_map.mp hm
    obtain ⟨hi1, hk1⟩ := mem_filter.mp ho1
    obtain ⟨o2, ho2, ha⟩ := (Cache.Sheds.foldl .warmDestroy
      (c.warm.filter fun w => w.objKey == objKey) c).objects o1 hi1
    have hs : o2 = o := inj_on_of_nodup_map hc.objs.nodup ho2 ho (ha.ptr.symm.trans hp1)
    have hd : o1.objKey = objKey := by simpa using (Bool.and_eq_true_iff.mp hk1).2
    exact hn (hs ▸ ha.objKey.symm.trans hd)
  obtain ⟨o', ho', hp', hl'⟩ := hst
  obtain ⟨o2, ho2, ha⟩ := (Cache.Sheds.invalidate c objKey).objects o' ho'
  have hs : o2 = o := inj_on_of_nodup_map hc.objs.nodup ho2 ho (ha.ptr.symm.trans hp')
  exact ⟨o', ho', hs ▸ ha, hl'⟩

lemma warm_invalidate (hc : c.Counted holds fault) (hw : w ∈ c.warm) (hn : w.objKey ≠ objKey) :
    w ∈ (cacheInvalidate c objKey).warm := by
  unfold cacheInvalidate
  split
  · exact hw
  have hk : ∀ (l : List ObjPtr) (c : Cache μ), (l.foldl Cache.kill c).warm = c.warm := by
    intro l
    induction l with
    | nil => exact fun _ => rfl
    | cons p l ih => exact fun c => (ih _).trans (kill_warm c p)
  unfold nkvxCacheInvalidateLocked
  rw [hk]
  exact ((hc.destroyMatching fun w => w.objKey == objKey).2 w).mpr ⟨hw, by simpa using hn⟩

lemma Cache.Has.invalidate (h : c.Has k) (hc : c.Counted holds fault) (hn : objKey ≠ k) :
    (cacheInvalidate c objKey).Has k := by
  obtain ⟨o, ho, rfl⟩ := h
  obtain ⟨hi, hl⟩ := mem_filter.mp ho
  obtain ⟨o', ho', ha, hl'⟩ := live_invalidate hc hi (by simpa using hl) hn.symm
  exact ⟨o', mem_filter.mpr ⟨ho', by simpa using hl'⟩, ha.objKey⟩

end RadosNkv
