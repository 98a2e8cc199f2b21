import RadosNkv.Wasm.CapEnforcement

/-! Dead entries and their references. -/

namespace RadosNkv

open List Machine Tailq Callers ObjEntry

variable {μ : Type} {cfg : WasmConfig} {c c' : Cache μ} {holds : List ObjPtr} {fault : Bool} {p q : ObjPtr}

structure Cache.Bound (c : Cache μ) : Prop where
  fits : ∀ o ∈ c.objects, o.objKey.length < 256
  warm : ∀ w ∈ c.warm, ∃ o ∈ c.objects, o.ptr = w.obj ∧ o.dead = false ∧ o.objKey = w.objKey

lemma Cache.LiveAt.kill (h : c.LiveAt q) (hn : q ≠ p) : (c.kill p).LiveAt q := by
  obtain ⟨o, ho, hp, hl⟩ := h
  have hi : o ∈ remove ptr p (c.kill p).objects := by
    rw [kill_elsewhere]
    exact mem_remove.mpr ⟨ho, hp ▸ hn⟩
  exact ⟨o, (mem_remove.mp hi).1, hp, hl⟩

variable {l : List ObjPtr}

lemma Cache.LiveAt.foldl_kill (h : c.LiveAt q) (hq : q ∉ l) : (l.foldl Cache.kill c).LiveAt q := by
  induction l generalizing c with
  | nil => exact h
  | cons p l ih => exact ih (h.kill (ne_of_not_mem_cons hq)) (not_mem_of_not_mem_cons hq)

lemma Cache.LiveAt.evict (hn : (c.objects.map ptr).Nodup) (h : c.LiveAt q) (he : q ≠ p) :
    (nkvxObjEvictLocked c p).LiveAt q :=
  (liveAt_foldl_warmDestroy hn h _).kill he

lemma Cache.LiveAt.updateObj (h : c.LiveAt q)
    (hf : ∀ o : ObjEntry, (f o).ptr = o.ptr ∧ (f o).dead = o.dead) : (c.updateObj p f).LiveAt q := by
  obtain ⟨o, ho, rfl, hl⟩ := h
  by_cases hp : o.ptr = p
  · exact ⟨f o, map_mem_modify ho hp, (hf o).1, (hf o).2.trans hl⟩
  · exact ⟨o, mem_map.mpr ⟨o, ho, if_neg hp⟩, rfl, hl⟩

lemma liveAt_enforceWarmCaps (hn : (c.objects.map ptr).Nodup) (h : c.LiveAt q)
    (l : List (WarmEntry μ)) : (enforceWarmCaps cfg l c).LiveAt q := by
  induction l generalizing c with
  | nil => exact h
  | cons w l ih =>
    unfold enforceWarmCaps
    split
    · exact ih ((Cache.Sheds.warmDestroy c w).nodup hn) (liveAt_warmDestroy hn h w)
    · exact h

/-! ### Every operation but one keeps the warm entries on live entries -/

namespace Cache.Bound

section

variable (h : c.Bound)
include h

lemma sheds (hn : (c.objects.map ptr).Nodup) (hc : c.Sheds c')
    (hl : ∀ w ∈ c'.warm, c.LiveAt w.obj → c'.LiveAt w.obj) : c'.Bound where
  fits := by
    intro o' ho'
    obtain ⟨o, ho, ha⟩ := hc.objects o' ho'
    rw [ha.objKey]
    exact h.fits o ho
  warm := by
    intro w hw
    obtain ⟨o, ho, hp, hd, hk⟩ := h.warm w (hc.warm w hw)
    obtain ⟨o', ho', hp', hd'⟩ := hl w hw ⟨o, ho, hp, hd⟩
    obtain ⟨o0, ho0, ha⟩ := hc.objects o' ho'
    have hs : o0 = o := inj_on_of_nodup_map hn ho0 ho (ha.ptr.symm.trans (hp'.trans hp.symm))
    exact ⟨o', ho', hp', hd', ha.objKey.trans (hs ▸ hk)⟩

lemma unref (hn : (c.objects.map ptr).Nodup) (p : ObjPtr) : (nkvxObjUnref c p).Bound :=
  h.sheds hn (.unref c p) fun _ _ hl => liveAt_unref hn hl p

lemma evict (hc : c.Counted holds fault) (hp : c.LiveAt p) : (nkvxObjEvictLocked c p).Bound :=
  h.sheds hc.objs.nodup (.evict c p) fun w hw hl => hl.evict hc.objs.nodup ((hc.evict hp).2 w hw)

lemma enforces (hc : c.Counted holds fault) (hp : Enforces cfg c victims c') : c'.Bound := by
  have hh : ∀ {c : Cache μ} {victim rest}, c.live = victim :: rest → c.LiveAt victim.ptr := by
    intro c victim rest hl
    obtain ⟨hi, hd⟩ := mem_filter.mp (show victim ∈ c.live by simp [hl])
    exact ⟨victim, hi, rfl, by simpa using hd⟩
  induction hp with
  | within => exact h
  | empty => exact h
  | last _ hl => exact h.evict hc (hh hl)
  | round _ hl _ _ ih => exact ih (h.evict hc (hh hl)) (hc.evict_head hl)

lemma listAdd (objKey : Bytes) (objectLen : Nat) (got : Bytes) :
    (nkvxObjListAdd { c with nextPtr := c.nextPtr + 1 } (coldEntry c.nextPtr objKey objectLen got)).Bound where
  fits := by
    intro o ho
    rcases mem_append.mp ho with hold | hn
    · exact h.fits o hold
    obtain rfl := mem_singleton.mp hn
    show (objKey.take 255).length < 256
    rw [length_take]
    omega
  warm := by
    intro w hw
    obtain ⟨o, ho, hr⟩ := h.warm w hw
    exact ⟨o, mem_append_left _ ho, hr⟩

end

lemma coldFill {ε : Type} (cfg : WasmConfig) (h : c.Bound) (hc : c.Counted holds fault) (alloc : Bool) (objKey : Bytes)
    (objectLen : Nat) (fill : Nat → Except ε Bytes) :
    (RadosNkv.coldFill cfg alloc c objKey objectLen fill).1.Bound := by
  rcases he : RadosNkv.coldFill cfg alloc c objKey objectLen fill with ⟨c', status | p⟩
  · obtain ⟨status', hs⟩ | ⟨got, c1, _, _, ho⟩ := coldFill_cases cfg alloc c objKey objectLen fill
    · obtain ⟨rfl, -⟩ := Prod.mk.inj (he.symm.trans hs)
      exact h
    · cases he.symm.trans ho
  obtain ⟨-, got, victims, -, hl⟩ := coldFill_enforces cfg hc he
  exact (h.listAdd objKey objectLen got).enforces (hc.listAdd objKey objectLen got) hl

lemma objTouch (h : c.Bound) (p : ObjPtr) : (nkvxObjTouch c p).Bound where
  fits := fun o ho => h.fits o (mem_touch.mp ho)
  warm := by
    intro w hw
    obtain ⟨o, ho, hr⟩ := h.warm w hw
    exact ⟨o, mem_touch.mpr ho, hr⟩

lemma cacheFill {ε : Type} (cfg : WasmConfig) (h : c.Bound) (hc : c.Counted holds fault) (alloc : Bool) (objKey : Bytes)
    (objectLen : Nat) (fill : Nat → Except ε Bytes) :
    (RadosNkv.cacheFill cfg alloc c objKey objectLen fill).1.Bound := by
  have hl := h.coldFill cfg hc alloc objKey objectLen fill
  fun_cases RadosNkv.cacheFill
  case case3 o _ => exact h.objTouch o.ptr
  case case4 he =>
    rw [he] at hl
    exact hl
  case case5 he =>
    rw [he] at hl
    exact hl
  all_goals exact h

section

variable (h : c.Bound)
include h

lemma updateObj (p : ObjPtr) (hf : ∀ o : ObjEntry, (f o).ptr = o.ptr ∧ (f o).dead = o.dead ∧ (f o).objKey = o.objKey) :
    (c.updateObj p f).Bound where
  fits := by
    intro o' ho'
    obtain ⟨o, ho, ⟨_, rfl⟩ | ⟨_, rfl⟩⟩ := mem_modify ho'
    · rw [(hf o).2.2]
      exact h.fits o ho
    · exact h.fits o' ho
  warm := by
    intro w hw
    obtain ⟨o, ho, hop, hd, hk⟩ := h.warm w hw
    by_cases hp : o.ptr = p
    · exact ⟨f o, map_mem_modify ho hp, (hf o).1.trans hop, (hf o).2.1.trans hd, (hf o).2.2.trans hk⟩
    · exact ⟨o, mem_map.mpr ⟨o, ho, if_neg hp⟩, hop, hd, hk⟩

lemma pin (objKey : Bytes) : (cachePin c objKey).1.Bound := by
  fun_cases cachePin
  case case3 o _ _ => exact h.updateObj o.ptr fun _ => ⟨rfl, rfl, rfl⟩
  all_goals exact h

lemma invalidate (hc : c.Counted holds fault) (objKey : Bytes) : (cacheInvalidate c objKey).Bound := by
  unfold cacheInvalidate
  split
  · exact h
  obtain ⟨hn, hg⟩ := hc.destroyMatching fun w => w.objKey == objKey
  unfold nkvxCacheInvalidateLocked
  generalize hc1 : (c.warm.filter fun w => w.objKey == objKey).foldl nkvxWarmDestroy c = c1 at hn hg
  have hb : c1.Bound := by
    rw [← hc1]
    exact h.sheds hc.objs.nodup (.foldl .warmDestroy _ c) fun _ _ hl =>
      liveAt_foldl_warmDestroy hc.objs.nodup hl _
  refine hb.sheds hn.objs.nodup (.foldl .kill _ c1) fun w hw hl => hl.foldl_kill ?_
  -- the warm entries left are of other keys, and so are the entries they are on
  have hw1 : w ∈ c1.warm := (Cache.Sheds.foldl Cache.Sheds.kill _ c1).warm w hw
  obtain ⟨o, ho, hp, _, hk⟩ := hb.warm w hw1
  rintro hm
  obtain ⟨o', ho', hp'⟩ := mem_map.mp hm
  obtain ⟨hi', hk'⟩ := mem_filter.mp ho'
  have hs : o' = o := inj_on_of_nodup_map hn.objs.nodup hi' ho (hp'.trans hp.symm)
  have he : w.objKey ≠ objKey := by simpa using ((hg w).mp hw1).2
  rw [hs] at hk'
  exact he (hk ▸ by simpa using (Bool.and_eq_true_iff.mp hk').2)

lemma linkWarm (ho : o ∈ c.objects) (hl : o.dead = false) (name : Bytes) (m : μ) :
    (c.linkWarm name m o).Bound := by
  have hp := h.updateObj o.ptr (f := fun o => { o with refcount := o.refcount + 1 }) fun _ => ⟨rfl, rfl, rfl⟩
  refine ⟨hp.fits, fun w hw => ?_⟩
  rcases mem_append.mp hw with hold | hn
  · exact hp.warm w hold
  obtain rfl := mem_singleton.mp hn
  refine ⟨_, map_mem_modify ho rfl, rfl, hl, ?_⟩
  have hf := h.fits o ho
  show o.objKey = o.objKey.take 255
  rw [take_of_length_le (by omega)]

lemma warmCacheEnforceCaps (hn : (c.objects.map ptr).Nodup) : (nkvxWarmCacheEnforceCaps cfg c).Bound := by
  have hs := Cache.Sheds.warmCacheEnforceCaps cfg c
  unfold nkvxWarmCacheEnforceCaps at hs ⊢
  split
  · exact h
  next hc =>
  rw [if_neg hc] at hs
  exact h.sheds hn hs fun _ _ hl => liveAt_enforceWarmCaps hn hl _

end

end Cache.Bound

section Runs

variable {api : WasmApi} {env : RunEnv} (name : Bytes) {mod : Option ModSpec} {s : WasmState api} {o : ObjEntry}

lemma bound_warmObtain (h : s.cache.Bound) (hn : (s.cache.objects.map ptr).Nodup)
    (ho : o ∈ s.cache.objects) (hl : o.dead = false ∨ ¬ env.Builds cfg s mod) :
    (warmObtain cfg env s name mod o).1.cache.Bound := by
  obtain ⟨w, _, he⟩ | ⟨_, hb, m, he⟩ | ⟨_, _, he, _⟩ := warmObtain_cases cfg env name mod s o
  · rw [he]
    exact ⟨h.fits, fun w' hw' => h.warm w' (mem_touch.mp hw')⟩
  · rw [he]
    have hl : o.dead = false := hl.resolve_right (not_not.mpr hb)
    refine (h.linkWarm ho hl name m).warmCacheEnforceCaps ?_
    exact (map_modify fun _ => rfl : (s.cache.linkWarm name m o).objects.map ptr = _) ▸ hn
  rw [he]
  exact h

lemma bound_runModule (h : s.cache.Bound) (m : api.Module) (o : ObjEntry) (outLen : Nat) :
    (runModule cfg env s name mod m o outLen).1.cache.Bound := by
  fun_cases runModule
  case case3 z _ _ _ r =>
    refine h.updateObj o.ptr fun o => ?_
    unfold writeBack
    split <;> exact ⟨rfl, rfl, rfl⟩
  all_goals exact h

lemma bound_runOnObject (h : s.cache.Bound) (hn : (s.cache.objects.map ptr).Nodup)
    (ho : s.cache.obj p = some o) (hl : o.dead = false ∨ ¬ env.Builds cfg s mod) (outLen : Nat) :
    (nkvxRunOnObjectLocked cfg env s name mod p outLen).1.cache.Bound := by
  have hw := bound_warmObtain name h hn (find_some ho).1 hl
  unfold nkvxRunOnObjectLocked
  rw [ho]
  dsimp only
  generalize warmObtain cfg env s name mod o = r at hw
  obtain ⟨s', _ | m⟩ := r
  · exact hw
  · exact bound_runModule name hw ..

lemma coldFill_live {ε : Type} (h : c.Counted holds fault) {alloc : Bool} {objKey : Bytes} {objectLen : Nat}
    {fill : Nat → Except ε Bytes} (he : coldFill cfg alloc c objKey objectLen fill = (c', .ok p))
    (hb : c'.obj p = some o) : o.dead = false := by
  obtain ⟨rfl, got, victims, -, hl⟩ := coldFill_enforces cfg h he
  obtain ⟨ho, hop⟩ := find_some hb
  have hc' := hl.counted (h.listAdd objKey objectLen got)
  have hf : c.nextPtr ∉ holds ++ c.warm.map WarmEntry.obj := by
    intro hm
    obtain ⟨o', ho', hop'⟩ := h.objs.held _ hm
    exact absurd hop' (Nat.ne_of_lt (h.objs.fresh o' ho'))
  by_contra hd
  have hp := hc'.objs.dead o ho (by simpa using hd)
  rw [hc'.objs.refcount o ho, hop] at hp
  rcases mem_append.mp (count_pos_iff.mp hp) with hh | hr
  · exact hf (mem_append_left _ hh)
  obtain ⟨w, hw, hwb⟩ := mem_map.mp hr
  have hw' : w ∈ c.warm := (hl.warm (h.listAdd objKey objectLen got) hw).1
  exact hf (mem_append_right _ (hwb ▸ mem_map_of_mem hw'))

lemma bound_runCached {ε : Type} (h : s.cache.Bound) (hc : s.cache.Counted holds fault) (objKey : Bytes)
    (objectLen : Nat) (fill : Nat → Except ε Bytes) (outLen : Nat) :
    (runCached cfg env s name mod objKey objectLen fill outLen).1.cache.Bound := by
  have hl := h.coldFill cfg hc env.objAlloc objKey objectLen fill
  have hn := hc.coldFill cfg env.objAlloc objKey objectLen fill
  fun_cases runCached
  case case3 o hh =>
    obtain ⟨ho, hv, -⟩ := objLookup_some (Option.filter_eq_some_iff.mp hh).1
    have ht := hc.objTouch o.ptr
    have hb := find_of_mem ht.objs.nodup (mem_touch.mpr ho)
    exact bound_runOnObject (s := { s with cache := _ }) name (h.objTouch o.ptr) ht.objs.nodup hb
      (.inl hv) outLen
  case case4 he =>
    rw [he] at hl
    exact hl
  case case5 c p he =>
    rw [he] at hl hn
    cases hb : c.obj p with
    | none =>
      unfold nkvxRunOnObjectLocked
      rw [show ({ s with cache := c } : WasmState api).cache.obj p = none from hb]
      exact ⟨hl.fits, hl.warm⟩
    | some o =>
      exact bound_runOnObject (s := { s with cache := c }) name hl hn.objs.nodup hb
        (.inl (coldFill_live hc he hb)) outLen
  all_goals exact h

end Runs

variable {api : WasmApi}

/-- The call builds a warm entry on a pinned entry that is dead. -/
def Callers.LinksDead (cfg : WasmConfig) (s : Callers api) : CacheCall → Prop
  | .runPinned _ mod pin _ env =>
    s.wasm.cache.fault = false ∧ cfg.available ∧ pin ∈ s.pins ∧
      (∃ o ∈ s.wasm.cache.objects, o.ptr = pin ∧ o.dead) ∧ env.Builds cfg s.wasm mod
  | _ => False

variable {s : Callers api} {o : ObjEntry}

lemma bound_call (h : s.wasm.cache.Bound) (hc : s.Counted fault) (hk : s.wasm.cache.fault = false)
    (he : ¬ s.LinksDead cfg ev) : (s.call cfg ev).wasm.cache.Bound := by
  cases ev with
  | fill => exact h.cacheFill cfg hc ..
  | runCached name mod objKey objectLen read outLen env =>
    exact bound_runCached name h hc ..
  | runPinned name mod pin outLen env =>
    unfold Callers.call
    dsimp only
    split
    · next hp =>
      obtain ⟨o, ho, hop, hob⟩ := hc.objs.obj_of_ref (mem_append_left _ hp)
      unfold runPinned
      split
      · exact h
      next ha =>
      refine bound_runOnObject name h hc.objs.nodup hob ?_ outLen
      by_contra hb
      rw [not_or, not_not] at hb
      exact he ⟨hk, by simpa using ha, hp, ⟨o, ho, hop, by simpa using hb.1⟩, hb.2⟩
    · exact h
  | pin objKey => exact h.pin objKey
  | unpin pin =>
    unfold Callers.call
    dsimp only
    split
    · exact h.unref hc.objs.nodup pin
    · exact h
  | invalidate objKey => exact h.invalidate hc objKey

lemma bound_after (cfg : WasmConfig) (evs : List CacheCall)
    (hr : Machine.Along (step cfg) (fun s ev => ¬ s.LinksDead cfg ev) (.init api) evs) :
    (after api cfg evs).wasm.cache.Bound := by
  have hint : (init api).Counted (init api).wasm.cache.fault ∧
      (init api).wasm.cache.Bound :=
    ⟨Cache.Counted.init, fun _ ho => absurd ho not_mem_nil, fun _ hw => absurd hw not_mem_nil⟩
  have hb := run_induct_along
    (P := fun s : Callers api => s.Counted s.wasm.cache.fault ∧ s.wasm.cache.Bound) (step cfg)
    hint (fun s ev h he => ?_) hr
  · exact hb.2
  refine ⟨(counted_step cfg h.1 ev).1, ?_⟩
  unfold step
  split
  · exact h.2
  · next hk => exact bound_call h.2 h.1 (by simpa using hk) he

lemma dead_pinned (h : s.wasm.cache.Bound) (hc : s.Counted fault) (ho : o ∈ s.wasm.cache.objects) (hd : o.dead) :
    o.ptr ∈ s.pins := by
  have hp := hc.objs.dead o ho hd
  rw [hc.objs.refcount o ho] at hp
  rcases mem_append.mp (count_pos_iff.mp hp) with hh | hr
  · exact hh
  obtain ⟨w, hw, hb⟩ := mem_map.mp hr
  obtain ⟨o', ho', hop', hl, -⟩ := h.warm w hw
  have hs : o' = o := inj_on_of_nodup_map hc.objs.nodup ho' ho (hop'.trans hb)
  simp [hs, hd] at hl

lemma mem_enforceWarmCaps_tail {l : List (WarmEntry μ)} (h : c.Counted holds fault)
    (hr : c.warm = l ++ [w]) (hc : cfg.warmMaxCount ≠ 0) :
    w ∈ (enforceWarmCaps cfg (l ++ [w]) c).warm := by
  have hm : w ∈ c.warm := by simp [hr]
  induction l generalizing c with
  | nil =>
    have hcn : c.warmCount = 1 := by rw [h.warmCount, hr]; rfl
    rw [nil_append, enforceWarmCaps, if_neg (by omega)]
    exact hm
  | cons a l ih =>
    rw [cons_append, enforceWarmCaps]
    split
    · obtain ⟨hc', hr'⟩ := h.warmDestroy (show a ∈ c.warm by simp [hr])
      have hs : (nkvxWarmDestroy c a).warm = l ++ [w] := by
        have hn := h.warmNodup
        rw [hr, cons_append, map_cons, nodup_cons] at hn
        rw [hr', hr, cons_append, remove, filter_cons_of_neg (by simp), filter_eq_self]
        intro w' hw'
        have hne : w'.ptr ≠ a.ptr := fun he => hn.1 (he ▸ mem_map_of_mem hw')
        simpa using hne
      exact ih hc' hs (by simp [hs])
    · exact hm

lemma warm_runOnObject {s : WasmState api} {env : RunEnv} {mod : Option ModSpec} (h : s.cache.Counted holds fault)
    (hb : s.cache.obj p = some o) (hbl : env.Builds cfg s mod) (name : Bytes) (outLen : Nat) :
    ∃ w ∈ (nkvxRunOnObjectLocked cfg env s name mod p outLen).1.cache.warm, w.obj = p := by
  obtain ⟨ho, hp⟩ := find_some hb
  have hr : ∃ w ∈ (warmObtain cfg env s name mod o).1.cache.warm, w.obj = p := by
    obtain ⟨w, hw, he⟩ | ⟨_, _, m, he⟩ | ⟨_, hn, _⟩ := warmObtain_cases cfg env name mod s o
    · rw [he]
      have hf := find?_some hw
      simp only [Bool.and_eq_true, beq_iff_eq] at hf
      exact ⟨w, mem_touch.mpr (mem_of_find?_eq_some hw), hf.2.trans hp⟩
    · rw [he]
      refine ⟨⟨s.cache.nextPtr, cstrFit 64 name, cstrFit 256 o.objKey, m, o.ptr⟩, ?_, hp⟩
      have hl := h.linkWarm ho name m
      unfold nkvxWarmCacheEnforceCaps
      split
      · exact mem_append_right _ (mem_singleton_self _)
      · next hc => exact mem_enforceWarmCaps_tail hl rfl hc
    · exact absurd hbl hn
  unfold nkvxRunOnObjectLocked
  rw [hb]
  dsimp only
  generalize warmObtain cfg env s name mod o = r at hr
  obtain ⟨s', _ | m⟩ := r
  · exact hr
  dsimp only
  have hs : (runModule cfg env s' name mod m o outLen).1.cache.warm = s'.cache.warm := by
    fun_cases runModule <;> rfl
  rw [hs]
  exact hr

lemma linksDead_step (hc : s.Counted s.wasm.cache.fault) (h : s.LinksDead cfg ev) :
    (s.step cfg ev).wasm.cache.fault = false ∧
      ∃ w ∈ (s.step cfg ev).wasm.cache.warm, ∃ o ∈ (s.step cfg ev).wasm.cache.objects, o.ptr = w.obj ∧ o.dead := by
  cases ev with
  | runPinned name mod pin outLen env =>
    obtain ⟨hk, ha, hp, ⟨o, ho, rfl, hd⟩, hl⟩ := h
    obtain ⟨hn, hf⟩ := counted_step cfg hc (.runPinned name mod o.ptr outLen env)
    refine ⟨hf.mpr ⟨hk, id⟩, ?_⟩
    have hs : (s.step cfg (.runPinned name mod o.ptr outLen env)).wasm =
        (nkvxRunOnObjectLocked cfg env s.wasm name mod o.ptr outLen).1 := by
      simp [step, Callers.call, runPinned, hk, hp, ha]
    rw [Callers.Counted, hs] at hn
    rw [hs]
    obtain ⟨w, hw, hb⟩ := warm_runOnObject hc (find_of_mem hc.objs.nodup ho) hl name outLen
    obtain ⟨o', ho', hop'⟩ := hn.objs.held o.ptr
      (mem_append_right _ (mem_map.mpr ⟨w, hw, hb⟩))
    obtain ⟨o0, ho0, he⟩ := (moves_runOnObject cfg env name mod s.wasm o.ptr outLen).derives o' ho'
    have hm : o0 = o := inj_on_of_nodup_map hc.objs.nodup ho0 ho (he.ptr.symm.trans hop')
    exact ⟨w, hw, o', ho', hop'.trans hb.symm, he.dead (hm ▸ hd)⟩
  | _ => exact h.elim

lemma run_unpins (cfg : WasmConfig) (hp : s.pins = l) (ho : s.wasm.cache.fault = false)
    (hc : s.Counted s.wasm.cache.fault) :
    let s' := Machine.run (step cfg) s (l.map .unpin)
    s'.pins = [] ∧ s'.wasm.cache.warm = s.wasm.cache.warm ∧ s.wasm.cache.Sheds s'.wasm.cache ∧
      s'.Counted s'.wasm.cache.fault := by
  induction l generalizing s with
  | nil => exact ⟨hp, rfl, .refl _, hc⟩
  | cons p l ih =>
    have hs : s.step cfg (.unpin p) = ⟨{ s.wasm with cache := nkvxObjUnref s.wasm.cache p }, l⟩ := by
      simp [step, Callers.call, ho, hp, cacheUnpin]
    obtain ⟨hcn, hf⟩ := counted_step cfg hc (.unpin p)
    have ho' := hf.mpr ⟨ho, id⟩
    rw [map_cons, run_cons]
    obtain ⟨hn, hw, hh, hcn'⟩ := ih (by rw [hs]) ho' hcn
    rw [hs] at hn hw hh hcn' ⊢
    exact ⟨hn, hw.trans (unref_warm _ _).1, (Cache.Sheds.unref _ p).trans hh, hcn'⟩

lemma along_unpins (s : Callers api) (l : List ObjPtr) :
    Machine.Along (step cfg) (fun s ev => ¬ s.LinksDead cfg ev) s (l.map .unpin) := by
  induction l generalizing s with
  | nil => trivial
  | cons p l ih => exact ⟨id, ih _⟩

lemma soleLive_after (cfg : WasmConfig) (hs : ∀ ev ∈ evs, ev.short) :
    (after api cfg evs).wasm.cache.SoleLive := by
  have hint : (init api).Counted (init api).wasm.cache.fault ∧
      (init api).wasm.cache.SoleLive :=
    ⟨Cache.Counted.init, fun _ ho => absurd ho not_mem_nil⟩
  have hb := run_induct_along (G := fun _ ev => ev.short)
    (P := fun s : Callers api => s.Counted s.wasm.cache.fault ∧ s.wasm.cache.SoleLive) (step cfg)
    hint (fun s ev h he => ?_) (along_of_forall _ hs)
  · exact hb.2
  refine ⟨(counted_step cfg h.1 ev).1, ?_⟩
  unfold step
  split
  · exact h.2
  · exact soleLive_call cfg h.2 h.1 he

lemma objLookup_of_live (hs : c.SoleLive) (hc : c.Counted holds fault) (ho : o ∈ c.objects)
    (hl : o.dead = false) : nkvxObjLookup c o.objKey = some o := by
  have hm : (nkvxObjLookup c o.objKey).isSome := by
    rw [nkvxObjLookup, find?_isSome]
    exact ⟨o, ho, by simp [hl]⟩
  obtain ⟨o', hlk⟩ := Option.isSome_iff_exists.mp hm
  obtain ⟨ho', hl', hk⟩ := objLookup_some hlk
  rw [hlk, inj_on_of_nodup_map hc.objs.nodup ho' ho (hs o' ho' o ho hl' hl hk)]

/-- Dead entries go with their pins exactly when no call runs a module through a pin on a dead entry
and builds a warm entry there: then, and only then, at every point of the run, once the callers have
returned the pins that they have at that point, no entry of the list is dead. -/
theorem dead_entries_reclaimed_iff (api : WasmApi) (cfg : WasmConfig) (evs : List CacheCall) :
    (Machine.Along (Callers.step cfg) (fun s ev => ¬ s.LinksDead cfg ev) (.init api) evs ↔
      ∀ evs₁ evs₂, evs = evs₁ ++ evs₂ →
        let s := Callers.after api cfg (evs₁ ++ (Callers.after api cfg evs₁).pins.map .unpin)
        s.pins = [] → ∀ o ∈ s.wasm.cache.objects, o.dead = false) ∧
    (Machine.Along (Callers.step cfg) (fun s ev => ¬ s.LinksDead cfg ev) (.init api) evs →
      (∀ ev ∈ evs, ev.short) → (Callers.after api cfg evs).pins = [] →
        let c := (Callers.after api cfg evs).wasm.cache
        c.objBytes = (c.objects.map ObjEntry.memCap).sum ∧
          ∀ o ∈ c.objects, nkvxObjLookup c o.objKey = some o) := by
  have hn : ∀ {evs : List CacheCall},
      Machine.Along (step cfg) (fun s ev => ¬ s.LinksDead cfg ev) (.init api) evs →
      (after api cfg evs).pins = [] → ∀ o ∈ (after api cfg evs).wasm.cache.objects, o.dead = false := by
    intro evs haln hpins o ho
    by_contra hd
    have hpinned := dead_pinned (bound_after cfg evs haln) (counted_after api cfg evs) ho (by simpa using hd)
    rw [hpins] at hpinned
    cases hpinned
  refine ⟨⟨fun haln evs₁ evs₂ hsplit => ?_, fun hall => ?_⟩, fun haln hshort hpins => ?_⟩
  · subst hsplit
    exact hn ((along_append _).mpr ⟨((along_append _).mp haln).1, along_unpins _ _⟩)
  · by_contra hnot
    obtain ⟨evs₁, ev, evs₂, rfl, hlinks⟩ := exists_of_not_along _ hnot
    have haft : after api cfg (evs₁ ++ [ev]) = (after api cfg evs₁).step cfg ev :=
      after_append api cfg evs₁ [ev]
    obtain ⟨hok, w, hw, o, ho, hop, hd⟩ := linksDead_step (counted_after api cfg evs₁) (not_not.mp hlinks)
    rw [← haft] at hok hw ho
    have hinv := counted_after api cfg (evs₁ ++ [ev])
    obtain ⟨hnil, hwarm, hshed, hinv'⟩ := run_unpins cfg rfl hok hinv
    have hstale := hall (evs₁ ++ [ev]) evs₂ (by simp)
    rw [after_append] at hstale
    -- the entry behind the warm entry is still there, and dead
    obtain ⟨o', ho', hop'⟩ := hinv'.objs.held w.obj
      (mem_append_right _ (hwarm.symm ▸ mem_map_of_mem hw))
    obtain ⟨o₀, ho₀, hage⟩ := hshed.objects o' ho'
    have hsm : o₀ = o := inj_on_of_nodup_map hinv.objs.nodup ho₀ ho
      (hage.ptr.symm.trans (hop'.trans hop.symm))
    have hlv := hstale hnil o' ho'
    simp [hage.dead (hsm ▸ hd)] at hlv
  intro c
  have hinv := counted_after api cfg evs
  exact ⟨hinv.objs.objBytes, fun o ho =>
    objLookup_of_live (soleLive_after cfg hshort) hinv ho (hn haln hpins o ho)⟩

/-- A pinned object is invalidated and read through the pin: when the pin is returned, the list is
empty. -/
theorem dead_entries_reclaimed_unpinned :
    let evs : List CacheCall := [.fill [1] 1 (some [7]) true, .pin [1], .invalidate [1], .unpin 0]
    (Callers.after toyApi .default (evs.take 3)).wasm.cache.objects.map ObjEntry.dead = [true] ∧
      ∀ o ∈ (Callers.after toyApi .default evs).wasm.cache.objects, o.dead = false := by
  intro evs
  have haln : Machine.Along (step .default) (fun s ev => ¬ s.LinksDead .default ev) (.init toyApi) evs :=
    ⟨id, id, id, id, trivial⟩
  exact ⟨rfl, (dead_entries_reclaimed_iff toyApi .default evs).1.mp haln evs [] (by simp) rfl⟩

/-- The same with a run through the pin: the dead entry and its page stay when the pin is returned.
-/
theorem dead_entry_kept_by_warm :
    let evs : List CacheCall := [.fill [1] 1 (some [7]) true, .pin [1], .invalidate [1],
      .runPinned [102] (some ⟨[5], some [5], 0, false⟩) 0 8 .good, .unpin 0]
    let s := Callers.after toyApi .default evs
    s.pins = [] ∧ s.wasm.cache.objects.map ObjEntry.dead = [true] ∧
      s.wasm.cache.objBytes = nkvxWasmPage ∧
      s.wasm.cache.fault = false ∧ nkvxObjLookup s.wasm.cache [1] = none :=
  ⟨rfl, rfl, rfl, rfl, rfl⟩

end RadosNkv
