import RadosNkv.Wasm.CapEnforcement

/-! What leaves the live entries and their order alone. -/

namespace RadosNkv

open List Tailq ObjEntry

variable {μ : Type} {c c' c'' : Cache μ}

def ObjEntry.face (o : ObjEntry) : ObjPtr × Bytes × Bool := (o.ptr, o.objKey, o.filled)

def Cache.SameLive (c c' : Cache μ) : Prop := c'.live.map ObjEntry.face = c.live.map ObjEntry.face

lemma live_faces (c : Cache μ) : c.live.map face =
      ((c.objects.map fun o => (o.face, o.dead)).filter fun x => !x.2).map Prod.fst := by
  rw [filter_map, map_map]
  rfl

namespace Cache.SameLive

lemma refl (c : Cache μ) : c.SameLive c := rfl

lemma trans (h : c.SameLive c') (h' : c'.SameLive c'') : c.SameLive c'' := Eq.trans h' h

lemma ptrs (h : c.SameLive c') : c'.live.map ptr = c.live.map ptr := by
  have hm := congrArg (List.map Prod.fst) h
  rw [map_map, map_map] at hm
  exact hm

lemma updateObj (c : Cache μ) (p : ObjPtr)
    (hf : ∀ o : ObjEntry, (f o).face = o.face ∧ (f o).dead = o.dead) :
    c.SameLive (c.updateObj p f) := by
  have hm : (c.updateObj p f).objects.map (fun o => (o.face, o.dead)) =
      c.objects.map fun o => (o.face, o.dead) :=
    map_modify fun o => by rw [(hf o).1, (hf o).2]
  unfold Cache.SameLive
  rw [live_faces, live_faces, hm]

lemma listRemove (hd : ∀ o ∈ c.objects, o.ptr = p → o.dead = true) (hp : o.ptr = p) :
    c.SameLive (nkvxObjListRemove c o) := by
  unfold nkvxObjListRemove
  split
  · exact refl c
  subst hp
  have hl : (remove ptr o.ptr c.objects).filter (fun o => !o.dead) =
      c.objects.filter fun o => !o.dead := by
    rw [remove, filter_filter]
    refine filter_congr fun a ha => ?_
    by_cases hp : a.ptr = o.ptr
    · simp [hd a ha hp]
    · simp [hp]
  exact congrArg (List.map face) hl

section

variable (hn : (c.objects.map ptr).Nodup)
include hn

lemma unref (p : ObjPtr) : c.SameLive (nkvxObjUnref c p) := by
  unfold nkvxObjUnref
  split
  · exact refl c
  next o hob =>
  obtain ⟨ho, hp⟩ := find_some hob
  split
  · exact refl c
  have hc : c.SameLive (c.updateObj p fun o => { o with refcount := o.refcount - 1 }) :=
    updateObj c p fun _ => ⟨rfl, rfl⟩
  split
  · next hl =>
    -- the address belongs to the dead entry alone
    refine hc.trans (listRemove (fun a ha hap => ?_) hp)
    obtain ⟨b, hb, ⟨hbp, rfl⟩ | ⟨he, rfl⟩⟩ := mem_modify ha
    · rw [inj_on_of_nodup_map hn hb ho (hbp.trans hp.symm)]
      exact hl.2
    · exact absurd hap he
  · exact hc

lemma warmDestroy (w : WarmEntry μ) : c.SameLive (nkvxWarmDestroy c w) := by
  unfold nkvxWarmDestroy
  split
  · exact refl c
  · exact unref (c := { c with warm := remove WarmEntry.ptr w.ptr c.warm, warmCount := c.warmCount - 1 }) hn w.obj

lemma enforceWarmCaps (cfg : WasmConfig) (l : List (WarmEntry μ)) : c.SameLive (enforceWarmCaps cfg l c) := by
  induction l generalizing c with
  | nil => exact refl c
  | cons w l ih =>
    unfold RadosNkv.enforceWarmCaps
    split
    · exact (warmDestroy hn w).trans (ih ((Cache.Sheds.warmDestroy c w).nodup hn))
    · exact refl c

lemma warmCacheEnforceCaps (cfg : WasmConfig) : c.SameLive (nkvxWarmCacheEnforceCaps cfg c) := by
  unfold nkvxWarmCacheEnforceCaps
  split
  · exact refl c
  · exact enforceWarmCaps hn ..

end

lemma linkWarm (c : Cache μ) (name : Bytes) (m : μ) (o : ObjEntry) : c.SameLive (c.linkWarm name m o) :=
  updateObj c o.ptr (f := fun o => { o with refcount := o.refcount + 1 }) fun _ => ⟨rfl, rfl⟩

lemma writeBack (c : Cache μ) (p : ObjPtr) (z : ZcMem) (after : Mem) :
    c.SameLive (c.updateObj p fun o => o.writeBack z after) := by
  refine updateObj c p fun o => ?_
  unfold ObjEntry.writeBack
  split <;> exact ⟨rfl, rfl⟩

lemma pin (c : Cache μ) (objKey : Bytes) : c.SameLive (cachePin c objKey).1 := by
  fun_cases cachePin
  case case3 o _ _ => exact updateObj c o.ptr fun _ => ⟨rfl, rfl⟩
  all_goals exact refl c

end Cache.SameLive

section Runs

variable {s : WasmState api} (cfg) (env : RunEnv) (name : Bytes) (mod : Option ModSpec)

lemma sameLive_warmObtain (hn : (s.cache.objects.map ptr).Nodup) (o : ObjEntry) :
    s.cache.SameLive (warmObtain cfg env s name mod o).1.cache := by
  obtain ⟨w, _, he⟩ | ⟨_, _, m, he⟩ | ⟨_, _, he, _⟩ := warmObtain_cases cfg env name mod s o
  · rw [he]
    exact .refl s.cache
  · have hp : (s.cache.linkWarm name m o).objects.map ptr = s.cache.objects.map ptr :=
      map_modify fun _ => rfl
    rw [he]
    exact (Cache.SameLive.linkWarm s.cache name m o).trans (.warmCacheEnforceCaps (hp.symm ▸ hn) cfg)
  rw [he]
  exact .refl s.cache

lemma sameLive_runModule (s : WasmState api) (m : api.Module) (o : ObjEntry) (outLen : Nat) :
    s.cache.SameLive (runModule cfg env s name mod m o outLen).1.cache := by
  fun_cases runModule
  case case3 z _ _ _ r => exact .writeBack s.cache o.ptr z r.2
  all_goals exact .refl s.cache

lemma sameLive_runOnObject (hn : (s.cache.objects.map ptr).Nodup) (p : ObjPtr) (outLen : Nat) :
    s.cache.SameLive (nkvxRunOnObjectLocked cfg env s name mod p outLen).1.cache := by
  unfold nkvxRunOnObjectLocked
  cases ho : s.cache.obj p with
  | none => exact .refl s.cache
  | some o =>
    have hw := sameLive_warmObtain cfg env name mod hn o
    dsimp only
    generalize warmObtain cfg env s name mod o = r at hw
    obtain ⟨s', _ | m⟩ := r
    · exact hw
    · exact hw.trans (sameLive_runModule cfg env name mod s' m o outLen)

end Runs

structure Cache.Stays (c c' : Cache μ) : Prop where
  live : c.SameLive c'
  moves : c.Moves (fun _ _ _ => False) c'

namespace Cache.Stays

lemma refl (c : Cache μ) : c.Stays c := ⟨.refl c, .refl⟩

lemma trans (h : c.Stays c') (h' : c'.Stays c'') : c.Stays c'' := ⟨h.live.trans h'.live, h.moves.trans h'.moves⟩

lemma pin (c : Cache μ) (objKey : Bytes) : c.Stays (cachePin c objKey).1 := ⟨.pin c objKey, (Cache.Sheds.pin c objKey).moves⟩

lemma unref (hn : (c.objects.map ptr).Nodup) (p : ObjPtr) : c.Stays (nkvxObjUnref c p) :=
  ⟨.unref hn p, (Cache.Sheds.unref c p).moves⟩

lemma runOnObject {s : WasmState api} (cfg : WasmConfig) (env : RunEnv) (name : Bytes)
    (mod : Option ModSpec) (hn : (s.cache.objects.map ptr).Nodup) (p : ObjPtr) (outLen : Nat) :
    s.cache.Stays (nkvxRunOnObjectLocked cfg env s name mod p outLen).1.cache :=
  ⟨sameLive_runOnObject cfg env name mod hn p outLen, moves_runOnObject cfg env name mod s p outLen⟩

end Cache.Stays

end RadosNkv
