import Mathlib.Logic.Relation
import RadosNkv.Wasm.Run
import RadosNkv.Wasm.Sheds

/-! What fills and runs can do to the object and warm caches, as a sequence of moves: entries are
shed, filled and linked, and a run writes through to an object's buffer. -/

namespace RadosNkv

open List

variable {μ : Type} {F : Bytes → Nat → Bytes → Prop}

def coldEntry (p : ObjPtr) (objKey : Bytes) (objectLen : Nat) (got : Bytes) : ObjEntry :=
  ⟨p, cstrFit 256 objKey, coldImage got, backing objectLen, backing objectLen, got.length, true, 0, false⟩

/-- One move of the caches. -/
inductive Cache.Move (F : Bytes → Nat → Bytes → Prop) : Cache μ → Cache μ → Prop
  | shed {c c' : Cache μ} (h : c.Sheds c') : Move F c c'
  | fill {objKey : Bytes} {objectLen : Nat} {got : Bytes} (c : Cache μ) (h : F objKey objectLen got) :
      Move F c (nkvxObjListAdd { c with nextPtr := c.nextPtr + 1 }
        (coldEntry c.nextPtr objKey objectLen got))
  | link {o : ObjEntry} (c : Cache μ) (name : Bytes) (m : μ) (h : o ∈ c.objects) :
      Move F c (c.linkWarm name m o)
  | write (c : Cache μ) (p : ObjPtr) (z : ZcMem) (after : Mem) :
      Move F c (c.updateObj p fun o => o.writeBack z after)

abbrev Cache.Moves (F : Bytes → Nat → Bytes → Prop) : Cache μ → Cache μ → Prop :=
  Relation.ReflTransGen (Cache.Move F)

variable {c c' : Cache μ} {ε : Type} {o' : ObjEntry} (cfg : WasmConfig) (o : ObjEntry)

lemma Cache.Sheds.moves (h : c.Sheds c') : c.Moves F c' := .single (.shed h)

/-- The caches move without a new warm entry. -/
structure Cache.Draws (F : Bytes → Nat → Bytes → Prop) (c c' : Cache μ) : Prop where
  moves : c.Moves F c'
  warm : ∀ w ∈ c'.warm, w ∈ c.warm

lemma Cache.Sheds.draws (h : c.Sheds c') : c.Draws F c' := ⟨h.moves, h.warm⟩

lemma Cache.Draws.refl (c : Cache μ) : c.Draws F c := (Cache.Sheds.refl c).draws

lemma Cache.Draws.trans {c'' : Cache μ} (h : c.Draws F c') (h' : c'.Draws F c'') : c.Draws F c'' :=
  ⟨h.moves.trans h'.moves, fun w hw => h.warm w (h'.warm w hw)⟩

lemma Cache.Moves.induct {P : Cache μ → Prop} (h : c.Moves F c') (hP : P c)
    (hs : ∀ c c', P c → Cache.Move F c c' → P c') : P c' := by
  induction h with
  | refl => exact hP
  | tail _ hm ih => exact hs _ _ ih hm

lemma coldFill_cases (alloc : Bool) (c : Cache μ) (objKey : Bytes) (objectLen : Nat) (fill : Nat → Except ε Bytes) :
    (∃ status, coldFill cfg alloc c objKey objectLen fill = (c, .error status)) ∨
      ∃ got c', fill (backing objectLen - wasmObjOff) = .ok got ∧ (nkvxObjListAdd { c with nextPtr := c.nextPtr + 1 }
          (coldEntry c.nextPtr objKey objectLen got)).Sheds c' ∧
        coldFill cfg alloc c objKey objectLen fill = (c', .ok c.nextPtr) := by
  fun_cases coldFill
  case case1 => exact .inl ⟨_, rfl⟩
  case case2 => exact .inl ⟨_, rfl⟩
  case case3 got hg o c1 =>
    exact .inr ⟨got, _, hg, Cache.Sheds.enforceObjCaps cfg _ c1, rfl⟩

structure Cache.Addressed (c : Cache μ) : Prop where
  nodup : (c.objects.map ObjEntry.ptr).Nodup
  objects : ∀ o ∈ c.objects, o.ptr < c.nextPtr
  warm : ∀ w ∈ c.warm, w.obj < c.nextPtr

lemma Cache.Addressed.sheds (h : c.Addressed) (hc : c.Sheds c') : c'.Addressed where
  nodup := hc.nodup h.nodup
  objects := by
    intro o' ho'
    obtain ⟨o, ho, ha⟩ := hc.objects o' ho'
    rw [ha.ptr, hc.nextPtr]
    exact h.objects o ho
  warm := by
    intro w hw
    rw [hc.nextPtr]
    exact h.warm w (hc.warm w hw)

lemma Cache.Addressed.updateObj (h : c.Addressed) (p : ObjPtr)
    (hf : ∀ o : ObjEntry, (f o).ptr = o.ptr) : (c.updateObj p f).Addressed where
  nodup := by
    have hm : (c.updateObj p f).objects.map ObjEntry.ptr = c.objects.map ObjEntry.ptr :=
      Tailq.map_modify hf
    exact hm ▸ h.nodup
  objects := by
    intro o' ho'
    obtain ⟨o, ho, ⟨_, rfl⟩ | ⟨_, rfl⟩⟩ := Tailq.mem_modify ho'
    · rw [hf o]
      exact h.objects o ho
    · exact h.objects o' ho
  warm := h.warm

lemma ObjEntry.writeBack_ptr (z : ZcMem) (after : Mem) : (o.writeBack z after).ptr = o.ptr := by
  unfold ObjEntry.writeBack
  split <;> rfl

lemma Cache.Addressed.move (h : c.Addressed) (hv : Cache.Move F c c') : c'.Addressed := by
  cases hv with
  | shed hs => exact h.sheds hs
  | fill _ _ =>
    refine ⟨?_, fun o' ho' => ?_, fun w hw => Nat.lt_succ_of_lt (h.warm w hw)⟩
    · -- the new address is above every address in use
      have hf : c.nextPtr ∉ c.objects.map ObjEntry.ptr := by
        intro hm
        obtain ⟨o, ho, hp⟩ := mem_map.mp hm
        exact absurd hp (ne_of_lt (h.objects o ho))
      simpa [nkvxObjListAdd, coldEntry, nodup_append] using ⟨h.nodup, fun o ho hp =>
        hf (mem_map.mpr ⟨o, ho, hp⟩)⟩
    · rcases mem_append.mp ho' with hold | hn
      · exact Nat.lt_succ_of_lt (h.objects o' hold)
      · obtain rfl := mem_singleton.mp hn
        exact Nat.lt_succ_self _
  | @link o _ name m ho =>
    have hi : (c.updateObj o.ptr fun o => { o with refcount := o.refcount + 1 }).Addressed :=
      h.updateObj o.ptr fun _ => rfl
    refine ⟨hi.nodup, fun o' ho' => Nat.lt_succ_of_lt (hi.objects o' ho'), fun w hw => ?_⟩
    rcases mem_append.mp hw with hold | hn
    · exact Nat.lt_succ_of_lt (h.warm w hold)
    · obtain rfl := mem_singleton.mp hn
      exact Nat.lt_succ_of_lt (h.objects o ho)
  | write _ p z after => exact h.updateObj p fun o => o.writeBack_ptr z after

lemma Cache.Addressed.moves (h : c.Addressed) (hm : c.Moves F c') : c'.Addressed :=
  hm.induct h fun _ _ => Cache.Addressed.move

lemma warmLookup_coldFill {cfg : WasmConfig} (h : c.Addressed)
    (he : coldFill cfg alloc c objKey objectLen fill = (c', .ok p)) (name : Bytes) :
    nkvxWarmLookup c' name p = none := by
  obtain ⟨status, hc⟩ | ⟨got, c1, _, hs, hc⟩ :=
    coldFill_cases cfg alloc c objKey objectLen fill
  · cases he.symm.trans hc
  cases he.symm.trans hc
  rw [nkvxWarmLookup, find?_eq_none]
  intro w hw
  have hn : w.obj ≠ c.nextPtr := ne_of_lt (h.warm w (hs.warm w hw))
  simp [hn]

section Fill

variable {ε : Type} (cfg : WasmConfig) {objKey : Bytes} {objectLen : Nat} {fill : Nat → Except ε Bytes}

lemma draws_coldFill (hF : ∀ got, fill (backing objectLen - wasmObjOff) = .ok got →
      F objKey objectLen got) (alloc : Bool) (c : Cache μ) :
    c.Draws F (coldFill cfg alloc c objKey objectLen fill).1 := by
  obtain ⟨status, he⟩ | ⟨got, c', hg, hs, he⟩ :=
    coldFill_cases cfg alloc c objKey objectLen fill
  · rw [he]
    exact .refl c
  · rw [he]
    exact ⟨.trans (.single (.fill c (hF got hg))) hs.moves, hs.warm⟩

lemma draws_cacheFill (hF : ∀ got, fill (backing objectLen - wasmObjOff) = .ok got →
      F objKey objectLen got) (alloc : Bool) (c : Cache μ) :
    c.Draws F (cacheFill cfg alloc c objKey objectLen fill).1 := by
  have hc := draws_coldFill cfg hF alloc c
  fun_cases cacheFill
  case case3 o _ => exact (Cache.Sheds.objTouch c o.ptr).draws
  case case4 he =>
    rw [he] at hc
    exact hc
  case case5 he =>
    rw [he] at hc
    exact hc
  all_goals exact .refl c

end Fill

section Runs

variable {api : WasmApi} (cfg : WasmConfig) (env : RunEnv) (name : Bytes) (mod : Option ModSpec)
  (s : WasmState api) {o : ObjEntry}

lemma cache_warmModule : (warmModule cfg env s mod).1.cache = s.cache := by
  fun_cases warmModule <;> rfl

def RunEnv.Builds (cfg : WasmConfig) (env : RunEnv) (s : WasmState api) (mod : Option ModSpec) : Prop :=
  env.warmEngine ∧ env.warmAlloc ∧ (warmModule cfg env s mod).2.isSome

lemma warmObtain_cases (o : ObjEntry) : (∃ w, nkvxWarmLookup s.cache name o.ptr = some w ∧
        (warmObtain cfg env s name mod o).1.cache = nkvxWarmTouch s.cache w) ∨
      (nkvxWarmLookup s.cache name o.ptr = none ∧ env.Builds cfg s mod ∧
        ∃ m, (warmObtain cfg env s name mod o).1.cache = nkvxWarmCacheEnforceCaps cfg (s.cache.linkWarm name m o)) ∨
      (nkvxWarmLookup s.cache name o.ptr = none ∧ ¬ env.Builds cfg s mod ∧
        (warmObtain cfg env s name mod o).1.cache = s.cache ∧ (warmObtain cfg env s name mod o).2 = none) := by
  have hm := cache_warmModule cfg env mod s
  unfold RunEnv.Builds
  fun_cases warmObtain
  case case1 w hw => exact .inl ⟨w, hw, rfl⟩
  case case2 hn =>
    refine .inr ?_
    fun_cases nkvxWarmBuild
    case case1 hl =>
      obtain ⟨hnm, hf⟩ := Bool.and_eq_true_iff.mp hl
      rw [Option.isNone_iff_eq_none] at hnm hf
      exact .inr ⟨hn, by simp [hnm, hf, warmModule], rfl, rfl⟩
    case case2 _ he => exact .inr ⟨hn, by simp_all, rfl, rfl⟩
    case case3 hq => exact .inr ⟨hn, by simp [hq], by rw [hq] at hm; exact hm, rfl⟩
    case case4 hq ha => exact .inr ⟨hn, by simp_all, by rw [hq] at hm; exact hm, rfl⟩
    case case5 he s1 m hq ha =>
      rw [hq] at hm
      have hs : s1.cache = s.cache := hm
      refine .inl ⟨hn, by simp_all, m, ?_⟩
      show nkvxWarmCacheEnforceCaps cfg (s1.cache.linkWarm name m o) = _
      rw [hs]

lemma moves_warmObtain (ho : o ∈ s.cache.objects) : s.cache.Moves F (warmObtain cfg env s name mod o).1.cache := by
  obtain ⟨w, _, he⟩ | ⟨_, _, m, he⟩ | ⟨_, _, he, _⟩ := warmObtain_cases cfg env name mod s o
  · rw [he]
    exact (Cache.Sheds.warmTouch s.cache w).moves
  · rw [he]
    exact .trans (.single (.link s.cache name m ho)) (Cache.Sheds.warmCacheEnforceCaps cfg _).moves
  · rw [he]

lemma moves_runModule (m : api.Module) (outLen : Nat) :
    s.cache.Moves F (runModule cfg env s name mod m o outLen).1.cache := by
  fun_cases runModule
  case case3 z _ _ _ r => exact .single (.write s.cache o.ptr z r.2)
  all_goals exact .refl

lemma moves_runOnObject (p : ObjPtr) (outLen : Nat) :
    s.cache.Moves F (nkvxRunOnObjectLocked cfg env s name mod p outLen).1.cache := by
  unfold nkvxRunOnObjectLocked
  cases ho : s.cache.obj p with
  | none => exact (Cache.Sheds.bad s.cache).moves
  | some o =>
    have hw := moves_warmObtain (F := F) cfg env name mod s (Tailq.find_some ho).1
    dsimp only
    generalize warmObtain cfg env s name mod o = r at hw
    obtain ⟨s', _ | m⟩ := r
    · exact hw
    · exact hw.trans (moves_runModule cfg env name mod s' m outLen)

lemma moves_runPinned (p : ObjPtr) (outLen : Nat) :
    s.cache.Moves F (runPinned cfg env s name mod p outLen).1.cache := by
  unfold runPinned
  split
  · exact .refl
  · exact moves_runOnObject ..

lemma moves_runCached {ε : Type} {objKey : Bytes} {objectLen : Nat} {fill : Nat → Except ε Bytes}
    (hF : ∀ got, fill (backing objectLen - wasmObjOff) = .ok got → F objKey objectLen got) (outLen : Nat) :
    s.cache.Moves F (runCached cfg env s name mod objKey objectLen fill outLen).1.cache := by
  have hc := (draws_coldFill cfg hF env.objAlloc s.cache).moves
  fun_cases runCached
  case case3 o _ =>
    have ht : s.cache.Moves F (nkvxObjTouch s.cache o.ptr) := (Cache.Sheds.objTouch ..).moves
    exact ht.trans (moves_runOnObject cfg env name mod { s with cache := _ } _ _)
  case case4 he =>
    rw [he] at hc
    exact hc
  case case5 he =>
    rw [he] at hc
    exact hc.trans (moves_runOnObject cfg env name mod { s with cache := _ } _ _)
  all_goals exact .refl

end Runs

structure ObjEntry.Evolves (o o' : ObjEntry) : Prop where
  ptr : o'.ptr = o.ptr
  objKey : o'.objKey = o.objKey
  memCap : o'.memCap = o.memCap
  memSize : o'.memSize = o.memSize
  objLen : o'.objLen = o.objLen
  filled : o'.filled = o.filled
  dead : o.dead → o'.dead

lemma ObjEntry.Evolves.refl : o.Evolves o := ⟨rfl, rfl, rfl, rfl, rfl, rfl, id⟩

lemma ObjEntry.Evolves.trans {o1 o2 o3 : ObjEntry} (h : o1.Evolves o2) (h' : o2.Evolves o3) : o1.Evolves o3 :=
  ⟨h'.ptr.trans h.ptr, h'.objKey.trans h.objKey, h'.memCap.trans h.memCap, h'.memSize.trans h.memSize,
    h'.objLen.trans h.objLen, h'.filled.trans h.filled, fun hd => h'.dead (h.dead hd)⟩

lemma ObjEntry.Ages.evolves {o : ObjEntry} (h : o.Ages o') : o.Evolves o' :=
  ⟨h.ptr, h.objKey, h.memCap, h.memSize, h.objLen, h.filled, h.dead⟩

lemma ObjEntry.writeBack_evolves (z : ZcMem) (after : Mem) : o.Evolves (o.writeBack z after) := by
  unfold ObjEntry.writeBack
  split
  · exact .refl o
  · exact ⟨rfl, rfl, rfl, rfl, rfl, rfl, id⟩

structure Cache.Follows (E : ObjEntry → ObjEntry → Prop) (c c' : Cache μ) : Prop where
  nextPtr : c.nextPtr ≤ c'.nextPtr
  objects : ∀ o' ∈ c'.objects, o'.ptr < c.nextPtr → ∃ o ∈ c.objects, E o o'

lemma Cache.Follows.trans {E : ObjEntry → ObjEntry → Prop} {c'' : Cache μ}
    (hE : ∀ {o1 o2 o3}, E o1 o2 → E o2 o3 → E o1 o3) (hp : ∀ {o o' : ObjEntry}, E o o' → o'.ptr = o.ptr)
    (h : c.Follows E c') (h' : c'.Follows E c'') : c.Follows E c'' where
  nextPtr := le_trans h.nextPtr h'.nextPtr
  objects := by
    intro o'' ho'' hl
    obtain ⟨o', ho', he'⟩ := h'.objects o'' ho'' (lt_of_lt_of_le hl h.nextPtr)
    obtain ⟨o, ho, he⟩ := h.objects o' ho' (hp he' ▸ hl)
    exact ⟨o, ho, hE he he'⟩

lemma Cache.Sheds.follows (h : c.Sheds c') : c.Follows ObjEntry.Ages c' :=
  ⟨le_of_eq h.nextPtr.symm, fun o' ho' _ => h.objects o' ho'⟩

lemma Cache.follows_listAdd (c : Cache μ) (objKey : Bytes) (objectLen : Nat) (got : Bytes) :
    c.Follows ObjEntry.Ages (nkvxObjListAdd { c with nextPtr := c.nextPtr + 1 }
      (coldEntry c.nextPtr objKey objectLen got)) := by
  refine ⟨Nat.le_succ _, fun o' ho' hl => ?_⟩
  rcases mem_append.mp ho' with hold | hn
  · exact ⟨o', hold, .refl o'⟩
  obtain rfl := mem_singleton.mp hn
  exact absurd hl (lt_irrefl _)

lemma Cache.Follows.evolves (h : c.Follows ObjEntry.Ages c') : c.Follows ObjEntry.Evolves c' := by
  refine ⟨h.nextPtr, fun o' ho' hl => ?_⟩
  obtain ⟨o, ho, ha⟩ := h.objects o' ho' hl
  exact ⟨o, ho, ha.evolves⟩

lemma evolves_updateObj (hf : ∀ o : ObjEntry, o.Evolves (f o))
    (ho' : o' ∈ (c.updateObj p f).objects) : ∃ o ∈ c.objects, o.Evolves o' := by
  obtain ⟨o, ho, ⟨_, rfl⟩ | ⟨_, rfl⟩⟩ := Tailq.mem_modify ho'
  · exact ⟨o, ho, hf o⟩
  · exact ⟨o', ho, .refl o'⟩

lemma evolves_linkWarm {name : Bytes} {o : ObjEntry} (ho' : o' ∈ (c.linkWarm name m o).objects) :
    ∃ o0 ∈ c.objects, o0.Evolves o' :=
  evolves_updateObj (f := fun o => { o with refcount := o.refcount + 1 })
    (fun _ => ⟨rfl, rfl, rfl, rfl, rfl, rfl, id⟩) ho'

lemma Cache.Move.follows (h : Cache.Move F c c') : c.Follows ObjEntry.Evolves c' := by
  cases h with
  | shed hs => exact hs.follows.evolves
  | @fill objKey objectLen got _ _ => exact (c.follows_listAdd objKey objectLen got).evolves
  | link => exact ⟨Nat.le_succ _, fun o' ho' _ => evolves_linkWarm ho'⟩
  | write _ p z after =>
    exact ⟨le_rfl, fun o' ho' _ =>
      evolves_updateObj (fun o => o.writeBack_evolves z after) ho'⟩

lemma Cache.Moves.follows (h : c.Moves F c') : c.Follows ObjEntry.Evolves c' :=
  h.induct (P := fun c' => c.Follows ObjEntry.Evolves c') (Cache.Sheds.refl c).follows.evolves
    fun _ _ hc hm => .trans .trans (fun h => h.ptr) hc hm.follows

lemma Cache.Moves.origin (h : c.Moves F c') :
    c.nextPtr ≤ c'.nextPtr ∧ ∀ o' ∈ c'.objects, (∃ o ∈ c.objects, o.Evolves o') ∨
      ∃ objKey objectLen got, F objKey objectLen got ∧ c.nextPtr ≤ o'.ptr ∧
        (coldEntry o'.ptr objKey objectLen got).Evolves o' := by
  refine h.induct (P := fun c' => c.nextPtr ≤ c'.nextPtr ∧ ∀ o' ∈ c'.objects, (∃ o ∈ c.objects, o.Evolves o') ∨
    ∃ objKey objectLen got, F objKey objectLen got ∧ c.nextPtr ≤ o'.ptr ∧
      (coldEntry o'.ptr objKey objectLen got).Evolves o')
    ⟨le_rfl, fun o ho => .inl ⟨o, ho, .refl o⟩⟩ fun c1 c2 ih hm => ?_
  -- an entry that was there one move ago has come about as it hd then
  have hp : ∀ {o1 o2 : ObjEntry}, o1 ∈ c1.objects → o1.Evolves o2 → (∃ o ∈ c.objects, o.Evolves o2) ∨
      ∃ objKey objectLen got, F objKey objectLen got ∧ c.nextPtr ≤ o2.ptr ∧
        (coldEntry o2.ptr objKey objectLen got).Evolves o2 := by
    intro o1 o2 ho1 he
    obtain ⟨o, ho, hold⟩ | ⟨objKey, objectLen, got, hF, hr, hn⟩ := ih.2 o1 ho1
    · exact .inl ⟨o, ho, hold.trans he⟩
    · refine .inr ⟨objKey, objectLen, got, hF, he.ptr ▸ hr, ?_⟩
      rw [he.ptr]
      exact hn.trans he
  refine ⟨le_trans ih.1 hm.follows.nextPtr, fun o2 ho2 => ?_⟩
  cases hm with
  | shed hs =>
    obtain ⟨o1, ho1, ha⟩ := hs.objects o2 ho2
    exact hp ho1 ha.evolves
  | @fill objKey objectLen got _ hf =>
    rcases mem_append.mp ho2 with hold | hn
    · exact hp hold (.refl o2)
    · obtain rfl := mem_singleton.mp hn
      exact .inr ⟨objKey, objectLen, got, hf, ih.1, .refl _⟩
  | link =>
    obtain ⟨o1, ho1, he⟩ := evolves_linkWarm ho2
    exact hp ho1 he
  | write _ _ z after =>
    obtain ⟨o1, ho1, he⟩ := evolves_updateObj (fun o => o.writeBack_evolves z after) ho2
    exact hp ho1 he

lemma Cache.Moves.derives (h : c.Moves (fun _ _ _ => False) c') : ∀ o' ∈ c'.objects, ∃ o ∈ c.objects, o.Evolves o' := by
  intro o' ho'
  obtain hold | ⟨_, _, _, hf, _⟩ := h.origin.2 o' ho'
  · exact hold
  · exact hf.elim

lemma warm_origin (env : RunEnv) (s : WasmState api) (name : Bytes) (mod : Option ModSpec)
    (p : ObjPtr) (outLen : Nat) :
    ∀ w ∈ (nkvxRunOnObjectLocked cfg env s name mod p outLen).1.cache.warm, w ∈ s.cache.warm ∨
      (w.ptr = s.cache.nextPtr ∧ s.cache.nextPtr < (nkvxRunOnObjectLocked cfg env s name mod p outLen).1.cache.nextPtr ∧
        w.module = cstrFit 64 name ∧ ∃ o, s.cache.obj p = some o ∧ w.objKey = cstrFit 256 o.objKey) := by
  unfold nkvxRunOnObjectLocked
  cases hb : s.cache.obj p with
  | none => exact fun w hw => .inl hw
  | some o =>
    have ho : ∀ w ∈ (warmObtain cfg env s name mod o).1.cache.warm, w ∈ s.cache.warm ∨
        (w.ptr = s.cache.nextPtr ∧ s.cache.nextPtr < (warmObtain cfg env s name mod o).1.cache.nextPtr ∧
          w.module = cstrFit 64 name ∧ w.objKey = cstrFit 256 o.objKey) := by
      intro w hw
      obtain ⟨w', _, he⟩ | ⟨_, _, m, he⟩ | ⟨_, _, he, _⟩ := warmObtain_cases cfg env name mod s o
      · rw [he] at hw
        exact .inl ((Cache.Sheds.warmTouch s.cache w').warm w hw)
      · rw [he] at hw ⊢
        have hs := Cache.Sheds.warmCacheEnforceCaps cfg (s.cache.linkWarm name m o)
        rcases mem_append.mp (hs.warm w hw) with hold | hn
        · exact .inl hold
        obtain rfl := mem_singleton.mp hn
        exact .inr ⟨rfl, hs.nextPtr ▸ Nat.lt_succ_self _, rfl, rfl⟩
      rw [he] at hw
      exact .inl hw
    dsimp only
    generalize warmObtain cfg env s name mod o = r at ho
    obtain ⟨s', _ | m⟩ := r
    · intro w hw
      obtain hold | ⟨hp, hl, hm, hk⟩ := ho w hw
      · exact .inl hold
      · exact .inr ⟨hp, hl, hm, o, rfl, hk⟩
    dsimp only
    have hr : (runModule cfg env s' name mod m o outLen).1.cache.warm = s'.cache.warm := by
      fun_cases runModule <;> rfl
    have hx : (runModule cfg env s' name mod m o outLen).1.cache.nextPtr = s'.cache.nextPtr := by
      fun_cases runModule <;> rfl
    rw [hr, hx]
    intro w hw
    obtain hold | ⟨hp, hl, hm, hk⟩ := ho w hw
    · exact .inl hold
    · exact .inr ⟨hp, hl, hm, o, rfl, hk⟩

end RadosNkv
