import RadosNkv.Library.Machine
import RadosNkv.Wasm.Eviction

/-! The caches under any number of callers. -/

namespace RadosNkv

open List Machine

/-- A call by some caller, with what librados hands the fill and what the allocator and the engine
answer. -/
inductive CacheCall where
  | fill (objKey : Bytes) (objectLen : Nat) (read : Option Bytes) (alloc : Bool)
  | runCached (name : Bytes) (mod : Option ModSpec) (objKey : Bytes) (objectLen : Nat)
      (read : Option Bytes) (outLen : Nat) (env : RunEnv)
  | runPinned (name : Bytes) (mod : Option ModSpec) (pin : ObjPtr) (outLen : Nat) (env : RunEnv)
  | pin (objKey : Bytes)
  | unpin (pin : ObjPtr)
  | invalidate (objKey : Bytes)

def fillFrom (read : Option Bytes) (cap : Nat) : Except Unit Bytes :=
  match read with
  | none => .error ()
  | some bytes => .ok (bytes.take cap)

structure Callers (api : WasmApi) where
  wasm : WasmState api
  pins : List ObjPtr

variable {api : WasmApi}

def Callers.init (api : WasmApi) : Callers api := ⟨.init api, []⟩

/-- One call. -/
def Callers.call (cfg : WasmConfig) (s : Callers api) : CacheCall → Callers api
  | .fill objKey objectLen read alloc =>
    let r := cacheFill cfg alloc s.wasm.cache objKey objectLen (fillFrom read)
    { s with wasm := { s.wasm with cache := r.1 } }
  | .runCached name mod objKey objectLen read outLen env =>
    { s with wasm := (runCached cfg env s.wasm name mod objKey objectLen (fillFrom read) outLen).1 }
  | .runPinned name mod pin outLen env =>
    if pin ∈ s.pins then { s with wasm := (runPinned cfg env s.wasm name mod pin outLen).1 } else s
  | .pin objKey =>
    let r := cachePin s.wasm.cache objKey
    ⟨{ s.wasm with cache := r.1 }, r.2.toList ++ s.pins⟩
  | .unpin pin =>
    if pin ∈ s.pins then
      ⟨{ s.wasm with cache := cacheUnpin s.wasm.cache pin }, s.pins.erase pin⟩
    else s
  | .invalidate objKey => { s with wasm := { s.wasm with cache := cacheInvalidate s.wasm.cache objKey } }

def Callers.step (cfg : WasmConfig) (s : Callers api) (ev : CacheCall) : Callers api :=
  if s.wasm.cache.fault then s else s.call cfg ev

def Callers.after (api : WasmApi) (cfg : WasmConfig) (evs : List CacheCall) : Callers api :=
  Machine.run (Callers.step cfg) (.init api) evs

lemma Callers.after_append (api : WasmApi) (cfg : WasmConfig) (evs evs' : List CacheCall) :
    Callers.after api cfg (evs ++ evs') = Machine.run (Callers.step cfg) (Callers.after api cfg evs) evs' :=
  run_append _ _ _ _

/-- The call is to run on the entry that its own enforcement of the caps has freed. -/
def Callers.RunsFreed (cfg : WasmConfig) (s : Callers api) : CacheCall → Prop
  | .runCached _ _ objKey objectLen read _ env =>
    cfg.available ∧ objKey ≠ [] ∧ (nkvxObjLookup s.wasm.cache objKey).filter ObjEntry.filled = none ∧
      ∃ c p, coldFill cfg env.objAlloc s.wasm.cache objKey objectLen (fillFrom read) = (c, .ok p) ∧
        c.obj p = none
  | _ => False

def Callers.Counted (s : Callers api) (fault : Bool) : Prop := s.wasm.cache.Counted s.pins fault

variable {fault : Bool} {s : Callers api} (cfg : WasmConfig)

lemma Cache.Counted.bad {μ : Type} {c : Cache μ} {holds : List ObjPtr} (h : c.Counted holds fault) :
    c.bad.Counted holds true :=
  ⟨⟨h.objs.nodup, h.objs.fresh, h.objs.objCount, h.objs.objBytes, h.objs.refcount, h.objs.dead,
    h.objs.held, h.objs.filled, rfl⟩, h.warmNodup, h.warmFresh, h.warmCount⟩

lemma counted_runCached (cfg : WasmConfig) (h : s.Counted fault) (name : Bytes) (mod : Option ModSpec)
    (objKey : Bytes) (objectLen : Nat) (read : Option Bytes) (outLen : Nat) (env : RunEnv) :
    let ev : CacheCall := .runCached name mod objKey objectLen read outLen env
    (s.RunsFreed cfg ev → (s.call cfg ev).Counted true) ∧
      (¬ s.RunsFreed cfg ev → (s.call cfg ev).Counted fault) := by
  intro ev
  have hc := h.coldFill cfg env.objAlloc objKey objectLen (fillFrom read)
  show (_ → (runCached cfg env s.wasm name mod objKey objectLen (fillFrom read) outLen).1.cache.Counted
      s.pins true) ∧
    (_ → (runCached cfg env s.wasm name mod objKey objectLen (fillFrom read) outLen).1.cache.Counted
      s.pins fault)
  constructor
  · rintro ⟨ha, hk, hm, c, p, he, ho⟩
    rw [he] at hc
    unfold runCached
    simp only [ha, hk, hm, he, Bool.not_true, Bool.false_eq_true, if_false]
    unfold nkvxRunOnObjectLocked
    rw [show ({ s.wasm with cache := c } : WasmState api).cache.obj p = none from ho]
    exact hc.bad
  intro hp
  refine counted_runCached_listed cfg env name mod h objKey objectLen (fillFrom read) outLen ?_
  intro ha hk hm c p he ho
  exact hp ⟨ha, hk, hm, c, p, he, ho⟩

lemma counted_call (h : s.Counted fault) (ev : CacheCall) : (s.RunsFreed cfg ev → (s.call cfg ev).Counted true) ∧
      (¬ s.RunsFreed cfg ev → (s.call cfg ev).Counted fault) := by
  cases ev with
  | runCached name mod objKey objectLen read outLen env =>
    exact counted_runCached cfg h ..
  | fill objKey objectLen read alloc =>
    exact ⟨False.elim, fun _ => h.cacheFill cfg alloc objKey objectLen _⟩
  | runPinned name mod pin outLen env =>
    refine ⟨False.elim, fun _ => ?_⟩
    unfold Callers.call
    dsimp only
    split
    · next hp =>
      obtain ⟨o, _, _, ho⟩ := h.objs.obj_of_ref (mem_append_left _ hp)
      exact counted_runPinned cfg env name mod h ho outLen
    · exact h
  | pin objKey => exact ⟨False.elim, fun _ => h.pin objKey⟩
  | unpin pin =>
    refine ⟨False.elim, fun _ => ?_⟩
    unfold Callers.call
    dsimp only
    split
    · next hp =>
      have hr := perm_cons_erase hp
      have hb := h.objs.perm (hr.append_right _)
      exact Cache.Counted.unref ⟨hb, h.warmNodup, h.warmFresh, h.warmCount⟩
    · exact h
  | invalidate objKey => exact ⟨False.elim, fun _ => h.invalidate objKey⟩

lemma counted_step (h : s.Counted s.wasm.cache.fault) (ev : CacheCall) :
    (s.step cfg ev).Counted (s.step cfg ev).wasm.cache.fault ∧
      ((s.step cfg ev).wasm.cache.fault = false ↔ s.wasm.cache.fault = false ∧ ¬ s.RunsFreed cfg ev) := by
  unfold Callers.step
  split
  · next ht => exact ⟨h, by simp [ht]⟩
  next ht =>
  obtain ⟨hfr, hk⟩ := counted_call cfg h ev
  have ho : s.wasm.cache.fault = false := by simpa using ht
  by_cases hr : s.RunsFreed cfg ev
  · have hc := hfr hr
    have hf : (s.call cfg ev).wasm.cache.fault = true := hc.objs.fault
    exact ⟨hf.symm ▸ hc, by simp [hf, hr]⟩
  have hc := hk hr
  have hf := hc.objs.fault
  exact ⟨hf.symm ▸ hc, by simp [hf, ho, hr]⟩

lemma counted_after (api : WasmApi) (cfg : WasmConfig) (evs : List CacheCall) :
    (Callers.after api cfg evs).Counted (Callers.after api cfg evs).wasm.cache.fault := by
  have hint : (Callers.init api).Counted (Callers.init api).wasm.cache.fault := Cache.Counted.init
  exact run_induct (P := fun s : Callers api => s.Counted s.wasm.cache.fault) (Callers.step cfg)
    hint (fun s ev h => (counted_step cfg h ev).1) evs

/-- In every reachable state, a cached run that misses and fills its object goes on to run on that
entry, and the entry is still on the list, and so not freed, exactly when its backing and the bytes
that no eviction gives back (those of dead entries and of entries that callers have pinned) are
within the byte cap. -/
theorem cold_run_entry_listed_iff (api : WasmApi) (cfg : WasmConfig) (evs : List CacheCall)
    (name : Bytes) (mod : Option ModSpec) (objKey : Bytes) (objectLen : Nat) (read : Option Bytes)
    (outLen : Nat) (env : RunEnv) {c : Cache api.Module} {p : ObjPtr}
    (havail : cfg.available = true)
    (hkey : objKey ≠ [])
    (hmiss : (nkvxObjLookup (Callers.after api cfg evs).wasm.cache objKey).filter ObjEntry.filled =
      none)
    (hfill : coldFill cfg env.objAlloc (Callers.after api cfg evs).wasm.cache objKey objectLen
      (fillFrom read) = (c, .ok p)) :
    let s := Callers.after api cfg evs
    runCached cfg env s.wasm name mod objKey objectLen (fillFrom read) outLen =
        nkvxRunOnObjectLocked cfg env { s.wasm with cache := c } name mod p outLen ∧
      ((∃ o ∈ c.objects, o.ptr = p) ↔
        cfg.objMaxBytes = 0 ∨
          s.wasm.cache.retained s.pins + backing objectLen ≤ cfg.objMaxBytes) := by
  refine ⟨?_, coldFill_keeps_iff cfg (counted_after api cfg evs) hfill⟩
  unfold runCached
  simp only [havail, hkey, hmiss, hfill, Bool.not_true, Bool.false_eq_true, if_false]

def onePageCap : WasmConfig := { WasmConfig.default with objMaxBytes := nkvxWasmPage }

/-- An object of one page fits beside nothing else: the run that fills it starts on a listed entry.
-/
theorem one_page_object_listed :
    ∃ c : Cache toyApi.Module,
      coldFill onePageCap true (Callers.after toyApi onePageCap []).wasm.cache [1] 1
          (fillFrom (some [7])) = (c, .ok 0) ∧
        (runCached onePageCap .good (Callers.after toyApi onePageCap []).wasm [102] none [1] 1
            (fillFrom (some [7])) 8 =
          nkvxRunOnObjectLocked onePageCap .good ⟨.init, c, []⟩ [102] none 0 8) ∧
        ∃ o ∈ c.objects, o.ptr = 0 := by
  have hlist := cold_run_entry_listed_iff toyApi onePageCap [] [102] none [1] 1 (some [7]) 8 .good rfl
    (by decide) rfl rfl
  exact ⟨_, rfl, hlist.1, hlist.2.mpr (.inr (by decide))⟩

/-- While a caller has one page pinned, a cached run of another object of one page evicts the object
that it filled itself, and runs on freed memory. -/
theorem own_fill_evicted_before_run :
    let s := Callers.after toyApi onePageCap [.fill [1] 1 (some [7]) true, .pin [1]]
    ∃ c, coldFill onePageCap true s.wasm.cache [2] 1 (fillFrom (some [8])) = (c, .ok 1) ∧
      (∀ o ∈ c.objects, o.ptr ≠ 1) ∧
      (runCached onePageCap .good s.wasm [102] none [2] 1 (fillFrom (some [8])) 8).1.cache.fault =
        true :=
  ⟨_, rfl, by decide, rfl⟩

def Cache.SoleLive {μ : Type} (c : Cache μ) : Prop :=
  ∀ o ∈ c.objects, ∀ o' ∈ c.objects, o.dead = false → o'.dead = false → o.objKey = o'.objKey →
    o.ptr = o'.ptr

section SoleLive

variable {μ : Type} {c c' : Cache μ}

lemma Cache.SoleLive.derives (h : c.SoleLive)
    (hc : ∀ o' ∈ c'.objects, ∃ o ∈ c.objects, o.Evolves o') : c'.SoleLive := by
  intro o1' ho1' o2' ho2' hl1 hl2 hk
  obtain ⟨o1, ho1, he1⟩ := hc o1' ho1'
  obtain ⟨o2, ho2, he2⟩ := hc o2' ho2'
  have hw : ∀ {o o' : ObjEntry}, o.Evolves o' → o'.dead = false → o.dead = false := by
    intro o o' he hl
    by_contra hd
    simp [he.dead (by simpa using hd)] at hl
  rw [he1.ptr, he2.ptr]
  refine h o1 ho1 o2 ho2 (hw he1 hl1) (hw he2 hl2) ?_
  rw [← he1.objKey, ← he2.objKey, hk]

lemma Cache.SoleLive.sheds (h : c.SoleLive) (hc : c.Sheds c') : c'.SoleLive := by
  refine h.derives fun o' ho' => ?_
  obtain ⟨o, ho, ha⟩ := hc.objects o' ho'
  exact ⟨o, ho, ha.evolves⟩

lemma live_key_ne_of_miss (hf : ∀ o ∈ c.objects, o.filled) (hm : c.Misses objKey)
    (ho : o ∈ c.objects) (hl : o.dead = false) : o.objKey ≠ objKey := by
  intro hk
  have hs : (nkvxObjLookup c objKey).isSome := by
    rw [nkvxObjLookup, find?_isSome]
    exact ⟨o, ho, by simp [hl, hk]⟩
  obtain ⟨o', ho'⟩ := Option.isSome_iff_exists.mp hs
  rw [Cache.Misses, ho'] at hm
  simp [hf o' (mem_of_find?_eq_some ho')] at hm

lemma Cache.SoleLive.coldFill {ε : Type} (cfg : WasmConfig) (alloc : Bool) (h : c.SoleLive)
    (hf : ∀ o ∈ c.objects, o.filled) {objKey : Bytes} (hl : objKey.length < 256) (hm : c.Misses objKey)
    (objectLen : Nat) (fill : Nat → Except ε Bytes) : (coldFill cfg alloc c objKey objectLen fill).1.SoleLive := by
  obtain ⟨status, he⟩ | ⟨got, c', _, hh, he⟩ := coldFill_cases cfg alloc c objKey objectLen fill
  · rw [he]
    exact h
  rw [he]
  refine Cache.SoleLive.sheds ?_ hh
  -- the key fits its buffer, so the new entry is the only live one with it
  have hk : (coldEntry c.nextPtr objKey objectLen got).objKey = objKey :=
    take_of_length_le (by omega)
  intro o1 ho1 o2 ho2 hv1 hv2 hs
  rcases mem_append.mp ho1 with hold1 | hn1 <;> rcases mem_append.mp ho2 with hold2 | hn2
  · exact h o1 hold1 o2 hold2 hv1 hv2 hs
  · obtain rfl := mem_singleton.mp hn2
    exact absurd (hs.trans hk) (live_key_ne_of_miss hf hm hold1 hv1)
  · obtain rfl := mem_singleton.mp hn1
    exact absurd (hs.symm.trans hk) (live_key_ne_of_miss hf hm hold2 hv2)
  · rw [mem_singleton.mp hn1, mem_singleton.mp hn2]

end SoleLive

/-- The call fills no entry under a key that its field of 256 bytes cuts. -/
def CacheCall.short : CacheCall → Bool
  | .fill objKey _ _ _ => objKey.length < 256
  | .runCached _ _ objKey _ _ _ _ => objKey.length < 256
  | _ => true

lemma soleLive_call (h : s.wasm.cache.SoleLive) (hn : s.Counted fault) {ev : CacheCall} (hs : ev.short) :
    (s.call cfg ev).wasm.cache.SoleLive := by
  have hf := hn.objs.filled
  cases ev with
  | fill objKey objectLen read alloc =>
    have hl : objKey.length < 256 := by simpa [CacheCall.short] using hs
    have hc := fun hm => h.coldFill cfg alloc hf hl hm objectLen (fillFrom read)
    show (cacheFill cfg alloc s.wasm.cache objKey objectLen (fillFrom read)).1.SoleLive
    fun_cases cacheFill
    case case3 o _ => exact h.sheds (.objTouch _ o.ptr)
    case case4 hm c status he =>
      rw [he] at hc
      exact hc hm
    case case5 hm c p he =>
      rw [he] at hc
      exact hc hm
    all_goals exact h
  | runCached name mod objKey objectLen read outLen env =>
    have hl : objKey.length < 256 := by simpa [CacheCall.short] using hs
    have hc := fun hm => h.coldFill cfg env.objAlloc hf hl hm objectLen (fillFrom read)
    show (runCached cfg env s.wasm name mod objKey objectLen (fillFrom read) outLen).1.cache.SoleLive
    fun_cases runCached
    case case3 o _ =>
      exact (h.sheds (.objTouch _ o.ptr)).derives
        (moves_runOnObject cfg env name mod { s.wasm with cache := _ } o.ptr outLen).derives
    case case4 hm c status he =>
      rw [he] at hc
      exact hc hm
    case case5 hm c p he =>
      rw [he] at hc
      exact (hc hm).derives
        (moves_runOnObject cfg env name mod { s.wasm with cache := c } p outLen).derives
    all_goals exact h
  | runPinned name mod pin outLen env =>
    unfold Callers.call
    dsimp only
    split
    · exact h.derives (moves_runPinned cfg env name mod s.wasm pin outLen).derives
    · exact h
  | pin objKey => exact h.sheds (.pin _ objKey)
  | unpin pin =>
    unfold Callers.call
    dsimp only
    split
    · exact h.sheds (.unref _ pin)
    · exact h
  | invalidate objKey => exact h.sheds (.invalidate _ objKey)

lemma not_runsFreed {cfg : WasmConfig} (hb : cfg.objMaxBytes = 0) (h : s.Counted fault) (ev : CacheCall) :
    ¬ s.RunsFreed cfg ev := by
  cases ev with
  | runCached name mod objKey objectLen read outLen env =>
    rintro ⟨_, _, _, c, p, hf, hn⟩
    obtain ⟨o, ho, hp⟩ := (coldFill_keeps_iff cfg h hf).mpr (.inl hb)
    have hs : (c.obj p).isSome := Tailq.find_isSome ho hp
    simp [hn] at hs
  | _ => exact id

/-- With the byte cap disabled and keys that fit their buffers, after every run of calls no
freed memory was used, the counters agree with the lists, every reference count is the number of
outstanding pins and warm entries of the entry, dead entries are still referenced, no object has two
live entries, and no entry behind a warm entry or an outstanding pin has been freed. -/
theorem caches_bookkept (api : WasmApi) (cfg : WasmConfig) (evs : List CacheCall)
    (hbytes : cfg.objMaxBytes = 0) (hshort : ∀ ev ∈ evs, ev.short) :
    let s := Callers.after api cfg evs
    let c := s.wasm.cache
    c.fault = false ∧ c.objCount = c.objects.length ∧
      c.objBytes = (c.objects.map ObjEntry.memCap).sum ∧
      (∀ o ∈ c.objects, o.refcount = s.pins.count o.ptr + c.warm.countP fun w => w.obj = o.ptr) ∧
      (∀ o ∈ c.objects, o.dead → 0 < o.refcount) ∧
      (∀ o ∈ c.objects, ∀ o' ∈ c.objects, o.dead = false → o'.dead = false → o.objKey = o'.objKey →
        o = o') ∧
      (∀ w ∈ c.warm, ∃ o ∈ c.objects, o.ptr = w.obj) ∧ ∀ p ∈ s.pins, ∃ o ∈ c.objects,
        o.ptr = p := by
  intro s c
  have hinv : s.Counted c.fault := counted_after api cfg evs
  have hrun : s.Counted s.wasm.cache.fault ∧ s.wasm.cache.fault = false ∧ s.wasm.cache.SoleLive := by
    refine run_induct_along (Callers.step cfg)
      (P := fun s : Callers api => s.Counted s.wasm.cache.fault ∧ s.wasm.cache.fault = false ∧
        s.wasm.cache.SoleLive)
      ⟨Cache.Counted.init, rfl, nofun⟩ (fun s ev h hev => ?_)
      (along_of_forall _ hshort)
    obtain ⟨hc, hfault, hsl⟩ := h
    obtain ⟨hstep, hflag⟩ := counted_step cfg hc ev
    refine ⟨hstep, hflag.mpr ⟨hfault, not_runsFreed hbytes hc ev⟩, ?_⟩
    rw [Callers.step, if_neg (by simp [hfault])]
    exact soleLive_call cfg hsl hc hev
  refine ⟨hrun.2.1, hinv.objs.objCount, hinv.objs.objBytes, fun o ho => ?_, hinv.objs.dead,
    fun o ho o' ho' hlv hlv' hkey => ?_, fun w hw => ?_, fun p hp => ?_⟩
  · rw [hinv.objs.refcount o ho, count_append, List.count, countP_map]
    rfl
  · exact inj_on_of_nodup_map hinv.objs.nodup ho ho' (hrun.2.2 o ho o' ho' hlv hlv' hkey)
  · exact hinv.objs.held _ (mem_append_right _ (mem_map_of_mem hw))
  · exact hinv.objs.held _ (mem_append_left _ hp)

/-- A pinned object is invalidated, filled again and run: the dead version stays for its pin beside
the live one, which the warm entry holds. -/
theorem pinned_then_refilled_bookkept :
    let evs : List CacheCall := [.fill [1] 1 (some [7]) true, .pin [1], .invalidate [1],
      .runCached [102] (some ⟨[5], some [5], 0, false⟩) [1] 1 (some [8]) 8 .good]
    let s := Callers.after toyApi { WasmConfig.default with objMaxBytes := 0 } evs
    s.pins = [0] ∧ s.wasm.cache.objects.map (fun o => (o.ptr, o.dead, o.refcount)) =
        [(0, true, 1), (1, false, 1)] ∧
      s.wasm.cache.fault = false ∧ ∀ p ∈ s.pins, ∃ o ∈ s.wasm.cache.objects, o.ptr = p := by
  have h := caches_bookkept toyApi { WasmConfig.default with objMaxBytes := 0 }
    [.fill [1] 1 (some [7]) true, .pin [1], .invalidate [1],
      .runCached [102] (some ⟨[5], some [5], 0, false⟩) [1] 1 (some [8]) 8 .good] rfl (by decide)
  exact ⟨rfl, rfl, h.1, h.2.2.2.2.2.2.2⟩

end RadosNkv
