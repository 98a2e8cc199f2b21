import RadosNkv.Wasm.Callers

/-! What a run on a cached object answers, and on one that was filled for it. -/

namespace RadosNkv

open List

variable {api : WasmApi} {cfg : WasmConfig}

def outcomeOn (api : WasmApi) (cfg : WasmConfig) (alloc : Bool) (clock : RunClock) (m : api.Module)
    (name : Bytes) (capsWord : Nat) (readOnly : Bool) (o : ObjEntry) (outLen : Nat) : RunResult :=
  match instanceMemory api m alloc o with
  | none => .only .failed
  | some z =>
    (runInstance api (nkvxWasmCapsLoad cfg capsWord) clock m name readOnly o.objLen outLen z).1

def coldOutcome (api : WasmApi) (cfg : WasmConfig) (m : api.Module) (name : Bytes) (capsWord : Nat)
    (readOnly : Bool) (v : Bytes) (outLen : Nat) : RunResult :=
  outcomeOn api cfg true ⟨none, true⟩ m name capsWord readOnly (coldEntry 0 [] v.length v) outLen

lemma le_backing (n : Nat) : wasmObjOff + n ≤ backing n := by
  unfold backing nkvxRoundUp nkvxWasmPage
  omega

lemma Cache.Counted.addressed {μ : Type} {c : Cache μ} {fault : Bool} (h : c.Counted holds fault) : c.Addressed where
  nodup := h.objs.nodup
  objects := h.objs.fresh
  warm := fun w hw => by
    obtain ⟨o, ho, hp⟩ := h.objs.held w.obj (mem_append_right _ (mem_map_of_mem hw))
    exact hp ▸ h.objs.fresh o ho

lemma outcomeOn_ages {o o' : ObjEntry} (h : o.Ages o') (alloc : Bool) (clock : RunClock) (m : api.Module)
    (name : Bytes) (capsWord : Nat) (readOnly : Bool) (outLen : Nat) :
    outcomeOn api cfg alloc clock m name capsWord readOnly o' outLen =
      outcomeOn api cfg alloc clock m name capsWord readOnly o outLen := by
  unfold outcomeOn instanceMemory
  rw [h.mem, h.memSize, h.memCap, h.objLen]

lemma coldFill_entry {ε : Type} {c c' : Cache api.Module} {fault : Bool}
    (hcn : c.Counted holds fault) {alloc : Bool} {objKey got : Bytes} {objectLen : Nat} {fill : Nat → Except ε Bytes}
    (hg : fill (backing objectLen - wasmObjOff) = .ok got) {p : ObjPtr}
    (hf : coldFill cfg alloc c objKey objectLen fill = (c', .ok p)) {o : ObjEntry} (ho : c'.obj p = some o) :
    (coldEntry p objKey objectLen got).Ages o := by
  obtain ⟨status, hc⟩ | ⟨_, c1, hg', hs, hc⟩ := coldFill_cases cfg alloc c objKey objectLen fill
  · cases hf.symm.trans hc
  cases hf.symm.trans hc
  cases hg.symm.trans hg'
  obtain ⟨hm, hp⟩ := Tailq.find_some ho
  obtain ⟨o1, hm1, ha⟩ := hs.objects o hm
  -- the address is fresh, so the entry is the one just linked
  rcases mem_append.mp hm1 with hold | hn
  · exact absurd (ha.ptr.symm.trans hp) (Nat.ne_of_lt (hcn.objs.fresh o1 hold))
  · exact mem_singleton.mp hn ▸ ha

lemma runCached_cold {s : WasmState api} (hc : s.cache.Counted holds false)
    (hv : cfg.available = true) (hk : objKey ≠ [])
    (hm : (nkvxObjLookup s.cache objKey).filter ObjEntry.filled = none) {object : Bytes}
    (hp : cfg.objMaxBytes = 0 ∨ s.cache.retained holds + backing object.length ≤ cfg.objMaxBytes)
    (file : Option Bytes) (name : Bytes) (outLen : Nat) :
    (runCached cfg { RunEnv.good with moduleFile := file } s name none objKey object.length (fillFrom (some object))
        outLen).2 =
      match file.bind api.moduleNew with
      | none => .only .failed
      | some m => coldOutcome api cfg m name 0 false object outLen := by
  have hg : fillFrom (some object) (backing object.length - wasmObjOff) = .ok object := by
    have hl := le_backing object.length
    rw [fillFrom, take_of_length_le (by omega)]
  obtain ⟨c', hf⟩ : ∃ c', coldFill cfg true s.cache objKey object.length (fillFrom (some object)) =
      (c', .ok s.cache.nextPtr) := by
    unfold coldFill
    rw [hg]
    exact ⟨_, rfl⟩
  obtain ⟨o, ho, ht⟩ := (coldFill_keeps_iff cfg hc hf).mpr hp
  have hc' := hc.coldFill cfg true objKey object.length (fillFrom (some object))
  rw [hf] at hc'
  have hb : c'.obj s.cache.nextPtr = some o := ht ▸ Tailq.find_of_mem hc'.objs.nodup ho
  have ha := coldFill_entry hc hg hf hb
  have hw := warmLookup_coldFill hc.addressed hf name
  have hr : runCached cfg { RunEnv.good with moduleFile := file } s name none objKey object.length
      (fillFrom (some object)) outLen =
        nkvxRunOnObjectLocked cfg { RunEnv.good with moduleFile := file } { s with cache := c' } name none
          s.cache.nextPtr outLen := by
    unfold runCached
    simp only [RunEnv.good, hv, hk, hm, hf, Bool.not_true, Bool.false_eq_true, if_false]
  rw [hr]
  unfold nkvxRunOnObjectLocked
  rw [hb]
  unfold warmObtain
  dsimp only
  rw [ha.ptr]
  dsimp only [coldEntry]
  rw [hw]
  unfold nkvxWarmBuild warmModule
  cases file with
  | none => rfl
  | some wasm =>
    cases hn : api.moduleNew wasm with
    | none => simp [RunEnv.good, hn]
    | some m =>
      simp only [RunEnv.good, Option.isNone_none, Option.isNone_some, Bool.and_false, Bool.false_eq_true, if_false,
        Bool.not_true, Option.bind_some, hn]
      have hs : coldOutcome api cfg m name 0 false object outLen =
          outcomeOn api cfg true ⟨none, true⟩ m name 0 false o outLen := (outcomeOn_ages ha ..).symm
      rw [hs]
      unfold runModule outcomeOn
      cases instanceMemory api m true o <;> rfl

end RadosNkv
