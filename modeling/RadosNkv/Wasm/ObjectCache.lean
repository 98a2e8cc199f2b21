import RadosNkv.Library.Tailq
import RadosNkv.Wasm.Engine

/-! The object cache and the warm cache (`g_cache`), which share one lock. -/

namespace RadosNkv

abbrev ObjPtr := Nat

structure ObjEntry where
  ptr : ObjPtr
  objKey : Bytes
  mem : Mem
  memCap : Nat
  memSize : Nat
  objLen : Nat
  filled : Bool
  refcount : Nat
  dead : Bool

structure WarmEntry (μ : Type) where
  ptr : Nat
  module : Bytes
  objKey : Bytes
  moduleH : μ
  obj : ObjPtr

structure Cache (μ : Type) where
  objects : List ObjEntry
  warm : List (WarmEntry μ)
  objCount : Nat
  objBytes : Nat
  warmCount : Nat
  nextPtr : Nat
  fault : Bool

variable {μ : Type}

def Cache.init : Cache μ := ⟨[], [], 0, 0, 0, 0, false⟩

def Cache.bad (c : Cache μ) : Cache μ := { c with fault := true }

def Cache.obj (c : Cache μ) (p : ObjPtr) : Option ObjEntry := Tailq.find ObjEntry.ptr p c.objects

def Cache.updateObj (c : Cache μ) (p : ObjPtr) (f : ObjEntry → ObjEntry) : Cache μ :=
  { c with objects := Tailq.modify ObjEntry.ptr p f c.objects }

def nkvxObjLookup (c : Cache μ) (objKey : Bytes) : Option ObjEntry :=
  c.objects.find? fun e => !e.dead && e.objKey == objKey

abbrev Cache.Misses (c : Cache μ) (objKey : Bytes) : Prop := (nkvxObjLookup c objKey).filter ObjEntry.filled = none

lemma objLookup_some (h : nkvxObjLookup c objKey = some o) :
    o ∈ c.objects ∧ o.dead = false ∧ o.objKey = objKey := by
  have hp := List.find?_some h
  simp only [Bool.and_eq_true, Bool.not_eq_true', beq_iff_eq] at hp
  exact ⟨List.mem_of_find?_eq_some h, hp⟩

section

variable (c : Cache μ)

def nkvxObjListAdd (o : ObjEntry) : Cache μ :=
  { c with objects := c.objects ++ [o], objCount := c.objCount + 1, objBytes := c.objBytes + o.memCap }

def nkvxObjListRemove (o : ObjEntry) : Cache μ :=
  if c.objCount = 0 then c.bad
  else
    { c with
      objects := Tailq.remove ObjEntry.ptr o.ptr c.objects
      objCount := c.objCount - 1
      objBytes := c.objBytes - o.memCap }

def nkvxObjTouch (p : ObjPtr) : Cache μ :=
  { c with objects := Tailq.touch ObjEntry.ptr p c.objects }

def nkvxObjUnref (p : ObjPtr) : Cache μ :=
  match c.obj p with
  | none => c.bad
  | some o =>
    if o.refcount = 0 then c.bad
    else
      let c := c.updateObj p fun o => { o with refcount := o.refcount - 1 }
      if o.refcount = 1 ∧ o.dead then nkvxObjListRemove c o else c

def nkvxWarmDestroy (w : WarmEntry μ) : Cache μ :=
  if c.warmCount = 0 then c.bad
  else
    let c := { c with warm := Tailq.remove WarmEntry.ptr w.ptr c.warm, warmCount := c.warmCount - 1 }
    nkvxObjUnref c w.obj

def nkvxWarmTouch (w : WarmEntry μ) : Cache μ :=
  { c with warm := Tailq.touch WarmEntry.ptr w.ptr c.warm }

def Cache.kill (p : ObjPtr) : Cache μ :=
  nkvxObjUnref (c.updateObj p fun o => { o with dead := true, refcount := o.refcount + 1 }) p

def nkvxCacheInvalidateLocked (objKey : Bytes) : Cache μ :=
  let c := (c.warm.filter fun w => w.objKey == objKey).foldl nkvxWarmDestroy c
  ((c.objects.filter fun o => !o.dead && o.objKey == objKey).map ObjEntry.ptr).foldl Cache.kill c

def nkvxObjEvictLocked (p : ObjPtr) : Cache μ :=
  ((c.warm.filter fun w => w.obj == p).foldl nkvxWarmDestroy c).kill p

def Cache.live : List ObjEntry := c.objects.filter fun o => !o.dead

end

/-- The loop of `nkvx_obj_cache_enforce_caps`, for at most `fuel` rounds: an eviction leaves one
live entry less, so the number of live entries is enough. -/
def enforceObjCaps (cfg : WasmConfig) : Nat → Cache μ → Cache μ
  | 0, c => c
  | fuel + 1, c =>
    if ¬ (cfg.objMaxCount ≠ 0 ∧ c.live.length > cfg.objMaxCount) ∧
        ¬ (cfg.objMaxBytes ≠ 0 ∧ c.objBytes > cfg.objMaxBytes) then c
    else
      match c.live with
      | [] => c
      | victim :: rest =>
        let c := nkvxObjEvictLocked c victim.ptr
        if rest = [] then c else enforceObjCaps cfg fuel c

def nkvxObjCacheEnforceCaps (cfg : WasmConfig) (c : Cache μ) : Cache μ :=
  enforceObjCaps cfg c.live.length c

def enforceWarmCaps (cfg : WasmConfig) : List (WarmEntry μ) → Cache μ → Cache μ
  | [], c => c
  | w :: rest, c =>
    if c.warmCount > cfg.warmMaxCount then enforceWarmCaps cfg rest (nkvxWarmDestroy c w) else c

def nkvxWarmCacheEnforceCaps (cfg : WasmConfig) (c : Cache μ) : Cache μ :=
  if cfg.warmMaxCount = 0 then c else enforceWarmCaps cfg c.warm c

def nkvxWarmLookup (c : Cache μ) (module : Bytes) (obj : ObjPtr) : Option (WarmEntry μ) :=
  c.warm.find? fun e => e.module == module && e.obj == obj

def cachePin (c : Cache μ) (objKey : Bytes) : Cache μ × Option ObjPtr :=
  if objKey = [] then (c, none)
  else
    match nkvxObjLookup c objKey with
    | none => (c, none)
    | some o =>
      if o.filled then
        (c.updateObj o.ptr fun o => { o with refcount := o.refcount + 1 }, some o.ptr)
      else (c, none)

lemma cachePin_eq (c : Cache μ) (h : oid ≠ []) :
    cachePin c oid = match (nkvxObjLookup c oid).filter ObjEntry.filled with
      | none => (c, none)
      | some o => (c.updateObj o.ptr fun o => { o with refcount := o.refcount + 1 }, some o.ptr) := by
  unfold cachePin
  rw [if_neg h]
  cases nkvxObjLookup c oid with
  | none => rfl
  | some o => cases hf : o.filled <;> simp [Option.filter, hf]

lemma cachePin_miss {c : Cache μ} (ho : oid ≠ []) (hm : c.Misses oid) :
    cachePin c oid = (c, none) := by
  rw [cachePin_eq c ho, hm]

def cacheUnpin (c : Cache μ) (p : ObjPtr) : Cache μ := nkvxObjUnref c p

def pinObject (c : Cache μ) (p : ObjPtr) : Option Bytes :=
  (c.obj p).bind fun o =>
    if o.filled then some ((List.range o.objLen).map fun i => o.mem (wasmObjOff + i)) else none

def cacheInvalidate (c : Cache μ) (objKey : Bytes) : Cache μ :=
  if objKey = [] then c else nkvxCacheInvalidateLocked c objKey

def coldImage (got : Bytes) : Mem := fun a =>
  if a < wasmObjOff then 0 else got.getD (a - wasmObjOff) 0

def backing (objectLen : Nat) : Nat := nkvxRoundUp (wasmObjOff + objectLen) nkvxWasmPage

/-- The miss arm that `run_cached` and `cache_fill` share. `fill` is told how many bytes fit. -/
def coldFill {ε : Type} (cfg : WasmConfig) (alloc : Bool) (c : Cache μ) (objKey : Bytes)
    (objectLen : Nat) (fill : Nat → Except ε Bytes) : Cache μ × Except IoStatus ObjPtr :=
  if !alloc then (c, .error .nomem)
  else
    match fill (backing objectLen - wasmObjOff) with
    | .error _ => (c, .error .failed)
    | .ok got =>
      let o : ObjEntry :=
        { ptr := c.nextPtr
          objKey := cstrFit 256 objKey
          mem := coldImage got
          memCap := backing objectLen
          memSize := backing objectLen
          objLen := got.length
          filled := true
          refcount := 0
          dead := false }
      let c := nkvxObjListAdd { c with nextPtr := c.nextPtr + 1 } o
      (nkvxObjCacheEnforceCaps cfg c, .ok o.ptr)

def cacheFill {ε : Type} (cfg : WasmConfig) (alloc : Bool) (c : Cache μ) (objKey : Bytes)
    (objectLen : Nat) (fill : Nat → Except ε Bytes) : Cache μ × IoStatus :=
  if !cfg.available then (c, .notSupported)
  else if objKey = [] then (c, .invalid)
  else
    match (nkvxObjLookup c objKey).filter ObjEntry.filled with
    | some o => (nkvxObjTouch c o.ptr, .success)
    | none =>
      match coldFill cfg alloc c objKey objectLen fill with
      | (c, .error status) => (c, status)
      | (c, .ok _) => (c, .success)

end RadosNkv
