import RadosNkv.Rpc

/-! The front's cache of registered bulk handles: `nkvx_bulk_acquire`, `nkvx_bulk_acquire_dmabuf`
and `nkvx_bulk_release`. -/

namespace RadosNkv

open List

inductive BulkFlags where
  | readOnly
  | writeOnly
deriving DecidableEq

structure BulkEntry where
  addr : Nat
  len : Nat
  flags : BulkFlags
  handle : Option BulkHandle
  refs : Nat
  usedSeq : Nat

def nkvxBulkCacheSlots : Nat := 64

structure BulkCache where
  slots : List BulkEntry
  seq : Nat
  hits : Nat
  misses : Nat
  evicts : Nat
  nextHandle : BulkHandle
  bulkFreed : List BulkHandle

def BulkCache.empty : BulkCache :=
  { slots := List.replicate nkvxBulkCacheSlots ⟨0, 0, .readOnly, none, 0, 0⟩
    seq := 0, hits := 0, misses := 0, evicts := 0, nextHandle := 0, bulkFreed := [] }

inductive BulkScan where
  | hit (slot : Nat) (h : BulkHandle)
  | miss (slot : Option Nat)

/-- The loop of `nkvx_bulk_acquire`, from slot `i` on: `empty` is the first empty slot seen,
`victim` the least recently used slot without references and its clock. -/
def nkvxBulkScan (addr len : Nat) (flags : BulkFlags) :
    List BulkEntry → Nat → Option Nat → Option (Nat × Nat) → BulkScan
  | [], _, empty, victim => .miss (empty <|> victim.map Prod.fst)
  | e :: rest, i, empty, victim =>
    match e.handle with
    | some h =>
      if e.addr = addr ∧ e.len = len ∧ e.flags = flags then .hit i h
      else if e.refs = 0 ∧ victim.all (fun v => e.usedSeq < v.2) then
        nkvxBulkScan addr len flags rest (i + 1) empty (some (i, e.usedSeq))
      else nkvxBulkScan addr len flags rest (i + 1) empty victim
    | none => nkvxBulkScan addr len flags rest (i + 1) (empty <|> some i) victim

def BulkEntry.Serves (e : BulkEntry) (addr len : Nat) (flags : BulkFlags) : Prop :=
  e.handle.isSome ∧ e.addr = addr ∧ e.len = len ∧ e.flags = flags

def BulkScan.Finds (slots : List BulkEntry) (addr len : Nat) (flags : BulkFlags) : BulkScan → Prop
  | .hit i h => ∃ e, slots[i]? = some e ∧ e.handle = some h ∧ e.addr = addr ∧ e.len = len ∧ e.flags = flags
  | .miss slot =>
    (∀ e ∈ slots, ¬ e.Serves addr len flags) ∧ ∀ i ∈ slot, ∃ e, slots[i]? = some e ∧ (e.handle = none ∨ e.refs = 0)

lemma scan_finds_from (rest : List BulkEntry) :
    ∀ (passed : List BulkEntry) (empty : Option Nat) (victim : Option (Nat × Nat)), passed ++ rest = slots →
      (∀ e ∈ passed, ¬ e.Serves addr len flags) →
      (∀ i ∈ empty, ∃ e, slots[i]? = some e ∧ (e.handle = none ∨ e.refs = 0)) →
      (∀ v ∈ victim, ∃ e, slots[v.1]? = some e ∧ (e.handle = none ∨ e.refs = 0)) →
      (nkvxBulkScan addr len flags rest passed.length empty victim).Finds slots addr len flags := by
  induction rest with
  | nil =>
    intro passed empty victim hl hp hm hc
    rw [append_nil] at hl
    subst hl
    refine ⟨hp, fun i hi => ?_⟩
    cases empty with
    | some j => exact hm i hi
    | none =>
      obtain ⟨v, hv, rfl⟩ := Option.map_eq_some_iff.mp hi
      exact hc v hv
  | cons e rest ih =>
    intro passed empty victim hl hp hm hc
    have hsp : (passed ++ [e]) ++ rest = slots := by rw [append_assoc]; exact hl
    have ha : slots[passed.length]? = some e := by rw [← hl]; simp
    have hn := ih (passed ++ [e])
    rw [length_append, length_singleton] at hn
    have hsn : ¬ e.Serves addr len flags → ∀ e' ∈ passed ++ [e], ¬ e'.Serves addr len flags := by
      intro he e' he'
      rcases mem_append.mp he' with he' | he'
      · exact hp e' he'
      · rwa [mem_singleton.mp he']
    unfold nkvxBulkScan
    cases hh : e.handle with
    | none =>
      refine hn _ _ hsp (hsn fun hs => by simp [BulkEntry.Serves, hh] at hs) ?_ hc
      intro i hi
      cases empty with
      | some j => exact hm i hi
      | none =>
        cases hi
        exact ⟨e, ha, .inl hh⟩
    | some h =>
      dsimp only
      by_cases hk : e.addr = addr ∧ e.len = len ∧ e.flags = flags
      · rw [if_pos hk]
        exact ⟨e, ha, hh, hk⟩
      rw [if_neg hk]
      have hps := hsn fun hs => hk hs.2
      by_cases hr : e.refs = 0 ∧ victim.all (fun v => e.usedSeq < v.2)
      · rw [if_pos hr]
        refine hn _ _ hsp hps hm fun v hv => ?_
        cases hv
        exact ⟨e, ha, .inr hr.1⟩
      rw [if_neg hr]
      exact hn _ _ hsp hps hm hc

lemma scan_finds (slots : List BulkEntry) (addr len : Nat) (flags : BulkFlags) :
    (nkvxBulkScan addr len flags slots 0 none none).Finds slots addr len flags :=
  scan_finds_from slots [] none none rfl (by simp) (by simp) (by simp)

def BulkCache.createUncached (c : BulkCache) (created : Bool) :
    BulkCache × Except Errno BulkHandle :=
  let c := { c with misses := c.misses + 1 }
  if created then ({ c with nextHandle := c.nextHandle + 1 }, .ok c.nextHandle)
  else (c, .error .io)

/-- `nkvx_bulk_acquire`; `created` is the outcome of `HG_Bulk_create`. -/
def nkvxBulkAcquire (c : BulkCache) (addr len : Nat) (flags : BulkFlags) (created : Bool) :
    BulkCache × Except Errno BulkHandle :=
  match nkvxBulkScan addr len flags c.slots 0 none none with
  | .hit i h =>
    ({ c with
        slots := c.slots.modify i fun e => { e with refs := e.refs + 1, usedSeq := c.seq + 1 }
        seq := c.seq + 1
        hits := c.hits + 1 }, .ok h)
  | .miss slot =>
    match c.createUncached created, slot with
    | (c, .ok h), some i =>
      let old := c.slots[i]?.bind BulkEntry.handle
      ({ c with
          slots := c.slots.set i ⟨addr, len, flags, some h, 1, c.seq + 1⟩
          seq := c.seq + 1
          evicts := if old.isSome then c.evicts + 1 else c.evicts
          bulkFreed := old.toList ++ c.bulkFreed }, .ok h)
    -- Every slot is in flight, or the registration failed: the cache keeps its slots.
    | r, _ => r

/-- The four ways in which `nkvx_bulk_acquire` returns. -/
inductive BulkCache.Acquired (c : BulkCache) (addr len : Nat) (flags : BulkFlags) :
    BulkCache × Except Errno BulkHandle → Prop
  | hit {i : Nat} {e : BulkEntry} {h : BulkHandle} (hat : c.slots[i]? = some e) (hh : e.handle = some h)
      (hkey : e.addr = addr ∧ e.len = len ∧ e.flags = flags) :
      Acquired c addr len flags
        ({ c with
            slots := c.slots.modify i fun e => { e with refs := e.refs + 1, usedSeq := c.seq + 1 }
            seq := c.seq + 1
            hits := c.hits + 1 }, .ok h)
  | failed (hmiss : ∀ e ∈ c.slots, ¬ e.Serves addr len flags) :
      Acquired c addr len flags ({ c with misses := c.misses + 1 }, .error .io)
  | overflow (hmiss : ∀ e ∈ c.slots, ¬ e.Serves addr len flags) :
      Acquired c addr len flags
        ({ c with misses := c.misses + 1, nextHandle := c.nextHandle + 1 }, .ok c.nextHandle)
  | filled {i : Nat} {e : BulkEntry} (hmiss : ∀ e ∈ c.slots, ¬ e.Serves addr len flags)
      (hat : c.slots[i]? = some e) (hfree : e.handle = none ∨ e.refs = 0) :
      Acquired c addr len flags
        ({ c with
            slots := c.slots.set i ⟨addr, len, flags, some c.nextHandle, 1, c.seq + 1⟩
            seq := c.seq + 1
            misses := c.misses + 1
            evicts := if e.handle.isSome then c.evicts + 1 else c.evicts
            nextHandle := c.nextHandle + 1
            bulkFreed := e.handle.toList ++ c.bulkFreed }, .ok c.nextHandle)

lemma BulkCache.acquired (c : BulkCache) (addr len : Nat) (flags : BulkFlags) (created : Bool) :
    c.Acquired addr len flags (nkvxBulkAcquire c addr len flags created) := by
  have hf := scan_finds c.slots addr len flags
  unfold nkvxBulkAcquire
  cases hs : nkvxBulkScan addr len flags c.slots 0 none none with
  | hit i h =>
    rw [hs] at hf
    obtain ⟨e, ha, hh, hk⟩ := hf
    exact .hit ha hh hk
  | miss slot =>
    rw [hs] at hf
    obtain ⟨hm, hl⟩ := hf
    cases created with
    | false => exact .failed hm
    | true =>
      cases slot with
      | none => exact .overflow hm
      | some i =>
        obtain ⟨e, ha, hr⟩ := hl i rfl
        have hold : c.slots[i]?.bind BulkEntry.handle = e.handle := by rw [ha]; rfl
        simp only [createUncached, if_true, hold]
        exact .filled hm ha hr

def nkvxBulkAcquireDmabuf (c : BulkCache) (base : Option Nat) (created : Bool) :
    BulkCache × Except Errno BulkHandle :=
  match base with
  | none => (c, .error .inval)
  | some _ => c.createUncached created

def nkvxBulkRelease (c : BulkCache) : Option BulkHandle → BulkCache
  | none => c
  | some h =>
    match c.slots.findIdx? fun e => e.handle = some h with
    | some i => { c with slots := c.slots.modify i fun e => { e with refs := e.refs - 1 } }
    | none => { c with bulkFreed := h :: c.bulkFreed }

end RadosNkv
