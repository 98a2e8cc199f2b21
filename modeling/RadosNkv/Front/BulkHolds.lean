import RadosNkv.Front.Regions
import RadosNkv.Front.Teardown
import Mathlib.Data.List.Perm.Basic

/-! The bulk handles over the whole life of a front. -/

namespace RadosNkv

open List BulkEntry

structure BulkUse where
  cache : BulkCache
  held : List BulkHandle
  regions : Regions
  finished : Bool

inductive BulkUseEvent where
  | acquire (addr len : Nat) (flags : BulkFlags) (created : Bool)
  | acquireDmabuf (fd : Int) (base : Option Nat) (len : Nat) (created : Bool)
  | release (h : Option BulkHandle)
  | fini

namespace BulkUse

def take (s : BulkUse) (r : BulkCache × Except Errno BulkHandle) (region : Region) : BulkUse :=
  { s with cache := r.1, held := r.2.toOption.toList ++ s.held, regions := s.regions.note s.cache r.1 region }

def step (s : BulkUse) : BulkUseEvent → BulkUse
  | .acquire addr len flags created => s.take (nkvxBulkAcquire s.cache addr len flags created) (.host addr len flags)
  | .acquireDmabuf fd base len created => s.take (nkvxBulkAcquireDmabuf s.cache base created) (.dmabuf fd len)
  | .release h => { s with cache := nkvxBulkRelease s.cache h, held := h.elim s.held s.held.erase }
  | .fini => { s with cache := s.cache.fini, finished := true }

def new : BulkUse := ⟨.empty, [], fun _ => none, false⟩

/-- Only a handle that is held is released, and the end comes when none is. -/
def Admits (s : BulkUse) (ev : BulkUseEvent) : Prop :=
  s.finished = false ∧
    match ev with
    | .release (some h) => h ∈ s.held
    | .fini => s.held = []
    | _ => True

instance (s : BulkUse) : ∀ ev, Decidable (s.Admits ev)
  | .release (some h) => inferInstanceAs (Decidable (s.finished = false ∧ h ∈ s.held))
  | .fini => inferInstanceAs (Decidable (s.finished = false ∧ s.held = []))
  | .acquire .. | .acquireDmabuf .. | .release none => inferInstanceAs (Decidable (s.finished = false ∧ True))

def loose (c : BulkCache) (held : List BulkHandle) : List BulkHandle := held.filter (· ∉ c.handles)

end BulkUse

open BulkUse (loose)

structure BulkCache.Counts (c : BulkCache) (held : List BulkHandle) : Prop where
  refs : ∀ e ∈ c.slots, ∀ h, e.handle = some h → e.refs = held.count h
  ledger : (c.bulkFreed ++ (c.handles ++ loose c held)).Perm (List.range c.nextHandle)

namespace BulkCache

variable {c c' : BulkCache} {held held' : List BulkHandle} {i : Nat} {e : BulkEntry} {h : BulkHandle}

lemma counts_empty : empty.Counts [] := by
  refine ⟨fun e he h hh => ?_, ?_⟩
  · rw [(mem_replicate.mp he).2] at hh
    cases hh
  have hn : empty.handles = [] := filterMap_eq_nil_iff.mpr fun e he => by
    rw [(mem_replicate.mp he).2]
  rw [hn]
  exact .refl _

lemma handles_modify (hf : ∀ e, (f e).handle = e.handle) (slots : List BulkEntry)
    (i : Nat) : (slots.modify i f).filterMap handle = slots.filterMap handle := by
  induction slots generalizing i with
  | nil => cases i <;> rfl
  | cons e slots ih =>
    cases i with
    | zero => simp only [modify_zero_cons, filterMap_cons, hf]
    | succ i => simp only [modify_succ_cons, filterMap_cons, ih]

lemma handles_set (ht : c.slots[i]? = some e) (e' : BulkEntry) :
    (e.handle.toList ++ (c.slots.set i e').filterMap handle).Perm (e'.handle.toList ++ c.handles) := by
  obtain ⟨hi, rfl⟩ := List.getElem?_eq_some_iff.mp ht
  have hs := (set_perm_cons_eraseIdx hi e').filterMap handle
  have hold := (getElem_cons_eraseIdx_perm hi).filterMap handle
  have hn : ∀ (a : BulkEntry) (l : List BulkEntry),
      (a :: l).filterMap handle = a.handle.toList ++ l.filterMap handle := by
    intro a l
    cases ha : a.handle <;> simp [ha]
  rw [hn] at hs hold
  exact (hs.append_left _).trans ((perm_append_comm_assoc ..).trans (hold.append_left _))

namespace Counts

lemma nodup (hc : c.Counts held) : (c.bulkFreed ++ (c.handles ++ loose c held)).Nodup :=
  hc.ledger.nodup_iff.mpr nodup_range

lemma lt (hc : c.Counts held) (hm : h ∈ c.bulkFreed ++ (c.handles ++ loose c held)) : h < c.nextHandle :=
  mem_range.mp (hc.ledger.mem_iff.mp hm)

lemma mem_of_held (hm : h ∈ held) : h ∈ c.handles ++ loose c held := by
  by_cases hi : h ∈ c.handles
  · exact mem_append_left _ hi
  · exact mem_append_right _ (mem_filter.mpr ⟨hm, by simpa using hi⟩)

section

variable (hc : c.Counts held)
include hc

lemma not_freed (hm : h ∈ held) : h ∉ c.bulkFreed := fun hf =>
  (nodup_append.mp hc.nodup).2.2 h hf h (mem_of_held hm) rfl

lemma slot_unique (hi : c.slots[i]? = some e) (hj : c.slots[j]? = some e') (hh : e.handle = some h)
    (hh' : e'.handle = some h) : i = j := by
  have hd := pairwise_filterMap.mp (nodup_append.mp (nodup_append.mp hc.nodup).2.1).1
  obtain ⟨hil, rfl⟩ := List.getElem?_eq_some_iff.mp hi
  obtain ⟨hjl, rfl⟩ := List.getElem?_eq_some_iff.mp hj
  have hl := pairwise_iff_getElem.mp hd
  rcases Nat.lt_trichotomy i j with hij | hij | hij
  · exact absurd rfl (hl i j hil hjl hij h hh h hh')
  · exact hij
  · exact absurd rfl (hl j i hjl hil hij h hh' h hh)

lemma adjust (ht : c.slots[i]? = some e)
    (hh : e.handle = some h) (hs : c'.slots = c.slots.modify i f) (hf : ∀ e, (f e).handle = e.handle)
    (hr : c'.bulkFreed = c.bulkFreed) (hx : c'.nextHandle = c.nextHandle)
    (hsf : (f e).refs = held'.count h) (ho : ∀ h', h' ≠ h → held'.count h' = held.count h') : c'.Counts held' := by
  have hn : c'.handles = c.handles := by
    unfold handles
    rw [hs, handles_modify hf]
  refine ⟨fun e' he' h' hh' => ?_, ?_⟩
  · rw [hs] at he'
    obtain ⟨j, hj⟩ := mem_iff_getElem?.mp he'
    rw [getElem?_modify] at hj
    obtain ⟨e0, he0, rfl⟩ := Option.map_eq_some_iff.mp hj
    by_cases hi : i = j
    · subst hi
      rw [ht] at he0
      cases he0
      rw [if_pos rfl, hf, hh] at hh'
      cases hh'
      rw [if_pos rfl, hsf]
    rw [if_neg hi] at hh' ⊢
    have hne : h' ≠ h := fun he => hi (hc.slot_unique ht he0 hh (he ▸ hh'))
    rw [ho h' hne]
    exact hc.refs e0 (mem_of_getElem? he0) h' hh'
  have hl : (loose c' held').Perm (loose c held) := by
    unfold loose
    rw [hn]
    refine perm_iff_count.mpr fun a => ?_
    by_cases ha : a ∈ c.handles
    · rw [count_eq_zero_of_not_mem (by simp [ha]), count_eq_zero_of_not_mem (by simp [ha])]
    rw [count_filter (by simpa using ha), count_filter (by simpa using ha)]
    exact ho a fun he => ha (he ▸ mem_filterMap.mpr ⟨e, mem_of_getElem? ht, hh⟩)
  rw [hr, hx, hn]
  exact ((hl.append_left _).append_left _).trans hc.ledger

lemma overflow (hs : c'.slots = c.slots) (hd : c'.bulkFreed = c.bulkFreed)
    (hx : c'.nextHandle = c.nextHandle + 1) : c'.Counts (c.nextHandle :: held) := by
  have hn : c'.handles = c.handles := by
    unfold handles
    rw [hs]
  have hf : c.nextHandle ∉ c.handles := fun hi =>
    lt_irrefl _ (hc.lt (mem_append_right _ (mem_append_left _ hi)))
  refine ⟨fun e he h hh => ?_, ?_⟩
  · rw [hs] at he
    have hne : c.nextHandle ≠ h := fun hq => hf (hq ▸ mem_filterMap.mpr ⟨e, he, hh⟩)
    rw [count_cons_of_ne hne]
    exact hc.refs e he h hh
  · have hl : loose c' (c.nextHandle :: held) = c.nextHandle :: loose c held := by
      unfold loose
      rw [hn, filter_cons_of_pos (by simpa using hf)]
    rw [hn, hl, hd, hx, range_succ, ← append_assoc]
    refine (perm_middle.trans ?_).trans (perm_append_singleton ..).symm
    rw [append_assoc]
    exact hc.ledger.cons _

lemma filled (ha : c.slots[i]? = some e) (hfr : e.handle = none ∨ e.refs = 0)
    {e' : BulkEntry} (hh' : e'.handle = some c.nextHandle) (hr : e'.refs = 1)
    (hs : c'.slots = c.slots.set i e') (hd : c'.bulkFreed = e.handle.toList ++ c.bulkFreed)
    (hx : c'.nextHandle = c.nextHandle + 1) : c'.Counts (c.nextHandle :: held) := by
  have hp : (e.handle.toList ++ c'.handles).Perm (c.nextHandle :: c.handles) := by
    have := handles_set ha e'
    rw [hh'] at this
    unfold handles at this ⊢
    rw [hs]
    exact this
  have hf : c.nextHandle ∉ held := fun hm => lt_irrefl _ (hc.lt (mem_append_right _ (mem_of_held hm)))
  -- the handle that leaves its slot is held by no call
  have hg : ∀ h ∈ e.handle, h ∉ held := by
    intro h hh hm
    rcases hfr with hn | hz
    · rw [hn] at hh
      cases hh
    · have hcn := hc.refs e (mem_of_getElem? ha) h hh
      rw [hz] at hcn
      exact ne_of_lt (count_pos_iff.mpr hm) hcn
  refine ⟨fun e1 he1 h hh => ?_, ?_⟩
  · rw [hs] at he1
    rcases mem_or_eq_of_mem_set he1 with he1 | rfl
    · have hin : h ∈ c.handles := mem_filterMap.mpr ⟨e1, he1, hh⟩
      have he : c.nextHandle ≠ h := by
        rintro rfl
        exact lt_irrefl _ (hc.lt (mem_append_right _ (mem_append_left _ hin)))
      rw [count_cons_of_ne he]
      exact hc.refs e1 he1 h hh
    · rw [hh'] at hh
      cases hh
      rw [hr, count_cons_self, count_eq_zero_of_not_mem hf]
  · have hme : ∀ h ∈ held, (h ∈ c'.handles ↔ h ∈ c.handles) := by
      intro h hm
      have hi := hp.mem_iff (a := h)
      have hold : h ∉ e.handle.toList := fun hin => hg h (by simpa using hin) hm
      have he : h ≠ c.nextHandle := fun hq => hf (hq ▸ hm)
      rw [mem_append, mem_cons, or_iff_right hold, or_iff_right he] at hi
      exact hi
    have hw : c.nextHandle ∈ c'.handles :=
      mem_filterMap.mpr ⟨e', hs ▸ mem_set (List.getElem?_eq_some_iff.mp ha).1 e', hh'⟩
    have hl : loose c' (c.nextHandle :: held) = loose c held := by
      unfold loose
      rw [filter_cons_of_neg (by simpa using hw)]
      exact filter_congr fun h hm => by rw [decide_eq_decide, hme h hm]
    rw [hl, hd, hx, range_succ]
    have hv : (e.handle.toList ++ c.bulkFreed ++ (c'.handles ++ loose c held)).Perm
        (c.bulkFreed ++ ((e.handle.toList ++ c'.handles) ++ loose c held)) := by
      rw [append_assoc, append_assoc]
      exact perm_append_comm_assoc ..
    refine hv.trans (((hp.append_right _).append_left _).trans ?_)
    exact (perm_middle.trans (hc.ledger.cons _)).trans (perm_append_singleton ..).symm

lemma freed (ho : h ∉ c.handles) (hm : h ∈ held) (hs : c'.slots = c.slots)
    (hr : c'.bulkFreed = h :: c.bulkFreed) (hx : c'.nextHandle = c.nextHandle) : c'.Counts (held.erase h) := by
  have hn : c'.handles = c.handles := by
    unfold handles
    rw [hs]
  refine ⟨fun e he h' hh => ?_, ?_⟩
  · rw [hs] at he
    have hne : h' ≠ h := fun hq => ho (hq ▸ mem_filterMap.mpr ⟨e, he, hh⟩)
    rw [count_erase_of_ne hne]
    exact hc.refs e he h' hh
  have hl : (loose c held).Perm (h :: loose c' (held.erase h)) := by
    have hf := (perm_cons_erase hm).filter (· ∉ c.handles)
    rw [filter_cons_of_pos (by simpa using ho)] at hf
    unfold loose
    rw [hn]
    exact hf
  rw [hn, hr, hx]
  refine List.Perm.trans ?_ hc.ledger
  refine List.Perm.trans ?_ ((hl.append_left _).append_left _).symm
  rw [cons_append]
  refine perm_middle.symm.trans (List.Perm.append_left _ ?_)
  exact perm_middle.symm

lemma acquire (addr len : Nat) (flags : BulkFlags) (created : Bool) :
    (nkvxBulkAcquire c addr len flags created).1.Counts
      ((nkvxBulkAcquire c addr len flags created).2.toOption.toList ++ held) := by
  have ha := c.acquired addr len flags created
  generalize nkvxBulkAcquire c addr len flags created = r at ha ⊢
  cases ha with
  | hit ht hh hk =>
    refine hc.adjust ht hh rfl (fun _ => rfl) rfl rfl ?_ fun h' hn => count_cons_of_ne hn.symm
    change _ + 1 = List.count _ (_ :: held)
    rw [count_cons_self, hc.refs _ (mem_of_getElem? ht) _ hh]
  | failed => exact ⟨hc.refs, hc.ledger⟩
  | overflow => exact hc.overflow rfl rfl rfl
  | filled _ ht hf => exact hc.filled ht hf rfl rfl rfl rfl rfl

lemma acquireDmabuf (base : Option Nat) (created : Bool) : (nkvxBulkAcquireDmabuf c base created).1.Counts
      ((nkvxBulkAcquireDmabuf c base created).2.toOption.toList ++ held) := by
  cases base with
  | none => exact hc
  | some _ =>
    cases created with
    | false => exact ⟨hc.refs, hc.ledger⟩
    | true => exact hc.overflow rfl rfl rfl

lemma release (hm : h ∈ held) : (nkvxBulkRelease c (some h)).Counts (held.erase h) := by
  unfold nkvxBulkRelease
  dsimp only
  cases hf : c.slots.findIdx? fun e => e.handle = some h with
  | some i =>
    obtain ⟨hi, hh, -⟩ := findIdx?_eq_some_iff_getElem.mp hf
    have ha : c.slots[i]? = some c.slots[i] := getElem?_eq_getElem hi
    refine hc.adjust ha (of_decide_eq_true hh) rfl (fun _ => rfl) rfl rfl ?_ fun h' hn =>
      count_erase_of_ne hn
    change c.slots[i].refs - 1 = _
    rw [count_erase_self, hc.refs _ (mem_of_getElem? ha) h (of_decide_eq_true hh)]
  | none =>
    refine hc.freed (fun hin => ?_) hm rfl rfl rfl
    obtain ⟨e, he, hh⟩ := mem_filterMap.mp hin
    exact absurd (decide_eq_true hh) (findIdx?_eq_none_iff.mp hf e he ▸ Bool.false_ne_true)

end

lemma fini (hc : c.Counts []) : c.fini.Counts [] := by
  refine ⟨fun e he => (not_mem_nil he).elim, ?_⟩
  have hl := hc.ledger
  have hn : loose c [] = [] := rfl
  rw [hn, append_nil] at hl
  change ((c.handles ++ c.bulkFreed) ++ ([] ++ [])).Perm (List.range c.nextHandle)
  rw [append_nil, append_nil]
  exact perm_append_comm.trans hl

end Counts

end BulkCache

namespace BulkUse

structure Inv (s : BulkUse) : Prop where
  counts : s.cache.Counts s.held
  tracks : s.cache.Tracks s.regions
  swept : s.finished = true → s.cache.slots = [] ∧ s.held = []

lemma inv_new : new.Inv := ⟨BulkCache.counts_empty, BulkCache.tracks_empty, fun h => by cases h⟩

variable {s : BulkUse} {ev : BulkUseEvent}

lemma Inv.step (h : s.Inv) (ha : s.Admits ev) : (s.step ev).Inv := by
  have ho : ∀ {P : Prop}, s.finished = true → P := fun hf => by rw [ha.1] at hf; cases hf
  cases ev with
  | acquire addr len flags created =>
    exact ⟨h.counts.acquire addr len flags created, (h.tracks.acquire addr len flags created).1, ho⟩
  | acquireDmabuf fd base len created =>
    exact ⟨h.counts.acquireDmabuf base created, (h.tracks.acquireDmabuf base created (.dmabuf fd len)).1, ho⟩
  | release handle =>
    cases handle with
    | none => exact h
    | some handle => exact ⟨h.counts.release ha.2, h.tracks.release (some handle), ho⟩
  | fini =>
    have hn : s.held = [] := ha.2
    have hcn := h.counts
    rw [hn] at hcn
    exact ⟨hn ▸ hcn.fini, fun e he => (not_mem_nil he).elim, fun _ => ⟨rfl, hn⟩⟩

/-- A slot with references keeps its registration. -/
def KeepsReferenced (s : BulkUse) (ev : BulkUseEvent) : Prop :=
  ∀ (i : Nat) (e : BulkEntry) (h : BulkHandle), s.cache.slots[i]? = some e → e.handle = some h → e.refs ≠ 0 →
    ∃ e' : BulkEntry, (s.step ev).cache.slots[i]? = some e' ∧
      e'.handle = some h ∧ e'.addr = e.addr ∧ e'.len = e.len ∧ e'.flags = e.flags

lemma keeps_modify {slots : List BulkEntry} {i : Nat} {e : BulkEntry} (ha : slots[i]? = some e) (j : Nat)
    (refs usedSeq : BulkEntry → Nat) :
    ∃ e', (slots.modify j fun e => { e with refs := refs e, usedSeq := usedSeq e })[i]? = some e' ∧
      e'.handle = e.handle ∧ e'.addr = e.addr ∧ e'.len = e.len ∧ e'.flags = e.flags := by
  rw [getElem?_modify, ha]
  by_cases hi : j = i
  · exact ⟨_, congrArg some (if_pos hi), rfl, rfl, rfl, rfl⟩
  · exact ⟨_, congrArg some (if_neg hi), rfl, rfl, rfl, rfl⟩

lemma Inv.keepsReferenced (h : s.Inv) (had : s.Admits ev) : s.KeepsReferenced ev := by
  intro i e hd ht hh hr
  have hs : ∃ e' : BulkEntry, s.cache.slots[i]? = some e' ∧
      e'.handle = some hd ∧ e'.addr = e.addr ∧ e'.len = e.len ∧ e'.flags = e.flags :=
    ⟨e, ht, hh, rfl, rfl, rfl⟩
  cases ev with
  | acquire addr len flags created =>
    have ha := s.cache.acquired addr len flags created
    simp only [BulkUse.step, take]
    generalize nkvxBulkAcquire s.cache addr len flags created = r at ha ⊢
    cases ha with
    | hit => exact hh ▸ keeps_modify ht ..
    | failed => exact hs
    | overflow => exact hs
    | @filled j e0 _ ht0 hf =>
      have he : j ≠ i := by
        rintro rfl
        rw [ht] at ht0
        cases ht0
        rcases hf with hn | hz
        · rw [hn] at hh
          cases hh
        · exact hr hz
      rw [getElem?_set_ne he]
      exact hs
  | acquireDmabuf fd base len created =>
    cases base with
    | none => exact hs
    | some _ => cases created <;> exact hs
  | release handle =>
    cases handle with
    | none => exact hs
    | some handle =>
      simp only [BulkUse.step, nkvxBulkRelease]
      cases s.cache.slots.findIdx? fun e => e.handle = some handle with
      | some => exact hh ▸ keeps_modify ht ..
      | none => exact hs
  | fini =>
    -- nothing is held, so nothing is referenced
    have hn : s.held = [] := had.2
    have hz := h.counts.refs e (mem_of_getElem? ht) hd hh
    rw [hn] at hz
    exact absurd hz hr

/-- The handle that an acquisition returns is registered for the memory it was asked for; one that
comes out of the cache was registered for it before. -/
def ReturnsRegistered (s : BulkUse) (ev : BulkUseEvent) : Prop :=
  match ev with
  | .acquire addr len flags created =>
    ∀ h, (nkvxBulkAcquire s.cache addr len flags created).2 = .ok h →
      (s.step ev).regions h = some (.host addr len flags) ∧
        (s.cache.hits < (s.step ev).cache.hits → s.regions h = some (.host addr len flags))
  | .acquireDmabuf fd base len created =>
    ∀ h, (nkvxBulkAcquireDmabuf s.cache base created).2 = .ok h → (s.step ev).regions h = some (.dmabuf fd len)
  | _ => True

lemma Inv.returnsRegistered (h : s.Inv) (ev : BulkUseEvent) : s.ReturnsRegistered ev := by
  cases ev with
  | acquire addr len flags created =>
    intro hd ho
    refine ⟨(h.tracks.acquire addr len flags created).2 hd ho, fun hi => ?_⟩
    have ha := s.cache.acquired addr len flags created
    simp only [BulkUse.step, take] at hi
    generalize nkvxBulkAcquire s.cache addr len flags created = r at ha ho hi
    cases ha with
    | hit ht hh hk =>
      obtain ⟨rfl, rfl, rfl⟩ := hk
      cases ho
      exact (h.tracks _ (mem_of_getElem? ht) hd hh).2
    | failed => exact absurd hi (lt_irrefl _)
    | overflow => exact absurd hi (lt_irrefl _)
    | filled => exact absurd hi (lt_irrefl _)
  | acquireDmabuf fd base len created =>
    exact (h.tracks.acquireDmabuf base created (.dmabuf fd len)).2
  | release => trivial
  | fini => trivial

end BulkUse

/-- The books of the bulk handle cache, for any use of it in which calls release what they acquired
and the front is finished when they have released it all: the references of a slot count the holds
of its handle, a referenced slot is never reused, a held handle is never freed, a handle is returned
for the buffer it was registered for, no handle is freed twice, and when the front is finished every
handle that was created has been freed. -/
theorem bulk_handles_bookkept (evs : List BulkUseEvent)
    (h : Machine.Along BulkUse.step BulkUse.Admits .new evs) :
    let s := Machine.run BulkUse.step .new evs
    (∀ e ∈ s.cache.slots, ∀ hd, e.handle = some hd → e.refs = s.held.count hd) ∧
      Machine.Along BulkUse.step BulkUse.KeepsReferenced .new evs ∧
      (∀ hd ∈ s.held, hd ∉ s.cache.bulkFreed) ∧
      Machine.Along BulkUse.step BulkUse.ReturnsRegistered .new evs ∧
      s.cache.bulkFreed.Nodup ∧ (∀ hd ∈ s.cache.bulkFreed, hd < s.cache.nextHandle) ∧
      (s.finished = true → s.cache.bulkFreed.Perm (List.range s.cache.nextHandle)) := by
  intro s
  have hinv : s.Inv := Machine.run_induct_along _ BulkUse.inv_new (fun _ _ hi had => hi.step had) h
  refine ⟨hinv.counts.refs,
    Machine.along_of_invariant _ BulkUse.inv_new (fun _ _ hi had => hi.step had)
      (fun _ _ hi had => hi.keepsReferenced had) h,
    fun hd hm => hinv.counts.not_freed hm,
    Machine.along_of_invariant _ BulkUse.inv_new (fun _ _ hi had => hi.step had)
      (fun _ ev hi _ => hi.returnsRegistered ev) h,
    (nodup_append.mp hinv.counts.nodup).1,
    fun hd hm => hinv.counts.lt (mem_append_left _ hm), fun hfin => ?_⟩
  obtain ⟨hslot, hheld⟩ := hinv.swept hfin
  have hlog := hinv.counts.ledger
  unfold BulkCache.handles at hlog
  rw [hslot, hheld] at hlog
  simpa [loose] using hlog

def sharedBulkUse : List BulkUseEvent :=
  [.acquire 0x1000 8192 .readOnly true, .acquireDmabuf 5 (some 0) 4096 true, .acquire 0x1000 8192 .readOnly true,
    .release (some 1), .release (some 0), .release (some 0), .fini]

theorem bulk_handles_bookkept_shared :
    Machine.Along BulkUse.step BulkUse.Admits .new sharedBulkUse ∧
      (Machine.run BulkUse.step .new sharedBulkUse).cache.bulkFreed.Perm [0, 1] := by
  have hadm : Machine.Along BulkUse.step BulkUse.Admits .new sharedBulkUse := by decide
  exact ⟨hadm, (bulk_handles_bookkept sharedBulkUse hadm).2.2.2.2.2.2 (by decide)⟩

end RadosNkv
