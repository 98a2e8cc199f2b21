import RadosNkv.Forwarder.Bridge
import RadosNkv.Front.Bookkeeping

/-! The lifetimes of the memory behind the bulk handles of Execs. -/

namespace RadosNkv

open List Option

open Memory (Seg)

inductive InputPlace where
  | none
  | segment (addr len : Nat)
  | bounce (len : Nat)

def execInputPlace (iovs : List Seg) (valueOff payloadLen : Nat) : InputPlace :=
  if payloadLen > valueOff then
    let inputLen := min (payloadLen - valueOff) (2 ^ 32 - 1)
    match iovs with
    | v :: _ =>
      if v.len ≥ valueOff + inputLen then .segment (v.base + valueOff) inputLen
      else if inputLen > 0 then .bounce inputLen else .none
    | [] => if inputLen > 0 then .bounce inputLen else .none
  else .none

/-- Where the handler finds the input is where `execInput` reads it. -/
lemma execInput_eq_place (mem : HostMem) (iovs : List Seg) (valueOff payloadLen : Nat) (bounce : Bool) :
    (execInput mem iovs valueOff payloadLen bounce).map Prod.snd =
      match execInputPlace iovs valueOff payloadLen with
      | .none => .ok none
      | .segment addr len => .ok (some (Memory.read mem addr len))
      | .bounce len => if bounce then .ok (some (kvradosGather mem iovs 0 valueOff len)) else .error () := by
  unfold execInput execInputPlace
  split
  · cases iovs <;> dsimp only <;> split_ifs <;> rfl
  · rfl

structure ExecCommand where
  args : ExecArgs
  iovs : List Seg
  valueOff : Nat
  osize : UInt32
  block : Option Nat
  kctx : Bool
  allocated : Bool
  outcome : ForwardOutcome

namespace ExecCommand

variable (c : ExecCommand)

def place : InputPlace := execInputPlace c.iovs c.valueOff (Memory.total c.iovs)

def bounce : Option Seg :=
  match c.place with
  | .bounce len => c.block.map fun addr => ⟨addr, len⟩
  | _ => none

def request : Option ExecArgs :=
  if !c.kctx then none
  else
    match c.place with
    | .none => some { c.args with input := none, inputLen := 0 }
    | .segment addr len => some { c.args with input := some addr, inputLen := .ofNat len }
    | .bounce len => c.block.map fun addr => { c.args with input := some addr, inputLen := .ofNat len }

def sink : Option (Nat × Nat) := execSink c.iovs c.valueOff c.osize.toNat

def outBuf : Option Nat := c.sink.map Prod.fst

def outLen : UInt32 := .ofNat ((c.sink.map Prod.snd).getD 0)

end ExecCommand

structure ExecMemory where
  front : Front
  regions : Regions
  allocations : Nat
  allocatedAt : Nat → Nat
  createdAt : BulkHandle → Nat
  bounces : List (Nat × Seg)

inductive ExecMemoryEvent where
  | exec (c : ExecCommand)
  | kvForward (input : KvIn) (sink : Option Nat) (sinkLen : Nat) (o : ForwardOutcome)
  | cancel (token : Nat) (o : CancelOutcome)
  | cancelAll (o : Nat → CancelOutcome)
  | failAll (status : IoStatus)
  | fire (c : Completion)

variable {addr : Nat}

namespace ExecMemory

def new : ExecMemory := ⟨.init, fun _ => none, 0, fun _ => 0, fun _ => 0, []⟩

section

variable (s : ExecMemory)

def malloc : Option Seg → ExecMemory
  | none => s
  | some b =>
    { s with
      allocations := s.allocations + 1
      allocatedAt := fun x => if b.Covers x then s.allocations + 1 else s.allocatedAt x }

def stamp : BulkHandle → Nat := fun h =>
  if h < s.front.bulk.nextHandle then s.createdAt h else s.allocations

def advance (e : FrontEvent) : ExecMemory :=
  { s with
    front := s.front.step e
    regions := s.regions.step s.front e
    createdAt := s.stamp
    bounces := s.bounces.filter fun b => tenantCalls ((s.front.step e).callLog b.1) = 0 }

def exec (c : ExecCommand) : ExecMemory × Option Nat :=
  let s := s.malloc c.bounce
  match c.request with
  | none => (s, none)
  | some a =>
    let r := kvdevRadosNkvxFrontForward s.front a c.outBuf c.outLen c.allocated c.outcome
    let regions :=
      if a.key = [] ∨ c.allocated = false then s.regions
      else s.regions.forward s.front (a.request c.outLen) c.outBuf c.outLen.toNat (-1) c.outcome
    let s' := { s with front := r.1, regions := regions, createdAt := s.stamp }
    match r.2 with
    | .error _ => (s', none)
    | .ok (id, _) => ({ s' with bounces := (c.bounce.map fun b => (id, b)).toList ++ s'.bounces }, some id)

def step : ExecMemoryEvent → ExecMemory
  | .exec c => (s.exec c).1
  | .kvForward input sink sinkLen o => s.advance (.kvForward input sink sinkLen o)
  | .cancel token o => s.advance (.cancel token o)
  | .cancelAll o => s.advance (.cancelAll o)
  | .failAll status => s.advance (.failAll status)
  | .fire c => s.advance (.fire c)

/-- What the handle registers has not been allocated anew since. -/
def Fresh (h : BulkHandle) : Prop :=
  ∀ addr len flags, s.regions h = some (.host addr len flags) →
    ∀ x, (⟨addr, len⟩ : Seg).Covers x → s.allocatedAt x ≤ s.createdAt h

/-- An Exec that is sent ships fresh handles. -/
def ShipsFresh : ExecMemoryEvent → Prop
  | .exec c => ∀ id, (s.exec c).2 = some id →
    ∃ wire, (s.exec c).1.front.log.head? = some (id, .execSent wire) ∧
      (∀ h ∈ wire.inputBulk, (s.exec c).1.Fresh h) ∧ ∀ h ∈ wire.resultSink, (s.exec c).1.Fresh h
  | _ => True

end

/-- The iovs are the tenant's memory; a bounce buffer is neither that nor another's that is live. -/
def Allocates (tenant : Nat → Prop) (s : ExecMemory) : ExecMemoryEvent → Prop
  | .exec c => (∀ v ∈ c.iovs, ∀ x, v.Covers x → tenant x) ∧
    ∀ b ∈ c.bounce, ∀ x, b.Covers x → ¬ tenant x ∧ ∀ live ∈ s.bounces, ¬ live.2.Covers x
  | _ => True

/-- No cached registration serves the bounce buffer that an Exec ships. -/
def Unregistered (s : ExecMemory) : ExecMemoryEvent → Prop
  | .exec c => ∀ b ∈ c.bounce, nkvxInlineMax < b.len → (s.exec c).2.isSome →
    ∀ e ∈ s.front.bulk.slots, ¬ e.Serves b.base b.len .readOnly
  | _ => True

lemma segment_within (h : execInputPlace iovs valueOff payloadLen = .segment addr len) :
    ∃ v ∈ iovs, ∀ x, (⟨addr, len⟩ : Seg).Covers x → v.Covers x := by
  unfold execInputPlace at h
  split_ifs at h
  cases iovs with
  | nil =>
    dsimp only at h
    split_ifs at h
  | cons v vs =>
    dsimp only at h
    split_ifs at h with ho
    cases h
    refine ⟨v, mem_cons_self, fun x hx => ?_⟩
    simp only [Seg.Covers] at hx ⊢
    omega

lemma bounce_lt (h : execInputPlace iovs valueOff payloadLen = .bounce len) : len < 2 ^ 32 := by
  unfold execInputPlace at h
  split_ifs at h
  cases iovs with
  | nil =>
    dsimp only at h
    split_ifs at h
    cases h
    omega
  | cons v vs =>
    dsimp only at h
    split_ifs at h
    cases h
    omega

lemma sink_within (h : execSink iovs valueOff osize = some (base, len)) :
    ∃ v ∈ iovs, ∀ x, (⟨base, len⟩ : Seg).Covers x → v.Covers x := by
  cases iovs with
  | nil => cases h
  | cons v vs =>
    simp only [execSink] at h
    split_ifs at h
    cases h
    refine ⟨v, mem_cons_self, fun x hx => ?_⟩
    simp only [Seg.Covers] at hx ⊢
    omega

lemma outBuf_within (c : ExecCommand) (hx : (⟨c.outBuf.getD 0, c.outLen.toNat⟩ : Seg).Covers x) :
    ∃ v ∈ c.iovs, v.Covers x := by
  have hl : c.outLen.toNat ≤ (c.sink.map Prod.snd).getD 0 := by
    unfold ExecCommand.outLen
    rw [UInt32.toNat_ofNat']
    exact Nat.mod_le ..
  unfold ExecCommand.outBuf at hx
  cases hs : c.sink with
  | none =>
    rw [hs] at hl
    simp only [Seg.Covers] at hx
    simp only [map_none, getD_none] at hl
    omega
  | some p =>
    rw [hs] at hx hl
    obtain ⟨v, hv, hi⟩ := sink_within hs
    refine ⟨v, hv, hi x ?_⟩
    simp only [Seg.Covers, map_some, getD_some] at hx hl ⊢
    omega

variable {tenant : Nat → Prop} {s : ExecMemory}

@[simp] lemma front_malloc (b : Option Seg) : (s.malloc b).front = s.front := by cases b <;> rfl
@[simp] lemma regions_malloc (b : Option Seg) : (s.malloc b).regions = s.regions := by cases b <;> rfl

structure Inv (tenant : Nat → Prop) (s : ExecMemory) : Prop where
  tracks : s.front.bulk.Tracks s.regions
  stable : ∀ x, tenant x → s.allocatedAt x = 0
  allocated_le : ∀ x, s.allocatedAt x ≤ s.allocations
  created_le : ∀ h, s.createdAt h ≤ s.allocations

lemma inv_new : new.Inv tenant :=
  ⟨BulkCache.tracks_empty, fun _ _ => rfl, fun _ => le_rfl, fun _ => le_rfl⟩

namespace Inv

lemma malloc (h : s.Inv tenant) (hb : ∀ v ∈ b, ∀ x, v.Covers x → ¬ tenant x) :
    (s.malloc b).Inv tenant := by
  cases b with
  | none => exact h
  | some b =>
    refine ⟨h.tracks, fun x hx => ?_, fun x => ?_, fun hd => Nat.le_succ_of_le (h.created_le hd)⟩
    · exact (if_neg fun hc => hb b rfl x hc hx).trans (h.stable x hx)
    change (if b.Covers x then s.allocations + 1 else s.allocatedAt x) ≤ s.allocations + 1
    split
    · exact le_rfl
    · exact Nat.le_succ_of_le (h.allocated_le x)

lemma stamp_le (h : s.Inv tenant) (hd : BulkHandle) : s.stamp hd ≤ s.allocations := by
  unfold stamp
  split
  · exact h.created_le hd
  · exact le_rfl

lemma advance (h : s.Inv tenant) (e : FrontEvent) : (s.advance e).Inv tenant :=
  ⟨Front.tracks_step h.tracks e, h.stable, h.allocated_le, h.stamp_le⟩

end Inv

lemma tracks_bridge {f : Front} (h : f.bulk.Tracks m) (a : ExecArgs) (outBuf : Option Nat)
    (outLen : UInt32) (allocated : Bool) (o : ForwardOutcome) :
    (kvdevRadosNkvxFrontForward f a outBuf outLen allocated o).1.bulk.Tracks (if a.key = [] ∨ allocated = false then m
        else m.forward f (a.request outLen) outBuf outLen.toNat (-1) o) := by
  unfold kvdevRadosNkvxFrontForward execForward
  by_cases hk : a.key = []
  · rwa [if_pos hk, if_pos (.inl hk)]
  cases allocated with
  | false => rwa [if_neg hk, if_pos (by rfl), if_pos (.inr rfl)]
  | true =>
    rw [if_neg hk, if_neg (by simp), if_neg (by simp [hk])]
    have ht := Front.tracks_forward h (a.request outLen) outBuf outLen.toNat (-1) o
    rcases hr : nkvxFrontForwardFull f (a.request outLen) outBuf outLen.toNat (-1) o with ⟨f', e | id⟩ <;>
      rw [hr] at ht <;> exact ht

lemma Inv.exec (h : s.Inv tenant) (ha : s.Allocates tenant (.exec c)) : (s.exec c).1.Inv tenant := by
  have hm := h.malloc fun b hb x hx => (ha.2 b hb x hx).1
  unfold ExecMemory.exec
  cases c.request with
  | none => exact hm
  | some a =>
    have ht := tracks_bridge hm.tracks a c.outBuf c.outLen c.allocated c.outcome
    dsimp only
    rcases hr : kvdevRadosNkvxFrontForward (s.malloc c.bounce).front a c.outBuf c.outLen c.allocated c.outcome with
      ⟨f, e | ⟨id, ctx⟩⟩ <;> rw [hr] at ht <;> exact ⟨ht, hm.stable, hm.allocated_le, hm.stamp_le⟩

lemma Inv.step (h : s.Inv tenant) (ha : s.Allocates tenant ev) : (s.step ev).Inv tenant := by
  cases ev with
  | exec c => exact h.exec ha
  | kvForward => exact h.advance _
  | cancel => exact h.advance _
  | cancelAll => exact h.advance _
  | failAll => exact h.advance _
  | fire => exact h.advance _

lemma exec_some {id : Nat} (h : (s.exec c).2 = some id) : ∃ a, c.request = some a ∧
      nkvxFrontForwardFull s.front (a.request c.outLen) c.outBuf c.outLen.toNat (-1) c.outcome =
        ((s.exec c).1.front, .ok id) ∧
      (s.exec c).1.regions = s.regions.forward s.front (a.request c.outLen) c.outBuf c.outLen.toNat (-1) c.outcome ∧
      (s.exec c).1.createdAt = (s.malloc c.bounce).stamp ∧
      (s.exec c).1.allocatedAt = (s.malloc c.bounce).allocatedAt := by
  unfold exec at h ⊢
  cases he : c.request with
  | none =>
    rw [he] at h
    cases h
  | some a =>
    simp only [he, front_malloc, regions_malloc] at h ⊢
    rcases hr : kvdevRadosNkvxFrontForward s.front a c.outBuf c.outLen c.allocated c.outcome with
      ⟨f, e | ⟨id', ctx⟩⟩ <;> simp only [hr] at h ⊢
    · cases h
    cases h
    have hg : ¬ (a.key = [] ∨ c.allocated = false) := by
      rintro (hk | ha)
      · rw [kvdevRadosNkvxFrontForward, execForward, if_pos hk] at hr
        cases hr
      rw [kvdevRadosNkvxFrontForward, execForward, ha] at hr
      by_cases hk : a.key = []
      · rw [if_pos hk] at hr
        cases hr
      rw [if_neg hk, if_pos (by rfl)] at hr
      cases hr
    exact ⟨a, rfl, (execForward_ok hr).2, if_neg hg, trivial, trivial⟩

lemma Inv.fresh_of_tenant (h : s.Inv tenant) (hr : s.regions hd = some (.host addr len flags))
    (ht : ∀ x, (⟨addr, len⟩ : Seg).Covers x → tenant x) :
    s.Fresh hd := by
  intro addr' len' flags' hr' x hx
  rw [hr] at hr'
  cases hr'
  rw [h.stable x (ht x hx)]
  exact Nat.zero_le _

lemma exec_ships (h : s.Inv tenant) (hal : s.Allocates tenant (.exec c)) {id : Nat} (hid : (s.exec c).2 = some id) :
    ∃ wire, (s.exec c).1.front.log.head? = some (id, .execSent wire) ∧ (∀ hd ∈ wire.resultSink, (s.exec c).1.Fresh hd) ∧
      ((∀ hd ∈ wire.inputBulk, (s.exec c).1.Fresh hd) ↔
        ∀ b ∈ c.bounce, nkvxInlineMax < b.len → ∀ e ∈ s.front.bulk.slots, ¬ e.Serves b.base b.len .readOnly) := by
  have hnx := h.exec hal
  have hm := h.malloc fun b hb x hx => (hal.2 b hb x hx).1
  obtain ⟨a, hr, hf, hre, hc, ha⟩ := exec_some hid
  obtain ⟨wire, ht, hn, hi, hsn⟩ := Front.forwardFull_ships h.tracks hf
  rw [← hre] at hi hsn
  refine ⟨wire, ht, fun hd hh => ?_, ?_⟩
  · refine hnx.fresh_of_tenant (hsn hd hh) fun x hx => ?_
    obtain ⟨v, hv, hvx⟩ := outBuf_within c hx
    exact hal.1 v hv x hvx
  unfold ExecCommand.request at hr
  unfold ExecCommand.bounce
  split_ifs at hr
  cases hp : c.place with
  | none =>
    simp only [hp] at hr
    cases hr
    have ho : wire.inputBulk = none := hn.mpr (by simp [ExecArgs.request])
    simp [ho]
  | segment addr len =>
    simp only [hp] at hr
    cases hr
    refine iff_of_true (fun hd hh => ?_) fun b hb => by cases hb
    refine hnx.fresh_of_tenant (hi hd hh).1 fun x hx => ?_
    obtain ⟨v, hv, hin⟩ := segment_within hp
    refine hal.1 v hv x (hin x ⟨hx.1, Nat.lt_of_lt_of_le hx.2 (Nat.add_le_add_left ?_ _)⟩)
    change (UInt32.ofNat len).toNat ≤ len
    rw [UInt32.toNat_ofNat']
    exact Nat.mod_le _ _
  | bounce len =>
    have hbn : c.bounce = c.block.map fun addr => ⟨addr, len⟩ := by
      unfold ExecCommand.bounce
      rw [hp]
    simp only [hp] at hr
    obtain ⟨addr, hbl, rfl⟩ := map_eq_some_iff.mp hr
    rw [hbl] at hbn
    have hl : (UInt32.ofNat len).toNat = len := by
      rw [UInt32.toNat_ofNat', Nat.mod_eq_of_lt (bounce_lt hp)]
    rw [hbl]
    simp only [ExecArgs.request, getD_some, isSome_some, true_and, hl] at hn hi
    simp only [map_some, mem_def, Option.some.injEq, forall_eq']
    constructor
    · intro hfr hlr e he hsr
      obtain ⟨hd, hh⟩ := ne_none_iff_exists'.mp fun ho => hn.mp ho hlr
      obtain ⟨hg, hold⟩ := hi hd hh
      have hle := hfr hd hh addr len .readOnly hg addr ⟨Nat.le_refl _, Nat.lt_add_of_pos_right
        (Nat.zero_lt_of_lt hlr)⟩
      -- the slot is older than the bounce
      have hs : (s.malloc c.bounce).stamp hd = s.createdAt hd := by
        rw [stamp, front_malloc, if_pos (hold.mpr ⟨e, he, hsr⟩), hbn]
        rfl
      have hw : (s.malloc c.bounce).allocatedAt addr = s.allocations + 1 := by
        rw [hbn]
        exact if_pos ⟨Nat.le_refl _, Nat.lt_add_of_pos_right (Nat.zero_lt_of_lt hlr)⟩
      rw [hc, ha, hs, hw] at hle
      exact absurd (h.created_le hd) (Nat.not_le_of_lt hle)
    intro hms hd hh addr' len' flags' hg' x hx
    have hlr : nkvxInlineMax < len := by
      by_contra hsm
      rw [hn.mpr hsm] at hh
      cases hh
    have hne : ¬ hd < s.front.bulk.nextHandle := fun hlt => by
      obtain ⟨e, he, hsr⟩ := (hi hd hh).2.mp hlt
      exact hms hlr e he hsr
    have hs : (s.malloc c.bounce).stamp hd = (s.malloc c.bounce).allocations := by
      rw [stamp, front_malloc, if_neg hne]
    rw [hc, ha, hs]
    exact hm.allocated_le x

lemma Inv.shipsFresh_iff (h : s.Inv tenant) (ha : s.Allocates tenant ev) : s.ShipsFresh ev ↔ s.Unregistered ev := by
  cases ev with
  | exec c =>
    constructor
    · intro hh b hb hl hm
      obtain ⟨id, hd⟩ := isSome_iff_exists.mp hm
      obtain ⟨wire, hs, -, hi⟩ := exec_ships h ha hd
      obtain ⟨wire', hs', hf, -⟩ := hh id hd
      cases hs.symm.trans hs'
      exact hi.mp hf b hb hl
    · intro hu id hd
      obtain ⟨wire, hs, hk, hi⟩ := exec_ships h ha hd
      exact ⟨wire, hs, hi.mpr fun b hb hl => hu b hb hl (isSome_iff_exists.mpr ⟨id, hd⟩), hk⟩
  | kvForward => exact Iff.rfl
  | cancel => exact Iff.rfl
  | cancelAll => exact Iff.rfl
  | failAll => exact Iff.rfl
  | fire => exact Iff.rfl

end ExecMemory

/-- Along any history of Execs, allocations and completions, the handles shipped with the Execs are
all younger than the memory they stand for exactly if, whenever an Exec with a large bounce is
forwarded, the cache has no registration of a buffer of that address and length. -/
theorem shipped_handles_fresh_iff (tenant : Nat → Prop) (evs : List ExecMemoryEvent)
    (h : Machine.Along ExecMemory.step (ExecMemory.Allocates tenant) .new evs) :
    Machine.Along ExecMemory.step ExecMemory.ShipsFresh .new evs ↔
      Machine.Along ExecMemory.step ExecMemory.Unregistered .new evs :=
  Machine.along_iff_of_invariant_along _ ExecMemory.inv_new (fun _ _ hi hal _ => hi.step hal)
    (fun _ _ hi hal => hi.shipsFresh_iff hal) h

/-- An Exec of 5000 bytes of input whose key head is in a segment of its own, with its bounce at
`addr`. -/
def splitExec (addr : Nat) : ExecCommand where
  args :=
    { key := [107], opId := 7, readOnly := true, runtime := .nkvx, moduleKey := none, moduleNs := none, sha256 := none,
      sha256Valid := false, caps := 0, input := none, inputLen := 0 }
  iovs := [⟨4096, 3⟩, ⟨8192, 5000⟩]
  valueOff := 3
  osize := 64
  block := some addr
  kctx := true
  allocated := true
  outcome := ⟨true, true, true, true, true⟩

def twoExecs (addr addr' : Nat) : List ExecMemoryEvent :=
  [.exec (splitExec addr), .fire (.forward 1 .success (some ⟨0, 0, none⟩)), .exec (splitExec addr')]

lemma bounce_splitExec (addr : Nat) : (splitExec addr).bounce = some ⟨addr, 5000⟩ := by
  simp [ExecCommand.bounce, ExecCommand.place, execInputPlace, splitExec, Memory.total]

lemma twoExecs_allocates (ha : 65536 ≤ addr) (ha' : 65536 ≤ addr')
    (hf : ((ExecMemory.new.step (.exec (splitExec addr))).step (.fire (.forward 1 .success (some ⟨0,
      0, none⟩)))).bounces = []) :
    Machine.Along ExecMemory.step (ExecMemory.Allocates (· < 65536)) .new (twoExecs addr addr') := by
  have hi : ∀ addr, ∀ v ∈ (splitExec addr).iovs, ∀ x, v.Covers x → x < 65536 := by
    intro addr v hv x hx
    simp only [splitExec, mem_cons, not_mem_nil, or_false] at hv
    simp only [Seg.Covers] at hx
    rcases hv with rfl | rfl
    · dsimp only at hx
      omega
    dsimp only at hx
    omega
  refine ⟨⟨hi addr, fun b hb x hx => ⟨?_, fun live hl => (not_mem_nil hl).elim⟩⟩, trivial,
    ⟨hi addr', fun b hb x hx => ⟨?_, fun live hl => ?_⟩⟩, trivial⟩
  · rw [bounce_splitExec] at hb
    cases hb
    exact Nat.not_lt_of_le (le_trans ha hx.1)
  · rw [bounce_splitExec] at hb
    cases hb
    exact Nat.not_lt_of_le (le_trans ha' hx.1)
  rw [hf] at hl
  exact (not_mem_nil hl).elim

/-- The heap reuses the address of the freed bounce, and the second Exec ships the handle of the
first. -/
theorem reused_bounce_ships_stale_handle :
    Machine.Along ExecMemory.step (ExecMemory.Allocates (· < 65536)) .new (twoExecs 65536 65536) ∧
      ¬ Machine.Along ExecMemory.step ExecMemory.ShipsFresh .new (twoExecs 65536 65536) := by
  refine ⟨twoExecs_allocates (le_rfl) (le_rfl) (by decide), fun h => ?_⟩
  obtain ⟨wire, hsent, hnew, -⟩ := h.2.2.1 2 (by decide)
  have hhandle : wire.inputBulk = some 0 := by
    have hlog : (((ExecMemory.new.step (.exec (splitExec 65536))).step
        (.fire (.forward 1 .success (some ⟨0, 0, none⟩)))).exec (splitExec 65536)).1.front.log.head? =
          some (2, .execSent { (splitExec 65536).args.request 0 with
            clientCallId := 2, inputLen := 5000, inputInline := some 65536, inputBulk := some 0 }) := by decide
    cases hlog.symm.trans hsent
    rfl
  have hstale := hnew 0 hhandle 65536 5000 .readOnly (by decide) 65536 (by decide)
  exact absurd hstale (by decide)

/-- With the second bounce elsewhere, both Execs ship handles of their own. -/
theorem shipped_handles_fresh_elsewhere :
    Machine.Along ExecMemory.step (ExecMemory.Allocates (· < 65536)) .new (twoExecs 65536 131072) ∧
      Machine.Along ExecMemory.step ExecMemory.ShipsFresh .new (twoExecs 65536 131072) := by
  have hallocates : Machine.Along ExecMemory.step (ExecMemory.Allocates (· < 65536)) .new
      (twoExecs 65536 131072) := twoExecs_allocates (le_rfl) (by decide) (by decide)
  have hempty : ∀ e ∈ ExecMemory.new.front.bulk.slots, e.handle.isSome = false := by decide
  have hfirst : ∀ e ∈ ((ExecMemory.new.step (.exec (splitExec 65536))).step
      (.fire (.forward 1 .success (some ⟨0, 0, none⟩)))).front.bulk.slots,
      e.handle.isSome → e.addr = 65536 := by decide
  refine ⟨hallocates, (shipped_handles_fresh_iff (· < 65536) (twoExecs 65536 131072) hallocates).mpr
    ⟨fun _ _ _ _ e he hserves => ?_, trivial, fun b hb _ _ e he hserves => ?_, trivial⟩⟩
  · cases (hempty e he).symm.trans hserves.1
  rw [bounce_splitExec] at hb
  cases hb
  cases (hfirst e he hserves.1).symm.trans hserves.2.1

end RadosNkv
