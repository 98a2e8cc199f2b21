import RadosNkv.Forwarder.Segments

/-! The key of a command by the wire format (`docs/wire-format.md`) and the key that the forwarder
addresses. -/

namespace RadosNkv

open List Memory

open Memory (Seg)

def leU32 (w : UInt32) : Bytes :=
  [UInt8.ofNat w.toNat, UInt8.ofNat (w.toNat / 2 ^ 8), UInt8.ofNat (w.toNat / 2 ^ 16), UInt8.ofNat (w.toNat / 2 ^ 24)]

structure KeySlots where
  cdw2 : UInt32
  cdw3 : UInt32
  cdw14 : UInt32
  cdw15 : UInt32

def KeySlots.image (k : KeySlots) : Bytes := leU32 k.cdw2 ++ leU32 k.cdw3 ++ leU32 k.cdw14 ++ leU32 k.cdw15

def NvmeCmd.Inline (cmd : NvmeCmd) : Prop := 1 ≤ cmd.kl ∧ cmd.kl ≤ 16

instance (cmd : NvmeCmd) : Decidable cmd.Inline := inferInstanceAs (Decidable (_ ∧ _))

def Heads (payload key : Bytes) : Prop :=
  1 ≤ key.length ∧ key.length ≤ 255 ∧ ∃ rest, payload = leU16 key.length ++ key ++ rest

def Assigns (slots : KeySlots) (cmd : NvmeCmd) (payload key : Bytes) : Prop :=
  if cmd.Inline then key = slots.image.take cmd.kl else Heads payload key

/-- The base verbs, on one key. -/
def NvmeCmd.Keyed (cmd : NvmeCmd) : Prop :=
  cmd.opc = opcKvStore ∨ cmd.opc = opcKvRetrieve ∨ cmd.opc = opcKvDelete ∨ cmd.opc = opcKvExist

def NvmeCmd.Carries (cmd : NvmeCmd) : Prop := cmd.opc = opcKvStore ∨ cmd.opc = opcKvRetrieve

variable {σ : Type}

def BaseRequest.key : BaseRequest → Bytes
  | .store req _ => req.key
  | .delete req => req.key
  | .retrieve req => req.key
  | .exist req => req.key

def NkvxFront.traced (front : NkvxFront σ) : NkvxFront (σ × List Bytes) where
  kv := fun s req => (((front.kv s.1 req).1, s.2 ++ [req.key]), (front.kv s.1 req).2)
  list := fun s req => front.list s.1 req
  exec := fun s req input => (((front.exec s.1 req input).1, s.2 ++ [req.key]), (front.exec s.1 req input).2)

def silentFront : NkvxFront Unit where
  kv := fun _ _ => ((), .only .success)
  list := fun _ _ => .only .success
  exec := fun _ _ _ => ((), .only .success)

def addressed (disk : KvradosDisk) (env : KvIoEnv) (mem : HostMem) (cmd : NvmeCmd) (iovs : List Seg) : List Bytes :=
  (kvradosHandleKvIo disk env silentFront.traced ((), []) mem cmd iovs).1.2

def valueOffset? (mem : HostMem) (iovs : List Seg) : Option Nat :=
  (kvradosParseInpayloadKey mem iovs (Memory.total iovs)).map Prod.snd

def Granted (disk : KvradosDisk) (env : KvIoEnv) (cmd : NvmeCmd) : Prop :=
  env = .good ∧ ¬ (disk.readOnly ∧ (cmd.opc = opcKvStore ∨ cmd.opc = opcKvDelete))

/-- The forwarder addresses the object of the assigned key and no other, whatever the namespace and
the allocators say; and with an inline key the whole data buffer is the value. -/
structure FollowsWireFormat (slots : KeySlots) (cmd : NvmeCmd) (mem : HostMem) (iovs : List Seg) : Prop where
  only : ∀ disk env, ∀ key ∈ addressed disk env mem cmd iovs, Assigns slots cmd (Memory.payload mem iovs) key
  all : ∀ disk env, Granted disk env cmd → ∀ key, Assigns slots cmd (Memory.payload mem iovs) key →
    key ∈ addressed disk env mem cmd iovs
  value : cmd.Inline → cmd.Carries → ∀ off, valueOffset? mem iovs = some off → off = 0

lemma leU16_fromLe16 {hd : Bytes} (hl : hd.length = kvradosKeyHdrLen) (hm : fromLe16 hd ≤ 255) :
    hd = leU16 (fromLe16 hd) := by
  obtain ⟨lo, hi, rfl⟩ : ∃ lo hi, hd = [lo, hi] := length_eq_two.mp hl
  have hh : hi = 0 := by
    refine UInt8.toNat_inj.mp ?_
    have : fromLe16 [lo, hi] = lo.toNat + 256 * hi.toNat := rfl
    have : (0 : UInt8).toNat = 0 := rfl
    omega
  have ho : fromLe16 [lo, hi] = lo.toNat := by
    rw [hh]
    rfl
  rw [ho, (leU16_toNat (ho ▸ hm)).1, hh, UInt8.ofNat_toNat]

lemma parse_iff (mem : HostMem) (iovs : List Seg) (key : Bytes) (off : Nat) :
    kvradosParseInpayloadKey mem iovs (total iovs) = some (key, off) ↔
      Heads (Memory.payload mem iovs) key ∧ off = 2 + key.length := by
  constructor
  · rw [parse_payload]
    generalize Memory.payload mem iovs = payload
    intro h
    unfold payloadHead at h
    by_cases hs : payload.length < kvradosKeyHdrLen
    · rw [if_pos hs] at h
      cases h
    rw [if_neg hs] at h
    have hhr : (payload.take kvradosKeyHdrLen).length = kvradosKeyHdrLen := by
      rw [length_take]
      omega
    have hh (hm : fromLe16 (payload.take kvradosKeyHdrLen) ≤ 255) := leU16_fromLe16 hhr hm
    generalize fromLe16 (payload.take kvradosKeyHdrLen) = keyLen at h hh
    by_cases hr : keyLen = 0 ∨ keyLen > kvradosKeyMaxLen
    · rw [if_pos hr] at h
      cases h
    rw [if_neg hr] at h
    by_cases hrm : payload.length < kvradosKeyHdrLen + keyLen
    · rw [if_pos hrm] at h
      cases h
    rw [if_neg hrm] at h
    have hm : keyLen ≤ 255 := by
      simp only [kvradosKeyMaxLen] at hr
      omega
    have hl : ((payload.drop kvradosKeyHdrLen).take keyLen).length = keyLen := by
      rw [length_take, length_drop]
      omega
    obtain ⟨rfl, rfl⟩ := Prod.mk.inj (Option.some.inj h)
    refine ⟨⟨by rw [hl]; omega, by rw [hl]; exact hm, (payload.drop kvradosKeyHdrLen).drop keyLen, ?_⟩, ?_⟩
    · rw [hl, append_assoc, take_append_drop, ← hh hm, take_append_drop]
    rw [hl]
    rfl
  rintro ⟨⟨hp, hm, rest, hy⟩, rfl⟩
  exact parse_eq mem iovs hy hp hm

variable {env : KvIoEnv} {mem : HostMem} {cmd : NvmeCmd} {iovs : List Seg} {slots : KeySlots}
  {front : NkvxFront σ} {s : σ × List Bytes}

def Asks (env : KvIoEnv) (key : Bytes) (s : σ × List Bytes) (r : (σ × List Bytes) × HostMem × NvmeStatus) : Prop :=
  r.1.2 = s.2 ++ [key] ∨
    (env ≠ .good ∧ r.1 = s ∧ r.2.2 = kvradosReject sctGeneric scInternalDeviceError)

lemma KvIoEnv.ne_good_of_kctx (h : env.kctx = false) : env ≠ .good := by
  rintro rfl
  cases h

lemma handleRetrieve_asks (key : Bytes) (off : Nat) :
    Asks env key s (handleRetrieve disk env front.traced s mem iovs key off) := by
  unfold handleRetrieve
  cases hk : env.kctx with
  | false => exact .inr ⟨KvIoEnv.ne_good_of_kctx hk, rfl, rfl⟩
  | true => exact .inl rfl

lemma handleStore_asks (key : Bytes) (off payloadLen : Nat) :
    Asks env key s (handleStore disk env front.traced s mem cmd iovs key off payloadLen) := by
  unfold handleStore
  dsimp only
  cases hv : storeValue mem iovs off (min (payloadLen - off) (2 ^ 32 - 1)) env.bounce with
  | error e =>
    refine .inr ⟨?_, rfl, rfl⟩
    rintro rfl
    rw [KvIoEnv.good, storeValue_take] at hv
    cases hv
  | ok value =>
    cases hk : env.kctx with
    | false => exact .inr ⟨KvIoEnv.ne_good_of_kctx hk, rfl, rfl⟩
    | true => exact .inl rfl

lemma handleStatusOnly_asks (isDelete : Bool) (key : Bytes) :
    Asks env key s (handleStatusOnly disk env front.traced s mem isDelete key) := by
  unfold handleStatusOnly
  cases hk : env.kctx with
  | false => exact .inr ⟨KvIoEnv.ne_good_of_kctx hk, rfl, rfl⟩
  | true =>
    refine .inl ?_
    cases isDelete <;> rfl

lemma handle_keyed (hy : cmd.Keyed) (front : NkvxFront σ) (s : σ × List Bytes) (disk : KvradosDisk)
    (env : KvIoEnv) (mem : HostMem) (iovs : List Seg) : (∃ key, Heads (Memory.payload mem iovs) key ∧
      (kvradosHandleKvIo disk env front.traced s mem cmd iovs).1.2 = s.2 ++ [key]) ∨
    ((kvradosHandleKvIo disk env front.traced s mem cmd iovs).1 = s ∧
      (∃ sct sc, (kvradosHandleKvIo disk env front.traced s mem cmd iovs).2.2 = kvradosReject sct sc ∧ sc ≠ 0) ∧
      ¬ (Granted disk env cmd ∧ ∃ key, Heads (Memory.payload mem iovs) key)) := by
  unfold kvradosHandleKvIo
  by_cases hr : disk.readOnly ∧ (cmd.opc = opcKvStore ∨ cmd.opc = opcKvDelete)
  · rw [if_pos hr]
    exact .inr ⟨rfl, ⟨_, _, rfl, by decide⟩, fun h => h.1.2 hr⟩
  rw [if_neg hr]
  cases hp : kvradosParseInpayloadKey mem iovs (total iovs) with
  | none =>
    have hn : ¬ ∃ key, Heads (Memory.payload mem iovs) key := by
      rintro ⟨key, hk⟩
      rw [(parse_iff mem iovs key _).mpr ⟨hk, rfl⟩] at hp
      cases hp
    refine .inr ?_
    rcases hy with ho | ho | ho | ho <;> rw [ho] <;>
      exact ⟨rfl, ⟨sctGeneric, scInvalidField, rfl, by decide⟩, fun h => hn h.2⟩
  | some p =>
    have hh : Heads (Memory.payload mem iovs) p.1 := ((parse_iff mem iovs p.1 p.2).mp hp).1
    have ha {r : (σ × List Bytes) × HostMem × NvmeStatus} (h : Asks env p.1 s r) :
        (∃ key, Heads (Memory.payload mem iovs) key ∧ r.1.2 = s.2 ++ [key]) ∨
        (r.1 = s ∧ (∃ sct sc, r.2.2 = kvradosReject sct sc ∧ sc ≠ 0) ∧
          ¬ (Granted disk env cmd ∧ ∃ key, Heads (Memory.payload mem iovs) key)) := by
      rcases h with h | ⟨he, hs, hj⟩
      · exact .inl ⟨p.1, hh, h⟩
      · exact .inr ⟨hs, ⟨_, _, hj, by decide⟩, fun h => he h.1.1⟩
    rcases hy with ho | ho | ho | ho <;> rw [ho]
    · exact ha (handleStore_asks _ _ _)
    · exact ha (handleRetrieve_asks _ _)
    · exact ha (handleStatusOnly_asks _ _)
    · exact ha (handleStatusOnly_asks _ _)

lemma handle_exec_asks (ho : cmd.opc = opcKvExec) (front : NkvxFront σ) (s : σ × List Bytes) (disk : KvradosDisk)
    (env : KvIoEnv) (mem : HostMem) (iovs : List Seg) : (∃ key, Heads (Memory.payload mem iovs) key ∧
      (kvradosHandleKvIo disk env front.traced s mem cmd iovs).1.2 = s.2 ++ [key]) ∨
    (kvradosHandleKvIo disk env front.traced s mem cmd iovs).1.2 = s.2 := by
  have hh : kvradosHandleKvIo disk env front.traced s mem cmd iovs =
      kvradosHandleExec disk env front.traced s mem cmd iovs
        ((kvradosParseInpayloadKey mem iovs (total iovs)).getD ([], 0)).1
        ((kvradosParseInpayloadKey mem iovs (total iovs)).getD ([], 0)).2 (total iovs) := by
    unfold kvradosHandleKvIo
    rw [ho]
    simp [opcKvExec, opcKvStore, opcKvDelete, opcKvRetrieve, opcKvExist, opcKvList]
  rw [hh]
  unfold kvradosHandleExec
  cases hc : kvradosExecCall disk env mem cmd iovs
      ((kvradosParseInpayloadKey mem iovs (total iovs)).getD ([], 0)).1
      ((kvradosParseInpayloadKey mem iovs (total iovs)).getD ([], 0)).2 (total iovs) with
  | error status => exact .inr rfl
  | ok call =>
    obtain ⟨hk, e, b, -, -, -, -, hm⟩ := execCall_ok hc
    have hs : call.key = ((kvradosParseInpayloadKey mem iovs (total iovs)).getD ([], 0)).1 := by rw [hm]
    unfold execModule
    dsimp only
    split
    · exact .inr rfl
    refine .inl ⟨call.key, ?_, rfl⟩
    cases hp : kvradosParseInpayloadKey mem iovs (total iovs) with
    | none =>
      rw [hp] at hk
      exact absurd rfl hk
    | some p =>
      rw [hs, hp]
      exact ((parse_iff mem iovs p.1 p.2).mp hp).1

variable {key payload : Bytes}

lemma Heads.eq_of_head {key' rest : Bytes} (h : Heads payload key)
    (hp : payload = leU16 key'.length ++ key' ++ rest) (hm : key'.length ≤ 255) : key = key' := by
  obtain ⟨-, hm', rest', hr⟩ := h
  rw [hp, append_assoc, append_assoc] at hr
  obtain ⟨hl, hy⟩ := append_inj hr rfl
  rw [(leU16_toNat hm).1, (leU16_toNat hm').1] at hl
  have hs : key'.length = key.length := by
    have hb := congrArg UInt8.toNat (List.cons.inj hl).1
    rwa [UInt8.toNat_ofNat_of_lt' (Nat.lt_succ_of_le hm), UInt8.toNat_ofNat_of_lt' (Nat.lt_succ_of_le hm')] at hb
  exact (append_inj hy hs).1.symm

lemma Heads.unique (h : Heads payload key) (h' : Heads payload key') : key = key' := by
  obtain ⟨-, hm, rest, hr⟩ := h'
  exact h.eq_of_head hr hm

lemma heads_of_mem_addressed (hy : cmd.Keyed) (hk : key ∈ addressed disk env mem cmd iovs) :
    Heads (Memory.payload mem iovs) key := by
  unfold addressed at hk
  rcases handle_keyed hy silentFront ((), []) disk env mem iovs with ⟨asked, hh, ha⟩ | ⟨hn, -⟩
  · rw [ha] at hk
    rw [mem_singleton.mp hk]
    exact hh
  rw [hn] at hk
  cases hk

lemma mem_addressed (hk : cmd.Keyed) (hg : Granted disk env cmd)
    (hh : Heads (Memory.payload mem iovs) key) : key ∈ addressed disk env mem cmd iovs := by
  unfold addressed
  rcases handle_keyed hk silentFront ((), []) disk env mem iovs with ⟨asked, ha, he⟩ | ⟨-, -, hn⟩
  · rw [he, hh.unique ha]
    exact mem_singleton_self _
  · exact absurd ⟨hg, key, hh⟩ hn

lemma follows_of_not_inline (hy : cmd.Keyed) (hi : ¬ cmd.Inline) : FollowsWireFormat slots cmd mem iovs where
  only disk env key hk := by
    unfold Assigns
    rw [if_neg hi]
    exact heads_of_mem_addressed hy hk
  all disk env hg key hk := by
    unfold Assigns at hk
    rw [if_neg hi] at hk
    exact mem_addressed hy hg hk
  value h := absurd h hi

/-- The forwarder follows the wire format for the commands whose Key Length is not 1 to 16; and for
a Delete or an Exist with an inline key if its payload repeats that key. -/
theorem follows_wire_format_iff (slots : KeySlots) (cmd : NvmeCmd) (mem : HostMem) (iovs : List Seg)
    (hkeyed : cmd.Keyed) :
    FollowsWireFormat slots cmd mem iovs ↔
      ¬ cmd.Inline ∨
        (¬ cmd.Carries ∧ Heads (Memory.payload mem iovs) (slots.image.take cmd.kl)) := by
  constructor
  · intro h
    by_cases hinl : cmd.Inline
    · have hgrown : Granted ⟨false, []⟩ .good cmd := ⟨rfl, fun hro => Bool.false_ne_true hro.1⟩
      have hasg : Assigns slots cmd (Memory.payload mem iovs) (slots.image.take cmd.kl) := by
        unfold Assigns
        rw [if_pos hinl]
      have hheads := heads_of_mem_addressed hkeyed (h.all _ _ hgrown _ hasg)
      refine .inr ⟨fun hcarries => ?_, hheads⟩
      have hoff : valueOffset? mem iovs = some (2 + (slots.image.take cmd.kl).length) := by
        unfold valueOffset?
        rw [(parse_iff mem iovs _ _).mpr ⟨hheads, rfl⟩]
        rfl
      have hzr := h.value hinl hcarries _ hoff
      omega
    · exact .inl hinl
  rintro (hinl | ⟨hcarries, hheads⟩)
  · exact follows_of_not_inline hkeyed hinl
  by_cases hinl : cmd.Inline
  · refine ⟨fun disk env key hkey => ?_, fun disk env hgrown key hkey => ?_, fun _ h => absurd h hcarries⟩
    · unfold Assigns
      rw [if_pos hinl]
      exact (heads_of_mem_addressed hkeyed hkey).unique hheads
    unfold Assigns at hkey
    rw [if_pos hinl] at hkey
    exact mem_addressed hkeyed hgrown (hkey ▸ hheads)
  · exact follows_of_not_inline hkeyed hinl

def slotsA : KeySlots := ⟨97, 0, 0, 0⟩

def lookalike : HostMem := fun a => if a = 0 then 1 else if a = 2 then 98 else if a = 3 then 99 else 0

def inlineCmd (opc kl : Nat) : NvmeCmd := { NvmeCmd.zero with opc := opc, kl := kl }

/-- A standard initiator stores four bytes under `a`: the forwarder stores the last of them under
`b`. -/
theorem inline_key_ignored :
    Assigns slotsA (inlineCmd opcKvStore 1) (Memory.payload lookalike [⟨0, 4⟩]) [97] ∧
      addressed ⟨false, []⟩ .good lookalike (inlineCmd opcKvStore 1) [⟨0, 4⟩] = [[98]] ∧
      ((kvradosHandleKvIo ⟨false, []⟩ .good (poolFront []) (fun _ => none) lookalike
        (inlineCmd opcKvStore 1)
        [⟨0, 4⟩]).1 [98] = some [99] ∧
      (kvradosHandleKvIo ⟨false, []⟩ .good (poolFront []) (fun _ => none) lookalike
        (inlineCmd opcKvStore 1)
        [⟨0, 4⟩]).1 [97] = none) ∧
      (kvradosHandleKvIo ⟨false, []⟩ .good (poolFront []) (fun _ => none) (fun _ => 0)
        (inlineCmd opcKvRetrieve 1)
        [⟨0, 4⟩]).2.2 = kvradosReject sctGeneric scInvalidField ∧
      ¬ FollowsWireFormat slotsA (inlineCmd opcKvStore 1) lookalike [⟨0, 4⟩] := by
  have hsent : addressed ⟨false, []⟩ .good lookalike (inlineCmd opcKvStore 1) [⟨0, 4⟩] = [[98]] := by decide +kernel
  refine ⟨rfl, hsent, ⟨by decide +kernel, by decide +kernel⟩, by decide +kernel, fun h => ?_⟩
  have hasg : [98] = slotsA.image.take 1 := h.only _ _ [98] (hsent ▸ mem_singleton_self _)
  exact absurd hasg (by decide)

theorem follows_wire_format_long :
    (inlineCmd opcKvStore 17).Keyed ∧ FollowsWireFormat slotsA
    (inlineCmd opcKvStore 17) lookalike [⟨0, 4⟩] :=
  ⟨.inl rfl, (follows_wire_format_iff _ _ _ _ (.inl rfl)).mpr (.inl (by decide))⟩

end RadosNkv
