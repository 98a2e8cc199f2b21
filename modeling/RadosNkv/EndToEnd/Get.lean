import RadosNkv.Forwarder.Handler
import RadosNkv.VfuHost.Client

/-! A get from end to end: the CLI's session, the shim, the driver's SGL, the forwarder and the
executor. -/

namespace RadosNkv

open List Memory Session

open Memory (Seg)

variable {σ : Type} {api : WasmApi}

def forwarderTarget (disk : KvradosDisk) (front : NkvxFront σ) : VfuTarget σ :=
  fun s mem cmd => kvradosHandleKvIo disk .good front s mem cmd (transportIovs cmd)

lemma nvfuStatus_eq_zero_iff {cpl : NvmeCpl} (hs : cpl.sct = (kvradosKvdevStatusToNvme status).1)
    (hc : cpl.sc = (kvradosKvdevStatusToNvme status).2) :
    nvfuStatus cpl = 0 ↔ status = .success := by
  rw [nvfuStatus, hs, hc]
  cases status <;> decide

lemma setDptrKv_eq (hedI hedL valIova : Nat) (hp : 0 < valLen) :
    ∃ rest, nvfuSglSetDptrKv hedI hedL valIova valLen true =
      .ok (⟨hedI, hedL⟩ :: ⟨valIova, min (firstChunk valIova) valLen⟩ :: rest) := by
  have hn : valLen ≠ 0 := by omega
  by_cases ho : valLen ≤ firstChunk valIova
  · obtain ⟨rest, hr⟩ := sglChunks_head valIova valLen 0
    exact ⟨rest, by simp [nvfuSglSetDptrKv, hn, ho, hr]⟩
  obtain ⟨rest, hr⟩ := sglChunks_head valIova valLen
    ((valLen - firstChunk valIova + nvfuDmaRegion - 1) / nvfuDmaRegion)
  rw [add_comm] at hr
  exact ⟨rest, by simp [nvfuSglSetDptrKv, hn, ho, regionBlocks, hr]⟩

variable {cfg : WasmConfig} {m : Bytes → Option Bytes} {v : Bytes} {front : NkvxFront (Executor api)}

lemma front_retrieve (hf : front.kv = Executor.serve cfg) {ex : Executor api}
    (he : ex.Holds m) (disk : KvradosDisk) {key : Bytes} (hk : 0 < key.length) (hv : m key = some v) (span : Nat) :
    (front.kv ex (retrieveRequest disk key span)).2 = plainRetrieve (some v) span := by
  have hn : key ≠ [] := ne_nil_of_length_pos hk
  rw [hf, (serve_refines cfg he _).1]
  simp [retrieveRequest, plainHandle, kvRequest, hn, hv]

lemma staged_sent (mem : HostMem) (head : DmaAlloc) (k : CStr) : read
        (write (write (dmaZmalloc mem head (2 + k.len % 256)) head.iova (leU16 (k.len % 256)))
          (head.iova + 2) (k.bytes.take (k.len % 256))) head.iova (2 + k.len % 256) =
      leU16 k.sent.length ++ k.sent := by
  have ht : head.iova + 2 = head.iova + (leU16 k.sent.length).length := rfl
  have hk : k.bytes.take (k.len % 256) = k.sent := rfl
  rw [hk, ← k.length_sent, ht, write_append, read_write _ _ _ (le_of_eq (length_keyHead _).symm)]
  exact take_of_length_le (le_of_eq (length_keyHead _))

lemma staged_head (mem : HostMem) (head : DmaAlloc) (k : CStr) (hm : k.bytes.length ≤ 255) : read
        (write (write (dmaZmalloc mem head (2 + k.len % 256)) head.iova (leU16 (k.len % 256)))
          (head.iova + 2) (k.bytes.take (k.len % 256))) head.iova (2 + k.bytes.length) =
      leU16 k.bytes.length ++ k.bytes := by
  have hn : k.sent = k.bytes := by rw [CStr.sent, k.len_mod hm, take_length]
  have hs := staged_sent mem head k
  rw [hn] at hs
  rwa [k.len_mod hm] at hs ⊢

lemma xferSgl_retrieve (front : NkvxFront σ) (disk : KvradosDisk) {w : VfuWorld σ}
    (hs : w.pair.Settled) (nsid : Nat) (k : CStr) (hp : 0 < k.bytes.length)
    (hm : k.bytes.length ≤ 255) (hl : 0 < len) (hl32 : len < 2 ^ 32) (bufIova : Nat)
    (buf : Option DmaAlloc) (head : DmaAlloc)
    (hr : (front.kv w.target (retrieveRequest disk k.bytes (min (firstChunk bufIova) len))).2 = res) :
    ∃ (mem : HostMem) (pair : NvfuPair) (s : σ) (cpl : NvmeCpl),
      nvfuKvXferSgl (forwarderTarget disk front) w nsid opcKvRetrieve k len bufIova 0 0 ⟨buf, some head, true⟩ =
        (⟨pair, write mem bufIova ((res.buf.getD []).take (min (firstChunk bufIova) len)), s⟩,
          (nvfuStatus cpl : Int), cpl) ∧ cpl.sct = (kvradosKvdevStatusToNvme res.status).1 ∧
        cpl.sc = (kvradosKvdevStatusToNvme res.status).2 ∧ cpl.cdw0 = res.resultLen := by
  have hch := firstChunk_pos bufIova
  have hk := k.len_mod hm
  obtain ⟨rest, hd⟩ := setDptrKv_eq head.iova (2 + k.len % 256) bufIova hl
  have hh := staged_head w.mem head k hm
  unfold nvfuKvXferSgl
  dsimp only
  rw [hd]
  generalize write (write (dmaZmalloc w.mem head (2 + k.len % 256)) head.iova
    (leU16 (k.len % 256))) (head.iova + 2) (k.bytes.take (k.len % 256)) = mem at hh ⊢
  have ht : ∀ cmd : NvmeCmd, cmd.opc = opcKvRetrieve →
      cmd.dptr = ⟨head.iova, 2 + k.len % 256⟩ :: ⟨bufIova, min (firstChunk bufIova) len⟩ :: rest →
      forwarderTarget disk front w.target mem cmd =
        ((front.kv w.target (retrieveRequest disk k.bytes (min (firstChunk bufIova) len))).1,
          write mem bufIova ((res.buf.getD []).take (min (firstChunk bufIova) len)),
          kvradosComplete res.status res.resultLen) := by
    intro cmd ho hb
    unfold forwarderTarget transportIovs
    rw [hb, map_cons, map_cons, hk]
    dsimp only
    rw [handle_retrieve disk front w.target mem cmd ho hh hp hm (.inl (by omega)) (by omega), hr]
  obtain ⟨pair, cpl, he, -, hc⟩ := submitPoll_settled (w := { w with mem }) hs
    (ht { kvXferCmd nsid opcKvRetrieve len 0 0 _ with cid := w.pair.q.cid } rfl rfl)
  exact ⟨mem, pair, _, cpl, he, hc⟩

variable {w : VfuWorld (Executor api)}

lemma retrieveRaw_eq (hfr : front.kv = Executor.serve cfg) (disk : KvradosDisk)
    (hs : w.pair.Settled) (he : w.target.Holds m) (nsid : Nat) (k : CStr) (hp : 0 < k.bytes.length)
    (ha : k.bytes.length ≤ 255) (hv : m k.bytes = some v) (hz : v.length < 2 ^ 32) (hl : 0 < len)
    (hl32 : len < 2 ^ 32) (buf head : DmaAlloc) :
    (retrieveRaw (forwarderTarget disk front) w nsid k len ⟨some buf, some head, true⟩).2 =
      if v.length ≤ min (firstChunk buf.iova) len then .ok (v ++ List.replicate (len - v.length) 0, v.length)
      else .error (.failed (-eIo)) := by
  have hr := front_retrieve hfr he disk hp hv (min (firstChunk buf.iova) len)
  unfold retrieveRaw NkvxShim.nkvxRetrieve
  dsimp only
  generalize dmaZmalloc w.mem buf (max len 1) = zeroed
  obtain ⟨mem, pair, s, cpl, hq, hc, hsc, hd0⟩ := xferSgl_retrieve front disk (w := { w with mem := zeroed })
    hs nsid k hp ha hl hl32 buf.iova (some buf) head hr
  rw [hq]
  by_cases hf : v.length ≤ min (firstChunk buf.iova) len
  · obtain ⟨ht, hn, hy⟩ := plainRetrieve_fits hf hz
    rw [hn] at hd0
    have ho := (nvfuStatus_eq_zero_iff hc hsc).mpr ht
    have hm : min v.length len = v.length := by omega
    simp [ho, hf, hy, hd0, hm, read_write]
  have ht := plainRetrieve_short (Nat.lt_of_not_le hf) hz
  have hb : nvfuStatus cpl ≠ 0 := fun hzr => by
    cases ht.symm.trans ((nvfuStatus_eq_zero_iff hc hsc).mp hzr)
  simp [hb, hf, eIo]

lemma retrieve_eq (front : NkvxFront (Executor api)) (hfr : front.kv = Executor.serve cfg) (disk : KvradosDisk)
    (hs : w.pair.Settled) (he : w.target.Holds m) (nsid : Nat) (key : Bytes)
    (hp : 0 < key.length) (hm : key.length ≤ 255) (hn : 0 ∉ key) (hv : m key = some v)
    (hz : v.length ≤ maxValue) (buf head : DmaAlloc) (reread : XferEnv) :
    (retrieve (forwarderTarget disk front) w nsid key ⟨some buf, some head, true⟩ reread).2 =
      if v.length ≤ firstChunk buf.iova then .ok v else .error (.failed (-eIo)) := by
  have hg := firstChunk_le buf.iova
  have hh : firstChunk buf.iova ≤ retrieveHint := by
    unfold nvfuDmaRegion at hg
    unfold retrieveHint
    omega
  have hz32 : v.length < 2 ^ 32 := by
    unfold maxValue at hz
    omega
  have hr := retrieveRaw_eq hfr disk hs he nsid ⟨key, hn⟩ hp hm hv hz32
    (show 0 < retrieveHint by decide) (show retrieveHint < 2 ^ 32 by decide) buf head
  rw [min_eq_left hh] at hr
  have hk : cString key = some ⟨key, hn⟩ := dif_pos hn
  unfold retrieve
  rw [hk]
  dsimp only
  generalize retrieveRaw (forwarderTarget disk front) w nsid ⟨key, hn⟩ retrieveHint
    ⟨some buf, some head, true⟩ = pass at hr
  obtain ⟨w', outcome⟩ := pass
  subst hr
  by_cases hf : v.length ≤ firstChunk buf.iova
  · have hsh : v.length ≤ (v ++ List.replicate (retrieveHint - v.length) 0).length := by simp
    rw [if_pos hf, if_pos hf]
    dsimp only
    rw [if_pos hsh, take_left' rfl]
  · rw [if_neg hf, if_neg hf]

lemma retrieve_unallocated (target : VfuTarget σ) (w : VfuWorld σ) (nsid : Nat) (key v : Bytes)
    {probe : XferEnv} (hp : probe.buf = none ∨ probe.head = none ∨ probe.segs = false)
    (reread : XferEnv) : (retrieve target w nsid key probe reread).2 ≠ .ok v := by
  obtain ⟨buf, head, segs⟩ := probe
  unfold retrieve
  cases cString key with
  | none => nofun
  | some k =>
    have hr : ∃ rc, (retrieveRaw target w nsid k retrieveHint ⟨buf, head, segs⟩).2 =
        .error (.failed rc) := by
      unfold retrieveRaw NkvxShim.nkvxRetrieve
      cases buf with
      | none => exact ⟨-eNomem, rfl⟩
      | some buf =>
        refine ⟨-eIo, ?_⟩
        cases head with
        | none => rfl
        | some head =>
          have hs : segs = false := by simpa using hp
          subst hs
          rfl
    obtain ⟨rc, hc⟩ := hr
    dsimp only
    generalize retrieveRaw target w nsid k retrieveHint ⟨buf, head, segs⟩ = pass at hc
    obtain ⟨w', outcome⟩ := pass
    subst hc
    nofun

/-- A get of a stored value of at most 64 MiB returns the value exactly when the driver gets its
buffers and the value is no longer than what lies between the address of the hint buffer and the
next 2 MiB boundary. -/
theorem get_returns_value_iff (cfg : WasmConfig) (front : NkvxFront (Executor api))
    (hfront : front.kv = Executor.serve cfg) (disk : KvradosDisk) (w : VfuWorld (Executor api))
    (hs : w.pair.Settled) (m : Bytes → Option Bytes) (hex : w.target.Holds m) (nsid : Nat)
    (key v : Bytes)
    (hpos : 0 < key.length) (hmax : key.length ≤ 255) (hnul : 0 ∉ key) (hv : m key = some v)
    (hsize : v.length ≤ maxValue) (probe reread : XferEnv) :
    (Session.retrieve (forwarderTarget disk front) w nsid key probe reread).2 = .ok v ↔
      ∃ buf head, probe = ⟨some buf, some head, true⟩ ∧ v.length ≤ firstChunk buf.iova := by
  obtain ⟨buf, head, segs⟩ := probe
  constructor
  · intro hok
    cases buf with
    | none => exact absurd hok (retrieve_unallocated _ _ _ _ _ (.inl rfl) _)
    | some buf =>
      cases head with
      | none => exact absurd hok (retrieve_unallocated _ _ _ _ _ (.inr (.inl rfl)) _)
      | some head =>
        cases segs with
        | false => exact absurd hok (retrieve_unallocated _ _ _ _ _ (.inr (.inr rfl)) _)
        | true =>
          refine ⟨buf, head, rfl, ?_⟩
          rw [retrieve_eq front hfront disk hs hex nsid key hpos hmax hnul hv hsize] at hok
          by_contra hlong
          rw [if_neg hlong] at hok
          cases hok
  rintro ⟨buf, head, heq, hfit⟩
  rw [heq, retrieve_eq front hfront disk hs hex nsid key hpos hmax hnul hv hsize, if_pos hfit]

def poolOf (v : Bytes) : Bytes → Option Bytes := fun oid => if oid = nkvxKeyToOid [7] then some v else none

def freshWorld (v : Bytes) : VfuWorld (Executor toyApi) where
  pair := .init ioQEntries
  mem := fun _ => 0
  target := .init toyApi (poolOf v)

def kvFront (cfg : WasmConfig) (api : WasmApi) : NkvxFront (Executor api) where
  kv := Executor.serve cfg
  list := fun _ _ => .only .notSupported
  exec := fun ex _ _ => (ex, .only .notSupported)

def twoBuffers : XferEnv := ⟨some ⟨0, rfl⟩, some ⟨0x800000, rfl⟩, true⟩

theorem get_one_byte :
    (Session.retrieve (forwarderTarget ⟨false, []⟩ (kvFront .default toyApi)) (freshWorld [9]) 1 [7]
      twoBuffers twoBuffers).2 = .ok [9] :=
  (get_returns_value_iff .default (kvFront .default toyApi) rfl ⟨false, []⟩ (freshWorld [9])
    (settled_init (by decide)) _ (holds_init toyApi (poolOf [9])) 1 [7] [9] (by decide) (by decide)
    (by decide) (by decide) (by decide) twoBuffers twoBuffers).mpr ⟨_, _, rfl, by decide⟩

/-- A value of one byte more than 2 MiB is stored, and the get fails. -/
theorem get_fails_above_region :
    (Session.retrieve (forwarderTarget ⟨false, []⟩ (kvFront .default toyApi))
      (freshWorld (List.replicate (nvfuDmaRegion + 1) 9)) 1 [7] twoBuffers twoBuffers).2 =
        .error (.failed (-5)) := by
  have hlong : ¬ (List.replicate (nvfuDmaRegion + 1) (9 : UInt8)).length ≤ firstChunk 0 := by
    rw [length_replicate]
    decide
  have hsz : (List.replicate (nvfuDmaRegion + 1) (9 : UInt8)).length ≤ maxValue := by
    rw [length_replicate]
    decide
  have heq := retrieve_eq (kvFront .default toyApi) rfl ⟨false, []⟩
    (w := freshWorld (List.replicate (nvfuDmaRegion + 1) 9)) (settled_init (by decide)) (holds_init toyApi _) 1
    [7] (by decide) (by decide) (by decide) (if_pos rfl) hsz ⟨0, rfl⟩ ⟨0x800000, rfl⟩ twoBuffers
  rw [if_neg hlong] at heq
  exact heq

end RadosNkv
