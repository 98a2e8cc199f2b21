import RadosNkv.Library.Memory
import RadosNkv.VfuHost.Queue

/-! The clients over the raw vfio-user driver: `nkv_vfu.h`, the shim of the CLI (`nkvx_shim.c`) and
its Rust session (`datapath.rs`). -/

namespace RadosNkv

open List Memory

open Memory (Seg)

structure CStr where
  bytes : Bytes
  noNul : 0 ∉ bytes

def CStr.len (s : CStr) : Nat := s.bytes.length

structure DmaAlloc where
  iova : Nat
  aligned : iova % 4096 = 0

def dmaZmalloc (mem : HostMem) (buf : DmaAlloc) (size : Nat) : HostMem :=
  Memory.write mem buf.iova (List.replicate size 0)

def nvfuDmaRegion : Nat := 2 * 1024 * 1024

def firstChunk (iova : Nat) : Nat := nvfuDmaRegion - iova % nvfuDmaRegion

def sglChunks (iova len : Nat) : Nat → Nat → Nat → List SglBlock
  | 0, _, _ => []
  | n + 1, off, chunk =>
    let chunk := if off + chunk > len then len - off else chunk
    ⟨iova + off, chunk⟩ :: sglChunks iova len n (off + chunk) nvfuDmaRegion

def regionBlocks (iova len : Nat) : Nat :=
  1 + (len - firstChunk iova + nvfuDmaRegion - 1) / nvfuDmaRegion

def nvfuSglSetDptr (iova len : Nat) (segs : Bool) : Except Int (List SglBlock) :=
  if len ≤ firstChunk iova then .ok [⟨iova, len⟩]
  else if segs then .ok (sglChunks iova len (regionBlocks iova len) 0 (firstChunk iova))
  else .error (-eNomem)

def nvfuSglSetDptrKv (headIova headLen valIova valLen : Nat) (segs : Bool) : Except Int (List SglBlock) :=
  let valNseg :=
    if valLen = 0 then 0 else if valLen ≤ firstChunk valIova then 1 else regionBlocks valIova valLen
  if segs then .ok (⟨headIova, headLen⟩ :: sglChunks valIova valLen valNseg 0 (firstChunk valIova))
  else .error (-eNomem)

def transportIovs (cmd : NvmeCmd) : List Seg := cmd.dptr.map fun b => ⟨b.address, b.length⟩

structure VfuWorld (σ : Type) where
  pair : NvfuPair
  mem : HostMem
  target : σ

abbrev VfuTarget (σ : Type) := σ → HostMem → NvmeCmd → σ × HostMem × NvmeStatus

variable {σ : Type}

def NvfuPair.lastResult (s : NvfuPair) : Int × NvmeCpl :=
  match s.returns.getLast? with
  | some ⟨_, .completed status cpl⟩ => (status, cpl)
  | _ => (-eTimedout, .zero)

def nvfuSubmitPoll (target : VfuTarget σ) (w : VfuWorld σ) (cmd : NvmeCmd) :
    VfuWorld σ × Int × NvmeCpl :=
  let r := target w.target w.mem { cmd with cid := w.pair.q.cid }
  let pair := w.pair.inTime cmd r.2.2
  (⟨pair, r.2.1, r.1⟩, pair.lastResult)

structure XferEnv where
  buf : Option DmaAlloc
  head : Option DmaAlloc
  segs : Bool

def optTtlValid (ro : Nat) : Bool := ro.testBit 3

def kvXferCmd (nsid opc size ro ttl : Nat) (dptr : List SglBlock) : NvmeCmd :=
  { NvmeCmd.zero with
    opc := opc
    nsid := nsid
    vsize := size
    ro := if opc = opcKvStore then ro else 0
    cdw12 := if opc = opcKvStore ∧ optTtlValid ro then ttl else 0
    dptr := dptr }

def nvfuKvXferSgl (target : VfuTarget σ) (w : VfuWorld σ) (nsid opc : Nat) (key : CStr)
    (size bufIova ro ttl : Nat) (env : XferEnv) : VfuWorld σ × Int × NvmeCpl :=
  let keyLen := key.len % 256
  let headLen := 2 + keyLen
  match env.head with
  | none => (w, -eNomem, .zero)
  | some head =>
    let mem := dmaZmalloc w.mem head headLen
    let mem := Memory.write mem head.iova (leU16 keyLen)
    let mem := Memory.write mem (head.iova + 2) (key.bytes.take keyLen)
    let w := { w with mem }
    match nvfuSglSetDptrKv head.iova headLen bufIova size env.segs with
    | .error err => (w, err, .zero)
    | .ok dptr => nvfuSubmitPoll target w (kvXferCmd nsid opc size ro ttl dptr)

namespace NkvxShim

def nkvxRetrieve (target : VfuTarget σ) (w : VfuWorld σ) (nsid : Nat) (key : CStr) (outLen : Nat)
    (env : XferEnv) : VfuWorld σ × Int × Bytes × Nat :=
  match env.buf with
  | none => (w, -eNomem, [], 0)
  | some buf =>
    let w := { w with mem := dmaZmalloc w.mem buf (max outLen 1) }
    let (w, rc, cpl) := nvfuKvXferSgl target w nsid opcKvRetrieve key outLen buf.iova 0 0 env
    if rc ≠ 0 then (w, -eIo, [], 0)
    else (w, 0, Memory.read w.mem buf.iova (min cpl.cdw0 outLen), cpl.cdw0)

def nkvxStore (target : VfuTarget σ) (w : VfuWorld σ) (nsid : Nat) (key : CStr) (val : Bytes) (storeOpt ttl : Nat)
    (env : XferEnv) : VfuWorld σ × Int :=
  match env.buf with
  | none => (w, -eNomem)
  | some buf =>
    let w := { w with mem := Memory.write (dmaZmalloc w.mem buf (max val.length 1)) buf.iova val }
    let (w, rc, _) := nvfuKvXferSgl target w nsid opcKvStore key val.length buf.iova storeOpt ttl env
    if rc ≠ 0 then (w, -eIo) else (w, 0)

end NkvxShim

inductive SessionError where
  | keyContainsNul
  | failed (rc : Int)
  | tooLarge (trueLen : Nat)
  | changedSize (probe reread : Nat)
deriving DecidableEq

def retrieveHint : Nat := 4 * 1024 * 1024
def maxValue : Nat := 64 * 1024 * 1024

def cString (key : Bytes) : Option CStr := if h : 0 ∉ key then some ⟨key, h⟩ else none

lemma CStr.cString_bytes (k : CStr) : cString k.bytes = some k := dif_pos k.noNul

namespace Session

variable (target : VfuTarget σ)

variable (w : VfuWorld σ)

/-- `Session::store_opts`, whose length goes through a `u32`. -/
def storeOpts (nsid : Nat) (key val : Bytes) (storeOpt ttl : Nat)
    (env : XferEnv) : VfuWorld σ × Except SessionError Unit :=
  match cString key with
  | none => (w, .error .keyContainsNul)
  | some k =>
    let (w, rc) := NkvxShim.nkvxStore target w nsid k (val.take (val.length % 2 ^ 32)) storeOpt ttl env
    if rc ≠ 0 then (w, .error (.failed rc)) else (w, .ok ())

def retrieveRaw (nsid : Nat) (key : CStr) (len : Nat)
    (env : XferEnv) : VfuWorld σ × Except SessionError (Bytes × Nat) :=
  let (w, rc, copied, got) := NkvxShim.nkvxRetrieve target w nsid key len env
  if rc ≠ 0 then (w, .error (.failed rc))
  else (w, .ok (copied ++ List.replicate (len - copied.length) 0, got))

/-- `Session::retrieve`, with the answers of the allocator to the probe and to the exact re-read. -/
def retrieve (nsid : Nat) (key : Bytes) (probe reread : XferEnv) :
    VfuWorld σ × Except SessionError Bytes :=
  match cString key with
  | none => (w, .error .keyContainsNul)
  | some k =>
    match retrieveRaw target w nsid k retrieveHint probe with
    | (w, .error e) => (w, .error e)
    | (w, .ok (buf, trueLen)) =>
      if trueLen ≤ buf.length then (w, .ok (buf.take trueLen))
      else if trueLen > maxValue then (w, .error (.tooLarge trueLen))
      else
        match retrieveRaw target w nsid k trueLen reread with
        | (w, .error e) => (w, .error e)
        | (w, .ok (buf, got)) =>
          if got ≠ trueLen then (w, .error (.changedSize trueLen got)) else (w, .ok (buf.take got))

end Session

abbrev ExecReturn := Option (Int × Bytes × Nat)

def execCmd (nsid payloadLen outLen opId : Nat) (dptr : List SglBlock) : NvmeCmd :=
  { NvmeCmd.zero with
    opc := opcKvExec
    nsid := nsid
    vsize := payloadLen
    cdw12 := outLen
    cdw13 := opId
    dptr := dptr }

def stageRequest (mem : HostMem) (iova keyLen : Nat) (key input : Bytes) : HostMem :=
  let mem := Memory.write mem iova (leU16 keyLen)
  let mem := Memory.write mem (iova + 2) (key.take keyLen)
  Memory.write mem (iova + 2 + keyLen) input

/-- The staging, submission and copying back that `nkvx_exec` and `nvfu_kv_exec` share; `report` is
the length they report. -/
def execThroughDptr (report : Nat → Nat → Nat) (target : VfuTarget σ) (w : VfuWorld σ) (nsid : Nat)
    (key : CStr) (opId : Nat) (input : Bytes) (outLen : Nat) (env : XferEnv) : VfuWorld σ × ExecReturn :=
  let keyLen := key.len % 256
  let payloadLen := (2 + keyLen + input.length) % 2 ^ 32
  let bufsz := max outLen 4096
  let xferLen := max payloadLen outLen
  if payloadLen > bufsz then (w, some (-eInval, [], 0))
  else
    match env.buf with
    | none => (w, some (-eNomem, [], 0))
    | some buf =>
      if 2 + keyLen + input.length > bufsz then (w, none)
      else
        let w := { w with mem := stageRequest (dmaZmalloc w.mem buf bufsz) buf.iova keyLen key.bytes input }
        match nvfuSglSetDptr buf.iova xferLen env.segs with
        | .error err => (w, some (err, [], 0))
        | .ok dptr =>
          let (w, status, cpl) := nvfuSubmitPoll target w (execCmd nsid payloadLen outLen opId dptr)
          if status ≠ 0 then (w, some (-eIo, [], 0))
          else
            (w, some (0, Memory.read w.mem buf.iova (min cpl.cdw0 outLen), report cpl.cdw0 outLen))

def NkvxShim.nkvxExec (target : VfuTarget σ) (w : VfuWorld σ) (nsid : Nat) (key : CStr) (opId : Nat)
    (input : Bytes) (outLen : Nat) (env : XferEnv) : VfuWorld σ × ExecReturn :=
  execThroughDptr (fun cdw0 _ => cdw0) target w nsid key opId input outLen env

namespace Session

/-- `Session::exec_raw`, with `none` for the copy past the end of the buffer. -/
def execRaw (target : VfuTarget σ) (w : VfuWorld σ) (nsid : Nat) (key : CStr) (opId : Nat) (input : Bytes) (len : Nat)
    (env : XferEnv) : VfuWorld σ × Option (Except SessionError (Bytes × Nat)) :=
  match NkvxShim.nkvxExec target w nsid key opId (input.take (input.length % 2 ^ 32)) len env with
  | (w, none) => (w, none)
  | (w, some (rc, copied, rlen)) =>
    if rc ≠ 0 then (w, some (.error (.failed rc)))
    else (w, some (.ok (copied ++ List.replicate (len - copied.length) 0, rlen)))

/-- `Session::exec`, with the answers of the allocator to the probe and to the exact re-run. -/
def exec (target : VfuTarget σ) (w : VfuWorld σ) (nsid : Nat) (key : Bytes) (opId : Nat) (input : Bytes)
    (probe rerun : XferEnv) : VfuWorld σ × Option (Except SessionError Bytes) :=
  match cString key with
  | none => (w, some (.error .keyContainsNul))
  | some k =>
    match execRaw target w nsid k opId input retrieveHint probe with
    | (w, none) => (w, none)
    | (w, some (.error e)) => (w, some (.error e))
    | (w, some (.ok (buf, trueLen))) =>
      if trueLen ≤ buf.length then (w, some (.ok (buf.take trueLen)))
      else if trueLen > maxValue then (w, some (.error (.tooLarge trueLen)))
      else
        match execRaw target w nsid k opId input trueLen rerun with
        | (w, none) => (w, none)
        | (w, some (.error e)) => (w, some (.error e))
        | (w, some (.ok (buf, got))) =>
          if got ≠ trueLen then (w, some (.error (.changedSize trueLen got))) else (w, some (.ok (buf.take got)))

end Session

def nvfuKvExec (target : VfuTarget σ) (w : VfuWorld σ) (nsid : Nat) (key : CStr) (opId : Nat)
    (input : Bytes) (outLen : Nat) (env : XferEnv) : VfuWorld σ × ExecReturn :=
  execThroughDptr min target w nsid key opId input outLen env

def CStr.sent (k : CStr) : Bytes := k.bytes.take (k.len % 256)

lemma CStr.length_sent (k : CStr) : k.sent.length = k.len % 256 := by
  rw [CStr.sent, length_take]
  exact min_eq_left (Nat.mod_le ..)

lemma CStr.len_mod (k : CStr) (h : k.bytes.length ≤ 255) : k.len % 256 = k.bytes.length :=
  Nat.mod_eq_of_lt (Nat.lt_succ_of_le h)

lemma submitPoll_settled {w : VfuWorld σ} (h : w.pair.Settled)
    (ht : target w.target w.mem { cmd with cid := w.pair.q.cid } = (s, mem, status)) :
    ∃ (pair : NvfuPair) (cpl : NvmeCpl),
      nvfuSubmitPoll target w cmd = (⟨pair, mem, s⟩, (nvfuStatus cpl : Int), cpl) ∧ pair.Settled ∧
        cpl.sct = status.sct ∧ cpl.sc = status.sc ∧ cpl.cdw0 = status.cdw0 := by
  obtain ⟨hs, cpl, hr, hc⟩ := settled_inTime h cmd status
  refine ⟨w.pair.inTime cmd status, cpl, ?_, hs, hc⟩
  unfold nvfuSubmitPoll NvfuPair.lastResult
  dsimp only
  rw [ht, hr, getLast?_concat]

variable (iova len : Nat)

lemma firstChunk_pos : 0 < firstChunk iova := by
  have hl : iova % nvfuDmaRegion < nvfuDmaRegion := Nat.mod_lt _ (by decide)
  unfold firstChunk
  omega

lemma firstChunk_le : firstChunk iova ≤ nvfuDmaRegion := Nat.sub_le ..

lemma page_le_firstChunk (buf : DmaAlloc) : 4096 ≤ firstChunk buf.iova := by
  have ha := buf.aligned
  unfold firstChunk nvfuDmaRegion
  omega

lemma payload_sglChunks (mem : HostMem) (iova len : Nat) (ho : off ≤ len)
    (hn : len ≤ off + chunk + n * nvfuDmaRegion) :
    payload mem ((sglChunks iova len (n + 1) off chunk).map fun b => ⟨b.address, b.length⟩) =
      Memory.read mem (iova + off) (len - off) := by
  induction n generalizing off chunk with
  | zero =>
    have hl : (if off + chunk > len then len - off else chunk) = len - off := by
      split <;> omega
    simp [sglChunks, hl]
  | succ n ih =>
    rw [sglChunks, map_cons, payload_cons]
    by_cases hp : off + chunk > len
    · have he : off + (len - off) = len := by omega
      rw [if_pos hp, he, ih (Nat.le_refl _) (by omega), Nat.sub_self, read_zero, append_nil]
    have hs : len - off = chunk + (len - (off + chunk)) := by omega
    have hc : len ≤ off + chunk + nvfuDmaRegion + n * nvfuDmaRegion := by
      rw [Nat.succ_mul] at hn
      omega
    rw [if_neg hp, ih (by omega) hc, hs, read_add, Nat.add_assoc iova off chunk]

lemma sglChunks_head (n : Nat) :
    ∃ rest, sglChunks iova len (n + 1) 0 (firstChunk iova) = ⟨iova, min (firstChunk iova) len⟩ :: rest := by
  have hc : (if 0 + firstChunk iova > len then len - 0 else firstChunk iova) = min (firstChunk iova) len := by
    split <;> omega
  refine ⟨sglChunks iova len n (0 + min (firstChunk iova) len) nvfuDmaRegion, ?_⟩
  rw [sglChunks, hc]
  rfl

lemma regionBlocks_cover :
    len ≤ 0 + firstChunk iova + (len - firstChunk iova + nvfuDmaRegion - 1) / nvfuDmaRegion * nvfuDmaRegion := by
  have hd := Nat.div_add_mod (len - firstChunk iova + nvfuDmaRegion - 1) nvfuDmaRegion
  have hl : (len - firstChunk iova + nvfuDmaRegion - 1) % nvfuDmaRegion < nvfuDmaRegion :=
    Nat.mod_lt _ (by decide)
  rw [mul_comm] at hd
  omega

lemma setDptr_eq : ∃ rest, nvfuSglSetDptr iova len true = .ok (⟨iova, min (firstChunk iova) len⟩ :: rest) ∧
      ∀ mem : HostMem, payload mem
        ((⟨iova, min (firstChunk iova) len⟩ :: rest : List SglBlock).map fun b => ⟨b.address, b.length⟩) =
          Memory.read mem iova len := by
  unfold nvfuSglSetDptr
  by_cases ho : len ≤ firstChunk iova
  · refine ⟨[], ?_, fun mem => ?_⟩
    · rw [if_pos ho, Nat.min_eq_right ho]
    · simp [Nat.min_eq_right ho]
  obtain ⟨rest, hr⟩ := sglChunks_head iova len ((len - firstChunk iova + nvfuDmaRegion - 1) / nvfuDmaRegion)
  have hb : regionBlocks iova len = (len - firstChunk iova + nvfuDmaRegion - 1) / nvfuDmaRegion + 1 :=
    Nat.add_comm ..
  refine ⟨rest, ?_, fun mem => ?_⟩
  · rw [if_neg ho, if_pos rfl, hb, hr]
  rw [← hr, payload_sglChunks mem iova len (Nat.zero_le _) (regionBlocks_cover iova len)]
  rfl

lemma read_stageRequest (mem : HostMem) (buf : DmaAlloc) (key input : Bytes) (hn : n ≤ size) :
    Memory.read (stageRequest (dmaZmalloc mem buf size) buf.iova key.length key input) buf.iova n =
      (leU16 key.length ++ key ++ input ++ List.replicate (size - (2 + key.length + input.length)) 0).take n := by
  have hl : (leU16 key.length).length = 2 := rfl
  have hk : buf.iova + 2 = buf.iova + (leU16 key.length).length := rfl
  have hi : buf.iova + 2 + key.length = buf.iova + (leU16 key.length ++ key).length := by
    rw [length_keyHead, add_assoc]
  unfold stageRequest dmaZmalloc
  dsimp only
  rw [take_length, hi, hk, write_append, write_append, write_over, read_write _ _ _ (by simp; omega), drop_replicate]
  simp [hl, add_assoc]

end RadosNkv
