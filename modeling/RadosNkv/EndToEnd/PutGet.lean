import RadosNkv.EndToEnd.Get

/-! Stores and gets of the CLI from end to end, against a map from keys to values. -/

namespace RadosNkv

open List Memory Session

open Memory (Seg)

/-- A store, or a get if there is no value, whose driver gets its buffers. -/
structure CliOp where
  key : CStr
  val : Option Bytes
  buf : DmaAlloc
  head : DmaAlloc
  reread : XferEnv
  pos : 0 < key.bytes.length
  short : key.bytes.length ≤ 255
  small : ∀ v ∈ val, v.length ≤ maxValue
  apart : ∀ v ∈ val, head.iova + 2 + key.bytes.length ≤ buf.iova ∨ buf.iova + v.length ≤ head.iova

variable {σ : Type} {api : WasmApi}

def CliOp.env (op : CliOp) : XferEnv := ⟨some op.buf, some op.head, true⟩

def cliStep (target : VfuTarget σ) (nsid : Nat) (w : VfuWorld σ) (op : CliOp) :
    VfuWorld σ × Except SessionError Bytes :=
  match op.val with
  | some v => (storeOpts target w nsid op.key.bytes v 0 0 op.env).map id (·.map fun _ => [])
  | none => retrieve target w nsid op.key.bytes op.env op.reread

/-- What the operation does to a map. A get fails if the buffer of the hint is too short up to its
first region boundary. -/
def mapStep (m : Bytes → Option Bytes) (op : CliOp) : (Bytes → Option Bytes) × Except SessionError Bytes :=
  match op.val with
  | some v => (Function.update m op.key.bytes (some v), .ok [])
  | none =>
    (m, match m op.key.bytes with
      | some v => if v.length ≤ firstChunk op.buf.iova then .ok v else .error (.failed (-eIo))
      | none => .error (.failed (-eIo)))

section

variable {target : VfuTarget σ} {P : σ → Prop} {w : VfuWorld σ}

/-- The pair is settled and the target has the property. -/
def VfuWorld.Keeps (P : σ → Prop) (w : VfuWorld σ) : Prop := w.pair.Settled ∧ P w.target

variable (hP : ∀ s mem cmd, cmd.opc = opcKvRetrieve → P s → P (target s mem cmd).1) (h : w.Keeps P) (nsid : Nat)

include hP h

lemma xferSgl_keeps (k : CStr) (size iova : Nat) (env : XferEnv) :
    (nvfuKvXferSgl target w nsid opcKvRetrieve k size iova 0 0 env).1.Keeps P := by
  unfold nvfuKvXferSgl
  split
  · exact h
  dsimp only
  split
  · exact h
  · exact ⟨(settled_inTime h.1 _ _).1, hP _ _ _ rfl h.2⟩

lemma retrieveRaw_keeps (k : CStr) (len : Nat) (env : XferEnv) : (retrieveRaw target w nsid k len env).1.Keeps P := by
  unfold retrieveRaw NkvxShim.nkvxRetrieve
  cases env.buf with
  | none => exact h
  | some buf =>
    have hx := xferSgl_keeps (w := { w with mem := dmaZmalloc w.mem buf (max len 1) }) hP h nsid k len buf.iova env
    dsimp only
    split <;> split <;> exact hx

lemma retrieve_keeps (key : Bytes) (probe reread : XferEnv) : (retrieve target w nsid key probe reread).1.Keeps P := by
  unfold retrieve
  split
  · exact h
  next k _ =>
  have h1 := retrieveRaw_keeps hP h nsid k retrieveHint probe
  split
  · next he => rwa [he] at h1
  next w' buf trueLen he =>
  rw [he] at h1
  have h2 := retrieveRaw_keeps hP h1 nsid k trueLen reread
  split_ifs
  · exact h1
  · exact h1
  split
  · next he' => rwa [he'] at h2
  next he' =>
  rw [he'] at h2
  split_ifs <;> exact h2

end

variable {cfg : WasmConfig} {m : Bytes → Option Bytes} {front : NkvxFront (Executor api)}
  (hf : front.kv = Executor.serve cfg)

include hf

lemma target_retrieve_holds (disk : KvradosDisk) (s : Executor api) (mem : HostMem) (cmd : NvmeCmd)
    (ho : cmd.opc = opcKvRetrieve) (h : s.Holds m) : (forwarderTarget disk front s mem cmd).1.Holds m := by
  have hg (req : KvIn) : (front.kv s (.retrieve req)).1.Holds m := by
    have hh := (serve_refines cfg h (.retrieve req)).2
    rw [plainHandle] at hh
    rw [hf]
    split_ifs at hh <;> exact hh
  unfold forwarderTarget kvradosHandleKvIo
  rw [ho]
  simp only [show opcKvRetrieve ≠ opcKvStore by decide, show opcKvRetrieve ≠ opcKvDelete by decide, or_self, and_false,
    if_false, if_true]
  split
  · exact h
  · exact hg _

variable {disk : KvradosDisk} {w : VfuWorld (Executor api)} (hw : w.Keeps (·.Holds m)) (nsid : Nat) {op : CliOp}

include hw

lemma retrieve_missing (hv : m op.key.bytes = none) :
    (retrieve (forwarderTarget disk front) w nsid op.key.bytes op.env op.reread).2 = .error (.failed (-eIo)) := by
  have hl : 0 < retrieveHint := by decide
  obtain ⟨mem, pair, s, cpl, hq, hc, hsc, -⟩ := xferSgl_retrieve front disk
    (w := { w with mem := dmaZmalloc w.mem op.buf (max retrieveHint 1) }) hw.1 nsid op.key op.pos op.short hl (by decide)
    op.buf.iova (some op.buf) op.head rfl
  have hb : nvfuStatus cpl ≠ 0 := fun hz => by
    have ht := (nvfuStatus_eq_zero_iff hc hsc).mp hz
    rw [hf, (serve_refines cfg hw.2 _).1] at ht
    simp [retrieveRequest, plainHandle, kvRequest, ne_nil_of_length_pos op.pos, hv, plainRetrieve, ExecResult.only] at ht
  unfold retrieve retrieveRaw NkvxShim.nkvxRetrieve CliOp.env
  rw [op.key.cString_bytes]
  dsimp only
  rw [hq]
  simp [hb, eIo]

omit hf hw

lemma payload_setDptrKv (mem : HostMem) (hedI hedL iova len : Nat) :
    ∃ dptr, nvfuSglSetDptrKv hedI hedL iova len true = .ok dptr ∧
      payload mem (dptr.map fun b => ⟨b.address, b.length⟩) = read mem hedI hedL ++ read mem iova len := by
  refine ⟨_, rfl, ?_⟩
  rw [map_cons, payload_cons]
  congr 1
  split_ifs with hz ho
  · rw [hz]
    rfl
  · exact payload_sglChunks mem iova len (Nat.zero_le _) (n := 0) (by omega)
  rw [regionBlocks, add_comm]
  exact payload_sglChunks mem iova len (Nat.zero_le _) (regionBlocks_cover iova len)

lemma staged_apart (mem : HostMem) (head : DmaAlloc) (k : CStr) (hm : k.bytes.length ≤ 255)
    (h : head.iova + 2 + k.bytes.length ≤ a ∨ a + n ≤ head.iova) : read
        (write (write (dmaZmalloc mem head (2 + k.len % 256)) head.iova (leU16 (k.len % 256)))
          (head.iova + 2) (k.bytes.take (k.len % 256))) a n = read mem a n := by
  have h2 : (leU16 k.bytes.length).length = 2 := rfl
  rw [k.len_mod hm, take_length, dmaZmalloc, read_write_apart, read_write_apart, read_write_apart] <;> intro x <;>
    simp only [h2, length_replicate, not_and] <;> omega

variable (hr : disk.readOnly = false) {v : Bytes}

include hr

lemma plainHandle_store {key : Bytes} (hp : 0 < key.length) {cmd : NvmeCmd} (hf : cmd.ro = 0) :
    plainHandle m (storeRequest disk cmd key v) = (Function.update m key (some v), .only .success) := by
  have hn := ne_nil_of_length_pos hp
  have hl : kvradosDecodeStoreFlags cmd = 0 := by rw [kvradosDecodeStoreFlags, hf]; rfl
  cases v <;> simp [storeRequest, plainHandle, plainStore, kvRequest, hn, hr, hl, flagSinke, flagSike]

include hf hw

lemma xferSgl_store (hv : op.val = some v) (hmem : read w.mem op.buf.iova v.length = v) : ∃ w' cpl,
      nvfuKvXferSgl (forwarderTarget disk front) w nsid opcKvStore op.key v.length op.buf.iova 0 0 op.env = (w', 0, cpl) ∧
        w'.Keeps (·.Holds (Function.update m op.key.bytes (some v))) := by
  have hz := op.small v hv
  unfold maxValue at hz
  have hh := staged_head w.mem op.head op.key op.short
  have ha := (staged_apart w.mem op.head op.key op.short (op.apart v hv)).trans hmem
  unfold nvfuKvXferSgl CliOp.env
  dsimp only
  generalize write (write (dmaZmalloc w.mem op.head (2 + op.key.len % 256)) op.head.iova (leU16 (op.key.len % 256)))
    (op.head.iova + 2) (op.key.bytes.take (op.key.len % 256)) = mem at hh ha ⊢
  obtain ⟨dptr, hd, hp⟩ := payload_setDptrKv mem op.head.iova (2 + op.key.bytes.length) op.buf.iova v.length
  rw [hh, ha] at hp
  rw [op.key.len_mod op.short, hd]
  let cmd := kvXferCmd nsid opcKvStore v.length 0 0 dptr
  obtain ⟨he, ho⟩ := serve_refines cfg hw.2 (storeRequest disk { cmd with cid := w.pair.q.cid } op.key.bytes v)
  rw [plainHandle_store hr op.pos rfl] at he ho
  have ht : forwarderTarget disk front w.target mem { cmd with cid := w.pair.q.cid } = _ :=
    handle_store hr front w.target rfl hp op.pos op.short (by omega)
  rw [hf, he] at ht
  obtain ⟨pair, cpl, hq, hse, hc, hsc, -⟩ := submitPoll_settled (w := { w with mem }) hw.1 ht
  rw [(@nvfuStatus_eq_zero_iff .success cpl hc hsc).mpr rfl] at hq
  exact ⟨_, cpl, hq, hse, ho⟩

lemma storeOpts_eq (hv : op.val = some v) :
    let r := storeOpts (forwarderTarget disk front) w nsid op.key.bytes v 0 0 op.env
    r.2 = .ok () ∧ r.1.Keeps (·.Holds (Function.update m op.key.bytes (some v))) := by
  have hz := op.small v hv
  unfold maxValue at hz
  have hv32 : v.length % 2 ^ 32 = v.length := Nat.mod_eq_of_lt (by omega)
  obtain ⟨w', cpl, he, hk⟩ := xferSgl_store
    (w := { w with mem := write (dmaZmalloc w.mem op.buf (max v.length 1)) op.buf.iova v }) hf hw nsid hr hv
    (by rw [read_write _ _ _ le_rfl, take_length])
  unfold storeOpts NkvxShim.nkvxStore
  rw [op.key.cString_bytes, hv32, take_length]
  dsimp only [CliOp.env] at he ⊢
  rw [he]
  exact ⟨rfl, hk⟩

omit hf hw hr

/-- The executor of the world holds the map, whose values a store may have. -/
def Backs (m : Bytes → Option Bytes) (w : VfuWorld (Executor api)) : Prop :=
  w.Keeps (·.Holds m) ∧ ∀ key v, m key = some v → v.length ≤ maxValue

include hf hr in
lemma cliStep_backs (op : CliOp) (h : Backs m w) :
    (cliStep (forwarderTarget disk front) nsid w op).2 = (mapStep m op).2 ∧
      Backs (mapStep m op).1 (cliStep (forwarderTarget disk front) nsid w op).1 := by
  obtain ⟨hw, hb⟩ := h
  cases hv : op.val with
  | some v =>
    obtain ⟨ho, hk⟩ := storeOpts_eq hf hw nsid hr hv
    simp only [cliStep, mapStep, hv]
    refine ⟨by rw [Prod.map_snd, ho]; rfl, hk, fun key v' hkey => ?_⟩
    rw [Function.update_apply] at hkey
    split_ifs at hkey
    · cases hkey
      exact op.small v hv
    · exact hb key v' hkey
  | none =>
    have hk := retrieve_keeps (target_retrieve_holds hf disk) hw nsid op.key.bytes op.env op.reread
    simp only [cliStep, mapStep, hv]
    refine ⟨?_, hk, hb⟩
    split
    · next v hkey => exact retrieve_eq front hf disk hw.1 hw.2 nsid _ op.pos op.short op.key.noNul hkey (hb _ _ hkey) ..
    · next hkey => exact retrieve_missing hf hw nsid hkey

/-- Every run of stores and gets of the CLI returns what it returns on a map from keys to values. -/
theorem session_replies_as_map (cfg : WasmConfig) (front : NkvxFront (Executor api))
    (hfront : front.kv = Executor.serve cfg)
    (disk : KvradosDisk) (hrw : disk.readOnly = false) (nsid : Nat) (w : VfuWorld (Executor api))
    (m : Bytes → Option Bytes) (hm : Backs m w) (ops : List CliOp) :
    Machine.replies
      (cliStep (forwarderTarget disk front) nsid) w ops = Machine.replies mapStep m ops :=
  Machine.replies_eq_of_related (R := fun w m => Backs m w) (fun _ _ op h => cliStep_backs hfront nsid hrw op h) hm ops

def sampleOp (val : Option Bytes) (h : ∀ v ∈ val, v.length ≤ 4096) : CliOp where
  key := ⟨[7, 8], by decide⟩
  val := val
  buf := ⟨4096, rfl⟩
  head := ⟨0x900000, rfl⟩
  reread := twoBuffers
  pos := by decide
  short := by decide
  small v hv := (h v hv).trans (by decide)
  apart v hv := .inr ((Nat.add_le_add_left (h v hv) _).trans (by decide))

theorem session_replies_new_value :
    Machine.replies (cliStep (forwarderTarget ⟨false, []⟩ (kvFront .default toyApi)) 1)
      (freshWorld [1])
      [sampleOp none (by decide), sampleOp (some [9]) (by decide), sampleOp none (by decide)] =
        [.error (.failed (-eIo)), .ok [], .ok [9]] := by
  have hb : ∀ key v, poolOf [1] (nkvxKeyToOid key) = some v → v.length ≤ maxValue := by
    intro key v h
    unfold poolOf at h
    split_ifs at h
    cases h
    decide
  rw [session_replies_as_map .default (kvFront .default toyApi) rfl ⟨false, []⟩ rfl 1 (freshWorld [1]) _
    ⟨⟨settled_init (by decide), holds_init toyApi (poolOf [1])⟩, hb⟩]
  decide

end RadosNkv
