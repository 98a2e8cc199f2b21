import RadosNkv.EndToEnd.Exec
import RadosNkv.Forwarder.WireKeys

/-! The key of a call of the CLI and the object that it addresses. -/

namespace RadosNkv

open List Memory Session

open Memory (Seg)

variable {σ : Type}

inductive PathError where
  | emptyPath
  | emptyNamespace
  | emptyKey
  | missingKey
deriving DecidableEq

def KvPath.parseWithKey (path : Bytes) : Except PathError (Bytes × Bytes) :=
  if path = [] then .error .emptyPath
  else
    let ns := path.takeWhile (· ≠ 0x2f)
    match path.dropWhile (· ≠ 0x2f) with
    | [] => .error .missingKey
    | _ :: key =>
      if ns = [] then .error .emptyNamespace
      else if key = [] then .error .emptyKey
      else .ok (ns, key)

def tracedTarget (disk : KvradosDisk) (env : KvIoEnv) (front : NkvxFront σ) : VfuTarget (σ × List Bytes) :=
  fun s mem cmd => kvradosHandleKvIo disk env front.traced s mem cmd (transportIovs cmd)

def VfuWorld.asked (w : VfuWorld (σ × List Bytes)) : List Bytes := w.target.2

/-- A store, get or exec of the key either returns an error or addresses the object of that key and
no other, and a store addresses no other object in any case. -/
structure KeyExact (key : Bytes) : Prop where
  store : ∀ (σ : Type) (front : NkvxFront σ) (disk : KvradosDisk) (fenv : KvIoEnv) (w : VfuWorld (σ × List Bytes))
    (nsid : Nat) (val : Bytes) (opt ttl : Nat) (env : XferEnv), w.pair.Settled → w.asked = [] →
    let r := Session.storeOpts (tracedTarget disk fenv front) w nsid key val opt ttl env
    (∀ k ∈ r.1.asked, k = key) ∧ (r.2 = .ok () → key ∈ r.1.asked)
  get : ∀ (σ : Type) (front : NkvxFront σ) (disk : KvradosDisk) (fenv : KvIoEnv) (w : VfuWorld (σ × List Bytes))
    (nsid : Nat) (probe reread : XferEnv) (v : Bytes), w.pair.Settled → w.asked = [] →
    let r := Session.retrieve (tracedTarget disk fenv front) w nsid key probe reread
    r.2 = .ok v → key ∈ r.1.asked ∧ ∀ k ∈ r.1.asked, k = key
  exec : ∀ (σ : Type) (front : NkvxFront σ) (disk : KvradosDisk) (fenv : KvIoEnv) (w : VfuWorld (σ × List Bytes))
    (nsid opId : Nat) (input : Bytes) (probe rerun : XferEnv) (v : Bytes), w.pair.Settled → w.asked = [] →
    let r := Session.exec (tracedTarget disk fenv front) w nsid key opId input probe rerun
    r.2 = some (.ok v) → ∀ k ∈ r.1.asked, k = key

variable {front : NkvxFront σ} {disk : KvradosDisk} {fenv : KvIoEnv} {w : VfuWorld (σ × List Bytes)} (k : CStr)

lemma CStr.length_sent_le : k.sent.length ≤ 255 := by
  rw [k.length_sent]
  omega

def Extends (k : CStr) (before after : List Bytes) : Prop :=
  (after = before ++ [k.sent] ∧ 0 < k.sent.length) ∨ after = before

lemma traced_keyed {cmd : NvmeCmd} (hy : cmd.Keyed)
    (hp : payload mem (transportIovs cmd) = leU16 k.sent.length ++ k.sent ++ rest)
    (s : σ × List Bytes) :
    ((tracedTarget disk fenv front s mem cmd).1.2 = s.2 ++ [k.sent] ∧ 0 < k.sent.length) ∨
    ((tracedTarget disk fenv front s mem cmd).1.2 = s.2 ∧
      (tracedTarget disk fenv front s mem cmd).2.2.sc ≠ 0 ∧ ¬ (Granted disk fenv cmd ∧ 0 < k.sent.length)) := by
  rcases handle_keyed hy front s disk fenv mem (transportIovs cmd) with
    ⟨key, hh, ha⟩ | ⟨hm, ⟨sct, sc, hr, hs⟩, hn⟩
  · have hk : key = k.sent := hh.eq_of_head hp k.length_sent_le
    rw [hk] at ha hh
    exact .inl ⟨ha, hh.1⟩
  refine .inr ⟨congrArg Prod.snd hm, ?_, fun h => hn ⟨h.1, k.sent, h.2, k.length_sent_le, rest, hp⟩⟩
  unfold tracedTarget
  rw [hr]
  exact hs

lemma submitPoll_error {τ : Type} {target : VfuTarget τ} {w : VfuWorld τ} (hs : w.pair.Settled) {cmd : NvmeCmd}
    (hsc : (target w.target w.mem { cmd with cid := w.pair.q.cid }).2.2.sc ≠ 0) :
    (nvfuSubmitPoll target w cmd).2.1 ≠ 0 := by
  obtain ⟨pair, cpl, he, -, -, hc, -⟩ := submitPoll_settled hs (Prod.mk.eta (p := target w.target w.mem _)).symm
  rw [he]
  refine Int.natCast_ne_zero.mpr fun hz => hsc ?_
  rw [← hc]
  exact (Nat.or_eq_zero_iff.mp hz).1

lemma xferSgl_asked (ho : opc = opcKvStore ∨ opc = opcKvRetrieve) (nsid size bufIova ro ttl : Nat)
    (env : XferEnv) :
    let r := nvfuKvXferSgl (tracedTarget disk fenv front) w nsid opc k size bufIova ro ttl env
    (r.1.asked = w.asked ++ [k.sent] ∧ 0 < k.sent.length) ∨
    (r.1.asked = w.asked ∧ (w.pair.Settled → r.2.1 ≠ 0) ∧
      ¬ (env.head.isSome ∧ env.segs = true ∧ fenv = .good ∧ disk.readOnly = false ∧ 0 < k.sent.length)) := by
  have hm : -eNomem ≠ (0 : Int) := by decide
  unfold nvfuKvXferSgl
  obtain ⟨buf, head, segs⟩ := env
  cases head with
  | none => exact .inr ⟨rfl, fun _ => hm, fun h => by cases h.1⟩
  | some head =>
    have ht := staged_sent w.mem head k
    dsimp only
    generalize write (write (dmaZmalloc w.mem head (2 + k.len % 256)) head.iova
      (leU16 (k.len % 256))) (head.iova + 2) (k.bytes.take (k.len % 256)) = mem at ht ⊢
    cases segs with
    | false => exact .inr ⟨rfl, fun _ => hm, fun h => by cases h.2.1⟩
    | true =>
      unfold nvfuSglSetDptrKv
      rw [if_pos rfl]
      dsimp only
      generalize sglChunks bufIova size _ 0 (firstChunk bufIova) = blocks
      generalize hc : kvXferCmd nsid opc size ro ttl (⟨head.iova, 2 + k.len % 256⟩ :: blocks) = cmd
      have hv : cmd.opc = opc := by rw [← hc]; rfl
      have hk : NvmeCmd.Keyed { cmd with cid := w.pair.q.cid } := by
        rcases ho with h | h
        · exact .inl (hv.trans h)
        · exact .inr (.inl (hv.trans h))
      have hp : payload mem (transportIovs { cmd with cid := w.pair.q.cid }) =
          leU16 k.sent.length ++ k.sent ++ payload mem (blocks.map fun b => ⟨b.address, b.length⟩) := by
        rw [← hc, ← ht]
        rfl
      rcases traced_keyed k hk hp w.target with ha | ⟨hsm, hsc, hn⟩
      · exact .inl ha
      have he (hs : w.pair.Settled) :=
        @submitPoll_error _ (tracedTarget disk fenv front) { w with mem } hs cmd hsc
      refine .inr ⟨hsm, he, fun h => hn ⟨⟨h.2.2.1, fun hr => ?_⟩, h.2.2.2.2⟩⟩
      rw [h.2.2.2.1] at hr
      cases hr.1

/-- The driver gets its buffers, the forwarder meets no failure and the disk is writable. -/
def Admits (disk : KvradosDisk) (fenv : KvIoEnv) (env : XferEnv) : Prop :=
  env.buf.isSome ∧ env.head.isSome ∧ env.segs = true ∧ fenv = .good ∧ disk.readOnly = false

variable (nsid : Nat)

lemma store_asked (val : Bytes) (opt ttl : Nat) (env : XferEnv) :
    let r := NkvxShim.nkvxStore (tracedTarget disk fenv front) w nsid k val opt ttl env
    (r.1.asked = w.asked ++ [k.sent] ∧ 0 < k.sent.length) ∨
    (r.1.asked = w.asked ∧ (w.pair.Settled → r.2 ≠ 0) ∧ ¬ (Admits disk fenv env ∧ 0 < k.sent.length)) := by
  unfold NkvxShim.nkvxStore
  cases hb : env.buf with
  | none =>
    refine .inr ⟨rfl, fun _ => show (-eNomem : Int) ≠ 0 by decide, fun h => ?_⟩
    have ho := h.1.1
    rw [hb] at ho
    cases ho
  | some buf =>
    dsimp only
    generalize write (dmaZmalloc w.mem buf (max val.length 1)) buf.iova val = mem
    have hx := @xferSgl_asked σ front disk fenv { w with mem } k opcKvStore (.inl rfl) nsid val.length buf.iova opt
      ttl env
    generalize nvfuKvXferSgl (tracedTarget disk fenv front) { w with mem } nsid opcKvStore k val.length buf.iova opt ttl
      env = r at hx ⊢
    by_cases hr : r.2.1 = 0
    · rw [if_neg (not_not.mpr hr)]
      exact hx.imp_right fun h => ⟨h.1, fun hs => absurd hr (h.2.1 hs), fun ha =>
        h.2.2 ⟨ha.1.2.1, ha.1.2.2.1, ha.1.2.2.2.1, ha.1.2.2.2.2, ha.2⟩⟩
    rw [if_pos hr]
    exact hx.imp_right fun h => ⟨h.1, fun _ => show (-eIo : Int) ≠ 0 by decide, fun ha =>
      h.2.2 ⟨ha.1.2.1, ha.1.2.2.1, ha.1.2.2.2.1, ha.1.2.2.2.2, ha.2⟩⟩

lemma storeOpts_world {τ : Type} (target : VfuTarget τ) (w : VfuWorld τ) (nsid : Nat) (k : CStr) (val : Bytes)
    (opt ttl : Nat) (env : XferEnv) : (storeOpts target w nsid k.bytes val opt ttl env).1 =
      (NkvxShim.nkvxStore target w nsid k (val.take (val.length % 2 ^ 32)) opt ttl env).1 := by
  have hk := k.cString_bytes
  unfold storeOpts
  rw [hk]
  dsimp only
  split <;> rfl

lemma nkvxRetrieve_asked (len : Nat) (env : XferEnv) :
    let r := NkvxShim.nkvxRetrieve (tracedTarget disk fenv front) w nsid k len env
    (r.1.asked = w.asked ++ [k.sent] ∧ 0 < k.sent.length) ∨
    (r.1.asked = w.asked ∧ (w.pair.Settled → r.2.1 ≠ 0)) := by
  unfold NkvxShim.nkvxRetrieve
  cases env.buf with
  | none => exact .inr ⟨rfl, fun _ => show (-eNomem : Int) ≠ 0 by decide⟩
  | some buf =>
    dsimp only
    generalize dmaZmalloc w.mem buf (max len 1) = mem
    have hx := @xferSgl_asked σ front disk fenv { w with mem } k opcKvRetrieve (.inr rfl) nsid len buf.iova 0 0 env
    generalize nvfuKvXferSgl (tracedTarget disk fenv front) { w with mem } nsid opcKvRetrieve k len buf.iova 0 0 env = r
      at hx ⊢
    by_cases hr : r.2.1 = 0
    · rw [if_neg (not_not.mpr hr)]
      exact hx.imp_right fun h => ⟨h.1, fun hs => absurd hr (h.2.1 hs)⟩
    rw [if_pos hr]
    exact hx.imp_right fun h => ⟨h.1, fun _ => show (-eIo : Int) ≠ 0 by decide⟩

lemma retrieveRaw_asked (len : Nat) (env : XferEnv) :
    let r := retrieveRaw (tracedTarget disk fenv front) w nsid k len env
    (r.1.asked = w.asked ++ [k.sent] ∧ 0 < k.sent.length) ∨
    (r.1.asked = w.asked ∧ (w.pair.Settled → ∀ x, r.2 ≠ .ok x)) := by
  have hc := @nkvxRetrieve_asked σ front disk fenv w k nsid len env
  unfold retrieveRaw
  dsimp only at hc ⊢
  generalize NkvxShim.nkvxRetrieve (tracedTarget disk fenv front) w nsid k len env = r at hc ⊢
  by_cases hr : r.2.1 = 0
  · rw [if_neg (not_not.mpr hr)]
    exact hc.imp_right fun h => ⟨h.1, fun hs => absurd hr (h.2 hs)⟩
  rw [if_pos hr]
  exact hc.imp_right fun h => ⟨h.1, fun _ x hx => by cases hx⟩

variable {before after : List Bytes}

lemma Extends.mem {k : CStr} (h : Extends k before after) (hx : x ∈ after) :
    x ∈ before ∨ (x = k.sent ∧ 0 < k.sent.length) := by
  rcases h with ⟨rfl, hp⟩ | rfl
  · rcases mem_append.mp hx with hx | hx
    · exact .inl hx
    · exact .inr ⟨mem_singleton.mp hx, hp⟩
  · exact .inl hx

lemma Extends.mono {k : CStr} (h : Extends k before after) (hx : x ∈ before) : x ∈ after := by
  rcases h with ⟨rfl, -⟩ | rfl
  · exact mem_append_left _ hx
  · exact hx

lemma retrieve_asked (hw : w.asked = []) (nsid : Nat) (probe reread : XferEnv) :
    let r := retrieve (tracedTarget disk fenv front) w nsid k.bytes probe reread
    (∀ x ∈ r.1.asked, x = k.sent ∧ 0 < k.sent.length) ∧
      (w.pair.Settled → ∀ v, r.2 = .ok v → k.sent ∈ r.1.asked) := by
  have hk := k.cString_bytes
  have hf := @retrieveRaw_asked σ front disk fenv w k nsid retrieveHint probe
  unfold retrieve
  rw [hk]
  dsimp only at hf ⊢
  rw [hw, nil_append] at hf
  have he :
      Extends k [] (retrieveRaw (tracedTarget disk fenv front) w nsid k retrieveHint probe).1.asked :=
    hf.imp id And.left
  generalize retrieveRaw (tracedTarget disk fenv front) w nsid k retrieveHint probe = pass at hf he ⊢
  obtain ⟨w', outcome⟩ := pass
  have ho : ∀ x ∈ w'.asked, x = k.sent ∧ 0 < k.sent.length := fun x hx =>
    (he.mem hx).resolve_left not_mem_nil
  cases outcome with
  | error e => exact ⟨ho, fun _ v hv => by cases hv⟩
  | ok first =>
    -- A pass that returned a length has asked for the key.
    have ha : w.pair.Settled → k.sent ∈ w'.asked := fun hs => by
      rcases hf with ⟨hq, -⟩ | ⟨-, hr⟩
      · rw [hq]
        exact mem_singleton_self _
      · exact absurd rfl (hr hs first)
    dsimp only
    by_cases ht : first.2 ≤ first.1.length
    · rw [if_pos ht]
      exact ⟨ho, fun hs _ _ => ha hs⟩
    rw [if_neg ht]
    by_cases hl : first.2 > maxValue
    · rw [if_pos hl]
      exact ⟨ho, fun hs _ _ => ha hs⟩
    rw [if_neg hl]
    have hc : Extends k w'.asked
        (retrieveRaw (tracedTarget disk fenv front) w' nsid k first.2 reread).1.asked :=
      (@retrieveRaw_asked σ front disk fenv w' k nsid first.2 reread).imp id And.left
    generalize retrieveRaw (tracedTarget disk fenv front) w' nsid k first.2 reread = pass at hc ⊢
    obtain ⟨w'', outcome⟩ := pass
    have ho' : ∀ x ∈ w''.asked, x = k.sent ∧ 0 < k.sent.length := fun x hx =>
      (hc.mem hx).elim (ho x) id
    cases outcome with
    | error e => exact ⟨ho', fun hs _ _ => hc.mono (ha hs)⟩
    | ok second =>
      dsimp only
      split
      · exact ⟨ho', fun hs _ _ => hc.mono (ha hs)⟩
      · exact ⟨ho', fun hs _ _ => hc.mono (ha hs)⟩

lemma payload_setDptr (h : nvfuSglSetDptr iova len segs = .ok dptr) (mem : HostMem) :
    payload mem (dptr.map fun b => ⟨b.address, b.length⟩) = read mem iova len := by
  obtain ⟨rest, hs, hb⟩ := setDptr_eq iova len
  cases segs with
  | true =>
    rw [hs] at h
    cases h
    exact hb mem
  | false =>
    unfold nvfuSglSetDptr at h
    by_cases ho : len ≤ firstChunk iova
    · rw [if_pos ho] at h
      cases h
      simp
    rw [if_neg ho] at h
    cases h

lemma read_staged_sent (mem : HostMem) (buf : DmaAlloc) (k : CStr) (input : Bytes) (hn : n ≤ size)
    (hr : 2 + k.sent.length ≤ n) :
    ∃ rest, read (stageRequest (dmaZmalloc mem buf size) buf.iova (k.len % 256) k.bytes input) buf.iova n =
      leU16 k.sent.length ++ k.sent ++ rest := by
  have hs : stageRequest (dmaZmalloc mem buf size) buf.iova (k.len % 256) k.bytes input =
      stageRequest (dmaZmalloc mem buf size) buf.iova k.sent.length k.sent input := by
    unfold stageRequest
    rw [k.length_sent, ← k.length_sent, take_length, k.length_sent]
    rfl
  rw [hs, read_stageRequest mem buf k.sent input hn, append_assoc _ input, take_append,
    take_of_length_le (by rw [length_keyHead]; exact hr)]
  exact ⟨_, rfl⟩

lemma exec_asked (report : Nat → Nat → Nat) (k : CStr) (nsid opId : Nat) (input : Bytes) {outLen : Nat}
    (hu : outLen < 2 ^ 32) (env : XferEnv) : Extends k w.asked
      (execThroughDptr report (tracedTarget disk fenv front) w nsid k opId input outLen env).1.asked := by
  unfold execThroughDptr
  by_cases hr : (2 + k.len % 256 + input.length) % 2 ^ 32 > max outLen 4096
  · rw [if_pos hr]
    exact .inr rfl
  rw [if_neg hr]
  cases env.buf with
  | none => exact .inr rfl
  | some buf =>
    dsimp only
    by_cases ho : 2 + k.len % 256 + input.length > max outLen 4096
    · rw [if_pos ho]
      exact .inr rfl
    have hw : (2 + k.len % 256 + input.length) % 2 ^ 32 = 2 + k.len % 256 + input.length :=
      Nat.mod_eq_of_lt (by omega)
    rw [if_neg ho, hw]
    obtain ⟨rest, hs⟩ := read_staged_sent w.mem buf k input
      (show max (2 + k.len % 256 + input.length) outLen ≤ max outLen 4096 by omega) (by rw [k.length_sent]; omega)
    generalize stageRequest (dmaZmalloc w.mem buf (max outLen 4096)) buf.iova (k.len % 256) k.bytes input = mem
      at hs ⊢
    cases hd : nvfuSglSetDptr buf.iova (max (2 + k.len % 256 + input.length) outLen) env.segs with
    | error err => exact .inr rfl
    | ok dptr =>
      dsimp only
      generalize hc : execCmd nsid (2 + k.len % 256 + input.length) outLen opId dptr = cmd
      have hp : NvmeCmd.opc { cmd with cid := w.pair.q.cid } = opcKvExec := by
        rw [← hc]
        rfl
      have hy : payload mem (transportIovs { cmd with cid := w.pair.q.cid }) =
          leU16 k.sent.length ++ k.sent ++ rest := by
        rw [← hs, ← payload_setDptr hd, ← hc]
        rfl
      have ha : Extends k w.asked (nvfuSubmitPoll (tracedTarget disk fenv front) { w with mem } cmd).1.asked := by
        rcases handle_exec_asks hp front w.target disk fenv mem (transportIovs { cmd with cid := w.pair.q.cid }) with
          ⟨key, hh, ha⟩ | hm
        · have hk : key = k.sent := hh.eq_of_head hy k.length_sent_le
          rw [hk] at ha hh
          exact .inl ⟨ha, hh.1⟩
        · exact .inr hm
      split
      · exact ha
      · exact ha

lemma execRaw_asked (opId : Nat) (input : Bytes) {len : Nat} (hl : len < 2 ^ 32) (env : XferEnv) :
    Extends k w.asked (execRaw (tracedTarget disk fenv front) w nsid k opId input len env).1.asked := by
  have hc := @exec_asked σ front disk fenv w (fun cdw0 _ => cdw0) k nsid opId (input.take (input.length % 2 ^ 32))
    len hl env
  unfold execRaw NkvxShim.nkvxExec
  generalize execThroughDptr (fun cdw0 _ => cdw0) (tracedTarget disk fenv front) w nsid k opId
    (input.take (input.length % 2 ^ 32)) len env = r at hc ⊢
  obtain ⟨w', outcome⟩ := r
  cases outcome with
  | none => exact hc
  | some out =>
    dsimp only
    split
    · exact hc
    · exact hc

lemma sessionExec_asked (hw : w.asked = []) (nsid opId : Nat) (input : Bytes) (probe rerun : XferEnv) :
    ∀ x ∈ (Session.exec (tracedTarget disk fenv front) w nsid k.bytes opId input probe rerun).1.asked,
      x = k.sent ∧ 0 < k.sent.length := by
  have hk := k.cString_bytes
  have hh : retrieveHint < 2 ^ 32 := by decide
  have hf := @execRaw_asked σ front disk fenv w k nsid opId input retrieveHint hh probe
  unfold Session.exec
  rw [hk]
  rw [hw] at hf
  dsimp only
  generalize execRaw (tracedTarget disk fenv front) w nsid k opId input retrieveHint probe = pass at hf ⊢
  obtain ⟨w', outcome⟩ := pass
  have ho : ∀ x ∈ w'.asked, x = k.sent ∧ 0 < k.sent.length := fun x hx =>
    (hf.mem hx).resolve_left not_mem_nil
  rcases outcome with _ | (e | first)
  · exact ho
  · exact ho
  dsimp only
  by_cases ht : first.2 ≤ first.1.length
  · rw [if_pos ht]
    exact ho
  rw [if_neg ht]
  by_cases hl : first.2 > maxValue
  · rw [if_pos hl]
    exact ho
  rw [if_neg hl]
  have hs := @execRaw_asked σ front disk fenv w' k nsid opId input first.2
    (lt_of_le_of_lt (Nat.le_of_not_lt hl) (by decide)) rerun
  generalize execRaw (tracedTarget disk fenv front) w' nsid k opId input first.2 rerun = pass at hs ⊢
  obtain ⟨w'', outcome⟩ := pass
  have ho' : ∀ x ∈ w''.asked, x = k.sent ∧ 0 < k.sent.length := fun x hx =>
    (hs.mem hx).elim (ho x) id
  rcases outcome with _ | (e | second)
  · exact ho'
  · exact ho'
  · dsimp only
    split
    · exact ho'
    · exact ho'

def Whole (k : CStr) : Prop := k.sent = k.bytes ∨ k.sent = []

lemma Whole.eq {k : CStr} (h : Whole k) (hp : 0 < k.sent.length) : k.sent = k.bytes := by
  rcases h with h | h
  · exact h
  rw [h] at hp
  exact absurd hp (lt_irrefl 0)

lemma whole_iff : Whole k ↔ k.bytes.length ≤ 255 ∨ 256 ∣ k.bytes.length := by
  have hl := k.length_sent
  unfold CStr.len at hl
  constructor
  · rintro (h | h)
    · rw [h] at hl
      omega
    rw [h] at hl
    exact .inr (Nat.dvd_of_mod_eq_zero hl.symm)
  rintro (h | h)
  · left
    rw [CStr.sent, k.len_mod h, take_length]
  right
  rw [Nat.mod_eq_zero_of_dvd h] at hl
  exact eq_nil_of_length_eq_zero hl

lemma Whole.keyExact {k : CStr} (h : Whole k) : KeyExact k.bytes where
  store σ front disk fenv w nsid val opt ttl env hs hw := by
    have hk := k.cString_bytes
    have ht := @store_asked σ front disk fenv w k nsid (val.take (val.length % 2 ^ 32)) opt ttl env
    unfold storeOpts
    rw [hk]
    dsimp only at ht ⊢
    rw [hw, nil_append] at ht
    generalize NkvxShim.nkvxStore (tracedTarget disk fenv front) w nsid k (val.take (val.length % 2 ^ 32)) opt ttl env =
      r at ht ⊢
    by_cases hr : r.2 = 0
    · rw [if_neg (not_not.mpr hr)]
      rcases ht with ⟨ha, hp⟩ | ⟨-, her, -⟩
      · rw [ha, h.eq hp]
        exact ⟨fun x hx => mem_singleton.mp hx, fun _ => mem_singleton_self _⟩
      · exact absurd hr (her hs)
    rw [if_pos hr]
    refine ⟨fun x hx => ?_, fun hok => by cases hok⟩
    rcases ht with ⟨ha, hp⟩ | ⟨hsm, -⟩
    · rw [ha] at hx
      rw [mem_singleton.mp hx, h.eq hp]
    rw [hsm] at hx
    cases hx
  get σ front disk fenv w nsid probe reread v hs hw := by
    intro r hok
    obtain ⟨ho, ha⟩ := @retrieve_asked σ front disk fenv w k hw nsid probe reread
    have hm := ha hs v hok
    rw [h.eq (ho _ hm).2] at hm ho
    exact ⟨hm, fun x hx => (ho x hx).1⟩
  exec σ front disk fenv w nsid opId input probe rerun v _ hw := by
    intro r _ x hx
    obtain ⟨he, hp⟩ := @sessionExec_asked σ front disk fenv w k hw nsid opId input probe rerun x hx
    rw [he, h.eq hp]

lemma keyExact_of_nul (h : 0 ∈ key) : KeyExact key := by
  have hk : cString key = none := dif_neg (not_not.mpr h)
  constructor
  · intro σ front disk fenv w nsid val opt ttl env _ hw
    unfold storeOpts
    rw [hk]
    dsimp only
    rw [hw]
    exact ⟨nofun, nofun⟩
  · intro σ front disk fenv w nsid probe reread v _ hw r ho
    unfold r retrieve at ho
    rw [hk] at ho
    cases ho
  intro σ front disk fenv w nsid opId input probe rerun v _ hw r ho
  unfold r Session.exec at ho
  rw [hk] at ho
  cases ho

def freshHost {τ : Type} (s : τ) : VfuWorld τ := ⟨.init ioQEntries, fun _ => 0, s⟩

lemma KeyExact.whole {k : CStr} (h : KeyExact k.bytes) : Whole k := by
  by_contra hn
  have hp : 0 < k.sent.length := length_pos_iff.mpr fun hi => hn (.inr hi)
  have hd : Admits ⟨false, []⟩ .good twoBuffers := ⟨rfl, rfl, rfl, rfl, rfl⟩
  -- A store with everything allocated asks for the key that is sent.
  obtain ⟨ho, -⟩ := h.store Unit silentFront ⟨false, []⟩ .good (freshHost ((), [])) 1 [] 0 0 twoBuffers
    (settled_init (by decide)) rfl
  rw [storeOpts_world] at ho
  rcases @store_asked Unit silentFront ⟨false, []⟩ .good (freshHost ((), [])) k 1 _ 0 0 twoBuffers with
    ⟨ha, -⟩ | ⟨-, -, hr⟩
  · exact hn (.inl (ho k.sent (ha ▸ mem_singleton_self _)))
  · exact absurd ⟨hd, hp⟩ hr

/-- The calls of a key address its object and no other exactly if the key has at most 255 bytes or
is rejected: it has a NUL, or a length that is 0 as a `uint8_t`. -/
theorem key_exact_iff (key : Bytes) : KeyExact key ↔ key.length ≤ 255 ∨ 0 ∈ key ∨
    256 ∣ key.length := by
  by_cases hnul : 0 ∈ key
  · exact ⟨fun _ => .inr (.inl hnul), fun _ => keyExact_of_nul hnul⟩
  have hwhole := whole_iff ⟨key, hnul⟩
  constructor
  · intro h
    have hkey : KeyExact (CStr.mk key hnul).bytes := h
    rcases hwhole.mp hkey.whole with hshort | hmulti
    · exact .inl hshort
    · exact .inr (.inr hmulti)
  rintro (h | h | h)
  · exact (hwhole.mpr (.inl h)).keyExact
  · exact absurd h hnul
  · exact (hwhole.mpr (.inr h)).keyExact

def longKey : Bytes := List.replicate 257 97

def poolWithA : Bytes → Option Bytes := fun key => if key = [97] then some [1] else none

/-- The long key is accepted by the CLI, and its store is reported as a success and overwrites the
value of `a`. -/
theorem long_key_overwrites_other :
    KvPath.parseWithKey ([110, 0x2f] ++ longKey) = .ok ([110], longKey) ∧
      (Session.storeOpts (forwarderTarget ⟨false, []⟩ (poolFront [])) (freshHost poolWithA) 1
        longKey [2] 0 0
        twoBuffers).2 = .ok () ∧
      (Session.storeOpts (forwarderTarget ⟨false, []⟩ (poolFront [])) (freshHost poolWithA) 1
        longKey [2] 0 0
        twoBuffers).1.target [97] = some [2] ∧
      (Session.storeOpts (forwarderTarget ⟨false, []⟩ (poolFront [])) (freshHost poolWithA) 1
        longKey [2] 0 0
        twoBuffers).1.target longKey = none ∧
      ¬ KeyExact longKey := by
  have hnul : 0 ∉ longKey := fun h => absurd (eq_of_mem_replicate h) (by decide)
  refine ⟨by decide +kernel, by decide +kernel, by decide +kernel, by decide +kernel, fun h => ?_⟩
  have hkey : KeyExact (CStr.mk longKey hnul).bytes := h
  have hlen : longKey.length = 257 := length_replicate
  have hwhole : longKey.length ≤ 255 ∨ 256 ∣ longKey.length := (whole_iff _).mp hkey.whole
  omega

end RadosNkv
