import RadosNkv.Executor.Calls
import RadosNkv.Forwarder.Handler

/-! What the forwarder makes of the segments of a command. -/

namespace RadosNkv

open List Option Memory

open Memory (Seg)
open Calls (Listing listRound listResult nkvxListEmit nkvxListEntrySize nkvxListNrkSize nkvxOidToKey leBytes)

variable {σ : Type} {mem mem' : HostMem} {iovs iovs' : List Seg}

def payloadHead (payload : Bytes) : Option (Bytes × Nat) :=
  let keyLen := fromLe16 (payload.take kvradosKeyHdrLen)
  if payload.length < kvradosKeyHdrLen then none
  else if keyLen = 0 ∨ keyLen > kvradosKeyMaxLen then none
  else if payload.length < kvradosKeyHdrLen + keyLen then none
  else some ((payload.drop kvradosKeyHdrLen).take keyLen, kvradosKeyHdrLen + keyLen)

lemma gather_payload (mem : HostMem) (iovs : List Seg) (off n : Nat) :
    kvradosGather mem iovs 0 off n = ((Memory.payload mem iovs).drop off).take n := by
  rw [gather_eq mem iovs n (Nat.zero_le off), Nat.sub_zero]

lemma length_gather (mem : HostMem) (iovs : List Seg) (off n : Nat) :
    (kvradosGather mem iovs 0 off n).length = min n (total iovs - off) := by
  rw [gather_payload, length_take, length_drop, length_payload]

lemma parse_payload (mem : HostMem) (iovs : List Seg) :
    kvradosParseInpayloadKey mem iovs (total iovs) = payloadHead (Memory.payload mem iovs) := by
  unfold kvradosParseInpayloadKey payloadHead
  rw [gather_payload, drop_zero, length_payload]
  by_cases hs : total iovs < kvradosKeyHdrLen
  · rw [if_pos hs, if_pos hs]
  have hh : ((Memory.payload mem iovs).take kvradosKeyHdrLen).length = kvradosKeyHdrLen := by
    rw [length_take, length_payload]
    omega
  rw [if_neg hs, if_neg hs]
  rw [if_neg (not_not_intro hh)]
  generalize fromLe16 ((Memory.payload mem iovs).take kvradosKeyHdrLen) = keyLen
  by_cases hn : keyLen = 0 ∨ keyLen > kvradosKeyMaxLen
  · rw [if_pos hn, if_pos hn]
  rw [if_neg hn, if_neg hn]
  by_cases hr : total iovs < kvradosKeyHdrLen + keyLen
  · rw [if_pos hr, if_pos hr]
  have hk : (kvradosGather mem iovs 0 kvradosKeyHdrLen keyLen).length = keyLen := by
    rw [length_gather]
    omega
  rw [if_neg hr, if_neg hr, if_neg (not_not_intro hk), gather_payload]

variable {off : Nat} {cmd : NvmeCmd} {key : Bytes} {pos base len : Nat}

lemma storeValue_ok (h : storeValue mem iovs off n bounce = .ok value) :
    value = if n = 0 then none else some (((Memory.payload mem iovs).drop off).take n) := by
  have ht := storeValue_take mem iovs off n
  cases bounce with
  | true =>
    rw [ht] at h
    exact (Except.ok.inj h).symm
  | false =>
    have hm : storeValue mem iovs off n true = .ok value := by
      unfold storeValue at h ⊢
      by_cases hz : n = 0
      · rwa [if_pos hz] at h ⊢
      rw [if_neg hz] at h ⊢
      cases hs : spanAt iovs 0 off with
      | none =>
        rw [hs] at h
        cases h
      | some span =>
        rw [hs] at h
        dsimp only at h ⊢
        by_cases ho : n ≤ nkvxInlineMax ∧ span.2 ≥ n
        · rwa [if_pos ho] at h ⊢
        rw [if_neg ho] at h
        cases h
    rw [ht] at hm
    exact (Except.ok.inj hm).symm

lemma execInput_ok (h : execInput mem iovs off (total iovs) bounce = .ok input) :
    execInput mem iovs off (total iovs) true = .ok input := by
  unfold execInput at h ⊢
  by_cases hb : total iovs > off
  · rw [if_pos hb] at h ⊢
    have hs : min (total iovs - off) (2 ^ 32 - 1) > 0 := by omega
    cases iovs with
    | nil => exact absurd hb (by simp [total])
    | cons v vs =>
      dsimp only at h ⊢
      by_cases ho : v.len ≥ off + min (total (v :: vs) - off) (2 ^ 32 - 1)
      · rwa [if_pos ho] at h ⊢
      rw [if_neg ho, if_pos hs] at h ⊢
      cases bounce with
      | true => exact h
      | false => cases h
  · rwa [if_neg hb] at h ⊢

lemma execInput_congr (h : Memory.payload mem iovs = Memory.payload mem' iovs') (off : Nat) :
    execInput mem iovs off (total iovs) true = execInput mem' iovs' off (total iovs') true := by
  have ht : total iovs = total iovs' := by
    rw [← length_payload mem, h, length_payload]
  rw [execInput_take, execInput_take, h, ht]

variable {disk : KvradosDisk} {call : ExecCall}

lemma execCall_ok (h : kvradosExecCall disk env mem cmd iovs key off (total iovs) = .ok call) :
    key ≠ [] ∧ ∃ e b, kvradosExecOpAllowed disk cmd.cdw13 = some e ∧ e.binding = some b ∧ ¬ b.caps > execCapsTierMax ∧
      execInput mem iovs off (total iovs) true = .ok (call.inputLen, call.input) ∧
      call = ⟨b, cmd.cdw13, key, call.inputLen, call.input, execSink iovs off cmd.cdw12⟩ := by
  unfold kvradosExecCall at h
  by_cases hk : key = []
  · rw [if_pos hk] at h
    cases h
  rw [if_neg hk] at h
  cases he : kvradosExecOpAllowed disk cmd.cdw13 with
  | none =>
    rw [he] at h
    cases h
  | some e =>
    rw [he] at h
    dsimp only at h
    cases hb : e.binding with
    | none =>
      rw [hb] at h
      cases h
    | some b =>
      rw [hb] at h
      dsimp only at h
      by_cases hc : b.caps > execCapsTierMax
      · rw [if_pos hc] at h
        cases h
      rw [if_neg hc] at h
      cases hi : execInput mem iovs off (total iovs) env.bounce with
      | error =>
        rw [hi] at h
        cases h
      | ok input =>
        rw [hi] at h
        dsimp only at h
        by_cases hkc : (!env.kctx) = true
        · rw [if_pos hkc] at h
          cases h
        rw [if_neg hkc] at h
        cases h
        exact ⟨hk, e, b, rfl, hb, hc, execInput_ok hi, rfl⟩

/-- What the forwarder reads from a command does not depend on how its payload is split into
segments: the gathered bytes are those of the concatenated payload, and two layouts of the same
payload give the same key, the same value offset, the same Store value and the same Exec input. -/
theorem reading_ignores_segments (mem mem' : HostMem) (iovs iovs' : List Seg)
    (h : Memory.payload mem iovs = Memory.payload mem' iovs') :
    (∀ off n, kvradosGather mem iovs 0 off n = ((Memory.payload mem iovs).drop off).take n ∧
        (kvradosGather mem iovs 0 off n).length = min n (Memory.total iovs - off)) ∧
      kvradosParseInpayloadKey mem iovs (Memory.total iovs) =
        kvradosParseInpayloadKey mem' iovs' (Memory.total iovs') ∧
      (∀ off, ∃ value,
        storeValue mem iovs off (min (Memory.total iovs - off) (2 ^ 32 - 1)) true = .ok value ∧
        ∀ bounce value',
          storeValue mem' iovs' off (min (Memory.total iovs' - off) (2 ^ 32 - 1)) bounce =
            .ok value' →
          value' = value) ∧
      (∀ off, ∃ input, execInput mem iovs off (Memory.total iovs) true = .ok input ∧
        ∀ bounce input', execInput mem' iovs' off (Memory.total iovs') bounce = .ok input' →
          input' = input) ∧
      ∀ disk env env' cmd key off call call',
        kvradosExecCall disk env mem cmd iovs key off (Memory.total iovs) = .ok call →
        kvradosExecCall disk env' mem' cmd iovs' key off (Memory.total iovs') = .ok call' →
          call' = { call with sink := call'.sink } := by
  have htl : total iovs = total iovs' := by
    rw [← length_payload mem, h, length_payload]
  refine ⟨fun off n => ⟨gather_payload mem iovs off n, length_gather mem iovs off n⟩, ?_, fun off => ?_,
    fun off => ?_, ?_⟩
  · rw [parse_payload, parse_payload, h]
  · refine ⟨_, storeValue_take mem iovs off _, fun bounce value' hv => ?_⟩
    rw [storeValue_ok hv, h, htl]
  · refine ⟨_, execInput_take mem iovs off, fun bounce input' hi => ?_⟩
    have hsm := execInput_ok hi
    rw [← execInput_congr h, execInput_take] at hsm
    exact (Except.ok.inj hsm).symm
  intro disk env env' cmd key off call call' hcl hcl'
  obtain ⟨-, e, b, he, hb, -, hin, hmk⟩ := execCall_ok hcl
  obtain ⟨-, e', b', he', hb', -, hin', hmk'⟩ := execCall_ok hcl'
  rw [he] at he'
  cases he'
  rw [hb] at hb'
  cases hb'
  rw [← execInput_congr h, hin] at hin'
  obtain ⟨hlen, hinp⟩ := Prod.mk.inj (Except.ok.inj hin')
  rw [hmk', hmk]
  rw [hlen, hinp]

def wholeMem : HostMem := Memory.write (fun _ => 0) 0 [1, 0, 107, 5, 6, 7]

def cutMem : HostMem := Memory.write (Memory.write (fun _ => 0) 100 [1]) 200 [0, 107, 5, 6, 7]

def cutSegments : List Seg := [⟨100, 1⟩, ⟨150, 0⟩, ⟨200, 3⟩, ⟨203, 2⟩]

theorem reading_ignores_segments_cut :
    Memory.payload wholeMem [⟨0, 6⟩] = Memory.payload cutMem cutSegments ∧
      kvradosParseInpayloadKey wholeMem [⟨0, 6⟩] 6 =
        kvradosParseInpayloadKey cutMem cutSegments 6 := by
  have hpyl : Memory.payload wholeMem [⟨0, 6⟩] = Memory.payload cutMem cutSegments := by decide
  exact ⟨hpyl, (reading_ignores_segments wholeMem cutMem [⟨0, 6⟩] cutSegments hpyl).2.1⟩

lemma span_within (hp : pos ≤ off) (h : spanAt iovs pos off = some (base, len)) :
    ∃ v ∈ iovs, ∀ x, base ≤ x → x < base + len → v.Covers x := by
  induction iovs generalizing pos with
  | nil => cases h
  | cons v vs ih =>
    unfold spanAt at h
    by_cases hi : off < pos + v.len
    · rw [if_pos hi] at h
      cases h
      refine ⟨v, mem_cons_self, fun x hl hh => ?_⟩
      simp only [Seg.Covers]
      omega
    rw [if_neg hi] at h
    obtain ⟨w, hw, hc⟩ := ih (Nat.le_of_not_lt hi) h
    exact ⟨w, mem_cons_of_mem _ hw, hc⟩

lemma payload_write_span (mem : HostMem) (ha : Memory.Apart iovs) (hp : pos ≤ off)
    (h : spanAt iovs pos off = some (base, len)) {xs : Bytes} (he : xs.length ≤ len) :
    Memory.payload (write mem base xs) iovs = splice (Memory.payload mem iovs) (off - pos) xs := by
  induction iovs generalizing pos with
  | nil => cases h
  | cons v vs ih =>
    obtain ⟨hv, hs⟩ := pairwise_cons.mp ha
    unfold spanAt at h
    by_cases hi : off < pos + v.len
    · rw [if_pos hi] at h
      cases h
      have hf : off - pos + xs.length ≤ v.len := by omega
      have hr : Memory.payload (write mem (v.base + (off - pos)) xs) vs = Memory.payload mem vs :=
        payload_write_apart mem fun w hw x hwx hx => hv w hw x ⟨by omega, by omega⟩ hwx
      rw [payload_cons, payload_cons, hr, read_write_splice mem hf, splice_append_left (by rw [length_read]; exact hf)]
    rw [if_neg hi] at h
    have hp' := Nat.le_of_not_lt hi
    obtain ⟨w, hw, hc⟩ := span_within hp' h
    have hfr : read (write mem base xs) v.base v.len = read mem v.base v.len :=
      read_write_apart mem fun x hl hh hx =>
        hv w hw x ⟨hl, hh⟩ (hc x hx.1 (by omega))
    have hk : off - pos = (read mem v.base v.len).length + (off - (pos + v.len)) := by
      rw [length_read]
      omega
    rw [payload_cons, payload_cons, hfr, ih hs hp' h, hk, splice_append_right]

lemma span_le (hp : pos ≤ off) (h : spanAt iovs pos off = some (base, len)) : off - pos + len ≤ total iovs := by
  induction iovs generalizing pos with
  | nil => cases h
  | cons v vs ih =>
    have ht : total (v :: vs) = v.len + total vs := by simp [total]
    unfold spanAt at h
    by_cases hi : off < pos + v.len
    · rw [if_pos hi] at h
      cases h
      omega
    rw [if_neg hi] at h
    have hr := ih (Nat.le_of_not_lt hi) h
    omega

def resultSink (cmd : NvmeCmd) (iovs : List Seg) (off : Nat) : Option (Nat × Nat) :=
  if cmd.opc = opcKvRetrieve then (spanAt iovs 0 off).map fun p => (p.1, min p.2 (2 ^ 32 - 1))
  else if cmd.opc = opcKvList then iovs.head?.map fun v => (v.base, min v.len (2 ^ 32 - 1))
  else execSink iovs off cmd.cdw12

def sinkRoom (cmd : NvmeCmd) (iovs : List Seg) (off : Nat) : Nat := ((resultSink cmd iovs off).map Prod.snd).getD 0

def valueOffset (mem : HostMem) (iovs : List Seg) : Nat :=
  ((kvradosParseInpayloadKey mem iovs (Memory.total iovs)).getD ([], 0)).2

/-- The answer to a command as a function of the room for its result, unless the forwarder rejects
it. -/
def resultIn (disk : KvradosDisk) (front : NkvxFront σ) (s : σ) (mem : HostMem) (cmd : NvmeCmd) (iovs : List Seg) :
    Option (Nat → ExecResult) :=
  let parsed := kvradosParseInpayloadKey mem iovs (Memory.total iovs)
  if cmd.opc = opcKvRetrieve then parsed.map fun p room => (front.kv s (retrieveRequest disk p.1 room)).2
  else if cmd.opc = opcKvList then
    some fun room =>
      front.list s { kvRequest .list disk.readOnly ((parsed.map Prod.fst).getD []) with osize := room }
  else
    (kvradosExecCall disk .good mem cmd iovs (parsed.getD ([], 0)).1 (parsed.getD ([], 0)).2
      (Memory.total iovs)).toOption.map fun call room => (execModule disk front s { call with sink := some (0, room) }).2

def ExecResult.bytesIn (res : ExecResult) (room : Nat) : Bytes := (res.buf.getD []).take room

def delivered (disk : KvradosDisk) (front : NkvxFront σ) (s : σ) (mem : HostMem) (cmd : NvmeCmd) (iovs : List Seg) :
    Bytes :=
  let room := sinkRoom cmd iovs (valueOffset mem iovs)
  ((resultIn disk front s mem cmd iovs).map fun answer => (answer room).bytesIn room).getD []

def Returns (cmd : NvmeCmd) : Prop := cmd.opc = opcKvRetrieve ∨ cmd.opc = opcKvList ∨ cmd.opc = opcKvExec

instance (cmd : NvmeCmd) : Decidable (Returns cmd) := inferInstanceAs (Decidable (_ ∨ _))

lemma execModule_sink (disk : KvradosDisk) (front : NkvxFront σ) (s : σ) (call : ExecCall) :
    execModule disk front s call = execModule disk front s { call with sink := some (0, call.outLen) } := by
  rfl

lemma deliver_eq (mem : HostMem) (sink : Option (Nat × Nat)) (answer : Nat → ExecResult) :
    frontDeliver mem sink (answer ((sink.map Prod.snd).getD 0)) =
      match sink with
      | none => mem
      | some (base, _) =>
        write mem base ((answer ((sink.map Prod.snd).getD 0)).bytesIn ((sink.map Prod.snd).getD 0)) := by
  cases sink <;> rfl

lemma write_none (mem : HostMem) (sink : Option (Nat × Nat)) : mem = match sink with
      | none => mem
      | some (base, _) => write mem base [] := by
  cases sink with
  | none => rfl
  | some p => exact (write_nil mem p.1).symm

lemma handle_delivers (hcm : Returns cmd) (disk : KvradosDisk) (front : NkvxFront σ) (s : σ) (mem : HostMem)
    (iovs : List Seg) :
    (kvradosHandleKvIo disk .good front s mem cmd iovs).2.1 =
      match resultSink cmd iovs (valueOffset mem iovs) with
      | none => mem
      | some (base, _) => write mem base (delivered disk front s mem cmd iovs) := by
  unfold kvradosHandleKvIo delivered resultIn sinkRoom valueOffset
  dsimp only
  generalize kvradosParseInpayloadKey mem iovs (total iovs) = parsed
  rcases hcm with ho | ho | ho
  · rw [if_neg (by simp [ho, opcKvRetrieve, opcKvStore, opcKvDelete]), if_pos ho, if_pos ho]
    cases parsed with
    | none => exact write_none mem _
    | some p =>
      have hs : resultSink cmd iovs p.2 = (spanAt iovs 0 p.2).map fun q => (q.1, min q.2 (2 ^ 32 - 1)) :=
        if_pos ho
      simp only [getD_some, map_some, hs]
      rw [← deliver_eq mem _ fun room => (front.kv s (retrieveRequest disk p.1 room)).2]
      unfold handleRetrieve
      dsimp only [KvIoEnv.good]
      cases spanAt iovs 0 p.2 <;> rfl
  · have hn : ¬ cmd.opc = opcKvRetrieve := by rw [ho]; decide
    rw [if_neg (by simp [ho, opcKvList, opcKvStore, opcKvDelete]), if_neg hn,
      if_neg (by rw [ho]; decide), if_neg (by rw [ho]; decide), if_pos ho, if_neg hn, if_pos ho]
    have hs : ∀ off, resultSink cmd iovs off = iovs.head?.map fun v => (v.base, min v.len (2 ^ 32 - 1)) :=
      fun off => (if_neg hn).trans (if_pos ho)
    simp only [hs, map_some, getD_some]
    rw [← deliver_eq mem _ fun room =>
      front.list s { kvRequest .list disk.readOnly ((parsed.map Prod.fst).getD []) with osize := room }]
    rfl
  have hr : ¬ cmd.opc = opcKvRetrieve := by rw [ho]; decide
  have hl : ¬ cmd.opc = opcKvList := by rw [ho]; decide
  rw [if_neg (by simp [ho, opcKvExec, opcKvStore, opcKvDelete]), if_neg hr,
    if_neg (by rw [ho]; decide), if_neg (by rw [ho]; decide), if_neg hl, if_pos ho, if_neg hr, if_neg hl]
  have hs : ∀ off, resultSink cmd iovs off = execSink iovs off cmd.cdw12 :=
    fun off => (if_neg hr).trans (if_neg hl)
  unfold kvradosHandleExec
  cases hcl : kvradosExecCall disk .good mem cmd iovs (parsed.getD ([], 0)).1 (parsed.getD ([], 0)).2
      (total iovs) with
  | error st =>
    exact write_none mem _
  | ok call =>
    obtain ⟨-, e, b, -, -, -, -, hm⟩ := execCall_ok hcl
    have hc : call.sink = execSink iovs (parsed.getD ([], 0)).2 cmd.cdw12 := by rw [hm]
    simp only [hs, ← hc, Except.toOption, map_some, getD_some]
    rw [← deliver_eq mem call.sink fun room => (execModule disk front s { call with sink := some (0, room) }).2,
      execModule_sink]
    rfl

def resultPlace (cmd : NvmeCmd) (off : Nat) : Nat := if cmd.opc = opcKvList then 0 else off

lemma resultSink_place (hc : Returns cmd) (h : resultSink cmd iovs off = some (base, room))
    (hr : 0 < room) :
    ∃ len, spanAt iovs 0 (resultPlace cmd off) = some (base, len) ∧ room ≤ len := by
  unfold resultSink at h
  unfold resultPlace
  rcases hc with ho | ho | ho
  · rw [if_pos ho] at h
    rw [if_neg (by rw [ho]; decide)]
    obtain ⟨p, hs, he⟩ := map_eq_some_iff.mp h
    cases he
    exact ⟨p.2, hs, min_le_left ..⟩
  · rw [if_neg (by rw [ho]; decide), if_pos ho] at h
    rw [if_pos ho]
    cases iovs with
    | nil => cases h
    | cons v vs =>
      cases h
      refine ⟨v.len, ?_, min_le_left ..⟩
      unfold spanAt
      rw [if_pos (by omega)]
      rfl
  rw [if_neg (by rw [ho]; decide), if_neg (by rw [ho]; decide)] at h
  rw [if_neg (by rw [ho]; decide)]
  cases iovs with
  | nil => cases h
  | cons v vs =>
    simp only [execSink] at h
    split_ifs at h with hb
    cases h
    refine ⟨v.len - off, ?_, min_le_left ..⟩
    unfold spanAt
    rw [if_pos (by omega), Nat.sub_zero]

lemma length_delivered_le (disk : KvradosDisk) (front : NkvxFront σ) (s : σ) (mem : HostMem) (cmd : NvmeCmd)
    (iovs : List Seg) : (delivered disk front s mem cmd iovs).length ≤ sinkRoom cmd iovs (valueOffset mem iovs) := by
  unfold delivered
  cases resultIn disk front s mem cmd iovs with
  | none => exact Nat.zero_le _
  | some answer => exact length_take_le _ _

lemma payload_handle (hc : Returns cmd) (disk : KvradosDisk) (front : NkvxFront σ) (s : σ) (mem : HostMem)
    (ha : Memory.Apart iovs) : Memory.payload (kvradosHandleKvIo disk .good front s mem cmd iovs).2.1 iovs =
      splice (Memory.payload mem iovs) (resultPlace cmd (valueOffset mem iovs))
        (delivered disk front s mem cmd iovs) := by
  have hl := length_delivered_le disk front s mem cmd iovs
  rw [handle_delivers hc]
  unfold sinkRoom at hl
  cases hs : resultSink cmd iovs (valueOffset mem iovs) with
  | none =>
    rw [hs] at hl
    rw [eq_nil_of_length_eq_zero (Nat.le_zero.mp hl), splice_nil]
  | some p =>
    obtain ⟨base, room⟩ := p
    rw [hs] at hl
    change (delivered disk front s mem cmd iovs).length ≤ room at hl
    rcases Nat.eq_zero_or_pos room with hz | hp
    · rw [hz] at hl
      dsimp only
      rw [eq_nil_of_length_eq_zero (Nat.le_zero.mp hl), splice_nil, write_nil]
    obtain ⟨len, hsp, he⟩ := resultSink_place hc hs hp
    exact payload_write_span mem ha (Nat.zero_le _) hsp (Nat.le_trans hl he)

lemma sinkRoom_whole (hc : Returns cmd) (base len off : Nat) : sinkRoom cmd [⟨base, len⟩] off =
      min (len - resultPlace cmd off) (if cmd.opc = opcKvExec then cmd.cdw12 else 2 ^ 32 - 1) := by
  unfold sinkRoom resultSink resultPlace
  rcases hc with ho | ho | ho
  · rw [if_pos ho, if_neg (by rw [ho]; decide), if_neg (by rw [ho]; decide)]
    unfold spanAt
    by_cases hi : off < 0 + len
    · rw [if_pos hi]
      simp
    rw [if_neg hi]
    simp only [spanAt, map_none, getD_none]
    omega
  · rw [if_neg (by rw [ho]; decide), if_pos ho, if_pos ho, if_neg (by rw [ho]; decide)]
    simp
  rw [if_neg (by rw [ho]; decide), if_neg (by rw [ho]; decide), if_neg (by rw [ho]; decide), if_pos ho]
  simp only [execSink]
  by_cases hi : len > off
  · rw [if_pos hi]
    rfl
  rw [if_neg hi]
  simp only [map_none, getD_none]
  omega

lemma sinkRoom_le (hc : Returns cmd) (iovs : List Seg) (base off : Nat) :
    sinkRoom cmd iovs off ≤ sinkRoom cmd [⟨base, total iovs⟩] off := by
  rw [sinkRoom_whole hc]
  unfold sinkRoom
  cases hs : resultSink cmd iovs off with
  | none => exact Nat.zero_le _
  | some p =>
    obtain ⟨b, room⟩ := p
    simp only [map_some, getD_some]
    rcases Nat.eq_zero_or_pos room with hz | hp
    · rw [hz]
      exact Nat.zero_le _
    obtain ⟨len, hsp, hl⟩ := resultSink_place hc hs hp
    have he := span_le (Nat.zero_le _) hsp
    refine Nat.le_min.mpr ⟨by omega, ?_⟩
    unfold resultSink at hs
    rcases hc with ho | ho | ho
    · rw [if_pos ho] at hs
      obtain ⟨q, -, hq⟩ := map_eq_some_iff.mp hs
      cases hq
      rw [if_neg (by rw [ho]; decide)]
      exact Nat.min_le_right _ _
    · rw [if_neg (by rw [ho]; decide), if_pos ho] at hs
      obtain ⟨q, -, hq⟩ := map_eq_some_iff.mp hs
      cases hq
      rw [if_neg (by rw [ho]; decide)]
      exact Nat.min_le_right _ _
    rw [if_neg (by rw [ho]; decide), if_neg (by rw [ho]; decide)] at hs
    rw [if_pos ho]
    cases iovs with
    | nil => cases hs
    | cons v vs =>
      simp only [execSink] at hs
      split_ifs at hs
      cases hs
      exact Nat.min_le_right _ _

/-! ### Answers in two rooms -/

def Steady (answer : Nat → ExecResult) : Prop :=
  ∀ room room₁, room ≤ room₁ → room₁ < 2 ^ 32 → ((answer room₁).bytesIn room₁).length ≤ room →
    (answer room).bytesIn room = (answer room₁).bytesIn room₁

lemma steady_of_take (value : Bytes) (h : ∀ room, (answer room).bytesIn room = value.take room) : Steady answer := by
  intro room room1 hl _ hf
  rw [h, length_take] at hf
  rw [h, h]
  rcases Nat.lt_or_ge room value.length with hc | ha
  · have hr : room1 = room := by omega
    rw [hr]
  · rw [take_of_length_le ha, take_of_length_le (le_trans ha hl)]

lemma steady_only (st : IoStatus) : Steady fun _ => .only st :=
  steady_of_take [] fun room => by simp [ExecResult.bytesIn, ExecResult.only]

lemma bytesIn_cut (status : IoStatus) (resultLen len room : Nat) (value : Bytes) :
    (⟨status, resultLen, if min room len > 0 then some (value.take (min room len)) else none⟩ : ExecResult).bytesIn room =
      (value.take len).take room := by
  unfold ExecResult.bytesIn
  rw [take_take]
  by_cases hp : min room len > 0
  · rw [if_pos hp, getD_some, take_take, ← Nat.min_assoc, min_self]
  have hz : min room len = 0 := by omega
  rw [if_neg hp, getD_none, take_nil, hz, take_zero]

lemma plainRetrieve_steady (value : Option Bytes) : Steady (plainRetrieve value) := by
  cases value with
  | none => exact steady_only _
  | some v =>
    refine steady_of_take (v.take (satU32 v.length)) fun room => ?_
    rw [← bytesIn_cut (fitStatus (satU32 v.length) room) (satU32 v.length)]
    unfold plainRetrieve
    dsimp only
    by_cases hz : min room (satU32 v.length) = 0
    · rw [if_pos hz, if_neg (by omega)]
    · rw [if_neg hz, if_pos (by omega)]

lemma listRound_room (hl : cap ≤ cap1) (startOid oid : Bytes) (acc : Listing) :
    listRound cap startOid acc oid = listRound cap1 startOid acc oid ∨
      cap < nkvxListNrkSize + (listRound cap1 startOid acc oid).body.length := by
  unfold listRound
  by_cases hs : !acc.started ∧ oid < startOid
  · rw [if_pos hs, if_pos hs]
    exact .inl rfl
  rw [if_neg hs, if_neg hs]
  cases nkvxOidToKey oid with
  | none => exact .inl rfl
  | some key =>
    cases acc.overflow with
    | true => exact .inl rfl
    | false =>
      simp only [Bool.false_eq_true, if_false]
      unfold nkvxListEmit
      by_cases hf : (nkvxListNrkSize + acc.body.length + nkvxListEntrySize key.length) % 2 ^ 32 > cap
      · rw [if_pos hf]
        by_cases hf1 : (nkvxListNrkSize + acc.body.length + nkvxListEntrySize key.length) % 2 ^ 32 > cap1
        · rw [if_pos hf1]
          exact .inl rfl
        -- the entry goes into the larger room only
        refine .inr ?_
        rw [if_neg hf1]
        have he : 2 + key.length ≤ nkvxListEntrySize key.length := by
          unfold nkvxListEntrySize
          omega
        have hm := Nat.mod_le (nkvxListNrkSize + acc.body.length + nkvxListEntrySize key.length) (2 ^ 32)
        simp only [length_append, length_replicate, leBytes, length_map, length_range]
        omega
      rw [if_neg hf, if_neg (by omega)]
      exact .inl rfl

lemma listRound_grows (cap : Nat) (startOid oid : Bytes) (acc : Listing) :
    acc.body.length ≤ (listRound cap startOid acc oid).body.length := by
  unfold listRound
  split
  · exact le_rfl
  split
  · exact le_rfl
  split
  · rename_i body hb
    cases ho : acc.overflow with
    | true => simp [ho] at hb
    | false =>
      simp only [ho, Bool.false_eq_true, if_false, nkvxListEmit] at hb
      split_ifs at hb
      cases hb
      simp only [length_append]
      omega
  · exact le_rfl

lemma listing_room (hl : cap ≤ cap1) (startOid : Bytes) (oids : List Bytes)
    (h : acc = acc1 ∨ cap < nkvxListNrkSize + acc1.body.length) :
    oids.foldl (listRound cap startOid) acc = oids.foldl (listRound cap1 startOid) acc1 ∨
      cap < nkvxListNrkSize + (oids.foldl (listRound cap1 startOid) acc1).body.length := by
  induction oids generalizing acc acc1 with
  | nil => exact h
  | cons oid oids ih =>
    refine ih ?_
    rcases h with rfl | ho
    · exact listRound_room hl ..
    · exact .inr (Nat.lt_of_lt_of_le ho (Nat.add_le_add_left (listRound_grows cap1 startOid oid acc1) _))

lemma listResult_steady (req : KvMsg) (oids : List Bytes) :
    Steady fun room => listResult { req with osize := .ofNat room } oids := by
  intro room room1 hl hlt hf
  have ht : ∀ n, n < 2 ^ 32 → (UInt32.ofNat n).toNat = n := fun n hn => by
    rw [UInt32.toNat_ofNat', Nat.mod_eq_of_lt hn]
  unfold ExecResult.bytesIn listResult at hf ⊢
  dsimp only at hf ⊢
  rw [ht room1 hlt] at hf ⊢
  rw [ht room (by omega)]
  rw [getD_some, length_take, length_append] at hf
  simp only [getD_some]
  have hnr : ∀ n, (leBytes nkvxListNrkSize n).length = nkvxListNrkSize := fun n => by simp [leBytes]
  rw [hnr] at hf
  rcases Nat.lt_or_ge room room1 with hs | hm
  · have hc : max room nkvxListNrkSize ≤ max room1 nkvxListNrkSize := by omega
    rcases listing_room hc (nkvxKeyToOid req.key.val) oids (.inl (Eq.refl
      (⟨req.key.val = [], [], 0, nkvxListNrkSize, false⟩ : Listing))) with he | ho
    · rw [he]
      have ha : ∀ r, room ≤ r → (leBytes nkvxListNrkSize
          (oids.foldl (listRound (max room1 nkvxListNrkSize) (nkvxKeyToOid req.key.val))
            ⟨req.key.val = [], [], 0, nkvxListNrkSize, false⟩).nrk ++
          (oids.foldl (listRound (max room1 nkvxListNrkSize) (nkvxKeyToOid req.key.val))
            ⟨req.key.val = [], [], 0, nkvxListNrkSize, false⟩).body).length ≤ r := by
        intro r hr
        rw [length_append, hnr]
        omega
      rw [take_of_length_le (ha room (le_rfl)), take_of_length_le (ha room1 hl)]
    · omega
  obtain rfl : room = room1 := by omega
  rfl

variable (moduleKey : Option Bytes)

lemma nativeBuiltin_steady (input : Option Bytes) (inputLen : Nat) :
    Steady fun room => kvradosNativeBuiltinExec moduleKey input inputLen (some (0, room)) := by
  unfold kvradosNativeBuiltinExec
  dsimp only [map_some, getD_some]
  by_cases hl : moduleKey = some inputlen
  · simp only [if_pos hl]
    exact steady_of_take _ fun room => bytesIn_cut ..
  by_cases he : moduleKey = some inputecho
  · simp only [if_neg hl, if_pos he]
    cases input with
    | none =>
      refine steady_of_take [] fun room => ?_
      split <;> simp [ExecResult.bytesIn]
    | some bytes =>
      refine steady_of_take (bytes.take inputLen) fun room => ?_
      rw [← bytesIn_cut (fitStatus inputLen room) inputLen]
      by_cases hp : min room inputLen > 0
      · rw [if_pos hp, if_pos hp]
      · rw [if_neg hp, if_neg hp]
  simp only [if_neg hl, if_neg he]
  exact steady_only _

lemma nativeBuiltin_supported (input : Option Bytes) (inputLen room : Nat) :
    (kvradosNativeBuiltinExec moduleKey input inputLen (some (0, room))).status ≠ .notSupported ↔
      moduleKey = some inputlen ∨ moduleKey = some inputecho := by
  have hf : ∀ len, fitStatus len room ≠ .notSupported := by
    intro len
    unfold fitStatus
    split <;> nofun
  unfold kvradosNativeBuiltinExec
  dsimp only [map_some, getD_some]
  by_cases hl : moduleKey = some inputlen
  · simp only [if_pos hl]
    exact iff_of_true (hf _) (.inl hl)
  by_cases he : moduleKey = some inputecho
  · simp only [if_neg hl, if_pos he]
    refine iff_of_true ?_ (.inr he)
    by_cases hp : min room inputLen > 0
    · rw [if_pos hp]
      cases input with
      | none => exact nofun
      | some bytes => exact hf _
    rw [if_neg hp]
    exact hf _
  simp only [if_neg hl, if_neg he]
  exact iff_of_false (not_not_intro rfl) (by simp [hl, he])

/-- What the front answers in the state `s` is steady, for every verb that returns bytes. -/
structure NkvxFront.SteadyIn (front : NkvxFront σ) (s : σ) : Prop where
  retrieve : ∀ disk key, key ≠ [] → Steady fun room => (front.kv s (retrieveRequest disk key room)).2
  list : ∀ readOnly start,
    Steady fun room => front.list s { kvRequest .list readOnly start with osize := room }
  exec : ∀ (req : ExecIn) (input : Option Bytes), Steady fun room => (front.exec s { req with osize := room } input).2

variable {front : NkvxFront σ}

lemma execModule_steady (h : front.SteadyIn s) (disk : KvradosDisk) (call : ExecCall) :
    Steady fun room => (execModule disk front s { call with sink := some (0, room) }).2 := by
  unfold execModule ExecCall.outLen
  dsimp only [map_some, getD_some]
  by_cases hn : call.binding.runtime = .nkvx ∧ call.binding.moduleNs = some (cstr ['n', 'k', 'v', 'x']) ∧
      (call.binding.moduleKey = some inputlen ∨ call.binding.moduleKey = some inputecho)
  · simp only [nativeBuiltin_supported, if_pos hn]
    exact nativeBuiltin_steady _ _ _
  simp only [nativeBuiltin_supported, if_neg hn]
  exact h.exec
    { opId := call.opId, clientCallId := 0, readOnly := disk.readOnly, runtime := call.binding.runtime,
      caps := call.binding.caps, key := call.key, sha256 := call.binding.sha256.getD [],
      sha256Valid := call.binding.sha256.isSome, moduleKey := call.binding.moduleKey,
      moduleNs := call.binding.moduleNs, osize := 0, inputLen := call.inputLen, inputInline := none,
      inputBulk := none, resultSink := none }
    call.input

lemma payloadHead_ne_nil {payload : Bytes} (h : payloadHead payload = some (key, off)) : key ≠ [] := by
  unfold payloadHead at h
  dsimp only at h
  split_ifs at h with hs hn hr
  cases h
  refine ne_nil_of_length_pos ?_
  rw [length_take, length_drop]
  omega

lemma resultIn_steady {s : σ} (h : front.SteadyIn s) (disk : KvradosDisk) (mem : HostMem)
    (iovs : List Seg) (ha : resultIn disk front s mem cmd iovs = some answer) :
    Steady answer := by
  unfold resultIn at ha
  split_ifs at ha
  · obtain ⟨p, hp, rfl⟩ := map_eq_some_iff.mp ha
    rw [parse_payload] at hp
    exact h.retrieve disk p.1 (payloadHead_ne_nil hp)
  · cases ha
    exact h.list _ _
  obtain ⟨call, -, rfl⟩ := map_eq_some_iff.mp ha
  exact execModule_steady h disk call

lemma execCall_congr (h : Memory.payload mem iovs = Memory.payload mem' iovs')
    (hl : kvradosExecCall disk .good mem cmd iovs key off (total iovs) = .ok call) :
    kvradosExecCall disk .good mem' cmd iovs' key off (total iovs') =
      .ok { call with sink := execSink iovs' off cmd.cdw12 } := by
  obtain ⟨hk, e, b, he, hb, hc, hi, hm⟩ := execCall_ok hl
  obtain ⟨binding, opId, key', inputLen, input, sink⟩ := call
  simp only [ExecCall.mk.injEq] at hm
  obtain ⟨rfl, rfl, rfl, -⟩ := hm
  rw [execInput_congr h] at hi
  unfold kvradosExecCall
  dsimp only [KvIoEnv.good]
  rw [if_neg hk, he]
  dsimp only
  rw [hb]
  dsimp only
  rw [if_neg hc, hi]
  rfl

lemma resultIn_congr (h : Memory.payload mem iovs = Memory.payload mem' iovs') (disk : KvradosDisk)
    (front : NkvxFront σ) (s : σ) (cmd : NvmeCmd) :
    resultIn disk front s mem cmd iovs = resultIn disk front s mem' cmd iovs' := by
  have hp : kvradosParseInpayloadKey mem iovs (total iovs) =
      kvradosParseInpayloadKey mem' iovs' (total iovs') := by
    rw [parse_payload, parse_payload, h]
  unfold resultIn
  dsimp only
  rw [hp]
  generalize kvradosParseInpayloadKey mem' iovs' (total iovs') = parsed
  split_ifs
  · rfl
  · rfl
  cases hc : kvradosExecCall disk .good mem cmd iovs (parsed.getD ([], 0)).1 (parsed.getD ([], 0)).2
      (total iovs) with
  | ok call =>
    rw [execCall_congr h hc]
    rfl
  | error st =>
    cases hc' : kvradosExecCall disk .good mem' cmd iovs' (parsed.getD ([], 0)).1 (parsed.getD ([], 0)).2
        (total iovs') with
    | error st' => rfl
    | ok call' =>
      rw [execCall_congr h.symm hc'] at hc
      cases hc

def poolFront (oids : List Bytes) : NkvxFront (Bytes → Option Bytes) where
  kv := plainHandle
  list := fun _ req =>
    listResult
      { verb := 5, readOnly := 0, clientCallId := 0, key := ⟨req.key.take 255, length_take_le _ _⟩,
        osize := .ofNat req.osize, storeFlags := 0, valueLen := 0, valueInline := none, valueBulk := none,
        resultSink := none }
      oids
  exec := fun m _ _ => (m, .only .notSupported)

lemma poolFront_steady (oids : List Bytes) (m : Bytes → Option Bytes) : (poolFront oids).SteadyIn m where
  retrieve := fun disk key hk => by
    have hs : (fun room => ((poolFront oids).kv m (retrieveRequest disk key room)).2) = plainRetrieve (m key) := by
      funext room
      simp [poolFront, plainHandle, retrieveRequest, kvRequest, hk]
    rw [hs]
    exact plainRetrieve_steady (m key)
  list := fun _ start =>
    listResult_steady
      { verb := 5, readOnly := 0, clientCallId := 0, key := ⟨start.take 255, length_take_le ..⟩, osize := 0,
        storeFlags := 0, valueLen := 0, valueInline := none, valueBulk := none, resultSink := none }
      oids
  exec := fun _ _ => steady_only _

/-- A result is delivered to a buffer in segments as to the same buffer in one segment, with the
same number of bytes and the same contents of the concatenated buffer afterwards, exactly if the
bytes that the one segment receives fit the sink that the verb finds in the segments. -/
theorem delivery_as_whole_iff (disk : KvradosDisk) (front : NkvxFront σ) (s : σ)
    (hfront : front.SteadyIn s)
    (cmd : NvmeCmd) (hcmd : Returns cmd) (hosize : cmd.cdw12 < 2 ^ 32) (mem : HostMem)
    (iovs : List Seg)
    (hapart : Memory.Apart iovs) (mem₁ : HostMem) (base : Nat)
    (hpayload : Memory.payload mem iovs = Memory.payload mem₁ [⟨base, Memory.total iovs⟩]) :
    ((delivered disk front s mem cmd iovs).length =
        (delivered disk front s mem₁ cmd [⟨base, Memory.total iovs⟩]).length ∧
      Memory.payload (kvradosHandleKvIo disk .good front s mem cmd iovs).2.1 iovs =
        Memory.payload
          (kvradosHandleKvIo disk .good front s mem₁ cmd [⟨base, Memory.total iovs⟩]).2.1
          [⟨base, Memory.total iovs⟩]) ↔
      (delivered disk front s mem₁ cmd [⟨base, Memory.total iovs⟩]).length ≤
        sinkRoom cmd iovs (valueOffset mem iovs) := by
  have hoff : valueOffset mem iovs = valueOffset mem₁ [⟨base, total iovs⟩] := by
    unfold valueOffset
    rw [parse_payload, parse_payload, hpayload]
  constructor
  · rintro ⟨hinv, -⟩
    rw [← hinv]
    exact length_delivered_le ..
  intro hfits
  have hsm : delivered disk front s mem cmd iovs =
      delivered disk front s mem₁ cmd [⟨base, total iovs⟩] := by
    unfold delivered at hfits ⊢
    rw [hoff] at hfits
    rw [resultIn_congr hpayload, hoff]
    cases hans : resultIn disk front s mem₁ cmd [⟨base, total iovs⟩] with
    | none => rfl
    | some answer =>
      rw [hans] at hfits
      refine resultIn_steady hfront disk mem₁ _ hans _ _ (sinkRoom_le hcmd iovs base _) ?_ hfits
      rw [sinkRoom_whole hcmd]
      split <;> omega
  refine ⟨by rw [hsm], ?_⟩
  rw [payload_handle hcmd disk front s mem hapart, payload_handle hcmd disk front s mem₁ (pairwise_singleton ..),
    hsm, hpayload, hoff]

def sixBytes : Bytes → Option Bytes := fun key => if key = [107] then some [1, 2, 3, 4, 5, 6] else none

def headMem (base : Nat) : HostMem := Memory.write (fun _ => 0) base [1, 0, 107]

def retrieveCmd : NvmeCmd := { NvmeCmd.zero with opc := opcKvRetrieve }

def threeSegments : List Seg := [⟨100, 3⟩, ⟨200, 4⟩, ⟨300, 4⟩]

def twoSegments : List Seg := [⟨100, 3⟩, ⟨200, 8⟩]

/-- A Retrieve into one segment receives six bytes, and into the same buffer in three segments only
four. -/
theorem retrieve_fills_one_segment :
    Memory.Apart threeSegments ∧
      Memory.payload (headMem 100) threeSegments = Memory.payload (headMem 1000) [⟨1000, 11⟩] ∧
      (delivered ⟨false, []⟩ (poolFront []) sixBytes (headMem 1000) retrieveCmd
        [⟨1000, 11⟩]).length = 6 ∧
      (delivered ⟨false, []⟩ (poolFront []) sixBytes (headMem 100) retrieveCmd
        threeSegments).length = 4 ∧
      Memory.payload
        (kvradosHandleKvIo ⟨false, []⟩ .good (poolFront []) sixBytes (headMem 1000) retrieveCmd
          [⟨1000, 11⟩]).2.1 [⟨1000, 11⟩] = [1, 0, 107, 1, 2, 3, 4, 5, 6, 0, 0] ∧
      Memory.payload
        (kvradosHandleKvIo ⟨false, []⟩ .good (poolFront []) sixBytes (headMem 100) retrieveCmd
          threeSegments).2.1 threeSegments = [1, 0, 107, 1, 2, 3, 4, 0, 0, 0, 0] :=
  ⟨apart_of_ordered (by decide), by decide, by decide, by decide, by decide, by decide⟩

/-- With the buffer behind the head in one segment, the bytes are the same. -/
theorem delivery_as_whole_two :
    (delivered ⟨false, []⟩ (poolFront []) sixBytes (headMem 100) retrieveCmd twoSegments).length =
        (delivered ⟨false, []⟩ (poolFront []) sixBytes (headMem 1000) retrieveCmd
          [⟨1000, 11⟩]).length ∧
      Memory.payload
        (kvradosHandleKvIo ⟨false, []⟩ .good (poolFront []) sixBytes (headMem 100) retrieveCmd
          twoSegments).2.1 twoSegments =
        Memory.payload
          (kvradosHandleKvIo ⟨false, []⟩ .good (poolFront []) sixBytes (headMem 1000) retrieveCmd
          [⟨1000, 11⟩]).2.1 [⟨1000, 11⟩] := by
  exact (delivery_as_whole_iff ⟨false, []⟩ (poolFront []) sixBytes (poolFront_steady [] sixBytes) retrieveCmd
    (.inl rfl) (by decide) (headMem 100) twoSegments (apart_of_ordered (by decide))
    (headMem 1000) 1000 (by decide)).mpr (by decide)

end RadosNkv
