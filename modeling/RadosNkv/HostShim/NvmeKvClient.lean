import RadosNkv.Forwarder.Handler
import RadosNkv.HostShim.Shim

/-! The Python clients of the weights catalog: `NvmeKvClient` (`nvmekv_client.py`) over the binding
of the host shim (`_kvshim.py`), and the dictionary `InMemoryKvClient` (`kvclient.py`). -/

namespace RadosNkv

namespace Weights

open List Memory Function

open Memory (Seg)

def keyLen : Nat := 16

def kvKeyDoesNotExist : Int := 0x87

inductive PyError where
  | valueError (len : Nat)
  | readOnlyError (verb : KvVerb)
  | osError (verb : KvVerb) (key : Bytes) (rc : Int)

inductive PyReturn where
  | none
  | bytes (value : Bytes)
  | bool (b : Bool)
  | raised (e : PyError)

inductive KvCall where
  | store (key value : Bytes)
  | retrieve (key : Bytes)
  | exists_ (key : Bytes)
  | delete (key : Bytes)

def KvCall.key : KvCall → Bytes
  | .store key _ | .retrieve key | .exists_ key | .delete key => key

structure InMemoryKvClient where
  data : Bytes → Option Bytes
  storeCalls : Nat

def InMemoryKvClient.init : InMemoryKvClient := ⟨fun _ => none, 0⟩

def InMemoryKvClient.handle (d : InMemoryKvClient) : KvCall → InMemoryKvClient × PyReturn
  | .store key value => (⟨Function.update d.data key (some value), d.storeCalls + 1⟩, .none)
  | .retrieve key =>
    (d, match d.data key with
      | none => .none
      | some v => .bytes v)
  | .exists_ key => (d, .bool (d.data key).isSome)
  | .delete key => ({ d with data := Function.update d.data key none }, .none)

/-! ### The namespace behind the shim -/

def plainFront : NkvxFront (Bytes → Option Bytes) where
  kv := plainHandle
  list := fun _ _ => .only .notSupported
  exec := fun m _ _ => (m, .only .notSupported)

structure Session where
  shim : ShimWorld
  values : Bytes → Option Bytes

def Session.init : Session := ⟨.init, fun _ => none⟩

def opcOf : ShimOp → Nat
  | .store => opcKvStore
  | .retrieve _ => opcKvRetrieve
  | .exist => opcKvExist
  | .delete => opcKvDelete

def hostMem (key buf : Bytes) : HostMem := Memory.write (fun _ => 0) 0 (leU16 key.length ++ key ++ buf)

def hostIovs (key buf : Bytes) : List Seg := [⟨0, 2 + key.length⟩, ⟨2 + key.length, buf.length⟩]

def hostCmd (op : ShimOp) (key buf : Bytes) : NvmeCmd :=
  { NvmeCmd.zero with opc := opcOf op, vsize := buf.length, kl := key.length }

def carried (disk : KvradosDisk) (values : Bytes → Option Bytes) (op : ShimOp) (key buf : Bytes) :
    (Bytes → Option Bytes) × NvmeStatus × Bytes :=
  let r := kvradosHandleKvIo disk .good plainFront values (hostMem key buf) (hostCmd op key buf) (hostIovs key buf)
  (r.1, r.2.2, Memory.read r.2.1 (2 + key.length) buf.length)

def shimOperation (w : ShimWorld) (op : ShimOp) (cpl : NvmeStatus) : ShimWorld × Int × Option Nat :=
  let w := Machine.run ShimWorld.step w
    [.call op, .malloc (some 0), .accept, .submitted 0, .fire 0 cpl, .processed 1 false]
  match w.returns.getLast? with
  | some (.completed _ _ rc valueLen) => (w, rc, valueLen)
  | some (.failed _ rc) => (w, rc, none)
  | none => (w, 0, none)

def kvHostShim (disk : KvradosDisk) (w : Session) (op : ShimOp) (key buf : Bytes) :
    Session × Int × Option Nat × Bytes :=
  let c := carried disk w.values op key buf
  let r := shimOperation w.shim op c.2.1
  (⟨r.1, c.1⟩, r.2.1, r.2.2, c.2.2)

namespace ShimHandle

variable (disk : KvradosDisk)

variable (w : Session)

def store (key value : Bytes) : Session × Int :=
  let r := kvHostShim disk w .store key value
  (r.1, r.2.1)

def retrieve (key : Bytes) (bufLen : Nat) : Session × Int × Option Bytes :=
  let r := kvHostShim disk w (.retrieve true) key (List.replicate bufLen 0)
  if r.2.1 ≠ 0 then (r.1, r.2.1, none)
  else
    let n := min (r.2.2.1.getD 0) bufLen
    (r.1, r.2.1, some (r.2.2.2.take n))

def exist (key : Bytes) : Session × Int :=
  let r := kvHostShim disk w .exist key []
  (r.1, r.2.1)

def delete (key : Bytes) : Session × Int :=
  let r := kvHostShim disk w .delete key []
  (r.1, r.2.1)

end ShimHandle

structure NvmeKvClient where
  readOnly : Bool
  maxValueLen : Nat

namespace NvmeKvClient

def checkKey (key : Bytes) : Except PyError Bytes :=
  if key.length ≠ keyLen then .error (.valueError key.length) else .ok key

variable (c : NvmeKvClient)

variable (disk : KvradosDisk)

variable (w : Session)

def store (key value : Bytes) : Session × PyReturn :=
  if c.readOnly then (w, .raised (.readOnlyError .store))
  else
    match checkKey key with
    | .error e => (w, .raised e)
    | .ok key =>
      let (w, rc) := ShimHandle.store disk w key value
      if rc ≠ 0 then (w, .raised (.osError .store key rc)) else (w, .none)

def retrieve (key : Bytes) : Session × PyReturn :=
  match checkKey key with
  | .error e => (w, .raised e)
  | .ok key =>
    let (w, rc, data) := ShimHandle.retrieve disk w key c.maxValueLen
    if rc = kvKeyDoesNotExist then (w, .none)
    else if rc ≠ 0 then (w, .raised (.osError .retrieve key rc))
    else
      match data with
      | none => (w, .none)
      | some data => (w, .bytes data)

def «exists» (key : Bytes) : Session × PyReturn :=
  match checkKey key with
  | .error e => (w, .raised e)
  | .ok key =>
    let (w, rc) := ShimHandle.exist disk w key
    if rc = 0 then (w, .bool true)
    else if rc = kvKeyDoesNotExist then (w, .bool false)
    else (w, .raised (.osError .exist key rc))

def delete (key : Bytes) : Session × PyReturn :=
  if c.readOnly then (w, .raised (.readOnlyError .delete))
  else
    match checkKey key with
    | .error e => (w, .raised e)
    | .ok key =>
      let (w, rc) := ShimHandle.delete disk w key
      if rc ≠ 0 ∧ rc ≠ kvKeyDoesNotExist then (w, .raised (.osError .delete key rc)) else (w, .none)

def handle : KvCall → Session × PyReturn
  | .store key value => c.store disk w key value
  | .retrieve key => c.retrieve disk w key
  | .exists_ key => NvmeKvClient.exists disk w key
  | .delete key => c.delete disk w key

end NvmeKvClient

structure Ready (w : ShimWorld) : Prop where
  idle : w.phase = .idle
  connected : w.sh.qpairFailed = false
  heap : w.heap = []
  queued : w.queued = []
  sound : w.fault = false

lemma ready_init : Ready .init := ⟨rfl, rfl, rfl, rfl, rfl⟩

def operated (w : ShimWorld) (op : ShimOp) (cpl : NvmeStatus) : ShimWorld :=
  { w with
    sh := { w.sh with
      nextOpId := (w.sh.nextOpId + 1) % 2 ^ 64
      armedOpId := 0
      done := true
      lastSct := cpl.sct
      lastSc := cpl.sc
      lastCdw0 := cpl.cdw0 }
    arms := w.arms + 1
    frees := (w.arms + 1) :: w.frees
    fired := (w.arms + 1, cpl) :: w.fired
    returns := w.returns ++ [.completed op (w.arms + 1) (statusToRc cpl.sct cpl.sc)
      (valueLenOut op (statusToRc cpl.sct cpl.sc) cpl.cdw0)] }

lemma run_operation (h : Ready w) (op : ShimOp) (cpl : NvmeStatus) : Machine.run ShimWorld.step w
      [.call op, .malloc (some 0), .accept, .submitted 0, .fire 0 cpl, .processed 1 false] = operated w op cpl := by
  obtain ⟨sh, phase, heap, queued, arms, frees, fired, returns, fault⟩ := w
  obtain ⟨hi, hcn, hh, hq, hs⟩ := h
  dsimp only at hi hcn hh hq hs
  subst hi hh hq hs
  simp [ShimWorld.step, ShimWorld.handle, hcn, armOp, afterSubmit, pollLoop, ShimPhase.inSpdk, ioComplete,
    ShimWorld.free, Tailq.find, Tailq.remove, recordCpl, pollTurn, completeOp, ShimWorld.ret, operated]

lemma Ready.operated (h : Ready w) (op : ShimOp) (cpl : NvmeStatus) : Ready (operated w op cpl) :=
  ⟨h.idle, h.connected, h.heap, h.queued, h.sound⟩

lemma shimOperation_eq (h : Ready w) (op : ShimOp) (cpl : NvmeStatus) :
    shimOperation w op cpl = (operated w op cpl, statusToRc cpl.sct cpl.sc,
      valueLenOut op (statusToRc cpl.sct cpl.sc) cpl.cdw0) := by
  unfold shimOperation
  rw [run_operation h]
  simp [operated]

lemma host_payload (key buf : Bytes) :
    payload (hostMem key buf) (hostIovs key buf) = leU16 key.length ++ key ++ buf := by
  have hlen : (leU16 key.length ++ key ++ buf).length = 2 + key.length + buf.length := by
    rw [length_append, length_keyHead]
  have hr := read_write (fun _ => 0) 0 (leU16 key.length ++ key ++ buf) (le_of_eq hlen.symm)
  rw [← hlen, take_length, hlen, read_add, zero_add] at hr
  simpa [hostIovs, hostMem] using hr

lemma host_head (key buf : Bytes) : Memory.read (hostMem key buf) 0 (2 + key.length) = leU16 key.length ++ key := by
  unfold hostMem
  rw [read_write _ _ _ (by rw [length_append, length_keyHead]; omega), take_left' (length_keyHead key)]

section Carried

variable {disk : KvradosDisk} (hro : disk.readOnly = false) (values : Bytes → Option Bytes) {key : Bytes}
  (hpos : 0 < key.length) (hmax : key.length ≤ 255)

include hro hpos hmax

lemma carried_store {value : Bytes} (hvalue : value.length < 2 ^ 32) : ∃ buf, carried disk values .store key value =
      (update values key (some value), kvradosComplete .success 0, buf) := by
  have hne : key ≠ [] := ne_nil_of_length_pos hpos
  have hf : ∀ buf, kvradosDecodeStoreFlags (hostCmd .store key buf) = 0 := by
    intro buf
    simp [kvradosDecodeStoreFlags, hostCmd, NvmeCmd.zero]
  have hplain : plainHandle values (storeRequest disk (hostCmd .store key value) key value) =
      (update values key (some value), .only .success) := by
    by_cases he : value.length = 0
    · simp [storeRequest, plainHandle, plainStore, kvRequest, hne, hro, hf, flagSinke, flagSike,
        eq_nil_of_length_eq_zero he]
    · simp [storeRequest, plainHandle, plainStore, kvRequest, hne, hro, hf, flagSinke, flagSike, he]
  unfold carried
  rw [handle_store hro plainFront values rfl (host_payload key value) hpos hmax hvalue]
  dsimp only [plainFront]
  rw [hplain]
  exact ⟨_, rfl⟩

lemma carried_statusOnly (isDelete : Bool)
    (hplain : plainHandle values (statusOnlyRequest disk isDelete key) = (values', res)) :
    ∃ buf, carried disk values (if isDelete then .delete else .exist) key [] =
      (values', kvradosComplete res.status res.resultLen, buf) := by
  unfold carried
  rw [handle_statusOnly hro plainFront values isDelete (by cases isDelete <;> rfl) (host_payload key []) hpos hmax]
  dsimp only [plainFront]
  rw [hplain]
  exact ⟨_, rfl⟩

variable (disk) in
omit hro in
lemma carried_retrieve (hbuf : bufLen < 2 ^ 32) (hres : plainRetrieve (values key) bufLen = res) :
    ∃ buf, carried disk values (.retrieve true) key (List.replicate bufLen 0) =
        (values, kvradosComplete res.status res.resultLen, buf) ∧
      ∀ n ≤ ((res.buf.getD []).take bufLen).length, buf.take n = ((res.buf.getD []).take bufLen).take n := by
  have hne : key ≠ [] := ne_nil_of_length_pos hpos
  have hplain : plainHandle values (retrieveRequest disk key bufLen) = (values, res) := by
    simp [retrieveRequest, plainHandle, kvRequest, hne, hres]
  unfold carried hostIovs
  rw [length_replicate, handle_retrieve disk plainFront values _ _ rfl (host_head key _) hpos hmax (.inr rfl) hbuf]
  dsimp only [plainFront]
  rw [hplain]
  refine ⟨_, rfl, fun n hn => ?_⟩
  have hroom : n ≤ bufLen := le_trans hn (by rw [length_take]; omega)
  rw [take_read _ _ hroom, read_write _ _ _ hn]

end Carried

lemma kvHostShim_eq {w : Session} (h : Ready w.shim) (op : ShimOp) {values : Bytes → Option Bytes}
    (hc : carried disk w.values op key buf = (values, cpl, buf')) :
    ∃ w', kvHostShim disk w op key buf =
        (w', statusToRc cpl.sct cpl.sc, valueLenOut op (statusToRc cpl.sct cpl.sc) cpl.cdw0, buf') ∧
      Ready w'.shim ∧ w'.values = values := by
  refine ⟨⟨operated w.shim op cpl, values⟩, ?_, h.operated op cpl, rfl⟩
  unfold kvHostShim
  dsimp only
  rw [hc, shimOperation_eq h]

lemma checkKey_ok {key : Bytes} (h : key.length = keyLen) : NvmeKvClient.checkKey key = .ok key :=
  if_neg fun hne => hne h

def Returns (r : Session × PyReturn) (values : Bytes → Option Bytes) (ret : PyReturn) : Prop :=
  (Ready r.1.shim ∧ r.1.values = values) ∧ r.2 = ret

section Calls

variable {c : NvmeKvClient} {disk : KvradosDisk} {w : Session} {key : Bytes} (hro : disk.readOnly = false)
  (hpub : c.readOnly = false) (h : Ready w.shim) (hkey : key.length = keyLen)

include hkey in
lemma key_range : 0 < key.length ∧ key.length ≤ 255 := by
  rw [hkey]
  decide

include hkey in
lemma key_ne_nil : key ≠ [] := ne_nil_of_length_pos (key_range hkey).1

include hro hpub h hkey in
lemma store_returns {value : Bytes} (hvalue : value.length < 2 ^ 32) :
    Returns (c.store disk w key value) (update w.values key (some value)) .none := by
  obtain ⟨hpos, hmax⟩ := key_range hkey
  obtain ⟨buf, hc⟩ := carried_store hro w.values hpos hmax hvalue
  obtain ⟨w', heq, hleft⟩ := kvHostShim_eq h .store hc
  unfold NvmeKvClient.store ShimHandle.store
  rw [hpub, checkKey_ok hkey]
  dsimp only
  rw [heq]
  exact ⟨hleft, rfl⟩

section Retrieve

variable (disk) (hbuf : c.maxValueLen < 2 ^ 32)
include h hkey hbuf

lemma retrieve_present (hv : w.values key = some v) (hf : v.length ≤ c.maxValueLen) :
    Returns (c.retrieve disk w key) w.values (.bytes v) := by
  obtain ⟨hpos, hmax⟩ := key_range hkey
  obtain ⟨hs, hlen, hb⟩ := plainRetrieve_fits hf (by omega)
  obtain ⟨buf, hc, hr⟩ := carried_retrieve disk w.values hpos hmax hbuf (congrArg (plainRetrieve · _) hv)
  rw [hs, hlen] at hc
  rw [hb] at hr
  obtain ⟨w', heq, hleft⟩ := kvHostShim_eq h (.retrieve true) hc
  have hcall : c.retrieve disk w key = (w', .bytes (buf.take (min v.length c.maxValueLen))) := by
    unfold NvmeKvClient.retrieve ShimHandle.retrieve
    rw [checkKey_ok hkey]
    dsimp only
    rw [heq]
    rfl
  rw [hcall, min_eq_left hf, hr v.length (le_rfl), take_length]
  exact ⟨hleft, rfl⟩

lemma retrieve_absent (hv : w.values key = none) :
    Returns (c.retrieve disk w key) w.values (.raised (.osError .retrieve key (-eIo))) := by
  obtain ⟨hpos, hmax⟩ := key_range hkey
  obtain ⟨buf, hc, -⟩ := carried_retrieve disk w.values hpos hmax hbuf (congrArg (plainRetrieve · _) hv)
  obtain ⟨w', heq, hleft⟩ := kvHostShim_eq h (.retrieve true) hc
  unfold NvmeKvClient.retrieve ShimHandle.retrieve
  rw [checkKey_ok hkey]
  dsimp only
  rw [heq]
  exact ⟨hleft, rfl⟩

end Retrieve

section StatusOnly

include hro h hkey

lemma exists_returns : Returns (NvmeKvClient.exists disk w key) w.values
      (if (w.values key).isSome then .bool true else .raised (.osError .exist key (-eIo))) := by
  obtain ⟨hpos, hmax⟩ := key_range hkey
  have hplain : plainHandle w.values (statusOnlyRequest disk false key) = (w.values,
      if (w.values key).isSome then ⟨.success, satU32 ((w.values key).getD []).length, none⟩
      else .only .keyNotExist) := by
    cases hv : w.values key with
    | none => simp [statusOnlyRequest, plainHandle, kvRequest, key_ne_nil hkey, hv]
    | some v => simp [statusOnlyRequest, plainHandle, kvRequest, key_ne_nil hkey, hv]
  obtain ⟨buf, hc⟩ := carried_statusOnly hro w.values hpos hmax false hplain
  obtain ⟨w', heq, hleft⟩ := kvHostShim_eq h .exist hc
  unfold NvmeKvClient.exists ShimHandle.exist
  rw [checkKey_ok hkey]
  dsimp only
  rw [heq]
  by_cases hsome : (w.values key).isSome
  · rw [if_pos hsome, if_pos hsome]
    exact ⟨hleft, rfl⟩
  rw [if_neg hsome, if_neg hsome]
  exact ⟨hleft, rfl⟩

include hpub in
lemma delete_returns : Returns (c.delete disk w key) (update w.values key none)
      (if (w.values key).isSome then .none else .raised (.osError .delete key (-eIo))) := by
  obtain ⟨hpos, hmax⟩ := key_range hkey
  have hplain : plainHandle w.values (statusOnlyRequest disk true key) = (update w.values key none,
      .only (if (w.values key).isSome then .success else .keyNotExist)) := by
    cases hv : w.values key with
    | none => simp [statusOnlyRequest, plainHandle, plainDelete, kvRequest, key_ne_nil hkey, hv, hro]
    | some v => simp [statusOnlyRequest, plainHandle, plainDelete, kvRequest, key_ne_nil hkey, hv, hro]
  obtain ⟨buf, hc⟩ := carried_statusOnly hro w.values hpos hmax true hplain
  obtain ⟨w', heq, hleft⟩ := kvHostShim_eq h .delete hc
  unfold NvmeKvClient.delete ShimHandle.delete
  rw [hpub, checkKey_ok hkey]
  dsimp only
  rw [heq]
  by_cases hsome : (w.values key).isSome
  · rw [if_pos hsome, if_pos hsome]
    exact ⟨hleft, rfl⟩
  rw [if_neg hsome, if_neg hsome]
  exact ⟨hleft, rfl⟩

end StatusOnly

end Calls

structure Agrees (maxValueLen : Nat) (w : Session) (d : InMemoryKvClient) : Prop where
  ready : Ready w.shim
  same : ∀ key, key.length = keyLen → w.values key = d.data key
  sized : ∀ key v, key.length = keyLen → d.data key = some v → v.length ≤ maxValueLen

def KvCall.Sized (n : Nat) : KvCall → Prop
  | .store _ value => value.length ≤ n
  | _ => True

/-- The key is there, or the call stores it. -/
def KvCall.Finds (d : InMemoryKvClient) : KvCall → Prop
  | .store _ _ => True
  | call => (d.data call.key).isSome

section Refinement

variable {w w' : Session} {d d' : InMemoryKvClient} {key : Bytes}

lemma Agrees.keep (h : Agrees n w d) (hw : Ready w'.shim ∧ w'.values = w.values) : Agrees n w' d := by
  obtain ⟨hr, hl⟩ := hw
  exact ⟨hr, fun key hlen => by rw [hl, h.same key hlen], h.sized⟩

lemma Agrees.update (h : Agrees n w d) (value : Option Bytes) (hvalue : ∀ v, value = some v → v.length ≤ n)
    (hw : Ready w'.shim ∧ w'.values = update w.values key value)
    (hd : d'.data = update d.data key value) : Agrees n w' d' := by
  obtain ⟨hr, hl⟩ := hw
  refine ⟨hr, fun key' hlen => ?_, fun key' v hlen hv => ?_⟩
  · rw [hl, hd]
    by_cases heq : key' = key
    · subst heq
      rw [update_self, update_self]
    · rw [update_of_ne heq, update_of_ne heq, h.same key' hlen]
  rw [hd] at hv
  by_cases heq : key' = key
  · subst heq
    rw [update_self] at hv
    exact hvalue v hv
  rw [update_of_ne heq] at hv
  exact h.sized key' v hlen hv

lemma Agrees.other (h : Agrees n w d) (hkey : key.length ≠ keyLen)
    (hd : d'.data = Function.update d.data key value) : Agrees n w d' := by
  have hne : ∀ key' : Bytes, key'.length = keyLen → d'.data key' = d.data key' := by
    intro key' hlen
    rw [hd, Function.update_of_ne]
    rintro rfl
    exact hkey hlen
  refine ⟨h.ready, fun key' hlen => ?_, fun key' v hlen hv => ?_⟩
  · rw [hne key' hlen, h.same key' hlen]
  rw [hne key' hlen] at hv
  exact h.sized key' v hlen hv

lemma handle_other_key {c : NvmeKvClient} (hpub : c.readOnly = false) (disk : KvradosDisk) (w : Session)
    {call : KvCall} (hkey : call.key.length ≠ keyLen) :
    c.handle disk w call = (w, .raised (.valueError call.key.length)) := by
  have hh : NvmeKvClient.checkKey call.key = .error (.valueError call.key.length) := if_pos hkey
  cases call with
  | store key value =>
    dsimp only [KvCall.key] at hh
    simp [NvmeKvClient.handle, NvmeKvClient.store, hpub, hh, KvCall.key]
  | retrieve key =>
    dsimp only [KvCall.key] at hh
    simp [NvmeKvClient.handle, NvmeKvClient.retrieve, hh, KvCall.key]
  | exists_ key =>
    dsimp only [KvCall.key] at hh
    simp [NvmeKvClient.handle, NvmeKvClient.exists, hh, KvCall.key]
  | delete key =>
    dsimp only [KvCall.key] at hh
    simp [NvmeKvClient.handle, NvmeKvClient.delete, hpub, hh, KvCall.key]

variable {c : NvmeKvClient} (hpub : c.readOnly = false) (hmax : c.maxValueLen < 2 ^ 32) {disk : KvradosDisk}
  (hro : disk.readOnly = false) (h : Agrees c.maxValueLen w d) {call : KvCall} (hkey : call.key.length = keyLen)

include hpub hmax hro h hkey in
lemma handle_eq (hsized : call.Sized c.maxValueLen) (hfinds : call.Finds d) :
    (c.handle disk w call).2 = (d.handle call).2 := by
  have hsame := h.same call.key hkey
  cases call with
  | store key value =>
    have hlen : value.length ≤ c.maxValueLen := hsized
    exact (store_returns hro hpub h.ready hkey (by omega)).2
  | retrieve key =>
    dsimp only [KvCall.key] at hkey hsame
    obtain ⟨v, hv⟩ := Option.isSome_iff_exists.mp hfinds
    dsimp only [KvCall.key] at hv
    have hdict : (d.handle (.retrieve key)).2 = .bytes v := by simp [InMemoryKvClient.handle, hv]
    rw [hdict]
    exact (retrieve_present disk h.ready hkey hmax (hsame.trans hv) (h.sized key v hkey hv)).2
  | exists_ key =>
    dsimp only [KvCall.key] at hkey hsame
    have hpresent : (d.data key).isSome = true := hfinds
    have hcall := (exists_returns hro h.ready hkey).2
    rw [hsame, if_pos hpresent, ← hpresent] at hcall
    exact hcall
  | delete key =>
    dsimp only [KvCall.key] at hkey hsame
    have hpresent : (d.data key).isSome = true := hfinds
    have hcall := (delete_returns hro hpub h.ready hkey).2
    rw [hsame, if_pos hpresent] at hcall
    exact hcall

include hpub hmax hro h in
lemma Agrees.step (hsized : call.Sized c.maxValueLen) :
    Agrees c.maxValueLen (c.handle disk w call).1 (d.handle call).1 := by
  by_cases hkey : call.key.length = keyLen
  · cases call with
    | store key value =>
      have hlen : value.length ≤ c.maxValueLen := hsized
      refine h.update (some value) ?_ (store_returns hro hpub h.ready hkey (by omega)).1 rfl
      rintro v ⟨⟩
      exact hlen
    | retrieve key =>
      cases hv : w.values key with
      | none => exact h.keep (retrieve_absent disk h.ready hkey hmax hv).1
      | some v =>
        have hlen := h.sized key v hkey ((h.same key hkey).symm.trans hv)
        exact h.keep (retrieve_present disk h.ready hkey hmax hv hlen).1
    | exists_ key => exact h.keep (exists_returns hro h.ready hkey).1
    | delete key => exact h.update none (fun _ hv => nomatch hv) (delete_returns hro hpub h.ready hkey).1 rfl
  rw [handle_other_key hpub disk w hkey]
  cases call with
  | store key value => exact h.other hkey rfl
  | retrieve key => exact h
  | exists_ key => exact h
  | delete key => exact h.other hkey rfl

end Refinement

def sessionAfter (c : NvmeKvClient) (disk : KvradosDisk) (calls : List KvCall) : Session :=
  Machine.run (fun w call => (c.handle disk w call).1) .init calls

def dictAfter (calls : List KvCall) : InMemoryKvClient :=
  Machine.run (fun d call => (InMemoryKvClient.handle d call).1) .init calls

/-- After any calls with values up to the advertised maximum, a publisher's next call with a key of
16 bytes that stores, or finds its key, returns as the dictionary's does. -/
theorem publisher_refines_dict (c : NvmeKvClient) (hpub : c.readOnly = false)
    (hmax : c.maxValueLen < 2 ^ 32)
    (disk : KvradosDisk) (hro : disk.readOnly = false) (calls : List KvCall) (call : KvCall)
    (hsized : ∀ call' ∈ calls ++ [call], call'.Sized c.maxValueLen) :
    (call.key.length = keyLen → call.Finds (dictAfter calls) →
      (c.handle disk (sessionAfter c disk calls) call).2 = ((dictAfter calls).handle call).2) ∧
    (call.key.length ≠ keyLen →
      c.handle disk (sessionAfter c disk calls) call =
        (sessionAfter c disk calls, .raised (.valueError call.key.length))) := by
  have hbefore : Agrees c.maxValueLen (sessionAfter c disk calls) (dictAfter calls) :=
    Machine.run_related_along _ _ (fun _ _ _ hcall h => h.step hpub hmax hro hcall)
      ⟨ready_init, fun _ _ => rfl, fun _ _ _ h => (by cases h)⟩
      (Machine.along_of_forall _ fun call' hmem => hsized call' (mem_append_left _ hmem))
  have hcall := hsized call (mem_append_right _ mem_cons_self)
  exact ⟨fun hkey hfinds => handle_eq hpub hmax hro hbefore hkey hcall hfinds,
    fun hkey => handle_other_key hpub disk _ hkey⟩

def publicDisk : KvradosDisk := ⟨false, []⟩

def key16 : Bytes := List.replicate 16 7

theorem stored_value_retrieved :
    ((⟨false, 4⟩ : NvmeKvClient).handle publicDisk
      (sessionAfter ⟨false, 4⟩ publicDisk [.store key16 [9]])
      (.retrieve key16)).2 = .bytes [9] := by
  have hrefines := publisher_refines_dict ⟨false, 4⟩ rfl (by decide) publicDisk rfl [.store key16 [9]]
    (.retrieve key16) (by simp [KvCall.Sized])
  have hdict : (dictAfter [.store key16 [9]]).data key16 = some [9] := by
    simp [dictAfter, InMemoryKvClient.handle]
  rw [hrefines.1 (by decide) (by simp [KvCall.Finds, KvCall.key, hdict])]
  simp [InMemoryKvClient.handle, hdict]

/-- A key of one byte, a loader client and a read-only namespace are refused a store that the
dictionary makes, and a call that does not find its key raises an `OSError` where the dictionary
returns. -/
theorem short_key_and_absent_key_raise :
    ((⟨false, 4⟩ : NvmeKvClient).handle publicDisk .init (.store [7] [9])).2 = .raised
    (.valueError 1) ∧
    (InMemoryKvClient.init.handle (.store [7] [9])).2 = .none ∧
    ((⟨true, 4⟩ : NvmeKvClient).handle publicDisk .init (.store key16 [9])).2 =
      .raised (.readOnlyError .store) ∧
    ((⟨false, 4⟩ : NvmeKvClient).handle ⟨true, []⟩ .init (.store key16 [9])).2 =
      .raised (.osError .store key16 (-5)) ∧
    (InMemoryKvClient.init.handle (.store key16 [9])).2 = .none ∧
    ((⟨false, 4⟩ : NvmeKvClient).handle publicDisk .init (.retrieve key16)).2 =
      .raised (.osError .retrieve key16 (-5)) ∧
    (InMemoryKvClient.init.handle (.retrieve key16)).2 = .none ∧
    ((⟨false, 4⟩ : NvmeKvClient).handle publicDisk .init (.exists_ key16)).2 =
      .raised (.osError .exist key16 (-5)) ∧
    (InMemoryKvClient.init.handle (.exists_ key16)).2 = .bool false ∧
    ((⟨false, 4⟩ : NvmeKvClient).handle publicDisk .init (.delete key16)).2 =
      .raised (.osError .delete key16 (-5)) ∧
    (InMemoryKvClient.init.handle (.delete key16)).2 = .none := by
  refine ⟨rfl, rfl, rfl, rfl, rfl, ?_, rfl, ?_, rfl, ?_, rfl⟩
  · exact (retrieve_absent publicDisk ready_init (by decide) (by decide) rfl).2
  · exact (exists_returns rfl ready_init (by decide)).2
  · exact (delete_returns rfl rfl ready_init (by decide)).2

end Weights

end RadosNkv
