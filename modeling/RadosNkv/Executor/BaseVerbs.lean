import RadosNkv.Executor.StoredValue

/-! The base verbs against a plain map. -/

namespace RadosNkv

open List Executor

lemma hexDigit_inj (hm : m < 16) (hn : n < 16) (h : hexDigit m = hexDigit n) : m = n := by
  revert h
  revert n
  revert m
  decide

lemma keyToOid_inj (h : nkvxKeyToOid key = nkvxKeyToOid key') : key = key' := by
  induction key generalizing key' with
  | nil =>
    cases key' with
    | nil => rfl
    | cons b key' => simp [nkvxKeyToOid] at h
  | cons b key ih =>
    cases key' with
    | nil => simp [nkvxKeyToOid] at h
    | cons b' key' =>
      simp only [nkvxKeyToOid, flatMap_cons, cons_append, nil_append, List.cons.injEq] at h
      obtain ⟨hh, hl, hr⟩ := h
      have hb := b.toNat_lt
      have hb' := b'.toNat_lt
      have hd := hexDigit_inj (by omega) (by omega) hh
      have hm := hexDigit_inj (by omega) (by omega) hl
      have hy : b = b' := UInt8.toNat_inj.mp (by omega)
      rw [hy, ih hr]

inductive BaseRequest where
  | store (req : KvIn) (value : Option Bytes)
  | delete (req : KvIn)
  | retrieve (req : KvIn)
  | exist (req : KvIn)

def BaseRequest.event : BaseRequest → ExecutorEvent
  | .store req value => .store req value true .none
  | .delete req => .delete req .none
  | .retrieve req => .retrieve req .good .none
  | .exist req => .exist req .none

section

variable (m : Bytes → Option Bytes)

/-- The map with the value of a key replaced or removed, when the operation was granted. -/
def plainStore (req : KvIn) (value : Option Bytes) :
    (Bytes → Option Bytes) × IoStatus :=
  if req.readOnly then (m, .readOnly)
  else if req.valueLen > 0 ∧ value = none then (m, .notSupported)
  else if flagSinke req.storeFlags then
    if (m req.key).isSome then (m, .keyExist)
    else (Function.update m req.key (some ((value.getD []).take req.valueLen)), .success)
  else if flagSike req.storeFlags && (m req.key).isNone then (m, .keyNotExist)
  else (Function.update m req.key (some ((value.getD []).take req.valueLen)), .success)

def plainDelete (req : KvIn) : (Bytes → Option Bytes) × IoStatus :=
  if req.readOnly then (m, .readOnly)
  else if (m req.key).isNone then (m, .keyNotExist)
  else (Function.update m req.key none, .success)

/-- A request against a map from keys to values, with no cache. -/
def plainHandle : BaseRequest → (Bytes → Option Bytes) × ExecResult
  | .store req value =>
    if req.key = [] then (m, .only .invalid)
    else ((plainStore m req value).1, .only (plainStore m req value).2)
  | .delete req =>
    if req.key = [] then (m, .only .invalid)
    else ((plainDelete m req).1, .only (plainDelete m req).2)
  | .retrieve req =>
    if req.key = [] then (m, .only .invalid) else (m, plainRetrieve (m req.key) req.osize)
  | .exist req =>
    if req.key = [] then (m, .only .invalid)
    else
      match m req.key with
      | none => (m, .only .keyNotExist)
      | some v => (m, ⟨.success, satU32 v.length, none⟩)

end

lemma plainRetrieve_fits {v : Bytes} {span : Nat} (hf : v.length ≤ span) (hv : v.length < 2 ^ 32) :
    (plainRetrieve (some v) span).status = .success ∧ (plainRetrieve (some v) span).resultLen = v.length ∧
      ((plainRetrieve (some v) span).buf.getD []).take span = v := by
  have hs : satU32 v.length = v.length := if_neg (by omega)
  have hm : min span v.length = v.length := Nat.min_eq_right hf
  refine ⟨?_, hs, ?_⟩
  · simp [plainRetrieve, hs, fitStatus, hf]
  simp only [plainRetrieve, hs, hm, take_length]
  split
  next hz => simp [eq_nil_of_length_eq_zero hz]
  · exact take_of_length_le hf

lemma plainRetrieve_short {v : Bytes} {span : Nat} (hh : span < v.length) (hv : v.length < 2 ^ 32) :
    (plainRetrieve (some v) span).status = .bufferTooSmall := by
  have hs : satU32 v.length = v.length := if_neg (by omega)
  simp [plainRetrieve, hs, fitStatus, hh]

def Executor.serve {api : WasmApi} (cfg : WasmConfig) (ex : Executor api) (req : BaseRequest) :
    Executor api × ExecResult :=
  (ex.step cfg req.event, (ex.handle cfg req.event).2)

variable {api : WasmApi}

structure Executor.Holds (ex : Executor api) (m : Bytes → Option Bytes) : Prop where
  values : ∀ key, ex.rados (nkvxKeyToOid key) = m key
  shows : ex.wasm.cache.Shows ex.rados
  addressed : ex.wasm.cache.Addressed
  counted : ex.wasm.cache.Counted [] false

lemma holds_init (api : WasmApi) (rados : Bytes → Option Bytes) :
    (init api rados).Holds fun key => rados (nkvxKeyToOid key) :=
  ⟨fun _ => rfl, fun _ ho => absurd ho not_mem_nil, (vetted_init api).cache, .init⟩

variable {ex : Executor api}

lemma holds_mutates (h : ex.Holds m) (hk : key ≠ []) (hm : ex.Mutates (nkvxKeyToOid key) ex')
    (hv : ∀ key', ex'.rados (nkvxKeyToOid key') = m' key') : ex'.Holds m' := by
  refine ⟨hv, shows_mutates hk h.shows hm, ?_, counted_mutates h.counted hm⟩
  cases hm with
  | refused => exact h.addressed
  | dropped => exact h.addressed.sheds (.invalidate _ _)
  | wrote => exact h.addressed.sheds (.invalidate _ _)

lemma update_keyToOid {rados : Bytes → Option Bytes} (h : ∀ key, rados (nkvxKeyToOid key) = m key) (key : Bytes)
    (value : Option Bytes) (key' : Bytes) :
    Function.update rados (nkvxKeyToOid key) value (nkvxKeyToOid key') = Function.update m key value key' := by
  by_cases he : key' = key
  · subst he
    simp
  have hn : nkvxKeyToOid key' ≠ nkvxKeyToOid key := fun ho => he (keyToOid_inj ho)
  simp [Function.update_of_ne he, Function.update_of_ne hn, h key']

lemma store_refines (h : ex.Holds m) (req : KvIn) (value : Option Bytes) :
    (nkvxStore true .none ex (nkvxKeyToOid req.key) req value).2 = .only (plainStore m req value).2 ∧
      ∀ key, (nkvxStore true .none ex (nkvxKeyToOid req.key) req value).1.rados (nkvxKeyToOid key) =
        (plainStore m req value).1 key := by
  have hs : ∀ key, (ex.invalidate (nkvxKeyToOid req.key)).rados (nkvxKeyToOid key) = m key := h.values
  unfold nkvxStore plainStore
  dsimp only
  rw [hs req.key]
  by_cases hr : req.readOnly
  · rw [if_pos hr, if_pos hr]
    exact ⟨rfl, h.values⟩
  rw [if_neg hr, if_neg hr]
  by_cases hb : req.valueLen > 0 ∧ value = none
  · rw [if_pos hb, if_pos hb]
    exact ⟨rfl, h.values⟩
  rw [if_neg hb, if_neg hb, if_neg (by simp), if_neg (by simp [RadosFaults.none])]
  cases hn : flagSinke req.storeFlags with
  | true =>
    simp only [Bool.true_and, Bool.not_true, Bool.false_and, Bool.false_eq_true, if_true, if_false]
    split
    · exact ⟨rfl, hs⟩
    · exact ⟨rfl, update_keyToOid hs req.key _⟩
  | false =>
    simp only [Bool.false_and, Bool.not_false, Bool.true_and, Bool.false_eq_true, if_false]
    split
    · exact ⟨rfl, hs⟩
    · exact ⟨rfl, update_keyToOid hs req.key _⟩

lemma delete_refines (h : ex.Holds m) (req : KvIn) :
    (nkvxDelete .none ex (nkvxKeyToOid req.key) req).2 = .only (plainDelete m req).2 ∧
      ∀ key, (nkvxDelete .none ex (nkvxKeyToOid req.key) req).1.rados (nkvxKeyToOid key) =
        (plainDelete m req).1 key := by
  have hs : ∀ key, (ex.invalidate (nkvxKeyToOid req.key)).rados (nkvxKeyToOid key) = m key := h.values
  unfold nkvxDelete plainDelete
  dsimp only
  rw [hs req.key]
  split
  · exact ⟨rfl, h.values⟩
  rw [if_neg (by simp [RadosFaults.none])]
  split
  · exact ⟨rfl, hs⟩
  · exact ⟨rfl, update_keyToOid hs req.key none⟩

lemma serve_refines (cfg : WasmConfig) (h : ex.Holds m) (req : BaseRequest) :
    (ex.serve cfg req).2 = (plainHandle m req).2 ∧ (ex.serve cfg req).1.Holds (plainHandle m req).1 := by
  have hs : ex.step cfg req.event = (ex.handle cfg req.event).1 := by
    rw [step, h.counted.objs.fault]
    rfl
  unfold serve
  rw [hs]
  cases req with
  | store req value =>
    simp only [BaseRequest.event, handle, plainHandle]
    split
    · exact ⟨rfl, h⟩
    next hk =>
    obtain ⟨hr, hl⟩ := store_refines h req value
    exact ⟨hr, holds_mutates h hk (store_mutates true .none ex _ req value) hl⟩
  | delete req =>
    simp only [BaseRequest.event, handle, plainHandle]
    split
    · exact ⟨rfl, h⟩
    next hk =>
    obtain ⟨hr, hl⟩ := delete_refines h req
    exact ⟨hr, holds_mutates h hk (delete_mutates .none ex _ req) hl⟩
  | retrieve req =>
    simp only [BaseRequest.event, handle, plainHandle]
    split
    · exact ⟨rfl, h⟩
    obtain ⟨c, he, hm⟩ := draws_retrieve cfg .good (ex.answers .none (nkvxKeyToOid req.key)) ex.wasm
      (nkvxKeyToOid req.key) req.osize
    have hd := loads_retrieve cfg .good ex .none (nkvxKeyToOid req.key) req.osize
    have hc := counted_retrieve cfg h.counted .good (ex.answers .none (nkvxKeyToOid req.key))
      (nkvxKeyToOid req.key) req.osize
    refine ⟨?_, h.values, h.shows.loads hd, ?_, hc⟩
    · rw [← h.values req.key]
      exact retrieve_plain cfg h.addressed h.shows ..
    rw [he]
    exact h.addressed.moves hm.moves
  | exist req =>
    simp only [BaseRequest.event, handle, plainHandle]
    split
    · exact ⟨rfl, h⟩
    rw [← h.values req.key]
    cases hv : ex.rados (nkvxKeyToOid req.key) with
    | none => exact ⟨by simp [nkvxExist, Executor.answers, radosCall, RadosFaults.none, hv], h⟩
    | some v => exact ⟨by simp [nkvxExist, Executor.answers, radosCall, RadosFaults.none, hv], h⟩

/-- Cache invisibility: from any stored values, and under every setting of the runtime, the answers
to any sequence of Stores, Deletes, Retrieves and Exists are those of the plain map. -/
theorem cache_invisible (api : WasmApi) (cfg : WasmConfig) (rados : Bytes → Option Bytes)
    (reqs : List BaseRequest) :
    Machine.replies (Executor.serve cfg) (.init api rados) reqs =
      Machine.replies plainHandle (fun key => rados (nkvxKeyToOid key)) reqs :=
  Machine.replies_eq_of_related (R := Executor.Holds) (fun _ _ req h => serve_refines cfg h req)
    (holds_init api rados) reqs

end RadosNkv
