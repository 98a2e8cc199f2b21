import RadosNkv.Executor.Verbs

/-! What the executor hands back as the host's room for the result varies. -/

namespace RadosNkv

open List

def IoStatus.HasResult (st : IoStatus) : Prop := st = .success ∨ st = .bufferTooSmall

instance (st : IoStatus) : Decidable st.HasResult := inferInstanceAs (Decidable (_ ∨ _))

lemma fitStatus_hasResult (len osize : Nat) : (fitStatus len osize).HasResult := by
  unfold fitStatus
  split
  · exact .inr rfl
  · exact .inl rfl

lemma satU32_of_lt (h : n < 2 ^ 32) : satU32 n = n := if_neg (by omega)

def RunResult.Cuts (f : Nat → RunResult) (result : Bytes) : Prop :=
  ∀ room, (f room).status.HasResult ∧ (f room).resultLen = result.length ∧ (f room).out = result.take room ∨
    ∃ st : IoStatus, ¬ st.HasResult ∧ f room = .only st

def RunResult.Cut (f : Nat → RunResult) : Prop := ∃ result : Bytes, result.length < 2 ^ 32 ∧ Cuts f result

open RunResult

variable {st : IoStatus}

lemma RunResult.Cut.only (h : ¬ st.HasResult) : Cut fun _ => .only st :=
  ⟨[], by decide, fun _ => .inr ⟨st, h, rfl⟩⟩

lemma runFinish_cases (memSize : Nat) (call : Guest CallEnd) :
    (∃ status : IoStatus, ¬ status.HasResult ∧ ∀ room, runFinish memSize room call = .only status) ∨
      ∃ value : Bytes, value.length < 2 ^ 32 ∧ ∀ room, runFinish memSize room call =
        ⟨fitStatus value.length room, value.length, value.take room⟩ := by
  unfold runFinish
  cases call.ending with
  | error => exact .inl ⟨.failed, by decide, fun _ => rfl⟩
  | trap message =>
    dsimp only
    split
    · exact .inl ⟨.aborted, by decide, fun _ => rfl⟩
    · exact .inl ⟨.failed, by decide, fun _ => rfl⟩
  | returned produced =>
    cases produced with
    | none => exact .inl ⟨.failed, by decide, fun _ => rfl⟩
    | some produced =>
      by_cases hf : wasmResOff + produced.toNat > memSize
      · exact .inl ⟨.failed, by decide, fun _ => if_pos hf⟩
      · refine .inr ⟨(List.range produced.toNat).map fun i => call.mem.base (wasmResOff + i), ?_,
          fun room => ?_⟩
        · simpa using produced.toNat_lt
        · simp only [hf, if_false, fitStatus, length_map, length_range, ← map_take, take_range, min_comm]

lemma runFinish_cut (memSize : Nat) (call : Guest CallEnd) :
    Cut fun room => runFinish memSize room call := by
  obtain ⟨status, hs, he⟩ | ⟨value, hv, he⟩ := runFinish_cases memSize call
  · rw [funext he]
    exact .only hs
  · rw [funext he]
    exact ⟨value, hv, fun room => .inl ⟨fitStatus_hasResult .., rfl, rfl⟩⟩

variable {api : WasmApi}

lemma runInstance_cut (caps : WasmCaps) (clock : RunClock) (m : api.Module) (name : Bytes) (readOnly : Bool)
    (objLen : Nat) (z : ZcMem) : Cut fun room => (runInstance api caps clock m name readOnly objLen room z).1 := by
  unfold runInstance
  dsimp only
  cases (api.instanceNew m (if caps.maxMemoryBytes > 0 then some caps.maxMemoryBytes else none) nkvxZcGrow z).ending with
  | error => exact .only (by decide)
  | trap => exact .only (by decide)
  | ready inst =>
    by_cases hm : (!api.exportsMemory m) = true
    · simp only [hm, if_true]
      exact .only (by decide)
    by_cases hf : (!api.exportsFunc m name) = true
    · simp only [hm, hf, if_true]
      exact .only (by decide)
    by_cases hw : (readOnly && api.exportsFunc m wasmWriteExport) = true
    · simp only [hm, hf, hw, if_true]
      exact .only (by decide)
    by_cases hl : (!clock.setFuel) = true
    · simp only [hm, hf, hw, hl, if_true]
      exact .only (by decide)
    simp only [hm, hf, hw, hl]
    exact runFinish_cut ..

variable (cfg : WasmConfig) (env : RunEnv)

lemma runModule_cut (s : WasmState api) (name : Bytes) (mod : Option ModSpec) (m : api.Module) (o : ObjEntry) :
    Cut fun room => (runModule cfg env s name mod m o room).2 := by
  unfold runModule
  by_cases hs : (!env.storeNew) = true
  · simp only [hs, if_true]
    exact .only (by decide)
  simp only [hs]
  cases instanceMemory api m env.memoryAlloc o with
  | none => exact .only (by decide)
  | some z => exact runInstance_cut ..

lemma runOnObject_cut (s : WasmState api) (name : Bytes)
    (mod : Option ModSpec) (p : ObjPtr) : Cut fun room => (nkvxRunOnObjectLocked cfg env s name mod p room).2 := by
  unfold nkvxRunOnObjectLocked
  cases s.cache.obj p with
  | none => exact .only (by decide)
  | some o =>
    dsimp only
    rcases warmObtain cfg env s name mod o with ⟨s', _ | m⟩
    · exact .only (by decide)
    · exact runModule_cut ..

lemma coldFill_error {μ ε : Type} {cfg : WasmConfig} {alloc : Bool} {c c' : Cache μ} {objKey : Bytes}
    {objectLen : Nat} {fill : Nat → Except ε Bytes}
    (h : coldFill cfg alloc c objKey objectLen fill = (c', .error st)) : ¬ st.HasResult := by
  unfold coldFill at h
  split at h
  · cases h
    decide
  split at h
  · cases h
    decide
  · cases h

lemma runCached_cut {ε : Type} (s : WasmState api) (name : Bytes)
    (mod : Option ModSpec) (objKey : Bytes) (objectLen : Nat) (fill : Nat → Except ε Bytes) :
    Cut fun room => (runCached cfg env s name mod objKey objectLen fill room).2 := by
  unfold runCached
  by_cases ha : (!cfg.available) = true
  · simp only [ha, if_true]
    exact .only (by decide)
  by_cases hk : objKey = []
  · simp only [ha, hk, if_true]
    exact .only (by decide)
  simp only [ha, hk, if_false]
  cases (nkvxObjLookup s.cache objKey).filter ObjEntry.filled with
  | some o => exact runOnObject_cut ..
  | none =>
    rcases hf : coldFill cfg env.objAlloc s.cache objKey objectLen fill with ⟨cache, status | p⟩
    · exact .only (coldFill_error hf)
    · exact runOnObject_cut ..

lemma runPinned_cut (s : WasmState api) (name : Bytes)
    (mod : Option ModSpec) (pin : ObjPtr) : Cut fun room => (runPinned cfg env s name mod pin room).2 := by
  unfold runPinned
  by_cases ha : (!cfg.available) = true
  · simp only [ha, if_true]
    exact .only (by decide)
  simp only [ha]
  exact runOnObject_cut ..

lemma execRun_cut (env : ExecEnv) (ans : RadosAnswers) (s : WasmState api) (oid name : Bytes)
    (mod : ModSpec) : Cut fun room => (execRun cfg env ans s oid name mod room).2 := by
  unfold execRun
  rcases cachePin s.cache oid with ⟨cache, _ | pin⟩
  · cases ans.stat with
    | ok size => exact runCached_cut ..
    | error e => cases e <;> exact .only (by decide)
  · exact runPinned_cut ..

structure ExecResult.Carries (res : ExecResult) (result : Bytes) (osize : Nat) : Prop where
  resultLen : res.resultLen = satU32 result.length
  bytes : res.buf.getD [] = result.take osize

def ExecResult.CutTo (res : ExecResult) (result : Bytes) (osize : Nat) : Prop :=
  res.status.HasResult ∧ res.Carries result osize ∨ ¬ res.status.HasResult ∧ res.buf = none

/-- For every room the outcome is `result`, cut to the room. -/
def Truncates (f : Nat → ExecResult) (result : Bytes) : Prop := ∀ osize < 2 ^ 32, (f osize).CutTo result osize

namespace ExecResult.CutTo

variable {res : ExecResult} {result : Bytes}

lemma carries (h : res.CutTo result osize) (hr : res.status.HasResult) : res.Carries result osize := by
  rcases h with ⟨-, hc⟩ | ⟨hn, -⟩
  · exact hc
  · exact absurd hr hn

lemma bufLen_le (h : res.CutTo result osize) : res.bufLen ≤ osize := by
  unfold bufLen
  rcases h with ⟨-, hc⟩ | ⟨-, hn⟩
  · rw [hc.bytes, length_take]
    exact Nat.min_le_left _ _
  rw [hn]
  exact Nat.zero_le _

lemma only (h : ¬ st.HasResult) : (ExecResult.only st).CutTo result osize := .inr ⟨h, rfl⟩

lemma take_deliver (hz : osize < 2 ^ 32) : result.take (min osize (satU32 result.length)) = result.take osize := by
  by_cases hl : result.length < 2 ^ 32
  · rw [satU32_of_lt hl, ← take_eq_take_min]
  have hs : satU32 result.length = 2 ^ 32 - 1 := if_pos (by omega)
  rw [hs, min_eq_left (by omega)]

lemma nothing (result : Bytes) (hs : st.HasResult) (hsz : osize < 2 ^ 32) (hz : min osize (satU32 result.length) = 0) :
    (⟨st, satU32 result.length, none⟩ : ExecResult).CutTo result osize := by
  refine .inl ⟨hs, rfl, ?_⟩
  rw [← take_deliver hsz, hz]
  rfl

lemma first (hs : st.HasResult) (hz : osize < 2 ^ 32) :
    (⟨st, satU32 result.length, some (result.take (min osize (satU32 result.length)))⟩ : ExecResult).CutTo
      result osize :=
  .inl ⟨hs, rfl, take_deliver hz⟩

lemma resultSet (result : Bytes) (hs : st.HasResult) (hz : osize < 2 ^ 32) (alloc : Bool) :
    (nkvxResultSet alloc st (satU32 result.length) result (min osize (satU32 result.length))).CutTo result osize := by
  unfold nkvxResultSet
  split
  · rename_i hr
    exact nothing result hs hz hr
  split
  · exact only (by decide)
  · exact first hs hz

end ExecResult.CutTo

open ExecResult

lemma direct_cutTo {value : Bytes} (hz : osize < 2 ^ 32) (hs : st.HasResult) (alloc : Bool)
    (fails : Option Nat) :
    (if min osize (satU32 value.length) = 0 then ⟨st, satU32 value.length, none⟩
      else if !alloc then .only .nomem
      else
        match radosCall fails (some value) fun bytes => bytes with
        | .error .noent => .only .keyNotExist
        | .error _ => .only .failed
        | .ok bytes => ⟨st, satU32 value.length, some (bytes.take (min osize (satU32 value.length)))⟩ :
        ExecResult).CutTo value osize := by
  split
  · rename_i hr
    exact .nothing _ hs hz hr
  split
  · exact .only (by decide)
  cases fails with
  | none => exact .first hs hz
  | some code => exact .only (by decide)

def InputWhole (inputLen : Nat) (input : Option Bytes) : Prop := ∀ bytes, input = some bytes → bytes.length = inputLen

lemma echo_truncates (alloc : Bool) (hl : inputLen < 2 ^ 32) (hi : InputWhole inputLen input) :
    ∃ result, Truncates
      (fun osize =>
        if min osize inputLen = 0 then ⟨fitStatus inputLen osize, inputLen, none⟩
        else
          match input with
          | none => .only .invalid
          | some bytes =>
            if !alloc then .only .nomem
            else ⟨fitStatus inputLen osize, inputLen, some (bytes.take (min osize inputLen))⟩) result := by
  have ht := fun osize => fitStatus_hasResult inputLen osize
  cases input with
  | none =>
    -- the length is reported where there is no room for a byte
    refine ⟨List.replicate inputLen 0, fun osize hz => ?_⟩
    have hs : satU32 (List.replicate inputLen (0 : UInt8)).length = inputLen := by
      rw [length_replicate, satU32_of_lt hl]
    dsimp only
    split
    · rename_i hr
      have h := CutTo.nothing (List.replicate inputLen 0) (ht osize) hz (by rw [hs]; exact hr)
      rwa [hs] at h
    · exact .only (by decide)
  | some bytes =>
    have hb : bytes.length = inputLen := hi bytes rfl
    refine ⟨bytes, fun osize hz => ?_⟩
    have hs : satU32 bytes.length = inputLen := by rw [hb, satU32_of_lt hl]
    have he := CutTo.resultSet bytes (ht osize) hz alloc
    rw [hs] at he
    exact he

lemma radosCall_ok {α : Type} {fails : Option Nat} {value : Option Bytes} {f : Bytes → α} {a : α}
    (h : radosCall fails value f = .ok a) : ∃ bytes, value = some bytes ∧ f bytes = a := by
  cases fails with
  | some code => cases h
  | none =>
    cases value with
    | none => cases h
    | some bytes =>
      cases h
      exact ⟨bytes, rfl, rfl⟩

lemma execGate_error {cfg : WasmConfig} {env : ExecEnv} {s : WasmState api} {req : ExecIn}
    (h : execGate cfg env s req = .error st) : ¬ st.HasResult := by
  have hv : ∀ bytes, moduleVerify api cfg req.sha256 bytes = .success ∨
      ¬ (moduleVerify api cfg req.sha256 bytes).HasResult := by
    intro bytes
    unfold moduleVerify
    split_ifs <;> decide
  unfold execGate at h
  dsimp only at h
  split at h
  · cases h
    decide
  split at h
  · cases h
    decide
  split at h
  · cases h
  split at h
  · cases h
    decide
  · cases h
    decide
  rename_i bytes _
  split at h
  · cases h
  rename_i hn
  cases h
  exact (hv bytes).resolve_left hn

variable (ex : Executor api)

lemma builtin_truncates (faults : RadosFaults) (oid : Bytes) (alloc : Bool) (req : ExecIn)
    (hl : req.inputLen < 2 ^ 32) (hn : InputWhole req.inputLen input) : ∃ result, Truncates
      (fun osize => nkvxRunBuiltin (ex.answers faults oid) alloc { req with osize := osize } input) result := by
  unfold nkvxRunBuiltin
  have hw : ∀ n, (leU64 n).length = 8 := fun n => by simp [leU64]
  by_cases hi : req.moduleKey.getD [] = cstr ['i', 'n', 'p', 'u', 't', 'l', 'e', 'n']
  · simp only [if_pos hi]
    refine ⟨leU64 req.inputLen, fun osize hs => ?_⟩
    have h := CutTo.resultSet (leU64 req.inputLen) (fitStatus_hasResult 8 osize) hs alloc
    rwa [hw] at h
  by_cases he : req.moduleKey.getD [] = cstr ['i', 'n', 'p', 'u', 't', 'e', 'c', 'h', 'o']
  · simp only [if_neg hi, if_pos he]
    exact echo_truncates alloc hl hn
  simp only [if_neg hi, if_neg he, Executor.answers]
  -- the other modules need the object
  cases ht : radosCall faults.stat (ex.rados oid) List.length with
  | error e =>
    refine ⟨[], fun _ _ => ?_⟩
    cases e <;> exact .only (by decide)
  | ok size =>
    obtain ⟨value, hv, rfl⟩ := radosCall_ok ht
    by_cases hc : req.moduleKey.getD [] = cstr ['b', 'y', 't', 'e', 'c', 'o', 'u', 'n', 't']
    · simp only [if_pos hc]
      refine ⟨leU64 value.length, fun osize hs => ?_⟩
      have h := CutTo.resultSet (leU64 value.length) (fitStatus_hasResult 8 osize) hs alloc
      rwa [hw] at h
    by_cases hd : req.moduleKey.getD [] = cstr ['i', 'd', 'e', 'n', 't', 'i', 't', 'y']
    · simp only [if_neg hc, if_pos hd, hv]
      exact ⟨value, fun osize hs => direct_cutTo hs (fitStatus_hasResult value.length osize) alloc faults.direct⟩
    simp only [if_neg hc, if_neg hd]
    exact ⟨[], fun _ _ => .only (by decide)⟩

lemma runWasm_truncates (env : ExecEnv) (ans : RadosAnswers) (s : WasmState api) (oid : Bytes) (req : ExecIn) :
    ∃ result, Truncates (fun osize => (nkvxRunWasm cfg env ans s oid { req with osize := osize }).2) result := by
  unfold nkvxRunWasm
  have ht : ∀ osize, execGate cfg env s { req with osize := osize } = execGate cfg env s req := fun _ => rfl
  simp only [ht]
  cases hg : execGate cfg env s req with
  | error st => exact ⟨[], fun _ _ => .only (execGate_error hg)⟩
  | ok mod =>
    obtain ⟨result, hl, hc⟩ := execRun_cut cfg env ans s oid (runName (req.moduleKey.getD [])) mod
    refine ⟨result, fun osize _ => ?_⟩
    dsimp only
    split
    · exact .only (by decide)
    rcases hc osize with ⟨hs, hr, hu⟩ | ⟨st, hs, ho⟩
    · refine .inl ⟨hs, ?_, ?_⟩
      · rw [satU32_of_lt hl]
        exact hr
      dsimp only at hr hu ⊢
      rw [hr, hu]
      split
      · rename_i hz
        rw [take_eq_take_min, hz]
        rfl
      · rfl
    refine .inr ⟨?_, ?_⟩
    · dsimp only at ho ⊢
      rw [ho]
      exact hs
    · simp [ho, RunResult.only]

lemma handle_exec_truncates (req : ExecIn)
    (env : ExecEnv) (faults : RadosFaults) (hl : req.inputLen < 2 ^ 32) (hi : InputWhole req.inputLen input) :
    ∃ result, Truncates
      (fun osize => (ex.handle cfg (.exec { req with osize := osize } input env faults)).2) result := by
  unfold Executor.handle nkvxExecutorRun
  by_cases hk : req.key = []
  · simp only [if_pos hk]
    exact ⟨[], fun _ _ => .only (by decide)⟩
  by_cases hr : req.runtime = .nkvx
  · by_cases hb : req.moduleNs = some (cstr ['n', 'k', 'v', 'x']) ∧ req.moduleKey.isSome
    · simp only [if_neg hk, if_pos hr, if_pos hb]
      exact builtin_truncates ex faults _ env.resAlloc req hl hi
    simp only [if_neg hk, if_pos hr, if_neg hb]
    exact runWasm_truncates ..
  simp only [if_neg hk, if_neg hr]
  exact ⟨[], fun _ _ => .only (by decide)⟩

lemma retrievePinned_truncates (alloc : Bool) (s : WasmState api) (pin : ObjPtr) :
    Truncates (fun osize => (retrievePinned alloc s pin osize).2) ((pinObject s.cache pin).getD []) :=
  fun osize hs => .resultSet _ (fitStatus_hasResult _ osize) hs alloc

lemma retrieve_truncates (env : RetrieveEnv) (ex : Executor api) (faults : RadosFaults)
    (oid : Bytes) : ∃ result, Truncates
      (fun osize => (nkvxRetrieve cfg env (ex.answers faults oid) ex.wasm oid osize).2) result := by
  unfold nkvxRetrieve
  rcases cachePin ex.wasm.cache oid with ⟨cache, _ | pin⟩
  · cases hs : (ex.answers faults oid).stat with
    | error e =>
      refine ⟨[], fun _ _ => ?_⟩
      cases e <;> exact .only (by decide)
    | ok size =>
      obtain ⟨value, hv, rfl⟩ := radosCall_ok hs
      -- the cache serves the value when the fill succeeds and the pin hits, librados otherwise
      have hd : ∀ s : WasmState api, Truncates
          (fun osize => (s, retrieveDirect env (ex.answers faults oid) value.length osize).2) value := by
        intro s osize hz
        unfold retrieveDirect Executor.answers
        rw [hv]
        exact direct_cutTo hz (fitStatus_hasResult _ osize) env.bufAlloc faults.direct
      dsimp only
      rcases cacheFill cfg env.objAlloc cache oid value.length (nkvxObjFill (ex.answers faults oid)) with
        ⟨filled, status⟩
      cases status with
      | success =>
        dsimp only
        rcases cachePin filled oid with ⟨pinned, _ | pin⟩
        · exact ⟨value, hd _⟩
        · exact ⟨_, retrievePinned_truncates _ _ _⟩
      | _ => exact ⟨value, hd _⟩
  · exact ⟨_, retrievePinned_truncates _ _ _⟩

lemma handle_retrieve_truncates (req : KvIn) (env : RetrieveEnv) (faults : RadosFaults) : ∃ result, Truncates
      (fun osize => (ex.handle cfg (.retrieve { req with osize := osize } env faults)).2) result := by
  unfold Executor.handle
  by_cases hk : req.key = []
  · simp only [if_pos hk]
    exact ⟨[], fun _ _ => .only (by decide)⟩
  simp only [if_neg hk]
  exact retrieve_truncates ..

end RadosNkv
