import RadosNkv.Executor.Calls

/-! What a request may make the executor call: one statement for each verb, whatever the calls
answer and the state is. -/

namespace RadosNkv

def RadosOp.Observes : RadosOp → Prop
  | .ioctxCreate _ | .stat _ _ | .read _ _ _ | .nobjectsList _ => True
  | .writeFull _ _ _ _ | .writeOpOperate _ _ _ _ _ | .remove _ _ | .memcpy _ _ => False

def ExecMsg.MayCall (req : ExecMsg) : RadosOp → Prop
  | .memcpy src len => req.inputInline = some src ∧ len ≤ req.inputLen.toNat
  | op => op.Observes

def KvMsg.Supplies (req : KvMsg) (src : Bytes) (len : Nat) : Prop :=
  req.readOnly = 0 ∧ (0 < len → req.valueInline = some src ∧ len ≤ req.valueLen.toNat)

def KvMsg.MayCall (req : KvMsg) : RadosOp → Prop
  | .writeFull _ _ src len | .writeOpOperate _ _ _ src len | .memcpy src len => req.Supplies src len
  | .remove _ _ => req.readOnly = 0
  | op => op.Observes

namespace Calls

variable {api : WasmApi} {cfg : WasmConfig} {ctx : IoCtx} {oid : Bytes} {P : RadosOp → Prop}

lemma nkvxObjFill_uses {μ : Type} (hread : ∀ len, P (.read ctx oid len)) (alloc : Bool) (c : Cache μ)
    (objectLen : Nat) : (nkvxObjFill cfg alloc c ctx oid objectLen).Uses P := by
  unfold nkvxObjFill
  split
  · trivial
  · exact .perform_bind (hread _) fun _ => trivial

lemma retrieveDirect_uses (hread : ∀ len, P (.read ctx oid len)) (alloc : Bool) (size osize : Nat) :
    (retrieveDirect alloc ctx oid size osize).Uses P := by
  unfold retrieveDirect
  dsimp only
  split
  · trivial
  split
  · trivial
  refine .perform_bind (hread _) fun r => ?_
  split <;> trivial

section Object

variable (hstat : P (.stat ctx oid)) (hread : ∀ len, P (.read ctx oid len))
include hstat hread

lemma execRun_uses (env : RunEnv) (s : WasmState api) (name : Bytes) (mod : ModSpec) (osize : Nat) :
    (execRun cfg env ctx s oid name mod osize).Uses P := by
  unfold execRun
  split
  · trivial
  refine .perform_bind hstat fun r => ?_
  split
  · trivial
  · trivial
  · exact (nkvxObjFill_uses hread ..).bind fun _ => trivial

lemma retrieveRados_uses (env : RetrieveEnv) (s : WasmState api) (osize : Nat) :
    (retrieveRados cfg env ctx s oid osize).Uses P := by
  unfold retrieveRados
  split
  · trivial
  refine .perform_bind hstat fun r => ?_
  split
  · trivial
  · trivial
  refine (nkvxObjFill_uses hread ..).bind fun got => ?_
  split
  · split
    · trivial
    · exact (retrieveDirect_uses hread ..).bind fun _ => trivial
  · exact (retrieveDirect_uses hread ..).bind fun _ => trivial

lemma nkvxRunBuiltin_uses (alloc : Bool) (req : ExecMsg)
    (hc : ∀ src len, req.inputInline = some src → len ≤ req.inputLen.toNat → P (.memcpy src len)) :
    (nkvxRunBuiltin ctx oid alloc req).Uses P := by
  unfold nkvxRunBuiltin
  dsimp only
  split
  · trivial
  split
  · split
    · trivial
    split
    · trivial
    next input hi =>
    split
    · trivial
    · exact .perform_bind (hc _ _ hi (min_le_right ..)) fun _ => trivial
  refine .perform_bind hstat fun r => ?_
  split
  · trivial
  · trivial
  split
  · trivial
  split
  · split
    · trivial
    split
    · trivial
    refine .perform_bind (hread _) fun r => ?_
    split <;> trivial
  · trivial

end Object

section Module

lemma nkvxFetchModule_uses (hm : ∀ pool ns, moduleLocator moduleNs = some (pool, ns) → P (.ioctxCreate pool) ∧
      P (.stat ⟨pool, ns.getD []⟩ moduleKey) ∧ ∀ len, P (.read ⟨pool, ns.getD []⟩ moduleKey len)) (alloc : Bool) :
    (nkvxFetchModule alloc moduleNs moduleKey).Uses P := by
  unfold nkvxFetchModule
  split
  · trivial
  next pool ns hl =>
  obtain ⟨hc, hstat, hread⟩ := hm pool ns hl
  refine .perform_bind hc fun r => ?_
  split
  · trivial
  refine .perform_bind hstat fun r => ?_
  split
  · trivial
  split
  · trivial
  · exact .perform_bind (hread _) fun _ => trivial

lemma execGate_uses {req : ExecMsg} (alloc : Bool) (s : WasmState api)
    (hf : (nkvxFetchModule alloc (req.moduleNs.getD []) (req.moduleKey.getD [])).Uses P) :
    (execGate cfg alloc s req).Uses P := by
  unfold execGate
  dsimp only
  split
  · trivial
  split
  · trivial
  split
  · trivial
  refine hf.bind fun r => ?_
  split
  · trivial
  · trivial
  · split <;> trivial

end Module

lemma nkvxExecutorRun_mayCall (env : ExecAlloc) (s : WasmState api) (req : ExecMsg) :
    (nkvxExecutorRun cfg env ctx s req).Uses req.MayCall := by
  unfold nkvxExecutorRun
  split
  · trivial
  split
  · split
    · refine Prog.Uses.bind ?_ fun _ => trivial
      exact nkvxRunBuiltin_uses trivial (fun _ => trivial) _ req fun _ _ hs hl => ⟨hs, hl⟩
    unfold nkvxRunWasm
    refine (execGate_uses _ s (nkvxFetchModule_uses (fun _ _ _ => ⟨trivial, trivial, fun _ => trivial⟩) _)).bind
      fun r => ?_
    split
    · trivial
    dsimp only
    split
    · trivial
    · exact (execRun_uses trivial (fun _ => trivial) ..).bind fun _ => trivial
  · trivial

section Store

variable {req : KvMsg}

lemma supplies_of_checked (hw : req.readOnly = 0) (hv : ¬ (req.valueLen.toNat > 0 ∧ req.valueInline = none)) :
    req.Supplies (req.valueInline.getD []) req.valueLen.toNat := by
  refine ⟨hw, fun hp => ⟨?_, le_rfl⟩⟩
  cases hi : req.valueInline with
  | none => exact absurd ⟨hp, hi⟩ hv
  | some value => rfl

variable {len : Nat} (h : req.Supplies value len)
include h

lemma storeMem_uses (hc : ∀ src len, req.Supplies src len → P (.memcpy src len)) (alloc : Bool)
    (ex : ExecutorState api) (store : MemStore) (flags : Nat) :
    (storeMem alloc ex store oid flags value len).Uses P := by
  have hm : (memCopy value len).Uses P := by
    unfold memCopy
    split
    · exact ⟨hc _ _ h, fun _ => trivial⟩
    · trivial
  have hp : (nkvxExecutorMemPut alloc store oid value len).Uses P := by
    unfold nkvxExecutorMemPut
    split
    · trivial
    split
    · trivial
    refine hm.bind fun copy => ?_
    split <;> trivial
  unfold storeMem
  split
  · trivial
  split
  · trivial
  refine hp.bind fun r => ?_
  split <;> trivial

lemma storeWrite_uses (hw : ∀ src len, req.Supplies src len →
      P (.writeFull ctx oid src len) ∧ ∀ guard, P (.writeOpOperate ctx oid guard src len)) (opAlloc : Bool)
    (flags : Nat) : (storeWrite opAlloc ctx oid flags value len).Uses P := by
  -- an empty value is written from a buffer of its own
  have hs : req.Supplies (if len = 0 then [] else value) len := by
    refine ⟨h.1, fun hp => ?_⟩
    rw [if_neg (pos_iff_ne_zero.mp hp)]
    exact h.2 hp
  unfold storeWrite
  dsimp only
  split
  · split
    · trivial
    · exact .perform_bind ((hw _ _ hs).2 _) fun _ => trivial
  · exact .perform_bind (hw _ _ hs).1 fun _ => trivial

end Store

lemma nkvxExecutorKv_uses {req : KvMsg} (hstat : ∀ ctx oid, P (.stat ctx oid)) (hl : ∀ ctx, P (.nobjectsList ctx))
    (hread : KvVerb.ofByte req.verb = .retrieve → ∀ ctx oid len, P (.read ctx oid len))
    (hm : req.readOnly = 0 → ∀ ctx oid, P (.remove ctx oid))
    (hc : ∀ src len, req.Supplies src len → P (.memcpy src len)) (hw : ∀ src len, req.Supplies src len →
      ∀ ctx oid, P (.writeFull ctx oid src len) ∧ ∀ guard, P (.writeOpOperate ctx oid guard src len))
    (env : KvAlloc) (ex : ExecutorState api) : (nkvxExecutorKv cfg env ex req).Uses P := by
  unfold nkvxExecutorKv
  dsimp only
  split
  · next hvr =>
    split
    · trivial
    unfold nkvxRetrieve
    split
    · split <;> trivial
    · exact (retrieveRados_uses (hstat _ _) (hread hvr _ _) ..).bind fun _ => trivial
  · split
    · trivial
    unfold nkvxStore
    dsimp only
    split
    · trivial
    next hr =>
    split
    · trivial
    next hv =>
    have hs := supplies_of_checked (not_not.mp hr) hv
    split
    · exact storeMem_uses hs hc ..
    · exact (storeWrite_uses hs (fun _ _ h => hw _ _ h _ _) ..).bind fun _ => trivial
  · split
    · trivial
    unfold nkvxDelete
    split
    · trivial
    next hr =>
    split
    · trivial
    refine .perform_bind (hm (not_not.mp hr) _ _) fun r => ?_
    split <;> trivial
  · split
    · trivial
    unfold nkvxExist
    split
    · split <;> trivial
    refine .perform_bind (hstat _ _) fun r => ?_
    split <;> trivial
  · unfold nkvxList
    split
    · trivial
    split
    · trivial
    refine .perform_bind (hl _) fun r => ?_
    split <;> trivial
  · trivial

lemma nkvxExecutorKv_mayCall (env : KvAlloc) (ex : ExecutorState api) (req : KvMsg) :
    (nkvxExecutorKv cfg env ex req).Uses req.MayCall :=
  nkvxExecutorKv_uses (fun _ _ => trivial) (fun _ => trivial) (fun _ _ _ _ => trivial) (fun hr _ _ => hr)
    (fun _ _ h => h) (fun _ _ h _ _ => ⟨h, fun _ => h⟩) env ex

end Calls

end RadosNkv
