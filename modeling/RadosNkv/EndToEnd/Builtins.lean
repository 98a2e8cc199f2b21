import RadosNkv.Executor.Librados
import RadosNkv.Executor.WireLengths
import RadosNkv.Forwarder.Handler
import RadosNkv.Worker.RunModule

/-! The built-in modules are written three times: in the forwarder, in the worker and in the
executor. -/

namespace RadosNkv

open Worker (RunJob)

def bytecount : Bytes := cstr ['b', 'y', 't', 'e', 'c', 'o', 'u', 'n', 't']
def identity : Bytes := cstr ['i', 'd', 'e', 'n', 't', 'i', 't', 'y']

def ExecResult.delivered (res : ExecResult) : RunResult := ⟨res.status, res.resultLen, res.buf.getD []⟩

def executorBuiltin (objs : Objects) (ctx : IoCtx) (oid module : Bytes) (req : ExecMsg) : RunResult :=
  ((Calls.nkvxRunBuiltin ctx oid true { req with moduleKey := some module }).outcome (clusterAnswer .none) objs).1.delivered

lemma delivered_resultSet (status : IoStatus) (len : Nat) (src : Bytes) (deliver : Nat) :
    (nkvxResultSet true status len src deliver).delivered = ⟨status, len, src.take deliver⟩ := by
  unfold nkvxResultSet
  by_cases hd : deliver = 0
  · rw [if_pos hd, hd]
    rfl
  rw [if_neg hd]
  rfl

variable {objs : Objects} {ctx : IoCtx} {oid object : Bytes} {req : ExecMsg}

lemma executor_inputlen : executorBuiltin objs ctx oid inputlen req =
    ⟨fitStatus 8 req.osize.toNat, 8, (leU64 req.inputLen.toNat).take (min req.osize.toNat 8)⟩ :=
  delivered_resultSet ..

lemma executor_inputecho (hi : (req.inputInline.getD []).length = req.inputLen.toNat) :
    executorBuiltin objs ctx oid inputecho req = ⟨fitStatus req.inputLen.toNat req.osize.toNat, req.inputLen.toNat,
        (req.inputInline.getD []).take (min req.osize.toNat req.inputLen.toNat)⟩ := by
  unfold executorBuiltin Calls.nkvxRunBuiltin
  dsimp only [Option.getD_some]
  rw [if_neg (by decide), if_pos (by decide)]
  by_cases hd : min req.osize.toNat req.inputLen.toNat = 0
  · rw [if_pos hd, hd]
    rfl
  rw [if_neg hd]
  cases hp : req.inputInline with
  | none =>
    rw [hp] at hi
    exact absurd hi.symm (by simp; omega)
  | some input => rfl

lemma stat_cluster : (Calls.stat ctx oid).outcome (clusterAnswer .none) objs =
    (radosCall none (objs.get (ctx, oid)) List.length, objs) := rfl

lemma read_cluster (len : Nat) : (Calls.read ctx oid len).outcome (clusterAnswer .none) objs =
    (radosCall none (objs.get (ctx, oid)) fun bytes => bytes.take len, objs) := rfl

lemma executor_bytecount (ho : objs.get (ctx, oid) = some object) : executorBuiltin objs ctx oid bytecount req =
    ⟨fitStatus 8 req.osize.toNat, 8, (leU64 object.length).take (min req.osize.toNat 8)⟩ := by
  unfold executorBuiltin Calls.nkvxRunBuiltin
  dsimp only [Option.getD_some]
  rw [if_neg (by decide), if_neg (by decide), Prog.outcome_bind, stat_cluster, ho]
  exact delivered_resultSet ..

lemma executor_identity (ho : objs.get (ctx, oid) = some object) : executorBuiltin objs ctx oid identity req =
    ⟨fitStatus object.length req.osize.toNat, satU32 object.length,
      object.take (min req.osize.toNat (satU32 object.length))⟩ := by
  unfold executorBuiltin Calls.nkvxRunBuiltin
  dsimp only [Option.getD_some]
  rw [if_neg (by decide), if_neg (by decide), Prog.outcome_bind, stat_cluster, ho]
  dsimp only [radosCall]
  rw [if_neg (by decide), if_pos (by decide)]
  by_cases hd : min req.osize.toNat (satU32 object.length) = 0
  · rw [if_pos hd, hd]
    rfl
  rw [if_neg hd, if_neg (by decide), Prog.outcome_bind, read_cluster, ho]
  dsimp only [radosCall]
  rw [List.take_take, Nat.min_self]
  rfl

variable {sink : Option (Nat × Nat)}

lemma native_inputlen (hs : (sink.map Prod.snd).getD 0 = req.osize.toNat) :
    (kvradosNativeBuiltinExec (some inputlen) req.inputInline req.inputLen.toNat sink).delivered =
      executorBuiltin objs ctx oid inputlen req := by
  unfold kvradosNativeBuiltinExec
  dsimp only
  rw [hs, if_pos rfl, executor_inputlen]
  by_cases hd : min req.osize.toNat 8 = 0
  · rw [if_neg (by omega), hd]
    rfl
  rw [if_pos (by omega)]
  rfl

lemma native_inputecho (hi : (req.inputInline.getD []).length = req.inputLen.toNat)
    (hs : (sink.map Prod.snd).getD 0 = req.osize.toNat) :
    (kvradosNativeBuiltinExec (some inputecho) req.inputInline req.inputLen.toNat sink).delivered =
      executorBuiltin objs ctx oid inputecho req := by
  unfold kvradosNativeBuiltinExec
  rw [hs, if_neg (by decide), if_pos rfl, executor_inputecho hi]
  by_cases hd : min req.osize.toNat req.inputLen.toNat = 0
  · rw [if_neg (by omega), hd]
    rfl
  rw [if_pos (by omega)]
  cases hp : req.inputInline with
  | none =>
    rw [hp] at hi
    exact absurd hi.symm (by simp; omega)
  | some input => rfl

lemma worker_bytecount (job : RunJob) : { job with module := bytecount }.builtin =
    ⟨fitStatus 8 job.outLen, 8, (leU64 job.objectLen).take (min job.outLen 8)⟩ := by
  unfold RunJob.builtin
  dsimp only
  rw [if_pos (by decide), List.take_eq_take_min]
  rfl

lemma worker_identity (job : RunJob) (ho : job.outLen < 2 ^ 32) : { job with module := identity }.builtin =
    ⟨fitStatus job.objectLen job.outLen, satU32 job.objectLen,
      (job.object.getD []).take (min job.outLen (satU32 job.objectLen))⟩ := by
  unfold RunJob.builtin
  dsimp only
  rw [if_neg (by decide), if_pos (by decide)]
  have ht : min job.objectLen job.outLen = min job.outLen (satU32 job.objectLen) := by
    unfold satU32
    split <;> omega
  rw [ht]

/-- The forwarder's built-ins answer as the executor's do on the same input, and the worker's as the
executor's do on the same object, in status, true length and delivered bytes. -/
theorem builtins_agree {api : WasmApi} (cfg : WasmConfig) (eng : PlainEngine api)
    (files : Bytes → Option Bytes)
    (env : RunEnv) (s : WasmState api) (objs : Objects) (ctx : IoCtx) (oid object : Bytes)
    (hobj : objs.get (ctx, oid) = some object) (req : ExecMsg)
    (hinput : (req.inputInline.getD []).length = req.inputLen.toNat) (sink : Option (Nat × Nat))
    (hsink : (sink.map Prod.snd).getD 0 = req.osize.toNat) (job : RunJob)
    (hobject : job.object.getD [] = object)
    (hlen : job.objectLen = object.length) (hout : job.outLen = req.osize.toNat) :
    (∀ module, module = inputlen ∨ module = inputecho →
      (kvradosNativeBuiltinExec (some module) req.inputInline req.inputLen.toNat sink).delivered =
        executorBuiltin objs ctx oid module req) ∧
    ∀ module, module = bytecount ∨ module = identity →
      ({ job with module }.run cfg eng files env s).2 =
        executorBuiltin objs ctx oid module req := by
  refine ⟨?_, ?_⟩ <;> rintro module (rfl | rfl)
  · exact native_inputlen hsink
  · exact native_inputecho hinput hsink
  · rw [executor_bytecount hobj, ← hlen, ← hout]
    exact worker_bytecount job
  have hosz := req.osize.toNat_lt
  rw [executor_identity hobj, ← hlen, ← hout, ← hobject]
  exact worker_identity job (hout ▸ hosz)

theorem builtins_agree_cut :
    let objs : Objects := Dict.empty.insert (⟨[100], []⟩, [107]) [1, 2]
    let req := { echoMsg 1 with osize := 1 }
    let job : RunJob := ⟨[], [], none, none, some [1, 2], 2, 1⟩
    (kvradosNativeBuiltinExec (some inputecho) (some [7]) 1 (some (0, 1))).delivered =
        executorBuiltin objs ⟨[100], []⟩ [107] inputecho req ∧
      ({ job with module := identity }.run .default tinyEngine (fun _ => none) .good
        (.init tinyApi)).2 =
        executorBuiltin objs ⟨[100], []⟩ [107] identity req ∧
      executorBuiltin objs ⟨[100], []⟩ [107] identity req = ⟨.bufferTooSmall, 2, [1]⟩ := by
  intro objs req job
  obtain ⟨hinp, hobj⟩ := builtins_agree .default tinyEngine (fun _ => none) .good (.init tinyApi) objs ⟨[100], []⟩
    [107] [1, 2] (by decide) req rfl (some (0, 1)) rfl job rfl rfl rfl
  exact ⟨hinp inputecho (.inr rfl), hobj identity (.inr rfl), by decide +kernel⟩

end RadosNkv
