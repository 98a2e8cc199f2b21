import RadosNkv.Executor.Librados

/-! The executor's calls, run against a cluster, do what the executor over an atomic map does: same
results, runtime state and objects. -/

namespace RadosNkv

open Calls Prog

def KvMsg.toIn (req : KvMsg) : KvIn where
  verb := .ofByte req.verb
  readOnly := req.readOnly != 0
  clientCallId := req.clientCallId.toNat
  key := req.key.val
  osize := req.osize.toNat
  storeFlags := req.storeFlags.toNat
  valueLen := req.valueLen.toNat
  valueInline := req.valueInline.map fun _ => 0
  valueBulk := req.valueBulk
  resultSink := req.resultSink

lemma KvMsg.toIn_readOnly {req : KvMsg} : req.toIn.readOnly = true ↔ req.readOnly ≠ 0 := bne_iff_ne

def CallFaults.toFaults (f : CallFaults) : RadosFaults := ⟨f.stat, f.read, f.read, f.write⟩

lemma CallFaults.toFaults_write (f : CallFaults) : f.toFaults.write = f.write := rfl

/-- The event of a base verb, where the map model has one. -/
def KvMsg.event (req : KvMsg) (env : Calls.KvAlloc) (faults : CallFaults) : Option ExecutorEvent :=
  match KvVerb.ofByte req.verb with
  | .retrieve => some (.retrieve req.toIn env.retrieve faults.toFaults)
  | .store => some (.store req.toIn req.valueInline env.opAlloc faults.toFaults)
  | .delete => some (.delete req.toIn faults.toFaults)
  | .exist => some (.exist req.toIn faults.toFaults)
  | .list | .invalid => none

section

variable (objs : Objects)

variable (ctx : IoCtx)

def Objects.inCtx : Bytes → Option Bytes := fun oid => objs.get (ctx, oid)

def Objects.SetsCtx (rados : Bytes → Option Bytes) (objs' : Objects) : Prop :=
  ∀ ctx', objs'.inCtx ctx' = if ctx' = ctx then rados else objs.inCtx ctx'

lemma Objects.setsCtx_self : objs.SetsCtx ctx (objs.inCtx ctx) objs := by
  intro ctx'
  split
  · next h => rw [h]
  · rfl

lemma Objects.setsCtx_insert (oid value : Bytes) :
    objs.SetsCtx ctx (Function.update (objs.inCtx ctx) oid (some value)) (objs.insert (ctx, oid) value) := by
  intro ctx'
  funext oid'
  by_cases hc : ctx' = ctx
  · subst hc
    simp only [inCtx, Dict.get_insert, if_true, Function.update_apply, Prod.mk.injEq, true_and]
  · simp only [inCtx, Dict.get_insert, Prod.mk.injEq, hc, false_and, if_false]

lemma Objects.setsCtx_erase (oid : Bytes) :
    objs.SetsCtx ctx (Function.update (objs.inCtx ctx) oid none) (objs.erase (ctx, oid)) := by
  intro ctx'
  funext oid'
  by_cases hc : ctx' = ctx
  · subst hc
    simp only [inCtx, Dict.get_erase, if_true, Function.update_apply, Prod.mk.injEq, true_and]
  · simp only [inCtx, Dict.get_erase, Prod.mk.injEq, hc, false_and, if_false]

end

variable {api : WasmApi} {faults : CallFaults} {objs : Objects} {ctx : IoCtx} {oid : Bytes}

def Executor.over (w : WasmState api) (objs : Objects) (ctx : IoCtx) : Executor api := ⟨w, objs.inCtx ctx⟩

def Objects.answers (objs : Objects) (faults : CallFaults) (ctx : IoCtx) (oid : Bytes) : RadosAnswers where
  stat := radosCall faults.stat (objs.inCtx ctx oid) List.length
  fill := radosCall faults.read (objs.inCtx ctx oid) fun bytes => bytes
  direct := radosCall faults.read (objs.inCtx ctx oid) fun bytes => bytes

def Yields {α : Type} (faults : CallFaults) (objs : Objects) (p : Calls α) (a : α) : Prop :=
  p.run (clusterAnswer faults) objs = (.ok a, objs)

variable {α : Type} {p : Calls α}

lemma Yields.bind {β : Type} {f : α → Calls β} {b : β} (hp : Yields faults objs p a)
    (hf : Yields faults objs (f a) b) : Yields faults objs (p >>= f) b := by
  rw [Yields, run_bind, hp]
  exact hf

lemma Yields.pure (a : α) : Yields faults objs (pure a) a := rfl

lemma yields_stat : Yields faults objs (Calls.stat ctx oid) (objs.answers faults ctx oid).stat := rfl

lemma yields_read (len : Nat) :
    Yields faults objs (read ctx oid len) ((objs.answers faults ctx oid).direct.map fun bytes => bytes.take len) := by
  have hr : radosCall faults.read (objs.get (ctx, oid)) (fun bytes => bytes.take len) =
      (objs.answers faults ctx oid).direct.map fun bytes => bytes.take len := by
    simp only [Objects.answers, Objects.inCtx, radosCall]
    cases faults.read with
    | some code => rfl
    | none =>
      cases objs.get (ctx, oid) with
      | none => rfl
      | some bytes => rfl
  rw [← hr]
  rfl

lemma yields_nkvxObjFill {μ : Type} (faults : CallFaults) (objs : Objects) (ctx : IoCtx) (oid : Bytes)
    (cfg : WasmConfig) (alloc : Bool) (c : Cache μ) (objectLen : Nat) :
    ∃ got, Yields faults objs (Calls.nkvxObjFill cfg alloc c ctx oid objectLen) got ∧
      ∀ cap, fillAsks cfg alloc c oid objectLen = some cap →
        nkvxObjFill (objs.answers faults ctx oid) cap = got := by
  unfold Calls.nkvxObjFill
  cases fillAsks cfg alloc c oid objectLen with
  | none => exact ⟨_, rfl, nofun⟩
  | some cap =>
    refine ⟨_, (yields_read cap).bind (.pure _), ?_⟩
    rintro _ ⟨⟩
    rw [nkvxObjFill]
    change (objs.answers faults ctx oid).direct.map _ = _
    cases (objs.answers faults ctx oid).direct with
    | error e => rfl
    | ok bytes => simp [Except.map, List.take_take]

section Fill

variable {μ : Type}

lemma coldFill_asks (h : ∀ cap, fillAsks cfg alloc c oid objectLen = some cap → fill cap = got)
    (ha : cfg.available) (hk : oid ≠ []) (hm : c.Misses oid) :
    coldFill cfg alloc c oid objectLen (fun _ => got) = coldFill cfg alloc c oid objectLen fill := by
  unfold coldFill
  cases alloc with
  | false => rfl
  | true =>
    have hg := h _ (if_pos ⟨ha, hk, hm, rfl⟩)
    simp only [Bool.not_true, Bool.false_eq_true, if_false, hg]

lemma cacheFill_asks (h : ∀ cap, fillAsks cfg alloc c oid objectLen = some cap → fill cap = got) :
    cacheFill cfg alloc c oid objectLen (fun _ => got) = cacheFill cfg alloc c oid objectLen fill := by
  unfold cacheFill
  split
  · rfl
  next ha =>
  split
  · rfl
  next hk =>
  cases hm : (nkvxObjLookup c oid).filter ObjEntry.filled with
  | some o => rfl
  | none =>
    rw [coldFill_asks h (by simpa using ha) hk hm]

lemma runCached_asks {s : WasmState api} {env : RunEnv}
    (h : ∀ cap, fillAsks cfg env.objAlloc s.cache oid objectLen = some cap → fill cap = got) :
    runCached cfg env s name mod oid objectLen (fun _ => got) osize =
      runCached cfg env s name mod oid objectLen fill osize := by
  unfold runCached
  split
  · rfl
  next ha =>
  split
  · rfl
  next hk =>
  cases hm : (nkvxObjLookup s.cache oid).filter ObjEntry.filled with
  | some o => rfl
  | none =>
    rw [coldFill_asks h (by simpa using ha) hk hm]

end Fill

lemma yields_retrieveDirect (env : RetrieveEnv) (size osize : Nat) :
    Yields faults objs (Calls.retrieveDirect env.bufAlloc ctx oid size osize)
      (retrieveDirect env (objs.answers faults ctx oid) size osize) := by
  unfold Calls.retrieveDirect retrieveDirect
  dsimp only
  split
  · rfl
  split
  · rfl
  refine (yields_read _).bind ?_
  cases (objs.answers faults ctx oid).direct with
  | error e => cases e <;> rfl
  | ok bytes =>
    simp only [Except.map, List.take_take, Nat.min_self]
    rfl

section

variable (faults : CallFaults)

variable (objs : Objects)

variable (ctx : IoCtx)

lemma yields_retrieveRados (oid : Bytes) (env : RetrieveEnv)
    (s : WasmState api) (osize : Nat) : Yields faults objs (retrieveRados cfg env ctx s oid osize)
      (nkvxRetrieve cfg env (objs.answers faults ctx oid) s oid osize) := by
  unfold retrieveRados nkvxRetrieve
  cases cachePin s.cache oid with
  | mk cache pin =>
    cases pin with
    | some pin => rfl
    | none =>
      refine yields_stat.bind ?_
      cases (objs.answers faults ctx oid).stat with
      | error e => cases e <;> rfl
      | ok size =>
        obtain ⟨got, hg, ha⟩ := yields_nkvxObjFill faults objs ctx oid cfg env.objAlloc cache size
        refine hg.bind ?_
        dsimp only
        rw [cacheFill_asks ha]
        cases cacheFill cfg env.objAlloc cache oid size (nkvxObjFill (objs.answers faults ctx oid)) with
        | mk cache' status =>
          cases status
          case success =>
            dsimp only
            cases cachePin cache' oid with
            | mk cache'' pin =>
              cases pin with
              | some pin => rfl
              | none => exact (yields_retrieveDirect env size osize).bind (.pure _)
          all_goals exact (yields_retrieveDirect env size osize).bind (.pure _)

lemma storeWrite_run (oid : Bytes) (opAlloc : Bool)
    (flags : Nat) (value : Bytes) (len : Nat) :
    (storeWrite opAlloc ctx oid flags value len).run (clusterAnswer faults) objs =
      if (flagSinke flags || flagSike flags) && !opAlloc then (.ok none, objs)
      else
        match faults.write with
        | some code => (.ok (some (.error (.other code))), objs)
        | none =>
          if flagSinke flags && (objs.get (ctx, oid)).isSome then (.ok (some (.error .exist)), objs)
          else if !flagSinke flags && flagSike flags && (objs.get (ctx, oid)).isNone then
            (.ok (some (.error .noent)), objs)
          else (.ok (some (.ok ())), objs.insert (ctx, oid) (value.take len)) := by
  have hs : (if len = 0 then [] else value).take len = value.take len := by
    split
    · next h => simp [h]
    · rfl
  unfold storeWrite
  cases flagSinke flags <;> cases flagSike flags <;> cases opAlloc <;> cases hw : faults.write <;>
    cases hv : objs.get (ctx, oid) <;>
    simp [-bind_pure_comp, writeFull, writeOpOperate, perform_bind, run_call, clusterAnswer, Objects.write,
      Dict.contains, hw, hv, hs]

lemma remove_run (oid : Bytes) :
    (remove ctx oid).run (clusterAnswer faults) objs =
      match faults.write with
      | some code => (.ok (.error (.other code)), objs)
      | none =>
        if (objs.get (ctx, oid)).isNone then (.ok (.error .noent), objs)
        else (.ok (.ok ()), objs.erase (ctx, oid)) := by
  cases hw : faults.write <;> cases hv : objs.get (ctx, oid) <;>
    simp [remove, perform, run_call, clusterAnswer, Objects.write, Dict.contains, hw, hv]

def Refines (p : Calls (ExecutorState api × ExecResult))
    (r : Executor api × ExecResult) : Prop :=
  ∃ objs', p.run (clusterAnswer faults) objs = (.ok (⟨.rados ctx, r.1.wasm⟩, r.2), objs') ∧
    objs.SetsCtx ctx r.1.rados objs'

end

lemma Yields.refines {p : Calls (ExecutorState api × ExecResult)} {w : WasmState api} {res : ExecResult}
    (h : Yields faults objs p (⟨.rados ctx, w⟩, res)) : Refines faults objs ctx p (Executor.over w objs ctx, res) :=
  ⟨objs, h, objs.setsCtx_self ctx⟩

lemma refines_write {status : α → IoStatus} {objs' : Objects} (hr : p.run (clusterAnswer faults) objs = (.ok a, objs'))
    {ex : Executor api} (hw : ex.wasm = w) (hs : objs.SetsCtx ctx ex.rados objs') :
    Refines faults objs ctx (p >>= fun rc => pure (⟨.rados ctx, w⟩, .only (status rc))) (ex, .only (status a)) := by
  refine ⟨objs', ?_, hs⟩
  rw [run_bind, hr, hw]
  rfl

lemma store_calls_refine (env : Calls.KvAlloc) (oid : Bytes) :
    Refines faults objs ctx (Calls.nkvxStore env ⟨.rados ctx, w⟩ oid req)
      (nkvxStore env.opAlloc faults.toFaults (.over w objs ctx) oid req.toIn req.valueInline) := by
  have hf : req.toIn.storeFlags = req.storeFlags.toNat := rfl
  have hm : ((Executor.over w objs ctx).invalidate oid).rados oid = objs.get (ctx, oid) := rfl
  unfold Calls.nkvxStore nkvxStore
  dsimp only
  by_cases ho : req.readOnly ≠ 0
  · rw [if_pos ho, if_pos (KvMsg.toIn_readOnly.mpr ho)]
    exact Yields.refines rfl
  rw [if_neg ho, if_neg (mt KvMsg.toIn_readOnly.mp ho)]
  by_cases hn : req.valueLen.toNat > 0 ∧ req.valueInline = none
  · rw [if_pos hn, if_pos (show req.toIn.valueLen > 0 ∧ req.valueInline = none from hn)]
    exact Yields.refines rfl
  rw [if_neg hn, if_neg (show ¬ (req.toIn.valueLen > 0 ∧ req.valueInline = none) from hn), hf, hm]
  -- the obstacles of the write, in the order in which both sides meet them
  have hr := storeWrite_run faults objs ctx oid env.opAlloc req.storeFlags.toNat (req.valueInline.getD [])
    req.valueLen.toNat
  split at hr
  · next ha =>
    rw [if_pos ha]
    exact refines_write hr rfl (objs.setsCtx_self ctx)
  next ha =>
  rw [if_neg ha]
  cases hw : faults.write with
  | some code =>
    rw [hw] at hr
    rw [faults.toFaults_write, hw, if_pos Option.isSome_some]
    exact refines_write hr rfl (objs.setsCtx_self ctx)
  | none =>
    rw [hw] at hr
    rw [faults.toFaults_write, hw, Option.isSome_none, if_neg Bool.false_ne_true]
    dsimp only at hr
    split at hr
    · next he =>
      rw [if_pos he]
      exact refines_write hr rfl (objs.setsCtx_self ctx)
    next he =>
    rw [if_neg he]
    split at hr
    · next hs =>
      rw [if_pos hs]
      exact refines_write hr rfl (objs.setsCtx_self ctx)
    · next hs =>
      rw [if_neg hs]
      exact refines_write hr rfl (objs.setsCtx_insert ctx oid _)

lemma delete_calls_refine (oid : Bytes) : Refines faults objs ctx (Calls.nkvxDelete ⟨.rados ctx, w⟩ oid req)
      (nkvxDelete faults.toFaults (.over w objs ctx) oid req.toIn) := by
  have hm : ((Executor.over w objs ctx).invalidate oid).rados oid = objs.get (ctx, oid) := rfl
  unfold Calls.nkvxDelete nkvxDelete
  dsimp only
  by_cases ho : req.readOnly ≠ 0
  · rw [if_pos ho, if_pos (KvMsg.toIn_readOnly.mpr ho)]
    exact Yields.refines rfl
  rw [if_neg ho, if_neg (mt KvMsg.toIn_readOnly.mp ho), hm]
  have hr := remove_run faults objs ctx oid
  cases hw : faults.write with
  | some code =>
    rw [hw] at hr
    rw [faults.toFaults_write, hw, if_pos Option.isSome_some]
    exact ⟨objs, by rw [run_bind, hr]; rfl, objs.setsCtx_self ctx⟩
  | none =>
    rw [hw] at hr
    rw [faults.toFaults_write, hw, Option.isSome_none, if_neg Bool.false_ne_true]
    dsimp only at hr
    split at hr
    · next hs =>
      rw [if_pos hs]
      exact ⟨objs, by rw [run_bind, hr]; rfl, objs.setsCtx_self ctx⟩
    next hs =>
    rw [if_neg hs]
    exact ⟨_, by rw [run_bind, hr]; rfl, objs.setsCtx_erase ctx oid⟩

lemma exist_calls_refine (oid : Bytes) : Refines faults objs ctx (Calls.nkvxExist ⟨.rados ctx, w⟩ oid)
      (Executor.over w objs ctx, nkvxExist (objs.answers faults ctx oid)) := by
  refine Yields.refines (yields_stat.bind ?_)
  unfold nkvxExist
  cases (objs.answers faults ctx oid).stat with
  | error e => cases e <;> rfl
  | ok size => rfl

lemma Refines.ite {c c' : Prop} [Decidable c] [Decidable c'] {p q : Calls (ExecutorState api × ExecResult)}
    {r r' : Executor api × ExecResult} (hc : c ↔ c') (hp : Refines faults objs ctx p r)
    (hq : Refines faults objs ctx q r') : Refines faults objs ctx (if c then p else q) (if c' then r else r') := by
  by_cases h : c
  · rw [if_pos h, if_pos (hc.mp h)]
    exact hp
  rw [if_neg h, if_neg (mt hc.mpr h)]
  exact hq

lemma kv_calls_refine (faults : CallFaults) (objs : Objects) (ctx : IoCtx) (env : Calls.KvAlloc)
    (w : WasmState api) (req : KvMsg) (he : req.event env faults = some ev) :
    Refines faults objs ctx (nkvxExecutorKv cfg env ⟨.rados ctx, w⟩ req)
      ((Executor.over w objs ctx).handle cfg ev) := by
  have hi : Refines faults objs ctx (pure (⟨.rados ctx, w⟩, .only .invalid))
      (Executor.over w objs ctx, .only .invalid) := Yields.refines rfl
  unfold KvMsg.event at he
  unfold nkvxExecutorKv
  cases hv : KvVerb.ofByte req.verb with
  | list | invalid =>
    rw [hv] at he
    cases he
  | retrieve =>
    rw [hv] at he
    cases he
    refine .ite Iff.rfl hi ?_
    exact Yields.refines ((yields_retrieveRados faults objs ctx _ env.retrieve w req.osize.toNat).bind (.pure _))
  | store =>
    rw [hv] at he
    cases he
    exact .ite Iff.rfl hi (store_calls_refine env _)
  | delete =>
    rw [hv] at he
    cases he
    exact .ite Iff.rfl hi (delete_calls_refine _)
  | exist =>
    rw [hv] at he
    cases he
    exact .ite Iff.rfl hi (exist_calls_refine _)

end RadosNkv
