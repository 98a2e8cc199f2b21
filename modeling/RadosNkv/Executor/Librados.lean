import RadosNkv.Executor.Calls

/-! The executor over RADOS: what librados promises of its calls, and the executor serving one
request after the other against it. -/

namespace RadosNkv

def RadosOp.Mutates : RadosOp → Prop
  | .writeFull _ _ _ _ | .writeOpOperate _ _ _ _ _ | .remove _ _ => True
  | .ioctxCreate _ | .stat _ _ | .read _ _ _ | .nobjectsList _ | .memcpy _ _ => False

structure Librados where
  State : Type
  answer : Prog.Handler RadosOp RadosOp.Resp Empty State
  /-- The objects of every pool and namespace. -/
  objects : State → IoCtx → Bytes → Option Bytes
  objects_answer : ∀ {op}, ¬ op.Mutates → ∀ s, objects (answer op s).2 = objects s

inductive Request where
  | kv (req : KvMsg) (env : Calls.KvAlloc)
  | exec (req : ExecMsg) (env : Calls.ExecAlloc)

def Request.readOnly : Request → UInt8
  | .kv req _ => req.readOnly
  | .exec req _ => req.readOnly

structure Node (api : WasmApi) (lib : Librados) where
  executor : ExecutorState api
  rados : lib.State

variable {api : WasmApi} {lib : Librados}

def serveRequest (cfg : WasmConfig) (ex : ExecutorState api) : Request → Calls (ExecutorState api × ExecResult)
  | .kv req env => Calls.nkvxExecutorKv cfg env ex req
  | .exec req env =>
    match ex.backend with
    | .rados ctx => do
      let r ← Calls.nkvxExecutorRun cfg env ctx ex.wasm req
      pure ({ ex with wasm := r.1 }, r.2)
    -- the in-memory backend has no context to stat or read with: Exec has no defined result there
    | .mem _ => pure (ex, .only .failed)

def Node.step (cfg : WasmConfig) (n : Node api lib) (req : Request) : Node api lib :=
  if n.executor.wasm.cache.fault then n
  else
    match (serveRequest cfg n.executor req).run lib.answer n.rados with
    | (.ok r, rados) => ⟨r.1, rados⟩
    | (.error e, _) => nomatch e

def Node.after (cfg : WasmConfig) (n : Node api lib) (reqs : List Request) : Node api lib :=
  Machine.run (Node.step cfg) n reqs

structure CallFaults where
  stat : Option Nat
  read : Option Nat
  write : Option Nat

def CallFaults.none : CallFaults := ⟨.none, .none, .none⟩

abbrev Objects := Dict (IoCtx × Bytes) Bytes

def Objects.write (objs : Objects) (fails : Option Nat) (refused : Option RadosErrno) (f : Objects → Objects) :
    Except RadosErrno Unit × Objects :=
  match fails, refused with
  | some code, _ => (.error (.other code), objs)
  | none, some e => (.error e, objs)
  | none, none => (.ok (), f objs)

/-- Each call as a whole, on the objects. -/
def clusterAnswer (faults : CallFaults) : Prog.Handler RadosOp RadosOp.Resp Empty Objects
  | .ioctxCreate _, objs => (.ok (.ok ()), objs)
  | .stat ctx oid, objs => (.ok (radosCall faults.stat (objs.get (ctx, oid)) List.length), objs)
  | .read ctx oid len, objs => (.ok (radosCall faults.read (objs.get (ctx, oid)) fun bytes => bytes.take len), objs)
  | .nobjectsList ctx, objs => (.ok (.ok ((objs.keys.filter fun k => k.1 = ctx).map Prod.snd, .noent)), objs)
  | .writeFull ctx oid src len, objs =>
    let r := objs.write faults.write none fun objs => objs.insert (ctx, oid) (src.take len)
    (.ok r.1, r.2)
  | .writeOpOperate ctx oid guard src len, objs =>
    let refused := match guard with
      | .createExclusive => if objs.contains (ctx, oid) then some RadosErrno.exist else none
      | .assertExists => if objs.contains (ctx, oid) then none else some RadosErrno.noent
    let r := objs.write faults.write refused fun objs => objs.insert (ctx, oid) (src.take len)
    (.ok r.1, r.2)
  | .remove ctx oid, objs =>
    let r := objs.write faults.write (if objs.contains (ctx, oid) then none else some .noent) fun objs =>
      objs.erase (ctx, oid)
    (.ok r.1, r.2)
  | .memcpy src len, objs => (.ok (src.take len), objs)

def cluster (faults : CallFaults) : Librados where
  State := Objects
  answer := clusterAnswer faults
  objects := fun objs ctx oid => objs.get (ctx, oid)
  objects_answer := by
    intro op hop objs
    cases op with
    | writeFull | writeOpOperate | remove => exact absurd trivial hop
    | _ => rfl

end RadosNkv
