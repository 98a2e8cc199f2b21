import RadosNkv.Service.Request
import RadosNkv.Wasm.Run

/-! The executor backend over librados (`nkvx_executor.c`): Exec and the base verbs, all through the
wasm runtime's object cache. -/

namespace RadosNkv

inductive RadosErrno where
  | noent
  | exist
  | inval
  | other (code : Nat)
deriving DecidableEq

structure RadosAnswers where
  stat : Except RadosErrno Nat
  fill : Except RadosErrno Bytes
  direct : Except RadosErrno Bytes

def hexDigit (n : Nat) : UInt8 := UInt8.ofNat (if n < 10 then 48 + n else 87 + n)

def nkvxKeyToOid (key : Bytes) : Bytes :=
  key.flatMap fun b => [hexDigit (b.toNat / 16), hexDigit (b.toNat % 16)]

def nkvxResultSet (alloc : Bool) (status : IoStatus) (resultLen : Nat) (src : Bytes) (deliver : Nat) :
    ExecResult :=
  if deliver = 0 then ⟨status, resultLen, none⟩
  else if !alloc then ⟨.nomem, 0, none⟩
  else ⟨status, resultLen, some (src.take deliver)⟩

def ExecResult.only (status : IoStatus) : ExecResult := ⟨status, 0, none⟩

def fitStatus (len osize : Nat) : IoStatus := if len > osize then .bufferTooSmall else .success

def satU32 (n : Nat) : Nat := if n > 2 ^ 32 - 1 then 2 ^ 32 - 1 else n

def leU64 (n : Nat) : Bytes := (List.range 8).map fun i => UInt8.ofNat (n / 256 ^ i)

/-- `nkvx_run_builtin`. `input` is the buffer that `input_inline` points at. -/
def nkvxRunBuiltin (ans : RadosAnswers) (alloc : Bool) (req : ExecIn) (input : Option Bytes) :
    ExecResult :=
  let module := req.moduleKey.getD []
  if module = cstr ['i', 'n', 'p', 'u', 't', 'l', 'e', 'n'] then
    nkvxResultSet alloc (fitStatus 8 req.osize) 8 (leU64 req.inputLen) (min req.osize 8)
  else if module = cstr ['i', 'n', 'p', 'u', 't', 'e', 'c', 'h', 'o'] then
    let deliver := min req.osize req.inputLen
    if deliver = 0 then ⟨fitStatus req.inputLen req.osize, req.inputLen, none⟩
    else
      match input with
      | none => .only .invalid
      | some bytes =>
        if !alloc then .only .nomem
        else ⟨fitStatus req.inputLen req.osize, req.inputLen, some (bytes.take deliver)⟩
  else
    match ans.stat with
    | .error .noent => .only .keyNotExist
    | .error _ => .only .failed
    | .ok size =>
      if module = cstr ['b', 'y', 't', 'e', 'c', 'o', 'u', 'n', 't'] then
        nkvxResultSet alloc (fitStatus 8 req.osize) 8 (leU64 size) (min req.osize 8)
      else if module = cstr ['i', 'd', 'e', 'n', 't', 'i', 't', 'y'] then
        let deliver := min req.osize (satU32 size)
        if deliver = 0 then ⟨fitStatus size req.osize, satU32 size, none⟩
        else if !alloc then .only .nomem
        else
          match ans.direct with
          | .error .noent => .only .keyNotExist
          | .error _ => .only .failed
          | .ok bytes => ⟨fitStatus size req.osize, satU32 size, some (bytes.take deliver)⟩
      else .only .notSupported

def nkvxObjFill (ans : RadosAnswers) (cap : Nat) : Except RadosErrno Bytes :=
  ans.fill.map fun bytes => bytes.take cap

def moduleLocator (moduleNs : Bytes) : Option (Bytes × Option Bytes) :=
  match moduleNs.findIdx? (· = 47) with
  | some pl => if pl = 0 ∨ pl ≥ 256 then none else some (moduleNs.take pl, some (moduleNs.drop (pl + 1)))
  | none => if moduleNs.length ≥ 256 then none else some (moduleNs, none)

def nkvxFetchModule (stored : Except RadosErrno Bytes) (moduleNs : Bytes) : Except RadosErrno Bytes :=
  match moduleLocator moduleNs with
  | none => .error .inval
  | some _ => stored

structure ExecEnv where
  moduleObject : Except RadosErrno Bytes
  outAlloc : Bool
  resAlloc : Bool
  run : RunEnv

def runName (moduleKey : Bytes) : Bytes :=
  if moduleKey.take 5 = cstr ['w', 'a', 's', 'm', ':'] then moduleKey.drop 5 else moduleKey

variable {api : WasmApi}

section

variable (cfg : WasmConfig)

section

variable (env : ExecEnv)

/-- The binding check and the digest gate at the start of `nkvx_run_wasm`: the module to run, or the
status to answer. -/
def execGate (s : WasmState api) (req : ExecIn) :
    Except IoStatus ModSpec :=
  let moduleKey := req.moduleKey.getD []
  let moduleNs := req.moduleNs.getD []
  if !req.sha256Valid || moduleKey = [] || moduleNs = [] then .error .invalid
  else if runName moduleKey = [] then .error .invalid
  else if moduleCached s.mods req.sha256 then .ok ⟨req.sha256, none, req.caps, req.readOnly⟩
  else
    match nkvxFetchModule env.moduleObject moduleNs with
    | .error .noent => .error .invalid
    | .error _ => .error .failed
    | .ok bytes =>
      match moduleVerify api cfg req.sha256 bytes with
      | .success => .ok ⟨req.sha256, some bytes, req.caps, req.readOnly⟩
      | gate => .error gate

variable (ans : RadosAnswers)

/-- The object part of `nkvx_run_wasm`: a pinned run on a cache hit, `stat` and a cached run with a
cold fill on a miss. -/
def execRun (s : WasmState api) (oid : Bytes)
    (name : Bytes) (mod : ModSpec) (osize : Nat) : WasmState api × RunResult :=
  match cachePin s.cache oid with
  | (cache, some pin) =>
    let r := runPinned cfg env.run { s with cache } name (some mod) pin osize
    ({ r.1 with cache := cacheUnpin r.1.cache pin }, r.2)
  | (cache, none) =>
    let s := { s with cache }
    match ans.stat with
    | .error .noent => (s, .only .keyNotExist)
    | .error _ => (s, .only .failed)
    | .ok size => runCached cfg env.run s name (some mod) oid size (nkvxObjFill ans) osize

def nkvxRunWasm (s : WasmState api)
    (oid : Bytes) (req : ExecIn) : WasmState api × ExecResult :=
  match execGate cfg env s req with
  | .error status => (s, .only status)
  | .ok mod =>
    if req.osize > 0 && !env.outAlloc then (s, .only .nomem)
    else
      let r := execRun cfg env ans s oid (runName (req.moduleKey.getD [])) mod req.osize
      let deliver := min req.osize r.2.resultLen
      (r.1, ⟨r.2.status, r.2.resultLen, if deliver = 0 then none else some r.2.out⟩)

def nkvxExecutorRun (s : WasmState api)
    (req : ExecIn) (input : Option Bytes) : WasmState api × ExecResult :=
  if req.key = [] then (s, .only .invalid)
  else if req.runtime = .nkvx then
    if req.moduleNs = some (cstr ['n', 'k', 'v', 'x']) ∧ req.moduleKey.isSome then
      (s, nkvxRunBuiltin ans env.resAlloc req input)
    else nkvxRunWasm cfg env ans s (nkvxKeyToOid req.key) req
  else (s, .only .invalid)

end

def retrievePinned (alloc : Bool) (s : WasmState api) (pin : ObjPtr) (osize : Nat) :
    WasmState api × ExecResult :=
  let bytes := (pinObject s.cache pin).getD []
  let resultLen := satU32 bytes.length
  ({ s with cache := cacheUnpin s.cache pin },
    nkvxResultSet alloc (fitStatus resultLen osize) resultLen bytes (min osize resultLen))

structure RetrieveEnv where
  objAlloc : Bool
  resAlloc : Bool
  bufAlloc : Bool

/-- The direct read at the end of `nkvx_retrieve`, when the cache could not serve the object. -/
def retrieveDirect (env : RetrieveEnv) (ans : RadosAnswers) (size osize : Nat) : ExecResult :=
  let resultLen := satU32 size
  let deliver := min osize resultLen
  if deliver = 0 then ⟨fitStatus resultLen osize, resultLen, none⟩
  else if !env.bufAlloc then .only .nomem
  else
    match ans.direct with
    | .error .noent => .only .keyNotExist
    | .error _ => .only .failed
    | .ok bytes => ⟨fitStatus resultLen osize, resultLen, some (bytes.take deliver)⟩

def nkvxRetrieve (env : RetrieveEnv) (ans : RadosAnswers) (s : WasmState api)
    (oid : Bytes) (osize : Nat) : WasmState api × ExecResult :=
  match cachePin s.cache oid with
  | (cache, some pin) => retrievePinned env.resAlloc { s with cache } pin osize
  | (cache, none) =>
    let s := { s with cache }
    match ans.stat with
    | .error .noent => (s, .only .keyNotExist)
    | .error _ => (s, .only .failed)
    | .ok size =>
      match cacheFill cfg env.objAlloc s.cache oid size (nkvxObjFill ans) with
      | (cache, .success) =>
        match cachePin cache oid with
        | (cache, some pin) => retrievePinned env.resAlloc { s with cache } pin osize
        | (cache, none) => ({ s with cache }, retrieveDirect env ans size osize)
      | (cache, _) => ({ s with cache }, retrieveDirect env ans size osize)

structure Executor (api : WasmApi) where
  wasm : WasmState api
  rados : Bytes → Option Bytes

structure RadosFaults where
  stat : Option Nat
  fill : Option Nat
  direct : Option Nat
  write : Option Nat

def RadosFaults.none : RadosFaults := ⟨.none, .none, .none, .none⟩

def radosCall {α : Type} (fails : Option Nat) (value : Option Bytes) (f : Bytes → α) :
    Except RadosErrno α :=
  match fails with
  | some code => .error (.other code)
  | none =>
    match value with
    | none => .error .noent
    | some bytes => .ok (f bytes)

def Executor.answers (ex : Executor api) (faults : RadosFaults) (oid : Bytes) : RadosAnswers where
  stat := radosCall faults.stat (ex.rados oid) List.length
  fill := radosCall faults.fill (ex.rados oid) fun bytes => bytes
  direct := radosCall faults.direct (ex.rados oid) fun bytes => bytes

def Executor.write (ex : Executor api) (oid : Bytes) (value : Option Bytes) : Executor api :=
  { ex with rados := Function.update ex.rados oid value }

def Executor.invalidate (ex : Executor api) (oid : Bytes) : Executor api :=
  { ex with wasm := { ex.wasm with cache := cacheInvalidate ex.wasm.cache oid } }

def flagSike (flags : Nat) : Bool := flags.testBit 0
def flagSinke (flags : Nat) : Bool := flags.testBit 1

/-- `nkvx_store`. `value` is the buffer that `value_inline` points at. -/
def nkvxStore (opAlloc : Bool) (faults : RadosFaults) (ex : Executor api) (oid : Bytes) (req : KvIn)
    (value : Option Bytes) : Executor api × ExecResult :=
  if req.readOnly then (ex, .only .readOnly)
  else if req.valueLen > 0 ∧ value = none then (ex, .only .notSupported)
  else
    -- the cached version goes before the write, so no later request can hit it
    let ex := ex.invalidate oid
    let bytes := (value.getD []).take req.valueLen
    if (flagSinke req.storeFlags || flagSike req.storeFlags) && !opAlloc then (ex, .only .nomem)
    else if faults.write.isSome then (ex, .only .failed)
    else if flagSinke req.storeFlags && (ex.rados oid).isSome then (ex, .only .keyExist)
    else if !flagSinke req.storeFlags && flagSike req.storeFlags && (ex.rados oid).isNone then
      (ex, .only .keyNotExist)
    else (ex.write oid (some bytes), .only .success)

def nkvxDelete (faults : RadosFaults) (ex : Executor api) (oid : Bytes) (req : KvIn) :
    Executor api × ExecResult :=
  if req.readOnly then (ex, .only .readOnly)
  else
    let ex := ex.invalidate oid
    if faults.write.isSome then (ex, .only .failed)
    else if (ex.rados oid).isNone then (ex, .only .keyNotExist)
    else (ex.write oid none, .only .success)

def nkvxExist (ans : RadosAnswers) : ExecResult :=
  match ans.stat with
  | .error .noent => .only .keyNotExist
  | .error _ => .only .failed
  | .ok size => ⟨.success, satU32 size, none⟩

inductive ExecutorEvent where
  | exec (req : ExecIn) (input : Option Bytes) (env : ExecEnv) (faults : RadosFaults)
  | retrieve (req : KvIn) (env : RetrieveEnv) (faults : RadosFaults)
  | store (req : KvIn) (value : Option Bytes) (opAlloc : Bool) (faults : RadosFaults)
  | delete (req : KvIn) (faults : RadosFaults)
  | exist (req : KvIn) (faults : RadosFaults)

/-- `nkvx_executor_run` and `nkvx_executor_kv`: the state after a request and its result. -/
def Executor.handle (ex : Executor api) : ExecutorEvent → Executor api × ExecResult
  | .exec req input env faults =>
    let r := nkvxExecutorRun cfg env (ex.answers faults (nkvxKeyToOid req.key)) ex.wasm req input
    ({ ex with wasm := r.1 }, r.2)
  | .retrieve req env faults =>
    if req.key = [] then (ex, .only .invalid)
    else
      let oid := nkvxKeyToOid req.key
      let r := nkvxRetrieve cfg env (ex.answers faults oid) ex.wasm oid req.osize
      ({ ex with wasm := r.1 }, r.2)
  | .store req value opAlloc faults =>
    if req.key = [] then (ex, .only .invalid)
    else nkvxStore opAlloc faults ex (nkvxKeyToOid req.key) req value
  | .delete req faults =>
    if req.key = [] then (ex, .only .invalid)
    else nkvxDelete faults ex (nkvxKeyToOid req.key) req
  | .exist req faults =>
    if req.key = [] then (ex, .only .invalid)
    else (ex, nkvxExist (ex.answers faults (nkvxKeyToOid req.key)))

def Executor.step (ex : Executor api) (ev : ExecutorEvent) : Executor api :=
  if ex.wasm.cache.fault then ex else (ex.handle cfg ev).1

end

def Executor.init (api : WasmApi) (rados : Bytes → Option Bytes) : Executor api :=
  ⟨.init api, rados⟩

def Executor.after (api : WasmApi) (cfg : WasmConfig) (rados : Bytes → Option Bytes)
    (evs : List ExecutorEvent) : Executor api :=
  Machine.run (Executor.step cfg) (.init api rados) evs

end RadosNkv
