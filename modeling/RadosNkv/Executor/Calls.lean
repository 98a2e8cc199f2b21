import RadosNkv.Executor.MemBackend
import RadosNkv.Executor.Verbs
import RadosNkv.Library.Program
import RadosNkv.Wire.Codec

/-! The executor backend as programs of the calls it makes (`nkvx_executor.c`). -/

namespace RadosNkv

structure IoCtx where
  pool : Bytes
  ns : Bytes
deriving DecidableEq

inductive WriteGuard where
  | createExclusive
  | assertExists

/-- The calls. -/
inductive RadosOp where
  | ioctxCreate (pool : Bytes)
  | stat (ctx : IoCtx) (oid : Bytes)
  | read (ctx : IoCtx) (oid : Bytes) (len : Nat)
  | nobjectsList (ctx : IoCtx)
  | writeFull (ctx : IoCtx) (oid src : Bytes) (len : Nat)
  | writeOpOperate (ctx : IoCtx) (oid : Bytes) (guard : WriteGuard) (src : Bytes) (len : Nat)
  | remove (ctx : IoCtx) (oid : Bytes)
  | memcpy (src : Bytes) (len : Nat)

abbrev RadosOp.Resp : RadosOp → Type
  | .ioctxCreate _ => Except RadosErrno Unit
  | .stat _ _ => Except RadosErrno Nat
  | .read _ _ _ => Except RadosErrno Bytes
  | .nobjectsList _ => Except RadosErrno (List Bytes × RadosErrno)
  | .writeFull _ _ _ _ => Except RadosErrno Unit
  | .writeOpOperate _ _ _ _ _ => Except RadosErrno Unit
  | .remove _ _ => Except RadosErrno Unit
  | .memcpy _ _ => Bytes

abbrev Calls (α : Type) := Prog RadosOp RadosOp.Resp Empty α

namespace Calls

def ioctxCreate (pool : Bytes) : Calls (Except RadosErrno Unit) := Prog.perform (RadosOp.ioctxCreate pool)

section

variable (ctx : IoCtx)

def stat (oid : Bytes) : Calls (Except RadosErrno Nat) := Prog.perform (RadosOp.stat ctx oid)

def read (oid : Bytes) (len : Nat) : Calls (Except RadosErrno Bytes) :=
  Prog.perform (RadosOp.read ctx oid len)

def nobjectsList : Calls (Except RadosErrno (List Bytes × RadosErrno)) :=
  Prog.perform (RadosOp.nobjectsList ctx)

def writeFull (oid src : Bytes) (len : Nat) : Calls (Except RadosErrno Unit) :=
  Prog.perform (RadosOp.writeFull ctx oid src len)

def writeOpOperate (oid : Bytes) (guard : WriteGuard) (src : Bytes) (len : Nat) :
    Calls (Except RadosErrno Unit) :=
  Prog.perform (RadosOp.writeOpOperate ctx oid guard src len)

def remove (oid : Bytes) : Calls (Except RadosErrno Unit) := Prog.perform (RadosOp.remove ctx oid)

end

def memcpy (src : Bytes) (len : Nat) : Calls Bytes := Prog.perform (RadosOp.memcpy src len)

end Calls

inductive Backend where
  | rados (ctx : IoCtx)
  | mem (store : MemStore)

structure ExecutorState (api : WasmApi) where
  backend : Backend
  wasm : WasmState api

namespace Calls

def nkvxRunBuiltin (ctx : IoCtx) (oid : Bytes) (alloc : Bool) (req : ExecMsg) : Calls ExecResult :=
  let module := req.moduleKey.getD []
  let osize := req.osize.toNat
  let inputLen := req.inputLen.toNat
  if module = cstr ['i', 'n', 'p', 'u', 't', 'l', 'e', 'n'] then
    pure (nkvxResultSet alloc (fitStatus 8 osize) 8 (leU64 inputLen) (min osize 8))
  else if module = cstr ['i', 'n', 'p', 'u', 't', 'e', 'c', 'h', 'o'] then
    let deliver := min osize inputLen
    if deliver = 0 then pure ⟨fitStatus inputLen osize, inputLen, none⟩
    else
      match req.inputInline with
      | none => pure (.only .invalid)
      | some input =>
        if !alloc then pure (.only .nomem)
        else do
          let buf ← memcpy input deliver
          pure ⟨fitStatus inputLen osize, inputLen, some buf⟩
  else do
    match ← stat ctx oid with
    | .error .noent => pure (.only .keyNotExist)
    | .error _ => pure (.only .failed)
    | .ok size =>
      if module = cstr ['b', 'y', 't', 'e', 'c', 'o', 'u', 'n', 't'] then
        pure (nkvxResultSet alloc (fitStatus 8 osize) 8 (leU64 size) (min osize 8))
      else if module = cstr ['i', 'd', 'e', 'n', 't', 'i', 't', 'y'] then
        let deliver := min osize (satU32 size)
        if deliver = 0 then pure ⟨fitStatus size osize, satU32 size, none⟩
        else if !alloc then pure (.only .nomem)
        else do
          match ← read ctx oid deliver with
          | .error .noent => pure (.only .keyNotExist)
          | .error _ => pure (.only .failed)
          | .ok bytes => pure ⟨fitStatus size osize, satU32 size, some (bytes.take deliver)⟩
      else pure (.only .notSupported)

structure ExecAlloc where
  fetchAlloc : Bool
  outAlloc : Bool
  resAlloc : Bool
  run : RunEnv

def nkvxFetchModule (alloc : Bool) (moduleNs moduleKey : Bytes) : Calls (Except RadosErrno Bytes) :=
  match moduleLocator moduleNs with
  | none => pure (.error .inval)
  | some (pool, ns) => do
    match ← ioctxCreate pool with
    | .error e => pure (.error e)
    | .ok () =>
      let mctx : IoCtx := ⟨pool, ns.getD []⟩
      match ← stat mctx moduleKey with
      | .error e => pure (.error e)
      | .ok size =>
        if !alloc then pure (.error (.other 12))
        else do
          let got ← read mctx moduleKey size
          pure (got.map fun bytes => bytes.take size)

variable {api : WasmApi}

/-- The binding check and the digest gate at the start of `nkvx_run_wasm`. -/
def execGate (cfg : WasmConfig) (alloc : Bool) (s : WasmState api) (req : ExecMsg) :
    Calls (Except IoStatus ModSpec) :=
  let moduleKey := req.moduleKey.getD []
  let moduleNs := req.moduleNs.getD []
  let caps := req.caps.toNat
  let readOnly := req.readOnly != 0
  if req.sha256Valid = 0 ∨ moduleKey = [] ∨ moduleNs = [] then pure (.error .invalid)
  else if runName moduleKey = [] then pure (.error .invalid)
  else if moduleCached s.mods req.sha256 then pure (.ok ⟨req.sha256, none, caps, readOnly⟩)
  else do
    match ← nkvxFetchModule alloc moduleNs moduleKey with
    | .error .noent => pure (.error .invalid)
    | .error _ => pure (.error .failed)
    | .ok bytes =>
      match moduleVerify api cfg req.sha256 bytes with
      | .success => pure (.ok ⟨req.sha256, some bytes, caps, readOnly⟩)
      | gate => pure (.error gate)

def fillAsks {μ : Type} (cfg : WasmConfig) (alloc : Bool) (c : Cache μ) (objKey : Bytes) (objectLen : Nat) :
    Option Nat :=
  if cfg.available ∧ objKey ≠ [] ∧ (nkvxObjLookup c objKey).filter ObjEntry.filled = none ∧ alloc then
    some (backing objectLen - wasmObjOff)
  else none

def nkvxObjFill {μ : Type} (cfg : WasmConfig) (alloc : Bool) (c : Cache μ) (ctx : IoCtx) (oid : Bytes)
    (objectLen : Nat) : Calls (Except RadosErrno Bytes) :=
  match fillAsks cfg alloc c oid objectLen with
  | none => pure (.error .inval)
  | some cap => do
    let got ← read ctx oid cap
    pure (got.map fun bytes => bytes.take cap)

variable (cfg : WasmConfig)

/-- The object part of `nkvx_run_wasm`. -/
def execRun (env : RunEnv) (ctx : IoCtx) (s : WasmState api) (oid name : Bytes)
    (mod : ModSpec) (osize : Nat) : Calls (WasmState api × RunResult) :=
  match cachePin s.cache oid with
  | (cache, some pin) =>
    let r := runPinned cfg env { s with cache } name (some mod) pin osize
    pure ({ r.1 with cache := cacheUnpin r.1.cache pin }, r.2)
  | (cache, none) => do
    let s := { s with cache }
    match ← stat ctx oid with
    | .error .noent => pure (s, .only .keyNotExist)
    | .error _ => pure (s, .only .failed)
    | .ok size => do
      let got ← nkvxObjFill cfg env.objAlloc s.cache ctx oid size
      pure (runCached cfg env s name (some mod) oid size (fun _ => got) osize)

def nkvxRunWasm (env : ExecAlloc) (ctx : IoCtx) (s : WasmState api) (oid : Bytes)
    (req : ExecMsg) : Calls (WasmState api × ExecResult) := do
  match ← execGate cfg env.fetchAlloc s req with
  | .error status => pure (s, .only status)
  | .ok mod =>
    let osize := req.osize.toNat
    if osize > 0 && !env.outAlloc then pure (s, .only .nomem)
    else do
      let r ← execRun cfg env.run ctx s oid (runName (req.moduleKey.getD [])) mod osize
      let deliver := min osize r.2.resultLen
      pure (r.1, ⟨r.2.status, r.2.resultLen, if deliver = 0 then none else some r.2.out⟩)

def runtimeNkvx : UInt8 := 1

def nkvxExecutorRun (env : ExecAlloc) (ctx : IoCtx) (s : WasmState api) (req : ExecMsg) :
    Calls (WasmState api × ExecResult) :=
  let oid := nkvxKeyToOid req.key.val
  if req.key.val = [] then pure (s, .only .invalid)
  else if req.runtime = runtimeNkvx then
    if req.moduleNs = some (cstr ['n', 'k', 'v', 'x']) ∧ req.moduleKey.isSome then do
      let res ← nkvxRunBuiltin ctx oid env.resAlloc req
      pure (s, res)
    else nkvxRunWasm cfg env ctx s oid req
  else pure (s, .only .invalid)

structure KvAlloc where
  retrieve : RetrieveEnv
  opAlloc : Bool
  putAlloc : Bool
  listAlloc : Bool

section

variable (alloc : Bool)

def retrieveBytes (bytes : Bytes) (osize : Nat) : ExecResult :=
  let resultLen := satU32 bytes.length
  nkvxResultSet alloc (fitStatus resultLen osize) resultLen bytes (min osize resultLen)

/-- The direct read at the end of `nkvx_retrieve`. -/
def retrieveDirect (ctx : IoCtx) (oid : Bytes) (size osize : Nat) : Calls ExecResult :=
  let resultLen := satU32 size
  let deliver := min osize resultLen
  if deliver = 0 then pure ⟨fitStatus resultLen osize, resultLen, none⟩
  else if !alloc then pure (.only .nomem)
  else do
    match ← read ctx oid deliver with
    | .error .noent => pure (.only .keyNotExist)
    | .error _ => pure (.only .failed)
    | .ok bytes => pure ⟨fitStatus resultLen osize, resultLen, some (bytes.take deliver)⟩

/-- `nkvx_retrieve` over librados. -/
def retrieveRados (env : RetrieveEnv) (ctx : IoCtx) (s : WasmState api) (oid : Bytes)
    (osize : Nat) : Calls (WasmState api × ExecResult) :=
  match cachePin s.cache oid with
  | (cache, some pin) => pure (retrievePinned env.resAlloc { s with cache } pin osize)
  | (cache, none) => do
    let s := { s with cache }
    match ← stat ctx oid with
    | .error .noent => pure (s, .only .keyNotExist)
    | .error _ => pure (s, .only .failed)
    | .ok size => do
      let got ← nkvxObjFill cfg env.objAlloc s.cache ctx oid size
      match cacheFill cfg env.objAlloc s.cache oid size (fun _ => got) with
      | (cache, .success) =>
        match cachePin cache oid with
        | (cache, some pin) => pure (retrievePinned env.resAlloc { s with cache } pin osize)
        | (cache, none) => do
          let res ← retrieveDirect env.bufAlloc ctx oid size osize
          pure ({ s with cache }, res)
      | (cache, _) => do
        let res ← retrieveDirect env.bufAlloc ctx oid size osize
        pure ({ s with cache }, res)

def nkvxRetrieve (env : RetrieveEnv) (ex : ExecutorState api) (oid : Bytes) (req : KvMsg) :
    Calls (ExecutorState api × ExecResult) :=
  match ex.backend with
  | .mem store =>
    match nkvxMemFind store oid with
    | none => pure (ex, .only .keyNotExist)
    | some value => pure (ex, retrieveBytes env.resAlloc value req.osize.toNat)
  | .rados ctx => do
    let r ← retrieveRados cfg env ctx ex.wasm oid req.osize.toNat
    pure ({ ex with wasm := r.1 }, r.2)

def invalidate (ex : ExecutorState api) (oid : Bytes) : ExecutorState api :=
  { ex with wasm := { ex.wasm with cache := cacheInvalidate ex.wasm.cache oid } }

inductive PutError where
  | inval
  | nomem
  | nospc

def memCopy (value : Bytes) (len : Nat) : Calls Bytes := if len > 0 then memcpy value len else pure []

def nkvxExecutorMemPut (store : MemStore) (oid value : Bytes) (len : Nat) :
    Calls (Except PutError MemStore) :=
  if oid.length ≥ memOidSize then pure (.error .inval)
  else if !alloc then pure (.error .nomem)
  else do
    let copy ← memCopy value len
    match store.put oid copy with
    | none => pure (.error .nospc)
    | some store => pure (.ok store)

/-- The in-memory arm of `nkvx_store`. -/
def storeMem (ex : ExecutorState api) (store : MemStore) (oid : Bytes) (flags : Nat)
    (value : Bytes) (len : Nat) : Calls (ExecutorState api × ExecResult) :=
  if flagSinke flags && (nkvxMemFind store oid).isSome then pure (ex, .only .keyExist)
  else if flagSike flags && (nkvxMemFind store oid).isNone then pure (ex, .only .keyNotExist)
  else do
    match ← nkvxExecutorMemPut alloc store oid value len with
    | .error .nospc => pure (ex, .only .nomem)
    | .error _ => pure (ex, .only .failed)
    | .ok store => pure (invalidate { ex with backend := .mem store } oid, .only .success)

/-- The write of `nkvx_store`: conditional through a write operation, unconditional otherwise. -/
def storeWrite (opAlloc : Bool) (ctx : IoCtx) (oid : Bytes) (flags : Nat) (value : Bytes) (len : Nat) :
    Calls (Option (Except RadosErrno Unit)) :=
  let src := if len = 0 then [] else value
  if flagSinke flags || flagSike flags then
    if !opAlloc then pure none
    else do
      let rc ← writeOpOperate ctx oid (if flagSinke flags then .createExclusive else .assertExists) src len
      pure (some rc)
  else do
    let rc ← writeFull ctx oid src len
    pure (some rc)

def writeStatus : Option (Except RadosErrno Unit) → IoStatus
  | none => .nomem
  | some (.error .exist) => .keyExist
  | some (.error .noent) => .keyNotExist
  | some (.error _) => .failed
  | some (.ok ()) => .success

def nkvxStore (env : KvAlloc) (ex : ExecutorState api) (oid : Bytes) (req : KvMsg) :
    Calls (ExecutorState api × ExecResult) :=
  let flags := req.storeFlags.toNat
  let len := req.valueLen.toNat
  if req.readOnly ≠ 0 then pure (ex, .only .readOnly)
  else if len > 0 ∧ req.valueInline = none then pure (ex, .only .notSupported)
  else
    match ex.backend with
    | .mem store => storeMem env.putAlloc ex store oid flags (req.valueInline.getD []) len
    | .rados ctx => do
      -- the cached version goes before the write, so no later request can hit it
      let ex := invalidate ex oid
      let rc ← storeWrite env.opAlloc ctx oid flags (req.valueInline.getD []) len
      pure (ex, .only (writeStatus rc))

variable (ex : ExecutorState api)

def nkvxDelete (oid : Bytes) (req : KvMsg) : Calls (ExecutorState api × ExecResult) :=
  if req.readOnly ≠ 0 then pure (ex, .only .readOnly)
  else
    match ex.backend with
    | .mem store =>
      let r := nkvxMemDel store oid
      pure (invalidate { ex with backend := .mem r.1 } oid, .only (if r.2 then .success else .keyNotExist))
    | .rados ctx => do
      let ex := invalidate ex oid
      match ← remove ctx oid with
      | .error .noent => pure (ex, .only .keyNotExist)
      | .error _ => pure (ex, .only .failed)
      | .ok () => pure (ex, .only .success)

def nkvxExist (oid : Bytes) : Calls (ExecutorState api × ExecResult) :=
  match ex.backend with
  | .mem store =>
    match nkvxMemFind store oid with
    | none => pure (ex, .only .keyNotExist)
    | some value => pure (ex, ⟨.success, satU32 value.length, none⟩)
  | .rados ctx => do
    match ← stat ctx oid with
    | .error .noent => pure (ex, .only .keyNotExist)
    | .error _ => pure (ex, .only .failed)
    | .ok size => pure (ex, ⟨.success, satU32 size, none⟩)

def nkvxListNrkSize : Nat := 4

def nkvxListEntrySize (keyLen : Nat) : Nat := (2 + keyLen + 3) / 4 * 4

def hexValue (c : UInt8) : Option Nat :=
  if 48 ≤ c.toNat ∧ c.toNat ≤ 57 then some (c.toNat - 48)
  else if 97 ≤ c.toNat ∧ c.toNat ≤ 102 then some (c.toNat - 97 + 10)
  else none

def unhex : Bytes → Option Bytes
  | [] => some []
  | [_] => none
  | hi :: lo :: rest => do
    let h ← hexValue hi
    let l ← hexValue lo
    let key ← unhex rest
    pure (UInt8.ofNat (h * 16 + l) :: key)

def nkvxOidToKey (oid : Bytes) : Option Bytes :=
  if oid = [] ∨ oid.length / 2 > 255 then none else unhex oid

def leBytes (w n : Nat) : Bytes := (List.range w).map fun i => UInt8.ofNat (n / 256 ^ i)

def nkvxListEmit (cap : Nat) (body key : Bytes) : Option Bytes :=
  let entry := nkvxListEntrySize key.length
  if (nkvxListNrkSize + body.length + entry) % 2 ^ 32 > cap then none
  else some (body ++ leBytes 2 key.length ++ key ++ List.replicate (entry - 2 - key.length) 0)

structure Listing where
  started : Bool
  body : Bytes
  nrk : Nat
  fullLen : Nat
  overflow : Bool

/-- A round of the loop: both backends make the same rounds over their oids. -/
def listRound (cap : Nat) (startOid : Bytes) (acc : Listing) (oid : Bytes) : Listing :=
  if !acc.started ∧ oid < startOid then acc
  else
    match nkvxOidToKey oid with
    | none => { acc with started := true }
    | some key =>
      let fullLen := (acc.fullLen + nkvxListEntrySize key.length) % 2 ^ 32
      match if acc.overflow then none else nkvxListEmit cap acc.body key with
      | some body => { acc with started := true, fullLen, body, nrk := acc.nrk + 1 }
      | none => { acc with started := true, fullLen, overflow := true }

def listResult (req : KvMsg) (oids : List Bytes) : ExecResult :=
  let osize := req.osize.toNat
  let start : Listing := ⟨req.key.val = [], [], 0, nkvxListNrkSize, false⟩
  let acc := oids.foldl (listRound (max osize nkvxListNrkSize) (nkvxKeyToOid req.key.val)) start
  ⟨fitStatus acc.fullLen osize, acc.fullLen, some (leBytes nkvxListNrkSize acc.nrk ++ acc.body)⟩

def nkvxList (req : KvMsg) : Calls (ExecutorState api × ExecResult) :=
  if !alloc then pure (ex, .only .nomem)
  else
    match ex.backend with
    | .mem store =>
      -- the sort is made on the table itself
      pure ({ ex with backend := .mem store.sorted }, listResult req store.sorted.objs.keys)
    | .rados ctx => do
      match ← nobjectsList ctx with
      | .error _ => pure (ex, .only .failed)
      | .ok (oids, last) => pure (ex, if last = .noent then listResult req oids else .only .failed)

end

def nkvxExecutorKv (env : KvAlloc) (ex : ExecutorState api) (req : KvMsg) :
    Calls (ExecutorState api × ExecResult) :=
  let oid := nkvxKeyToOid req.key.val
  match KvVerb.ofByte req.verb with
  | .retrieve => if req.key.val = [] then pure (ex, .only .invalid) else nkvxRetrieve cfg env.retrieve ex oid req
  | .store => if req.key.val = [] then pure (ex, .only .invalid) else nkvxStore env ex oid req
  | .delete => if req.key.val = [] then pure (ex, .only .invalid) else nkvxDelete ex oid req
  | .exist => if req.key.val = [] then pure (ex, .only .invalid) else nkvxExist ex oid
  | .list => nkvxList env.listAlloc ex req
  | .invalid => pure (ex, .only .invalid)

end Calls

end RadosNkv
