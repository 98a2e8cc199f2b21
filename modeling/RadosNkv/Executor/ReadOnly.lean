import RadosNkv.Executor.Librados
import RadosNkv.Executor.MayCall

/-! Read-only enforcement at the executor: requests with the read-only bit change no object,
whatever librados answers, and an unknown verb changes nothing. -/

namespace RadosNkv

variable {api : WasmApi} {lib : Librados} {cfg : WasmConfig}

lemma ExecMsg.MayCall.not_mutates {req : ExecMsg} (h : req.MayCall op) : ¬ op.Mutates := by
  cases op with
  | writeFull | writeOpOperate | remove => exact fun _ => h
  | _ => exact id

variable {req : KvMsg}

lemma KvMsg.MayCall.not_mutates (hr : req.readOnly ≠ 0) (h : req.MayCall op) : ¬ op.Mutates := by
  cases op with
  | writeFull | writeOpOperate => exact absurd h.1 hr
  | remove => exact absurd h hr
  | _ => exact id

lemma serveRequest_not_mutates {req : Request} (hr : req.readOnly ≠ 0) (ex : ExecutorState api) :
    (serveRequest cfg ex req).Uses fun op => ¬ op.Mutates := by
  cases req with
  | kv req env => exact (Calls.nkvxExecutorKv_mayCall ..).mono fun _ h => h.not_mutates hr
  | exec req env =>
    unfold serveRequest
    dsimp only
    split
    · exact ((Calls.nkvxExecutorRun_mayCall ..).mono fun _ h => h.not_mutates).bind fun _ => trivial
    · trivial

lemma rados_step (cfg : WasmConfig) (n : Node api lib) (req : Request) : (n.step cfg req).rados = n.rados ∨
      (n.step cfg req).rados = ((serveRequest cfg n.executor req).run lib.answer n.rados).2 := by
  unfold Node.step
  split
  · exact .inl rfl
  right
  cases hr : (serveRequest cfg n.executor req).run lib.answer n.rados with
  | mk r rados =>
    cases r with
    | ok r => rfl
    | error e => exact nomatch e

lemma objects_step {req : Request} (hr : req.readOnly ≠ 0) (n : Node api lib) :
    lib.objects (n.step cfg req).rados = lib.objects n.rados := by
  rcases rados_step cfg n req with he | he
  · rw [he]
  rw [he]
  exact (serveRequest_not_mutates hr n.executor).run_keeps (I := fun s => lib.objects s = lib.objects n.rados)
    lib.answer (fun op s ho hs => (lib.objects_answer ho s).trans hs) rfl

variable {ex : ExecutorState api}

lemma step_of_pure {n : Node api lib} {req : Request}
    (h : serveRequest cfg n.executor req = pure (ex, res)) :
    n.step cfg req = n ∨ n.step cfg req = ⟨ex, n.rados⟩ := by
  unfold Node.step
  split
  · exact .inl rfl
  right
  rw [h]
  rfl

def LeavesMem (m : Bytes → Option Bytes) (p : Calls (ExecutorState api × ExecResult)) : Prop :=
  ∃ ex res store, p = pure (ex, res) ∧ ex.backend = .mem store ∧ store.get = m

lemma nkvxExecutorKv_leavesMem (hr : req.readOnly ≠ 0) (cfg : WasmConfig) (env : Calls.KvAlloc)
    (hm : ex.backend = .mem store) :
    LeavesMem store.get (Calls.nkvxExecutorKv cfg env ex req) := by
  have hs : ∀ res, LeavesMem store.get (pure (ex, res)) := fun res => ⟨ex, res, store, rfl, hm, rfl⟩
  unfold Calls.nkvxExecutorKv
  split
  · split
    · exact hs _
    unfold Calls.nkvxRetrieve
    rw [hm]
    dsimp only
    split <;> exact hs _
  · split
    · exact hs _
    rw [Calls.nkvxStore, if_pos hr]
    exact hs _
  · split
    · exact hs _
    rw [Calls.nkvxDelete, if_pos hr]
    exact hs _
  · split
    · exact hs _
    unfold Calls.nkvxExist
    rw [hm]
    dsimp only
    split <;> exact hs _
  · unfold Calls.nkvxList
    split
    · exact hs _
    -- List sorts the table in place
    rw [hm]
    exact ⟨_, _, store.sorted, rfl, rfl, store.get_sorted⟩
  · exact hs _

def Node.Holds (m : Bytes → Option Bytes) (n : Node api lib) : Prop :=
  ∃ store, n.executor.backend = .mem store ∧ store.get = m

lemma holds_step {n : Node api lib} (hr : req.readOnly ≠ 0) (env : Calls.KvAlloc) (h : n.Holds m) :
    (n.step cfg (.kv req env)).Holds m := by
  obtain ⟨store, hm, hg⟩ := h
  obtain ⟨ex', res, store', hp, hm', hg'⟩ := nkvxExecutorKv_leavesMem hr cfg env hm
  have hs : serveRequest cfg n.executor (.kv req env) = pure (ex', res) := hp
  rcases step_of_pure hs with he | he
  · rw [he]
    exact ⟨store, hm, hg⟩
  rw [he]
  exact ⟨store', hm', hg'.trans hg⟩

lemma ofByte_unknown (h : verb = 0 ∨ 5 < verb) : KvVerb.ofByte verb = .invalid := by
  rcases h with rfl | h
  · rfl
  have hn : ∀ k : UInt8, k ≤ 5 → ¬ verb = k := by
    rintro k hk rfl
    exact UInt8.not_lt.mpr hk h
  rw [KvVerb.ofByte, if_neg (hn 1 (by decide)), if_neg (hn 2 (by decide)), if_neg (hn 3 (by decide)),
    if_neg (hn 4 (by decide)), if_neg (hn 5 (by decide))]

lemma step_unknown_verb (h : req.verb = 0 ∨ 5 < req.verb) (env : Calls.KvAlloc) (n : Node api lib) :
    n.step cfg (.kv req env) = n := by
  have hp : serveRequest cfg n.executor (.kv req env) = pure (n.executor, .only .invalid) := by
    rw [serveRequest, Calls.nkvxExecutorKv, ofByte_unknown h]
  rcases step_of_pure hp with he | he
  · exact he
  · exact he

/-- A sequence of requests that all carry the read-only bit leaves every RADOS object as it was,
base verbs among them also the map of the in-memory backend, and a request with an unknown verb
leaves everything. -/
theorem read_only_requests_keep_store (cfg : WasmConfig) (n : Node api lib) :
    (∀ reqs : List Request, (∀ r ∈ reqs, r.readOnly ≠ 0) →
      lib.objects (n.after cfg reqs).rados = lib.objects n.rados) ∧
    (∀ (m : Bytes → Option Bytes) (reqs : List (KvMsg × Calls.KvAlloc)),
      (∀ r ∈ reqs, r.1.readOnly ≠ 0) →
      n.Holds m → (n.after cfg (reqs.map fun r => .kv r.1 r.2)).Holds m) ∧
    ∀ (req : KvMsg) (env : Calls.KvAlloc), (req.verb = 0 ∨ 5 < req.verb) → n.step cfg
      (.kv req env) = n := by
  refine ⟨fun reqs hro => ?_, fun m reqs hro hheld => ?_, fun req env hverb => step_unknown_verb hverb env n⟩
  · exact Machine.run_induct_along (P := fun n' => lib.objects n'.rados = lib.objects n.rados)
      (Node.step cfg) rfl (fun n' req hn' hreq => (objects_step hreq n').trans hn') (Machine.along_of_forall _ hro)
  unfold Node.after
  induction reqs generalizing n with
  | nil => exact hheld
  | cons r reqs ih =>
    exact ih _ (fun r' hr' => hro r' (List.mem_cons_of_mem _ hr'))
      (holds_step (hro r (List.mem_cons_self ..)) r.2 hheld)

def dataPool : IoCtx := ⟨[100], []⟩

def onePool : Objects := Dict.empty.insert (dataPool, nkvxKeyToOid [107]) [1, 2, 3]

def freeAlloc : Calls.KvAlloc := ⟨⟨true, true, true⟩, true, true, true⟩

def oneByteMsg (verb readOnly : UInt8) : KvMsg :=
  { verb, readOnly, clientCallId := 0, key := ⟨[107], key_k_fits⟩, osize := 0, storeFlags := 0, valueLen := 1,
    valueInline := some [7], valueBulk := none, resultSink := none }

theorem read_only_requests_keep_store_six :
    let n : Node toyApi (cluster .none) := ⟨⟨.rados dataPool, .init toyApi⟩, onePool⟩
    let reqs := [1, 2, 3, 4, 5, 200].map fun verb => Request.kv (oneByteMsg verb 1) freeAlloc
    let value := fun n' : Node toyApi (cluster .none) =>
      (cluster .none).objects n'.rados dataPool (nkvxKeyToOid [107])
    value (n.after .default reqs) = some [1, 2, 3] ∧
      value (n.after .default [.kv (oneByteMsg 1 0) freeAlloc]) = some [7] := by
  intro n reqs value
  have hro : ∀ r ∈ reqs, r.readOnly ≠ 0 := by decide
  have hkeeps := (read_only_requests_keep_store .default n).1 reqs hro
  exact ⟨congrFun (congrFun hkeeps dataPool) (nkvxKeyToOid [107]), by decide +kernel⟩

end RadosNkv
