import Mathlib.Data.Finset.Card
import RadosNkv.Executor.BaseVerbs
import RadosNkv.Executor.CallsRefine
import RadosNkv.Executor.ReadOnly

/-! The in-memory backend against librados: both are held against the same plain map. -/

namespace RadosNkv

open List Function Calls Machine

variable {api : WasmApi} {cfg : WasmConfig}

def Node.serve {lib : Librados} (cfg : WasmConfig) (n : Node api lib) (req : KvMsg) :
    Node api lib × Option ExecResult :=
  (n.step cfg (.kv req freeAlloc),
    if n.executor.wasm.cache.fault then none
    else
      match ((Calls.nkvxExecutorKv cfg freeAlloc n.executor req).run lib.answer n.rados).1 with
      | .ok r => some r.2
      | .error e => nomatch e)

def Node.value {lib : Librados} (n : Node api lib) (key : Bytes) : Option Bytes :=
  match n.executor.backend with
  | .rados ctx => lib.objects n.rados ctx (nkvxKeyToOid key)
  | .mem store => store.get (nkvxKeyToOid key)

variable {req : KvMsg} {r : BaseRequest} {m : Bytes → Option Bytes} {n : Node api (cluster .none)}

lemma serve_of_run {n : Node api lib} (hf : n.executor.wasm.cache.fault = false)
    (hr : (nkvxExecutorKv cfg freeAlloc n.executor req).run lib.answer n.rados = (.ok (ex, res),
      rados)) :
    n.serve cfg req = (⟨ex, rados⟩, some res) := by
  have hs : n.step cfg (.kv req freeAlloc) = ⟨ex, rados⟩ := by
    unfold Node.step
    rw [hf]
    have hsr : (serveRequest cfg n.executor (.kv req freeAlloc)).run lib.answer n.rados =
      (.ok (ex, res), rados) := hr
    rw [hsr]
    rfl
  unfold Node.serve
  rw [hs, hf, hr]
  rfl

def KvMsg.base (req : KvMsg) : Option BaseRequest :=
  match KvVerb.ofByte req.verb with
  | .retrieve => some (.retrieve req.toIn)
  | .store => some (.store req.toIn req.valueInline)
  | .delete => some (.delete req.toIn)
  | .exist => some (.exist req.toIn)
  | .list | .invalid => none

lemma KvMsg.event_of_base (h : req.base = some r) : req.event freeAlloc .none = some r.event := by
  unfold KvMsg.base at h
  unfold KvMsg.event
  cases hv : KvVerb.ofByte req.verb with
  | list | invalid =>
    rw [hv] at h
    cases h
  | retrieve | store | delete | exist =>
    rw [hv] at h
    cases h
    rfl

def Node.RadosHolds (ctx : IoCtx) (m : Bytes → Option Bytes) (n : Node api (cluster .none)) : Prop :=
  n.executor.backend = .rados ctx ∧ (Executor.over n.executor.wasm n.rados ctx).Holds m

lemma serve_rados (h : n.RadosHolds ctx m) (hb : req.base = some r) :
    (n.serve cfg req).2 = some (plainHandle m r).2 ∧ (n.serve cfg req).1.RadosHolds ctx (plainHandle m r).1 := by
  obtain ⟨⟨backend, w⟩, objs⟩ := n
  obtain ⟨rfl, hh⟩ := h
  obtain ⟨objs', hr, ht⟩ := kv_calls_refine .none objs ctx freeAlloc w req (KvMsg.event_of_base hb)
  obtain ⟨hp, hn⟩ := serve_refines cfg hh r
  have hf : w.cache.fault = false := hh.counted.objs.fault
  have hs : (Executor.over w objs ctx).step cfg r.event = ((Executor.over w objs ctx).handle cfg r.event).1 := by
    rw [Executor.step, show (Executor.over w objs ctx).wasm.cache.fault = false from hf]
    rfl
  rw [serve_of_run hf hr]
  refine ⟨congrArg some hp, rfl, ?_⟩
  have hc : objs'.inCtx ctx = ((Executor.over w objs ctx).handle cfg r.event).1.rados := by
    rw [ht ctx, if_pos rfl]
  have ho : Executor.over ((Executor.over w objs ctx).handle cfg r.event).1.wasm objs' ctx =
      ((Executor.over w objs ctx).handle cfg r.event).1 := by
    rw [Executor.over, hc]
  rw [ho, ← hs]
  exact hn

lemma Node.RadosHolds.value (h : n.RadosHolds ctx m) : n.value = m := by
  funext key
  rw [Node.value, h.1]
  exact h.2.values key

/-! ### The table -/

structure MemStore.Holds (store : MemStore) (oids : Finset Bytes) (m : Bytes → Option Bytes) : Prop where
  values : ∀ key, store.get (nkvxKeyToOid key) = m key
  keys : ∀ oid ∈ store.objs.keys, oid ∈ oids

section Table

variable {store : MemStore} {oids : Finset Bytes} {m : Bytes → Option Bytes}

lemma MemStore.Holds.put_isSome (h : store.Holds oids m) (hc : oids.card ≤ nkvxMemMaxObjs)
    (hk : nkvxKeyToOid key ∈ oids) (value : Bytes) : ∃ store', store.put (nkvxKeyToOid key) value = some store' := by
  unfold MemStore.put
  split
  · exact ⟨_, rfl⟩
  next ha =>
  have hn : nkvxKeyToOid key ∉ store.objs.keys := mt Dict.mem_keys.mp ha
  have hs : store.objs.keys.toFinset ⊆ oids.erase (nkvxKeyToOid key) := by
    intro oid ho
    have hm : oid ∈ store.objs.keys := mem_toFinset.mp ho
    exact Finset.mem_erase.mpr ⟨fun he => hn (he ▸ hm), h.keys oid hm⟩
  have hle := Finset.card_le_card hs
  rw [toFinset_card_of_nodup store.objs.nodup_keys, Finset.card_erase_of_mem hk] at hle
  have hp : 0 < oids.card := Finset.card_pos.mpr ⟨_, hk⟩
  have hr : store.objs.entries.length < nkvxMemMaxObjs := by
    have hl : store.objs.keys.length = store.objs.entries.length := length_map _
    omega
  rw [dif_pos hr]
  exact ⟨_, rfl⟩

lemma MemStore.Holds.put (h : store.Holds oids m) (hk : nkvxKeyToOid key ∈ oids)
    (hp : store.put (nkvxKeyToOid key) value = some store') :
    store'.Holds oids (update m key (some value)) := by
  refine ⟨fun key' => ?_, fun oid ho => ?_⟩
  · rw [MemStore.get_put hp, ← update_apply]
    exact update_keyToOid h.values ..
  have hs : (store'.get oid).isSome := Dict.mem_keys.mp ho
  rw [MemStore.get_put hp] at hs
  split at hs
  · next he => exact he ▸ hk
  · exact h.keys oid (Dict.mem_keys.mpr hs)

lemma MemStore.Holds.del (h : store.Holds oids m) (key : Bytes) :
    (nkvxMemDel store (nkvxKeyToOid key)).2 = (m key).isSome ∧
      (nkvxMemDel store (nkvxKeyToOid key)).1.Holds oids (update m key none) := by
  obtain ⟨he, hg⟩ := nkvxMemDel_spec store (nkvxKeyToOid key)
  refine ⟨by rw [he, h.values], fun key' => ?_, fun oid ho => ?_⟩
  · rw [hg, ← update_apply]
    exact update_keyToOid h.values ..
  have hs : ((nkvxMemDel store (nkvxKeyToOid key)).1.get oid).isSome := Dict.mem_keys.mp ho
  rw [hg] at hs
  split at hs
  · cases hs
  · exact h.keys oid (Dict.mem_keys.mpr hs)

end Table

structure Node.MemHolds {lib : Librados} (oids : Finset Bytes) (m : Bytes → Option Bytes) (n : Node api lib) :
    Prop where
  backend : ∃ store, n.executor.backend = .mem store ∧ store.Holds oids m
  counted : n.executor.wasm.cache.Counted [] false

lemma Node.MemHolds.value {n : Node api lib} (h : n.MemHolds oids m) :
    n.value = m := by
  obtain ⟨store, hb, hs⟩ := h.backend
  funext key
  rw [Node.value, hb]
  exact hs.values key

section Verbs

variable {oids : Finset Bytes} {m : Bytes → Option Bytes} {store : MemStore} {w : WasmState api} {objs : Objects}
  {req : KvMsg}

def MemAnswers (oids : Finset Bytes) (objs : Objects) (p : Calls (ExecutorState api × ExecResult))
    (r : (Bytes → Option Bytes) × ExecResult) : Prop :=
  ∃ ex, p.run (clusterAnswer .none) objs = (.ok (ex, r.2), objs) ∧
    (⟨ex, objs⟩ : Node api (cluster .none)).MemHolds oids r.1

lemma MemAnswers.same (hs : store.Holds oids m) (hc : w.cache.Counted [] false) (res : ExecResult) :
    MemAnswers oids objs (pure (⟨.mem store, w⟩, res)) (m, res) :=
  ⟨_, rfl, ⟨store, rfl, hs⟩, hc⟩

lemma memHolds_invalidate (objs : Objects) (hs : store.Holds oids m) (hc : w.cache.Counted [] false) (oid : Bytes) :
    (⟨invalidate ⟨.mem store, w⟩ oid, objs⟩ : Node api (cluster .none)).MemHolds oids m :=
  ⟨⟨store, rfl, hs⟩, hc.invalidate oid⟩

def tableStore (m : Bytes → Option Bytes) (req : KvMsg) : (Bytes → Option Bytes) × IoStatus :=
  if flagSinke req.storeFlags.toNat && (m req.key.val).isSome then (m, .keyExist)
  else if flagSike req.storeFlags.toNat && (m req.key.val).isNone then (m, .keyNotExist)
  else (Function.update m req.key.val (some ((req.valueInline.getD []).take req.valueLen.toNat)), .success)

lemma run_memCopy (value : Bytes) (len : Nat) :
    (memCopy value len).run (clusterAnswer .none) objs = (.ok (value.take len), objs) := by
  unfold memCopy
  split
  · rfl
  next hl =>
  rw [Nat.eq_zero_of_not_pos hl]
  rfl

lemma length_oid_lt (req : KvMsg) : (nkvxKeyToOid req.key.val).length < memOidSize := by
  have hk := req.key.property
  rw [length_keyToOid, memOidSize]
  omega

lemma storeMem_answers (objs : Objects) (hs : store.Holds oids m) (hc : w.cache.Counted [] false)
    (hr : oids.card ≤ nkvxMemMaxObjs) (hk : nkvxKeyToOid req.key.val ∈ oids) : MemAnswers oids objs
      (storeMem true ⟨.mem store, w⟩ store (nkvxKeyToOid req.key.val) req.storeFlags.toNat
        (req.valueInline.getD []) req.valueLen.toNat) ((tableStore m req).1, .only (tableStore m req).2) := by
  unfold storeMem tableStore nkvxMemFind
  rw [hs.values]
  split
  · exact .same hs hc _
  split
  · exact .same hs hc _
  obtain ⟨store', hp⟩ := hs.put_isSome hr hk ((req.valueInline.getD []).take req.valueLen.toNat)
  refine ⟨_, ?_, memHolds_invalidate objs (hs.put hk hp) hc (nkvxKeyToOid req.key.val)⟩
  unfold nkvxExecutorMemPut
  rw [if_neg (Nat.not_le.mpr (length_oid_lt req)), if_neg (by simp), Prog.run_bind, Prog.run_bind, run_memCopy]
  dsimp only
  rw [hp]
  rfl

def KvMsg.ContraryOnAbsent (req : KvMsg) (value : Bytes → Option Bytes) : Prop :=
  KvVerb.ofByte req.verb = .store ∧ req.key.val ≠ [] ∧ req.readOnly = 0 ∧
    ¬ (req.valueLen.toNat > 0 ∧ req.valueInline = none) ∧ flagSinke req.storeFlags.toNat ∧
    flagSike req.storeFlags.toNat ∧ value req.key.val = none

instance (req : KvMsg) (value : Bytes → Option Bytes) : Decidable (req.ContraryOnAbsent value) :=
  inferInstanceAs (Decidable (_ ∧ _))

def tableHandle (m : Bytes → Option Bytes) (req : KvMsg) (r : BaseRequest) : (Bytes → Option Bytes) × ExecResult :=
  if req.ContraryOnAbsent m then (m, .only .keyNotExist) else plainHandle m r

lemma tableStore_plain (hg : ¬ req.readOnly ≠ 0) (hvl : ¬ (req.valueLen.toNat > 0 ∧ req.valueInline = none))
    (ha : ¬ (flagSinke req.storeFlags.toNat ∧ flagSike req.storeFlags.toNat ∧ m req.key.val = none)) :
    tableStore m req = plainStore m req.toIn req.valueInline := by
  have hr : ¬ req.toIn.readOnly = true := mt bne_iff_ne.mp hg
  have hb : ¬ (req.toIn.valueLen > 0 ∧ req.valueInline = none) := hvl
  have hf : req.toIn.storeFlags = req.storeFlags.toNat := rfl
  have hk : req.toIn.key = req.key.val := rfl
  have hl : req.toIn.valueLen = req.valueLen.toNat := rfl
  unfold tableStore plainStore
  rw [if_neg hr, if_neg hb, hf, hk, hl]
  cases hn : flagSinke req.storeFlags.toNat with
  | false => simp
  | true =>
    cases hs : flagSike req.storeFlags.toNat with
    | false => simp
    | true =>
      cases hv : m req.key.val with
      | none => exact absurd ⟨hn, hs, hv⟩ ha
      | some v => simp

lemma memStore_answers (hs : store.Holds oids m) (hn : w.cache.Counted [] false)
    (hcr : oids.card ≤ nkvxMemMaxObjs) (hk : nkvxKeyToOid req.key.val ∈ oids)
    (hv : KvVerb.ofByte req.verb = .store) (he : req.key.val ≠ []) :
    MemAnswers oids objs (Calls.nkvxStore freeAlloc ⟨.mem store, w⟩ (nkvxKeyToOid req.key.val) req)
      (tableHandle m req (.store req.toIn req.valueInline)) := by
  have hp : plainHandle m (.store req.toIn req.valueInline) =
      ((plainStore m req.toIn req.valueInline).1, .only (plainStore m req.toIn req.valueInline).2) := if_neg he
  unfold Calls.nkvxStore tableHandle
  dsimp only
  by_cases hr : req.readOnly ≠ 0
  · have hd : req.toIn.readOnly = true := bne_iff_ne.mpr hr
    rw [if_pos hr, if_neg (fun hc => hr hc.2.2.1), hp, plainStore, if_pos hd]
    exact .same hs hn _
  rw [if_neg hr]
  by_cases hb : req.valueLen.toNat > 0 ∧ req.valueInline = none
  · have hd : ¬ req.toIn.readOnly = true := mt bne_iff_ne.mp hr
    rw [if_pos hb, if_neg (fun hc => hc.2.2.2.1 hb), hp, plainStore, if_neg hd,
      if_pos (show req.toIn.valueLen > 0 ∧ req.valueInline = none from hb)]
    exact .same hs hn _
  rw [if_neg hb]
  have ha := storeMem_answers objs hs hn hcr hk
  split
  · next ho =>
    obtain ⟨-, -, -, -, hsn, hsk, hab⟩ := ho
    rwa [show tableStore m req = (m, .keyNotExist) by simp [tableStore, hsn, hsk, hab]] at ha
  next ho =>
  have hap : ¬ (flagSinke req.storeFlags.toNat ∧ flagSike req.storeFlags.toNat ∧ m req.key.val = none) :=
    fun hf => ho ⟨hv, he, not_not.mp hr, hb, hf⟩
  rw [hp, ← tableStore_plain hr hb hap]
  exact ha

lemma memDelete_answers (hs : store.Holds oids m) (hc : w.cache.Counted [] false) (hn : req.key.val ≠ []) :
    MemAnswers oids objs (Calls.nkvxDelete ⟨.mem store, w⟩ (nkvxKeyToOid req.key.val) req)
      (plainHandle m (.delete req.toIn)) := by
  have hp : plainHandle m (.delete req.toIn) = ((plainDelete m req.toIn).1, .only (plainDelete m req.toIn).2) :=
    if_neg hn
  have hk : req.toIn.key = req.key.val := rfl
  unfold Calls.nkvxDelete
  rw [hp, plainDelete, hk]
  by_cases hr : req.readOnly ≠ 0
  · rw [if_pos hr, if_pos (KvMsg.toIn_readOnly.mpr hr)]
    exact .same hs hc _
  rw [if_neg hr, if_neg (mt KvMsg.toIn_readOnly.mp hr)]
  obtain ⟨he, hx⟩ := hs.del req.key.val
  have hl := memHolds_invalidate objs hx hc (nkvxKeyToOid req.key.val)
  dsimp only
  rw [he]
  cases hv : m req.key.val with
  | some v => exact ⟨_, rfl, hl⟩
  | none =>
    -- nothing to remove: the map is as it was
    have hm : update m req.key.val none = m := by
      rw [← hv]
      exact update_eq_self _ m
    rw [hm] at hl
    exact ⟨_, rfl, hl⟩

lemma retrieveBytes_eq (v : Bytes) (osize : Nat) : retrieveBytes true v osize = plainRetrieve (some v) osize := by
  unfold retrieveBytes plainRetrieve nkvxResultSet
  dsimp only
  split <;> rfl

lemma memRetrieve_answers (cfg : WasmConfig) (hs : store.Holds oids m) (hc : w.cache.Counted [] false)
    (hn : req.key.val ≠ []) : MemAnswers oids objs
      (Calls.nkvxRetrieve cfg freeAlloc.retrieve ⟨.mem store, w⟩ (nkvxKeyToOid req.key.val) req)
      (plainHandle m (.retrieve req.toIn)) := by
  have hp : plainHandle m (.retrieve req.toIn) = (m, plainRetrieve (m req.key.val) req.osize.toNat) := if_neg hn
  unfold Calls.nkvxRetrieve nkvxMemFind
  dsimp only
  rw [hp, hs.values]
  cases m req.key.val with
  | none => exact .same hs hc _
  | some v =>
    rw [← retrieveBytes_eq]
    exact .same hs hc _

lemma memExist_answers (hs : store.Holds oids m) (hc : w.cache.Counted [] false) (hn : req.key.val ≠ []) :
    MemAnswers oids objs (Calls.nkvxExist ⟨.mem store, w⟩ (nkvxKeyToOid req.key.val))
      (plainHandle m (.exist req.toIn)) := by
  have hk : req.toIn.key = req.key.val := rfl
  unfold Calls.nkvxExist nkvxMemFind
  dsimp only
  rw [plainHandle, hk, if_neg hn, hs.values]
  cases m req.key.val with
  | none => exact .same hs hc _
  | some v => exact .same hs hc _

lemma kv_of_nil (hb : req.base = some r) (hn : req.key.val = []) (cfg : WasmConfig)
    (ex : ExecutorState api) (m : Bytes → Option Bytes) :
    nkvxExecutorKv cfg freeAlloc ex req = pure (ex, .only .invalid) ∧ plainHandle m r = (m, .only .invalid) := by
  unfold KvMsg.base at hb
  unfold nkvxExecutorKv
  cases hv : KvVerb.ofByte req.verb with
  | list | invalid =>
    rw [hv] at hb
    cases hb
  | retrieve | store | delete | exist =>
    rw [hv] at hb
    cases hb
    exact ⟨if_pos hn, if_pos hn⟩

lemma mem_answers (cfg : WasmConfig) (objs : Objects) (hs : store.Holds oids m)
    (hcn : w.cache.Counted [] false) (hr : oids.card ≤ nkvxMemMaxObjs)
    (hk : nkvxKeyToOid req.key.val ∈ oids) (hb : req.base = some r) :
    MemAnswers oids objs (Calls.nkvxExecutorKv cfg freeAlloc ⟨.mem store, w⟩ req) (tableHandle m req r) := by
  by_cases hn : req.key.val = []
  · obtain ⟨hp, hl⟩ := kv_of_nil hb hn cfg ⟨.mem store, w⟩ m
    rw [hp, tableHandle, if_neg (fun hc => hc.2.1 hn), hl]
    exact .same hs hcn _
  have ho (hv : KvVerb.ofByte req.verb ≠ .store) : tableHandle m req r = plainHandle m r :=
    if_neg fun hc => hv hc.1
  unfold KvMsg.base at hb
  unfold Calls.nkvxExecutorKv
  cases hv : KvVerb.ofByte req.verb with
  | list | invalid =>
    rw [hv] at hb
    cases hb
  | retrieve =>
    rw [hv] at hb ho
    cases hb
    rw [ho nofun]
    dsimp only
    rw [if_neg hn]
    exact memRetrieve_answers cfg hs hcn hn
  | store =>
    rw [hv] at hb
    cases hb
    dsimp only
    rw [if_neg hn]
    exact memStore_answers hs hcn hr hk hv hn
  | delete =>
    rw [hv] at hb ho
    cases hb
    rw [ho nofun]
    dsimp only
    rw [if_neg hn]
    exact memDelete_answers hs hcn hn
  | exist =>
    rw [hv] at hb ho
    cases hb
    rw [ho nofun]
    dsimp only
    rw [if_neg hn]
    exact memExist_answers hs hcn hn

end Verbs

def Agree (ctx : IoCtx) (oids : Finset Bytes) (rados mem : Node api (cluster .none)) : Prop :=
  ∃ m, rados.RadosHolds ctx m ∧ mem.MemHolds oids m

lemma serve_mem (cfg : WasmConfig) (h : n.MemHolds oids m) (hcr : oids.card ≤ nkvxMemMaxObjs)
    (hk : nkvxKeyToOid req.key.val ∈ oids) (hb : req.base = some r) :
    (n.serve cfg req).2 = some (tableHandle m req r).2 ∧ (n.serve cfg req).1.MemHolds oids (tableHandle m req r).1 := by
  obtain ⟨⟨backend, w⟩, objs⟩ := n
  obtain ⟨⟨store, hbc, hs⟩, hc⟩ := h
  subst hbc
  obtain ⟨ex, hr, hh⟩ := mem_answers cfg objs hs hc hcr hk hb
  rw [serve_of_run hc.objs.fault hr]
  exact ⟨rfl, hh⟩

lemma plainHandle_contrary (h : req.ContraryOnAbsent m) (hs : req.base = some r) :
    (plainHandle m r).2 = .only .success := by
  obtain ⟨hv, hn, hr, hb, hsn, -, ha⟩ := h
  unfold KvMsg.base at hs
  rw [hv] at hs
  cases hs
  have hd : ¬ req.toIn.readOnly = true := mt bne_iff_ne.mp (not_not.mpr hr)
  have hp : plainHandle m (.store req.toIn req.valueInline) =
      ((plainStore m req.toIn req.valueInline).1, .only (plainStore m req.toIn req.valueInline).2) := if_neg hn
  rw [hp, plainStore, if_neg hd, if_neg (show ¬ (req.toIn.valueLen > 0 ∧ req.valueInline = none) from hb),
    if_pos (show flagSinke req.toIn.storeFlags = true from hsn),
    if_neg (show ¬ (m req.toIn.key).isSome = true by rw [show m req.toIn.key = none from ha]; nofun)]

section Agreement

variable {ctx : IoCtx} {oids : Finset Bytes} {rados mem : Node api (cluster .none)} {req : KvMsg}

lemma reply_eq_iff (hcr : oids.card ≤ nkvxMemMaxObjs) (h : Agree ctx oids rados mem)
    (hr : req.base.isSome ∧ nkvxKeyToOid req.key.val ∈ oids) :
    (rados.serve cfg req).2 = (mem.serve cfg req).2 ↔ ¬ req.ContraryOnAbsent rados.value := by
  obtain ⟨m, hd, hm⟩ := h
  obtain ⟨r, hb⟩ := Option.isSome_iff_exists.mp hr.1
  rw [(serve_rados hd hb).1, (serve_mem cfg hm hcr hr.2 hb).1, hd.value, tableHandle]
  split
  · next hc =>
    rw [plainHandle_contrary hc hb]
    exact iff_of_false nofun (not_not.mpr hc)
  · next hc => exact iff_of_true rfl hc

lemma agree_serve (hc : oids.card ≤ nkvxMemMaxObjs) (h : Agree ctx oids rados mem)
    (hr : req.base.isSome ∧ nkvxKeyToOid req.key.val ∈ oids) (ha : ¬ req.ContraryOnAbsent rados.value) :
    Agree ctx oids (rados.serve cfg req).1 (mem.serve cfg req).1 := by
  obtain ⟨m, hd, hm⟩ := h
  obtain ⟨r, hb⟩ := Option.isSome_iff_exists.mp hr.1
  have hn := (serve_mem cfg hm hc hr.2 hb).2
  rw [hd.value] at ha
  rw [tableHandle, if_neg ha] at hn
  exact ⟨_, (serve_rados hd hb).2, hn⟩

lemma agree_init {objs : Objects} (he : objs.inCtx ctx = fun _ => none) :
    Agree ctx oids (⟨⟨.rados ctx, .init api⟩, objs⟩ : Node api (cluster .none)) ⟨⟨.mem .empty, .init api⟩, objs⟩ := by
  refine ⟨fun _ => none, ⟨rfl, ?_⟩, ⟨.empty, rfl, fun _ => rfl, ?_⟩, .init⟩
  · have hint := holds_init api (objs.inCtx ctx)
    rw [he] at hint
    rw [Executor.over, he]
    exact hint
  · exact fun _ ho => absurd ho not_mem_nil

end Agreement

/-- Two executors that start without objects, one over the table and one over librados, serve the
same requests of the base verbs on fewer than 64 keys: they give the same answers and end with the
same map exactly if no Store is granted that carries both conditions while its key is absent. -/
theorem backends_agree_iff (cfg : WasmConfig) (ctx : IoCtx) (objs : Objects)
    (hempty : objs.inCtx ctx = fun _ => none) (reqs : List KvMsg)
    (hverbs : ∀ req ∈ reqs, req.base.isSome)
    (hkeys : (reqs.map fun req => req.key.val).toFinset.card < 64) :
    let rados : Node api (cluster .none) := ⟨⟨.rados ctx, .init api⟩, objs⟩
    let mem : Node api (cluster .none) := ⟨⟨.mem .empty, .init api⟩, objs⟩
    let next := fun (n : Node api (cluster .none)) req => (n.serve cfg req).1
    (replies (Node.serve cfg) rados reqs = replies (Node.serve cfg) mem reqs ∧
        (run next rados reqs).value = (run next mem reqs).value) ↔
      Machine.Along next (fun n req => ¬ req.ContraryOnAbsent n.value) rados reqs := by
  intro rados mem next
  have hcard : ((reqs.map fun req => req.key.val).toFinset.image nkvxKeyToOid).card ≤ nkvxMemMaxObjs :=
    Finset.card_image_le.trans hkeys.le
  have hint : Agree ctx ((reqs.map fun req => req.key.val).toFinset.image nkvxKeyToOid) rados mem := agree_init hempty
  have hreqs : ∀ req ∈ reqs, req.base.isSome ∧
      nkvxKeyToOid req.key.val ∈ (reqs.map fun req => req.key.val).toFinset.image nkvxKeyToOid := fun req hreq =>
    ⟨hverbs req hreq, Finset.mem_image_of_mem _ (mem_toFinset.mpr (mem_map_of_mem hreq))⟩
  have hreply := replies_eq_iff_along (f := Node.serve cfg) (g := Node.serve cfg)
    (R := Agree ctx ((reqs.map fun req => req.key.val).toFinset.image nkvxKeyToOid))
    (G := fun n req => ¬ req.ContraryOnAbsent n.value)
    (fun _ _ _ h hreq => reply_eq_iff hcard h hreq) (fun _ _ _ h hreq hapr => agree_serve hcard h hreq hapr)
    hint hreqs
  refine ⟨fun h => hreply.mp h.1, fun haln => ⟨hreply.mpr haln, ?_⟩⟩
  have hboth : Machine.Along next (fun n req => (req.base.isSome ∧
      nkvxKeyToOid req.key.val ∈ (reqs.map fun req => req.key.val).toFinset.image nkvxKeyToOid) ∧
      ¬ req.ContraryOnAbsent n.value) rados reqs :=
    along_and next (along_of_forall next hreqs) haln
  obtain ⟨m, hreads, hmem⟩ := run_related_along next next
    (R := Agree ctx ((reqs.map fun req => req.key.val).toFinset.image nkvxKeyToOid))
    (fun _ _ _ hG h => agree_serve hcard h hG.1 hG.2) hint hboth
  rw [hreads.value, hmem.value]

def conditionalMsgs : List KvMsg :=
  [{ oneByteMsg 1 0 with storeFlags := 2 }, { oneByteMsg 2 0 with osize := 1 }, { oneByteMsg 1 0 with storeFlags := 2 },
    oneByteMsg 3 0, { oneByteMsg 1 0 with storeFlags := 1 }]

theorem backends_agree_conditional :
    let rados : Node toyApi (cluster .none) := ⟨⟨.rados dataPool, .init toyApi⟩, .empty⟩
    let mem : Node toyApi (cluster .none) := ⟨⟨.mem .empty, .init toyApi⟩, .empty⟩
    (replies (Node.serve .default) rados conditionalMsgs).map (Option.map ExecResult.status) =
        [some .success, some .success, some .keyExist, some .success, some .keyNotExist] ∧
      replies (Node.serve .default) rados conditionalMsgs =
        replies (Node.serve .default) mem conditionalMsgs := by
  refine ⟨by decide +kernel, ?_⟩
  exact ((backends_agree_iff .default dataPool .empty rfl conditionalMsgs (by decide) (by decide)).mpr
    (by decide +kernel)).1

/-- A Store with both conditions on an absent key: librados creates the object, the table refuses.
-/
theorem both_conditions_part_backends :
    let rados : Node toyApi (cluster .none) := ⟨⟨.rados dataPool, .init toyApi⟩, .empty⟩
    let mem : Node toyApi (cluster .none) := ⟨⟨.mem .empty, .init toyApi⟩, .empty⟩
    let store := { oneByteMsg 1 0 with storeFlags := 3 }
    (rados.serve .default store).2 = some (.only .success) ∧
      (mem.serve .default store).2 = some (.only .keyNotExist) ∧
      (rados.serve .default store).1.value [107] = some [7] ∧
        (mem.serve .default store).1.value [107] = none := by
  decide +kernel

end RadosNkv
