import RadosNkv.Executor.AccessOrder
import RadosNkv.Executor.BaseVerbs
import RadosNkv.Executor.CallReplies
import RadosNkv.Executor.ReadOnly
import RadosNkv.Wasm.KeyEntries

/-! Cold fills. -/

namespace RadosNkv

open List Prog ObjEntry Calls KvVerb

def RadosOp.reads (ctx : IoCtx) (oid : Bytes) : RadosOp → Bool
  | .read ctx' oid' _ => ctx' = ctx && oid' = oid
  | _ => false

section Reads

variable {σ α β : Type} {h : Prog.Handler RadosOp RadosOp.Resp Empty σ} {ctx : IoCtx} {oid oid' : Bytes} {st : σ}

def readsOf (h : Prog.Handler RadosOp RadosOp.Resp Empty σ) (ctx : IoCtx) (oid : Bytes) (p : Calls α) (st : σ) : Nat :=
  (p.trace h st).countP fun x => x.1.reads ctx oid

lemma readsOf_bind (p : Calls α) (f : α → Calls β) : readsOf h ctx oid (p >>= f) st =
      readsOf h ctx oid p st + readsOf h ctx oid (f (p.outcome h st).1) (p.outcome h st).2 := by
  unfold readsOf
  rw [trace_bind, run_eq_outcome h p st, countP_append]

def Avoids (ctx : IoCtx) (oid : Bytes) (p : Calls α) : Prop := p.Uses fun op => op.reads ctx oid = false

lemma Avoids.readsOf (hp : Avoids ctx oid p) : readsOf h ctx oid p st = 0 := by
  unfold RadosNkv.readsOf
  rw [countP_eq_zero]
  intro x hx
  simpa using hp.of_mem_trace h hx

lemma reads_other (hn : oid' ≠ oid) (ctx' : IoCtx) (len : Nat) :
    (RadosOp.read ctx' oid' len).reads ctx oid = false := by
  simp [RadosOp.reads, hn]

end Reads

namespace Calls

variable {api : WasmApi} {cfg : WasmConfig} {ctx : IoCtx} {oid : Bytes}

def moduleObject (moduleNs moduleKey : Bytes) : Option (IoCtx × Bytes) :=
  (moduleLocator moduleNs).map fun loc => (⟨loc.1, loc.2.getD []⟩, moduleKey)

lemma execGate_avoids {req : ExecMsg}
    (hm : moduleObject (req.moduleNs.getD []) (req.moduleKey.getD []) ≠ some (ctx, oid)) (alloc : Bool)
    (s : WasmState api) : Avoids ctx oid (execGate cfg alloc s req) := by
  refine execGate_uses alloc s (nkvxFetchModule_uses (fun pool ns hl => ⟨rfl, rfl, fun len => ?_⟩) alloc)
  have hn : ¬ ((⟨pool, ns.getD []⟩ : IoCtx) = ctx ∧ req.moduleKey.getD [] = oid) := fun he =>
    hm (by rw [moduleObject, hl, Option.map_some, he.1, he.2])
  simpa [RadosOp.reads] using hn

end Calls

/-! ### What a request does to the entries of one key -/

def Access.links {μ : Type} (c : Cache μ) : Access → Cache μ
  | .fill oid size got => c.filled (some (oid, size, got))
  | .nothing | .hit _ => c

def Access.Spares {μ : Type} (cfg : WasmConfig) (c : Cache μ) (k : Bytes) (acc : Access) : Prop :=
  (acc.links c).Has k → (acc.leaves cfg c).Has k

def ReadsOnce {μ : Type} (k : Bytes) (c c' : Cache μ) (reads : Nat) : Prop :=
  (reads = 0 ∧ Cache.KeyFrom k c c' ∧ (c.Has k → c'.Has k)) ∨
    (reads = 1 ∧ c.Lacks k ∧ c'.SoleAt k ∧ c'.Has k)

section ReadsOnce

variable {σ : Type} {h : Prog.Handler RadosOp RadosOp.Resp Empty σ} {st : σ} {api : WasmApi} {cfg : WasmConfig}
  {ctx : IoCtx} {k oid : Bytes} {s : WasmState api}

variable {μ : Type} {c c' : Cache μ}

lemma readsOnce_stays (k : Bytes) (hs : c.Stays c') : ReadsOnce k c c' 0 :=
  .inl ⟨rfl, .moves hs.moves False.elim, hs.live.has⟩

lemma has_links_of_has (acc : Access) (hc : c.Has k) : (acc.links c).Has k := by
  cases acc with
  | fill oid size got =>
    obtain ⟨o, ho, hkey⟩ := hc
    obtain ⟨hi, hl⟩ := mem_filter.mp ho
    exact ⟨o, mem_filter.mpr ⟨mem_append_left _ hi, hl⟩, hkey⟩
  | nothing => exact hc
  | hit p => exact hc

variable {ans : RadosAnswers}

lemma readsOnce_other (hn : cstrFit 256 oid ≠ k) (hm : c.Moves (ans.Fills oid) c')
    {acc : Access} (ht : (acc.leaves cfg c).Stays c') (hs : acc.Spares cfg c k) : ReadsOnce k c c' 0 := by
  refine .inl ⟨rfl, .moves hm fun hf => hf.1 ▸ hn, fun hh => ?_⟩
  exact ht.live.has (hs (has_links_of_has acc hh))

lemma soleAt_filled (hl : c.Lacks k) (objKey : Bytes) (size : Nat) (got : Bytes) :
    (c.filled (some (objKey, size, got))).SoleAt k := by
  intro o ho o' ho' hkey hk'
  rcases mem_append.mp ho with hold | hn
  · exact absurd hkey (hl o hold)
  rcases mem_append.mp ho' with hold' | hn'
  · exact absurd hk' (hl o' hold')
  · rw [mem_singleton.mp hn, mem_singleton.mp hn']

lemma has_filled (c : Cache μ) {objKey : Bytes} (hfit : cstrFit 256 objKey = k) (size : Nat) (got : Bytes) :
    (c.filled (some (objKey, size, got))).Has k :=
  ⟨coldEntry c.nextPtr objKey size got, by simp [Cache.live, Cache.filled, nkvxObjListAdd, coldEntry], hfit⟩

lemma readsOnce_fill (hl : c.Lacks k) (hfit : cstrFit 256 k = k)
    (hp : (Access.fill k size got).Spares cfg c k) (hs : ((Access.fill k size got).leaves cfg c).Stays c') :
    ReadsOnce k c c' 1 := by
  have hsl : ((Access.fill k size got).leaves cfg c).SoleAt k :=
    (Cache.KeyFrom.sheds (.enforceObjCaps cfg ..)).soleAt (soleAt_filled hl k size got)
  have hf : Cache.KeyFrom k ((Access.fill k size got).leaves cfg c) c' := .moves hs.moves False.elim
  exact .inr ⟨rfl, hl, hf.soleAt hsl, hs.live.has (hp (has_filled c hfit size got))⟩

lemma readsOf_fill : readsOf h ctx k (Calls.nkvxObjFill cfg alloc c ctx k size) st =
      if (fillAsks cfg alloc c k size).isSome then 1 else 0 := by
  unfold Calls.nkvxObjFill
  cases fillAsks cfg alloc c k size with
  | none => rfl
  | some cap =>
    rw [readsOf_bind]
    have hr : readsOf h ctx k (Calls.read ctx k cap) st = 1 := by
      rw [readsOf, Calls.read, trace_perform]
      simp [RadosOp.reads]
    rw [hr]
    rfl

/-- The read behind a stat that found the object succeeds. -/
def AnswersReads (h : Prog.Handler RadosOp RadosOp.Resp Empty σ) (ctx : IoCtx) (oid : Bytes) : Prop :=
  ∀ st size len, ((Calls.stat ctx oid).outcome h st).1 = .ok size →
    ∃ bytes, ((Calls.read ctx oid len).outcome h ((Calls.stat ctx oid).outcome h st).2).1 = .ok bytes

lemma filling_of_stat (hrds : AnswersReads h ctx k) (havl : cfg.available = true) (hk : k ≠ [])
    (hm : s.cache.Misses k) (osize : Nat)
    (hs : ((stat ctx k).outcome h st).1 = .ok size) : (fillAsks cfg true s.cache k size).isSome ∧
      ∃ got, (Calls.replies h cfg true s.cache ctx k osize st).filling cfg true k = .fill k size got := by
  have ha : fillAsks cfg true s.cache k size = some (backing size - wasmObjOff) :=
    if_pos ⟨havl, hk, hm, rfl⟩
  obtain ⟨bytes, hb⟩ := hrds st size (backing size - wasmObjOff) hs
  obtain ⟨hz, hf, -⟩ := replies_of_ok cfg true s.cache osize hs
  refine ⟨by rw [ha]; rfl, bytes.take (backing size - wasmObjOff), ?_⟩
  unfold fillReply at hf
  rw [ha] at hf
  rw [hb] at hf
  unfold RadosAnswers.filling nkvxObjFill
  rw [if_pos ⟨havl, rfl⟩, hz, hf]
  rfl

lemma readsOf_stat : readsOf h ctx k (stat ctx oid) st = 0 := by
  rw [readsOf, stat, trace_perform]
  rfl

lemma cacheFill_of_filling {c : Cache api.Module} (hk : k ≠ []) (hm : c.Misses k)
    (hs : ans.stat = .ok size) (hf : ans.filling cfg alloc k = .fill k size got) :
    cacheFill cfg alloc c k size (nkvxObjFill ans) = ((Access.fill k size got).leaves cfg c, .success) := by
  have hl := cacheFill_leaves cfg hk hm hs alloc
  unfold RadosAnswers.filling at hf
  rw [hs] at hf
  split at hf
  · next hc =>
    dsimp only at hf
    cases hg : nkvxObjFill ans (backing size - wasmObjOff) with
    | error e =>
      rw [hg] at hf
      cases hf
    | ok got' =>
      rw [hg] at hf
      cases hf
      unfold cacheFill coldFill
      simp only [hc.1, hc.2, hk, hm, hg, Bool.not_true, Bool.false_eq_true, if_false]
      rfl
  · cases hf

section Retrieve

variable {env : RetrieveEnv}

lemma readsOf_retrieve_hit (hk : k ≠ []) (hl : (nkvxObjLookup s.cache k).filter filled = some o) :
    readsOf h ctx k (retrieveRados cfg env ctx s k osize) st = 0 := by
  unfold retrieveRados
  rw [cachePin_eq _ hk, hl]
  rfl

lemma readsOf_retrieve_absent (hk : k ≠ []) (hm : s.cache.Misses k)
    (hs : ((stat ctx k).outcome h st).1 = .error e) :
    readsOf h ctx k (retrieveRados cfg env ctx s k osize) st = 0 := by
  unfold retrieveRados
  rw [cachePin_miss hk hm]
  rw [readsOf_bind, readsOf_stat, hs]
  cases e <;> rfl

lemma readsOf_retrieve_fill (hinv : s.cache.Counted [] false) (hk : k ≠ []) (hm : s.cache.Misses k)
    (hs : ((stat ctx k).outcome h st).1 = .ok size)
    (ha : (fillAsks cfg env.objAlloc s.cache k size).isSome)
    (hn : (Calls.replies h cfg env.objAlloc s.cache ctx k osize st).filling cfg env.objAlloc k =
      .fill k size got) (hh : ((Access.fill k size got).leaves cfg s.cache).Has k) :
    readsOf h ctx k (retrieveRados cfg env ctx s k osize) st = 1 := by
  obtain ⟨hz, hfl, -⟩ := replies_of_ok cfg env.objAlloc s.cache osize hs
  have hg := (nkvxObjFill_outcome h cfg env.objAlloc s.cache ctx k size
    ((stat ctx k).outcome h st).2).2 _ hfl
  have hf := cacheFill_of_filling (c := s.cache) hk hm hz hn
  have hc' := hinv.cacheFill cfg env.objAlloc k size
    (nkvxObjFill (Calls.replies h cfg env.objAlloc s.cache ctx k osize st))
  rw [hf] at hc'
  obtain ⟨o, hl⟩ := hh.lookup hc'.objs.filled
  unfold retrieveRados
  rw [cachePin_miss hk hm]
  rw [readsOf_bind, readsOf_stat, hs]
  rw [readsOf_bind, readsOf_fill, if_pos ha, cacheFill_asks hg, hf]
  dsimp only
  rw [cachePin_eq _ hk, hl]
  rfl

lemma readsOnce_retrieve (hinv : s.cache.Counted [] false) (hstat : s.cache.Lacks k ∨ s.cache.Has k)
    (havl : cfg.available = true) (hk : k ≠ []) (hfit : cstrFit 256 k = k) (hrds : AnswersReads h ctx k)
    (ha : env.objAlloc = true)
    (hp : (s.cache.access cfg env.objAlloc (Calls.replies h cfg env.objAlloc s.cache ctx k osize st) k).Spares cfg
      s.cache k) : ReadsOnce k s.cache ((retrieveRados cfg env ctx s k osize).outcome h st).1.1.cache
      (readsOf h ctx k (retrieveRados cfg env ctx s k osize) st) := by
  have hs := stays_retrieve cfg hinv hk env
    (Calls.replies h cfg env.objAlloc s.cache ctx k osize st) osize
  rw [← retrieveRados_outcome] at hs
  unfold Cache.access at hs hp
  rcases hstat with hl | hh
  · have hm := hl.lookup
    rw [hm] at hs hp
    cases ht : ((stat ctx k).outcome h st).1 with
    | error e =>
      rw [filling_of_error (by rw [replies_of_error ht])] at hs
      rw [readsOf_retrieve_absent hk hm ht]
      exact readsOnce_stays k hs
    | ok size =>
      rw [ha] at hs hp
      obtain ⟨hak, got, hf⟩ := filling_of_stat (s := s) hrds havl hk hm osize ht
      rw [hf] at hs hp
      rw [readsOf_retrieve_fill hinv hk hm ht (ha.symm ▸ hak) (ha.symm ▸ hf)
        (hp (has_filled s.cache hfit size got))]
      exact readsOnce_fill hl hfit hp hs
  · obtain ⟨o, hlk⟩ := hh.lookup hinv.objs.filled
    rw [hlk] at hs
    rw [readsOf_retrieve_hit hk hlk]
    exact readsOnce_stays k hs

end Retrieve

section ExecRun

variable (env : ExecEnv) {mod : ModSpec}

lemma readsOf_execRun_miss (hk : k ≠ []) (hm : s.cache.Misses k)
    (hs : ((Calls.stat ctx k).outcome h st).1 = .ok size) :
    readsOf h ctx k (Calls.execRun cfg env.run ctx s k name mod osize) st =
      if (Calls.fillAsks cfg env.run.objAlloc s.cache k size).isSome then 1 else 0 := by
  unfold Calls.execRun
  rw [cachePin_miss hk hm]
  rw [readsOf_bind, readsOf_stat, hs]
  rw [readsOf_bind, readsOf_fill, zero_add]
  rfl

lemma readsOf_execRun_absent (hk : k ≠ []) (hm : s.cache.Misses k)
    (hs : ((Calls.stat ctx k).outcome h st).1 = .error e) :
    readsOf h ctx k (Calls.execRun cfg env.run ctx s k name mod osize) st = 0 := by
  unfold Calls.execRun
  rw [cachePin_miss hk hm]
  rw [readsOf_bind, readsOf_stat, hs]
  cases e <;> rfl

lemma readsOf_execRun_hit (hk : k ≠ []) (hl : (nkvxObjLookup s.cache k).filter filled = some o) :
    readsOf h ctx k (Calls.execRun cfg env.run ctx s k name mod osize) st = 0 := by
  unfold Calls.execRun
  rw [cachePin_eq _ hk, hl]
  rfl

lemma readsOnce_execRun (hinv : s.cache.Counted [] false) (hstat : s.cache.Lacks k ∨ s.cache.Has k)
    (havl : cfg.available = true) (hk : k ≠ []) (hfit : cstrFit 256 k = k) (hrds : AnswersReads h ctx k)
    (hp : (s.cache.access cfg env.run.objAlloc
      (Calls.replies h cfg env.run.objAlloc s.cache ctx k osize st) k).Spares cfg s.cache k) :
    ReadsOnce k s.cache ((Calls.execRun cfg env.run ctx s k name mod osize).outcome h st).1.1.cache
      (readsOf h ctx k (Calls.execRun cfg env.run ctx s k name mod osize) st) := by
  have hs := stays_execRun cfg hinv hk env
    (Calls.replies h cfg env.run.objAlloc s.cache ctx k osize st) name mod osize
  rw [← Calls.execRun_outcome] at hs
  unfold Cache.access at hs hp
  rcases hstat with hl | hh
  · have hm := hl.lookup
    rw [hm] at hs hp
    cases ht : ((Calls.stat ctx k).outcome h st).1 with
    | error e =>
      rw [filling_of_error (by rw [Calls.replies_of_error ht])] at hs
      rw [readsOf_execRun_absent env hk hm ht]
      exact readsOnce_stays k hs
    | ok size =>
      rw [readsOf_execRun_miss env hk hm ht]
      cases ha : env.run.objAlloc with
      | false =>
        -- no slot: the run ends before it reads
        have hn : Calls.fillAsks cfg false s.cache k size = none := if_neg (by simp)
        have hnt : ∀ ans : RadosAnswers, ans.filling cfg false k = .nothing := fun _ => if_neg (by simp)
        rw [ha, hnt] at hs
        rw [hn]
        exact readsOnce_stays k hs
      | true =>
        rw [ha] at hs hp
        obtain ⟨hak, got, hf⟩ := filling_of_stat (s := s) hrds havl hk hm osize ht
        rw [hf] at hs hp
        rw [if_pos hak]
        exact readsOnce_fill hl hfit hp hs
  obtain ⟨o, hlk⟩ := hh.lookup hinv.objs.filled
  rw [hlk] at hs
  rw [readsOf_execRun_hit env hk hlk]
  exact readsOnce_stays k hs

lemma readsOnce_execRun_other (hinv : s.cache.Counted [] false) (ho : oid ≠ []) (hn : oid ≠ k)
    (hc : cstrFit 256 oid ≠ k) (hp : (s.cache.access cfg env.run.objAlloc
      (Calls.replies h cfg env.run.objAlloc s.cache ctx oid osize st) oid).Spares cfg s.cache k) :
    ReadsOnce k s.cache ((Calls.execRun cfg env.run ctx s oid name mod osize).outcome h st).1.1.cache
      (readsOf h ctx k (Calls.execRun cfg env.run ctx s oid name mod osize) st) := by
  have hs := stays_execRun cfg hinv ho env
    (Calls.replies h cfg env.run.objAlloc s.cache ctx oid osize st) name mod osize
  have hm := moves_execRun cfg env (Calls.replies h cfg env.run.objAlloc s.cache ctx oid osize st) s oid name mod
    osize
  rw [← Calls.execRun_outcome] at hs hm
  rw [Avoids.readsOf (Calls.execRun_uses (P := (·.reads ctx k = false)) rfl (reads_other hn ctx) ..)]
  exact readsOnce_other hc hm hs hp

end ExecRun

lemma readsOnce_retrieve_other (hinv : s.cache.Counted [] false) (ho : oid ≠ []) (hn : oid ≠ k)
    (hc : cstrFit 256 oid ≠ k) (env : RetrieveEnv) (osize : Nat) (hp : (s.cache.access cfg env.objAlloc
      (Calls.replies h cfg env.objAlloc s.cache ctx oid osize st) oid).Spares cfg s.cache k) :
    ReadsOnce k s.cache ((retrieveRados cfg env ctx s oid osize).outcome h st).1.1.cache
      (readsOf h ctx k (retrieveRados cfg env ctx s oid osize) st) := by
  have hs := stays_retrieve cfg hinv ho env
    (Calls.replies h cfg env.objAlloc s.cache ctx oid osize st) osize
  obtain ⟨c, he, hm⟩ := draws_retrieve cfg env (Calls.replies h cfg env.objAlloc s.cache ctx oid osize st) s oid
    osize
  rw [← retrieveRados_outcome] at hs he
  rw [Avoids.readsOf (retrieveRados_uses (P := (·.reads ctx k = false)) rfl (reads_other hn ctx) ..)]
  rw [he] at hs ⊢
  exact readsOnce_other hc hm.moves hs hp

end ReadsOnce

namespace Calls

variable {σ : Type} (h : Prog.Handler RadosOp RadosOp.Resp Empty σ) {api : WasmApi}

def isBuiltin (req : ExecMsg) : Prop := req.moduleNs = some (cstr ['n', 'k', 'v', 'x']) ∧ req.moduleKey.isSome

def execAccess (cfg : WasmConfig) (env : ExecAlloc) (ctx : IoCtx) (s : WasmState api) (req : ExecMsg) (st : σ) : Access :=
  let oid := nkvxKeyToOid req.key.val
  let osize := req.osize.toNat
  if req.key.val = [] ∨ req.runtime ≠ runtimeNkvx ∨
      (req.moduleNs = some (cstr ['n', 'k', 'v', 'x']) ∧ req.moduleKey.isSome) then .nothing
  else
    let gate := (execGate cfg env.fetchAlloc s req).outcome h st
    match gate.1 with
    | .error _ => .nothing
    | .ok _ =>
      if osize > 0 && !env.outAlloc then .nothing
      else s.cache.access cfg env.run.objAlloc (replies h cfg env.run.objAlloc s.cache ctx oid osize gate.2) oid

def kvAccess (cfg : WasmConfig) (env : KvAlloc) (ctx : IoCtx) (s : WasmState api) (req : KvMsg) (st : σ) : Access :=
  let oid := nkvxKeyToOid req.key.val
  if ofByte req.verb = .retrieve ∧ req.key.val ≠ [] then
    s.cache.access cfg env.retrieve.objAlloc
      (replies h cfg env.retrieve.objAlloc s.cache ctx oid req.osize.toNat st) oid
  else .nothing

end Calls

def Node.access {api : WasmApi} {lib : Librados} (cfg : WasmConfig) (ctx : IoCtx) (n : Node api lib) : Request → Access
  | .kv req env => Calls.kvAccess lib.answer cfg env ctx n.executor.wasm req n.rados
  | .exec req env => Calls.execAccess lib.answer cfg env ctx n.executor.wasm req n.rados

/-- The request does not write the key, run a built-in on it or fetch its module from there. -/
def Request.Spares (ctx : IoCtx) (key : Bytes) : Request → Prop
  | .kv req _ => ofByte req.verb = .store ∨ ofByte req.verb = .delete → req.key.val ≠ key
  | .exec req _ =>
    (req.key.val = key → ¬ Calls.isBuiltin req) ∧
      Calls.moduleObject (req.moduleNs.getD []) (req.moduleKey.getD []) ≠ some (ctx, nkvxKeyToOid key)

/-- A retrieve of the key gets the memory for its entry. -/
def Request.Allocates (key : Bytes) : Request → Prop
  | .kv req env => ofByte req.verb = .retrieve → req.key.val = key → env.retrieve.objAlloc = true
  | .exec _ _ => True

instance (req : ExecMsg) : Decidable (Calls.isBuiltin req) := inferInstanceAs (Decidable (_ ∧ _))

instance (ctx : IoCtx) (key : Bytes) : ∀ req : Request, Decidable (req.Spares ctx key)
  | .kv _ _ => inferInstanceAs (Decidable (_ → _))
  | .exec _ _ => inferInstanceAs (Decidable (_ ∧ _))

instance (key : Bytes) : ∀ req : Request, Decidable (req.Allocates key)
  | .kv _ _ => inferInstanceAs (Decidable (_ → _))
  | .exec _ _ => .isTrue trivial

section Requests

variable {σ : Type} {h : Prog.Handler RadosOp RadosOp.Resp Empty σ} {st : σ} {api : WasmApi} {cfg : WasmConfig}
  {ctx : IoCtx} {key : Bytes} {s : WasmState api}

lemma cut_ne (hn : key' ≠ key) : cstrFit 256 (nkvxKeyToOid key') ≠ nkvxKeyToOid key := fun he =>
  hn (keyToOid_inj (oid_of_cstrFit he))

lemma readsOnce_runWasm {env : Calls.ExecAlloc} {req : ExecMsg} {k oid : Bytes}
    (hm : Calls.moduleObject (req.moduleNs.getD []) (req.moduleKey.getD []) ≠ some (ctx, k))
    (ho : ∀ mod, ((Calls.execGate cfg env.fetchAlloc s req).outcome h st).1 = .ok mod →
      ¬ (req.osize.toNat > 0 && !env.outAlloc) = true →
      let st' := ((Calls.execGate cfg env.fetchAlloc s req).outcome h st).2
      let run := Calls.execRun cfg env.run ctx s oid (runName (req.moduleKey.getD [])) mod req.osize.toNat
      ReadsOnce k s.cache (run.outcome h st').1.1.cache (readsOf h ctx k run st')) :
    ReadsOnce k s.cache ((Calls.nkvxRunWasm cfg env ctx s oid req).outcome h st).1.1.cache
      (readsOf h ctx k (Calls.nkvxRunWasm cfg env ctx s oid req) st) := by
  unfold Calls.nkvxRunWasm
  rw [readsOf_bind, (Calls.execGate_avoids hm ..).readsOf, zero_add, outcome_bind]
  cases hg : ((Calls.execGate cfg env.fetchAlloc s req).outcome h st).1 with
  | error status => exact readsOnce_stays k (.refl s.cache)
  | ok mod =>
    dsimp only
    split
    · exact readsOnce_stays k (.refl s.cache)
    next ha =>
    rw [readsOf_bind, outcome_bind]
    exact ho mod hg ha

section Key

variable (hinv : s.cache.Counted [] false)
  (hstat : s.cache.Lacks (nkvxKeyToOid key) ∨ s.cache.Has (nkvxKeyToOid key)) (havl : cfg.available = true)
  (hkey : key ≠ []) (hfit : cstrFit 256 (nkvxKeyToOid key) = nkvxKeyToOid key)
  (hrds : AnswersReads h ctx (nkvxKeyToOid key))
include hinv hstat havl hkey hfit hrds

lemma readsOnce_exec {env : Calls.ExecAlloc} (hp : (Request.exec req env).Spares ctx key)
    (hc : (Calls.execAccess h cfg env ctx s req st).Spares cfg s.cache (nkvxKeyToOid key)) :
    ReadsOnce (nkvxKeyToOid key) s.cache ((Calls.nkvxExecutorRun cfg env ctx s req).outcome h st).1.1.cache
      (readsOf h ctx (nkvxKeyToOid key) (Calls.nkvxExecutorRun cfg env ctx s req) st) := by
  obtain ⟨hw, hm⟩ := hp
  have ho : req.key.val ≠ key → nkvxKeyToOid req.key.val ≠ nkvxKeyToOid key := fun he hq => he (keyToOid_inj hq)
  unfold Calls.nkvxExecutorRun
  split
  · exact readsOnce_stays _ (.refl s.cache)
  next hk' =>
  split
  · next hr =>
    split
    · next hl =>
      have he : req.key.val ≠ key := fun hq => hw hq hl
      have ha := Calls.nkvxRunBuiltin_uses (P := (·.reads ctx (nkvxKeyToOid key) = false)) rfl
        (reads_other (ho he) ctx) env.resAlloc req fun _ _ _ _ => rfl
      rw [readsOf_bind, Avoids.readsOf ha, outcome_bind]
      exact readsOnce_stays _ (.refl s.cache)
    next hl =>
    refine readsOnce_runWasm hm fun mod hg hal => ?_
    -- the access is that of the object part, in the state after the gate
    have hno : ¬ (req.key.val = [] ∨ req.runtime ≠ Calls.runtimeNkvx ∨
        (req.moduleNs = some (cstr ['n', 'k', 'v', 'x']) ∧ req.moduleKey.isSome)) := by
      rintro (hn | ht | hb)
      · exact hk' hn
      · exact ht hr
      · exact hl hb
    unfold Calls.execAccess at hc
    dsimp only at hc
    rw [if_neg hno, hg] at hc
    rw [if_neg hal] at hc
    by_cases hs : req.key.val = key
    · rw [hs] at hc ⊢
      exact readsOnce_execRun ⟨.error .inval, env.outAlloc, env.resAlloc, env.run⟩ hinv hstat havl
        (keyToOid_ne_nil hkey) hfit hrds hc
    exact readsOnce_execRun_other ⟨.error .inval, env.outAlloc, env.resAlloc, env.run⟩ hinv
      (keyToOid_ne_nil hk') (ho hs) (cut_ne hs) hc
  · exact readsOnce_stays _ (.refl s.cache)

end Key

variable {req : KvMsg}

lemma kv_avoids {env : Calls.KvAlloc} (hr : ofByte req.verb ≠ .retrieve) :
    Avoids ctx oid (nkvxExecutorKv cfg env ex req) :=
  nkvxExecutorKv_uses (fun _ _ => rfl) (fun _ => rfl) (fun hv => absurd hv hr) (fun _ _ _ => rfl)
    (fun _ _ _ => rfl) (fun _ _ _ _ _ => ⟨rfl, fun _ => rfl⟩) env ex

lemma kv_state (cfg : WasmConfig) (env : Calls.KvAlloc) (st : σ) {ex : ExecutorState api}
    (hrad : ex.backend = .rados ctx)
    (hr : ofByte req.verb ≠ .retrieve) : ((Calls.nkvxExecutorKv cfg env ex req).outcome h st).1.1 = ex ∨
      (ofByte req.verb = .store ∨ ofByte req.verb = .delete) ∧
        ((Calls.nkvxExecutorKv cfg env ex req).outcome h st).1.1 = Calls.invalidate ex (nkvxKeyToOid req.key.val) := by
  unfold Calls.nkvxExecutorKv
  split
  · next hv => exact absurd hv hr
  · next hv =>
    split
    · exact .inl rfl
    unfold Calls.nkvxStore
    dsimp only
    split
    · exact .inl rfl
    split
    · exact .inl rfl
    rw [hrad]
    rw [outcome_bind]
    exact .inr ⟨.inl hv, rfl⟩
  · next hv =>
    split
    · exact .inl rfl
    unfold Calls.nkvxDelete
    split
    · exact .inl rfl
    rw [hrad]
    rw [outcome_bind]
    refine .inr ⟨.inr hv, ?_⟩
    split <;> rfl
  · split
    · exact .inl rfl
    unfold Calls.nkvxExist
    rw [hrad]
    rw [outcome_bind]
    refine .inl ?_
    split <;> rfl
  · unfold Calls.nkvxList
    split
    · exact .inl rfl
    rw [hrad]
    rw [outcome_bind]
    refine .inl ?_
    split <;> rfl
  · exact .inl rfl

section Key

variable {ex : ExecutorState api} (hrad : ex.backend = .rados ctx) (hinv : ex.wasm.cache.Counted [] false)
  (hstat : ex.wasm.cache.Lacks (nkvxKeyToOid key) ∨ ex.wasm.cache.Has (nkvxKeyToOid key))
  (havl : cfg.available = true) (hkey : key ≠ []) (hfit : cstrFit 256 (nkvxKeyToOid key) = nkvxKeyToOid key)
  (hrds : AnswersReads h ctx (nkvxKeyToOid key))
include hrad hinv hstat havl hkey hfit hrds

lemma readsOnce_kv {env : Calls.KvAlloc} (hp : (Request.kv req env).Spares ctx key)
    (ha : (Request.kv req env).Allocates key)
    (hc : (Calls.kvAccess h cfg env ctx ex.wasm req st).Spares cfg ex.wasm.cache (nkvxKeyToOid key)) :
    ReadsOnce (nkvxKeyToOid key) ex.wasm.cache ((Calls.nkvxExecutorKv cfg env ex req).outcome h st).1.1.wasm.cache
      (readsOf h ctx (nkvxKeyToOid key) (Calls.nkvxExecutorKv cfg env ex req) st) := by
  by_cases hr : ofByte req.verb = .retrieve
  · unfold Calls.nkvxExecutorKv Calls.nkvxRetrieve
    unfold Calls.kvAccess at hc
    rw [hr, hrad]
    dsimp only
    split
    · exact readsOnce_stays _ (.refl ex.wasm.cache)
    next hk' =>
    rw [if_pos ⟨hr, hk'⟩] at hc
    rw [readsOf_bind, outcome_bind]
    by_cases hs : req.key.val = key
    · rw [hs] at hc ⊢
      exact readsOnce_retrieve hinv hstat havl (keyToOid_ne_nil hkey) hfit hrds (ha hr hs) hc
    exact readsOnce_retrieve_other hinv (keyToOid_ne_nil hk') (fun he => hs (keyToOid_inj he)) (cut_ne hs)
      env.retrieve req.osize.toNat hc
  rw [(kv_avoids hr).readsOf]
  rcases kv_state cfg env st (h := h) hrad hr with he | ⟨hv, he⟩
  · rw [he]
    exact readsOnce_stays _ (.refl ex.wasm.cache)
  rw [he]
  refine .inl ⟨rfl, .sheds (.invalidate ..), fun hh => hh.invalidate hinv fun ho => ?_⟩
  exact hp hv (keyToOid_inj ho)

end Key

lemma exec_state (cfg : WasmConfig) (env : Calls.ExecAlloc) (ctx : IoCtx) (s : WasmState api) (req : ExecMsg) (st : σ) :
    ((Calls.nkvxExecutorRun cfg env ctx s req).outcome h st).1.1 = s ∨
      ∃ name mod st', ((Calls.nkvxExecutorRun cfg env ctx s req).outcome h st).1.1 =
        ((Calls.execRun cfg env.run ctx s (nkvxKeyToOid req.key.val) name mod req.osize.toNat).outcome h st').1.1 := by
  unfold Calls.nkvxExecutorRun
  split
  · exact .inl rfl
  split
  · split
    · rw [outcome_bind]
      exact .inl rfl
    unfold Calls.nkvxRunWasm
    rw [outcome_bind]
    cases ((Calls.execGate cfg env.fetchAlloc s req).outcome h st).1 with
    | error status => exact .inl rfl
    | ok mod =>
      dsimp only
      split
      · exact .inl rfl
      rw [outcome_bind]
      exact .inr ⟨_, mod, _, rfl⟩
  · exact .inl rfl

end Requests

section Runs

variable {api : WasmApi} {lib : Librados} {cfg : WasmConfig} {ctx : IoCtx} {key : Bytes}

def Node.reads (cfg : WasmConfig) (ctx : IoCtx) (oid : Bytes) (n : Node api lib) (req : Request) : Nat :=
  if n.executor.wasm.cache.fault then 0 else readsOf lib.answer ctx oid (serveRequest cfg n.executor req) n.rados

structure Tally (api : WasmApi) (lib : Librados) where
  node : Node api lib
  reads : Nat

namespace Tally

def cache (t : Tally api lib) : Cache api.Module := t.node.executor.wasm.cache

def step (cfg : WasmConfig) (ctx : IoCtx) (key : Bytes) (t : Tally api lib) (req : Request) : Tally api lib :=
  ⟨t.node.step cfg req, t.reads + t.node.reads cfg ctx (nkvxKeyToOid key) req⟩

def init (api : WasmApi) {lib : Librados} (ctx : IoCtx) (rados : lib.State) : Tally api lib :=
  ⟨⟨⟨.rados ctx, .init api⟩, rados⟩, 0⟩

/-- The caps do not evict the key's entry in this request. -/
def NotEvicted (cfg : WasmConfig) (ctx : IoCtx) (key : Bytes) (t : Tally api lib) (req : Request) : Prop :=
  (t.node.access cfg ctx req).Spares cfg t.cache (nkvxKeyToOid key)

structure Once (ctx : IoCtx) (key : Bytes) (t : Tally api lib) : Prop where
  backend : t.node.executor.backend = .rados ctx
  counted : t.cache.Counted [] t.cache.fault
  once : t.cache.Lacks (nkvxKeyToOid key) ∧ t.reads = 0 ∨
    t.cache.Has (nkvxKeyToOid key) ∧ t.cache.SoleAt (nkvxKeyToOid key) ∧ t.reads ≤ 1

end Tally

lemma ReadsOnce.once {k : Bytes} {μ : Type} {c c' : Cache μ} {reads total : Nat} (h : ReadsOnce k c c' reads)
    (ho : c.Lacks k ∧ total = 0 ∨ c.Has k ∧ c.SoleAt k ∧ total ≤ 1) :
    c'.Lacks k ∧ total + reads = 0 ∨ c'.Has k ∧ c'.SoleAt k ∧ total + reads ≤ 1 := by
  rcases h with ⟨rfl, hf, hh⟩ | ⟨rfl, hl, hs, hh⟩
  · rcases ho with ⟨hl, ht⟩ | ⟨ha, hs, ht⟩
    · exact .inl ⟨hf.lacks hl, ht⟩
    · exact .inr ⟨hh ha, hf.soleAt hs, ht⟩
  rcases ho with ⟨-, rfl⟩ | ⟨ha, -, -⟩
  · exact .inr ⟨hh, hs, le_refl 1⟩
  · exact absurd ha hl.not_has

lemma step_outcome {n : Node api lib} (ho : n.executor.wasm.cache.fault = false) (cfg : WasmConfig) (req : Request) :
    n.step cfg req = ⟨((serveRequest cfg n.executor req).outcome lib.answer n.rados).1.1,
      ((serveRequest cfg n.executor req).outcome lib.answer n.rados).2⟩ := by
  unfold Node.step
  rw [ho, run_eq_outcome]
  rfl

lemma serve_counted (cfg : WasmConfig) {σ : Type} {h : Prog.Handler RadosOp RadosOp.Resp Empty σ} (st : σ) {ex : ExecutorState api}
    (hrad : ex.backend = .rados ctx) (hinv : ex.wasm.cache.Counted [] false) (req : Request) :
    ((serveRequest cfg ex req).outcome h st).1.1.backend = .rados ctx ∧
      ∃ fault, ((serveRequest cfg ex req).outcome h st).1.1.wasm.cache.Counted [] fault := by
  cases req with
  | kv req env =>
    by_cases hv : ofByte req.verb = .retrieve
    · unfold serveRequest Calls.nkvxExecutorKv Calls.nkvxRetrieve
      dsimp only
      rw [hv, hrad]
      dsimp only
      split
      · exact ⟨hrad, false, hinv⟩
      rw [outcome_bind, outcome_pure]
      rw [Calls.retrieveRados_outcome]
      exact ⟨rfl, false, counted_retrieve cfg hinv ..⟩
    rcases kv_state cfg env st (h := h) hrad hv with he | ⟨-, he⟩
    · rw [serveRequest, he]
      exact ⟨hrad, false, hinv⟩
    rw [serveRequest, he]
    exact ⟨hrad, false, hinv.invalidate _⟩
  | exec req env =>
    unfold serveRequest
    rw [hrad]
    rw [outcome_bind, outcome_pure]
    refine ⟨rfl, ?_⟩
    rcases exec_state cfg env ctx ex.wasm req st (h := h) with he | ⟨name, mod, st', he⟩
    · rw [he]
      exact ⟨false, hinv⟩
    rw [he, Calls.execRun_outcome ⟨.error .inval, env.outAlloc, env.resAlloc, env.run⟩]
    exact counted_execRun_any hinv ..

lemma Tally.Once.step {t : Tally api lib} {req : Request} (ht : t.Once ctx key) (havl : cfg.available = true)
    (hkey : key ≠ []) (hfit : cstrFit 256 (nkvxKeyToOid key) = nkvxKeyToOid key)
    (hrds : AnswersReads lib.answer ctx (nkvxKeyToOid key)) (hp : req.Spares ctx key) (ha : req.Allocates key)
    (hc : t.NotEvicted cfg ctx key req) : (t.step cfg ctx key req).Once ctx key := by
  by_cases ho : t.node.executor.wasm.cache.fault = false
  · have hinv : t.cache.Counted [] false := by
      have := ht.counted
      rwa [show t.cache.fault = false from ho] at this
    have hstat : t.cache.Lacks (nkvxKeyToOid key) ∨ t.cache.Has (nkvxKeyToOid key) :=
      ht.once.imp And.left And.left
    have hrds : ReadsOnce (nkvxKeyToOid key) t.cache
        ((serveRequest cfg t.node.executor req).outcome lib.answer t.node.rados).1.1.wasm.cache
        (readsOf lib.answer ctx (nkvxKeyToOid key) (serveRequest cfg t.node.executor req) t.node.rados) := by
      cases req with
      | kv req env => exact readsOnce_kv ht.backend hinv hstat havl hkey hfit hrds hp ha hc
      | exec req env =>
        unfold serveRequest
        rw [ht.backend]
        rw [readsOf_bind, outcome_bind]
        exact readsOnce_exec hinv hstat havl hkey hfit hrds hp hc
    obtain ⟨hb, fault, hcn'⟩ := serve_counted cfg (h := lib.answer) t.node.rados ht.backend hinv req
    have hs := step_outcome ho cfg req
    have hn : t.node.reads cfg ctx (nkvxKeyToOid key) req =
        readsOf lib.answer ctx (nkvxKeyToOid key) (serveRequest cfg t.node.executor req) t.node.rados :=
      if_neg (by rw [ho]; exact Bool.false_ne_true)
    unfold Tally.step
    rw [hs, hn]
    exact ⟨hb, hcn'.objs.fault.symm ▸ hcn', hrds.once ht.once⟩
  have hf : t.node.executor.wasm.cache.fault = true := by simpa using ho
  have hs : t.step cfg ctx key req = t := by
    unfold Tally.step Node.step Node.reads
    rw [if_pos hf, if_pos hf]
    rfl
  rw [hs]
  exact ht

/-- On a fresh executor, the object of a key of at most 127 bytes is read at most once and has at
most one entry, whatever requests come that do not store or delete it, as long as no cap evicts its
entry, a Retrieve of the key has memory for the slot, librados reads what it has just stated, and no
Exec names the object as its module. -/
theorem cold_fill_once (cfg : WasmConfig) (rados : lib.State) (reqs : List Request)
    (havail : cfg.available = true)
    (hkey : key ≠ []) (hlen : key.length ≤ 127)
    (hreads : AnswersReads lib.answer ctx (nkvxKeyToOid key))
    (hspares : ∀ req ∈ reqs, req.Spares ctx key) (halloc : ∀ req ∈ reqs, req.Allocates key)
    (hcaps : Machine.Along (Tally.step cfg ctx key) (Tally.NotEvicted cfg ctx key)
      (.init api ctx rados) reqs) :
    let t := Machine.run (Tally.step cfg ctx key) (.init api ctx rados) reqs
    t.reads ≤ 1 ∧
      (t.cache.objects.filter fun o => o.objKey = cstrFit 256 (nkvxKeyToOid key)).length ≤ 1 := by
  intro t
  have hfit : cstrFit 256 (nkvxKeyToOid key) = nkvxKeyToOid key :=
    take_of_length_le (by rw [length_keyToOid]; omega)
  have hint : (Tally.init api ctx rados : Tally api lib).Once ctx key := ⟨rfl, .init, .inl ⟨nofun, rfl⟩⟩
  have hevn := Machine.along_of_forall (Tally.step cfg ctx key) (s := Tally.init api ctx rados)
    (N := fun req => req.Spares ctx key ∧ req.Allocates key) fun req hreq => ⟨hspares req hreq, halloc req hreq⟩
  have honc : t.Once ctx key := Machine.run_induct_along _ hint
    (fun _ _ ht hG => ht.step havail hkey hfit hreads hG.1.1 hG.1.2 hG.2) (Machine.along_and _ hevn hcaps)
  have hnodup := honc.counted.objs.nodup
  rw [hfit]
  rcases honc.once with ⟨hlacks, hzr⟩ | ⟨-, hsl, hone⟩
  · exact ⟨hzr ▸ Nat.zero_le 1, hlacks.soleAt.length_le hnodup⟩
  · exact ⟨hone, hsl.length_le hnodup⟩

end Runs

lemma answersReads_cluster (faults : CallFaults) (hr : faults.read = none) (ctx : IoCtx) (oid : Bytes) :
    AnswersReads (clusterAnswer faults) ctx oid := by
  intro objs size len hs
  have hs' : radosCall faults.stat (objs.get (ctx, oid)) List.length = .ok size := hs
  cases hv : objs.get (ctx, oid) with
  | none =>
    rw [hv] at hs'
    cases hf : faults.stat <;> rw [hf] at hs' <;> cases hs'
  | some value =>
    refine ⟨value.take len, ?_⟩
    show radosCall faults.read (objs.get (ctx, oid)) (fun bytes => bytes.take len) = _
    rw [hr, hv]
    rfl

instance {μ : Type} (c : Cache μ) (k : Bytes) : Decidable (c.Has k) :=
  inferInstanceAs (Decidable (∃ o ∈ c.live, o.objKey = k))

instance {api : WasmApi} {lib : Librados} (cfg : WasmConfig) (ctx : IoCtx) (key : Bytes) (t : Tally api lib)
    (req : Request) : Decidable (t.NotEvicted cfg ctx key req) :=
  inferInstanceAs (Decidable (Cache.Has _ _ → Cache.Has _ _))

def retrieveOf (key : WireKey) : Request := .kv { oneByteMsg 2 0 with key := key, osize := 1 } freeAlloc

def execOf (key : WireKey) : Request :=
  .exec
    { opId := 0, clientCallId := 0, readOnly := 0, runtime := 1, caps := 0, key, sha256 := [5], sha256Valid := 1,
      moduleKey := some [109], moduleNs := some [109], osize := 1, inputLen := 0, inputInline := none,
      inputBulk := none, resultSink := none }
    ⟨true, true, true, .good⟩

def poolWith (key : Bytes) : Objects :=
  (Dict.empty.insert (dataPool, nkvxKeyToOid key) [1]).insert (⟨[109], []⟩, [109]) [5]

/-- A Retrieve, an Exec and a Retrieve read the object once. -/
theorem cold_fill_once_short :
    let key : WireKey := ⟨[107], by decide⟩
    let t := Machine.run (Tally.step .default dataPool key.val)
      (Tally.init toyApi dataPool (poolWith key.val) : Tally toyApi (cluster .none))
      [retrieveOf key, execOf key, retrieveOf key]
    t.cache.fault = false ∧ t.cache.objects.length = 1 ∧ t.reads ≤ 1 ∧
      (t.cache.objects.filter fun o => o.objKey = cstrFit 256 (nkvxKeyToOid key.val)).length ≤ 1 :=
  ⟨by decide +kernel, by decide +kernel,
    cold_fill_once .default _ _ rfl (by decide) (by decide) (answersReads_cluster .none rfl _ _)
      (by decide +kernel) (by decide +kernel) (by decide +kernel)⟩

/-- The object name of a key of 128 bytes is cut in its entry: one Retrieve reads the object twice,
and the second adds a second entry. -/
theorem long_key_filled_again :
    let key : WireKey := ⟨List.replicate 128 107, by simp⟩
    let t₁ := Tally.step .default dataPool key.val
      (Tally.init toyApi dataPool (poolWith key.val) : Tally toyApi (cluster .none))
        (retrieveOf key)
    let t₂ := t₁.step .default dataPool key.val (retrieveOf key)
    t₁.reads = 2 ∧ t₂.reads = 4 ∧ t₂.cache.fault = false ∧
      (t₂.cache.objects.filter fun o => o.objKey = cstrFit 256 (nkvxKeyToOid key.val)).length =
        2 := by
  decide +kernel

end RadosNkv
