import RadosNkv.Executor.Requests
import RadosNkv.Wasm.Eviction

/-! The bookkeeping of the caches under the executor, which handles one request at a time: between
two requests no pin is outstanding. -/

namespace RadosNkv

variable {api : WasmApi} (cfg : WasmConfig)

section Requests

variable {s : WasmState api}

lemma counted_pinned (h : s.cache.Counted [] false) (he : cachePin s.cache oid = (c, p)) :
    c.Counted p.toList false := by
  have hc := h.pin oid
  rw [he] at hc
  simpa using hc

lemma cachePin_none {μ : Type} {c c' : Cache μ} (he : cachePin c oid = (c', none)) : c' = c := by
  revert he
  fun_cases cachePin
  case case3 =>
    intro he
    cases he
  all_goals exact fun he => (Prod.mk.inj he).1.symm

lemma counted_retrieve (h : s.cache.Counted [] false) (env : RetrieveEnv) (ans : RadosAnswers)
    (oid : Bytes) (osize : Nat) : (nkvxRetrieve cfg env ans s oid osize).1.cache.Counted [] false := by
  have hf : ∀ {c c' : Cache api.Module} {size status}, c.Counted [] false →
      cacheFill cfg env.objAlloc c oid size (nkvxObjFill ans) = (c', status) → c'.Counted [] false := by
    intro c c' size status hc he
    have hn := hc.cacheFill cfg env.objAlloc oid size (nkvxObjFill ans)
    rw [he] at hn
    exact hn
  fun_cases nkvxRetrieve
  case case1 he => exact (counted_pinned h he).unref
  case case2 he _ _ => exact counted_pinned h he
  case case3 he _ _ _ _ => exact counted_pinned h he
  case case4 he _ size hs c he' c' p he'' =>
    exact (counted_pinned (s := { s with cache := c }) (hf (counted_pinned h he) he') he'').unref
  case case5 he _ size hs c he' c' he'' =>
    exact counted_pinned (s := { s with cache := c }) (hf (counted_pinned h he) he') he''
  case case6 he _ size hs c status _ he' => exact hf (counted_pinned h he) he'

lemma counted_execRun (h : s.cache.Counted [] false) (env : ExecEnv) (ans : RadosAnswers) (name : Bytes)
    (mod : ModSpec) (osize : Nat) (hf : cfg.objMaxBytes = 0 ∨
      ∀ size, ans.stat = .ok size → s.cache.retained [] + backing size ≤ cfg.objMaxBytes) :
    (execRun cfg env ans s oid name mod osize).1.cache.Counted [] false := by
  fun_cases execRun
  case case1 c p he r =>
    have hp : c.Counted [p] false := counted_pinned h he
    obtain ⟨o, _, _, ho⟩ := hp.objs.obj_of_ref (List.mem_append_left _ (List.mem_singleton_self p))
    have hr : r.1.cache.Counted [p] false :=
      counted_runPinned cfg env.run name (some mod) (s := { s with cache := c }) hp ho osize
    exact hr.unref
  case case4 c he _ size hs =>
    have hm : c = s.cache := cachePin_none he
    subst hm
    exact counted_runCached_fits cfg env.run name (some mod) h oid _ osize
      (hf.imp_right fun hl => hl size hs)
  case case2 he _ _ => exact counted_pinned h he
  case case3 he _ _ _ _ => exact counted_pinned h he

end Requests

variable {ex ex' : Executor api}

lemma counted_mutates (h : ex.wasm.cache.Counted [] false) (hm : ex.Mutates oid ex') :
    ex'.wasm.cache.Counted [] false := by
  cases hm with
  | refused => exact h
  | dropped => exact h.invalidate oid
  | wrote => exact h.invalidate oid

/-- The object of an Exec fits the byte cap beside the entries that cannot be evicted. -/
def Executor.Fits (ex : Executor api) : ExecutorEvent → Prop
  | .exec req _ _ faults =>
    cfg.objMaxBytes = 0 ∨ ∀ size, (ex.answers faults (nkvxKeyToOid req.key)).stat = .ok size →
      ex.wasm.cache.retained [] + backing size ≤ cfg.objMaxBytes
  | _ => True

lemma counted_fits (h : ex.wasm.cache.Counted [] false) (hf : ex.Fits cfg ev) :
    (ex.step cfg ev).wasm.cache.Counted [] false := by
  have hs : ex.step cfg ev = (ex.handle cfg ev).1 := if_neg (by simp [h.objs.fault])
  rw [hs]
  cases ev with
  | exec req input env faults =>
    show (nkvxExecutorRun cfg env _ ex.wasm req input).1.cache.Counted [] false
    cases hg : execGranted cfg env ex.wasm req with
    | none =>
      rw [executorRun_refused hg]
      exact h
    | some mod =>
      rw [executorRun_granted hg]
      exact counted_execRun cfg h env _ _ mod req.osize hf
  | retrieve req env faults =>
    simp only [Executor.handle]
    split
    · exact h
    · exact counted_retrieve cfg h ..
  | store req value opAlloc faults =>
    simp only [Executor.handle]
    split
    · exact h
    · exact counted_mutates h (store_mutates opAlloc faults ex _ req value)
  | delete req faults =>
    simp only [Executor.handle]
    split
    · exact h
    · exact counted_mutates h (delete_mutates faults ex _ req)
  | exist req faults =>
    simp only [Executor.handle]
    split <;> exact h

end RadosNkv
