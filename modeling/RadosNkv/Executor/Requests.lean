import Mathlib.Tactic.SplitIfs
import RadosNkv.Executor.Verbs
import RadosNkv.Wasm.Moves

/-! What one request does to the executor: an Exec or a Retrieve moves the caches and may fill them;
a Store or a Delete drops the cached versions of its object and perhaps replaces its value. -/

namespace RadosNkv

variable {api : WasmApi}

lemma keyToOid_ne_nil (h : key ≠ []) : nkvxKeyToOid key ≠ [] := by
  cases key with
  | nil => exact absurd rfl h
  | cons b key => simp [nkvxKeyToOid]

def RadosAnswers.Fills (ans : RadosAnswers) (oid objKey : Bytes) (objectLen : Nat) (got : Bytes) : Prop :=
  objKey = oid ∧ ans.stat = .ok objectLen ∧ nkvxObjFill ans (backing objectLen - wasmObjOff) = .ok got

variable {s : WasmState api} {env : ExecEnv} {req : ExecIn} (cfg : WasmConfig)

lemma moves_execRun (env : ExecEnv) (ans : RadosAnswers) (s : WasmState api) (oid name : Bytes) (mod : ModSpec)
    (osize : Nat) : s.cache.Moves (ans.Fills oid) (execRun cfg env ans s oid name mod osize).1.cache := by
  have hp := (Cache.Sheds.pin s.cache oid).moves (F := ans.Fills oid)
  fun_cases execRun
  case case1 c pin he r =>
    rw [he] at hp
    have hr := moves_runPinned (F := ans.Fills oid) cfg env.run name (some mod) { s with cache := c }
      pin osize
    exact (hp.trans hr).trans (Cache.Sheds.unref _ pin).moves
  case case2 he _ _ =>
    rw [he] at hp
    exact hp
  case case3 he _ _ _ _ =>
    rw [he] at hp
    exact hp
  case case4 c he _ size hs =>
    rw [he] at hp
    refine hp.trans (moves_runCached cfg env.run name (some mod) { s with cache := c } ?_ osize)
    exact fun got hg => ⟨rfl, hs, hg⟩

def execGranted (cfg : WasmConfig) (env : ExecEnv) (s : WasmState api) (req : ExecIn) :
    Option ModSpec :=
  if req.key = [] ∨ req.runtime ≠ .nkvx ∨
      (req.moduleNs = some (cstr ['n', 'k', 'v', 'x']) ∧ req.moduleKey.isSome) then none
  else
    match execGate cfg env s req with
    | .error _ => none
    | .ok mod => if req.osize > 0 && !env.outAlloc then none else some mod

lemma executorRun_granted {cfg : WasmConfig} (h : execGranted cfg env s req = some mod) (ans : RadosAnswers)
    (input : Option Bytes) :
    nkvxExecutorRun cfg env ans s req input =
      let r := execRun cfg env ans s (nkvxKeyToOid req.key) (runName (req.moduleKey.getD [])) mod req.osize
      (r.1, ⟨r.2.status, r.2.resultLen, if min req.osize r.2.resultLen = 0 then none else some r.2.out⟩) := by
  unfold execGranted at h
  split at h
  · cases h
  next hr =>
  obtain ⟨hk, hr⟩ := not_or.mp hr
  obtain ⟨ht, hb⟩ := not_or.mp hr
  unfold nkvxExecutorRun
  rw [if_neg hk, if_pos (not_not.mp ht), if_neg hb, nkvxRunWasm]
  cases hg : execGate cfg env s req with
  | error status =>
    rw [hg] at h
    cases h
  | ok mod' =>
    rw [hg] at h
    dsimp only at h ⊢
    split at h
    · cases h
    next ha =>
    cases h
    rw [if_neg ha]

lemma executorRun_refused {cfg : WasmConfig} (h : execGranted cfg env s req = none) (ans : RadosAnswers)
    (input : Option Bytes) : (nkvxExecutorRun cfg env ans s req input).1 = s := by
  unfold nkvxExecutorRun
  split_ifs with hk hr hb
  · rfl
  · rfl
  · unfold execGranted at h
    rw [if_neg (by tauto)] at h
    unfold nkvxRunWasm
    cases hg : execGate cfg env s req with
    | error status => rfl
    | ok mod =>
      rw [hg] at h
      dsimp only at h ⊢
      split at h
      · next ha => rw [if_pos ha]
      · cases h
  · rfl

lemma execGranted_key {cfg : WasmConfig} (h : execGranted cfg env s req = some mod) : req.key ≠ [] := by
  rintro hn
  simp [execGranted, hn] at h

lemma execGranted_spec {cfg : WasmConfig} (h : execGranted cfg env s req = some mod) :
    mod.sha256 = req.sha256 ∧ mod.caps = req.caps ∧ mod.readOnly = req.readOnly := by
  have hg : ∀ mod', execGate cfg env s req = .ok mod' →
      mod'.sha256 = req.sha256 ∧ mod'.caps = req.caps ∧ mod'.readOnly = req.readOnly := by
    intro mod'
    fun_cases execGate
    all_goals
      intro h
      cases h
    all_goals exact ⟨rfl, rfl, rfl⟩
  unfold execGranted at h
  split at h
  · cases h
  cases he : execGate cfg env s req with
  | error status =>
    rw [he] at h
    cases h
  | ok mod' =>
    rw [he] at h
    dsimp only at h
    split at h <;> cases h
    exact hg _ he

lemma moves_executorRun (env : ExecEnv) (ans : RadosAnswers) (s : WasmState api) (req : ExecIn)
    (input : Option Bytes) : s.cache.Moves (ans.Fills (nkvxKeyToOid req.key))
      (nkvxExecutorRun cfg env ans s req input).1.cache := by
  cases h : execGranted cfg env s req with
  | none => rw [executorRun_refused h]
  | some mod =>
    rw [executorRun_granted h]
    exact moves_execRun ..

lemma draws_retrieve (env : RetrieveEnv) (ans : RadosAnswers) (s : WasmState api) (oid : Bytes)
    (osize : Nat) :
    ∃ c, (nkvxRetrieve cfg env ans s oid osize).1 = { s with cache := c } ∧
      s.cache.Draws (ans.Fills oid) c := by
  have hp : ∀ {c c' : Cache api.Module} {p}, cachePin c oid = (c', p) →
      c.Draws (ans.Fills oid) c' := by
    intro c c' p he
    have hh := Cache.Sheds.pin c oid
    rw [he] at hh
    exact hh.draws
  have hf : ∀ {c c' : Cache api.Module} {size status}, ans.stat = .ok size →
      cacheFill cfg env.objAlloc c oid size (nkvxObjFill ans) = (c', status) →
      c.Draws (ans.Fills oid) c' := by
    intro c c' size status hs he
    have hm := draws_cacheFill (F := ans.Fills oid) cfg (fun got hg => ⟨rfl, hs, hg⟩)
      env.objAlloc c
    rw [he] at hm
    exact hm
  fun_cases nkvxRetrieve
  case case1 he => exact ⟨_, rfl, (hp he).trans (Cache.Sheds.unref _ _).draws⟩
  case case2 he _ _ => exact ⟨_, rfl, hp he⟩
  case case3 he _ _ _ _ => exact ⟨_, rfl, hp he⟩
  case case4 he _ size hs c he' c' p he'' =>
    exact ⟨_, rfl, (((hp he).trans (hf hs he')).trans (hp he'')).trans
      (Cache.Sheds.unref _ _).draws⟩
  case case5 he _ size hs c he' c' he'' =>
    exact ⟨_, rfl, ((hp he).trans (hf hs he')).trans (hp he'')⟩
  case case6 he _ size hs c status _ he' => exact ⟨_, rfl, (hp he).trans (hf hs he')⟩

inductive Executor.Mutates (ex : Executor api) (oid : Bytes) : Executor api → Prop
  | refused : Mutates ex oid ex
  | dropped : Mutates ex oid (ex.invalidate oid)
  | wrote (value : Option Bytes) : Mutates ex oid ((ex.invalidate oid).write oid value)

lemma store_mutates (opAlloc : Bool) (faults : RadosFaults) (ex : Executor api) (oid : Bytes)
    (req : KvIn) (value : Option Bytes) : ex.Mutates oid (nkvxStore opAlloc faults ex oid req value).1 := by
  unfold nkvxStore
  dsimp only
  split_ifs
  · exact .refused
  · exact .refused
  · exact .dropped
  · exact .dropped
  · exact .dropped
  · exact .dropped
  · exact .wrote _

lemma delete_mutates (faults : RadosFaults) (ex : Executor api) (oid : Bytes) (req : KvIn) :
    ex.Mutates oid (nkvxDelete faults ex oid req).1 := by
  unfold nkvxDelete
  dsimp only
  split_ifs
  · exact .refused
  · exact .dropped
  · exact .dropped
  · exact .wrote _

def ExecutorEvent.isExec : ExecutorEvent → Bool
  | .exec .. => true
  | _ => false

/-- What one request does to the executor. -/
inductive Executor.Does (cfg : WasmConfig) (ex : Executor api) : ExecutorEvent → Executor api → Prop
  | exec (req : ExecIn) (input : Option Bytes) (env : ExecEnv) (faults : RadosFaults) :
      Does cfg ex (.exec req input env faults) { ex with
        wasm := (nkvxExecutorRun cfg env (ex.answers faults (nkvxKeyToOid req.key)) ex.wasm req input).1 }
  | retrieve {req : KvIn} {env : RetrieveEnv} {faults : RadosFaults} {c : Cache api.Module}
      (h : ex.wasm.cache.Draws
        ((ex.answers faults (nkvxKeyToOid req.key)).Fills (nkvxKeyToOid req.key)) c) :
      Does cfg ex (.retrieve req env faults) { ex with wasm := { ex.wasm with cache := c } }
  | store {req : KvIn} {value : Option Bytes} {opAlloc : Bool} {faults : RadosFaults}
      {ex' : Executor api} (hkey : req.key ≠ []) (h : ex.Mutates (nkvxKeyToOid req.key) ex') :
      Does cfg ex (.store req value opAlloc faults) ex'
  | delete {req : KvIn} {faults : RadosFaults} {ex' : Executor api} (hkey : req.key ≠ [])
      (h : ex.Mutates (nkvxKeyToOid req.key) ex') : Does cfg ex (.delete req faults) ex'
  | idle {ev : ExecutorEvent} (h : ev.isExec = false) : Does cfg ex ev ex

lemma handle_does (ex : Executor api) (ev : ExecutorEvent) : ex.Does cfg ev (ex.handle cfg ev).1 := by
  cases ev with
  | exec req input env faults => exact .exec req input env faults
  | retrieve req env faults =>
    simp only [Executor.handle]
    split
    · exact .idle rfl
    obtain ⟨c, he, hm⟩ := draws_retrieve cfg env (ex.answers faults (nkvxKeyToOid req.key))
      ex.wasm (nkvxKeyToOid req.key) req.osize
    rw [he]
    exact .retrieve hm
  | store req value opAlloc faults =>
    simp only [Executor.handle]
    split
    · exact .idle rfl
    · next hk => exact .store hk (store_mutates opAlloc faults ex _ req value)
  | delete req faults =>
    simp only [Executor.handle]
    split
    · exact .idle rfl
    · next hk => exact .delete hk (delete_mutates faults ex _ req)
  | exist req faults =>
    simp only [Executor.handle]
    split <;> exact .idle rfl

end RadosNkv
