import RadosNkv.Executor.Bookkeeping
import RadosNkv.Executor.CallsRefine

/-! Retrieve and the object part of Exec against any librados: they do what the model over answers
does on the answers that their calls got. -/

namespace RadosNkv

open Prog

variable {σ : Type} (h : Prog.Handler RadosOp RadosOp.Resp Empty σ) {cfg : WasmConfig} {ctx : IoCtx}
  {oid : Bytes}

namespace Calls

def fillReply {μ : Type} (cfg : WasmConfig) (alloc : Bool) (c : Cache μ) (ctx : IoCtx) (oid : Bytes) (size : Nat)
    (st : σ) : Except RadosErrno Bytes × σ :=
  match fillAsks cfg alloc c oid size with
  | none => (.error .inval, st)
  | some cap => (read ctx oid cap).outcome h st

/-- The answers to the calls of a request on `oid` that misses: `stat`, the read of the fill, and
the read of the bytes to deliver. -/
def replies {μ : Type} (cfg : WasmConfig) (alloc : Bool) (c : Cache μ) (ctx : IoCtx) (oid : Bytes) (osize : Nat)
    (st : σ) : RadosAnswers :=
  let stated := (stat ctx oid).outcome h st
  match stated.1 with
  | .error e => ⟨.error e, .error e, .error e⟩
  | .ok size =>
    let filled := fillReply h cfg alloc c ctx oid size stated.2
    ⟨.ok size, filled.1, ((read ctx oid (min osize (satU32 size))).outcome h filled.2).1⟩

variable {h}

lemma replies_of_error {μ : Type} {alloc : Bool} {c : Cache μ} {osize : Nat} {e : RadosErrno}
    (hs : ((stat ctx oid).outcome h st).1 = .error e) :
    replies h cfg alloc c ctx oid osize st = ⟨.error e, .error e, .error e⟩ := by
  unfold replies
  dsimp only
  rw [hs]

lemma replies_of_ok {μ : Type} (cfg : WasmConfig) (alloc : Bool) (c : Cache μ) (osize : Nat) {size : Nat}
    (hs : ((stat ctx oid).outcome h st).1 = .ok size) :
    let ans := replies h cfg alloc c ctx oid osize st
    let filled := fillReply h cfg alloc c ctx oid size ((stat ctx oid).outcome h st).2
    ans.stat = .ok size ∧ ans.fill = filled.1 ∧
      ans.direct = ((read ctx oid (min osize (satU32 size))).outcome h filled.2).1 := by
  unfold replies
  dsimp only
  rw [hs]
  exact ⟨rfl, rfl, rfl⟩

lemma nkvxObjFill_outcome {μ : Type} (h : Prog.Handler RadosOp RadosOp.Resp Empty σ) (cfg : WasmConfig) (alloc : Bool)
    (c : Cache μ) (ctx : IoCtx) (oid : Bytes) (size : Nat) (st : σ) :
    ((nkvxObjFill cfg alloc c ctx oid size).outcome h st).2 = (fillReply h cfg alloc c ctx oid size st).2 ∧
      ∀ ans : RadosAnswers, ans.fill = (fillReply h cfg alloc c ctx oid size st).1 →
        ∀ cap, fillAsks cfg alloc c oid size = some cap →
          RadosNkv.nkvxObjFill ans cap = ((nkvxObjFill cfg alloc c ctx oid size).outcome h st).1 := by
  unfold nkvxObjFill fillReply
  cases fillAsks cfg alloc c oid size with
  | none => exact ⟨rfl, fun _ _ => nofun⟩
  | some cap =>
    rw [outcome_bind]
    refine ⟨rfl, fun ans hf => ?_⟩
    rintro _ ⟨⟩
    rw [RadosNkv.nkvxObjFill, hf]
    rfl

lemma retrieveDirect_outcome (env : RetrieveEnv) {ans : RadosAnswers} (size osize : Nat) (st : σ)
    (hd : ans.direct = ((read ctx oid (min osize (satU32 size))).outcome h st).1) :
    ((retrieveDirect env.bufAlloc ctx oid size osize).outcome h st).1 = RadosNkv.retrieveDirect env ans size osize := by
  unfold retrieveDirect RadosNkv.retrieveDirect
  dsimp only
  split
  · rfl
  split
  · rfl
  rw [outcome_bind, hd]
  cases ((read ctx oid (min osize (satU32 size))).outcome h st).1 with
  | error e => cases e <;> rfl
  | ok bytes => rfl

lemma retrieveRados_outcome (env : RetrieveEnv) (s : WasmState api) (osize : Nat) :
    ((retrieveRados cfg env ctx s oid osize).outcome h st).1 =
      RadosNkv.nkvxRetrieve cfg env (replies h cfg env.objAlloc s.cache ctx oid osize st) s oid osize := by
  unfold retrieveRados RadosNkv.nkvxRetrieve
  cases hp : cachePin s.cache oid with
  | mk cache pin =>
    cases pin with
    | some pin => rfl
    | none =>
      obtain rfl : cache = s.cache := cachePin_none hp
      rw [outcome_bind]
      cases ht : ((stat ctx oid).outcome h st).1 with
      | error e =>
        rw [replies_of_error ht]
        cases e <;> rfl
      | ok size =>
        obtain ⟨hs, ha⟩ := nkvxObjFill_outcome h cfg env.objAlloc s.cache ctx oid size
          ((stat ctx oid).outcome h st).2
        obtain ⟨hz, hf, hd⟩ := replies_of_ok cfg env.objAlloc s.cache osize ht
        rw [hz, outcome_bind, cacheFill_asks (ha _ hf)]
        dsimp only
        generalize cacheFill cfg env.objAlloc s.cache oid size _ = r
        obtain ⟨cache', status⟩ := r
        cases status
        case success =>
          dsimp only
          generalize cachePin cache' oid = r
          obtain ⟨cache'', _ | pin⟩ := r
          · dsimp only
            rw [outcome_bind, hs, retrieveDirect_outcome env size osize _ hd]
            rfl
          · rfl
        all_goals
          rw [outcome_bind, hs, retrieveDirect_outcome env size osize _ hd]
          rfl

lemma execRun_outcome (env : ExecEnv) (s : WasmState api) (name : Bytes) (mod : ModSpec) (osize : Nat) :
    ((execRun cfg env.run ctx s oid name mod osize).outcome h st).1 =
      RadosNkv.execRun cfg env (replies h cfg env.run.objAlloc s.cache ctx oid osize st) s oid name mod osize := by
  unfold execRun RadosNkv.execRun
  cases hp : cachePin s.cache oid with
  | mk cache pin =>
    cases pin with
    | some pin => rfl
    | none =>
      obtain rfl : cache = s.cache := cachePin_none hp
      rw [outcome_bind]
      cases hs : ((stat ctx oid).outcome h st).1 with
      | error e =>
        rw [replies_of_error hs]
        cases e <;> rfl
      | ok size =>
        obtain ⟨_, ha⟩ := nkvxObjFill_outcome h cfg env.run.objAlloc s.cache ctx oid size
          ((stat ctx oid).outcome h st).2
        obtain ⟨hz, hf, _⟩ := replies_of_ok cfg env.run.objAlloc s.cache osize hs
        rw [hz, outcome_bind, runCached_asks (ha _ hf)]
        rfl

end Calls

end RadosNkv
