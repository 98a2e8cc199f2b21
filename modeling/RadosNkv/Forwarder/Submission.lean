import RadosNkv.Forwarder.Handler

/-! The life of a command at the bdev (`bdev_kvrados.c`): the exits of `kvrados_submit_request`, the
callbacks that the front owes, and aborts in between. -/

namespace RadosNkv

open List Function

open Memory (Seg)
open Ledger (Accounted Passed)

structure KvIoCtx where
  bdevIo : Nat
  isExec : Bool
  cancelToken : Nat
  inputBounce : Option Nat

inductive BdevCompletion where
  | nvme (status : NvmeStatus)
  | bdev (success : Bool)
deriving DecidableEq

inductive BdevAct where
  | forwarded (io : Nat) (frc : Int)
  | completed (io : Nat) (c : BdevCompletion)
  | ctxFreed (ctx : Nat)
  | bounceFreed (block : Nat)
deriving DecidableEq

inductive DoneCb where
  | retrieveDone
  | execDone

inductive BdevIo where
  | kv (opc : Nat)
  | abort (toAbort : Nat)

structure KvradosChannel where
  ios : List BdevIo
  ctxs : Nat → Option KvIoCtx
  nextCtx : Nat
  nextBlock : Nat
  execInflight : List Nat
  owed : Nat → Option DoneCb
  acts : List BdevAct
  fault : Bool

structure BdevEnv extends KvIoEnv where
  frc : Int
  token : Nat

structure BdevConfig where
  mercury : Bool
  front : Bool
  nsid : Nat
  disk : KvradosDisk

structure BdevKvIo where
  mem : HostMem
  cmd : NvmeCmd
  iovs : List Seg

def nkvxTokenNone : Nat := 0

namespace KvradosChannel

def new : KvradosChannel := ⟨[], fun _ => none, 0, 0, [], fun _ => none, [], false⟩

variable (s : KvradosChannel)

def complete (io : Nat) (c : BdevCompletion) : KvradosChannel :=
  { s with acts := .completed io c :: s.acts }

def reject (io sct sc : Nat) : KvradosChannel :=
  s.complete io (.nvme (kvradosReject sct sc))

def freeCtx (c : Nat) : KvradosChannel :=
  { s with ctxs := Function.update s.ctxs c none, acts := .ctxFreed c :: s.acts }

def freeBounce : Option Nat → KvradosChannel
  | none => s
  | some b => { s with acts := .bounceFreed b :: s.acts }

def kvradosRetrieveDone (c : Nat) (status : IoStatus) (valueLen : Nat) : KvradosChannel :=
  match s.ctxs c with
  | none => { s with fault := true }
  | some ctx =>
    ((s.complete ctx.bdevIo (.nvme (kvradosComplete status valueLen))).freeBounce ctx.inputBounce).freeCtx c

def kvradosExecComplete (c : Nat) (status : IoStatus) (resultLen : Nat) : KvradosChannel :=
  match s.ctxs c with
  | none => { s with fault := true }
  | some ctx =>
    let s :=
      if ctx.isExec then
        { s with
          execInflight := s.execInflight.erase c
          ctxs := Function.update s.ctxs c (some { ctx with isExec := false }) }
      else s
    ((s.complete ctx.bdevIo (.nvme (kvradosComplete status resultLen))).freeBounce ctx.inputBounce).freeCtx c

def withBounce (io : Nat) (needs : Bool) (env : BdevEnv)
    (k : KvradosChannel → Option Nat → KvradosChannel) : KvradosChannel :=
  if needs then
    if env.bounce then k { s with nextBlock := s.nextBlock + 1 } (some s.nextBlock)
    else s.reject io sctGeneric scInternalDeviceError
  else k s none

def withCtx (ctx : KvIoCtx) (env : BdevEnv) (k : KvradosChannel → Nat → KvradosChannel) :
    KvradosChannel :=
  if env.kctx then
    k { s with ctxs := Function.update s.ctxs s.nextCtx (some ctx), nextCtx := s.nextCtx + 1 } s.nextCtx
  else (s.freeBounce ctx.inputBounce).reject ctx.bdevIo sctGeneric scInternalDeviceError

def forward (io : Nat) (frc : Int) : KvradosChannel :=
  { s with acts := .forwarded io frc :: s.acts }

def insertTail (c : Nat) : KvradosChannel := { s with execInflight := s.execInflight ++ [c] }

def setToken (c token : Nat) : KvradosChannel :=
  { s with ctxs := Function.update s.ctxs c ((s.ctxs c).map fun x => { x with cancelToken := token }) }

def owe (c : Nat) (cb : DoneCb) : KvradosChannel :=
  { s with owed := Function.update s.owed c (some cb) }

def forwardBase (io : Nat) (bounce : Option Nat) (env : BdevEnv) : KvradosChannel :=
  s.withCtx ⟨io, false, nkvxTokenNone, bounce⟩ env fun s c =>
    let s := s.forward io env.frc
    if env.frc ≠ 0 then ((s.freeBounce bounce).freeCtx c).reject io sctGeneric scInternalDeviceError
    else s.owe c .retrieveDone

variable (cfg : BdevConfig)

def overMercury (io : Nat) (k : KvradosChannel) : KvradosChannel :=
  if !cfg.mercury then s.reject io sctGeneric scInvalidOpcode
  else if !cfg.front then s.reject io sctGeneric scInternalDeviceError
  else k

/-- The run of an Exec that is on the list: a native built-in at once, any other module over
Mercury. -/
def execForward (io c : Nat) (b : ResolvedBinding) (native : ExecResult)
    (env : BdevEnv) : KvradosChannel :=
  if b.runtime = .nkvx ∧ b.moduleNs = some (cstr ['n', 'k', 'v', 'x']) ∧ native.status ≠ .notSupported then
    s.kvradosExecComplete c native.status native.resultLen
  else if !cfg.mercury then s.kvradosExecComplete c .notSupported 0
  else if !cfg.front then s.kvradosExecComplete c .notSupported 0
  else
    let s := s.forward io env.frc
    if env.frc ≠ 0 then s.kvradosExecComplete c .failed 0 else (s.setToken c env.token).owe c .execDone

def kvradosHandleExec (io : Nat) (r : BdevKvIo) (key : Bytes)
    (valueOff payloadLen : Nat) (env : BdevEnv) : KvradosChannel :=
  if key = [] then s.reject io sctGeneric scInvalidKeySize
  else
    match kvradosExecOpAllowed cfg.disk r.cmd.cdw13 with
    | none => s.reject io sctGeneric scInvalidOpcode
    | some e =>
      match e.binding with
      | none => s.reject io sctGeneric scInvalidField
      | some b =>
        if b.caps > execCapsTierMax then s.reject io sctGeneric scInvalidField
        else
          -- The input is found without a bounce where the first segment has all of it.
          let needs := !(execInput r.mem r.iovs valueOff payloadLen false).isOk
          s.withBounce io needs env fun s bounce =>
            let (inputLen, input) := (execInput r.mem r.iovs valueOff payloadLen true).toOption.getD (0, none)
            let sink := execSink r.iovs valueOff r.cmd.cdw12
            s.withCtx ⟨io, true, nkvxTokenNone, bounce⟩ env fun s c =>
              (s.insertTail c).execForward cfg io c b (kvradosNativeBuiltinExec b.moduleKey input inputLen sink) env

def kvradosHandleKvIo (io : Nat) (r : BdevKvIo) (env : BdevEnv) :
    KvradosChannel :=
  let payloadLen := Memory.total r.iovs
  let parsed := kvradosParseInpayloadKey r.mem r.iovs payloadLen
  let opc := r.cmd.opc
  if cfg.disk.readOnly ∧ (opc = opcKvStore ∨ opc = opcKvDelete) then
    s.reject io sctCommandSpecific scAttemptedWriteToRoRange
  else if opc = opcKvRetrieve ∨ opc = opcKvDelete ∨ opc = opcKvExist then
    match parsed with
    | none => s.reject io sctGeneric scInvalidField
    | some _ => s.overMercury cfg io (s.forwardBase io none env)
  else if opc = opcKvStore then
    match parsed with
    | none => s.reject io sctGeneric scInvalidField
    | some (_, valueOff) =>
      let valueLen := min (payloadLen - valueOff) (2 ^ 32 - 1)
      let needs := !(storeValue r.mem r.iovs valueOff valueLen false).isOk
      s.overMercury cfg io (s.withBounce io needs env fun s bounce => s.forwardBase io bounce env)
  else if opc = opcKvList then s.overMercury cfg io (s.forwardBase io none env)
  else if opc = opcKvExec then
    let (key, valueOff) := parsed.getD ([], 0)
    s.kvradosHandleExec cfg io r key valueOff payloadLen env
  else s.reject io sctGeneric scInvalidOpcode

/-- `kvrados_handle_abort`: it completes the abort and leaves the Exec to its own callback. -/
def kvradosHandleAbort (io toAbort : Nat) (cancelled : Bool) :
    KvradosChannel :=
  let found := s.execInflight.findSome? fun c => (s.ctxs c).filter fun x => x.bdevIo = toAbort
  let aborted :=
    match found with
    | none => false
    | some ctx => cfg.mercury && cfg.front && ctx.cancelToken != nkvxTokenNone && cancelled
  s.complete io (.bdev aborted)

end KvradosChannel

inductive BdevEvent where
  | kv (r : BdevKvIo) (env : BdevEnv)
  | abort (toAbort : Nat) (cancelled : Bool)
  | done (ctx : Nat) (status : IoStatus) (len : Nat)

namespace KvradosChannel

def submitted (s : KvradosChannel) (io : BdevIo) : KvradosChannel := { s with ios := s.ios ++ [io] }

def returned (s : KvradosChannel) (c : Nat) : KvradosChannel := { s with owed := Function.update s.owed c none }

/-- `kvrados_submit_request` for the KV types and for aborts, and the calls of the completion
functions: the front calls one for a context that it was left with, and only then. -/
def step (cfg : BdevConfig) (s : KvradosChannel) : BdevEvent → KvradosChannel
  | .kv r env =>
    let io := s.ios.length
    let s := s.submitted (.kv r.cmd.opc)
    if r.cmd.nsid ≠ cfg.nsid then s.reject io sctGeneric scInvalidNamespaceOrFormat
    else s.kvradosHandleKvIo cfg io r env
  | .abort toAbort cancelled => (s.submitted (.abort toAbort)).kvradosHandleAbort cfg s.ios.length toAbort cancelled
  | .done c status len =>
    match s.owed c with
    | none => s
    | some .retrieveDone => (s.returned c).kvradosRetrieveDone c status len
    | some .execDone => (s.returned c).kvradosExecComplete c status len

/-! ### What one submission does -/

def completions (acts : List BdevAct) (io : Nat) : Nat :=
  acts.countP fun
    | .completed j _ => j = io
    | _ => false

def ctxFrees (acts : List BdevAct) (c : Nat) : Nat :=
  acts.countP fun
    | .ctxFreed j => j = c
    | _ => false

def bounceFrees (acts : List BdevAct) (b : Nat) : Nat :=
  acts.countP fun
    | .bounceFreed j => j = b
    | _ => false

/-- The command is completed, and what was allocated for it is freed again. -/
structure Settled (s : KvradosChannel) (io : Nat) (s' : KvradosChannel) : Prop where
  ios : s'.ios = s.ios
  ctxs : s'.ctxs = s.ctxs
  owed : s'.owed = s.owed
  inflight : s'.execInflight = s.execInflight
  fault : s'.fault = s.fault
  forwarded : ∀ k, .forwarded k 0 ∈ s'.acts → .forwarded k 0 ∈ s.acts
  completed : ∀ k, completions s'.acts k = completions s.acts k + if k = io then 1 else 0
  ctxFreed : Passed s.nextCtx s'.nextCtx (ctxFrees s.acts) (ctxFrees s'.acts)
  bounceFreed : Passed s.nextBlock s'.nextBlock (bounceFrees s.acts) (bounceFrees s'.acts)

def Bounced (s : KvradosChannel) (bounce : Option Nat) (n : Nat) : Prop :=
  (bounce = none ∧ n = s.nextBlock) ∨ (bounce = some s.nextBlock ∧ n = s.nextBlock + 1)

/-- The command is left to the front with context `x`. -/
structure Forwarded (s : KvradosChannel) (io : Nat) (x : KvIoCtx) (s' : KvradosChannel) : Prop where
  ios : s'.ios = s.ios
  ctxs : s'.ctxs = Function.update s.ctxs s.nextCtx (some x)
  owed : s'.owed = Function.update s.owed s.nextCtx (some (if x.isExec then .execDone else .retrieveDone))
  inflight : s'.execInflight = if x.isExec then s.execInflight ++ [s.nextCtx] else s.execInflight
  fault : s'.fault = s.fault
  acts : s'.acts = .forwarded io 0 :: s.acts
  nextCtx : s'.nextCtx = s.nextCtx + 1
  bdevIo : x.bdevIo = io
  bounced : s.Bounced x.inputBounce s'.nextBlock

def Handled (s : KvradosChannel) (io : Nat) (exec : Bool) (s' : KvradosChannel) : Prop :=
  s.Settled io s' ∨ ∃ x : KvIoCtx, x.isExec = exec ∧ s.Forwarded io x s'

structure CtxFresh (s : KvradosChannel) : Prop where
  ctxs : s.ctxs s.nextCtx = none
  inflight : s.nextCtx ∉ s.execInflight

def opened (s : KvradosChannel) (x : KvIoCtx) (n : Nat) : KvradosChannel :=
  { s with ctxs := Function.update s.ctxs s.nextCtx (some x), nextCtx := s.nextCtx + 1, nextBlock := n }

variable {s s' : KvradosChannel} {io n token : Nat}

lemma settled_complete (s : KvradosChannel) (io : Nat) (c : BdevCompletion) : s.Settled io (s.complete io c) where
  ios := rfl
  ctxs := rfl
  owed := rfl
  inflight := rfl
  fault := rfl
  forwarded k hk := by simpa [complete] using hk
  completed k := by simp [complete, completions, countP_cons, eq_comm]
  ctxFreed := .inl ⟨rfl, rfl⟩
  bounceFreed := .inl ⟨rfl, rfl⟩

lemma handled_reject (s : KvradosChannel) (io sct sc : Nat) : s.Handled io exec (s.reject io sct sc) :=
  .inl (s.settled_complete io _)

lemma handled_overMercury (hk : s.Handled io exec k) :
    s.Handled io exec (s.overMercury cfg io k) := by
  unfold overMercury
  cases cfg.mercury with
  | false => exact s.handled_reject io ..
  | true =>
    cases cfg.front with
    | false => exact s.handled_reject io ..
    | true => exact hk

lemma handled_withBounce
    (hk : ∀ bounce n, s.Bounced bounce n → s.Handled io exec (k { s with nextBlock := n } bounce)) :
    s.Handled io exec (s.withBounce io needs env k) := by
  unfold withBounce
  cases needs with
  | false => exact hk none s.nextBlock (.inl ⟨rfl, rfl⟩)
  | true =>
    cases env.bounce with
    | false => exact s.handled_reject io ..
    | true => exact hk (some s.nextBlock) (s.nextBlock + 1) (.inr ⟨rfl, rfl⟩)

lemma Bounced.settled_reject (hb : s.Bounced bounce n) (sct sc : Nat) :
    s.Settled io ((freeBounce { s with nextBlock := n } bounce).reject io sct sc) := by
  rcases hb with ⟨rfl, rfl⟩ | ⟨rfl, rfl⟩
  · exact s.settled_complete io _
  refine ⟨rfl, rfl, rfl, rfl, rfl, fun k hk => ?_, fun k => ?_, .inl ⟨rfl, rfl⟩, .inr ⟨rfl, fun k => ?_⟩⟩
  · simpa [reject, complete, freeBounce] using hk
  · simp [reject, complete, freeBounce, completions, countP_cons, eq_comm]
  · simp [reject, complete, freeBounce, bounceFrees, countP_cons, eq_comm]

lemma handled_withCtx (hb : s.Bounced bounce n)
    (hk : s.Handled io exec (k (s.opened ⟨io, exec, nkvxTokenNone, bounce⟩ n) s.nextCtx)) :
    s.Handled io exec (withCtx { s with nextBlock := n } ⟨io, exec, nkvxTokenNone, bounce⟩ env k) := by
  unfold withCtx
  cases env.kctx with
  | false => exact .inl (hb.settled_reject ..)
  | true => exact hk

/-- What becomes of a command that has a context: it is completed, and the context and the bounce
are freed. -/
structure Closes (acts acts' : List BdevAct) (c : Nat) (x : KvIoCtx) : Prop where
  forwarded : ∀ k, .forwarded k 0 ∈ acts' → .forwarded k 0 ∈ acts
  completed : ∀ k, completions acts' k = completions acts k + if k = x.bdevIo then 1 else 0
  ctxFreed : ∀ k, ctxFrees acts' k = ctxFrees acts k + if k = c then 1 else 0
  bounceFreed : ∀ k, bounceFrees acts' k = bounceFrees acts k + if x.inputBounce = some k then 1 else 0

variable {x : KvIoCtx} {c : Nat}

lemma Closes.passed (h : Closes s.acts acts' c x) (hb : s.Bounced x.inputBounce n) :
    Passed s.nextBlock n (bounceFrees s.acts) (bounceFrees acts') := by
  rcases hb with ⟨hn, rfl⟩ | ⟨hs, rfl⟩
  · refine .inl ⟨rfl, funext fun k => ?_⟩
    rw [h.bounceFreed, hn, if_neg (by simp), add_zero]
  refine .inr ⟨rfl, fun k => ?_⟩
  rw [h.bounceFreed, hs]
  simp [eq_comm]

def finished (s : KvradosChannel) (c : Nat) (x : KvIoCtx) (inflight : List Nat) (status : NvmeStatus) :
    KvradosChannel :=
  { s with
    ctxs := Function.update s.ctxs c none
    execInflight := inflight
    acts := .ctxFreed c :: (x.inputBounce.toList.map .bounceFreed ++ .completed x.bdevIo (.nvme status) :: s.acts) }

lemma finished_closes (s : KvradosChannel) (c : Nat) (x : KvIoCtx) (inflight : List Nat) (status : NvmeStatus) :
    Closes s.acts (s.finished c x inflight status).acts c x := by
  obtain ⟨bdevIo, isExec, token, bounce⟩ := x
  cases bounce <;> constructor <;> intro k <;>
    simp [finished, completions, ctxFrees, bounceFrees, countP_cons, eq_comm]

lemma Closes.of_forward (hf : frc ≠ 0) (h : Closes (s.forward io frc).acts acts' c x) :
    Closes s.acts acts' c x where
  forwarded k hk := by
    have hm := h.forwarded k hk
    rcases mem_cons.mp hm with he | hm
    · exact absurd (BdevAct.forwarded.inj he).2.symm hf
    · exact hm
  completed k := by simpa [forward, completions, countP_cons] using h.completed k
  ctxFreed k := by simpa [forward, ctxFrees, countP_cons] using h.ctxFreed k
  bounceFreed k := by simpa [forward, bounceFrees, countP_cons] using h.bounceFreed k

lemma retrieveDone_finished (hx : s.ctxs c = some x) (status : IoStatus) (len : Nat) :
    s.kvradosRetrieveDone c status len = s.finished c x s.execInflight (kvradosComplete status len) := by
  unfold kvradosRetrieveDone
  rw [hx]
  cases hb : x.inputBounce <;> simp [complete, freeBounce, freeCtx, finished, hb]

lemma execComplete_finished (hx : s.ctxs c = some x) (status : IoStatus) (len : Nat) :
    s.kvradosExecComplete c status len =
      s.finished c x (if x.isExec then s.execInflight.erase c else s.execInflight) (kvradosComplete status len) := by
  unfold kvradosExecComplete
  rw [hx]
  cases hb : x.inputBounce <;> cases he : x.isExec <;>
    simp [complete, freeBounce, freeCtx, finished, hb, he, update_idem]

variable {acts : List BdevAct}

lemma CtxFresh.settled (hnew : s.CtxFresh) (hb : s.Bounced x.inputBounce n)
    (hc : Closes s.acts acts s.nextCtx x) : s.Settled x.bdevIo
      { s.opened x n with ctxs := update (s.opened x n).ctxs s.nextCtx none, acts := acts } where
  ios := rfl
  ctxs := by
    show update (update s.ctxs s.nextCtx (some x)) s.nextCtx none = s.ctxs
    rw [update_idem, ← hnew.ctxs, update_eq_self]
  owed := rfl
  inflight := rfl
  fault := rfl
  forwarded := hc.forwarded
  completed := hc.completed
  ctxFreed := .inr ⟨rfl, hc.ctxFreed⟩
  bounceFreed := hc.passed hb

lemma CtxFresh.handled_forwardBase (hnew : s.CtxFresh) (hb : s.Bounced bounce n) :
    s.Handled io false (forwardBase { s with nextBlock := n } io bounce env) := by
  refine handled_withCtx hb ?_
  by_cases hf : env.frc = 0
  · simp only [if_neg (not_not.mpr hf)]
    refine .inr ⟨⟨io, false, nkvxTokenNone, bounce⟩, rfl, rfl, rfl, rfl, rfl, rfl, ?_, rfl, rfl, hb⟩
    rw [hf]
    rfl
  simp only [if_pos hf]
  refine .inl ?_
  have hc : Closes (s.forward io env.frc).acts
      (((((s.opened ⟨io, false, nkvxTokenNone, bounce⟩ n).forward io env.frc).freeBounce bounce).freeCtx
        s.nextCtx).reject io sctGeneric scInternalDeviceError).acts s.nextCtx
      ⟨io, false, nkvxTokenNone, bounce⟩ := by
    cases bounce <;> constructor <;> intro k <;>
      simp [reject, complete, freeBounce, freeCtx, opened, forward, completions, ctxFrees, bounceFrees,
        countP_cons, eq_comm]
  have hs := hnew.settled hb (hc.of_forward hf)
  cases bounce <;> exact hs

def linked (s : KvradosChannel) (x : KvIoCtx) (n : Nat) (acts : List BdevAct) : KvradosChannel :=
  { s.opened x n with execInflight := s.execInflight ++ [s.nextCtx], acts := acts }

section

variable (hnew : s.CtxFresh)
include hnew

lemma CtxFresh.settled_execComplete (hb : s.Bounced bounce n)
    (ha : ∀ acts' c x, Closes acts acts' c x → Closes s.acts acts' c x) (status : IoStatus) (len : Nat) :
    s.Settled io ((s.linked ⟨io, true, nkvxTokenNone, bounce⟩ n acts).kvradosExecComplete s.nextCtx status len) := by
  have hx : (s.linked ⟨io, true, nkvxTokenNone, bounce⟩ n acts).ctxs s.nextCtx =
      some ⟨io, true, nkvxTokenNone, bounce⟩ := update_self ..
  have he : (s.linked ⟨io, true, nkvxTokenNone, bounce⟩ n acts).execInflight.erase s.nextCtx =
      s.execInflight := by
    show (s.execInflight ++ [s.nextCtx]).erase s.nextCtx = s.execInflight
    rw [erase_append_right _ hnew.inflight, erase_cons_head, append_nil]
  rw [execComplete_finished hx, if_pos rfl, he]
  exact hnew.settled (x := ⟨io, true, nkvxTokenNone, bounce⟩) hb
    (ha _ _ _ (finished_closes { s with acts := acts } s.nextCtx _ s.execInflight (kvradosComplete status len)))

lemma CtxFresh.handled_execForward (hb : s.Bounced bounce n) (b : ResolvedBinding)
    (native : ExecResult) : s.Handled io true
      (((s.opened ⟨io, true, nkvxTokenNone, bounce⟩ n).insertTail s.nextCtx).execForward cfg io s.nextCtx b native
        env) := by
  have hs (status : IoStatus) (len : Nat) :
      s.Settled io ((s.linked ⟨io, true, nkvxTokenNone, bounce⟩ n s.acts).kvradosExecComplete s.nextCtx status len) :=
    hnew.settled_execComplete hb (fun acts' c x h => h) status len
  unfold execForward
  by_cases hn : b.runtime = .nkvx ∧ b.moduleNs = some (cstr ['n', 'k', 'v', 'x']) ∧ native.status ≠ .notSupported
  · rw [if_pos hn]
    exact .inl (hs ..)
  rw [if_neg hn]
  cases cfg.mercury with
  | false => exact .inl (hs ..)
  | true =>
    cases cfg.front with
    | false => exact .inl (hs ..)
    | true =>
      by_cases hf : env.frc = 0
      · refine .inr ⟨⟨io, true, env.token, bounce⟩, rfl, ?_⟩
        simp only [Bool.not_true, Bool.false_eq_true, if_false, if_neg (not_not.mpr hf)]
        refine ⟨rfl, ?_, rfl, rfl, rfl, ?_, rfl, rfl, hb⟩
        · simp [setToken, owe, forward, insertTail, opened, update_idem]
        rw [hf]
        rfl
      simp only [Bool.not_true, Bool.false_eq_true, if_false, if_pos hf]
      exact .inl (hnew.settled_execComplete hb (fun acts' c x h => h.of_forward hf) _ _)

lemma CtxFresh.handled_handleExec (r : BdevKvIo) (key : Bytes) (valueOff payloadLen : Nat) :
    s.Handled io true (s.kvradosHandleExec cfg io r key valueOff payloadLen env) := by
  unfold KvradosChannel.kvradosHandleExec
  by_cases hk : key = []
  · rw [if_pos hk]
    exact s.handled_reject io ..
  rw [if_neg hk]
  cases kvradosExecOpAllowed cfg.disk r.cmd.cdw13 with
  | none => exact s.handled_reject io ..
  | some e =>
    dsimp only
    cases e.binding with
    | none => exact s.handled_reject io ..
    | some b =>
      dsimp only
      by_cases hc : b.caps > execCapsTierMax
      · rw [if_pos hc]
        exact s.handled_reject io ..
      rw [if_neg hc]
      exact handled_withBounce fun bounce n hb => handled_withCtx hb (hnew.handled_execForward hb b _)

lemma CtxFresh.handled_handleKvIo (r : BdevKvIo) :
    s.Handled io (r.cmd.opc = opcKvExec) (s.kvradosHandleKvIo cfg io r env) := by
  have hp : s.Handled io false (s.forwardBase io none env) := hnew.handled_forwardBase (.inl ⟨rfl, rfl⟩)
  unfold KvradosChannel.kvradosHandleKvIo
  by_cases hr : cfg.disk.readOnly ∧ (r.cmd.opc = opcKvStore ∨ r.cmd.opc = opcKvDelete)
  · rw [if_pos hr]
    exact s.handled_reject io ..
  rw [if_neg hr]
  by_cases hk : r.cmd.opc = opcKvRetrieve ∨ r.cmd.opc = opcKvDelete ∨ r.cmd.opc = opcKvExist
  · have hs : decide (r.cmd.opc = opcKvExec) = false := by
      rcases hk with h | h | h <;> rw [h] <;> rfl
    rw [if_pos hk, hs]
    cases kvradosParseInpayloadKey r.mem r.iovs (Memory.total r.iovs) with
    | none => exact s.handled_reject io ..
    | some parsed => exact handled_overMercury hp
  rw [if_neg hk]
  by_cases ht : r.cmd.opc = opcKvStore
  · have hs : decide (r.cmd.opc = opcKvExec) = false := by
      rw [ht]
      rfl
    rw [if_pos ht, hs]
    cases kvradosParseInpayloadKey r.mem r.iovs (Memory.total r.iovs) with
    | none => exact s.handled_reject io ..
    | some parsed =>
      exact handled_overMercury (handled_withBounce fun bounce n hb => hnew.handled_forwardBase hb)
  rw [if_neg ht]
  by_cases hl : r.cmd.opc = opcKvList
  · have hs : decide (r.cmd.opc = opcKvExec) = false := by
      rw [hl]
      rfl
    rw [if_pos hl, hs]
    exact handled_overMercury hp
  rw [if_neg hl]
  by_cases he : r.cmd.opc = opcKvExec
  · rw [if_pos he, decide_eq_true he]
    exact hnew.handled_handleExec r ..
  rw [if_neg he]
  exact s.handled_reject io ..

end

end KvradosChannel

end RadosNkv
