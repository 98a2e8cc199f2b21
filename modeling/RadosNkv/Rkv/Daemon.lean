import RadosNkv.Library.Framing
import RadosNkv.Rkv.Proto

/-! The daemon that keeps a session open (`daemon.rs`) and the commands that hand it their operation
(`main.rs`). -/

namespace RadosNkv.Rkv

open List hiding utf8Encode
open Weights (bind_eq_ok)

variable {σ μ : Type}

/-- The operations of an open session on the state of the target, an error as its text. -/
structure Session (σ : Type) where
  store : σ → UInt32 → Str → Bytes → σ × Except Str Unit
  retrieve : σ → UInt32 → Str → σ × Except Str Bytes
  exec : σ → UInt32 → Str → UInt32 → Bytes → σ × Except Str Bytes

/-- `serve_op`, and the answers of `handle_conn` to a probe and to the order to stop. -/
def Session.serveOp (sess : Session σ) (s : σ) : Request → σ × Except Str Bytes
  | .store nsid key val => (sess.store s nsid key val).map id (·.map fun _ => [])
  | .get nsid key => sess.retrieve s nsid key
  | .exec nsid opId key input => sess.exec s nsid key opId input
  | .ping | .shutdown => (s, .ok [])

def toResponse : Except Str Bytes → Response
  | .ok bytes => .ok bytes
  | .error e => .err e

/-- `handle_conn`, with the responses it has written or failed to write and whether the client asked
it to stop. -/
def handleConn (sess : Session σ) (written : Nat → Bool) : Nat → σ → Source → σ × List Response × Bool
  | 0, s, _ => (s, [], false)
  | fuel + 1, s, r =>
    match readFrom Request.decode r with
    | .error _ => (s, [], false)
    | .ok (req, r) =>
      let (s, res) := sess.serveOp s req
      if req = .shutdown then (s, [toResponse res], true)
      else if !written fuel then (s, [toResponse res], false)
      else
        let (s, resps, stop) := handleConn sess written fuel s r
        (s, toResponse res :: resps, stop)

/-- What the calls of `try_forward` meet. A read that times out is the end of the stream. -/
structure Dial where
  sockExists : Bool
  connects : Bool
  pingSent : Bool
  reqSent : Bool
  reads : Source

/-- The reads to come once the daemon has answered the probe. -/
def Dial.live (d : Dial) : Option Source :=
  if !d.sockExists then none
  else if !d.connects then none
  else if !d.pingSent then none
  else
    match readFrom Response.decode d.reads with
    | .ok (.ok _, r) => some r
    | _ => none

inductive ForwardError where
  | forwarding
  | reading (e : ProtoError)

def tryForward (d : Dial) : Except ForwardError (Option Response) :=
  match d.live with
  | none => .ok none
  | some r =>
    if !d.reqSent then .error .forwarding
    else
      match readFrom Response.decode r with
      | .error e => .error (.reading e)
      | .ok (resp, _) => .ok (some resp)

inductive CmdError where
  | forward (e : ForwardError)
  | daemon (msg : Str)
  | noSession
  | session (msg : Str)

/-- An operation of `cmd_store`, `cmd_get` or `cmd_exec`. -/
def command (sess : Session σ) (d : Dial) (opens : Bool) (req : Request) (s : σ) : σ × Except CmdError Bytes :=
  match tryForward d with
  | .error e => (s, .error (.forward e))
  | .ok (some (.ok bytes)) => (s, .ok bytes)
  | .ok (some (.err msg)) => (s, .error (.daemon msg))
  | .ok none =>
    if !opens then (s, .error .noSession)
    else (sess.serveOp s req).map id (·.mapError .session)

/-- What the client writes, of which the daemon receives some first part. -/
def Dial.sends (d : Dial) (req : Request) : List Request := .ping :: if d.live.isSome then [req] else []

lemma readExact_ok (h : readExact n r = .ok (b, r')) :
    b.length = n ∧ r.flatten = b ++ r'.flatten := by
  fun_induction readExact n r generalizing b with
  | case1 r => cases h; exact ⟨rfl, rfl⟩
  | case2 | case3 => cases h
  | case4 n chunk r _ ht =>
    cases h
    simp [Nat.min_eq_left (le_of_lt ht), ← append_assoc, take_append_drop]
  | case5 n chunk r _ hg ih =>
    rcases hr : readExact (n + 1 - chunk.length) r with e | ⟨b', r''⟩ <;> rw [hr] at h <;> cases h
    obtain ⟨hl, hf⟩ := ih hr
    exact ⟨by rw [length_append, hl]; omega, by rw [flatten_cons, hf, append_assoc]⟩

def frameLengths : LengthCode UInt8 where
  enc n := putU32 (.ofNat n)
  width := 4
  bound := 2 ^ 32
  length_enc _ := Wire.length_leBytes ..
  enc_inj hm hn h := by
    have heq := congrArg HgProc.leNat h
    rwa [leNat_putU32, leNat_putU32, UInt32.toNat_ofNat_of_lt' hm, UInt32.toNat_ofNat_of_lt' hn] at heq

section

variable {decode : Bytes → Except ProtoError μ} {body : μ → Bytes} {r r' : Source} {m : μ} {ms : List μ}

lemma readFrom_ok (h : readFrom decode r = .ok (m, r')) :
    ∃ b, decode b = .ok m ∧ b.length < 2 ^ 32 ∧ r.flatten = frame b ++ r'.flatten := by
  obtain ⟨⟨b, r1⟩, hf, h⟩ := bind_eq_ok.mp h
  obtain ⟨m', hd, h⟩ := bind_eq_ok.mp h
  cases h
  obtain ⟨⟨lenbuf, r2⟩, hb, hf⟩ := bind_eq_ok.mp hf
  obtain ⟨h4, hfl⟩ := readExact_ok hb
  dsimp only at hf
  split at hf
  · cases hf
  split at hf
  · cases hf
  next hm =>
  obtain ⟨hl, hfl'⟩ := readExact_ok hf
  have hbound : maxFrame < 2 ^ 32 := by decide
  refine ⟨b, hd, by omega, ?_⟩
  rw [frame, hl, putU32_leNat h4, hfl, hfl', append_assoc]

/-- A stream that begins as the frames of a list is read as the list. -/
lemma readFrom_head (hm : ∀ m ∈ ms, decode (body m) = .ok m ∧ (body m).length < 2 ^ 32)
    (hf : r.flatten <+: ms.flatMap fun m => frame (body m)) (h : readFrom decode r = .ok (m, r')) :
    ∃ ms', ms = m :: ms' ∧ r'.flatten <+: ms'.flatMap fun m => frame (body m) := by
  obtain ⟨b, hd, hb, hr⟩ := readFrom_ok h
  obtain ⟨t, ht⟩ := hf
  rw [hr, append_assoc] at ht
  cases ms with
  | nil => simp [frame, putU32, Wire.leBytes] at ht
  | cons x ms =>
    obtain ⟨hdx, hx⟩ := hm x mem_cons_self
    obtain ⟨rfl, hrest⟩ := frameLengths.frame_append_inj hb hx (ht.trans flatMap_cons)
    cases hd.symm.trans hdx
    exact ⟨ms, rfl, t, hrest⟩

end

variable (sess : Session σ) (s : σ)

def served (sess : Session σ) (s : σ) : List Request → σ × List Response
  | [] => (s, [])
  | m :: ms =>
    let r := sess.serveOp s m
    let rest := served sess r.1 ms
    (rest.1, toResponse r.2 :: rest.2)

lemma handleConn_serves (written : Nat → Bool) (fuel : Nat) {ms : List Request} {r : Source}
    (hs : ∀ m ∈ ms, m.body.length < 2 ^ 32) (h : r.flatten <+: ms.flatMap Request.encode) :
    ∃ k, ((handleConn sess written fuel s r).1, (handleConn sess written fuel s r).2.1) = served sess s (ms.take k) := by
  induction fuel generalizing s r ms with
  | zero => exact ⟨0, rfl⟩
  | succ fuel ih =>
    rw [handleConn]
    cases hr : readFrom Request.decode r with
    | error e => exact ⟨0, rfl⟩
    | ok p =>
      obtain ⟨ms, rfl, hrest⟩ := readFrom_head (fun m hm => ⟨Request.decode_body (hs m hm), hs m hm⟩) h hr
      dsimp only
      split
      · exact ⟨1, rfl⟩
      split
      · exact ⟨1, rfl⟩
      obtain ⟨k, hk⟩ := ih (sess.serveOp s p.1).1 (fun m hm => hs m (mem_cons_of_mem _ hm)) hrest
      refine ⟨k + 1, ?_⟩
      rw [take_succ_cons, served, ← hk]

variable {d : Dial} {req : Request}

lemma conn_cases (written : Nat → Bool) (fuel : Nat) {heard : Source} (he : req.body.length < 2 ^ 32)
    (h : heard.flatten <+: (d.sends req).flatMap Request.encode) :
    let c := handleConn sess written fuel s heard
    c.1 = s ∧ c.2.1 <+: [.ok []] ∨
      d.live.isSome ∧ c.1 = (sess.serveOp s req).1 ∧ c.2.1 = [.ok [], toResponse (sess.serveOp s req).2] := by
  have hms : ∀ m ∈ d.sends req, m.body.length < 2 ^ 32 := by
    unfold Dial.sends
    split
    · simpa using ⟨by decide, he⟩
    · simp [Request.body]
  intro c
  obtain ⟨k, hk⟩ := handleConn_serves sess s written fuel hms h
  obtain ⟨hs, hr⟩ := Prod.ext_iff.mp hk
  unfold Dial.sends at hs hr
  rcases k with _ | _ | k
  · exact .inl ⟨hs, by simp [show c.2.1 = _ from hr, served]⟩
  · exact .inl ⟨hs, by simp [show c.2.1 = _ from hr, served, Session.serveOp, toResponse]⟩
  · cases hl : d.live with rw [hl] at hs hr
    | none => exact .inl ⟨hs, by simp [show c.2.1 = _ from hr, served, Session.serveOp, toResponse]⟩
    | some r =>
      refine .inr ⟨rfl, ?_, ?_⟩
      · simpa [served, Session.serveOp] using hs
      · simpa [served, Session.serveOp, toResponse] using hr

lemma tryForward_some (h : tryForward d = .ok (some x)) (hs : ∀ m ∈ resps, m.body.length < 2 ^ 32)
    (hreads : d.reads.flatten <+: resps.flatMap Response.encode) :
    ∃ m rest, resps = m :: x :: rest := by
  unfold tryForward Dial.live at h
  split at h
  · cases h
  next r hl =>
  split_ifs at hl h
  split at hl
  · next hpong =>
    cases hl
    split at h
    · cases h
    next hx =>
    cases h
    obtain ⟨rest, rfl, hrest⟩ := readFrom_head (fun m hm => ⟨m.decode_body, hs m hm⟩) hreads hpong
    obtain ⟨rest', rfl, -⟩ :=
      readFrom_head (fun m hm => ⟨m.decode_body, hs m (mem_cons_of_mem _ hm)⟩) hrest hx
    exact ⟨_, rest', rfl⟩
  · cases hl

lemma live_eq_none (h : tryForward d = .ok none) : d.live = none := by
  unfold tryForward at h
  split at h
  · assumption
  split_ifs at h
  split at h <;> cases h

/-- However far the two streams get and whichever write fails, a command has carried out its
operation once, in the daemon or by itself, and returns what the operation gives; or it has done
nothing, for want of a session; or the exchange with the daemon failed, and the operation was
carried out at most once. -/
theorem forwarded_at_most_once (sess : Session σ) (s : σ) (d : Dial) (opens : Bool) (req : Request)
    (written : Nat → Bool) (fuel : Nat) (heard : Source) (hreq : req.body.length < 2 ^ 32)
    (hres : (toResponse (sess.serveOp s req).2).body.length < 2 ^ 32)
    (hheard : heard.flatten <+: (d.sends req).flatMap Request.encode)
    (hreads : d.reads.flatten <+:
      (handleConn sess written fuel s heard).2.1.flatMap Response.encode) :
    let out := command sess d opens req (handleConn sess written fuel s heard).1
    (∃ f, (f = .daemon ∨ f = .session) ∧
      out = ((sess.serveOp s req).1, (sess.serveOp s req).2.mapError f)) ∨
    out = (s, .error .noSession) ∨
    (out.1 = s ∨ out.1 = (sess.serveOp s req).1) ∧ ∃ e, out.2 = .error (.forward e) := by
  have hcon := conn_cases sess s written fuel hreq hheard
  generalize handleConn sess written fuel s heard = c at hcon hreads
  unfold command
  cases hf : tryForward d with
  | error e => exact .inr (.inr ⟨hcon.imp And.left fun h => h.2.1, e, rfl⟩)
  | ok answer =>
    cases answer with
    | none =>
      -- the operation was never sent, so the daemon has not seen it
      have hc : c.1 = s := hcon.elim And.left fun h => by simp [live_eq_none hf] at h
      rw [hc]
      cases opens with
      | false => exact .inr (.inl rfl)
      | true => exact .inl ⟨.session, .inr rfl, rfl⟩
    | some x =>
      obtain ⟨-, hpr⟩ | ⟨-, hc1, hc2⟩ := hcon
      · have hms : ∀ m ∈ c.2.1, m.body.length < 2 ^ 32 := fun m hm => by rw [mem_singleton.mp (hpr.subset hm)]; decide
        obtain ⟨m, rest, hc⟩ := tryForward_some hf hms hreads
        simpa [hc] using hpr.length_le
      obtain ⟨m, rest, hc⟩ := tryForward_some hf (by simpa [hc2] using ⟨by decide, hres⟩) hreads
      obtain rfl := (cons.inj (cons.inj (hc2.symm.trans hc)).2).1
      refine .inl ⟨.daemon, .inl rfl, ?_⟩
      rw [hc1]
      cases (sess.serveOp s req).2 <;> rfl

def register : Session Bytes where
  store _ _ _ val := (val, .ok ())
  retrieve s _ _ := (s, .ok s)
  exec s _ _ _ _ := (s, .error [])

def storeNine : Request := .store 1 [] [9]

def answerLost : Dial := ⟨true, true, true, true, [(Response.ok []).encode]⟩

/-- The daemon's answer to a store is lost, and the value is stored once or not at all. -/
theorem forwarded_answer_lost :
    let out := command register answerLost true storeNine
      (handleConn register (fun _ => true) 2 [] ((answerLost.sends storeNine).map Request.encode)).1
    out.1 = [] ∨ out.1 = [9] := by
  obtain ⟨f, -, h⟩ | h | ⟨h, -⟩ := forwarded_at_most_once register [] answerLost true storeNine (fun _ => true) 2
    ((answerLost.sends storeNine).map Request.encode) (by decide) (by decide) (by decide) (by decide)
  · exact .inr (congrArg Prod.fst h)
  · exact .inl (congrArg Prod.fst h)
  · exact h

lemma readFrom_two {decode : Bytes → Except ProtoError μ} {body : μ → Bytes} {m m' : μ} {r : Source}
    (hm : ∀ x ∈ [m, m'], decode (body x) = .ok x ∧ (body x).length ≤ maxFrame ∧ body x ≠ []) (hr : [] ∉ r)
    (h : r.flatten = [m, m'].flatMap fun m => frame (body m)) :
    ∃ r', readFrom decode r = .ok (m, r') ∧ readFrom decode r' = .ok (m', []) := by
  obtain ⟨⟨_, r1⟩, h1, h⟩ := bind_eq_ok.mp (readMany_frames hm hr h)
  obtain ⟨⟨_, r2⟩, h2, h⟩ := bind_eq_ok.mp h
  obtain ⟨⟨_, r3⟩, h3, h2⟩ := bind_eq_ok.mp h2
  cases h
  cases h2
  exact ⟨r1, h1, h3⟩

lemma handleConn_hears (hr : req.body.length ≤ maxFrame) (hw : written (fuel + 1)) (hn : [] ∉ heard)
    (hh : heard.flatten = [Request.ping, req].flatMap Request.encode) :
    let c := handleConn sess written (fuel + 2) s heard
    c.1 = (sess.serveOp s req).1 ∧ c.2.1 = [.ok [], toResponse (sess.serveOp s req).2] := by
  have hb : maxFrame < 2 ^ 32 := by decide
  have hm : ∀ x ∈ [Request.ping, req], x.body.length ≤ maxFrame := by simpa using ⟨by decide, hr⟩
  obtain ⟨r, h1, h2⟩ := readFrom_two
    (fun x hx => ⟨Request.decode_body ((hm x hx).trans_lt hb), hm x hx, by cases x <;> exact cons_ne_nil _ _⟩) hn hh
  have h0 (s : σ) : handleConn sess written fuel s [] = (s, [], false) := by cases fuel <;> rfl
  unfold handleConn
  rw [h1]
  unfold handleConn
  simp only [h2, hw, h0]
  split_ifs <;> simp_all [Session.serveOp, toResponse]

/-- A command that reaches the daemon, and whose frames all arrive, does its operation once, in the
daemon, and returns what it returns on an open session. -/
theorem forwarded_to_live_daemon (sess : Session σ) (s : σ) (d : Dial) (opens : Bool)
    (req : Request) (written : Nat → Bool)
    (fuel : Nat) (heard : Source) (hdial : d.sockExists ∧ d.connects ∧ d.pingSent ∧ d.reqSent)
    (hping : written (fuel + 1))
    (hreq : req.body.length ≤ maxFrame)
    (hres : (toResponse (sess.serveOp s req).2).body.length ≤ maxFrame)
    (hheard : [] ∉ heard ∧ heard.flatten = [Request.ping, req].flatMap Request.encode)
    (hreads : [] ∉ d.reads ∧
      d.reads.flatten = (handleConn sess written (fuel + 2) s heard).2.1.flatMap Response.encode) :
    command sess d opens req (handleConn sess written (fuel + 2) s heard).1 =
      ((sess.serveOp s req).1, (sess.serveOp s req).2.mapError .daemon) := by
  obtain ⟨hs, hr⟩ := handleConn_hears sess s hreq hping hheard.1 hheard.2
  rw [hr] at hreads
  have hm : ∀ x ∈ [.ok [], toResponse (sess.serveOp s req).2], x.body.length ≤ maxFrame := by simpa using ⟨by decide, hres⟩
  obtain ⟨r, h1, h2⟩ := readFrom_two
    (fun x hx => ⟨x.decode_body, hm x hx, by cases x <;> exact cons_ne_nil _ _⟩) hreads.1 hreads.2
  have hf : tryForward d = .ok (some (toResponse (sess.serveOp s req).2)) := by
    simp [tryForward, Dial.live, hdial, h1, h2]
  unfold command
  rw [hf, hs]
  cases (sess.serveOp s req).2 <;> rfl

def answered : Dial := ⟨true, true, true, true, [(Response.ok []).encode, (Response.ok [9]).encode]⟩

theorem forwarded_get :
    command register answered false (.get 1 [])
      (handleConn register (fun _ => true) 2 [9]
        [Request.ping.encode ++ (Request.get 1 []).encode]).1 = ([9], .ok [9]) :=
  forwarded_to_live_daemon register [9] answered false (.get 1 []) (fun _ => true) 0 _ (by decide) rfl (by decide)
    (by decide) (by decide) (by decide)

end RadosNkv.Rkv
