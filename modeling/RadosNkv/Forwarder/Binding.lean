import RadosNkv.Forwarder.Handler

/-! The bindings of the Exec allowlist: how the forwarder resolves an entry
(`kvrados_resolve_binding`), which digests it and the CLI's policy check accept, and what a run
takes from the namespace's configuration. -/

namespace RadosNkv

open Memory (Seg)

/-! ### Digests -/

def hexDigitValue (c : UInt8) : Option Nat :=
  if 48 ≤ c.toNat ∧ c.toNat ≤ 57 then some (c.toNat - 48)
  else if 97 ≤ c.toNat ∧ c.toNat ≤ 102 then some (c.toNat - 87)
  else if 65 ≤ c.toNat ∧ c.toNat ≤ 70 then some (c.toNat - 55)
  else none

def isSpace (c : UInt8) : Bool := 9 ≤ c.toNat && c.toNat ≤ 13 || c = 32

def scanHex2 (s : Bytes) : Option Nat :=
  match s.dropWhile isSpace with
  | [] => none
  | c :: rest =>
    if c = 43 ∨ c = 45 then
      (rest.head?.bind hexDigitValue).map fun v => if c = 45 then (2 ^ 32 - v) % 2 ^ 32 else v
    else
      (hexDigitValue c).map fun v =>
        match rest.head?.bind hexDigitValue with
        | some w => v * 16 + w
        | none => v

def sha256Len : Nat := 32

def scanBytes : Nat → Bytes → Option Bytes
  | 0, _ => some []
  | n + 1, hex => do
    let byte ← scanHex2 hex
    let rest ← scanBytes n (hex.drop 2)
    pure (UInt8.ofNat byte :: rest)

def kvradosDecodeSha256Hex (hex : Bytes) : Option Bytes :=
  if hex.length ≠ sha256Len * 2 then none else scanBytes sha256Len hex

def hexBytes : Bytes → Option Bytes
  | [] => some []
  | [_] => none
  | hi :: lo :: rest => do
    let v ← hexDigitValue hi
    let w ← hexDigitValue lo
    let bytes ← hexBytes rest
    pure (UInt8.ofNat (v * 16 + w) :: bytes)

def Sha256Hex (hex : Bytes) : Prop := hex.length = sha256Len * 2 ∧ ∀ c ∈ hex, (hexDigitValue c).isSome

def isSign (c : UInt8) : Bool := c = 43 ∨ c = 45

/-- `%2x` finds a number at the pair `hi`, `lo` before `rest`: at a digit, at a digit behind a sign
or white space, or behind white space that reaches into `rest`. -/
def pairReads (hi lo : UInt8) (rest : Bytes) : Bool :=
  (hexDigitValue hi).isSome || (isSpace hi || isSign hi) && (hexDigitValue lo).isSome ||
    isSpace hi && (isSpace lo && !rest.isEmpty ||
      isSign lo && (rest.head?.bind hexDigitValue).isSome)

def pairsRead : Bytes → Bool
  | hi :: lo :: rest => pairReads hi lo rest && pairsRead rest
  | _ => true

/-- A string of 64 characters, at each pair of which `%2x` finds a number, has hexadecimal digits
alone. -/
def PlainPairs (hex : Bytes) : Prop :=
  hex.length = sha256Len * 2 → pairsRead hex → ∀ c ∈ hex, (hexDigitValue c).isSome

lemma hexDigitValue_spec (h : hexDigitValue c = some v) :
    v < 16 ∧ toLower c = hexDigit v ∧ isSpace c = false ∧ c ≠ 43 ∧ c ≠ 45 := by
  have ha : ∀ n < 256, (hexDigitValue (.ofNat n)).all (fun v => decide (v < 16 ∧
      toLower (.ofNat n) = hexDigit v ∧ isSpace (.ofNat n) = false ∧ UInt8.ofNat n ≠ 43 ∧ UInt8.ofNat n ≠ 45)) := by
    decide +kernel
  have hc := ha c.toNat c.toNat_lt
  rw [UInt8.ofNat_toNat, h] at hc
  exact of_decide_eq_true hc

lemma scanBytes_digits : ∀ (n : Nat) (hex : Bytes), hex.length = n * 2 → (∀ c ∈ hex, (hexDigitValue c).isSome) →
    ∃ out, scanBytes n hex = some out ∧ hexBytes hex = some out
  | 0, [], _, _ => ⟨[], rfl, rfl⟩
  | n + 1, [], hl, _ => by simp at hl
  | n + 1, [_], hl, _ => by simp at hl; omega
  | n + 1, hi :: lo :: rest, hl, hd => by
    obtain ⟨v, hv⟩ := Option.isSome_iff_exists.mp (hd hi (by simp))
    obtain ⟨w, hw⟩ := Option.isSome_iff_exists.mp (hd lo (by simp))
    obtain ⟨out, hsc, hb⟩ := scanBytes_digits n rest (by simp at hl; omega) fun c hc => hd c (by simp [hc])
    refine ⟨UInt8.ofNat (v * 16 + w) :: out, ?_, ?_⟩
    · obtain ⟨-, -, hs, hp, hm⟩ := hexDigitValue_spec hv
      simp [scanBytes, scanHex2, hs, hp, hm, hv, hw, hsc]
    · simp [hexBytes, hv, hw, hb]

lemma lower_of_hexBytes : ∀ {hex he' out : Bytes}, hexBytes hex = some out → hexBytes he' = some out →
    hex.map toLower = he'.map toLower
  | [], [], _, _, _ => rfl
  | [_], _, _, h, _ => by cases h
  | _, [_], _, _, h => by cases h
  | [], _ :: _ :: _, _, h, h' => by
    cases h
    simp [hexBytes, Option.bind_eq_some_iff] at h'
  | _ :: _ :: _, [], _, h, h' => by
    cases h'
    simp [hexBytes, Option.bind_eq_some_iff] at h
  | hi :: lo :: rest, hi' :: lo' :: rest', out, h, h' => by
    simp only [hexBytes, Option.bind_eq_bind, Option.bind_eq_some_iff, Option.pure_def, Option.some.injEq] at h h'
    obtain ⟨v, hv, w, hw, bytes, hb, rfl⟩ := h
    obtain ⟨v', hv', w', hw', bytes', hb', ho⟩ := h'
    obtain ⟨ht, rfl⟩ := List.cons.inj ho
    obtain ⟨hv16, hh, -⟩ := hexDigitValue_spec hv
    obtain ⟨hw16, hl, -⟩ := hexDigitValue_spec hw
    obtain ⟨hv16', hh', -⟩ := hexDigitValue_spec hv'
    obtain ⟨hw16', hl', -⟩ := hexDigitValue_spec hw'
    have hn := congrArg UInt8.toNat ht
    rw [UInt8.toNat_ofNat', UInt8.toNat_ofNat', Nat.mod_eq_of_lt (by omega), Nat.mod_eq_of_lt (by omega)] at hn
    obtain ⟨rfl, rfl⟩ : v' = v ∧ w' = w := by omega
    simp [hh, hl, hh', hl', lower_of_hexBytes hb hb']

variable {hex : Bytes}

lemma decode_of_hex (h : Sha256Hex hex) : ∃ out, kvradosDecodeSha256Hex hex = some out ∧ hexBytes hex = some out := by
  obtain ⟨out, hs, hb⟩ := scanBytes_digits sha256Len hex h.1 h.2
  exact ⟨out, by rw [kvradosDecodeSha256Hex, if_neg (not_not.mpr h.1), hs], hb⟩

lemma space_spec (h : isSpace c) : hexDigitValue c = none ∧ isSign c = false := by
  have ha : ∀ n < 256, isSpace (.ofNat n) →
      hexDigitValue (.ofNat n) = none ∧ isSign (.ofNat n) = false := by decide +kernel
  have hc := ha c.toNat c.toNat_lt
  rw [UInt8.ofNat_toNat] at hc
  exact hc h

lemma sign_spec (h : isSign c) : hexDigitValue c = none := by
  obtain rfl | rfl := of_decide_eq_true h <;> decide

lemma scanHex2_isSome (hr : rest ≠ [] → (scanHex2 rest).isSome) :
    (scanHex2 (hi :: lo :: rest)).isSome = pairReads hi lo rest := by
  have scan (c : UInt8) (s : Bytes) (hs : ¬ isSpace c) : (scanHex2 (c :: s)).isSome =
      if isSign c then (s.head?.bind hexDigitValue).isSome else (hexDigitValue c).isSome := by
    unfold scanHex2
    rw [List.dropWhile_cons_of_neg hs]
    dsimp only
    by_cases hc : c = 43 ∨ c = 45
    · rw [if_pos hc, Option.isSome_map, if_pos (by simpa [isSign] using hc)]
    · rw [if_neg hc, Option.isSome_map, if_neg (by simpa [isSign] using hc)]
  have skip (c : UInt8) (s : Bytes) (hs : isSpace c) : scanHex2 (c :: s) = scanHex2 s := by
    unfold scanHex2
    rw [List.dropWhile_cons_of_pos hs]
  unfold pairReads
  by_cases hh : isSpace hi
  · rw [skip hi _ hh, (space_spec hh).1]
    by_cases hl : isSpace lo
    · rw [skip lo _ hl, (space_spec hl).1, (space_spec hl).2]
      cases rest with
      | nil => simp [scanHex2]
      | cons c s => simpa [hh, hl] using hr (List.cons_ne_nil c s)
    rw [scan lo _ hl]
    by_cases hs : isSign lo
    · simp [hh, hl, hs, sign_spec hs]
    · simp [hh, hl, hs]
  rw [scan hi _ hh]
  by_cases hs : isSign hi
  · simp [hh, hs, sign_spec hs]
  · simp [hh, hs]

lemma scanBytes_isSome : ∀ (n : Nat) (s : Bytes), s.length = n * 2 →
    (scanBytes n s).isSome = pairsRead s
  | 0, [], _ => rfl
  | n + 1, [], hl => by simp at hl
  | n + 1, [_], hl => by simp at hl; omega
  | n + 1, hi :: lo :: rest, hl => by
    have ih := scanBytes_isSome n rest (by simp at hl; omega)
    have hs : (scanBytes (n + 1) (hi :: lo :: rest)).isSome =
        ((scanHex2 (hi :: lo :: rest)).isSome && (scanBytes n rest).isSome) := by
      rw [scanBytes]
      cases scanHex2 (hi :: lo :: rest) <;> simp [Option.isSome_bind]
    rw [hs, pairsRead, ih]
    -- a scan that reaches into the next pair finds a number there if the scan of that pair does
    cases hp : pairsRead rest with
    | false => simp
    | true =>
      rw [scanHex2_isSome]
      intro hn
      cases n with
      | zero => simp_all
      | succ n =>
        rw [hp, scanBytes] at ih
        cases hx : scanHex2 rest with
        | none => simp [hx] at ih
        | some v => rfl

lemma decode_isSome (hex : Bytes) : (kvradosDecodeSha256Hex hex).isSome ↔
    hex.length = sha256Len * 2 ∧ pairsRead hex := by
  unfold kvradosDecodeSha256Hex
  split
  · next hl => simp [hl]
  next hl =>
  have hl := not_not.mp hl
  rw [scanBytes_isSome _ _ hl, and_iff_right hl]

lemma isSome_of_hex (h : Sha256Hex hex) : (kvradosDecodeSha256Hex hex).isSome := by
  obtain ⟨out, ho, -⟩ := decode_of_hex h
  rw [ho]
  rfl

/-- The decoder accepts what it should exactly if the pairs are plain. -/
lemma accepts_iff_plainPairs :
    ((kvradosDecodeSha256Hex hex).isSome ↔ Sha256Hex hex) ↔ PlainPairs hex :=
  ⟨fun h hl hp => (h.mp ((decode_isSome hex).mpr ⟨hl, hp⟩)).2, fun h =>
    ⟨fun hd => have hd := (decode_isSome hex).mp hd; ⟨hd.1, h hd.1 hd.2⟩, isSome_of_hex⟩⟩

lemma hexBytes_of_decode (hr : PlainPairs hex) (h : kvradosDecodeSha256Hex hex = some out) :
    hexBytes hex = some out := by
  obtain ⟨out', ho, hb⟩ := decode_of_hex ((accepts_iff_plainPairs.mpr hr).mp (by rw [h]; rfl))
  rw [hb, ← ho, h]

structure ExecBinding where
  opId : Nat
  binding : Option Bytes
  runtime : Option Bytes
  moduleNamespace : Option Bytes
  moduleKey : Option Bytes
  sha256 : Option Bytes
  caps : Nat

def kvradosRuntimeFromName (name : Option Bytes) : Runtime :=
  if name = some (cstr ['n', 'k', 'v', 'x']) ∨ name = some (cstr ['w', 'a', 's', 'm']) then .nkvx
  else if name = some (cstr ['c', 'l', 's']) then .cls
  else .none

def kvradosResolveBinding (e : ExecBinding) (clsBufLen : Nat) : Option ResolvedBinding :=
  let structured := e.runtime.isSome || e.moduleNamespace.isSome || e.moduleKey.isSome || e.sha256.isSome || e.caps ≠ 0
  match e.binding with
  | some binding =>
    -- up to the first colon, 58, is the class and behind it the method
    let cls := binding.takeWhile (· ≠ 58)
    let method := binding.drop (cls.length + 1)
    if structured then none
    else if 58 ∉ binding ∨ cls = [] ∨ method = [] then none
    else if cls.length ≥ clsBufLen then none
    else some ⟨if cls = cstr ['n', 'k', 'v', 'x'] then .nkvx else .cls, some cls, some method, none, e.caps⟩
  | none =>
    let resolved : ResolvedBinding :=
      ⟨kvradosRuntimeFromName e.runtime, e.moduleNamespace, e.moduleKey, none, e.caps⟩
    match e.sha256 with
    | none => some resolved
    | some hex => (kvradosDecodeSha256Hex hex).map fun sha256 => { resolved with sha256 := some sha256 }

structure AllowEntry where
  opId : Nat
  binding : Option Bytes
  runtime : Option Bytes
  moduleNamespace : Option Bytes
  moduleKey : Option Bytes
  sha256 : Option Bytes
  caps : Option Nat

inductive PolicyError where
  | mutuallyExclusive
  | needsBindingOrRuntime
  | notClassMethod (binding : Bytes)
  | badSha256 (sha256 : Bytes)
deriving DecidableEq

def AllowEntry.validate (e : AllowEntry) : Except PolicyError Unit :=
  let structured :=
    e.runtime.isSome || e.moduleNamespace.isSome || e.moduleKey.isSome || e.sha256.isSome || e.caps.isSome
  if e.binding.isSome ∧ structured then .error .mutuallyExclusive
  else if e.binding = none ∧ e.runtime = none then .error .needsBindingOrRuntime
  else
    match e.binding.filter fun b => 58 ∉ b ∨ b.takeWhile (· ≠ 58) = [] ∨ b.drop ((b.takeWhile (· ≠ 58)).length + 1) = [] with
    | some b => .error (.notClassMethod b)
    | none =>
      match e.sha256.filter fun sha => sha.length ≠ 64 ∨ !sha.all fun c => (hexDigitValue c).isSome with
      | some sha => .error (.badSha256 sha)
      | none => .ok ()

def AllowEntry.entry (e : AllowEntry) : ExecBinding :=
  ⟨e.opId, e.binding, e.runtime, e.moduleNamespace, e.moduleKey, e.sha256, e.caps.getD 0⟩

lemma validate_structured {e : AllowEntry} (hb : e.binding = none) (hr : e.runtime = some runtime)
    (hs : e.sha256 = some hex) : e.validate = .ok () ↔ Sha256Hex hex := by
  have hd : (hex.all fun c => (hexDigitValue c).isSome) = true ↔ ∀ c ∈ hex, (hexDigitValue c).isSome :=
    List.all_eq_true
  unfold AllowEntry.validate Sha256Hex
  rw [hb, hr, hs, ← hd]
  by_cases hl : hex.length = 64 <;> by_cases ha : (hex.all fun c => (hexDigitValue c).isSome) = true <;>
    simp [hl, ha, sha256Len, Option.filter]

lemma resolve_structured {e : ExecBinding} (n : Nat) (hb : e.binding = none)
    (hs : e.sha256 = some hex) : (kvradosResolveBinding e n).isSome ↔ (kvradosDecodeSha256Hex hex).isSome := by
  unfold kvradosResolveBinding
  rw [hb, hs]
  simp

/-- Exactly the strings with plain pairs are accepted if and only if they are 64 hexadecimal digits,
and likewise by the forwarder if and only if by the policy check. Their digest is what the digits
denote, and two of them have one digest only if they differ in case alone. -/
theorem sha256_hex_accepted_iff (hex : Bytes) :
    (((kvradosDecodeSha256Hex hex).isSome ↔ Sha256Hex hex) ↔ PlainPairs hex) ∧
    (∀ (e : AllowEntry) (runtime : Bytes) (n : Nat), e.binding = none → e.runtime = some runtime →
      e.sha256 = some hex →
      (((kvradosResolveBinding e.entry n).isSome ↔ e.validate = .ok ()) ↔ PlainPairs hex)) ∧
    (PlainPairs hex → ∀ out, kvradosDecodeSha256Hex hex = some out → hexBytes hex = some out ∧
      ∀ hex', PlainPairs hex' → kvradosDecodeSha256Hex hex' = some out →
        hex.map toLower = hex'.map toLower) := by
  refine ⟨accepts_iff_plainPairs, ?_, ?_⟩
  · intro e runtime n hbinding hruntime hsha
    rw [resolve_structured (e := e.entry) n hbinding hsha,
      validate_structured hbinding hruntime hsha, accepts_iff_plainPairs]
  intro hplain out hout
  have hbytes := hexBytes_of_decode hplain hout
  refine ⟨hbytes, fun hex' hplain' hout' => ?_⟩
  exact lower_of_hexBytes hbytes (hexBytes_of_decode hplain' hout')

def abHex : Bytes := (List.replicate 32 [97, 98]).flatten

/-- `ab`, 32 times, has plain pairs and denotes 32 bytes `0xab`. -/
theorem sha256_hex_accepted_ab :
    PlainPairs abHex ∧ kvradosDecodeSha256Hex abHex = some (List.replicate 32 0xab) ∧
      hexBytes abHex = some (List.replicate 32 0xab) := by
  have hplain : PlainPairs abHex := fun _ _ => by decide +kernel
  have hout : kvradosDecodeSha256Hex abHex = some (List.replicate 32 0xab) := by decide +kernel
  exact ⟨hplain, hout, ((sha256_hex_accepted_iff abHex).2.2 hplain _ hout).1⟩

/-- `1z`, 32 times, is no digest, is decoded like `01`, 32 times, and is rejected by the policy
check. -/
theorem sha256_misread :
    let bad : Bytes := (List.replicate 32 [49, 122]).flatten
    let good : Bytes := (List.replicate 32 [48, 49]).flatten
    let entry : Bytes → AllowEntry := fun sha =>
      ⟨10, none, some (cstr ['c', 'l', 's']), none, none, some sha, none⟩
    kvradosDecodeSha256Hex bad = some (List.replicate 32 1) ∧ kvradosDecodeSha256Hex good = some
      (List.replicate 32 1) ∧
      (kvradosResolveBinding (entry bad).entry 64).isSome ∧
        (entry bad).validate = .error (.badSha256 bad) := by
  decide +kernel

structure NsConfig where
  readOnly : Bool
  execAllowlist : List ExecBinding

def clsBufLen : Nat := 64

def NsConfig.disk (ns : NsConfig) : KvradosDisk :=
  ⟨ns.readOnly, ns.execAllowlist.map fun e => ⟨e.opId, kvradosResolveBinding e clsBufLen⟩⟩

structure RunTerms where
  runtime : Runtime
  moduleNs : Option Bytes
  moduleKey : Option Bytes
  sha256 : Option Bytes
  caps : Nat
  readOnly : Bool
deriving DecidableEq

def ResolvedBinding.terms (b : ResolvedBinding) (readOnly : Bool) : RunTerms :=
  ⟨b.runtime, b.moduleNs, b.moduleKey, b.sha256, b.caps, readOnly⟩

def NsConfig.terms (ns : NsConfig) (opId : Nat) : Option RunTerms := do
  let e ← ns.execAllowlist.find? fun e => e.opId = opId
  let b ← kvradosResolveBinding e clsBufLen
  if b.caps > execCapsTierMax then none else some (b.terms ns.readOnly)

def ExecIn.terms (req : ExecIn) : RunTerms :=
  ⟨req.runtime, req.moduleNs, req.moduleKey, if req.sha256Valid then some req.sha256 else none, req.caps, req.readOnly⟩

variable {σ : Type}

/-- An Exec is turned away, runs a native built-in, or is forwarded to the executor, on the given
terms. -/
inductive Runs (front : NkvxFront σ) (s : σ) (mem : HostMem) (terms : Option RunTerms) : σ × HostMem × NvmeStatus → Prop
  | rejected {sc : Nat} (h : sc ∈ [scInvalidKeySize, scInvalidOpcode, scInvalidField, scInternalDeviceError]) :
      Runs front s mem terms (s, mem, kvradosReject sctGeneric sc)
  | native {t : RunTerms} (h : terms = some t) (hruntime : t.runtime = .nkvx)
      (hns : t.moduleNs = some (cstr ['n', 'k', 'v', 'x'])) {input : Option Bytes} {len : Nat}
      {sink : Option (Nat × Nat)} {res : ExecResult}
      (hres : kvradosNativeBuiltinExec t.moduleKey input len sink = res) :
      Runs front s mem terms (s, frontDeliver mem sink res, kvradosComplete res.status res.resultLen)
  | forwarded {req : ExecIn} (h : terms = some req.terms) {input : Option Bytes} {sink : Option (Nat × Nat)}
      {s' : σ} {res : ExecResult} (hres : front.exec s req input = (s', res)) :
      Runs front s mem terms (s', frontDeliver mem sink res, kvradosComplete res.status res.resultLen)

variable (ns : NsConfig)

lemma execOpAllowed_disk (opId : Nat) : kvradosExecOpAllowed ns.disk opId =
    (ns.execAllowlist.find? fun e => e.opId = opId).map fun e => ⟨e.opId, kvradosResolveBinding e clsBufLen⟩ := by
  unfold kvradosExecOpAllowed NsConfig.disk
  rw [List.find?_map]
  rfl

lemma execCall_cases (env : KvIoEnv) (mem : HostMem) (cmd : NvmeCmd) (iovs : List Seg) (key : Bytes)
    (valueOff payloadLen : Nat) : (∃ sc ∈ [scInvalidKeySize, scInvalidOpcode, scInvalidField, scInternalDeviceError],
      kvradosExecCall ns.disk env mem cmd iovs key valueOff payloadLen = .error (kvradosReject sctGeneric sc)) ∨
    ∃ call, kvradosExecCall ns.disk env mem cmd iovs key valueOff payloadLen = .ok call ∧
      ns.terms cmd.cdw13 = some (call.binding.terms ns.readOnly) := by
  unfold kvradosExecCall NsConfig.terms
  dsimp only
  rw [execOpAllowed_disk]
  by_cases hk : key = []
  · exact .inl ⟨scInvalidKeySize, by simp, if_pos hk⟩
  rw [if_neg hk]
  cases ns.execAllowlist.find? fun e => decide (e.opId = cmd.cdw13) with
  | none => exact .inl ⟨scInvalidOpcode, by simp, rfl⟩
  | some e =>
    dsimp only [Option.map_some]
    cases hr : kvradosResolveBinding e clsBufLen with
    | none => exact .inl ⟨scInvalidField, by simp, rfl⟩
    | some b =>
      dsimp only
      by_cases hc : b.caps > execCapsTierMax
      · exact .inl ⟨scInvalidField, by simp, if_pos hc⟩
      rw [if_neg hc]
      cases execInput mem iovs valueOff payloadLen env.bounce with
      | error _ => exact .inl ⟨scInternalDeviceError, by simp, rfl⟩
      | ok input =>
        cases hkc : env.kctx with
        | false => exact .inl ⟨scInternalDeviceError, by simp, rfl⟩
        | true => exact .inr ⟨_, rfl, by simp [hr, hc]⟩

lemma execModule_runs (front : NkvxFront σ) (s : σ) (mem : HostMem) (call : ExecCall) :
    let r := execModule ns.disk front s call
    Runs front s mem (some (call.binding.terms ns.readOnly))
      (r.1, frontDeliver mem call.sink r.2, kvradosComplete r.2.status r.2.resultLen) := by
  unfold execModule
  dsimp only
  split
  · next hnative => exact .native rfl hnative.1 hnative.2.1 rfl
  refine .forwarded ?_ rfl
  cases hs : call.binding.sha256 <;> simp [ExecIn.terms, ResolvedBinding.terms, NsConfig.disk, hs]

/-- An Exec runs a module only on the terms that the namespace has for its op, whatever else the
command says. -/
theorem exec_runs_on_terms (ns : NsConfig) (env : KvIoEnv) (front : NkvxFront σ) (s : σ)
    (mem : HostMem) (cmd : NvmeCmd)
    (iovs : List Seg) (hopc : cmd.opc = opcKvExec) :
    Runs front s mem (ns.terms cmd.cdw13) (kvradosHandleKvIo ns.disk env front s mem cmd iovs) := by
  unfold kvradosHandleKvIo
  dsimp only
  rw [hopc, if_neg (by simp [opcKvExec, opcKvStore, opcKvDelete]), if_neg (by decide), if_neg (by decide),
    if_neg (by decide), if_neg (by decide), if_pos rfl]
  unfold kvradosHandleExec
  generalize (kvradosParseInpayloadKey mem iovs (Memory.total iovs)).getD ([], 0) = parsed
  obtain ⟨sc, hsc, hcl⟩ | ⟨call, hcl, hterms⟩ :=
    execCall_cases ns env mem cmd iovs parsed.1 parsed.2 (Memory.total iovs)
  · rw [hcl]
    exact .rejected hsc
  rw [hcl, hterms]
  exact execModule_runs ..

def inputlenNs : NsConfig :=
  ⟨true, [⟨7, some (cstr ['n', 'k', 'v', 'x', ':'] ++ inputlen), none, none, none, none, 0⟩]⟩

theorem exec_runs_on_terms_inputlen :
    let front :
      NkvxFront Unit :=
        ⟨fun _ _ => ((), .only .failed), fun _ _ => .only .failed, fun _ _ _ => ((), .only .failed)⟩
    let cmd := { NvmeCmd.zero with opc := opcKvExec, cdw13 := 7 }
    inputlenNs.terms 7 =
      some ⟨.nkvx, some (cstr ['n', 'k', 'v', 'x']), some inputlen, none, 0, true⟩ ∧
      inputlenNs.terms 8 = none ∧
      Runs front () (fun _ => 0) (inputlenNs.terms 7)
        (kvradosHandleKvIo inputlenNs.disk .good front () (fun _ => 0) cmd []) := by
  intro front cmd
  exact ⟨by decide +kernel, by decide +kernel, exec_runs_on_terms inputlenNs .good front () (fun _ => 0) cmd [] rfl⟩

end RadosNkv
