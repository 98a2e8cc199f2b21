import RadosNkv.Weights.RoundTrip

/-! Publishes that raise: a client that fails at some calls, what a publish leaves behind when it
raises, and the same publish tried again. -/

namespace RadosNkv

namespace Weights

open List Prog PublishCall

def faulty (fails : Nat → Option Exn) : Handler KvOp KvOp.Resp Exn (Catalog × Nat) := fun op s =>
  match fails s.2 with
  | some e => (.error e, (s.1, s.2 + 1))
  | none => ((serve op s.1).1, ((serve op s.1).2, s.2 + 1))

section

variable {L : Libs} {kvvml : Int} {call : PublishCall} {c c' : Catalog} {fails : Nat → Option Exn} {k k' : Nat} {e : Exn}

lemma run_faulty_call {α : Type} (op : KvOp) (q : op.Resp → Kv α) : (.call op q : Kv α).run (faulty fails) (c, k) =
      match fails k with
      | some e => (.error e, (c, k + 1))
      | none =>
        match serve op c with
        | (.ok r, c') => (q r).run (faulty fails) (c', k + 1)
        | (.error e, c') => (.error e, (c', k + 1)) := by
  rw [run_call, faulty]
  cases fails k with
  | some e => rfl
  | none =>
    cases serve op c with
    | mk r c' => cases r <;> rfl

lemma run_faulty_puts {α : Type} {Q : Kv α → Prop} {p : Kv α} {vs : List Bytes} (h : Puts L vs Q p)
    (hr : p.run (faulty fails) (c, k) = (.error e, (c', k'))) : (∃ ws, ws <+: vs ∧ c' = putValues L c ws) ∨
      ∃ p' k1, Q p' ∧ p'.run (faulty fails) (putValues L c vs, k1) = (.error e, (c', k')) := by
  induction vs generalizing p c k with
  | nil => exact .inr ⟨p, k, h, hr⟩
  | cons v vs ih =>
    obtain ⟨q, hq, rfl⟩ := h
    -- a call that raises ends the program with what is put so far
    have hn : c' = c → ∃ ws, ws <+: v :: vs ∧ c' = putValues L c ws :=
      fun hc => ⟨[], nil_prefix, hc⟩
    have hx : ∀ found k1, (q found).run (faulty fails) (putValue L c v, k1) = (.error e, (c', k')) →
        (∃ ws, ws <+: v :: vs ∧ c' = putValues L c ws) ∨
          ∃ p' k1, Q p' ∧ p'.run (faulty fails) (putValues L c (v :: vs), k1) = (.error e, (c', k')) := by
      intro found k1 hf
      rcases ih (hq found) hf with ⟨ws, hw, hc⟩ | ha
      · exact .inl ⟨v :: ws, cons_prefix_cons.mpr ⟨rfl, hw⟩, hc⟩
      · exact .inr ha
    rw [run_faulty_call] at hr
    cases hl : fails k with
    | some e' =>
      rw [hl] at hr
      cases hr
      exact .inl (hn rfl)
    | none =>
      simp only [hl, serve] at hr
      cases hf : c.contains (chunkKey L v) with
      | true =>
        simp only [hf, if_true] at hr
        refine hx true (k + 1) ?_
        rw [putValue, if_pos hf]
        exact hr
      | false =>
        simp only [hf, Bool.false_eq_true, if_false, run_faulty_call] at hr
        cases hl' : fails (k + 1) with
        | some e' =>
          rw [hl'] at hr
          cases hr
          exact .inl (hn rfl)
        | none =>
          simp only [hl', serve] at hr
          refine hx false (k + 1 + 1) ?_
          rw [putValue, if_neg (by simp [hf])]
          exact hr

lemma faulty_retrieve (op : KvOp) (s : Catalog × Nat) (ho : ∃ key, key = manifestKey L call.modelRevision ∧ op = .retrieve key)
    (hs : s.1 = c) : (faulty fails op s).2.1 = c := by
  obtain ⟨key, -, rfl⟩ := ho
  unfold faulty
  cases fails s.2 <;> exact hs

lemma publish_raises (hr : (publish L kvvml call).run (faulty fails) (c, k) = (.error e, (c', k'))) :
    ∃ ws, ws <+: call.values kvvml ∧ c' = putValues L c ws := by
  by_cases hc : call.cap kvvml ≤ 0
  · rw [publish, if_pos hc] at hr
    cases hr
    exact ⟨[], nil_prefix, rfl⟩
  rw [publish_of_cap_pos (Int.not_le.mp hc), run_bind] at hr
  have hk : ((readBase L call).run (faulty fails) (c, k)).2.1 = c :=
    (reads_readBase L call).run_keeps (I := fun s : Catalog × Nat => s.1 = c) _ faulty_retrieve rfl
  cases hb : (readBase L call).run (faulty fails) (c, k) with
  | mk r s1 =>
    rw [hb] at hr hk
    obtain ⟨c1, k1⟩ := s1
    cases hk
    cases r with
    | error e' =>
      cases hr
      exact ⟨[], nil_prefix, rfl⟩
    | ok base =>
      rcases run_faulty_puts (puts_publishOnto L kvvml call base) hr with hp | ⟨p, k2, hf, hr⟩
      · exact hp
      refine ⟨call.values kvvml, prefix_rfl, ?_⟩
      unfold PublishCall.Finishes at hf
      cases hd : call.manifestBytes L kvvml base with
      | error e' =>
        rw [hd] at hf
        rw [hf] at hr
        cases hr
        rfl
      | ok data =>
        rw [hd] at hf
        obtain ⟨stats, rfl⟩ := hf
        rw [run_faulty_call] at hr
        cases hl : fails k2 with
        | some e' =>
          rw [hl] at hr
          cases hr
          rfl
        | none =>
          rw [hl] at hr
          cases hr

lemma Loads.putValues (h : Loads L c rev p f) (vs : List Bytes) :
    Loads L (putValues L c vs) rev p f := by
  obtain ⟨m, hm, hs⟩ := loads_iff.mp h
  refine loads_iff.mpr ⟨m, ?_, hs.mono fun key v hv _ => get_putValues_of_some vs hv⟩
  rw [← hm]
  exact manifestOf_congr (get_putValues_of_ne vs (manifestKey_ne_chunkKey rev))

lemma publish_returns_putValues (vs : List Bytes)
    (h : (publish L kvvml call).run serve c = (.ok stats, c1)) :
    ∃ stats' data, (publish L kvvml call).run serve (putValues L c vs) =
      (.ok stats', (putValues L (putValues L c vs) (call.values kvvml)).insert (manifestKey L call.modelRevision) data) := by
  obtain ⟨hc, base, data, hb, hd, -⟩ := publish_ok h
  obtain ⟨stats', hr⟩ := publish_run L kvvml call (putValues L c vs)
  refine ⟨stats', data, ?_⟩
  rw [hr, if_neg (Int.not_le.mpr hc), base_putValues, hb]
  simp only [hd]

/-- What is under the key of a value of the call hashes to that key. -/
def PublishCall.Dedups (L : Libs) (kvvml : Int) (c : Catalog) (call : PublishCall) : Prop :=
  ∀ v ∈ call.values kvvml, ∀ w, c.get (chunkKey L v) = some w → chunkKey L w = chunkKey L v

lemma PublishCall.Dedups.get_putValues (h : call.Dedups L kvvml c)
    (hf : Set.InjOn L.blake2b (usedValues L kvvml c [call])) (hs : ws <+: call.values kvvml)
    (hv : v ∈ call.values kvvml) :
    (putValues L (putValues L c ws) (call.values kvvml)).get (chunkKey L v) = some v := by
  have hu : ∀ w ∈ call.values kvvml, w ∈ usedValues L kvvml c [call] :=
    fun w hw => .inr ⟨call, mem_singleton_self call, hw⟩
  obtain ⟨w, hw⟩ := Option.isSome_iff_exists.mp (isSome_get_putValues (c := putValues L c ws) hv)
  rw [hw]
  congr 1
  rcases of_get_putValues hw with hw | ⟨hm, hk⟩
  · rcases of_get_putValues hw with hw | ⟨hm, hk⟩
    · exact hf (.inl ⟨v, hw⟩) (hu v hv) (chunkKey_inj.mp (h v hv w hw))
    · exact hf (hu w (hs.subset hm)) (hu v hv) (chunkKey_inj.mp hk.symm)
  · exact hf (hu w hm) (hu v hv) (chunkKey_inj.mp hk.symm)

end

/-- A publish that raises, for any reason and with a client that fails at any calls: every revision
and precision that loaded before loads the same tensors after it. -/
theorem failed_publish_is_harmless (L : Libs) (hL : L.Lossless) (kvvml : Int) (call : PublishCall)
    (c c' : Catalog)
    (fails : Nat → Option Exn) (e : Exn) (k : Nat)
    (hfree : Set.InjOn L.blake2b (usedValues L kvvml c [call]))
    (hrun : (publish L kvvml call).run (faulty fails) (c, 0) = (.error e, (c', k))) :
    (∀ rev p f, Loads L c rev p f → Loads L c' rev p f) ∧
      ((∃ stats c₁, (publish L kvvml call).run serve c = (.ok stats, c₁)) →
        ∃ stats c'', (publish L kvvml call).run serve c' = (.ok stats, c'') ∧
          (call.Dedups L kvvml c → (∀ p, TensorsSpec.Has call.tensors p → ',' ∉ p) →
            ∀ p held,
              (call.merge = true → Holding L c call.modelRevision p held ∧
                Mergeable L c call.modelRevision) →
              LoadsHeld L c'' call.modelRevision p
                (TensorsSpec.onto call.tensors p (if call.merge then held else none)))) := by
  obtain ⟨ws, hws, rfl⟩ := publish_raises hrun
  refine ⟨fun rev p f h => h.putValues ws, fun ⟨stats, c₁, hret⟩ => ?_⟩
  obtain ⟨stats', data, hrtr⟩ := publish_returns_putValues ws hret
  refine ⟨stats', _, hrtr, fun hdedups hnames p held hold => ?_⟩
  have hold' : call.merge = true → Holding L (putValues L c ws) call.modelRevision p held ∧
      Mergeable L (putValues L c ws) call.modelRevision := by
    intro hmerge
    obtain ⟨hheld, hmer⟩ := hold hmerge
    exact ⟨hheld.putValues ws, hmer.congr (get_putValues_of_ne ws (manifestKey_ne_chunkKey _))⟩
  exact (holding_publish hL (fun v hv => hdedups.get_putValues hfree hws hv) hnames hrtr rfl hold').1.loadsHeld

def failsAt (n : Nat) : Nat → Option Exn := fun k => if k = n then some .client else none

/-- The third call is the `exists` of the second Value. -/
theorem failed_publish_is_harmless_third :
    ∃ c' k, (publish twoLibs 64 publishFp16).run (faulty (failsAt 2))
      (.empty, 0) = (.error .client, (c', k)) ∧
      ∃ stats c'', (publish twoLibs 64 publishFp16).run serve c' = (.ok stats, c'') ∧
        LoadsHeld twoLibs c'' modelRev fp16 (TensorsSpec.onto publishFp16.tensors fp16 none) := by
  have hfails : ((publish twoLibs 64 publishFp16).run (faulty (failsAt 2)) (.empty, 0)).1 = .error .client := by
    decide +kernel
  obtain ⟨stats, hret⟩ : ∃ stats, ((publish twoLibs 64 publishFp16).run serve .empty).1 = .ok stats :=
    ⟨⟨2, 2, 2, 0, 3⟩, by decide +kernel⟩
  have hvals : ∀ v ∈ usedValues twoLibs 64 .empty [publishFp16], v ∈ [[1, 2], [3]] := by
    have hcl : ∀ v ∈ publishFp16.values 64, v ∈ [[1, 2], [3]] := by decide +kernel
    rintro v (⟨w, hw⟩ | ⟨call, hmem, hv⟩)
    · simp at hw
    rw [mem_singleton.mp hmem] at hv
    exact hcl v hv
  have hinj : ∀ v ∈ [[1, 2], [3]], ∀ w ∈ [[1, 2], [3]], twoLibs.blake2b v = twoLibs.blake2b w → v = w := by
    decide +kernel
  have hnames : ∀ t ∈ TensorsSpec.all publishFp16.tensors, ',' ∉ t.1.2 := by decide +kernel
  obtain ⟨c', k, hrun⟩ : ∃ c' k,
      (publish twoLibs 64 publishFp16).run (faulty (failsAt 2)) (.empty, 0) = (.error .client, (c', k)) :=
    ⟨_, _, Prod.ext hfails rfl⟩
  refine ⟨c', k, hrun, ?_⟩
  obtain ⟨stats', c'', hrtr, hloads⟩ := (failed_publish_is_harmless twoLibs (standIn_lossless _ _) 64 publishFp16 .empty c'
    (failsAt 2) .client k (fun v hv w hw => hinj v (hvals v hv) w (hvals w hw)) hrun).2
    ⟨stats, _, Prod.ext hret rfl⟩
  refine ⟨stats', c'', hrtr, hloads (fun v _ w hw => absurd hw (by simp)) ?_ fp16 none fun h => (nomatch h)⟩
  rintro _ ⟨t, ht, rfl⟩
  exact hnames t ht

def retried (L : Libs) (c : Catalog) (call : PublishCall) : Except Exn PublishStats × Catalog :=
  (publish L 64 call).run serve ((publish L 64 call).run (faulty (failsAt 0)) (c, 0)).2.1

def mergeFp16 : PublishCall := { publishFp16 with merge := true }

def corruptPrior : Catalog := Dict.empty.insert (chunkKey (standIn someDigests []) [4]) [3]

def publishComma : PublishCall := { modelRevision := modelRev, tensors := oneTensor ['t'] ['a', ',', 'b'] [3] }

def RetryRaises (L : Libs) (c : Catalog) (call : PublishCall) : Prop :=
  ((publish L 64 call).run (faulty (failsAt 0)) (c, 0)).1 = .error .client ∧ raises (retried L c call).1

instance (L : Libs) (c : Catalog) (call : PublishCall) : Decidable (RetryRaises L c call) :=
  inferInstanceAs (Decidable (_ ∧ _))

def RetryDoesNotLoad (L : Libs) (c : Catalog) (call : PublishCall) (p : Str) : Prop :=
  ((publish L 64 call).run (faulty (failsAt 0)) (c, 0)).1 = .error .client ∧ TensorsSpec.Has call.tensors p ∧
    raises (retried L c call).1 = false ∧ raises ((load L modelRev p).run serve (retried L c call).2).1

instance (L : Libs) (c : Catalog) (call : PublishCall) (p : Str) : Decidable (RetryDoesNotLoad L c call p) :=
  inferInstanceAs (Decidable (_ ∧ _ ∧ _ ∧ _))

/-- A retry raises if the precision is recorded for the tensor. It returns without its precision
loading if there are other bytes under the key of its Value, if its name or one in the extended
manifest has a comma, or if the extended manifest has a tensor at the precision that does not load.
-/
theorem retry_raises_or_does_not_load :
    RetryRaises twoLibs fp16Catalog mergeFp16 ∧
      RetryDoesNotLoad (oneLibs mergeFp8) corruptPrior mergeFp8 fp8 ∧
      RetryDoesNotLoad (oneLibs publishComma) .empty publishComma ['a', ',', 'b'] ∧
      RetryDoesNotLoad commaLibs commaPrior mergeFp8 fp8 ∧
      RetryDoesNotLoad danglingLibs danglingPrior mergeFp8 fp8 :=
  ⟨by decide +kernel, by decide +kernel, by decide +kernel, by decide +kernel, by decide +kernel⟩

end Weights

end RadosNkv
