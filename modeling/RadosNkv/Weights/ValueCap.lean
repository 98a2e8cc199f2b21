import RadosNkv.Weights.RoundTrip

/-! The Values that a publish stores against the cap in force. -/

namespace RadosNkv

namespace Weights

open List Prog

def stores (ops : List (KvOp × Catalog)) : List Bytes :=
  ops.filterMap fun op =>
    match op.1 with
    | .store _ value => some value
    | _ => none

namespace PublishCall

variable (L : Libs) (kvvml : Int) (call : PublishCall) (c : Catalog)

def stored : List Bytes := stores ((publish L kvvml call).trace serve c)

def manifestOnto : Except Exn Bytes := do
  let base ← call.base L c
  call.manifestBytes L kvvml base

/-- The manifest that the call is to store is within its cap. -/
def ManifestFits : Prop := ∀ data ∈ (call.manifestOnto L kvvml c).toOption, (data.length : Int) ≤ call.cap kvvml

end PublishCall

section

variable {L : Libs} {kvvml : Int} {call : PublishCall} {c : Catalog}

lemma stores_puts {α : Type} {Q : Kv α → Prop} {p : Kv α} {vs : List Bytes} (h : Puts L vs Q p) (c : Catalog) :
    ∃ p' put c', Q p' ∧ (∀ v ∈ put, v ∈ vs) ∧ stores (p.trace serve c) = put ++ stores (p'.trace serve c') := by
  induction vs generalizing p c with
  | nil => exact ⟨p, [], c, h, fun v hv => hv, rfl⟩
  | cons v vs ih =>
    obtain ⟨k, hk, rfl⟩ := h
    cases hf : c.contains (chunkKey L v) with
    | true =>
      obtain ⟨p', put, c', hQ, hp, ht⟩ := ih (hk true) c
      refine ⟨p', put, c', hQ, fun w hw => mem_cons_of_mem _ (hp w hw), ?_⟩
      rw [← ht]
      simp [trace, serve, hf, stores]
    | false =>
      obtain ⟨p', put, c', hQ, hp, ht⟩ := ih (hk false) (c.insert (chunkKey L v) v)
      refine ⟨p', v :: put, c', hQ, fun w hw => ?_, ?_⟩
      · rcases mem_cons.mp hw with rfl | hw
        · exact mem_cons_self ..
        · exact mem_cons_of_mem _ (hp w hw)
      rw [cons_append, ← ht]
      simp [trace, serve, hf, stores]

lemma stores_readBase : stores ((readBase L call).trace serve c) = [] := by
  unfold readBase
  split
  · simp only [Kv.retrieve, perform_bind, trace, serve, stores, filterMap_cons]
    cases c.get (manifestKey L call.modelRevision) with
    | none => rfl
    | some existing =>
      simp only
      cases WeightManifest.fromIpc L existing <;> rfl
  · rfl

lemma PublishCall.stored_eq (hc : 0 < call.cap kvvml) : ∃ put, (∀ v ∈ put, v ∈ call.values kvvml) ∧
      call.stored L kvvml c = put ++ (call.manifestOnto L kvvml c).toOption.toList := by
  have ha : ∀ ops ops', stores (ops ++ ops') = stores ops ++ stores ops' := fun _ _ => filterMap_append
  rw [stored, publish_of_cap_pos hc, trace_bind, ha, stores_readBase, readBase_run, nil_append, manifestOnto]
  cases call.base L c with
  | error e => exact ⟨[], fun v hv => absurd hv not_mem_nil, rfl⟩
  | ok base =>
    obtain ⟨p, put, c', hf, hp, ht⟩ := stores_puts (puts_publishOnto L kvvml call base) c
    refine ⟨put, hp, ht.trans (congrArg _ ?_)⟩
    show _ = (call.manifestBytes L kvvml base).toOption.toList
    unfold Finishes at hf
    cases hd : call.manifestBytes L kvvml base with
    | error e =>
      rw [hd] at hf
      rw [hf]
      rfl
    | ok data =>
      rw [hd] at hf
      obtain ⟨stats, rfl⟩ := hf
      rfl

end

/-- For any spec, cap of at least one, packing, merge and catalog: every Value that a publish stores
is within the cap exactly if the manifest of the call is. -/
theorem stored_le_cap_iff (L : Libs) (kvvml : Int) (call : PublishCall) (c : Catalog)
    (hcap : 1 ≤ call.cap kvvml) :
    (∀ v ∈ call.stored L kvvml c, (v.length : Int) ≤ call.cap kvvml) ↔
      call.ManifestFits L kvvml c := by
  obtain ⟨put, hput, hstore⟩ := PublishCall.stored_eq (L := L) (c := c) (Int.lt_of_lt_of_le Int.one_pos hcap)
  have hchunk : ∀ v ∈ put, (v.length : Int) ≤ call.cap kvvml :=
    fun v hv => PublishCall.values_length_le (Int.lt_of_lt_of_le Int.one_pos hcap) (hput v hv)
  rw [hstore, PublishCall.ManifestFits]
  simp only [mem_append, or_imp, forall_and, Option.mem_toList]
  exact and_iff_right hchunk

/-- A publish whose manifest is within the cap that the client reports. -/
theorem stored_le_cap_iff_sixty_four :
    1 ≤ mergeFp8.cap 64 ∧ (mergeFp8.stored (oneLibs mergeFp8) 64 .empty).length = 2 ∧
      ∀ v ∈ mergeFp8.stored (oneLibs mergeFp8) 64 .empty, (v.length : Int) ≤ mergeFp8.cap 64 := by
  refine ⟨by decide, by decide +kernel,
    (stored_le_cap_iff (oneLibs mergeFp8) 64 mergeFp8 .empty (by decide)).mpr fun data hdt => ?_⟩
  have hfits : ((mergeFp8.manifestOnto (oneLibs mergeFp8) 64 .empty).toOption.all fun data => data.length ≤ 64) = true := by
    decide +kernel
  rw [Option.mem_def.mp hdt] at hfits
  have hlen : data.length ≤ 64 := of_decide_eq_true hfits
  exact Int.ofNat_le.mpr hlen

/-- Three bytes at a cap of two: the two chunks keep it, and the manifest does not. -/
theorem publish_stores_manifest_over_cap :
    1 ≤ publishFp16.cap 64 ∧
      ((publish twoLibs 64 publishFp16).run serve .empty).1.toOption.isSome ∧
      ∃ v ∈ publishFp16.stored twoLibs 64 .empty, publishFp16.cap 64 < (v.length : Int) := by
  decide +kernel

end Weights

end RadosNkv
