import RadosNkv.Wasm.Callers

/-! Carry-ref: a caller that pinned an object goes on with that version, and nobody who starts after
an invalidation gets a version from before it. -/

namespace RadosNkv

open List Callers

variable {api : WasmApi} {cfg : WasmConfig}

variable {objKey : Bytes}

lemma cachePin_obtains {c : Cache api.Module} (h : c.Counted holds fault)
    (hp : (cachePin c objKey).2 = some p) :
    ∃ o, c.obj p = some o ∧ o.dead = false ∧ o.objKey = objKey := by
  unfold cachePin at hp
  split at hp
  · cases hp
  cases hl : nkvxObjLookup c objKey with
  | none =>
    rw [hl] at hp
    cases hp
  | some o =>
    rw [hl] at hp
    dsimp only at hp
    split at hp <;> cases hp
    obtain ⟨ho, hv, hk⟩ := objLookup_some hl
    exact ⟨o, Tailq.find_of_mem h.objs.nodup ho, hv, hk⟩

variable (evs : List CacheCall)

end RadosNkv
