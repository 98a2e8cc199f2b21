import RadosNkv.VfuHost.Client

/-! The data blocks of an SGL: they tile the buffer, and no block crosses a 2 MiB region. -/

namespace RadosNkv

/-- The blocks cover `a` to `e` in order, each within one region. -/
def Tiles : Nat → Nat → List SglBlock → Prop
  | a, e, [] => a = e
  | a, e, b :: blocks =>
    b.address = a ∧ 0 < b.length ∧ a / nvfuDmaRegion = (a + b.length - 1) / nvfuDmaRegion ∧ Tiles (a + b.length) e blocks

def nvmfReqMaxBuffers : Nat := 33

def maxIoSize : Nat := 32 * nvfuDmaRegion

variable {iova len : Nat}

lemma length_sglChunks (n off chunk : Nat) : (sglChunks iova len n off chunk).length = n := by
  induction n generalizing off chunk with
  | zero => rfl
  | succ n ih => rw [sglChunks, List.length_cons, ih]

lemma tiles_cons : Tiles a e (⟨a, n⟩ :: blocks) ↔
      0 < n ∧ a / nvfuDmaRegion = (a + n - 1) / nvfuDmaRegion ∧ Tiles (a + n) e blocks := by
  simp [Tiles]

lemma same_region (he : a % nvfuDmaRegion + chunk = nvfuDmaRegion) (hn : 0 < n) (hl : n ≤ chunk) :
    a / nvfuDmaRegion = (a + n - 1) / nvfuDmaRegion := by
  unfold nvfuDmaRegion at *
  omega

lemma tiles_sglChunks (ho : off < len) (he : (iova + off) % nvfuDmaRegion + chunk = nvfuDmaRegion)
    (hc : len ≤ off + chunk + n * nvfuDmaRegion)
    (ht : 0 < n → off + chunk + (n - 1) * nvfuDmaRegion < len) :
    Tiles (iova + off) (iova + len) (sglChunks iova len (n + 1) off chunk) := by
  have hp : 0 < chunk := by
    have hlt : (iova + off) % nvfuDmaRegion < nvfuDmaRegion := Nat.mod_lt _ (by decide)
    omega
  induction n generalizing off chunk with
  | zero =>
    -- the last block is cut at the end of the buffer
    have hl : (if off + chunk > len then len - off else chunk) = len - off := by
      split <;> omega
    rw [sglChunks, hl]
    refine tiles_cons.mpr ⟨Nat.sub_pos_of_lt ho, same_region he (Nat.sub_pos_of_lt ho) (by omega), ?_⟩
    show iova + off + (len - off) = iova + len
    omega
  | succ n ih =>
    have hm := ht (Nat.succ_pos n)
    rw [Nat.add_sub_cancel] at hm
    rw [Nat.succ_mul] at hc
    rw [sglChunks, if_neg (by omega)]
    refine tiles_cons.mpr ⟨hp, same_region he hp (le_rfl), ?_⟩
    have hx : (iova + (off + chunk)) % nvfuDmaRegion = 0 := by
      unfold nvfuDmaRegion at *
      omega
    rw [add_assoc]
    refine ih (by omega) (by rw [hx, zero_add]) (by omega) (fun hn => ?_) (by decide)
    have hs : n * nvfuDmaRegion = (n - 1) * nvfuDmaRegion + nvfuDmaRegion := by
      rw [← Nat.succ_mul, Nat.succ_eq_add_one, Nat.sub_add_cancel hn]
    omega

lemma firstChunk_end (iova : Nat) : (iova + 0) % nvfuDmaRegion + firstChunk iova = nvfuDmaRegion := by
  have hl : iova % nvfuDmaRegion < nvfuDmaRegion := Nat.mod_lt _ (by decide)
  unfold firstChunk
  rw [add_zero]
  omega

/-- For buffers of 1 byte to 64 MiB: both functions describe the buffer by the same blocks, which
tile it and are at most 33; with the key head in front they are at most 33 exactly if the buffer
ends within 31 regions of its first boundary. -/
theorem sgl_blocks_tile (headIova headLen iova len : Nat) (hpos : 0 < len)
    (hmax : len ≤ maxIoSize) :
    ∃ blocks, nvfuSglSetDptr iova len true = .ok blocks ∧
      nvfuSglSetDptrKv headIova headLen iova len true = .ok (⟨headIova, headLen⟩ :: blocks) ∧
      Tiles iova (iova + len) blocks ∧ blocks.length ≤ nvmfReqMaxBuffers ∧
      ((⟨headIova, headLen⟩ :: blocks : List SglBlock).length ≤ nvmfReqMaxBuffers ↔
        len ≤ firstChunk iova + 31 * nvfuDmaRegion) := by
  have hnew := firstChunk_pos iova
  unfold nvfuSglSetDptr nvfuSglSetDptrKv
  rw [if_neg (ne_of_gt hpos), if_pos rfl, if_pos rfl]
  by_cases hone : len ≤ firstChunk iova
  · have hblock : sglChunks iova len 1 0 (firstChunk iova) = [⟨iova, len⟩] := by
      have hlist : (if 0 + firstChunk iova > len then len - 0 else firstChunk iova) = len := by
        split <;> omega
      rw [sglChunks, hlist]
      rfl
    have htiles := tiles_sglChunks hpos (firstChunk_end iova) (n := 0) (by omega) (by omega)
    rw [hblock] at htiles
    refine ⟨[⟨iova, len⟩], if_pos hone, ?_, htiles, ?_, ?_⟩
    · rw [if_pos hone, hblock]
    · simp [nvmfReqMaxBuffers]
    · exact iff_of_true (by simp [nvmfReqMaxBuffers]) (by omega)
  have hdiv := Nat.div_add_mod (len - firstChunk iova + nvfuDmaRegion - 1) nvfuDmaRegion
  have hlt : (len - firstChunk iova + nvfuDmaRegion - 1) % nvfuDmaRegion < nvfuDmaRegion := Nat.mod_lt _ (by decide)
  have hcover := regionBlocks_cover iova len
  rw [if_neg hone, if_neg hone]
  unfold regionBlocks
  generalize (len - firstChunk iova + nvfuDmaRegion - 1) / nvfuDmaRegion = n at *
  rw [add_comm 1 n]
  unfold maxIoSize nvfuDmaRegion at *
  refine ⟨_, rfl, rfl, tiles_sglChunks hpos (firstChunk_end iova) hcover ?_, ?_, ?_⟩
  · intro hn
    unfold nvfuDmaRegion
    omega
  · rw [length_sglChunks]
    unfold nvmfReqMaxBuffers
    omega
  rw [List.length_cons, length_sglChunks]
  unfold nvmfReqMaxBuffers
  omega

theorem sgl_blocks_tile_unaligned :
    ∃ blocks, nvfuSglSetDptr 4096 (3 * nvfuDmaRegion) true = .ok blocks ∧
      Tiles 4096 (4096 + 3 * nvfuDmaRegion) blocks ∧ blocks.length ≤ nvmfReqMaxBuffers := by
  obtain ⟨blocks, hplain, -, htiles, hlen, -⟩ := sgl_blocks_tile 0 5 4096 (3 * nvfuDmaRegion) (by decide) (by decide)
  exact ⟨blocks, hplain, htiles, hlen⟩

/-- A value of 64 MiB in a page-aligned buffer that is not aligned to a region takes 33 blocks, and
34 with its key head. -/
theorem sgl_unaligned_overflows :
    (nvfuSglSetDptr 4096 maxIoSize true).map List.length = .ok 33 ∧
      (nvfuSglSetDptrKv 0 5 4096 maxIoSize true).map List.length = .ok 34 := by
  decide +kernel

end RadosNkv
