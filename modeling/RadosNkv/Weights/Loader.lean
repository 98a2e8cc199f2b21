import Mathlib.Data.List.Forall2
import RadosNkv.Weights.Catalog

/-! The loader (`loader.py`): a manifest and a precision, the Values it names, and the tensors cut
out of them. -/

namespace RadosNkv

namespace Weights

def pySlice (value : Bytes) (offset stop : Int) : Bytes :=
  let stop := if stop < 0 then stop + value.length else stop
  (value.take stop.toNat).drop offset.toNat

variable (L : Libs)

/-- `_get_verified`: the Value of a key, from the cache or from the store and then checked against
its key. -/
def getVerified (modelRevision precision : Str) (verified : Dict Bytes Bytes) (key : Option Bytes) (tensor : Name) :
    Kv (Bytes × Dict Bytes Bytes) :=
  match key with
  | none => Prog.raise .typeError
  | some key =>
    match verified.get key with
    | some cached => pure (cached, verified)
    | none => do
      match ← Kv.retrieve key with
      | none => Prog.raise (.missingChunk key tensor modelRevision precision)
      | some value =>
        if chunkKey L value ≠ key then
          Prog.raise (.integrity tensor modelRevision precision key (chunkKey L value))
        else pure (value, verified.insert key value)

/-- One slice of a tensor: the parts so far with the slice's bytes after them. -/
def addPart (modelRevision precision : Str) (tensor : Name) (st : Dict Bytes Bytes × List Bytes)
    (slice : Option Bytes × Option Int × Option Int) : Kv (Dict Bytes Bytes × List Bytes) := do
  let (value, verified) ← getVerified L modelRevision precision st.1 slice.1 tensor
  match slice.2.1, slice.2.2 with
  | some offset, some size =>
    if offset < 0 ∨ offset + size > value.length then
      Prog.raise (.sliceOutOfRange offset (offset + size) tensor (slice.1.getD []) value.length)
    else pure (verified, st.2 ++ [pySlice value offset (offset + size)])
  | _, _ => Prog.raise .typeError

def totalSize (slices : List (Option Bytes × Option Int × Option Int)) : Int := (slices.map fun s => s.2.2.getD 0).sum

def loadTensor (manifest : WeightManifest) (modelRevision precision : Str)
    (st : Dict Bytes Bytes × Dict Name Bytes) (tensor : Name) : Kv (Dict Bytes Bytes × Dict Name Bytes) := do
  let slices ← manifest.chunkSlices tensor precision
  let (verified, parts) ← slices.foldlM (addPart L modelRevision precision tensor) (st.1, [])
  let data := parts.flatten
  if (data.length : Int) ≠ totalSize slices then
    Prog.raise (.lengthOfTensor tensor data.length (totalSize slices))
  else pure (verified, st.2.insert tensor data)

def reassemble (manifest : WeightManifest) (modelRevision precision : Str) : Kv (Dict Name Bytes) :=
  if precision ∉ manifest.precisions then
    Prog.raise (.precisionNotFound precision (canonicalRevision L modelRevision) manifest.precisions)
  else do
    let (_, out) ← (manifest.tensors precision).foldlM (loadTensor L manifest modelRevision precision)
      (.empty, .empty)
    pure out

def loadManifest (modelRevision : Str) : Kv WeightManifest := do
  match ← Kv.retrieve (manifestKey L modelRevision) with
  | none => Prog.raise (.manifestNotFound (canonicalRevision L modelRevision))
  | some raw => (WeightManifest.fromIpc L raw : Except Exn WeightManifest)

def load (modelRevision precision : Str) : Kv (Dict Name Bytes) := do
  let manifest ← loadManifest L modelRevision
  reassemble L manifest modelRevision precision

end Weights

end RadosNkv
