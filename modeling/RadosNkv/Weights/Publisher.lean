import RadosNkv.Weights.Catalog

/-! The publisher (`publisher.py`, `chunking.py`): tensors cut into chunks, chunks packed into
Values, and the manifest that names them. -/

namespace RadosNkv

namespace Weights

structure TensorSpec where
  dtype : Str
  shape : List Int
  data : Bytes

abbrev TensorsSpec := Dict Str (Dict Str TensorSpec)

structure PublishStats where
  chunksTotal : Nat := 0
  valuesTotal : Nat := 0
  valuesStored : Nat := 0
  valuesDeduped : Nat := 0
  bytesTotal : Nat := 0
deriving DecidableEq

def iterChunks (data : Bytes) (maxLen : Nat) : List Bytes :=
  (List.range' 0 ((data.length + maxLen - 1) / maxLen) maxLen).map fun offset => (data.drop offset).take maxLen

structure Slice where
  tensor : Str
  precision : Str
  seq : Nat

structure Pending where
  buf : Bytes := []
  members : List (Slice × Nat × Nat) := []

structure SliceRec where
  key : Option Bytes
  offset : Option Nat
  size : Nat

structure Builder where
  max : Nat
  pack : Bool
  stats : PublishStats := {}
  records : Dict (Str × Str) (List SliceRec) := .empty
  pending : Pending := {}

namespace Builder

section

variable (b : Builder)

def recs (owner : Str × Str) : List SliceRec := (b.records.get owner).getD []

def newSlice (tensor precision : Str) (size : Nat) : Slice × Builder :=
  let recs := b.recs (tensor, precision)
  (⟨tensor, precision, recs.length⟩,
    { b with
      records := b.records.insert (tensor, precision) (recs ++ [⟨none, none, size⟩])
      stats.chunksTotal := b.stats.chunksTotal + 1 })

def storeValue (key value : Bytes) : Kv Builder := do
  let b := { b with stats.valuesTotal := b.stats.valuesTotal + 1 }
  if ← Kv.exists_ key then
    pure { b with stats.valuesDeduped := b.stats.valuesDeduped + 1 }
  else
    Kv.store key value
    pure { b with stats.valuesStored := b.stats.valuesStored + 1 }

def fill (sl : Slice) (key : Bytes) (offset size : Nat) : Except Exn Builder :=
  match b.records.get (sl.tensor, sl.precision) with
  | none => .error (.keyError sl.tensor)
  | some recs =>
    match recs[sl.seq]? with
    | none => .error .indexError
    | some r =>
      if r.size = size then
        .ok { b with
          records := b.records.insert (sl.tensor, sl.precision) (recs.set sl.seq ⟨some key, some offset, r.size⟩) }
      else .error .assertionError

def fillMembers (key : Bytes) : Except Exn Builder :=
  b.pending.members.foldlM (fun b m => b.fill m.1 key m.2.1 m.2.2) b

end

variable (L : Libs)

def storeWhole (b : Builder) (sl : Slice) (chunk : Bytes) : Kv Builder := do
  let key := chunkKey L chunk
  let b ← b.storeValue key chunk
  b.fill sl key 0 chunk.length

def flushPending (b : Builder) : Kv Builder :=
  if b.pending.members = [] then pure b
  else do
    let key := chunkKey L b.pending.buf
    let b ← b.storeValue key b.pending.buf
    let b ← b.fillMembers key
    pure { b with pending := {} }

def appendPacked (b : Builder) (sl : Slice) (chunk : Bytes) : Kv Builder := do
  let b ← if b.pending.buf.length + chunk.length > b.max then b.flushPending L else pure b
  pure { b with
    pending.buf := b.pending.buf ++ chunk
    pending.members := b.pending.members ++ [(sl, b.pending.buf.length, chunk.length)] }

def addChunk (tensor precision : Str) (b : Builder) (chunk : Bytes) : Kv Builder := do
  let (sl, b) := b.newSlice tensor precision chunk.length
  if !b.pack || chunk.length = b.max then
    let b ← b.flushPending L
    b.storeWhole L sl chunk
  else b.appendPacked L sl chunk

def addTensor (b : Builder) (tensor precision : Str) (data : Bytes) : Kv Builder :=
  let b := { b with stats.bytesTotal := b.stats.bytesTotal + data.length }
  if data.length = 0 then
    pure { b with records := b.records.insert (tensor, precision) (b.recs (tensor, precision)) }
  else (iterChunks data b.max).foldlM (addChunk L tensor precision) b

end Builder

def TensorsSpec.all (tensors : TensorsSpec) : List ((Str × Str) × TensorSpec) :=
  tensors.entries.flatMap fun t => t.2.entries.map fun p => ((t.1, p.1), p.2)

def recordTensor (recs : Str × Str → List SliceRec) (manifest : WeightManifest) (t : (Str × Str) × TensorSpec) :
    Except Exn WeightManifest :=
  manifest.addTensor (some t.1.1) t.1.2 t.2.dtype (t.2.shape.map some) ((recs t.1).map SliceRec.key)
    ((recs t.1).map fun r => some (r.size : Int)) (some ((recs t.1).map fun r => r.offset.map Int.ofNat))

def buildManifest (recs : Str × Str → List SliceRec) (base : Option WeightManifest) (tensors : TensorsSpec) :
    Except Exn WeightManifest :=
  (TensorsSpec.all tensors).foldlM (recordTensor recs) (base.getD .empty)

def Builder.finalize (L : Libs) (b : Builder) (tensors : TensorsSpec) (modelRevision : Str)
    (base : Option WeightManifest) : Kv PublishStats := do
  let b ← b.flushPending L
  let manifest ← buildManifest b.recs base tensors
  let data ← manifest.toIpc L
  Kv.store (manifestKey L modelRevision) data
  pure b.stats

structure PublishCall where
  modelRevision : Str
  tensors : TensorsSpec
  maxValueLen : Option Int := none
  pack : Bool := true
  merge : Bool := false

def PublishCall.cap (call : PublishCall) (kvvml : Int) : Int := call.maxValueLen.getD kvvml

def readBase (L : Libs) (call : PublishCall) : Kv (Option WeightManifest) :=
  if call.merge then do
    match ← Kv.retrieve (manifestKey L call.modelRevision) with
    | none => pure none
    | some existing => some <$> (WeightManifest.fromIpc L existing : Except Exn WeightManifest)
  else pure none

def publish (L : Libs) (kvvml : Int) (call : PublishCall) : Kv PublishStats :=
  if call.cap kvvml ≤ 0 then Prog.raise (.maxValueLen (call.cap kvvml))
  else do
    let base ← readBase L call
    let b ← (TensorsSpec.all call.tensors).foldlM
      (fun (b : Builder) t => b.addTensor L t.1.1 t.1.2 t.2.data)
      { max := (call.cap kvvml).toNat, pack := call.pack }
    b.finalize L call.tensors call.modelRevision base

end Weights

end RadosNkv
