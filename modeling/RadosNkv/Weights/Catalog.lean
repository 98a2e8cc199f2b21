import RadosNkv.Library.Program
import RadosNkv.Weights.ManifestCodec

/-! The operations of a `KvClient` (`kvclient.py`) and the catalog they act on. -/

namespace RadosNkv

namespace Weights

inductive KvOp where
  | store (key value : Bytes)
  | retrieve (key : Bytes)
  | exists_ (key : Bytes)
  | delete (key : Bytes)
  | iterKeys

abbrev KvOp.Resp : KvOp → Type
  | .store _ _ => Unit
  | .retrieve _ => Option Bytes
  | .exists_ _ => Bool
  | .delete _ => Unit
  | .iterKeys => List Bytes

abbrev Kv (α : Type) := Prog KvOp KvOp.Resp Exn α

namespace Kv

def store (key value : Bytes) : Kv Unit := Prog.perform (KvOp.store key value)

def retrieve (key : Bytes) : Kv (Option Bytes) := Prog.perform (KvOp.retrieve key)

def exists_ (key : Bytes) : Kv Bool := Prog.perform (KvOp.exists_ key)

def delete (key : Bytes) : Kv Unit := Prog.perform (KvOp.delete key)

def iterKeys : Kv (List Bytes) := Prog.perform KvOp.iterKeys

end Kv

abbrev Catalog := Dict Bytes Bytes

def serve : Prog.Handler KvOp KvOp.Resp Exn Catalog
  | .store key value, c => (.ok (), c.insert key value)
  | .retrieve key, c => (.ok (c.get key), c)
  | .exists_ key, c => (.ok (c.contains key), c)
  | .delete key, c => (.ok (), c.erase key)
  | .iterKeys, c => (.ok c.keys, c)

def Reads {α : Type} (K : Bytes → Prop) (p : Kv α) : Prop := p.Uses fun op => ∃ key, K key ∧ op = .retrieve key

lemma run_of_reads {α : Type} {K : Bytes → Prop} {p : Kv α} {c c' : Catalog} (hp : Reads K p)
    (hc : ∀ key, K key → c.get key = c'.get key) : p.run serve c = ((p.run serve c').1, c) := by
  induction p with
  | done r => rfl
  | call op k ih =>
    obtain ⟨⟨key, he, rfl⟩, hk⟩ := hp
    simp only [Prog.run_call, serve, hc key he]
    exact ih (c'.get key) (hk _)

end Weights

end RadosNkv
