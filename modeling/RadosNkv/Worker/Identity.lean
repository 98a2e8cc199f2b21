import RadosNkv.Wasm.KeyEntries
import RadosNkv.Worker.RunModule

/-! Which object and which module a dispatched job runs on. -/

namespace RadosNkv.Worker

open List

variable {api : WasmApi}

section

variable (args : RunArgs)

def RunArgs.name : Bytes := args.module.getD []

def RunArgs.key : Bytes := args.objKey.getD []

def RunArgs.whole : RunJob :=
  ⟨args.name, args.key, args.objPin, args.mod, args.object, args.objectLen, args.outLen⟩

def RunArgs.entry (p : ObjPtr) : ObjEntry :=
  coldEntry p args.key args.objectLen (objectBytes args.object args.objectLen)

/-- The copies of the name and the key are whole. -/
def RunArgs.Fits : Prop := args.name.length ≤ 31 ∧ args.key.length ≤ 255

end

structure Accepted where
  args : RunArgs
  job : RunJob

structure Pool (api : WasmApi) where
  callers : Callers api
  held : List (ObjPtr × Bytes)
  queue : List Accepted
  releasing : Option ObjPtr
  results : List RunResult
  made : ObjPtr → Option RunArgs
  ran : List (RunArgs × ObjPtr)
  since : Bytes → ObjPtr

inductive PoolEvent where
  | pin (objKey : Bytes)
  | unpin (pin : ObjPtr × Bytes)
  | invalidate (objKey : Bytes)
  | dispatch (args : RunArgs) (caller : Caller)
  | work (env : RunEnv)

def extend (made : ObjPtr → Option RunArgs) (lo hi : ObjPtr) (args : RunArgs) (p : ObjPtr) : Option RunArgs :=
  if lo ≤ p ∧ p < hi then some args else made p

namespace Pool

def init (api : WasmApi) : Pool api := ⟨.init api, [], [], none, [], fun _ => none, [], fun _ => 0⟩

def cache (s : Pool api) : Cache api.Module := s.callers.wasm.cache

variable (cfg : WasmConfig) (eng : PlainEngine api) (files : Bytes → Option Bytes)

variable (s : Pool api)

/-- What the worker does between two releases of a lock: it drops the pin of the job that it ran, or
it runs the next job. -/
def work (env : RunEnv) : Pool api :=
  match s.releasing, s.queue with
  | some p, _ => { s with callers := s.callers.call cfg (.unpin p), releasing := none }
  | none, [] => s
  | none, a :: queue =>
    let r := a.job.run cfg eng files env s.callers.wasm
    { s with
      callers := { s.callers with wasm := r.1 }
      queue := queue
      releasing := a.job.objPin
      results := s.results ++ [r.2]
      made := extend s.made s.cache.nextPtr r.1.cache.nextPtr a.args
      ran := (a.job.start cfg env s.cache).2.toList.map (a.args, ·) ++ s.ran }

def handle : PoolEvent → Pool api
  | .pin objKey =>
    { s with
      callers := s.callers.call cfg (.pin objKey)
      held := (cachePin s.cache objKey).2.toList.map (·, objKey) ++ s.held }
  | .unpin x =>
    if x ∈ s.held then { s with callers := s.callers.call cfg (.unpin x.1), held := s.held.erase x } else s
  | .invalidate objKey =>
    { s with
      callers := s.callers.call cfg (.invalidate objKey)
      since := fun k => if k = objKey ∧ k ≠ [] then s.cache.nextPtr else s.since k }
  | .dispatch args caller =>
    match args.job caller with
    | .ok ⟨.run job, _, _⟩ =>
      { s with
        queue := s.queue ++ [⟨args, job⟩]
        held := args.objPin.elim s.held fun p => s.held.erase (p, args.key) }
    | _ => s
  | .work env => s.work cfg eng files env

def step (ev : PoolEvent) : Pool api :=
  if s.cache.fault then s else s.handle cfg eng files ev

/-- Copies are whole, pins are held, and the entry of a job outlives the caps. -/
def Fits : PoolEvent → Prop
  | .dispatch args _ => args.Fits ∧ ∀ p ∈ args.objPin, (p, args.key) ∈ s.held
  | .work _ => s.releasing = none → ∀ a ∈ s.queue.head?, a.job.Kept cfg s.cache s.callers.pins
  | .pin _ | .unpin _ | .invalidate _ => True

end Pool

/-- The run of the job `a` is the run of what its dispatch named. -/
def Accepted.Identified (cfg : WasmConfig) (eng : PlainEngine api) (files : Bytes → Option Bytes) (env : RunEnv)
    (s : Pool api) (a : Accepted) : Prop :=
  let run := a.job.run cfg eng files env s.callers.wasm
  let start := a.args.whole.start cfg env s.cache
  run = a.args.whole.run cfg eng files env s.callers.wasm ∧
    ∀ p, start.2 = some p → ∃ name o b, wasmName a.args.name = some name ∧
      run = nkvxRunOnObjectLocked cfg { env with moduleFile := files name } { s.callers.wasm with cache := start.1 } name
        a.args.mod p a.args.outLen ∧
      start.1.obj p = some o ∧ (s.work cfg eng files env).made p = some b ∧ b.key = a.args.key ∧
      (b.entry p).Evolves o ∧ (a.args.objPin = none → s.since a.args.key ≤ p) ∧
      ∀ w, nkvxWarmLookup start.1 name p = some w → ∃ b, s.made w.ptr = some b ∧ b.name = a.args.name

/-- An invalidation drops what jobs of the key filled and nothing else: an entry of the key that is
left is dead, and the live entries and the warm entries of other keys stay as they are. -/
def Pool.DropsOnly (s : Pool api) (objKey : Bytes) : Prop :=
  (objKey ≠ [] → ∀ o ∈ (cacheInvalidate s.cache objKey).objects, ∀ b, s.made o.ptr = some b → b.key = objKey → o.dead) ∧
    (∀ o ∈ s.cache.objects, o.dead = false → ∀ b, s.made o.ptr = some b → b.key ≠ objKey →
      ∃ o' ∈ (cacheInvalidate s.cache objKey).objects, o.Ages o' ∧ o'.dead = false) ∧
    ∀ w ∈ s.cache.warm, ∀ b, s.made w.ptr = some b → b.key ≠ objKey → w ∈ (cacheInvalidate s.cache objKey).warm

def Pool.Identified (cfg : WasmConfig) (eng : PlainEngine api) (files : Bytes → Option Bytes) (s : Pool api) :
    PoolEvent → Prop
  | .work env => s.releasing = none → ∀ a ∈ s.queue.head?, a.Identified cfg eng files env s
  | .invalidate objKey => s.DropsOnly objKey
  | .pin _ | .unpin _ | .dispatch _ _ => True

variable {args : RunArgs}

lemma RunArgs.copy_eq_whole (h : args.Fits) {module : Bytes} (hm : args.module = some module) :
    args.copy module = args.whole := by
  have hn : args.name = module := by rw [RunArgs.name, hm, Option.getD_some]
  have hs : module.length ≤ 31 := hn ▸ h.1
  have hk : cstrFit 256 args.key = args.key := take_of_length_le h.2
  have hc : cstrFit 32 module = args.name := (take_of_length_le hs).trans hn.symm
  show RunJob.mk _ (cstrFit 256 args.key) _ _ _ _ _ = _
  rw [hk, hc]
  rfl

lemma RunArgs.job_run {job : RunJob} {doneArg origin : Nat} (h : args.job caller = .ok ⟨.run job, doneArg, origin⟩) :
    ∃ module, args.module = some module ∧ job = args.copy module := by
  unfold RunArgs.job at h
  split at h
  · cases h
  · cases h
  next hm =>
  split at h
  · cases h
  cases h
  exact ⟨_, hm, rfl⟩

lemma RunArgs.Fits.entry_objKey (h : args.Fits) (p : ObjPtr) : (args.entry p).objKey = args.key :=
  take_of_length_le h.2

lemma RunArgs.Fits.name_length (h : args.Fits) {name : Bytes} (hn : wasmName args.name = some name) :
    cstrFit 64 name = name := by
  have hl := h.1
  rw [wasmName_some hn, length_append] at hl
  exact take_of_length_le (by omega)

def OfKey (made : ObjPtr → Option RunArgs) (p : ObjPtr) (key : Bytes) : Prop := ∃ b, made p = some b ∧ b.key = key

variable {p : ObjPtr}

lemma extend_of_lt (h : p < lo) :
    extend made lo hi args p = made p :=
  if_neg fun hn => not_le.mpr h hn.1

lemma extend_within (hl : lo ≤ p) (hh : p < hi) :
    extend made lo hi args p = some args :=
  if_pos ⟨hl, hh⟩

/-- The entries carry the names and keys of the dispatches for which they were allocated, and the
live entries of a key are no older than its last invalidation. -/
structure Labelled {μ : Type} (made : ObjPtr → Option RunArgs) (since : Bytes → ObjPtr) (c : Cache μ) : Prop where
  handed : ∀ p b, made p = some b → p < c.nextPtr ∧ b.Fits
  objects : ∀ o ∈ c.objects, ∃ b, made o.ptr = some b ∧ (b.entry o.ptr).Evolves o
  warm : ∀ w ∈ c.warm, ∃ b, made w.ptr = some b ∧ wasmName b.name = some w.module ∧ w.objKey = b.key
  older : ∀ k, since k ≤ c.nextPtr
  live : ∀ o ∈ c.objects, o.dead = false → since o.objKey ≤ o.ptr

namespace Labelled

variable {μ : Type} {c c' : Cache μ} {args : RunArgs}

section

variable (h : Labelled made since c)
include h

lemma objKey (ho : o ∈ c.objects) (hb : made o.ptr = some b) : o.objKey = b.key := by
  obtain ⟨b', hb', he⟩ := h.objects o ho
  cases hb.symm.trans hb'
  exact he.objKey.trans ((h.handed _ _ hb).2.entry_objKey _)

lemma ofKey (ho : o ∈ c.objects) : OfKey made o.ptr o.objKey := by
  obtain ⟨b, hb, _⟩ := h.objects o ho
  exact ⟨b, hb, (h.objKey ho hb).symm⟩

lemma live_of_evolves (ho : o ∈ c.objects) (he : o.Evolves o') (hl : o'.dead = false) :
    since o'.objKey ≤ o'.ptr := by
  rw [he.objKey, he.ptr]
  refine h.live o ho ?_
  by_contra hd
  simp [he.dead (by simpa using hd)] at hl

lemma sheds (hs : c.Sheds c') : Labelled made since c' where
  handed := by
    rw [hs.nextPtr]
    exact h.handed
  objects := by
    intro o' ho'
    obtain ⟨o, ho, ha⟩ := hs.objects o' ho'
    obtain ⟨b, hb, he⟩ := h.objects o ho
    rw [ha.ptr]
    exact ⟨b, hb, he.trans ha.evolves⟩
  warm := fun w hw => h.warm w (hs.warm w hw)
  older := by
    rw [hs.nextPtr]
    exact h.older
  live := by
    intro o' ho' hl
    obtain ⟨o, ho, ha⟩ := hs.objects o' ho'
    exact h.live_of_evolves ho ha.evolves hl

lemma invalidate (objKey : Bytes) :
    Labelled made (fun k => if k = objKey ∧ k ≠ [] then c.nextPtr else since k) (cacheInvalidate c objKey) := by
  have hs := Cache.Sheds.invalidate c objKey
  have hp := h.sheds hs
  refine ⟨hp.handed, hp.objects, hp.warm, fun k => ?_, fun o ho hl => ?_⟩
  · split
    · exact le_of_eq hs.nextPtr.symm
    · exact hp.older k
  split
  · next hk =>
    have hd := invalidate_dead (hk.1 ▸ hk.2) ho hk.1
    simp [hd] at hl
  · exact hp.live o ho hl

lemma allocates (ht : args.Fits) (hn : c.nextPtr ≤ c'.nextPtr)
    (hbn : ∀ o' ∈ c'.objects, o'.ptr < c'.nextPtr) (hob : ∀ o' ∈ c'.objects, (∃ o ∈ c.objects, o.Evolves o') ∨
      c.nextPtr ≤ o'.ptr ∧ (args.entry o'.ptr).Evolves o')
    (hr : ∀ w ∈ c'.warm, w ∈ c.warm ∨ (c.nextPtr ≤ w.ptr ∧ w.ptr < c'.nextPtr) ∧
      wasmName args.name = some w.module ∧ w.objKey = args.key) :
    Labelled (extend made c.nextPtr c'.nextPtr args) since c' where
  handed := by
    intro p b hb
    unfold extend at hb
    split at hb
    · next hi =>
      cases hb
      exact ⟨hi.2, ht⟩
    · exact ⟨lt_of_lt_of_le (h.handed p b hb).1 hn, (h.handed p b hb).2⟩
  objects := by
    intro o' ho'
    obtain ⟨o, ho, he⟩ | ⟨hf, he⟩ := hob o' ho'
    · obtain ⟨b, hb, hb'⟩ := h.objects o ho
      rw [he.ptr, extend_of_lt (h.handed _ _ hb).1]
      exact ⟨b, hb, hb'.trans he⟩
    · exact ⟨args, extend_within hf (hbn o' ho'), he⟩
  warm := by
    intro w hw
    obtain hold | ⟨hi, hm, hk⟩ := hr w hw
    · obtain ⟨b, hb, hb'⟩ := h.warm w hold
      rw [extend_of_lt (h.handed _ _ hb).1]
      exact ⟨b, hb, hb'⟩
    · exact ⟨args, extend_within hi.1 hi.2, hm, hk⟩
  older := fun k => le_trans (h.older k) hn
  live := by
    intro o' ho' hl
    obtain ⟨o, ho, he⟩ | ⟨hf, _⟩ := hob o' ho'
    · exact h.live_of_evolves ho he hl
    · exact le_trans (h.older _) hf

lemma extend_made (hb : made p = some b) (hi : ObjPtr) (args : RunArgs) :
    extend made c.nextPtr hi args p = some b := by
  rw [extend_of_lt (h.handed p b hb).1, hb]

lemma extend_ofKey (hk : OfKey made p key) (hi : ObjPtr) (args : RunArgs) :
    OfKey (extend made c.nextPtr hi args) p key := by
  obtain ⟨b, hb, rfl⟩ := hk
  exact ⟨b, h.extend_made hb hi args, rfl⟩

end

end Labelled

section Run

variable {cfg : WasmConfig} {args : RunArgs} {s : WasmState api} {holds : List ObjPtr}

section

variable (h : Labelled made since s.cache)
include h

section

variable (hc : s.cache.Counted holds false)

include hc

lemma Labelled.start (hpi : ∀ p, args.objPin = some p → OfKey made p args.key)
    (hp : (args.whole.start cfg env s.cache).2 = some p)
    (ho : (args.whole.start cfg env s.cache).1.obj p = some o) :
    ∃ b, (made p = some b ∨ p = s.cache.nextPtr ∧ b = args) ∧ b.key = args.key ∧ (b.entry p).Evolves o ∧
      (args.objPin = none → since args.key ≤ p) := by
  obtain ⟨hs, _⟩ | ⟨pin, hr, hs⟩ | ⟨_, o', hlk, hs⟩ | ⟨_, c, hf, hs⟩ :=
    args.whole.start_cases cfg env s
  · rw [hs] at hp
    cases hp
  · rw [hs] at hp ho
    cases hp
    obtain ⟨b, hb, hk⟩ := hpi p hr
    obtain ⟨hi, rfl⟩ := Tailq.find_some ho
    obtain ⟨b', hb', he⟩ := h.objects o hi
    obtain rfl := Option.some.inj (hb'.symm.trans hb)
    refine ⟨b', .inl hb', hk, he, fun hn => ?_⟩
    cases hn.symm.trans hr
  · rw [hs] at hp ho
    cases hp
    obtain ⟨hi', hl, hk⟩ := objLookup_some hlk
    obtain ⟨hi, ht⟩ := Tailq.find_some ho
    obtain rfl := inj_on_of_nodup_map hc.objs.nodup (Tailq.mem_touch.mp hi) hi' ht
    obtain ⟨b, hb, he⟩ := h.objects o hi'
    refine ⟨b, .inl hb, (h.objKey hi' hb).symm.trans hk, he, fun _ => ?_⟩
    have hsn := h.live o hi' hl
    rwa [hk] at hsn
  rw [hs] at hp ho
  cases hp
  have ha := coldFill_entry hc (fillFromJob_backing ..) hf ho
  exact ⟨args, .inr ⟨rfl, rfl⟩, rfl, ha.evolves, fun _ => h.older _⟩

lemma Labelled.run (hf : args.Fits) (hi : ∀ p, args.objPin = some p → p ∈ holds ∧ OfKey made p args.key)
    (hkp : args.whole.Kept cfg s.cache holds) (eng : PlainEngine api) (files : Bytes → Option Bytes) (env : RunEnv) :
    Labelled (extend made s.cache.nextPtr (args.whole.run cfg eng files env s).1.cache.nextPtr args) since
      (args.whole.run cfg eng files env s).1.cache := by
  have hh : ∀ p, args.whole.objPin = some p → p ∈ holds := fun p hp => (hi p hp).1
  have ha := RunJob.counted_run hc hh hkp eng files env
  obtain ⟨hx, hor⟩ := (args.whole.moves_run cfg eng files env s).origin
  refine h.allocates hf hx ha.objs.fresh (fun o' ho' => ?_) fun w hw => ?_
  · obtain hold | ⟨_, _, _, ⟨rfl, rfl, rfl⟩, hfr, he⟩ := hor o' ho'
    · exact .inl hold
    · exact .inr ⟨hfr, he⟩
  obtain ⟨_, hr⟩ | ⟨name, p, hn, hp, hr⟩ := args.whole.run_cache cfg eng files env s
  · rw [hr] at hw
    exact .inl hw
  obtain ⟨hv, hwr⟩ := args.whole.moves_start cfg env s
  rw [hr] at hw ⊢
  obtain hold | ⟨ht, hl, hm, o, ho, hk⟩ := warm_origin _ _ _ name _ p _ w hw
  · exact .inl (hwr w hold)
  refine .inr ⟨⟨ht ▸ hv.origin.1, ht ▸ hl⟩, ?_, ?_⟩
  · rw [hm, hf.name_length hn]
    exact hn
  obtain ⟨b, hb, hbk, he, _⟩ := h.start hc (fun p hp => (hi p hp).2) hp ho
  have hbf : b.Fits := by
    obtain hold | ⟨_, rfl⟩ := hb
    · exact (h.handed p b hold).2
    · exact hf
  rw [hk, he.objKey, hbf.entry_objKey, hbk]
  exact take_of_length_le hf.2

lemma Labelled.started (hi : ∀ p, args.objPin = some p → p ∈ holds ∧ OfKey made p args.key)
    (hkp : args.whole.Kept cfg s.cache holds) (eng : PlainEngine api) (files : Bytes → Option Bytes)
    (hp : (args.whole.start cfg env s.cache).2 = some p) : ∃ o b, (args.whole.start cfg env s.cache).1.obj p = some o ∧
      extend made s.cache.nextPtr (args.whole.run cfg eng files env s).1.cache.nextPtr args p = some b ∧
      b.key = args.key ∧ (b.entry p).Evolves o ∧ (args.objPin = none → since args.key ≤ p) := by
  obtain ⟨hs, hls⟩ := RunJob.start_listed hc (fun p hp => (hi p hp).1) hkp env
  obtain ⟨o, ho⟩ := hls p hp
  obtain ⟨b, hb, hk, he, hsn⟩ := h.start hc (fun p hp => (hi p hp).2) hp ho
  refine ⟨o, b, ho, ?_, hk, he, hsn⟩
  obtain hold | ⟨hf, rfl⟩ := hb
  · exact h.extend_made hold ..
  obtain ⟨hn, _⟩ | ⟨name, q, _, _, hr⟩ := b.whole.run_cache cfg eng files env s
  · cases hp.symm.trans hn
  obtain ⟨hin, ht⟩ := Tailq.find_some ho
  have hl := ht ▸ hs.objs.fresh o hin
  have hg : (b.whole.start cfg env s.cache).1.nextPtr ≤ (b.whole.run cfg eng files env s).1.cache.nextPtr := by
    rw [hr]
    exact (moves_runOnObject (F := fun _ _ _ => False) _ _ name _ { s with cache := _ } q _).follows.nextPtr
  exact extend_within (le_of_eq hf.symm) (lt_of_lt_of_le hl hg)

end

end

end Run

/-! ### The pool -/

/-- The invariant of the pool as long as the steps fit: the bookkeeping is in order, every pin that
is out is with a caller, with a job on the queue or with the worker, and pins, jobs and the record
of runs go by full keys. -/
structure Pool.Sound (s : Pool api) : Prop where
  counted : s.cache.Counted s.callers.pins false
  pins : s.callers.pins.Perm
    (s.held.map Prod.fst ++ s.queue.filterMap (fun a => a.args.objPin) ++ s.releasing.toList)
  labelled : Labelled s.made s.since s.cache
  held : ∀ x ∈ s.held, OfKey s.made x.1 x.2
  queue : ∀ a ∈ s.queue, a.args.Fits ∧ a.job = a.args.whole ∧ ∀ p, a.args.objPin = some p → OfKey s.made p a.args.key
  ran : ∀ x ∈ s.ran, OfKey s.made x.2 x.1.key

namespace Pool.Sound

variable {cfg : WasmConfig} {eng : PlainEngine api} {files : Bytes → Option Bytes} {s : Pool api}

lemma init : (Pool.init api).Sound where
  counted := .init
  pins := .refl _
  labelled :=
    { handed := fun _ _ hb => absurd hb (Option.some_ne_none _).symm
      objects := fun _ ho => absurd ho not_mem_nil
      warm := fun _ hw => absurd hw not_mem_nil
      older := fun _ => le_rfl
      live := fun _ ho => absurd ho not_mem_nil }
  held := fun _ hx => absurd hx not_mem_nil
  queue := fun _ ha => absurd ha not_mem_nil
  ran := fun _ hx => absurd hx not_mem_nil

section

variable (h : s.Sound)
include h

variable (objKey : Bytes)

lemma pin : (s.handle cfg eng files (.pin objKey)).Sound where
  counted := h.counted.pin objKey
  pins := by
    have hf : (cachePin s.cache objKey).2.toList.map (Prod.fst ∘ (·, objKey)) = (cachePin s.cache objKey).2.toList :=
      map_id _
    show ((cachePin s.cache objKey).2.toList ++ s.callers.pins).Perm _
    rw [handle, map_append, map_map, hf, append_assoc, append_assoc, ← append_assoc (s.held.map Prod.fst)]
    exact h.pins.append_left _
  labelled := h.labelled.sheds (.pin s.cache objKey)
  held := by
    intro x hx
    rcases mem_append.mp hx with hn | hold
    · obtain ⟨p, hp, rfl⟩ := mem_map.mp hn
      obtain ⟨o, hb, _, hk⟩ := cachePin_obtains h.counted (Option.mem_toList.mp hp)
      obtain ⟨ho, rfl⟩ := Tailq.find_some hb
      exact hk ▸ h.labelled.ofKey ho
    · exact h.held x hold
  queue := h.queue
  ran := h.ran

lemma unref (cfg : WasmConfig) {pins : List ObjPtr} (hp : s.callers.pins.Perm (p :: pins)) :
    s.callers.call cfg (.unpin p) = ⟨{ s.callers.wasm with cache := cacheUnpin s.cache p }, s.callers.pins.erase p⟩ ∧
      (cacheUnpin s.cache p).Counted (s.callers.pins.erase p) false ∧ (s.callers.pins.erase p).Perm pins := by
  have hm : p ∈ s.callers.pins := hp.mem_iff.mpr mem_cons_self
  have hb : s.callers.Counted false := h.counted
  have hc := (counted_call cfg hb (.unpin p)).2 id
  have hl : s.callers.call cfg (.unpin p) =
      ⟨{ s.callers.wasm with cache := cacheUnpin s.cache p }, s.callers.pins.erase p⟩ := if_pos hm
  rw [hl] at hc
  exact ⟨hl, hc, (perm_cons_erase hm).symm.trans hp |>.cons_inv⟩

lemma unpin (x : ObjPtr × Bytes) : (s.handle cfg eng files (.unpin x)).Sound := by
  unfold handle
  dsimp only
  split
  · next hx =>
    have hs : s.callers.pins.Perm (x.1 :: ((s.held.erase x).map Prod.fst ++
        s.queue.filterMap (fun a => a.args.objPin) ++ s.releasing.toList)) := by
      have hh := (perm_cons_erase hx).map Prod.fst
      exact h.pins.trans ((hh.append_right _).append_right _)
    obtain ⟨hl, hc, hp⟩ := h.unref cfg hs
    rw [hl]
    exact ⟨hc, hp, h.labelled.sheds (.unref s.cache x.1), fun y hy => h.held y (mem_of_mem_erase hy), h.queue, h.ran⟩
  · exact h

lemma invalidate : (s.handle cfg eng files (.invalidate objKey)).Sound where
  counted := h.counted.invalidate objKey
  pins := h.pins
  labelled := h.labelled.invalidate objKey
  held := h.held
  queue := h.queue
  ran := h.ran

lemma dispatch (hf : s.Fits cfg (.dispatch args caller)) :
    (s.handle cfg eng files (.dispatch args caller)).Sound := by
  unfold handle
  dsimp only
  split
  · next job _ _ hj =>
    obtain ⟨module, hm, rfl⟩ := RunArgs.job_run hj
    refine ⟨h.counted, ?_, h.labelled, fun x hx => ?_, fun a ha => ?_, h.ran⟩
    · dsimp only
      rw [filterMap_append]
      cases hi : args.objPin with
      | none =>
        simpa [hi] using h.pins
      | some p =>
        have hh := (perm_cons_erase (hf.2 p hi)).map Prod.fst
        refine h.pins.trans (perm_iff_count.mpr fun q => ?_)
        have hc := hh.count_eq q
        simp only [map_cons, count_cons] at hc
        simp only [Option.elim_some, count_append, filterMap_cons, hi, filterMap_nil, count_cons, count_nil]
        omega
    · refine h.held x ?_
      cases hi : args.objPin with
      | none => simpa [hi] using hx
      | some p => exact mem_of_mem_erase (by simpa [hi] using hx)
    rcases mem_append.mp ha with hold | hn
    · exact h.queue a hold
    obtain rfl := mem_singleton.mp hn
    exact ⟨hf.1, RunArgs.copy_eq_whole hf.1 hm, fun p hp => h.held _ (hf.2 p hp)⟩
  · exact h

lemma head (ha : a ∈ s.queue.head?) :
    a.args.Fits ∧ a.job = a.args.whole ∧ ∀ p, a.args.objPin = some p → p ∈ s.callers.pins ∧ OfKey s.made p a.args.key := by
  have hi : a ∈ s.queue := mem_of_mem_head? ha
  obtain ⟨hr, hj, hpi⟩ := h.queue a hi
  refine ⟨hr, hj, fun p hp => ⟨h.pins.mem_iff.mpr ?_, hpi p hp⟩⟩
  exact mem_append_left _ (mem_append_right _ (mem_filterMap.mpr ⟨a, hi, hp⟩))

lemma work (hf : s.Fits cfg (.work env)) : (s.work cfg eng files env).Sound := by
  unfold Pool.work
  split
  · next p hr =>
    have hs : s.callers.pins.Perm (p :: (s.held.map Prod.fst ++ s.queue.filterMap (fun a => a.args.objPin) ++ [])) := by
      refine h.pins.trans ?_
      rw [hr, append_nil]
      exact perm_append_singleton ..
    obtain ⟨hcl, hc, hpn⟩ := h.unref cfg hs
    rw [hcl]
    exact ⟨hc, hpn, h.labelled.sheds (.unref s.cache p), h.held, h.queue, h.ran⟩
  · exact h
  next a rest hr hq =>
  have hh : a ∈ s.queue.head? := by simp [hq]
  obtain ⟨ha, hj, hpn⟩ := h.head hh
  have hkp := hf hr a hh
  rw [hj] at hkp ⊢
  have hl := h.labelled.run h.counted ha hpn hkp eng files env
  refine ⟨RunJob.counted_run h.counted (fun p hp => (hpn p hp).1) hkp eng files env, ?_, hl,
    fun x hx => h.labelled.extend_ofKey (h.held x hx) _ _, fun b hb => ?_, fun x hx => ?_⟩
  · refine h.pins.trans (perm_iff_count.mpr fun q => ?_)
    have hnx : (a :: rest).filterMap (fun a => a.args.objPin) =
        a.args.objPin.toList ++ rest.filterMap fun a => a.args.objPin := by
      cases hi : a.args.objPin <;> simp [hi]
    rw [hq, hr, hnx]
    simp only [count_append, Option.toList_none, count_nil, RunArgs.whole]
    omega
  · obtain ⟨hb, hw, hbp⟩ := h.queue b (by simp [hq, hb])
    exact ⟨hb, hw, fun p hp => h.labelled.extend_ofKey (hbp p hp) _ _⟩
  rcases mem_append.mp hx with hn | hold
  · obtain ⟨p, hp, rfl⟩ := mem_map.mp hn
    obtain ⟨_, b, _, hb, hk, _⟩ := h.labelled.started h.counted hpn hkp eng files (Option.mem_toList.mp hp)
    exact ⟨b, hb, hk⟩
  · exact h.labelled.extend_ofKey (h.ran x hold) _ _

lemma step (hf : s.Fits cfg ev) : (s.step cfg eng files ev).Sound := by
  unfold Pool.step
  split
  · exact h
  cases ev with
  | pin objKey => exact h.pin objKey
  | unpin x => exact h.unpin x
  | invalidate objKey => exact h.invalidate objKey
  | dispatch args caller => exact h.dispatch hf
  | work env => exact h.work hf

lemma identified_work (ht : s.Fits cfg (.work env)) : s.Identified cfg eng files (.work env) := by
  intro hr a hh
  obtain ⟨_, hj, hpn⟩ := h.head hh
  have hkp := ht hr a hh
  unfold Accepted.Identified
  rw [hj] at hkp ⊢
  refine ⟨rfl, fun p hp => ?_⟩
  obtain ⟨o, b, ho, hb, hk, he, hs⟩ := h.labelled.started h.counted hpn hkp eng files hp
  obtain ⟨hn, _⟩ | ⟨name, q, hm, hq, hu⟩ := a.args.whole.run_cache cfg eng files env s.callers.wasm
  · cases hp.symm.trans hn
  cases hq.symm.trans hp
  have hd : (s.work cfg eng files env).made p = some b := by
    obtain ⟨rest, hqu⟩ : ∃ rest, s.queue = a :: rest := head?_eq_some_iff.mp hh
    unfold Pool.work
    rw [hr, hqu]
    dsimp only
    rw [hj]
    exact hb
  refine ⟨name, o, b, hm, hu, ho, hd, hk, he, hs, fun w hw => ?_⟩
  have hf := find?_some hw
  simp only [Bool.and_eq_true, beq_iff_eq] at hf
  obtain ⟨b', hb', hl, _⟩ := h.labelled.warm w
    ((a.args.whole.moves_start cfg env s.callers.wasm).2 w (mem_of_find?_eq_some hw))
  refine ⟨b', hb', ?_⟩
  rw [wasmName_some hl, hf.1]
  exact (wasmName_some hm).symm

lemma dropsOnly : s.DropsOnly objKey := by
  refine ⟨fun hn o ho b hb hk => ?_, fun o ho hl b hb hn => ?_, fun w hw b hb hn => ?_⟩
  · have hlb := (h.labelled.sheds (.invalidate s.cache objKey)).objKey ho hb
    exact invalidate_dead hn ho (hlb.trans hk)
  · exact live_invalidate h.counted ho hl (h.labelled.objKey ho hb ▸ hn)
  obtain ⟨b', hb', _, hk⟩ := h.labelled.warm w hw
  obtain rfl := Option.some.inj (hb'.symm.trans hb)
  exact warm_invalidate h.counted hw (hk ▸ hn)

end

end Pool.Sound

/-- In every run whose dispatches fit their jobs, each job runs the module of its full name on the
object of its full key, two jobs with different keys never run on the same entry, and an
invalidation drops what was filled for its key and nothing else. -/
theorem dispatched_jobs_identified (api : WasmApi) (cfg : WasmConfig) (eng : PlainEngine api)
    (files : Bytes → Option Bytes) (evs : List PoolEvent)
    (hfits : Machine.Along (Pool.step cfg eng files) (Pool.Fits cfg) (.init api) evs) :
    Machine.Along (Pool.step cfg eng files) (Pool.Identified cfg eng files) (.init api) evs ∧
      ∀ a b p, (a, p) ∈ (Machine.run (Pool.step cfg eng files) (.init api) evs).ran →
        (b, p) ∈ (Machine.run (Pool.step cfg eng files) (.init api) evs).ran → a.key = b.key := by
  have hstep : ∀ s ev, Pool.Sound s → s.Fits cfg ev → (s.step cfg eng files ev).Sound := fun _ _ h hev => h.step hev
  refine ⟨Machine.along_of_invariant _ .init hstep (fun s ev h hev => ?_) hfits, fun a b p ha hb => ?_⟩
  · cases ev with
    | work env => exact h.identified_work hev
    | invalidate objKey => exact h.dropsOnly objKey
    | pin objKey => trivial
    | unpin x => trivial
    | dispatch args caller => trivial
  have hsound := Machine.run_induct_along _ Pool.Sound.init hstep hfits
  obtain ⟨m, hm, hkey⟩ := hsound.ran _ ha
  obtain ⟨m', hm', hkey'⟩ := hsound.ran _ hb
  cases hm.symm.trans hm'
  exact hkey.symm.trans hkey'

instance (args : RunArgs) : Decidable args.Fits := inferInstanceAs (Decidable (_ ∧ _))

instance {μ : Type} (c : Cache μ) (job : RunJob) : Decidable (job.Fills c) := inferInstanceAs (Decidable (_ ∧ _ ∧ _ ∧ _))

instance {μ : Type} (cfg : WasmConfig) (c : Cache μ) (holds : List ObjPtr) (job : RunJob) :
    Decidable (job.Kept cfg c holds) := inferInstanceAs (Decidable (job.Fills c → _ ∨ _))

instance (cfg : WasmConfig) (s : Pool api) : ∀ ev, Decidable (s.Fits cfg ev)
  | .dispatch args _ => inferInstanceAs (Decidable (args.Fits ∧ ∀ p ∈ args.objPin, (p, args.key) ∈ s.held))
  | .work _ => inferInstanceAs (Decidable
      (s.releasing = none → ∀ a ∈ s.queue.head?, a.job.Kept cfg s.cache s.callers.pins))
  | .pin _ | .unpin _ | .invalidate _ => .isTrue trivial

def wasmArgs (name key object : Bytes) (pin : Option ObjPtr) : RunArgs :=
  ⟨some (cstr ['w', 'a', 's', 'm', ':'] ++ name), none, some key, pin, some object, object.length, 8, 0⟩

def dispatchOf (args : RunArgs) : PoolEvent := .dispatch args ⟨some 0, true⟩

def tinyFiles (name : Bytes) : Option Bytes := if name.length = 26 then some [1, 2] else some [1, 0]

/-- The object `01` is run on, pinned, invalidated and run on again, once through the pin and once
without it; the object `02` is not affected. -/
theorem dispatched_jobs_identified_pinned :
    let evs :=
      [dispatchOf (wasmArgs [102] [48, 49] [7] none), .work .good,
        dispatchOf (wasmArgs [102] [48, 50] [5] none),
      .work .good, .pin [48, 49], .invalidate [48, 49],
        dispatchOf (wasmArgs [102] [48, 49] [8] (some 0)),
      dispatchOf (wasmArgs [102] [48, 49] [8] none), dispatchOf (wasmArgs [102] [48, 50] [6] none),
        .work .good,
      .work .good, .work .good, .work .good]
    let s := Machine.run (Pool.step .default tinyEngine tinyFiles) (.init tinyApi) evs
    s.results.map RunResult.out = [[7], [5], [7], [8], [5]] ∧ s.ran.map Prod.snd = [2, 5, 0, 2, 0] ∧
      ∀ a b p, (a, p) ∈ s.ran → (b, p) ∈ s.ran → a.key = b.key := by
  intro evs s
  exact ⟨by decide +kernel, by decide +kernel,
    (dispatched_jobs_identified tinyApi .default tinyEngine tinyFiles evs (by decide +kernel)).2⟩

/-- Two keys of 256 characters that differ in the last one, and a module name of 27 characters: the
job of the second key runs on the object of the first, no invalidation reaches the entry, and the
job of the module runs another. -/
theorem long_names_run_on_others :
    let key₁ : Bytes := List.replicate 256 48
    let key₂ : Bytes := List.replicate 255 48 ++ [49]
    let evs :=
      [dispatchOf (wasmArgs [102] key₁ [7] none), .work .good,
        dispatchOf (wasmArgs [102] key₂ [8] none),
      .work .good, .invalidate key₁, .invalidate key₂, dispatchOf (wasmArgs [102] key₁ [9] none),
        .work .good,
      dispatchOf (wasmArgs (List.replicate 27 102) [48, 49] [7] none), .work .good]
    let s := Machine.run (Pool.step .default tinyEngine tinyFiles) (.init tinyApi) evs
    s.results.map RunResult.out = [[7], [7], [7], [0]] ∧
      (wasmArgs [102] key₁ [7] none, 0) ∈ s.ran ∧ (wasmArgs [102] key₂ [8] none, 0) ∈ s.ran ∧
      (wasmArgs [102] key₁ [9] none, 0) ∈ s.ran ∧ key₁ ≠ key₂ := by
  decide +kernel

end RadosNkv.Worker
