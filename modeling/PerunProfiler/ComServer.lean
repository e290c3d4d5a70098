import Mathlib.Algebra.Group.Nat.Defs
import PerunProfiler.Lib.RefCount
import PerunProfiler.Lib.Run
import PerunProfiler.Records

/-!
# The COM server

`DllGetClassObject`, the class factory, and the reference counts of the instances of `CoreProfiler`. A
step is one access to an atomic counter, so `Release` is two of them: it counts down, and if it has seen 0
it deletes the instance. Clients that use the references they have, in any interleaving, never meet a
deleted instance, and every instance is deleted once, after its last reference.
-/

namespace Perun
open Lib

inductive HResult where
  | sOk
  | eNotImpl
  | eNoInterface
  | ePointer
  | eOutOfMemory
  | classEClassNotAvailable
deriving DecidableEq

/-- The interfaces of `riid`; the first `ICorProfilerCallback` has the version 1. -/
inductive InterfaceId where
  | iUnknown
  | iClassFactory
  | iCorProfilerCallback (version : Nat)
  | other (guid : Nat)
deriving DecidableEq

inductive ClassId where
  | coreProfiler
  | other (guid : Nat)
deriving DecidableEq

/-! ### The factory -/

namespace CoreProfilerFactory

/-- `ppvObject` says whether the pointer is given. The factory is static and not counted. -/
def queryInterface (riid : InterfaceId) (ppvObject : Bool) : HResult :=
  if !ppvObject then .ePointer
  else if riid = .iUnknown ∨ riid = .iClassFactory then .sOk
  else .eNoInterface

def addRef : Nat := 2

def release : Nat := 1

def lockServer : HResult := .eNotImpl

end CoreProfilerFactory

def dllGetClassObject (rclsid : ClassId) (riid : InterfaceId) (ppv : Bool) : HResult :=
  if rclsid = .coreProfiler then CoreProfilerFactory.queryInterface riid ppv else .classEClassNotAvailable

/-! ### The instances -/

structure ComServer where
  /-- `_refCount` of every instance that is there -/
  refCounts : Heap Nat
  /-- the instance that `g_CoreProfiler` points to -/
  gCoreProfiler : Option Ptr
  /-- the references that are out, each with its instance -/
  refs : List Ptr
  /-- the instances that a `Release` has counted down to 0 and will delete -/
  dying : List Ptr
deriving DecidableEq

namespace ComServer

/-- Before the first `CreateInstance`. -/
def loaded : ComServer := ⟨.empty, none, [], []⟩

/-- `new (std::nothrow) CoreProfiler`, when there is memory: the count starts with 1. -/
def newCoreProfiler (s : ComServer) : Ptr × ComServer :=
  (s.refCounts.size, { s with refCounts := s.refCounts.alloc 1, refs := s.refCounts.size :: s.refs })

/-- `++_refCount` -/
def addRef (p : Ptr) (s : ComServer) : Except Fault (Nat × ComServer) :=
  match deref s.refCounts p with
  | .error f => .error f
  | .ok n =>
    let count := (n + 1) % 2 ^ 32
    .ok (count, { s with refCounts := s.refCounts.set p count, refs := p :: s.refs })

def queryInterface (riid : InterfaceId) (ppvObject : Bool) (p : Ptr) (s : ComServer) :
    Except Fault (HResult × ComServer) :=
  match deref s.refCounts p with
  | .error f => .error f
  | .ok _ =>
    if !ppvObject then .ok (.ePointer, s)
    else if riid = .iUnknown ∨ ∃ version ∈ [1, 2, 3, 4, 5, 6, 7, 8], riid = .iCorProfilerCallback version then
      match s.addRef p with
      | .error f => .error f
      | .ok (_, s) => .ok (.sOk, s)
    else .ok (.eNoInterface, s)

/-- `--_refCount`, with which `Release` begins. -/
def countDown (p : Ptr) (s : ComServer) : Except Fault (Nat × ComServer) :=
  match deref s.refCounts p with
  | .error f => .error f
  | .ok n =>
    let count := (n + (2 ^ 32 - 1)) % 2 ^ 32
    .ok (count, { s with
      refCounts := s.refCounts.set p count
      refs := s.refs.erase p
      dying := if count = 0 then p :: s.dying else s.dying })

/-- `delete this`, with which `Release` ends if it has counted down to 0. -/
def deleteThis (p : Ptr) (s : ComServer) : Except Fault ComServer :=
  match deref s.refCounts p with
  | .error f => .error f
  | .ok _ => .ok { s with refCounts := s.refCounts.free p, dying := s.dying.erase p }

def release (p : Ptr) (s : ComServer) : Except Fault (Nat × ComServer) :=
  match s.countDown p with
  | .error f => .error f
  | .ok (count, s) =>
    if count = 0 then
      match s.deleteThis p with
      | .error f => .error f
      | .ok s => .ok (count, s)
    else .ok (count, s)

/-- What `CreateInstance` does with the new instance: what it returns, and the pointer it sets. -/
def queryAndRelease (riid : InterfaceId) (ppvObject : Bool) (profiler : Ptr) (s : ComServer) :
    Except Fault (HResult × Option Ptr × ComServer) :=
  match s.queryInterface riid ppvObject profiler with
  | .error f => .error f
  | .ok (hr, s) =>
    match s.release profiler with
    | .error f => .error f
    | .ok (_, s) => .ok (hr, if hr = .sOk then some profiler else none, s)

def createInstance (riid : InterfaceId) (ppvObject memory : Bool) (s : ComServer) :
    Except Fault (HResult × Option Ptr × ComServer) :=
  if !memory then .ok (.eOutOfMemory, none, s)
  else s.newCoreProfiler.2.queryAndRelease riid ppvObject s.newCoreProfiler.1

end ComServer

/-! ### The clients -/

/-- One access to the counters or to `g_CoreProfiler`, by whichever thread. `stub` is a call of one of the
stubs, which use `g_CoreProfiler` unless it is null. -/
inductive ComEvent where
  | newCoreProfiler
  | queryInterface (riid : InterfaceId) (ppvObject : Bool) (p : Ptr)
  | addRef (p : Ptr)
  | countDown (p : Ptr)
  | deleteThis (p : Ptr)
  | initializeProfiler (p : Ptr)
  | shutdown (p : Ptr)
  | stub
deriving DecidableEq

def comStep (s : ComServer) : ComEvent → Except Fault ComServer
  | .newCoreProfiler => .ok s.newCoreProfiler.2
  | .queryInterface riid ppvObject p => (s.queryInterface riid ppvObject p).map Prod.snd
  | .addRef p => (s.addRef p).map Prod.snd
  | .countDown p => (s.countDown p).map Prod.snd
  | .deleteThis p => s.deleteThis p
  | .initializeProfiler p => (deref s.refCounts p).map fun _ => { s with gCoreProfiler := some p }
  | .shutdown p => (deref s.refCounts p).map fun _ => { s with gCoreProfiler := none }
  | .stub =>
    match s.gCoreProfiler with
    | some p => (deref s.refCounts p).map fun _ => s
    | none => .ok s

/-- What clients may do: they use references that are out, fewer than the counter can count, and keep one
to the instance that is in use until its `Shutdown`. An instance is deleted by a `Release` that has seen 0. -/
def ComEvent.allowed (s : ComServer) : ComEvent → Bool
  | .newCoreProfiler | .stub => true
  | .queryInterface _ _ p | .addRef p => p ∈ s.refs ∧ s.refs.count p + 1 < 2 ^ 32
  | .countDown p => p ∈ s.refs ∧ (s.gCoreProfiler = some p → s.refs.count p ≠ 1)
  | .deleteThis p => p ∈ s.dying
  | .initializeProfiler p | .shutdown p => p ∈ s.refs

/-- Every event is allowed in the state it meets. -/
def allAllowed : ComServer → List ComEvent → Bool
  | _, [] => true
  | s, e :: es =>
    e.allowed s && match comStep s e with
      | .ok s' => allAllowed s' es
      | .error _ => true

/-! ### What holds after every step -/

/-- The counts are right, and the instance in use has a reference. -/
structure ComServer.Sound (s : ComServer) : Prop where
  counted : Counted s.refCounts s.refs s.dying
  bounded : ∀ p, s.refs.count p < 2 ^ 32
  inUse : ∀ p, s.gCoreProfiler = some p → p ∈ s.refs

section sound
variable {s : ComServer} {p : Ptr} {e : ComEvent} {es : List ComEvent}

theorem ComServer.Sound.loaded : ComServer.loaded.Sound := ⟨.empty, fun _ => Nat.two_pow_pos 32, nofun⟩

theorem ComServer.Sound.deref (h : s.Sound) (hp : p ∈ s.refs) : deref s.refCounts p = .ok (s.refs.count p) :=
  deref_ok.2 (h.counted.held p hp)

/-- What the steps make of a state in which all is well. -/
def ComServer.Becomes (s : ComServer) (e : ComEvent) (s' : ComServer) : Prop :=
  s'.Sound ∧ ∀ p, [e].count (.deleteThis p) + s.refCounts.freed p = s'.refCounts.freed p

theorem ComServer.Sound.newCoreProfiler (h : s.Sound) : s.Becomes .newCoreProfiler s.newCoreProfiler.2 := by
  obtain ⟨hfresh, -⟩ := h.counted.size_not_mem
  refine ⟨⟨h.counted.alloc, fun q => ?_, fun q hq => List.mem_cons_of_mem _ (h.inUse q hq)⟩, fun q => ?_⟩
  · show (s.refCounts.size :: s.refs).count q < _
    by_cases hq : q = s.refCounts.size
    · rw [hq, List.count_cons_self, List.count_eq_zero_of_not_mem hfresh]
      decide
    · rw [List.count_cons_of_ne (Ne.symm hq)]
      exact h.bounded q
  · exact (Nat.zero_add _).trans Heap.freed_alloc.symm

theorem ComServer.Sound.addRef (h : s.Sound) (hp : p ∈ s.refs) (hb : s.refs.count p + 1 < 2 ^ 32) :
    ∃ s', s.addRef p = .ok (s.refs.count p + 1, s') ∧ s'.refs = p :: s.refs ∧ s'.dying = s.dying ∧
      s'.gCoreProfiler = s.gCoreProfiler ∧ s.Becomes (.addRef p) s' := by
  refine ⟨{ s with refCounts := s.refCounts.set p (s.refs.count p + 1), refs := p :: s.refs }, ?_, rfl, rfl, rfl,
    ⟨h.counted.retain hp, fun q => ?_, fun q hq => List.mem_cons_of_mem _ (h.inUse q hq)⟩, fun q => ?_⟩
  · rw [ComServer.addRef, h.deref hp]
    dsimp only
    rw [Nat.mod_eq_of_lt hb]
  · show (p :: s.refs).count q < _
    by_cases hq : q = p
    · rw [hq, List.count_cons_self]
      exact hb
    · rw [List.count_cons_of_ne (Ne.symm hq)]
      exact h.bounded q
  · exact (Nat.zero_add _).trans (Heap.freed_set (h.counted.held p hp)).symm

theorem ComServer.Sound.countDown (h : s.Sound) (hp : p ∈ s.refs) (hlast : s.gCoreProfiler = some p → s.refs.count p ≠ 1) :
    ∃ s', s.countDown p = .ok (s.refs.count p - 1, s') ∧ s'.refs = s.refs.erase p ∧
      s'.dying = (if s.refs.count p = 1 then p :: s.dying else s.dying) ∧ s'.gCoreProfiler = s.gCoreProfiler ∧
      s.Becomes (.countDown p) s' := by
  have hpos := List.count_pos_iff.2 hp
  have hcount : (s.refs.count p + (2 ^ 32 - 1)) % 2 ^ 32 = s.refs.count p - 1 := by
    have hbound := h.bounded p
    omega
  have hdying : (if s.refs.count p - 1 = 0 then p :: s.dying else s.dying) =
      if s.refs.count p = 1 then p :: s.dying else s.dying := if_congr (by omega) rfl rfl
  refine ⟨{ s with
    refCounts := s.refCounts.set p (s.refs.count p - 1)
    refs := s.refs.erase p
    dying := if s.refs.count p = 1 then p :: s.dying else s.dying }, ?_, rfl, rfl, rfl, ⟨?_, fun q => ?_, fun q hq => ?_⟩,
    fun q => ?_⟩
  · rw [ComServer.countDown, h.deref hp]
    dsimp only
    rw [hcount, hdying]
  · dsimp only
    split
    · next hone =>
      rw [hone]
      exact h.counted.release_last hp hone
    · next hmore => exact h.counted.release hp hmore
  · exact Nat.lt_of_le_of_lt (List.erase_sublist.count_le q) (h.bounded q)
  · have hq' := h.inUse q hq
    by_cases hqp : q = p
    · subst hqp
      have hmore := hlast hq
      refine List.count_pos_iff.1 ?_
      rw [List.count_erase_self]
      omega
    · exact (List.mem_erase_of_ne hqp).2 hq'
  · exact (Nat.zero_add _).trans (Heap.freed_set (h.counted.held p hp)).symm

theorem ComServer.Sound.deleteThis (h : s.Sound) (hp : p ∈ s.dying) :
    ∃ s', s.deleteThis p = .ok s' ∧ s'.refs = s.refs ∧ s'.dying = s.dying.erase p ∧ s.Becomes (.deleteThis p) s' := by
  refine ⟨{ s with refCounts := s.refCounts.free p, dying := s.dying.erase p }, ?_, rfl, rfl,
    ⟨h.counted.delete hp, h.bounded, h.inUse⟩, fun q => ?_⟩
  · rw [ComServer.deleteThis, deref_ok.2 (h.counted.dead p hp)]
  · rw [Heap.freed_free (h.counted.dead p hp), List.count_singleton]
    simp only [beq_iff_eq, ComEvent.deleteThis.injEq]

theorem ComServer.Sound.becomes_self (h : s.Sound) (he : ∀ p, e ≠ .deleteThis p) : s.Becomes e s := by
  refine ⟨h, fun p => ?_⟩
  rw [List.count_eq_zero_of_not_mem fun hm => he p (List.mem_singleton.1 hm).symm, Nat.zero_add]

theorem ComServer.Sound.queryInterface (h : s.Sound) (hp : p ∈ s.refs) (hb : s.refs.count p + 1 < 2 ^ 32)
    (riid : InterfaceId) (ppvObject : Bool) :
    (s.queryInterface riid ppvObject p = .ok (.ePointer, s) ∨ s.queryInterface riid ppvObject p = .ok (.eNoInterface, s)) ∨
      ∃ s', s.queryInterface riid ppvObject p = .ok (.sOk, s') ∧ s'.refs = p :: s.refs ∧ s'.dying = s.dying ∧
        s'.gCoreProfiler = s.gCoreProfiler ∧ s.Becomes (.addRef p) s' := by
  rw [ComServer.queryInterface, h.deref hp]
  dsimp only
  split
  · exact .inl (.inl rfl)
  · split
    · obtain ⟨s', hadd, hs'⟩ := h.addRef hp hb
      rw [hadd]
      exact .inr ⟨s', rfl, hs'⟩
    · exact .inl (.inr rfl)

/-- A step that is allowed does not fault and leaves all well. -/
theorem ComServer.Sound.step (h : s.Sound) (ha : e.allowed s = true) : ∃ s', comStep s e = .ok s' ∧ s.Becomes e s' := by
  cases e with
  | newCoreProfiler => exact ⟨_, rfl, h.newCoreProfiler⟩
  | queryInterface riid ppvObject p =>
    obtain ⟨hp, hb⟩ := of_decide_eq_true ha
    rcases h.queryInterface hp hb riid ppvObject with (hq | hq) | ⟨s', hq, -, -, -, hs'⟩
    · exact ⟨s, by rw [comStep, hq]; rfl, h.becomes_self nofun⟩
    · exact ⟨s, by rw [comStep, hq]; rfl, h.becomes_self nofun⟩
    · exact ⟨s', by rw [comStep, hq]; rfl, hs'⟩
  | addRef p =>
    obtain ⟨hp, hb⟩ := of_decide_eq_true ha
    obtain ⟨s', hadd, -, -, -, hs'⟩ := h.addRef hp hb
    exact ⟨s', by rw [comStep, hadd]; rfl, hs'⟩
  | countDown p =>
    obtain ⟨hp, hlast⟩ := of_decide_eq_true ha
    obtain ⟨s', hdown, -, -, -, hs'⟩ := h.countDown hp hlast
    exact ⟨s', by rw [comStep, hdown]; rfl, hs'⟩
  | deleteThis p =>
    obtain ⟨s', hdelete, -, -, hs'⟩ := h.deleteThis (of_decide_eq_true ha)
    exact ⟨s', hdelete, hs'⟩
  | initializeProfiler p =>
    have hp : p ∈ s.refs := of_decide_eq_true ha
    have hsound : ComServer.Sound { s with gCoreProfiler := some p } :=
      ⟨h.counted, h.bounded, fun q hq => Option.some.inj hq ▸ hp⟩
    exact ⟨_, by rw [comStep, h.deref hp]; rfl, hsound, (h.becomes_self (e := .initializeProfiler p) nofun).2⟩
  | shutdown p =>
    have hp : p ∈ s.refs := of_decide_eq_true ha
    have hsound : ComServer.Sound { s with gCoreProfiler := none } := ⟨h.counted, h.bounded, nofun⟩
    exact ⟨_, by rw [comStep, h.deref hp]; rfl, hsound, (h.becomes_self (e := .shutdown p) nofun).2⟩
  | stub =>
    refine ⟨s, ?_, h.becomes_self nofun⟩
    rw [comStep]
    cases hg : s.gCoreProfiler with
    | none => rfl
    | some p =>
      dsimp only
      rw [h.deref (h.inUse p hg)]
      rfl

theorem ComServer.Sound.run (h : s.Sound) (ha : allAllowed s es = true) :
    ∃ s', run comStep s es = .ok s' ∧ s'.Sound ∧
      ∀ p, es.count (.deleteThis p) + s.refCounts.freed p = s'.refCounts.freed p := by
  induction es generalizing s with
  | nil => exact ⟨s, rfl, h, fun p => Nat.zero_add _⟩
  | cons e es ih =>
    obtain ⟨hallowed, hrest⟩ := (Bool.and_eq_true _ _).mp ha
    obtain ⟨s₁, hstep, hs₁, hfreed₁⟩ := h.step hallowed
    rw [hstep] at hrest
    obtain ⟨s', hrun, hs', hfreed⟩ := ih hs₁ hrest
    refine ⟨s', run_cons.2 ⟨s₁, hstep, hrun⟩, hs', fun p => ?_⟩
    rw [← hfreed, ← hfreed₁, ← List.singleton_append, List.count_append]
    omega

/-- The only reference is given back, and the instance is deleted. -/
theorem ComServer.Sound.release_last (h : s.Sound) (hp : p ∈ s.refs) (hone : s.refs.count p = 1)
    (hglobal : s.gCoreProfiler ≠ some p) :
    ∃ s', s.release p = .ok (0, s') ∧ s'.Sound ∧ s'.refs = s.refs.erase p ∧ s'.dying = s.dying := by
  obtain ⟨s₁, hdown, hrefs₁, hdying₁, -, hs₁, -⟩ := h.countDown hp fun hg => absurd hg hglobal
  rw [hone, if_pos rfl] at hdying₁
  have hp₁ : p ∈ s₁.dying := by
    rw [hdying₁]
    exact List.mem_cons_self
  obtain ⟨s₂, hdelete, hrefs₂, hdying₂, hs₂, -⟩ := hs₁.deleteThis hp₁
  refine ⟨s₂, ?_, hs₂, hrefs₂.trans hrefs₁, ?_⟩
  · rw [ComServer.release, hdown, hone]
    dsimp only
    rw [if_pos rfl, hdelete]
  · rw [hdying₂, hdying₁, List.erase_cons_head]

/-- A reference that is not the only one is given back. -/
theorem ComServer.Sound.release_more (h : s.Sound) (hp : p ∈ s.refs) (hmore : s.refs.count p ≠ 1) :
    ∃ s' n, s.release p = .ok (n, s') ∧ s'.Sound ∧ s'.refs = s.refs.erase p ∧ s'.dying = s.dying := by
  obtain ⟨s₁, hdown, hrefs₁, hdying₁, -, hs₁, -⟩ := h.countDown hp fun _ => hmore
  rw [if_neg hmore] at hdying₁
  have hpos := List.count_pos_iff.2 hp
  refine ⟨s₁, s.refs.count p - 1, ?_, hs₁, hrefs₁, hdying₁⟩
  rw [ComServer.release, hdown]
  dsimp only
  rw [if_neg (by omega)]

theorem ComServer.Sound.queryAndRelease (h : s.Sound) (hp : p ∈ s.refs) (hone : s.refs.count p = 1)
    (hglobal : s.gCoreProfiler ≠ some p) (riid : InterfaceId) (ppvObject : Bool) :
    ∃ hr out s', s.queryAndRelease riid ppvObject p = .ok (hr, out, s') ∧ s'.Sound ∧ (out.isSome ↔ hr = .sOk) ∧
      s'.refs = (if out.isSome then s.refs else s.refs.erase p) ∧ s'.dying = s.dying := by
  obtain ⟨s₁, hrelease, hs₁, hrefs₁, hdying₁⟩ := h.release_last hp hone hglobal
  rw [ComServer.queryAndRelease]
  rcases h.queryInterface hp (by rw [hone]; decide) riid ppvObject with (hq | hq) | ⟨s₂, hq, hrefs₂, hdying₂, -, hs₂, -⟩
  · rw [hq]
    dsimp only
    rw [hrelease]
    exact ⟨_, _, s₁, rfl, hs₁, ⟨nofun, nofun⟩, hrefs₁, hdying₁⟩
  · rw [hq]
    dsimp only
    rw [hrelease]
    exact ⟨_, _, s₁, rfl, hs₁, ⟨nofun, nofun⟩, hrefs₁, hdying₁⟩
  · have hp₂ : p ∈ s₂.refs := by
      rw [hrefs₂]
      exact List.mem_cons_self
    have hmore : s₂.refs.count p ≠ 1 := by
      rw [hrefs₂, List.count_cons_self, hone]
      decide
    obtain ⟨s₃, n, hrelease₃, hs₃, hrefs₃, hdying₃⟩ := hs₂.release_more hp₂ hmore
    rw [hq]
    dsimp only
    rw [hrelease₃]
    refine ⟨_, _, s₃, rfl, hs₃, iff_of_true rfl rfl, ?_, hdying₃.trans hdying₂⟩
    rw [hrefs₃, hrefs₂, List.erase_cons_head]
    rfl

/-- `CreateInstance` gives one reference to a new instance, or it fails and leaves nothing behind. -/
theorem ComServer.Sound.createInstance (h : s.Sound) (riid : InterfaceId) (ppvObject memory : Bool) :
    ∃ hr out s', s.createInstance riid ppvObject memory = .ok (hr, out, s') ∧ s'.Sound ∧ (out.isSome ↔ hr = .sOk) ∧
      s'.refs = (if out.isSome then s.refCounts.size :: s.refs else s.refs) ∧ s'.dying = s.dying := by
  rw [ComServer.createInstance]
  split
  · exact ⟨_, _, s, rfl, h, by decide, rfl, rfl⟩
  · obtain ⟨hfresh, -⟩ := h.counted.size_not_mem
    have hone : (s.refCounts.size :: s.refs).count s.refCounts.size = 1 := by
      rw [List.count_cons_self, List.count_eq_zero_of_not_mem hfresh]
    obtain ⟨hr, out, s', hok, hs', hout, hrefs, hdying⟩ := h.newCoreProfiler.1.queryAndRelease List.mem_cons_self hone
      (fun hg => hfresh (h.inUse _ hg)) riid ppvObject
    refine ⟨hr, out, s', hok, hs', hout, hrefs.trans (if_congr Iff.rfl rfl ?_), hdying⟩
    exact List.erase_cons_head ..

end sound

/-- Whatever the clients do that is allowed, in any interleaving: no step meets a deleted instance, the
counts are right, the instances that are there are those with a reference and those about to be deleted,
each is deleted at most once, and a `CreateInstance` that fails leaves none behind. -/
theorem run_comServer {es : List ComEvent} (ha : allAllowed .loaded es = true) :
    ∃ s, run comStep .loaded es = .ok s ∧ (∀ p ∈ s.refs, s.refCounts.get? p = some (s.refs.count p)) ∧
      (∀ p, (s.refCounts.get? p).isSome ↔ p ∈ s.refs ∨ p ∈ s.dying) ∧
      (∀ p, es.count (.deleteThis p) = s.refCounts.freed p) ∧ (∀ p, s.gCoreProfiler = some p → p ∈ s.refs) ∧
      ∀ riid ppvObject memory, ∃ hr out s', s.createInstance riid ppvObject memory = .ok (hr, out, s') ∧
        (out.isSome ↔ hr = .sOk) ∧ s'.refs = (if out.isSome then s.refCounts.size :: s.refs else s.refs) ∧
        ∀ p, (s'.refCounts.get? p).isSome ↔ p ∈ s'.refs ∨ p ∈ s.dying := by
  obtain ⟨s, hrun, hs, hfreed⟩ := ComServer.Sound.loaded.run ha
  refine ⟨s, hrun, hs.counted.held, fun p => hs.counted.live_iff, fun p => ?_, hs.inUse, fun riid ppvObject memory => ?_⟩
  · exact hfreed p
  · obtain ⟨hr, out, s', hok, hs', hout, hrefs, hdying⟩ := hs.createInstance riid ppvObject memory
    refine ⟨hr, out, s', hok, hout, hrefs, fun p => ?_⟩
    rw [hs'.counted.live_iff, hdying]

/-- The runtime makes an instance and uses it until `Shutdown`; another client has a reference of its own. -/
def sharedInstance : List ComEvent :=
  [.newCoreProfiler, .queryInterface (.iCorProfilerCallback 8) true 0, .countDown 0, .initializeProfiler 0, .addRef 0,
    .stub, .shutdown 0, .countDown 0, .countDown 0, .stub, .deleteThis 0]

theorem run_comServer_sharedInstance :
    ∃ s, run comStep .loaded sharedInstance = .ok s ∧ s.refs = [] ∧ s.refCounts.get? 0 = none ∧
      sharedInstance.count (.deleteThis 0) = s.refCounts.freed 0 := by
  obtain ⟨s, hrun, hheld, hlive, hfreed, -⟩ := run_comServer (show allAllowed .loaded sharedInstance = true by decide)
  refine ⟨s, hrun, ?_, ?_, hfreed 0⟩ <;> obtain rfl : _ = s := Except.ok.inj hrun <;> rfl

end Perun
