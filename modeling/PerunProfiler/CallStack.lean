import PerunProfiler.History

/-!
# The call stack under exceptions

`ExceptionUnwindFunctionEnter` enters the function once more and `ExceptionUnwindFunctionLeave`
leaves the active one, so a traced call that an unwind pair closes stays on the chain, and the pair
of a function that is not traced takes a traced call off it. The chain is right in the histories
that avoid both.
-/

namespace Perun
open Lib

/-- `p` and the functions before it, at most `fuel` of them. -/
def prevChain (h : Heap FunctionClass) : Nat → Option Ptr → List Ptr
  | 0, _ | _ + 1, none => []
  | fuel + 1, some p => p :: prevChain h fuel ((h.get? p).bind (·.prevFunction))

/-- The chain from the active function of a thread up. -/
def chain (s : CoreProfiler) (tid : ThreadID) : List Ptr :=
  prevChain s.functions s.functions.size (s.activeFunction tid)

section chain
variable {s : CoreProfiler} {tid : ThreadID} {sp : Spine Ptr} {h : Heap FunctionClass}

theorem SpineRep.prevChain {next : Option Ptr} {fuel : Nat} (hr : SpineRep h next sp) (hf : sp.length ≤ fuel) :
    prevChain h fuel (Spine.path sp).head? = Spine.path sp := by
  induction sp generalizing next fuel with
  | nil => cases fuel <;> rfl
  | cons x sp ih =>
    obtain ⟨p, cs⟩ := x
    obtain ⟨fuel, rfl⟩ : ∃ n, fuel = n + 1 := ⟨fuel - 1, by simp at hf; omega⟩
    obtain ⟨function, hp, hprev, -⟩ := hr.get
    have hrest := ih hr.2.2 (by simpa using hf)
    simp only [Spine.path, List.map_cons, List.head?_cons, Perun.prevChain, hp, Option.bind_some, hprev]
    rw [← Spine.path, hrest]

theorem ThreadRep.chain (hr : ThreadRep s tid sp) : chain s tid = Spine.path sp := by
  rw [Perun.chain, hr.active]
  refine hr.rep.prevChain ?_
  have h1 := Spine.length_le_preorder sp
  rw [hr.pre] at h1
  exact h1.trans Heap.length_addrs_le

end chain

/-- One traced call at least stays open from the first `Enter` on. -/
def staysOpen (_s : CoreProfiler) (g : History) (_e : Callback) (g' : History) : Bool :=
  g.calls = [] || g'.calls ≠ []

/-- No unwind pair closes a traced call; one of a function that is not traced ends while at most one
traced call is open, or before the thread has an entry. -/
def harmless (tid : ThreadID) (s : CoreProfiler) (g : History) (e : Callback) (_g' : History) : Bool :=
  match e with
  | .exceptionUnwindFunctionEnter f t _ => t ≠ tid || !s.hooked f
  | .exceptionUnwindFunctionLeave t _ =>
    t ≠ tid || (if g.calls = [] then s.activeFunctionInThread[tid]? = none else g.calls.length = 1)
  | _ => true

/-- The histories of a thread the chain is meant for. -/
def stacked (tid : ThreadID) : CoreProfiler → History → Callback → Option History :=
  restrict staysOpen (follow tid)

/-- The open calls are the path of the thread's spine, each in the record of its function. -/
structure StackInv (tid : ThreadID) (s : CoreProfiler) (g : History) : Prop where
  alive : s.Alive
  spine : ∃ σ, Spines s σ ∧ Spine.path (σ tid) = g.opened
  records : ∀ y ∈ g.calls, ∃ f, s.functions.get? y.2 = some f ∧ f.funcId = y.1
  nonzero : ∀ y ∈ g.calls, y.1 ≠ 0
  harmless : Frame.unwind true ∉ g.frames

namespace StackInv
variable {tid : ThreadID} {s s' : CoreProfiler} {g g' : History} {e : Callback}

theorem start (c : Config) : StackInv tid c.start History.start :=
  ⟨⟨rfl, rfl⟩, ⟨_, Spines.start c, rfl⟩, by simp [History.start, History.calls],
    by simp [History.start, History.calls], by simp [History.start]⟩

theorem records_step (hi : StackInv tid s g) (h : Perun.step s e = .ok s') :
    ∀ y ∈ g.calls, ∃ f, s'.functions.get? y.2 = some f ∧ f.funcId = y.1 := by
  intro y hy
  obtain ⟨f, hf, hid⟩ := hi.records y hy
  obtain ⟨f', hf', hb⟩ := step_birth hi.alive h hf
  simp only [FunctionClass.birth, Prod.mk.injEq] at hb
  exact ⟨f', hf', hb.2.2.2.1.trans hid⟩

theorem sub (hi : StackInv tid s g) (h : Perun.step s e = .ok s') {σ : ThreadID → Spine Ptr} (hσ : Spines s' σ)
    (hpath : Spine.path (σ tid) = g'.opened) (hcalls : ∀ y ∈ g'.calls, y ∈ g.calls)
    (hframes : Frame.unwind true ∉ g'.frames) : StackInv tid s' g' :=
  ⟨hi.alive.step h, ⟨σ, hσ, hpath⟩, fun y hy => hi.records_step h y (hcalls y hy),
    fun y hy => hi.nonzero y (hcalls y hy), hframes⟩

theorem length_spine {σ : ThreadID → Spine Ptr} (hpath : Spine.path (σ tid) = g.opened) :
    (σ tid).length = g.calls.length := by
  simpa [Spine.path, History.opened] using congrArg List.length hpath

theorem step (hi : StackInv tid s g) (h : Perun.step s e = .ok s')
    (hf : restrict (Perun.harmless tid) (stacked tid) s g e = some g') : StackInv tid s' g' := by
  obtain ⟨hf, hharm⟩ := restrict_eq_some.1 hf
  obtain ⟨hf, hopen⟩ := restrict_eq_some.1 hf
  obtain ⟨σ, hσ, hpath⟩ := hi.spine
  have hsp := hσ.step hi.alive h
  have hno := hi.harmless
  rcases follow_cases hf with ⟨he, rfl⟩ | ⟨f, now, rfl, hhook, rfl⟩ | ⟨f, p, rest, now, he, hframes, rfl⟩ |
    ⟨f, p, rest, now, rfl, hhook, -, -⟩ | ⟨f, now, rfl, hhook, rfl⟩ | ⟨f, p, rest, now, rfl, hframes, rfl⟩ |
    ⟨rest, now, rfl, hframes, rfl⟩
  · exact hi.sub h hsp (by rw [spineStep_elsewhere he, hpath]) (fun _ hy => hy) hno
  · -- a call is entered
    obtain ⟨hf0, htraced⟩ := CoreProfiler.hooked_iff.1 hhook
    have hm : (Callback.enterStub f tid now).move = some (.enter f tid now) := if_neg hf0
    obtain ⟨r, hr, hid, -⟩ := enter_new htraced ((step_enter hi.alive.gCoreProfiler hm).symm.trans h)
    refine ⟨hi.alive.step h, ⟨_, hsp, ?_⟩, fun y hy => ?_, fun y hy => ?_, by simpa using hno⟩
    · simp only [spineStep, hm, htraced, and_self, if_true, Spine.path_push, hpath]
      rfl
    · rcases List.mem_cons.1 (show y ∈ (f, s.functions.size) :: g.calls from hy) with rfl | hy
      · exact ⟨r, hr, hid⟩
      · exact hi.records_step h y hy
    · rcases List.mem_cons.1 (show y ∈ (f, s.functions.size) :: g.calls from hy) with rfl | hy
      · exact hf0
      · exact hi.nonzero y hy
  · -- the innermost call is left, another one stays open
    have hcalls := History.calls_of_call hframes
    have hne : History.calls { g with frames := rest } ≠ [] := by
      have : g.calls ≠ [] := by rw [hcalls]; simp
      simpa [staysOpen, this] using hopen
    have hf0 : f ≠ 0 := hi.nonzero (f, p) (by rw [hcalls]; simp)
    have hm := leave_move hf0 he
    refine hi.sub h hsp ?_ (fun y hy => by rw [hcalls]; exact List.mem_cons_of_mem _ hy)
      fun hm => hno (by rw [hframes]; exact List.mem_cons_of_mem _ hm)
    have hlen : ¬ (σ tid).length ≤ 1 := by
      have := List.length_pos_of_ne_nil hne
      rw [length_spine hpath, hcalls, List.length_cons]
      omega
    simp only [spineStep, hm, if_true, Spine.path_pop, if_neg hlen, hpath, History.opened, hcalls]
    rfl
  · simp [Perun.harmless, hhook] at hharm
  · -- the pair of a function that is not traced begins: `Enter` does nothing
    refine hi.sub h hsp ?_ (fun _ hy => hy) (by simpa using hno)
    have hnone : spineStep s tid (.exceptionUnwindFunctionEnter f tid now) (σ tid) = σ tid := by
      unfold spineStep Callback.move
      by_cases hf0 : f = 0
      · simp [hf0]
      · have htraced : s.traced f = false := by simpa [hf0, CoreProfiler.hooked] using hhook
        simp [hf0, htraced]
    rw [hnone, hpath]
    rfl
  · exact absurd (by rw [hframes]; simp) hno
  · -- it ends: the outermost call stays active
    have hcalls := History.calls_of_unwind hframes
    refine hi.sub h hsp ?_ (fun y hy => by rwa [hcalls])
      fun hm => hno (by rw [hframes]; exact List.mem_cons_of_mem _ hm)
    have hlen : (σ tid).length ≤ 1 := by
      rw [length_spine hpath]
      simp only [Perun.harmless, ne_eq, not_true_eq_false, decide_false, Bool.false_or] at hharm
      split at hharm
      · next hnil => simp [hnil]
      · exact Nat.le_of_eq (by simpa using hharm)
    simp only [spineStep, Callback.move, if_true, Spine.path_pop, if_pos hlen, hpath, History.opened, hcalls]

theorem calls_eq_nil (hi : StackInv tid s g) {first : Nat}
    (he : s.activeFunctionInThread[tid]? = some (first, none)) : g.calls = [] := by
  obtain ⟨σ, hσ, hpath⟩ := hi.spine
  have hnil : σ tid = [] := (hσ tid).nil_of_active (CoreProfiler.activeFunction_eq he)
  rw [hnil] at hpath
  exact List.map_eq_nil_iff.1 hpath.symm

/-- An accepted callback of the thread does not fault. -/
theorem fault {x : Fault} (hi : StackInv tid s g) (h : Perun.step s e = .error x)
    (hf : restrict (Perun.harmless tid) (stacked tid) s g e = some g') : elsewhere tid e = true := by
  obtain ⟨hf, hharm⟩ := restrict_eq_some.1 hf
  obtain ⟨σ, hσ, -⟩ := hi.spine
  have hleave : ∀ now, e.move = some (.leave tid now) →
      ∃ first, s.activeFunctionInThread[tid]? = some (first, none) := fun now hm =>
    (leaveActive_fault hi.alive hσ ((step_leave hi.alive.gCoreProfiler hm).symm.trans h)).2
  have henter : ∀ f now, e.move ≠ some (.enter f tid now) := by
    intro f now hm
    obtain ⟨s', hok⟩ := enter_ok f tid now hi.alive hσ
    rw [step_enter hi.alive.gCoreProfiler hm, hok] at h
    cases h
  rcases follow_cases (restrict_eq_some.1 hf).1 with ⟨he, -⟩ | ⟨f, now, rfl, hhook, -⟩ |
    ⟨f, p, rest, now, he, hframes, -⟩ | ⟨f, p, rest, now, rfl, hhook, -, -⟩ | ⟨f, now, rfl, hhook, -⟩ |
    ⟨f, p, rest, now, rfl, hframes, -⟩ | ⟨rest, now, rfl, hframes, -⟩
  · exact he
  · exact absurd (if_neg (CoreProfiler.hooked_iff.1 hhook).1) (henter f now)
  · have hmem : (f, p) ∈ g.calls := by simp [History.calls_of_call hframes]
    obtain ⟨first, hentry⟩ := hleave now (leave_move (hi.nonzero _ hmem) he)
    rw [hi.calls_eq_nil hentry] at hmem
    cases hmem
  · simp [Perun.harmless, hhook] at hharm
  · by_cases hf0 : f = 0
    · rw [hf0] at h
      cases h
    · exact absurd (if_neg hf0) (henter f now)
  · exact absurd (by rw [hframes]; simp) hi.harmless
  · obtain ⟨first, hentry⟩ := hleave now rfl
    simp only [Perun.harmless, ne_eq, not_true_eq_false, decide_false, Bool.false_or, hi.calls_eq_nil hentry,
      if_true, hentry] at hharm
    simp at hharm

end StackInv

/-- In every history of a thread whose unwind pairs are all harmless, the chain from the active
function up is the list of the open calls, innermost first, in the records of their functions; and
no callback of the thread faults. -/
theorem chain_eq_opened (c : Config) (es : List Callback) (tid : ThreadID) {s : CoreProfiler} {g : History}
    (h : run (track step (restrict (harmless tid) (stacked tid))) (c.start, History.start) es = .ok (s, g)) :
    chain s tid = g.opened ∧ (∀ y ∈ g.calls, ∃ f, s.functions.get? y.2 = some f ∧ f.funcId = y.1) ∧
      ∀ e g' x, restrict (harmless tid) (stacked tid) s g e = some g' → step s e = .error x →
        elsewhere tid e = true := by
  have hinv := run_inv (P := fun x => StackInv tid x.1 x.2) (StackInv.start c)
    (fun x e y hx hs => hx.step (track_ok.1 hs).1 (track_ok.1 hs).2) h
  obtain ⟨σ, hσ, hpath⟩ := hinv.spine
  exact ⟨by rw [(hσ tid).chain, hpath], hinv.records, fun e g' x hf hx => hinv.fault hx hf⟩

/-- Function 9, which is not traced, is unwound below the only call of the thread. -/
def untracedUnwind : List Callback :=
  [.trace 7, .enterStub 7 1 ⟨1, 1⟩, .exceptionUnwindFunctionEnter 9 1 ⟨2, 2⟩, .exceptionUnwindFunctionLeave 1 ⟨3, 3⟩]

theorem chain_eq_opened_untraced :
    ∃ s g, run (track step (restrict (harmless 1) (stacked 1))) (Config.plain.start, History.start)
        untracedUnwind = .ok (s, g) ∧
      chain s 1 = g.opened ∧ (∀ y ∈ g.calls, ∃ f, s.functions.get? y.2 = some f ∧ f.funcId = y.1) ∧
      ∀ e g' x, restrict (harmless 1) (stacked 1) s g e = some g' → step s e = .error x →
        elsewhere 1 e = true :=
  ⟨_, _, rfl, chain_eq_opened .plain untracedUnwind 1 rfl⟩

/-- Function 8, called by function 7, is unwound: its call is closed and stays on the chain. -/
theorem chain_unwound_ne_opened :
    ∃ s g, run (track step (stacked 1)) (Config.plain.start, History.start)
        [.trace 7, .trace 8, .enterStub 7 1 ⟨1, 1⟩, .enterStub 8 1 ⟨2, 2⟩,
          .exceptionUnwindFunctionEnter 8 1 ⟨3, 3⟩, .exceptionUnwindFunctionLeave 1 ⟨4, 4⟩] = .ok (s, g) ∧
      g.outside = true ∧ chain s 1 ≠ g.opened :=
  ⟨_, _, rfl, by decide, by decide⟩

end Perun
