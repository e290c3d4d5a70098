import PerunProfiler.History

/-!
# Outermost calls one after the other

Leaving the outermost call keeps it active: a thread has one tree, and the calls made after its
first outermost call has returned hang below that call.
-/

namespace Perun
open Lib

def exceptionFree (tid : ThreadID) (_s : CoreProfiler) (_g : History) (e : Callback) (_g' : History) : Bool :=
  match e with
  | .exceptionUnwindFunctionEnter _ t _ | .exceptionUnwindFunctionLeave t _ => t ≠ tid
  | _ => true

/-- The open calls with the first call of the thread, which never goes away. -/
def withRoot (root : Ptr) (opened : List Ptr) : List Ptr := if root ∈ opened then opened else opened ++ [root]

section withRoot
variable {root p : Ptr} {opened : List Ptr}

theorem head?_withRoot : (withRoot root opened).head? = some (opened.head?.getD root) := by
  unfold withRoot
  cases opened with
  | nil => simp
  | cons a l => split <;> simp

theorem length_withRoot : (withRoot root opened).length = opened.length + if root ∈ opened then 0 else 1 := by
  unfold withRoot
  split <;> simp

theorem withRoot_cons (h : root ≠ p) : withRoot root (p :: opened) = p :: withRoot root opened := by
  unfold withRoot
  by_cases hr : root ∈ opened <;> simp [h, hr]

theorem withRoot_pop (hnd : (withRoot root (p :: opened)).Nodup)
    (hlast : (withRoot root (p :: opened)).getLast? = some root) :
    (if (withRoot root (p :: opened)).length ≤ 1 then withRoot root (p :: opened)
      else (withRoot root (p :: opened)).tail) = withRoot root opened := by
  by_cases h : root = p
  · subst h
    have hw : withRoot root (root :: opened) = root :: opened := by simp [withRoot]
    rw [hw] at hnd hlast ⊢
    cases opened with
    | nil => simp [withRoot]
    | cons a l =>
      rw [List.getLast?_cons_cons] at hlast
      exact absurd (List.mem_of_getLast? hlast) (List.nodup_cons.1 hnd).1
  · rw [withRoot_cons h]
    have hpos : (withRoot root opened).length ≠ 0 := by
      rw [length_withRoot]
      split
      · next hm => exact Nat.ne_of_gt (List.length_pos_of_mem hm)
      · omega
    rw [if_neg (by simpa using hpos), List.tail_cons]

end withRoot

/-- The record at `p` has the previous function `prev` and the depth `d`. -/
def Born (s : CoreProfiler) (p : Ptr) (prev : Option Ptr) (d : Nat) : Prop :=
  ∃ f, s.functions.get? p = some f ∧ f.prevFunction = prev ∧ f.depth = d

theorem Born.step {s s' : CoreProfiler} {e : Callback} {p : Ptr} {prev : Option Ptr} {d : Nat} (ha : s.Alive)
    (hb : Born s p prev d) (h : step s e = .ok s') : Born s' p prev d := by
  obtain ⟨f, hf, rfl, rfl⟩ := hb
  obtain ⟨f', hf', hbirth⟩ := step_birth ha h hf
  simp only [FunctionClass.birth, Prod.mk.injEq] at hbirth
  exact ⟨f', hf', hbirth.1, hbirth.2.1⟩

theorem ThreadRep.born {s : CoreProfiler} {tid : ThreadID} {p : Ptr} {cs : List (Rose Ptr)} {sp : Spine Ptr}
    (hr : ThreadRep s tid ((p, cs) :: sp)) : Born s p (Spine.path sp).head? sp.length := by
  obtain ⟨f, hf, hprev, -, hd⟩ := hr.rep.get
  exact ⟨f, hf, hprev, hd⟩

/-- How the records of a thread come about that has made a call: `root` is the first one, every
other one hangs below the innermost call that was open, or else below `root`. -/
structure BelowRoot (s : CoreProfiler) (root : Ptr) (opened path : List Ptr) (entries : List (Ptr × List Ptr)) :
    Prop where
  path_eq : path = withRoot root opened
  last : path.getLast? = some root
  born : Born s root none 0
  borns : ∀ x ∈ entries, Born s x.1 (some (x.2.head?.getD root)) (x.2.length + if root ∈ x.2 then 0 else 1)

theorem BelowRoot.step {s s' : CoreProfiler} {e : Callback} {root : Ptr} {opened opened' path path' : List Ptr}
    {entries : List (Ptr × List Ptr)} (hb : BelowRoot s root opened path entries) (ha : s.Alive)
    (h : step s e = .ok s') (hpath : path' = withRoot root opened') (hlast : path'.getLast? = some root) :
    BelowRoot s' root opened' path' entries :=
  ⟨hpath, hlast, hb.born.step ha h, fun x hx => (hb.borns x hx).step ha h⟩

structure OuterInv (tid : ThreadID) (s : CoreProfiler) (g : History) : Prop where
  alive : s.Alive
  recorded : g.entered.map Prod.fst = s.recordsOf tid
  nonzero : ∀ y ∈ g.calls, y.1 ≠ 0
  spine : ∃ σ, Spines s σ ∧
    ((g.entered = [] ∧ g.opened = []) ∨
      ∃ root entries, g.entered = (root, []) :: entries ∧
        BelowRoot s root g.opened (Spine.path (σ tid)) entries)

namespace OuterInv
variable {tid : ThreadID} {s s' : CoreProfiler} {g g' : History} {e : Callback}

theorem start (c : Config) : OuterInv tid c.start History.start :=
  ⟨⟨rfl, rfl⟩, rfl, by simp [History.start, History.calls], _, Spines.start c, .inl ⟨rfl, rfl⟩⟩

theorem enter {f : FunctionID} {now : Clock} (hi : OuterInv tid s g) (hhook : s.hooked f = true)
    (h : Perun.step s (.enterStub f tid now) = .ok s') :
    OuterInv tid s' ⟨.call f s.functions.size :: g.frames, g.entered ++ [(s.functions.size, g.opened)]⟩ := by
  obtain ⟨hf0, htraced⟩ := CoreProfiler.hooked_iff.1 hhook
  obtain ⟨σ, hσ, hspine⟩ := hi.spine
  have hsp := hσ.step hi.alive h
  have hpush : spineStep s tid (.enterStub f tid now) (σ tid) = (σ tid).push s.functions.size := by
    have hm : (Callback.enterStub f tid now).move = some (.enter f tid now) := if_neg hf0
    simp only [spineStep, hm, htraced, and_self, if_true]
  have hr := hsp tid
  simp only [hpush] at hr
  have hborn := hr.born
  refine ⟨hi.alive.step h, ?_, ?_, _, hsp, .inr ?_⟩
  · rw [← hr.pre, Spine.preorder_push, (hσ tid).pre, ← hi.recorded, List.map_append]
    rfl
  · intro y hy
    rcases List.mem_cons.1 (show y ∈ (f, s.functions.size) :: g.calls from hy) with rfl | hy
    · exact hf0
    · exact hi.nonzero y hy
  · simp only [hpush]
    rcases hspine with ⟨hnone, hopened⟩ | ⟨root, entries, hentered, hb⟩
    · -- the first call of the thread
      have hnil : σ tid = [] := by
        have hpre := (hσ tid).pre
        rw [← hi.recorded, hnone] at hpre
        have hlen := Spine.length_le_preorder (σ tid)
        rw [hpre] at hlen
        exact List.eq_nil_of_length_eq_zero (Nat.le_zero.1 hlen)
      rw [hnil] at hborn ⊢
      have hopened' : History.opened ⟨.call f s.functions.size :: g.frames,
          g.entered ++ [(s.functions.size, g.opened)]⟩ = [s.functions.size] := by
        show s.functions.size :: g.opened = _
        rw [hopened]
      refine ⟨s.functions.size, [], by rw [hnone, hopened]; rfl, ?_, rfl, hborn, by simp⟩
      rw [hopened']
      simp [withRoot, Spine.push, Spine.path]
    · -- a call below an earlier one
      have hroot : root ≠ s.functions.size := by
        obtain ⟨r, hr, -⟩ := hb.born
        exact Nat.ne_of_lt (Heap.lt_size hr)
      have hne : Spine.path (σ tid) ≠ [] := by
        intro hnil
        have := hb.last
        rw [hnil] at this
        cases this
      have hold : BelowRoot s' root (s.functions.size :: g.opened) (s.functions.size :: Spine.path (σ tid))
          entries := by
        refine hb.step hi.alive h (by rw [withRoot_cons hroot, hb.path_eq]) ?_
        rw [List.getLast?_cons_of_ne_nil hne, hb.last]
      refine ⟨root, entries ++ [(s.functions.size, g.opened)], by rw [hentered]; rfl, hold.path_eq, hold.last,
        hold.born, fun x hx => ?_⟩
      rcases List.mem_append.1 hx with hx | hx
      · exact hold.borns x hx
      · rw [List.mem_singleton.1 hx]
        have hlen : (withRoot root g.opened).length = (σ tid).length := by
          rw [← hb.path_eq, Spine.path, List.length_map]
        rw [← head?_withRoot, ← length_withRoot, hlen, ← hb.path_eq]
        exact hborn

theorem leave {f : FunctionID} {p : Ptr} {rest : List Frame} (hi : OuterInv tid s g)
    (hm : ∃ now, e.move = some (.leave tid now)) (hframes : g.frames = .call f p :: rest)
    (h : Perun.step s e = .ok s') : OuterInv tid s' { g with frames := rest } := by
  obtain ⟨now, hm⟩ := hm
  obtain ⟨σ, hσ, hspine⟩ := hi.spine
  have hsp := hσ.step hi.alive h
  have hpop : spineStep s tid e (σ tid) = (σ tid).pop := by simp only [spineStep, hm, if_true]
  have hr := hsp tid
  simp only [hpop] at hr
  have hcalls := History.calls_of_call hframes
  have hopened : g.opened = p :: History.opened { g with frames := rest } := by
    simp only [History.opened, hcalls, List.map_cons]
  refine ⟨hi.alive.step h, ?_, fun y hy => hi.nonzero y (by rw [hcalls]; exact List.mem_cons_of_mem _ hy), _, hsp, ?_⟩
  · rw [← hr.pre, Spine.preorder_pop, (hσ tid).pre, ← hi.recorded]
  · simp only [hpop]
    rcases hspine with ⟨-, hnil⟩ | ⟨root, entries, hentered, hb⟩
    · rw [hopened] at hnil
      cases hnil
    refine .inr ⟨root, entries, hentered, ?_⟩
    have hpath := hb.path_eq
    have hlast := hb.last
    have hnd := Spine.nodup_path (hσ tid).nodup
    rw [hopened] at hpath
    have hlen : (σ tid).length = (Spine.path (σ tid)).length := by rw [Spine.path, List.length_map]
    have hpop_eq : Spine.path (σ tid).pop = withRoot root (History.opened { g with frames := rest }) := by
      rw [Spine.path_pop, hlen]
      rw [hpath] at hnd hlast ⊢
      exact withRoot_pop hnd hlast
    refine hb.step hi.alive h hpop_eq ?_
    rw [Spine.path_pop]
    split
    · exact hlast
    · next hlong =>
      obtain ⟨a, l, hal⟩ : ∃ a l, Spine.path (σ tid) = a :: l :=
        List.exists_cons_of_ne_nil fun hnil => hlong (by rw [hlen, hnil]; simp)
      have hl : l ≠ [] := fun hnil => hlong (by rw [hlen, hal, hnil]; simp)
      rw [hal, List.tail_cons]
      rwa [hal, List.getLast?_cons_of_ne_nil hl] at hlast

theorem step (hi : OuterInv tid s g) (h : Perun.step s e = .ok s')
    (hf : restrict (exceptionFree tid) (follow tid) s g e = some g') : OuterInv tid s' g' := by
  obtain ⟨hf, hfree⟩ := restrict_eq_some.1 hf
  rcases follow_cases hf with ⟨he, rfl⟩ | ⟨f, now, rfl, hhook, rfl⟩ | ⟨f, p, rest, now, he, hframes, rfl⟩ |
    ⟨f, p, rest, now, rfl, -⟩ | ⟨f, now, rfl, -⟩ | ⟨f, p, rest, now, rfl, -⟩ | ⟨rest, now, rfl, -⟩
  · obtain ⟨σ, hσ, hspine⟩ := hi.spine
    have hsp := hσ.step hi.alive h
    have hsame := spineStep_elsewhere (s := s) he (σ tid)
    have hr := hsp tid
    simp only [hsame] at hr
    refine ⟨hi.alive.step h, by rw [hi.recorded, ← (hσ tid).pre, hr.pre], hi.nonzero, _, hsp, ?_⟩
    simp only [hsame]
    rcases hspine with hnone | ⟨root, entries, hentered, hb⟩
    · exact .inl hnone
    · exact .inr ⟨root, entries, hentered, hb.step hi.alive h hb.path_eq hb.last⟩
  · exact hi.enter hhook h
  · have hmem : (f, p) ∈ g.calls := by simp [History.calls_of_call hframes]
    exact hi.leave ⟨now, leave_move (hi.nonzero _ hmem) he⟩ hframes h
  all_goals simp [exceptionFree] at hfree

end OuterInv

/-- In every history of a thread without exceptions the first record of the thread has no previous
function and depth 0; every later one has the innermost call open at its `Enter` as previous
function, or else the first record, and as depth the number of the open calls, with the first call
of the thread counted even when it has returned. -/
theorem entered_born (c : Config) (es : List Callback) (tid : ThreadID) {s : CoreProfiler} {g : History}
    (h : run (track step (restrict (exceptionFree tid) (follow tid))) (c.start, History.start) es = .ok (s, g)) :
    g.entered.map Prod.fst = s.recordsOf tid ∧
      ∀ root opened entries, g.entered = (root, opened) :: entries →
        opened = [] ∧ Born s root none 0 ∧
          ∀ x ∈ entries, Born s x.1 (some (x.2.head?.getD root)) (x.2.length + if root ∈ x.2 then 0 else 1) := by
  have hinv := run_inv (P := fun x => OuterInv tid x.1 x.2) (OuterInv.start c)
    (fun x e y hx hs => hx.step (track_ok.1 hs).1 (track_ok.1 hs).2) h
  refine ⟨hinv.recorded, fun root opened entries hentered => ?_⟩
  obtain ⟨σ, -, ⟨hnone, -⟩ | ⟨root', entries', hentered', hb⟩⟩ := hinv.spine
  · rw [hentered] at hnone
    cases hnone
  · rw [hentered] at hentered'
    obtain ⟨hroot, rfl⟩ := List.cons.inj hentered'
    obtain ⟨rfl, rfl⟩ := Prod.mk.inj hroot
    exact ⟨rfl, hb.born, hb.borns⟩

/-- Two outermost calls, one after the other. -/
def consecutiveCalls : List Callback :=
  [.trace 7, .enterStub 7 1 ⟨1, 1⟩, .leaveStub 7 1 ⟨2, 2⟩, .enterStub 7 1 ⟨3, 3⟩]

theorem entered_born_consecutive :
    ∃ s g, run (track step (restrict (exceptionFree 1) (follow 1))) (Config.plain.start, History.start)
        consecutiveCalls = .ok (s, g) ∧
      g.entered.map Prod.fst = s.recordsOf 1 ∧
      ∀ root opened entries, g.entered = (root, opened) :: entries →
        opened = [] ∧ Born s root none 0 ∧
          ∀ x ∈ entries, Born s x.1 (some (x.2.head?.getD root)) (x.2.length + if root ∈ x.2 then 0 else 1) :=
  ⟨_, _, rfl, entered_born .plain consecutiveCalls 1 rfl⟩

/-- The second outermost call is entered when none is open; its record has depth 1 and names the
first one as previous function. -/
theorem consecutive_not_born :
    ∃ s g, run (track step (restrict (exceptionFree 1) (follow 1))) (Config.plain.start, History.start)
        consecutiveCalls = .ok (s, g) ∧
      (1, []) ∈ g.entered ∧ ¬ Born s 1 none 0 := by
  refine ⟨_, _, rfl, by decide, ?_⟩
  rintro ⟨f, hf, hprev, -⟩
  have hsome : f.prevFunction = some 0 := by
    rw [← Option.some.inj (show some _ = some f from hf)]
    rfl
  rw [hprev] at hsome
  cases hsome

end Perun
