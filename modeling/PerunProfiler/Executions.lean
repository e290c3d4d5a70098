import PerunProfiler.Isolation
import PerunProfiler.Lib.Brackets

/-!
# Executions

What a thread really does is a forest of calls. Its callbacks are the walk through the forest, and what
`Shutdown` writes of the thread is read back to the same forest, but for the calls that are not hooked
and for the outermost calls after the first one, which end up below it.
-/

namespace Perun
open Lib

structure Span where
  fID : FunctionID
  entered : Clock
  left : Clock
deriving DecidableEq

/-- A call of the program. The hooks get the number 0 for a function that `Mapper2` has declined. -/
structure Call extends Span where
  tailCall : Bool
deriving DecidableEq

def Call.hooked (c : Call) : Bool := c.fID ≠ 0

def Callback.ofBracket (t : ThreadID) : Bracket Call → Callback
  | .opens c => .enterStub c.fID t c.entered
  | .closes c => if c.tailCall then .tailcallStub c.fID t c.left else .leaveStub c.fID t c.left

/-- The callbacks of a thread that executes the calls of a forest, one after the other. -/
def callbacks (t : ThreadID) (F : List (Rose Call)) : List Callback :=
  (F.flatMap Rose.brackets).map (Callback.ofBracket t)

def Callback.isCallOf (t : ThreadID) (e : Callback) : Bool := e.isCall && e.thread? = some t

/-- What a thread calls and leaves in a run. -/
def callsOf (t : ThreadID) (es : List Callback) : List Callback := es.filter (Callback.isCallOf t)

/-- A function the thread enters is traced by then, unless its number is 0. -/
def entersTraced (t : ThreadID) (s : CoreProfiler) (_ : Unit) : Callback → Bool
  | .enterStub f t' _ => t' ≠ t || f = 0 || s.traced f
  | _ => true

/-- Every function the thread enters in the run is traced by then. -/
abbrev EntersTraced (s : CoreProfiler) (es : List Callback) (t : ThreadID) : Prop :=
  Along step (fun _ g _ => g) (entersTraced t) s () es

namespace Span

def start (c : Call) : Span := { c.toSpan with left := ⟨0, 0⟩ }

def stop (c : Call) (x : Span) : Span := { x with left := c.left }

/-- What `Shutdown` makes of a call that is still on the path. -/
def repair (now : Clock) (x : Span) : Span :=
  if x.left.cpu = 0 ∨ x.left.wall = 0 then { x with left := now } else x

end Span

def FunctionRecord.span (r : FunctionRecord) : Span := ⟨r.fID, r.entered, r.left⟩

theorem FunctionRecord.span_repair (now : Clock) (r : FunctionRecord) : (r.repair now).span = r.span.repair now := by
  have hspan : r.span.repair now = if r.lCPUt = 0 ∨ r.lWALLt = 0 then { r.span with left := now } else r.span := rfl
  rw [hspan, FunctionRecord.repair]
  split <;> rfl

theorem Spine.made_span : Spine.made Span.start Span.stop = Call.toSpan := rfl

/-! ### A bracket is what a callback does -/

section step
variable {s s' : CoreProfiler} {t : ThreadID} {κ : ThreadID → Spine FunctionRecord} {e : Callback} {b : Bracket Call}
  {es : List Callback} {sp : Spine FunctionRecord} {traced : FunctionID → Bool}

theorem map_span_leaveRecord (now : Clock) (c : Call) (hc : c.left = now) :
    Spine.map FunctionRecord.span (leaveRecord now sp) =
      Spine.follow Span.start Span.stop (Spine.map FunctionRecord.span sp) (.closes c) := by
  cases sp with
  | nil => rfl
  | cons x sp =>
    obtain ⟨r, cs⟩ := x
    rw [leaveRecord, Spine.map_pop]
    subst hc
    rfl

theorem move_closes (c : Call) : (Callback.ofBracket t (.closes c)).move =
    if c.fID = 0 then none else some (.leave t c.left) := by
  rw [Callback.ofBracket]
  split <;> rfl

theorem map_span_recordStep (ht : ∀ c, b = .opens c → c.fID ≠ 0 → traced c.fID = true) :
    Spine.map FunctionRecord.span (recordStep traced t (Callback.ofBracket t b) sp) =
      if b.label.hooked then Spine.follow Span.start Span.stop (Spine.map FunctionRecord.span sp) b
      else Spine.map FunctionRecord.span sp := by
  cases b with
  | opens c =>
    have hm : (Callback.ofBracket t (.opens c)).move = if c.fID = 0 then none else some (.enter c.fID t c.entered) := rfl
    unfold recordStep
    by_cases hc : c.fID = 0
    · rw [hm, if_pos hc, if_neg (by simp [Bracket.label, Call.hooked, hc])]
    · simp only [hm, if_neg hc, ht c rfl hc, and_self, if_true]
      rw [if_pos (by simp [Bracket.label, Call.hooked, hc])]
      rfl
  | closes c =>
    unfold recordStep
    by_cases hc : c.fID = 0
    · rw [move_closes, if_pos hc, if_neg (by simp [Bracket.label, Call.hooked, hc])]
    · simp only [move_closes, if_neg hc, if_true]
      rw [if_pos (by simp [Bracket.label, Call.hooked, hc])]
      exact map_span_leaveRecord c.left c rfl

/-- The callbacks that are no calls of the thread leave its records alone. -/
theorem recordStep_other (h : e.isCallOf t = false) : recordStep traced t e sp = sp := by
  unfold recordStep
  cases hm : e.move with
  | none => rfl
  | some m =>
    have hthread := Callback.move_thread hm
    have hcall : e.isCall = true := by
      cases e <;> first | rfl | cases hm
    have hne : e.thread? ≠ some t := by simpa [Callback.isCallOf, hcall] using h
    rw [hthread] at hne
    cases m with
    | enter f u now => exact if_neg fun hu => hne (congrArg some hu.1)
    | leave u now => exact if_neg fun hu => hne (congrArg some hu)

/-- Over a run the records of a thread follow the brackets of the calls that are hooked. -/
theorem run_follow {bs : List (Bracket Call)} (ha : s.Alive) (hκ : CallRecords s κ) (h : run step s es = .ok s')
    (hcalls : callsOf t es = bs.map (Callback.ofBracket t)) (ht : EntersTraced s es t) :
    ∃ κ', CallRecords s' κ' ∧ Spine.map FunctionRecord.span (κ' t) =
      (bs.filter (·.label.hooked)).foldl (Spine.follow Span.start Span.stop) (Spine.map FunctionRecord.span (κ t)) := by
  induction es generalizing s κ bs with
  | nil =>
    cases h
    obtain rfl : bs = [] := by simpa [callsOf] using hcalls.symm
    exact ⟨κ, hκ, rfl⟩
  | cons e es ih =>
    obtain ⟨s₁, h₁, h₂⟩ := run_cons.1 h
    obtain ⟨hfirst, hrest⟩ := ht
    have ht₁ : EntersTraced s₁ es t := hrest s₁ h₁
    by_cases hc : e.isCallOf t = true
    · rw [callsOf, List.filter_cons_of_pos hc] at hcalls
      obtain _ | ⟨b, bs⟩ := bs
      · cases hcalls
      rw [List.map_cons] at hcalls
      obtain ⟨rfl, htail⟩ := List.cons.inj hcalls
      obtain ⟨κ', hκ', hfold⟩ := ih (ha.step h₁) (hκ.step ha h₁) h₂ htail ht₁
      refine ⟨κ', hκ', ?_⟩
      rw [hfold, map_span_recordStep fun c hb hc0 => ?_]
      · by_cases hh : b.label.hooked = true
        · rw [if_pos hh, List.filter_cons_of_pos (p := fun b : Bracket Call => b.label.hooked) hh, List.foldl_cons]
        · rw [if_neg hh, List.filter_cons_of_neg (p := fun b : Bracket Call => b.label.hooked) hh]
      · subst hb
        simpa [entersTraced, Callback.ofBracket, hc0] using hfirst
    · rw [callsOf, List.filter_cons_of_neg hc] at hcalls
      obtain ⟨κ', hκ', hfold⟩ := ih (ha.step h₁) (hκ.step ha h₁) h₂ hcalls ht₁
      refine ⟨κ', hκ', ?_⟩
      rw [hfold]
      simp only [recordStep_other (Bool.eq_false_iff.2 hc)]

end step

/-! ### Reading the forest back -/

/-- The calls of a thread, rebuilt from its records. -/
def callForest (R : List FunctionRecord) : List (Rose FunctionRecord) :=
  Rose.rebuild (·.nOr) (·.rFn) R (R.length + 1) none

/-- What is expected of a thread that executes `F`: the calls that are hooked, with the first outermost
one above all later ones. Only that one may get another leave time. -/
def recorded (now : Clock) (F : List (Rose Call)) : List (Rose Span) :=
  (Spine.hang ((F.flatMap (Rose.splice Call.hooked)).map (Rose.map Call.toSpan))).map fun T =>
    .node (T.root.repair now) T.children

theorem callForest_finished {s : CoreProfiler} {κ : ThreadID → Spine FunctionRecord} (hκ : CallRecords s κ)
    (now : Clock) (t : ThreadID) :
    callForest (finished now (κ t)) = (Spine.mapPath (FunctionRecord.repair now) (κ t)).trees := by
  by_cases hne : κ t = []
  · rw [hne]
    rfl
  · obtain ⟨T, htrees, hpre, hlinked, hnum⟩ := hκ.tree now hne
    rw [htrees, callForest, ← hpre]
    exact hlinked.rebuild_eq (by rw [hnum]; exact List.nodup_range) (Nat.lt_succ_self _)

/-- A thread that does nothing but execute the calls of a forest, in a run of any threads, is read back
from what `Shutdown` writes. -/
theorem run_execution {c : Config} {es : List Callback} {s : CoreProfiler} (h : run step c.start es = .ok s)
    {t : ThreadID} {F : List (Rose Call)} (hcalls : callsOf t es = callbacks t F)
    (htraced : EntersTraced c.start es t) (now : Clock) :
    ∃ events functions, functionsSection s.functions.size now s = .ok (events, functions) ∧
      (callForest ((writtenRecords events).filter (·.TID = t))).map (Rose.map FunctionRecord.span) =
        recorded now F := by
  obtain ⟨κ, hκ, hfold⟩ := run_follow (Reachable.start c).alive (CallRecords.start c) h hcalls htraced
  obtain ⟨events, functions, hok, -, hfilter⟩ := hκ.written now (Nat.le_refl _)
  refine ⟨events, functions, hok, ?_⟩
  have hwalk : (F.flatMap Rose.brackets).filter (·.label.hooked) =
      (F.flatMap (Rose.splice Call.hooked)).flatMap Rose.brackets := by
    rw [List.filter_flatMap, List.flatMap_assoc]
    exact List.flatMap_congr fun T _ => (Rose.brackets_splice Call.hooked T).symm
  rw [hwalk, show Spine.map FunctionRecord.span [] = [] from rfl, Spine.foldl_hang, Spine.made_span] at hfold
  rw [hfilter, callForest_finished hκ, ← Spine.trees_map]
  have hmap : ∀ sp : Spine FunctionRecord, Spine.map FunctionRecord.span
      (Spine.mapPath (FunctionRecord.repair now) sp) =
        Spine.mapPath (Span.repair now) (Spine.map FunctionRecord.span sp) := by
    intro sp
    simp only [Spine.map, Spine.mapPath, List.map_map]
    refine List.map_congr_left fun x _ => ?_
    simp only [Function.comp_apply, FunctionRecord.span_repair]
  rw [hmap, hfold, recorded]
  cases (F.flatMap (Rose.splice Call.hooked)).map (Rose.map Call.toSpan) with
  | nil => rfl
  | cons T rest =>
    obtain ⟨x, cs⟩ := T
    rfl

/-- Thread 1 calls function 7, which calls function 7 by way of one that is not hooked, and then function
7 once more, which ends in a tail call; thread 2 calls function 7 meanwhile. -/
def nestedTwice : List (Rose Call) :=
  [.node ⟨⟨7, ⟨1, 1⟩, ⟨6, 6⟩⟩, false⟩ [.node ⟨⟨0, ⟨2, 2⟩, ⟨5, 5⟩⟩, false⟩ [.node ⟨⟨7, ⟨3, 3⟩, ⟨4, 4⟩⟩, false⟩ []]],
    .node ⟨⟨7, ⟨7, 7⟩, ⟨8, 8⟩⟩, true⟩ []]

def nestedTwiceRun : List Callback :=
  .trace 7 :: .enterStub 7 2 ⟨1, 1⟩ :: (callbacks 1 nestedTwice ++ [.leaveStub 7 2 ⟨9, 9⟩])

theorem run_execution_nestedTwice :
    ∃ s, run step Config.plain.start nestedTwiceRun = .ok s ∧
      ∃ events functions, functionsSection s.functions.size ⟨10, 10⟩ s = .ok (events, functions) ∧
        (callForest ((writtenRecords events).filter (·.TID = 1))).map (Rose.map FunctionRecord.span) =
          recorded ⟨10, 10⟩ nestedTwice :=
  ⟨_, rfl, run_execution (show run step Config.plain.start nestedTwiceRun = .ok _ from rfl) (by decide) (by decide)
    ⟨10, 10⟩⟩

end Perun
