import Mathlib.Algebra.GroupWithZero.Nat
import PerunProfiler.Closings
import PerunProfiler.Document
import PerunProfiler.Mapped
import PerunProfiler.References
import PerunProfiler.Serialization

/-!
# The buffer of the logger

`Logger::Log` prints every message into a buffer of 1024 bytes. The metadata interfaces give names of less
than 256 characters and the clocks are counters of 64 bits, so in every run each message fits, with its
terminator.
-/

namespace Perun
open Lib

/-- How much a conversion prints at most: an `int` has a sign and ten digits, a pointer sixteen digits
after `0x`, and a time a sign and six digits after the point; its rounding may add one. -/
def Arg.width : Arg → Nat
  | .d _ => 11
  | .p _ => 18
  | .f t => 8 + (Nat.toDigits 10 (t.num.natAbs / t.den + 1)).length
  | .s text => text.length

def Piece.width : Piece → Nat
  | .lit _ => 1
  | .arg a => a.width

/-- A quoted string has its two quotes. -/
def tokenWidth : Tok Str → Nat
  | .str s => (s.map Piece.width).sum + 2
  | _ => 1

def printed (m : Message) : Nat := (m.map tokenWidth).sum

/-- `char buffer[1 << 10]` -/
def bufferSize : Nat := 1 <<< 10

/-- The message fits with its terminator; a format has at most one blank between its tokens. -/
def Fits (m : Message) : Prop := printed m + 1 < bufferSize

/-! ### What the runtime promises -/

/-- A reading of a 64-bit counter. -/
def BoundedTime (t : Time) : Prop := 0 ≤ t ∧ t < 2 ^ 64

instance : DecidablePred BoundedTime := fun t => inferInstanceAs (Decidable (0 ≤ t ∧ t < 2 ^ 64))

structure Clock.Bounded (now : Clock) : Prop where
  wall : BoundedTime now.wall
  cpu : BoundedTime now.cpu

/-- The clock readings of a callback. -/
def Callback.clock : Callback → Option Clock
  | .enterStub _ _ now | .leaveStub _ _ now | .tailcallStub _ _ now => some now
  | .exceptionUnwindFunctionEnter _ _ now | .exceptionUnwindFunctionLeave _ now => some now
  | .objectAllocated _ _ _ _ now => some now
  | .garbageCollectionStarted _ _ now | .garbageCollectionFinished _ now => some now
  | _ => none

/-- The names that a callback gets from the metadata. -/
def Callback.names : Callback → List WString
  | .mapper2 _ m => m.typeDefProps.toList ++ m.methodProps.toList
  | .classLoadFinished _ _ typeDefProps => typeDefProps.toList
  | _ => []

/-- The clocks are as they are, and the names fit into `WCHAR name[256]` with their terminator. -/
structure Callback.Bounded (e : Callback) : Prop where
  clock : ∀ now, e.clock = some now → now.Bounded
  names : ∀ name ∈ e.names, name.length < 256

/-! ### The messages -/

section messages
variable {now : Clock} {t : Time} {r : FunctionRecord} {o : ObjectRecord} {i : FunctionInfo} {g : Generations} {os : Process}

theorem width_time (h : BoundedTime t) : Arg.width (.f t) ≤ 28 := by
  have hnum : t.num < 2 ^ 64 * t.den := by
    have hlt := (Rat.lt_iff _ _).1 h.2
    simpa using hlt
  have hdiv : t.num.natAbs / t.den < 2 ^ 64 := by
    rw [Nat.div_lt_iff_lt_mul t.den_pos]
    have hnonneg := Rat.num_nonneg.2 h.1
    omega
  have hdigits := (Nat.length_toDigits_le_iff (b := 10) (n := t.num.natAbs / t.den + 1) (k := 20) (by decide)
    (by decide)).2 (by omega)
  exact Nat.add_le_add_left hdigits 8

theorem printed_append (m m' : Message) : printed (m ++ m') = printed m + printed m' := by
  rw [printed, List.map_append, List.sum_append]
  rfl

/-- What is quoted so far is printed with the string that it belongs to. -/
def quotedWidth : Option Str → Nat
  | none => 0
  | some quoted => (quoted.map Piece.width).sum + 1

/-- A conversion prints its argument, every other character at most itself. -/
theorem printed_sprintfAux (quoted : Option Str) (format : List Char) (args : List Arg) :
    printed (sprintfAux quoted format args) ≤ quotedWidth quoted + format.length + (args.map Arg.width).sum := by
  fun_induction sprintfAux quoted format args <;>
    simp_all [printed, tokenWidth, quotedWidth, Piece.width] <;> omega

/-- A format is read from the list of its characters; the kernel is slow at taking a string apart. -/
theorem Fits.logInSh {format : List Char} {args : List Arg} (hformat : format.length ≤ 150)
    (hargs : (args.map Arg.width).sum ≤ 850) : Fits (LOGInSh (String.ofList format) args) := by
  have hprinted := printed_sprintfAux none format args
  show printed (sprintf (String.ofList format) args) + 1 < 1024
  rw [sprintf_ofList]
  simp only [quotedWidth] at hprinted
  omega

theorem Fits.log {format : List Char} {args : List Arg} (hformat : format.length ≤ 150)
    (hargs : (args.map Arg.width).sum ≤ 850) : Fits (LOG (String.ofList format) args) := by
  have hprinted := printed_sprintfAux none format args
  have hcomma : printed [.comma] = 1 := rfl
  show printed (LOG (String.ofList format) args) + 1 < 1024
  rw [LOG_ofList, printed_append, hcomma]
  simp only [quotedWidth] at hprinted
  omega

set_option maxRecDepth 2000 in
theorem FunctionRecord.fits (he : r.entered.Bounded) (hl : r.left.Bounded) : Fits r.message := by
  have h1 : Arg.width (.f r.eWALLt) ≤ 28 := width_time he.wall
  have h2 : Arg.width (.f r.lWALLt) ≤ 28 := width_time hl.wall
  have h3 : Arg.width (.f r.eCPUt) ≤ 28 := width_time he.cpu
  have h4 : Arg.width (.f r.lCPUt) ≤ 28 := width_time hl.cpu
  unfold FunctionRecord.message
  cases r.rFn with
  | none =>
    refine .logInSh (by decide) ?_
    show 18 + (18 + (Arg.width (.f r.eWALLt) + (Arg.width (.f r.lWALLt) + (Arg.width (.f r.eCPUt) +
      (Arg.width (.f r.lCPUt) + (11 + (11 + 0))))))) ≤ 850
    omega
  | some rFn =>
    refine .logInSh (by decide) ?_
    show 18 + (18 + (Arg.width (.f r.eWALLt) + (Arg.width (.f r.lWALLt) + (Arg.width (.f r.eCPUt) +
      (Arg.width (.f r.lCPUt) + (11 + (11 + (11 + 0)))))))) ≤ 850
    omega

set_option maxRecDepth 2000 in
theorem ObjectRecord.fits (hc : Clock.Bounded ⟨o.eWALLt, o.eCPUt⟩) (hname : o.objType.length < 256) : Fits o.message := by
  have h1 : Arg.width (.f o.eWALLt) ≤ 28 := width_time hc.wall
  have h2 : Arg.width (.f o.eCPUt) ≤ 28 := width_time hc.cpu
  unfold ObjectRecord.message
  split
  · refine .log (by decide) ?_
    show 18 + (18 + (11 + (o.objType.length + (11 + (11 + (11 + (Arg.width (.f o.eWALLt) +
      (Arg.width (.f o.eCPUt) + 0)))))))) ≤ 850
    omega
  · refine .log (by decide) ?_
    show 18 + (18 + (11 + (o.objType.length + (11 + (11 + (Arg.width (.f o.eWALLt) +
      (Arg.width (.f o.eCPUt) + 0))))))) ≤ 850
    omega

theorem FunctionInfo.fits (hname : i.name.length < 515) : Fits i.message := by
  refine .logInSh (by decide) ?_
  show 18 + (i.name.length + 0) ≤ 850
  omega

/-- `Initialize` and `Shutdown` print the process and the clocks. -/
theorem Fits.process {format : List Char} (hformat : format.length ≤ 150) (h : now.Bounded) :
    Fits (LOGInSh (String.ofList format) [.d os.pid, .d os.tid, .f now.wall, .f now.cpu]) := by
  have h1 : Arg.width (.f now.wall) ≤ 28 := width_time h.wall
  have h2 : Arg.width (.f now.cpu) ≤ 28 := width_time h.cpu
  refine .logInSh hformat ?_
  show 11 + (11 + (Arg.width (.f now.wall) + (Arg.width (.f now.cpu) + 0))) ≤ 850
  omega

theorem shutdownMessage_fits (h : now.Bounded) : Fits (shutdownMessage os now) :=
  .process (by decide) h

theorem Config.start_fits {c : Config} (h : c.now.Bounded) : ∀ m ∈ c.start.log, Fits m := by
  intro m hm
  obtain rfl := List.mem_singleton.1 hm
  exact .process (by decide) h

theorem yesNo_length (collected : Bool) : (yesNo collected).length ≤ 3 := by
  cases collected <;> decide

theorem gcStartedMessage_fits (h : now.Bounded) (n : Nat) (t : ThreadID) : Fits (gcStartedMessage n t g now) := by
  have h1 : Arg.width (.f now.wall) ≤ 28 := width_time h.wall
  have h2 : Arg.width (.f now.cpu) ≤ 28 := width_time h.cpu
  have hgen0 := yesNo_length g.gen0
  have hgen1 := yesNo_length g.gen1
  have hgen2 := yesNo_length g.gen2
  refine .log (by decide) ?_
  show 11 + (18 + ((yesNo g.gen0).length + ((yesNo g.gen1).length + ((yesNo g.gen2).length + (Arg.width (.f now.wall) +
    (Arg.width (.f now.cpu) + 0)))))) ≤ 850
  omega

theorem gcFinishedMessage_fits (h : now.Bounded) (n : Nat) (t : ThreadID) : Fits (gcFinishedMessage n t now) := by
  have h1 : Arg.width (.f now.wall) ≤ 28 := width_time h.wall
  have h2 : Arg.width (.f now.cpu) ≤ 28 := width_time h.cpu
  refine .log (by decide) ?_
  show 11 + (18 + (Arg.width (.f now.wall) + (Arg.width (.f now.cpu) + 0))) ≤ 850
  omega

theorem shutdownSections_fits {functions : List FunctionRecord} {objects : List ObjectRecord} {names : List FunctionInfo}
    (hf : ∀ r ∈ functions, Fits r.message) (ho : ∀ o ∈ objects, Fits o.message) (hn : ∀ i ∈ names, Fits i.message) :
    ∀ m ∈ (shutdownSections functions objects names).flatten, Fits m := by
  have hplain : ∀ format : List Char, format.length ≤ 150 → Fits (LOGInSh (String.ofList format) []) :=
    fun format hformat => .logInSh hformat (Nat.zero_le _)
  intro m hm
  simp only [shutdownSections, List.flatten_cons, List.flatten_nil, List.mem_append, List.mem_singleton, List.mem_map,
    List.not_mem_nil, or_false] at hm
  rcases hm with ((rfl | ⟨r, hr, rfl⟩) | rfl) | ((rfl | ⟨o, hr, rfl⟩) | rfl) | ((rfl | ⟨i, hr, rfl⟩) | rfl)
  · exact hplain _ (by decide)
  · exact hf r hr
  · exact hplain _ (by decide)
  · exact hplain _ (by decide)
  · exact ho o hr
  · exact hplain _ (by decide)
  · exact hplain _ (by decide)
  · exact hn i hr
  · exact hplain _ (by decide)

end messages

/-! ### What the names and the times are -/

def FunctionClass.entered (function : FunctionClass) : Clock := ⟨function.wallTimeEnter, function.cpuTimeEnter⟩

/-- The names and the times that `Shutdown` finds. -/
structure Sized (s : CoreProfiler) : Prop where
  names : ∀ (f : FunctionID) (info : FunctionInfo), s.functionMap[f]? = some (some info) → info.name.length < 515
  calls : ∀ (p : Ptr) (function : FunctionClass), s.functions.get? p = some function →
    function.entered.Bounded ∧ function.left.Bounded
  log : ∀ m ∈ s.log, Fits m

section step
variable {s s' : CoreProfiler} {e : Callback} {entry : Option FunctionInfo} {f : FunctionID} {t : ThreadID} {now : Clock}

theorem length_unicodeToAnsi (str : WString) : (unicodeToAnsi str).length = str.length := by
  rw [unicodeToAnsi, ← String.length_toList, String.toList_ofList, List.length_map]

theorem length_getTypeName {typeDefProps : Option WString} (h : ∀ name ∈ typeDefProps.toList, name.length < 256) :
    (getTypeName typeDefProps).length < 256 := by
  cases typeDefProps with
  | none => decide
  | some name =>
    rw [getTypeName, length_unicodeToAnsi]
    exact h name (List.mem_singleton.2 rfl)

theorem length_getMethodName {m : FunctionMetadata} (h : (Callback.mapper2 f m).Bounded) :
    (getMethodName m).length < 515 := by
  have htype := length_getTypeName fun name hname => h.names name (List.mem_append_left _ hname)
  unfold getMethodName
  split
  · split
    · next name hname =>
      have hmethod : name.length < 256 := h.names name (List.mem_append_right _ (by rw [hname]; exact List.mem_singleton.2 rfl))
      have hplain : ("::".length = 2) ∧ ("()".length = 2) := by decide
      rw [String.length_append, String.length_append, String.length_append, length_unicodeToAnsi, hplain.1, hplain.2]
      omega
    · decide
  · decide

theorem Clock.bounded_zero : Clock.Bounded ⟨0, 0⟩ := ⟨by decide, by decide⟩

theorem Callback.gcEvent_fits {g : GcEvent} (he : e.Bounded) (hg : e.gcEvent s = some g) : Fits g.message := by
  unfold Callback.gcEvent at hg
  split at hg
  · obtain rfl := Option.some.inj hg
    exact gcStartedMessage_fits (he.clock _ rfl) _ _
  · obtain rfl := Option.some.inj hg
    exact gcFinishedMessage_fits (he.clock _ rfl) _ _
  · cases hg

/-- A new entry does not touch the entries that are there. -/
theorem Sized.insertIfNew (h : Sized s) (hentry : ∀ info, entry = some info → info.name.length < 515) (g : FunctionID)
    (info : FunctionInfo) (hg : (s.functionMap.insertIfNew f entry)[g]? = some (some info)) : info.name.length < 515 := by
  rw [Std.ExtTreeMap.getElem?_insertIfNew] at hg
  split at hg
  · exact hentry info (Option.some.inj hg)
  · exact h.names g info hg

theorem Callback.clock_enter (hm : e.move = some (.enter f t now)) : e.clock = some now := by
  cases e <;> simp_all [Callback.move, Callback.clock]

theorem Callback.clock_leave (hm : e.move = some (.leave t now)) : e.clock = some now := by
  cases e <;> simp_all [Callback.move, Callback.clock]

theorem Sized.enter (hnow : now.Bounded) (hlog : ∀ m ∈ s'.log, Fits m) (h : Sized s)
    (hs : Perun.enter f t now s = .ok s') : Sized s' := by
  have hnew : ∀ info, (newFunction f info t now).entered.Bounded ∧ (newFunction f info t now).left.Bounded :=
    fun _ => ⟨hnow, Clock.bounded_zero⟩
  rcases enter_cases hs with ⟨-, rfl⟩ | ⟨-, info, -, ⟨-, rfl⟩ | ⟨prev, prevFunction, -, hprev, rfl⟩⟩
  · exact ⟨h.insertIfNew (by simp), h.calls, hlog⟩
  · refine ⟨h.names, fun p function hp => ?_, hlog⟩
    rw [show (enterTop (newFunction f info t now) t s).functions.get? p = _ from Heap.get?_alloc] at hp
    split at hp
    · rw [← Option.some.inj hp]
      exact hnew info
    · exact h.calls p function hp
  · refine ⟨h.names, fun p function hp => ?_, hlog⟩
    rw [get?_enterBelow _ _ _ hprev] at hp
    split at hp
    · rw [← Option.some.inj hp]
      exact h.calls prev prevFunction hprev
    · split at hp
      · rw [← Option.some.inj hp]
        exact hnew info
      · exact h.calls p function hp

theorem Sized.leaveActive (hnow : now.Bounded) (hlog : ∀ m ∈ s'.log, Fits m) (h : Sized s)
    (hs : Perun.leaveActive t now s = .ok s') : Sized s' := by
  rcases leaveActive_cases hs with ⟨-, rfl⟩ | ⟨first, active, function, -, hact, rfl⟩
  · exact h
  · refine ⟨h.names, fun p g hp => ?_, hlog⟩
    simp only [Heap.get?_set hact] at hp
    split at hp
    · rw [← Option.some.inj hp]
      exact ⟨(h.calls active function hact).1, hnow⟩
    · exact h.calls p g hp

theorem Sized.step (he : e.Bounded) (ha : s.Alive) (h : Sized s) (hs : Perun.step s e = .ok s') : Sized s' := by
  have hlog : ∀ m ∈ s'.log, Fits m := by
    intro m hm
    rw [(step_gc hs).1, List.mem_append] at hm
    rcases hm with hm | hm
    · exact h.log m hm
    · obtain ⟨g, hg, rfl⟩ := List.mem_map.1 hm
      exact e.gcEvent_fits he (Option.mem_toList.1 hg)
  rcases step_move ha hs with ⟨f, t, now, hm, henter⟩ | ⟨t, now, hm, hleave⟩ | ⟨hm, hf, -⟩
  · exact h.enter (he.clock _ (Callback.clock_enter hm)) hlog henter
  · exact h.leaveActive (he.clock _ (Callback.clock_leave hm)) hlog hleave
  · refine ⟨?_, by rw [hf]; exact h.calls, hlog⟩
    cases e with
    | mapper2 f m =>
      rcases mapper2_cases hs with rfl | rfl
      · exact h.names
      · refine h.insertIfNew fun info hinfo => ?_
        rw [← Option.some.inj hinfo]
        exact length_getMethodName he
    | classLoadFinished c i p => rcases classLoadFinished_cases hs with rfl | rfl <;> exact h.names
    | enterStub f t now | leaveStub f t now | tailcallStub f t now | exceptionUnwindFunctionEnter f t now =>
      obtain rfl : f = 0 := by simpa [Callback.move] using hm
      cases hs
      exact h.names
    | exceptionUnwindFunctionLeave t now => simp [Callback.move] at hm
    | objectAllocated o c z t now => rcases objectAllocated_cases hs with ⟨-, rfl⟩ | ⟨z, -, rfl⟩ <;> exact h.names
    | movedReferences | survivingReferences | garbageCollectionStarted | garbageCollectionFinished =>
      have hsame : s'.functionMap = s.functionMap := (congrArg CoreProfiler.functionMap (step_besidesObjects rfl hs) :)
      rw [hsame]
      exact h.names

end step

section run
variable {c : Config} {es : List Callback} {s : CoreProfiler} {now : Clock}

theorem run_sized (h : run step c.start es = .ok s) (hc : c.now.Bounded) (hes : ∀ e ∈ es, e.Bounded) : Sized s := by
  have hinv := run_inv_mem (P := fun s => s.Alive ∧ Sized s)
    ⟨(Reachable.start c).alive, fun f info hf => ?_, fun p function hp => ?_, Config.start_fits hc⟩
    (fun s e he s' hs hstep => ⟨hs.1.step hstep, hs.2.step (hes e he) hs.1 hstep⟩) h
  · exact hinv.2
  · rw [show c.start.functionMap = ∅ from rfl, Std.ExtTreeMap.getElem?_empty] at hf
    cases hf
  · cases hp

/-- A class has the name that it was loaded with last. -/
theorem run_classes (h : run step c.start es = .ok s) (hes : ∀ e ∈ es, e.Bounded) (d : ClassID) :
    (s.classes.getD d "").length < 256 := by
  rw [(run_typed h).names]
  cases hlast : lastName es d with
  | none => decide
  | some name =>
    obtain ⟨⟨d', name'⟩, hmem, rfl⟩ := Option.map_eq_some_iff.1 hlast
    obtain ⟨e, he, hloads⟩ := List.mem_filterMap.1 (List.mem_filter.1 (List.mem_of_getLast? hmem)).1
    unfold Callback.loads at hloads
    split at hloads
    · split at hloads
      · obtain ⟨-, rfl⟩ := Prod.mk.inj (Option.some.inj hloads)
        exact length_getTypeName (hes _ he).names
      · cases hloads
    · cases hloads

/-- Every call has its times, and so has what is written of it. -/
def KeepsBounded (h : Heap FunctionClass) (events : List FunctionEvent) (h' : Heap FunctionClass) : Prop :=
  (∀ p function, h.get? p = some function → function.entered.Bounded ∧ function.left.Bounded) →
    (∀ p function, h'.get? p = some function → function.entered.Bounded ∧ function.left.Bounded) ∧
      ∀ r ∈ writtenRecords events, r.entered.Bounded ∧ r.left.Bounded

theorem KeepsBounded.set {h : Heap FunctionClass} {p : Ptr} {f f' : FunctionClass} (hp : deref h p = .ok f)
    (hf : f.entered.Bounded ∧ f.left.Bounded → f'.entered.Bounded ∧ f'.left.Bounded) : KeepsBounded h [] (h.set p f') := by
  intro hb
  refine ⟨fun q function hq => ?_, fun r hr => absurd hr List.not_mem_nil⟩
  rw [Heap.get?_set (deref_ok.1 hp)] at hq
  split at hq
  · rw [← Option.some.inj hq]
    exact hf (hb p f (deref_ok.1 hp))
  · exact hb q function hq

theorem respected_keepsBounded (hnow : now.Bounded) : Respected now KeepsBounded where
  refl h hb := ⟨hb, fun r hr => absurd hr List.not_mem_nil⟩
  trans h₁ h₂ hb := by
    obtain ⟨hb₁, hw₁⟩ := h₁ hb
    obtain ⟨hb₂, hw₂⟩ := h₂ hb₁
    refine ⟨hb₂, fun r hr => ?_⟩
    rw [writtenRecords_append, List.mem_append] at hr
    exact hr.elim (hw₁ r) (hw₂ r)
  repair hp := by
    refine KeepsBounded.set hp fun hf => ?_
    unfold FunctionClass.repair
    split
    · exact ⟨hf.1, hnow⟩
    · exact hf
  written rFn hp hb := by
    refine ⟨hb, fun r hr => ?_⟩
    obtain rfl := List.mem_singleton.1 hr
    exact hb _ _ (deref_ok.1 hp)
  clear hp := KeepsBounded.set hp fun hf => hf
  deleted hp hb := by
    refine ⟨fun q function hq => ?_, fun r hr => absurd hr List.not_mem_nil⟩
    rw [Heap.get?_free] at hq
    split at hq
    · cases hq
    · exact hb q function hq

end run

/-- In every run each message fits into the buffer that it is printed to, with its terminator: those of the
callbacks, of `Initialize` and of `Shutdown`. -/
theorem run_fits {c : Config} {es : List Callback} {s : CoreProfiler} (h : run step c.start es = .ok s)
    (hc : c.now.Bounded) (hes : ∀ e ∈ es, e.Bounded) (os : Process) {now : Clock} (hnow : now.Bounded) :
    ∃ s', shutdown os now s = .ok s' ∧ ∀ m ∈ s'.log, Fits m := by
  have hr : Reachable s := ⟨c, es, h⟩
  have hsized := run_sized h hc hes
  obtain ⟨⟨events, functions, hf⟩, -⟩ := hr.sections now
  obtain ⟨records, objects, ho, hrecords⟩ := run_records h
  obtain ⟨s', hs', hlog⟩ := shutdown_log os hf ho
  have hwritten := ((respected_keepsBounded hnow).functionsSection hf hsized.calls).2
  refine ⟨s', hs', fun m hm => ?_⟩
  rw [hlog, List.mem_append, List.mem_append, List.mem_singleton] at hm
  rcases hm with (hm | hm) | rfl
  · exact hsized.log m hm
  · refine shutdownSections_fits (fun r hr => ?_) (fun r hr => ?_) (fun info hi => ?_) m hm
    · exact FunctionRecord.fits (hwritten r hr).1 (hwritten r hr).2
    · obtain ⟨es₁, o, d, z, t, clock, es₂, s₁, n, rfl, h₁, rfl⟩ := hrecords r hr
      have hclock := (hes (.objectAllocated o d (some z) t clock) (by simp)).clock clock rfl
      exact ObjectRecord.fits hclock (run_classes h₁ (fun e he => hes e (by simp [he])) d)
    · obtain ⟨f, hinfo⟩ := CoreProfiler.mem_names.1 hi
      exact FunctionInfo.fits (hsized.names f info hinfo)
  · exact shutdownMessage_fits hnow

/-- A class is loaded, and an object of it is allocated in a call that is never left. -/
def allocateInside : List Callback :=
  [.trace 7, .loadShop, .enterStub 7 1 ⟨1, 1⟩, .objectAllocated 100 5 (some 24) 1 ⟨2, 2⟩]

theorem run_fits_allocateInside :
    ∃ s, run step Config.plain.start allocateInside = .ok s ∧ ∃ s', shutdown ⟨1, 1⟩ ⟨9, 9⟩ s = .ok s' ∧
      ∀ m ∈ s'.log, Fits m := by
  obtain ⟨s, hs⟩ : ∃ s, run step Config.plain.start allocateInside = .ok s := ⟨_, rfl⟩
  have hone : Clock.Bounded ⟨1, 1⟩ := ⟨by decide, by decide⟩
  have htwo : Clock.Bounded ⟨2, 2⟩ := ⟨by decide, by decide⟩
  have hnine : Clock.Bounded ⟨9, 9⟩ := ⟨by decide, by decide⟩
  refine ⟨s, hs, run_fits hs Clock.bounded_zero ?_ ⟨1, 1⟩ hnine⟩
  intro e he
  simp only [allocateInside, List.mem_cons, List.not_mem_nil, or_false] at he
  rcases he with rfl | rfl | rfl | rfl
  · exact ⟨nofun, by decide⟩
  · exact ⟨nofun, by decide⟩
  · exact ⟨fun now hnow => Option.some.inj hnow ▸ hone, nofun⟩
  · exact ⟨fun now hnow => Option.some.inj hnow ▸ htwo, nofun⟩

end Perun
