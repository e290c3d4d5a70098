import PerunProfiler.StartProgram

/-!
# The modes

`Initialize` reads `PROFILER_MODE` and sets an event mask, which decides the callbacks that the runtime
makes. A profile is loaded by the visualization program in mode 0, 1 or 2 only if it was collected in
mode 0 or in the same mode; apart from that it has to have the calls and the objects that are read.
-/

namespace Perun
open Lib

/-! ### The event mask -/

/-- The flags of `corprof.idl` that `Initialize` names. -/
inductive CorPrf where
  | monitorClassLoads
  | monitorModuleLoads
  | monitorAssemblyLoads
  | monitorExceptions
  | monitorGc
  | monitorObjectAllocated
  | monitorThreads
  | monitorEnterleave
  | enableObjectAllocated
  | enableFunctionArgs
  | enableFunctionRetval
  | enableFrameInfo
deriving DecidableEq

namespace CorPrf

def value : CorPrf → BitVec 32
  | monitorClassLoads => 0x00000002
  | monitorModuleLoads => 0x00000004
  | monitorAssemblyLoads => 0x00000008
  | monitorExceptions => 0x00000040
  | monitorGc => 0x00000080
  | monitorObjectAllocated => 0x00000100
  | monitorThreads => 0x00000200
  | monitorEnterleave => 0x00001000
  | enableObjectAllocated => 0x00800000
  | enableFunctionArgs => 0x02000000
  | enableFunctionRetval => 0x04000000
  | enableFrameInfo => 0x08000000

def mask (flags : List CorPrf) : BitVec 32 := flags.foldr (fun flag mask => flag.value ||| mask) 0#32

theorem mask_cons (flag : CorPrf) (flags : List CorPrf) : mask (flag :: flags) = flag.value ||| mask flags := rfl

theorem value_and (a b : CorPrf) : a.value &&& b.value = 0#32 ↔ a ≠ b := by
  cases a <;> cases b <;> decide

/-- Every flag is a bit of its own. -/
theorem mask_and {flags : List CorPrf} {flag : CorPrf} : mask flags &&& flag.value ≠ 0#32 ↔ flag ∈ flags := by
  rw [← not_iff_not, not_not]
  induction flags with
  | nil => exact iff_of_true BitVec.zero_and List.not_mem_nil
  | cons a flags ih =>
    rw [mask_cons, BitVec.and_or_distrib_right, BitVec.or_eq_zero_iff, ih, value_and, List.mem_cons, not_or]
    exact and_congr_left fun _ => ne_comm

end CorPrf

/-- The flags of a mode; in another mode the mask is not set. -/
def modeFlags (mode : Int) : List CorPrf :=
  if mode = 0 then
    [.monitorModuleLoads, .monitorAssemblyLoads, .monitorClassLoads, .monitorGc, .monitorThreads,
      .monitorObjectAllocated, .enableObjectAllocated, .monitorEnterleave, .monitorExceptions, .enableFrameInfo]
  else if mode = 1 then
    [.monitorThreads, .monitorEnterleave, .enableFunctionArgs, .enableFunctionRetval, .monitorExceptions, .enableFrameInfo]
  else if mode = 2 then
    [.monitorModuleLoads, .monitorAssemblyLoads, .monitorClassLoads, .monitorGc, .monitorThreads,
      .monitorObjectAllocated, .enableObjectAllocated]
  else []

/-- What `stoi` throws. -/
inductive StoiError where
  | invalidArgument
  | outOfRange
deriving DecidableEq

/-- The blank, and the control characters from the tabulator to the carriage return. -/
def isSpace (c : Char) : Bool := c.toNat = 32 ∨ (9 ≤ c.toNat ∧ c.toNat ≤ 13)

/-- The number that the digits at the front stand for. -/
def stoiDigits (negative : Bool) (text : List Char) : Except StoiError Int :=
  let digits := text.takeWhile Char.isDigit
  if digits = [] then .error .invalidArgument
  else
    let n : Int := if negative then -(Nat.ofDigitChars 10 digits 0 : Int) else Nat.ofDigitChars 10 digits 0
    if -2 ^ 31 ≤ n ∧ n < 2 ^ 31 then .ok n else .error .outOfRange

/-- `stoi`: blanks, a sign, and digits up to the first other character. -/
def stoi (str : String) : Except StoiError Int :=
  match str.toList.dropWhile isSpace with
  | '-' :: text => stoiDigits true text
  | '+' :: text => stoiDigits false text
  | text => stoiDigits false text

section stoi
variable {n : Int}

theorem stoiDigits_toDigits (negative : Bool) {m : Nat} (hn : n = if negative then -(m : Int) else m)
    (h : -2 ^ 31 ≤ n ∧ n < 2 ^ 31) : stoiDigits negative (Nat.toDigits 10 m) = .ok n := by
  have hdigits : (Nat.toDigits 10 m).takeWhile Char.isDigit = Nat.toDigits 10 m :=
    List.takeWhile_eq_self_iff.2 fun c hc => Nat.isDigit_of_mem_toDigits (by decide) (by decide) hc
  rw [stoiDigits, hdigits, if_neg Nat.toDigits_ne_nil, Nat.ofDigitChars_ten_toDigits, ← hn, if_pos h]

theorem isSpace_of_isDigit {c : Char} (h : c.isDigit = true) : isSpace c = false := by
  obtain ⟨hlow, -⟩ : 48 ≤ c.toNat ∧ c.toNat ≤ 57 := Char.isDigit_iff_toNat.1 h
  exact decide_eq_false (by omega)

/-- What is printed of an `int` is read back. -/
theorem stoi_toString (h : -2 ^ 31 ≤ n ∧ n < 2 ^ 31) : stoi (toString n) = .ok n := by
  cases n with
  | ofNat m =>
    have hlist : (toString (Int.ofNat m)).toList = Nat.toDigits 10 m := Nat.toList_repr
    have hread := stoiDigits_toDigits false rfl h
    obtain ⟨c, cs, hcs⟩ := List.exists_cons_of_ne_nil (l := Nat.toDigits 10 m) Nat.toDigits_ne_nil
    have hc : c.isDigit = true :=
      Nat.isDigit_of_mem_toDigits (by decide) (by decide) (hcs ▸ List.mem_cons_self : c ∈ Nat.toDigits 10 m)
    rw [hcs] at hlist hread
    rw [stoi, hlist, List.dropWhile_cons_of_neg (by rw [isSpace_of_isDigit hc]; nofun)]
    split
    · next heq =>
      obtain ⟨rfl, -⟩ := List.cons.inj heq
      exact absurd hc (by decide)
    · next heq =>
      obtain ⟨rfl, -⟩ := List.cons.inj heq
      exact absurd hc (by decide)
    · exact hread
  | negSucc m =>
    have hlist : (toString (Int.negSucc m)).toList = '-' :: Nat.toDigits 10 (m + 1) := by
      rw [show toString (Int.negSucc m) = "-" ++ (m + 1).repr from rfl, String.toList_append, Nat.toList_repr]
      rfl
    rw [stoi, hlist]
    exact stoiDigits_toDigits true rfl h

end stoi

/-- `Initialize`, given the value of `PROFILER_MODE`: the state, and the mask unless `stoi` throws. -/
def initializeMode (profilerMode : String) (os : Process) (now : Clock) (s : CoreProfiler) :
    CoreProfiler × Except StoiError (BitVec 32) :=
  (initializeProfiler os now s, do
    let modeStr ← stoi profilerMode
    return CorPrf.mask (modeFlags modeStr))

/-! ### The callbacks of a mode -/

/-- The flags that control a callback, as `corprof.idl` says. `Mapper2` is called under any of them. -/
def Callback.control : Callback → List CorPrf
  | .mapper2 .. => []
  | .classLoadFinished .. => [.monitorClassLoads]
  | .enterStub .. | .leaveStub .. | .tailcallStub .. => [.monitorEnterleave]
  | .exceptionUnwindFunctionEnter .. | .exceptionUnwindFunctionLeave .. => [.monitorExceptions]
  | .objectAllocated .. => [.monitorObjectAllocated, .enableObjectAllocated]
  | .movedReferences .. | .survivingReferences .. => [.monitorGc]
  | .garbageCollectionStarted .. | .garbageCollectionFinished .. => [.monitorGc]

/-- The runtime makes the callback under the mask. -/
def Callback.Delivered (mask : BitVec 32) (e : Callback) : Prop := ∀ flag ∈ e.control, mask &&& flag.value ≠ 0#32

section delivered
variable {mode : Int} {e : Callback} {es : List Callback} {f : FunctionID} {t : ThreadID} {now : Clock}

theorem Callback.delivered_iff : e.Delivered (CorPrf.mask (modeFlags mode)) ↔ ∀ flag ∈ e.control, flag ∈ modeFlags mode :=
  forall₂_congr fun _ _ => CorPrf.mask_and

theorem mem_modeFlags_calls {flag : CorPrf} (hflag : flag = .monitorEnterleave ∨ flag = .monitorExceptions)
    (h : flag ∈ modeFlags mode) : mode = 0 ∨ mode = 1 := by
  by_contra hne
  obtain ⟨h0, h1⟩ := not_or.1 hne
  rw [modeFlags, if_neg h0, if_neg h1] at h
  split at h
  · rcases hflag with rfl | rfl <;> revert h <;> decide
  · cases h

theorem mem_modeFlags_objects (h : .monitorObjectAllocated ∈ modeFlags mode) : mode = 0 ∨ mode = 2 := by
  by_contra hne
  obtain ⟨h0, h2⟩ := not_or.1 hne
  rw [modeFlags, if_neg h0, if_neg h2] at h
  split at h
  · revert h
    decide
  · cases h

/-- A call is entered in the modes 0 and 1 only. -/
theorem delivered_enter (h : e.Delivered (CorPrf.mask (modeFlags mode))) (hm : e.move = some (.enter f t now)) :
    mode = 0 ∨ mode = 1 := by
  rw [Callback.delivered_iff] at h
  cases e with
  | enterStub => exact mem_modeFlags_calls (.inl rfl) (h _ List.mem_cons_self)
  | exceptionUnwindFunctionEnter => exact mem_modeFlags_calls (.inr rfl) (h _ List.mem_cons_self)
  | leaveStub f t now | tailcallStub f t now =>
    simp only [Callback.move] at hm
    split at hm <;> cases hm
  | _ => cases hm

/-- An object is allocated in the modes 0 and 2 only. -/
theorem delivered_objectAllocated {o : Nat} {c : ClassID} {size : Option Nat}
    (h : (Callback.objectAllocated o c size t now).Delivered (CorPrf.mask (modeFlags mode))) : mode = 0 ∨ mode = 2 :=
  mem_modeFlags_objects (Callback.delivered_iff.1 h _ List.mem_cons_self)

theorem recordedEnters_eq_nil (h : ∀ e ∈ es, e.Delivered (CorPrf.mask (modeFlags mode))) (h0 : mode ≠ 0) (h1 : mode ≠ 1)
    (t : ThreadID) (s : CoreProfiler) : recordedEnters t s es = [] := by
  have hnone : ∀ e ∈ es, ∀ s : CoreProfiler, e.enters t s = none := by
    intro e he s
    unfold Callback.enters
    rcases hm : e.move with - | ⟨f, u, now⟩ | ⟨u, now⟩
    · rfl
    · exact absurd (delivered_enter (h e he) hm) (not_or.2 ⟨h0, h1⟩)
    · rfl
  exact outputs_eq_nil hnone

end delivered

/-! ### The profile of a mode -/

section run
variable {c : Config} {es : List Callback} {s : CoreProfiler} {now : Clock} {events : List FunctionEvent}
  {functions : Heap FunctionClass} {mode : Int}

/-- The calls that are written of a thread are those that it has entered. -/
theorem run_written_calls (h : run step c.start es = .ok s)
    (hf : functionsSection s.functions.size now s = .ok (events, functions)) (t : ThreadID) :
    ((writtenRecords events).filter (·.TID = t)).map FunctionRecord.call = recordedEnters t c.start es := by
  obtain ⟨κ, hκ, hcalls⟩ := run_recordedEnters h
  obtain ⟨events', functions', hf', -, hfilter⟩ := hκ.written now (Nat.le_refl _)
  obtain ⟨rfl, -⟩ := Prod.mk.inj (Except.ok.inj (hf.symm.trans hf'))
  rw [hfilter, call_finished, hcalls]

theorem run_written_eq_nil (h : run step c.start es = .ok s)
    (hf : functionsSection s.functions.size now s = .ok (events, functions))
    (hmask : ∀ e ∈ es, e.Delivered (CorPrf.mask (modeFlags mode))) (h0 : mode ≠ 0) (h1 : mode ≠ 1) :
    writtenRecords events = [] := by
  refine List.eq_nil_iff_forall_not_mem.2 fun r hr => ?_
  have hcalls := run_written_calls h hf r.TID
  rw [recordedEnters_eq_nil hmask h0 h1, List.map_eq_nil_iff] at hcalls
  have hmem : r ∈ (writtenRecords events).filter (·.TID = r.TID) := List.mem_filter.2 ⟨hr, decide_eq_true rfl⟩
  rw [hcalls] at hmem
  cases hmem

end run

/-- The value of `PROFILER_MODE` that collects what the mode reads and nothing else. -/
def Mode.number : Mode → Int
  | .both => 0
  | .functions => 1
  | .objects => 2

/-- What is collected in a mode of the profiler, and in which modes the visualization program loads it. -/
theorem run_mode {Fl : Type} [DecidableEq Fl] {Q : FunctionPandas Fl} {pointer : Nat → String} {float : Time → String}
    (hP : Q.toPandas.Loads float) (hQ : Q.toObjectPandas.Documented) (hprint : Prints pointer float)
    (hp : Function.Injective pointer) (hne : ∀ a, pointer a ≠ "")
    {profilerMode : String} {mask : BitVec 32} {c : Config} {s₀ s : CoreProfiler} {es : List Callback}
    (hinit : initializeMode profilerMode c.os c.now (construct c.enableAssemblies c.enableDealloc) = (s₀, .ok mask))
    (hmask : ∀ e ∈ es, e.Delivered mask) (h : run step s₀ es = .ok s) (hi : s.IntMembers) (hn : s.PlainNames)
    (os : Process) (now : Clock) :
    ∃ mode events functions records objects s' data, stoi profilerMode = .ok mode ∧
      functionsSection s.functions.size now s = .ok (events, functions) ∧ objectsSection s = .ok (records, objects) ∧
      shutdown os now s = .ok s' ∧
      (∀ e : Encoding, loadJson e (fileBytes pointer float s'.log.flatten) = some data) ∧
      (mode = 2 → ∀ r ∈ records, r.fnc = -1) ∧ ∀ (visualized : Mode) (thread : Option String),
        (∃ loaded, loadFrames Q visualized thread data = .ok loaded) ↔
          (mode = 0 ∨ mode = visualized.number) ∧ (visualized ≠ .objects → writtenRecords events ≠ []) ∧
            (visualized ≠ .functions → records ≠ []) := by
  obtain ⟨rfl, hread⟩ := Prod.mk.inj hinit
  obtain ⟨mode, hmode, rfl⟩ : ∃ mode, stoi profilerMode = .ok mode ∧ CorPrf.mask (modeFlags mode) = mask := by
    cases hmode : stoi profilerMode with
    | error e =>
      rw [hmode] at hread
      cases hread
    | ok mode =>
      rw [hmode] at hread
      exact ⟨mode, rfl, Except.ok.inj hread⟩
  have hr : Reachable s := ⟨c, es, h⟩
  obtain ⟨events, functions, records, objects, s', hf, ho, hok, hload⟩ := shutdown_loaded hprint h hn os now
  have hcalls : writtenRecords events ≠ [] → mode = 0 ∨ mode = 1 := by
    intro hW
    by_contra hne
    obtain ⟨h0, h1⟩ := not_or.1 hne
    exact hW (run_written_eq_nil h hf hmask h0 h1)
  obtain ⟨events', functions', records', objects', hf', ho', hreferences⟩ := run_references h now
  obtain ⟨rfl, rfl⟩ := Prod.mk.inj (Except.ok.inj (ho.symm.trans ho'))
  have hobjects : records ≠ [] → mode = 0 ∨ mode = 2 := by
    intro hO
    obtain ⟨r, hr⟩ := List.exists_mem_of_ne_nil records hO
    obtain ⟨es₁, o, d, es₂, rfl, -⟩ := hreferences r hr
    exact delivered_objectAllocated (hmask _ (List.mem_append_right _ List.mem_cons_self))
  refine ⟨mode, events, functions, records, objects, s', _, hmode, hf, ho, hok, hload, ?_, fun visualized thread => ?_⟩
  · rintro rfl r hr
    obtain ⟨es₁, o, d, es₂, rfl, hnum, -⟩ := hreferences r hr
    rw [hnum, recordedEnters_eq_nil (fun e he => hmask e (List.mem_append_left _ he)) (by decide) (by decide)]
    rfl
  · rw [loadFrames_iff hP.toReads hQ hp (hr.written_gc hi ho) (item_document rfl) (item_document rfl) fun hW =>
      hr.makeFunctionDf hP hp hne hi hf hW]
    refine (and_iff_right_of_imp ?_).symm
    rintro ⟨hW, hO⟩
    cases visualized with
    | both =>
      have hboth := hcalls (hW nofun)
      have hobj := hobjects (hO nofun)
      omega
    | functions => exact hcalls (hW nofun)
    | objects => exact hobjects (hO nofun)

theorem run_mode_functions :
    ∃ s, run step Config.plain.start [.trace 7, .enterStub 7 1 ⟨1, 1⟩] = .ok s ∧ ∃ s' data,
      shutdown ⟨1, 1⟩ ⟨9, 9⟩ s = .ok s' ∧
      loadJson .utf8 (fileBytes (fun a => "0x" ++ a.repr) seconds s'.log.flatten) = some data ∧
      (∃ loaded, loadFrames functionTables .functions none data = .ok loaded) ∧
      ¬ ∃ loaded, loadFrames functionTables .both none data = .ok loaded := by
  have hmask : ∀ e ∈ [Callback.trace 7, .enterStub 7 1 ⟨1, 1⟩], e.Delivered (CorPrf.mask (modeFlags 1)) := by
    intro e he
    rw [Callback.delivered_iff]
    revert e
    decide
  obtain ⟨s, hs⟩ : ∃ s, run step Config.plain.start [.trace 7, .enterStub 7 1 ⟨1, 1⟩] = .ok s := ⟨_, rfl⟩
  have hinit : initializeMode "1" Config.plain.os Config.plain.now (construct "" "") =
      (Config.plain.start, .ok (CorPrf.mask (modeFlags 1))) := rfl
  obtain ⟨mode, events, functions, records, objects, s', data, hmode, hf, ho, hok, hload, -, hall⟩ := run_mode
    (Q := functionTables) (c := Config.plain) tables_documented.toLoads objectTables_documented prints_printed
    printed_injective printed_ne hinit hmask hs (run_intMembers hs (by decide))
    (by obtain rfl : _ = s := Except.ok.inj hs; decide) ⟨1, 1⟩ ⟨9, 9⟩
  obtain rfl : mode = 1 := Except.ok.inj (hmode.symm.trans (stoi_toString (n := 1) (by decide)))
  refine ⟨s, hs, s', data, hok, hload .utf8, (hall .functions none).2 ⟨.inr rfl, fun _ => ?_, fun hm => absurd rfl hm⟩,
    fun hboth => ?_⟩
  · obtain rfl : _ = s := Except.ok.inj hs
    obtain ⟨rfl, -⟩ : _ = events ∧ _ = functions := Prod.mk.inj (Except.ok.inj hf)
    decide
  · obtain ⟨hwrong, -⟩ := (hall .both none).1 hboth
    revert hwrong
    decide

end Perun
