import Mathlib.Data.List.Chain
import PerunProfiler.Forest
import PerunProfiler.Messages

/-!
# The profile document

`run_log` follows the log up to `Shutdown`, `shutdown_ok` what `Shutdown` adds. The text is one object
with a member for `Initialize`, for every callback about a collection, for the three sections and for
`Shutdown`.
-/

namespace Perun
open Lib
open Json (listed listed_append)

/-! ### The log up to `Shutdown` -/

/-- What a callback writes in the state before it. -/
def Callback.gcEvent (s : CoreProfiler) : Callback → Option GcEvent
  | .garbageCollectionStarted g t now => some (.started (s.gcNumber + 1) t g now)
  | .garbageCollectionFinished t now => some (.finished s.gcNumber t now)
  | _ => none

def gcEvents (s : CoreProfiler) (es : List Callback) : List GcEvent := outputs step (fun s e => e.gcEvent s) s es

/-- Whether a callback starts or finishes a collection. -/
def Callback.starts : Callback → Option Bool
  | .garbageCollectionStarted .. => some true
  | .garbageCollectionFinished .. => some false
  | _ => none

section run
variable {s s' : CoreProfiler} {e : Callback} {es : List Callback}

/-- A callback writes its collection event; the start of a collection counts. -/
theorem step_gc (h : step s e = .ok s') : s'.log = s.log ++ (e.gcEvent s).toList.map GcEvent.message ∧
    s'.gcNumber = s.gcNumber + if e.starts = some true then 1 else 0 := by
  by_cases hc : e.isCall = true
  · have hlog : s'.log = s.log := (congrArg CoreProfiler.log (step_besides hc h) :)
    have hgc : s'.gcNumber = s.gcNumber := (congrArg CoreProfiler.gcNumber (step_besides hc h) :)
    have hnone : e.gcEvent s = none ∧ e.starts = none := by
      cases e <;> first | exact ⟨rfl, rfl⟩ | cases hc
    rw [hlog, hgc, hnone.1, hnone.2]
    exact ⟨(List.append_nil _).symm, rfl⟩
  cases e with
  | mapper2 f m => rcases mapper2_cases h with rfl | rfl <;> exact ⟨(List.append_nil _).symm, rfl⟩
  | classLoadFinished c i p =>
    rcases classLoadFinished_cases h with rfl | rfl <;> exact ⟨(List.append_nil _).symm, rfl⟩
  | objectAllocated o c z t now =>
    rcases objectAllocated_cases h with ⟨-, rfl⟩ | ⟨z, -, rfl⟩ <;> exact ⟨(List.append_nil _).symm, rfl⟩
  | movedReferences r =>
    rcases movedReferences_cases h with ⟨-, rfl⟩ | ⟨-, _, _, _, -, -, rfl⟩ <;> exact ⟨(List.append_nil _).symm, rfl⟩
  | survivingReferences r =>
    rcases survivingReferences_cases h with ⟨-, rfl⟩ | ⟨-, _, -, rfl⟩ <;> exact ⟨(List.append_nil _).symm, rfl⟩
  | garbageCollectionStarted g t now => rw [garbageCollectionStarted_cases h]; exact ⟨rfl, rfl⟩
  | garbageCollectionFinished t now =>
    rcases garbageCollectionFinished_cases h with ⟨-, rfl⟩ | ⟨-, _, _, -, rfl⟩ <;> exact ⟨rfl, rfl⟩
  | _ => exact absurd rfl hc

theorem run_log {c : Config} (h : run step c.start es = .ok s) :
    s.log = c.start.log ++ (gcEvents c.start es).map GcEvent.message := by
  have hinv := run_inv_outputs (fun s e => e.gcEvent s)
    (P := fun gcs s => s.log = c.start.log ++ gcs.map GcEvent.message) (List.append_nil _).symm
    (fun gcs s e s' hlog hs => ?_) h
  · exact hinv
  · rw [(step_gc hs).1, hlog, List.map_append, List.append_assoc]

theorem run_text {c : Config} (h : run step c.start es = .ok s) : s.log.flatten =
    .lbrace :: listed (initializeMember c.os c.now :: (gcEvents c.start es).map GcEvent.member) := by
  have hstart : c.start.log.flatten = .lbrace :: listed [initializeMember c.os c.now] := by rfl
  have hmessages : ((gcEvents c.start es).map GcEvent.message).flatten =
      listed ((gcEvents c.start es).map GcEvent.member) := by
    rw [listed, List.flatMap_map, List.flatMap_def]
    exact congrArg List.flatten (List.map_congr_left fun g _ => g.message_eq)
  rw [run_log h, List.flatten_append, hstart, hmessages, List.cons_append, ← listed_append]
  rfl

theorem Callback.gcEvent_stage (s : CoreProfiler) (e : Callback) : (e.gcEvent s).map GcEvent.stage =
    e.starts.map fun b => (b, if b then s.gcNumber + 1 else s.gcNumber) := by
  cases e <;> rfl

/-- When collections start and finish alternately, no event is written twice. -/
theorem gcEvents_nodup {collecting : Bool} (h : run step s es = .ok s')
    (ha : (collecting :: es.filterMap Callback.starts).IsChain (· ≠ ·)) :
    ((gcEvents s es).map GcEvent.stage).Nodup ∧
      ∀ g ∈ gcEvents s es, s.gcNumber ≤ g.stage.2 ∧
        (g.stage.2 = s.gcNumber → collecting = true ∧ g.stage.1 = false) := by
  induction es generalizing s collecting with
  | nil => simp [gcEvents, outputs]
  | cons e es ih =>
    obtain ⟨s₁, h₁, h₂⟩ := run_cons.1 h
    have hgc := (step_gc h₁).2
    have hcons : gcEvents s (e :: es) = (e.gcEvent s).toList ++ gcEvents s₁ es := outputs_cons h₁
    rw [hcons]
    cases hst : e.starts with
    | none =>
      have hnone : e.gcEvent s = none := by
        have hmap := e.gcEvent_stage s
        rw [hst] at hmap
        exact Option.map_eq_none_iff.1 hmap
      rw [List.filterMap_cons_none hst] at ha
      rw [hst] at hgc
      rw [hnone, Option.toList_none, List.nil_append]
      simpa [hgc] using ih h₂ ha
    | some b =>
      rw [List.filterMap_cons_some hst, List.isChain_cons_cons] at ha
      obtain ⟨hne, hchain⟩ := ha
      obtain ⟨hnodup, hbound⟩ := ih h₂ hchain
      obtain ⟨g, hg, hstage⟩ : ∃ g, e.gcEvent s = some g ∧
          g.stage = (b, if b then s.gcNumber + 1 else s.gcNumber) := by
        have hmap := e.gcEvent_stage s
        rw [hst] at hmap
        exact Option.map_eq_some_iff.1 hmap
      have hnumber : s₁.gcNumber = g.stage.2 := by
        rw [hgc, hst, hstage]
        cases b <;> rfl
      rw [hg, Option.toList_some, List.singleton_append]
      refine ⟨List.nodup_cons.2 ⟨fun hm => ?_, hnodup⟩, fun g' hg' => ?_⟩
      · -- the same event again would finish a collection that has just finished
        obtain ⟨g', hg', heq⟩ := List.mem_map.1 hm
        obtain ⟨hb, hfinish⟩ := (hbound g' hg').2 (by rw [heq, hnumber])
        rw [heq, hstage] at hfinish
        rw [hb] at hfinish
        cases hfinish
      · rcases List.mem_cons.1 hg' with rfl | hg'
        · rw [hstage]
          cases b with
          | true => exact ⟨Nat.le_succ _, fun h => absurd h (Nat.succ_ne_self _)⟩
          | false => exact ⟨Nat.le_refl _, fun _ => ⟨by simpa using hne, rfl⟩⟩
        · obtain ⟨hle, hlast⟩ := hbound g' hg'
          rw [hnumber, hstage] at hle hlast
          cases b with
          | true =>
            simp only [if_true] at hle
            exact ⟨by omega, fun h => by omega⟩
          | false =>
            simp only at hle hlast
            exact ⟨hle, fun h => absurd (hlast h).1 (by simp)⟩

end run

/-! ### The sections -/

def functionsMember (functions : List FunctionRecord) : Str × Json Str :=
  (lit "functions", .arr (functions.map FunctionRecord.json ++ [.obj []]))

def objectsMember (objects : List ObjectRecord) : Str × Json Str :=
  (lit "Objects", .arr (objects.map ObjectRecord.json ++ [.obj []]))

def namesMember (names : List FunctionInfo) : Str × Json Str :=
  (lit "functionNames", .obj (names.map FunctionInfo.member ++ [field "" []]))

def sectionHead (key : String) (bracket : Tok Str) : Message := [.str (lit key), .colon, bracket]

def arrayFoot : Message := [.lbrace, .rbrace, .rbrack, .comma]

def namesFoot : Message := [.str [], .colon, .str [], .rbrace, .comma]

section sections
variable (functions : List FunctionRecord) (objects : List ObjectRecord) (names : List FunctionInfo)

theorem shutdownSections_eq : shutdownSections functions objects names =
    [sectionHead "functions" .lbrack :: (functions.map FunctionRecord.message ++ [arrayFoot]),
      sectionHead "Objects" .lbrack :: (objects.map ObjectRecord.message ++ [arrayFoot]),
      sectionHead "functionNames" .lbrace :: (names.map FunctionInfo.message ++ [namesFoot])] := by
  rfl

theorem array_text (key : String) (xs : List (Json Str)) (ms : List Message)
    (hms : ms = xs.map fun x => x.toks ++ [.comma]) :
    (sectionHead key .lbrack :: (ms ++ [arrayFoot])).flatten =
      Json.member (lit key, .arr (xs ++ [.obj []])) ++ [.comma] := by
  rw [Json.member_eq, Json.toks_arr_append, hms, List.flatMap_def]
  simp [Json.toks, sectionHead, arrayFoot]

theorem names_text :
    (sectionHead "functionNames" .lbrace :: (names.map FunctionInfo.message ++ [namesFoot])).flatten =
      Json.member (namesMember names) ++ [.comma] := by
  have hmessages : names.map FunctionInfo.message = names.map fun i => Json.member i.member ++ [.comma] :=
    List.map_congr_left fun i _ => i.message_eq
  rw [Json.member_eq, namesMember, Json.toks_obj_append, listed, List.flatMap_map, List.flatMap_def, hmessages]
  simp [field, Json.member_eq, Json.toks, lit, sectionHead, namesFoot]

theorem sections_text : (shutdownSections functions objects names).map List.flatten =
    [functionsMember functions, objectsMember objects, namesMember names].map fun m =>
      Json.member m ++ [.comma] := by
  have hfunctions := array_text "functions" (functions.map FunctionRecord.json)
    (functions.map FunctionRecord.message) (by simp [FunctionRecord.message_eq])
  have hobjects := array_text "Objects" (objects.map ObjectRecord.json)
    (objects.map ObjectRecord.message) (by simp [ObjectRecord.message_eq])
  simp only [shutdownSections_eq, List.map_cons, List.map_nil, hfunctions, hobjects, names_text]
  rfl

end sections

theorem shutdown_log {s : CoreProfiler} (os : Process) {now : Clock} {events : List FunctionEvent}
    {functions : Heap FunctionClass} {records : List ObjectRecord} {objects : Heap ObjectClass}
    (hf : functionsSection s.functions.size now s = .ok (events, functions))
    (ho : objectsSection s = .ok (records, objects)) :
    ∃ s', shutdown os now s = .ok s' ∧ s'.log = s.log ++ (shutdownSections (writtenRecords events) records
      (s.functionMap.toList.filterMap Prod.snd)).flatten ++ [shutdownMessage os now] := by
  unfold shutdown
  rw [hf]
  simp only [ho]
  exact ⟨_, rfl, rfl⟩

/-- The two sections `Shutdown` computes do not fault, whatever the callbacks did. -/
theorem Reachable.sections {s : CoreProfiler} (h : Reachable s) (now : Clock) :
    (∃ events functions, functionsSection s.functions.size now s = .ok (events, functions)) ∧
      ∃ records objects, objectsSection s = .ok (records, objects) := by
  obtain ⟨σ, hσ⟩ := h.spines
  obtain ⟨functions, hfunctions⟩ := functionsSection_ok now hσ (Nat.le_refl _)
  obtain ⟨objects, hobjects, -⟩ := h.tracked.objectsSection
  exact ⟨⟨_, functions, hfunctions⟩, _, objects, hobjects⟩

/-! ### The keys -/

section expand
variable {pointer : Nat → String} {float : Time → String}

theorem expand_lit (key : String) : expand pointer float (lit key) = key := by
  unfold expand lit
  refine String.toList_injective ?_
  rw [String.toList_join, List.map_map, List.flatMap_map]
  simp

/-- The key of a collection event. -/
def stageKey (stage : Bool × Nat) : String :=
  (if stage.1 then "GCStarted" else "GCFinished") ++ toString (stage.2 : Int)

theorem expand_append (x y : Str) :
    expand pointer float (x ++ y) = expand pointer float x ++ expand pointer float y := by
  unfold expand
  rw [List.map_append, String.join_append]

theorem expand_stage (g : GcEvent) : expand pointer float g.member.1 = stageKey g.stage := by
  cases g with
  | started n t g now => rw [GcEvent.member, expand_append, expand_lit]; rfl
  | finished n t now => rw [GcEvent.member, expand_append, expand_lit]; rfl

theorem toList_stageKey (stage : Bool × Nat) :
    (stageKey stage).toList = 'G' :: 'C' :: ((if stage.1 then "Started".toList else "Finished".toList) ++
      Nat.toDigits 10 stage.2) := by
  have hdigits : (toString (stage.2 : Int)).toList = Nat.toDigits 10 stage.2 := Nat.toList_repr
  unfold stageKey
  rw [String.toList_append, hdigits]
  cases stage.1 <;> rfl

theorem stageKey_injective : Function.Injective stageKey := by
  rintro ⟨b, n⟩ ⟨b', n'⟩ h
  have hlist := congrArg String.toList h
  rw [toList_stageKey, toList_stageKey, List.cons.injEq, List.cons.injEq] at hlist
  have htail := hlist.2.2
  have hb : b = b' := by
    cases b <;> cases b' <;> first | rfl | exact absurd (congrArg List.head? htail) (by simp)
  subst hb
  have hn := congrArg (Nat.ofDigitChars 10 · 0) (List.append_cancel_left htail)
  simp only [Nat.ofDigitChars_ten_toDigits] at hn
  rw [hn]

end expand

def document (c : Config) (gcs : List GcEvent) (functions : List FunctionRecord) (objects : List ObjectRecord)
    (names : List FunctionInfo) (os : Process) (now : Clock) : List (Str × Json Str) :=
  initializeMember c.os c.now :: gcs.map GcEvent.member ++
    [functionsMember functions, objectsMember objects, namesMember names, shutdownMember os now]

section document
variable {c : Config} {gcs : List GcEvent} {functions : List FunctionRecord} {objects : List ObjectRecord}
  {names : List FunctionInfo} {os : Process} {now : Clock}

theorem document_nodup (pointer : Nat → String) (float : Time → String) (h : (gcs.map GcEvent.stage).Nodup) :
    ((document c gcs functions objects names os now).map fun m => expand pointer float m.1).Nodup := by
  have hgcs : (gcs.map GcEvent.member).map (fun m => expand pointer float m.1) =
      (gcs.map GcEvent.stage).map stageKey := by
    rw [List.map_map, List.map_map]
    exact List.map_congr_left fun g _ => expand_stage g
  have hG : ∀ key ∈ (gcs.map GcEvent.stage).map stageKey, key.toList.head? = some 'G' := by
    intro key hkey
    obtain ⟨stage, -, rfl⟩ := List.mem_map.1 hkey
    rw [toList_stageKey]
    rfl
  have hrest : (["functions", "Objects", "functionNames", "ProfilerShutdown"] : List String).Nodup := by decide
  rw [document, List.cons_append, List.map_cons, List.map_append, hgcs]
  simp only [List.map_cons, List.map_nil, initializeMember, functionsMember, objectsMember, namesMember,
    shutdownMember, expand_lit]
  refine List.nodup_cons.2 ⟨fun hm => ?_, List.nodup_append.2 ⟨h.map stageKey_injective, hrest, ?_⟩⟩
  · rcases List.mem_append.1 hm with hm | hm
    · exact absurd (hG _ hm) (by decide)
    · exact absurd hm (by decide)
  · rintro key hkey _ hkey' rfl
    have hne : ∀ key ∈ (["functions", "Objects", "functionNames", "ProfilerShutdown"] : List String),
        key.toList.head? ≠ some 'G' := by decide
    exact hne key hkey' (hG key hkey)

theorem document_text : .lbrace :: listed (initializeMember c.os c.now :: gcs.map GcEvent.member) ++
    ((shutdownSections functions objects names).flatten ++ [shutdownMessage os now]).flatten =
      (Json.obj (document c gcs functions objects names os now)).toks := by
  have hsections : (shutdownSections functions objects names).flatten.flatten =
      listed [functionsMember functions, objectsMember objects, namesMember names] := by
    rw [List.flatten_flatten, sections_text, listed, List.flatMap_def]
  have hdocument : document c gcs functions objects names os now =
      (initializeMember c.os c.now :: gcs.map GcEvent.member ++
        [functionsMember functions, objectsMember objects, namesMember names]) ++ [shutdownMember os now] := by
    simp [document]
  rw [hdocument, Json.toks_obj_append, listed_append, List.flatten_append, hsections, List.flatten_singleton,
    shutdownMessage_eq]
  simp only [List.cons_append, List.append_assoc]

/-- After every run in which collections start and finish alternately, `Shutdown` completes the log to
one object with distinct keys. Its sections are the records written, in order, up to the sentinel. -/
theorem shutdown_document {es : List Callback} {s : CoreProfiler} (h : run step c.start es = .ok s)
    (ha : (false :: es.filterMap Callback.starts).IsChain (· ≠ ·)) (os : Process) (now : Clock)
    (pointer : Nat → String) (float : Time → String) :
    ∃ events functions records objects s',
      functionsSection s.functions.size now s = .ok (events, functions) ∧
      objectsSection s = .ok (records, objects) ∧ shutdown os now s = .ok s' ∧
      ∃ ms, ms = document c (gcEvents c.start es) (writtenRecords events) records
          (s.functionMap.toList.filterMap Prod.snd) os now ∧
        s'.log.flatten = (Json.obj ms).toks ∧ (ms.map fun m => expand pointer float m.1).Nodup := by
  obtain ⟨⟨events, functions, hf⟩, records, objects, ho⟩ := Reachable.sections ⟨c, es, h⟩ now
  obtain ⟨s', hok, hlog⟩ := shutdown_log os hf ho
  refine ⟨events, functions, records, objects, s', hf, ho, hok, _, rfl, ?_, document_nodup pointer float
    (gcEvents_nodup h ha).1⟩
  rw [hlog, List.append_assoc, List.flatten_append, run_text h]
  exact document_text

end document

def allocateAndCollect : List Callback :=
  [.trace 7, .enterStub 7 1 ⟨1, 1⟩, .objectAllocated 100 5 (some 24) 1 ⟨2, 2⟩,
    .garbageCollectionStarted ⟨true, false, false⟩ 2 ⟨3, 3⟩, .garbageCollectionFinished 2 ⟨4, 4⟩,
    .leaveStub 7 1 ⟨5, 5⟩]

theorem shutdown_document_collect :
    ∃ s, run step Config.plain.start allocateAndCollect = .ok s ∧
      ∃ events functions records objects s',
        functionsSection s.functions.size ⟨9, 9⟩ s = .ok (events, functions) ∧
        objectsSection s = .ok (records, objects) ∧ shutdown ⟨1, 1⟩ ⟨9, 9⟩ s = .ok s' ∧
        ∃ ms, ms = document .plain (gcEvents Config.plain.start allocateAndCollect) (writtenRecords events) records
            (s.functionMap.toList.filterMap Prod.snd) ⟨1, 1⟩ ⟨9, 9⟩ ∧
          s'.log.flatten = (Json.obj ms).toks ∧
          (ms.map fun m => expand Nat.repr (fun t => Nat.repr t.num.natAbs) m.1).Nodup :=
  ⟨_, rfl, shutdown_document (show run step Config.plain.start allocateAndCollect = .ok _ from rfl) (by decide)
    ⟨1, 1⟩ ⟨9, 9⟩ Nat.repr fun t => Nat.repr t.num.natAbs⟩

end Perun
