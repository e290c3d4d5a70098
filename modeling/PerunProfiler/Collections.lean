import PerunProfiler.Lib.Lists
import PerunProfiler.Reading

/-!
# The table of the collections

`make_gc_df` and `make_profiler_df` of `main.py`: the frames made of what the profiler writes at once,
outside the sections of `Shutdown`. The table has a row for every collection that started, numbered
from 2 on, with the time of the last report that it finished.
-/

namespace Perun
open Lib

/-! ### The frames -/

/-- `s.startswith(start)` -/
def startsWith (s start : String) : Bool := start.toList.isPrefixOf s.toList

/-- `s[n:]` -/
def sliceFrom (s : String) (n : Nat) : String := String.ofList (s.toList.drop n)

/-- `int(s)` of decimal digits, after a minus sign or not. -/
def int (s : String) : Except PyError Int :=
  match s.toInt? with
  | some n => .ok n
  | none => .error .valueError

/-- `data[key][name]` -/
def entry (data : Dict (Json String)) (key name : String) : Except PyError String := do
  match ← item data key with
  | .obj ms => text (← item (Dict.ofMembers ms) name)
  | _ => throw .valueError

/-- A `gc_event`; `none` stands for `None`. -/
structure GcRow where
  GC : Int
  type : String
  TID : String
  Gen0 : String
  Gen1 : String
  Gen2 : String
  eWALLt : String
  eCPUt : String
  lWALLt : Option String
  lCPUt : Option String
deriving DecidableEq

/-- The loop of `make_gc_df`. -/
def gcRowStep (data : Dict (Json String)) (gcEvents : List GcRow) (key : String) : Except PyError (List GcRow) := do
  if startsWith key "GCStarted" then
    let gcNum ← int (sliceFrom key 9)
    let gcEvent : GcRow :=
      { GC := gcNum
        type := "Start"
        TID := ← entry data key "TID"
        Gen0 := ← entry data key "Gen0"
        Gen1 := ← entry data key "Gen1"
        Gen2 := ← entry data key "Gen2"
        eWALLt := ← entry data key "eWALLt"
        eCPUt := ← entry data key "eCPUt"
        lWALLt := none
        lCPUt := none }
    return gcEvents ++ [gcEvent]
  else if startsWith key "GCFinished" then
    let gcNum ← int (sliceFrom key 10)
    match gcEvents.findIdx? fun event => event.GC = gcNum with
    | some i =>
      let lWALLt ← entry data key "lWALLt"
      let lCPUt ← entry data key "lCPUt"
      return gcEvents.modify i fun event => { event with type := "Finish", lWALLt := some lWALLt, lCPUt := some lCPUt }
    | none => return gcEvents
  else return gcEvents

def GcRow.columns : List String := ["GC", "Type", "TID", "Gen0", "Gen1", "Gen2", "eWALLt", "eCPUt", "lWALLt", "lCPUt"]

section frames
variable {Fl : Type} (P : Pandas Fl)

def GcRow.row (r : GcRow) : Row (Cell Fl) := fun c =>
  (Dict.get? [("GC", some (.int r.GC)), ("Type", some (.text r.type)), ("TID", some (.text r.TID)),
    ("Gen0", some (.text r.Gen0)), ("Gen1", some (.text r.Gen1)), ("Gen2", some (.text r.Gen2)),
    ("eWALLt", some (.text r.eWALLt)), ("eCPUt", some (.text r.eCPUt)), ("lWALLt", r.lWALLt.map .text),
    ("lCPUt", r.lCPUt.map .text)] c).join

/-- `pd.DataFrame(gc_events)`: without events there are no columns. -/
def gcFrame (gcEvents : List GcRow) : DataFrame Fl where
  columns := if gcEvents = [] then [] else GcRow.columns
  rows := gcEvents.map GcRow.row

/-- `df['Time [ms]'] / time * 100`, on one value. -/
def inPercent (percent : Fl → Fl) : Option (Cell Fl) → Option (Cell Fl)
  | some (.float x) => some (.float (percent x))
  | _ => none

def gcFile (name : String) : String := "Experiments/tableGC" ++ name ++ ".png"

/-- `make_gc_df`, but for the sum it prints; `percent` divides by the time given and multiplies by 100. -/
def makeGcDf (percent : Fl → Fl) (writes : String → Bool) (name : String) (data : Dict (Json String)) :
    Except PyError (DataFrame Fl) := do
  let gcEvents ← run (gcRowStep data) [] (data.map Prod.fst)
  let df := gcFrame gcEvents
  let df ← astypeFloat P "eWALLt" df
  let df ← astypeFloat P "lWALLt" df
  let df := df.assign "Time [ms]" fun r => millis P (r "lWALLt") (r "eWALLt")
  let df := df.assign "Percent Time" fun r => inPercent percent (r "Time [ms]")
  save writes (gcFile name)
  return df

/-- A `pr_event`. -/
structure ProfilerRow where
  act : String
  PID : String
  TID : String
  eWALLt : String
  eCPUt : String
deriving DecidableEq

/-- The loop of `make_profiler_df`. -/
def profilerRowStep (data : Dict (Json String)) (prEvents : List ProfilerRow) (key : String) :
    Except PyError (List ProfilerRow) := do
  if startsWith key "Profiler" then
    let prEvent : ProfilerRow :=
      { act := ← entry data key "act"
        PID := ← entry data key "PID"
        TID := ← entry data key "TID"
        eWALLt := ← entry data key "eWALLt"
        eCPUt := ← entry data key "eCPUt" }
    return prEvents ++ [prEvent]
  else return prEvents

def ProfilerRow.columns : List String := ["act", "PID", "TID", "eWALLt", "eCPUt"]

def ProfilerRow.row (r : ProfilerRow) : Row (Cell Fl) :=
  Dict.get? [("act", .text r.act), ("PID", .text r.PID), ("TID", .text r.TID), ("eWALLt", .text r.eWALLt),
    ("eCPUt", .text r.eCPUt)]

def makeProfilerDf (data : Dict (Json String)) : Except PyError (DataFrame Fl) := do
  let prEvents ← run (profilerRowStep data) [] (data.map Prod.fst)
  astypeFloat P "eWALLt" ⟨if prEvents = [] then [] else ProfilerRow.columns, prEvents.map ProfilerRow.row⟩

end frames

/-! ### The collections of a run -/

/-- A collection: what its start reports and when it was last said to finish. -/
structure Cycle where
  generationCollected : Generations
  threadId : ThreadID
  started : Clock
  finished : Option Clock
deriving DecidableEq

/-- A finish is about the last collection that started. -/
def Cycle.step (cycles : List Cycle) : Callback → List Cycle
  | .garbageCollectionStarted g t now => cycles ++ [⟨g, t, now, none⟩]
  | .garbageCollectionFinished _ now => cycles.modify (cycles.length - 1) fun c => { c with finished := some now }
  | _ => cycles

def cycles (es : List Callback) : List Cycle := es.foldl Cycle.step []

/-- The row of the collection with a number. -/
def Cycle.gcRow (pointer : Nat → String) (float : Time → String) (n : Nat) (c : Cycle) : GcRow where
  GC := n
  type := if c.finished.isSome then "Finish" else "Start"
  TID := "0" ++ pointer c.threadId
  Gen0 := "0x" ++ yesNo c.generationCollected.gen0
  Gen1 := "0x" ++ yesNo c.generationCollected.gen1
  Gen2 := "0x" ++ yesNo c.generationCollected.gen2
  eWALLt := float c.started.wall
  eCPUt := float c.started.cpu
  lWALLt := c.finished.map fun now => float now.wall
  lCPUt := c.finished.map fun now => float now.cpu

/-! ### The loop -/

section loop
variable {pointer : Nat → String} {float : Time → String} {data : Dict (Json String)} {rows : List GcRow}

theorem startsWith_stageKey (stage : Bool × Nat) :
    startsWith (stageKey stage) "GCStarted" = stage.1 ∧ startsWith (stageKey stage) "GCFinished" = !stage.1 := by
  obtain ⟨b, n⟩ := stage
  rw [startsWith, startsWith, toList_stageKey]
  cases b <;> exact ⟨rfl, rfl⟩

theorem int_toString (n : Nat) : int (toString (n : Int)) = .ok (n : Int) := by
  rw [int, Int.toString_eq_repr, Int.toInt?_repr]

theorem int_stageKey (stage : Bool × Nat) :
    int (sliceFrom (stageKey stage) (if stage.1 then 9 else 10)) = .ok (stage.2 : Int) := by
  have hdrop : sliceFrom (stageKey stage) (if stage.1 then 9 else 10) = toString (stage.2 : Int) := by
    rw [sliceFrom, stageKey, String.toList_append]
    cases stage.1 <;> exact String.ofList_toList
  rw [hdrop, int_toString]

/-- What `json.load` makes of an event. -/
def GcEvent.dict (pointer : Nat → String) (float : Time → String) : GcEvent → Dict String
  | started _ t g now => [("TID", "0" ++ pointer t), ("Gen0", "0x" ++ yesNo g.gen0), ("Gen1", "0x" ++ yesNo g.gen1),
      ("Gen2", "0x" ++ yesNo g.gen2), ("eWALLt", float now.wall), ("eCPUt", float now.cpu)]
  | finished _ t now => [("TID", "0" ++ pointer t), ("lWALLt", float now.wall), ("lCPUt", float now.cpu)]

theorem cStr_yesNo (collected : Bool) : cStr (yesNo collected) = yesNo collected := by
  cases collected <;> rfl

theorem GcEvent.member_map (g : GcEvent) :
    g.member.2.map (expand pointer float) = dictJson (g.dict pointer float) := by
  cases g <;> simp only [member, dict, Json.map_obj, dictJson, field, List.map_cons, List.map_nil, Json.map_str,
    expand_lit, expand_append, expand_arg, cStr_yesNo]

theorem entry_dict {key name value : String} {d : Dict String} (h : data.get? key = some (dictJson d))
    (hd : (d.map Prod.fst).Nodup) (hv : d.get? name = some value) : entry data key name = .ok value := by
  have hkeys : ((Dict.mapValues Json.str d).map Prod.fst).Nodup := by rwa [Dict.keys_mapValues]
  have hget : Dict.get? (Dict.mapValues Json.str d) name = some (.str value) := by
    rw [Dict.get?_mapValues, hv]
    rfl
  have hitem : item data key = .ok (dictJson d) := by rw [item, h]
  rw [entry, hitem]
  show (do text (← item (Dict.ofMembers (Dict.mapValues Json.str d)) name)) = _
  rw [Dict.ofMembers_eq hkeys, item, hget]
  rfl

variable {n : Nat} {t : ThreadID} {g : Generations} {now : Clock}

theorem gcRowStep_started
    (h : data.get? (stageKey (true, n)) = some (dictJson ((GcEvent.started n t g now).dict pointer float))) :
    gcRowStep data rows (stageKey (true, n)) =
      .ok (rows ++ [Cycle.gcRow pointer float n ⟨g, t, now, none⟩]) := by
  have hentry : ∀ name value, ((GcEvent.started n t g now).dict pointer float).get? name = some value →
      entry data (stageKey (true, n)) name = .ok value := fun _ _ hv => entry_dict h (by
    show (["TID", "Gen0", "Gen1", "Gen2", "eWALLt", "eCPUt"] : List String).Nodup
    decide) hv
  have hint : int (sliceFrom (stageKey (true, n)) 9) = .ok (n : Int) := int_stageKey (true, n)
  rw [gcRowStep, if_pos (startsWith_stageKey (true, n)).1, hint, hentry "TID" _ rfl, hentry "Gen0" _ rfl,
    hentry "Gen1" _ rfl, hentry "Gen2" _ rfl, hentry "eWALLt" _ rfl, hentry "eCPUt" _ rfl]
  rfl

theorem gcRowStep_finished
    (h : data.get? (stageKey (false, n)) = some (dictJson ((GcEvent.finished n t now).dict pointer float)))
    (hrows : (rows.map GcRow.GC).Nodup) :
    gcRowStep data rows (stageKey (false, n)) = .ok (rows.map fun r => if r.GC = (n : Int) then
      { r with type := "Finish", lWALLt := some (float now.wall), lCPUt := some (float now.cpu) } else r) := by
  have hentry : ∀ name value, ((GcEvent.finished n t now).dict pointer float).get? name = some value →
      entry data (stageKey (false, n)) name = .ok value := fun _ _ hv => entry_dict h (by
    show (["TID", "lWALLt", "lCPUt"] : List String).Nodup
    decide) hv
  have hint : int (sliceFrom (stageKey (false, n)) 10) = .ok (n : Int) := int_stageKey (false, n)
  have hstarts : ¬ startsWith (stageKey (false, n)) "GCStarted" = true := by
    rw [(startsWith_stageKey (false, n)).1]
    simp
  have hfinished : startsWith (stageKey (false, n)) "GCFinished" = true := (startsWith_stageKey (false, n)).2
  rw [gcRowStep, if_neg hstarts, if_pos hfinished, hint, hentry "lWALLt" _ rfl,
    hentry "lCPUt" _ rfl, ← modify_findIdx? hrows (n : Int)]
  show (match rows.findIdx? fun event => decide (event.GC = (n : Int)) with
    | some i => _
    | none => _) = _
  cases rows.findIdx? fun event => decide (event.GC = (n : Int)) <;> rfl

/-- Every key of `S` is found under its name, a finish is that of its collection and comes after the start. -/
structure Readable (pointer : Nat → String) (float : Time → String) (data : Dict (Json String))
    (cycle : Nat → Cycle) (S : List (Bool × Nat)) : Prop where
  started : ∀ n, (true, n) ∈ S → data.get? (stageKey (true, n)) = some (dictJson
    ((GcEvent.started n (cycle n).threadId (cycle n).generationCollected (cycle n).started).dict pointer float))
  finished : ∀ n, (false, n) ∈ S → ∃ t now,
    data.get? (stageKey (false, n)) = some (dictJson ((GcEvent.finished n t now).dict pointer float)) ∧
      ((true, n) ∈ S → (cycle n).finished = some now)
  nodup : S.Nodup
  order : S.Pairwise fun a b => a.1 = false → b ≠ (true, a.2)

/-- The collections that start. -/
def starts (S : List (Bool × Nat)) : List Nat := S.filterMap fun stage => if stage.1 then some stage.2 else none

/-- The collection as far as `S` tells. -/
def Cycle.seen (S : List (Bool × Nat)) (n : Nat) (c : Cycle) : Cycle :=
  if (false, n) ∈ S then c else { c with finished := none }

theorem mem_starts {S : List (Bool × Nat)} : n ∈ starts S ↔ (true, n) ∈ S := by
  rw [starts, List.mem_filterMap]
  constructor
  · rintro ⟨⟨b, m⟩, hm, h⟩
    cases b with
    | true =>
      cases h
      exact hm
    | false => cases h
  · intro h
    exact ⟨_, h, rfl⟩

variable {cycle : Nat → Cycle} {S : List (Bool × Nat)} {stage : Bool × Nat}

theorem Readable.before (h : Readable pointer float data cycle (S ++ [stage])) :
    Readable pointer float data cycle S := by
  refine ⟨fun n hn => h.started n (by simp [hn]), fun n hn => ?_, (List.nodup_append.1 h.nodup).1,
    (List.pairwise_append.1 h.order).1⟩
  obtain ⟨t, now, hget, hc⟩ := h.finished n (by simp [hn])
  exact ⟨t, now, hget, fun hs => hc (by simp [hs])⟩

theorem nodup_starts (h : S.Nodup) : (starts S).Nodup := by
  refine h.filterMap fun a b c ha hb => ?_
  obtain ⟨_ | _, m⟩ := a <;> obtain ⟨_ | _, m'⟩ := b <;> simp_all

/-- The rows after the keys of `S`. -/
theorem Readable.run (h : Readable pointer float data cycle S) :
    Lib.run (gcRowStep data) [] (S.map stageKey) =
      .ok ((starts S).map fun n => ((cycle n).seen S n).gcRow pointer float n) := by
  induction S using List.reverseRecOn with
  | nil => rfl
  | append_singleton S stage ih =>
    have hlast : stage ∉ S := fun hm => (List.nodup_append.1 h.nodup).2.2 stage hm stage (by simp) rfl
    rw [List.map_append, run_append]
    refine ⟨_, ih h.before, ?_⟩
    rw [List.map_singleton]
    refine run_cons.2 ?_
    obtain ⟨b, n⟩ := stage
    cases b with
    | true =>
      have hfinish : (false, n) ∉ S := fun hm =>
        (List.pairwise_append.1 h.order).2.2 _ hm (true, n) (by simp) rfl rfl
      refine ⟨_, gcRowStep_started (h.started n (by simp)), ?_⟩
      have hseen : ∀ m, (cycle m).seen (S ++ [(true, n)]) m = (cycle m).seen S m := fun m => by simp [Cycle.seen]
      have hnew : (cycle n).seen S n = ⟨(cycle n).generationCollected, (cycle n).threadId, (cycle n).started, none⟩ := by
        rw [Cycle.seen, if_neg hfinish]
      have hstarts : starts (S ++ [(true, n)]) = starts S ++ [n] := by simp [starts]
      simp only [hseen]
      rw [run_nil, hstarts, List.map_append, List.map_singleton, hnew]
    | false =>
      obtain ⟨t, now, hget, hc⟩ := h.finished n (by simp)
      have hnodup : (((starts S).map fun m => ((cycle m).seen S m).gcRow pointer float m).map GcRow.GC).Nodup := by
        rw [List.map_map]
        exact (nodup_starts h.before.nodup).map fun m m' hm => Int.ofNat.inj hm
      refine ⟨_, gcRowStep_finished hget hnodup, ?_⟩
      have hstarts : starts (S ++ [(false, n)]) = starts S := by simp [starts]
      rw [run_nil, hstarts, List.map_map]
      refine congrArg Except.ok (List.map_congr_left fun m hm => ?_)
      by_cases hmn : m = n
      · subst hmn
        have hfin := hc (by rw [List.mem_append]; exact .inl (mem_starts.1 hm))
        simp [Cycle.seen, Cycle.gcRow, hfin, hlast]
      · have hseen : (cycle m).seen (S ++ [(false, n)]) m = (cycle m).seen S m := by simp [Cycle.seen, hmn]
        rw [hseen]
        exact if_neg fun e => hmn (Int.ofNat.inj e)

end loop

/-! ### The numbers of the collections -/

def GcEvent.now : GcEvent → Clock
  | started _ _ _ now => now
  | finished _ _ now => now

/-- The event of a stage that was written last. -/
def lastEvent (gcs : List GcEvent) (stage : Bool × Nat) : Option GcEvent :=
  lastAt (gcs.map fun g => (g.stage, g)) stage

/-- The stages in the order in which they are first written. -/
def stages (gcs : List GcEvent) : List (Bool × Nat) := (gcs.map GcEvent.stage).eraseDups

/-- The events are those of the collections `cs`, which are numbered from 2 on. -/
structure Numbered (gcs : List GcEvent) (cs : List Cycle) (gcNumber : Nat) : Prop where
  number : gcNumber = cs.length + 1
  bound : ∀ g ∈ gcs, g.stage.2 ≤ gcNumber
  starts : Perun.starts (stages gcs) = (List.range cs.length).map (· + 2)
  order : (stages gcs).Pairwise fun a b => a.1 = false → b ≠ (true, a.2)
  started : ∀ i c, cs[i]? = some c → lastEvent gcs (true, i + 2) =
    some (.started (i + 2) c.threadId c.generationCollected c.started)
  finished : ∀ i c, cs[i]? = some c → (lastEvent gcs (false, i + 2)).map GcEvent.now = c.finished

section numbers
variable {gcs : List GcEvent} {cs : List Cycle} {n : Nat} {stage : Bool × Nat} {g : GcEvent}

theorem mem_stages : stage ∈ stages gcs ↔ ∃ g ∈ gcs, g.stage = stage := by
  rw [stages, List.mem_eraseDups, List.mem_map]

theorem stages_snoc : stages (gcs ++ [g]) = if g.stage ∈ gcs.map GcEvent.stage then stages gcs else stages gcs ++ [g.stage] := by
  rw [stages, List.map_append, List.map_singleton, eraseDups_snoc]
  rfl

theorem lastEvent_snoc : lastEvent (gcs ++ [g]) stage = if g.stage = stage then some g else lastEvent gcs stage := by
  rw [lastEvent, List.map_append, List.map_singleton, lastAt_snoc]
  rfl

theorem lastEvent_stage (h : lastEvent gcs stage = some g) : g ∈ gcs ∧ g.stage = stage := by
  obtain ⟨g', hg', he⟩ := List.mem_map.1 (mem_of_lastAt h)
  cases he
  exact ⟨hg', rfl⟩

theorem lastEvent_eq_none : lastEvent gcs stage = none ↔ stage ∉ stages gcs := by
  rw [lastEvent, lastAt_eq_none, List.map_map, stages, List.mem_eraseDups]
  rfl

/-- A collection starts and gets the next number. -/
theorem Numbered.start (h : Numbered gcs cs n) (g : Generations) (t : ThreadID) (now : Clock) :
    Numbered (gcs ++ [.started (n + 1) t g now]) (cs ++ [⟨g, t, now, none⟩]) (n + 1) := by
  have hnew : ∀ b, (b, n + 1) ∉ stages gcs := by
    intro b hm
    obtain ⟨g, hg, hs⟩ := mem_stages.1 hm
    have hle := h.bound g hg
    rw [hs] at hle
    exact absurd hle (Nat.not_succ_le_self n)
  have hstages : stages (gcs ++ [.started (n + 1) t g now]) = stages gcs ++ [(true, n + 1)] := by
    have hno : (GcEvent.started (n + 1) t g now).stage ∉ gcs.map GcEvent.stage := fun hm =>
      hnew true (List.mem_eraseDups.2 hm)
    rw [stages_snoc, if_neg hno]
    rfl
  refine ⟨?_, fun g' hg' => ?_, ?_, ?_, fun i c hc => ?_, fun i c hc => ?_⟩
  · rw [List.length_append, List.length_singleton, h.number]
  · rcases List.mem_append.1 hg' with hg' | hg'
    · exact Nat.le_succ_of_le (h.bound g' hg')
    · rw [List.mem_singleton.1 hg']
      exact Nat.le_refl _
  · rw [hstages, List.length_append, List.length_singleton, List.range_succ, List.map_append, ← h.starts, h.number]
    simp [Perun.starts]
  · rw [hstages, List.pairwise_append]
    refine ⟨h.order, List.pairwise_singleton _ _, fun a ha b hb _ hab => ?_⟩
    rw [List.mem_singleton.1 hb, Prod.mk.injEq] at hab
    exact hnew a.1 (hab.2 ▸ ha)
  · rw [lastEvent_snoc]
    rw [getElem?_snoc] at hc
    by_cases hi : i = cs.length
    · rw [if_pos hi] at hc
      cases hc
      have hn : n + 1 = i + 2 := by rw [h.number, hi]
      rw [hn]
      exact if_pos rfl
    · rw [if_neg hi] at hc
      have hlt : i < cs.length := (List.getElem?_eq_some_iff.1 hc).1
      rw [if_neg, h.started i c hc]
      intro hs
      have hn : n + 1 = i + 2 := congrArg Prod.snd hs
      have hnumber := h.number
      omega
  · have hfresh : ¬ (GcEvent.started (n + 1) t g now).stage = (false, i + 2) := fun hs => by cases hs
    rw [lastEvent_snoc, if_neg hfresh]
    rw [getElem?_snoc] at hc
    by_cases hi : i = cs.length
    · rw [if_pos hi] at hc
      cases hc
      have hn : n + 1 = i + 2 := by rw [h.number, hi]
      rw [lastEvent_eq_none.2 (hn ▸ hnew false)]
      rfl
    · rw [if_neg hi] at hc
      exact h.finished i c hc

/-- The last collection is said to finish; before the first one this is about none. -/
theorem Numbered.finish (h : Numbered gcs cs n) (t : ThreadID) (now : Clock) :
    Numbered (gcs ++ [.finished n t now]) (cs.modify (cs.length - 1) fun c => { c with finished := some now }) n := by
  have hlast : ∀ i, i < cs.length → (cs.length - 1 = i ↔ n = i + 2) := by
    have := h.number
    omega
  have hget : ∀ i c, (cs.modify (cs.length - 1) fun c => { c with finished := some now })[i]? = some c →
      ∃ c₀, cs[i]? = some c₀ ∧ c = if n = i + 2 then { c₀ with finished := some now } else c₀ := by
    intro i c hc
    rw [List.getElem?_modify, Option.map_eq_map, Option.map_eq_some_iff] at hc
    obtain ⟨c₀, hc₀, rfl⟩ := hc
    have hiff := hlast i (List.getElem?_eq_some_iff.1 hc₀).1
    refine ⟨c₀, hc₀, ?_⟩
    by_cases hn : n = i + 2
    · rw [if_pos hn, if_pos (hiff.2 hn)]
    · rw [if_neg hn, if_neg (mt hiff.1 hn)]
  have hstarts : Perun.starts (stages (gcs ++ [.finished n t now])) = Perun.starts (stages gcs) := by
    rw [stages_snoc]
    split
    · rfl
    · simp [Perun.starts, GcEvent.stage]
  refine ⟨by rw [List.length_modify]; exact h.number, fun g' hg' => ?_, ?_, ?_, fun i c hc => ?_, fun i c hc => ?_⟩
  · rcases List.mem_append.1 hg' with hg' | hg'
    · exact h.bound g' hg'
    · rw [List.mem_singleton.1 hg']
      exact Nat.le_refl n
  · rw [hstarts, List.length_modify]
    exact h.starts
  · rw [stages_snoc]
    split
    · exact h.order
    · rw [List.pairwise_append]
      refine ⟨h.order, List.pairwise_singleton _ _, fun a _ b hb _ hab => ?_⟩
      rw [List.mem_singleton.1 hb] at hab
      cases hab
  · obtain ⟨c₀, hc₀, rfl⟩ := hget i c hc
    have hother : ¬ (GcEvent.finished n t now).stage = (true, i + 2) := fun hs => by cases hs
    rw [lastEvent_snoc, if_neg hother, h.started i c₀ hc₀]
    split <;> rfl
  · obtain ⟨c₀, hc₀, rfl⟩ := hget i c hc
    rw [lastEvent_snoc]
    by_cases hn : n = i + 2
    · rw [if_pos hn, hn]
      exact congrArg (Option.map GcEvent.now) (if_pos rfl)
    · rw [if_neg hn, if_neg, h.finished i c₀ hc₀]
      intro hs
      exact hn (congrArg Prod.snd hs)

theorem run_numbered {c : Config} {es : List Callback} {s : CoreProfiler} (h : run step c.start es = .ok s) :
    Numbered (gcEvents c.start es) (cycles es) s.gcNumber := by
  refine (run_inv_events (P := fun es s => run step c.start es = .ok s ∧
    Numbered (gcEvents c.start es) (cycles es) s.gcNumber) ⟨rfl, rfl, ?_, rfl, .nil, ?_, ?_⟩ ?_ h).2
  · intro g hg
    cases hg
  · intro i c hc
    cases hc
  · intro i c hc
    cases hc
  · rintro es s e s' ⟨hr, hn⟩ hs
    have hrun : run step c.start (es ++ [e]) = .ok s' := run_append.2 ⟨s, hr, run_cons.2 ⟨s', hs, rfl⟩⟩
    have hone : gcEvents s [e] = (e.gcEvent s).toList := (outputs_cons hs).trans (List.append_nil _)
    have hgcs : gcEvents c.start (es ++ [e]) = gcEvents c.start es ++ (e.gcEvent s).toList := by
      rw [← hone]
      exact outputs_append hr
    have hcs : cycles (es ++ [e]) = Cycle.step (cycles es) e := by
      rw [cycles, List.foldl_append]
      rfl
    rw [hgcs, hcs, (step_gc hs).2]
    refine ⟨hrun, ?_⟩
    cases e with
    | garbageCollectionStarted g t now => exact hn.start g t now
    | garbageCollectionFinished t now => exact hn.finish t now
    | _ =>
      rw [show (Callback.gcEvent s _).toList = [] from rfl, List.append_nil]
      exact hn

end numbers

/-! ### The table of a run -/

section table
variable {pointer : Nat → String} {float : Time → String} {c : Config} {gcs : List GcEvent} {cs : List Cycle} {n : Nat}
  {functions : List FunctionRecord} {objects : List ObjectRecord} {names : List FunctionInfo} {os : Process}
  {now : Clock}

/-- The other keys of the document. -/
def otherKeys : List String := ["functions", "Objects", "functionNames", "ProfilerShutdown"]

theorem otherKeys_ne {key : String} (hkey : key ∈ "ProfilerInitialize" :: otherKeys) (stage : Bool × Nat) :
    key ≠ stageKey stage := by
  rintro rfl
  have hG : (stageKey stage).toList.head? = some 'G' := by
    rw [toList_stageKey]
    rfl
  have hother : ∀ key ∈ "ProfilerInitialize" :: otherKeys, key.toList.head? ≠ some 'G' := by decide
  exact hother _ hkey hG

/-- The keys and values of the document, those of the collections by their stages. -/
theorem members_document : (document c gcs functions objects names os now).map
    (fun m => (expand pointer float m.1, m.2.map (expand pointer float))) =
      [("ProfilerInitialize", (initializeMember c.os c.now).2.map (expand pointer float))] ++
        ((gcs.map fun g => (g.stage, g)).map fun e => (stageKey e.1, dictJson (e.2.dict pointer float))) ++
        [functionsMember functions, objectsMember objects, namesMember names, shutdownMember os now].map
          fun m => (expand pointer float m.1, m.2.map (expand pointer float)) := by
  rw [document, List.map_append, List.map_cons, List.map_map, List.map_map]
  refine congrArg₂ (· ++ ·) (congrArg₂ List.cons ?_ (List.map_congr_left fun g _ => ?_)) rfl
  · rw [initializeMember, expand_lit]
  · rw [Function.comp_apply, Function.comp_apply, expand_stage, g.member_map]

theorem otherKeys_eq : ([functionsMember functions, objectsMember objects, namesMember names, shutdownMember os now].map
    fun m => (expand pointer float m.1, m.2.map (expand pointer float))).map Prod.fst = otherKeys := by
  simp [functionsMember, objectsMember, namesMember, shutdownMember, expand_lit, otherKeys]

theorem keys_document : (parseJson pointer float (document c gcs functions objects names os now)).map Prod.fst =
    "ProfilerInitialize" :: (stages gcs).map stageKey ++ otherKeys := by
  have hstages : (((gcs.map fun g => (g.stage, g)).map fun e => (stageKey e.1, dictJson (e.2.dict pointer float))).map
      Prod.fst) = (gcs.map GcEvent.stage).map stageKey := by
    simp only [List.map_map]
    rfl
  have hne : ∀ key ∈ "ProfilerInitialize" :: otherKeys, key ∉ (gcs.map GcEvent.stage).map stageKey := by
    intro key hkey hm
    obtain ⟨stage, -, rfl⟩ := List.mem_map.1 hm
    exact otherKeys_ne hkey stage rfl
  rw [parseJson, Dict.keys_ofMembers, members_document, List.map_append, List.map_append, otherKeys_eq, hstages,
    eraseDups_append, eraseDups_append, eraseDups_map stageKey_injective]
  · rfl
  · intro key hkey hm
    obtain rfl : key = "ProfilerInitialize" := List.mem_singleton.1 hm
    exact hne _ List.mem_cons_self hkey
  · intro key hkey hm
    rcases List.mem_append.1 hm with hm | hm
    · obtain rfl : key = "ProfilerInitialize" := List.mem_singleton.1 hm
      exact absurd hkey (by decide)
    · exact hne key (List.mem_cons_of_mem _ hkey) hm

theorem get?_document (stage : Bool × Nat) :
    (parseJson pointer float (document c gcs functions objects names os now)).get? (stageKey stage) =
      (lastEvent gcs stage).map fun g => dictJson (g.dict pointer float) := by
  have hlast := lastAt_map stageKey_injective (fun g : GcEvent => dictJson (g.dict pointer float))
    (gcs.map fun g => (g.stage, g)) stage
  have hinitialize : lastAt [("ProfilerInitialize", (initializeMember c.os c.now).2.map (expand pointer float))]
      (stageKey stage) = none := by
    rw [lastAt_eq_none, List.map_singleton, List.mem_singleton]
    exact fun h => otherKeys_ne List.mem_cons_self stage h.symm
  have hother : lastAt ([functionsMember functions, objectsMember objects, namesMember names, shutdownMember os now].map
      fun m => (expand pointer float m.1, m.2.map (expand pointer float))) (stageKey stage) = none := by
    rw [lastAt_eq_none, otherKeys_eq]
    exact fun h => otherKeys_ne (List.mem_cons_of_mem _ h) stage rfl
  rw [parseJson, Dict.get?_ofMembers, Dict.get?_reverse, members_document, lastAt_append, lastAt_append, hother,
    hinitialize, hlast, Option.none_or, Option.or_none]
  rfl

/-- What `json.load` makes of the members about the start and the end of the profiler. -/
def processDict (float : Time → String) (act : String) (os : Process) (now : Clock) : Dict String :=
  [("act", act), ("PID", toString os.pid), ("TID", toString os.tid), ("eWALLt", float now.wall), ("eCPUt", float now.cpu)]

theorem get?_initialize : (parseJson pointer float (document c gcs functions objects names os now)).get?
    "ProfilerInitialize" = some (dictJson (processDict float "initialize" c.os c.now)) := by
  have hstage : lastAt ((gcs.map fun g => (g.stage, g)).map fun e => (stageKey e.1, dictJson (e.2.dict pointer float)))
      "ProfilerInitialize" = none := by
    rw [lastAt_eq_none]
    simp only [List.map_map, List.mem_map, not_exists, not_and]
    exact fun g _ h => otherKeys_ne List.mem_cons_self g.stage h.symm
  have hother : lastAt ([functionsMember functions, objectsMember objects, namesMember names, shutdownMember os now].map
      fun m => (expand pointer float m.1, m.2.map (expand pointer float))) "ProfilerInitialize" = none := by
    rw [lastAt_eq_none, otherKeys_eq]
    decide
  rw [parseJson, Dict.get?_ofMembers, Dict.get?_reverse, members_document, lastAt_append, lastAt_append, hother, hstage,
    Option.none_or, Option.none_or]
  have hvalue : (initializeMember c.os c.now).2.map (expand pointer float) =
      dictJson (processDict float "initialize" c.os c.now) := by
    simp only [initializeMember, processDict, Json.map_obj, dictJson, field, List.map_cons, List.map_nil, Json.map_str,
      expand_lit, expand_arg]
  rw [hvalue]
  rfl

theorem get?_shutdown : (parseJson pointer float (document c gcs functions objects names os now)).get?
    "ProfilerShutdown" = some (dictJson (processDict float "shutdown" os now)) := by
  have hitem : item (parseJson pointer float (document c gcs functions objects names os now)) "ProfilerShutdown" = .ok _ :=
    item_document rfl
  unfold item at hitem
  split at hitem
  · next value hvalue =>
    rw [hvalue, Except.ok.inj hitem]
    simp only [shutdownMember, processDict, Json.map_obj, dictJson, field, List.map_cons, List.map_nil, Json.map_str,
      expand_lit, expand_arg]
  · cases hitem

/-- The row about the start or the end. -/
def processRow (float : Time → String) (act : String) (os : Process) (now : Clock) : ProfilerRow :=
  ⟨act, toString os.pid, toString os.tid, float now.wall, float now.cpu⟩

theorem profilerRowStep_process {data : Dict (Json String)} {key act : String} (hkey : startsWith key "Profiler" = true)
    (hget : data.get? key = some (dictJson (processDict float act os now))) (rows : List ProfilerRow) :
    profilerRowStep data rows key = .ok (rows ++ [processRow float act os now]) := by
  have hentry : ∀ name value, (processDict float act os now).get? name = some value →
      entry data key name = .ok value := fun _ _ hv => entry_dict hget (by
    show (["act", "PID", "TID", "eWALLt", "eCPUt"] : List String).Nodup
    decide) hv
  rw [profilerRowStep, if_pos hkey, hentry "act" _ rfl, hentry "PID" _ rfl, hentry "TID" _ rfl,
    hentry "eWALLt" _ rfl, hentry "eCPUt" _ rfl]
  rfl

theorem Numbered.readable (h : Numbered gcs cs n) :
    Readable pointer float (parseJson pointer float (document c gcs functions objects names os now))
      (fun m => cs.getD (m - 2) ⟨⟨false, false, false⟩, 0, ⟨0, 0⟩, none⟩) (stages gcs) := by
  have hcycle : ∀ m, (true, m) ∈ stages gcs → ∃ i c, cs[i]? = some c ∧ m = i + 2 ∧
      cs.getD (m - 2) ⟨⟨false, false, false⟩, 0, ⟨0, 0⟩, none⟩ = c := by
    intro m hm
    rw [← mem_starts, h.starts] at hm
    obtain ⟨i, hi, rfl⟩ := List.mem_map.1 hm
    have hget := List.getElem?_eq_getElem (List.mem_range.1 hi)
    exact ⟨i, _, hget, rfl, by rw [List.getD, Nat.add_sub_cancel, hget]; rfl⟩
  refine ⟨fun m hm => ?_, fun m hm => ?_, nodup_eraseDups _, h.order⟩
  · obtain ⟨i, c, hc, rfl, heq⟩ := hcycle m hm
    rw [get?_document, h.started i c hc, heq]
    rfl
  · obtain ⟨g, hg⟩ : ∃ g, lastEvent gcs (false, m) = some g := by
      cases hl : lastEvent gcs (false, m) with
      | none => exact absurd hm (lastEvent_eq_none.1 hl)
      | some g => exact ⟨g, rfl⟩
    obtain ⟨-, hstage⟩ := lastEvent_stage hg
    cases g with
    | started m' t g now => cases hstage
    | finished m' t now =>
      cases hstage
      refine ⟨t, now, by rw [get?_document, hg]; rfl, fun hm => ?_⟩
      obtain ⟨i, c, hc, rfl, heq⟩ := hcycle m hm
      rw [heq, ← h.finished i c hc, hg]
      rfl

/-- The rows of the table, one for each collection. -/
theorem Numbered.rows (h : Numbered gcs cs n) :
    run (gcRowStep (parseJson pointer float (document c gcs functions objects names os now))) []
      ((parseJson pointer float (document c gcs functions objects names os now)).map Prod.fst) =
        .ok (cs.mapIdx fun i c => c.gcRow pointer float (i + 2)) := by
  have hother : ∀ (data : Dict (Json String)) rows, run (gcRowStep data) rows otherKeys = .ok rows := fun _ _ => rfl
  rw [keys_document, List.cons_append]
  refine run_cons.2 ⟨[], rfl, run_append.2 ⟨_, h.readable.run, ?_⟩⟩
  rw [hother, h.starts]
  refine congrArg Except.ok (List.ext_getElem (by simp) fun i hi _ => ?_)
  have hi : i < cs.length := by simpa using hi
  have hget : cs[i]? = some cs[i] := List.getElem?_eq_getElem hi
  have hseen : cs[i].seen (stages gcs) (i + 2) = cs[i] := by
    rw [Cycle.seen]
    split
    · rfl
    · next hno =>
      have hfinished := h.finished i cs[i] hget
      rw [lastEvent_eq_none.2 hno] at hfinished
      rw [show (none : Option Clock) = cs[i].finished from hfinished]
  have hcycle : cs.getD (i + 2 - 2) ⟨⟨false, false, false⟩, 0, ⟨0, 0⟩, none⟩ = cs[i] := by
    rw [List.getD, Nat.add_sub_cancel, hget]
    rfl
  rw [List.getElem_map, List.getElem_map, List.getElem_range, List.getElem_mapIdx, hcycle, hseen]

end table

section frame
variable {Fl : Type} {P : Pandas Fl} {pointer : Nat → String} {float : Time → String}
  {percent : Fl → Fl} {writes : String → Bool} {name : String}

/-- A time of the profile as a number. -/
def seconds? (P : Pandas Fl) (float : Time → String) (t : Time) : Option Fl := P.astypeFloat (.text (float t))

/-- How long the collection takes; missing when it was never said to finish. -/
def Cycle.millis? (P : Pandas Fl) (float : Time → String) (c : Cycle) : Option Fl :=
  match c.finished.bind fun now => seconds? P float now.wall, seconds? P float c.started.wall with
  | some leave, some enter => some (P.millis leave enter)
  | _, _ => none

/-- The row of the collection in the table. -/
def Cycle.row (P : Pandas Fl) (percent : Fl → Fl) (pointer : Nat → String) (float : Time → String) (n : Nat)
    (c : Cycle) : Row (Cell Fl) := fun column =>
  (Dict.get? [("GC", some (.int n)), ("Type", some (.text (if c.finished.isSome then "Finish" else "Start"))),
    ("TID", some (.text ("0" ++ pointer c.threadId))),
    ("Gen0", some (.text ("0x" ++ yesNo c.generationCollected.gen0))),
    ("Gen1", some (.text ("0x" ++ yesNo c.generationCollected.gen1))),
    ("Gen2", some (.text ("0x" ++ yesNo c.generationCollected.gen2))),
    ("eWALLt", (seconds? P float c.started.wall).map .float),
    ("eCPUt", some (.text (float c.started.cpu))),
    ("lWALLt", (c.finished.bind fun now => seconds? P float now.wall).map .float),
    ("lCPUt", c.finished.map fun now => .text (float now.cpu)),
    ("Time [ms]", (c.millis? P float).map .float),
    ("Percent Time", (c.millis? P float).map fun x => .float (percent x))] column).join

theorem astypeFloat_ok {column : String} {df : DataFrame Fl} (hc : column ∈ df.columns)
    (hall : ∀ r ∈ df.rows, ∀ value, r column = some value → (P.astypeFloat value).isSome) :
    astypeFloat P column df =
      .ok (df.assign column fun r => (r column).bind fun value => (P.astypeFloat value).map .float) := by
  rw [astypeFloat, need_ok (by simpa using hc)]
  refine if_pos (List.all_eq_true.2 fun r hr => ?_)
  cases hv : r column with
  | none => rfl
  | some value => exact hall r hr value hv

/-- What `make_gc_df` makes of a row. -/
def measured (P : Pandas Fl) (percent : Fl → Fl) (r : Row (Cell Fl)) : Row (Cell Fl) :=
  let r := floated P "lWALLt" (floated P "eWALLt" r)
  let r := r.set "Time [ms]" (millis P (r "lWALLt") (r "eWALLt"))
  r.set "Percent Time" (inPercent percent (r "Time [ms]"))

theorem makeGcDf_ok {data : Dict (Json String)} {rows : List GcRow}
    (hrows : run (gcRowStep data) [] (data.map Prod.fst) = .ok rows) (hne : rows ≠ [])
    (hfloat : ∀ r ∈ rows, (P.astypeFloat (.text r.eWALLt)).isSome ∧
      ∀ s, r.lWALLt = some s → (P.astypeFloat (.text s)).isSome) :
    ∃ df, (∀ (writes : String → Bool) (name : String),
      makeGcDf P percent writes name data = (save writes (gcFile name)).map fun _ => df) ∧
        df.rows = rows.map fun r => measured P percent r.row := by
  have hcolumns : (gcFrame rows : DataFrame Fl).columns = GcRow.columns := if_neg hne
  have henter : astypeFloat P "eWALLt" (gcFrame rows) = .ok ((gcFrame rows).assign "eWALLt" fun r =>
      (r "eWALLt").bind fun value => (P.astypeFloat value).map .float) := by
    refine astypeFloat_ok (by rw [hcolumns]; decide) fun r hr value hv => ?_
    obtain ⟨g, hg, rfl⟩ := List.mem_map.1 hr
    cases hv
    exact (hfloat g hg).1
  obtain ⟨df₁, hdf₁⟩ : ∃ df₁, df₁ = (gcFrame rows).assign "eWALLt" fun r =>
      (r "eWALLt").bind fun value => (P.astypeFloat value).map .float := ⟨_, rfl⟩
  have hrows₁ : df₁.rows = rows.map fun r => floated P "eWALLt" r.row := by
    rw [hdf₁, Table.assign, gcFrame, List.map_map]
    rfl
  have hleave : astypeFloat P "lWALLt" df₁ = .ok (df₁.assign "lWALLt" fun r =>
      (r "lWALLt").bind fun value => (P.astypeFloat value).map .float) := by
    refine astypeFloat_ok ?_ fun r hr value hv => ?_
    · rw [hdf₁, Table.mem_columns_assign, hcolumns]
      exact .inl (by decide)
    · rw [hrows₁] at hr
      obtain ⟨g, hg, rfl⟩ := List.mem_map.1 hr
      have hv : g.lWALLt.map .text = some value := hv
      obtain ⟨s, hs, rfl⟩ := Option.map_eq_some_iff.1 hv
      exact (hfloat g hg).2 s hs
  rw [← hdf₁] at henter
  refine ⟨(((df₁.assign "lWALLt" fun r => (r "lWALLt").bind fun value => (P.astypeFloat value).map .float).assign
    "Time [ms]" fun r => millis P (r "lWALLt") (r "eWALLt")).assign "Percent Time" fun r =>
      inPercent percent (r "Time [ms]")), fun writes name => ?_, ?_⟩
  · rw [makeGcDf, hrows]
    show (astypeFloat P "eWALLt" (gcFrame rows) >>= _) = _
    rw [henter]
    show (astypeFloat P "lWALLt" df₁ >>= _) = _
    rw [hleave]
    show (save writes (gcFile name) >>= _) = _
    cases save writes (gcFile name) <;> rfl
  · simp only [Table.assign, hrows₁, List.map_map]
    rfl

/-- Without collections there is no table. -/
theorem makeGcDf_nil {data : Dict (Json String)} (hrows : run (gcRowStep data) [] (data.map Prod.fst) = .ok []) :
    makeGcDf P percent writes name data = .error (.keyError "eWALLt") := by
  rw [makeGcDf, hrows]
  rfl

theorem millis_gcRow (c : Cycle) : millis P
    ((c.finished.bind fun now => seconds? P float now.wall).map .float) ((seconds? P float c.started.wall).map .float) =
      (c.millis? P float).map .float := by
  rw [Cycle.millis?]
  cases c.finished.bind fun now => seconds? P float now.wall <;> cases seconds? P float c.started.wall <;> rfl

theorem measured_gcRow (n : Nat) (c : Cycle) :
    measured P percent (c.gcRow pointer float n).row = c.row P percent pointer float n := by
  have henter : (floated P "lWALLt" (floated P "eWALLt" (c.gcRow pointer float n).row)) "eWALLt" =
      (seconds? P float c.started.wall).map .float := rfl
  have hleave : (floated P "lWALLt" (floated P "eWALLt" (c.gcRow pointer float n).row)) "lWALLt" =
      (c.finished.bind fun now => seconds? P float now.wall).map .float := by
    show ((c.finished.map fun now => float now.wall).map Cell.text).bind (fun value => (P.astypeFloat value).map Cell.float) = _
    cases c.finished <;> rfl
  funext column
  rw [measured, henter, hleave, millis_gcRow]
  by_cases hpercent : column = "Percent Time"
  · subst hpercent
    rw [Row.set_self, Row.set_self, Cycle.row]
    show _ = (c.millis? P float).map fun x => Cell.float (percent x)
    cases c.millis? P float <;> rfl
  rw [Row.set_ne _ _ hpercent]
  by_cases htime : column = "Time [ms]"
  · subst htime
    rw [Row.set_self]
    rfl
  rw [Row.set_ne _ _ htime]
  by_cases hl : column = "lWALLt"
  · subst hl
    exact hleave
  by_cases he : column = "eWALLt"
  · subst he
    exact henter
  rw [floated, Row.set_ne _ _ hl, floated, Row.set_ne _ _ he, GcRow.row, Cycle.row]
  simp only [Dict.get?_cons, Ne.symm hpercent, Ne.symm htime, Ne.symm hl, Ne.symm he, if_false]
  simp [Cycle.gcRow, Function.comp_def]

end frame

/-- The frame about the profiler itself has two rows, whatever happened between. -/
theorem makeProfilerDf_document {Fl : Type} [DecidableEq Fl] {P : Pandas Fl} {pointer : Nat → String}
    {float : Time → String} (hP : P.Reads float) {c : Config} {gcs : List GcEvent}
    {functions : List FunctionRecord} {objects : List ObjectRecord} {names : List FunctionInfo} {os : Process}
    {now : Clock} : ∃ df, makeProfilerDf P (parseJson pointer float (document c gcs functions objects names os now)) = .ok df ∧
      df.rows = [processRow float "initialize" c.os c.now, processRow float "shutdown" os now].map fun r =>
        floated P "eWALLt" r.row := by
  have hskip : ∀ (data : Dict (Json String)) rows, run (profilerRowStep data) rows ((stages gcs).map stageKey) =
      .ok rows := by
    intro data rows
    rw [run_map]
    have hstep : (fun rows stage => profilerRowStep data rows (stageKey stage)) = fun rows _ => .ok rows := by
      funext rows stage
      have hno : ¬ startsWith (stageKey stage) "Profiler" = true := by
        rw [startsWith, toList_stageKey]
        exact Bool.false_ne_true
      rw [profilerRowStep, if_neg hno]
      rfl
    rw [hstep, run_ok]
  have hrows : run (profilerRowStep (parseJson pointer float (document c gcs functions objects names os now))) []
      ((parseJson pointer float (document c gcs functions objects names os now)).map Prod.fst) =
        .ok [processRow float "initialize" c.os c.now, processRow float "shutdown" os now] := by
    rw [keys_document, List.cons_append]
    refine run_cons.2 ⟨_, profilerRowStep_process rfl get?_initialize [], run_append.2 ⟨_, hskip _ _, ?_⟩⟩
    refine (show otherKeys = ["functions", "Objects", "functionNames"] ++ ["ProfilerShutdown"] from rfl) ▸ run_append.2
      ⟨_, rfl, run_cons.2 ⟨_, profilerRowStep_process rfl get?_shutdown _, rfl⟩⟩
  refine ⟨_, bind_eq_ok.2 ⟨_, hrows, astypeFloat_ok (by simp [ProfilerRow.columns]) fun r hr value hv => ?_⟩, rfl⟩
  rcases List.mem_cons.1 hr with rfl | hr
  · cases hv
    exact hP.astypeFloat _
  · rw [List.mem_singleton.1 hr] at hv
    cases hv
    exact hP.astypeFloat _

/-- After any run, with or without alternation of the starts and finishes, the table of the collections
has one row for each, in order. The last that it does is to write the picture of the table. -/
theorem run_makeGcDf (e : Encoding) {Fl : Type} {P : Pandas Fl} {pointer : Nat → String} {float : Time → String}
    (hP : P.Reads float) (hprint : Prints pointer float) {c : Config} {es : List Callback} {s : CoreProfiler}
    (h : run step c.start es = .ok s) (hn : s.PlainNames) (os : Process) (now : Clock) (percent : Fl → Fl)
    (writes : String → Bool) (name : String) :
    ∃ s' data, shutdown os now s = .ok s' ∧ loadJson e (fileBytes pointer float s'.log.flatten) = some data ∧
      (cycles es = [] → makeGcDf P percent writes name data = .error (.keyError "eWALLt")) ∧
      (cycles es ≠ [] → writes (gcFile name) = false →
        makeGcDf P percent writes name data = .error (.unsaved (gcFile name))) ∧
      (cycles es ≠ [] → writes (gcFile name) = true → ∃ df, makeGcDf P percent writes name data = .ok df ∧
        df.rows = (cycles es).mapIdx fun i c => c.row P percent pointer float (i + 2)) := by
  obtain ⟨events, functions, records, objects, s', -, -, hok, hload⟩ := shutdown_loaded hprint h hn os now
  have hrows : run (gcRowStep (parseJson pointer float (document c (gcEvents c.start es) (writtenRecords events) records s.names
      os now))) [] ((parseJson pointer float (document c (gcEvents c.start es) (writtenRecords events) records s.names
      os now)).map Prod.fst) = .ok ((cycles es).mapIdx fun i c => c.gcRow pointer float (i + 2)) := (run_numbered h).rows
  refine ⟨s', _, hok, hload e, fun hnil => ?_, ?_⟩
  · rw [hnil] at hrows
    exact makeGcDf_nil hrows
  rw [← forall_and]
  intro hne
  have hne' : ((cycles es).mapIdx fun i c => c.gcRow pointer float (i + 2)) ≠ [] := by
    rwa [ne_eq, List.mapIdx_eq_nil_iff]
  have hfloat : ∀ r ∈ (cycles es).mapIdx fun i c => c.gcRow pointer float (i + 2),
      (P.astypeFloat (.text r.eWALLt)).isSome ∧ ∀ s, r.lWALLt = some s → (P.astypeFloat (.text s)).isSome := by
    intro r hr
    obtain ⟨i, hi, rfl⟩ := List.mem_mapIdx.1 hr
    refine ⟨hP.astypeFloat _, fun s hs => ?_⟩
    obtain ⟨now, -, rfl⟩ := Option.map_eq_some_iff.1 hs
    exact hP.astypeFloat _
  obtain ⟨df, hdf, hdfrows⟩ := makeGcDf_ok hrows hne' hfloat
  rw [hdf, save]
  refine ⟨fun hw => by rw [hw]; rfl, fun hw => ⟨df, by rw [hw]; rfl, ?_⟩⟩
  rw [hdfrows]
  refine List.ext_getElem (by simp) fun i hi _ => ?_
  rw [List.getElem_map, List.getElem_mapIdx, List.getElem_mapIdx, measured_gcRow]

/-- A collection that finishes and one that does not. -/
def collectTwice : List Callback :=
  [.garbageCollectionStarted ⟨true, false, false⟩ 2 ⟨1, 1⟩, .garbageCollectionFinished 2 ⟨3, 3⟩,
    .garbageCollectionStarted ⟨true, true, false⟩ 2 ⟨5, 5⟩]

theorem run_makeGcDf_collectTwice :
    ∃ s, run step Config.plain.start collectTwice = .ok s ∧ ∃ s' data, shutdown ⟨1, 1⟩ ⟨9, 9⟩ s = .ok s' ∧
      loadJson .utf8 (fileBytes (fun a => "0x" ++ a.repr) seconds s'.log.flatten) = some data ∧
      ∃ df, makeGcDf tables (fun x => x / 8 * 100) (fun _ => true) "data" data = .ok df ∧
        df.rows = (cycles collectTwice).mapIdx fun i c =>
          c.row tables (fun x => x / 8 * 100) (fun a => "0x" ++ a.repr) seconds (i + 2) := by
  obtain ⟨s', data, hok, hload, -, -, hdf⟩ := run_makeGcDf .utf8 tables_documented.toReads prints_printed
    (show run step Config.plain.start collectTwice = .ok _ from rfl) (by decide) ⟨1, 1⟩ ⟨9, 9⟩ (fun x => x / 8 * 100)
    (fun _ => true) "data"
  exact ⟨_, rfl, s', data, hok, hload, hdf (by decide) rfl⟩

end Perun
