import PerunProfiler.AllocatedTreemap
import PerunProfiler.TopTypes

/-!
# The visualization program

`start_program`: the modes, the default thread, and the plots asked for, one after the other. On the
profile of any run it stops with an exception in three cases only: the treemap with allocations is asked
for and the mode has not read the objects, or no object carries the number of a call, or a picture
cannot be written.
-/

namespace Perun
open Lib

/-- The choices of `--tableFunctions`. -/
inductive FunctionsBy where
  | count
  | wallTime
  | cpuTime
deriving DecidableEq

def FunctionsBy.column : FunctionsBy → String
  | .count => "count"
  | .wallTime => "wallTime"
  | .cpuTime => "cpuTime"

/-- The choices of `--gTreemap`. -/
inductive GTreemap where
  | functions
  | functionsWithAlloc
deriving DecidableEq

/-- The choices of `--mode`: 0, 1 and 2. -/
inductive Mode where
  | both
  | functions
  | objects
deriving DecidableEq

/-- The choices of `--tableThreads`. -/
inductive TableThreads where
  | functions
  | objects
deriving DecidableEq

/-- What `parse_args` returns. -/
structure Args where
  path : String
  gScatterPlot : Option ValueX
  gTreemap : Option GTreemap
  thread : Option String
  number : Int
  savePath : String
  mode : Mode
  tableFunctions : Option FunctionsBy
  tableObjects : Option SortBy
  tableThreads : Option TableThreads

/-- What the program runs on. Building a figure and showing it on the screen does not fail. -/
structure Host where
  /-- what `open` decodes files with -/
  encoding : Encoding
  /-- `os.sep`, and `os.altsep` if there is one -/
  separators : List Char
  /-- the bytes of a file, if it can be opened -/
  read : String → Option (List UInt8)
  /-- what is exported can be written to the file -/
  writes : String → Bool

/-- `os.path.basename(path)`, a separator following the drive if the path names one. -/
def basename (separators path : List Char) : List Char := (path.reverse.takeWhile (· ∉ separators)).reverse

/-- `os.path.splitext(name)[0]`: what is before the last dot, unless all before it are dots. -/
def splitextRoot (name : List Char) : List Char :=
  if '.' ∈ name.dropWhile (· = '.') then (name.reverse.dropWhile (· ≠ '.')).tail.reverse else name

example : splitextRoot (basename ['/'] "Data/shop.v2.json".toList) = "shop.v2".toList := by decide

section files
variable (host : Host) (args : Args)

def Args.name : String := String.ofList (splitextRoot (basename host.separators args.path.toList))

def Args.scatterFile : String := args.savePath ++ "/scatterPlot" ++ args.name host

def Args.functionsFile (sortBy : FunctionsBy) : String :=
  args.savePath ++ "/tableFunctions" ++ args.name host ++ sortBy.column ++ ".png"

def Args.objectsFile (sortBy : SortBy) : String :=
  args.savePath ++ "/tableObjects" ++ args.name host ++ sortBy.column ++ ".png"

end files

/-- What the table of the functions calls of pandas besides. -/
structure FunctionPandas (Fl : Type) extends ObjectPandas Fl where
  /-- `df.groupby([key]).agg(...).reset_index()`, with the first class and function and the sums of the
  times -/
  groupbyAggFirst (df : DataFrame Fl) (key : String) : DataFrame Fl
  /-- `round(3).astype(str)` on one value -/
  roundStr (value : Cell Fl) : String

/-- What the program shows, on the screen or in a file. -/
inductive Shown (Fl : Type) where
  | message (text : String)
  | treemapFunc (rows : List (TreemapRow Fl))
  | treemap (rows : List (AllocationRow Fl))
  | scatterplot (file : String) (points : List (ScatterPoint Fl))
  | tableFunctions (file : String) (df : DataFrame Fl)
  | tableObjects (file : String) (df : DataFrame Fl)
  | tableThreads (df : DataFrame Fl)

/-- What stops the program. -/
inductive Raised where
  | error (e : PyError)
  /-- a variable that no branch has set -/
  | unbound (name : String)
deriving DecidableEq

section program
variable {Fl : Type} [DecidableEq Fl] (Q : FunctionPandas Fl) (host : Host)

/-- `df[column] + ' ms'`, on one value. -/
def inMillis : Option (Cell Fl) → Option (Cell Fl)
  | some (.text s) => some (.text (s ++ " ms"))
  | _ => none

/-- The frame that `display_top_callbacks_functions` exports. -/
def displayTopCallbacksFunctions (dfFunc : DataFrame Fl) (topN : Int) (sortBy : FunctionsBy) :
    Except PyError (DataFrame Fl) := do
  let key := if sortBy = .count then "fName" else "fID"
  need dfFunc [key]
  let countFunctions := Q.groupbySizeFrame dfFunc key "count"
  need dfFunc ["class", "function", "wallTime", "cpuTime"]
  let groupedDf := Q.groupbyAggFirst dfFunc key
  let df := Q.merge groupedDf countFunctions key
  let df := Q.resetIndex (Q.sortValues df sortBy.column)
  let df := Q.nlargest df topN sortBy.column
  let df := df.drop "index"
  let df := if key = "fID" then df.drop "fID" else df
  let df := df.rename "fName" "Function name"
  let df := df.assign "wallTime" fun r => (r "wallTime").map fun value => .text (Q.roundStr value)
  let df := df.assign "wallTime" fun r => inMillis (r "wallTime")
  return df.rename "wallTime" "Time"

def makeThreadsDfFunc (dfFunc : DataFrame Fl) : Except PyError (DataFrame Fl) := do
  need dfFunc ["TID"]
  return Q.groupbySizeFrame dfFunc "TID" "functions_count"

def makeThreadsDfObj (dfObjects : DataFrame Fl) : Except PyError (DataFrame Fl) := do
  need dfObjects ["TID"]
  return Q.groupbySizeFrame dfObjects "TID" "objects_count"

/-- The row that `idxmax` finds: the first one with the largest value. -/
def rowMax (column : String) (df : DataFrame Fl) : Except PyError (Row (Cell Fl)) :=
  match df.rows.foldl (List.argAux fun r m => Cell.toInt (m column) < Cell.toInt (r column)) none with
  | some r => .ok r
  | none => .error .valueError

/-- `df.loc[df[column].idxmax(), 'TID']`, which the collector writes as a text. -/
def busiest (column : String) (df : DataFrame Fl) : Except PyError String := do
  match (← rowMax column df) "TID" with
  | some (.text thread) => .ok thread
  | _ => .error .valueError

/-- The thread given, or the busiest one. -/
def threadOr (thread : Option String) (column : String) (threads : Except PyError (DataFrame Fl)) :
    Except PyError String :=
  match thread with
  | some thread => .ok thread
  | none => threads >>= busiest column

/-- The frames that the mode reads, and the thread. -/
structure Loaded (Fl : Type) where
  dfFunctions : Option (DataFrame Fl)
  dfObjects : Option (DataFrame Fl)
  thread : String

/-- The branches on the mode, without the messages. -/
def loadFrames (mode : Mode) (thread : Option String) (data : Dict (Json String)) : Except PyError (Loaded Fl) :=
  match mode with
  | .both => do
    let dfFunctions ← makeFunctionDf Q.toPandas data
    let dfObjects ← makeObjectsDf Q.toPandas data
    let thread ← threadOr thread "functions_count" (makeThreadsDfFunc Q dfFunctions)
    return ⟨some dfFunctions, some dfObjects, thread⟩
  | .functions => do
    let dfFunctions ← makeFunctionDf Q.toPandas data
    let thread ← threadOr thread "functions_count" (makeThreadsDfFunc Q dfFunctions)
    return ⟨some dfFunctions, none, thread⟩
  | .objects => do
    let dfObjects ← makeObjectsDf Q.toPandas data
    let thread ← threadOr thread "objects_count" (makeThreadsDfObj Q dfObjects)
    return ⟨none, some dfObjects, thread⟩

/-- The message of a mode that refuses what is asked for. -/
def refusal (args : Args) : Option String :=
  match args.mode with
  | .both => none
  | .functions =>
    if args.gScatterPlot.isSome || args.tableObjects.isSome then
      some "Error: this graph is not compatible with this mode!"
    else none
  | .objects =>
    if args.gTreemap.isSome || args.tableFunctions.isSome then some "Error: this visualization is not compatible!"
    else none

def bound {α : Type} (name : String) : Option α → Except Raised α
  | some a => .ok a
  | none => .error (.unbound name)

/-- An exception that nothing catches. -/
def uncaught {α : Type} (x : Except PyError α) : Except Raised α := x.mapError .error

def plotTreemap (args : Args) (loaded : Loaded Fl) : Except Raised (List (Shown Fl)) :=
  match args.gTreemap with
  | none => .ok []
  | some .functionsWithAlloc => do
    let dfFunctions ← bound "dfFunctions" loaded.dfFunctions
    let dfObjects ← bound "dfObjects" loaded.dfObjects
    let agregateDf ← uncaught (agregateObjectsizeToFunctions Q.toPandas dfFunctions dfObjects (some loaded.thread))
    return [.treemap (← uncaught (showTreemap agregateDf args.number))]
  | some .functions => do
    let dfFunctions ← bound "dfFunctions" loaded.dfFunctions
    return [.treemapFunc (← uncaught (showTreemapFunc dfFunctions args.number loaded.thread))]

def plotScatter (args : Args) (loaded : Loaded Fl) : Except Raised (List (Shown Fl)) :=
  match args.gScatterPlot with
  | none => .ok []
  | some valueX => do
    let dfObjects ← bound "dfObjects" loaded.dfObjects
    let dfObjFilter ← uncaught (filterObjets Q.toObjectPandas dfObjects args.number)
    let points ← uncaught (makeScatterplot dfObjFilter valueX)
    uncaught (save host.writes (args.scatterFile host))
    return [.scatterplot (args.scatterFile host) points]

def plotFunctions (args : Args) (loaded : Loaded Fl) : Except Raised (List (Shown Fl)) :=
  match args.tableFunctions with
  | none => .ok []
  | some sortBy => do
    let dfFunctions ← bound "dfFunctions" loaded.dfFunctions
    let df ← uncaught (displayTopCallbacksFunctions Q dfFunctions args.number sortBy)
    uncaught (save host.writes (args.functionsFile host sortBy))
    return [.tableFunctions (args.functionsFile host sortBy) df]

def plotObjects (args : Args) (loaded : Loaded Fl) : Except Raised (List (Shown Fl)) :=
  match args.tableObjects with
  | none => .ok []
  | some sortBy => do
    let dfObjects ← bound "dfObjects" loaded.dfObjects
    let df ← uncaught (displayTopAllocationObjects Q.toObjectPandas dfObjects args.number sortBy)
    uncaught (save host.writes (args.objectsFile host sortBy))
    return [.tableObjects (args.objectsFile host sortBy) df]

def plotThreads (args : Args) (loaded : Loaded Fl) : Except Raised (List (Shown Fl)) :=
  match args.tableThreads with
  | none => .ok []
  | some table =>
    if args.mode ≠ .objects ∧ table = .functions then do
      let dfFunctions ← bound "dfFunctions" loaded.dfFunctions
      return [.tableThreads (← uncaught (makeThreadsDfFunc Q dfFunctions))]
    else if args.mode ≠ .functions ∧ table = .objects then do
      let dfObjects ← bound "dfObjects" loaded.dfObjects
      return [.tableThreads (← uncaught (makeThreadsDfObj Q dfObjects))]
    else .ok [.message "Error: profile data are not compatible!"]

/-- One after the other, until one raises: what is shown until then, and what is raised. -/
def inTurn : List (Except Raised (List (Shown Fl))) → List (Shown Fl) × Option Raised
  | [] => ([], none)
  | .ok shown :: rest => (shown ++ (inTurn rest).1, (inTurn rest).2)
  | .error e :: _ => ([], some e)

/-- What follows when `parse_json` has not raised. -/
def visualize (args : Args) (data : Dict (Json String)) : List (Shown Fl) × Option Raised :=
  match refusal args with
  | some message => ([.message message], none)
  | none =>
    match loadFrames Q args.mode args.thread data with
    | .error _ => ([.message "Error: profile data are not compatible!"], none)
    | .ok loaded => inTurn [plotTreemap Q args loaded, plotScatter Q host args loaded, plotFunctions Q host args loaded,
        plotObjects Q host args loaded, plotThreads Q args loaded]

def startProgram (args : Args) : List (Shown Fl) × Option Raised :=
  match (host.read args.path).bind (loadJson host.encoding) with
  | none => ([.message "Error:loading JSON file failed!"], none)
  | some data => visualize Q host args data

end program

/-! ### What each plot needs -/

section plots
variable {Fl : Type} [DecidableEq Fl] {Q : FunctionPandas Fl} {float : Time → String} {df : DataFrame Fl} {args : Args}
  {loaded : Loaded Fl}

end plots

/-! ### The default thread -/

section thread
variable {Fl : Type} [DecidableEq Fl] {Q : FunctionPandas Fl} {pointer : Nat → String} {float : Time → String}
  {df : DataFrame Fl} {ι : Type} {cs : List String} {L : List ι} {row : ι → Row (Cell Fl)} {thread : ι → ThreadID}

omit [DecidableEq Fl] in
theorem rowMax_ok (column : String) (h : df.rows ≠ []) : ∃ r ∈ df.rows, rowMax column df = .ok r ∧
    ∀ r' ∈ df.rows, Cell.toInt (r' column) ≤ Cell.toInt (r column) := by
  cases hr : df.rows.argmax fun r => Cell.toInt (r column) with
  | none => exact absurd (List.argmax_eq_none.1 hr) h
  | some r =>
    have hmax : rowMax column df = .ok r := by
      rw [rowMax, show df.rows.foldl _ none = some r from hr]
    refine ⟨r, List.argmax_mem hr, hmax, fun r' hr' => ?_⟩
    exact List.le_of_mem_argmax (f := fun r : Row (Cell Fl) => Cell.toInt (r column)) hr' hr

/-- The groups of the threads are those of what is listed. -/
theorem group_thread (hp : Function.Injective pointer) (h : df.Lists cs L row)
    (hrow : ∀ x, row x "TID" = some (.text ("0x" ++ pointer (thread x)))) (t : ThreadID) :
    (df.group "TID" (.text ("0x" ++ pointer t))).length = (L.filter (thread · = t)).length := by
  rw [(h.group hrow _).length_eq, List.length_map]
  refine congrArg List.length (List.filter_congr fun x _ => ?_)
  rw [decide_eq_decide, Cell.text.injEq, String.append_right_inj, hp.eq_iff]

/-- The busiest thread is one that most of what is listed belongs to. -/
theorem busiest_thread (hQ : Q.toObjectPandas.Documented) (hp : Function.Injective pointer)
    (h : df.Lists cs L row) (hrow : ∀ x, row x "TID" = some (.text ("0x" ++ pointer (thread x)))) (hL : L ≠ [])
    (column : String) (hcolumn : column ≠ "TID") :
    ∃ t, (∃ x ∈ L, thread x = t) ∧ (∀ t', (L.filter (thread · = t')).length ≤ (L.filter (thread · = t)).length) ∧
      busiest column (Q.groupbySizeFrame df "TID" column) = .ok ("0x" ++ pointer t) := by
  have hpairs := (hQ.groupbySizeFrame df "TID" column).pairs hcolumn
  have hne : (Q.groupbySizeFrame df "TID" column).rows ≠ [] := by
    obtain ⟨x, hx⟩ := List.exists_mem_of_ne_nil L hL
    obtain ⟨row, hr, -⟩ := hpairs.exists ((h.mem_keys hrow).2 ⟨x, hx, rfl⟩)
    exact List.ne_nil_of_mem hr
  obtain ⟨r, hr, hmax, hle⟩ := rowMax_ok column hne
  obtain ⟨k, hk, hkey, hcount⟩ := hpairs.mem hr
  obtain ⟨x, hx, rfl⟩ := (h.mem_keys hrow).1 hk
  refine ⟨thread x, ⟨x, hx, rfl⟩, fun t' => ?_, ?_⟩
  · by_cases ht' : ∃ x' ∈ L, thread x' = t'
    · obtain ⟨x', hx', rfl⟩ := ht'
      obtain ⟨r', hr', -, hcount'⟩ := hpairs.exists ((h.mem_keys hrow).2 ⟨x', hx', rfl⟩)
      have hrows := hle r' hr'
      rw [hcount, hcount', Cell.toInt, Cell.toInt, group_thread hp h hrow, group_thread hp h hrow] at hrows
      exact Int.ofNat_le.1 hrows
    · rw [List.filter_eq_nil_iff.2 fun x' hx' => by simpa using fun he => ht' ⟨x', hx', he⟩]
      exact Nat.zero_le _
  · rw [busiest, hmax]
    show (match r "TID" with | some (.text thread) => _ | _ => _) = _
    rw [hkey]

omit [DecidableEq Fl] in
theorem threadOr_ok {column : String} {threads : DataFrame Fl} {t : String} (thread : Option String)
    (h : busiest column threads = .ok t) : threadOr thread column (.ok threads) = .ok (thread.getD t) := by
  cases thread with
  | some thread => rfl
  | none => exact h

end thread

/-! ### The frames of a profile -/

section frames
variable {Fl : Type} {P : Pandas Fl} {pointer : Nat → String} {float : Time → String}
  {W : List FunctionRecord} {O : List ObjectRecord} {data : Dict (Json String)} {df : DataFrame Fl}

/-- A profile without calls has no column to merge on. -/
theorem makeFunctionDf_nil (hP : P.Reads float)
    (hfunctions : item data "functions" = .ok ((functionsMember []).2.map (expand pointer float))) :
    ∃ e, makeFunctionDf P data = .error e := by
  cases h : makeFunctionDf P data with
  | error e => exact ⟨e, rfl⟩
  | ok df =>
    simp only [makeFunctionDf, hfunctions, bind_eq_ok, Except.ok.injEq] at h
    obtain ⟨_, rfl, ds, hds, _, -, _, -, _, hneed, -⟩ := h
    obtain rfl := Except.ok.inj ((records_functions []).symm.trans hds)
    have hmem : "fID" ∈ (P.dataFrame (([] : List FunctionRecord).map (FunctionRecord.dict pointer float) ++ [[]])).columns :=
      need_mem hneed "fID" (List.mem_singleton_self _)
    obtain ⟨r, hr, -⟩ := (mem_columns_dataFrame hP).1 hmem
    cases hr

/-- A profile with an object is read into a frame that lists one. -/
theorem makeObjectsDf_listed (hP : P.Reads float) (hints : ∀ o ∈ O, o.IntMembers) (hO : O ≠ [])
    (hobjects : item data "Objects" = .ok ((objectsMember O).2.map (expand pointer float))) :
    ∃ df cs A, makeObjectsDf P data = .ok df ∧ (∀ c ∈ ObjectRecord.columns, c ∈ cs) ∧ A ≠ [] ∧
      df.Lists ("Object type" :: cs) A fun o =>
        objectComputed P (sectionRow Fl (ObjectRecord.dict pointer float) (some o)) := by
  by_cases hA : ∃ o ∈ O, o.fnc ≠ -1
  · obtain ⟨df, hdf, hlists⟩ := makeObjectsDf_lists hP hobjects hA hints
    obtain ⟨o, ho, hfnc⟩ := hA
    have hmem : o ∈ O.filter (·.fnc ≠ -1) := List.mem_filter.2 ⟨ho, decide_eq_true hfnc⟩
    exact ⟨df, _, _, hdf, fun c hc => List.mem_cons_of_mem _ hc, List.ne_nil_of_mem hmem, hlists⟩
  · obtain ⟨df, hdf, hlists⟩ := makeObjectsDf_of_dropna hP hints hobjects (fun _ hc => hc)
      (unattributed_dropna hP hO fun o ho => by simpa using fun hne => hA ⟨o, ho, hne⟩)
    exact ⟨df, _, _, hdf, fun c hc => hc, hO, hlists⟩

theorem makeObjectsDf_rows (hP : P.Reads float) (hints : ∀ o ∈ O, o.IntMembers) (hO : O ≠ [])
    (hobjects : item data "Objects" = .ok ((objectsMember O).2.map (expand pointer float))) :
    ∃ df, makeObjectsDf P data = .ok df ∧ df.rows ≠ [] := by
  obtain ⟨df, cs, A, hdf, -, hA, hlists⟩ := makeObjectsDf_listed hP hints hO hobjects
  refine ⟨df, hdf, fun hnil => hA ?_⟩
  have hlen := hlists.rows.length_eq
  rw [hnil, List.length_map] at hlen
  exact List.eq_nil_of_length_eq_zero hlen.symm

theorem makeObjectsDf_columns (hP : P.Reads float)
    (hobjects : item data "Objects" = .ok ((objectsMember O).2.map (expand pointer float)))
    (h : makeObjectsDf P data = .ok df) : O ≠ [] ∧ "TID" ∈ df.columns := by
  have hO : O ≠ [] := by
    rintro rfl
    rw [makeObjectsDf_nil hP hobjects] at h
    cases h
  exact ⟨hO, (mem_columns_makeObjectsDf hP hobjects h).2 (.inl ((mem_objectsFrame hP).2 (.inl ⟨by decide, hO⟩)))⟩

end frames

/-! ### What is raised -/

section raised
variable {Fl : Type} [DecidableEq Fl] {Q : FunctionPandas Fl} {pointer : Nat → String} {float : Time → String}
  {W : List FunctionRecord} {O : List ObjectRecord} {data : Dict (Json String)} {df : DataFrame Fl} {args : Args}
  {host : Host} {loaded : Loaded Fl} {xs : List (Except Raised (List (Shown Fl)))} {e : Raised}

/-- The frames that the mode has read. -/
structure Loads (Q : FunctionPandas Fl) (mode : Mode) (data : Dict (Json String)) (loaded : Loaded Fl) : Prop where
  functions : mode ≠ .objects → ∃ df, makeFunctionDf Q.toPandas data = .ok df ∧ loaded.dfFunctions = some df
  objects : mode ≠ .functions → ∃ df, makeObjectsDf Q.toPandas data = .ok df ∧ loaded.dfObjects = some df
  unbound : mode = .functions → loaded.dfObjects = none

omit [DecidableEq Fl] in
theorem loadFrames_loads {mode : Mode} {thread : Option String} (h : loadFrames Q mode thread data = .ok loaded) :
    Loads Q mode data loaded := by
  cases mode with
  | both =>
    simp only [loadFrames, bind_eq_ok] at h
    obtain ⟨dfFunctions, hf, dfObjects, ho, thread', -, h⟩ := h
    obtain rfl := Except.ok.inj h
    exact ⟨fun _ => ⟨_, hf, rfl⟩, fun _ => ⟨_, ho, rfl⟩, nofun⟩
  | functions =>
    simp only [loadFrames, bind_eq_ok] at h
    obtain ⟨dfFunctions, hf, thread', -, h⟩ := h
    obtain rfl := Except.ok.inj h
    exact ⟨fun _ => ⟨_, hf, rfl⟩, fun hne => absurd rfl hne, fun _ => rfl⟩
  | objects =>
    simp only [loadFrames, bind_eq_ok] at h
    obtain ⟨dfObjects, ho, thread', -, h⟩ := h
    obtain rfl := Except.ok.inj h
    exact ⟨fun hne => absurd rfl hne, fun _ => ⟨_, ho, rfl⟩, nofun⟩

theorem refusal_eq_none : refusal args = none ↔
    (args.mode = .functions → args.gScatterPlot = none ∧ args.tableObjects = none) ∧
      (args.mode = .objects → args.gTreemap = none ∧ args.tableFunctions = none) := by
  unfold refusal
  cases hm : args.mode <;> simp

end raised

section run
variable {Fl : Type} [DecidableEq Fl] {Q : FunctionPandas Fl} {pointer : Nat → String} {float : Time → String}
  {W : List FunctionRecord} {O : List ObjectRecord} {data : Dict (Json String)} {args : Args} {host : Host} {e : Raised}
  {name : FunctionID → String}

/-- A profile with calls, and with objects where they are read, is loaded. -/
theorem loadFrames_ok (hP : Q.toPandas.Reads float) (hQ : Q.toObjectPandas.Documented)
    (hp : Function.Injective pointer) (hints : ∀ o ∈ O, o.IntMembers)
    (hobjects : item data "Objects" = .ok ((objectsMember O).2.map (expand pointer float))) (hW : W ≠ [])
    (hframe : ∃ df, makeFunctionDf Q.toPandas data = .ok df ∧
      df.Lists functionColumns W fun r => computed Q.toPandas (namedRow Fl pointer float name r))
    {mode : Mode} (hmode : mode = .functions ∨ mode = .both ∧ O ≠ []) (thread : Option String) :
    ∃ df t loaded, makeFunctionDf Q.toPandas data = .ok df ∧ loadFrames Q mode thread data = .ok loaded ∧
      loaded.dfFunctions = some df ∧ loaded.thread = thread.getD ("0x" ++ pointer t) ∧ (∃ r ∈ W, r.TID = t) ∧
      ∀ t', (W.filter (·.TID = t')).length ≤ (W.filter (·.TID = t)).length := by
  obtain ⟨df, hdf, hlists⟩ := hframe
  obtain ⟨t, hsome, hmax, hbusiest⟩ := busiest_thread hQ hp hlists (fun _ => rfl) hW "functions_count" (by decide)
  have hthread : threadOr thread "functions_count" (makeThreadsDfFunc Q df) = .ok (thread.getD ("0x" ++ pointer t)) := by
    rw [makeThreadsDfFunc, need_column hlists (by decide)]
    exact threadOr_ok thread hbusiest
  rcases hmode with rfl | ⟨rfl, hO⟩
  · refine ⟨df, t, ⟨some df, none, thread.getD ("0x" ++ pointer t)⟩, hdf, ?_, rfl, rfl, hsome, hmax⟩
    rw [loadFrames, hdf]
    show (threadOr thread "functions_count" (makeThreadsDfFunc Q df) >>= _) = _
    rw [hthread]
    rfl
  · obtain ⟨dfObjects, hobj, -⟩ := makeObjectsDf_rows hP hints hO hobjects
    refine ⟨df, t, ⟨some df, some dfObjects, thread.getD ("0x" ++ pointer t)⟩, hdf, ?_, rfl, rfl, hsome, hmax⟩
    rw [loadFrames, hdf]
    show (makeObjectsDf Q.toPandas data >>= _) = _
    rw [hobj]
    show (threadOr thread "functions_count" (makeThreadsDfFunc Q df) >>= _) = _
    rw [hthread]
    rfl

/-- A mode loads a profile if what it reads is there. -/
theorem loadFrames_iff (hP : Q.toPandas.Reads float) (hQ : Q.toObjectPandas.Documented)
    (hp : Function.Injective pointer) (hints : ∀ o ∈ O, o.IntMembers)
    (hfunctions : item data "functions" = .ok ((functionsMember W).2.map (expand pointer float)))
    (hobjects : item data "Objects" = .ok ((objectsMember O).2.map (expand pointer float)))
    (hframe : W ≠ [] → ∃ df, makeFunctionDf Q.toPandas data = .ok df ∧
      df.Lists functionColumns W fun r => computed Q.toPandas (namedRow Fl pointer float name r))
    (mode : Mode) (thread : Option String) :
    (∃ loaded, loadFrames Q mode thread data = .ok loaded) ↔
      (mode ≠ .objects → W ≠ []) ∧ (mode ≠ .functions → O ≠ []) := by
  constructor
  · rintro ⟨loaded, hload⟩
    have hloads := loadFrames_loads hload
    refine ⟨fun hm => ?_, fun hm => ?_⟩
    · obtain ⟨df, hdf, -⟩ := hloads.functions hm
      rintro rfl
      obtain ⟨e, he⟩ := makeFunctionDf_nil hP hfunctions
      cases he.symm.trans hdf
    · obtain ⟨df, hdf, -⟩ := hloads.objects hm
      exact (makeObjectsDf_columns hP hobjects hdf).1
  · rintro ⟨hW, hO⟩
    cases mode with
    | both =>
      obtain ⟨_, _, loaded, -, hok, -⟩ := loadFrames_ok hP hQ hp hints hobjects (hW nofun) (hframe (hW nofun))
        (.inr ⟨rfl, hO nofun⟩) thread
      exact ⟨loaded, hok⟩
    | functions =>
      obtain ⟨_, _, loaded, -, hok, -⟩ := loadFrames_ok hP hQ hp hints hobjects (hW nofun) (hframe (hW nofun)) (.inl rfl) thread
      exact ⟨loaded, hok⟩
    | objects =>
      obtain ⟨df, cs, A, hdf, hcs, hA, hlists⟩ := makeObjectsDf_listed hP hints (hO nofun) hobjects
      have hrow : ∀ o, objectComputed Q.toPandas (sectionRow Fl (ObjectRecord.dict pointer float) (some o)) "TID" =
          some (.text ("0x" ++ pointer o.TID)) := fun _ => rfl
      obtain ⟨t, -, -, hbusiest⟩ := busiest_thread hQ hp hlists hrow hA "objects_count" (by decide)
      have hthread : threadOr thread "objects_count" (makeThreadsDfObj Q df) = .ok (thread.getD ("0x" ++ pointer t)) := by
        rw [makeThreadsDfObj, need_column hlists (List.mem_cons_of_mem _ (hcs _ (by decide)))]
        exact threadOr_ok thread hbusiest
      refine ⟨⟨none, some df, thread.getD ("0x" ++ pointer t)⟩, ?_⟩
      rw [loadFrames, hdf]
      show (threadOr thread "objects_count" (makeThreadsDfObj Q df) >>= _) = _
      rw [hthread]
      rfl

/-- What is asked for is not refused, and what the mode reads is there. -/
structure Args.Reads (args : Args) (W : List FunctionRecord) (O : List ObjectRecord) : Prop where
  accepted : refusal args = none
  functions : args.mode ≠ .objects → W ≠ []
  objects : args.mode ≠ .functions → O ≠ []

/-- The program asked for the treemap of the functions, of no thread in particular. -/
theorem visualize_treemapFunc (hP : Q.toPandas.Reads float) (hQ : Q.toObjectPandas.Documented)
    (hp : Function.Injective pointer) (hints : ∀ o ∈ O, o.IntMembers) (hdepth : ∀ r ∈ W, r.depth < 2 ^ 31)
    (hobjects : item data "Objects" = .ok ((objectsMember O).2.map (expand pointer float))) (hW : W ≠ [])
    (hframe : ∃ df, makeFunctionDf Q.toPandas data = .ok df ∧
      df.Lists functionColumns W fun r => computed Q.toPandas (namedRow Fl pointer float name r))
    (htreemap : args.gTreemap = some .functions) (hnone : args.thread = none) (hrefusal : refusal args = none)
    (hO : args.mode = .both → O ≠ []) :
    ∃ t rows, (∃ r ∈ W, r.TID = t) ∧ (∀ t', (W.filter (·.TID = t')).length ≤ (W.filter (·.TID = t)).length) ∧
      rows.Perm ((W.filter fun r => r.TID = t ∧ (r.depth : Int) ≤ args.number).map
        (FunctionRecord.drawn Q.toPandas float name)) ∧
      (visualize Q host args data).1.head? = some (.treemapFunc rows) := by
  have hmode : args.mode = .functions ∨ args.mode = .both ∧ O ≠ [] := by
    cases hm : args.mode with
    | functions => exact .inl rfl
    | both => exact .inr ⟨rfl, hO hm⟩
    | objects => simpa [htreemap] using ((refusal_eq_none.1 hrefusal).2 hm).1
  obtain ⟨df, t, loaded, hdf, hload, hbound, hthread, hsome, hmax⟩ :=
    loadFrames_ok hP hQ hp hints hobjects hW hframe hmode args.thread
  obtain ⟨df', hdf', hlists⟩ := hframe
  obtain rfl := Except.ok.inj (hdf.symm.trans hdf')
  obtain ⟨rows, hrows, hperm⟩ := showTreemapFunc_lists hP hp hlists hdepth t args.number
  rw [hnone, Option.getD_none] at hthread
  have hplot : plotTreemap Q args loaded = .ok [.treemapFunc rows] := by
    rw [plotTreemap, htreemap, hbound]
    show (uncaught (showTreemapFunc df args.number loaded.thread) >>= _) = _
    rw [hthread, hrows]
    rfl
  refine ⟨t, rows, hsome, hmax, filter_cut W t args.number ▸ hperm, ?_⟩
  rw [visualize, hrefusal]
  dsimp only
  rw [hload]
  dsimp only
  rw [hplot]
  rfl

theorem startProgram_loaded {file : List UInt8} (hread : host.read args.path = some file)
    (hload : loadJson host.encoding file = some data) : startProgram Q host args = visualize Q host args data := by
  rw [startProgram, hread, Option.bind_some, hload]

/-- Without `--thread`, the treemap of the functions is that of a thread with the most calls. -/
theorem run_startProgram_busiest (hP : Q.toPandas.Loads float) (hQ : Q.toObjectPandas.Documented)
    (hprint : Prints pointer float) (hp : Function.Injective pointer) (hne : ∀ a, pointer a ≠ "") {c : Config}
    {es : List Callback} {s : CoreProfiler} (h : run step c.start es = .ok s) (hi : s.IntMembers) (hn : s.PlainNames)
    (os : Process) (now : Clock) :
    ∃ events functions records objects s', functionsSection s.functions.size now s = .ok (events, functions) ∧
      objectsSection s = .ok (records, objects) ∧ shutdown os now s = .ok s' ∧
      ∀ (host : Host) (args : Args), host.read args.path = some (fileBytes pointer float s'.log.flatten) →
        args.gTreemap = some .functions → args.thread = none → args.Reads (writtenRecords events) records →
          ∃ t rows, (∃ r ∈ writtenRecords events, r.TID = t) ∧
            (∀ t', ((writtenRecords events).filter (·.TID = t')).length ≤
              ((writtenRecords events).filter (·.TID = t)).length) ∧
            rows.Perm (((writtenRecords events).filter fun r => r.TID = t ∧ (r.depth : Int) ≤ args.number).map
              (FunctionRecord.drawn Q.toPandas float s.nameOf)) ∧
            (startProgram Q host args).1.head? = some (.treemapFunc rows) := by
  have hr : Reachable s := ⟨c, es, h⟩
  obtain ⟨events, functions, records, objects, s', hf, ho, hok, hload⟩ := shutdown_loaded hprint h hn os now
  refine ⟨events, functions, records, objects, s', hf, ho, hok, ?_⟩
  intro host args hread htreemap hnone hreads
  have hmode : args.mode ≠ .objects := fun hm => by
    simpa [htreemap] using ((refusal_eq_none.1 hreads.accepted).2 hm).1
  have hW := hreads.functions hmode
  rw [startProgram_loaded hread (hload _)]
  exact visualize_treemapFunc hP.toReads hQ hp (hr.written_gc hi ho) (hr.written_depth hi hf) (item_document rfl) hW
    (hr.makeFunctionDf hP hp hne hi hf hW) htreemap hnone hreads.accepted
    fun hm => hreads.objects (by rw [hm]; nofun)

end run

/-! ### A profile without objects -/

/-- What `objectTables` is for `ObjectPandas`. -/
def functionTables : FunctionPandas Time where
  toObjectPandas := objectTables
  groupbyAggFirst df key :=
    { columns := [key, "class", "function", "wallTime", "cpuTime"]
      rows := (df.keys key).map fun k c =>
        if c = key then some k
        else if c ∈ ["class", "function"] then (df.group key k).findSome? fun r => r c
        else if c ∈ ["wallTime", "cpuTime"] then
          some (.float ((df.group key k).filterMap fun r => match r c with
            | some (.float x) => some x
            | _ => none).sum)
        else none }
  roundStr := objectTables.astypeStr

/-- `-p Data/shop.json -m 1 -gt functionsWithAlloc` -/
def withAlloc : Args where
  path := "Data/shop.json"
  gScatterPlot := none
  gTreemap := some .functionsWithAlloc
  thread := none
  number := 10
  savePath := "Plots"
  mode := .functions
  tableFunctions := none
  tableObjects := none
  tableThreads := none

/-- A profile and nothing else. -/
def shopHost (file : List UInt8) : Host where
  encoding := .utf8
  separators := ['/']
  read path := if path = "Data/shop.json" then some file else none
  writes _ := true

theorem run_startProgram_busiest_second :
    ∃ s, run step Config.plain.start allocateInSecond = .ok s ∧ ∃ s', shutdown ⟨1, 1⟩ ⟨9, 9⟩ s = .ok s' ∧
      ∃ rows, (startProgram functionTables (shopHost (fileBytes (fun a => "0x" ++ a.repr) seconds s'.log.flatten))
        { withAlloc with gTreemap := some .functions }).1.head? = some (.treemapFunc rows) := by
  obtain ⟨s, hs⟩ : ∃ s, run step Config.plain.start allocateInSecond = .ok s := ⟨_, rfl⟩
  obtain ⟨events, functions, records, objects, s', hf, ho, hok, hall⟩ := run_startProgram_busiest
    (Q := functionTables) tables_documented.toLoads objectTables_documented prints_printed printed_injective printed_ne hs
    (run_intMembers hs (by decide)) (by obtain rfl : _ = s := Except.ok.inj hs; decide)
    ⟨1, 1⟩ ⟨9, 9⟩
  refine ⟨s, hs, s', hok, ?_⟩
  have hcalls : writtenRecords events ≠ [] := by
    obtain rfl : _ = s := Except.ok.inj hs
    obtain ⟨rfl, -⟩ : _ = events ∧ _ = functions := Prod.mk.inj (Except.ok.inj hf)
    decide
  obtain ⟨t, rows, -, -, -, hhead⟩ := hall (shopHost _) { withAlloc with gTreemap := some .functions } rfl rfl rfl
    ⟨rfl, fun _ => hcalls, fun hm => absurd rfl hm⟩
  exact ⟨rows, hhead⟩

end Perun
