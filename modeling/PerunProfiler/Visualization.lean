import Mathlib.Algebra.Ring.Int.Defs
import PerunProfiler.Document
import PerunProfiler.Lib.Table
import PerunProfiler.Lib.Text

/-!
# The visualization of a profile

`main.py`: the frames made of a profile and what is drawn of them. What is used of pandas is a
parameter (`Pandas`), with its documentation as a hypothesis, in parts (`Pandas.Reads`, `Pandas.Merges`,
`Pandas.Groups`); selecting rows by a condition and setting a column are those of `Lib.Table`.
-/

namespace Perun
open Lib

/-- A value of a frame. -/
inductive Cell (Fl : Type) where
  | text (s : String)
  | int (n : Int)
  | float (x : Fl)
deriving DecidableEq

abbrev DataFrame (Fl : Type) := Table (Cell Fl)

def Cell.toInt {Fl : Type} : Option (Cell Fl) → Int
  | some (.int n) => n
  | _ => 0

@[simp] theorem Cell.toInt_int {Fl : Type} (n : Int) : Cell.toInt (some (.int n) : Option (Cell Fl)) = n := rfl

/-- What `main.py` calls of pandas. -/
structure Pandas (Fl : Type) where
  /-- `pd.DataFrame(ds)` -/
  dataFrame (ds : List (Dict String)) : DataFrame Fl
  /-- `pd.DataFrame.from_dict(d, orient='index', columns=[column])`, its index named `index` -/
  fromDict (d : Dict String) (column index : String) : DataFrame Fl
  /-- `pd.merge(left, right, on=on)` -/
  merge (left right : DataFrame Fl) (on : String) : DataFrame Fl
  dropna (df : DataFrame Fl) : DataFrame Fl
  /-- `astype(float)` on one value, none where it raises -/
  astypeFloat (value : Cell Fl) : Option Fl
  /-- `astype(int)` on one value -/
  astypeInt (value : Cell Fl) : Option Int
  /-- `(leave - enter) * 1000` -/
  millis (leave enter : Fl) : Fl
  /-- `df.groupby(key)[column].sum()`, by group -/
  groupbySum (df : DataFrame Fl) (key column : String) (group : Cell Fl) : Option (Cell Fl)
  /-- `df.groupby(key).size()`, by group -/
  groupbySize (df : DataFrame Fl) (key : String) (group : Cell Fl) : Option (Cell Fl)

section documented
variable {Fl : Type}

/-- What the documentation says of the frames that a section is read into, as far as it is used; `float` is
what `%f` prints. The integers of a column have 64 bits. -/
structure Pandas.Reads (P : Pandas Fl) (float : Time → String) : Prop where
  dataFrame : ∀ ds, P.dataFrame ds = Table.ofDicts (ds.map fun d => d.map fun e => (e.1, .text e.2))
  fromDict : ∀ d column index, (P.fromDict d column index).columns = [index, column] ∧
    (P.fromDict d column index).rows = d.map fun e => Dict.get? [(index, .text e.1), (column, .text e.2)]
  dropna : ∀ df, P.dropna df = df.dropMissing
  astypeFloat : ∀ t, (P.astypeFloat (.text (float t))).isSome
  astypeInt : ∀ n : Int, -2 ^ 63 ≤ n → n < 2 ^ 63 → P.astypeInt (.text (toString n)) = some n ∧ P.astypeInt (.int n) = some n

variable [DecidableEq Fl]

/-- The order of the rows of a merge is left open. -/
structure Pandas.Merges (P : Pandas Fl) : Prop where
  merge : ∀ (left right : DataFrame Fl) (on : String), (∀ c ∈ left.columns, c ∈ right.columns → c = on) →
    (∀ c, c ∈ (P.merge left right on).columns ↔ c ∈ (Table.join on left right).columns) ∧
      (P.merge left right on).rows.Perm (Table.join on left right).rows

/-- A group without rows is not there. -/
structure Pandas.Groups (P : Pandas Fl) : Prop where
  groupbySum : ∀ (df : DataFrame Fl) (key column : String) (k : Cell Fl),
    (∀ r ∈ df.rows, ∃ n, r column = some (.int n)) → P.groupbySum df key column k =
      if df.group key k = [] then none
      else some (.int (((df.group key k).map fun r => Cell.toInt (r column)).sum))
  groupbySize : ∀ (df : DataFrame Fl) (key : String) (k : Cell Fl), P.groupbySize df key k =
    if df.group key k = [] then none else some (.int (df.group key k).length)

/-- What the frame of the functions takes. -/
structure Pandas.Loads (P : Pandas Fl) (float : Time → String) : Prop extends P.Reads float, P.Merges

/-- What the totals by function take. -/
structure Pandas.Documented (P : Pandas Fl) (float : Time → String) : Prop extends P.Loads float, P.Groups

end documented

/-- What stops a function of `main.py`. -/
inductive PyError where
  | keyError (key : String)
  | valueError
  /-- a picture that cannot be written -/
  | unsaved (file : String)
deriving DecidableEq

/-- Writes a picture, where that can be done. -/
def save (writes : String → Bool) (file : String) : Except PyError Unit :=
  if writes file then .ok () else .error (.unsaved file)

theorem bind_eq_ok {α β : Type} {x : Except PyError α} {f : α → Except PyError β} {b : β} :
    (x >>= f) = .ok b ↔ ∃ a, x = .ok a ∧ f a = .ok b := by
  constructor
  · intro h
    cases x with
    | error e => cases h
    | ok a => exact ⟨a, rfl, h⟩
  · rintro ⟨a, rfl, h⟩
    exact h

/-! ### Reading the profile -/

/-- What `json.load` makes of the members of a document, the texts between quotation marks taken as they
are; `pointer` and `float` are what `%p` and `%f` print. -/
def parseJson (pointer : Nat → String) (float : Time → String) (ms : List (Str × Json Str)) : Dict (Json String) :=
  Dict.ofMembers (ms.map fun m => (expand pointer float m.1, m.2.map (expand pointer float)))

/-- `data[key]` -/
def item (data : Dict (Json String)) (key : String) : Except PyError (Json String) :=
  match data.get? key with
  | some value => .ok value
  | none => .error (.keyError key)

def text : Json String → Except PyError String
  | .str s => .ok s
  | _ => .error .valueError

/-- A dictionary of texts; the collector writes no other objects inside the sections. -/
def texts : Json String → Except PyError (Dict String)
  | .obj ms => (ms.mapM fun m => (text m.2).map fun value => (m.1, value)).map Dict.ofMembers
  | _ => .error .valueError

def records : Json String → Except PyError (List (Dict String))
  | .arr xs => xs.mapM texts
  | _ => .error .valueError

/-! ### Columns -/

section columns
variable {Fl : Type}

/-- Reads the columns, in order. -/
def need (df : DataFrame Fl) (columns : List String) : Except PyError Unit :=
  match columns.find? (· ∉ df.columns) with
  | some column => .error (.keyError column)
  | none => .ok ()

/-- `df[column] = df[column].astype(float)`; what is missing stays missing. -/
def astypeFloat (P : Pandas Fl) (column : String) (df : DataFrame Fl) : Except PyError (DataFrame Fl) := do
  need df [column]
  if df.rows.all fun r => (r column).all fun value => (P.astypeFloat value).isSome then
    return df.assign column fun r => (r column).bind fun value => (P.astypeFloat value).map .float
  else throw .valueError

/-- `df[column] = df[column].astype(int)`; what is missing is no integer. -/
def astypeInt (P : Pandas Fl) (column : String) (df : DataFrame Fl) : Except PyError (DataFrame Fl) := do
  need df [column]
  if df.rows.all fun r => ((r column).bind P.astypeInt).isSome then
    return df.assign column fun r => ((r column).bind P.astypeInt).map .int
  else throw .valueError

/-- `str.split(separator)` -/
def split (separator s : String) : List String :=
  (splitFrom separator.toList 0 [] s.toList).map String.ofList

/-- `df[column].str.split(separator).str[i]` -/
def part (separator : String) (i : Nat) : Option (Cell Fl) → Option (Cell Fl)
  | some (.text s) => (split separator s)[i]?.map .text
  | _ => none

def millis (P : Pandas Fl) : Option (Cell Fl) → Option (Cell Fl) → Option (Cell Fl)
  | some (.float leave), some (.float enter) => some (.float (P.millis leave enter))
  | _, _ => none

end columns

/-! ### The frames -/

section frames
variable {Fl : Type} [DecidableEq Fl] (P : Pandas Fl)

def makeFunctionDf (data : Dict (Json String)) : Except PyError (DataFrame Fl) := do
  let functionsDf := P.dataFrame (← records (← item data "functions"))
  let functionNamesDf := P.fromDict (← texts (← item data "functionNames")) "fName" "fID"
  need functionsDf ["fID"]
  let df := P.dropna (P.merge functionsDf functionNamesDf "fID")
  let df ← astypeFloat P "lCPUt" df
  let df ← astypeFloat P "eCPUt" df
  let df ← astypeFloat P "eWALLt" df
  let df ← astypeFloat P "lWALLt" df
  let df := df.assign "cpuTime" fun r => millis P (r "lCPUt") (r "eCPUt")
  let df := df.assign "wallTime" fun r => millis P (r "lWALLt") (r "eWALLt")
  let df := df.assign "class" fun r => part "::" 0 (r "fName")
  let df := df.assign "function" fun r => part "::" 1 (r "fName")
  astypeInt P "depth" df

def makeObjectsDf (data : Dict (Json String)) : Except PyError (DataFrame Fl) := do
  let df := P.dropna (P.dataFrame (← records (← item data "Objects")))
  let df ← astypeFloat P "eWALLt" df
  let df ← astypeFloat P "eCPUt" df
  let df ← astypeInt P "objSize" df
  need df ["objType"]
  let df := df.assign "Object type" fun r => part "." 0 (r "objType")
  let df ← astypeInt P "untilGC" df
  astypeInt P "GC" df

/-- `result_df[column].fillna(0, inplace=True)` -/
def fillna (column : String) (df : DataFrame Fl) : DataFrame Fl :=
  df.assign column fun r => (r column).or (some (.int 0))

/-- `agregate_objectsize_to_functions`. To reset the index of a sum by group and to set it again to the
group gives the sum by group back. -/
def agregateObjectsizeToFunctions (dfFunc dfObjects : DataFrame Fl) (thread : Option String) :
    Except PyError (DataFrame Fl) := do
  need dfObjects ["fnc"]
  let df := dfObjects.filter fun r => (r "fnc").isSome
  let df ← astypeInt P "objSize" df
  let summed := P.groupbySum df "fnc" "objSize"
  let countFunctions := P.groupbySize df "fnc"
  need dfFunc ["nOr"]
  let resultDf := dfFunc.assign "objectSizeSum" fun r => (r "nOr").bind summed
  let resultDf := resultDf.assign "count" fun r => (r "nOr").bind countFunctions
  let resultDf := fillna "count" (fillna "objectSizeSum" resultDf)
  need dfFunc ["TID"]
  match thread with
  | some thread => return resultDf.filter fun r => r "TID" = some (.text thread)
  -- the frame of the threads has no column of this name
  | none => throw (.keyError "thread")

/-! ### The treemap -/

/-- What the treemap gets of a row. -/
structure TreemapRow (Fl : Type) where
  id : Option (Cell Fl)
  label : Option (Cell Fl)
  parent : Option (Cell Fl)
  customdata : List (Option (Cell Fl))

def treemapRow (r : Row (Cell Fl)) : TreemapRow Fl where
  id := r "nOr"
  label := r "fName"
  parent := r "rFn"
  customdata := [r "class", r "function", r "cpuTime", r "wallTime"]

/-- `df_func['depth'] <= max_depth` -/
def atMost (maxDepth : Int) : Option (Cell Fl) → Bool
  | some (.int depth) => depth ≤ maxDepth
  | _ => false

def showTreemapFunc (dfFunc : DataFrame Fl) (maxDepth : Int) (thread : String) :
    Except PyError (List (TreemapRow Fl)) := do
  need dfFunc ["TID", "depth"]
  let dfFunc := dfFunc.filter fun r => r "TID" = some (.text thread)
  let dfFunc := dfFunc.filter fun r => atMost maxDepth (r "depth")
  need dfFunc ["class", "function", "cpuTime", "wallTime", "nOr", "fName", "rFn"]
  return dfFunc.rows.map treemapRow

/-- What the treemap of the allocations gets of a row. -/
structure AllocationRow (Fl : Type) extends TreemapRow Fl where
  value : Option (Cell Fl)

def allocationRow (r : Row (Cell Fl)) : AllocationRow Fl where
  id := r "nOr"
  parent := r "rFn"
  label := r "fName"
  value := r "objectSizeSum"
  customdata := [r "class", r "function", r "cpuTime", r "wallTime", r "count"]

def showTreemap (dfFunc : DataFrame Fl) (maxDepth : Int) : Except PyError (List (AllocationRow Fl)) := do
  need dfFunc ["depth"]
  let dfFunc := dfFunc.filter fun r => atMost maxDepth (r "depth")
  need dfFunc ["class", "function", "cpuTime", "wallTime", "count", "nOr", "rFn", "fName", "objectSizeSum"]
  return dfFunc.rows.map allocationRow

end frames

end Perun
