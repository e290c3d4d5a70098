import PerunProfiler.Visualization

/-!
# The plots of objects

`filter_objets`, `make_scatterplot` and `display_top_allocation_objects`. What they use of pandas
besides `Pandas` is a parameter again (`ObjectPandas`).
-/

namespace Perun
open Lib

/-- What the plots of objects call of pandas; `lt` and `minus` are those of floats. -/
structure ObjectPandas (Fl : Type) extends Pandas Fl where
  lt (x y : Fl) : Bool
  minus (x y : Fl) : Fl
  /-- `astype(str)` on one value -/
  astypeStr (value : Cell Fl) : String
  /-- `df.groupby(key)[column].sum().reset_index()` -/
  groupbySumFrame (df : DataFrame Fl) (key column : String) : DataFrame Fl
  /-- `df.groupby([key]).agg(...).reset_index()`, with the sum of `column` -/
  groupbyAggSum (df : DataFrame Fl) (key column : String) : DataFrame Fl
  /-- `df.groupby(key).size().reset_index(name=name)` -/
  groupbySizeFrame (df : DataFrame Fl) (key name : String) : DataFrame Fl
  /-- `df.sort_values(column, ascending=False)` -/
  sortValues (df : DataFrame Fl) (column : String) : DataFrame Fl
  nlargest (df : DataFrame Fl) (n : Int) (column : String) : DataFrame Fl
  /-- `df.reset_index()` -/
  resetIndex (df : DataFrame Fl) : DataFrame Fl

section documented
variable {Fl : Type} [DecidableEq Fl]

/-- The column holds integers. -/
def IntColumn (df : DataFrame Fl) (column : String) : Prop := ∀ r ∈ df.rows, ∃ n, r column = some (.int n)

/-- The sum of a column over a group. -/
def groupTotal (df : DataFrame Fl) (key column : String) (k : Cell Fl) : Int :=
  ((df.group key k).map fun r => Cell.toInt (r column)).sum

/-- A frame with a row for each group of `source`. -/
structure IsGrouped (source : DataFrame Fl) (key column : String) (value : Cell Fl → Cell Fl) (df : DataFrame Fl) :
    Prop where
  columns : df.columns = [key, column]
  rows : df.rows.Perm ((source.keys key).map fun k => Dict.get? [(key, k), (column, value k)])

/-- What the documentation says, as far as it is used. -/
structure ObjectPandas.Documented (Q : ObjectPandas Fl) : Prop extends Q.toPandas.Merges where
  groupbySumFrame : ∀ (df : DataFrame Fl) (key column : String), IntColumn df column →
    IsGrouped df key column (fun k => .int (groupTotal df key column k)) (Q.groupbySumFrame df key column)
  groupbyAggSum : ∀ (df : DataFrame Fl) (key column : String), IntColumn df column →
    IsGrouped df key column (fun k => .int (groupTotal df key column k)) (Q.groupbyAggSum df key column)
  groupbySizeFrame : ∀ (df : DataFrame Fl) (key name : String),
    IsGrouped df key name (fun k => .int (df.group key k).length) (Q.groupbySizeFrame df key name)
  sortValues : ∀ (df : DataFrame Fl) (column : String), IntColumn df column →
    (Q.sortValues df column).columns = df.columns ∧ (Q.sortValues df column).rows.Perm df.rows
  nlargest : ∀ (df : DataFrame Fl) (n : Nat) (column : String), IntColumn df column →
    (Q.nlargest df n column).columns = df.columns ∧ ∃ rows : List (Row (Cell Fl)), rows.Perm df.rows ∧
      rows.Pairwise (fun r r' => Cell.toInt (r' column) ≤ Cell.toInt (r column)) ∧
      (Q.nlargest df n column).rows = rows.take n
  resetIndex : ∀ df : DataFrame Fl, "index" ∉ df.columns →
    (Q.resetIndex df).columns = "index" :: df.columns ∧
      (Q.resetIndex df).rows.map (fun r => r.set "index" none) = df.rows.map fun r => r.set "index" none

end documented

/-! ### The scatter plot -/

section plots
variable {Fl : Type} [DecidableEq Fl] (Q : ObjectPandas Fl)

/-- `max` of the values, which raises if there are none. -/
def maxOf (lt : Fl → Fl → Bool) : List Fl → Except PyError Fl
  | [] => .error .valueError
  | x :: xs => .ok (xs.foldl (fun m y => if lt m y then y else m) x)

def floats (column : String) (df : DataFrame Fl) : List Fl :=
  (df.values column).filterMap fun
    | some (.float x) => some x
    | _ => none

/-- `maxValue - df2['eWALLt']`, on one value. -/
def minusFrom (maxValue : Fl) : Option (Cell Fl) → Option (Cell Fl)
  | some (.float x) => some (.float (Q.minus maxValue x))
  | _ => none

def filterObjets (dfObj : DataFrame Fl) (number : Int) : Except PyError (DataFrame Fl) := do
  need dfObj ["eWALLt"]
  let maxValue ← maxOf Q.lt (floats "eWALLt" dfObj)
  let df2 := dfObj.assign "eWALLt" fun r => minusFrom Q maxValue (r "eWALLt")
  need df2 ["objType", "objSize"]
  let grouped := Q.groupbySumFrame df2 "objType" "objSize"
  let grouped := Q.sortValues grouped "objSize"
  let dfTopN := Q.nlargest grouped number "objSize"
  let df2 := df2.filter fun r => r "objType" ∈ dfTopN.values "objType"
  return Q.resetIndex (Q.sortValues df2 "objSize")

/-- The choices of `--gScatterPlot`. -/
inductive ValueX where
  | wallTime
  | cpuTime
deriving DecidableEq

def ValueX.column : ValueX → String
  | .wallTime => "eWALLt"
  | .cpuTime => "eCPUt"

/-- What the scatter plot gets of a row. -/
structure ScatterPoint (Fl : Type) where
  x : Option (Cell Fl)
  y : Option (Cell Fl)
  size : Option (Cell Fl)
  hue : Option (Cell Fl)

def scatterPoint (valueX : ValueX) (r : Row (Cell Fl)) : ScatterPoint Fl where
  x := r valueX.column
  y := r "objType"
  size := r "Object size (Bytes)"
  hue := r "Object type"

def makeScatterplot (dfObj : DataFrame Fl) (valueX : ValueX) : Except PyError (List (ScatterPoint Fl)) := do
  need dfObj ["objType"]
  let dfObj := dfObj.filter fun r => r "objType" ≠ some (.text "")
  let dfObj := dfObj.rename "objSize" "Object size (Bytes)"
  -- the plot refuses a name that is no column
  if ∀ c ∈ [valueX.column, "objType", "Object size (Bytes)", "Object type"], c ∈ dfObj.columns then
    return dfObj.rows.map (scatterPoint valueX)
  else throw .valueError

/-! ### The table -/

/-- The choices of `--tableObjects`. -/
inductive SortBy where
  | count
  | objSize
deriving DecidableEq

def SortBy.column : SortBy → String
  | .count => "count"
  | .objSize => "objSize"

/-- `df[column] + ' B'`, on one value. -/
def inBytes : Option (Cell Fl) → Option (Cell Fl)
  | some (.text s) => some (.text (s ++ " B"))
  | _ => none

/-- The frame that `display_top_allocation_objects` exports. -/
def displayTopAllocationObjects (dfObj : DataFrame Fl) (topN : Int) (sortBy : SortBy) :
    Except PyError (DataFrame Fl) := do
  need dfObj ["objType"]
  let dfObj := dfObj.filter fun r => r "objType" ≠ some (.text "")
  let countFunctions := Q.groupbySizeFrame dfObj "objType" "count"
  need dfObj ["objSize"]
  let groupedDf := Q.groupbyAggSum dfObj "objType" "objSize"
  let df := Q.merge groupedDf countFunctions "objType"
  let df := Q.resetIndex (Q.sortValues df sortBy.column)
  let df := Q.nlargest df topN sortBy.column
  let df := df.drop "index"
  let df := df.assign "objSize" fun r => (r "objSize").map fun value => .text (Q.astypeStr value)
  let df := df.assign "objSize" fun r => inBytes (r "objSize")
  return df.rename "objSize" "Object size (Bytes)"

end plots

end Perun
