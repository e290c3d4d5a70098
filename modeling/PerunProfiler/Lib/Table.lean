import Mathlib.Data.List.Perm.Basic
import Mathlib.Data.List.Dedup
import Mathlib.Data.List.Induction
import PerunProfiler.Lib.Lists

/-!
# Tables with missing values

A row of a `Table` gives each column a value, or `none` where the value is missing. The operations
are the usual ones of a table library; a `Dict` is a mapping in the order of insertion, from which
rows are made. -/

namespace Lib

theorem filter_key_eq {α κ : Type} [DecidableEq κ] (key : α → κ) {L : List α} {a : α} (h : (L.map key).Nodup)
    (ha : a ∈ L) : L.filter (fun b => key a = key b) = [a] := by
  induction L with
  | nil => cases ha
  | cons b L ih =>
    rw [List.map_cons, List.nodup_cons] at h
    rcases List.mem_cons.1 ha with rfl | ha
    · rw [List.filter_cons_of_pos (by simp), List.filter_eq_nil_iff.2]
      intro b hb
      simpa using fun hkey : key a = key b => h.1 (hkey ▸ List.mem_map_of_mem hb)
    · rw [List.filter_cons_of_neg, ih h.2 ha]
      simpa using fun hkey : key a = key b => h.1 (hkey ▸ List.mem_map_of_mem ha)

/-! ### Dictionaries -/

abbrev Dict (β : Type) := List (String × β)

namespace Dict
variable {β : Type} {d : Dict β} {ms : List (String × β)} {key key' : String} {value : β}

def get? (d : Dict β) (key : String) : Option β := (d.find? fun e => e.1 = key).map Prod.snd

/-- A key that is there keeps its place. -/
def insert (d : Dict β) (key : String) (value : β) : Dict β :=
  if key ∈ d.map Prod.fst then d.map fun e => if e.1 = key then (key, value) else e else d ++ [(key, value)]

/-- The dictionary of the members of an object: the last value of a key counts. -/
def ofMembers (ms : List (String × β)) : Dict β := ms.foldl (fun d m => Dict.insert d m.1 m.2) []

theorem get?_cons : get? ((key', value) :: d) key = if key' = key then some value else get? d key := by
  simp only [get?, List.find?_cons]
  by_cases h : key' = key <;> simp [h]

theorem get?_append (d e : Dict β) (key : String) : get? (d ++ e) key = (get? d key).or (get? e key) := by
  simp only [get?, List.find?_append, Option.map_or]

theorem get?_eq_none : get? d key = none ↔ key ∉ d.map Prod.fst := by
  rw [get?, Option.map_eq_none_iff, List.find?_eq_none, List.mem_map]
  constructor
  · rintro h ⟨e, he, rfl⟩
    simpa using h e he
  · intro h e he
    simpa using fun hkey => h ⟨e, he, hkey⟩

theorem isSome_get? : (get? d key).isSome ↔ key ∈ d.map Prod.fst := by
  rw [← not_iff_not, Option.not_isSome_iff_eq_none, get?_eq_none]

def mapValues {γ : Type} (f : β → γ) (d : Dict β) : Dict γ := d.map fun e => (e.1, f e.2)

theorem get?_mapValues {γ : Type} (f : β → γ) : get? (mapValues f d) key = (get? d key).map f := by
  induction d with
  | nil => rfl
  | cons e d ih =>
    obtain ⟨k, v⟩ := e
    show get? ((k, f v) :: mapValues f d) key = _
    rw [get?_cons, get?_cons, ih]
    split <;> rfl

theorem keys_mapValues {γ : Type} (f : β → γ) : (mapValues f d).map Prod.fst = d.map Prod.fst := by
  rw [mapValues, List.map_map]
  rfl

theorem get?_replace : get? (d.map fun e => if e.1 = key then (key, value) else e) key' =
    if key = key' then (get? d key).map fun _ => value else get? d key' := by
  induction d with
  | nil => simp [get?]
  | cons e d ih =>
    obtain ⟨k, v⟩ := e
    simp only [List.map_cons, get?_cons]
    by_cases hk : k = key
    · subst hk
      rw [if_pos rfl, get?_cons, ih]
      by_cases hkey : k = key' <;> simp [hkey]
    · rw [if_neg hk, get?_cons, ih]
      by_cases hkey : key = key'
      · subst hkey
        simp [hk]
      · simp [hkey]

theorem get?_insert : (Dict.insert d key value).get? key' = if key = key' then some value else d.get? key' := by
  unfold Dict.insert
  split
  · next hmem =>
    obtain ⟨v, hv⟩ := Option.isSome_iff_exists.1 (isSome_get?.2 hmem)
    rw [get?_replace, hv, Option.map_some]
  · next hno =>
    rw [get?_append, get?_cons]
    by_cases hkey : key = key'
    · rw [if_pos hkey, if_pos hkey, get?_eq_none.2 (hkey ▸ hno), Option.none_or]
    · rw [if_neg hkey, if_neg hkey]
      exact Option.or_none

theorem get?_ofMembers : (ofMembers ms).get? key = get? ms.reverse key := by
  induction ms using List.reverseRecOn with
  | nil => rfl
  | append_singleton ms m ih =>
    obtain ⟨k, v⟩ := m
    have hstep : ofMembers (ms ++ [(k, v)]) = Dict.insert (ofMembers ms) k v := by
      simp [ofMembers, List.foldl_append]
    rw [hstep, get?_insert, ih, List.reverse_append, List.reverse_singleton, List.singleton_append, get?_cons]

theorem get?_reverse (ms : List (String × β)) : get? ms.reverse key = lastAt ms key := by
  induction ms using List.reverseRecOn with
  | nil => rfl
  | append_singleton ms m ih =>
    obtain ⟨k, v⟩ := m
    rw [List.reverse_append, List.reverse_singleton, List.singleton_append, get?_cons, lastAt_snoc, ih]

/-- The keys in the order in which they first occur. -/
theorem keys_ofMembers (ms : List (String × β)) : (ofMembers ms).map Prod.fst = (ms.map Prod.fst).eraseDups := by
  induction ms using List.reverseRecOn with
  | nil => rfl
  | append_singleton ms m ih =>
    obtain ⟨k, v⟩ := m
    have hstep : ofMembers (ms ++ [(k, v)]) = Dict.insert (ofMembers ms) k v := by
      simp [ofMembers, List.foldl_append]
    rw [hstep, List.map_append, List.map_singleton, eraseDups_snoc, ← ih, Dict.insert]
    by_cases hk : k ∈ ms.map Prod.fst
    · have hmem : k ∈ (ofMembers ms).map Prod.fst := by
        rw [ih]
        exact List.mem_eraseDups.2 hk
      rw [if_pos hmem, if_pos hk, List.map_map]
      refine List.map_congr_left fun e _ => ?_
      rw [Function.comp_apply]
      split
      · next he => exact he.symm
      · rfl
    · have hmem : k ∉ (ofMembers ms).map Prod.fst := by
        rw [ih]
        exact fun hm => hk (List.mem_eraseDups.1 hm)
      rw [if_neg hmem, if_neg hk, List.map_append]
      rfl

/-- Members with distinct keys are the dictionary. -/
theorem ofMembers_eq (h : (ms.map Prod.fst).Nodup) : ofMembers ms = ms := by
  induction ms using List.reverseRecOn with
  | nil => rfl
  | append_singleton ms m ih =>
    obtain ⟨k, v⟩ := m
    rw [List.map_append, List.nodup_append] at h
    have hno : k ∉ ms.map Prod.fst := fun hm => h.2.2 k hm k (by simp) rfl
    have hstep : ofMembers (ms ++ [(k, v)]) = Dict.insert (ofMembers ms) k v := by
      simp [ofMembers, List.foldl_append]
    rw [hstep, ih h.1, Dict.insert, if_neg hno]

end Dict

/-! ### Tables -/

abbrev Row (ν : Type) := String → Option ν

/-- The row with another value in a column. -/
def Row.set {ν : Type} (r : Row ν) (column : String) (value : Option ν) : Row ν :=
  fun c => if c = column then value else r c

@[simp] theorem Row.set_self {ν : Type} (r : Row ν) (column : String) (value : Option ν) :
    r.set column value column = value := if_pos rfl

theorem Row.set_ne {ν : Type} (r : Row ν) {column c : String} (value : Option ν) (h : c ≠ column) :
    r.set column value c = r c := if_neg h

theorem Row.set_set {ν : Type} (r : Row ν) (column : String) (value value' : Option ν) :
    (r.set column value).set column value' = r.set column value' := by
  funext c
  unfold Row.set
  split <;> rfl

theorem Row.set_comm {ν : Type} (r : Row ν) {column column' : String} (h : column ≠ column')
    (value value' : Option ν) : (r.set column value).set column' value' = (r.set column' value').set column value := by
  funext c
  unfold Row.set
  split
  · next hc => rw [if_neg fun (hc' : c = column) => h (hc'.symm.trans hc)]
  · rfl

structure Table (ν : Type) where
  columns : List String
  rows : List (Row ν)

namespace Table
variable {ν : Type} {df left right : Table ν} {ds : List (Dict ν)} {column : String}

/-- The rows with `p`, in order. -/
def filter (p : Row ν → Bool) (df : Table ν) : Table ν := { df with rows := df.rows.filter p }

/-- Gives a column new values; a new column comes last. -/
def assign (column : String) (f : Row ν → Option ν) (df : Table ν) : Table ν where
  columns := if column ∈ df.columns then df.columns else df.columns ++ [column]
  rows := df.rows.map fun r => r.set column (f r)

/-- One row for each dictionary, the columns as they come; a key that it lacks is missing. -/
def ofDicts (ds : List (Dict ν)) : Table ν where
  columns := (ds.flatMap fun d => d.map Prod.fst).eraseDups
  rows := ds.map fun d => d.get?

/-- The rows without a missing value. -/
def dropMissing (df : Table ν) : Table ν := df.filter fun r => df.columns.all fun c => (r c).isSome

/-- The rows `r` of the group of `k` in a column. -/
def group [DecidableEq ν] (column : String) (df : Table ν) (k : ν) : List (Row ν) :=
  df.rows.filter fun r => r column = some k

/-- Every pair of rows that agree in the column `on`, missing values included, the left row first. -/
def join [DecidableEq ν] (on : String) (left right : Table ν) : Table ν where
  columns := left.columns ++ right.columns.filter (· ∉ left.columns)
  rows := left.rows.flatMap fun l => (right.rows.filter fun r => l on = r on).map fun r c =>
    if c ∈ left.columns then l c else r c

/-- What stands in a column, row by row. -/
def values (column : String) (df : Table ν) : List (Option ν) := df.rows.map fun r => r column

/-- The values of a column, each once. -/
def keys [DecidableEq ν] (column : String) (df : Table ν) : List ν := (df.rows.filterMap fun r => r column).dedup

def drop (column : String) (df : Table ν) : Table ν where
  columns := df.columns.filter (· ≠ column)
  rows := df.rows.map fun r => r.set column none

/-- Gives a column that is there another name. -/
def rename (column name : String) (df : Table ν) : Table ν :=
  if column ∈ df.columns then
    { columns := df.columns.map fun c => if c = column then name else c
      rows := df.rows.map fun r => (r.set column none).set name (r column) }
  else df

theorem mem_columns_assign {c : String} (f : Row ν → Option ν) :
    c ∈ (df.assign column f).columns ↔ c ∈ df.columns ∨ c = column := by
  unfold assign
  split
  · next h => exact ⟨.inl, fun hc => hc.elim id fun hc => hc ▸ h⟩
  · simp

theorem mem_columns_ofDicts {c : String} : c ∈ (ofDicts ds).columns ↔ ∃ d ∈ ds, c ∈ d.map Prod.fst := by
  rw [ofDicts, List.mem_eraseDups, List.mem_flatMap]

theorem mem_columns_join [DecidableEq ν] {on c : String} :
    c ∈ (join on left right).columns ↔ c ∈ left.columns ∨ c ∈ right.columns := by
  rw [join, List.mem_append, List.mem_filter]
  by_cases hc : c ∈ left.columns <;> simp [hc]

theorem dropMissing_eq (h : ∀ r ∈ df.rows, ∀ c ∈ df.columns, (r c).isSome) : df.dropMissing = df := by
  have hrows : df.rows.filter (fun r => df.columns.all fun c => (r c).isSome) = df.rows :=
    List.filter_eq_self.2 fun r hr => List.all_eq_true.2 (h r hr)
  rw [dropMissing, filter, hrows]

section values
variable {c : String}

theorem values_assign (f : Row ν → Option ν) (h : c ≠ column) : (df.assign column f).values c = df.values c := by
  show (df.rows.map _).map _ = df.rows.map _
  rw [List.map_map]
  exact List.map_congr_left fun r _ => Row.set_ne r (f r) h

theorem values_drop (h : c ≠ column) : (df.drop column).values c = df.values c := values_assign (fun _ => none) h

theorem rename_of_mem (name : String) (h : column ∈ df.columns) :
    df.rename column name = ⟨df.columns.map fun c => if c = column then name else c,
      df.rows.map fun r => (r.set column none).set name (r column)⟩ := if_pos h

theorem values_rename {name : String} (hc : c ≠ column) (hn : c ≠ name) :
    (df.rename column name).values c = df.values c := by
  unfold rename
  split
  · show (df.rows.map _).map _ = df.rows.map _
    rw [List.map_map]
    refine List.map_congr_left fun r _ => ?_
    rw [Function.comp_apply, Row.set_ne _ _ hn, Row.set_ne _ _ hc]
  · rfl

theorem mem_values {v : Option ν} : v ∈ df.values c ↔ ∃ r ∈ df.rows, r c = v := List.mem_map

end values

section keys
variable [DecidableEq ν] {c : String} {k : ν}

theorem mem_keys : k ∈ df.keys c ↔ ∃ r ∈ df.rows, r c = some k := by
  rw [keys, List.mem_dedup, List.mem_filterMap]

theorem nodup_keys : (df.keys c).Nodup := List.nodup_dedup _

theorem keys_eq (df : Table ν) (c : String) : df.keys c = ((df.values c).filterMap id).dedup := by
  rw [keys, values, List.filterMap_map]
  rfl

theorem keys_assign (f : Row ν → Option ν) (h : c ≠ column) : (df.assign column f).keys c = df.keys c := by
  rw [keys_eq, keys_eq, values_assign f h]

theorem group_assign (f : Row ν → Option ν) (h : c ≠ column) :
    (df.assign column f).group c k = (df.group c k).map fun r => r.set column (f r) := by
  rw [group, group, assign, List.filter_map]
  refine congrArg (List.map _) (List.filter_congr fun r _ => ?_)
  rw [Function.comp_apply, Row.set_ne r (f r) h]

theorem group_filter {p : Option ν → Bool} (h : p (some k) = true) :
    (df.filter fun r => p (r c)).group c k = df.group c k := by
  rw [group, group, filter, List.filter_filter]
  refine List.filter_congr fun r _ => ?_
  by_cases hr : r c = some k
  · rw [decide_eq_true hr, hr, h, Bool.true_and]
  · rw [decide_eq_false hr, Bool.false_and]

end keys

/-- The rows are those of `L` in some order, and the columns `cs` are there. -/
structure Lists {ι : Type} (df : Table ν) (cs : List String) (L : List ι) (row : ι → Row ν) : Prop where
  columns : ∀ c ∈ cs, c ∈ df.columns
  rows : df.rows.Perm (L.map row)

section lists
variable {ι : Type} {L : List ι} {row : ι → Row ν} {cs : List String}

theorem Lists.assign (h : df.Lists cs L row) (column : String) (f : Row ν → Option ν) :
    (df.assign column f).Lists (column :: cs) L fun i => (row i).set column (f (row i)) := by
  refine ⟨fun c hc => (mem_columns_assign f).2 ?_, ?_⟩
  · rcases List.mem_cons.1 hc with rfl | hc
    · exact .inr rfl
    · exact .inl (h.columns c hc)
  · have hrows := h.rows.map fun r : Row ν => r.set column (f r)
    rwa [List.map_map] at hrows

theorem Lists.filter (h : df.Lists cs L row) (p : Row ν → Bool) :
    (df.filter p).Lists cs (L.filter fun i => p (row i)) row := by
  refine ⟨h.columns, ?_⟩
  have hrows := h.rows.filter p
  rwa [List.filter_map] at hrows

theorem Lists.mono {cs' : List String} (h : df.Lists cs L row) (hcs : ∀ c ∈ cs', c ∈ cs) : df.Lists cs' L row :=
  ⟨fun c hc => h.columns c (hcs c hc), h.rows⟩

theorem Lists.congr {row' : ι → Row ν} (h : df.Lists cs L row) (hrow : ∀ i ∈ L, row i = row' i) :
    df.Lists cs L row' :=
  ⟨h.columns, List.map_congr_left hrow ▸ h.rows⟩

theorem Lists.all (h : df.Lists cs L row) {p : Row ν → Bool} : df.rows.all p = L.all fun i => p (row i) := by
  rw [h.rows.all_eq, List.all_map]
  rfl

section groups
variable [DecidableEq ν] {f : ι → ν} {c : String}

/-- The group of a value has what is listed with it. -/
theorem Lists.group (h : df.Lists cs L row) (hrow : ∀ i, row i c = some (f i)) (k : ν) :
    (df.group c k).Perm ((L.filter (f · = k)).map row) := by
  have hgroup := (h.filter fun r => r c = some k).rows
  simp only [hrow, Option.some.injEq] at hgroup
  exact hgroup

theorem Lists.mem_keys (h : df.Lists cs L row) (hrow : ∀ i, row i c = some (f i)) {k : ν} :
    k ∈ df.keys c ↔ ∃ i ∈ L, f i = k := by
  rw [Table.mem_keys]
  constructor
  · rintro ⟨_, hr, hk⟩
    obtain ⟨i, hi, rfl⟩ := List.mem_map.1 (h.rows.mem_iff.1 hr)
    exact ⟨i, hi, Option.some.inj ((hrow i).symm.trans hk)⟩
  · rintro ⟨i, hi, rfl⟩
    exact ⟨_, h.rows.mem_iff.2 (List.mem_map_of_mem hi), hrow i⟩

theorem Lists.keys_perm (h : df.Lists cs L row) (hrow : ∀ i, row i c = some (f i)) :
    (df.keys c).Perm (L.map f).dedup := by
  refine (List.perm_ext_iff_of_nodup nodup_keys (List.nodup_dedup _)).2 fun k => ?_
  rw [h.mem_keys hrow, List.mem_dedup, List.mem_map]

end groups

end lists

/-- A join in which every row on the left meets at most one on the right. -/
theorem join_rows [DecidableEq ν] {ι : Type} {L : List ι} {row : ι → Row ν} {partner : ι → Option (Row ν)}
    (on : String) (hrows : left.rows = L.map row)
    (h : ∀ i ∈ L, right.rows.filter (fun r => row i on = r on) = (partner i).toList) :
    (join on left right).rows = L.filterMap fun i => (partner i).map fun r c =>
      if c ∈ left.columns then row i c else r c := by
  have hrow : ∀ i ∈ L, ((right.rows.filter fun r => row i on = r on).map fun r c =>
      if c ∈ left.columns then row i c else r c) =
        ((partner i).map fun r c => if c ∈ left.columns then row i c else r c).toList := fun i hi => by
    rw [h i hi]
    cases partner i <;> rfl
  show left.rows.flatMap _ = _
  rw [hrows, List.flatMap_map, List.flatMap_congr hrow, List.filterMap_eq_flatMap_toList]

/-- The same with the rows on the left in some order. -/
theorem join_perm [DecidableEq ν] {ι : Type} {L : List ι} {row : ι → Row ν} {partner : ι → Option (Row ν)}
    (on : String) (hrows : left.rows.Perm (L.map row))
    (h : ∀ i ∈ L, right.rows.filter (fun r => row i on = r on) = (partner i).toList) :
    (join on left right).rows.Perm (L.filterMap fun i => (partner i).map fun r c =>
      if c ∈ left.columns then row i c else r c) := by
  have hsame : (join on ⟨left.columns, L.map row⟩ right).rows = _ := join_rows on rfl h
  refine List.Perm.trans ?_ (.of_eq hsame)
  exact hrows.flatMap_right _

/-- A join of two tables that have a row for each of the same values. -/
theorem join_groups [DecidableEq ν] (on : String) {ks : List ν} {l r : ν → Row ν} (hks : ks.Nodup)
    (hleft : left.rows.Perm (ks.map l)) (hright : right.rows.Perm (ks.map r)) (hl : ∀ k, l k on = some k)
    (hr : ∀ k, r k on = some k) :
    (join on left right).rows.Perm (ks.map fun k c => if c ∈ left.columns then l k c else r k c) := by
  have hpartner : ∀ k ∈ ks, right.rows.filter (fun x => l k on = x on) = (some (r k)).toList := by
    intro k hk
    refine List.perm_singleton.1 ((hright.filter _).trans (.of_eq ?_))
    have hsingle := filter_key_eq id (by rwa [List.map_id]) hk
    rw [List.filter_map, List.filter_congr fun k' _ => ?_, hsingle]
    · rfl
    · rw [Function.comp_apply, hl, hr, decide_eq_decide]
      exact Option.some_inj
  have hjoin := join_perm on hleft hpartner
  simp only [Option.map_some, List.filterMap_eq_map'] at hjoin
  exact hjoin

end Table

end Lib
