import Mathlib.Data.List.Flatten
import Mathlib.Data.List.Sublists

/-!
# JSON as a text of tokens

Values whose scalars are strings over an alphabet `α` of string tokens, their text, and the strings
of a text at nesting depth one, which for an object are its keys and its string members. -/

namespace Lib

inductive Tok (α : Type) where
  | lbrace | rbrace | lbrack | rbrack | comma | colon
  | str (s : α)
deriving DecidableEq

inductive Json (α : Type) where
  | str (s : α)
  | arr (xs : List (Json α))
  | obj (ms : List (α × Json α))

namespace Json

variable {α : Type}

@[induction_eliminator]
theorem induct {motive : Json α → Prop} (str : ∀ s, motive (.str s))
    (arr : ∀ xs, (∀ x ∈ xs, motive x) → motive (.arr xs))
    (obj : ∀ ms : List (α × Json α), (∀ m ∈ ms, motive m.2) → motive (.obj ms)) : ∀ j, motive j
  | .str s => str s
  | .arr xs => arr xs fun x _ => induct str arr obj x
  | .obj ms => obj ms fun m hm => by
    have : sizeOf m.2 < 1 + sizeOf ms := by
      have h1 := List.sizeOf_lt_of_mem hm
      cases m
      simp only [Prod.mk.sizeOf_spec] at h1
      simp only
      omega
    exact induct str arr obj m.2

mutual
/-- The text of a value. -/
def toks : Json α → List (Tok α)
  | .str s => [.str s]
  | .arr [] => [.lbrack, .rbrack]
  | .arr (x :: xs) => .lbrack :: (toks x ++ elems xs)
  | .obj [] => [.lbrace, .rbrace]
  | .obj (m :: ms) => .lbrace :: (member m ++ members ms)
def elems : List (Json α) → List (Tok α)
  | [] => [.rbrack]
  | x :: xs => .comma :: (toks x ++ elems xs)
def member : α × Json α → List (Tok α)
  | (k, v) => .str k :: .colon :: toks v
def members : List (α × Json α) → List (Tok α)
  | [] => [.rbrace]
  | m :: ms => .comma :: (member m ++ members ms)
end

mutual
/-- The value with other strings. -/
def map {β : Type} (f : α → β) : Json α → Json β
  | .str s => .str (f s)
  | .arr xs => .arr (mapElems f xs)
  | .obj ms => .obj (mapMembers f ms)
def mapElems {β : Type} (f : α → β) : List (Json α) → List (Json β)
  | [] => []
  | x :: xs => map f x :: mapElems f xs
def mapMembers {β : Type} (f : α → β) : List (α × Json α) → List (β × Json β)
  | [] => []
  | (k, v) :: ms => (f k, map f v) :: mapMembers f ms
end

section map
variable {β : Type} (f : α → β)

theorem map_str (s : α) : (Json.str s).map f = .str (f s) := by rw [map]

theorem map_arr (xs : List (Json α)) : (Json.arr xs).map f = .arr (xs.map (map f)) := by
  rw [map]
  congr 1
  induction xs with
  | nil => rfl
  | cons x xs ih => rw [mapElems, ih, List.map_cons]

theorem map_obj (ms : List (α × Json α)) : (Json.obj ms).map f = .obj (ms.map fun m => (f m.1, m.2.map f)) := by
  rw [map]
  congr 1
  induction ms with
  | nil => rfl
  | cons m ms ih => rw [mapMembers, ih, List.map_cons]

end map

theorem member_eq (m : α × Json α) : member m = .str m.1 :: .colon :: toks m.2 := by
  rw [member]

example : (Json.obj [(1, .arr [.str 2, .obj []]), (3, .str 4)]).toks =
    [.lbrace, .str 1, .colon, .lbrack, .str 2, .comma, .lbrace, .rbrace, .rbrack, .comma, .str 3,
      .colon, .str 4, .rbrace] := by decide

theorem elems_append (xs : List (Json α)) (x : Json α) :
    elems (xs ++ [x]) = .comma :: (xs.flatMap (fun y => toks y ++ [.comma]) ++ toks x ++ [.rbrack]) := by
  induction xs with
  | nil => simp [elems]
  | cons y ys ih => simp [elems, ih]

theorem members_append (ms : List (α × Json α)) (m : α × Json α) :
    members (ms ++ [m]) = .comma :: (ms.flatMap (fun y => member y ++ [.comma]) ++ member m ++ [.rbrace]) := by
  induction ms with
  | nil => simp [members]
  | cons y ys ih => simp [members, ih]

theorem toks_arr_append (xs : List (Json α)) (x : Json α) :
    toks (.arr (xs ++ [x])) = .lbrack :: (xs.flatMap (fun y => toks y ++ [.comma]) ++ toks x ++ [.rbrack]) := by
  cases xs with
  | nil => simp [toks, elems]
  | cons y ys => simp [toks, elems_append]

/-- Members with a comma after each. -/
def listed (ms : List (α × Json α)) : List (Tok α) := ms.flatMap fun m => member m ++ [.comma]

theorem listed_append (ms ns : List (α × Json α)) : listed (ms ++ ns) = listed ms ++ listed ns :=
  List.flatMap_append

theorem toks_obj_append (ms : List (α × Json α)) (m : α × Json α) :
    toks (.obj (ms ++ [m])) = .lbrace :: (listed ms ++ member m ++ [.rbrace]) := by
  unfold listed
  cases ms with
  | nil => simp [toks, members]
  | cons y ys => simp [toks, members_append]

end Json

/-! ### Nesting -/

namespace Tok

variable {α : Type}

/-- The nesting depth after a token read at depth `d`. -/
def nest (d : Nat) : Tok α → Nat
  | lbrace | lbrack => d + 1
  | rbrace | rbrack => d - 1
  | _ => d

def depth (d : Nat) (ts : List (Tok α)) : Nat := ts.foldl nest d

/-- The strings read at depth one, from depth `d` on. -/
def topStrs : Nat → List (Tok α) → List α
  | _, [] => []
  | d, str s :: ts => if d = 1 then s :: topStrs d ts else topStrs d ts
  | d, t :: ts => topStrs (nest d t) ts

@[simp] theorem depth_nil (d : Nat) : depth d ([] : List (Tok α)) = d := rfl

@[simp] theorem depth_cons (d : Nat) (t : Tok α) (ts : List (Tok α)) :
    depth d (t :: ts) = depth (nest d t) ts := rfl

@[simp] theorem depth_append (d : Nat) (ts us : List (Tok α)) :
    depth d (ts ++ us) = depth (depth d ts) us := List.foldl_append

theorem topStrs_append (d : Nat) (ts us : List (Tok α)) :
    topStrs d (ts ++ us) = topStrs d ts ++ topStrs (depth d ts) us := by
  induction ts generalizing d with
  | nil => rfl
  | cons t ts ih =>
    cases t with
    | str s =>
      by_cases hd : d = 1 <;> simp [topStrs, hd, ih, nest]
    | _ => simp [topStrs, ih]

end Tok

namespace Json

variable {α : Type}
open Tok

theorem depth_elems {xs : List (Json α)} (h : ∀ x ∈ xs, ∀ d, depth d (toks x) = d) (d : Nat) :
    depth (d + 1) (elems xs) = d := by
  induction xs with
  | nil => simp [elems, nest]
  | cons x xs ih =>
    have hx := h x (by simp)
    simp [elems, nest, hx, ih fun y hy => h y (List.mem_cons_of_mem _ hy)]

theorem depth_members {ms : List (α × Json α)} (h : ∀ m ∈ ms, ∀ d, depth d (toks m.2) = d) (d : Nat) :
    depth (d + 1) (members ms) = d := by
  induction ms with
  | nil => simp [members, nest]
  | cons m ms ih =>
    have hm := h m (by simp)
    simp [members, member_eq, nest, hm, ih fun y hy => h y (List.mem_cons_of_mem _ hy)]

@[simp] theorem depth_toks (j : Json α) (d : Nat) : depth d (toks j) = d := by
  induction j generalizing d with
  | str s => simp [toks, nest]
  | arr xs ih =>
    cases xs with
    | nil => simp [toks, nest]
    | cons x xs =>
      have hx := ih x (by simp)
      have hxs := depth_elems fun y hy => ih y (List.mem_cons_of_mem _ hy)
      simp [toks, nest, hx, hxs]
  | obj ms ih =>
    cases ms with
    | nil => simp [toks, nest]
    | cons m ms =>
      have hm := ih m (by simp)
      have hms := depth_members fun y hy => ih y (List.mem_cons_of_mem _ hy)
      simp [toks, member_eq, nest, hm, hms]

@[simp] theorem depth_member (m : α × Json α) (d : Nat) : depth d (member m) = d := by
  simp [member_eq, nest]

@[simp] theorem depth_listed (ms : List (α × Json α)) (d : Nat) : depth d (listed ms) = d := by
  induction ms with
  | nil => rfl
  | cons m ms ih => simpa [listed, nest] using ih

theorem topStrs_elems {xs : List (Json α)} {d : Nat} (h : ∀ x ∈ xs, topStrs (d + 2) (toks x) = []) :
    topStrs (d + 2) (elems xs) = [] := by
  induction xs with
  | nil => simp [elems, topStrs]
  | cons x xs ih =>
    have hx := h x (by simp)
    simp [elems, topStrs, nest, topStrs_append, hx, ih fun y hy => h y (List.mem_cons_of_mem _ hy)]

theorem topStrs_members {ms : List (α × Json α)} {d : Nat}
    (h : ∀ m ∈ ms, topStrs (d + 2) (toks m.2) = []) : topStrs (d + 2) (members ms) = [] := by
  induction ms with
  | nil => simp [members, topStrs]
  | cons m ms ih =>
    have hm := h m (by simp)
    simp [members, member_eq, topStrs, nest, topStrs_append, hm,
      ih fun y hy => h y (List.mem_cons_of_mem _ hy)]

theorem topStrs_arr {xs : List (Json α)} {d : Nat} (h : ∀ x ∈ xs, topStrs (d + 2) (toks x) = []) :
    topStrs (d + 1) (toks (.arr xs)) = [] := by
  cases xs with
  | nil => simp [toks, topStrs]
  | cons x xs =>
    have hx := h x (by simp)
    have hxs := topStrs_elems fun y hy => h y (List.mem_cons_of_mem _ hy)
    simp [toks, topStrs, nest, topStrs_append, hx, hxs]

theorem topStrs_obj {ms : List (α × Json α)} {d : Nat} (h : ∀ m ∈ ms, topStrs (d + 2) (toks m.2) = []) :
    topStrs (d + 1) (toks (.obj ms)) = [] := by
  cases ms with
  | nil => simp [toks, topStrs]
  | cons m ms =>
    have hm := h m (by simp)
    have hms := topStrs_members fun y hy => h y (List.mem_cons_of_mem _ hy)
    simp [toks, member_eq, topStrs, nest, topStrs_append, hm, hms]

theorem topStrs_toks (j : Json α) (d : Nat) : topStrs (d + 2) (toks j) = [] := by
  induction j generalizing d with
  | str s => simp [toks, topStrs]
  | arr xs ih => exact topStrs_arr fun x hx => ih x hx (d + 1)
  | obj ms ih => exact topStrs_obj fun m hm => ih m hm (d + 1)

theorem topStrs_member_below (m : α × Json α) (d : Nat) : topStrs (d + 2) (member m) = [] := by
  simp [member_eq, topStrs, nest, topStrs_toks]

/-- What a member shows at the top of its object: its key, and its value if that is a string. -/
def topMember : α × Json α → List α
  | (k, .str s) => [k, s]
  | (k, _) => [k]

theorem topStrs_member (m : α × Json α) : topStrs 1 (member m) = topMember m := by
  obtain ⟨k, v⟩ := m
  cases v with
  | str s => simp [member_eq, toks, topStrs, nest, topMember]
  | arr xs =>
    have h := topStrs_arr (d := 0) fun (x : Json α) (_ : x ∈ xs) => topStrs_toks x 0
    simpa [member_eq, topStrs, nest, topMember] using h
  | obj ms =>
    have h := topStrs_obj (d := 0) fun (m : α × Json α) (_ : m ∈ ms) => topStrs_toks m.2 0
    simpa [member_eq, topStrs, nest, topMember] using h

theorem topStrs_listed (ms : List (α × Json α)) : topStrs 1 (listed ms) = ms.flatMap topMember := by
  unfold listed
  induction ms with
  | nil => rfl
  | cons m ms ih => simp [topStrs_append, topStrs_member, topStrs, nest, ih]

theorem topStrs_obj_toks (ms : List (α × Json α)) : topStrs 0 (toks (.obj ms)) = ms.flatMap topMember := by
  have hmembers : ∀ ns : List (α × Json α), topStrs 1 (members ns) = ns.flatMap topMember := by
    intro ns
    induction ns with
    | nil => simp [members, topStrs]
    | cons m ns ih => simp [members, topStrs, nest, topStrs_append, topStrs_member, ih]
  cases ms with
  | nil => simp [toks, topStrs]
  | cons m ms => simp [toks, topStrs, nest, topStrs_append, topStrs_member, hmembers]

theorem key_sublist_topStrs (ms : List (α × Json α)) :
    (ms.map Prod.fst).Sublist (topStrs 0 (toks (.obj ms))) := by
  rw [topStrs_obj_toks, List.map_eq_flatMap]
  induction ms with
  | nil => exact .slnil
  | cons m ms ih =>
    obtain ⟨k, v⟩ := m
    cases v with
    | str s => exact (ih.cons s).cons_cons k
    | _ => exact ih.cons_cons k

end Json

end Lib
