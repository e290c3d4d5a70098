import Mathlib.Algebra.Ring.Int.Defs
import Mathlib.Data.List.TakeWhile
import PerunProfiler.Records
import PerunProfiler.Lib.Json

/-!
# The log text

`Logger.h`: every message goes through `sprintf` and is written in one piece. The text is kept as
JSON tokens: white space between tokens is dropped and a quoted string is one token, in which the
expansion of a conversion is one opaque piece.
-/

namespace Perun
open Lib

/-- An argument of `sprintf`, named after its conversion. The number of `%d` is an `int`. -/
inductive Arg where
  | d (n : Int)
  | p (a : Nat)
  | f (t : Time)
  | s (text : String)
deriving DecidableEq

/-- What `%d` makes of a number that is no `int`: its low 32 bits, with a sign. -/
def int32 (n : Int) : Int := n.bmod 0x100000000

theorem int32_bounds (n : Int) : -2 ^ 31 ≤ int32 n ∧ int32 n < 2 ^ 31 := by
  have hle : -(((0x100000000 : Nat) : Int) / 2) ≤ n.bmod 0x100000000 := Int.le_bmod (by decide)
  have hlt : n.bmod 0x100000000 < (((0x100000000 : Nat) : Int) + 1) / 2 := Int.bmod_lt (by decide)
  unfold int32
  omega

/-- What `%s` prints of a `c_str()`: the characters before the first zero. -/
def cStr (s : String) : String := String.ofList (s.toList.takeWhile (· ≠ '\x00'))

theorem int32_eq_self {n : Int} : int32 n = n ↔ -2 ^ 31 ≤ n ∧ n < 2 ^ 31 := by
  constructor
  · intro h
    rw [← h]
    exact int32_bounds n
  · rintro ⟨hle, hlt⟩
    exact Int.bmod_eq_of_le (by omega) (by omega)

theorem zero_notMem_cStr (s : String) : '\x00' ∉ (cStr s).toList := by
  rw [cStr, String.toList_ofList]
  intro h
  simpa using List.mem_takeWhile_imp h

theorem cStr_eq_self {s : String} : cStr s = s ↔ '\x00' ∉ s.toList := by
  constructor
  · intro h
    rw [← h]
    exact zero_notMem_cStr s
  · intro h
    have hall : s.toList.takeWhile (· ≠ '\x00') = s.toList :=
      List.takeWhile_eq_self_iff.2 fun c hc => by simpa using fun h0 : c = '\x00' => h (h0 ▸ hc)
    rw [cStr, hall, String.ofList_toList]

/-- A character of a quoted string, or a conversion inside it. -/
inductive Piece where
  | lit (c : Char)
  | arg (a : Arg)
deriving DecidableEq

abbrev Str := List Piece
abbrev Message := List (Tok Str)

/-- Reads the format character by character; `quoted` holds the string token under way, reversed. -/
def sprintfAux : Option Str → List Char → List Arg → Message
  | none, [], _ => []
  | some _, [], _ => []
  | none, c :: cs, args =>
    match c with
    | '\x7b' => .lbrace :: sprintfAux none cs args
    | '\x7d' => .rbrace :: sprintfAux none cs args
    | '[' => .lbrack :: sprintfAux none cs args
    | ']' => .rbrack :: sprintfAux none cs args
    | ',' => .comma :: sprintfAux none cs args
    | ':' => .colon :: sprintfAux none cs args
    | '"' => sprintfAux (some []) cs args
    | _ => sprintfAux none cs args
  | some quoted, c :: cs, args =>
    match c with
    | '"' => .str quoted.reverse :: sprintfAux none cs args
    | '%' =>
      match cs, args with
      | _ :: cs, a :: args => sprintfAux (some (.arg a :: quoted)) cs args
      | _, _ => []
    | c => sprintfAux (some (.lit c :: quoted)) cs args

def sprintf (format : String) (args : List Arg) : Message := sprintfAux none format.toList args

/-- The text `Logger::LOG` writes: `DoLog` puts a comma after the message. -/
def LOG (format : String) (args : List Arg) : Message := sprintf format args ++ [.comma]

/-- The text `Logger::LOGInSh` writes: `DoInitLog` writes the message as it is. -/
def LOGInSh (format : String) (args : List Arg) : Message := sprintf format args

/-- A quoted string without conversions. -/
def lit (s : String) : Str := s.toList.map .lit

/-- The characters a string token expands to, given what `%p` and `%f` print. -/
def expand (pointer : Nat → String) (float : Time → String) (s : Str) : String :=
  String.join (s.map fun
    | .lit c => c.toString
    | .arg (.d n) => toString n
    | .arg (.p a) => pointer a
    | .arg (.f t) => float t
    | .arg (.s text) => cStr text)

example : LOG "\"GC%d\":\x7b\"TID\":\"0%p\"\x7d" [.d 2, .p 7] =
    [.str (lit "GC" ++ [.arg (.d 2)]), .colon, .lbrace, .str (lit "TID"), .colon,
      .str (lit "0" ++ [.arg (.p 7)]), .rbrace, .comma] := rfl

end Perun
