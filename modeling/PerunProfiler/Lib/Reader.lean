import PerunProfiler.Lib.Json
import PerunProfiler.Lib.Text

/-!
# Reading JSON

What a text of tokens looks like in characters, and a reader for documents of objects, arrays and
strings: first the tokens, with the escapes of the strings, then the value. The text of a value is read
back, whatever its strings are made of besides quotation marks, backslashes and control characters.
-/

namespace Lib

/-! ### Characters -/

namespace Tok

def map {α β : Type} (f : α → β) : Tok α → Tok β
  | lbrace => lbrace
  | rbrace => rbrace
  | lbrack => lbrack
  | rbrack => rbrack
  | comma => comma
  | colon => colon
  | str s => str (f s)

def chars : Tok String → List Char
  | lbrace => ['\x7b']
  | rbrace => ['\x7d']
  | lbrack => ['[']
  | rbrack => [']']
  | comma => [',']
  | colon => [':']
  | str s => '"' :: (s.toList ++ ['"'])

/-- The token that a character other than a quotation mark is. -/
def ofChar (c : Char) : Option (Tok String) :=
  match c with
  | '\x7b' => some lbrace
  | '\x7d' => some rbrace
  | '[' => some lbrack
  | ']' => some rbrack
  | ',' => some comma
  | ':' => some colon
  | _ => none

/-- The tokens of a text; `skip` characters still belong to the last one. -/
def scan : Nat → List Char → Option (List (Tok String))
  | _, [] => some []
  | skip + 1, _ :: cs => scan skip cs
  | 0, c :: cs =>
    if c = ' ' ∨ c = '\n' ∨ c = '\t' ∨ c = '\r' then scan 0 cs
    else if c = '"' then
      match scanFrom 0 cs with
      | some (s, rest) => (scan (cs.length - rest.length) cs).map (str (String.ofList s) :: ·)
      | none => none
    else
      match ofChar c with
      | some t => (scan 0 cs).map (t :: ·)
      | none => none

section scan
variable {t : Tok String} {ts : List (Tok String)}

/-- The string of a token needs no escapes. -/
def Unescaped (t : Tok String) : Prop := ∀ s, t = str s → ∀ c ∈ s.toList, Plain c

theorem scan_drop (skip : Nat) (cs : List Char) : scan skip cs = scan 0 (cs.drop skip) := by
  induction cs generalizing skip with
  | nil => cases skip <;> rfl
  | cons c cs ih =>
    cases skip with
    | zero => rfl
    | succ skip => rw [scan, ih, List.drop_succ_cons]

theorem scan_chars (ht : t.Unescaped) (rest : List Char) : scan 0 (t.chars ++ rest) = (scan 0 rest).map (t :: ·) := by
  cases t with
  | str s =>
    have hstring : scanFrom 0 (s.toList ++ '"' :: rest) = some (s.toList, rest) := scanFrom_plain (ht s rfl) rest
    have hdrop : (s.toList ++ '"' :: rest).drop ((s.toList ++ '"' :: rest).length - rest.length) = rest := by
      rw [List.append_cons, List.length_append, Nat.add_sub_cancel, List.drop_left]
    have hchars : (str s).chars ++ rest = '"' :: (s.toList ++ '"' :: rest) := by
      rw [chars, List.cons_append, List.append_assoc]
      rfl
    rw [hchars, scan, if_neg (by decide), if_pos rfl, hstring]
    show (scan _ _).map _ = _
    rw [scan_drop, hdrop, String.ofList_toList]
  | _ => rfl

theorem scan_text (h : ∀ t ∈ ts, t.Unescaped) : scan 0 (ts.flatMap chars) = some ts := by
  induction ts with
  | nil => rfl
  | cons t ts ih =>
    rw [List.flatMap_cons, scan_chars (h t List.mem_cons_self), ih fun t ht => h t (List.mem_cons_of_mem _ ht)]
    rfl

end scan

end Tok

/-! ### Values -/

namespace Json
open Tok

section map
variable {α β : Type} (f : α → β)

theorem elems_map {xs : List (Json α)} (h : ∀ x ∈ xs, (x.map f).toks = x.toks.map (Tok.map f)) :
    elems (xs.map (map f)) = (elems xs).map (Tok.map f) := by
  induction xs with
  | nil => simp only [List.map_nil, elems, List.map_cons, Tok.map]
  | cons x xs ih =>
    rw [List.map_cons, elems, elems, ih fun y hy => h y (List.mem_cons_of_mem _ hy), h x List.mem_cons_self,
      List.map_cons, List.map_append]
    rfl

theorem members_map {ms : List (α × Json α)} (h : ∀ m ∈ ms, (m.2.map f).toks = m.2.toks.map (Tok.map f)) :
    members (ms.map fun m => (f m.1, m.2.map f)) = (members ms).map (Tok.map f) := by
  induction ms with
  | nil => simp only [List.map_nil, members, List.map_cons, Tok.map]
  | cons m ms ih =>
    rw [List.map_cons, members, members, ih fun n hn => h n (List.mem_cons_of_mem _ hn), member_eq, member_eq,
      h m List.mem_cons_self, List.map_cons, List.map_append]
    rfl

theorem toks_map (j : Json α) : (j.map f).toks = j.toks.map (Tok.map f) := by
  induction j with
  | str s => rw [map_str, toks, toks]; rfl
  | arr xs ih =>
    rw [map_arr]
    cases xs with
    | nil => rw [List.map_nil, toks, toks]; rfl
    | cons x xs =>
      have hxs := elems_map f fun y hy => ih y (List.mem_cons_of_mem _ hy)
      rw [List.map_cons, toks, toks, ih x List.mem_cons_self, hxs, List.map_cons, List.map_append]
      rfl
  | obj ms ih =>
    rw [map_obj]
    cases ms with
    | nil => rw [List.map_nil, toks, toks]; rfl
    | cons m ms =>
      have hms := members_map f fun n hn => ih n (List.mem_cons_of_mem _ hn)
      rw [List.map_cons, toks, toks, member_eq, member_eq, ih m List.mem_cons_self, hms, List.map_cons,
        List.map_append]
      rfl

end map

variable {α : Type}

mutual
/-- Reads a value, with `n` for the depth of the recursion, and gives what follows. -/
def readValue (n : Nat) (ts : List (Tok α)) : Option (Json α × List (Tok α)) :=
  match n, ts with
  | _ + 1, .str s :: ts => some (.str s, ts)
  | _ + 1, .lbrack :: .rbrack :: ts => some (.arr [], ts)
  | n + 1, .lbrack :: ts => do
    let (x, ts) ← readValue n ts
    let (xs, ts) ← readElems n ts
    return (.arr (x :: xs), ts)
  | _ + 1, .lbrace :: .rbrace :: ts => some (.obj [], ts)
  | n + 1, .lbrace :: ts => do
    let (m, ts) ← readMember n ts
    let (ms, ts) ← readMembers n ts
    return (.obj (m :: ms), ts)
  | _, _ => none
def readElems (n : Nat) (ts : List (Tok α)) : Option (List (Json α) × List (Tok α)) :=
  match n, ts with
  | _ + 1, .rbrack :: ts => some ([], ts)
  | n + 1, .comma :: ts => do
    let (x, ts) ← readValue n ts
    let (xs, ts) ← readElems n ts
    return (x :: xs, ts)
  | _, _ => none
def readMember (n : Nat) (ts : List (Tok α)) : Option ((α × Json α) × List (Tok α)) :=
  match n, ts with
  | n + 1, .str k :: .colon :: ts => do
    let (x, ts) ← readValue n ts
    return ((k, x), ts)
  | _, _ => none
def readMembers (n : Nat) (ts : List (Tok α)) : Option (List (α × Json α) × List (Tok α)) :=
  match n, ts with
  | _ + 1, .rbrace :: ts => some ([], ts)
  | n + 1, .comma :: ts => do
    let (m, ts) ← readMember n ts
    let (ms, ts) ← readMembers n ts
    return (m :: ms, ts)
  | _, _ => none
end

section read
variable {xs : List (Json α)} {ms : List (α × Json α)}

/-- The text of a value is read up to its end. -/
def IsRead (x : Json α) : Prop :=
  ∀ (n : Nat) (rest : List (Tok α)), (toks x).length ≤ n → readValue n (toks x ++ rest) = some (x, rest)

/-- The text of a value does not begin with the bracket that closes an array. -/
theorem toks_ne_rbrack (x : Json α) (rest ts : List (Tok α)) : toks x ++ rest ≠ .rbrack :: ts := by
  intro h
  cases x with
  | str s =>
    rw [toks] at h
    cases h
  | arr xs =>
    cases xs <;>
      · rw [toks] at h
        cases h
  | obj ms =>
    cases ms <;>
      · rw [toks] at h
        cases h

theorem readElems_elems (h : ∀ x ∈ xs, x.IsRead) (n : Nat) (rest : List (Tok α)) (hn : (elems xs).length ≤ n) :
    readElems n (elems xs ++ rest) = some (xs, rest) := by
  induction xs generalizing n with
  | nil =>
    rw [elems] at hn ⊢
    obtain ⟨n, rfl⟩ : ∃ m, n = m + 1 := ⟨n - 1, by simp at hn; omega⟩
    rw [List.singleton_append, readElems]
  | cons x xs ih =>
    rw [elems, List.length_cons, List.length_append] at hn
    obtain ⟨n, rfl⟩ : ∃ m, n = m + 1 := ⟨n - 1, by omega⟩
    rw [elems, List.cons_append, List.append_assoc, readElems, h x List.mem_cons_self n _ (by omega)]
    show (readElems n (elems xs ++ rest) >>= _) = _
    rw [ih (fun y hy => h y (List.mem_cons_of_mem _ hy)) n (by omega)]
    rfl

theorem readMember_member {m : α × Json α} (h : m.2.IsRead) (n : Nat) (rest : List (Tok α))
    (hn : (member m).length ≤ n) : readMember n (member m ++ rest) = some (m, rest) := by
  rw [member_eq, List.length_cons, List.length_cons] at hn
  obtain ⟨n, rfl⟩ : ∃ m, n = m + 1 := ⟨n - 1, by omega⟩
  rw [member_eq, List.cons_append, List.cons_append, readMember, h n rest (by omega)]
  rfl

theorem readMembers_members (h : ∀ m ∈ ms, m.2.IsRead) (n : Nat) (rest : List (Tok α))
    (hn : (members ms).length ≤ n) : readMembers n (members ms ++ rest) = some (ms, rest) := by
  induction ms generalizing n with
  | nil =>
    rw [members] at hn ⊢
    obtain ⟨n, rfl⟩ : ∃ m, n = m + 1 := ⟨n - 1, by simp at hn; omega⟩
    rw [List.singleton_append, readMembers]
  | cons m ms ih =>
    rw [members, List.length_cons, List.length_append] at hn
    obtain ⟨n, rfl⟩ : ∃ m, n = m + 1 := ⟨n - 1, by omega⟩
    rw [members, List.cons_append, List.append_assoc, readMembers,
      readMember_member (h m List.mem_cons_self) n _ (by omega)]
    show (readMembers n (members ms ++ rest) >>= _) = _
    rw [ih (fun k hk => h k (List.mem_cons_of_mem _ hk)) n (by omega)]
    rfl

/-- Every value is read back, one case for each kind of value. -/
theorem isRead (x : Json α) : x.IsRead := by
  induction x with
  | str s =>
    intro n rest hn
    rw [toks] at hn ⊢
    obtain ⟨n, rfl⟩ : ∃ m, n = m + 1 := ⟨n - 1, by simp at hn; omega⟩
    rw [List.singleton_append, readValue]
  | arr xs ih =>
    intro n rest hn
    cases xs with
    | nil =>
      rw [toks] at hn ⊢
      obtain ⟨n, rfl⟩ : ∃ m, n = m + 1 := ⟨n - 1, by simp at hn; omega⟩
      rw [List.cons_append, List.singleton_append, readValue]
    | cons x xs =>
      rw [toks, List.length_cons, List.length_append] at hn
      obtain ⟨n, rfl⟩ : ∃ m, n = m + 1 := ⟨n - 1, by omega⟩
      have hx := ih x List.mem_cons_self n (elems xs ++ rest) (by omega)
      have hxs := readElems_elems (fun y hy => ih y (List.mem_cons_of_mem _ hy)) n rest (by omega)
      have hstep : readValue (n + 1) (toks (.arr (x :: xs)) ++ rest) =
          (readValue n (toks x ++ (elems xs ++ rest))).bind fun y =>
            (readElems n y.2).bind fun z => some (.arr (y.1 :: z.1), z.2) := by
        rw [toks, List.cons_append, List.append_assoc, readValue]
        · rfl
        · exact toks_ne_rbrack x _
      rw [hstep, hx, Option.bind_some, hxs]
      rfl
  | obj ms ih =>
    intro n rest hn
    cases ms with
    | nil =>
      rw [toks] at hn ⊢
      obtain ⟨n, rfl⟩ : ∃ m, n = m + 1 := ⟨n - 1, by simp at hn; omega⟩
      rw [List.cons_append, List.singleton_append, readValue]
    | cons m ms =>
      rw [toks, List.length_cons, List.length_append] at hn
      obtain ⟨n, rfl⟩ : ∃ m, n = m + 1 := ⟨n - 1, by omega⟩
      have hm := readMember_member (ih m List.mem_cons_self) n (members ms ++ rest) (by omega)
      have hms := readMembers_members (fun k hk => ih k (List.mem_cons_of_mem _ hk)) n rest (by omega)
      have hstep : readValue (n + 1) (toks (.obj (m :: ms)) ++ rest) =
          (readMember n (member m ++ (members ms ++ rest))).bind fun y =>
            (readMembers n y.2).bind fun z => some (.obj (y.1 :: z.1), z.2) := by
        rw [toks, List.cons_append, List.append_assoc, member_eq, List.cons_append, readValue]
        · rfl
        · intro ts h
          cases h
      rw [hstep, hm, Option.bind_some, hms]
      rfl

end read

/-- What a document says, if it is one. -/
def read (cs : List Char) : Option (Json String) := do
  let ts ← Tok.scan 0 cs
  match ← readValue ts.length ts with
  | (j, []) => some j
  | _ => none

theorem read_chars {j : Json String} (h : ∀ t ∈ j.toks, t.Unescaped) : read (j.toks.flatMap Tok.chars) = some j := by
  have hvalue : readValue j.toks.length j.toks = some (j, []) := by
    simpa using j.isRead j.toks.length [] (Nat.le_refl _)
  rw [read, scan_text h]
  show (readValue j.toks.length j.toks >>= _) = _
  rw [hvalue]
  rfl

end Json

end Lib
