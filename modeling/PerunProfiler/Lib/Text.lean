import Mathlib.Data.List.Infix
import Mathlib.Data.List.Forall2
import Mathlib.Data.Char

/-!
# Texts

Splitting at a separator, UTF-16 units, the encodings of text files that extend ASCII, and the
strings of JSON. Where reading an item takes several elements, a counter says how many are still to
be dropped, so that every function goes down the list one element at a time.
-/

namespace Lib

/-! ### Splitting -/

/-- The parts between the separators: `skip` elements of a separator are still to be dropped, `part`
is the part under way, reversed. -/
def splitFrom {α : Type} [DecidableEq α] (separator : List α) : Nat → List α → List α → List (List α)
  | _, part, [] => [part.reverse]
  | skip + 1, part, _ :: cs => splitFrom separator skip part cs
  | 0, part, c :: cs =>
    if separator.isPrefixOf (c :: cs) then part.reverse :: splitFrom separator (separator.length - 1) [] cs
    else splitFrom separator 0 (c :: part) cs

section split
variable {α : Type} [DecidableEq α] {sep a part cs rest : List α} {ps : List (List α)}

theorem splitFrom_drop (skip : Nat) (part cs : List α) :
    splitFrom sep skip part cs = splitFrom sep 0 part (cs.drop skip) := by
  induction cs generalizing skip with
  | nil => cases skip <;> rfl
  | cons c cs ih =>
    cases skip with
    | zero => rfl
    | succ skip => rw [splitFrom, ih, List.drop_succ_cons]

theorem splitFrom_sep (hsep : sep ≠ []) (part rest : List α) :
    splitFrom sep 0 part (sep ++ rest) = part.reverse :: splitFrom sep 0 [] rest := by
  obtain ⟨c, cs, rfl⟩ := List.exists_cons_of_ne_nil hsep
  have hpre : (c :: cs).isPrefixOf (c :: (cs ++ rest)) = true := List.isPrefixOf_iff_prefix.2 (List.prefix_append _ _)
  rw [List.cons_append, splitFrom, if_pos hpre, splitFrom_drop]
  simp

/-- What `splitFrom` gives, read backwards: the first part and, if there are more, what is split
after it. -/
theorem splitFrom_cases (hsep : sep ≠ []) (part cs : List α) :
    ∃ a, (splitFrom sep 0 part cs = [part.reverse ++ a] ∧ cs = a ∧ ¬ sep <:+: a) ∨
      ∃ rest, splitFrom sep 0 part cs = (part.reverse ++ a) :: splitFrom sep 0 [] rest ∧ cs = a ++ sep ++ rest ∧
        ¬ sep <:+: a ++ sep.dropLast := by
  induction cs generalizing part with
  | nil => exact ⟨[], .inl ⟨by simp [splitFrom], rfl, by simpa using hsep⟩⟩
  | cons c cs ih =>
    by_cases hpre : sep <+: c :: cs
    · obtain ⟨rest, hrest⟩ := hpre
      refine ⟨[], .inr ⟨rest, ?_, by simp [hrest], fun hinf => ?_⟩⟩
      · rw [← hrest, splitFrom_sep hsep, List.append_nil]
      · have hlen := hinf.length_le
        have hpos := List.length_pos_of_ne_nil hsep
        rw [List.nil_append, List.length_dropLast] at hlen
        omega
    · have hstep : splitFrom sep 0 part (c :: cs) = splitFrom sep 0 (c :: part) cs := by
        rw [splitFrom, if_neg (by simpa using hpre)]
      have hpart : ∀ a : List α, (c :: part).reverse ++ a = part.reverse ++ c :: a := fun a => by simp
      obtain ⟨a, ⟨hs, rfl, hinf⟩ | ⟨rest, hs, rfl, hinf⟩⟩ := ih (c :: part)
      · refine ⟨c :: cs, .inl ⟨by rw [hstep, hs, hpart], rfl, fun hc => ?_⟩⟩
        exact (List.infix_cons_iff.1 hc).elim hpre hinf
      · refine ⟨c :: a, .inr ⟨rest, by rw [hstep, hs, hpart], rfl, fun hc => ?_⟩⟩
        refine (List.infix_cons_iff.1 hc).elim (fun hp => hpre (hp.trans ?_)) hinf
        rw [List.cons_prefix_cons, List.append_assoc]
        exact ⟨rfl, (List.prefix_append_right_inj a).2 ((List.dropLast_prefix sep).trans (List.prefix_append _ _))⟩

theorem splitFrom_self {a : List α} (h : ¬ sep <:+: a) (part : List α) :
    splitFrom sep 0 part a = [part.reverse ++ a] := by
  induction a generalizing part with
  | nil => rw [splitFrom, List.append_nil]
  | cons c a ih =>
    have hno : ¬ sep.isPrefixOf (c :: a) = true := fun hp => h (List.isPrefixOf_iff_prefix.1 hp).isInfix
    rw [splitFrom, if_neg hno, ih fun hi => h (hi.trans (List.suffix_cons c a).isInfix)]
    simp

theorem splitFrom_append (hsep : sep ≠ []) {a : List α} (h : ¬ sep <:+: a ++ sep.dropLast) (part rest : List α) :
    splitFrom sep 0 part (a ++ sep ++ rest) = (part.reverse ++ a) :: splitFrom sep 0 [] rest := by
  induction a generalizing part with
  | nil => rw [List.nil_append, splitFrom_sep hsep, List.append_nil]
  | cons c a ih =>
    have hno : ¬ sep.isPrefixOf (c :: (a ++ sep ++ rest)) = true := fun hp => by
      -- a separator here would end before the one after `a`
      have hlen : sep.length ≤ ((c :: a) ++ sep.dropLast).length := by
        rw [List.length_append, List.length_dropLast, List.length_cons]
        omega
      have hpre : (c :: a) ++ sep.dropLast <+: c :: (a ++ sep ++ rest) := by
        rw [List.append_assoc]
        exact (List.prefix_append_right_inj (c :: a)).2 ((List.dropLast_prefix sep).trans (List.prefix_append _ _))
      exact h (List.prefix_of_prefix_length_le (List.isPrefixOf_iff_prefix.1 hp) hpre hlen).isInfix
    have ha : ¬ sep <:+: a ++ sep.dropLast := fun hi => h (hi.trans (List.suffix_cons c _).isInfix)
    rw [List.cons_append, List.cons_append, splitFrom, if_neg hno, ih ha]
    simp

end split

/-! ### Lists side by side -/

section forall₂
variable {α β : Type} {R S : α → β → Prop} {l : List α} {m : List β}

theorem forall₂_mem_left (hR : List.Forall₂ R l m) (hS : List.Forall₂ S l m) {a : α} (ha : a ∈ l) :
    ∃ b ∈ m, R a b ∧ S a b := by
  induction hR with
  | nil => cases ha
  | cons hab _ ih =>
    cases hS with
    | cons hab' hS =>
      rcases List.mem_cons.1 ha with rfl | ha
      · exact ⟨_, List.mem_cons_self, hab, hab'⟩
      · obtain ⟨b, hb, h⟩ := ih hS ha
        exact ⟨b, List.mem_cons_of_mem _ hb, h⟩

theorem exists_forall₂ (h : ∀ a ∈ l, ∃ b, R a b) : ∃ m, List.Forall₂ R l m := by
  induction l with
  | nil => exact ⟨[], .nil⟩
  | cons a l ih =>
    obtain ⟨b, hb⟩ := h a List.mem_cons_self
    obtain ⟨m, hm⟩ := ih fun a ha => h a (List.mem_cons_of_mem _ ha)
    exact ⟨b :: m, .cons hb hm⟩

end forall₂

/-! ### UTF-16 -/

/-- The units of a character. -/
def units (c : Char) : List UInt16 :=
  if c.toNat < 0x10000 then [c.toNat.toUInt16]
  else [(0xD800 + (c.toNat - 0x10000) / 0x400).toUInt16, (0xDC00 + (c.toNat - 0x10000) % 0x400).toUInt16]

def utf16 (cs : List Char) : List UInt16 := cs.flatMap units

@[simp] theorem utf16_nil : utf16 [] = [] := rfl

@[simp] theorem utf16_cons (c : Char) (cs : List Char) : utf16 (c :: cs) = units c ++ utf16 cs := rfl

@[simp] theorem utf16_append (cs ds : List Char) : utf16 (cs ++ ds) = utf16 cs ++ utf16 ds := List.flatMap_append

theorem length_units_pos (c : Char) : 0 < (units c).length := by
  unfold units
  split <;> exact Nat.succ_pos _

theorem length_units_le (c : Char) : (units c).length ≤ 2 := by
  unfold units
  split <;> simp

theorem length_le_utf16 (cs : List Char) : cs.length ≤ (utf16 cs).length := by
  induction cs with
  | nil => exact Nat.le_refl _
  | cons c cs ih =>
    have hc := length_units_pos c
    rw [utf16_cons, List.length_append, List.length_cons]
    omega

theorem units_of_lt {c : Char} (h : c.toNat < 0x10000) : units c = [c.toNat.toUInt16] := if_pos h

theorem units_ofNat {n : Nat} (h : n < 0x10000) : (units (Char.ofNat n)).length = 1 := by
  have hlt : (Char.ofNat n).toNat < 0x10000 := by
    by_cases hvalid : n.isValidChar
    · rw [Char.ofNat, dif_pos hvalid]
      exact h
    · rw [Char.ofNat, dif_neg hvalid]
      decide
  rw [units_of_lt hlt]
  rfl

/-- A character of one unit has the number of that unit. -/
theorem toNat_of_units {c : Char} {u : UInt16} (h : units c = [u]) : c.toNat = u.toNat := by
  unfold units at h
  split at h
  · next hc =>
    rw [← List.singleton_inj.1 h]
    simp only [UInt16.toNat_ofNat', Nat.toUInt16]
    omega
  · cases h

/-- A text with as many units as characters is one unit for each. -/
theorem forall₂_utf16 {cs : List Char} {us : List UInt16} (h : utf16 cs = us) (hlen : cs.length = us.length) :
    List.Forall₂ (fun u c => units c = [u]) us cs := by
  induction cs generalizing us with
  | nil =>
    subst h
    exact .nil
  | cons c cs ih =>
    have hle := length_le_utf16 cs
    have hpos := length_units_pos c
    rw [utf16_cons] at h
    subst h
    rw [List.length_append, List.length_cons] at hlen
    obtain ⟨u, hu⟩ := List.length_eq_one_iff.1 (show (units c).length = 1 by omega)
    rw [hu]
    show List.Forall₂ _ (u :: utf16 cs) (c :: cs)
    exact .cons hu (ih rfl (by omega))

/-- A unit that is no surrogate is a character of its own. -/
theorem eq_of_mem_units {c : Char} {u : UInt16} (hu : u.toNat < 0xD800) (h : u ∈ units c) : units c = [u] := by
  unfold units at h ⊢
  have hc : c.toNat < 0x110000 := by
    have hvalid := c.valid
    show c.val.toNat < 0x110000
    rcases hvalid with h | ⟨-, h⟩ <;> omega
  split at h
  · next hlt => rw [if_pos hlt, List.mem_singleton.1 h]
  · next hlt =>
    exfalso
    rcases List.mem_cons.1 h with rfl | h
    · simp only [Nat.toUInt16, UInt16.toNat_ofNat'] at hu
      omega
    · rw [List.mem_singleton.1 h] at hu
      simp only [Nat.toUInt16, UInt16.toNat_ofNat'] at hu
      omega

/-! ### Encodings -/

/-- An encoding that extends ASCII. -/
structure Encoding where
  /-- The character that begins with a byte, and how many of the bytes after it belong to it. -/
  next : UInt8 → List UInt8 → Option (Char × Nat)
  ascii : ∀ b bs, b < 128 → next b bs = some (Char.ofNat b.toNat, 0)
  /-- An ASCII byte belongs to no other character. -/
  stop : ∀ b bs a as, a < 128 → next b (bs ++ a :: as) = next b bs
  single : ∀ b bs c, next b bs = some (c, 0) ↔ next b [] = some (c, 0)
  within : ∀ b bs c n, next b bs = some (c, n) → n ≤ bs.length
  /-- A character of several bytes has fewer units than bytes. -/
  short : ∀ b bs c n, next b bs = some (c, n) → (units c).length ≤ max 1 n

namespace Encoding
variable (e : Encoding)

def decodeFrom : Nat → List UInt8 → Option (List Char)
  | _, [] => some []
  | skip + 1, _ :: bs => decodeFrom skip bs
  | 0, b :: bs =>
    match e.next b bs with
    | some (c, n) => (decodeFrom n bs).map (c :: ·)
    | none => none

def decode (bs : List UInt8) : Option (List Char) := e.decodeFrom 0 bs

variable {e} {x : List UInt8} {t : List Char} {b : UInt8}

theorem decodeFrom_cons : e.decodeFrom 0 (b :: x) =
    (e.next b x).bind fun z => (e.decodeFrom z.2 x).map (z.1 :: ·) := by
  rw [decodeFrom]
  cases e.next b x <;> rfl

/-- An ASCII byte stands for itself and parts what is around it. -/
theorem decodeFrom_append {skip : Nat} (hskip : skip ≤ x.length) (hb : b < 128) (y : List UInt8) :
    e.decodeFrom skip (x ++ b :: y) =
      (e.decodeFrom skip x).bind fun t => (e.decode y).map fun t' => t ++ Char.ofNat b.toNat :: t' := by
  induction x generalizing skip with
  | nil =>
    obtain rfl := Nat.le_zero.1 hskip
    rw [List.nil_append, decodeFrom_cons, e.ascii b y hb]
    rfl
  | cons a x ih =>
    cases skip with
    | succ skip => exact ih (Nat.le_of_succ_le_succ hskip)
    | zero =>
      rw [List.cons_append, decodeFrom_cons, decodeFrom_cons, e.stop a x b y hb]
      cases hn : e.next a x with
      | none => rfl
      | some z =>
        obtain ⟨c, n⟩ := z
        simp only [Option.bind_some, ih (e.within a x c n hn), Option.map_bind, Option.bind_map]
        refine Option.bind_congr fun t _ => ?_
        rw [Function.comp_apply, Option.map_map]
        rfl

theorem decode_append (hb : b < 128) (x y : List UInt8) : e.decode (x ++ b :: y) =
    (e.decode x).bind fun t => (e.decode y).map fun t' => t ++ Char.ofNat b.toNat :: t' :=
  decodeFrom_append (Nat.zero_le _) hb y

/-- Reading does not make a text longer; if it keeps the length, then every byte is a character. -/
theorem decodeFrom_length {skip : Nat} (hskip : skip ≤ x.length) (h : e.decodeFrom skip x = some t) :
    (utf16 t).length + skip ≤ x.length ∧
      ((utf16 t).length = x.length → List.Forall₂ (fun b c => e.next b [] = some (c, 0)) x t) := by
  induction x generalizing skip t with
  | nil =>
    obtain rfl : [] = t := Option.some.inj (by simpa [decodeFrom] using h)
    exact ⟨by simpa using hskip, fun _ => .nil⟩
  | cons b x ih =>
    cases skip with
    | succ skip =>
      obtain ⟨hle, -⟩ := ih (Nat.le_of_succ_le_succ hskip) h
      rw [List.length_cons]
      exact ⟨by omega, fun heq => by omega⟩
    | zero =>
      rw [decodeFrom_cons] at h
      obtain ⟨⟨c, n⟩, hn, h⟩ := Option.bind_eq_some_iff.1 h
      obtain ⟨t, ht, rfl⟩ := Option.map_eq_some_iff.1 h
      obtain ⟨hle, hall⟩ := ih (e.within b x c n hn) ht
      have hshort := e.short b x c n hn
      have hpos := length_units_pos c
      simp only [utf16_cons, List.length_append, List.length_cons]
      refine ⟨by omega, fun heq => ?_⟩
      obtain rfl : n = 0 := by omega
      exact .cons ((e.single b x c).1 hn) (hall (by omega))

theorem decode_length (h : e.decode x = some t) : (utf16 t).length ≤ x.length ∧
    ((utf16 t).length = x.length → List.Forall₂ (fun b c => e.next b [] = some (c, 0)) x t) :=
  decodeFrom_length (Nat.zero_le _) h

/-- Bytes that are characters are read one by one. -/
theorem decode_forall₂ (h : List.Forall₂ (fun b c => e.next b [] = some (c, 0)) x t) : e.decode x = some t := by
  induction h with
  | nil => rfl
  | @cons b c x t hb _ ih =>
    rw [decode, decodeFrom_cons, (e.single b x c).2 hb]
    show (e.decode x).map _ = _
    rw [ih]
    rfl

/-- The number that a lead byte and the bytes after it spell. -/
def utf8Code (lead : Nat) (bs : List UInt8) : Nat := bs.foldl (fun k b => 64 * k + (b.toNat - 0x80)) lead

/-- A character of `n` bytes after the lead byte, none where they are no continuation or the number is
too small for them. -/
def utf8Tail (n lead least : Nat) (bs : List UInt8) : Option (Char × Nat) :=
  if n ≤ bs.length ∧ ((bs.take n).all fun b => 0x80 ≤ b ∧ b < 0xC0) ∧ least ≤ utf8Code lead (bs.take n) ∧
      (utf8Code lead (bs.take n)).isValidChar then
    some (Char.ofNat (utf8Code lead (bs.take n)), n)
  else none

def utf8Next (b : UInt8) (bs : List UInt8) : Option (Char × Nat) :=
  if b < 0x80 then some (Char.ofNat b.toNat, 0)
  else if b < 0xC0 then none
  else if b < 0xE0 then utf8Tail 1 (b.toNat - 0xC0) 0x80 bs
  else if b < 0xF0 then utf8Tail 2 (b.toNat - 0xE0) 0x800 bs
  else if b < 0xF8 then utf8Tail 3 (b.toNat - 0xF0) 0x10000 bs
  else none

section utf8
variable {n lead least m : Nat} {bs : List UInt8} {c : Char}

theorem utf8Tail_some (h : utf8Tail n lead least bs = some (c, m)) : m = n ∧ n ≤ bs.length ∧
    c = Char.ofNat (utf8Code lead (bs.take n)) ∧ ∀ b ∈ bs.take n, b < 0xC0 := by
  unfold utf8Tail at h
  split at h
  · next hc =>
    obtain ⟨rfl, rfl⟩ := Prod.mk.inj (Option.some.inj h)
    exact ⟨rfl, hc.1, rfl, fun b hb => (of_decide_eq_true (List.all_eq_true.1 hc.2.1 b hb)).2⟩
  · cases h

theorem utf8Tail_stop {a : UInt8} (ha : a < 128) (as : List UInt8) :
    utf8Tail n lead least (bs ++ a :: as) = utf8Tail n lead least bs := by
  by_cases hn : n ≤ bs.length
  · have hlen : n ≤ (bs ++ a :: as).length := by
      rw [List.length_append]
      omega
    rw [utf8Tail, utf8Tail, List.take_append_of_le_length hn]
    simp only [hn, hlen]
  · have hmem : a ∈ (bs ++ a :: as).take n := by
      rw [List.take_append, List.mem_append]
      obtain ⟨k, hk⟩ : ∃ k, n - bs.length = k + 1 := ⟨n - bs.length - 1, by omega⟩
      exact .inr (by rw [hk]; simp)
    rw [utf8Tail, utf8Tail, if_neg fun h => ?_, if_neg fun h => hn h.1]
    exact absurd (of_decide_eq_true (List.all_eq_true.1 h.2.1 a hmem)).1 (by simpa using ha)

theorem utf8Next_cases {b : UInt8} (h : utf8Next b bs = some (c, m)) :
    (b < 0x80 ∧ c = Char.ofNat b.toNat ∧ m = 0) ∨
      ∃ n lead least, utf8Tail n lead least bs = some (c, m) ∧ 1 ≤ n ∧ (n = 1 → lead < 0x20) := by
  unfold utf8Next at h
  split at h
  · next hb =>
    obtain ⟨rfl, rfl⟩ := Prod.mk.inj (Option.some.inj h)
    exact .inl ⟨hb, rfl, rfl⟩
  split at h
  · cases h
  split at h
  · next hb =>
    have hlt : b.toNat < 0xE0 := hb
    exact .inr ⟨_, _, _, h, Nat.le_refl 1, fun _ => by omega⟩
  split at h
  · exact .inr ⟨_, _, _, h, by omega, by simp⟩
  split at h
  · exact .inr ⟨_, _, _, h, by omega, by simp⟩
  · cases h

/-- Two bytes spell a number below 2048. -/
theorem utf8Tail_short (h : utf8Tail n lead least bs = some (c, m)) (hn : 1 ≤ n) (hlead : n = 1 → lead < 0x20) :
    (units c).length ≤ m := by
  obtain ⟨rfl, hle, rfl, hcont⟩ := utf8Tail_some h
  rcases Nat.lt_or_ge 1 m with h2 | h1
  · exact (length_units_le _).trans h2
  obtain rfl : m = 1 := by omega
  obtain ⟨b, bs, rfl⟩ := List.exists_cons_of_length_pos (Nat.lt_of_lt_of_le Nat.zero_lt_one hle)
  have hb : b.toNat < 0xC0 := hcont b (by simp)
  have hlt : utf8Code lead ((b :: bs).take 1) < 0x10000 := by
    have := hlead rfl
    show 64 * lead + (b.toNat - 0x80) < 0x10000
    omega
  rw [units_ofNat hlt]

end utf8

def utf8 : Encoding where
  next := utf8Next
  ascii b bs hb := if_pos hb
  stop b bs a as ha := by
    unfold utf8Next
    simp only [utf8Tail_stop ha]
  single b bs c := by
    constructor
    · intro h
      rcases utf8Next_cases h with ⟨hb, rfl, -⟩ | ⟨n, lead, least, htail, hn, -⟩
      · exact if_pos hb
      · have hzero := (utf8Tail_some htail).1
        omega
    · intro h
      rcases utf8Next_cases h with ⟨hb, rfl, -⟩ | ⟨n, lead, least, htail, hn, -⟩
      · exact if_pos hb
      · have hzero := (utf8Tail_some htail).1
        omega
  within b bs c n h := by
    rcases utf8Next_cases h with ⟨-, -, rfl⟩ | ⟨n', lead, least, htail, -, -⟩
    · exact Nat.zero_le _
    · obtain ⟨rfl, hle, -⟩ := utf8Tail_some htail
      exact hle
  short b bs c n h := by
    rcases utf8Next_cases h with ⟨hb, rfl, rfl⟩ | ⟨n', lead, least, htail, hn, hlead⟩
    · have hb' : b.toNat < 0x80 := hb
      rw [units_ofNat (by omega)]
      exact Nat.le_refl 1
    · exact (utf8Tail_short htail hn hlead).trans (Nat.le_max_right _ _)

end Encoding

/-! ### JSON strings -/

def hexDigit (c : Char) : Option Nat :=
  if '0' ≤ c ∧ c ≤ '9' then some (c.toNat - 48)
  else if 'a' ≤ c ∧ c ≤ 'f' then some (c.toNat - 87)
  else if 'A' ≤ c ∧ c ≤ 'F' then some (c.toNat - 55)
  else none

/-- The number that the next four digits spell. -/
def hex4 (cs : List Char) : Option Nat :=
  if cs.length < 4 then none
  else (cs.take 4).foldl (fun n c => n.bind fun n => (hexDigit c).map fun d => 16 * n + d) (some 0)

/-- What follows the `u` of an escape: the character and how many characters of the text spell it,
the `u` among them. A surrogate without its partner is no character and is not read. -/
def unicodeEscape (cs : List Char) : Option (Char × Nat) :=
  (hex4 cs).bind fun hi =>
    if hi.isValidChar then some (Char.ofNat hi, 5)
    else if hi < 0xDC00 ∧ (cs.drop 4).take 2 = ['\\', 'u'] then
      (hex4 (cs.drop 6)).bind fun lo =>
        if 0xDC00 ≤ lo ∧ lo < 0xE000 then some (Char.ofNat (0x10000 + (hi - 0xD800) * 0x400 + (lo - 0xDC00)), 11)
        else none
    else none

def simpleEscape (c : Char) : Option Char :=
  if c = '"' ∨ c = '\\' ∨ c = '/' then some c
  else if c = 'b' then some '\x08'
  else if c = 'f' then some '\x0c'
  else if c = 'n' then some '\n'
  else if c = 'r' then some '\r'
  else if c = 't' then some '\t'
  else none

/-- The character that begins with `c`, and how many of the characters after it belong to it. -/
def stringChar (c : Char) (cs : List Char) : Option (Char × Nat) :=
  if c = '\\' then
    if cs.head? = some 'u' then unicodeEscape cs.tail else (cs.head?.bind simpleEscape).map (·, 1)
  else if c < ' ' then none
  else some (c, 0)

/-- Reads a string up to its closing quote, and gives what follows. -/
def scanFrom : Nat → List Char → Option (List Char × List Char)
  | _, [] => none
  | skip + 1, _ :: cs => scanFrom skip cs
  | 0, c :: cs =>
    if c = '"' then some ([], cs)
    else match stringChar c cs with
      | some (x, n) => (scanFrom n cs).map fun y => (x :: y.1, y.2)
      | none => none

/-- A character that stands for itself inside a string. -/
def Plain (c : Char) : Prop := c ≠ '"' ∧ c ≠ '\\' ∧ ¬ c < ' '

instance : DecidablePred Plain := fun c => inferInstanceAs (Decidable (c ≠ '"' ∧ c ≠ '\\' ∧ ¬ c < ' '))

section scan
variable {s rest : List Char} {c x : Char} {n : Nat} {cs : List Char}

theorem scanFrom_cons : scanFrom 0 (c :: cs) = if c = '"' then some ([], cs)
    else (stringChar c cs).bind fun z => (scanFrom z.2 cs).map fun y => (z.1 :: y.1, y.2) := by
  rw [scanFrom]
  cases stringChar c cs <;> rfl

theorem stringChar_plain (h : Plain c) : stringChar c cs = some (c, 0) := by
  rw [stringChar, if_neg h.2.1, if_neg h.2.2]

theorem scanFrom_plain (h : ∀ c ∈ s, Plain c) (rest : List Char) :
    scanFrom 0 (s ++ '"' :: rest) = some (s, rest) := by
  induction s with
  | nil => rw [List.nil_append, scanFrom_cons, if_pos rfl]
  | cons c s ih =>
    have hc := h c List.mem_cons_self
    rw [List.cons_append, scanFrom_cons, if_neg hc.1, stringChar_plain hc]
    simp only [Option.bind_some, ih fun c hcs => h c (List.mem_cons_of_mem _ hcs)]
    rfl

theorem simpleEscape_units (h : simpleEscape c = some x) : (units x).length = 1 := by
  unfold simpleEscape at h
  split at h
  · next hc =>
    rw [← Option.some.inj h]
    rcases hc with rfl | rfl | rfl <;> rfl
  repeat' split at h
  all_goals cases h <;> rfl

theorem unicodeEscape_le (h : unicodeEscape cs = some (x, n)) : 2 ≤ n := by
  obtain ⟨hi, -, h⟩ := Option.bind_eq_some_iff.1 h
  split at h
  · obtain ⟨-, rfl⟩ := Prod.mk.inj (Option.some.inj h)
    decide
  split at h
  · obtain ⟨lo, -, h⟩ := Option.bind_eq_some_iff.1 h
    split at h
    · obtain ⟨-, rfl⟩ := Prod.mk.inj (Option.some.inj h)
      decide
    · cases h
  · cases h

/-- A character stands for itself, or the escape takes more characters than it has units. -/
theorem stringChar_cases (h : stringChar c cs = some (x, n)) :
    (x = c ∧ n = 0 ∧ c ≠ '\\' ∧ ¬ c < ' ') ∨ (units x).length ≤ n := by
  unfold stringChar at h
  split at h
  · refine .inr ?_
    split at h
    · exact (length_units_le x).trans (unicodeEscape_le h)
    · obtain ⟨y, hy, heq⟩ := Option.map_eq_some_iff.1 h
      obtain ⟨rfl, rfl⟩ := Prod.mk.inj heq
      obtain ⟨e, -, hsimple⟩ := Option.bind_eq_some_iff.1 hy
      rw [simpleEscape_units hsimple]
  · next hback =>
    split at h
    · cases h
    · next hlow =>
      obtain ⟨rfl, rfl⟩ := Prod.mk.inj (Option.some.inj h)
      exact .inl ⟨rfl, rfl, hback, hlow⟩

/-- Reading a string does not make it longer; if it keeps the length, then it has no escapes. -/
theorem scanFrom_length {skip : Nat} (h : scanFrom skip cs = some (s, rest)) :
    ∃ used, cs = used ++ '"' :: rest ∧ (utf16 s).length + skip ≤ (utf16 used).length ∧
      ((utf16 s).length = (utf16 used).length → used = s ∧ ∀ c ∈ s, Plain c) := by
  induction cs generalizing skip s with
  | nil => cases skip <;> cases h
  | cons c cs ih =>
    have hpos := length_units_pos c
    cases skip with
    | succ skip =>
      obtain ⟨used, rfl, hle, -⟩ := ih h
      refine ⟨c :: used, rfl, ?_, fun heq => ?_⟩
      · simp only [utf16_cons, List.length_append]
        omega
      · simp only [utf16_cons, List.length_append] at heq
        omega
    | zero =>
      rw [scanFrom_cons] at h
      split at h
      · next hc =>
        obtain ⟨rfl, rfl⟩ := Prod.mk.inj (Option.some.inj h)
        exact ⟨[], by rw [hc]; rfl, Nat.le_refl _, fun _ => ⟨rfl, by simp⟩⟩
      · next hc =>
        obtain ⟨⟨x, n⟩, hx, h⟩ := Option.bind_eq_some_iff.1 h
        obtain ⟨⟨s', rest'⟩, hs, heq⟩ := Option.map_eq_some_iff.1 h
        obtain ⟨rfl, rfl⟩ := Prod.mk.inj heq
        obtain ⟨used, rfl, hle, hsame⟩ := ih hs
        refine ⟨c :: used, rfl, ?_⟩
        simp only [utf16_cons, List.length_append]
        rcases stringChar_cases hx with ⟨rfl, rfl, hback, hlow⟩ | hshort
        · refine ⟨by omega, fun heq => ?_⟩
          obtain ⟨rfl, hplain⟩ := hsame (by omega)
          exact ⟨rfl, List.forall_mem_cons.2 ⟨⟨hc, hback, hlow⟩, hplain⟩⟩
        · exact ⟨by omega, fun heq => by omega⟩

end scan

end Lib
