import Mathlib.Data.Nat.Digits.Defs
import Mathlib.Data.List.OfFn

/-!
# Straight code on a stack

A machine of words of `w` bytes with registers, a stack pointer and a memory of bytes, and what is
besides them: `floats` are registers that no instruction names, `world` is what the callees work on. A
callee is a function on machines, and what its calling convention promises is a hypothesis
(`Convention.Obeys`). The rule is `exec_saved`: to push registers, run code that keeps the stack above
the pointer, and pop them again restores the registers.
-/

namespace Lib

/-- The bytes of a word, the lowest first. -/
abbrev Word (w : Nat) := Fin w → UInt8

def Word.toNat {w : Nat} (v : Word w) : Nat := Nat.ofDigits 256 (List.ofFn fun i => (v i).toNat)

abbrev Bytes := Nat → UInt8

namespace Bytes
variable {w : Nat} {m m' : Bytes} {a b : Nat} {v : Word w}

def load (m : Bytes) (a : Nat) : Word w := fun i => m (a + i)

def store (m : Bytes) (a : Nat) (v : Word w) : Bytes :=
  fun b => if h : a ≤ b ∧ b - a < w then v ⟨b - a, h.2⟩ else m b

theorem load_congr (h : ∀ b, a ≤ b → b < a + w → m' b = m b) : (m'.load a : Word w) = m.load a := by
  funext i
  exact h (a + i) (Nat.le_add_right _ _) (Nat.add_lt_add_left i.isLt a)

@[simp] theorem load_store (m : Bytes) (a : Nat) (v : Word w) : (m.store a v).load a = v := by
  funext i
  show (if h : a ≤ a + i ∧ a + i - a < w then v ⟨a + i - a, h.2⟩ else m (a + i)) = v i
  rw [dif_pos ⟨Nat.le_add_right _ _, by have := i.isLt; omega⟩]
  congr
  omega

theorem store_of_outside (h : b < a ∨ a + w ≤ b) : m.store a v b = m b := dif_neg (by omega)

theorem load_store_of_disjoint {v : Word w} (h : b + w ≤ a ∨ a + w ≤ b) :
    ((m.store a v).load b : Word w) = m.load b :=
  load_congr fun c hc hlt => store_of_outside (by omega)

end Bytes

structure Machine (w : Nat) (ρ φ σ : Type) where
  regs : ρ → Word w
  sp : Nat
  mem : Bytes
  floats : φ
  world : σ

/-- `pushAt` pushes the word that lies above the pointer, `call` pushes the address it is to return
to and hands over to the callee. -/
inductive Instr (w : Nat) (ρ φ σ : Type) where
  | push (r : ρ)
  | pushAt (offset : Nat)
  | pop (r : ρ)
  | sub (n : Nat)
  | add (n : Nat)
  | call (back : Word w) (callee : Machine w ρ φ σ → Machine w ρ φ σ)

section exec
variable {w : Nat} {ρ φ σ : Type} [DecidableEq ρ]

def Machine.pushWord (m : Machine w ρ φ σ) (v : Word w) : Machine w ρ φ σ :=
  { m with sp := m.sp - w, mem := m.mem.store (m.sp - w) v }

def Instr.exec (m : Machine w ρ φ σ) : Instr w ρ φ σ → Machine w ρ φ σ
  | .push r => m.pushWord (m.regs r)
  | .pushAt offset => m.pushWord (m.mem.load (m.sp + offset))
  | .pop r => { m with regs := Function.update m.regs r (m.mem.load m.sp), sp := m.sp + w }
  | .sub n => { m with sp := m.sp - n }
  | .add n => { m with sp := m.sp + n }
  | .call back callee => callee (m.pushWord back)

def exec (m : Machine w ρ φ σ) (code : List (Instr w ρ φ σ)) : Machine w ρ φ σ := code.foldl Instr.exec m

/-- Returns and takes `n` bytes off the stack: the address and what is left. -/
def Machine.ret (n : Nat) (m : Machine w ρ φ σ) : Word w × Machine w ρ φ σ :=
  (m.mem.load m.sp, { m with sp := m.sp + w + n })

/-- The code, with registers pushed before it and popped after it. -/
def saved (rs : List ρ) (body : List (Instr w ρ φ σ)) : List (Instr w ρ φ σ) :=
  match rs with
  | [] => body
  | r :: rs => .push r :: (saved rs body ++ [.pop r])

/-- The code leaves the stack from the pointer up to `top` as it is. -/
structure Keeps (top : Nat) (code : List (Instr w ρ φ σ)) (m : Machine w ρ φ σ) : Prop where
  sp : (exec m code).sp = m.sp
  mem : ∀ a, m.sp ≤ a → a < top → (exec m code).mem a = m.mem a

theorem exec_append (m : Machine w ρ φ σ) (code code' : List (Instr w ρ φ σ)) :
    exec m (code ++ code') = exec (exec m code) code' := List.foldl_append

variable {m : Machine w ρ φ σ} {top : Nat} {rs : List ρ} {body : List (Instr w ρ φ σ)}

/-- Pushing moves the pointer and writes below it. -/
theorem exec_push (rs : List ρ) (m : Machine w ρ φ σ) :
    (exec m (rs.map .push)).sp = m.sp - rs.length * w ∧ (exec m (rs.map .push)).regs = m.regs ∧
      (exec m (rs.map .push)).floats = m.floats ∧ (exec m (rs.map .push)).world = m.world := by
  induction rs generalizing m with
  | nil => simp [exec]
  | cons r rs ih =>
    obtain ⟨hsp, hrest⟩ := ih (Instr.exec m (.push r))
    refine ⟨?_, hrest⟩
    have hpush : (Instr.exec m (.push r)).sp = m.sp - w := rfl
    rw [hpush] at hsp
    rw [List.map_cons, exec, List.foldl_cons, ← exec, hsp, List.length_cons, Nat.succ_mul]
    omega

/-- The registers are restored, and everything else is what the body has made of it. -/
theorem exec_saved (hroom : rs.length * w ≤ m.sp) (htop : m.sp ≤ top) (hbody : Keeps top body (exec m (rs.map .push))) :
    Keeps top (saved rs body) m ∧ (∀ r ∈ rs, (exec m (saved rs body)).regs r = m.regs r) ∧
      (∀ r ∉ rs, (exec m (saved rs body)).regs r = (exec (exec m (rs.map .push)) body).regs r) ∧
      (exec m (saved rs body)).floats = (exec (exec m (rs.map .push)) body).floats ∧
      (exec m (saved rs body)).world = (exec (exec m (rs.map .push)) body).world := by
  induction rs generalizing m with
  | nil => exact ⟨hbody, by simp, fun _ _ => rfl, rfl, rfl⟩
  | cons r rs ih =>
    rw [List.length_cons, Nat.succ_mul] at hroom
    -- the state inside the outermost pair
    obtain ⟨m₁, hm₁⟩ : ∃ m₁, m₁ = Instr.exec m (.push r) := ⟨_, rfl⟩
    have hsp₁ : m₁.sp = m.sp - w := by rw [hm₁]; rfl
    have hpush : exec m ((r :: rs).map .push) = exec m₁ (rs.map .push) := by rw [hm₁]; rfl
    have hsaved : exec m (saved (r :: rs) body) = Instr.exec (exec m₁ (saved rs body)) (.pop r) := by
      rw [saved, exec, List.foldl_cons, ← exec, exec_append, hm₁]
      rfl
    rw [hpush] at hbody ⊢
    obtain ⟨hkeeps, hin, hout, hfloats, hworld⟩ := ih (by omega) (by omega) hbody
    have hpop : exec m (saved (r :: rs) body) = { exec m₁ (saved rs body) with
        regs := Function.update (exec m₁ (saved rs body)).regs r (m.regs r), sp := m.sp } := by
      have hload : ((exec m₁ (saved rs body)).mem.load m₁.sp : Word w) = m.regs r := by
        rw [Bytes.load_congr fun b hb hlt => hkeeps.mem b hb (by omega), hm₁]
        exact Bytes.load_store m.mem (m.sp - w) (m.regs r)
      rw [hsaved, Instr.exec, hkeeps.sp, hload, hsp₁]
      congr 1
      omega
    rw [hpop]
    refine ⟨⟨by rw [hpop], fun a ha hlt => ?_⟩, fun q hq => ?_, fun q hq => ?_, hfloats, hworld⟩
    · rw [hpop]
      show (exec m₁ (saved rs body)).mem a = m.mem a
      rw [hkeeps.mem a (by omega) hlt, hm₁]
      exact Bytes.store_of_outside (.inr (by omega))
    · by_cases hqr : q = r
      · rw [hqr]
        exact Function.update_self ..
      · show Function.update _ r _ q = _
        rw [Function.update_of_ne hqr, hin q ((List.mem_cons.1 hq).resolve_left hqr), hm₁]
        rfl
    · rw [List.mem_cons, not_or] at hq
      show Function.update _ r _ q = _
      rw [Function.update_of_ne hq.1, hout q hq.2]

end exec

/-! ### Calling conventions -/

/-- What a convention asks of a callee. It is entered with the pointer at the return address. -/
structure Convention (ρ : Type) where
  /-- the callee puts it back -/
  kept : ρ → Bool
  /-- bytes above the return address that belong to the callee -/
  home : Nat
  /-- bytes above the return address that the callee takes off the stack -/
  pops : Nat
  align : Nat

namespace Convention
variable {w : Nat} {ρ φ σ : Type}

/-- A state that a callee may be entered in, when it needs `room` bytes of stack. -/
structure Entered (cc : Convention ρ) (room top : Nat) (m : Machine w ρ φ σ) : Prop where
  aligned : (m.sp + w) % cc.align = 0
  room : room ≤ m.sp
  top : m.sp + w + cc.home ≤ top

/-- The callee does what the convention asks, and `effect` to the world. -/
structure Obeys (cc : Convention ρ) (room top : Nat) (effect : Machine w ρ φ σ → σ)
    (callee : Machine w ρ φ σ → Machine w ρ φ σ) : Prop where
  sp : ∀ m, cc.Entered room top m → (callee m).sp = m.sp + w + cc.pops
  regs : ∀ m, cc.Entered room top m → ∀ r, cc.kept r = true → (callee m).regs r = m.regs r
  mem : ∀ m, cc.Entered room top m → ∀ a, m.sp + w + cc.home ≤ a → a < top → (callee m).mem a = m.mem a
  world : ∀ m, cc.Entered room top m → (callee m).world = effect m

variable {cc : Convention ρ} {room top : Nat} {effect : Machine w ρ φ σ → σ}
  {callee : Machine w ρ φ σ → Machine w ρ φ σ} {m : Machine w ρ φ σ} {back : Word w}

theorem entered_call (haligned : m.sp % cc.align = 0) (hroom : room + w ≤ m.sp) (htop : m.sp + cc.home ≤ top) :
    cc.Entered room top (m.pushWord back) := by
  have hsp : (m.pushWord back).sp = m.sp - w := rfl
  refine ⟨?_, ?_, ?_⟩
  · rw [hsp, Nat.sub_add_cancel (by omega)]
    exact haligned
  · rw [hsp]
    omega
  · rw [hsp]
    omega

/-- A call of a callee that takes nothing off the stack, with its home below what is kept. -/
theorem Obeys.keeps (h : cc.Obeys room top effect callee) (hpops : cc.pops = 0) (haligned : m.sp % cc.align = 0)
    (hroom : room + w ≤ m.sp) (htop : m.sp + cc.home ≤ top) :
    (callee (m.pushWord back)).sp = m.sp ∧
      ∀ a, m.sp + cc.home ≤ a → a < top → (callee (m.pushWord back)).mem a = m.mem a := by
  have he : cc.Entered room top (m.pushWord back) := entered_call haligned hroom htop
  have hsp : (m.pushWord back).sp = m.sp - w := rfl
  refine ⟨?_, fun a ha hlt => ?_⟩
  · rw [h.sp _ he, hpops, hsp]
    omega
  · rw [h.mem _ he a (by omega) hlt]
    exact Bytes.store_of_outside (.inr (by omega))

end Convention

end Lib
