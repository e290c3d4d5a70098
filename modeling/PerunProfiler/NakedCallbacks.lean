import PerunProfiler.Callbacks
import PerunProfiler.Lib.Machine

/-!
# The naked callbacks

The runtime calls `EnterNaked`, `LeaveNaked` and `TailcallNaked`, which must leave the registers of the
program alone; they save them and call the stubs. `asmhelpers.S` is for the System V convention,
`nakedcallbacks.asm` for 64-bit Windows, and `CoreProfiler.cpp` has them for 32-bit Windows. The world
that a stub works on is the profiler.
-/

namespace Perun
open Lib

/-- What a stub makes of the profiler: a callback about the function whose number it is given. -/
def stubEffect (callback : FunctionID → Callback) (functionId : Nat) (s : Except Fault CoreProfiler) :
    Except Fault CoreProfiler := s.bind fun s => step s (callback functionId)

section hook
variable {w : Nat} {ρ φ : Type}

/-- What a hook ought to do, on the return that takes `pops` bytes of arguments off the stack: nothing
but the effect of its stub. -/
structure Transparent (top pops : Nat) (effect : Except Fault CoreProfiler → Except Fault CoreProfiler)
    (m : Machine w ρ φ (Except Fault CoreProfiler)) (r : Word w × Machine w ρ φ (Except Fault CoreProfiler)) :
    Prop where
  address : r.1 = m.mem.load m.sp
  sp : r.2.sp = m.sp + w + pops
  regs : r.2.regs = m.regs
  stack : ∀ a, m.sp + w ≤ a → a < top → r.2.mem a = m.mem a
  world : r.2.world = effect m.world

/-- A callee that clears every register that the convention lets it. -/
def clearing (cc : Convention ρ) (effect : Machine w ρ φ (Except Fault CoreProfiler) → Except Fault CoreProfiler)
    (m : Machine w ρ φ (Except Fault CoreProfiler)) : Machine w ρ φ (Except Fault CoreProfiler) :=
  { m with
    regs := fun r => if cc.kept r then m.regs r else fun _ => 0
    sp := m.sp + w + cc.pops
    world := effect m }

theorem clearing_obeys (cc : Convention ρ) (room top : Nat)
    (effect : Machine w ρ φ (Except Fault CoreProfiler) → Except Fault CoreProfiler) :
    cc.Obeys room top effect (clearing cc effect) where
  sp _ _ := rfl
  regs _ _ _ hr := if_pos hr
  mem _ _ _ _ _ := rfl
  world _ _ := rfl

end hook

/-! ### 64 bits -/

inductive Register where
  | rax
  | rcx
  | rdx
  | rbx
  | rbp
  | rsi
  | rdi
  | r8
  | r9
  | r10
  | r11
  | r12
  | r13
  | r14
  | r15
deriving DecidableEq

/-- The processor when a hook is entered; `φ` are the floating point registers. -/
abbrev Processor (φ : Type) := Machine 8 Register φ (Except Fault CoreProfiler)

abbrev Code (φ : Type) := List (Instr 8 Register φ (Except Fault CoreProfiler))

inductive Platform where
  | systemV
  | windows
deriving DecidableEq

namespace Platform
variable {φ : Type}

def convention : Platform → Convention Register
  | systemV => { kept := (· ∈ [.rbx, .rbp, .r12, .r13, .r14, .r15]), home := 0, pops := 0, align := 16 }
  | windows => { kept := (· ∈ [.rbx, .rbp, .rdi, .rsi, .r12, .r13, .r14, .r15]), home := 32, pops := 0, align := 16 }

/-- The register of the first argument. -/
def argument : Platform → Register
  | systemV => .rdi
  | windows => .rcx

/-- `EnterNaked`, `LeaveNaked` and `TailcallNaked` up to the return, each with its stub. -/
def naked (back : Word 8) (stub : Processor φ → Processor φ) : Platform → Code φ
  | systemV => [.push .rax, .push .rcx, .push .rdx, .push .rsi, .push .rdi, .push .r8, .push .r9, .push .r10,
      .push .r11, .call back stub, .pop .r11, .pop .r10, .pop .r9, .pop .r8, .pop .rdi, .pop .rsi, .pop .rdx,
      .pop .rcx, .pop .rax]
  | windows => [.push .rax, .push .rcx, .push .rdx, .push .r8, .push .r9, .push .r10, .push .r11, .sub 32,
      .call back stub, .add 32, .pop .r11, .pop .r10, .pop .r9, .pop .r8, .pop .rdx, .pop .rcx, .pop .rax]

def saves : Platform → List Register
  | systemV => [.rax, .rcx, .rdx, .rsi, .rdi, .r8, .r9, .r10, .r11]
  | windows => [.rax, .rcx, .rdx, .r8, .r9, .r10, .r11]

/-- What stands between the pushes and the pops. -/
def body (back : Word 8) (stub : Processor φ → Processor φ) : Platform → Code φ
  | systemV => [.call back stub]
  | windows => [.sub 32, .call back stub, .add 32]

theorem naked_eq (p : Platform) (back : Word 8) (stub : Processor φ → Processor φ) :
    p.naked back stub = saved p.saves (p.body back stub) := by
  cases p <;> rfl

/-- The state in which the stub is called. -/
def calling (m : Processor φ) (p : Platform) : Processor φ :=
  { exec m (p.saves.map .push) with sp := m.sp - p.saves.length * 8 - p.convention.home }

/-- The bytes of stack a hook needs besides those of its stub. -/
def depth : Platform → Nat
  | systemV => 80
  | windows => 96

end Platform

section transparent
variable {φ : Type} {p : Platform} {room top : Nat} {callback : FunctionID → Callback}
  {stub : Processor φ → Processor φ} {m : Processor φ}

/-- Whatever the convention lets the stub change is saved. -/
theorem Platform.kept_of_not_mem {r : Register} (h : r ∉ p.saves) : p.convention.kept r = true := by
  cases p <;> cases r <;> first | rfl | exact absurd (by decide) h

theorem Platform.exec_body (p : Platform) (back : Word 8) (stub : Processor φ → Processor φ) (m : Processor φ) :
    exec (exec m (p.saves.map .push)) (p.body back stub) =
      { stub ((p.calling m).pushWord back) with
        sp := (stub ((p.calling m).pushWord back)).sp + p.convention.home } := by
  obtain ⟨hsp, -⟩ := exec_push p.saves m
  cases p with
  | systemV =>
    have hcalling : Platform.systemV.calling m = exec m (Platform.systemV.saves.map .push) := by
      rw [Platform.calling, Platform.convention, Nat.sub_zero, ← hsp]
    rw [hcalling]
    rfl
  | windows =>
    have hcalling : Platform.windows.calling m = Instr.exec (exec m (Platform.windows.saves.map .push)) (.sub 32) := by
      rw [Platform.calling, ← hsp]
      rfl
    rw [hcalling]
    rfl

/-- For every stub that obeys the convention, the hook restores all registers but those for floating
point numbers, which are as the stub leaves them. -/
theorem naked_transparent (p : Platform) (back : Word 8)
    (hstub : p.convention.Obeys room top (fun m => stubEffect callback (m.regs p.argument).toNat m.world) stub)
    (haligned : (m.sp + 8) % 16 = 0) (hroom : room + p.depth ≤ m.sp) (htop : m.sp + 8 ≤ top) :
    Transparent top 0 (stubEffect callback (m.regs p.argument).toNat) m ((exec m (p.naked back stub)).ret 0) ∧
      ((exec m (p.naked back stub)).ret 0).2.floats = (stub ((p.calling m).pushWord back)).floats := by
  obtain ⟨hsp, hregs, -, hworld⟩ := exec_push p.saves m
  have hdepth : p.saves.length * 8 + p.convention.home + 8 = p.depth := by cases p <;> rfl
  have halign : p.convention.align = 16 := by cases p <;> rfl
  have hmod : p.depth % 16 = 0 := by cases p <;> rfl
  have hcalling : (p.calling m).sp = m.sp - p.saves.length * 8 - p.convention.home := rfl
  have hcallAligned : (p.calling m).sp % p.convention.align = 0 := by
    rw [halign, hcalling]
    omega
  have hpops : p.convention.pops = 0 := by cases p <;> rfl
  obtain ⟨hstubsp, hstubmem⟩ : (stub ((p.calling m).pushWord back)).sp = (p.calling m).sp ∧ _ :=
    hstub.keeps hpops hcallAligned (by omega) (by omega)
  have hentered : p.convention.Entered room top ((p.calling m).pushWord back) :=
    Convention.entered_call hcallAligned (by omega) (by omega)
  have hbody := p.exec_body back stub m
  have hkeeps : Keeps top (p.body back stub) (exec m (p.saves.map .push)) := by
    refine ⟨?_, fun a ha hlt => ?_⟩
    · rw [hbody, hsp]
      show (stub _).sp + _ = _
      rw [hstubsp, hcalling]
      omega
    · rw [hbody]
      show (stub _).mem a = _
      rw [hsp] at ha
      rw [hstubmem a (by omega) hlt]
      rfl
  obtain ⟨hkeeps, hin, hout, hfloats, hw⟩ := exec_saved (by omega) (by omega) hkeeps
  rw [← p.naked_eq] at hkeeps hin hout hfloats hw
  rw [hbody] at hout hfloats hw
  refine ⟨⟨?_, ?_, ?_, fun a ha hlt => ?_, ?_⟩, hfloats⟩
  · show (exec m (p.naked back stub)).mem.load (exec m (p.naked back stub)).sp = _
    rw [hkeeps.sp]
    exact Bytes.load_congr fun b hb hlt => hkeeps.mem b hb (by omega)
  · show (exec m (p.naked back stub)).sp + 8 + 0 = _
    rw [hkeeps.sp]
  · funext r
    show (exec m (p.naked back stub)).regs r = _
    by_cases hr : r ∈ p.saves
    · exact hin r hr
    · rw [hout r hr]
      show (stub _).regs r = _
      rw [hstub.regs _ hentered r (Platform.kept_of_not_mem hr)]
      exact congrFun hregs r
  · exact hkeeps.mem a (by omega) hlt
  · show (exec m (p.naked back stub)).world = _
    rw [hw]
    show (stub _).world = _
    rw [hstub.world _ hentered]
    show stubEffect callback (Word.toNat ((exec m (p.saves.map .push)).regs p.argument))
      (exec m (p.saves.map .push)).world = _
    rw [hregs, hworld]

end transparent

/-- A processor whose registers hold the function number 7, with its stack pointer at 968. -/
def entering7 : Processor Unit where
  regs _ i := if i = 0 then 7 else 0
  sp := 968
  mem a := a.toUInt8
  floats := ()
  world := run step Config.plain.start [.trace 7]

/-- `EnterStub`, called by thread 1, which clears what it may. -/
def enterStub7 (p : Platform) : Processor Unit → Processor Unit :=
  clearing p.convention fun m => stubEffect (.enterStub · 1 ⟨1, 1⟩) (m.regs p.argument).toNat m.world

theorem naked_transparent_entering7 :
    Transparent 2000 0 (stubEffect (.enterStub · 1 ⟨1, 1⟩) (entering7.regs .rcx).toNat) entering7
        ((exec entering7 (Platform.windows.naked (fun _ => 1) (enterStub7 .windows))).ret 0) ∧
      ((exec entering7 (Platform.windows.naked (fun _ => 1) (enterStub7 .windows))).ret 0).2.floats =
        (enterStub7 .windows ((Platform.windows.calling entering7).pushWord fun _ => 1)).floats :=
  naked_transparent .windows (fun _ => 1) (clearing_obeys _ 100 2000 _) (by decide) (by decide) (by decide)

/-! ### 32 bits -/

namespace X86

inductive Register where
  | eax
  | ecx
  | edx
  | ebx
  | ebp
  | esi
  | edi
deriving DecidableEq

abbrev Processor (φ : Type) := Machine 4 Register φ (Except Fault CoreProfiler)

/-- `__stdcall` of two arguments of 4 bytes, which the callee takes off the stack. -/
def stdcall : Convention Register where
  kept r := r ∈ [.ebx, .ebp, .esi, .edi]
  home := 8
  pops := 8
  align := 4

/-- The first argument, above the return address. -/
def argument {φ : Type} (m : Processor φ) : Nat := Word.toNat (m.mem.load (m.sp + 4) : Word 4)

variable {φ : Type} {room top : Nat} {callback : FunctionID → Callback} {stub : Processor φ → Processor φ}
  {m : Processor φ}

/-- `EnterNaked`, `LeaveNaked` and `TailcallNaked` up to the return, each with its stub. -/
def naked (back : Word 4) (stub : Processor φ → Processor φ) :
    List (Instr 4 Register φ (Except Fault CoreProfiler)) :=
  [.push .eax, .push .ecx, .push .edx, .pushAt 16, .call back stub, .pop .edx, .pop .ecx, .pop .eax]

/-- What stands on the stack when the stub is called. -/
structure Pushed (m m₁ : Processor φ) : Prop where
  sp : m₁.sp = m.sp - 16
  argument : (m₁.mem.load (m.sp - 16) : Word 4) = m.mem.load (m.sp + 4)
  ecx : m₁.mem.load (m.sp - 8) = m.regs .ecx
  eax : m₁.mem.load (m.sp - 4) = m.regs .eax
  above : ∀ a, m.sp ≤ a → m₁.mem a = m.mem a
  regs : m₁.regs = m.regs
  world : m₁.world = m.world

theorem exec_pushes (hroom : 16 ≤ m.sp) : Pushed m (exec m [.push .eax, .push .ecx, .push .edx, .pushAt 16]) := by
  obtain ⟨n, hn⟩ : ∃ n, m.sp = n + 16 := ⟨m.sp - 16, by omega⟩
  have hmem : (exec m [.push .eax, .push .ecx, .push .edx, .pushAt 16]).mem =
      (((m.mem.store (n + 12) (m.regs .eax)).store (n + 8) (m.regs .ecx)).store (n + 4) (m.regs .edx)).store n
        ((((m.mem.store (n + 12) (m.regs .eax)).store (n + 8) (m.regs .ecx)).store (n + 4) (m.regs .edx)).load
          (n + 20) : Word 4) := by
    simp only [exec, List.foldl_cons, List.foldl_nil, Instr.exec, Machine.pushWord, hn]
    rfl
  refine ⟨rfl, ?_, ?_, ?_, fun a ha => ?_, rfl, rfl⟩
  · rw [hmem, hn, Nat.add_sub_cancel, Bytes.load_store, Bytes.load_store_of_disjoint (by omega),
      Bytes.load_store_of_disjoint (by omega), Bytes.load_store_of_disjoint (by omega)]
  · rw [hmem, hn, show n + 16 - 8 = n + 8 by omega, Bytes.load_store_of_disjoint (by omega),
      Bytes.load_store_of_disjoint (by omega), Bytes.load_store]
  · rw [hmem, hn, show n + 16 - 4 = n + 12 by omega, Bytes.load_store_of_disjoint (by omega),
      Bytes.load_store_of_disjoint (by omega), Bytes.load_store_of_disjoint (by omega), Bytes.load_store]
  · rw [hmem, Bytes.store_of_outside (by omega), Bytes.store_of_outside (by omega), Bytes.store_of_outside (by omega),
      Bytes.store_of_outside (by omega)]

/-- What the hook does instead of being transparent: every register is popped from the place of the one
before it, the return address goes to `eax` and the number of the function is returned to. -/
structure Astray (effect : Except Fault CoreProfiler → Except Fault CoreProfiler) (m : Processor φ)
    (r : Word 4 × Processor φ) : Prop where
  address : r.1 = m.mem.load (m.sp + 4)
  sp : r.2.sp = m.sp + 16
  eax : r.2.regs .eax = m.mem.load m.sp
  ecx : r.2.regs .ecx = m.regs .eax
  edx : r.2.regs .edx = m.regs .ecx
  world : r.2.world = effect m.world

/-- The stub takes two arguments off the stack and was given one. -/
theorem naked_astray (back : Word 4)
    (hstub : stdcall.Obeys room top (fun m => stubEffect callback (argument m) m.world) stub)
    (haligned : m.sp % 4 = 0) (hroom : room + 20 ≤ m.sp) (htop : m.sp + 8 ≤ top) :
    Astray (stubEffect callback (argument m)) m ((exec m (naked back stub)).ret 8) := by
  have hpushed := exec_pushes (m := m) (by omega)
  obtain ⟨m₁, hm₁⟩ : ∃ m₁, m₁ = exec m [.push .eax, .push .ecx, .push .edx, .pushAt 16] := ⟨_, rfl⟩
  rw [← hm₁] at hpushed
  have hsp := hpushed.sp
  have hentered : stdcall.Entered room top (m₁.pushWord back) :=
    Convention.entered_call (by show m₁.sp % 4 = 0; omega) (by omega) (by show m₁.sp + 8 ≤ top; omega)
  have hentry : (m₁.pushWord back).sp = m.sp - 20 := by
    show m₁.sp - 4 = _
    omega
  obtain ⟨m₂, hm₂⟩ : ∃ m₂, m₂ = stub (m₁.pushWord back) := ⟨_, rfl⟩
  have hsp₂ : m₂.sp = m.sp - 8 := by
    rw [hm₂, hstub.sp _ hentered, hentry]
    show m.sp - 20 + 4 + 8 = _
    omega
  have hmem : ∀ a, m.sp - 8 ≤ a → a < m.sp + 8 → m₂.mem a = m₁.mem a := by
    intro a ha hlt
    rw [hm₂, hstub.mem _ hentered a (by rw [hentry]; show m.sp - 20 + 4 + 8 ≤ a; omega) (by omega)]
    exact Bytes.store_of_outside (.inr (by omega))
  have hload : ∀ a, m.sp - 8 ≤ a → a + 4 ≤ m.sp + 8 → (m₂.mem.load a : Word 4) = m₁.mem.load a :=
    fun a ha hle => Bytes.load_congr fun b hb hlt => hmem b (by omega) (by omega)
  have habove : ∀ a, m.sp ≤ a → (m₁.mem.load a : Word 4) = m.mem.load a :=
    fun a ha => Bytes.load_congr fun b hb _ => hpushed.above b (by omega)
  have hexec : exec m (naked back stub) = exec m₂ [.pop .edx, .pop .ecx, .pop .eax] := by
    rw [hm₂, hm₁]
    rfl
  have hworld : m₂.world = stubEffect callback (argument m) m.world := by
    have harg : ((m₁.pushWord back).mem.load ((m₁.pushWord back).sp + 4) : Word 4) = m.mem.load (m.sp + 4) := by
      rw [hentry, show m.sp - 20 + 4 = m.sp - 16 by omega, ← hpushed.argument]
      exact Bytes.load_store_of_disjoint (.inr (by omega))
    rw [hm₂, hstub.world _ hentered, argument, harg]
    exact congrArg _ hpushed.world
  rw [hexec]
  refine ⟨?_, ?_, ?_, ?_, ?_, hworld⟩
  · show m₂.mem.load (m₂.sp + 4 + 4 + 4) = _
    rw [hsp₂, show m.sp - 8 + 4 + 4 + 4 = m.sp + 4 by omega, hload _ (by omega) (by omega), habove _ (by omega)]
  · show m₂.sp + 4 + 4 + 4 + 4 + 8 = _
    omega
  · show m₂.mem.load (m₂.sp + 4 + 4) = _
    rw [hsp₂, show m.sp - 8 + 4 + 4 = m.sp by omega, hload _ (by omega) (by omega), habove _ (by omega)]
  · show m₂.mem.load (m₂.sp + 4) = _
    rw [hsp₂, show m.sp - 8 + 4 = m.sp - 4 by omega, hload _ (by omega) (by omega), hpushed.eax]
  · show m₂.mem.load m₂.sp = _
    rw [hsp₂, hload _ (by omega) (by omega), hpushed.ecx]

/-- `EnterStub`, called by thread 1, which clears what it may. -/
def enterStub7 : Processor Unit → Processor Unit :=
  clearing stdcall fun m => stubEffect (.enterStub · 1 ⟨1, 1⟩) (argument m) m.world

/-- A processor whose stack pointer is at 960. -/
def entering7 : Processor Unit where
  regs _ _ := 0
  sp := 960
  mem a := if a = 964 then 7 else 0
  floats := ()
  world := run step Config.plain.start [.trace 7]

theorem naked_astray_entering7 :
    Astray (stubEffect (.enterStub · 1 ⟨1, 1⟩) (argument entering7)) entering7
      ((exec entering7 (naked (fun _ => 1) enterStub7)).ret 8) :=
  naked_astray (fun _ => 1) (clearing_obeys _ 100 2000 _) (by decide) (by decide) (by decide)

end X86

end Perun
