import Mathlib.Data.List.Basic
import PerunProfiler.Lib.Run

/-!
# Two writers of one log

The first writer writes sections, message by message; the second one writes single messages at any
time. `serial`: when it writes between sections only, every section is in the log in one piece.
-/

namespace Lib

/-- The log, the rest of the section under way and the sections to come. -/
structure Writer (μ : Type) where
  log : List μ
  current : List μ
  later : List (List μ)

/-- The next message of the first writer, or a message of the second one. -/
inductive Write (γ : Type) where
  | next
  | other (g : γ)
deriving DecidableEq

namespace Writer

variable {μ γ : Type} {render : γ → μ} {w w' : Writer μ} {e : Write γ} {es : List (Write γ)}

/-- One write; the first writer stops when no message is left. -/
def step (render : γ → μ) (w : Writer μ) : Write γ → Except Unit (Writer μ)
  | .other g => .ok { w with log := w.log ++ [render g] }
  | .next =>
    match w.current, w.later with
    | m :: current, later => .ok ⟨w.log ++ [m], current, later⟩
    | [], (m :: current) :: later => .ok ⟨w.log ++ [m], current, later⟩
    | [], _ => .error ()

/-- A message of the second writer, and whether no section is under way before it. -/
def output (w : Writer μ) : Write γ → Option (Bool × γ)
  | .other g => some (w.current.isEmpty, g)
  | .next => none

def others (render : γ → μ) : Writer μ → List (Write γ) → List (Bool × γ) := outputs (step render) output

theorem step_next (h : step render w .next = .ok w') : ∃ m, w'.log = w.log ++ [m] ∧
    ((w.current = m :: w'.current ∧ w.later = w'.later) ∨
      w.current = [] ∧ w.later = (m :: w'.current) :: w'.later) := by
  obtain ⟨log, _ | ⟨m, current⟩, later⟩ := w
  · obtain _ | ⟨_ | ⟨m, S⟩, later⟩ := later
    · cases h
    · cases h
    · cases h
      exact ⟨m, rfl, .inr ⟨rfl, rfl⟩⟩
  · cases h
    exact ⟨m, rfl, .inl ⟨rfl, rfl⟩⟩

theorem run_current (log current : List μ) (later : List (List μ)) :
    run (step render) ⟨log, current, later⟩ (List.replicate current.length .next) =
      .ok ⟨log ++ current, [], later⟩ := by
  induction current generalizing log with
  | nil => simp
  | cons m current ih =>
    rw [List.length_cons, List.replicate_succ]
    refine run_cons.2 ⟨_, rfl, ?_⟩
    rw [ih, List.append_assoc]
    rfl

theorem run_next (log : List μ) {sections : List (List μ)} (hne : [] ∉ sections) :
    run (step render) ⟨log, [], sections⟩ (List.replicate sections.flatten.length .next) =
      .ok ⟨log ++ sections.flatten, [], []⟩ := by
  induction sections generalizing log with
  | nil => simp
  | cons S sections ih =>
    rw [List.mem_cons, not_or] at hne
    obtain _ | ⟨m, S⟩ := S
    · exact absurd rfl hne.1
    rw [List.flatten_cons, List.length_append, List.length_cons, Nat.add_right_comm, List.replicate_succ,
      List.replicate_add]
    refine run_cons.2 ⟨⟨log ++ [m], S, sections⟩, rfl, run_append.2 ⟨_, run_current _ _ _, ?_⟩⟩
    rw [ih _ hne.2]
    simp

/-! ### Writing between sections -/

/-- A piece of the log: a whole section or a message of the second writer. -/
def block (render : γ → μ) : List μ ⊕ γ → List μ
  | .inl S => S
  | .inr g => [render g]

/-- The log after `log₀` is `blocks` and the part `done` of the section under way. -/
structure Serial (render : γ → μ) (log₀ : List μ) (sections : List (List μ)) (blocks : List (List μ ⊕ γ))
    (done : List μ) (w : Writer μ) : Prop where
  log : w.log = log₀ ++ blocks.flatMap (block render) ++ done
  sections : blocks.filterMap Sum.getLeft? ++ (if w.current = [] then [] else [done ++ w.current]) ++
    w.later = sections
  done : w.current = [] → done = []

section serial
variable {log₀ : List μ} {sections : List (List μ)} {blocks : List (List μ ⊕ γ)} {done : List μ}

theorem Serial.other {g : γ} (h : Serial render log₀ sections blocks done w) (hc : w.current = [])
    (hs : step render w (.other g) = .ok w') : Serial render log₀ sections (blocks ++ [.inr g]) [] w' := by
  cases hs
  have hlog := h.log
  have hsections := h.sections
  rw [h.done hc] at hlog hsections
  refine ⟨?_, ?_, fun _ => rfl⟩
  · simp [hlog, block]
  · simpa [hc, List.filterMap_cons] using hsections

theorem Serial.next (h : Serial render log₀ sections blocks done w) (hs : step render w .next = .ok w') :
    ∃ blocks' done', Serial render log₀ sections blocks' done' w' ∧
      blocks'.filterMap Sum.getRight? = blocks.filterMap Sum.getRight? := by
  obtain ⟨m, hlog, hcases⟩ := step_next hs
  -- the section that `m` belongs to
  have hsection : blocks.filterMap Sum.getLeft? ++ (done ++ [m] ++ w'.current) :: w'.later = sections := by
    rw [← h.sections]
    rcases hcases with ⟨hc, hl⟩ | ⟨hc, hl⟩
    · simp [hc, hl]
    · simp [hc, hl, h.done hc]
  by_cases hc : w'.current = []
  · refine ⟨blocks ++ [.inl (done ++ [m])], [], ⟨?_, ?_, fun _ => rfl⟩, by simp⟩
    · simp [hlog, h.log, block]
    · simpa [hc] using hsection
  · refine ⟨blocks, done ++ [m], ⟨?_, ?_, fun h => absurd h hc⟩, rfl⟩
    · simp [hlog, h.log]
    · simpa [hc] using hsection

/-- When the second writer writes between sections only, the log is an interleaving of whole sections
and its messages. -/
theorem serial (h : run (step render) ⟨log₀, [], sections⟩ es = .ok w) (hw : w.current = [] ∧ w.later = [])
    (hb : ∀ x ∈ others render ⟨log₀, [], sections⟩ es, x.1 = true) :
    ∃ blocks : List (List μ ⊕ γ), w.log = log₀ ++ blocks.flatMap (block render) ∧
      blocks.filterMap Sum.getLeft? = sections ∧
      blocks.filterMap Sum.getRight? = (others render ⟨log₀, [], sections⟩ es).map Prod.snd := by
  have hinv := run_inv_outputs output (P := fun bs w => (∀ x ∈ bs, x.1 = true) → ∃ blocks done,
      Serial render log₀ sections blocks done w ∧ blocks.filterMap Sum.getRight? = bs.map Prod.snd)
    ?_ (fun bs w e w' hbs hs hall => ?_) h
  · obtain ⟨blocks, done, hserial, hright⟩ := hinv hb
    have hlog := hserial.log
    have hsections := hserial.sections
    rw [hserial.done hw.1, List.append_nil] at hlog
    rw [if_pos hw.1, hw.2, List.append_nil, List.append_nil] at hsections
    exact ⟨blocks, hlog, hsections, hright⟩
  · exact fun _ => ⟨[], [], ⟨by simp, by simp, fun _ => rfl⟩, rfl⟩
  · obtain ⟨blocks, done, hserial, hright⟩ := hbs fun x hx => hall x (List.mem_append_left _ hx)
    cases e with
    | next =>
      obtain ⟨blocks', done', hserial', hsame⟩ := hserial.next hs
      exact ⟨blocks', done', hserial', by simp [output, hsame, hright]⟩
    | other g =>
      have hc : w.current = [] := by simpa using hall (w.current.isEmpty, g) (by simp [output])
      exact ⟨_, _, hserial.other hc hs, by simp [output, hright]⟩

end serial

end Writer

end Lib
