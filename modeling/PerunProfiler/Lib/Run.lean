import Mathlib.Data.List.Induction

/-! # Runs of a step function that may fault -/

namespace Lib

variable {σ ε φ γ β : Type}

/-- Feeds the events to `step` one by one; stops at the first fault. -/
def run (step : σ → ε → Except φ σ) : σ → List ε → Except φ σ
  | s, [] => .ok s
  | s, e :: es =>
    match step s e with
    | .ok s => run step s es
    | .error f => .error f

section run
variable {step : σ → ε → Except φ σ} {s s' : σ} {es es₁ es₂ : List ε} {e : ε}

@[simp] theorem run_nil : run step s [] = .ok s := rfl

theorem run_cons : run step s (e :: es) = .ok s' ↔ ∃ s₁, step s e = .ok s₁ ∧ run step s₁ es = .ok s' := by
  rw [run]
  cases h : step s e <;> simp

/-- A step that does nothing, any number of times. -/
theorem run_ok (es : List ε) : run (fun s (_ : ε) => (.ok s : Except φ σ)) s es = .ok s := by
  induction es with
  | nil => rfl
  | cons e es ih => exact ih

theorem run_append : run step s (es₁ ++ es₂) = .ok s' ↔
    ∃ s₁, run step s es₁ = .ok s₁ ∧ run step s₁ es₂ = .ok s' := by
  induction es₁ generalizing s with
  | nil => simp
  | cons e es₁ ih =>
    simp only [List.cons_append, run_cons, ih]
    exact ⟨fun ⟨a, ha, b, hb, h⟩ => ⟨b, ⟨a, ha, hb⟩, h⟩, fun ⟨b, ⟨a, ha, hb⟩, h⟩ => ⟨a, ha, b, hb, h⟩⟩

theorem run_error {f : φ} (h : run step s es = .error f) :
    ∃ es₁ e es₂ s₁, es = es₁ ++ e :: es₂ ∧ run step s es₁ = .ok s₁ ∧ step s₁ e = .error f := by
  induction es generalizing s with
  | nil => cases h
  | cons e es ih =>
    rw [run] at h
    cases he : step s e with
    | error g =>
      rw [he] at h
      exact ⟨[], e, es, s, rfl, rfl, he.trans h⟩
    | ok s₁ =>
      rw [he] at h
      obtain ⟨es₁, e', es₂, s₂, rfl, h₁, h₂⟩ := ih h
      exact ⟨e :: es₁, e', es₂, s₂, rfl, run_cons.2 ⟨s₁, he, h₁⟩, h₂⟩

theorem run_map {ι : Type} (f : ι → ε) (is : List ι) :
    run step s (is.map f) = run (fun s i => step s (f i)) s is := by
  induction is generalizing s with
  | nil => rfl
  | cons i is ih =>
    simp only [List.map_cons, run]
    cases step s (f i) with
    | ok s => exact ih
    | error e => rfl

/-- A loop in a loop is one loop over the pairs. -/
theorem run_run {ι : Type} (act : ι → σ → ε → Except φ σ) (g : ι → List ε) (is : List ι) :
    run (fun s i => run (act i) s (g i)) s is =
      run (fun s (x : ι × ε) => act x.1 s x.2) s (is.flatMap fun i => (g i).map (i, ·)) := by
  induction is generalizing s with
  | nil => rfl
  | cons i is ih =>
    have happ : ∀ (l₁ l₂ : List (ι × ε)) (s : σ), run (fun s (x : ι × ε) => act x.1 s x.2) s (l₁ ++ l₂) =
        match run (fun s (x : ι × ε) => act x.1 s x.2) s l₁ with
        | .ok s => run (fun s (x : ι × ε) => act x.1 s x.2) s l₂
        | .error f => .error f := by
      intro l₁ l₂ s
      induction l₁ generalizing s with
      | nil => rfl
      | cons x l₁ ih =>
        simp only [List.cons_append, run]
        cases act x.1 s x.2 with
        | ok s => exact ih s
        | error f => rfl
    simp only [List.flatMap_cons, run, happ, run_map, ih]

/-- What holds at the start and survives the events of a run holds after it. -/
theorem run_inv_mem {P : σ → Prop} (h0 : P s) (hs : ∀ s, ∀ e ∈ es, ∀ s', P s → step s e = .ok s' → P s')
    (h : run step s es = .ok s') : P s' := by
  induction es generalizing s with
  | nil => cases h; exact h0
  | cons e es ih =>
    obtain ⟨s₁, h₁, h₂⟩ := run_cons.1 h
    exact ih (hs _ e (by simp) _ h0 h₁) (fun s e he => hs s e (List.mem_cons_of_mem _ he)) h₂

/-- What holds at the start and survives every step holds after every run. -/
theorem run_inv {P : σ → Prop} (h0 : P s) (hs : ∀ s e s', P s → step s e = .ok s' → P s')
    (h : run step s es = .ok s') : P s' :=
  run_inv_mem h0 (fun s e _ => hs s e) h

/-- An invariant that may look back at the events so far. -/
theorem run_inv_events {P : List ε → σ → Prop} (h0 : P [] s)
    (hs : ∀ es s e s', P es s → step s e = .ok s' → P (es ++ [e]) s') (h : run step s es = .ok s') : P es s' := by
  induction es using List.reverseRecOn generalizing s' with
  | nil => cases h; exact h0
  | append_singleton es e ih =>
    obtain ⟨s₁, h₁, h⟩ := run_append.1 h
    obtain ⟨s₂, h₂, h⟩ := run_cons.1 h
    cases h
    exact hs es s₁ e s' (ih h₁) h₂

end run

/-! ### A ghost state carried along a run -/

/-- Runs `step` and lets `follow` watch: `follow` sees the state before the step and may reject the
event. -/
def track (step : σ → ε → Except φ σ) (follow : σ → γ → ε → Option γ) (x : σ × γ) (e : ε) :
    Except (Option φ) (σ × γ) :=
  match step x.1 e, follow x.1 x.2 e with
  | .ok s, some g => .ok (s, g)
  | .ok _, none => .error none
  | .error f, _ => .error (some f)

/-- `follow`, for the events with `p`, which may look at the ghost state after the event too. -/
def restrict (p : σ → γ → ε → γ → Bool) (follow : σ → γ → ε → Option γ) (s : σ) (g : γ) (e : ε) : Option γ :=
  (follow s g e).filter (p s g e)

theorem restrict_eq_some {p : σ → γ → ε → γ → Bool} {follow : σ → γ → ε → Option γ} {s : σ} {g g' : γ} {e : ε} :
    restrict p follow s g e = some g' ↔ follow s g e = some g' ∧ p s g e g' = true := by
  rw [restrict, Option.filter_eq_some_iff]

section track
variable {step : σ → ε → Except φ σ} {follow : σ → γ → ε → Option γ} {x y : σ × γ} {es : List ε} {e : ε}

theorem track_ok : track step follow x e = .ok y ↔
    step x.1 e = .ok y.1 ∧ follow x.1 x.2 e = some y.2 := by
  obtain ⟨s', g'⟩ := y
  rw [track]
  cases step x.1 e <;> cases follow x.1 x.2 e <;> simp

end track

/-! ### What every step of a run meets -/

/-- Every event the run gets to passes `p`, which sees the state before it and what `follow`, which
rejects nothing, has kept of the events until then. -/
def Along (step : σ → ε → Except φ σ) (follow : σ → γ → ε → γ) (p : σ → γ → ε → Bool) :
    σ → γ → List ε → Prop
  | _, _, [] => True
  | s, g, e :: es => p s g e = true ∧ ∀ s', step s e = .ok s' → Along step follow p s' (follow s g e) es

section along
variable {step : σ → ε → Except φ σ} {follow : σ → γ → ε → γ} {p q : σ → γ → ε → Bool} {s : σ} {g : γ}
  {e : ε} {es : List ε}

instance Along.decide (s : σ) (g : γ) (es : List ε) : Decidable (Along step follow p s g es) :=
  match es with
  | [] => .isTrue trivial
  | e :: es =>
    match h : step s e with
    | .ok s' =>
      have : Decidable (Along step follow p s' (follow s g e) es) := Along.decide s' (follow s g e) es
      decidable_of_iff (p s g e = true ∧ Along step follow p s' (follow s g e) es)
        (and_congr_right fun _ => by simp [h])
    | .error _ => decidable_of_iff (p s g e = true) (by simp [Along, h])

/-- If a step faults with `x` exactly when it fails `q`, so does a run. -/
theorem run_ne_error_iff_along {x : φ} {Inv : σ → γ → Prop} (h0 : Inv s g)
    (hinv : ∀ s g e s', Inv s g → step s e = .ok s' → Inv s' (follow s g e))
    (hiff : ∀ s g e, Inv s g → p s g e = true → (step s e ≠ .error x ↔ q s g e = true))
    (hp : Along step follow p s g es) : run step s es ≠ .error x ↔ Along step follow q s g es := by
  induction es generalizing s g with
  | nil => simp [Along]
  | cons e es ih =>
    have hstep := hiff s g e h0 hp.1
    rw [run, Along, ← hstep]
    cases h : step s e with
    | ok s' => simpa using ih (hinv s g e s' h0 h) (hp.2 s' h)
    | error f => simp

/-- What `follow` has kept when the run is over. -/
def kept (step : σ → ε → Except φ σ) (follow : σ → γ → ε → γ) : σ → γ → List ε → γ
  | _, g, [] => g
  | s, g, e :: es =>
    match step s e with
    | .ok s' => kept step follow s' (follow s g e) es
    | .error _ => g

end along

/-! ### What is seen along a run -/

/-- The outputs along a run; `out` sees the state before each event. -/
def outputs (step : σ → ε → Except φ σ) (out : σ → ε → Option β) : σ → List ε → List β
  | _, [] => []
  | s, e :: es =>
    match step s e with
    | .ok s' => (out s e).toList ++ outputs step out s' es
    | .error _ => []

section outputs
variable {step : σ → ε → Except φ σ} {s s' : σ} {es : List ε} {e : ε}

theorem outputs_cons {out : σ → ε → Option β} (h : step s e = .ok s') :
    outputs step out s (e :: es) = (out s e).toList ++ outputs step out s' es := by
  rw [outputs, h]

theorem outputs_append {out : σ → ε → Option β} {es₁ es₂ : List ε} {s₁ : σ} (h : run step s es₁ = .ok s₁) :
    outputs step out s (es₁ ++ es₂) = outputs step out s es₁ ++ outputs step out s₁ es₂ := by
  induction es₁ generalizing s with
  | nil =>
    cases h
    rfl
  | cons e es₁ ih =>
    obtain ⟨s₂, h₁, h₂⟩ := run_cons.1 h
    rw [List.cons_append, outputs_cons h₁, outputs_cons h₁, ih h₂, List.append_assoc]

theorem mem_outputs {out : σ → ε → Option β} {b : β} (h : b ∈ outputs step out s es) :
    ∃ s', ∃ e ∈ es, out s' e = some b := by
  induction es generalizing s with
  | nil => cases h
  | cons e es ih =>
    rw [outputs] at h
    split at h
    · rcases List.mem_append.1 h with h | h
      · exact ⟨s, e, List.mem_cons_self, Option.mem_toList.1 h⟩
      · obtain ⟨s', e', he', hb⟩ := ih h
        exact ⟨s', e', List.mem_cons_of_mem _ he', hb⟩
    · cases h

theorem outputs_eq_nil {out : σ → ε → Option β} (h : ∀ e ∈ es, ∀ s, out s e = none) : outputs step out s es = [] := by
  induction es generalizing s with
  | nil => rfl
  | cons e es ih =>
    rw [outputs]
    split
    · rw [h e List.mem_cons_self]
      exact ih fun e he => h e (List.mem_cons_of_mem _ he)
    · rfl

theorem outputs_filterMap {γ : Type} (out : σ → ε → Option β) (f : β → Option γ) :
    (outputs step out s es).filterMap f = outputs step (fun s e => (out s e).bind f) s es := by
  induction es generalizing s with
  | nil => rfl
  | cons e es ih =>
    rw [outputs, outputs]
    split
    · rw [List.filterMap_append, ih]
      congr 1
      cases out s e <;> rfl
    · rfl

theorem run_inv_outputs (out : σ → ε → Option β) {P : List β → σ → Prop} (h0 : P [] s)
    (hs : ∀ bs s e s', P bs s → step s e = .ok s' → P (bs ++ (out s e).toList) s')
    (h : run step s es = .ok s') : P (outputs step out s es) s' := by
  suffices H : ∀ bs, P bs s → P (bs ++ outputs step out s es) s' from H [] h0
  clear h0
  induction es generalizing s with
  | nil =>
    intro bs hbs
    cases h
    rw [outputs, List.append_nil]
    exact hbs
  | cons e es ih =>
    intro bs hbs
    obtain ⟨s₁, h₁, h₂⟩ := run_cons.1 h
    rw [outputs_cons h₁, ← List.append_assoc]
    exact ih h₂ _ (hs bs s e s₁ hbs h₁)

end outputs

end Lib
