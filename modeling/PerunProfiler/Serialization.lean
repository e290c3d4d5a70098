import PerunProfiler.Forest

/-!
# Along the functions section

A relation between the heap before, what is written and deleted, and the heap after holds of the whole
functions section if every step of it respects it.
-/

namespace Perun
open Lib

/-- Every step of the functions section respects the relation. -/
structure Respected (now : Clock) (R : Heap FunctionClass → List FunctionEvent → Heap FunctionClass → Prop) : Prop where
  refl : ∀ h, R h [] h
  trans : ∀ {h events h' events' h''}, R h events h' → R h' events' h'' → R h (events ++ events') h''
  repair : ∀ {h p f}, deref h p = .ok f → R h [] (h.set p (f.repair now))
  written : ∀ {h p f} (rFn : Option Nat), deref h p = .ok f → R h [.written p (f.record rFn)] h
  /-- the called functions are gone -/
  clear : ∀ {h p f}, deref h p = .ok f → R h [] (h.set p { f with calledFunctions := [] })
  deleted : ∀ {h p f}, deref h p = .ok f → R h [.deleted p] (h.free p)

namespace Respected
variable {now : Clock} {R : Heap FunctionClass → List FunctionEvent → Heap FunctionClass → Prop}
  {h h' functions : Heap FunctionClass} {events : List FunctionEvent} {p top : Ptr} {fuel : Nat}

theorem climb (hR : Respected now R) (hok : Perun.climb now fuel p h = .ok (top, h')) : R h [] h' := by
  induction fuel generalizing p h with
  | zero => cases hok
  | succ fuel ih =>
    rw [Perun.climb] at hok
    cases hp : deref h p with
    | error e => simp [hp] at hok
    | ok f =>
      simp only [hp] at hok
      split at hok
      · obtain ⟨-, rfl⟩ := Prod.mk.inj (Except.ok.inj hok)
        exact hR.repair hp
      · exact hR.trans (hR.repair hp) (ih hok)

theorem serializeCalled (hR : Respected now R)
    {serialize : Ptr → Heap FunctionClass → Except Fault (List FunctionEvent × Heap FunctionClass)}
    (hs : ∀ {p h events h'}, serialize p h = .ok (events, h') → R h events h') {ps : List Ptr}
    (hok : Perun.serializeCalled serialize ps h = .ok (events, h')) : R h events h' := by
  induction ps generalizing h events with
  | nil =>
    obtain ⟨rfl, rfl⟩ := Prod.mk.inj (Except.ok.inj hok)
    exact hR.refl h
  | cons p ps ih =>
    rw [Perun.serializeCalled] at hok
    split at hok
    · cases hok
    · next hone =>
      split at hok
      · cases hok
      · next hlive =>
        split at hok
        · cases hok
        · next hrest =>
          obtain ⟨rfl, rfl⟩ := Prod.mk.inj (Except.ok.inj hok)
          exact hR.trans (hs hone) (hR.trans (hR.deleted hlive) (ih hrest))

theorem serialize (hR : Respected now R) (hok : Perun.serialize fuel p h = .ok (events, h')) : R h events h' := by
  induction fuel generalizing p h events h' with
  | zero => cases hok
  | succ fuel ih =>
    rw [Perun.serialize] at hok
    split at hok
    · cases hok
    · next hp =>
      split at hok
      · cases hok
      · next rFn hrFn =>
        split at hok
        · cases hok
        · next called functions hcalled =>
          split at hok
          · cases hok
          · next hthis =>
            obtain ⟨rfl, rfl⟩ := Prod.mk.inj (Except.ok.inj hok)
            have hcalls := hR.trans (hR.serializeCalled ih hcalled) (hR.clear hthis)
            rw [List.append_nil] at hcalls
            exact hR.trans (hR.written rFn hp) hcalls

theorem serializeThread (hR : Respected now R) {x x' : List FunctionEvent × Heap FunctionClass}
    {thread : Nat × Nat × Option Ptr} (hok : Perun.serializeThread fuel now x thread = .ok x') :
    ∃ events, x'.1 = x.1 ++ events ∧ R x.2 events x'.2 := by
  unfold Perun.serializeThread at hok
  split at hok
  · obtain rfl := Except.ok.inj hok
    exact ⟨[], (List.append_nil _).symm, hR.refl _⟩
  · split at hok
    · cases hok
    · next hclimb =>
      split at hok
      · cases hok
      · next hserialize =>
        split at hok
        · cases hok
        · next hlive =>
          obtain rfl := Except.ok.inj hok
          have hall := hR.trans (hR.climb hclimb) (hR.trans (hR.serialize hserialize) (hR.deleted hlive))
          rw [List.nil_append] at hall
          exact ⟨_, List.append_assoc .., hall⟩

theorem functionsSection (hR : Respected now R) {s : CoreProfiler}
    (hok : Perun.functionsSection fuel now s = .ok (events, functions)) : R s.functions events functions := by
  have hinv := run_inv (P := fun x : List FunctionEvent × Heap FunctionClass => R s.functions x.1 x.2)
    (hR.refl _) (fun x thread x' hx hstep => ?_) hok
  · exact hinv
  · obtain ⟨events, hevents, hrest⟩ := hR.serializeThread hstep
    rw [hevents]
    exact hR.trans hx hrest

end Respected

end Perun
