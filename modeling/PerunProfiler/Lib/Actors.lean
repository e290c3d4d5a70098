import Mathlib.Data.List.Perm.Basic
import PerunProfiler.Lib.Run

/-!
# Actors that do not meet

An event belongs to one actor and acts on that actor's part of the state alone. What becomes of a
part over a run is then what the actor's own events make of it, so runs that give every actor the
same events end with the same parts, however they are interleaved. -/

namespace Lib

variable {σ ε φ τ ν : Type} [DecidableEq τ]

/-- The events of one actor, in order. -/
def historyOf (actor : ε → Option τ) (t : τ) (es : List ε) : List ε := es.filter fun e => actor e = some t

/-- `View s v`: the parts of `s` are `v`. A step acts on the part of its actor by `act`, and faults
when `act` does. -/
structure Actors (step : σ → ε → Except φ σ) (actor : ε → Option τ) (act : ν → ε → Except φ ν)
    (View : σ → (τ → ν) → Prop) : Prop where
  ok : ∀ {s s' v e t}, View s v → actor e = some t → step s e = .ok s' →
    ∃ n, act (v t) e = .ok n ∧ View s' fun u => if u = t then n else v u
  error : ∀ {s v e t f}, View s v → actor e = some t → step s e = .error f → ∃ g, act (v t) e = .error g

section historyOf
variable {actor : ε → Option τ} {es es₁ es₂ : List ε} {t : τ} {e : ε}

theorem mem_historyOf : e ∈ historyOf actor t es ↔ e ∈ es ∧ actor e = some t := by
  simp [historyOf]

theorem historyOf_append : historyOf actor t (es₁ ++ es₂) = historyOf actor t es₁ ++ historyOf actor t es₂ :=
  List.filter_append ..

theorem historyOf_cons_self (h : actor e = some t) : historyOf actor t (e :: es) = e :: historyOf actor t es :=
  List.filter_cons_of_pos (by simpa using h)

theorem historyOf_cons_ne (h : actor e ≠ some t) : historyOf actor t (e :: es) = historyOf actor t es :=
  List.filter_cons_of_neg (by simpa using h)

/-- Interleavings of the same histories hold the same events. -/
theorem perm_of_historyOf [DecidableEq ε] (h₁ : ∀ e ∈ es₁, (actor e).isSome) (h₂ : ∀ e ∈ es₂, (actor e).isSome)
    (h : ∀ t, historyOf actor t es₁ = historyOf actor t es₂) : es₁.Perm es₂ := by
  refine List.perm_iff_count.2 fun e => ?_
  cases ht : actor e with
  | none =>
    have hno : ∀ es : List ε, (∀ e ∈ es, (actor e).isSome) → es.count e = 0 := fun es hes =>
      List.count_eq_zero.2 fun he => by simpa [ht] using hes e he
    rw [hno es₁ h₁, hno es₂ h₂]
  | some t =>
    have hcount : ∀ es : List ε, (historyOf actor t es).count e = es.count e := fun es =>
      List.count_filter (by simpa using ht)
    rw [← hcount es₁, ← hcount es₂, h t]

/-- The histories before an event that happens once. -/
theorem historyOf_before {l₁ r₁ l₂ r₂ : List ε} (ht : actor e = some t) (hl : e ∉ l₁) (hr : e ∉ r₁)
    (h : historyOf actor t (l₁ ++ e :: r₁) = historyOf actor t (l₂ ++ e :: r₂)) :
    historyOf actor t l₁ = historyOf actor t l₂ := by
  rw [historyOf_append, historyOf_append, historyOf_cons_self ht, historyOf_cons_self ht] at h
  exact ((List.append_cons_inj_of_notMem (fun hm => hl (mem_historyOf.1 hm).1) fun hm =>
    hr (mem_historyOf.1 hm).1).1 h).1

end historyOf

namespace Actors
variable {step : σ → ε → Except φ σ} {actor : ε → Option τ} {act : ν → ε → Except φ ν} {View : σ → (τ → ν) → Prop}
  {s s' : σ} {v : τ → ν} {es es₁ es₂ : List ε}

/-- Every part is run by the history of its actor. -/
theorem run (h : Actors step actor act View) (hv : View s v) (hes : ∀ e ∈ es, (actor e).isSome)
    (hrun : Lib.run step s es = .ok s') :
    ∃ v', View s' v' ∧ ∀ t, Lib.run act (v t) (historyOf actor t es) = .ok (v' t) := by
  induction es generalizing s v with
  | nil =>
    cases hrun
    exact ⟨v, hv, fun _ => rfl⟩
  | cons e es ih =>
    obtain ⟨s₁, h₁, h₂⟩ := run_cons.1 hrun
    obtain ⟨t, ht⟩ := Option.isSome_iff_exists.1 (hes e (by simp))
    obtain ⟨n, hn, hv₁⟩ := h.ok hv ht h₁
    obtain ⟨v', hv', hparts⟩ := ih hv₁ (fun e he => hes e (List.mem_cons_of_mem _ he)) h₂
    refine ⟨v', hv', fun u => ?_⟩
    have hpart := hparts u
    by_cases hu : u = t
    · subst hu
      rw [if_pos rfl] at hpart
      rw [historyOf_cons_self ht]
      exact run_cons.2 ⟨n, hn, hpart⟩
    · rw [if_neg hu] at hpart
      rwa [historyOf_cons_ne fun he => hu (Option.some.inj (he.symm.trans ht))]

/-- A run does not fault if no part does. -/
theorem run_ok (h : Actors step actor act View) (hv : View s v) (hes : ∀ e ∈ es, (actor e).isSome)
    (hparts : ∀ t, ∃ n, Lib.run act (v t) (historyOf actor t es) = .ok n) : ∃ s', Lib.run step s es = .ok s' := by
  induction es generalizing s v with
  | nil => exact ⟨s, rfl⟩
  | cons e es ih =>
    obtain ⟨t, ht⟩ := Option.isSome_iff_exists.1 (hes e (by simp))
    obtain ⟨m, hm⟩ := hparts t
    rw [historyOf_cons_self ht] at hm
    obtain ⟨n, hn, hrest⟩ := run_cons.1 hm
    cases hs : step s e with
    | error f =>
      obtain ⟨g, hg⟩ := h.error hv ht hs
      cases hn.symm.trans hg
    | ok s₁ =>
      obtain ⟨n', hn', hv₁⟩ := h.ok hv ht hs
      obtain rfl : n' = n := Except.ok.inj (hn'.symm.trans hn)
      obtain ⟨s', hs'⟩ := ih hv₁ (fun e he => hes e (List.mem_cons_of_mem _ he)) fun u => by
        by_cases hu : u = t
        · subst hu
          exact ⟨m, by rw [if_pos rfl, hrest]⟩
        · obtain ⟨k, hk⟩ := hparts u
          rw [historyOf_cons_ne fun he => hu (Option.some.inj (he.symm.trans ht))] at hk
          exact ⟨k, by rw [if_neg hu, hk]⟩
      exact ⟨s', run_cons.2 ⟨s₁, hs, hs'⟩⟩

/-- Two interleavings of the same histories end with the same parts. -/
theorem interleave (h : Actors step actor act View) (hv : View s v) (h₁ : ∀ e ∈ es₁, (actor e).isSome)
    (h₂ : ∀ e ∈ es₂, (actor e).isSome) (hsame : ∀ t, historyOf actor t es₁ = historyOf actor t es₂) {s₁ : σ}
    (hrun : Lib.run step s es₁ = .ok s₁) : ∃ s₂ v', Lib.run step s es₂ = .ok s₂ ∧ View s₁ v' ∧ View s₂ v' := by
  obtain ⟨v₁, hv₁, hparts₁⟩ := h.run hv h₁ hrun
  obtain ⟨s₂, hs₂⟩ := h.run_ok hv h₂ fun t => ⟨v₁ t, by rw [← hsame]; exact hparts₁ t⟩
  obtain ⟨v₂, hv₂, hparts₂⟩ := h.run hv h₂ hs₂
  have hv : v₂ = v₁ := funext fun t => Except.ok.inj ((hparts₂ t).symm.trans (by rw [← hsame]; exact hparts₁ t))
  exact ⟨s₂, v₁, hs₂, hv₁, hv ▸ hv₂⟩

end Actors

end Lib
