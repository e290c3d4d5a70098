import PerunProfiler.Generations

/-!
# One report in several calls

Every call of `MovedReferences` gives the objects their new addresses at once, and the ranges of the
next call, which are about the old addresses, are matched against those. The parts of a report can be
delivered in any way as long as no object is sent to where another range takes it up again
(`Separate`): then the records are after any calls where the ranges delivered so far put them
(`Delivered`).
-/

namespace Perun
open Lib

theorem MovedRange.target_inj {r : MovedRange} {k k' : Nat} (hk : r.Passes k) (hk' : r.Passes k')
    (h : r.target k = r.target k') : k = k' := by
  obtain ⟨h1, h2⟩ := hk
  obtain ⟨h3, h4⟩ := hk'
  have hlt : wrap (r.new + r.len) < 2 ^ 64 := Nat.mod_lt _ (by decide)
  unfold MovedRange.target wrap at h
  omega

/-- The record at `k` is not lost when the range sends it on: it changes its address, and a record that
is at the new address leaves it before, by the same range. -/
def Lands (m : Map Ptr) (r : MovedRange) (k : Nat) : Prop :=
  r.target k ≠ k ∧ (r.target k ∈ m → r.Passes (r.target k) ∧ r.target k < k)

/-- The ranges do not get into each other's way. -/
structure Separate (m : Map Ptr) (ranges : List MovedRange) : Prop where
  /-- no other range takes an object up at its new address -/
  apart : ∀ k ∈ m, ∀ r ∈ ranges, r.Passes k → ∀ r' ∈ ranges, r'.Passes (r.target k) → r' = r
  /-- two ranges that let an object through send it to one place, or both lose it -/
  overlap : ∀ k ∈ m, ∀ r ∈ ranges, r.Passes k → ∀ r' ∈ ranges, r'.Passes k →
    r'.target k = r.target k ∨ (¬ Lands m r k ∧ ¬ Lands m r' k)
  /-- two ranges that send two objects to one place find it taken -/
  meet : ∀ k ∈ m, ∀ r ∈ ranges, r.Passes k → ∀ k' ∈ m, ∀ r' ∈ ranges, r'.Passes k' →
    k' ≠ k → r' ≠ r → r'.target k' = r.target k → r.target k ∈ m

/-- `m'` is `m` with the records where the ranges of `done` put them. -/
def Delivered (m : Map Ptr) (done : List MovedRange) (m' : Map Ptr) : Prop :=
  ∀ (a : Nat) (p : Ptr), m'[a]? = some p ↔
    ((∀ r ∈ done, ¬ r.Passes a) ∧ m[a]? = some p) ∨
    ∃ k : Nat, ∃ r ∈ done, m[k]? = some p ∧ r.Passes k ∧ r.target k = a ∧ Lands m r k

section delivered
variable {m m₁ m₂ : Map Ptr} {ranges done call : List MovedRange} {k a : Nat} {p : Ptr}

theorem Map.mem_of_get (h : m[k]? = some p) : k ∈ m := by
  rw [Std.ExtTreeMap.mem_iff_isSome_getElem?, h]
  rfl

theorem Delivered.unique (h₁ : Delivered m done m₁) (h₂ : Delivered m call m₂) (hperm : done.Perm call) :
    m₁ = m₂ := by
  refine Std.ExtTreeMap.ext_getElem? fun a => Option.ext fun p => ?_
  rw [h₁ a p, h₂ a p]
  simp only [hperm.mem_iff]

section call
variable (hsep : Separate m ranges) (hdone : ∀ r ∈ done, r ∈ ranges) (hcall : ∀ r ∈ call, r ∈ ranges)
  (hdisj : ∀ r ∈ done, r ∉ call) (h₁ : Delivered m done m₁)
include hsep hdone hcall hdisj h₁

/-- What the call lets through has not been moved yet. -/
theorem Delivered.untouched {r : MovedRange} (hr : r ∈ call) (hk : m₁[k]? = some p) (hpass : r.Passes k) :
    m[k]? = some p ∧ ∀ r ∈ done, ¬ r.Passes k := by
  rcases (h₁ k p).1 hk with ⟨hno, hk⟩ | ⟨k', r', hr', hk', hpass', rfl, -⟩
  · exact ⟨hk, hno⟩
  · have heq := hsep.apart k' (Map.mem_of_get hk') r' (hdone r' hr') hpass' r (hcall r hr) hpass
    exact absurd (heq ▸ hr) (hdisj r' hr')

/-- Where the record is found when the call begins, if the call moves it. -/
theorem Delivered.waiting {r : MovedRange} (hr : r ∈ call) (hk : m[k]? = some p) (hpass : r.Passes k)
    (hland : Lands m r k) : m₁[k]? = some p ∨
      (m₁[r.target k]? = some p ∧ ∀ r' ∈ call, ¬ r'.Passes (r.target k)) := by
  have hkm := Map.mem_of_get hk
  by_cases hno : ∀ r ∈ done, ¬ r.Passes k
  · exact .inl ((h₁ k p).2 (.inl ⟨hno, hk⟩))
  -- a range delivered before has sent it to the same place
  obtain ⟨r', hr', hpass'⟩ : ∃ r' ∈ done, r'.Passes k := by simpa using hno
  have hne : r ≠ r' := fun h => hdisj r' hr' (h ▸ hr)
  rcases hsep.overlap k hkm r' (hdone r' hr') hpass' r (hcall r hr) hpass with htarget | ⟨-, hlost⟩
  · have hfree : r.target k ∉ m := by
      intro ht
      have hpass₂ := (hland.2 ht).1
      rw [htarget] at hpass₂
      exact hne (hsep.apart k hkm r' (hdone r' hr') hpass' r (hcall r hr) hpass₂)
    refine .inr ⟨(h₁ _ p).2 (.inr ⟨k, r', hr', hk, hpass', htarget.symm, ?_⟩), fun r'' hr'' hpass'' => ?_⟩
    · rw [Lands, ← htarget]
      exact ⟨hland.1, fun ht => absurd ht hfree⟩
    · have h1 := hsep.apart k hkm r (hcall r hr) hpass r'' (hcall r'' hr'') hpass''
      rw [htarget] at hpass''
      have h2 := hsep.apart k hkm r' (hdone r' hr') hpass' r'' (hcall r'' hr'') hpass''
      exact hne (h1.symm.trans h2)
  · exact absurd hland hlost

/-- A record that would land arrives in the call. -/
theorem Delivered.arrives {r : MovedRange} (hr : r ∈ call) (hk : m[k]? = some p) (hpass : r.Passes k)
    (hland : Lands m r k) (hdest : destination call k = some (r.target k)) (hk₁ : m₁[k]? = some p) :
    Arrives m₁ call k := by
  have hkm := Map.mem_of_get hk
  have hsrc := (Delivered.untouched hsep hdone hcall hdisj h₁ hr hk₁ hpass).2
  intro t ht
  obtain rfl := Option.some.inj (ht.symm.trans hdest)
  refine ⟨fun htm => ?_, fun k' hlt hk'm hdest' hfree => ?_⟩
  · obtain ⟨q, hq⟩ := Option.isSome_iff_exists.1 (Std.ExtTreeMap.mem_iff_isSome_getElem?.1 htm)
    rcases (h₁ _ q).1 hq with ⟨-, hq⟩ | ⟨k', r', hr', hk', hpass', htarget, hland'⟩
    · obtain ⟨hpass₂, hlt⟩ := hland.2 (Map.mem_of_get hq)
      exact ⟨⟨r, hr, hpass₂⟩, hlt⟩
    · -- it cannot be taken by a record moved before
      exfalso
      have hne : k' ≠ k := fun h => hsrc r' hr' (h ▸ hpass')
      have hrne : r' ≠ r := fun h => hdisj r' hr' (h ▸ hr)
      have hm := hsep.meet k hkm r (hcall r hr) hpass k' (Map.mem_of_get hk') r' (hdone r' hr') hpass' hne hrne
        htarget
      have hpass₂ := (hland'.2 (htarget.symm ▸ hm)).1
      rw [htarget] at hpass₂
      exact hrne (hsep.apart k hkm r (hcall r hr) hpass r' (hdone r' hr') hpass₂)
  · obtain ⟨r', hr', hpass', htarget⟩ := exists_of_destination hdest'
    obtain ⟨q, hq⟩ := Option.isSome_iff_exists.1 (Std.ExtTreeMap.mem_iff_isSome_getElem?.1 hk'm)
    have hk' := (Delivered.untouched hsep hdone hcall hdisj h₁ hr' hq hpass').1
    by_cases hrr : r' = r
    · subst hrr
      exact Nat.ne_of_lt hlt (MovedRange.target_inj hpass' hpass htarget)
    · have hm := hsep.meet k hkm r (hcall r hr) hpass k' (Map.mem_of_get hk') r' (hcall r' hr') hpass'
        (Nat.ne_of_lt hlt) hrr htarget
      have hpass₂ := (hland.2 hm).1
      rw [← htarget] at hpass₂
      exact hrr (hsep.apart k' (Map.mem_of_get hk') r' (hcall r' hr') hpass' r (hcall r hr) hpass₂).symm

/-- One call puts the records where its ranges send them too. -/
theorem Delivered.append (h₂ : ∀ (a : Nat) (p : Ptr), m₂[a]? = some p ↔
    ((∀ r ∈ call, ¬ r.Passes a) ∧ m₁[a]? = some p) ∨
      ∃ k : Nat, m₁[k]? = some p ∧ destination call k = some a ∧ Arrives m₁ call k) :
    Delivered m (done ++ call) m₂ := by
  intro a p
  rw [h₂]
  constructor
  · rintro (⟨hno, ha⟩ | ⟨k, hk, hdest, harr⟩)
    · rcases (h₁ a p).1 ha with ⟨hno₁, ha⟩ | ⟨k, r, hr, hk, hpass, htarget, hland⟩
      · exact .inl ⟨fun r hr => (List.mem_append.1 hr).elim (hno₁ r) (hno r), ha⟩
      · exact .inr ⟨k, r, List.mem_append_left _ hr, hk, hpass, htarget, hland⟩
    · obtain ⟨r, hr, hpass, rfl⟩ := exists_of_destination hdest
      obtain ⟨hkm, hsrc⟩ := Delivered.untouched hsep hdone hcall hdisj h₁ hr hk hpass
      obtain ⟨hfree, -⟩ := harr _ hdest
      refine .inr ⟨k, r, List.mem_append_right _ hr, hkm, hpass, rfl, fun heq => ?_, fun ht => ?_⟩
      · exact Nat.lt_irrefl _ (heq ▸ (hfree (heq.symm ▸ Map.mem_of_get hk)).2)
      · -- a record that was there has not been moved by another range
        have hno : ∀ r' ∈ done, ¬ r'.Passes (r.target k) := fun r' hr' hpass' => by
          have heq := hsep.apart k (Map.mem_of_get hkm) r (hcall r hr) hpass r' (hdone r' hr') hpass'
          exact hdisj r' hr' (heq ▸ hr)
        obtain ⟨q, hq⟩ := Option.isSome_iff_exists.1 (Std.ExtTreeMap.mem_iff_isSome_getElem?.1 ht)
        obtain ⟨⟨r', hr', hpass'⟩, hlt⟩ := hfree (Map.mem_of_get ((h₁ _ q).2 (.inl ⟨hno, hq⟩)))
        have heq := hsep.apart k (Map.mem_of_get hkm) r (hcall r hr) hpass r' (hcall r' hr') hpass'
        exact ⟨heq ▸ hpass', hlt⟩
  · rintro (⟨hno, ha⟩ | ⟨k, r, hr, hk, hpass, rfl, hland⟩)
    · have hsplit := List.forall_mem_append.1 hno
      exact .inl ⟨hsplit.2, (h₁ a p).2 (.inl ⟨hsplit.1, ha⟩)⟩
    · rcases List.mem_append.1 hr with hr | hr
      · refine .inl ⟨fun r' hr' hpass' => ?_, (h₁ _ p).2 (.inr ⟨k, r, hr, hk, hpass, rfl, hland⟩)⟩
        have heq := hsep.apart k (Map.mem_of_get hk) r (hdone r hr) hpass r' (hcall r' hr') hpass'
        exact hdisj r hr (heq ▸ hr')
      · rcases Delivered.waiting hsep hdone hcall hdisj h₁ hr hk hpass hland with hk₁ | ⟨ht, hno⟩
        · -- the last range that lets it through sends it to the same place
          obtain ⟨t, hdest⟩ := destination_isSome.2 ⟨r, hr, hpass⟩
          obtain ⟨r', hr', hpass', rfl⟩ := exists_of_destination hdest
          have hsame : r'.target k = r.target k := by
            refine (hsep.overlap k (Map.mem_of_get hk) r (hcall r hr) hpass r' (hcall r' hr') hpass').resolve_right ?_
            exact fun h => h.1 hland
          rw [hsame] at hdest
          exact .inr ⟨k, hk₁, hdest,
            Delivered.arrives hsep hdone hcall hdisj h₁ hr hk hpass hland hdest hk₁⟩
        · exact .inl ⟨hno, ht⟩

theorem Delivered.marked {gcNumber : Nat} {objects objects₁ objects₂ : Heap ObjectClass} (hone : OneAddress m)
    (hm₁ : Marked gcNumber m (fun k => ∃ r ∈ done, r.Passes k) objects objects₁)
    (hm₂ : Marked gcNumber m₁ (fun k => ∃ r ∈ call, r.Passes k) objects₁ objects₂) :
    Marked gcNumber m (fun k => ∃ r ∈ done ++ call, r.Passes k) objects objects₂ := by
  refine ⟨fun k p hk ⟨r, hr, hpass⟩ => ?_, fun p hno => ?_⟩
  · by_cases hd : ∃ r ∈ done, r.Passes k
    · have hmark := hm₁.marked k p hk hd
      rcases hm₂.cases p with ⟨-, -, -, h⟩ | h
      · rw [h, hmark, Option.map_map]
        rfl
      · rw [h, hmark]
    · have hk₁ : m₁[k]? = some p := (h₁ k p).2 (.inl ⟨fun r hr hpass => hd ⟨r, hr, hpass⟩, hk⟩)
      have hrc : r ∈ call := (List.mem_append.1 hr).resolve_left fun h => hd ⟨r, h, hpass⟩
      rw [hm₂.marked k p hk₁ ⟨r, hrc, hpass⟩, hm₁.same p fun k' hk' => by rwa [hone k' k p hk' hk]]
  · have hsame := hm₁.same p fun k hk ⟨r, hr, hpass⟩ => hno k hk ⟨r, List.mem_append_left _ hr, hpass⟩
    rw [hm₂.same p fun k hk ⟨r, hr, hpass⟩ => ?_, hsame]
    have hkm := (Delivered.untouched hsep hdone hcall hdisj h₁ hr hk hpass).1
    exact hno k hkm ⟨r, List.mem_append_right _ hr, hpass⟩

end call

end delivered

/-! ### Deliveries of one report -/

/-- However the report is delivered, the records have the same addresses and the same marks after it. -/
def PartsAgree (s : CoreProfiler) (ranges : List MovedRange) : Prop :=
  ∀ calls calls' : List (List MovedRange), calls.flatten.Perm ranges → calls'.flatten.Perm ranges →
    ∃ s₁ s₂, run step s (calls.map .movedReferences) = .ok s₁ ∧ run step s (calls'.map .movedReferences) = .ok s₂ ∧
      s₁.objectsAlloc = s₂.objectsAlloc ∧ ∀ p, s₁.objects.get? p = s₂.objects.get? p

section deliver
variable {s s' : CoreProfiler} {ranges : List MovedRange}

theorem run_movedReferences {s₁ : CoreProfiler} {done : List MovedRange} (hsep : Separate s.objectsAlloc ranges)
    (hone : OneAddress s.objectsAlloc) (hi : Reporting s₁) (hg : s₁.gcNumber = s.gcNumber)
    (h₁ : Delivered s.objectsAlloc done s₁.objectsAlloc)
    (hm : Marked s.gcNumber s.objectsAlloc (fun k => ∃ r ∈ done, r.Passes k) s.objects s₁.objects)
    {calls : List (List MovedRange)} (hnd : (done ++ calls.flatten).Nodup)
    (hsub : ∀ r ∈ done ++ calls.flatten, r ∈ ranges) :
    ∃ s', run step s₁ (calls.map .movedReferences) = .ok s' ∧
      Delivered s.objectsAlloc (done ++ calls.flatten) s'.objectsAlloc ∧
      Marked s.gcNumber s.objectsAlloc (fun k => ∃ r ∈ done ++ calls.flatten, r.Passes k) s.objects s'.objects := by
  induction calls generalizing s₁ done with
  | nil => exact ⟨s₁, rfl, by simpa using h₁, by simpa using hm⟩
  | cons call calls ih =>
    rw [List.flatten_cons, ← List.append_assoc] at hnd hsub ⊢
    have hdone : ∀ r ∈ done, r ∈ ranges := fun r hr => hsub r (by simp [hr])
    have hcall : ∀ r ∈ call, r ∈ ranges := fun r hr => hsub r (by simp [hr])
    have hdisj : ∀ r ∈ done, r ∉ call := fun r hr hc =>
      (List.nodup_append.1 (List.nodup_append.1 hnd).1).2.2 r hr r hc rfl
    obtain ⟨objects', m', hok, hmarked, hget⟩ := movedReferences_get call hi.on hi.tracked.live
    have hstep : step s₁ (.movedReferences call) = .ok { s₁ with objects := objects', objectsAlloc := m' } := hok
    rw [hg] at hmarked
    obtain ⟨s', hrun, hd', hm'⟩ := ih (hi.step (r := .moved call) hstep) hg
      (Delivered.append hsep hdone hcall hdisj h₁ hget)
      (Delivered.marked hsep hdone hcall hdisj h₁ hone hm hmarked) hnd hsub
    exact ⟨s', run_cons.2 ⟨_, hstep, hrun⟩, hd', hm'⟩

theorem Separate.partsAgree (hi : Reporting s) (hnd : ranges.Nodup) (hsep : Separate s.objectsAlloc ranges) :
    PartsAgree s ranges := by
  have hstart : Delivered s.objectsAlloc [] s.objectsAlloc := fun a p => by simp
  have hmark : Marked s.gcNumber s.objectsAlloc (fun k => ∃ r ∈ ([] : List MovedRange), r.Passes k)
      s.objects s.objects :=
    ⟨fun k p _ ⟨r, hr, _⟩ => absurd hr List.not_mem_nil, fun _ _ => rfl⟩
  have hrun : ∀ calls : List (List MovedRange), calls.flatten.Perm ranges →
      ∃ s', run step s (calls.map .movedReferences) = .ok s' ∧
        Delivered s.objectsAlloc ([] ++ calls.flatten) s'.objectsAlloc ∧
        Marked s.gcNumber s.objectsAlloc (fun k => ∃ r ∈ [] ++ calls.flatten, r.Passes k) s.objects s'.objects :=
    fun calls hperm => run_movedReferences hsep hi.tracked.one hi rfl hstart hmark
      (by simpa using hperm.nodup_iff.2 hnd) fun r hr => hperm.mem_iff.1 (by simpa using hr)
  intro calls calls' hperm hperm'
  obtain ⟨s₁, hrun₁, hd₁, hm₁⟩ := hrun calls hperm
  obtain ⟨s₂, hrun₂, hd₂, hm₂⟩ := hrun calls' hperm'
  rw [List.nil_append] at hd₁ hm₁ hd₂ hm₂
  have hall := hperm'.trans hperm.symm
  simp only [hall.mem_iff] at hm₂
  exact ⟨s₁, s₂, hrun₁, hrun₂, hd₁.unique hd₂ hall.symm, hm₁.unique hm₂⟩

end deliver

/-! ### When the test is right for the tracked objects -/

/-- The address lies in the new range. -/
def MovedRange.Receives (r : MovedRange) (a : Nat) : Prop := r.new ≤ a ∧ a < r.new + r.len

theorem MovedRange.receives_target {r : MovedRange} {k : Nat} (h : r.Holds k) (hw : r.new + r.len ≤ 2 ^ 64) :
    r.Receives (r.target k) := by
  rw [MovedRange.target_of_holds h hw]
  obtain ⟨h1, h2⟩ := h
  constructor <;> omega

/-- A report: the old ranges are disjoint and so are the new ones, which end in the address space. -/
structure Proper (ranges : List MovedRange) : Prop where
  nodup : ranges.Nodup
  old : ∀ r ∈ ranges, ∀ r' ∈ ranges, r' ≠ r → ∀ a, r.Holds a → ¬ r'.Holds a
  new : ∀ r ∈ ranges, ∀ r' ∈ ranges, r' ≠ r → ∀ a, r.Receives a → ¬ r'.Receives a
  wrap : ∀ r ∈ ranges, r.new + r.len ≤ 2 ^ 64

section exact
variable {s : CoreProfiler} {ranges : List MovedRange} {r r' : MovedRange} {k : Nat}

theorem movedReferences_step (hi : Reporting s) {s' : CoreProfiler} (h : step s (.movedReferences ranges) = .ok s') :
    Reporting s' ∧ ∀ (a : Nat) (p : Ptr), s'.objectsAlloc[a]? = some p ↔
      ((∀ r ∈ ranges, ¬ r.Passes a) ∧ s.objectsAlloc[a]? = some p) ∨
      ∃ k : Nat, s.objectsAlloc[k]? = some p ∧ destination ranges k = some a ∧ Arrives s.objectsAlloc ranges k := by
  obtain ⟨objects', m', hok, -, hget⟩ := movedReferences_get ranges hi.on hi.tracked.live
  obtain rfl := Except.ok.inj (h.symm.trans hok)
  exact ⟨hi.step (r := .moved ranges) h, hget⟩

/-- If another range takes the record up again, it does not stay where `r` sends it. -/
theorem taken_up {rest : List MovedRange} {p : Ptr} {s' : CoreProfiler} (hi : Reporting s)
    (hk : s.objectsAlloc[k]? = some p) (hpass : r.Passes k) (hr' : r' ∈ rest) (hpass' : r'.Passes (r.target k))
    (h : run step s [.movedReferences [r], .movedReferences rest] = .ok s') :
    s'.objectsAlloc[r.target k]? ≠ some p := by
  obtain ⟨s₁, h₁, h⟩ := run_cons.1 h
  obtain ⟨s₂, h₂, h⟩ := run_cons.1 h
  obtain rfl : s₂ = s' := Except.ok.inj h
  obtain ⟨hi₁, hget₁⟩ := movedReferences_step hi h₁
  obtain ⟨-, hget₂⟩ := movedReferences_step hi₁ h₂
  intro ht
  rcases (hget₂ _ p).1 ht with ⟨hno, -⟩ | ⟨a, ha, hdest, harr⟩
  · exact hno r' hr' hpass'
  rcases (hget₁ a p).1 ha with ⟨hno, ha'⟩ | ⟨k', hk', hdest', -⟩
  · obtain rfl := hi.tracked.one k a p hk ha'
    exact hno r (by simp) hpass
  · obtain rfl := hi.tracked.one k k' p hk hk'
    rw [destination_singleton hpass] at hdest'
    obtain rfl := Option.some.inj hdest'
    exact Nat.lt_irrefl _ ((harr _ hdest).1 (Map.mem_of_get ha)).2

/-- If the other ranges clear the new address and send nothing there, the record gets there last. -/
theorem cleared {rest : List MovedRange} {p : Ptr} {s' : CoreProfiler} (hi : Reporting s)
    (hk : s.objectsAlloc[k]? = some p) (hpass : r.Passes k) (hstay : ∀ r' ∈ rest, ¬ r'.Passes k)
    (hclear : r.target k ∈ s.objectsAlloc → ∃ r' ∈ rest, r'.Passes (r.target k))
    (hnone : ∀ k' ∈ s.objectsAlloc, destination rest k' ≠ some (r.target k))
    (h : run step s [.movedReferences rest, .movedReferences [r]] = .ok s') :
    s'.objectsAlloc[r.target k]? = some p := by
  obtain ⟨s₁, h₁, h⟩ := run_cons.1 h
  obtain ⟨s₂, h₂, h⟩ := run_cons.1 h
  obtain rfl : s₂ = s' := Except.ok.inj h
  obtain ⟨hi₁, hget₁⟩ := movedReferences_step hi h₁
  obtain ⟨-, hget₂⟩ := movedReferences_step hi₁ h₂
  have hfree : r.target k ∉ s₁.objectsAlloc := by
    intro ht
    obtain ⟨q, hq⟩ := Option.isSome_iff_exists.1 (Std.ExtTreeMap.mem_iff_isSome_getElem?.1 ht)
    rcases (hget₁ _ q).1 hq with ⟨hno, hq⟩ | ⟨k', hk', hdest, -⟩
    · obtain ⟨r', hr', hpass'⟩ := hclear (Map.mem_of_get hq)
      exact hno r' hr' hpass'
    · exact hnone k' (Map.mem_of_get hk') hdest
  refine (hget₂ _ p).2 (.inr ⟨k, (hget₁ k p).2 (.inl ⟨hstay, hk⟩), destination_singleton hpass, fun t ht => ?_⟩)
  rw [destination_singleton hpass] at ht
  obtain rfl := Option.some.inj ht
  refine ⟨fun hm => absurd hm hfree, fun k' hlt _ hdest => ?_⟩
  obtain ⟨r', hr', hpass', htarget⟩ := exists_of_destination hdest
  obtain rfl := List.mem_singleton.1 hr'
  exact absurd (MovedRange.target_inj hpass' hpass htarget) (Nat.ne_of_lt hlt)

/-- An object that another range takes up again where `r` sends it is there if `r` is delivered last,
and not if `r` is delivered first. -/
theorem not_partsAgree (hi : Reporting s) (hp : Proper ranges)
    (hright : ∀ k ∈ s.objectsAlloc, ∀ r ∈ ranges, r.Passes k ↔ r.Holds k) (hk : k ∈ s.objectsAlloc)
    (hr : r ∈ ranges) (hpass : r.Passes k) (hr' : r' ∈ ranges) (hpass' : r'.Passes (r.target k)) (hne : r' ≠ r) :
    ¬ PartsAgree s ranges := by
  intro hagree
  obtain ⟨p, hkp⟩ := Option.isSome_iff_exists.1 (Std.ExtTreeMap.mem_iff_isSome_getElem?.1 hk)
  obtain ⟨rest, hrest⟩ : ∃ rest, ranges.erase r = rest := ⟨_, rfl⟩
  have hperm : (r :: rest).Perm ranges := hrest ▸ (List.perm_cons_erase hr).symm
  have hmem : ∀ {r₁ : MovedRange}, r₁ ∈ rest ↔ r₁ ≠ r ∧ r₁ ∈ ranges := by
    intro r₁
    rw [← hrest, hp.nodup.mem_erase_iff]
  have hhold := (hright k hk r hr).1 hpass
  have hreceives := MovedRange.receives_target hhold (hp.wrap r hr)
  obtain ⟨s₁, s₂, h₁, h₂, heq, -⟩ := hagree [[r], rest] [rest, [r]] (by simpa using hperm)
    (by simpa using List.perm_append_comm.trans hperm)
  refine taken_up hi hkp hpass (hmem.2 ⟨hne, hr'⟩) hpass' h₁ (heq ▸ cleared hi hkp hpass ?_ ?_ ?_ h₂)
  · intro r₁ h₁ hpass₁
    obtain ⟨hne₁, hr₁⟩ := hmem.1 h₁
    exact hp.old r hr r₁ hr₁ hne₁ k hhold ((hright k hk r₁ hr₁).1 hpass₁)
  · exact fun _ => ⟨r', hmem.2 ⟨hne, hr'⟩, hpass'⟩
  · intro k' hk' hdest
    obtain ⟨r₁, h₁, hpass₁, htarget⟩ := exists_of_destination hdest
    obtain ⟨hne₁, hr₁⟩ := hmem.1 h₁
    have hreceives₁ := MovedRange.receives_target ((hright k' hk' r₁ hr₁).1 hpass₁) (hp.wrap r₁ hr₁)
    exact hp.new r hr r₁ hr₁ hne₁ _ hreceives (htarget ▸ hreceives₁)

theorem PartsAgree.separate (hi : Reporting s) (hp : Proper ranges)
    (hright : ∀ k ∈ s.objectsAlloc, ∀ r ∈ ranges, r.Passes k ↔ r.Holds k) (h : PartsAgree s ranges) :
    Separate s.objectsAlloc ranges := by
  refine ⟨fun k hk r hr hpass r' hr' hpass' => ?_, fun k hk r hr hpass r' hr' hpass' => ?_,
    fun k hk r hr hpass k' hk' r' hr' hpass' _ hne htarget => ?_⟩
  · by_contra hne
    exact not_partsAgree hi hp hright hk hr hpass hr' hpass' hne h
  · by_cases hne : r' = r
    · exact .inl (by rw [hne])
    · exact absurd ((hright k hk r' hr').1 hpass') (hp.old r hr r' hr' hne k ((hright k hk r hr).1 hpass))
  · have hreceives := MovedRange.receives_target ((hright k hk r hr).1 hpass) (hp.wrap r hr)
    have hreceives' := MovedRange.receives_target ((hright k' hk' r' hr').1 hpass') (hp.wrap r' hr')
    exact absurd (htarget ▸ hreceives') (hp.new r hr r' hr' hne _ hreceives)

end exact

/-- A report can be delivered in any parts if its ranges do not get into each other's way, and only
then when the test of the loop is right for the tracked objects. -/
theorem partsAgree_iff {s : CoreProfiler} {ranges : List MovedRange} (hl : Lifetime s) (ha : s.Alive)
    (hd : s.isDeallocEnable = true) (hp : Proper ranges) :
    (Separate s.objectsAlloc ranges → PartsAgree s ranges) ∧
      ((∀ k ∈ s.objectsAlloc, ∀ r ∈ ranges, r.Passes k ↔ r.Holds k) → PartsAgree s ranges →
        Separate s.objectsAlloc ranges) :=
  ⟨fun hsep => hsep.partsAgree ⟨ha, hd, hl.tracked⟩ hp.nodup,
    fun hright h => h.separate ⟨ha, hd, hl.tracked⟩ hp hright⟩

/-- The object at 100 goes to 110, where the second range begins. -/
def chainedRanges : List MovedRange := [⟨100, 110, 10⟩, ⟨110, 120, 10⟩]

theorem chainedRanges_proper : Proper chainedRanges := by
  refine ⟨by decide, ?_, ?_, by decide⟩ <;>
    (intro r hr r' hr' hne a h1 h2
     simp only [chainedRanges, List.mem_cons, List.not_mem_nil, or_false] at hr hr'
     rcases hr with rfl | rfl <;> rcases hr' with rfl | rfl <;>
       simp_all [MovedRange.Holds, MovedRange.Receives] <;> omega)

theorem partsAgree_iff_chained :
    ∃ s, run step Config.dealloc.start [.objectAllocated 100 5 (some 8) 1 ⟨1, 1⟩] = .ok s ∧
      (Separate s.objectsAlloc chainedRanges → PartsAgree s chainedRanges) ∧
        ((∀ k ∈ s.objectsAlloc, ∀ r ∈ chainedRanges, r.Passes k ↔ r.Holds k) → PartsAgree s chainedRanges →
          Separate s.objectsAlloc chainedRanges) := by
  obtain ⟨s, hs⟩ : ∃ s, run step Config.dealloc.start [.objectAllocated 100 5 (some 8) 1 ⟨1, 1⟩] = .ok s := ⟨_, rfl⟩
  obtain ⟨ha, hd, hl⟩ := (Lifetime.start .dealloc).run ⟨rfl, rfl⟩ rfl hs
  exact ⟨s, hs, partsAgree_iff hl ha hd chainedRanges_proper⟩

/-- One call leaves the object at 110, two calls at 120. -/
theorem chained_parts_disagree :
    ∃ s, run step Config.dealloc.start [.objectAllocated 100 5 (some 8) 1 ⟨1, 1⟩] = .ok s ∧
      Proper chainedRanges ∧
      (∀ k ∈ s.objectsAlloc, ∀ r ∈ chainedRanges, r.Receives k → ∃ r' ∈ chainedRanges, r'.Holds k) ∧
      ¬ PartsAgree s chainedRanges := by
  refine ⟨_, rfl, chainedRanges_proper, fun k hk r hr hrec => ?_, fun h => ?_⟩
  · obtain rfl : 100 = k := by simpa [Config.start, initializeProfiler, construct] using hk
    exact ⟨⟨100, 110, 10⟩, by decide, by decide⟩
  · obtain ⟨s₁, s₂, h₁, h₂, heq, -⟩ := h [chainedRanges] [[⟨100, 110, 10⟩], [⟨110, 120, 10⟩]] (by decide) (by decide)
    have hone : s₁.objectsAlloc[110]? = some 0 := by
      rw [← Except.ok.inj h₁]
      decide
    have htwo : s₂.objectsAlloc[110]? = none := by
      rw [← Except.ok.inj h₂]
      decide
    rw [heq, htwo] at hone
    cases hone

end Perun
