import PerunProfiler.Allocations
import PerunProfiler.ObjectTypes
import PerunProfiler.Surviving

/-!
# What becomes of each object

Seen by itself, an object has an address, which the reports of moved ranges change, and a mark, which
every report that finds the address renews; the end of a collection takes it out when the mark is old.
With deallocation tracking on, `m_objectsAlloc`, `m_objectsDeAlloc` and the records hold exactly these
objects (`Follows`), as long as the marking loop picks the objects that moved and there is room for
them, and every record is written with the lifetime its object has by itself.
-/

namespace Perun
open Lib

/-- An object of the run: its record, its address now, and whether a collection has taken it out. -/
structure Life where
  object : ObjectClass
  address : Nat
  gone : Bool
deriving DecidableEq

/-- Where the ranges send the object at `k`. -/
def relocation (ranges : List MovedRange) (k : Nat) : Option Nat :=
  (ranges.find? (·.Holds k)).map fun r => r.new + (k - r.old)

instance (r : SurvivingRange) (k : Nat) : Decidable (r.Holds k) := inferInstanceAs (Decidable (_ ∧ _))

/-- What a callback says of an object. -/
def Life.step (gcNumber : Nat) (x : Life) (e : Callback) : Life :=
  if x.gone then x else
  match e with
  | .movedReferences ranges =>
    match relocation ranges x.address with
    | some a => { x with object := x.object.mark gcNumber, address := a }
    | none => x
  | .survivingReferences ranges =>
    if ∃ r ∈ ranges, r.Holds x.address then { x with object := x.object.mark gcNumber } else x
  | .garbageCollectionFinished .. => { x with gone := x.object.untilGcNumber ≠ gcNumber }
  | _ => x

/-- The object that a callback allocates. -/
def Callback.born (s : CoreProfiler) : Callback → Option Life
  | .objectAllocated objectId classId (some pcSize) threadId now =>
    some ⟨newObject objectId classId pcSize threadId now s, objectId, false⟩
  | _ => none

/-- Every object goes its own way, and one may come in addition. -/
def live (s : CoreProfiler) (L : List Life) (e : Callback) : List Life :=
  L.map (·.step s.gcNumber e) ++ (e.born s).toList

/-- No object is allocated at an address that is taken. The marking loop picks the objects in the old
ranges, sends them where they went and finds the place free. -/
def Regular (s : CoreProfiler) : Callback → Prop
  | .objectAllocated objectId _ (some _) _ _ => objectId ∉ s.objectsAlloc
  | .movedReferences ranges => ∀ k ∈ s.objectsAlloc.keys,
      destination ranges k = relocation ranges k ∧ Arrives s.objectsAlloc ranges k
  | .survivingReferences ranges => ∀ k ∈ s.objectsAlloc.keys, ∀ r ∈ ranges, r.Passes k ↔ r.Holds k
  | _ => True

instance (m : Map Ptr) (ranges : List MovedRange) (k t : Nat) : Decidable (FreeFor m ranges k t) :=
  inferInstanceAs (Decidable (t ∈ m → (∃ r ∈ ranges, r.Passes t) ∧ t < k))

instance (m : Map Ptr) (ranges : List MovedRange) (k : Nat) : Decidable (Arrives m ranges k) :=
  match h : destination ranges k with
  | none => .isTrue fun t ht => by rw [h] at ht; cases ht
  | some t => decidable_of_iff (FreeFor m ranges k t ∧
      ∀ k' < k, k' ∈ m → destination ranges k' = some t → ¬ FreeFor m ranges k' t) (by simp [Arrives, h])

instance (s : CoreProfiler) : DecidablePred (Regular s) := fun e => by
  cases e with
  | objectAllocated o c z t now => cases z <;> (unfold Regular; infer_instance)
  | _ => unfold Regular; infer_instance

/-- The heap and the lists of the profiler hold the objects `L`, each once. -/
structure Follows (s : CoreProfiler) (L : List Life) : Prop where
  size : s.objects.size = L.length
  record : ∀ (p : Ptr) (x : Life), L[p]? = some x → s.objects.get? p = some x.object
  alloc : ∀ (k : Nat) (p : Ptr), s.objectsAlloc[k]? = some p ↔
    ∃ x : Life, L[p]? = some x ∧ x.gone = false ∧ x.address = k
  dealloc : ∀ p : Ptr, p ∈ s.objectsDeAlloc ↔ ∃ x : Life, L[p]? = some x ∧ x.gone = true

theorem Life.step_gone {gcNumber : Nat} {x : Life} (e : Callback) (h : x.gone = true) : x.step gcNumber e = x :=
  if_pos h

theorem Life.step_moved {gcNumber : Nat} {x : Life} {ranges : List MovedRange} (h : x.gone = false) :
    x.step gcNumber (.movedReferences ranges) = match relocation ranges x.address with
      | some a => { x with object := x.object.mark gcNumber, address := a }
      | none => x := by
  rw [Life.step, if_neg (by rw [h]; simp)]

theorem Life.step_surviving {gcNumber : Nat} {x : Life} {ranges : List SurvivingRange} (h : x.gone = false) :
    x.step gcNumber (.survivingReferences ranges) =
      if ∃ r ∈ ranges, r.Holds x.address then { x with object := x.object.mark gcNumber } else x := by
  rw [Life.step, if_neg (by rw [h]; simp)]

theorem Life.step_finished {gcNumber : Nat} {x : Life} {t : ThreadID} {now : Clock} (h : x.gone = false) :
    x.step gcNumber (.garbageCollectionFinished t now) = { x with gone := x.object.untilGcNumber ≠ gcNumber } := by
  rw [Life.step, if_neg (by rw [h]; simp)]

/-- A report takes no object out. -/
theorem Life.gone_step {gcNumber : Nat} {x : Life} {e : Callback} (he : ∀ t now, e ≠ .garbageCollectionFinished t now) :
    (x.step gcNumber e).gone = x.gone := by
  cases hx : x.gone with
  | true => rw [Life.step_gone e hx, hx]
  | false =>
    cases e with
    | movedReferences ranges =>
      rw [Life.step_moved hx]
      split <;> exact hx
    | survivingReferences ranges =>
      rw [Life.step_surviving hx]
      split <;> exact hx
    | garbageCollectionFinished t now => exact absurd rfl (he t now)
    | _ => exact (congrArg Life.gone (ite_self x)).trans hx

/-- Only reports and the end of a collection say something of an object. -/
theorem Life.step_other {gcNumber : Nat} {x : Life} {e : Callback}
    (he : e.collects = false ∨ ∃ g t now, e = .garbageCollectionStarted g t now) : x.step gcNumber e = x := by
  rcases he with he | ⟨g, t, now, rfl⟩
  · cases e with
    | movedReferences | survivingReferences | garbageCollectionStarted | garbageCollectionFinished => cases he
    | _ => exact ite_self x
  · exact ite_self x

namespace Follows
variable {s s' : CoreProfiler} {L : List Life} {e : Callback} {p : Ptr} {x : Life}

/-- The object at an address, which is not gone. -/
theorem at_address (h : Follows s L) (hp : L[p]? = some x) (hx : x.gone = false) :
    s.objectsAlloc[x.address]? = some p := (h.alloc _ p).2 ⟨x, hp, hx, rfl⟩

theorem mem_keys (h : Follows s L) (hp : L[p]? = some x) (hx : x.gone = false) :
    x.address ∈ s.objectsAlloc.keys := by
  rw [Std.ExtTreeMap.mem_keys, Std.ExtTreeMap.mem_iff_isSome_getElem?, h.at_address hp hx]
  rfl

/-- What leaves the records and the lists alone. -/
theorem congr (h : Follows s L) (hs : s'.tracking = s.tracking) : Follows s' L := by
  simp only [CoreProfiler.tracking, Prod.mk.injEq] at hs
  obtain ⟨h1, h2, h3⟩ := hs
  exact ⟨by rw [h1, h.size], by rw [h1]; exact h.record, by rw [h2]; exact h.alloc, by rw [h3]; exact h.dealloc⟩

theorem objectAllocated {o z : Nat} {c : ClassID} {t : ThreadID} {now : Clock} (h : Follows s L)
    (hfree : o ∉ s.objectsAlloc) (hs : objectAllocated o c (some z) t now s = .ok s') :
    Follows s' (L ++ [⟨newObject o c z t now s, o, false⟩]) := by
  rcases objectAllocated_cases hs with ⟨hz, -⟩ | ⟨z', hz, rfl⟩
  · cases hz
  cases hz
  have hlt : ∀ {q : Ptr} {x : Life}, L[q]? = some x → q ≠ L.length := fun hq hlen => by
    rw [hlen, List.getElem?_eq_none (Nat.le_refl _)] at hq
    cases hq
  refine ⟨?_, fun p x hp => ?_, fun k p => ?_, fun p => ?_⟩
  · rw [Heap.size_alloc, h.size, List.length_append]
    rfl
  · rw [Heap.get?_alloc, h.size]
    rw [getElem?_snoc] at hp
    split
    · next hpl =>
      rw [if_pos hpl] at hp
      rw [← Option.some.inj hp]
    · next hpl =>
      rw [if_neg hpl] at hp
      exact h.record p x hp
  · rw [Std.ExtTreeMap.getElem?_insert, h.size, getElem?_snoc]
    by_cases hk : o = k
    · subst hk
      rw [if_pos (by simp), Option.some.injEq]
      constructor
      · rintro rfl
        rw [if_pos rfl]
        exact ⟨_, rfl, rfl, rfl⟩
      · rintro ⟨x, hx, hgone, haddr⟩
        by_contra hne
        rw [if_neg fun heq => hne heq.symm] at hx
        refine hfree ?_
        rw [Std.ExtTreeMap.mem_iff_isSome_getElem?, ← haddr, h.at_address hx hgone]
        rfl
    · rw [if_neg (by simpa using hk), h.alloc]
      constructor
      · rintro ⟨x, hx, hgone, haddr⟩
        exact ⟨x, by rw [if_neg (hlt hx), hx], hgone, haddr⟩
      · rintro ⟨x, hx, hgone, haddr⟩
        split at hx
        · rw [← Option.some.inj hx] at haddr
          exact absurd haddr hk
        · exact ⟨x, hx, hgone, haddr⟩
  · rw [h.dealloc, getElem?_snoc]
    constructor
    · rintro ⟨x, hx, hgone⟩
      exact ⟨x, by rw [if_neg (hlt hx), hx], hgone⟩
    · rintro ⟨x, hx, hgone⟩
      split at hx
      · rw [← Option.some.inj hx] at hgone
        cases hgone
      · exact ⟨x, hx, hgone⟩

/-- A marking of the addresses with `P`, seen by the objects. -/
theorem get_marked {gcNumber : Nat} {P : Nat → Prop} {objects' : Heap ObjectClass} (h : Follows s L)
    (hm : Marked gcNumber s.objectsAlloc P s.objects objects') (hp : L[p]? = some x) :
    (x.gone = false → P x.address → objects'.get? p = some (x.object.mark gcNumber)) ∧
      ((x.gone = true ∨ ¬ P x.address) → objects'.get? p = some x.object) := by
  refine ⟨fun hgone hP => ?_, fun hno => ?_⟩
  · rw [hm.marked x.address p (h.at_address hp hgone) hP, h.record p x hp]
    rfl
  · rw [hm.same p fun k hk hP => ?_, h.record p x hp]
    obtain ⟨x', hx', hgone, rfl⟩ := (h.alloc k p).1 hk
    obtain rfl := Option.some.inj (hp.symm.trans hx')
    rcases hno with hg | hno
    · rw [hgone] at hg
      cases hg
    · exact hno hP

theorem getElem?_step {gcNumber : Nat} {x' : Life} (h : (L.map (·.step gcNumber e))[p]? = some x') :
    ∃ x, L[p]? = some x ∧ x.step gcNumber e = x' := by
  rw [List.getElem?_map] at h
  exact Option.map_eq_some_iff.1 h

/-- A callback under which every object goes its way, given what it does to the heap and the lists. -/
theorem of_step {objects' : Heap ObjectClass} {m' : Map Ptr} {dead' : List Ptr} (h : Follows s L)
    (hs : s'.tracking = (objects', m', dead')) (hsize : objects'.size = s.objects.size)
    (hrecord : ∀ p x, L[p]? = some x → objects'.get? p = some (x.step s.gcNumber e).object)
    (halloc : ∀ (k : Nat) (p : Ptr), m'[k]? = some p ↔
      ∃ x, L[p]? = some x ∧ (x.step s.gcNumber e).gone = false ∧ (x.step s.gcNumber e).address = k)
    (hdealloc : ∀ p, p ∈ dead' ↔ ∃ x, L[p]? = some x ∧ (x.step s.gcNumber e).gone = true) :
    Follows s' (L.map (·.step s.gcNumber e)) := by
  obtain ⟨h1, h2⟩ := Prod.mk.inj hs
  obtain ⟨h2, h3⟩ := Prod.mk.inj h2
  refine ⟨?_, fun p x' hp => ?_, fun k p => ?_, fun p => ?_⟩
  · rw [show s'.objects = objects' from h1, hsize, h.size, List.length_map]
  · obtain ⟨x, hx, rfl⟩ := getElem?_step hp
    rw [show s'.objects = objects' from h1, hrecord p x hx]
  · rw [show s'.objectsAlloc = m' from h2, halloc]
    simp only [List.getElem?_map, Option.map_eq_some_iff, exists_exists_and_eq_and]
  · rw [show s'.objectsDeAlloc = dead' from h3, hdealloc]
    simp only [List.getElem?_map, Option.map_eq_some_iff, exists_exists_and_eq_and]

theorem movedReferences {ranges : List MovedRange} (h : Follows s L) (hd : s.isDeallocEnable = true) (ht : Tracked s)
    (hreg : Regular s (.movedReferences ranges)) (hs : Perun.step s (.movedReferences ranges) = .ok s') :
    Follows s' (L.map (·.step s.gcNumber (.movedReferences ranges))) := by
  obtain ⟨objects', m', hok, hm, hget⟩ := movedReferences_get ranges hd ht.live
  have hsize : s'.objects.size = s.objects.size := (step_sameTypes rfl hs).1
  obtain rfl := Except.ok.inj (hs.symm.trans hok)
  have hregular : ∀ {p : Ptr} {x : Life}, L[p]? = some x → x.gone = false →
      destination ranges x.address = relocation ranges x.address ∧ Arrives s.objectsAlloc ranges x.address :=
    fun hp hx => hreg _ (h.mem_keys hp hx)
  refine h.of_step rfl hsize (fun p x hp => ?_) (fun k p => ?_) fun p => ?_
  · obtain ⟨hmark, hsame⟩ := h.get_marked hm hp
    cases hx : x.gone with
    | true => rw [Life.step_gone _ hx, hsame (.inl hx)]
    | false =>
      rw [Life.step_moved hx]
      cases hto : relocation ranges x.address with
      | none => exact hsame (.inr (by simpa using destination_eq_none.1 ((hregular hp hx).1.trans hto)))
      | some a => exact hmark hx (destination_isSome.1 ⟨a, (hregular hp hx).1.trans hto⟩)
  · rw [hget]
    constructor
    · rintro (⟨hno, hk⟩ | ⟨k', hk', hdest, -⟩)
      · obtain ⟨x, hp, hx, rfl⟩ := (h.alloc k p).1 hk
        have hto := (hregular hp hx).1.symm.trans (destination_eq_none.2 hno)
        refine ⟨x, hp, ?_⟩
        rw [Life.step_moved hx, hto]
        exact ⟨hx, rfl⟩
      · obtain ⟨x, hp, hx, rfl⟩ := (h.alloc k' p).1 hk'
        have hto := (hregular hp hx).1.symm.trans hdest
        refine ⟨x, hp, ?_⟩
        rw [Life.step_moved hx, hto]
        exact ⟨hx, rfl⟩
    · rintro ⟨x, hp, hgone, haddr⟩
      have hx : x.gone = false := by rwa [Life.gone_step (e := .movedReferences ranges) fun _ _ => nofun] at hgone
      rw [Life.step_moved hx] at haddr
      obtain ⟨hdest, harr⟩ := hregular hp hx
      cases hto : relocation ranges x.address with
      | none =>
        rw [hto] at haddr hdest
        exact .inl ⟨by rw [← haddr]; exact destination_eq_none.1 hdest, by rw [← haddr]; exact h.at_address hp hx⟩
      | some a =>
        rw [hto] at haddr hdest
        exact .inr ⟨x.address, h.at_address hp hx, by rw [hdest, ← haddr], harr⟩
  · rw [h.dealloc]
    simp only [Life.gone_step (e := .movedReferences ranges) fun _ _ => nofun]

theorem survivingReferences {ranges : List SurvivingRange} (h : Follows s L) (hd : s.isDeallocEnable = true)
    (ht : Tracked s) (hreg : Regular s (.survivingReferences ranges))
    (hs : Perun.step s (.survivingReferences ranges) = .ok s') :
    Follows s' (L.map (·.step s.gcNumber (.survivingReferences ranges))) := by
  obtain ⟨objects', hok, hm⟩ := survivingReferences_spec ranges hd ht.live
  have hsize : s'.objects.size = s.objects.size := (step_sameTypes rfl hs).1
  obtain rfl := Except.ok.inj (hs.symm.trans hok)
  have hpasses : ∀ {p : Ptr} {x : Life}, L[p]? = some x → x.gone = false →
      ((∃ r ∈ ranges, r.Passes x.address) ↔ ∃ r ∈ ranges, r.Holds x.address) := fun hp hx =>
    exists_congr fun r => and_congr_right fun hr => hreg _ (h.mem_keys hp hx) r hr
  have haddress : ∀ x : Life, (x.step s.gcNumber (.survivingReferences ranges)).address = x.address := by
    intro x
    cases hx : x.gone with
    | true => rw [Life.step_gone _ hx]
    | false =>
      rw [Life.step_surviving hx]
      split <;> rfl
  have hgone : ∀ x : Life, (x.step s.gcNumber (.survivingReferences ranges)).gone = x.gone :=
    fun x => Life.gone_step fun _ _ => nofun
  refine h.of_step rfl hsize (fun p x hp => ?_) (fun k p => ?_) fun p => ?_
  · obtain ⟨hmark, hsame⟩ := h.get_marked hm hp
    cases hx : x.gone with
    | true => rw [Life.step_gone _ hx, hsame (.inl hx)]
    | false =>
      rw [Life.step_surviving hx]
      by_cases hP : ∃ r ∈ ranges, r.Holds x.address
      · rw [if_pos hP]
        exact hmark hx ((hpasses hp hx).2 hP)
      · rw [if_neg hP]
        exact hsame (.inr fun hpass => hP ((hpasses hp hx).1 hpass))
  · simp only [hgone, haddress]
    exact h.alloc k p
  · simp only [hgone]
    exact h.dealloc p

theorem garbageCollectionFinished {t : ThreadID} {now : Clock} (h : Follows s L) (ha : s.info = true)
    (hd : s.isDeallocEnable = true) (ht : Tracked s)
    (hs : Perun.step s (.garbageCollectionFinished t now) = .ok s') :
    Follows s' (L.map (·.step s.gcNumber (.garbageCollectionFinished t now))) := by
  obtain ⟨m', hok, hget⟩ := garbageCollectionFinished_spec t now ha hd ht.live
  obtain rfl := Except.ok.inj (hs.symm.trans hok)
  have hold : ∀ {p : Ptr} {x : Life}, L[p]? = some x →
      outdated s.gcNumber s.objects p = decide (x.object.untilGcNumber ≠ s.gcNumber) := fun hp => by
    rw [outdated, h.record _ _ hp]
    rfl
  refine h.of_step rfl rfl (fun p x hp => ?_) (fun k p => ?_) fun p => ?_
  · rw [h.record p x hp]
    cases hx : x.gone with
    | true => rw [Life.step_gone _ hx]
    | false => rw [Life.step_finished hx]
  · rw [hget, h.alloc]
    constructor
    · rintro ⟨⟨x, hp, hx, rfl⟩, hno⟩
      refine ⟨x, hp, ?_⟩
      rw [hold hp] at hno
      rw [Life.step_finished hx]
      exact ⟨hno, rfl⟩
    · rintro ⟨x, hp, hgone, haddr⟩
      cases hx : x.gone with
      | true =>
        rw [Life.step_gone _ hx, hx] at hgone
        cases hgone
      | false =>
        rw [Life.step_finished hx] at hgone haddr
        exact ⟨⟨x, hp, hx, haddr⟩, by rw [hold hp]; exact hgone⟩
  · rw [List.mem_append, h.dealloc, List.mem_map]
    constructor
    · rintro (⟨x, hp, hx⟩ | ⟨⟨k, q⟩, he, rfl⟩)
      · exact ⟨x, hp, by rw [Life.step_gone _ hx, hx]⟩
      · obtain ⟨hk, hno⟩ := List.mem_filter.1 he
        obtain ⟨x, hp, hx, rfl⟩ := (h.alloc k q).1 (Std.ExtTreeMap.mem_toList_iff_getElem?_eq_some.1 hk)
        refine ⟨x, hp, ?_⟩
        rw [Life.step_finished hx]
        rwa [hold hp] at hno
    · rintro ⟨x, hp, hgone⟩
      cases hx : x.gone with
      | true => exact .inl ⟨x, hp, hx⟩
      | false =>
        rw [Life.step_finished hx] at hgone
        refine .inr ⟨(x.address, p), List.mem_filter.2 ⟨?_, by rw [hold hp]; exact hgone⟩, rfl⟩
        exact Std.ExtTreeMap.mem_toList_iff_getElem?_eq_some.2 (h.at_address hp hx)

/-- Every callback lets the objects go their ways. -/
theorem step (h : Follows s L) (ha : s.Alive) (hd : s.isDeallocEnable = true) (ht : Tracked s) (hreg : Regular s e)
    (hs : Perun.step s e = .ok s') : Follows s' (live s L e) := by
  have hnone : e.born s = none → live s L e = L.map (·.step s.gcNumber e) := fun hb => by
    rw [live, hb, Option.toList_none, List.append_nil]
  have hother : (e.collects = false ∨ ∃ g t now, e = .garbageCollectionStarted g t now) →
      L.map (·.step s.gcNumber e) = L := fun he => by
    simp only [Life.step_other he, List.map_id']
  by_cases ho : ∃ o c z t now, e = .objectAllocated o c (some z) t now
  · obtain ⟨o, c, z, t, now, rfl⟩ := ho
    rw [live, hother (.inl rfl)]
    exact h.objectAllocated hreg hs
  have hb : e.born s = none := by
    unfold Callback.born
    split
    · exact absurd ⟨_, _, _, _, _, rfl⟩ ho
    · rfl
  rw [hnone hb]
  cases hc : e.collects with
  | false =>
    rw [hother (.inl hc)]
    exact h.congr (step_untouched hc (fun o c z t now he => ho ⟨o, c, z, t, now, he⟩) hs).1
  | true =>
    cases e with
    | movedReferences ranges => exact h.movedReferences hd ht hreg hs
    | survivingReferences ranges => exact h.survivingReferences hd ht hreg hs
    | garbageCollectionStarted g t now =>
      rw [hother (.inr ⟨g, t, now, rfl⟩)]
      exact h.congr (by rw [garbageCollectionStarted_cases hs]; rfl)
    | garbageCollectionFinished t now => exact h.garbageCollectionFinished ha.info hd ht hs
    | _ => cases hc

theorem start (c : Config) : Follows c.start [] := by
  constructor <;> simp [Config.start, initializeProfiler, construct, Heap.size, Heap.empty]

/-- Every object is held, and held once. -/
theorem heldRecords (h : Follows s L) (ht : Tracked s) : s.heldRecords.Perm (List.range L.length) := by
  refine (List.perm_ext_iff_of_nodup ht.nodup_heldRecords List.nodup_range).2 fun p => ?_
  rw [CoreProfiler.mem_heldRecords, List.mem_range, h.dealloc]
  simp only [h.alloc]
  constructor
  · rintro (⟨x, hp, -⟩ | ⟨k, x, hp, -⟩) <;> exact (List.getElem?_eq_some_iff.1 hp).1
  · intro hlt
    have hp := List.getElem?_eq_getElem hlt
    cases hx : L[p].gone with
    | true => exact .inl ⟨_, hp, hx⟩
    | false => exact .inr ⟨_, _, hp, hx, rfl⟩

end Follows

/-- What `Shutdown` writes of an object. -/
def Life.written (gcNumber : Nat) (x : Life) : ObjectRecord :=
  if x.gone then x.object.record else (x.object.survive gcNumber).record

theorem Follows.objectsSection {s : CoreProfiler} {L : List Life} (h : Follows s L) (ht : Tracked s) :
    ∃ records objects', objectsSection s = .ok (records, objects') ∧
      records.Perm (L.map (Life.written s.gcNumber)) := by
  obtain ⟨objects', hok, -⟩ := ht.objectsSection
  refine ⟨_, objects', hok, ?_⟩
  have hdead : s.objectsDeAlloc.filterMap (fun p => (s.objects.get? p).map ObjectClass.record) =
      s.objectsDeAlloc.filterMap fun p => L[p]?.map (Life.written s.gcNumber) := by
    refine List.filterMap_congr fun p hp => ?_
    obtain ⟨x, hx, hgone⟩ := (h.dealloc p).1 hp
    rw [hx, h.record p x hx, Option.map_some, Option.map_some, Life.written, if_pos hgone]
  have halive : ((s.objectsAlloc.toList.map Prod.snd).filterMap fun p =>
      (s.objects.get? p).map fun object => (object.survive s.gcNumber).record) =
      (s.objectsAlloc.toList.map Prod.snd).filterMap fun p => L[p]?.map (Life.written s.gcNumber) := by
    refine List.filterMap_congr fun p hp => ?_
    obtain ⟨⟨k, p⟩, he, rfl⟩ := List.mem_map.1 hp
    obtain ⟨x, hx, hgone, -⟩ := (h.alloc k p).1 (Std.ExtTreeMap.mem_toList_iff_getElem?_eq_some.1 he)
    rw [hx, h.record p x hx, Option.map_some, Option.map_some, Life.written, if_neg (by rw [hgone]; simp)]
  rw [hdead, halive, ← List.filterMap_append, ← filterMap_range L]
  exact (h.heldRecords ht).filterMap _

end Perun
