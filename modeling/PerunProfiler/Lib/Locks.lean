import Mathlib.Algebra.BigOperators.Group.Finset.Basic
import Mathlib.Data.Fintype.Basic
import Mathlib.Order.WellFounded
import PerunProfiler.Lib.Run

/-!
# Threads with locks

A thread takes and releases locks, prints items one by one and may close the file they go to.
`Sound.completes`: when every thread takes its locks in ascending order, no run gets stuck. `serial`: what
is printed under one lock comes out message by message; the file holds what is printed before it is closed.
-/

namespace Lib

inductive Act (L α : Type) where
  | acquire (l : L)
  | release (l : L)
  | put (a : α)
  | close
deriving DecidableEq

/-- What each thread has yet to do, who owns each lock, what is printed so far and what of it was in the
file when it was closed. -/
structure Threads (T L α : Type) where
  code : T → List (Act L α)
  owner : L → Option T
  out : List α
  closed : Option (List α)

namespace Threads
open Function (update)

variable {T L α : Type} [DecidableEq T] [DecidableEq L] {s s' : Threads T L α} {t : T} {ts : List T}
  {held : T → List L}

def start (code : T → List (Act L α)) (out : List α) : Threads T L α := ⟨code, fun _ => none, out, none⟩

/-- What is printed after the file is closed is lost. -/
def file (s : Threads T L α) : List α := s.closed.getD s.out

/-- The next act of a thread, which waits for a lock as long as it is owned. -/
def step (s : Threads T L α) (t : T) : Except Unit (Threads T L α) :=
  match s.code t with
  | [] => .error ()
  | .acquire l :: acts =>
    if s.owner l = none then .ok { s with code := update s.code t acts, owner := update s.owner l (some t) }
    else .error ()
  | .release l :: acts =>
    if s.owner l = some t then .ok { s with code := update s.code t acts, owner := update s.owner l none }
    else .error ()
  | .put a :: acts => .ok { s with code := update s.code t acts, out := s.out ++ [a] }
  | .close :: acts => .ok { s with code := update s.code t acts, closed := some s.file }

theorem step_cases (h : step s t = .ok s') : ∃ acts, s'.code = update s.code t acts ∧
    ((∃ l, s.code t = .acquire l :: acts ∧ s.owner l = none ∧ s'.owner = update s.owner l (some t) ∧
        s'.out = s.out ∧ s'.closed = s.closed) ∨
      (∃ l, s.code t = .release l :: acts ∧ s.owner l = some t ∧ s'.owner = update s.owner l none ∧
        s'.out = s.out ∧ s'.closed = s.closed) ∨
      (∃ a, s.code t = .put a :: acts ∧ s'.owner = s.owner ∧ s'.out = s.out ++ [a] ∧ s'.closed = s.closed) ∨
      s.code t = .close :: acts ∧ s'.owner = s.owner ∧ s'.out = s.out ∧ s'.closed = some s.file) := by
  unfold step at h
  split at h
  · cases h
  · next l acts hc =>
    split at h <;> cases h
    exact ⟨acts, rfl, .inl ⟨l, hc, ‹_›, rfl, rfl, rfl⟩⟩
  · next l acts hc =>
    split at h <;> cases h
    exact ⟨acts, rfl, .inr (.inl ⟨l, hc, ‹_›, rfl, rfl, rfl⟩)⟩
  · next a acts hc =>
    cases h
    exact ⟨acts, rfl, .inr (.inr (.inl ⟨a, hc, rfl, rfl, rfl⟩))⟩
  · next acts hc =>
    cases h
    exact ⟨acts, rfl, .inr (.inr (.inr ⟨hc, rfl, rfl, rfl⟩))⟩

section inversion
variable {acts : List (Act L α)} {l : L} {a : α}

theorem step_acquire (hc : s.code t = .acquire l :: acts) (h : step s t = .ok s') : s.owner l = none ∧
    s' = { s with code := update s.code t acts, owner := update s.owner l (some t) } := by
  simp only [step, hc] at h
  split at h <;> cases h
  exact ⟨‹_›, rfl⟩

theorem step_release (hc : s.code t = .release l :: acts) (h : step s t = .ok s') :
    s' = { s with code := update s.code t acts, owner := update s.owner l none } := by
  simp only [step, hc] at h
  split at h <;> cases h
  rfl

theorem step_put (hc : s.code t = .put a :: acts) (h : step s t = .ok s') :
    s' = { s with code := update s.code t acts, out := s.out ++ [a] } := by
  rw [step, hc] at h
  cases h
  rfl

theorem step_close (hc : s.code t = .close :: acts) (h : step s t = .ok s') :
    s' = { s with code := update s.code t acts, closed := some s.file } := by
  rw [step, hc] at h
  cases h
  rfl

end inversion

/-- The acts left of all threads together. -/
def remaining [Fintype T] (s : Threads T L α) : Nat := ∑ t, (s.code t).length

theorem step_remaining [Fintype T] (h : step s t = .ok s') : s.remaining = s'.remaining + 1 := by
  obtain ⟨acts, hcode, hcases⟩ := step_cases h
  have hlength : (s.code t).length = acts.length + 1 := by
    obtain ⟨l, hc, -⟩ | ⟨l, hc, -⟩ | ⟨a, hc, -⟩ | ⟨hc, -⟩ := hcases <;> rw [hc, List.length_cons]
  have hrest : ∑ u ∈ Finset.univ.erase t, (s'.code u).length = ∑ u ∈ Finset.univ.erase t, (s.code u).length :=
    Finset.sum_congr rfl fun u hu => by rw [hcode, Function.update_of_ne (Finset.ne_of_mem_erase hu)]
  have hself : (s'.code t).length = acts.length := by rw [hcode, Function.update_self]
  rw [remaining, remaining, ← Finset.add_sum_erase _ _ (Finset.mem_univ t),
    ← Finset.add_sum_erase Finset.univ (fun u => (s'.code u).length) (Finset.mem_univ t), hrest, hself, hlength]
  omega

theorem run_remaining [Fintype T] (h : run step s ts = .ok s') : s.remaining = s'.remaining + ts.length := by
  induction ts generalizing s with
  | nil =>
    cases h
    rfl
  | cons t ts ih =>
    obtain ⟨s₁, h₁, h₂⟩ := run_cons.1 h
    rw [step_remaining h₁, ih h₂, List.length_cons]
    omega

/-! ### Locks in ascending order -/

section ascending
variable [Preorder L] {acts acts₁ acts₂ : List (Act L α)} {hs : List L} {l : L}

/-- With the locks `held`, the last one taken first: every lock that is taken is above those held, they
are released in the opposite order, and none is held at the end. -/
def Ascending : List L → List (Act L α) → Prop
  | held, [] => held = []
  | held, .acquire l :: acts => (∀ k ∈ held, k < l) ∧ Ascending (l :: held) acts
  | held, .release l :: acts => ∃ held', held = l :: held' ∧ Ascending held' acts
  | held, .put _ :: acts => Ascending held acts
  | held, .close :: acts => Ascending held acts

omit [DecidableEq L] in
theorem Ascending.append (h₁ : Ascending hs acts₁) (h₂ : Ascending [] acts₂) : Ascending hs (acts₁ ++ acts₂) := by
  induction acts₁ generalizing hs with
  | nil =>
    cases h₁
    exact h₂
  | cons a acts₁ ih =>
    cases a with
    | acquire l => exact ⟨h₁.1, ih h₁.2⟩
    | release l =>
      obtain ⟨hs', rfl, h₁⟩ := h₁
      exact ⟨hs', rfl, ih h₁⟩
    | put a => exact ih h₁
    | close => exact ih h₁

omit [DecidableEq L] in
theorem Ascending.flatten {codes : List (List (Act L α))} (h : ∀ code ∈ codes, Ascending [] code) :
    Ascending [] codes.flatten := by
  induction codes with
  | nil => exact rfl
  | cons code codes ih =>
    exact (h code (by simp)).append (ih fun code' h' => h code' (List.mem_cons_of_mem _ h'))

/-- Each thread goes on in ascending order from the locks it owns. -/
structure Sound (s : Threads T L α) (held : T → List L) : Prop where
  ascending : ∀ t, Ascending (held t) (s.code t)
  sorted : ∀ t, (held t).Pairwise fun k l => l < k
  owner : ∀ l t, s.owner l = some t ↔ l ∈ held t

omit [DecidableEq T] [DecidableEq L] in
theorem Sound.start {code : T → List (Act L α)} (h : ∀ t, Ascending [] (code t)) (out : List α) :
    Sound (start code out) fun _ => [] :=
  ⟨h, fun _ => .nil, fun _ _ => by simp [Threads.start]⟩

omit [DecidableEq L] in
/-- The thread that steps holds `hs` and goes on with `acts`. -/
theorem Sound.update (h : Sound s held) (hcode : s'.code = update s.code t acts) (hasc : Ascending hs acts)
    (hsorted : hs.Pairwise fun k l => l < k) (howner : ∀ l u, s'.owner l = some u ↔ l ∈ update held t hs u) :
    Sound s' (update held t hs) := by
  refine ⟨fun u => ?_, fun u => ?_, howner⟩
  · rw [hcode]
    by_cases hu : u = t
    · subst hu
      rw [Function.update_self, Function.update_self]
      exact hasc
    · rw [Function.update_of_ne hu, Function.update_of_ne hu]
      exact h.ascending u
  · by_cases hu : u = t
    · subst hu
      rw [Function.update_self]
      exact hsorted
    · rw [Function.update_of_ne hu]
      exact h.sorted u

theorem Sound.step (h : Sound s held) (hs : step s t = .ok s') : ∃ held', Sound s' held' := by
  obtain ⟨acts, hcode, hcases⟩ := step_cases hs
  have hasc := h.ascending t
  have hsorted := h.sorted t
  -- nothing changes hands
  have hsame : s'.owner = s.owner → Ascending (held t) acts → ∃ held', Sound s' held' := by
    intro howner hasc
    refine ⟨_, h.update hcode hasc hsorted fun k u => ?_⟩
    rw [howner, h.owner, Function.update_eq_self]
  obtain ⟨l, hc, hnone, howner, -⟩ | ⟨l, hc, hsome, howner, -⟩ | ⟨a, hc, howner, -⟩ | ⟨hc, howner, -⟩ := hcases <;>
    rw [hc] at hasc
  · refine ⟨_, h.update hcode hasc.2 (.cons hasc.1 hsorted) fun k u => ?_⟩
    have hfree : l ∉ held u := by
      rw [← h.owner, hnone]
      exact fun e => by cases e
    rw [howner]
    by_cases hk : k = l
    · subst hk
      rw [Function.update_self]
      by_cases hu : u = t
      · subst hu
        simp
      · rw [Function.update_of_ne hu]
        exact ⟨fun e => absurd (Option.some.inj e).symm hu, fun hmem => absurd hmem hfree⟩
    · rw [Function.update_of_ne hk, h.owner]
      by_cases hu : u = t
      · subst hu
        rw [Function.update_self, List.mem_cons, or_iff_right hk]
      · rw [Function.update_of_ne hu]
  · obtain ⟨hs', heq, hasc⟩ := hasc
    rw [heq, List.pairwise_cons] at hsorted
    refine ⟨_, h.update hcode hasc hsorted.2 fun k u => ?_⟩
    rw [howner]
    by_cases hk : k = l
    · subst hk
      rw [Function.update_self]
      refine ⟨fun e => (by cases e), fun hmem => ?_⟩
      by_cases hu : u = t
      · subst hu
        rw [Function.update_self] at hmem
        exact absurd (hsorted.1 k hmem) (lt_irrefl k)
      · rw [Function.update_of_ne hu, ← h.owner, hsome] at hmem
        exact absurd (Option.some.inj hmem).symm hu
    · rw [Function.update_of_ne hk, h.owner]
      by_cases hu : u = t
      · subst hu
        rw [Function.update_self, heq, List.mem_cons, or_iff_right hk]
      · rw [Function.update_of_ne hu]
  · exact hsame howner hasc
  · exact hsame howner hasc

/-- A thread that is not done goes on or waits for a lock that a thread owns. -/
theorem Sound.step_or_waits (h : Sound s held) (hne : s.code t ≠ []) :
    (∃ s', Threads.step s t = .ok s') ∨
      ∃ l acts u, s.code t = .acquire l :: acts ∧ l ∈ held u := by
  have hasc := h.ascending t
  cases hc : s.code t with
  | nil => exact absurd hc hne
  | cons a acts =>
    rw [hc] at hasc
    cases a with
    | acquire l =>
      cases ho : s.owner l with
      | none => exact .inl ⟨_, by rw [Threads.step, hc]; exact if_pos ho⟩
      | some u => exact .inr ⟨l, acts, u, rfl, (h.owner l u).1 ho⟩
    | release l =>
      obtain ⟨hs', heq, -⟩ := hasc
      have ho : s.owner l = some t := (h.owner l t).2 (by rw [heq]; exact List.mem_cons_self)
      exact .inl ⟨_, by rw [Threads.step, hc]; exact if_pos ho⟩
    | put a => exact .inl ⟨_, by rw [Threads.step, hc]⟩
    | close => exact .inl ⟨_, by rw [Threads.step, hc]⟩

/-- No deadlock. From a thread that waits, go to the owner of the lock: it either goes on or waits for
a higher one. -/
theorem Sound.progress [WellFoundedGT L] (h : Sound s held) (hne : s.code t ≠ []) :
    ∃ t' s', Threads.step s t' = .ok s' := by
  suffices H : ∀ l u, l ∈ held u → ∃ t' s', Threads.step s t' = .ok s' by
    obtain ⟨s', hs⟩ | ⟨l, acts, u, -, hl⟩ := h.step_or_waits hne
    · exact ⟨t, s', hs⟩
    · exact H l u hl
  intro l
  induction l using WellFoundedGT.induction with
  | ind l ih =>
    intro u hl
    have hasc := h.ascending u
    have hu : s.code u ≠ [] := by
      intro hnil
      rw [hnil] at hasc
      cases (show held u = [] from hasc) ▸ hl
    obtain ⟨s', hs⟩ | ⟨k, acts, v, hc, hk⟩ := h.step_or_waits hu
    · exact ⟨u, s', hs⟩
    · rw [hc] at hasc
      exact ih k (hasc.1 l hl) v hk

theorem Sound.run (h : Sound s held) (hr : run Threads.step s ts = .ok s') : ∃ held', Sound s' held' :=
  run_inv (P := fun s => ∃ held, Sound s held) ⟨held, h⟩ (fun _ _ _ ⟨_, h⟩ hs => h.step hs) hr

/-- Every thread can be run to its end. -/
theorem Sound.completes [Fintype T] [WellFoundedGT L] (h : Sound s held) :
    ∃ ts s', Lib.run Threads.step s ts = .ok s' ∧ ∀ t, s'.code t = [] := by
  obtain ⟨n, hn⟩ : ∃ n, s.remaining = n := ⟨_, rfl⟩
  induction n generalizing s held with
  | zero =>
    refine ⟨[], s, rfl, fun t => ?_⟩
    have hzero := Finset.sum_eq_zero_iff.1 hn t (Finset.mem_univ t)
    exact List.eq_nil_of_length_eq_zero hzero
  | succ n ih =>
    obtain ⟨t, -, ht⟩ := Finset.exists_ne_zero_of_sum_ne_zero (show ∑ t, (s.code t).length ≠ 0 by
      rw [show ∑ t, (s.code t).length = n + 1 from hn]; omega)
    obtain ⟨u, s₁, hs⟩ := h.progress (t := t) fun hnil => ht (by rw [hnil]; rfl)
    obtain ⟨held₁, h₁⟩ := h.step hs
    obtain ⟨ts, s', hr, hdone⟩ := ih h₁ (by have := step_remaining hs; omega)
    exact ⟨u :: ts, s', run_cons.2 ⟨s₁, hs, hr⟩, hdone⟩

end ascending

/-! ### Messages printed under one lock -/

/-- A lock taken or released, a message printed under a lock of its own, or the file closed. -/
inductive Part (L α : Type) where
  | acquire (l : L)
  | release (l : L)
  | write (message : List α)
  | close

variable {g : L} {parts : T → List (Part L α)} {out₀ : List α}

def Part.acts (g : L) : Part L α → List (Act L α)
  | .acquire l => [.acquire l]
  | .release l => [.release l]
  | .write message => .acquire g :: message.map .put ++ [.release g]
  | .close => [.close]

def Part.message : Part L α → Option (List α)
  | .write message => some message
  | _ => none

section ascending
variable [Preorder L] {held : List L} {acts : List (Act L α)}

omit [DecidableEq L] in
/-- A message may be printed under any locks below the one of the messages. -/
theorem Ascending.write (hbelow : ∀ k ∈ held, k < g) (message : List α) (h : Ascending held acts) :
    Ascending held (Part.acts g (.write message) ++ acts) := by
  have hput : Ascending (g :: held) (message.map .put ++ ([.release g] ++ acts)) := by
    induction message with
    | nil => exact ⟨held, rfl, h⟩
    | cons a message ih => exact ih
  refine ⟨hbelow, ?_⟩
  rw [← List.append_assoc] at hput
  exact hput

omit [DecidableEq L] in
theorem Ascending.writes (hbelow : ∀ k ∈ held, k < g) (messages : List (List α)) (h : Ascending held acts) :
    Ascending held ((messages.map Part.write).flatMap (Part.acts g) ++ acts) := by
  induction messages with
  | nil => exact h
  | cons message messages ih =>
    rw [List.map_cons, List.flatMap_cons, List.append_assoc]
    exact ih.write hbelow message

end ascending

/-- The lock of the messages is not taken by itself. -/
def Part.Spares (g : L) : Part L α → Prop
  | .acquire l => l ≠ g
  | .release l => l ≠ g
  | .write _ => True
  | .close => True

/-- What of `order` comes from the thread. -/
def ofThread (t : T) (order : List (T × List α)) : List (List α) := (order.filter (·.1 = t)).map Prod.snd

/-- What is left of the message a thread is printing. -/
def printing (g : L) (s : Threads T L α) (pending : List α) (t : T) : List (Act L α) :=
  if s.owner g = some t then pending.map .put ++ [.release g] else []

/-- The messages in `order`, one after the other. -/
def text (order : List (T × List α)) : List α := (order.map Prod.snd).flatten

/-- A thread has got as far as `rest`, with `messages` behind it; the file is still open if it was not
closed on the way. -/
def Behind (parts rest : List (Part L α)) (messages : List (List α)) (closed : Option (List α)) : Prop :=
  ∃ done, parts = done ++ rest ∧ done.filterMap Part.message = messages ∧ (closed = none → .close ∉ done)

/-- The file was closed after the messages `before` and perhaps a part of the next one. The thread that
closed it had printed all it prints before. -/
def ClosedAt (parts : T → List (Part L α)) (out₀ : List α) (order : List (T × List α)) (file : List α) : Prop :=
  ∃ before after cut, order = before ++ after ∧ file = out₀ ++ text before ++ cut ∧
    cut <+: (after.head?.map Prod.snd).getD [] ∧
    ∃ t done rest, parts t = done ++ .close :: rest ∧ ofThread t before = done.filterMap Part.message

/-- Up to the rest of the message being printed, the last one, what is printed is the messages in `order`. -/
structure Serial (g : L) (parts : T → List (Part L α)) (out₀ : List α) (order : List (T × List α))
    (rest : T → List (Part L α)) (pending : List α) (s : Threads T L α) : Prop where
  behind : ∀ t, Behind (parts t) (rest t) (ofThread t order) s.closed
  out : s.out ++ pending = out₀ ++ text order
  code : ∀ t, s.code t = printing g s pending t ++ (rest t).flatMap (Part.acts g)
  current : pending ≠ [] → ∃ before u message, order = before ++ [(u, message)] ∧ s.owner g = some u ∧
    pending <:+ message
  closed : ∀ file, s.closed = some file → ClosedAt parts out₀ order file
  spares : ∀ t, ∀ p ∈ rest t, p.Spares g

variable {order order' : List (T × List α)} {rest : T → List (Part L α)} {pending pending' : List α}
  {acts : List (Act L α)} {p : Part L α} {ps : List (Part L α)} {closed closed' : Option (List α)}
  {messages : List (List α)}

omit [DecidableEq T] in
@[simp] theorem text_snoc (t : T) (message : List α) : text (order ++ [(t, message)]) = text order ++ message := by
  simp [text]

theorem ofThread_snoc_self (t : T) (message : List α) :
    ofThread t (order ++ [(t, message)]) = ofThread t order ++ [message] := by
  simp [ofThread]

theorem ofThread_snoc_ne {u : T} (h : u ≠ t) (message : List α) :
    ofThread t (order ++ [(u, message)]) = ofThread t order := by
  simp [ofThread, h]

omit [DecidableEq L] in
/-- One part more is behind. -/
theorem Behind.next {parts : List (Part L α)} (h : Behind parts (p :: ps) messages closed)
    (hclosed : closed' = none → closed = none ∧ p ≠ .close) :
    Behind parts ps (messages ++ p.message.toList) closed' := by
  obtain ⟨done, rfl, rfl, hopen⟩ := h
  refine ⟨done ++ [p], by rw [List.append_assoc, List.singleton_append], ?_, fun hnone hmem => ?_⟩
  · rw [List.filterMap_append]
    cases p <;> rfl
  · obtain ⟨hnone, hne⟩ := hclosed hnone
    rcases List.mem_append.1 hmem with hmem | hmem
    · exact hopen hnone hmem
    · exact hne (List.mem_singleton.1 hmem).symm

omit [DecidableEq L] in
theorem ClosedAt.snoc {file : List α} (h : ClosedAt parts out₀ order file) (x : T × List α) :
    ClosedAt parts out₀ (order ++ [x]) file := by
  obtain ⟨before, after, cut, rfl, hfile, hcut, hcloser⟩ := h
  refine ⟨before, after ++ [x], cut, List.append_assoc _ _ _, hfile, ?_, hcloser⟩
  cases after with
  | nil =>
    rw [List.prefix_nil.1 hcut]
    exact List.nil_prefix
  | cons y after => exact hcut

omit [DecidableEq L] in
theorem Serial.start (hspares : ∀ t, ∀ p ∈ parts t, p.Spares g) :
    Serial g parts out₀ [] parts [] (start (fun t => (parts t).flatMap (Part.acts g)) out₀) :=
  ⟨fun t => ⟨[], rfl, rfl, fun _ => List.not_mem_nil⟩, rfl, fun _ => by simp [Threads.start, printing],
    fun hne => absurd rfl hne, nofun, hspares⟩

omit [DecidableEq L] in
theorem Serial.pending_eq_nil (h : Serial g parts out₀ order rest pending s) (hfree : s.owner g = none) :
    pending = [] := by
  by_contra hne
  obtain ⟨-, u, -, -, howner, -⟩ := h.current hne
  rw [hfree] at howner
  cases howner

omit [DecidableEq L] in
/-- The thread that steps goes on with `acts`, the others as before. -/
theorem Serial.update (h : Serial g parts out₀ order rest pending s) (hcode : s'.code = update s.code t acts)
    (hself : acts = printing g s' pending' t ++ ps.flatMap (Part.acts g))
    (hothers : ∀ u, u ≠ t → printing g s' pending' u = printing g s pending u) (hps : ∀ p ∈ ps, p ∈ rest t)
    (hbehind : Behind (parts t) ps (ofThread t order') s'.closed)
    (horder : ∀ u, u ≠ t → ofThread u order' = ofThread u order) (hopen : s'.closed = none → s.closed = none)
    (hout : s'.out ++ pending' = out₀ ++ text order')
    (hcurrent : pending' ≠ [] → ∃ before u message, order' = before ++ [(u, message)] ∧ s'.owner g = some u ∧
      pending' <:+ message)
    (hclosed : ∀ file, s'.closed = some file → ClosedAt parts out₀ order' file) :
    Serial g parts out₀ order' (update rest t ps) pending' s' := by
  refine ⟨fun u => ?_, hout, fun u => ?_, hcurrent, hclosed, fun u p hp => ?_⟩
  · by_cases hu : u = t
    · subst hu
      rwa [Function.update_self]
    · rw [Function.update_of_ne hu, horder u hu]
      obtain ⟨done, hparts, hmessages, hdone⟩ := h.behind u
      exact ⟨done, hparts, hmessages, fun hnone => hdone (hopen hnone)⟩
  · rw [hcode]
    by_cases hu : u = t
    · subst hu
      rw [Function.update_self, Function.update_self, hself]
    · rw [Function.update_of_ne hu, Function.update_of_ne hu, hothers u hu]
      exact h.code u
  · by_cases hu : u = t
    · subst hu
      rw [Function.update_self] at hp
      exact h.spares u p (hps p hp)
    · rw [Function.update_of_ne hu] at hp
      exact h.spares u p hp

/-- The thread that steps is printing. -/
theorem Serial.step_printing (h : Serial g parts out₀ order rest pending s) (hg : s.owner g = some t)
    (hs : step s t = .ok s') : ∃ order' rest' pending', Serial g parts out₀ order' rest' pending' s' := by
  have hown : s.code t = pending.map .put ++ [.release g] ++ (rest t).flatMap (Part.acts g) := by
    rw [h.code t, printing, if_pos hg]
  have hothers : ∀ u, u ≠ t → printing g s pending u = [] := by
    intro u hu
    rw [printing, hg, if_neg fun e => hu (Option.some.inj e).symm]
  cases pending with
  | nil =>
    obtain rfl := step_release (show s.code t = .release g :: (rest t).flatMap (Part.acts g) from hown) hs
    have hempty : ∀ u, printing g { s with
        code := Function.update s.code t ((rest t).flatMap (Part.acts g)), owner := Function.update s.owner g none } [] u =
          [] := by
      intro u
      rw [printing, if_neg]
      simp
    refine ⟨_, _, [], h.update rfl ?_ (fun u hu => ?_) (fun _ hp => hp) (h.behind t) (fun _ _ => rfl) id h.out
      (fun hne => absurd rfl hne) h.closed⟩
    · rw [hempty, List.nil_append]
    · rw [hempty, hothers u hu]
  | cons a pending =>
    obtain rfl := step_put hown hs
    refine ⟨_, _, pending, h.update rfl ?_ (fun u hu => ?_) (fun _ hp => hp) (h.behind t) (fun _ _ => rfl) id ?_
      (fun _ => ?_) h.closed⟩
    · rw [printing, if_pos hg]
      rfl
    · rw [hothers u hu, printing, hg, if_neg fun e => hu (Option.some.inj e).symm]
    · rw [← h.out, List.append_assoc, List.singleton_append]
    · obtain ⟨before, u, message, horder, hu, hsuffix⟩ := h.current (List.cons_ne_nil _ _)
      exact ⟨before, u, message, horder, hu, (List.suffix_cons a pending).trans hsuffix⟩

omit [DecidableEq L] in
/-- The file is closed by a thread that is not printing. -/
theorem Serial.closedAt (h : Serial g parts out₀ order rest pending s) (hg : s.owner g ≠ some t)
    (hr : rest t = .close :: ps) : ClosedAt parts out₀ order s.file := by
  cases hclosed : s.closed with
  | some file =>
    rw [Threads.file, hclosed]
    exact h.closed file hclosed
  | none =>
    obtain ⟨done, hparts, hmessages, -⟩ := h.behind t
    rw [hr] at hparts
    rw [file, hclosed, Option.getD_none]
    have hout := h.out
    by_cases hpending : pending = []
    · subst hpending
      rw [List.append_nil] at hout
      exact ⟨order, [], [], (List.append_nil _).symm, by rw [hout, List.append_nil], List.nil_prefix, t, done, ps, hparts,
        hmessages.symm⟩
    · obtain ⟨before, u, message, rfl, hu, cut, rfl⟩ := h.current hpending
      have hut : u ≠ t := fun e => hg (e ▸ hu)
      rw [text_snoc, ← List.append_assoc, ← List.append_assoc] at hout
      rw [ofThread_snoc_ne hut] at hmessages
      exact ⟨before, [(u, cut ++ pending)], cut, rfl, List.append_cancel_right hout, List.prefix_append _ _, t, done, ps,
        hparts, hmessages.symm⟩

/-- The thread that steps begins its next part. -/
theorem Serial.step_begins (h : Serial g parts out₀ order rest pending s) (hg : s.owner g ≠ some t)
    (hs : step s t = .ok s') : ∃ order' rest' pending', Serial g parts out₀ order' rest' pending' s' := by
  have hown : s.code t = (rest t).flatMap (Part.acts g) := by
    rw [h.code t, printing, if_neg hg, List.nil_append]
  cases hr : rest t with
  | nil =>
    rw [step, hown, hr] at hs
    cases hs
  | cons p ps =>
    rw [hr, List.flatMap_cons] at hown
    have hp : p.Spares g := h.spares t p (by rw [hr]; exact List.mem_cons_self)
    have hps : ∀ q ∈ ps, q ∈ rest t := fun q hq => by rw [hr]; exact List.mem_cons_of_mem _ hq
    have hbehind := hr ▸ h.behind t
    -- no message begins
    have hother : s'.code = Function.update s.code t (ps.flatMap (Part.acts g)) → s'.owner g = s.owner g → s'.out = s.out →
        p.message = none → (s'.closed = none → s.closed = none ∧ p ≠ .close) →
        (∀ file, s'.closed = some file → ClosedAt parts out₀ order file) →
        Serial g parts out₀ order (Function.update rest t ps) pending s' := by
      intro hcode howner hout hmessage hopen hclosed
      have hsame : ∀ u, printing g s' pending u = printing g s pending u := fun u => by rw [printing, howner, printing]
      have hnext := hbehind.next hopen
      rw [hmessage, Option.toList_none, List.append_nil] at hnext
      refine h.update hcode ?_ (fun u _ => hsame u) hps hnext (fun _ _ => rfl) (fun hnone => (hopen hnone).1)
        (by rw [hout, h.out]) (howner ▸ h.current) hclosed
      rw [hsame, printing, if_neg hg, List.nil_append]
    cases p with
    | acquire l =>
      obtain ⟨-, rfl⟩ := step_acquire hown hs
      exact ⟨_, _, _, hother rfl (Function.update_of_ne (Ne.symm hp) _ _) rfl rfl (fun hnone => ⟨hnone, nofun⟩) h.closed⟩
    | release l =>
      obtain rfl := step_release hown hs
      exact ⟨_, _, _, hother rfl (Function.update_of_ne (Ne.symm hp) _ _) rfl rfl (fun hnone => ⟨hnone, nofun⟩) h.closed⟩
    | close =>
      obtain rfl := step_close hown hs
      refine ⟨_, _, _, hother rfl rfl rfl rfl (fun hnone => by cases hnone) fun file hfile => ?_⟩
      cases hfile
      exact h.closedAt hg hr
    | write message =>
      obtain ⟨hnone, rfl⟩ := step_acquire hown hs
      have hg' : Function.update s.owner g (some t) g = some t := Function.update_self ..
      refine ⟨order ++ [(t, message)], _, message, h.update rfl ?_ (fun u hu => ?_) hps ?_
        (fun u hu => ofThread_snoc_ne hu.symm message) id ?_
        (fun _ => ⟨order, t, message, rfl, hg', List.suffix_rfl⟩) fun file hfile => (h.closed file hfile).snoc _⟩
      · rw [printing, if_pos hg']
        rfl
      · have hu' : Function.update s.owner g (some t) g ≠ some u := fun e => hu (Option.some.inj (hg'.symm.trans e)).symm
        rw [printing, if_neg hu', printing, hnone, if_neg (by simp)]
      · rw [ofThread_snoc_self]
        exact hbehind.next fun hopen => ⟨hopen, nofun⟩
      · have hbefore := h.out
        rw [h.pending_eq_nil hnone, List.append_nil] at hbefore
        rw [hbefore, text_snoc, List.append_assoc]

theorem Serial.step (h : Serial g parts out₀ order rest pending s) (hs : step s t = .ok s') :
    ∃ order' rest' pending', Serial g parts out₀ order' rest' pending' s' :=
  if hg : s.owner g = some t then h.step_printing hg hs else h.step_begins hg hs

omit [DecidableEq L] in
/-- A thread that is done has printed all its messages, and closed the file if it ever does. -/
theorem Serial.done (h : Serial g parts out₀ order rest pending s) (hg : s.owner g = none) (hdone : s.code t = []) :
    ofThread t order = (parts t).filterMap Part.message ∧ (.close ∈ parts t → ∃ file, s.closed = some file) := by
  have hcode := h.code t
  rw [hdone, printing, hg, if_neg (by simp), List.nil_append] at hcode
  have hrest : rest t = [] := by
    cases hr : rest t with
    | nil => rfl
    | cons p ps =>
      rw [hr, List.flatMap_cons] at hcode
      cases p <;> cases hcode
  obtain ⟨done, hparts, hmessages, hopen⟩ := h.behind t
  rw [hrest, List.append_nil] at hparts
  refine ⟨by rw [hparts, hmessages], fun hclose => ?_⟩
  rw [hparts] at hclose
  cases hclosed : s.closed with
  | none => exact absurd hclose (hopen hclosed)
  | some file => exact ⟨file, rfl⟩

/-- When all threads are done and nobody closes the file, it is whole messages, those of each thread in its
order. Otherwise it is what there was when it was closed. -/
theorem serial (hspares : ∀ t, ∀ p ∈ parts t, p.Spares g)
    (h : run step (start (fun t => (parts t).flatMap (Part.acts g)) out₀) ts = .ok s) (hfree : s.owner g = none)
    (hdone : ∀ t, s.code t = []) :
    ∃ order : List (T × List α), (∀ t, ofThread t order = (parts t).filterMap Part.message) ∧
      ((∀ t, .close ∉ parts t) → s.file = out₀ ++ text order) ∧
      ∀ t, .close ∈ parts t → ClosedAt parts out₀ order s.file := by
  obtain ⟨order, rest, pending, hserial⟩ := run_inv
    (P := fun s => ∃ order rest pending, Serial g parts out₀ order rest pending s) ⟨_, _, _, Serial.start hspares⟩
    (fun _ _ _ ⟨_, _, _, h⟩ hs => h.step hs) h
  refine ⟨order, fun t => (hserial.done hfree (hdone t)).1, fun hnever => ?_, fun t ht => ?_⟩
  · have hnone : s.closed = none := by
      cases hclosed : s.closed with
      | none => rfl
      | some file =>
        obtain ⟨-, -, -, -, -, -, t, done, rest, hparts, -⟩ := hserial.closed file hclosed
        exact absurd (hparts ▸ List.mem_append_right _ List.mem_cons_self) (hnever t)
    rw [file, hnone, Option.getD_none, ← hserial.out, hserial.pending_eq_nil hfree, List.append_nil]
  · obtain ⟨file, hfile⟩ := (hserial.done hfree (hdone t)).2 ht
    rw [Threads.file, hfile]
    exact hserial.closed file hfile

end Threads

end Lib
