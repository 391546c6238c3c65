import Blinky.Kernel.Placed

/-!
# How the ready lists move

`Walk` follows the cursor of every ready list: which tasks join it or leave it, and which
tasks the scheduler picked from it. It is what is needed to see that tasks of one priority
take turns.
-/

namespace Blinky.Kernel
set_option autoImplicit false
open Blinky.Circular

namespace Scheduler

variable {τ ε : Type}

/-- The move is an advance of the cursor, or about a task that `touched` holds of. -/
def Concerns (touched : τ → Prop) : Cursor.Move (TaskItem τ) → Prop
  | .join i => ∃ u, touched u ∧ i = .state u
  | .leave i => ∃ u, touched u ∧ i = .state u
  | .advance => True

/-- The items picked from the ready list of `p`. -/
def picksOf (picks : List (Priority × τ)) (p : Priority) : List (TaskItem τ) :=
  (picks.filter fun q => q.1 = p).map fun q => .state q.2

variable [DecidableEq τ]

/-- `s'` comes of `s` by moves of its ready lists about the tasks touched, and by the picks,
the earliest first. -/
def Walk (touched : τ → Prop) (picks : List (Priority × τ)) (s s' : Lists (TaskItem τ) (KernelList ε)) : Prop :=
  ∀ p c, s.list (.ready p) = some c → ∃ ms, s'.list (.ready p) = some (Cursor.moves ms c) ∧
    (∀ m ∈ ms, Concerns touched m) ∧ Cursor.visits ms c = picksOf picks p ∧
    Cursor.advances ms = (picksOf picks p).length

variable {touched : τ → Prop} {s s₁ s' : Lists (TaskItem τ) (KernelList ε)}

/-- Nothing moved. -/
theorem Walk.same (same : ∀ p, s'.list (.ready p) = s.list (.ready p)) : Walk touched [] s s' := by
  intro p c h
  exact ⟨[], (same p).trans h, by simp, rfl, rfl⟩

theorem Walk.trans {picks picks' : List (Priority × τ)} (first : Walk touched picks s s₁)
    (second : Walk touched picks' s₁ s') : Walk touched (picks ++ picks') s s' := by
  intro p c h
  obtain ⟨ms, here, about, visits, advances⟩ := first p c h
  obtain ⟨ns, here', about', visits', advances'⟩ := second p _ here
  refine ⟨ms ++ ns, ?_, ?_, ?_, ?_⟩
  · rw [here', Cursor.moves_append]
  · intro m hm
    obtain hm | hm := List.mem_append.mp hm
    · exact about m hm
    · exact about' m hm
  · rw [Cursor.visits_append, visits, visits', picksOf, picksOf, picksOf, List.filter_append, List.map_append]
  · rw [Cursor.advances_append, advances, advances', picksOf, picksOf, picksOf, List.filter_append,
      List.map_append, List.length_append]

theorem Walk.mono {more : τ → Prop} {picks : List (Priority × τ)} (walk : Walk touched picks s s')
    (h : ∀ u, touched u → more u) : Walk more picks s s' := by
  intro p c hc
  obtain ⟨ms, here, about, visits, advances⟩ := walk p c hc
  refine ⟨ms, here, ?_, visits, advances⟩
  intro m hm
  have concerns := about m hm
  cases m with
  | advance => trivial
  | join i =>
    obtain ⟨u, hu, rfl⟩ := concerns
    exact ⟨u, h u hu, rfl⟩
  | leave i =>
    obtain ⟨u, hu, rfl⟩ := concerns
    exact ⟨u, h u hu, rfl⟩

/-- A task's state item leaves its list. -/
theorem Walk.taken [DecidableEq ε] {l : KernelList ε} {t : τ} (taken : Lists.Taken s s' l (.state t)) :
    Walk (fun u => u = t) [] s s' := by
  intro p c h
  by_cases hl : KernelList.ready p = l
  · subst hl
    exact ⟨[.leave (.state t)], taken.here c h, by simp [Concerns], rfl, rfl⟩
  · exact ⟨[], (taken.elsewhere _ hl).trans h, by simp, rfl, rfl⟩

/-- An event item leaves its list, which is no ready list. -/
theorem Walk.takenEvent {l : KernelList ε} {t : τ} (taken : Lists.Taken s s' l (.event t)) (takes : l.takesEvent) :
    Walk touched [] s s' := by
  apply Walk.same
  intro p
  apply taken.elsewhere
  rintro rfl
  exact takes

/-- An item enters a list that is no ready list. -/
theorem Walk.putOther {l : KernelList ε} {i : TaskItem τ} (put : Lists.Put s s' l i)
    (notReady : ∀ p, l ≠ .ready p) : Walk touched [] s s' :=
  Walk.same fun p => put.elsewhere _ (notReady p).symm

/-- A task's state item enters a ready list, before the cursor. -/
theorem Walk.put {q : Priority} {t : τ} (put : Lists.Put s s' (.ready q) (.state t))
    (here : ∀ c, s.list (.ready q) = some c → s'.list (.ready q) = some (c.insertLast (.state t))) :
    Walk (fun u => u = t) [] s s' := by
  intro p c h
  by_cases hp : p = q
  · subst hp
    exact ⟨[.join (.state t)], here c h, by simp [Concerns], rfl, rfl⟩
  · exact ⟨[], (put.elsewhere _ (by simpa using hp)).trans h, by simp, rfl, rfl⟩

end Scheduler

end Blinky.Kernel
