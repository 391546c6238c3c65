import Blinky.Kernel.Timeline

/-!
# Taking turns

The tasks of one priority take turns. A ready task that no event is about stays where it is
in its ready list while others come and go, and the cursor that picks the next task goes
round the list, so it comes to the task in at most two rounds.
-/

namespace Blinky.Kernel
set_option autoImplicit false
open Blinky.Circular

namespace Scheduler

variable {τ ε : Type} {k k' : Scheduler τ ε}

theorem DueAtTick.not_ready {t : τ} {p : Priority} (ready : k.lists.container (.state t) = some (.ready p)) :
    ¬ k.DueAtTick t := by
  intro due
  rw [due.1] at ready
  cases ready

variable [DecidableEq τ]

theorem Walked.spare {touched : τ → Prop} {t : τ} (walked : k.Walked k' touched) (untouched : ¬ touched t) :
    k.Walked k' fun u => u ≠ t := by
  apply walked.mono
  rintro u hu rfl
  exact untouched hu

/-- Counted ticks leave a ready task where it is, and move its ready list by others. -/
theorem Ticks.walked {n : Nat} {t : τ} {p : Priority} (ticks : k.Ticks n k')
    (ready : k.lists.container (.state t) = some (.ready p)) :
    k'.lists.container (.state t) = some (.ready p) ∧ k.Walked k' fun u => u ≠ t := by
  induction ticks with
  | none => exact ⟨ready, Walked.of (Walk.same fun _ => rfl) rfl rfl⟩
  | @tick n j j' _ _ ticked ih =>
    obtain ⟨here, walked⟩ := ih
    have notDue := DueAtTick.not_ready here
    exact ⟨(ticked.lists.others t notDue).1.trans here, walked.trans (ticked.walked.spare notDue)⟩

variable [DecidableEq ε]

omit [DecidableEq ε] in
/-- An event that is not about a ready task leaves it where it is. -/
theorem Effect.walked {e : Event τ ε} {t : τ} {p : Priority} (effect : k.Effect e k')
    (untouched : ¬ e.Touches k t) (ready : k.lists.container (.state t) = some (.ready p)) :
    k'.lists.container (.state t) = some (.ready p) ∧ k.Walked k' fun u => u ≠ t := by
  cases effect with
  | ticked _ _ ticked =>
    have notDue := DueAtTick.not_ready ready
    exact ⟨(ticked.lists.others t notDue).1.trans ready, ticked.walked.spare notDue⟩
  | pended _ _ still => exact ⟨(still.state t id).trans ready, still.walked.spare id⟩
  | resumed _ resumed =>
    obtain ⟨-, j, j', still, ticks, -, -, lists, log⟩ := resumed
    obtain ⟨here, walked⟩ := ticks.walked ((still.state t untouched).trans ready)
    have final : j'.Walked k' fun u => u ≠ t := by
      refine Walked.of (Walk.same fun _ => ?_) lists.symm log.symm
      rfl
    exact ⟨lists ▸ here, ((still.walked.spare untouched).trans walked).trans final⟩
  | @parked _ _ c _ _ blocks _ parks =>
    have other : t ≠ c := by
      rintro rfl
      apply untouched
      cases e <;> first | exact ⟨parks.running, parks.ready⟩ | cases blocks
    exact ⟨(parks.state t other).trans ready, parks.walked.spare other⟩
  | still _ others still =>
    have free := mt (others t) untouched
    exact ⟨(still.state t free).trans ready, still.walked.spare free⟩

/-- So do any number of them. -/
theorem Apart.walked {past : List (Event τ ε)} {t : τ} {p : Priority} {j : Scheduler τ ε} (apart : Apart t k past j)
    (live : k.Live) (ready : k.lists.container (.state t) = some (.ready p)) :
    j.Live ∧ j.lists.container (.state t) = some (.ready p) ∧ k.Walked j fun u => u ≠ t := by
  induction apart with
  | start => exact ⟨live, ready, Walked.of (Walk.same fun _ => rfl) rfl rfl⟩
  | @step past i j e before allowed untouched next ih =>
    obtain ⟨live', here, walked⟩ := ih
    obtain ⟨j', run, live'', effect⟩ := live'.step allowed
    obtain rfl := Option.some.inj (next.symm.trans run)
    obtain ⟨here', walked'⟩ := effect.walked untouched here
    exact ⟨live'', here', walked.trans walked'⟩

end Scheduler

end Blinky.Kernel
