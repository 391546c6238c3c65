import Blinky.Kernel.Walk
import Blinky.Kernel.Run

/-!
# Which task runs next

The port finds the highest ready priority by counting the leading zeros of the bitmap;
the kernel's own version of `taskSELECT_HIGHEST_PRIORITY_TASK` walks down from the
highest priority recorded to the first ready list that is not empty. Both are here, and
what the port's version chooses.
-/

namespace Blinky.Kernel
set_option autoImplicit false
open Blinky.Circular

/-- Counting the leading zeros gives the highest bit set. -/
theorem highest_bit {w : Nat} {x : BitVec w} (wide : 0 < w) (set : x ≠ 0#w) :
    x.getLsbD (w - 1 - x.clz.toNat) = true ∧ ∀ j, x.getLsbD j = true → j ≤ w - 1 - x.clz.toNat := by
  refine ⟨BitVec.getLsbD_true_clz_of_ne_zero wide set, ?_⟩
  intro j bit
  have above : x.toNat < 2 ^ (w - x.clz.toNat) := BitVec.toNat_lt_two_pow_sub_clz
  have below : 2 ^ j ≤ x.toNat := Nat.ge_two_pow_of_testBit bit
  have exponent : j < w - x.clz.toNat := (Nat.pow_lt_pow_iff_right (by decide)).mp (below.trans_lt above)
  omega

namespace Scheduler

variable {τ ε : Type} {k : Scheduler τ ε}

/-- Where some task is ready, the bitmap gives the highest priority that has one. -/
theorem highest_priority (placed : Placed k.lists k.uxPriority k.uxTopReadyPriority)
    {t : τ} {p : Priority} (ready : k.lists.container (.state t) = some (.ready p)) :
    ∃ h : k.portGET_HIGHEST_PRIORITY < configMAX_PRIORITIES,
      (∃ u, k.lists.container (.state u) = some (.ready ⟨k.portGET_HIGHEST_PRIORITY, h⟩)) ∧
      ∀ u q, k.lists.container (.state u) = some (.ready q) → q.val ≤ k.portGET_HIGHEST_PRIORITY := by
  have set : k.uxTopReadyPriority ≠ 0#32 := by
    intro zero
    have bit := (placed.bitmap p).mpr ⟨t, ready⟩
    rw [zero, BitVec.getLsbD_zero] at bit
    cases bit
  obtain ⟨top, highest⟩ := highest_bit (by decide) set
  have bound : k.portGET_HIGHEST_PRIORITY < configMAX_PRIORITIES := by
    by_contra high
    have clear := placed.small k.portGET_HIGHEST_PRIORITY (by omega)
    rw [portGET_HIGHEST_PRIORITY] at clear
    rw [clear] at top
    cases top
  refine ⟨bound, (placed.bitmap ⟨k.portGET_HIGHEST_PRIORITY, bound⟩).mp top, ?_⟩
  intro u q h
  exact highest q.val ((placed.bitmap q).mpr ⟨u, h⟩)

variable [DecidableEq τ] [DecidableEq ε]

/-- The next task of the highest ready priority runs; the lists keep their members. -/
theorem taskSELECT_HIGHEST_PRIORITY_TASK_spec
    (placed : Placed k.lists k.uxPriority k.uxTopReadyPriority) {t : τ} (ready : k.IsReady t) :
    ∃ s' current, k.taskSELECT_HIGHEST_PRIORITY_TASK =
        some
          { k with
            lists := s'
            pxCurrentTCB := some current
            switchedIn := (k.uxPriority current, current) :: k.switchedIn } ∧
      Placed s' k.uxPriority k.uxTopReadyPriority ∧ s'.container = k.lists.container ∧
      s'.value = k.lists.value ∧ k.IsReady current ∧ (∀ u, k.IsReady u → k.uxPriority u ≤ k.uxPriority current) ∧
      Walk (fun _ => False) [(k.uxPriority current, current)] k.lists s' := by
  obtain ⟨bound, ⟨u, hu⟩, highest⟩ := highest_priority placed ready
  have mem := placed.tidy.mem_iff.mpr hu
  obtain ⟨c, hc, _⟩ := Lists.isSome_of_mem mem
  have some : c.toList ≠ [] := by
    rw [← Lists.members_eq hc]
    exact List.ne_nil_of_mem mem
  obtain ⟨i, hi, at?⟩ := Cursor.advance_at some
  rw [← Lists.members_eq hc] at hi
  obtain ⟨item, contained⟩ := placed.member_state (l := .ready ⟨k.portGET_HIGHEST_PRIORITY, bound⟩) id hi
  obtain ⟨s', next, tidy, container, value, members, made, here, elsewhere⟩ := placed.tidy.next hc
  have priority : k.uxPriority i.owner = ⟨k.portGET_HIGHEST_PRIORITY, bound⟩ :=
    (placed.state _ _ contained).symm
  refine ⟨s', i.owner, ?_, placed.congr tidy container value members made, container, value, ?_, ?_, ?_⟩
  · have length : (k.lists.members (.ready ⟨k.portGET_HIGHEST_PRIORITY, bound⟩)).length > 0 :=
      List.length_pos_of_mem mem
    simp [taskSELECT_HIGHEST_PRIORITY_TASK, bound, configASSERT_pos length, next, here, at?, priority]
  · rw [IsReady, contained, priority]
  · intro v hv
    rw [priority]
    exact highest v _ hv
  · intro p d hd
    by_cases hp : p = ⟨k.portGET_HIGHEST_PRIORITY, bound⟩
    · subst hp
      obtain rfl := Option.some.inj (hc.symm.trans hd)
      refine ⟨[.advance], here, by simp [Concerns], ?_, ?_⟩
      · simp [Cursor.visits, at?, picksOf, priority, ← item]
      · simp [Cursor.advances, picksOf, priority]
    · refine ⟨[], (elsewhere _ (by simpa using hp)).trans hd, by simp, ?_, ?_⟩
      · simp [Cursor.visits, picksOf, priority, Ne.symm hp]
      · simp [Cursor.advances, picksOf, priority, Ne.symm hp]

/-! ## The kernel's own selection -/

/-- The `while` of the other `taskSELECT_HIGHEST_PRIORITY_TASK`: down from `uxTopPriority` while
the ready list is empty. None where its `configASSERT` stops. -/
def selectDown (k : Scheduler τ ε) :
    (uxTopPriority : Nat) → uxTopPriority < configMAX_PRIORITIES → Option Priority
  | 0, h => if (k.lists.members (.ready ⟨0, h⟩)).length = 0 then none else some ⟨0, h⟩
  | p + 1, h =>
    if (k.lists.members (.ready ⟨p + 1, h⟩)).length = 0 then k.selectDown p (Nat.lt_of_succ_lt h)
    else some ⟨p + 1, h⟩

omit [DecidableEq τ] [DecidableEq ε] in
/-- Walking down from any priority that no ready task is above comes to the priority the
bitmap gives. -/
theorem selectDown_eq (placed : Placed k.lists k.uxPriority k.uxTopReadyPriority) {t : τ}
    (ready : k.IsReady t) (recorded : Nat) (bound : recorded < configMAX_PRIORITIES)
    (above : ∀ u, k.IsReady u → (k.uxPriority u).val ≤ recorded) :
    (k.selectDown recorded bound).map Fin.val = some k.portGET_HIGHEST_PRIORITY := by
  obtain ⟨highBound, ⟨u, hu⟩, highest⟩ := highest_priority placed ready
  have isTop : k.uxPriority u = ⟨k.portGET_HIGHEST_PRIORITY, highBound⟩ := (placed.state _ _ hu).symm
  have topReady : k.portGET_HIGHEST_PRIORITY ≤ recorded := by
    have h := above u (by rw [IsReady, hu, isTop])
    rwa [isTop] at h
  clear above
  have stops : ∀ h, (k.lists.members (.ready ⟨k.portGET_HIGHEST_PRIORITY, h⟩)).length ≠ 0 := by
    intro h
    exact Nat.ne_of_gt (List.length_pos_of_mem (placed.tidy.mem_iff.mpr hu))
  have goesOn : ∀ p h, k.portGET_HIGHEST_PRIORITY < p → (k.lists.members (.ready ⟨p, h⟩)).length = 0 := by
    intro p h lt
    rw [List.length_eq_zero_iff, placed.members_eq_nil_iff (l := .ready ⟨p, h⟩) id]
    intro v hv
    have le := highest v ⟨p, h⟩ hv
    dsimp only at le
    omega
  induction recorded with
  | zero =>
    have zero : k.portGET_HIGHEST_PRIORITY = 0 := by omega
    have nonempty := stops highBound
    simp only [zero] at nonempty
    rw [selectDown, if_neg nonempty, zero]
    rfl
  | succ p ih =>
    rw [selectDown]
    by_cases here : k.portGET_HIGHEST_PRIORITY = p + 1
    · have nonempty := stops highBound
      simp only [here] at nonempty
      rw [if_neg nonempty, here]
      rfl
    · rw [if_pos (goesOn (p + 1) bound (by omega))]
      exact ih (Nat.lt_of_succ_lt bound) (by omega)

end Scheduler

end Blinky.Kernel
