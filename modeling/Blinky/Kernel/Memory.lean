import Blinky.Kernel.ListRefine
import Blinky.Kernel.Safety

/-!
# The scheduler over the list memory

Whatever the scheduler does to its lists it does by calls of the list module, so the
memory in which the calls follow pointers stands for the scheduler's lists all along a run.
-/

namespace Blinky.Kernel
set_option autoImplicit false

namespace Scheduler

variable {τ ε : Type} [DecidableEq τ] [DecidableEq ε] {k k₁ k' : Scheduler τ ε}

/-- The lists of `k'` come of those of `k` by calls of the list module. -/
def Follows (k k' : Scheduler τ ε) : Prop :=
  ∃ calls : List (ListCall (TaskItem τ) (KernelList ε)), calls.foldlM Lists.call k.lists = some k'.lists

theorem Follows.same (lists : k'.lists = k.lists) : k.Follows k' := ⟨[], congrArg some lists.symm⟩

theorem Follows.trans (first : k.Follows k₁) (second : k₁.Follows k') : k.Follows k' := by
  obtain ⟨calls, run⟩ := first
  obtain ⟨calls', run'⟩ := second
  refine ⟨calls ++ calls', ?_⟩
  rw [List.foldlM_append, run]
  exact run'

theorem Follows.call {c : ListCall (TaskItem τ) (KernelList ε)} (called : k.lists.call c = some k'.lists) :
    k.Follows k' := by
  refine ⟨[c], ?_⟩
  simp [called]

/-! ## Functions without a loop -/

end Scheduler

end Blinky.Kernel
