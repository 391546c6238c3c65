import Blinky.Kernel.Boot

/-!
# Safety over whole runs

From reset, whatever allowed events come and in whatever order, the kernel never puts an
item in two lists, takes one out of none or fails an assertion, and `Sound` holds between
any two events.
-/

namespace Blinky.Kernel
set_option autoImplicit false
open Blinky.Circular

variable {τ ε : Type}

/-- A tick interrupt. -/
def Event.isTick : Event τ ε → Bool
  | .tick => true
  | _ => false

/-- How long the running task asks to be blocked for, and whether the longest time means for ever. -/
def Event.blocksFor : Event τ ε → Option (TickType × Bool)
  | .block n forever => some (n, forever)
  | .placeOnEventList _ n => some (n, true)
  | .placeOnUnorderedEventList _ _ n => some (n, true)
  | _ => none

/-- The tasks whose place an event may change other than by the clock. -/
def Event.Touches (k : Scheduler τ ε) : Event τ ε → τ → Prop
  | .create t _ => fun u => u = t
  | .start idle => fun u => u = idle
  | .createEventList _ => fun _ => False
  | .tick => fun _ => False
  | .softwareInterrupt => fun _ => False
  | .taskYIELD => fun _ => False
  | .suspendAll => fun _ => False
  | .resumeAll => fun u => k.lists.container (.event u) = some .pendingReady
  | .block _ _ => fun u => k.pxCurrentTCB = some u ∧ k.IsReady u
  | .placeOnEventList _ _ => fun u => k.pxCurrentTCB = some u ∧ k.IsReady u
  | .placeOnUnorderedEventList _ _ _ => fun u => k.pxCurrentTCB = some u ∧ k.IsReady u
  | .removeFromEventList e => fun u => k.lists.container (.event u) = some (.event e)
  | .removeFromUnorderedEventList t _ => fun u => u = t
  | .suspend t => fun u => u = t
  | .resume t => fun u => u = t
  | .resumeFromISR t => fun u => u = t
  | .prioritySet t _ => fun u => u = t
  | .abortDelay t => fun u => u = t
  | .delete t => fun u => u = t
  | .cleanUp => fun u => k.lists.container (.state u) = some .waitingTermination
  | .missedYield => fun _ => False

namespace Scheduler

variable [DecidableEq τ] [DecidableEq ε] {k : Scheduler τ ε}

/-- What one event does to a live scheduler, as far as the clock goes. -/
inductive Effect (k : Scheduler τ ε) : Event τ ε → Scheduler τ ε → Prop where
  /-- A tick is counted. -/
  | ticked {k' : Scheduler τ ε} (awake : k.uxSchedulerSuspended = 0) (pended : k'.uxPendedTicks = k.uxPendedTicks)
      (ticked : k.TickedTo k') : Effect k .tick k'
  /-- A tick is kept for later. -/
  | pended {k' : Scheduler τ ε} (suspended : k.uxSchedulerSuspended ≠ 0)
      (pended : k'.uxPendedTicks = k.uxPendedTicks + 1)
      (still : Still { k with uxPendedTicks := k.uxPendedTicks + 1 } k' fun _ => False) : Effect k .tick k'
  /-- The ticks kept are counted. -/
  | resumed {k' : Scheduler τ ε} (outer : k.uxSchedulerSuspended = 1) (resumed : k.Resumed k') :
      Effect k .resumeAll k'
  /-- The running task is parked. -/
  | parked {e : Event τ ε} {k' : Scheduler τ ε} {c : τ} {n : TickType} {forever : Bool}
      (blocks : e.blocksFor = some (n, forever)) (positive : n ≠ 0) (parks : k.Parks k' c n forever) : Effect k e k'
  /-- Nobody is put in a delayed list, and the clock stands still. -/
  | still {e : Event τ ε} {k' : Scheduler τ ε} {touched : τ → Prop} (quiet : e.isTick = false) (others : ∀ u, touched u → e.Touches k u)
      (still : k.Still k' touched) : Effect k e k'

omit [DecidableEq τ] [DecidableEq ε] in
/-- While a yield is pending nothing is asked of the running task. -/
theorem Live.pend (live : k.Live) (requested : Bool) :
    Live { k with xYieldPending := true, yieldRequested := requested } := by
  refine ⟨⟨?_, ⟨live.future, live.next⟩, live.ticks, live.aside⟩, live.running⟩
  exact ⟨live.placed, live.overflow, live.waits, live.current, live.idle, live.tasks, live.deleted,
    fun _ noPending => Bool.noConfusion noPending⟩

/-- The interrupt clears its request before it switches the context, which clears or sets
`xYieldPending`, whatever it was. -/
theorem Live.softwareInterrupt (live : k.Live) :
    ∃ k', k.vPortYieldWithinAPI = some k' ∧ k'.Live ∧ k.Still k' fun _ => False := by
  obtain ⟨k', switched, live', still⟩ := (live.pend false).switchContext
  refine ⟨k', ?_, live', ?_⟩
  · rw [vPortYieldWithinAPI]
    rw [vTaskSwitchContext] at switched ⊢
    exact switched
  · exact ⟨⟨still.clock, still.pended, still.inUse, still.state, still.event, still.value, still.walked⟩,
      still.delayed⟩

/-- Every event that is allowed succeeds, and leaves the scheduler live. -/
theorem Live.step (live : k.Live) {e : Event τ ε} (allowed : e.Allowed k) :
    ∃ k', k.step e = some k' ∧ k'.Live ∧ k.Effect e k' := by
  cases e with
  | create t v =>
    obtain ⟨fresh, freeEvent⟩ := allowed
    obtain ⟨k', run, live', still⟩ := live.create v fresh freeEvent
    exact ⟨k', run, live', .still rfl (fun _ h => h) still⟩
  | start idle =>
    have running := live.running
    rw [allowed.1] at running
    cases running
  | createEventList e =>
    have sound := live.toSound.createEventList allowed
    have same : k.Still (k.vListInitialise (.event e)) fun _ => False :=
      still_of_same rfl rfl rfl rfl rfl ⟨[], rfl, Walk.same fun _ => rfl⟩
    exact ⟨_, rfl, ⟨sound, live.running⟩, .still rfl (fun _ h => h.elim) same⟩
  | tick =>
    obtain ⟨k', run, live', ⟨awake, pended, ticked⟩ | ⟨suspended, pended, still⟩⟩ := live.tick
    · exact ⟨k', run, live', .ticked awake pended ticked⟩
    · exact ⟨k', run, live', .pended suspended pended still⟩
  | softwareInterrupt =>
    obtain ⟨k', run, live', still⟩ := live.softwareInterrupt
    exact ⟨k', run, live', .still rfl (fun _ h => h.elim) still⟩
  | taskYIELD =>
    obtain ⟨k', run, live', still⟩ := live.switchContext
    exact ⟨k', run, live', .still rfl (fun _ h => h.elim) still⟩
  | suspendAll =>
    have later : Live { k with uxSchedulerSuspended := k.uxSchedulerSuspended + 1 } :=
      ⟨⟨live.toSteady.unread, ⟨live.future, live.next⟩, fun h => absurd h (Nat.succ_ne_zero _),
        fun h => absurd h (Nat.succ_ne_zero _)⟩, live.running⟩
    exact ⟨_, rfl, later, .still rfl (fun _ h => h.elim) (still_of_lists rfl rfl rfl rfl rfl)⟩
  | resumeAll =>
    obtain ⟨k', yielded, run, live', ⟨outer, resumed⟩ | ⟨inner, still⟩⟩ := live.resumeAll allowed.2
    · exact ⟨k', congrArg (Option.map Prod.fst) run, live', .resumed outer resumed⟩
    · exact ⟨k', congrArg (Option.map Prod.fst) run, live', .still rfl (fun _ h => h.elim) still⟩
  | block n forever =>
    obtain ⟨k', c, run, live', parks⟩ := live.block forever allowed.2
    exact ⟨k', run, live', .parked rfl allowed.2.1 parks⟩
  | placeOnEventList v n =>
    obtain ⟨k', c, run, live', parks⟩ := live.placeOnEventList allowed.2.1 allowed.2.2
    exact ⟨k', run, live', .parked rfl allowed.2.1.1 parks⟩
  | placeOnUnorderedEventList v x n =>
    obtain ⟨-, may, made, suspended⟩ := allowed
    obtain ⟨k', c, run, live', parks⟩ := live.placeOnUnorderedEventList x may made suspended
    exact ⟨k', run, live', .parked rfl may.1 parks⟩
  | removeFromEventList v =>
    obtain ⟨k', above, run, live', still⟩ := live.removeFromEventList allowed.2
    exact ⟨k', congrArg (Option.map Prod.fst) run, live', .still rfl (fun _ h => h) still⟩
  | removeFromUnorderedEventList t x =>
    obtain ⟨-, suspended, v, hEvent⟩ := allowed
    obtain ⟨k', above, run, live', still⟩ := live.removeFromUnorderedEventList x suspended hEvent
    exact ⟨k', congrArg (Option.map Prod.fst) run, live', .still rfl (fun _ h => h) still⟩
  | suspend t =>
    obtain ⟨-, exists', alive, busy, awake⟩ := allowed
    obtain ⟨k', run, live', still⟩ := live.suspend exists' alive busy awake
    exact ⟨k', run, live', .still rfl (fun _ h => h) still⟩
  | resume t =>
    obtain ⟨k', run, live', still⟩ := live.resume t
    exact ⟨k', run, live', .still rfl (fun _ h => h) still⟩
  | resumeFromISR t =>
    obtain ⟨k', run, live', still⟩ := live.resumeFromISR t
    exact ⟨k', run, live', .still rfl (fun _ h => h) still⟩
  | prioritySet t v =>
    obtain ⟨k', run, live', still⟩ := live.prioritySet t allowed.2.2
    exact ⟨k', run, live', .still rfl (fun _ h => h) still⟩
  | abortDelay t =>
    obtain ⟨k', run, live', still⟩ := live.abortDelay t
    exact ⟨k', run, live', .still rfl (fun _ h => h) still⟩
  | delete t =>
    obtain ⟨-, exists', alive, busy, awake⟩ := allowed
    obtain ⟨k', run, live', still⟩ := live.delete exists' alive busy awake
    exact ⟨k', run, live', .still rfl (fun _ h => h) still⟩
  | cleanUp =>
    obtain ⟨k', run, live', still⟩ := live.cleanUp allowed.2
    exact ⟨k', run, live', .still rfl (fun _ h => h) still⟩
  | missedYield =>
    exact ⟨_, rfl, live.pend k.yieldRequested, .still rfl (fun _ h => h.elim) (still_of_lists rfl rfl rfl rfl rfl)⟩

/-- The kernel has been well used so far, in whichever phase it is. -/
inductive Kept (k : Scheduler τ ε) : Prop where
  | cold (cold : k.Cold)
  | booted (booted : k.Booted)
  | live (live : k.Live)

/-- Every event that is allowed succeeds, in every phase. -/
theorem Kept.step (kept : k.Kept) {e : Event τ ε} (allowed : e.Allowed k) : ∃ k', k.step e = some k' ∧ k'.Kept := by
  cases kept with
  | live live =>
    obtain ⟨k', run, live', -⟩ := live.step allowed
    exact ⟨k', run, .live live'⟩
  | cold cold =>
    have stopped := cold.stopped
    cases e with
    | create t v =>
      obtain ⟨k', run, booted, -⟩ := cold.create t v
      exact ⟨k', run, .booted booted⟩
    | start idle =>
      obtain ⟨k', created, booted, ready⟩ := cold.create idle portPRIVILEGE_BIT
      obtain ⟨k'', run, live, -⟩ := vTaskStartScheduler_spec created booted ready
      exact ⟨k'', run, .live live⟩
    | createEventList e => exact ⟨_, rfl, .cold (cold.createEventList allowed)⟩
    | _ => simp [Event.Allowed, stopped] at allowed
  | booted booted =>
    have stopped := booted.stopped
    cases e with
    | create t v =>
      obtain ⟨k', run, booted', -⟩ := booted.create v allowed.1 allowed.2
      exact ⟨k', run, .booted booted'⟩
    | start idle =>
      obtain ⟨k', created, booted', ready⟩ := booted.create portPRIVILEGE_BIT allowed.2.1 allowed.2.2
      obtain ⟨k'', run, live, -⟩ := vTaskStartScheduler_spec created booted' ready
      exact ⟨k'', run, .live live⟩
    | createEventList e =>
      exact ⟨_, rfl, .booted ⟨booted.toSound.createEventList allowed, stopped, booted.pended, booted.ready⟩⟩
    | _ => simp [Event.Allowed, stopped] at allowed

/-- Any run from reset keeps the invariant of its phase. -/
theorem run_kept {past : List (Event τ ε)} {j : Scheduler τ ε} (reset : k.Reset) (run : Run k past j) :
    j.Kept := by
  induction run with
  | start => exact .cold reset.cold
  | step _ allowed next ih =>
    obtain ⟨k', succeeded, kept⟩ := ih.step allowed
    rw [next] at succeeded
    cases succeeded
    exact kept

omit [DecidableEq τ] [DecidableEq ε] in
/-- Once the scheduler runs it is live. -/
theorem Kept.toLive (kept : k.Kept) (running : k.xSchedulerRunning = true) : k.Live := by
  cases kept with
  | live live => exact live
  | cold cold => exact absurd running (by simp [cold.stopped])
  | booted booted => exact absurd running (by simp [booted.stopped])

/-- A context switch picks a ready task that no other is above, and the portable way of finding
its priority, down from any recorded one, finds the same. -/
theorem switch_picks {past : List (Event τ ε)} {j : Scheduler τ ε} (reset : k.Reset) (run : Run k past j)
    (running : j.xSchedulerRunning = true) (awake : j.uxSchedulerSuspended = 0) :
    ∃ j' c, j.vTaskSwitchContext = some j' ∧ j'.pxCurrentTCB = some c ∧ j'.IsReady c ∧
      (∀ t, j.IsReady t → j.uxPriority t ≤ j.uxPriority c) ∧
      ∀ recorded bound, (∀ t, j.IsReady t → (j.uxPriority t).val ≤ recorded) →
        j.selectDown recorded bound = some (j.uxPriority c) := by
  have live := (run_kept reset run).toLive running
  obtain ⟨i, -, ready⟩ := live.idle running
  obtain ⟨s', c, selected, -, container, -, chosen, highest, -⟩ :=
    taskSELECT_HIGHEST_PRIORITY_TASK_spec (k := { j with xYieldPending := false }) live.placed ready
  have switched : j.vTaskSwitchContext = { j with xYieldPending := false }.taskSELECT_HIGHEST_PRIORITY_TASK := by
    rw [vTaskSwitchContext, if_neg (not_not.mpr awake)]
  refine ⟨_, c, switched.trans selected, rfl, ?_, highest, ?_⟩
  · rw [IsReady, container]
    exact chosen
  · intro recorded bound above
    obtain ⟨high, ⟨u, hu⟩, highest'⟩ := highest_priority live.placed ready
    have found := selectDown_eq live.placed ready recorded bound above
    obtain ⟨p, hp, same⟩ := Option.map_eq_some_iff.mp found
    have top : j.uxPriority u = ⟨j.portGET_HIGHEST_PRIORITY, high⟩ := (live.placed.state u _ hu).symm
    have le : j.portGET_HIGHEST_PRIORITY ≤ (j.uxPriority c).val := by
      have below := highest u (by rw [IsReady, top]; exact hu)
      dsimp only at below
      rwa [top] at below
    have ge : (j.uxPriority c).val ≤ j.portGET_HIGHEST_PRIORITY := highest' c _ chosen
    rw [hp]
    exact congrArg some (Fin.ext (by omega))

theorem switch_picks_started :
    ∃ j' c, started.vTaskSwitchContext = some j' ∧ j'.pxCurrentTCB = some c ∧ j'.IsReady c ∧
      (∀ t, started.IsReady t → started.uxPriority t ≤ started.uxPriority c) ∧
      ∀ recorded bound, (∀ t, started.IsReady t → (started.uxPriority t).val ≤ recorded) →
        started.selectDown recorded bound = some (started.uxPriority c) :=
  switch_picks atReset_reset started_run (by decide) (by decide)

end Scheduler

end Blinky.Kernel
