import Blinky.Kernel.Sound

/-!
# The tick

`xTaskIncrementTick_spec` says what one tick does while the scheduler is not suspended:
exactly the tasks that are due become ready. The tick count wraps round; at zero the two
delayed lists change places, and what was to wake after the wrap is in the list in use.
-/

namespace Blinky.Kernel
set_option autoImplicit false
open Blinky.Circular

namespace Scheduler

variable {τ ε : Type} [DecidableEq τ] [DecidableEq ε] {k : Scheduler τ ε}

/-- The delayed list in use after the next tick. -/
def delayedAfterTick (k : Scheduler τ ε) : Bool :=
  if k.xTickCount + 1 = 0 then k.pxOverflowDelayedTaskList else k.pxDelayedTaskList

/-- The task wakes at the next tick. -/
def DueAtTick (k : Scheduler τ ε) (t : τ) : Prop :=
  k.lists.container (.state t) = some (.delayed k.delayedAfterTick) ∧
    k.lists.value (.state t) ≤ k.xTickCount + 1

/-- The lists after a tick: who is due is ready, nobody else has moved. -/
structure Woken (k : Scheduler τ ε) (s' : Lists (TaskItem τ) (KernelList ε)) : Prop where
  due : ∀ t, k.DueAtTick t → s'.container (.state t) = some (.ready (k.uxPriority t)) ∧
    s'.container (.event t) = none
  others : ∀ t, ¬ k.DueAtTick t → s'.container (.state t) = k.lists.container (.state t) ∧
    s'.container (.event t) = k.lists.container (.event t)
  value : ∀ t, s'.value (.state t) = k.lists.value (.state t)

/-- With nobody picked from the ready lists. -/
structure Ticked (k : Scheduler τ ε) (s' : Lists (TaskItem τ) (KernelList ε)) : Prop extends Woken k s' where
  walk : Walk k.DueAtTick [] k.lists s'

omit [DecidableEq τ] [DecidableEq ε] in
/-- At the last count before the wrap nobody is left in the delayed list. -/
theorem Timely.none_at_wrap (timely : k.Timely) (placed : k.Tidied) (wraps : k.xTickCount + 1 = 0) :
    k.lists.members (.delayed k.pxDelayedTaskList) = [] := by
  rw [placed.members_eq_nil_iff (l := .delayed k.pxDelayedTaskList) id]
  intro t h
  have later := timely.future t h
  bv_omega

/-- The state a tick leaves, given what its loop makes of the lists. -/
abbrev afterTick (k : Scheduler τ ε) (lists : Lists (TaskItem τ) (KernelList ε)) (top : BitVec 32)
    (next : TickType) (overflows : BitVec 32) : Scheduler τ ε :=
  { k with
    lists
    uxTopReadyPriority := top
    xTickCount := k.xTickCount + 1
    pxDelayedTaskList := k.delayedAfterTick
    pxOverflowDelayedTaskList := !k.delayedAfterTick
    xNextTaskUnblockTime := next
    xNumOfOverflows := overflows }

omit [DecidableEq τ] [DecidableEq ε] in
/-- The tick count goes up, and the delayed lists change places where it wraps. -/
theorem advanceTickCount_spec (steady : k.Steady) (timely : k.Timely) :
    ∃ next overflows,
      k.advanceTickCount = some (k.afterTick k.lists k.uxTopReadyPriority next overflows) ∧
      ∀ t, k.lists.container (.state t) = some (.delayed k.delayedAfterTick) →
        next ≤ k.lists.value (.state t) := by
  by_cases wraps : k.xTickCount + 1 = 0
  · have empty := timely.none_at_wrap steady.placed wraps
    have inUse : k.delayedAfterTick = k.pxOverflowDelayedTaskList := if_pos wraps
    let k₀ : Scheduler τ ε :=
      { k with
        xTickCount := k.xTickCount + 1
        pxDelayedTaskList := k.pxOverflowDelayedTaskList
        pxOverflowDelayedTaskList := k.pxDelayedTaskList
        xNumOfOverflows := k.xNumOfOverflows + 1 }
    refine ⟨k₀.nextWake, k.xNumOfOverflows + 1, ?_, ?_⟩
    · simp only [advanceTickCount, if_pos wraps, taskSWITCH_DELAYED_LISTS, configASSERT_pos empty]
      refine (congrArg some k₀.prvResetNextTaskUnblockTime_eq).trans ?_
      simp only [afterTick, k₀, inUse, steady.overflow, Bool.not_not]
    · intro t h
      rw [inUse] at h
      exact nextWake_le (k := k₀) steady.placed h
  · have inUse : k.delayedAfterTick = k.pxDelayedTaskList := if_neg wraps
    refine ⟨k.xNextTaskUnblockTime, k.xNumOfOverflows, ?_, ?_⟩
    · simp only [advanceTickCount, if_neg wraps, afterTick, inUse, ← steady.overflow]
    · intro t h
      rw [inUse] at h
      exact timely.next t h

/-- With or without a round of the loop, the tasks due have left the delayed list. -/
theorem unblockDueTasks_spec {next₁ : TickType} {current : τ} (overflows : BitVec 32) (placed : k.Tidied)
    (running : k.pxCurrentTCB = some current)
    (nextLe : ∀ t, k.lists.container (.state t) = some (.delayed k.delayedAfterTick) →
      next₁ ≤ k.lists.value (.state t)) :
    ∃ s' top next switch,
      (k.afterTick k.lists k.uxTopReadyPriority next₁ overflows).unblockDueTasks =
        some (k.afterTick s' top next overflows, switch) ∧
      Placed s' k.uxPriority top ∧ k.Ticked s' ∧
      (∀ t, s'.container (.state t) = some (.delayed k.delayedAfterTick) → next ≤ s'.value (.state t)) ∧
      ∀ t, k.DueAtTick t → k.uxPriority current ≤ k.uxPriority t → switch = true := by
  let k₁ := k.afterTick k.lists k.uxTopReadyPriority next₁ overflows
  rw [unblockDueTasks]
  by_cases reached : k₁.xTickCount ≥ k₁.xNextTaskUnblockTime
  · rw [if_pos reached]
    obtain ⟨s', top, next, switch, run, placed', unblocked, -, asks⟩ :=
      unblockExpired_spec k₁.xTickCount current _ false k₁ placed running (Nat.lt_succ_self _)
    exact ⟨s', top, next, switch, run, placed',
      ⟨⟨unblocked.due, unblocked.others, unblocked.value⟩, unblocked.walk⟩, unblocked.next, asks⟩
  · rw [if_neg reached]
    have none : ∀ t, ¬ k.DueAtTick t := by
      rintro t ⟨h, le⟩
      have later := nextLe t h
      have early : ¬ k.xTickCount + 1 ≥ next₁ := reached
      bv_omega
    refine ⟨k.lists, k.uxTopReadyPriority, next₁, false, rfl, placed,
      ⟨⟨?_, ?_, ?_⟩, Walk.same fun _ => rfl⟩, nextLe, ?_⟩
    · exact fun t due => absurd due (none t)
    · exact fun t _ => ⟨rfl, rfl⟩
    · exact fun t => rfl
    · exact fun t due => absurd due (none t)

/-- The tasks due become ready and nobody else moves. A task of the running one's priority or
above that became ready asks for a switch, as does a yield that is pending. -/
theorem xTaskIncrementTick_spec (steady : k.Steady) (timely : k.Timely)
    (awake : k.uxSchedulerSuspended = 0) :
    ∃ s' top next overflows switch,
      k.xTaskIncrementTick = some (k.afterTick s' top next overflows, switch) ∧
      Steady { k.afterTick s' top next overflows with xYieldPending := switch } ∧
      Timely (k.afterTick s' top next overflows) ∧ k.Ticked s' ∧
      (k.xYieldPending = true → switch = true) := by
  obtain ⟨next₁, overflows, started, nextLe⟩ := advanceTickCount_spec steady timely
  obtain ⟨current, running, -⟩ := steady.current
  obtain ⟨s', top, next, switch, unblocked, placed', ticked, nextLe', asks⟩ :=
    unblockDueTasks_spec overflows steady.placed running nextLe
  let timeSlice := decide ((s'.members (.ready (k.uxPriority current))).length > 1)
  refine ⟨s', top, next, overflows, (switch || timeSlice) || k.xYieldPending, ?_, ?_, ?_, ticked,
    fun pending => by rw [pending, Bool.or_true]⟩
  · rw [xTaskIncrementTick, if_pos awake, countTick, started]
    simp only [Option.bind_eq_bind, Option.bind_some, unblocked]
    refine (congrArg (fun c => Option.bind (Option.bind c _) _) running).trans ?_
    rfl
  · have clock : Steady (k.afterTick k.lists k.uxTopReadyPriority next overflows) :=
      ⟨steady.placed, rfl, steady.waits, steady.current, steady.idle, steady.tasks, steady.deleted,
        steady.preempted⟩
    refine clock.ready k.DueAtTick placed' ticked.due ticked.others (fun t due => Or.inl ⟨_, due.1⟩) ?_ id ?_
    · intro pending
      rw [show k.xYieldPending = true from pending, Bool.or_true]
    · intro c hc t due
      obtain rfl : current = c := Option.some.inj (running.symm.trans hc)
      by_cases above : k.uxPriority current ≤ k.uxPriority t
      · exact Or.inr (Or.inl (by simp [asks t due above]))
      · exact Or.inl (Fin.le_of_lt (Fin.not_le.mp above))
  · constructor
    · intro t h
      have notDue : ¬ k.DueAtTick t := by
        intro due
        rw [(ticked.due t due).1] at h
        cases h
      dsimp only at h ⊢
      rw [ticked.value]
      rw [(ticked.others t notDue).1] at h
      exact BitVec.not_le.mp fun le => notDue ⟨h, le⟩
    · exact nextLe'

omit [DecidableEq ε] in
theorem Ticked.aside {s' : Lists (TaskItem τ) (KernelList ε)} (ticked : k.Ticked s')
    (aside : ∀ t, k.lists.container (.event t) ≠ some .pendingReady) (t : τ) :
    s'.container (.event t) ≠ some .pendingReady := by
  by_cases due : k.DueAtTick t
  · rw [(ticked.due t due).2]
    simp
  · rw [(ticked.others t due).2]
    exact aside t

/-- `Sound` while the scheduler is not suspended, but for the ticks still to be counted. -/
structure Awake (k : Scheduler τ ε) : Prop extends Steady k, Timely k where
  awake : k.uxSchedulerSuspended = 0
  aside : ∀ t, k.lists.container (.event t) ≠ some .pendingReady

/-- A tick that is counted, with the switch it asks for kept as a pending yield. -/
theorem Awake.countTick (live : k.Awake) :
    ∃ s' top next overflows switch,
      k.xTaskIncrementTick = some (k.afterTick s' top next overflows, switch) ∧
      Awake { k.afterTick s' top next overflows with xYieldPending := switch } ∧ k.Ticked s' ∧
      (k.xYieldPending = true → switch = true) := by
  obtain ⟨s', top, next, overflows, switch, counted, steady, timely, ticked, kept⟩ :=
    xTaskIncrementTick_spec live.toSteady live.toTimely live.awake
  exact ⟨s', top, next, overflows, switch, counted,
    ⟨steady, ⟨timely.future, timely.next⟩, live.awake, ticked.aside live.aside⟩, ticked, kept⟩

omit [DecidableEq τ] [DecidableEq ε] in
theorem Awake.sound (live : k.Awake) (counted : k.uxPendedTicks = 0) : k.Sound :=
  ⟨live.toSteady, live.toTimely, fun _ => counted, fun _ => live.aside⟩

/-- A tick that has been counted: who was due is ready, nobody else has moved. -/
structure TickedTo (k k' : Scheduler τ ε) : Prop where
  clock : k'.xTickCount = k.xTickCount + 1
  inUse : k'.pxDelayedTaskList = k.delayedAfterTick
  lists : k.Woken k'.lists
  walked : k.Walked k' k.DueAtTick

/-- The tick interrupt: the tick is counted, or kept for later while the scheduler is
suspended, and the context switched if that is called for. -/
theorem Live.tick (live : k.Live) :
    ∃ k', k.vPortPreemptiveTick = some k' ∧ k'.Live ∧
      ((k.uxSchedulerSuspended = 0 ∧ k'.uxPendedTicks = k.uxPendedTicks ∧ k.TickedTo k') ∨
        (k.uxSchedulerSuspended ≠ 0 ∧ k'.uxPendedTicks = k.uxPendedTicks + 1 ∧
          Still { k with uxPendedTicks := k.uxPendedTicks + 1 } k' fun _ => False)) := by
  by_cases awake : k.uxSchedulerSuspended = 0
  · have started : k.Awake := ⟨live.toSteady, live.toTimely, awake, live.aside awake⟩
    obtain ⟨s', top, next, overflows, switch, counted, awake', ticked, kept⟩ := started.countTick
    have live' : Live { k.afterTick s' top next overflows with xYieldPending := switch } :=
      ⟨awake'.sound (live.ticks awake), live.running⟩
    rw [vPortPreemptiveTick, counted]
    cases switch with
    | false =>
      have noPending : k.xYieldPending = false := eq_false_of_keeps kept rfl
      rw [← noPending] at live'
      exact ⟨_, rfl, live', Or.inl ⟨awake, rfl, rfl, rfl, ticked.toWoken, Walked.of ticked.walk rfl rfl⟩⟩
    | true =>
      obtain ⟨k', switched, live'', still⟩ := live'.switchContext
      have counted : k.Walked { k.afterTick s' top next overflows with xYieldPending := true } k.DueAtTick :=
        Walked.of ticked.walk rfl rfl
      refine ⟨k', switched, live'', Or.inl ⟨awake, still.pended, still.clock, still.inUse, ?_,
        counted.trans (still.walked.mono fun _ h => h.elim)⟩⟩
      constructor
      · intro t due
        rw [still.state t id, still.event t id]
        exact ticked.due t due
      · intro t due
        rw [still.state t id, still.event t id]
        exact ticked.others t due
      · intro t
        rw [still.value t id]
        exact ticked.value t
  · have later : Live { k with uxPendedTicks := k.uxPendedTicks + 1 } :=
      ⟨⟨live.toSteady.unread, ⟨live.future, live.next⟩, fun h => absurd h awake, live.aside⟩, live.running⟩
    rw [vPortPreemptiveTick, xTaskIncrementTick, if_neg awake]
    cases pending : k.xYieldPending with
    | false =>
      refine ⟨_, rfl, pending ▸ later, Or.inr ⟨awake, rfl, ?_⟩⟩
      exact still_of_lists rfl rfl rfl rfl rfl
    | true =>
      obtain ⟨k', switched, live', still⟩ := later.switchContext
      refine ⟨k', switched, live', Or.inr ⟨awake, still.pended, ⟨?_, still.delayed⟩⟩⟩
      exact ⟨still.clock, still.pended, still.inUse, still.state, still.event, still.value, still.walked⟩

/-- The states that counting ticks leads to, one after the other. -/
inductive Ticks (k : Scheduler τ ε) : Nat → Scheduler τ ε → Prop where
  | none : Ticks k 0 k
  | tick {n : Nat} {j j' : Scheduler τ ε} (ticks : Ticks k n j) (awake : j.Awake) (ticked : j.TickedTo j') :
    Ticks k (n + 1) j'

/-- The replay of the pended ticks counts every one of them. -/
theorem Awake.replay {start : Scheduler τ ε} (n m : Nat) (k : Scheduler τ ε) (live : k.Awake)
    (ticks : start.Ticks m k) :
    ∃ k', k.replayTicks n = some k' ∧ k'.Awake ∧ start.Ticks (m + n) k' ∧
      k'.xSchedulerRunning = k.xSchedulerRunning := by
  induction n generalizing m k with
  | zero => exact ⟨k, rfl, live, ticks, rfl⟩
  | succ n ih =>
    obtain ⟨s', top, next, overflows, switch, counted, live', ticked, kept⟩ := live.countTick
    have ticks' : start.Ticks (m + 1) { k.afterTick s' top next overflows with xYieldPending := switch } :=
      ticks.tick live ⟨rfl, rfl, ticked.toWoken, Walked.of ticked.walk rfl rfl⟩
    obtain ⟨k', run, live'', all, running⟩ := ih (m + 1) _ live' ticks'
    refine ⟨k', ?_, live'', by rw [← Nat.add_assoc, Nat.add_right_comm]; exact all, running⟩
    rw [replayTicks, counted]
    cases switch with
    | false =>
      have noPending : k.xYieldPending = false := eq_false_of_keeps kept rfl
      rw [← noPending] at run
      exact run
    | true => exact run

omit [DecidableEq τ] [DecidableEq ε] in
/-- A task that waits is in no ready list. -/
theorem Waits.list {s : Lists (TaskItem τ) (KernelList ε)} {t : τ} (waits : Waits s t) :
    ∃ l, s.container (.state t) = some l ∧ ∀ p, l ≠ .ready p := by
  obtain ⟨d, h⟩ | h := waits
  · exact ⟨_, h, nofun⟩
  · exact ⟨_, h, nofun⟩

/-- When the scheduler comes out of suspension, the tasks set aside are made ready first. -/
theorem readyPendingTasks_spec (steady : k.Steady) (timely : k.Timely) (awake : k.uxSchedulerSuspended = 0) :
    ∃ s' top yield next, k.readyPendingTasks =
        some
          { k with
            lists := s'
            uxTopReadyPriority := top
            xYieldPending := yield
            xNextTaskUnblockTime := next } ∧
      Awake
        { k with
          lists := s'
          uxTopReadyPriority := top
          xYieldPending := yield
          xNextTaskUnblockTime := next } ∧ k.Drained s' := by
  obtain ⟨current, running, -⟩ := steady.current
  obtain ⟨s', top, yield, moved, drain, placed, drained, kept, asks⟩ :=
    drainPendingReady_spec current _ false k steady.placed running
      (fun t h => (steady.waits t _ h).list) (Nat.lt_succ_self _)
  have steady' : Steady { k with lists := s', uxTopReadyPriority := top, xYieldPending := yield } := by
    refine steady.ready _ placed drained.pending drained.others (fun t h => steady.waits t _ h) kept id ?_
    intro c hc t pending
    obtain rfl : current = c := Option.some.inj (running.symm.trans hc)
    by_cases above : k.uxPriority current ≤ k.uxPriority t
    · exact Or.inr (Or.inl (asks t pending above))
    · exact Or.inl (Fin.le_of_lt (Fin.not_le.mp above))
  have timely' : Timely { k with lists := s', uxTopReadyPriority := top, xYieldPending := yield } := by
    have fewer : Timely { k with lists := s' } := by
      apply timely.fewer
      intro t h
      by_cases pending : k.lists.container (.event t) = some .pendingReady
      · rw [(drained.pending t pending).1] at h
        cases h
      · rw [(drained.others t pending).1] at h
        exact ⟨h, drained.value t⟩
    exact ⟨fewer.future, fewer.next⟩
  have aside : ∀ t, s'.container (.event t) ≠ some .pendingReady := by
    intro t
    by_cases pending : k.lists.container (.event t) = some .pendingReady
    · rw [(drained.pending t pending).2]
      simp
    · rw [(drained.others t pending).2]
      exact pending
  rw [readyPendingTasks, drain]
  cases moved with
  | false => exact ⟨s', top, yield, _, rfl, ⟨steady', timely', awake, aside⟩, drained⟩
  | true =>
    have reset := timely'.reset steady'.placed
    rw [prvResetNextTaskUnblockTime_eq] at reset
    refine ⟨s', top, yield, _, congrArg some (prvResetNextTaskUnblockTime_eq _), ?_, drained⟩
    exact ⟨steady'.unread, reset, awake, aside⟩

omit [DecidableEq ε] in
theorem Drained.still {s' : Lists (TaskItem τ) (KernelList ε)} {top : BitVec 32} {yield : Bool} {next : TickType}
    (drained : k.Drained s') :
    Still k
      { k with
        lists := s'
        uxTopReadyPriority := top
        xYieldPending := yield
        xNextTaskUnblockTime := next }
      fun t => k.lists.container (.event t) = some .pendingReady := by
  apply Frame.still
  · exact ⟨rfl, rfl, rfl, fun t ht => (drained.others t ht).1, fun t ht => (drained.others t ht).2,
      fun t _ => drained.value t, Walked.of drained.walk rfl rfl⟩
  · intro t pending d h
    rw [(drained.pending t pending).1] at h
    cases h

/-- What the outermost `xTaskResumeAll` makes of `k`: who was set aside is ready, and then the
ticks that were kept are counted. -/
def Resumed (k k' : Scheduler τ ε) : Prop :=
  k'.uxPendedTicks = 0 ∧ ∃ j j' : Scheduler τ ε,
    k.Still j (fun t => k.lists.container (.event t) = some .pendingReady) ∧
      j.Ticks k.uxPendedTicks j' ∧ j'.xTickCount = k'.xTickCount ∧
      j'.pxDelayedTaskList = k'.pxDelayedTaskList ∧ j'.lists = k'.lists ∧ j'.switchedIn = k'.switchedIn

theorem Live.resumeAll (live : k.Live) (suspended : k.uxSchedulerSuspended ≠ 0) :
    ∃ k' yielded, k.xTaskResumeAll = some (k', yielded) ∧ k'.Live ∧
      ((k.uxSchedulerSuspended = 1 ∧ k.Resumed k') ∨
        (k.uxSchedulerSuspended ≠ 1 ∧ k.Still k' fun _ => False)) := by
  obtain ⟨c, hc, exists'⟩ := live.current
  have tasks : k.uxCurrentNumberOfTasks > 0 := live.tasks.pos exists'
  rw [xTaskResumeAll, configASSERT_pos suspended]
  simp only [Option.bind_eq_bind, Option.bind_some]
  by_cases last : k.uxSchedulerSuspended - 1 = 0
  · obtain ⟨s', top, yield, next, drain, awake, drained⟩ :=
      readyPendingTasks_spec (k := { k with uxSchedulerSuspended := k.uxSchedulerSuspended - 1 })
        live.toSteady.unread ⟨live.future, live.next⟩ last
    obtain ⟨k', replayed, awake', ticks, running⟩ := awake.replay k.uxPendedTicks 0 _ Ticks.none
    rw [Nat.zero_add] at ticks
    have outer : k.uxSchedulerSuspended = 1 := by omega
    have resumed : k.Resumed { k' with uxPendedTicks := 0 } := by
      refine ⟨rfl, _, k', ⟨?_, drained.still.delayed⟩, ticks, rfl, rfl, rfl, rfl⟩
      exact ⟨rfl, rfl, rfl, drained.still.state, drained.still.event, drained.still.value, drained.still.walked⟩
    have live' : Live { k' with uxPendedTicks := 0 } := by
      refine ⟨Awake.sound ?_ rfl, running.trans live.running⟩
      exact ⟨awake'.toSteady.unread, ⟨awake'.future, awake'.next⟩, awake'.awake, awake'.aside⟩
    rw [if_pos ⟨last, tasks⟩, drain]
    simp only [Option.bind_some, replayed]
    cases pending : k'.xYieldPending with
    | false => exact ⟨_, _, rfl, pending ▸ live', Or.inl ⟨outer, resumed⟩⟩
    | true =>
      refine ⟨_, _, rfl, ⟨⟨?_, ⟨live'.future, live'.next⟩, live'.ticks, live'.aside⟩, live'.running⟩,
        Or.inl ⟨outer, resumed⟩⟩
      exact live'.toSteady.yield (fun _ => rfl) (fun _ => rfl)
  · rw [if_neg (fun h => last h.1)]
    have inner : k.uxSchedulerSuspended ≠ 1 := by omega
    refine ⟨_, _, rfl, ⟨⟨live.toSteady.unread, ⟨live.future, live.next⟩, fun h => absurd h last,
      fun h => absurd h last⟩, live.running⟩, Or.inr ⟨inner, ?_⟩⟩
    exact still_of_lists rfl rfl rfl rfl rfl

end Scheduler

end Blinky.Kernel
