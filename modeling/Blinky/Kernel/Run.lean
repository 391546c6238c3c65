import Blinky.Kernel.Tasks

/-!
# Runs of the kernel

One event is one stretch of kernel code that nothing interrupts: a critical section,
an interrupt, or what a service does while the scheduler is suspended. Between two
events any other may come that is allowed then. `Event.Allowed` is what the kernel is
promised by its callers and by the hardware.
-/

namespace Blinky.Kernel
set_option autoImplicit false

inductive Event (τ ε : Type) where
  /-- `xTaskCreate` of a task that does not exist. -/
  | create (t : τ) (uxPriority : BitVec 32)
  /-- `vTaskStartScheduler`, with the control block of the idle task. -/
  | start (idle : τ)
  /-- A queue or an event group initialises its event list. -/
  | createEventList (e : ε)
  /-- The tick interrupt. -/
  | tick
  /-- The software interrupt that a yield requested. -/
  | softwareInterrupt
  | taskYIELD
  | suspendAll
  | resumeAll
  /-- The running task puts itself in a delayed list, or in the suspended list. -/
  | block (xTicksToWait : TickType) (xCanBlockIndefinitely : Bool)
  | placeOnEventList (e : ε) (xTicksToWait : TickType)
  | placeOnUnorderedEventList (e : ε) (xItemValue xTicksToWait : TickType)
  | removeFromEventList (e : ε)
  | removeFromUnorderedEventList (t : τ) (xItemValue : TickType)
  | suspend (t : τ)
  | resume (t : τ)
  | resumeFromISR (t : τ)
  | prioritySet (t : τ) (uxNewPriority : BitVec 32)
  | abortDelay (t : τ)
  | delete (t : τ)
  /-- The idle task frees one deleted task. -/
  | cleanUp
  /-- `vTaskMissedYield` -/
  | missedYield

namespace Scheduler

variable {τ ε : Type}

/-- The task has been created and not been freed. -/
def Exists (k : Scheduler τ ε) (t : τ) : Prop := k.lists.container (.state t) ≠ none

def IsReady (k : Scheduler τ ε) (t : τ) : Prop :=
  k.lists.container (.state t) = some (.ready (k.uxPriority t))

/-- The running task is ready and is not the idle task, so it may block. -/
def MayBlock (k : Scheduler τ ε) (xTicksToWait : TickType) : Prop :=
  xTicksToWait ≠ 0 ∧ ∃ current, k.pxCurrentTCB = some current ∧ k.IsReady current ∧
    k.xIdleTaskHandle ≠ some current

end Scheduler

open Scheduler

variable {τ ε : Type} [DecidableEq τ] [DecidableEq ε]

def Event.Allowed (k : Scheduler τ ε) : Event τ ε → Prop
  | .create t _ => ¬ k.Exists t ∧ k.lists.container (.event t) = none
  | .start idle => k.xSchedulerRunning = false ∧ ¬ k.Exists idle ∧ k.lists.container (.event idle) = none
  | .createEventList e => k.lists.list (.event e) = none
  | .tick => k.xSchedulerRunning = true
  | .softwareInterrupt => k.xSchedulerRunning = true ∧ k.yieldRequested = true
  | .taskYIELD => k.xSchedulerRunning = true
  | .suspendAll => k.xSchedulerRunning = true
  | .resumeAll => k.xSchedulerRunning = true ∧ k.uxSchedulerSuspended ≠ 0
  | .block n _ => k.xSchedulerRunning = true ∧ k.MayBlock n
  | .placeOnEventList e n => k.xSchedulerRunning = true ∧ k.MayBlock n ∧ k.lists.list (.event e) ≠ none
  | .placeOnUnorderedEventList e _ n =>
    k.xSchedulerRunning = true ∧ k.MayBlock n ∧ k.lists.list (.event e) ≠ none ∧ k.uxSchedulerSuspended ≠ 0
  | .removeFromEventList e => k.xSchedulerRunning = true ∧ k.lists.members (.event e) ≠ []
  | .removeFromUnorderedEventList t _ =>
    k.xSchedulerRunning = true ∧ k.uxSchedulerSuspended ≠ 0 ∧
      ∃ e, k.lists.container (.event t) = some (.event e)
  | .suspend t =>
    k.xSchedulerRunning = true ∧ k.Exists t ∧ k.lists.container (.state t) ≠ some .waitingTermination ∧
      k.xIdleTaskHandle ≠ some t ∧ (k.pxCurrentTCB = some t → k.uxSchedulerSuspended = 0)
  | .resume t => k.xSchedulerRunning = true ∧ k.Exists t
  | .resumeFromISR t => k.xSchedulerRunning = true ∧ k.Exists t
  | .prioritySet t p => k.xSchedulerRunning = true ∧ k.Exists t ∧ p.toNat < configMAX_PRIORITIES
  | .abortDelay t => k.xSchedulerRunning = true ∧ k.uxSchedulerSuspended ≠ 0 ∧ k.Exists t
  | .delete t =>
    k.xSchedulerRunning = true ∧ k.Exists t ∧ k.lists.container (.state t) ≠ some .waitingTermination ∧
      k.xIdleTaskHandle ≠ some t ∧ (k.pxCurrentTCB = some t → k.uxSchedulerSuspended = 0)
  | .cleanUp => k.xSchedulerRunning = true ∧ k.pxCurrentTCB = k.xIdleTaskHandle
  | .missedYield => k.xSchedulerRunning = true

def Scheduler.step (k : Scheduler τ ε) : Event τ ε → Option (Scheduler τ ε)
  | .create t p => k.xTaskCreate t p
  | .start idle => k.vTaskStartScheduler idle
  | .createEventList e => some (k.vListInitialise (.event e))
  | .tick => k.vPortPreemptiveTick
  | .softwareInterrupt => k.vPortYieldWithinAPI
  | .taskYIELD => k.vTaskSwitchContext
  | .suspendAll => some k.vTaskSuspendAll
  | .resumeAll => k.xTaskResumeAll.map Prod.fst
  | .block n indefinitely => k.prvAddCurrentTaskToDelayedList n indefinitely
  | .placeOnEventList e n => k.vTaskPlaceOnEventList e n
  | .placeOnUnorderedEventList e v n => k.vTaskPlaceOnUnorderedEventList e v n
  | .removeFromEventList e => (k.xTaskRemoveFromEventList e).map Prod.fst
  | .removeFromUnorderedEventList t v => (k.xTaskRemoveFromUnorderedEventList t v).map Prod.fst
  | .suspend t => k.vTaskSuspend t
  | .resume t => k.vTaskResume t
  | .resumeFromISR t => k.xTaskResumeFromISR t
  | .prioritySet t p => k.vTaskPrioritySet t p
  | .abortDelay t => k.abortDelay t
  | .delete t => k.vTaskDelete t
  | .cleanUp => k.prvCheckTasksWaitingTermination
  | .missedYield => some { k with xYieldPending := true }

/-- The kernel at reset: no list has been initialised and no task created. -/
structure Scheduler.Reset (k : Scheduler τ ε) : Prop where
  lists : ∀ l, k.lists.list l = none
  container : ∀ i, k.lists.container i = none
  pxCurrentTCB : k.pxCurrentTCB = none
  xSchedulerRunning : k.xSchedulerRunning = false
  uxTopReadyPriority : k.uxTopReadyPriority = 0
  uxPendedTicks : k.uxPendedTicks = 0
  uxSchedulerSuspended : k.uxSchedulerSuspended = 0
  uxCurrentNumberOfTasks : k.uxCurrentNumberOfTasks = 0
  uxDeletedTasksWaitingCleanUp : k.uxDeletedTasksWaitingCleanUp = 0

/-- The states reached from `k` by allowed events, the latest of them first. -/
inductive Run (k : Scheduler τ ε) : List (Event τ ε) → Scheduler τ ε → Prop where
  | start : Run k [] k
  | step {past : List (Event τ ε)} {j j' : Scheduler τ ε} {e : Event τ ε} (run : Run k past j)
      (allowed : e.Allowed j) (next : j.step e = some j') : Run k (e :: past) j'

/-! ## Replaying a run -/

/-- The kernel's variables as the startup code leaves them. -/
def Scheduler.atReset : Scheduler τ ε where
  lists := { list := fun _ => none, container := fun _ => none, value := fun _ => 0 }
  uxPriority := fun _ => ⟨0, by decide⟩
  ucDelayAborted := fun _ => false
  ulNotifiedValue := fun _ => 0
  ucNotifyState := fun _ => .notWaiting
  pxCurrentTCB := none
  xIdleTaskHandle := none
  uxTopReadyPriority := 0
  pxDelayedTaskList := false
  pxOverflowDelayedTaskList := false
  xTickCount := 0
  xNextTaskUnblockTime := 0
  xNumOfOverflows := 0
  uxPendedTicks := 0
  uxSchedulerSuspended := 0
  xYieldPending := false
  xSchedulerRunning := false
  uxCurrentNumberOfTasks := 0
  uxDeletedTasksWaitingCleanUp := 0
  yieldRequested := false
  switchedIn := []

omit [DecidableEq τ] [DecidableEq ε] in
theorem Scheduler.atReset_reset : (atReset : Scheduler τ ε).Reset := by
  constructor <;> intros <;> rfl

instance (k : Scheduler τ ε) (t : τ) : Decidable (k.Exists t) := inferInstanceAs (Decidable (_ ≠ _))

instance (k : Scheduler τ ε) (t : τ) : Decidable (k.IsReady t) := inferInstanceAs (Decidable (_ = _))

instance (k : Scheduler τ ε) (n : TickType) : Decidable (k.MayBlock n) :=
  match h : k.pxCurrentTCB with
  | none => isFalse (by simp [MayBlock, h])
  | some c =>
    decidable_of_iff (n ≠ 0 ∧ k.IsReady c ∧ k.xIdleTaskHandle ≠ some c) (by simp [MayBlock, h])

instance (l : Option (KernelList ε)) : Decidable (∃ e, l = some (.event e)) :=
  match l with
  | some (.event e) => isTrue ⟨e, rfl⟩
  | some (.ready _) | some (.delayed _) | some .pendingReady | some .waitingTermination | some .suspended | none =>
    isFalse (by simp)

instance Event.decidableAllowed (k : Scheduler τ ε) : (e : Event τ ε) → Decidable (e.Allowed k)
  | .create _ _ | .start _ | .softwareInterrupt | .resumeAll | .block _ _ | .placeOnEventList _ _
  | .placeOnUnorderedEventList _ _ _ | .removeFromEventList _ | .removeFromUnorderedEventList _ _ | .suspend _
  | .resume _ | .resumeFromISR _ | .prioritySet _ _ | .abortDelay _ | .delete _ | .cleanUp =>
    inferInstanceAs (Decidable (_ ∧ _))
  | .createEventList _ | .tick | .taskYIELD | .suspendAll | .missedYield => inferInstanceAs (Decidable (_ = _))

/-- The state after these events, the first of them first, where each is allowed in its turn. -/
def Scheduler.replay (k : Scheduler τ ε) : List (Event τ ε) → Option (Scheduler τ ε)
  | [] => some k
  | e :: es => if e.Allowed k then (k.step e).bind fun k' => k'.replay es else none

/-- What a replay comes to is reached by a run. -/
theorem Run.replay {k j j' : Scheduler τ ε} {past es : List (Event τ ε)} (run : Run k past j)
    (replayed : j.replay es = some j') : Run k (es.reverse ++ past) j' := by
  induction es generalizing j past with
  | nil =>
    cases replayed
    exact run
  | cons e es ih =>
    rw [Scheduler.replay] at replayed
    split_ifs at replayed with allowed
    obtain ⟨j₁, next, rest⟩ := Option.bind_eq_some_iff.mp replayed
    rw [List.reverse_cons, List.append_assoc]
    exact ih (run.step allowed next) rest

/-- One task of the application and the idle task, both of the lowest priority, just started. -/
def Scheduler.started : Scheduler Bool Unit :=
  (atReset.replay [.createEventList (), .create true 0, .start false]).get (by decide)

theorem Scheduler.started_run :
    Run atReset [.start false, .create true 0, .createEventList ()] started := by
  have replayed : atReset.replay [.createEventList (), .create true 0, .start false] = some started :=
    (Option.some_get _).symm
  exact Run.start.replay replayed

/-- `started` after some more events. -/
def Scheduler.played (es : List (Event Bool Unit)) (may : (started.replay es).isSome) : Scheduler Bool Unit :=
  (started.replay es).get may

theorem Scheduler.played_run (es : List (Event Bool Unit)) (may : (started.replay es).isSome) :
    Run atReset (es.reverse ++ [.start false, .create true 0, .createEventList ()]) (played es may) :=
  started_run.replay (Option.some_get may).symm

end Blinky.Kernel
