import Blinky.Kernel.List

/-!
# The scheduler

The scheduler's state and its functions, over the kernel's lists. A function gives
none where the code would stop at a `configASSERT` or go through a null or stale
pointer: an item put in a list while it is in one, or taken out of none.

Where the code runs with interrupts off or the scheduler suspended its function is
one definition here. A service that opens and closes such a section itself
(`vTaskDelay`, `xTaskAbortDelay`) is given as what it does inside, so that what
interrupts do in between can be told.
-/

namespace Blinky.Kernel
set_option autoImplicit false
open Blinky.Circular

/-- A `configASSERT` that fails stops the code. -/
def configASSERT (x : Prop) [Decidable x] : Option Unit := if x then some () else none

theorem configASSERT_pos {x : Prop} [Decidable x] (h : x) : configASSERT x = some () := if_pos h

def configMAX_PRIORITIES : Nat := 5

/-- A priority within bounds: an index of `pxReadyTasksLists`. -/
abbrev Priority := Fin configMAX_PRIORITIES

/-- `taskEVENT_LIST_ITEM_VALUE_IN_USE` -/
def taskEVENT_LIST_ITEM_VALUE_IN_USE : TickType := 0x80000000

/-- `portPRIVILEGE_BIT` -/
def portPRIVILEGE_BIT : BitVec 32 := 0x80000000

/-- The two list items of a task: `xStateListItem` and `xEventListItem`. -/
inductive TaskItem (τ : Type) where
  | state (t : τ)
  | event (t : τ)
deriving DecidableEq

/-- The task an item belongs to, its `pvOwner`. -/
def TaskItem.owner {τ : Type} : TaskItem τ → τ
  | state t => t
  | event t => t

/-- The kernel's lists, and the event lists `ε` of its queues and event groups.
`xDelayedTaskList1` and `xDelayedTaskList2` are `delayed false` and `delayed true`. -/
inductive KernelList (ε : Type) where
  | ready (uxPriority : Priority)
  | delayed (second : Bool)
  | pendingReady
  | waitingTermination
  | suspended
  | event (e : ε)
deriving DecidableEq

/-- `eTaskState` -/
inductive TaskState where
  | eRunning
  | eReady
  | eBlocked
  | eSuspended
  | eDeleted
deriving DecidableEq

/-- `ucNotifyState` -/
inductive NotifyState where
  | notWaiting
  | waiting
  | received
deriving DecidableEq

/-- The scheduler's variables and, of every task control block, what the scheduler
reads. `yieldRequested` is the software interrupt that `portYIELD_WITHIN_API` raises,
`switchedIn` a log of `traceTASK_SWITCHED_IN`, the latest first: the task, and the priority
of the ready list it was taken from. -/
structure Scheduler (τ ε : Type) where
  lists : Lists (TaskItem τ) (KernelList ε)
  uxPriority : τ → Priority
  ucDelayAborted : τ → Bool
  ulNotifiedValue : τ → BitVec 32
  ucNotifyState : τ → NotifyState
  pxCurrentTCB : Option τ
  xIdleTaskHandle : Option τ
  uxTopReadyPriority : BitVec 32
  pxDelayedTaskList : Bool
  pxOverflowDelayedTaskList : Bool
  xTickCount : TickType
  xNextTaskUnblockTime : TickType
  xNumOfOverflows : BitVec 32
  uxPendedTicks : Nat
  uxSchedulerSuspended : Nat
  xYieldPending : Bool
  xSchedulerRunning : Bool
  uxCurrentNumberOfTasks : Nat
  uxDeletedTasksWaitingCleanUp : Nat
  yieldRequested : Bool
  switchedIn : List (Priority × τ)

/-- What is left of a priority asked for: no privilege bit, and the highest one where
it is out of bounds. -/
def toPriority (uxPriority : BitVec 32) : Priority :=
  if h : uxPriority.toNat < configMAX_PRIORITIES then ⟨uxPriority.toNat, h⟩
  else ⟨configMAX_PRIORITIES - 1, by decide⟩

/-- The event list item value of a task of this priority: low for a high priority. -/
def eventItemValue (uxPriority : Priority) : TickType :=
  BitVec.ofNat 32 configMAX_PRIORITIES - BitVec.ofNat 32 uxPriority.val

namespace Scheduler

variable {τ ε : Type} [DecidableEq τ] [DecidableEq ε]

/-! ### List calls -/

def vListInsertEnd (k : Scheduler τ ε) (l : KernelList ε) (i : TaskItem τ) : Option (Scheduler τ ε) :=
  (k.lists.insertEnd l i).map fun lists => { k with lists }

def vListInsert (k : Scheduler τ ε) (l : KernelList ε) (i : TaskItem τ) : Option (Scheduler τ ε) :=
  (k.lists.insert l i).map fun lists => { k with lists }

/-- The count that is left in the list comes with it. -/
def uxListRemove (k : Scheduler τ ε) (i : TaskItem τ) : Option (Scheduler τ ε × Nat) := do
  let l ← k.lists.container i
  let lists ← k.lists.remove i
  some ({ k with lists }, (lists.members l).length)

def listSET_LIST_ITEM_VALUE (k : Scheduler τ ε) (i : TaskItem τ) (xValue : TickType) : Scheduler τ ε :=
  { k with lists := k.lists.setValue i xValue }

def vListInitialiseItem (k : Scheduler τ ε) (i : TaskItem τ) : Option (Scheduler τ ε) :=
  (k.lists.initialiseItem i).map fun lists => { k with lists }

def vListInitialise (k : Scheduler τ ε) (l : KernelList ε) : Scheduler τ ε :=
  { k with lists := k.lists.initialise l }

/-- The event item taken out of its list, when it is in one. -/
def removeEventItem (k : Scheduler τ ε) (t : τ) : Option (Scheduler τ ε) :=
  if k.lists.container (.event t) = none then some k
  else (k.uxListRemove (.event t)).map Prod.fst

/-! ### Ready lists -/

def portRECORD_READY_PRIORITY (k : Scheduler τ ε) (p : Priority) : Scheduler τ ε :=
  { k with uxTopReadyPriority := k.uxTopReadyPriority ||| 1#32 <<< p.val }

def portRESET_READY_PRIORITY (k : Scheduler τ ε) (p : Priority) : Scheduler τ ε :=
  { k with uxTopReadyPriority := k.uxTopReadyPriority &&& ~~~(1#32 <<< p.val) }

def taskRESET_READY_PRIORITY (k : Scheduler τ ε) (p : Priority) : Scheduler τ ε :=
  if (k.lists.members (.ready p)).length = 0 then k.portRESET_READY_PRIORITY p else k

def prvAddTaskToReadyList (k : Scheduler τ ε) (t : τ) : Option (Scheduler τ ε) :=
  (k.portRECORD_READY_PRIORITY (k.uxPriority t)).vListInsertEnd (.ready (k.uxPriority t)) (.state t)

/-- `portGET_HIGHEST_PRIORITY` -/
def portGET_HIGHEST_PRIORITY (k : Scheduler τ ε) : Nat :=
  31 - k.uxTopReadyPriority.clz.toNat

/-- The port's `taskSELECT_HIGHEST_PRIORITY_TASK`, and the trace macro after it. -/
def taskSELECT_HIGHEST_PRIORITY_TASK (k : Scheduler τ ε) : Option (Scheduler τ ε) := do
  let uxTopPriority ←
    (if h : k.portGET_HIGHEST_PRIORITY < configMAX_PRIORITIES then
      some (⟨k.portGET_HIGHEST_PRIORITY, h⟩ : Priority)
     else none)
  configASSERT ((k.lists.members (.ready uxTopPriority)).length > 0)
  let lists ← k.lists.next (.ready uxTopPriority)
  let c ← lists.list (.ready uxTopPriority)
  let i ← c.at?
  some
    { k with
      lists
      pxCurrentTCB := some i.owner
      switchedIn := (uxTopPriority, i.owner) :: k.switchedIn }

def vTaskSwitchContext (k : Scheduler τ ε) : Option (Scheduler τ ε) :=
  if k.uxSchedulerSuspended ≠ 0 then some { k with xYieldPending := true }
  else { k with xYieldPending := false }.taskSELECT_HIGHEST_PRIORITY_TASK

def portYIELD_WITHIN_API (k : Scheduler τ ε) : Scheduler τ ε := { k with yieldRequested := true }

/-- The interrupt taken: the request is cleared, then the context switched. -/
def vPortYieldWithinAPI (k : Scheduler τ ε) : Option (Scheduler τ ε) :=
  { k with yieldRequested := false }.vTaskSwitchContext

/-! ### Time -/

/-- The least time at which a delayed task wakes is that of the head. -/
def prvResetNextTaskUnblockTime (k : Scheduler τ ε) : Scheduler τ ε :=
  match k.lists.members (.delayed k.pxDelayedTaskList) with
  | [] => { k with xNextTaskUnblockTime := portMAX_DELAY }
  | i :: _ => { k with xNextTaskUnblockTime := k.lists.value (.state i.owner) }

def taskSWITCH_DELAYED_LISTS (k : Scheduler τ ε) : Option (Scheduler τ ε) := do
  configASSERT (k.lists.members (.delayed k.pxDelayedTaskList) = [])
  some <| prvResetNextTaskUnblockTime
    { k with
      pxDelayedTaskList := k.pxOverflowDelayedTaskList
      pxOverflowDelayedTaskList := k.pxDelayedTaskList
      xNumOfOverflows := k.xNumOfOverflows + 1 }

/-- The loop of `xTaskIncrementTick`: the head of the delayed list is made ready until
its time is still to come. None when `fuel` tasks did not end it. -/
def unblockExpired (xConstTickCount : TickType) :
    Nat → Bool → Scheduler τ ε → Option (Scheduler τ ε × Bool)
  | 0, _, _ => none
  | fuel + 1, xSwitchRequired, k =>
    match k.lists.members (.delayed k.pxDelayedTaskList) with
    | [] => some ({ k with xNextTaskUnblockTime := portMAX_DELAY }, xSwitchRequired)
    | i :: _ =>
      let t := i.owner
      let xItemValue := k.lists.value (.state t)
      if xConstTickCount < xItemValue then
        some ({ k with xNextTaskUnblockTime := xItemValue }, xSwitchRequired)
      else do
        let (k, _) ← k.uxListRemove (.state t)
        let k ← k.removeEventItem t
        let k ← k.prvAddTaskToReadyList t
        let current ← k.pxCurrentTCB
        unblockExpired xConstTickCount fuel
          (xSwitchRequired || decide (k.uxPriority current ≤ k.uxPriority t)) k

/-- The tick count goes up; where it wraps, the delayed lists change places. -/
def advanceTickCount (k : Scheduler τ ε) : Option (Scheduler τ ε) :=
  let xConstTickCount := k.xTickCount + 1
  let k := { k with xTickCount := xConstTickCount }
  if xConstTickCount = 0 then k.taskSWITCH_DELAYED_LISTS else some k

def unblockDueTasks (k : Scheduler τ ε) : Option (Scheduler τ ε × Bool) :=
  if k.xTickCount ≥ k.xNextTaskUnblockTime then
    k.unblockExpired k.xTickCount ((k.lists.members (.delayed k.pxDelayedTaskList)).length + 1) false
  else some (k, false)

/-- `xTaskIncrementTick` while the scheduler is not suspended. Tasks of the running task's
priority share the processor, a tick each. -/
def countTick (k : Scheduler τ ε) : Option (Scheduler τ ε × Bool) := do
  let k ← k.advanceTickCount
  let (k, xSwitchRequired) ← k.unblockDueTasks
  let current ← k.pxCurrentTCB
  let timeSlice := decide ((k.lists.members (.ready (k.uxPriority current))).length > 1)
  some (k, xSwitchRequired || timeSlice)

/-- The tick, and whether it calls for a context switch. -/
def xTaskIncrementTick (k : Scheduler τ ε) : Option (Scheduler τ ε × Bool) := do
  let (k, xSwitchRequired) ←
    (if k.uxSchedulerSuspended = 0 then k.countTick
     else some ({ k with uxPendedTicks := k.uxPendedTicks + 1 }, false))
  some (k, xSwitchRequired || k.xYieldPending)

/-- The tick interrupt of the port. -/
def vPortPreemptiveTick (k : Scheduler τ ε) : Option (Scheduler τ ε) := do
  let (k, switch) ← k.xTaskIncrementTick
  if switch then k.vTaskSwitchContext else some k

def vTaskSuspendAll (k : Scheduler τ ε) : Scheduler τ ε :=
  { k with uxSchedulerSuspended := k.uxSchedulerSuspended + 1 }

/-- The first loop of `xTaskResumeAll`: tasks readied while the scheduler was
suspended. Whether there was one comes with it. -/
def drainPendingReady : Nat → Bool → Scheduler τ ε → Option (Scheduler τ ε × Bool)
  | 0, _, _ => none
  | fuel + 1, moved, k =>
    match k.lists.members .pendingReady with
    | [] => some (k, moved)
    | i :: _ => do
      let t := i.owner
      let (k, _) ← k.uxListRemove (.event t)
      let (k, _) ← k.uxListRemove (.state t)
      let k ← k.prvAddTaskToReadyList t
      let current ← k.pxCurrentTCB
      let k := if k.uxPriority current ≤ k.uxPriority t then { k with xYieldPending := true } else k
      drainPendingReady fuel true k

/-- With what follows that loop. -/
def readyPendingTasks (k : Scheduler τ ε) : Option (Scheduler τ ε) := do
  let (k, moved) ← k.drainPendingReady ((k.lists.members .pendingReady).length + 1) false
  some (if moved then k.prvResetNextTaskUnblockTime else k)

/-- The second loop: the ticks that were missed. -/
def replayTicks : Nat → Scheduler τ ε → Option (Scheduler τ ε)
  | 0, k => some k
  | uxPendedCounts + 1, k => do
    let (k, switch) ← k.xTaskIncrementTick
    replayTicks uxPendedCounts (if switch then { k with xYieldPending := true } else k)

/-- Whether a yield has been requested comes with it. -/
def xTaskResumeAll (k : Scheduler τ ε) : Option (Scheduler τ ε × Bool) := do
  configASSERT (k.uxSchedulerSuspended ≠ 0)
  let k := { k with uxSchedulerSuspended := k.uxSchedulerSuspended - 1 }
  if k.uxSchedulerSuspended = 0 ∧ k.uxCurrentNumberOfTasks > 0 then do
    let k ← k.readyPendingTasks
    let k ← k.replayTicks k.uxPendedTicks
    let k := { k with uxPendedTicks := 0 }
    some (if k.xYieldPending then (k.portYIELD_WITHIN_API, true) else (k, false))
  else some (k, false)

/-! ### Blocking -/

def prvAddCurrentTaskToDelayedList (k : Scheduler τ ε) (xTicksToWait : TickType)
    (xCanBlockIndefinitely : Bool) : Option (Scheduler τ ε) := do
  let current ← k.pxCurrentTCB
  let k := { k with ucDelayAborted := Function.update k.ucDelayAborted current false }
  let (k, left) ← k.uxListRemove (.state current)
  let k := if left = 0 then k.portRESET_READY_PRIORITY (k.uxPriority current) else k
  if xTicksToWait = portMAX_DELAY ∧ xCanBlockIndefinitely then
    k.vListInsertEnd .suspended (.state current)
  else
    let xTimeToWake := k.xTickCount + xTicksToWait
    let k := k.listSET_LIST_ITEM_VALUE (.state current) xTimeToWake
    if xTimeToWake < k.xTickCount then
      k.vListInsert (.delayed k.pxOverflowDelayedTaskList) (.state current)
    else do
      let k ← k.vListInsert (.delayed k.pxDelayedTaskList) (.state current)
      some (if xTimeToWake < k.xNextTaskUnblockTime then
        { k with xNextTaskUnblockTime := xTimeToWake } else k)

def vTaskPlaceOnEventList (k : Scheduler τ ε) (pxEventList : ε) (xTicksToWait : TickType) :
    Option (Scheduler τ ε) := do
  let current ← k.pxCurrentTCB
  let k ← k.vListInsert (.event pxEventList) (.event current)
  k.prvAddCurrentTaskToDelayedList xTicksToWait true

def vTaskPlaceOnUnorderedEventList (k : Scheduler τ ε) (pxEventList : ε)
    (xItemValue xTicksToWait : TickType) : Option (Scheduler τ ε) := do
  configASSERT (k.uxSchedulerSuspended ≠ 0)
  let current ← k.pxCurrentTCB
  let k := k.listSET_LIST_ITEM_VALUE (.event current) (xItemValue ||| taskEVENT_LIST_ITEM_VALUE_IN_USE)
  let k ← k.vListInsertEnd (.event pxEventList) (.event current)
  k.prvAddCurrentTaskToDelayedList xTicksToWait true

/-- The head of the event list is readied, or set aside while the scheduler is
suspended. Whether it is above the running task comes with it. -/
def xTaskRemoveFromEventList (k : Scheduler τ ε) (pxEventList : ε) : Option (Scheduler τ ε × Bool) := do
  let i ← (k.lists.members (.event pxEventList)).head?
  let t := i.owner
  let (k, _) ← k.uxListRemove (.event t)
  let k ←
    (if k.uxSchedulerSuspended = 0 then do
      let (k, _) ← k.uxListRemove (.state t)
      k.prvAddTaskToReadyList t
     else k.vListInsertEnd .pendingReady (.event t))
  let current ← k.pxCurrentTCB
  let above := decide (k.uxPriority current < k.uxPriority t)
  let k := if above then { k with xYieldPending := true } else k
  some (k.prvResetNextTaskUnblockTime, above)

def xTaskRemoveFromUnorderedEventList (k : Scheduler τ ε) (t : τ) (xItemValue : TickType) :
    Option (Scheduler τ ε × Bool) := do
  configASSERT (k.uxSchedulerSuspended ≠ 0)
  let k := k.listSET_LIST_ITEM_VALUE (.event t) (xItemValue ||| taskEVENT_LIST_ITEM_VALUE_IN_USE)
  let (k, _) ← k.uxListRemove (.event t)
  let (k, _) ← k.uxListRemove (.state t)
  let k ← k.prvAddTaskToReadyList t
  let current ← k.pxCurrentTCB
  let above := decide (k.uxPriority current < k.uxPriority t)
  some (if above then { k with xYieldPending := true } else k, above)

/-! ### Task services -/

def eTaskGetState (k : Scheduler τ ε) (t : τ) : TaskState :=
  if k.pxCurrentTCB = some t then .eRunning
  else
    let pxStateList := k.lists.container (.state t)
    if pxStateList = some (.delayed k.pxDelayedTaskList) ∨
        pxStateList = some (.delayed k.pxOverflowDelayedTaskList) then .eBlocked
    else if pxStateList = some .suspended then
      if k.lists.container (.event t) = none then .eSuspended else .eBlocked
    else if pxStateList = some .waitingTermination ∨ pxStateList = none then .eDeleted
    else .eReady

def prvTaskIsTaskSuspended (k : Scheduler τ ε) (t : τ) : Bool :=
  decide (k.lists.container (.state t) = some .suspended) &&
    (!decide (k.lists.container (.event t) = some .pendingReady) &&
      decide (k.lists.container (.event t) = none))

/-- `prvInitialiseNewTask`, as far as the scheduler's data go. -/
def prvInitialiseNewTask (k : Scheduler τ ε) (pxNewTCB : τ) (uxPriority : BitVec 32) :
    Option (Scheduler τ ε) := do
  let p := toPriority (uxPriority &&& ~~~portPRIVILEGE_BIT)
  let k := { k with uxPriority := Function.update k.uxPriority pxNewTCB p }
  let k ← k.vListInitialiseItem (.state pxNewTCB)
  let k ← k.vListInitialiseItem (.event pxNewTCB)
  let k := k.listSET_LIST_ITEM_VALUE (.event pxNewTCB) (eventItemValue p)
  some
    { k with
      ulNotifiedValue := Function.update k.ulNotifiedValue pxNewTCB 0
      ucNotifyState := Function.update k.ucNotifyState pxNewTCB .notWaiting
      ucDelayAborted := Function.update k.ucDelayAborted pxNewTCB false }

def prvInitialiseTaskLists (k : Scheduler τ ε) : Scheduler τ ε :=
  let k := (List.finRange configMAX_PRIORITIES).foldl (fun k p => k.vListInitialise (.ready p)) k
  let k := k.vListInitialise (.delayed false)
  let k := k.vListInitialise (.delayed true)
  let k := k.vListInitialise .pendingReady
  let k := k.vListInitialise .waitingTermination
  let k := k.vListInitialise .suspended
  { k with pxDelayedTaskList := false, pxOverflowDelayedTaskList := true }

def prvAddNewTaskToReadyList (k : Scheduler τ ε) (pxNewTCB : τ) : Option (Scheduler τ ε) := do
  let k := { k with uxCurrentNumberOfTasks := k.uxCurrentNumberOfTasks + 1 }
  let k :=
    match k.pxCurrentTCB with
    | none =>
      let k := { k with pxCurrentTCB := some pxNewTCB }
      if k.uxCurrentNumberOfTasks = 1 then k.prvInitialiseTaskLists else k
    | some current =>
      if ¬ k.xSchedulerRunning ∧ k.uxPriority current ≤ k.uxPriority pxNewTCB then
        { k with pxCurrentTCB := some pxNewTCB }
      else k
  let k ← k.prvAddTaskToReadyList pxNewTCB
  let current ← k.pxCurrentTCB
  some (if k.xSchedulerRunning ∧ k.uxPriority current < k.uxPriority pxNewTCB then
    k.portYIELD_WITHIN_API else k)

/-- `xTaskCreate` once the heap has given the control block. -/
def xTaskCreate (k : Scheduler τ ε) (pxNewTCB : τ) (uxPriority : BitVec 32) : Option (Scheduler τ ε) := do
  let k ← k.prvInitialiseNewTask pxNewTCB uxPriority
  k.prvAddNewTaskToReadyList pxNewTCB

/-- The idle task, of priority 0, is created first. -/
def vTaskStartScheduler (k : Scheduler τ ε) (idle : τ) : Option (Scheduler τ ε) := do
  let k ← k.xTaskCreate idle portPRIVILEGE_BIT
  some
    { k with
      xIdleTaskHandle := some idle
      xNextTaskUnblockTime := portMAX_DELAY
      xSchedulerRunning := true
      xTickCount := 0 }

def vTaskDelete (k : Scheduler τ ε) (t : τ) : Option (Scheduler τ ε) := do
  let (k, left) ← k.uxListRemove (.state t)
  let k := if left = 0 then k.taskRESET_READY_PRIORITY (k.uxPriority t) else k
  let k ← k.removeEventItem t
  if k.pxCurrentTCB = some t then do
    let k ← k.vListInsertEnd .waitingTermination (.state t)
    configASSERT (k.uxSchedulerSuspended = 0)
    some { k with uxDeletedTasksWaitingCleanUp := k.uxDeletedTasksWaitingCleanUp + 1 }.portYIELD_WITHIN_API
  else
    some { k with uxCurrentNumberOfTasks := k.uxCurrentNumberOfTasks - 1 }.prvResetNextTaskUnblockTime

/-- One pass of the loop of `prvCheckTasksWaitingTermination`, which the idle task runs. -/
def prvCheckTasksWaitingTermination (k : Scheduler τ ε) : Option (Scheduler τ ε) :=
  if k.uxDeletedTasksWaitingCleanUp > 0 then
    match k.lists.members .waitingTermination with
    | [] => some k
    | i :: _ => do
      let (k, _) ← k.uxListRemove (.state i.owner)
      some
        { k with
          uxCurrentNumberOfTasks := k.uxCurrentNumberOfTasks - 1
          uxDeletedTasksWaitingCleanUp := k.uxDeletedTasksWaitingCleanUp - 1 }
  else some k

/-- The value of the event item follows the priority, unless an event group uses it. -/
def followPriority (k : Scheduler τ ε) (t : τ) (uxNewPriority : Priority) : Scheduler τ ε :=
  if k.lists.value (.event t) &&& taskEVENT_LIST_ITEM_VALUE_IN_USE = 0 then
    k.listSET_LIST_ITEM_VALUE (.event t) (eventItemValue uxNewPriority)
  else k

/-- A task in the ready list of its old priority goes to that of its new one. -/
def moveToReadyList (k : Scheduler τ ε) (t : τ) (uxPriorityUsedOnEntry : Priority) : Option (Scheduler τ ε) :=
  if k.lists.container (.state t) = some (.ready uxPriorityUsedOnEntry) then do
    let (k, left) ← k.uxListRemove (.state t)
    let k := if left = 0 then k.portRESET_READY_PRIORITY uxPriorityUsedOnEntry else k
    k.prvAddTaskToReadyList t
  else some k

def vTaskPrioritySet (k : Scheduler τ ε) (t : τ) (uxNewPriority : BitVec 32) : Option (Scheduler τ ε) := do
  configASSERT (uxNewPriority.toNat < configMAX_PRIORITIES)
  let p := toPriority uxNewPriority
  let current ← k.pxCurrentTCB
  let uxCurrentBasePriority := k.uxPriority t
  if uxCurrentBasePriority ≠ p then do
    let xYieldRequired :=
      if uxCurrentBasePriority < p then decide (t ≠ current) && decide (k.uxPriority current ≤ p)
      else decide (t = current)
    let uxPriorityUsedOnEntry := k.uxPriority t
    let k := { k with uxPriority := Function.update k.uxPriority t p }
    let k ← (k.followPriority t p).moveToReadyList t uxPriorityUsedOnEntry
    some (if xYieldRequired then k.portYIELD_WITHIN_API else k)
  else some k

/-- `vTaskSuspend` while the scheduler runs. -/
def vTaskSuspend (k : Scheduler τ ε) (t : τ) : Option (Scheduler τ ε) := do
  let (k, left) ← k.uxListRemove (.state t)
  let k := if left = 0 then k.taskRESET_READY_PRIORITY (k.uxPriority t) else k
  let k ← k.removeEventItem t
  let k ← k.vListInsertEnd .suspended (.state t)
  let k := k.prvResetNextTaskUnblockTime
  if k.pxCurrentTCB = some t then do
    configASSERT (k.uxSchedulerSuspended = 0)
    some k.portYIELD_WITHIN_API
  else some k

def vTaskResume (k : Scheduler τ ε) (t : τ) : Option (Scheduler τ ε) := do
  let current ← k.pxCurrentTCB
  if t ≠ current ∧ k.prvTaskIsTaskSuspended t then do
    let (k, _) ← k.uxListRemove (.state t)
    let k ← k.prvAddTaskToReadyList t
    some (if k.uxPriority current ≤ k.uxPriority t then k.portYIELD_WITHIN_API else k)
  else some k

/-- With the `portYIELD_FROM_ISR` that the interrupt makes of the result. -/
def xTaskResumeFromISR (k : Scheduler τ ε) (t : τ) : Option (Scheduler τ ε) :=
  if k.prvTaskIsTaskSuspended t then
    if k.uxSchedulerSuspended = 0 then do
      let current ← k.pxCurrentTCB
      let xYieldRequired := decide (k.uxPriority current ≤ k.uxPriority t)
      let (k, _) ← k.uxListRemove (.state t)
      let k ← k.prvAddTaskToReadyList t
      some (if xYieldRequired then k.portYIELD_WITHIN_API else k)
    else k.vListInsertEnd .pendingReady (.event t)
  else some k

/-- What `xTaskAbortDelay` does between suspending and resuming the scheduler. -/
def abortDelay (k : Scheduler τ ε) (t : τ) : Option (Scheduler τ ε) :=
  if k.eTaskGetState t = .eBlocked then do
    let (k, _) ← k.uxListRemove (.state t)
    let k ←
      (if k.lists.container (.event t) ≠ none then do
        let (k, _) ← k.uxListRemove (.event t)
        some { k with ucDelayAborted := Function.update k.ucDelayAborted t true }
       else some k)
    let k ← k.prvAddTaskToReadyList t
    let current ← k.pxCurrentTCB
    some (if k.uxPriority current < k.uxPriority t then { k with xYieldPending := true } else k)
  else some k

end Scheduler

end Blinky.Kernel
