import Blinky.Kernel.Moves
import Blinky.Kernel.Select

/-!
# What holds between any two events

`Steady` joins to `Placed` what ties the lists to the rest of the scheduler: a task that
waits for an event is not ready, the counts are right, and unless a yield is pending or has
been requested no ready task is above the running one. `Timely` is about the delayed list.
`Sound` is both, and that nothing is set aside while the scheduler is not suspended.

An event moves one task, or a group of tasks that a loop makes ready. `Steady.move` is the
first case and `Steady.ready` the second; the theorems about the functions follow.
-/

namespace Blinky.Kernel
set_option autoImplicit false
open Blinky.Circular

namespace Scheduler

variable {τ ε : Type}

/-- The task waits: in a delayed list or in the suspended list. -/
def Waits (s : Lists (TaskItem τ) (KernelList ε)) (t : τ) : Prop :=
  (∃ d, s.container (.state t) = some (.delayed d)) ∨ s.container (.state t) = some .suspended

/-- `n` is how many tasks satisfy `p`. -/
def Counts (n : Nat) (p : τ → Prop) : Prop :=
  ∃ ts : List τ, ts.Nodup ∧ (∀ t, t ∈ ts ↔ p t) ∧ n = ts.length

structure Steady (k : Scheduler τ ε) : Prop where
  placed : k.Tidied
  overflow : k.pxOverflowDelayedTaskList = !k.pxDelayedTaskList
  waits : ∀ t l, k.lists.container (.event t) = some l → Waits k.lists t
  current : ∃ c, k.pxCurrentTCB = some c ∧ k.Exists c
  idle : k.xSchedulerRunning = true → ∃ i, k.xIdleTaskHandle = some i ∧ k.IsReady i
  tasks : Counts k.uxCurrentNumberOfTasks k.Exists
  deleted : Counts k.uxDeletedTasksWaitingCleanUp fun t =>
    k.lists.container (.state t) = some .waitingTermination
  preempted : k.yieldRequested = false → k.xYieldPending = false →
    ∀ c, k.pxCurrentTCB = some c → ∀ t, k.IsReady t → k.uxPriority t ≤ k.uxPriority c

/-- The tasks in the delayed list in use wake later than now, and no earlier than
`xNextTaskUnblockTime` says. -/
structure Timely (k : Scheduler τ ε) : Prop where
  future : ∀ t, k.lists.container (.state t) = some (.delayed k.pxDelayedTaskList) →
    k.xTickCount < k.lists.value (.state t)
  next : ∀ t, k.lists.container (.state t) = some (.delayed k.pxDelayedTaskList) →
    k.xNextTaskUnblockTime ≤ k.lists.value (.state t)

structure Sound (k : Scheduler τ ε) : Prop extends Steady k, Timely k where
  ticks : k.uxSchedulerSuspended = 0 → k.uxPendedTicks = 0
  aside : k.uxSchedulerSuspended = 0 → ∀ t, k.lists.container (.event t) ≠ some .pendingReady

/-- `Sound`, once the scheduler has been started. -/
structure Live (k : Scheduler τ ε) : Prop extends Sound k where
  running : k.xSchedulerRunning = true

/-- The ready lists of `k'` come of those of `k` by moves of the tasks touched and by the picks
that its log has in addition. -/
def Walked [DecidableEq τ] (k k' : Scheduler τ ε) (touched : τ → Prop) : Prop :=
  ∃ picks, k'.switchedIn = picks.reverse ++ k.switchedIn ∧ Walk touched picks k.lists k'.lists

/-- What an event that is not a tick leaves alone: the clock, and the place of every task
that it does not touch. -/
structure Frame [DecidableEq τ] (k k' : Scheduler τ ε) (touched : τ → Prop) : Prop where
  clock : k'.xTickCount = k.xTickCount
  pended : k'.uxPendedTicks = k.uxPendedTicks
  inUse : k'.pxDelayedTaskList = k.pxDelayedTaskList
  state : ∀ t, ¬ touched t → k'.lists.container (.state t) = k.lists.container (.state t)
  event : ∀ t, ¬ touched t → k'.lists.container (.event t) = k.lists.container (.event t)
  value : ∀ t, ¬ touched t → k'.lists.value (.state t) = k.lists.value (.state t)
  walked : k.Walked k' touched

/-- An event that puts nobody in a delayed list either. -/
structure Still [DecidableEq τ] (k k' : Scheduler τ ε) (touched : τ → Prop) : Prop extends Frame k k' touched where
  delayed : ∀ t d, k'.lists.container (.state t) = some (.delayed d) →
    k.lists.container (.state t) = some (.delayed d) ∧ k'.lists.value (.state t) = k.lists.value (.state t)

theorem Counts.congr {n : Nat} {p q : τ → Prop} (counts : Counts n p) (h : ∀ t, q t ↔ p t) : Counts n q := by
  obtain ⟨ts, nodup, mem, rfl⟩ := counts
  exact ⟨ts, nodup, fun t => (mem t).trans (h t).symm, rfl⟩

theorem Counts.pos {n : Nat} {p : τ → Prop} (counts : Counts n p) {t : τ} (h : p t) : 0 < n := by
  obtain ⟨ts, -, mem, rfl⟩ := counts
  exact List.length_pos_of_mem ((mem t).mpr h)

theorem Counts.add {n : Nat} {p q : τ → Prop} (counts : Counts n p) {t : τ} (fresh : ¬ p t)
    (h : ∀ u, q u ↔ u = t ∨ p u) : Counts (n + 1) q := by
  obtain ⟨ts, nodup, mem, rfl⟩ := counts
  refine ⟨t :: ts, List.nodup_cons.mpr ⟨fun h => fresh ((mem t).mp h), nodup⟩, ?_, rfl⟩
  intro u
  rw [List.mem_cons, mem, h]

theorem Counts.drop [DecidableEq τ] {n : Nat} {p q : τ → Prop} (counts : Counts n p) {t : τ} (had : p t)
    (h : ∀ u, q u ↔ u ≠ t ∧ p u) : Counts (n - 1) q := by
  obtain ⟨ts, nodup, mem, rfl⟩ := counts
  refine ⟨ts.erase t, nodup.erase t, ?_, ?_⟩
  · intro u
    rw [nodup.mem_erase_iff, mem, h]
  · rw [List.length_erase_of_mem ((mem t).mpr had)]

variable {k : Scheduler τ ε}

/-- A ready task waits for no event. -/
theorem Steady.event_of_ready (sound : k.Steady) {t : τ} (ready : k.IsReady t) :
    k.lists.container (.event t) = none := by
  by_contra some
  obtain ⟨l, hl⟩ := Option.ne_none_iff_exists'.mp some
  obtain ⟨d, waits⟩ | waits := sound.waits t l hl <;>
  · rw [IsReady, waits] at ready
    cases ready

theorem eq_false_of_keeps {before after : Bool} (keeps : before = true → after = true)
    (h : after = false) : before = false := by
  cases before with
  | false => rfl
  | true => simp [keeps rfl] at h

/-- The task moves, is deleted or is freed, and all others stay where they are. -/
theorem Steady.relocate (sound : k.Steady) {t : τ} {s' : Lists (TaskItem τ) (KernelList ε)} {top : BitVec 32}
    {pending requested : Bool} {tasks deleted : Nat} (placed : Placed s' k.uxPriority top)
    (others : ∀ u, u ≠ t → s'.container (.state u) = k.lists.container (.state u) ∧
      s'.container (.event u) = k.lists.container (.event u))
    (lives : k.pxCurrentTCB = some t → s'.container (.state t) ≠ none)
    (tasksCount : Counts tasks fun u => s'.container (.state u) ≠ none)
    (deletedCount : Counts deleted fun u => s'.container (.state u) = some .waitingTermination)
    (waits : ∀ l, s'.container (.event t) = some l → Waits s' t)
    (idle : k.xIdleTaskHandle = some t → s'.container (.state t) = some (.ready (k.uxPriority t)))
    (keepsPending : k.xYieldPending = true → pending = true)
    (keepsRequested : k.yieldRequested = true → requested = true)
    (asks : ∀ c, k.pxCurrentTCB = some c → s'.container (.state t) = some (.ready (k.uxPriority t)) →
      k.uxPriority t ≤ k.uxPriority c ∨ pending = true ∨ requested = true) :
    Steady
      { k with
        lists := s'
        uxTopReadyPriority := top
        xYieldPending := pending
        yieldRequested := requested
        uxCurrentNumberOfTasks := tasks
        uxDeletedTasksWaitingCleanUp := deleted } where
  placed := placed
  overflow := sound.overflow
  tasks := tasksCount
  deleted := deletedCount
  waits := by
    intro u l h
    by_cases hu : u = t
    · exact hu ▸ waits l (hu ▸ h)
    · dsimp only at h
      rw [(others u hu).2] at h
      have before := sound.waits u l h
      rwa [Waits, ← (others u hu).1] at before
  current := by
    obtain ⟨c, hc, exists'⟩ := sound.current
    refine ⟨c, hc, ?_⟩
    by_cases h : c = t
    · subst h
      exact lives hc
    · rw [Exists, (others c h).1]
      exact exists'
  idle := by
    intro running
    obtain ⟨i, hi, ready⟩ := sound.idle running
    refine ⟨i, hi, ?_⟩
    by_cases h : i = t
    · exact h ▸ idle (h ▸ hi)
    · rw [IsReady, (others i h).1]
      exact ready
  preempted := by
    intro noRequest noPending c hc u ready
    dsimp only at noRequest noPending hc ready ⊢
    by_cases hu : u = t
    · subst hu
      obtain le | asked | asked := asks c hc ready
      · exact le
      · simp [noPending] at asked
      · simp [noRequest] at asked
    · rw [IsReady, (others u hu).1] at ready
      exact sound.preempted (eq_false_of_keeps keepsRequested noRequest)
        (eq_false_of_keeps keepsPending noPending) c hc u ready

/-- The task moves, or its event item does, and all others stay where they are. -/
theorem Steady.move (sound : k.Steady) {t : τ} {s' : Lists (TaskItem τ) (KernelList ε)} {top : BitVec 32}
    {pending requested : Bool} (placed : Placed s' k.uxPriority top)
    (others : ∀ u, u ≠ t → s'.container (.state u) = k.lists.container (.state u) ∧
      s'.container (.event u) = k.lists.container (.event u))
    (existed : k.Exists t) (lives : s'.container (.state t) ≠ none)
    (termination : s'.container (.state t) = some .waitingTermination ↔
      k.lists.container (.state t) = some .waitingTermination)
    (waits : ∀ l, s'.container (.event t) = some l → Waits s' t)
    (idle : k.xIdleTaskHandle = some t → s'.container (.state t) = some (.ready (k.uxPriority t)))
    (keepsPending : k.xYieldPending = true → pending = true)
    (keepsRequested : k.yieldRequested = true → requested = true)
    (asks : ∀ c, k.pxCurrentTCB = some c → s'.container (.state t) = some (.ready (k.uxPriority t)) →
      k.uxPriority t ≤ k.uxPriority c ∨ pending = true ∨ requested = true) :
    Steady
      { k with
        lists := s'
        uxTopReadyPriority := top
        xYieldPending := pending
        yieldRequested := requested } := by
  refine sound.relocate placed others (fun _ => lives) ?_ ?_ waits idle keepsPending keepsRequested asks
  · refine sound.tasks.congr ?_
    intro u
    by_cases hu : u = t
    · subst hu
      exact iff_of_true lives existed
    · simp only [Exists, (others u hu).1]
  · refine sound.deleted.congr ?_
    intro u
    by_cases hu : u = t
    · subst hu
      exact termination
    · simp only [(others u hu).1]

/-- Tasks that wait are made ready, as a loop does, and all others stay where they are. -/
theorem Steady.ready (sound : k.Steady) (moved : τ → Prop) {s' : Lists (TaskItem τ) (KernelList ε)}
    {top : BitVec 32} {pending requested : Bool} (placed : Placed s' k.uxPriority top)
    (arrives : ∀ t, moved t → s'.container (.state t) = some (.ready (k.uxPriority t)) ∧
      s'.container (.event t) = none)
    (others : ∀ t, ¬ moved t → s'.container (.state t) = k.lists.container (.state t) ∧
      s'.container (.event t) = k.lists.container (.event t))
    (waited : ∀ t, moved t → Waits k.lists t)
    (keepsPending : k.xYieldPending = true → pending = true)
    (keepsRequested : k.yieldRequested = true → requested = true)
    (asks : ∀ c, k.pxCurrentTCB = some c → ∀ t, moved t →
      k.uxPriority t ≤ k.uxPriority c ∨ pending = true ∨ requested = true) :
    Steady
      { k with
        lists := s'
        uxTopReadyPriority := top
        xYieldPending := pending
        yieldRequested := requested } where
  placed := placed
  overflow := sound.overflow
  waits := by
    intro t l h
    have still : ¬ moved t := by
      intro m
      dsimp only at h
      rw [(arrives t m).2] at h
      cases h
    dsimp only at h
    rw [(others t still).2] at h
    have before := sound.waits t l h
    rwa [Waits, ← (others t still).1] at before
  current := by
    obtain ⟨c, hc, exists'⟩ := sound.current
    refine ⟨c, hc, ?_⟩
    by_cases m : moved c
    · simp [Exists, (arrives c m).1]
    · rw [Exists, (others c m).1]
      exact exists'
  idle := by
    intro running
    obtain ⟨i, hi, ready⟩ := sound.idle running
    refine ⟨i, hi, ?_⟩
    by_cases m : moved i
    · exact (arrives i m).1
    · rw [IsReady, (others i m).1]
      exact ready
  tasks := by
    refine sound.tasks.congr ?_
    intro t
    by_cases m : moved t
    · obtain ⟨d, h⟩ | h := waited t m <;> simp [Exists, (arrives t m).1, h]
    · simp only [Exists, (others t m).1]
  deleted := by
    refine sound.deleted.congr ?_
    intro t
    by_cases m : moved t
    · obtain ⟨d, h⟩ | h := waited t m <;> simp [(arrives t m).1, h]
    · simp only [(others t m).1]
  preempted := by
    intro noRequest noPending c hc t ready
    dsimp only at noRequest noPending hc ready ⊢
    by_cases m : moved t
    · obtain le | asked | asked := asks c hc t m
      · exact le
      · simp [noPending] at asked
      · simp [noRequest] at asked
    · rw [IsReady, (others t m).1] at ready
      exact sound.preempted (eq_false_of_keeps keepsRequested noRequest)
        (eq_false_of_keeps keepsPending noPending) c hc t ready

/-- What `Steady` does not read. -/
theorem Steady.unread (steady : k.Steady) {aborted : τ → Bool} {notified : τ → BitVec 32}
    {notify : τ → NotifyState} {tick next : TickType} {overflows : BitVec 32} {pended suspended : Nat}
    {log : List (Priority × τ)} :
    Steady
      { k with
        ucDelayAborted := aborted
        ulNotifiedValue := notified
        ucNotifyState := notify
        xTickCount := tick
        xNextTaskUnblockTime := next
        xNumOfOverflows := overflows
        uxPendedTicks := pended
        uxSchedulerSuspended := suspended
        switchedIn := log } :=
  ⟨steady.placed, steady.overflow, steady.waits, steady.current, steady.idle, steady.tasks, steady.deleted,
    steady.preempted⟩

/-- A yield may be pended or requested at any time. -/
theorem Steady.yield (steady : k.Steady) {pending requested : Bool}
    (keepsPending : k.xYieldPending = true → pending = true)
    (keepsRequested : k.yieldRequested = true → requested = true) :
    Steady { k with xYieldPending := pending, yieldRequested := requested } where
  placed := steady.placed
  overflow := steady.overflow
  waits := steady.waits
  current := steady.current
  idle := steady.idle
  tasks := steady.tasks
  deleted := steady.deleted
  preempted := by
    intro noRequest noPending
    exact steady.preempted (eq_false_of_keeps keepsRequested noRequest)
      (eq_false_of_keeps keepsPending noPending)

theorem Walked.mono [DecidableEq τ] {k' : Scheduler τ ε} {touched more : τ → Prop} (walked : k.Walked k' touched)
    (h : ∀ t, touched t → more t) : k.Walked k' more := by
  obtain ⟨picks, log, walk⟩ := walked
  exact ⟨picks, log, walk.mono h⟩

theorem Walked.trans [DecidableEq τ] {k₁ k' : Scheduler τ ε} {touched : τ → Prop} (first : k.Walked k₁ touched)
    (second : k₁.Walked k' touched) : k.Walked k' touched := by
  obtain ⟨picks, log, walk⟩ := first
  obtain ⟨picks', log', walk'⟩ := second
  refine ⟨picks ++ picks', ?_, walk.trans walk'⟩
  rw [log', log, List.reverse_append, List.append_assoc]

/-- Without a pick the lists alone say how the ready lists moved. -/
theorem Walked.of [DecidableEq τ] {k' : Scheduler τ ε} {touched : τ → Prop} {s' : Lists (TaskItem τ) (KernelList ε)}
    (walk : Walk touched [] k.lists s') (lists : k'.lists = s') (log : k'.switchedIn = k.switchedIn) :
    k.Walked k' touched := by
  subst lists
  exact ⟨[], log, walk⟩

theorem Still.mono [DecidableEq τ] {k' : Scheduler τ ε} {touched more : τ → Prop} (still : k.Still k' touched)
    (h : ∀ t, touched t → more t) : k.Still k' more where
  clock := still.clock
  pended := still.pended
  inUse := still.inUse
  state := fun t ht => still.state t fun m => ht (h t m)
  event := fun t ht => still.event t fun m => ht (h t m)
  value := fun t ht => still.value t fun m => ht (h t m)
  walked := still.walked.mono h
  delayed := still.delayed

/-- Touched tasks that end up in no delayed list. -/
theorem Frame.still [DecidableEq τ] {k' : Scheduler τ ε} {touched : τ → Prop} (frame : k.Frame k' touched)
    (away : ∀ t, touched t → ∀ d, k'.lists.container (.state t) ≠ some (.delayed d)) :
    k.Still k' touched where
  toFrame := frame
  delayed := by
    intro t d h
    have ht : ¬ touched t := fun m => away t m d h
    exact ⟨(frame.state t ht).symm.trans h, frame.value t ht⟩

theorem still_of_same [DecidableEq τ] {k' : Scheduler τ ε} (clock : k'.xTickCount = k.xTickCount)
    (pended : k'.uxPendedTicks = k.uxPendedTicks) (inUse : k'.pxDelayedTaskList = k.pxDelayedTaskList)
    (container : k'.lists.container = k.lists.container) (value : k'.lists.value = k.lists.value)
    (walked : k.Walked k' fun _ => False) : k.Still k' fun _ => False := by
  apply Frame.still
  · exact ⟨clock, pended, inUse, fun t _ => congrFun container _, fun t _ => congrFun container _,
      fun t _ => congrFun value _, walked⟩
  · intro t h
    cases h

/-- Nothing has moved. -/
theorem still_of_lists [DecidableEq τ] {k' : Scheduler τ ε} (clock : k'.xTickCount = k.xTickCount)
    (pended : k'.uxPendedTicks = k.uxPendedTicks) (inUse : k'.pxDelayedTaskList = k.pxDelayedTaskList)
    (lists : k'.lists = k.lists) (log : k'.switchedIn = k.switchedIn) : k.Still k' fun _ => False :=
  still_of_same clock pended inUse (congrArg _ lists) (congrArg _ lists)
    ⟨[], log, Walk.same fun _ => by rw [lists]⟩

/-- The delayed list stays in order with the clock where the next wake time does not change. -/
theorem Still.timely [DecidableEq τ] {k' : Scheduler τ ε} {touched : τ → Prop} (still : k.Still k' touched)
    (timely : k.Timely) (next : k'.xNextTaskUnblockTime = k.xNextTaskUnblockTime) : k'.Timely where
  future := by
    intro t h
    rw [still.inUse] at h
    obtain ⟨was, same⟩ := still.delayed t _ h
    rw [still.clock, same]
    exact timely.future t was
  next := by
    intro t h
    rw [still.inUse] at h
    obtain ⟨was, same⟩ := still.delayed t _ h
    rw [next, same]
    exact timely.next t was

/-- Where no task has become delayed and none that is has a new wake time, the delayed list
stays in order with the clock. -/
theorem Timely.fewer (timely : k.Timely) {s' : Lists (TaskItem τ) (KernelList ε)}
    (fewer : ∀ t, s'.container (.state t) = some (.delayed k.pxDelayedTaskList) →
      k.lists.container (.state t) = some (.delayed k.pxDelayedTaskList) ∧
        s'.value (.state t) = k.lists.value (.state t)) : Timely { k with lists := s' } where
  future := by
    intro t h
    obtain ⟨was, same⟩ := fewer t h
    dsimp only
    rw [same]
    exact timely.future t was
  next := by
    intro t h
    obtain ⟨was, same⟩ := fewer t h
    dsimp only
    rw [same]
    exact timely.next t was

/-- The wake time at the head of the delayed list, the latest time where it is empty. -/
def nextWake (k : Scheduler τ ε) : TickType :=
  match k.lists.members (.delayed k.pxDelayedTaskList) with
  | [] => portMAX_DELAY
  | i :: _ => k.lists.value (.state i.owner)

theorem prvResetNextTaskUnblockTime_eq (k : Scheduler τ ε) :
    k.prvResetNextTaskUnblockTime = { k with xNextTaskUnblockTime := k.nextWake } := by
  cases members : k.lists.members (.delayed k.pxDelayedTaskList) <;>
    simp only [prvResetNextTaskUnblockTime, nextWake, members]

/-- Nobody in the delayed list wakes before its head. -/
theorem nextWake_le (placed : k.Tidied) {t : τ}
    (h : k.lists.container (.state t) = some (.delayed k.pxDelayedTaskList)) :
    k.nextWake ≤ k.lists.value (.state t) := by
  have sorted := placed.sorted k.pxDelayedTaskList
  have mem := placed.tidy.mem_iff.mpr h
  rw [nextWake]
  cases members : k.lists.members (.delayed k.pxDelayedTaskList) with
  | nil =>
    rw [members] at mem
    cases mem
  | cons i rest =>
    obtain ⟨hi, -⟩ := placed.member_state (l := .delayed k.pxDelayedTaskList) id
      (by rw [members]; exact List.mem_cons_self)
    rw [members, List.mem_cons] at mem
    rw [members, List.pairwise_cons] at sorted
    dsimp only
    rw [← hi]
    obtain rfl | mem := mem
    · exact BitVec.le_refl _
    · exact sorted.1 _ mem

theorem Timely.reset (timely : k.Timely) (placed : k.Tidied) : k.prvResetNextTaskUnblockTime.Timely := by
  rw [prvResetNextTaskUnblockTime_eq]
  exact ⟨timely.future, fun t h => nextWake_le placed h⟩

variable [DecidableEq τ] [DecidableEq ε]

/-- A context switch leaves the highest ready task running, or a yield pending where the
scheduler is suspended. -/
theorem Steady.switchContext (steady : k.Steady) (running : k.xSchedulerRunning = true) :
    ∃ s' current log pending, k.vTaskSwitchContext =
        some { k with lists := s', pxCurrentTCB := current, switchedIn := log, xYieldPending := pending } ∧
      Steady { k with lists := s', pxCurrentTCB := current, switchedIn := log, xYieldPending := pending } ∧
      s'.container = k.lists.container ∧ s'.value = k.lists.value ∧
      ∃ picks, log = picks.reverse ++ k.switchedIn ∧ Walk (fun _ => False) picks k.lists s' := by
  rw [vTaskSwitchContext]
  by_cases suspended : k.uxSchedulerSuspended ≠ 0
  · rw [if_pos suspended]
    exact ⟨_, _, _, _, rfl, steady.yield (fun _ => rfl) id, rfl, rfl, [], rfl, Walk.same fun _ => rfl⟩
  · obtain ⟨i, hi, ready⟩ := steady.idle running
    obtain ⟨s', c, selected, placed, container, value, chosen, highest, walk⟩ :=
      taskSELECT_HIGHEST_PRIORITY_TASK_spec (k := { k with xYieldPending := false }) steady.placed ready
    rw [if_neg suspended, selected]
    refine ⟨s', _, _, _, rfl, ?_, container, value, [(k.uxPriority c, c)], rfl, walk⟩
    constructor
    case placed => exact placed
    case overflow => exact steady.overflow
    case waits =>
      intro t l h
      dsimp only at h ⊢
      rw [Waits, container] at *
      exact steady.waits t l h
    case current =>
      refine ⟨c, rfl, ?_⟩
      rw [Exists, container, chosen]
      simp
    case idle =>
      intro _
      refine ⟨i, hi, ?_⟩
      rw [IsReady, container]
      exact ready
    case tasks => exact steady.tasks.congr fun t => by simp only [Exists, container]
    case deleted =>
      simp only [container]
      exact steady.deleted
    case preempted =>
      intro _ _ c' hc t h
      obtain rfl : c = c' := Option.some.inj hc
      rw [IsReady, container] at h
      exact highest t h

theorem Live.switchContext (live : k.Live) :
    ∃ k', k.vTaskSwitchContext = some k' ∧ k'.Live ∧ k.Still k' fun _ => False := by
  obtain ⟨s', current, log, pending, switched, steady, container, value, walked⟩ :=
    live.toSteady.switchContext live.running
  refine ⟨_, switched, ⟨⟨steady, ?_, live.ticks, ?_⟩, live.running⟩,
    still_of_same rfl rfl rfl container value walked⟩
  · constructor
    · simpa only [container, value] using live.future
    · simpa only [container, value] using live.next
  · simpa only [container] using live.aside

end Scheduler

end Blinky.Kernel
