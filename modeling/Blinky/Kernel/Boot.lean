import Blinky.Kernel.Services

/-!
# Creating tasks and starting the scheduler

Three phases: nothing but event lists has been made (`Cold`), tasks have been created and
all of them are ready (`Booted`), the scheduler runs (`Live`). The first task created makes
the kernel's own lists.
-/

namespace Blinky.Kernel
set_option autoImplicit false
open Blinky.Circular

namespace Scheduler

variable {τ ε : Type}

/-- Before the first task. -/
structure Cold (k : Scheduler τ ε) : Prop where
  members : ∀ l, k.lists.members l = []
  container : ∀ i, k.lists.container i = none
  current : k.pxCurrentTCB = none
  stopped : k.xSchedulerRunning = false
  top : k.uxTopReadyPriority = 0
  pended : k.uxPendedTicks = 0
  awake : k.uxSchedulerSuspended = 0
  tasks : k.uxCurrentNumberOfTasks = 0
  deleted : k.uxDeletedTasksWaitingCleanUp = 0

/-- Between the first task and the start of the scheduler. -/
structure Booted (k : Scheduler τ ε) : Prop extends Sound k where
  stopped : k.xSchedulerRunning = false
  pended : k.uxPendedTicks = 0
  ready : ∀ t, k.Exists t → k.IsReady t

theorem Reset.cold {k : Scheduler τ ε} (reset : k.Reset) : k.Cold := by
  refine ⟨?_, reset.container, reset.pxCurrentTCB, reset.xSchedulerRunning, reset.uxTopReadyPriority,
    reset.uxPendedTicks, reset.uxSchedulerSuspended, reset.uxCurrentNumberOfTasks,
    reset.uxDeletedTasksWaitingCleanUp⟩
  intro l
  rw [Lists.members, reset.lists]

variable [DecidableEq τ] [DecidableEq ε] {k : Scheduler τ ε}

/-! ## Making lists -/

omit [DecidableEq τ] in
theorem initialise_members (s : Lists (TaskItem τ) (KernelList ε)) (l m : KernelList ε) :
    (s.initialise l).members m = if m = l then [] else s.members m := by
  by_cases h : m = l
  · subst h
    rw [if_pos rfl, Lists.members, Lists.initialise]
    simp only [Function.update_self]
    rfl
  · rw [if_neg h]
    simp only [Lists.members, Lists.initialise, Function.update_of_ne h]

omit [DecidableEq τ] in
/-- A list that has not been made has no members, and making it adds none. -/
theorem initialise_event {s : Lists (TaskItem τ) (KernelList ε)} {l : KernelList ε} (unmade : s.list l = none)
    (m : KernelList ε) : (s.initialise l).members m = s.members m := by
  rw [initialise_members]
  by_cases h : m = l
  · rw [if_pos h, h, Lists.members, unmade]
  · rw [if_neg h]

omit [DecidableEq τ] in
theorem placed_initialise {s : Lists (TaskItem τ) (KernelList ε)} {prio : τ → Priority} {top : BitVec 32}
    (placed : Placed s prio top) {l : KernelList ε} (unmade : s.list l = none) :
    Placed (s.initialise l) prio top where
  tidy := by
    have same := initialise_event unmade
    refine ⟨⟨?_, ?_⟩, ?_⟩
    · intro m
      rw [same]
      exact placed.tidy.valid.distinct m
    · intro m i h
      rw [same] at h
      exact placed.tidy.valid.contained m i h
    · intro i m h
      rw [same]
      exact placed.tidy.exact i m h
  made := by
    intro m hm
    by_cases h : m = l
    · subst h
      simp [Lists.initialise]
    · simp only [Lists.initialise, Function.update_of_ne h]
      exact placed.made m hm
  state := placed.state
  event := placed.event
  bitmap := placed.bitmap
  small := placed.small
  sorted := by
    intro d
    rw [initialise_event unmade]
    exact placed.sorted d

omit [DecidableEq τ] in
/-- The first loop of `prvInitialiseTaskLists`. -/
theorem initialiseReady (ps : List Priority) (k : Scheduler τ ε) :
    ∃ s', ps.foldl (fun k p => k.vListInitialise (.ready p)) k = { k with lists := s' } ∧
      s'.container = k.lists.container ∧ s'.value = k.lists.value ∧
      (∀ l, k.lists.members l = [] → s'.members l = []) ∧
      (∀ l, (k.lists.list l).isSome → (s'.list l).isSome) ∧ ∀ p ∈ ps, (s'.list (.ready p)).isSome := by
  induction ps generalizing k with
  | nil => exact ⟨k.lists, rfl, rfl, rfl, fun _ h => h, fun _ h => h, by simp⟩
  | cons p ps ih =>
    obtain ⟨s', run, container, value, members, made, here⟩ := ih (k.vListInitialise (.ready p))
    refine ⟨s', run, container, value, ?_, ?_, ?_⟩
    · intro l h
      apply members
      simp only [vListInitialise, initialise_members, h, ite_self]
    · intro l h
      apply made
      by_cases hl : l = .ready p
      · simp [vListInitialise, Lists.initialise, hl]
      · simpa only [vListInitialise, Lists.initialise, Function.update_of_ne hl] using h
    · intro q hq
      obtain rfl | hq := List.mem_cons.mp hq
      · apply made
        simp [vListInitialise, Lists.initialise]
      · exact here q hq

omit [DecidableEq τ] in
/-- Initialising one more list. -/
theorem initialise_isSome (s : Lists (TaskItem τ) (KernelList ε)) (l m : KernelList ε) :
    ((s.initialise l).list m).isSome = (decide (m = l) || (s.list m).isSome) := by
  by_cases h : m = l
  · simp [Lists.initialise, h]
  · simp [Lists.initialise, h]

omit [DecidableEq τ] in
theorem prvInitialiseTaskLists_spec (empty : ∀ l, k.lists.members l = []) :
    ∃ s', k.prvInitialiseTaskLists =
        { k with lists := s', pxDelayedTaskList := false, pxOverflowDelayedTaskList := true } ∧
      s'.container = k.lists.container ∧ s'.value = k.lists.value ∧ (∀ l, s'.members l = []) ∧
      ∀ l, l.isEvent = false → (s'.list l).isSome := by
  obtain ⟨s', run, container, value, members, -, here⟩ := initialiseReady (List.finRange configMAX_PRIORITIES) k
  let s := ((((s'.initialise (.delayed false)).initialise (.delayed true)).initialise .pendingReady).initialise
    .waitingTermination).initialise .suspended
  refine ⟨s, ?_, container, value, ?_, ?_⟩
  · rw [prvInitialiseTaskLists, run]
    rfl
  · intro l
    simp only [s, initialise_members, members l (empty l), ite_self]
  · intro l hl
    simp only [s, initialise_isSome, Bool.or_eq_true, decide_eq_true_eq]
    cases l with
    | ready p => simp [here p (List.mem_finRange p)]
    | delayed d => cases d <;> simp
    | event e => cases hl
    | _ => simp

/-! ## Creating tasks -/

omit [DecidableEq ε] in
/-- A task that is in no list is given its priority and its event item its value. -/
theorem prvInitialiseNewTask_spec (tidy : k.lists.Tidy) {t : τ} (v : BitVec 32)
    (free : k.lists.container (.state t) = none) (freeEvent : k.lists.container (.event t) = none) :
    ∃ p value notified notify aborted, k.prvInitialiseNewTask t v =
        some
          { k with
            uxPriority := Function.update k.uxPriority t p
            lists := k.lists.setValue (.event t) value
            ulNotifiedValue := notified
            ucNotifyState := notify
            ucDelayAborted := aborted } := by
  simp only [prvInitialiseNewTask, vListInitialiseItem, tidy.initialiseItem free, tidy.initialiseItem freeEvent,
    Option.map_some, Option.bind_eq_bind, Option.bind_some]
  exact ⟨_, _, _, _, _, rfl⟩

/-- The lists after `t`, that was in none, has become ready with priority `p`. -/
structure Enrolled (k : Scheduler τ ε) (t : τ) (p : Priority) (s' : Lists (TaskItem τ) (KernelList ε)) : Prop where
  state : s'.container (.state t) = some (.ready p)
  others : ∀ i, i ≠ .state t → s'.container i = k.lists.container i
  value : ∀ u, s'.value (.state u) = k.lists.value (.state u)
  walk : Walk (fun u => u = t) [] k.lists s'

/-- The new task becomes ready. -/
theorem Tidied.enrol (placed : k.Tidied) {t : τ} (p : Priority) (value : TickType)
    (free : k.lists.container (.state t) = none) :
    ∃ s' top,
      { k with
        uxPriority := Function.update k.uxPriority t p
        lists := k.lists.setValue (.event t) value }.prvAddTaskToReadyList t =
        some
          { k with
            uxPriority := Function.update k.uxPriority t p
            lists := s'
            uxTopReadyPriority := top } ∧
      Placed s' (Function.update k.uxPriority t p) top ∧ k.Enrolled t p s' := by
  have placed₁ : Placed (k.lists.setValue (.event t) value) (Function.update k.uxPriority t p)
      k.uxTopReadyPriority := by
    apply (placed.setEventValue t value).reprioritise
    intro u q h
    have other : u ≠ t := by
      rintro rfl
      rw [Lists.setValue_container, free] at h
      cases h
    exact Function.update_of_ne other _ _
  obtain ⟨s', added, placed', put, joined⟩ :=
    Tidied.addReady
      (k := { k with
        uxPriority := Function.update k.uxPriority t p
        lists := k.lists.setValue (.event t) value }) placed₁ free
  refine ⟨s', _, added, placed', ?_, ?_, ?_, (Walk.same fun _ => rfl).trans joined⟩
  · rw [put.container, Function.update_self]
    simp
  · intro i hi
    rw [put.container, Function.update_of_ne hi]
    rfl
  · intro u
    rw [put.value]
    exact Lists.setValue_value_of_ne (by simp) _

omit [DecidableEq ε] in
theorem Enrolled.still {t : τ} {p : Priority} {s' : Lists (TaskItem τ) (KernelList ε)} (enrolled : k.Enrolled t p s')
    {k' : Scheduler τ ε} (lists : k'.lists = s') (clock : k'.xTickCount = k.xTickCount)
    (pended : k'.uxPendedTicks = k.uxPendedTicks) (inUse : k'.pxDelayedTaskList = k.pxDelayedTaskList)
    (log : k'.switchedIn = k.switchedIn) : k.Still k' fun u => u = t := by
  have walked : k.Walked k' fun u => u = t := Walked.of enrolled.walk lists log
  subst lists
  apply Frame.still
  · exact ⟨clock, pended, inUse, fun u hu => enrolled.others _ (by simpa using hu),
      fun u _ => enrolled.others _ (by simp), fun u _ => enrolled.value u, walked⟩
  · rintro u rfl d h
    rw [enrolled.state] at h
    cases h

omit [DecidableEq ε] in
/-- A task more, ready. Before the scheduler starts the new task is the running one if it is not
below it; afterwards it asks for a yield if it is above it. -/
theorem Steady.enrol (steady : k.Steady) {t c c' : τ} {p : Priority} {s' : Lists (TaskItem τ) (KernelList ε)}
    {top : BitVec 32} {requested : Bool} (fresh : ¬ k.Exists t)
    (placed : Placed s' (Function.update k.uxPriority t p) top) (enrolled : k.Enrolled t p s')
    (freeEvent : k.lists.container (.event t) = none) (running : k.pxCurrentTCB = some c)
    (keepsRequested : k.yieldRequested = true → requested = true)
    (chosen : c' = t ∧ k.uxPriority c ≤ p ∨ c' = c ∧ (p ≤ k.uxPriority c ∨ requested = true)) :
    Steady
      { k with
        uxPriority := Function.update k.uxPriority t p
        lists := s'
        uxTopReadyPriority := top
        pxCurrentTCB := some c'
        yieldRequested := requested
        uxCurrentNumberOfTasks := k.uxCurrentNumberOfTasks + 1 } := by
  have prioOther : ∀ u, u ≠ t → Function.update k.uxPriority t p u = k.uxPriority u :=
    fun u hu => Function.update_of_ne hu _ _
  have same : ∀ u, u ≠ t → s'.container (.state u) = k.lists.container (.state u) :=
    fun u hu => enrolled.others _ (by simpa using hu)
  have event : ∀ u, s'.container (.event u) = k.lists.container (.event u) :=
    fun u => enrolled.others _ (by simp)
  have free : k.lists.container (.state t) = none := not_not.mp fresh
  have old : c ≠ t := by
    rintro rfl
    obtain ⟨d, hd, exists'⟩ := steady.current
    obtain rfl : c = d := Option.some.inj (running.symm.trans hd)
    exact fresh exists'
  constructor
  case placed => exact placed
  case overflow => exact steady.overflow
  case waits =>
    intro u l h
    dsimp only at h
    rw [event] at h
    by_cases hu : u = t
    · rw [hu, freeEvent] at h
      cases h
    · rw [Waits, same u hu]
      exact steady.waits u l h
  case current =>
    refine ⟨c', rfl, ?_⟩
    obtain ⟨rfl, -⟩ | ⟨rfl, -⟩ := chosen
    · exact enrolled.state.trans_ne (by simp)
    · obtain ⟨d, hd, exists'⟩ := steady.current
      obtain rfl : c' = d := Option.some.inj (running.symm.trans hd)
      rw [Exists, same c' old]
      exact exists'
  case idle =>
    intro started
    obtain ⟨i, hi, ready⟩ := steady.idle started
    have other : i ≠ t := by
      rintro rfl
      rw [IsReady, free] at ready
      cases ready
    refine ⟨i, hi, ?_⟩
    simp only [IsReady, same i other, prioOther i other]
    exact ready
  case tasks =>
    apply steady.tasks.add fresh
    intro u
    by_cases hu : u = t
    · subst hu
      exact iff_of_true (enrolled.state.trans_ne (by simp)) (Or.inl rfl)
    · simp [Exists, same u hu, hu]
  case deleted =>
    apply steady.deleted.congr
    intro u
    by_cases hu : u = t
    · subst hu
      refine iff_of_false (enrolled.state.trans_ne (by simp)) ?_
      rw [free]
      simp
    · rw [same u hu]
  case preempted =>
    intro noRequest noPending d hd u ready
    dsimp only at noRequest noPending hd ready ⊢
    obtain rfl : c' = d := Option.some.inj hd
    have before : ∀ w, w ≠ t → s'.container (.state w) = some (.ready (k.uxPriority w)) →
        k.uxPriority w ≤ k.uxPriority c := by
      intro w hw h
      rw [same w hw] at h
      exact steady.preempted (eq_false_of_keeps keepsRequested noRequest) noPending c running w h
    obtain ⟨rfl, above⟩ | ⟨rfl, below⟩ := chosen
    · rw [Function.update_self]
      by_cases hu : u = c'
      · exact Nat.le_of_eq (by rw [hu, Function.update_self])
      · simp only [IsReady, prioOther u hu] at ready ⊢
        exact Fin.le_trans (before u hu ready) above
    · rw [prioOther c' old]
      by_cases hu : u = t
      · rw [hu, Function.update_self]
        obtain below | asked := below
        · exact below
        · rw [noRequest] at asked
          cases asked
      · simp only [IsReady, prioOther u hu] at ready ⊢
        exact before u hu ready

/-- `prvAddNewTaskToReadyList` when there is a task already. -/
theorem prvAddNewTaskToReadyList_eq (k : Scheduler τ ε) {t c : τ} (running : k.pxCurrentTCB = some c) :
    k.prvAddNewTaskToReadyList t =
      ({ k with
        uxCurrentNumberOfTasks := k.uxCurrentNumberOfTasks + 1
        pxCurrentTCB :=
          some (if ¬ k.xSchedulerRunning ∧ k.uxPriority c ≤ k.uxPriority t then t else c) }.prvAddTaskToReadyList
        t).bind fun k => k.pxCurrentTCB.bind fun current =>
          some (if k.xSchedulerRunning ∧ k.uxPriority current < k.uxPriority t then k.portYIELD_WITHIN_API
            else k) := by
  obtain ⟨⟩ := k
  dsimp only at running
  subst running
  simp only [prvAddNewTaskToReadyList]
  split <;> rfl

/-- Another task is created: it is ready, and the scheduler stays steady. -/
theorem Steady.create (steady : k.Steady) {t : τ} (v : BitVec 32) (fresh : ¬ k.Exists t)
    (freeEvent : k.lists.container (.event t) = none) :
    ∃ k' p, k.xTaskCreate t v = some k' ∧ k'.Steady ∧ k.Enrolled t p k'.lists ∧
      k'.uxPriority = Function.update k.uxPriority t p ∧ k'.xTickCount = k.xTickCount ∧
      k'.xNextTaskUnblockTime = k.xNextTaskUnblockTime ∧ k'.uxPendedTicks = k.uxPendedTicks ∧
      k'.pxDelayedTaskList = k.pxDelayedTaskList ∧ k'.uxSchedulerSuspended = k.uxSchedulerSuspended ∧
      k'.xSchedulerRunning = k.xSchedulerRunning ∧ k'.switchedIn = k.switchedIn := by
  have free : k.lists.container (.state t) = none := not_not.mp fresh
  obtain ⟨c, running, exists'⟩ := steady.current
  have old : c ≠ t := by
    rintro rfl
    exact fresh exists'
  obtain ⟨p, value, notified, notify, aborted, initialised⟩ :=
    prvInitialiseNewTask_spec steady.placed.tidy v free freeEvent
  let prio := Function.update k.uxPriority t p
  have prioNew : prio t = p := Function.update_self ..
  have prioOld : prio c = k.uxPriority c := Function.update_of_ne old ..
  let c' := if ¬ k.xSchedulerRunning ∧ prio c ≤ prio t then t else c
  let k₁ : Scheduler τ ε :=
    { k with
      ulNotifiedValue := notified
      ucNotifyState := notify
      ucDelayAborted := aborted
      uxCurrentNumberOfTasks := k.uxCurrentNumberOfTasks + 1
      pxCurrentTCB := some c' }
  obtain ⟨s', top, added, placed', enrolled⟩ := Tidied.enrol (k := k₁) steady.placed p value free
  have enrolled' : k.Enrolled t p s' := ⟨enrolled.state, enrolled.others, enrolled.value, enrolled.walk⟩
  let asks := decide (k.xSchedulerRunning ∧ prio c' < prio t)
  have chosen : c' = t ∧ k.uxPriority c ≤ p ∨
      c' = c ∧ (p ≤ k.uxPriority c ∨ (asks || k.yieldRequested) = true) := by
    rw [← prioNew, ← prioOld]
    by_cases first : ¬ k.xSchedulerRunning ∧ prio c ≤ prio t
    · exact Or.inl ⟨if_pos first, first.2⟩
    · have current : c' = c := if_neg first
      refine Or.inr ⟨current, ?_⟩
      by_cases below : prio t ≤ prio c
      · exact Or.inl below
      · have above := Fin.not_le.mp below
        have started : k.xSchedulerRunning = true := by
          by_contra stopped
          exact first ⟨stopped, Fin.le_of_lt above⟩
        exact Or.inr (by simp [asks, current, started, above])
  let k' : Scheduler τ ε :=
    { k₁ with
      uxPriority := prio
      lists := s'
      uxTopReadyPriority := top
      yieldRequested := asks || k.yieldRequested }
  have steady' : k'.Steady :=
    (steady.enrol fresh placed' enrolled' freeEvent running (fun h => by rw [h, Bool.or_true]) chosen).unread
  refine ⟨k', p, ?_, steady', enrolled', rfl, rfl, rfl, rfl, rfl, rfl, rfl, rfl⟩
  let k₀ : Scheduler τ ε :=
    { k with
      uxPriority := prio
      lists := k.lists.setValue (.event t) value
      ulNotifiedValue := notified
      ucNotifyState := notify
      ucDelayAborted := aborted }
  have initialised' : k.prvInitialiseNewTask t v = some k₀ := initialised
  rw [xTaskCreate, initialised', Option.bind_eq_bind, Option.bind_some, prvAddNewTaskToReadyList_eq k₀ running]
  refine (congrArg (Option.bind · _) added).trans ?_
  have yields := portYIELD_if { k₁ with uxPriority := prio, lists := s', uxTopReadyPriority := top }
    (k.xSchedulerRunning ∧ prio c' < prio t)
  exact congrArg some yields

omit [DecidableEq ε] in
/-- What a new task leaves alone. -/
theorem Enrolled.sound {t : τ} {p : Priority} {k' : Scheduler τ ε} (sound : k.Sound)
    (enrolled : k.Enrolled t p k'.lists) (steady : k'.Steady) (clock : k'.xTickCount = k.xTickCount)
    (next : k'.xNextTaskUnblockTime = k.xNextTaskUnblockTime) (pended : k'.uxPendedTicks = k.uxPendedTicks)
    (inUse : k'.pxDelayedTaskList = k.pxDelayedTaskList)
    (suspended : k'.uxSchedulerSuspended = k.uxSchedulerSuspended) (log : k'.switchedIn = k.switchedIn) :
    k'.Sound := by
  have still := enrolled.still rfl clock pended inUse log
  refine ⟨steady, still.timely sound.toTimely next, ?_, ?_⟩
  · rw [suspended, pended]
    exact sound.ticks
  · intro awake u
    rw [suspended] at awake
    rw [enrolled.others _ (by simp)]
    exact sound.aside awake u

theorem Live.create (live : k.Live) {t : τ} (v : BitVec 32) (fresh : ¬ k.Exists t)
    (freeEvent : k.lists.container (.event t) = none) :
    ∃ k', k.xTaskCreate t v = some k' ∧ k'.Live ∧ k.Still k' fun u => u = t := by
  obtain ⟨k', p, created, steady, enrolled, -, clock, next, pended, inUse, suspended, running, log⟩ :=
    live.toSteady.create v fresh freeEvent
  have sound := Enrolled.sound live.toSound enrolled steady clock next pended inUse suspended log
  exact ⟨k', created, ⟨sound, running.trans live.running⟩, enrolled.still rfl clock pended inUse log⟩

theorem Booted.create (booted : k.Booted) {t : τ} (v : BitVec 32) (fresh : ¬ k.Exists t)
    (freeEvent : k.lists.container (.event t) = none) :
    ∃ k', k.xTaskCreate t v = some k' ∧ k'.Booted ∧ k'.IsReady t := by
  obtain ⟨k', p, created, steady, enrolled, prio, clock, next, pended, inUse, suspended, running, log⟩ :=
    booted.toSteady.create v fresh freeEvent
  have sound := Enrolled.sound booted.toSound enrolled steady clock next pended inUse suspended log
  have ready : k'.IsReady t := by
    rw [IsReady, prio, Function.update_self]
    exact enrolled.state
  refine ⟨k', created, ⟨sound, running.trans booted.stopped, pended.trans booted.pended, ?_⟩, ready⟩
  intro u exists'
  by_cases hu : u = t
  · exact hu ▸ ready
  · rw [Exists, enrolled.others _ (by simpa using hu)] at exists'
    rw [IsReady, prio, Function.update_of_ne hu, enrolled.others _ (by simpa using hu)]
    exact booted.ready u exists'

/-! ## The first task -/

omit [DecidableEq τ] [DecidableEq ε] in
theorem tidy_empty {s : Lists (TaskItem τ) (KernelList ε)} (container : ∀ i, s.container i = none)
    (members : ∀ l, s.members l = []) : s.Tidy := by
  refine ⟨⟨?_, ?_⟩, ?_⟩
  · intro l
    rw [members]
    exact List.nodup_nil
  · intro l i h
    rw [members] at h
    cases h
  · intro i l h
    rw [container] at h
    cases h

omit [DecidableEq τ] [DecidableEq ε] in
/-- With no task anywhere the bitmap is empty. -/
theorem placed_empty {s : Lists (TaskItem τ) (KernelList ε)} {prio : τ → Priority}
    (container : ∀ i, s.container i = none) (members : ∀ l, s.members l = [])
    (made : ∀ l, l.isEvent = false → (s.list l).isSome) : Placed s prio 0 where
  tidy := tidy_empty container members
  made := made
  state := by
    intro t l h
    rw [container] at h
    cases h
  event := by
    intro t l h
    rw [container] at h
    cases h
  bitmap := by
    intro p
    simp [container]
  small := by
    intro j _
    exact BitVec.getLsbD_zero
  sorted := by
    intro d
    rw [members]
    exact List.Pairwise.nil

/-- `prvAddNewTaskToReadyList` for the first task. -/
theorem prvAddNewTaskToReadyList_first (k : Scheduler τ ε) {t : τ} (first : k.pxCurrentTCB = none)
    (zero : k.uxCurrentNumberOfTasks = 0) :
    k.prvAddNewTaskToReadyList t =
      ({ k with uxCurrentNumberOfTasks := 1, pxCurrentTCB := some t }.prvInitialiseTaskLists.prvAddTaskToReadyList
        t).bind fun k => k.pxCurrentTCB.bind fun current =>
          some (if k.xSchedulerRunning ∧ k.uxPriority current < k.uxPriority t then k.portYIELD_WITHIN_API
            else k) := by
  obtain ⟨⟩ := k
  dsimp only at first zero
  subst first zero
  rfl

theorem Cold.create (cold : k.Cold) (t : τ) (v : BitVec 32) :
    ∃ k', k.xTaskCreate t v = some k' ∧ k'.Booted ∧ k'.IsReady t := by
  obtain ⟨p, value, notified, notify, aborted, initialised⟩ :=
    prvInitialiseNewTask_spec (tidy_empty cold.container cold.members) v (cold.container (.state t))
      (cold.container (.event t))
  let prio := Function.update k.uxPriority t p
  let k₀ : Scheduler τ ε :=
    { k with
      uxPriority := prio
      lists := k.lists.setValue (.event t) value
      ulNotifiedValue := notified
      ucNotifyState := notify
      ucDelayAborted := aborted }
  let k₁ : Scheduler τ ε := { k₀ with uxCurrentNumberOfTasks := 1, pxCurrentTCB := some t }
  obtain ⟨s₂, made, container, -, members, kernelLists⟩ := prvInitialiseTaskLists_spec (k := k₁) cold.members
  let k₂ : Scheduler τ ε := { k₁ with lists := s₂, pxDelayedTaskList := false, pxOverflowDelayedTaskList := true }
  have nowhere : ∀ i, s₂.container i = none := fun i => (congrFun container i).trans (cold.container i)
  have placed₂ : k₂.Tidied := by
    rw [Tidied, show k₂.uxTopReadyPriority = 0 from cold.top]
    exact placed_empty nowhere members kernelLists
  obtain ⟨s₃, added, placed₃, put, -⟩ := Tidied.addReady (k := k₂) placed₂ (nowhere (.state t))
  let k' : Scheduler τ ε := { k₂ with lists := s₃, uxTopReadyPriority := recordTop k.uxTopReadyPriority (prio t) }
  have ready : s₃.container (.state t) = some (.ready (prio t)) := by rw [put.container, Function.update_self]
  have none : ∀ i, i ≠ .state t → s₃.container i = none := by
    intro i hi
    rw [put.container, Function.update_of_ne hi]
    exact nowhere i
  have only : ∀ u l, s₃.container (.state u) = some l → u = t := by
    intro u l h
    by_contra hu
    rw [none _ (by simpa using hu)] at h
    cases h
  have steady : k'.Steady := by
    constructor
    case placed => exact placed₃
    case overflow => rfl
    case waits =>
      intro u l h
      rw [show k'.lists.container (.event u) = _ from none _ (by simp)] at h
      cases h
    case current => exact ⟨t, rfl, ready.trans_ne (by simp)⟩
    case idle =>
      intro running
      rw [show k'.xSchedulerRunning = false from cold.stopped] at running
      cases running
    case tasks =>
      refine ⟨[t], List.nodup_singleton t, ?_, rfl⟩
      intro u
      rw [List.mem_singleton]
      constructor
      · rintro rfl
        exact ready.trans_ne (by simp)
      · intro exists'
        obtain ⟨l, hl⟩ := Option.ne_none_iff_exists'.mp exists'
        exact only u l hl
    case deleted =>
      refine ⟨[], List.nodup_nil, ?_, cold.deleted⟩
      intro u
      refine iff_of_false (by simp) ?_
      intro h
      obtain rfl := only u _ h
      cases ready.symm.trans h
    case preempted =>
      intro _ _ c hc u h
      obtain rfl : t = c := Option.some.inj hc
      obtain rfl := only u _ h
      exact Nat.le_refl _
  have noDelayed : ∀ u d, s₃.container (.state u) ≠ some (.delayed d) := by
    intro u d h
    obtain rfl := only u _ h
    cases ready.symm.trans h
  refine ⟨k', ?_, ⟨⟨steady, ⟨?_, ?_⟩, fun _ => cold.pended, ?_⟩, cold.stopped, cold.pended, ?_⟩, ready⟩
  · have initialised' : k.prvInitialiseNewTask t v = some k₀ := initialised
    rw [xTaskCreate, initialised', Option.bind_eq_bind, Option.bind_some,
      prvAddNewTaskToReadyList_first k₀ cold.current cold.tasks, made]
    refine (congrArg (Option.bind · _) added).trans ?_
    exact congrArg some (if_neg fun h => Bool.false_ne_true (Eq.trans (Eq.symm cold.stopped) h.1))
  · exact fun u h => absurd h (noDelayed u _)
  · exact fun u h => absurd h (noDelayed u _)
  · intro _ u h
    rw [show k'.lists.container (.event u) = _ from none _ (by simp)] at h
    cases h
  · intro u exists'
    obtain ⟨l, hl⟩ := Option.ne_none_iff_exists'.mp exists'
    obtain rfl := only u l hl
    exact ready

/-! ## Starting the scheduler -/

omit [DecidableEq τ] [DecidableEq ε] in
theorem Booted.notDelayed (booted : k.Booted) (t : τ) (d : Bool) :
    k.lists.container (.state t) ≠ some (.delayed d) := by
  intro h
  have isReady := booted.ready t (by simp [Exists, h])
  rw [IsReady, h] at isReady
  cases isReady

omit [DecidableEq τ] [DecidableEq ε] in
/-- With the idle task made, the scheduler may start: no task is delayed yet. -/
theorem Booted.start (booted : k.Booted) {idle : τ} (ready : k.IsReady idle) :
    Live
      { k with
        xIdleTaskHandle := some idle
        xNextTaskUnblockTime := portMAX_DELAY
        xSchedulerRunning := true
        xTickCount := 0 } := by
  refine ⟨⟨?_, ⟨?_, ?_⟩, booted.ticks, booted.aside⟩, rfl⟩
  · exact ⟨booted.placed, booted.overflow, booted.waits, booted.current, fun _ => ⟨idle, rfl, ready⟩,
      booted.tasks, booted.deleted, booted.preempted⟩
  · exact fun u h => absurd h (booted.notDelayed u _)
  · exact fun u h => absurd h (booted.notDelayed u _)

theorem vTaskStartScheduler_spec {k' : Scheduler τ ε} {idle : τ}
    (created : k.xTaskCreate idle portPRIVILEGE_BIT = some k') (booted : k'.Booted) (ready : k'.IsReady idle) :
    ∃ k'', k.vTaskStartScheduler idle = some k'' ∧ k''.Live ∧ k''.xTickCount = 0 ∧ k''.uxPendedTicks = 0 ∧
      ∀ t d, k''.lists.container (.state t) ≠ some (.delayed d) := by
  refine ⟨_, ?_, booted.start ready, rfl, booted.pended, fun u d => booted.notDelayed u d⟩
  rw [vTaskStartScheduler, created]
  rfl

/-! ## The events that may come in any phase -/

omit [DecidableEq τ] in
theorem Cold.createEventList (cold : k.Cold) {e : ε} (unmade : k.lists.list (.event e) = none) :
    (k.vListInitialise (.event e)).Cold := by
  refine ⟨?_, cold.container, cold.current, cold.stopped, cold.top, cold.pended, cold.awake, cold.tasks,
    cold.deleted⟩
  intro l
  exact (initialise_event unmade l).trans (cold.members l)

omit [DecidableEq τ] in
theorem Sound.createEventList (sound : k.Sound) {e : ε} (unmade : k.lists.list (.event e) = none) :
    (k.vListInitialise (.event e)).Sound :=
  ⟨⟨placed_initialise sound.placed unmade, sound.overflow, sound.waits, sound.current, sound.idle, sound.tasks,
    sound.deleted, sound.preempted⟩, ⟨sound.future, sound.next⟩, sound.ticks, sound.aside⟩

end Scheduler

end Blinky.Kernel
