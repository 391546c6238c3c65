import Blinky.Kernel.Blocking

/-!
# Task services

Suspending, resuming, deleting and freeing tasks, and changing their priorities. Each
service leaves the scheduler `Live` and touches the one task it is about.
-/

namespace Blinky.Kernel
set_option autoImplicit false
open Blinky.Circular

namespace Scheduler

variable {τ ε : Type} [DecidableEq τ] [DecidableEq ε] {k : Scheduler τ ε}

/-! ## Suspending and deleting -/

/-- `s'` has both items of `t` in no list, and everything else where `k` has it. -/
structure Withdrawn (k : Scheduler τ ε) (t : τ) (s' : Lists (TaskItem τ) (KernelList ε)) : Prop where
  state : s'.container (.state t) = none
  event : s'.container (.event t) = none
  others : ∀ i, i ≠ .state t → i ≠ .event t → s'.container i = k.lists.container i
  value : s'.value = k.lists.value
  walk : Walk (fun u => u = t) [] k.lists s'

/-- What `vTaskSuspend` and `vTaskDelete` do first. -/
theorem Tidied.withdraw (placed : k.Tidied) {t : τ} (exists' : k.Exists t) :
    ∃ s₁ n s₂ top, k.uxListRemove (.state t) = some ({ k with lists := s₁ }, n) ∧
      (if n = 0 then { k with lists := s₁ }.taskRESET_READY_PRIORITY (k.uxPriority t)
        else { k with lists := s₁ }) = { k with lists := s₁, uxTopReadyPriority := top } ∧
      { k with lists := s₁, uxTopReadyPriority := top }.removeEventItem t =
        some { k with lists := s₂, uxTopReadyPriority := top } ∧
      Placed s₂ k.uxPriority top ∧ Withdrawn k t s₂ := by
  obtain ⟨l, home⟩ := Option.ne_none_iff_exists'.mp exists'
  obtain ⟨s₁, removed, placed₁, taken⟩ := placed.removeState home
  let top := Placed.topAfter k.uxTopReadyPriority (s₁.members l).length l
  obtain ⟨s₂, unlinked, placed₂, container, value, readyLists⟩ :=
    Tidied.removeEventItem (k := { k with lists := s₁, uxTopReadyPriority := top }) placed₁ t
  refine ⟨s₁, _, s₂, top, removed, placed.reset home placed₁, unlinked, placed₂, ?_, ?_, ?_, ?_, ?_⟩
  · rw [container, Function.update_of_ne (by simp), taken.container, Function.update_self]
  · rw [container, Function.update_self]
  · intro i notState notEvent
    rw [container, Function.update_of_ne notEvent, taken.container, Function.update_of_ne notState]
  · exact value.trans taken.value
  · exact (Walk.taken taken).trans (Walk.same fun p => readyLists (.ready p) id)

/-- The free state item of `t` goes to the end of `l`, and a task withdrawn is there then. -/
structure Filed (k : Scheduler τ ε) (t : τ) (l : KernelList ε) (s' : Lists (TaskItem τ) (KernelList ε)) : Prop where
  state : s'.container (.state t) = some l
  event : s'.container (.event t) = none
  others : ∀ u, u ≠ t → s'.container (.state u) = k.lists.container (.state u) ∧
    s'.container (.event u) = k.lists.container (.event u)
  value : s'.value = k.lists.value
  walk : Walk (fun u => u = t) [] k.lists s'

omit [DecidableEq ε] in
theorem Withdrawn.file {t : τ} {l : KernelList ε} {s₂ s₃ : Lists (TaskItem τ) (KernelList ε)}
    (withdrawn : k.Withdrawn t s₂) (put : Lists.Put s₂ s₃ l (.state t)) (notReady : ∀ p, l ≠ .ready p) :
    k.Filed t l s₃ where
  state := by rw [put.container, Function.update_self]
  event := by
    rw [put.container, Function.update_of_ne (by simp)]
    exact withdrawn.event
  others := by
    intro u hu
    rw [put.container, Function.update_of_ne (by simpa using hu), Function.update_of_ne (by simp)]
    exact ⟨withdrawn.others _ (by simpa using hu) (by simp), withdrawn.others _ (by simp) (by simpa using hu)⟩
  value := put.value.trans withdrawn.value
  walk := withdrawn.walk.trans (Walk.putOther put notReady)

omit [DecidableEq ε] in
/-- Nothing in a scheduler that `Still` reads changes with the counts. -/
theorem Filed.still {t : τ} {l : KernelList ε} {s' : Lists (TaskItem τ) (KernelList ε)} (filed : k.Filed t l s')
    (notDelayed : ∀ d, l ≠ .delayed d) {k' : Scheduler τ ε} (lists : k'.lists = s')
    (clock : k'.xTickCount = k.xTickCount) (pended : k'.uxPendedTicks = k.uxPendedTicks)
    (inUse : k'.pxDelayedTaskList = k.pxDelayedTaskList) (log : k'.switchedIn = k.switchedIn) :
    k.Still k' fun u => u = t := by
  have walked : k.Walked k' fun u => u = t := Walked.of filed.walk lists log
  subst lists
  apply Frame.still
  · exact ⟨clock, pended, inUse, fun u hu => (filed.others u hu).1, fun u hu => (filed.others u hu).2,
      fun u _ => congrFun filed.value _, walked⟩
  · rintro u rfl d h
    rw [filed.state] at h
    exact notDelayed d (Option.some.inj h)

omit [DecidableEq ε] in
theorem Filed.aside {t : τ} {l : KernelList ε} {s' : Lists (TaskItem τ) (KernelList ε)} (filed : k.Filed t l s')
    (aside : ∀ u, k.lists.container (.event u) ≠ some .pendingReady) (u : τ) :
    s'.container (.event u) ≠ some .pendingReady := by
  by_cases hu : u = t
  · rw [hu, filed.event]
    simp
  · rw [(filed.others u hu).2]
    exact aside u

theorem Live.suspend (live : k.Live) {t : τ} (exists' : k.Exists t)
    (alive : k.lists.container (.state t) ≠ some .waitingTermination) (busy : k.xIdleTaskHandle ≠ some t)
    (awake : k.pxCurrentTCB = some t → k.uxSchedulerSuspended = 0) :
    ∃ k', k.vTaskSuspend t = some k' ∧ k'.Live ∧ k.Still k' fun u => u = t := by
  obtain ⟨s₁, n, s₂, top, removed, reset, unlinked, placed₂, withdrawn⟩ := live.placed.withdraw exists'
  obtain ⟨s₃, inserted, placed₃, put⟩ :=
    Tidied.insertState (k := { k with lists := s₂, uxTopReadyPriority := top }) (l := .suspended) placed₂
      withdrawn.state trivial (by simp) (by simp)
  have filed := withdrawn.file put (by simp)
  let k₃ : Scheduler τ ε := { k with lists := s₃, uxTopReadyPriority := top }
  have started : k.vTaskSuspend t =
      if k.pxCurrentTCB = some t then
        (configASSERT (k.uxSchedulerSuspended = 0)).bind fun _ =>
          some k₃.prvResetNextTaskUnblockTime.portYIELD_WITHIN_API
      else some k₃.prvResetNextTaskUnblockTime := by
    rw [vTaskSuspend, removed]
    simp only [Option.bind_eq_bind, Option.bind_some, reset, unlinked, inserted]
    rw [prvResetNextTaskUnblockTime_eq]
  have live₃ : ∀ requested, (k.yieldRequested = true → requested = true) →
      Live { k₃ with yieldRequested := requested } := by
    intro requested keeps
    have steady : Steady { k₃ with yieldRequested := requested } := by
      refine live.toSteady.move (t := t) placed₃ filed.others exists' ?_ ?_ ?_ ?_ id keeps ?_
      · exact filed.state.trans_ne (by simp)
      · exact iff_of_false (filed.state.trans_ne (by simp)) alive
      · intro l h
        rw [filed.event] at h
        cases h
      · exact fun h => absurd h busy
      · intro _ _ h
        rw [filed.state] at h
        cases h
    have still : k.Still { k₃ with yieldRequested := requested } fun u => u = t :=
      filed.still (by simp) rfl rfl rfl rfl rfl
    exact ⟨⟨steady, still.timely live.toTimely rfl, live.ticks, fun h => filed.aside (live.aside h)⟩, live.running⟩
  rw [started]
  by_cases self : k.pxCurrentTCB = some t
  · rw [if_pos self, configASSERT_pos (awake self), prvResetNextTaskUnblockTime_eq]
    exact ⟨_, rfl, (live₃ true fun _ => rfl).reset, filed.still (by simp) rfl rfl rfl rfl rfl⟩
  · rw [if_neg self, prvResetNextTaskUnblockTime_eq]
    exact ⟨_, rfl, (live₃ k.yieldRequested id).reset, filed.still (by simp) rfl rfl rfl rfl rfl⟩

omit [DecidableEq ε] in
/-- Where `t` has left its lists and another task is the running one, it is gone. -/
theorem Withdrawn.others_task {t : τ} {s' : Lists (TaskItem τ) (KernelList ε)} (withdrawn : k.Withdrawn t s') :
    ∀ u, u ≠ t → s'.container (.state u) = k.lists.container (.state u) ∧
      s'.container (.event u) = k.lists.container (.event u) := by
  intro u hu
  exact ⟨withdrawn.others _ (by simpa using hu) (by simp), withdrawn.others _ (by simp) (by simpa using hu)⟩

omit [DecidableEq ε] in
/-- A task that is in no list any more has gone, and the count with it. -/
theorem Withdrawn.tasks {t : τ} {s' : Lists (TaskItem τ) (KernelList ε)} (withdrawn : k.Withdrawn t s')
    (counts : Counts k.uxCurrentNumberOfTasks k.Exists) (exists' : k.Exists t) :
    Counts (k.uxCurrentNumberOfTasks - 1) fun u => s'.container (.state u) ≠ none := by
  apply counts.drop exists'
  intro u
  by_cases hu : u = t
  · simp [hu, withdrawn.state]
  · simp [hu, Exists, (withdrawn.others_task u hu).1]

omit [DecidableEq ε] in
theorem Withdrawn.aside {t : τ} {s' : Lists (TaskItem τ) (KernelList ε)} (withdrawn : k.Withdrawn t s')
    (aside : ∀ u, k.lists.container (.event u) ≠ some .pendingReady) (u : τ) :
    s'.container (.event u) ≠ some .pendingReady := by
  by_cases hu : u = t
  · rw [hu, withdrawn.event]
    simp
  · rw [(withdrawn.others_task u hu).2]
    exact aside u

omit [DecidableEq ε] in
theorem Withdrawn.still {t : τ} {s' : Lists (TaskItem τ) (KernelList ε)} (withdrawn : k.Withdrawn t s')
    {k' : Scheduler τ ε} (lists : k'.lists = s') (clock : k'.xTickCount = k.xTickCount)
    (pended : k'.uxPendedTicks = k.uxPendedTicks) (inUse : k'.pxDelayedTaskList = k.pxDelayedTaskList)
    (log : k'.switchedIn = k.switchedIn) : k.Still k' fun u => u = t := by
  have walked : k.Walked k' fun u => u = t := Walked.of withdrawn.walk lists log
  subst lists
  apply Frame.still
  · exact ⟨clock, pended, inUse, fun u hu => (withdrawn.others_task u hu).1,
      fun u hu => (withdrawn.others_task u hu).2, fun u _ => congrFun withdrawn.value _, walked⟩
  · rintro u rfl d h
    rw [withdrawn.state] at h
    cases h

theorem Live.delete (live : k.Live) {t : τ} (exists' : k.Exists t)
    (alive : k.lists.container (.state t) ≠ some .waitingTermination) (busy : k.xIdleTaskHandle ≠ some t)
    (awake : k.pxCurrentTCB = some t → k.uxSchedulerSuspended = 0) :
    ∃ k', k.vTaskDelete t = some k' ∧ k'.Live ∧ k.Still k' fun u => u = t := by
  obtain ⟨s₁, n, s₂, top, removed, reset, unlinked, placed₂, withdrawn⟩ := live.placed.withdraw exists'
  rw [vTaskDelete, removed]
  simp only [Option.bind_eq_bind, Option.bind_some, reset, unlinked]
  by_cases self : k.pxCurrentTCB = some t
  · obtain ⟨s₃, inserted, placed₃, put⟩ :=
      Tidied.insertState (k := { k with lists := s₂, uxTopReadyPriority := top }) (l := .waitingTermination)
        placed₂ withdrawn.state trivial (by simp) (by simp)
    have filed := withdrawn.file put (by simp)
    let k' : Scheduler τ ε :=
      { k with
        lists := s₃
        uxTopReadyPriority := top
        uxDeletedTasksWaitingCleanUp := k.uxDeletedTasksWaitingCleanUp + 1
        yieldRequested := true }
    have steady : k'.Steady := by
      refine live.toSteady.relocate (t := t) placed₃ filed.others ?_ ?_ ?_ ?_ ?_ id (fun _ => rfl) ?_
      · exact fun _ => filed.state.trans_ne (by simp)
      · apply live.tasks.congr
        intro u
        by_cases hu : u = t
        · subst hu
          exact iff_of_true (filed.state.trans_ne (by simp)) exists'
        · simp only [Exists, (filed.others u hu).1]
      · apply live.deleted.add alive
        intro u
        by_cases hu : u = t
        · simp [hu, filed.state]
        · simp [hu, (filed.others u hu).1]
      · intro l h
        rw [filed.event] at h
        cases h
      · exact fun h => absurd h busy
      · exact fun _ _ _ => Or.inr (Or.inr rfl)
    have still : k.Still k' fun u => u = t := filed.still (by simp) rfl rfl rfl rfl rfl
    refine ⟨k', ?_, ⟨⟨steady, still.timely live.toTimely rfl, live.ticks,
      fun h => filed.aside (live.aside h)⟩, live.running⟩, still⟩
    rw [if_pos self, inserted, Option.bind_some, configASSERT_pos (awake self)]
    rfl
  · let k' : Scheduler τ ε :=
      { k with
        lists := s₂
        uxTopReadyPriority := top
        uxCurrentNumberOfTasks := k.uxCurrentNumberOfTasks - 1 }
    have steady : k'.Steady := by
      refine live.toSteady.relocate (t := t) placed₂ withdrawn.others_task (fun h => absurd h self)
        (withdrawn.tasks live.tasks exists') ?_ ?_ (fun h => absurd h busy) id id ?_
      · apply live.deleted.congr
        intro u
        by_cases hu : u = t
        · subst hu
          exact iff_of_false (withdrawn.state.trans_ne (by simp)) alive
        · rw [(withdrawn.others_task u hu).1]
      · intro l h
        rw [withdrawn.event] at h
        cases h
      · intro _ _ h
        rw [withdrawn.state] at h
        cases h
    have still : k.Still k' fun u => u = t := withdrawn.still rfl rfl rfl rfl rfl
    have live' : k'.Live := ⟨⟨steady, still.timely live.toTimely rfl, live.ticks,
      fun h => withdrawn.aside (live.aside h)⟩, live.running⟩
    refine ⟨_, ?_, live'.reset, withdrawn.still rfl rfl rfl rfl rfl⟩
    rw [if_neg self, prvResetNextTaskUnblockTime_eq]

/-- The idle task frees a task that has deleted itself, if there is one. -/
theorem Live.cleanUp (live : k.Live) (idle : k.pxCurrentTCB = k.xIdleTaskHandle) :
    ∃ k', k.prvCheckTasksWaitingTermination = some k' ∧ k'.Live ∧
      k.Still k' fun u => k.lists.container (.state u) = some .waitingTermination := by
  have same : k.Still k fun u => k.lists.container (.state u) = some .waitingTermination :=
    (still_of_lists rfl rfl rfl rfl rfl).mono fun _ h => h.elim
  rw [prvCheckTasksWaitingTermination]
  by_cases some' : k.uxDeletedTasksWaitingCleanUp > 0
  · rw [if_pos some']
    cases members : k.lists.members .waitingTermination with
    | nil => exact ⟨k, rfl, live, same⟩
    | cons i rest =>
      obtain ⟨-, home⟩ := live.placed.member_state (l := .waitingTermination) id
        (by rw [members]; exact List.mem_cons_self)
      have exists' : k.Exists i.owner := by simp [Exists, home]
      obtain ⟨s₁, removed, placed₁, taken⟩ := live.placed.removeState home
      have free : k.lists.container (.event i.owner) = none := by
        by_contra waits
        obtain ⟨l, hl⟩ := Option.ne_none_iff_exists'.mp waits
        obtain ⟨d, h⟩ | h := live.waits i.owner l hl <;> simp [home] at h
      have withdrawn : k.Withdrawn i.owner s₁ := by
        refine ⟨by rw [taken.container, Function.update_self], ?_, ?_, taken.value, Walk.taken taken⟩
        · rw [taken.container, Function.update_of_ne (by simp), free]
        · intro j hj _
          rw [taken.container, Function.update_of_ne hj]
      obtain ⟨t, hi, ready⟩ := live.idle live.running
      have notIdle : k.xIdleTaskHandle ≠ some i.owner := by
        intro h
        obtain rfl : t = i.owner := Option.some.inj (hi.symm.trans h)
        rw [IsReady, home] at ready
        cases ready
      let k' : Scheduler τ ε :=
        { k with
          lists := s₁
          uxCurrentNumberOfTasks := k.uxCurrentNumberOfTasks - 1
          uxDeletedTasksWaitingCleanUp := k.uxDeletedTasksWaitingCleanUp - 1 }
      have steady : k'.Steady := by
        refine live.toSteady.relocate (t := i.owner) placed₁ withdrawn.others_task ?_
          (withdrawn.tasks live.tasks exists') ?_ ?_ (fun h => absurd h notIdle) id id ?_
        · exact fun h => absurd (idle.symm.trans h) notIdle
        · apply live.deleted.drop home
          intro u
          by_cases hu : u = i.owner
          · simp [hu, withdrawn.state]
          · simp [hu, (withdrawn.others_task u hu).1]
        · intro l h
          rw [withdrawn.event] at h
          cases h
        · intro _ _ h
          rw [withdrawn.state] at h
          cases h
      have still : k.Still k' fun u => u = i.owner := withdrawn.still rfl rfl rfl rfl rfl
      have here : ∀ u, u = i.owner → k.lists.container (.state u) = some .waitingTermination := by
        rintro u rfl
        exact home
      refine ⟨k', ?_, ⟨⟨steady, still.timely live.toTimely rfl, live.ticks,
        fun h => withdrawn.aside (live.aside h)⟩, live.running⟩, still.mono here⟩
      simp only [removed, Option.bind_eq_bind, Option.bind_some]
      rfl
  · rw [if_neg some']
    exact ⟨k, rfl, live, same⟩

/-! ## Resuming -/

omit [DecidableEq τ] in
theorem prvTaskIsTaskSuspended_iff (t : τ) :
    k.prvTaskIsTaskSuspended t = true ↔
      k.lists.container (.state t) = some .suspended ∧ k.lists.container (.event t) = none := by
  simp only [prvTaskIsTaskSuspended, Bool.and_eq_true, decide_eq_true_eq, Bool.not_eq_true',
    decide_eq_false_iff_not]
  constructor
  · exact fun h => ⟨h.1, h.2.2⟩
  · exact fun h => ⟨h.1, by simp [h.2], h.2⟩

omit [DecidableEq ε] in
theorem still_self (touched : τ → Prop) : k.Still k touched :=
  (still_of_lists rfl rfl rfl rfl rfl).mono fun _ h => h.elim

omit [DecidableEq τ] [DecidableEq ε] in
theorem portYIELD_if (k : Scheduler τ ε) (yields : Prop) [Decidable yields] :
    (if yields then k.portYIELD_WITHIN_API else k) =
      { k with yieldRequested := decide yields || k.yieldRequested } := by
  by_cases h : yields <;> simp [h, portYIELD_WITHIN_API]

omit [DecidableEq τ] [DecidableEq ε] in
/-- A yield is requested where the priority is not below the running one. -/
theorem requests_above {c t : τ} (running : k.pxCurrentTCB = some c) {pending : Bool} (c' : τ)
    (hc : k.pxCurrentTCB = some c') :
    k.uxPriority t ≤ k.uxPriority c' ∨ pending = true ∨
      (decide (k.uxPriority c ≤ k.uxPriority t) || k.yieldRequested) = true := by
  obtain rfl : c = c' := Option.some.inj (running.symm.trans hc)
  by_cases above : k.uxPriority c ≤ k.uxPriority t
  · exact Or.inr (Or.inr (by simp [above]))
  · exact Or.inl (Fin.le_of_lt (Fin.not_le.mp above))

/-- A suspended task is made ready, with a yield requested unless the running one is above it. -/
theorem Live.makeReady (live : k.Live) {c t : τ} (running : k.pxCurrentTCB = some c)
    (suspended : k.lists.container (.state t) = some .suspended)
    (free : k.lists.container (.event t) = none) :
    ∃ s₁ n s₂ top, k.uxListRemove (.state t) = some ({ k with lists := s₁ }, n) ∧
      Scheduler.prvAddTaskToReadyList { k with lists := s₁ } t =
        some { k with lists := s₂, uxTopReadyPriority := top } ∧
      Live
        { k with
          lists := s₂
          uxTopReadyPriority := top
          yieldRequested := decide (k.uxPriority c ≤ k.uxPriority t) || k.yieldRequested } ∧
      Still k
        { k with
          lists := s₂
          uxTopReadyPriority := top
          yieldRequested := decide (k.uxPriority c ≤ k.uxPriority t) || k.yieldRequested }
        fun u => u = t := by
  obtain ⟨s₁, n, s₂, top, removed, added, placed₂, readied⟩ := live.placed.resume free suspended (by simp)
  obtain ⟨live', still⟩ := live.woken k.ucDelayAborted placed₂ readied (Or.inr suspended) id
    (fun h => by rw [h, Bool.or_true]) (requests_above running)
  exact ⟨s₁, n, s₂, top, removed, added, live', still⟩

theorem Live.resume (live : k.Live) (t : τ) :
    ∃ k', k.vTaskResume t = some k' ∧ k'.Live ∧ k.Still k' fun u => u = t := by
  obtain ⟨c, running, -⟩ := live.current
  have started : k.vTaskResume t =
      if t ≠ c ∧ k.prvTaskIsTaskSuspended t then
        (k.uxListRemove (.state t)).bind fun r => (r.1.prvAddTaskToReadyList t).bind fun k' =>
          some (if k'.uxPriority c ≤ k'.uxPriority t then k'.portYIELD_WITHIN_API else k')
      else some k := congrArg (Option.bind · _) running
  rw [started]
  by_cases may : t ≠ c ∧ k.prvTaskIsTaskSuspended t
  · obtain ⟨suspended, free⟩ := (prvTaskIsTaskSuspended_iff t).mp may.2
    obtain ⟨s₁, n, s₂, top, removed, added, live', still⟩ := live.makeReady running suspended free
    refine ⟨_, ?_, live', still⟩
    rw [if_pos may, removed]
    simp only [Option.bind_some, added, portYIELD_if]
  · rw [if_neg may]
    exact ⟨k, rfl, live, still_self _⟩

theorem Live.resumeFromISR (live : k.Live) (t : τ) :
    ∃ k', k.xTaskResumeFromISR t = some k' ∧ k'.Live ∧ k.Still k' fun u => u = t := by
  obtain ⟨c, running, -⟩ := live.current
  rw [xTaskResumeFromISR]
  by_cases may : k.prvTaskIsTaskSuspended t = true
  · obtain ⟨suspended, free⟩ := (prvTaskIsTaskSuspended_iff t).mp may
    rw [if_pos may]
    by_cases awake : k.uxSchedulerSuspended = 0
    · obtain ⟨s₁, n, s₂, top, removed, added, live', still⟩ := live.makeReady running suspended free
      refine ⟨_, ?_, live', still⟩
      rw [if_pos awake]
      refine (congrArg (Option.bind · _) running).trans ?_
      simp only [Option.bind_eq_bind, Option.bind_some, removed, added, decide_eq_true_eq, portYIELD_if]
    · obtain ⟨s₁, setAside, placed₁, put⟩ :=
        live.placed.insertEventEnd (l := .pendingReady) (live.placed.made .pendingReady rfl) free trivial
      have others : ∀ i, i ≠ .event t → s₁.container i = k.lists.container i := by
        intro i hi
        rw [put.container, Function.update_of_ne hi]
      obtain ⟨live', still⟩ :=
        live.setAside k.xYieldPending awake placed₁ others put.value (fun _ => put.elsewhere _ (by simp))
          (Or.inr suspended) id
      rw [if_neg awake]
      exact ⟨_, setAside, live', still⟩
  · rw [if_neg may]
    exact ⟨k, rfl, live, still_self _⟩

/-! ## Ending a delay -/

/-- A blocked task waits. -/
theorem waits_of_blocked {t : τ} (blocked : k.eTaskGetState t = .eBlocked) : Waits k.lists t := by
  by_contra other
  have notDelayed : ∀ d, k.lists.container (.state t) ≠ some (.delayed d) := fun d h => other (Or.inl ⟨d, h⟩)
  have notSuspended : k.lists.container (.state t) ≠ some .suspended := fun h => other (Or.inr h)
  simp only [eTaskGetState, notDelayed, notSuspended, or_self, if_false] at blocked
  split_ifs at blocked

/-- The event item of a task whose delay is ended leaves its list, and `ucDelayAborted` says so. -/
theorem abort_removeEvent {s₁ s₂ : Lists (TaskItem τ) (KernelList ε)} {t : τ}
    (unlinked : { k with lists := s₁ }.removeEventItem t = some { k with lists := s₂ }) :
    ∃ aborted,
      (if s₁.container (.event t) ≠ none then do
        let (k, _) ← { k with lists := s₁ }.uxListRemove (.event t)
        some { k with ucDelayAborted := Function.update k.ucDelayAborted t true }
       else some { k with lists := s₁ }) =
      some { k with lists := s₂, ucDelayAborted := aborted } := by
  rw [removeEventItem] at unlinked
  by_cases free : s₁.container (.event t) = none
  · rw [if_pos free] at unlinked
    rw [if_neg (not_not.mpr free)]
    exact ⟨k.ucDelayAborted, unlinked⟩
  · rw [if_neg free, Option.map_eq_some_iff] at unlinked
    obtain ⟨⟨k₂, n⟩, removed, rfl⟩ := unlinked
    rw [if_pos free, removed]
    exact ⟨Function.update k.ucDelayAborted t true, rfl⟩

theorem Live.abortDelay (live : k.Live) (t : τ) :
    ∃ k', k.abortDelay t = some k' ∧ k'.Live ∧ k.Still k' fun u => u = t := by
  obtain ⟨c, running, -⟩ := live.current
  rw [Scheduler.abortDelay]
  by_cases blocked : k.eTaskGetState t = .eBlocked
  · have waited := waits_of_blocked blocked
    obtain ⟨l, home, notReady⟩ := waited.list
    obtain ⟨s₁, n, s₂, s₃, top, removed, unlinked, added, placed₃, readied, -⟩ :=
      live.placed.unblock home notReady
    obtain ⟨aborted, unlinked'⟩ := abort_removeEvent unlinked
    obtain ⟨live', still⟩ := live.woken aborted placed₃ readied waited (fun h => by rw [h, Bool.or_true]) id
      (asks_above running)
    have added' : { k with lists := s₂, ucDelayAborted := aborted }.prvAddTaskToReadyList t =
        some { k with lists := s₃, uxTopReadyPriority := top, ucDelayAborted := aborted } := by
      simp only [prvAddTaskToReadyList, portRECORD_READY_PRIORITY, vListInsertEnd, Option.map_eq_some_iff] at added ⊢
      obtain ⟨s, inserted, same⟩ := added
      exact ⟨s, inserted, congrArg (fun j : Scheduler τ ε => { j with ucDelayAborted := aborted }) same⟩
    refine ⟨_, ?_, live', still⟩
    rw [if_pos blocked, removed]
    simp only [Option.bind_eq_bind, Option.bind_some]
    refine (congrArg (Option.bind · _) unlinked').trans ?_
    simp only [Option.bind_some, added']
    refine (congrArg (Option.bind · _) running).trans ?_
    by_cases above : k.uxPriority c < k.uxPriority t <;> simp [above]
  · rw [if_neg blocked]
    exact ⟨k, rfl, live, still_self _⟩

/-! ## Priorities -/

/-- `s'` has `t`, if it was ready, in the ready list of `p`, and everything else where `k` has it. -/
structure Reprioritised (k : Scheduler τ ε) (t : τ) (p : Priority) (s' : Lists (TaskItem τ) (KernelList ε)) :
    Prop where
  ready : k.IsReady t → s'.container (.state t) = some (.ready p)
  notReady : ¬ k.IsReady t → s'.container (.state t) = k.lists.container (.state t)
  others : ∀ i, i ≠ .state t → s'.container i = k.lists.container i
  value : ∀ u, s'.value (.state u) = k.lists.value (.state u)
  walk : Walk (fun u => u = t) [] k.lists s'

omit [DecidableEq ε] in
theorem Reprioritised.isReady_iff {t : τ} {p : Priority} {s' : Lists (TaskItem τ) (KernelList ε)}
    (moved : k.Reprioritised t p s') (placed : k.Tidied) (u : τ) :
    s'.container (.state u) = some (.ready (Function.update k.uxPriority t p u)) ↔ k.IsReady u := by
  by_cases hu : u = t
  · subst hu
    rw [Function.update_self]
    by_cases ready : k.IsReady u
    · exact iff_of_true (moved.ready ready) ready
    · refine iff_of_false ?_ ready
      rw [moved.notReady ready]
      intro h
      obtain rfl : p = k.uxPriority u := placed.state u _ h
      exact ready h
  · rw [Function.update_of_ne hu, moved.others _ (by simpa using hu), IsReady]

omit [DecidableEq ε] in
/-- Another priority for one task, with a yield requested where that may put another above the
running one. -/
theorem Steady.reprioritise (steady : k.Steady) {t : τ} {p : Priority} {s' : Lists (TaskItem τ) (KernelList ε)}
    {top : BitVec 32} {requested : Bool} (placed : Placed s' (Function.update k.uxPriority t p) top)
    (moved : k.Reprioritised t p s') (keepsRequested : k.yieldRequested = true → requested = true)
    (raised : ∀ c, k.pxCurrentTCB = some c → k.uxPriority t < p → t ≠ c → k.uxPriority c ≤ p → requested = true)
    (lowered : ∀ c, k.pxCurrentTCB = some c → p < k.uxPriority t → t = c → requested = true) :
    Steady
      { k with
        uxPriority := Function.update k.uxPriority t p
        lists := s'
        uxTopReadyPriority := top
        yieldRequested := requested } := by
  have elsewhere : ∀ l : KernelList ε, (∀ q, l ≠ .ready q) → ∀ u,
      (s'.container (.state u) = some l ↔ k.lists.container (.state u) = some l) := by
    intro l away u
    by_cases hu : u = t
    · subst hu
      by_cases ready : k.IsReady u
      · rw [moved.ready ready, show k.lists.container (.state u) = _ from ready]
        exact iff_of_false (fun h => away _ (Option.some.inj h).symm) (fun h => away _ (Option.some.inj h).symm)
      · rw [moved.notReady ready]
    · rw [moved.others _ (by simpa using hu)]
  have lives : ∀ u, s'.container (.state u) ≠ none ↔ k.Exists u := by
    intro u
    by_cases hu : u = t
    · subst hu
      by_cases ready : k.IsReady u
      · simp [moved.ready ready, Exists, show k.lists.container (.state u) = _ from ready]
      · rw [moved.notReady ready, Exists]
    · rw [moved.others _ (by simpa using hu), Exists]
  constructor
  case placed => exact placed
  case overflow => exact steady.overflow
  case waits =>
    intro u l h
    dsimp only at h
    rw [moved.others _ (by simp)] at h
    obtain ⟨d, waits⟩ | waits := steady.waits u l h
    · exact Or.inl ⟨d, (elsewhere (.delayed d) (by simp) u).mpr waits⟩
    · exact Or.inr ((elsewhere .suspended (by simp) u).mpr waits)
  case current =>
    obtain ⟨c, hc, exists'⟩ := steady.current
    exact ⟨c, hc, (lives c).mpr exists'⟩
  case idle =>
    intro running
    obtain ⟨i, hi, ready⟩ := steady.idle running
    exact ⟨i, hi, (moved.isReady_iff steady.placed i).mpr ready⟩
  case tasks => exact steady.tasks.congr lives
  case deleted => exact steady.deleted.congr (elsewhere .waitingTermination (by simp))
  case preempted =>
    intro noRequest noPending c hc u ready
    dsimp only at noRequest noPending hc ⊢
    have wasReady : k.IsReady u := (moved.isReady_iff steady.placed u).mp ready
    have before := steady.preempted (eq_false_of_keeps keepsRequested noRequest) noPending c hc u wasReady
    by_cases hu : u = t
    · subst hu
      by_cases self : u = c
      · subst self
        exact Nat.le_refl _
      · -- a task that is not running: raised above the running one it would have asked for a yield
        simp only [Function.update_self, Function.update_of_ne (Ne.symm self)]
        by_cases up : k.uxPriority u < p
        · by_contra above
          have asked := raised c hc up self (Fin.le_of_lt (Fin.not_le.mp above))
          rw [noRequest] at asked
          cases asked
        · exact Fin.le_trans (Fin.not_lt.mp up) before
    · rw [Function.update_of_ne hu]
      by_cases self : t = c
      · subst self
        rw [Function.update_self]
        by_cases down : p < k.uxPriority t
        · have asked := lowered t hc down rfl
          rw [noRequest] at asked
          cases asked
        · exact Fin.le_trans before (Fin.not_lt.mp down)
      · rw [Function.update_of_ne (Ne.symm self)]
        exact before

/-- With its new priority, a ready task goes to the end of the ready list of that priority. -/
theorem moveToReadyList_spec (placed : k.Tidied) {t : τ} (p : Priority) :
    ∃ s' top,
      { k with uxPriority := Function.update k.uxPriority t p }.moveToReadyList t (k.uxPriority t) =
        some
          { k with
            uxPriority := Function.update k.uxPriority t p
            lists := s'
            uxTopReadyPriority := top } ∧
      Placed s' (Function.update k.uxPriority t p) top ∧ k.Reprioritised t p s' := by
  let prio := Function.update k.uxPriority t p
  rw [moveToReadyList]
  by_cases ready : k.lists.container (.state t) = some (.ready (k.uxPriority t))
  · rw [if_pos ready]
    obtain ⟨s₁, removed, taken⟩ := placed.tidy.remove ready
    let top₁ := Placed.topAfter k.uxTopReadyPriority (s₁.members (.ready (k.uxPriority t))).length
      (.ready (k.uxPriority t) : KernelList ε)
    have free : s₁.container (.state t) = none := by rw [taken.container, Function.update_self]
    have placed₁ : Placed s₁ prio top₁ := by
      apply (placed.leave ready taken).reprioritise
      intro u q h
      have other : u ≠ t := by
        rintro rfl
        rw [free] at h
        cases h
      exact Function.update_of_ne other _ _
    obtain ⟨s₂, added, placed₂, put, joined⟩ :=
      Tidied.addReady (k := { k with uxPriority := prio, lists := s₁, uxTopReadyPriority := top₁ }) placed₁ free
    have record : (if (s₁.members (.ready (k.uxPriority t))).length = 0 then
          { k with uxPriority := prio, lists := s₁ }.portRESET_READY_PRIORITY (k.uxPriority t)
        else { k with uxPriority := prio, lists := s₁ }) =
        { k with uxPriority := prio, lists := s₁, uxTopReadyPriority := top₁ } := by
      by_cases empty : (s₁.members (.ready (k.uxPriority t))).length = 0
      · simp only [if_pos empty, portRESET_READY_PRIORITY, top₁, Placed.topAfter, resetTop]
      · simp only [if_neg empty, top₁, Placed.topAfter]
    refine ⟨s₂, _, ?_, placed₂, ?_⟩
    · rw [uxListRemove_eq (k := { k with uxPriority := prio }) ready removed]
      simp only [Option.bind_eq_bind, Option.bind_some]
      exact (congrArg (fun j : Scheduler τ ε => j.prvAddTaskToReadyList t) record).trans added
    constructor
    · intro _
      rw [put.container, Function.update_self]
      simp [prio]
    · exact fun h => absurd ready h
    · intro i hi
      rw [put.container, Function.update_of_ne hi, taken.container, Function.update_of_ne hi]
    · intro u
      rw [put.value, taken.value]
    · exact (Walk.taken taken).trans joined
  · rw [if_neg ready]
    refine ⟨k.lists, k.uxTopReadyPriority, rfl, ?_, ?_⟩
    · apply placed.reprioritise
      intro u q h
      have other : u ≠ t := by
        rintro rfl
        obtain rfl : q = k.uxPriority u := placed.state u _ h
        exact ready h
      exact Function.update_of_ne other _ _
    · exact ⟨fun h => absurd h ready, fun _ => rfl, fun _ _ => rfl, fun _ => rfl, Walk.same fun _ => rfl⟩

omit [DecidableEq ε] in
/-- Only the value of an event item may change. -/
theorem followPriority_spec (placed : k.Tidied) (t : τ) (p : Priority) :
    ∃ s', (∀ prio, { k with uxPriority := prio }.followPriority t p = { k with uxPriority := prio, lists := s' }) ∧
      Placed s' k.uxPriority k.uxTopReadyPriority ∧ s'.container = k.lists.container ∧
      s'.list = k.lists.list ∧ ∀ u, s'.value (.state u) = k.lists.value (.state u) := by
  by_cases inUse : k.lists.value (.event t) &&& taskEVENT_LIST_ITEM_VALUE_IN_USE = 0
  · refine ⟨_, ?_, placed.setEventValue t (eventItemValue p), rfl, rfl,
      fun u => Lists.setValue_value_of_ne (by simp) _⟩
    intro prio
    rw [followPriority]
    exact if_pos inUse
  · refine ⟨_, ?_, placed, rfl, rfl, fun _ => rfl⟩
    intro prio
    rw [followPriority]
    exact if_neg inUse

omit [DecidableEq ε] in
theorem Reprioritised.still {t : τ} {p : Priority} {s' : Lists (TaskItem τ) (KernelList ε)}
    (moved : k.Reprioritised t p s') {k' : Scheduler τ ε} (lists : k'.lists = s')
    (clock : k'.xTickCount = k.xTickCount) (pended : k'.uxPendedTicks = k.uxPendedTicks)
    (inUse : k'.pxDelayedTaskList = k.pxDelayedTaskList) (log : k'.switchedIn = k.switchedIn) :
    k.Still k' fun u => u = t := by
  have walked : k.Walked k' fun u => u = t := Walked.of moved.walk lists log
  subst lists
  refine ⟨⟨clock, pended, inUse, fun u hu => moved.others _ (by simpa using hu),
    fun u _ => moved.others _ (by simp), fun u _ => moved.value u, walked⟩, ?_⟩
  intro u d h
  refine ⟨?_, moved.value u⟩
  by_cases hu : u = t
  · subst hu
    by_cases ready : k.IsReady u
    · rw [moved.ready ready] at h
      cases h
    · exact (moved.notReady ready).symm.trans h
  · exact (moved.others _ (by simpa using hu)).symm.trans h

theorem Live.prioritySet (live : k.Live) (t : τ) {v : BitVec 32} (bound : v.toNat < configMAX_PRIORITIES) :
    ∃ k', k.vTaskPrioritySet t v = some k' ∧ k'.Live ∧ k.Still k' fun u => u = t := by
  obtain ⟨c, running, -⟩ := live.current
  have started : k.vTaskPrioritySet t v =
      if k.uxPriority t ≠ toPriority v then
        (({ k with uxPriority := Function.update k.uxPriority t (toPriority v) }.followPriority t
          (toPriority v)).moveToReadyList t (k.uxPriority t)).bind fun k' =>
            some (if (if k.uxPriority t < toPriority v then
                decide (t ≠ c) && decide (k.uxPriority c ≤ toPriority v) else decide (t = c)) = true then
              k'.portYIELD_WITHIN_API else k')
      else some k := by
    rw [vTaskPrioritySet, configASSERT_pos bound]
    exact congrArg (Option.bind · _) running
  rw [started]
  generalize toPriority v = p
  by_cases changes : k.uxPriority t ≠ p
  · obtain ⟨s₀, followed, placed₀, container₀, list₀, value₀⟩ := followPriority_spec live.placed t p
    obtain ⟨s', top, moved, placed', reprioritised⟩ :=
      moveToReadyList_spec (k := { k with lists := s₀ }) placed₀ (t := t) p
    have moved' : k.Reprioritised t p s' := by
      constructor
      · intro h
        exact reprioritised.ready ((congrFun container₀ _).trans h)
      · intro h
        rw [reprioritised.notReady fun h' => h ((congrFun container₀ _).symm.trans h'), container₀]
      · intro i hi
        rw [reprioritised.others i hi, container₀]
      · exact fun u => (reprioritised.value u).trans (value₀ u)
      · exact (Walk.same fun p => congrFun list₀ (.ready p)).trans reprioritised.walk
    generalize yields : (if k.uxPriority t < p then decide (t ≠ c) && decide (k.uxPriority c ≤ p)
      else decide (t = c)) = xYieldRequired
    let k' : Scheduler τ ε :=
      { k with
        uxPriority := Function.update k.uxPriority t p
        lists := s'
        uxTopReadyPriority := top
        yieldRequested := xYieldRequired || k.yieldRequested }
    have steady : k'.Steady := by
      refine live.toSteady.reprioritise placed' moved' (fun h => by rw [h, Bool.or_true]) ?_ ?_
      · intro c' hc up other above
        obtain rfl : c = c' := Option.some.inj (running.symm.trans hc)
        rw [← yields, if_pos up, decide_eq_true other, decide_eq_true above]
        rfl
      · intro c' hc down self
        obtain rfl : c = c' := Option.some.inj (running.symm.trans hc)
        have notUp : ¬ k.uxPriority t < p := fun up => absurd (Nat.lt_trans up down) (Nat.lt_irrefl _)
        rw [← yields, if_neg notUp, decide_eq_true self, Bool.true_or]
    have still : k.Still k' fun u => u = t := moved'.still rfl rfl rfl rfl rfl
    refine ⟨k', ?_, ⟨⟨steady, still.timely live.toTimely rfl, live.ticks, ?_⟩, live.running⟩, still⟩
    · rw [if_pos changes, followed, moved, Option.bind_some]
      cases xYieldRequired <;> rfl
    · intro awake u
      rw [show k'.lists.container (.event u) = _ from moved'.others (.event u) (by simp)]
      exact live.aside awake u
  · rw [if_neg changes]
    exact ⟨k, rfl, live, still_self _⟩

end Scheduler

end Blinky.Kernel
