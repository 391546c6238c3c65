import Blinky.Kernel.Tick

/-!
# Blocking and waking

The running task puts itself in a delayed list or in the suspended list, and in an event
list first where it waits for an event; whoever signals the event takes a task out of
both. Each event leaves the scheduler `Live`, and says which tasks it touched.
-/

namespace Blinky.Kernel
set_option autoImplicit false
open Blinky.Circular

namespace Scheduler

variable {τ ε : Type}

/-- Where `prvAddCurrentTaskToDelayedList` puts the running task. -/
def parkingList (k : Scheduler τ ε) (xTicksToWait : TickType) (xCanBlockIndefinitely : Bool) : KernelList ε :=
  if xTicksToWait = portMAX_DELAY ∧ xCanBlockIndefinitely then .suspended
  else if k.xTickCount + xTicksToWait < k.xTickCount then .delayed k.pxOverflowDelayedTaskList
  else .delayed k.pxDelayedTaskList

/-- The task `c` parked for `n` ticks, and everything else where `k` has it. -/
structure Parked [DecidableEq τ] (k : Scheduler τ ε) (c : τ) (n : TickType) (forever : Bool)
    (s' : Lists (TaskItem τ) (KernelList ε)) (unblock : TickType) : Prop where
  parked : s'.container (.state c) = some (k.parkingList n forever)
  others : ∀ i, i ≠ .state c → s'.container i = k.lists.container i
  wake : ∀ d, k.parkingList n forever = .delayed d → s'.value (.state c) = k.xTickCount + n
  value : ∀ u, u ≠ c → s'.value (.state u) = k.lists.value (.state u)
  earlier : unblock ≤ k.xNextTaskUnblockTime
  next : k.parkingList n forever = .delayed k.pxDelayedTaskList →
    k.pxOverflowDelayedTaskList ≠ k.pxDelayedTaskList → unblock ≤ k.xTickCount + n
  walk : Walk (fun u => u = c) [] k.lists s'

variable [DecidableEq τ] [DecidableEq ε] {k : Scheduler τ ε}

/-- The item of a free task is set to its wake time and goes into a delayed list. -/
theorem Tidied.insertWake (placed : k.Tidied) {c : τ} (d : Bool) (wake : TickType)
    (free : k.lists.container (.state c) = none) :
    ∃ s', (k.listSET_LIST_ITEM_VALUE (.state c) wake).vListInsert (.delayed d) (.state c) =
        some { k with lists := s' } ∧
      Placed s' k.uxPriority k.uxTopReadyPriority ∧
      s'.container = Function.update k.lists.container (.state c) (some (.delayed d)) ∧
      s'.value = Function.update k.lists.value (.state c) wake ∧ Walk (fun u => u = c) [] k.lists s' := by
  have away : ∀ d, TaskItem.state c ∉ k.lists.members (.delayed d) := by
    intro d h
    rw [placed.tidy.mem_iff, free] at h
    cases h
  obtain ⟨s', inserted, placed', put⟩ :=
    Tidied.insertDelayed (k := k.listSET_LIST_ITEM_VALUE (.state c) wake)
      (placed.setValue wake away) d free
  refine ⟨s', inserted, placed', put.container, put.value, ?_⟩
  apply Walk.same
  intro p
  exact put.elsewhere (.ready p) (by simp)

theorem prvAddCurrentTaskToDelayedList_spec (placed : k.Tidied) {c : τ} (running : k.pxCurrentTCB = some c)
    (ready : k.IsReady c) (n : TickType) (forever : Bool) :
    ∃ s' top next, k.prvAddCurrentTaskToDelayedList n forever =
        some
          { k with
            ucDelayAborted := Function.update k.ucDelayAborted c false
            lists := s'
            uxTopReadyPriority := top
            xNextTaskUnblockTime := next } ∧
      Placed s' k.uxPriority top ∧ k.Parked c n forever s' next := by
  let k₀ : Scheduler τ ε := { k with ucDelayAborted := Function.update k.ucDelayAborted c false }
  obtain ⟨s₁, removed, placed₁, taken⟩ := Tidied.removeState (k := k₀) placed ready
  have free : s₁.container (.state c) = none := by rw [taken.container, Function.update_self]
  have left : ∀ i, i ≠ .state c → s₁.container i = k.lists.container i := by
    intro i hi
    rw [taken.container, Function.update_of_ne hi]
  let top := Placed.topAfter k.uxTopReadyPriority (s₁.members (.ready (k.uxPriority c))).length
    (.ready (k.uxPriority c) : KernelList ε)
  let k₁ : Scheduler τ ε := { k₀ with lists := s₁, uxTopReadyPriority := top }
  have record : (if (s₁.members (.ready (k.uxPriority c))).length = 0 then
        { k₀ with lists := s₁ }.portRESET_READY_PRIORITY (k₀.uxPriority c)
      else { k₀ with lists := s₁ }) = k₁ := by
    by_cases empty : (s₁.members (.ready (k.uxPriority c))).length = 0
    · simp only [if_pos empty, portRESET_READY_PRIORITY, k₁, top, Placed.topAfter, resetTop]
      rfl
    · simp only [if_neg empty, k₁, top, Placed.topAfter]
      rfl
  have started : k.prvAddCurrentTaskToDelayedList n forever =
      if n = portMAX_DELAY ∧ forever then k₁.vListInsertEnd .suspended (.state c)
      else if k.xTickCount + n < k.xTickCount then
        (k₁.listSET_LIST_ITEM_VALUE (.state c) (k.xTickCount + n)).vListInsert
          (.delayed k.pxOverflowDelayedTaskList) (.state c)
      else
        ((k₁.listSET_LIST_ITEM_VALUE (.state c) (k.xTickCount + n)).vListInsert
          (.delayed k.pxDelayedTaskList) (.state c)).bind fun k' =>
            some (if k.xTickCount + n < k'.xNextTaskUnblockTime then
              { k' with xNextTaskUnblockTime := k.xTickCount + n } else k') := by
    rw [prvAddCurrentTaskToDelayedList]
    refine (congrArg (Option.bind · _) running).trans ?_
    simp only [Option.bind_eq_bind, Option.bind_some]
    refine (congrArg (Option.bind · _) removed).trans ?_
    simp only [Option.bind_some]
    rw [record]
    rfl
  rw [started]
  by_cases endless : n = portMAX_DELAY ∧ forever
  · have list : k.parkingList n forever = .suspended := if_pos endless
    obtain ⟨s₂, inserted, placed₂, put⟩ :=
      Tidied.insertState (k := k₁) (l := .suspended) placed₁ free trivial (by simp) (by simp)
    rw [if_pos endless]
    refine ⟨s₂, top, k.xNextTaskUnblockTime, inserted, placed₂, ?_⟩
    constructor
    · rw [put.container, Function.update_self, list]
    · intro i hi
      rw [put.container, Function.update_of_ne hi]
      exact left i hi
    · intro d h
      rw [list] at h
      cases h
    · intro u hu
      rw [put.value]
      exact congrFun taken.value _
    · exact BitVec.le_refl _
    · intro h
      rw [list] at h
      cases h
    · exact (Walk.taken taken).trans (Walk.putOther put (by simp))
  · rw [if_neg endless]
    by_cases wraps : k.xTickCount + n < k.xTickCount
    · have list : k.parkingList n forever = .delayed k.pxOverflowDelayedTaskList := by
        rw [parkingList, if_neg endless, if_pos wraps]
      obtain ⟨s₂, inserted, placed₂, container, value, walk⟩ :=
        Tidied.insertWake (k := k₁) placed₁ k.pxOverflowDelayedTaskList (k.xTickCount + n) free
      rw [if_pos wraps]
      refine ⟨s₂, top, k.xNextTaskUnblockTime, inserted, placed₂, ?_⟩
      constructor
      · rw [container, Function.update_self, list]
      · intro i hi
        rw [container, Function.update_of_ne hi]
        exact left i hi
      · intro d _
        rw [value, Function.update_self]
      · intro u hu
        rw [value, Function.update_of_ne (by simpa using hu)]
        exact congrFun taken.value _
      · exact BitVec.le_refl _
      · intro h differ
        rw [list, KernelList.delayed.injEq] at h
        exact absurd h differ
      · exact (Walk.taken taken).trans walk
    · have list : k.parkingList n forever = .delayed k.pxDelayedTaskList := by
        rw [parkingList, if_neg endless, if_neg wraps]
      obtain ⟨s₂, inserted, placed₂, container, value, walk⟩ :=
        Tidied.insertWake (k := k₁) placed₁ k.pxDelayedTaskList (k.xTickCount + n) free
      let next := if k.xTickCount + n < k.xNextTaskUnblockTime then k.xTickCount + n
        else k.xNextTaskUnblockTime
      rw [if_neg wraps, inserted]
      refine ⟨s₂, top, next, ?_, placed₂, ?_⟩
      · simp only [Option.bind_some, next, k₁, k₀]
        split <;> rfl
      constructor
      · rw [container, Function.update_self, list]
      · intro i hi
        rw [container, Function.update_of_ne hi]
        exact left i hi
      · intro d _
        rw [value, Function.update_self]
      · intro u hu
        rw [value, Function.update_of_ne (by simpa using hu)]
        exact congrFun taken.value _
      · simp only [next]
        split <;> bv_omega
      · intro _ _
        simp only [next]
        split <;> bv_omega
      · exact (Walk.taken taken).trans walk

/-- The event after which `c`, that was ready, is parked for `n` ticks. -/
structure Parks (k k' : Scheduler τ ε) (c : τ) (n : TickType) (forever : Bool) : Prop extends
    Frame k k' (fun t => t = c) where
  running : k.pxCurrentTCB = some c
  ready : k.IsReady c
  parked : k'.lists.container (.state c) = some (k.parkingList n forever)
  wake : ∀ d, k.parkingList n forever = .delayed d → k'.lists.value (.state c) = k.xTickCount + n

omit [DecidableEq τ] [DecidableEq ε] in
theorem parkingList_cases (k : Scheduler τ ε) (n : TickType) (forever : Bool) :
    k.parkingList n forever = .suspended ∨ ∃ d, k.parkingList n forever = .delayed d := by
  rw [parkingList]
  split
  · exact Or.inl rfl
  · split
    · exact Or.inr ⟨_, rfl⟩
    · exact Or.inr ⟨_, rfl⟩

omit [DecidableEq τ] [DecidableEq ε] in
/-- A wake time that does not wrap is in the future. -/
theorem wake_future {n : TickType} {forever : Bool} (some : n ≠ 0)
    (differ : k.pxOverflowDelayedTaskList ≠ k.pxDelayedTaskList)
    (inUse : k.parkingList n forever = .delayed k.pxDelayedTaskList) : k.xTickCount < k.xTickCount + n := by
  rw [parkingList] at inUse
  split at inUse
  · cases inUse
  · split at inUse
    · exact absurd (KernelList.delayed.inj inUse) differ
    · bv_omega

omit [DecidableEq ε] in
/-- Where nothing but the event item of the running task has moved, it may be parked. -/
theorem Live.park (live : k.Live) {c : τ} {n : TickType} {forever : Bool} {aborted : τ → Bool}
    {s₁ s' : Lists (TaskItem τ) (KernelList ε)} {top : BitVec 32} {next : TickType}
    (running : k.pxCurrentTCB = some c) (ready : k.IsReady c) (busy : k.xIdleTaskHandle ≠ some c)
    (some' : n ≠ 0) (others : ∀ i, i ≠ .event c → s₁.container i = k.lists.container i)
    (event : s₁.container (.event c) ≠ some .pendingReady)
    (value : ∀ u, s₁.value (.state u) = k.lists.value (.state u))
    (readyLists : ∀ p, s₁.list (.ready p) = k.lists.list (.ready p)) (placed : Placed s' k.uxPriority top) (parked : Parked { k with lists := s₁ } c n forever s' next) :
    Live
      { k with
        ucDelayAborted := aborted
        lists := s'
        uxTopReadyPriority := top
        xNextTaskUnblockTime := next } ∧
    Parks k
      { k with
        ucDelayAborted := aborted
        lists := s'
        uxTopReadyPriority := top
        xNextTaskUnblockTime := next } c n forever := by
  have differ : k.pxOverflowDelayedTaskList ≠ k.pxDelayedTaskList := by
    rw [live.overflow]
    simp
  have home : s'.container (.state c) = some (k.parkingList n forever) := parked.parked
  have stays : ∀ i, i ≠ .state c → i ≠ .event c → s'.container i = k.lists.container i :=
    fun i hs he => (parked.others i hs).trans (others i he)
  have sameValue : ∀ u, u ≠ c → s'.value (.state u) = k.lists.value (.state u) :=
    fun u hu => (parked.value u hu).trans (value u)
  have waits : Waits s' c := by
    obtain list | ⟨d, list⟩ := k.parkingList_cases n forever
    · exact Or.inr (home.trans (congrArg some list))
    · exact Or.inl ⟨d, home.trans (congrArg some list)⟩
  have away : ∀ p, k.parkingList n forever ≠ .ready p := by
    intro p h
    obtain list | ⟨d, list⟩ := k.parkingList_cases n forever <;> simp [list] at h
  have notDead : k.parkingList n forever ≠ .waitingTermination := by
    intro h
    obtain list | ⟨d, list⟩ := k.parkingList_cases n forever <;> simp [list] at h
  have steady : Steady { k with lists := s', uxTopReadyPriority := top } := by
    refine live.toSteady.move (t := c) placed ?_ ?_ ?_ ?_ (fun _ _ => waits) ?_ id id ?_
    · intro u hu
      exact ⟨stays _ (by simpa using hu) (by simp), stays _ (by simp) (by simpa using hu)⟩
    · simp [Exists, show k.lists.container (.state c) = _ from ready]
    · simp [home]
    · simp [home, notDead, show k.lists.container (.state c) = _ from ready]
    · exact fun h => absurd h busy
    · intro _ _ h
      rw [home] at h
      exact absurd (Option.some.inj h) (away _)
  have timely : Timely { k with lists := s', xNextTaskUnblockTime := next } := by
    constructor
    · intro t h
      dsimp only at h ⊢
      by_cases ht : t = c
      · subst ht
        have list := Option.some.inj (home.symm.trans h)
        rw [parked.wake _ list]
        exact wake_future some' differ list
      · rw [stays _ (by simpa using ht) (by simp)] at h
        rw [sameValue t ht]
        exact live.future t h
    · intro t h
      dsimp only at h ⊢
      by_cases ht : t = c
      · subst ht
        have list := Option.some.inj (home.symm.trans h)
        rw [parked.wake _ list]
        exact parked.next list differ
      · rw [stays _ (by simpa using ht) (by simp)] at h
        rw [sameValue t ht]
        exact BitVec.le_trans parked.earlier (live.next t h)
  have aside : k.uxSchedulerSuspended = 0 → ∀ t, s'.container (.event t) ≠ some .pendingReady := by
    intro awake t
    by_cases ht : t = c
    · subst ht
      rw [parked.others _ (by simp)]
      exact event
    · rw [stays _ (by simp) (by simpa using ht)]
      exact live.aside awake t
  refine ⟨⟨⟨steady.unread, ⟨timely.future, timely.next⟩, live.ticks, aside⟩, live.running⟩, ?_⟩
  have walk : Walk (fun u => u = c) [] k.lists s' := (Walk.same readyLists).trans parked.walk
  refine ⟨⟨rfl, rfl, rfl, ?_, ?_, ?_, Walked.of walk rfl rfl⟩, running, ready, home, parked.wake⟩
  · exact fun t ht => stays _ (by simpa using ht) (by simp)
  · exact fun t ht => stays _ (by simp) (by simpa using ht)
  · exact sameValue

theorem Live.block (live : k.Live) {n : TickType} (forever : Bool) (may : k.MayBlock n) :
    ∃ k' c, k.prvAddCurrentTaskToDelayedList n forever = some k' ∧ k'.Live ∧ k.Parks k' c n forever := by
  obtain ⟨some', c, running, ready, busy⟩ := may
  obtain ⟨s', top, next, added, placed, parked⟩ :=
    prvAddCurrentTaskToDelayedList_spec live.placed running ready n forever
  have free := live.toSteady.event_of_ready ready
  obtain ⟨live', parks⟩ := live.park running ready busy some' (fun _ _ => rfl) (by simp [free])
    (fun _ => rfl) (fun _ => rfl) placed parked
  exact ⟨_, c, added, live', parks⟩

omit [DecidableEq ε] in
/-- The event item of a ready task may go into an event list; its state item stays. -/
theorem placed_event {c : τ} {e : ε} {s s₁ : Lists (TaskItem τ) (KernelList ε)}
    (put : Lists.Put s s₁ (.event e) (.event c)) :
    (∀ i, i ≠ .event c → s₁.container i = s.container i) ∧ s₁.container (.event c) ≠ some .pendingReady := by
  constructor
  · intro i hi
    rw [put.container, Function.update_of_ne hi]
  · rw [put.container, Function.update_self]
    simp

theorem Live.placeOnEventList (live : k.Live) {e : ε} {n : TickType} (may : k.MayBlock n)
    (made : k.lists.list (.event e) ≠ none) :
    ∃ k' c, k.vTaskPlaceOnEventList e n = some k' ∧ k'.Live ∧ k.Parks k' c n true := by
  obtain ⟨some', c, running, ready, busy⟩ := may
  obtain ⟨s₁, inserted, placed₁, put⟩ :=
    live.placed.insertEvent (l := .event e) (Option.isSome_iff_ne_none.mpr made)
      (live.toSteady.event_of_ready ready) trivial
  obtain ⟨others, event⟩ := placed_event put
  have ready₁ : IsReady { k with lists := s₁ } c := (others (.state c) (by simp)).trans ready
  obtain ⟨s', top, next, added, placed, parked⟩ :=
    prvAddCurrentTaskToDelayedList_spec (k := { k with lists := s₁ }) placed₁ running ready₁ n true
  obtain ⟨live', parks⟩ := live.park running ready busy some' others event
    (fun _ => congrFun put.value _) (fun _ => put.elsewhere _ (by simp)) placed parked
  refine ⟨_, c, ?_, live', parks⟩
  rw [vTaskPlaceOnEventList]
  refine (congrArg (Option.bind · _) running).trans ?_
  simp only [Option.bind_eq_bind, Option.bind_some, inserted]
  exact added

theorem Live.placeOnUnorderedEventList (live : k.Live) {e : ε} (v : TickType) {n : TickType} (may : k.MayBlock n)
    (made : k.lists.list (.event e) ≠ none) (suspended : k.uxSchedulerSuspended ≠ 0) :
    ∃ k' c, k.vTaskPlaceOnUnorderedEventList e v n = some k' ∧ k'.Live ∧ k.Parks k' c n true := by
  obtain ⟨some', c, running, ready, busy⟩ := may
  let k₀ := k.listSET_LIST_ITEM_VALUE (.event c) (v ||| taskEVENT_LIST_ITEM_VALUE_IN_USE)
  obtain ⟨s₁, inserted, placed₁, put⟩ :=
    Tidied.insertEventEnd (k := k₀) (l := .event e) (live.placed.setEventValue _ _)
      (Option.isSome_iff_ne_none.mpr made) (live.toSteady.event_of_ready ready) trivial
  obtain ⟨others, event⟩ := placed_event put
  have ready₁ : IsReady { k with lists := s₁ } c := (others (.state c) (by simp)).trans ready
  obtain ⟨s', top, next, added, placed, parked⟩ :=
    prvAddCurrentTaskToDelayedList_spec (k := { k with lists := s₁ }) placed₁ running ready₁ n true
  have value : ∀ u, s₁.value (.state u) = k.lists.value (.state u) := by
    intro u
    rw [put.value]
    exact Lists.setValue_value_of_ne (by simp) _
  obtain ⟨live', parks⟩ := live.park running ready busy some' others event value
    (fun _ => put.elsewhere _ (by simp)) placed parked
  refine ⟨_, c, ?_, live', parks⟩
  rw [vTaskPlaceOnUnorderedEventList, configASSERT_pos suspended]
  refine (congrArg (Option.bind · _) running).trans ?_
  simp only [Option.bind_eq_bind, Option.bind_some]
  refine (congrArg (Option.bind · _) inserted).trans ?_
  exact added

omit [DecidableEq ε] in
/-- A task that waited has been made ready, and a switch asked for where it is above the
running one. -/
theorem Live.woken (live : k.Live) (aborted : τ → Bool) {t : τ} {s' : Lists (TaskItem τ) (KernelList ε)}
    {top : BitVec 32} {pending requested : Bool} (placed : Placed s' k.uxPriority top)
    (readied : Readied k t s') (waited : Waits k.lists t)
    (keepsPending : k.xYieldPending = true → pending = true)
    (keepsRequested : k.yieldRequested = true → requested = true)
    (asks : ∀ c, k.pxCurrentTCB = some c →
      k.uxPriority t ≤ k.uxPriority c ∨ pending = true ∨ requested = true) :
    Live
      { k with
        lists := s'
        uxTopReadyPriority := top
        xYieldPending := pending
        yieldRequested := requested
        ucDelayAborted := aborted } ∧
    Still k
      { k with
        lists := s'
        uxTopReadyPriority := top
        xYieldPending := pending
        yieldRequested := requested
        ucDelayAborted := aborted } fun u => u = t := by
  have steady : Steady
      { k with
        lists := s'
        uxTopReadyPriority := top
        xYieldPending := pending
        yieldRequested := requested } := by
    refine live.toSteady.ready (fun u => u = t) placed ?_ ?_ ?_ keepsPending keepsRequested ?_
    · rintro u rfl
      exact ⟨readied.state, readied.event⟩
    · exact fun u hu => readied.others u hu
    · rintro u rfl
      exact waited
    · rintro c hc u rfl
      exact asks c hc
  have still : Still k
      { k with
        lists := s'
        uxTopReadyPriority := top
        xYieldPending := pending
        yieldRequested := requested
        ucDelayAborted := aborted } fun u => u = t := by
    apply Frame.still
    · exact ⟨rfl, rfl, rfl, fun u hu => (readied.others u hu).1, fun u hu => (readied.others u hu).2,
        fun u _ => readied.value u, Walked.of readied.walk rfl rfl⟩
    · rintro u rfl d h
      rw [readied.state] at h
      cases h
  refine ⟨⟨⟨steady.unread, still.timely live.toTimely rfl, live.ticks, ?_⟩, live.running⟩, still⟩
  intro awake u
  by_cases hu : u = t
  · rw [hu, readied.event]
    simp
  · rw [(readied.others u hu).2]
    exact live.aside awake u

omit [DecidableEq ε] in
/-- While the scheduler is suspended the event item of a task that waits may be set aside. -/
theorem Live.setAside (live : k.Live) (pending : Bool) {t : τ} {s' : Lists (TaskItem τ) (KernelList ε)}
    (suspended : k.uxSchedulerSuspended ≠ 0) (placed : Placed s' k.uxPriority k.uxTopReadyPriority)
    (others : ∀ i, i ≠ .event t → s'.container i = k.lists.container i) (value : s'.value = k.lists.value)
    (readyLists : ∀ p, s'.list (.ready p) = k.lists.list (.ready p)) (waited : Waits k.lists t)
    (keepsPending : k.xYieldPending = true → pending = true) :
    Live { k with lists := s', xYieldPending := pending } ∧
      Still k { k with lists := s', xYieldPending := pending } fun u => u = t := by
  have state : ∀ u, s'.container (.state u) = k.lists.container (.state u) := fun u => others _ (by simp)
  have still : Still k { k with lists := s', xYieldPending := pending } fun u => u = t := by
    refine ⟨⟨rfl, rfl, rfl, fun u _ => state u, ?_, fun u _ => congrFun value _,
      Walked.of (Walk.same readyLists) rfl rfl⟩, ?_⟩
    · exact fun u hu => others _ (by simpa using hu)
    · exact fun u d h => ⟨(state u).symm.trans h, congrFun value _⟩
  have steady : Steady { k with lists := s', xYieldPending := pending } := by
    have home : k.lists.container (.state t) ≠ none := by
      obtain ⟨d, h⟩ | h := waited <;> simp [h]
    have notReady : ∀ p, k.lists.container (.state t) ≠ some (.ready p) := by
      intro p
      obtain ⟨d, h⟩ | h := waited <;> simp [h]
    refine live.toSteady.move (t := t) placed ?_ home ?_ ?_ ?_ ?_ keepsPending id ?_
    · exact fun u hu => ⟨state u, others _ (by simpa using hu)⟩
    · rw [state]
      exact home
    · rw [state]
    · intro l _
      rw [Waits, state]
      exact waited
    · intro idle
      obtain ⟨i, hi, ready⟩ := live.idle live.running
      obtain rfl : t = i := Option.some.inj (idle.symm.trans hi)
      exact absurd ready (notReady _)
    · intro _ _ h
      rw [state] at h
      exact absurd h (notReady _)
  refine ⟨⟨⟨steady, still.timely live.toTimely rfl, live.ticks, ?_⟩, live.running⟩, still⟩
  exact fun h => absurd h suspended

omit [DecidableEq τ] [DecidableEq ε] in
theorem Live.reset (live : k.Live) : Live { k with xNextTaskUnblockTime := k.nextWake } := by
  have timely := live.toTimely.reset live.placed
  rw [prvResetNextTaskUnblockTime_eq] at timely
  exact ⟨⟨live.toSteady.unread, timely, live.ticks, live.aside⟩, live.running⟩

omit [DecidableEq τ] [DecidableEq ε] in
/-- The head of an event list is an event item. -/
theorem event_head (placed : k.Tidied) {e : ε} (some : k.lists.members (.event e) ≠ []) :
    ∃ t, (k.lists.members (.event e)).head? = Option.some (.event t) ∧
      k.lists.container (.event t) = Option.some (.event e) := by
  obtain ⟨i, rest, members⟩ := List.exists_cons_of_ne_nil some
  obtain ⟨hi, contained⟩ := placed.member_event (l := .event e) (fun _ => id)
    (by rw [members]; exact List.mem_cons_self)
  refine ⟨i.owner, ?_, contained⟩
  rw [members, ← hi]
  rfl

omit [DecidableEq τ] [DecidableEq ε] in
theorem yieldThenReset (k : Scheduler τ ε) (above : Bool) :
    (if above then { k with xYieldPending := true } else k).prvResetNextTaskUnblockTime =
      { k with xYieldPending := above || k.xYieldPending, xNextTaskUnblockTime := k.nextWake } := by
  cases above <;> exact prvResetNextTaskUnblockTime_eq _

omit [DecidableEq τ] [DecidableEq ε] in
/-- A yield is asked for where the priority is above the running one. -/
theorem asks_above {c t : τ} (running : k.pxCurrentTCB = some c) {requested : Bool} (c' : τ)
    (hc : k.pxCurrentTCB = some c') :
    k.uxPriority t ≤ k.uxPriority c' ∨
      (decide (k.uxPriority c < k.uxPriority t) || k.xYieldPending) = true ∨ requested = true := by
  obtain rfl : c = c' := Option.some.inj (running.symm.trans hc)
  by_cases above : k.uxPriority c < k.uxPriority t
  · exact Or.inr (Or.inl (by simp [above]))
  · exact Or.inl (Fin.not_lt.mp above)

theorem Live.removeFromEventList (live : k.Live) {e : ε} (some' : k.lists.members (.event e) ≠ []) :
    ∃ k' above, k.xTaskRemoveFromEventList e = some (k', above) ∧ k'.Live ∧
      k.Still k' fun t => k.lists.container (.event t) = some (.event e) := by
  obtain ⟨t, head, hEvent⟩ := event_head live.placed some'
  obtain ⟨c, running, -⟩ := live.current
  have waited := live.waits t _ hEvent
  obtain ⟨l, home, notReady⟩ := waited.list
  have here : ∀ u, u = t → k.lists.container (.event u) = some (.event e) := by
    rintro u rfl
    exact hEvent
  by_cases awake : k.uxSchedulerSuspended = 0
  · obtain ⟨s₁, n, s₂, m, s₃, top, unlinked, removed, added, placed₃, readied, -⟩ :=
      live.placed.unblockEvent hEvent home notReady
    obtain ⟨live', still⟩ := live.woken k.ucDelayAborted placed₃ readied waited
      (fun h => by rw [h, Bool.or_true]) id (asks_above running)
    refine ⟨_, decide (k.uxPriority c < k.uxPriority t), ?_, live'.reset, ?_⟩
    · rw [xTaskRemoveFromEventList, head]
      simp only [Option.bind_eq_bind, Option.bind_some, TaskItem.owner, unlinked, if_pos awake, removed, added]
      refine (congrArg (Option.bind · _) running).trans ?_
      exact congrArg (fun j => some (j, _)) (yieldThenReset { k with lists := s₃, uxTopReadyPriority := top } _)
    · have all := still.mono here
      exact ⟨⟨all.clock, all.pended, all.inUse, all.state, all.event, all.value, all.walked⟩, all.delayed⟩
  · obtain ⟨s₁, unlinked, placed₁, taken⟩ := live.placed.removeEvent hEvent
    have free : s₁.container (.event t) = none := by rw [taken.container, Function.update_self]
    obtain ⟨s₂, setAside, placed₂, put⟩ :=
      Tidied.insertEventEnd (k := { k with lists := s₁ }) (l := .pendingReady) placed₁
        (placed₁.made .pendingReady rfl) free trivial
    have stays : ∀ i, i ≠ .event t → s₂.container i = k.lists.container i := by
      intro i hi
      rw [put.container, Function.update_of_ne hi, taken.container, Function.update_of_ne hi]
    have readyLists : ∀ p, s₂.list (.ready p) = k.lists.list (.ready p) :=
      fun p => (put.elsewhere _ (by simp)).trans (taken.elsewhere _ (by simp))
    obtain ⟨live', still⟩ := live.setAside (decide (k.uxPriority c < k.uxPriority t) || k.xYieldPending)
      awake placed₂ stays (put.value.trans taken.value) readyLists waited (fun h => by rw [h, Bool.or_true])
    have all := still.mono here
    refine ⟨_, decide (k.uxPriority c < k.uxPriority t), ?_, live'.reset,
      ⟨⟨all.clock, all.pended, all.inUse, all.state, all.event, all.value, all.walked⟩, all.delayed⟩⟩
    rw [xTaskRemoveFromEventList, head]
    simp only [Option.bind_eq_bind, Option.bind_some, TaskItem.owner, unlinked, if_neg awake, setAside]
    refine (congrArg (Option.bind · _) running).trans ?_
    exact congrArg (fun j => some (j, _)) (yieldThenReset { k with lists := s₂ } _)

omit [DecidableEq τ] [DecidableEq ε] in
theorem yieldPending_eq (k : Scheduler τ ε) (above : Bool) :
    (if above then { k with xYieldPending := true } else k) =
      { k with xYieldPending := above || k.xYieldPending } := by
  cases above <;> rfl

theorem Live.removeFromUnorderedEventList (live : k.Live) {t : τ} (v : TickType) {e : ε}
    (suspended : k.uxSchedulerSuspended ≠ 0) (hEvent : k.lists.container (.event t) = some (.event e)) :
    ∃ k' above, k.xTaskRemoveFromUnorderedEventList t v = some (k', above) ∧ k'.Live ∧
      k.Still k' fun u => u = t := by
  obtain ⟨c, running, -⟩ := live.current
  have waited := live.waits t _ hEvent
  obtain ⟨l, home, notReady⟩ := waited.list
  let k₀ := k.listSET_LIST_ITEM_VALUE (.event t) (v ||| taskEVENT_LIST_ITEM_VALUE_IN_USE)
  obtain ⟨s₁, n, s₂, m, s₃, top, unlinked, removed, added, placed₃, readied, -⟩ :=
    Tidied.unblockEvent (k := k₀) (live.placed.setEventValue _ _) hEvent home notReady
  have readied' : Readied k t s₃ := by
    refine ⟨readied.state, readied.event, readied.others, ?_, readied.walk⟩
    intro u
    rw [readied.value]
    exact Lists.setValue_value_of_ne (by simp) _
  obtain ⟨live', still⟩ := live.woken k.ucDelayAborted placed₃ readied' waited
    (fun h => by rw [h, Bool.or_true]) id (asks_above running)
  refine ⟨_, decide (k.uxPriority c < k.uxPriority t), ?_, live', still⟩
  rw [xTaskRemoveFromUnorderedEventList, configASSERT_pos suspended]
  simp only [Option.bind_eq_bind, Option.bind_some]
  refine (congrArg (Option.bind · _) unlinked).trans ?_
  simp only [Option.bind_some, removed, added]
  refine (congrArg (Option.bind · _) running).trans ?_
  exact congrArg (fun j => some (j, _)) (yieldPending_eq { k with lists := s₃, uxTopReadyPriority := top } _)

end Scheduler

end Blinky.Kernel
