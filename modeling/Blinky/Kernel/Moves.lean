import Blinky.Kernel.Walk
import Blinky.Kernel.Run

/-!
# What the scheduler's functions do to the lists

One lemma for each way a function moves items. Each says that the calls succeed, gives
the state they leave with its new lists and bitmap, and hands on `Placed`.
-/

namespace Blinky.Kernel
set_option autoImplicit false
open Blinky.Circular

namespace Scheduler

variable {τ ε : Type}

/-- `Placed`, of the scheduler's own lists. -/
abbrev Tidied (k : Scheduler τ ε) : Prop := Placed k.lists k.uxPriority k.uxTopReadyPriority

variable [DecidableEq τ] [DecidableEq ε] {k : Scheduler τ ε}

/-- The bit of a priority with no ready task is clear already. -/
theorem resetTop_of_clear {top : BitVec 32} {p : Priority} (clear : top.getLsbD p.val = false) :
    resetTop top p = top := by
  apply BitVec.eq_of_getLsbD_eq
  intro j _
  rw [resetTop_getLsbD]
  by_cases hj : j = p.val
  · simp [hj, clear]
  · simp [hj]

theorem uxListRemove_eq {s' : Lists (TaskItem τ) (KernelList ε)} {i : TaskItem τ} {l : KernelList ε}
    (h : k.lists.container i = some l) (removed : k.lists.remove i = some s') :
    k.uxListRemove i = some ({ k with lists := s' }, (s'.members l).length) := by
  simp [uxListRemove, h, removed]

theorem Tidied.removeState (placed : k.Tidied) {t : τ} {l : KernelList ε}
    (h : k.lists.container (.state t) = some l) :
    ∃ s', k.uxListRemove (.state t) = some ({ k with lists := s' }, (s'.members l).length) ∧
      Placed s' k.uxPriority (Placed.topAfter k.uxTopReadyPriority (s'.members l).length l) ∧
      Lists.Taken k.lists s' l (.state t) := by
  obtain ⟨s', removed, taken⟩ := placed.tidy.remove h
  exact ⟨s', uxListRemove_eq h removed, placed.leave h taken, taken⟩

theorem Tidied.removeEvent (placed : k.Tidied) {t : τ} {l : KernelList ε}
    (h : k.lists.container (.event t) = some l) :
    ∃ s', k.uxListRemove (.event t) = some ({ k with lists := s' }, (s'.members l).length) ∧
      Placed s' k.uxPriority k.uxTopReadyPriority ∧ Lists.Taken k.lists s' l (.event t) := by
  obtain ⟨s', removed, taken⟩ := placed.tidy.remove h
  exact ⟨s', uxListRemove_eq h removed, placed.leaveEvent taken, taken⟩

/-- Wherever the event item is, it is in no list afterwards. -/
theorem Tidied.removeEventItem (placed : k.Tidied) (t : τ) :
    ∃ s', k.removeEventItem t = some { k with lists := s' } ∧
      Placed s' k.uxPriority k.uxTopReadyPriority ∧
      s'.container = Function.update k.lists.container (.event t) none ∧ s'.value = k.lists.value ∧
      ∀ l, ¬ l.takesEvent → s'.list l = k.lists.list l := by
  cases h : k.lists.container (.event t) with
  | none =>
    refine ⟨k.lists, by simp [Scheduler.removeEventItem, h], placed, ?_, rfl, fun _ _ => rfl⟩
    rw [← h]
    exact (Function.update_eq_self _ _).symm
  | some l =>
    obtain ⟨s', removed, placed', taken⟩ := placed.removeEvent h
    refine ⟨s', by simp [Scheduler.removeEventItem, h, removed], placed', taken.container, taken.value, ?_⟩
    intro m hm
    apply taken.elsewhere
    rintro rfl
    exact hm (placed.event t m h)

/-- A free task becomes ready. -/
theorem Tidied.addReady (placed : k.Tidied) {t : τ} (free : k.lists.container (.state t) = none) :
    ∃ s', k.prvAddTaskToReadyList t =
        some { k with lists := s', uxTopReadyPriority := recordTop k.uxTopReadyPriority (k.uxPriority t) } ∧
      Placed s' k.uxPriority (recordTop k.uxTopReadyPriority (k.uxPriority t)) ∧
      Lists.Put k.lists s' (.ready (k.uxPriority t)) (.state t) ∧ Walk (fun u => u = t) [] k.lists s' := by
  obtain ⟨s', inserted, put, here⟩ := placed.tidy.insertEnd (placed.made (.ready (k.uxPriority t)) rfl) free
  refine ⟨s', ?_, placed.join free put rfl (fun d h => by cases h), put, Walk.put put here⟩
  simp [prvAddTaskToReadyList, portRECORD_READY_PRIORITY, vListInsertEnd, inserted, recordTop]

/-- A free task goes to the end of a list of tasks that are not ready. -/
theorem Tidied.insertState (placed : k.Tidied) {t : τ} {l : KernelList ε}
    (free : k.lists.container (.state t) = none) (takes : l.takesState (k.uxPriority t))
    (notReady : ∀ p, l ≠ .ready p) (notDelayed : ∀ d, l ≠ .delayed d) :
    ∃ s', k.vListInsertEnd l (.state t) = some { k with lists := s' } ∧
      Placed s' k.uxPriority k.uxTopReadyPriority ∧ Lists.Put k.lists s' l (.state t) := by
  have kernelList : l.isEvent = false := by
    cases l with
    | event e => cases takes
    | _ => rfl
  obtain ⟨s', inserted, put, -⟩ := placed.tidy.insertEnd (placed.made l kernelList) free
  have placed' := placed.join free put takes (fun d h => absurd h (notDelayed d))
  refine ⟨s', by simp [vListInsertEnd, inserted], ?_, put⟩
  cases l with
  | ready p => exact absurd rfl (notReady p)
  | _ => exact placed'

/-- A free task goes to its place in a delayed list. -/
theorem Tidied.insertDelayed (placed : k.Tidied) {t : τ} (d : Bool)
    (free : k.lists.container (.state t) = none) :
    ∃ s', k.vListInsert (.delayed d) (.state t) = some { k with lists := s' } ∧
      Placed s' k.uxPriority k.uxTopReadyPriority ∧ Lists.Put k.lists s' (.delayed d) (.state t) := by
  obtain ⟨s', inserted, put, order⟩ := placed.tidy.insert (placed.made (.delayed d) rfl) free
  refine ⟨s', by simp [vListInsert, inserted], ?_, put⟩
  apply placed.join free put trivial
  intro d' hd
  cases hd
  exact placed.sorted_insert put order

/-- A free event item goes to the end of an event list, or is set aside. -/
theorem Tidied.insertEventEnd (placed : k.Tidied) {t : τ} {l : KernelList ε} (made : (k.lists.list l).isSome)
    (free : k.lists.container (.event t) = none) (takes : l.takesEvent) :
    ∃ s', k.vListInsertEnd l (.event t) = some { k with lists := s' } ∧
      Placed s' k.uxPriority k.uxTopReadyPriority ∧ Lists.Put k.lists s' l (.event t) := by
  obtain ⟨s', inserted, put, -⟩ := placed.tidy.insertEnd made free
  exact ⟨s', by simp [vListInsertEnd, inserted], placed.joinEvent put takes, put⟩

/-- A free event item goes to its place in an event list. -/
theorem Tidied.insertEvent (placed : k.Tidied) {t : τ} {l : KernelList ε} (made : (k.lists.list l).isSome)
    (free : k.lists.container (.event t) = none) (takes : l.takesEvent) :
    ∃ s', k.vListInsert l (.event t) = some { k with lists := s' } ∧
      Placed s' k.uxPriority k.uxTopReadyPriority ∧ Lists.Put k.lists s' l (.event t) := by
  obtain ⟨s', inserted, put, _⟩ := placed.tidy.insert made free
  exact ⟨s', by simp [vListInsert, inserted], placed.joinEvent put takes, put⟩

omit [DecidableEq τ] [DecidableEq ε] in
/-- Leaving a list with the check that `taskRESET_READY_PRIORITY` makes: also where the list
was not a ready list, the bitmap comes out right. -/
theorem Tidied.reset (placed : k.Tidied) {t : τ} {l : KernelList ε} {s' : Lists (TaskItem τ) (KernelList ε)}
    (h : k.lists.container (.state t) = some l)
    (placed' : Placed s' k.uxPriority (Placed.topAfter k.uxTopReadyPriority (s'.members l).length l)) :
    (if (s'.members l).length = 0 then
        { k with lists := s' }.taskRESET_READY_PRIORITY (k.uxPriority t)
      else { k with lists := s' }) =
    { k with
      lists := s'
      uxTopReadyPriority := Placed.topAfter k.uxTopReadyPriority (s'.members l).length l } := by
  by_cases left : (s'.members l).length = 0
  · rw [if_pos left]
    have takes := placed.state t l h
    cases l with
    | ready q =>
      obtain rfl : q = k.uxPriority t := takes
      simp [taskRESET_READY_PRIORITY, portRESET_READY_PRIORITY, Placed.topAfter, left, resetTop]
    | _ =>
      simp only [taskRESET_READY_PRIORITY, Placed.topAfter]
      split
      case isFalse => rfl
      case isTrue empty =>
        have clear : k.uxTopReadyPriority.getLsbD (k.uxPriority t).val = false := by
          rw [← Bool.not_eq_true]
          intro set
          obtain ⟨u, hu⟩ := (placed'.bitmap (k.uxPriority t)).mp set
          have mem := placed'.tidy.mem_iff.mpr hu
          rw [List.eq_nil_of_length_eq_zero empty] at mem
          cases mem
        simp only [portRESET_READY_PRIORITY]
        rw [← resetTop, resetTop_of_clear clear]
  · rw [if_neg left]
    cases l with
    | ready q => simp [Placed.topAfter, left]
    | _ => rfl

/-! ## Tasks made ready -/

/-- `s'` has `t` ready and waiting for no event, and every other task where `k` has it. -/
structure Readied (k : Scheduler τ ε) (t : τ) (s' : Lists (TaskItem τ) (KernelList ε)) : Prop where
  state : s'.container (.state t) = some (.ready (k.uxPriority t))
  event : s'.container (.event t) = none
  others : ∀ u, u ≠ t → s'.container (.state u) = k.lists.container (.state u) ∧
    s'.container (.event u) = k.lists.container (.event u)
  value : ∀ u, s'.value (.state u) = k.lists.value (.state u)
  walk : Walk (fun u => u = t) [] k.lists s'

omit [DecidableEq ε] in
theorem readied_of_eq {t : τ} {s' : Lists (TaskItem τ) (KernelList ε)}
    (state : s'.container (.state t) = some (.ready (k.uxPriority t))) (event : s'.container (.event t) = none)
    (others : ∀ i : TaskItem τ, i ≠ .state t → i ≠ .event t → s'.container i = k.lists.container i)
    (value : ∀ u, s'.value (.state u) = k.lists.value (.state u)) (walk : Walk (fun u => u = t) [] k.lists s') :
    Readied k t s' where
  state := state
  event := event
  others := by
    intro u hu
    exact ⟨others _ (by simpa using hu) (by simp), others _ (by simp) (by simpa using hu)⟩
  value := value
  walk := walk

omit [DecidableEq τ] [DecidableEq ε] in
theorem topAfter_of_not_ready {l : KernelList ε} (notReady : ∀ p, l ≠ .ready p) {top : BitVec 32}
    {left : Nat} : Placed.topAfter top left l = top := by
  cases l with
  | ready p => exact absurd rfl (notReady p)
  | _ => rfl

/-- A task leaves the list it waits in, then any event list, and becomes ready. -/
theorem Tidied.unblock (placed : k.Tidied) {t : τ} {l : KernelList ε}
    (h : k.lists.container (.state t) = some l) (notReady : ∀ p, l ≠ .ready p) :
    ∃ s₁ n s₂ s₃ top, k.uxListRemove (.state t) = some ({ k with lists := s₁ }, n) ∧
      Scheduler.removeEventItem { k with lists := s₁ } t = some { k with lists := s₂ } ∧
      Scheduler.prvAddTaskToReadyList { k with lists := s₂ } t =
        some { k with lists := s₃, uxTopReadyPriority := top } ∧
      Placed s₃ k.uxPriority top ∧ Readied k t s₃ ∧
      s₃.members l = (k.lists.members l).erase (.state t) := by
  obtain ⟨s₁, removed, placed₁, taken⟩ := placed.removeState h
  rw [topAfter_of_not_ready notReady] at placed₁
  obtain ⟨s₂, unlinked, placed₂, container₂, value₂, members₂⟩ :=
    Tidied.removeEventItem (k := { k with lists := s₁ }) placed₁ t
  have free : s₂.container (.state t) = none := by
    rw [container₂, Function.update_of_ne (by simp), taken.container, Function.update_self]
  obtain ⟨s₃, added, placed₃, put, joins⟩ := Tidied.addReady (k := { k with lists := s₂ }) placed₂ free
  refine ⟨s₁, _, s₂, s₃, _, removed, unlinked, added, placed₃, readied_of_eq ?_ ?_ ?_ ?_ ?_, ?_⟩
  · rw [put.container, Function.update_self]
  · rw [put.container, Function.update_of_ne (by simp), container₂, Function.update_self]
  · intro i notState notEvent
    rw [put.container, Function.update_of_ne notState, container₂, Function.update_of_ne notEvent,
      taken.container, Function.update_of_ne notState]
  · intro u
    rw [put.value, value₂, taken.value]
  · exact ((Walk.taken taken).trans (Walk.same fun p => members₂ (.ready p) id)).trans joins
  · have noEvents : ¬ l.takesEvent := by
      have takes := placed.state t l h
      cases l <;> simp_all [KernelList.takesState, KernelList.takesEvent]
    rw [put.others l (notReady _), Lists.members_congr (members₂ l noEvents), taken.left]

/-- A task leaves an event list, then the list it waits in, and becomes ready. -/
theorem Tidied.unblockEvent (placed : k.Tidied) {t : τ} {l e : KernelList ε}
    (hEvent : k.lists.container (.event t) = some e) (h : k.lists.container (.state t) = some l)
    (notReady : ∀ p, l ≠ .ready p) :
    ∃ s₁ n s₂ m s₃ top, k.uxListRemove (.event t) = some ({ k with lists := s₁ }, n) ∧
      Scheduler.uxListRemove { k with lists := s₁ } (.state t) = some ({ k with lists := s₂ }, m) ∧
      Scheduler.prvAddTaskToReadyList { k with lists := s₂ } t =
        some { k with lists := s₃, uxTopReadyPriority := top } ∧
      Placed s₃ k.uxPriority top ∧ Readied k t s₃ ∧
      s₃.members e = (k.lists.members e).erase (.event t) := by
  obtain ⟨s₁, unlinked, placed₁, taken₁⟩ := placed.removeEvent hEvent
  have stays : s₁.container (.state t) = some l := by
    rw [taken₁.container, Function.update_of_ne (by simp), h]
  obtain ⟨s₂, removed, placed₂, taken⟩ := Tidied.removeState (k := { k with lists := s₁ }) placed₁ stays
  rw [topAfter_of_not_ready notReady] at placed₂
  have free : s₂.container (.state t) = none := by
    rw [taken.container, Function.update_self]
  obtain ⟨s₃, added, placed₃, put, joins⟩ := Tidied.addReady (k := { k with lists := s₂ }) placed₂ free
  refine ⟨s₁, _, s₂, _, s₃, _, unlinked, removed, added, placed₃, readied_of_eq ?_ ?_ ?_ ?_ ?_, ?_⟩
  · rw [put.container, Function.update_self]
  · rw [put.container, Function.update_of_ne (by simp), taken.container, Function.update_of_ne (by simp),
      taken₁.container, Function.update_self]
  · intro i notState notEvent
    rw [put.container, Function.update_of_ne notState, taken.container, Function.update_of_ne notState,
      taken₁.container, Function.update_of_ne notEvent]
  · intro u
    rw [put.value, taken.value, taken₁.value]
  · exact ((Walk.takenEvent taken₁ (placed.event t e hEvent)).trans (Walk.taken taken)).trans joins
  · have takes := placed.event t e hEvent
    have notHome : e ≠ l := by
      have home := placed.state t l h
      rintro rfl
      cases e <;> simp_all [KernelList.takesState, KernelList.takesEvent]
    have notReady' : e ≠ .ready (k.uxPriority t) := by
      rintro rfl
      exact takes
    rw [put.others e notReady', taken.others e notHome, taken₁.left]

/-- A task that waits for no event leaves the list it waits in and becomes ready. -/
theorem Tidied.resume (placed : k.Tidied) {t : τ} {l : KernelList ε}
    (hEvent : k.lists.container (.event t) = none) (h : k.lists.container (.state t) = some l)
    (notReady : ∀ p, l ≠ .ready p) :
    ∃ s₁ n s₂ top, k.uxListRemove (.state t) = some ({ k with lists := s₁ }, n) ∧
      Scheduler.prvAddTaskToReadyList { k with lists := s₁ } t =
        some { k with lists := s₂, uxTopReadyPriority := top } ∧
      Placed s₂ k.uxPriority top ∧ Readied k t s₂ := by
  obtain ⟨s₁, removed, placed₁, taken⟩ := placed.removeState h
  rw [topAfter_of_not_ready notReady] at placed₁
  have free : s₁.container (.state t) = none := by
    rw [taken.container, Function.update_self]
  obtain ⟨s₂, added, placed₂, put, joins⟩ := Tidied.addReady (k := { k with lists := s₁ }) placed₁ free
  refine ⟨s₁, _, s₂, _, removed, added, placed₂, readied_of_eq ?_ ?_ ?_ ?_ ?_⟩
  · rw [put.container, Function.update_self]
  · rw [put.container, Function.update_of_ne (by simp), taken.container, Function.update_of_ne (by simp), hEvent]
  · intro i notState notEvent
    rw [put.container, Function.update_of_ne notState, taken.container, Function.update_of_ne notState]
  · intro u
    rw [put.value, taken.value]
  · exact (Walk.taken taken).trans joins

/-! ## The loops -/

/-- Due at `now`: in the delayed list in use, with a wake time not after `now`. -/
def Due (k : Scheduler τ ε) (now : TickType) (t : τ) : Prop :=
  k.lists.container (.state t) = some (.delayed k.pxDelayedTaskList) ∧ k.lists.value (.state t) ≤ now

/-- The scheduler state that `unblockExpired` leaves: the tasks due are ready, nobody else
has moved, and the next wake time is no later than that of any task left. -/
structure Unblocked (k : Scheduler τ ε) (now : TickType) (s' : Lists (TaskItem τ) (KernelList ε))
    (next : TickType) : Prop where
  due : ∀ t, k.Due now t → s'.container (.state t) = some (.ready (k.uxPriority t)) ∧
    s'.container (.event t) = none
  others : ∀ t, ¬ k.Due now t → s'.container (.state t) = k.lists.container (.state t) ∧
    s'.container (.event t) = k.lists.container (.event t)
  value : ∀ t, s'.value (.state t) = k.lists.value (.state t)
  next : ∀ t, s'.container (.state t) = some (.delayed k.pxDelayedTaskList) → next ≤ s'.value (.state t)
  walk : Walk (k.Due now) [] k.lists s'

theorem le_portMAX_DELAY (v : TickType) : v ≤ portMAX_DELAY := by
  simp only [portMAX_DELAY]
  bv_omega

/-- The loop ends within as many rounds as there are tasks in the delayed list, and asks for
a switch where a task it readied is not below the running one. -/
theorem unblockExpired_spec (now : TickType) (current : τ) (fuel : Nat) (switch : Bool)
    (k : Scheduler τ ε) (placed : k.Tidied) (running : k.pxCurrentTCB = some current)
    (enough : (k.lists.members (.delayed k.pxDelayedTaskList)).length < fuel) :
    ∃ s' top next switch', k.unblockExpired now fuel switch =
        some ({ k with lists := s', uxTopReadyPriority := top, xNextTaskUnblockTime := next }, switch') ∧
      Placed s' k.uxPriority top ∧ k.Unblocked now s' next ∧ (switch = true → switch' = true) ∧
      ∀ t, k.Due now t → k.uxPriority current ≤ k.uxPriority t → switch' = true := by
  induction fuel generalizing k switch with
  | zero => omega
  | succ fuel ih =>
    have sorted := placed.sorted k.pxDelayedTaskList
    have mem_iff : ∀ t, k.lists.container (.state t) = some (.delayed k.pxDelayedTaskList) ↔
        TaskItem.state t ∈ k.lists.members (.delayed k.pxDelayedTaskList) :=
      fun t => placed.tidy.mem_iff.symm
    rw [unblockExpired]
    cases members : k.lists.members (.delayed k.pxDelayedTaskList) with
    | nil =>
      have none : ∀ t, ¬ k.Due now t := by
        intro t due
        rw [Due, mem_iff, members] at due
        cases due.1
      refine ⟨k.lists, k.uxTopReadyPriority, portMAX_DELAY, switch, rfl, placed,
        ⟨?_, ?_, ?_, ?_, Walk.same fun _ => rfl⟩, id, ?_⟩
      · exact fun t due => absurd due (none t)
      · exact fun t _ => ⟨rfl, rfl⟩
      · exact fun t => rfl
      · intro t h
        rw [mem_iff, members] at h
        cases h
      · exact fun t due => absurd due (none t)
    | cons i rest =>
      obtain ⟨hi, contained⟩ := placed.member_state (l := .delayed k.pxDelayedTaskList) id
        (by rw [members]; exact List.mem_cons_self)
      have first : ∀ t, k.lists.container (.state t) = some (.delayed k.pxDelayedTaskList) →
          k.lists.value (.state i.owner) ≤ k.lists.value (.state t) := by
        intro t h
        rw [members, List.pairwise_cons] at sorted
        rw [mem_iff, members, List.mem_cons] at h
        rw [← hi]
        obtain rfl | h := h
        · exact BitVec.le_refl _
        · exact sorted.1 _ h
      by_cases later : now < k.lists.value (.state i.owner)
      · have none : ∀ t, ¬ k.Due now t := by
          rintro t ⟨h, le⟩
          have head := first t h
          bv_omega
        refine ⟨k.lists, k.uxTopReadyPriority, k.lists.value (.state i.owner), switch,
          by simp only [if_pos later], placed, ⟨?_, ?_, ?_, first, Walk.same fun _ => rfl⟩, id, ?_⟩
        · exact fun t due => absurd due (none t)
        · exact fun t _ => ⟨rfl, rfl⟩
        · exact fun t => rfl
        · exact fun t due => absurd due (none t)
      · obtain ⟨s₁, n, s₂, s₃, top₃, removed, unlinked, added, placed₃, readied, left⟩ :=
          placed.unblock contained (by simp)
        let k₃ : Scheduler τ ε := { k with lists := s₃, uxTopReadyPriority := top₃ }
        have fewer : (s₃.members (.delayed k.pxDelayedTaskList)).length < fuel := by
          rw [left, List.length_erase_of_mem (placed.tidy.mem_iff.mpr contained)]
          rw [members] at enough ⊢
          simp only [List.length_cons] at enough ⊢
          omega
        obtain ⟨s', top', next, switch', run, placed', unblocked, kept, asked⟩ :=
          ih (switch || decide (k.uxPriority current ≤ k.uxPriority i.owner)) k₃ placed₃ running fewer
        have dueHead : k.Due now i.owner := ⟨contained, BitVec.not_lt.mp later⟩
        -- the head is not due any more, the others are as they were
        have headDone : ¬ k₃.Due now i.owner := by
          rintro ⟨h, _⟩
          rw [readied.state] at h
          cases h
        have due_iff : ∀ t, t ≠ i.owner → (k₃.Due now t ↔ k.Due now t) := by
          intro t ht
          rw [Due, Due, readied.value, (readied.others t ht).1]
        refine ⟨s', top', next, switch', ?_, placed', ⟨?_, ?_, ?_, unblocked.next, ?_⟩, ?_, ?_⟩
        · simp only [if_neg later, removed, unlinked, added, Option.bind_eq_bind, Option.bind_some]
          exact (congrArg (Option.bind · _) running).trans run
        · intro t due
          by_cases ht : t = i.owner
          · subst ht
            rw [(unblocked.others _ headDone).1, (unblocked.others _ headDone).2]
            exact ⟨readied.state, readied.event⟩
          · exact unblocked.due t ((due_iff t ht).mpr due)
        · intro t notDue
          have ht : t ≠ i.owner := fun h => notDue (h ▸ dueHead)
          obtain ⟨state, event⟩ := unblocked.others t (fun h => notDue ((due_iff t ht).mp h))
          exact ⟨state.trans (readied.others t ht).1, event.trans (readied.others t ht).2⟩
        · intro t
          rw [unblocked.value, readied.value]
        · have firstWalk : Walk (k.Due now) [] k.lists s₃ := readied.walk.mono (by rintro u rfl; exact dueHead)
          refine firstWalk.trans (unblocked.walk.mono ?_)
          intro t due
          exact (due_iff t fun h => headDone (h ▸ due)).mp due
        · intro h
          exact kept (by rw [h, Bool.true_or])
        · intro t due above
          by_cases ht : t = i.owner
          · subst ht
            exact kept (by rw [decide_eq_true above, Bool.or_true])
          · exact asked t ((due_iff t ht).mpr due) above

/-- The lists that `drainPendingReady` leaves: the tasks set aside are ready, nobody else has
moved. -/
structure Drained (k : Scheduler τ ε) (s' : Lists (TaskItem τ) (KernelList ε)) : Prop where
  pending : ∀ t, k.lists.container (.event t) = some .pendingReady →
    s'.container (.state t) = some (.ready (k.uxPriority t)) ∧ s'.container (.event t) = none
  others : ∀ t, k.lists.container (.event t) ≠ some .pendingReady →
    s'.container (.state t) = k.lists.container (.state t) ∧
      s'.container (.event t) = k.lists.container (.event t)
  value : ∀ t, s'.value (.state t) = k.lists.value (.state t)
  walk : Walk (fun t => k.lists.container (.event t) = some .pendingReady) [] k.lists s'

/-- The loop ends within as many rounds as tasks were set aside, and a yield is pending where a
task it readied is not below the running one. -/
theorem drainPendingReady_spec (current : τ) (fuel : Nat) (moved : Bool) (k : Scheduler τ ε)
    (placed : k.Tidied) (running : k.pxCurrentTCB = some current)
    (waiting : ∀ t, k.lists.container (.event t) = some .pendingReady →
      ∃ l, k.lists.container (.state t) = some l ∧ ∀ p, l ≠ .ready p)
    (enough : (k.lists.members .pendingReady).length < fuel) :
    ∃ s' top yield moved', k.drainPendingReady fuel moved =
        some ({ k with lists := s', uxTopReadyPriority := top, xYieldPending := yield }, moved') ∧
      Placed s' k.uxPriority top ∧ k.Drained s' ∧ (k.xYieldPending = true → yield = true) ∧
      ∀ t, k.lists.container (.event t) = some .pendingReady → k.uxPriority current ≤ k.uxPriority t →
        yield = true := by
  induction fuel generalizing k moved with
  | zero => omega
  | succ fuel ih =>
    rw [drainPendingReady]
    cases members : k.lists.members .pendingReady with
    | nil =>
      have none : ∀ t, k.lists.container (.event t) ≠ some .pendingReady := by
        intro t h
        have mem := placed.tidy.mem_iff.mpr h
        rw [members] at mem
        cases mem
      refine ⟨k.lists, k.uxTopReadyPriority, k.xYieldPending, moved, rfl, placed,
        ⟨?_, ?_, ?_, Walk.same fun _ => rfl⟩, id, ?_⟩
      · exact fun t h => absurd h (none t)
      · exact fun t _ => ⟨rfl, rfl⟩
      · exact fun t => rfl
      · exact fun t h => absurd h (none t)
    | cons i rest =>
      obtain ⟨hi, contained⟩ := placed.member_event (l := .pendingReady) (fun p => id)
        (by rw [members]; exact List.mem_cons_self)
      obtain ⟨l, home, notReady⟩ := waiting i.owner contained
      obtain ⟨s₁, n, s₂, m, s₃, top₃, unlinked, removed, added, placed₃, readied, left⟩ :=
        placed.unblockEvent contained home notReady
      let yield₃ := if k.uxPriority current ≤ k.uxPriority i.owner then true else k.xYieldPending
      let k₃ : Scheduler τ ε :=
        { k with lists := s₃, uxTopReadyPriority := top₃, xYieldPending := yield₃ }
      have fewer : (s₃.members .pendingReady).length < fuel := by
        rw [left, List.length_erase_of_mem (placed.tidy.mem_iff.mpr contained)]
        rw [members] at enough ⊢
        simp only [List.length_cons] at enough ⊢
        omega
      have pending_iff : ∀ t, s₃.container (.event t) = some .pendingReady ↔
          t ≠ i.owner ∧ k.lists.container (.event t) = some .pendingReady := by
        intro t
        by_cases ht : t = i.owner
        · subst ht
          simp [readied.event]
        · rw [(readied.others t ht).2]
          simp [ht]
      have waiting₃ : ∀ t, k₃.lists.container (.event t) = some .pendingReady →
          ∃ l, k₃.lists.container (.state t) = some l ∧ ∀ p, l ≠ .ready p := by
        intro t h
        obtain ⟨ht, h⟩ := (pending_iff t).mp h
        obtain ⟨l, hl, notReady⟩ := waiting t h
        exact ⟨l, (readied.others t ht).1.trans hl, notReady⟩
      obtain ⟨s', top', yield, moved', run, placed', drained, kept, asked⟩ :=
        ih true k₃ placed₃ running waiting₃ fewer
      refine ⟨s', top', yield, moved', ?_, placed', ⟨?_, ?_, ?_, ?_⟩, ?_, ?_⟩
      · have record : (if k.uxPriority current ≤ k.uxPriority i.owner then
              { k with lists := s₃, uxTopReadyPriority := top₃, xYieldPending := true }
            else { k with lists := s₃, uxTopReadyPriority := top₃ }) = k₃ := by
          by_cases above : k.uxPriority current ≤ k.uxPriority i.owner
          · simp only [k₃, yield₃, if_pos above]
          · simp only [k₃, yield₃, if_neg above]
        simp only [unlinked, removed, added, Option.bind_eq_bind, Option.bind_some]
        refine (congrArg (Option.bind · _) running).trans ?_
        simp only [Option.bind_some, record]
        exact run
      · intro t h
        by_cases ht : t = i.owner
        · subst ht
          have done := drained.others i.owner (fun h => ((pending_iff _).mp h).1 rfl)
          exact ⟨done.1.trans readied.state, done.2.trans readied.event⟩
        · exact drained.pending t ((pending_iff t).mpr ⟨ht, h⟩)
      · intro t h
        have ht : t ≠ i.owner := fun e => h (e ▸ contained)
        obtain ⟨state, event⟩ := drained.others t (fun h' => h ((pending_iff t).mp h').2)
        exact ⟨state.trans (readied.others t ht).1, event.trans (readied.others t ht).2⟩
      · intro t
        rw [drained.value, readied.value]
      · have firstWalk : Walk (fun t => k.lists.container (.event t) = some .pendingReady) [] k.lists s₃ :=
          readied.walk.mono (by rintro u rfl; exact contained)
        exact firstWalk.trans (drained.walk.mono fun t h => ((pending_iff t).mp h).2)
      · intro h
        apply kept
        simp only [k₃, yield₃, h, ite_self]
      · intro t h above
        by_cases ht : t = i.owner
        · subst ht
          exact kept (by simp only [k₃, yield₃, if_pos above])
        · exact asked t ((pending_iff t).mpr ⟨ht, h⟩) above

end Scheduler

end Blinky.Kernel
