import Blinky.Kernel.ListEffects
import Blinky.Kernel.Tasks

/-!
# Where a task's items may be

`Placed` is what the scheduler keeps of its lists between any two list calls: a state
item is in the ready list of its task's priority or in a list of tasks that are not
ready, an event item in an event list or set aside, the bitmap has exactly the
priorities with a ready task, and the delayed lists are sorted by wake time. An item may
be in no list at all, so one lemma for each list call carries the invariant through
every function.
-/

namespace Blinky.Kernel
set_option autoImplicit false
open Blinky.Circular

variable {τ ε : Type}

namespace KernelList

/-- The list of an event object, the only kind made while the kernel runs. -/
def isEvent : KernelList ε → Bool
  | .event _ => true
  | _ => false

/-- The lists for the state item of a task of priority `p`. -/
def takesState (p : Priority) : KernelList ε → Prop
  | .ready q => q = p
  | .delayed _ => True
  | .suspended => True
  | .waitingTermination => True
  | .pendingReady => False
  | .event _ => False

/-- The lists for an event item. -/
def takesEvent : KernelList ε → Prop
  | .pendingReady => True
  | .event _ => True
  | _ => False

end KernelList

/-! ## The bitmap -/

def recordTop (top : BitVec 32) (p : Priority) : BitVec 32 := top ||| 1#32 <<< p.val

def resetTop (top : BitVec 32) (p : Priority) : BitVec 32 := top &&& ~~~(1#32 <<< p.val)

theorem bit_getLsbD (p : Priority) (j : Nat) : (1#32 <<< p.val).getLsbD j = decide (j = p.val) := by
  have bound : p.val < 5 := p.isLt
  simp only [BitVec.getLsbD_shiftLeft, BitVec.getLsbD_one, Bool.and_eq_decide, Bool.not_eq_true',
    decide_eq_false_iff_not, Nat.not_lt, decide_eq_true_eq, decide_eq_decide]
  omega

theorem recordTop_getLsbD (top : BitVec 32) (p : Priority) (j : Nat) :
    (recordTop top p).getLsbD j = (top.getLsbD j || decide (j = p.val)) := by
  rw [recordTop, BitVec.getLsbD_or, bit_getLsbD]

theorem resetTop_getLsbD (top : BitVec 32) (p : Priority) (j : Nat) :
    (resetTop top p).getLsbD j = (top.getLsbD j && !decide (j = p.val)) := by
  rw [resetTop, BitVec.getLsbD_and, BitVec.getLsbD_not, bit_getLsbD]
  by_cases h : j < 32
  · simp [h]
  · rw [BitVec.getLsbD_of_ge top j (by omega)]
    simp

/-! ## The invariant -/

structure Placed (s : Lists (TaskItem τ) (KernelList ε)) (prio : τ → Priority) (top : BitVec 32) :
    Prop where
  tidy : s.Tidy
  made : ∀ l, l.isEvent = false → (s.list l).isSome
  state : ∀ t l, s.container (.state t) = some l → l.takesState (prio t)
  event : ∀ t l, s.container (.event t) = some l → l.takesEvent
  bitmap : ∀ p : Priority, top.getLsbD p.val = true ↔ ∃ t, s.container (.state t) = some (.ready p)
  small : ∀ j, configMAX_PRIORITIES ≤ j → top.getLsbD j = false
  sorted : ∀ d, (s.members (.delayed d)).Pairwise fun i j => s.value i ≤ s.value j

namespace Placed

variable {s s' : Lists (TaskItem τ) (KernelList ε)} {prio : τ → Priority} {top : BitVec 32}

/-- A list for state items has nothing else in it. -/
theorem member_state (placed : Placed s prio top) {l : KernelList ε} (noEvents : ¬ l.takesEvent)
    {i : TaskItem τ} (h : i ∈ s.members l) : i = .state i.owner ∧ s.container (.state i.owner) = some l := by
  have contained := placed.tidy.mem_iff.mp h
  cases i with
  | state t => exact ⟨rfl, contained⟩
  | event t => exact absurd (placed.event t l contained) noEvents

theorem member_event (placed : Placed s prio top) {l : KernelList ε} (noStates : ∀ p, ¬ l.takesState p)
    {i : TaskItem τ} (h : i ∈ s.members l) : i = .event i.owner ∧ s.container (.event i.owner) = some l := by
  have contained := placed.tidy.mem_iff.mp h
  cases i with
  | state t => exact absurd (placed.state t l contained) (noStates _)
  | event t => exact ⟨rfl, contained⟩

/-- A list for state items is empty when no task is there. -/
theorem members_eq_nil_iff (placed : Placed s prio top) {l : KernelList ε} (noEvents : ¬ l.takesEvent) :
    s.members l = [] ↔ ∀ t, s.container (.state t) ≠ some l := by
  constructor
  · intro none t h
    have mem := placed.tidy.mem_iff.mpr h
    rw [none] at mem
    cases mem
  · intro none
    apply List.eq_nil_iff_forall_not_mem.mpr
    intro i h
    exact none i.owner (placed.member_state noEvents h).2

/-- The invariant reads which lists there are, who is in them and in what order. -/
theorem congr (placed : Placed s prio top) (tidy : s'.Tidy) (container : s'.container = s.container)
    (value : s'.value = s.value) (members : ∀ l, s'.members l = s.members l)
    (made : ∀ l, (s'.list l).isSome = (s.list l).isSome) : Placed s' prio top where
  tidy := tidy
  made := by
    intro l hl
    rw [made]
    exact placed.made l hl
  state := by
    rw [container]
    exact placed.state
  event := by
    rw [container]
    exact placed.event
  bitmap := by
    rw [container]
    exact placed.bitmap
  small := placed.small
  sorted := by
    intro d
    rw [members, value]
    exact placed.sorted d

/-- Priorities change of tasks that are not ready. -/
theorem reprioritise (placed : Placed s prio top) {prio' : τ → Priority}
    (same : ∀ t p, s.container (.state t) = some (.ready p) → prio' t = prio t) : Placed s prio' top where
  tidy := placed.tidy
  made := placed.made
  state := by
    intro t l h
    have before := placed.state t l h
    cases l with
    | ready p =>
      rw [same t p h]
      exact before
    | _ => exact before
  event := placed.event
  bitmap := placed.bitmap
  small := placed.small
  sorted := placed.sorted

variable [DecidableEq τ]

theorem setValue (placed : Placed s prio top) {i : TaskItem τ} (v : TickType)
    (notDelayed : ∀ d, i ∉ s.members (.delayed d)) : Placed (s.setValue i v) prio top where
  tidy := placed.tidy.setValue i v
  made := placed.made
  state := placed.state
  event := placed.event
  bitmap := placed.bitmap
  small := placed.small
  sorted := by
    intro d
    refine List.Pairwise.imp_of_mem ?_ (placed.sorted d)
    intro a b ha hb le
    have na : a ≠ i := fun h => notDelayed d (h ▸ ha)
    have nb : b ≠ i := fun h => notDelayed d (h ▸ hb)
    rw [Lists.setValue_value_of_ne na, Lists.setValue_value_of_ne nb]
    exact le

theorem setEventValue (placed : Placed s prio top) (t : τ) (v : TickType) :
    Placed (s.setValue (.event t) v) prio top := by
  apply placed.setValue
  intro d h
  cases (placed.member_state (l := .delayed d) id h).1

variable [DecidableEq ε]

theorem sorted_taken (placed : Placed s prio top) {l : KernelList ε} {i : TaskItem τ}
    (taken : Lists.Taken s s' l i) (d : Bool) :
    (s'.members (.delayed d)).Pairwise fun i j => s'.value i ≤ s'.value j := by
  rw [taken.value]
  by_cases hl : KernelList.delayed d = l
  · rw [hl, taken.left, ← hl]
    exact (placed.sorted d).sublist List.erase_sublist
  · rw [taken.others _ hl]
    exact placed.sorted d

/-- An event item leaves its list. -/
theorem leaveEvent (placed : Placed s prio top) {l : KernelList ε} {t : τ}
    (taken : Lists.Taken s s' l (.event t)) : Placed s' prio top where
  tidy := taken.tidy
  made := by
    intro k hk
    rw [taken.made]
    exact placed.made k hk
  state := by
    intro u k h
    rw [taken.container, Function.update_of_ne (by simp)] at h
    exact placed.state u k h
  event := by
    intro u k h
    rw [taken.container] at h
    by_cases hu : u = t
    · simp [hu] at h
    · rw [Function.update_of_ne (by simpa using hu)] at h
      exact placed.event u k h
  bitmap := by
    intro p
    rw [taken.container]
    simp only [ne_eq, reduceCtorEq, not_false_eq_true, Function.update_of_ne]
    exact placed.bitmap p
  small := placed.small
  sorted := placed.sorted_taken taken

/-- The bitmap after a state item has left the list `l`, which has `left` members now. -/
def topAfter (top : BitVec 32) (left : Nat) : KernelList ε → BitVec 32
  | .ready q => if left = 0 then resetTop top q else top
  | _ => top

/-- A state item leaves its list. -/
theorem leave (placed : Placed s prio top) {l : KernelList ε} {t : τ}
    (h : s.container (.state t) = some l) (taken : Lists.Taken s s' l (.state t)) :
    Placed s' prio (topAfter top (s'.members l).length l) := by
  have state : ∀ u k, s'.container (.state u) = some k → u ≠ t ∧ s.container (.state u) = some k := by
    intro u k hk
    rw [taken.container] at hk
    by_cases hu : u = t
    · simp [hu] at hk
    · rw [Function.update_of_ne (by simpa using hu)] at hk
      exact ⟨hu, hk⟩
  have others : ∀ u k, u ≠ t → s.container (.state u) = some k → s'.container (.state u) = some k := by
    intro u k hu hk
    rw [taken.container, Function.update_of_ne (by simpa using hu)]
    exact hk
  -- away from the list that was left, a priority has the tasks it had
  have elsewhere : ∀ p, l ≠ .ready p →
      ((∃ u, s'.container (.state u) = some (.ready p)) ↔ ∃ u, s.container (.state u) = some (.ready p)) := by
    intro p ne
    constructor
    · rintro ⟨u, hu⟩
      exact ⟨u, (state u _ hu).2⟩
    · rintro ⟨u, hu⟩
      refine ⟨u, others u _ ?_ hu⟩
      rintro rfl
      rw [h] at hu
      exact ne (Option.some.inj hu)
  have event : ∀ u k, s'.container (.event u) = some k → k.takesEvent := by
    intro u k hk
    rw [taken.container, Function.update_of_ne (by simp)] at hk
    exact placed.event u k hk
  constructor
  case tidy => exact taken.tidy
  case made =>
    intro k hk
    rw [taken.made]
    exact placed.made k hk
  case state => exact fun u k hk => placed.state u k (state u k hk).2
  case event => exact event
  case sorted => exact placed.sorted_taken taken
  case small =>
    intro j hj
    have before := placed.small j hj
    cases l with
    | ready q =>
      simp only [topAfter]
      split
      · rw [resetTop_getLsbD, before, Bool.false_and]
      · exact before
    | _ => exact before
  case bitmap =>
    intro p
    cases l with
    | ready q =>
      have empty : (s'.members (.ready q)).length = 0 ↔ ∀ u, s'.container (.state u) ≠ some (.ready q) := by
        rw [List.length_eq_zero_iff]
        constructor
        · intro none u hu
          have mem := taken.tidy.mem_iff.mpr hu
          rw [none] at mem
          cases mem
        · intro none
          apply List.eq_nil_iff_forall_not_mem.mpr
          intro i hi
          have contained := taken.tidy.mem_iff.mp hi
          cases i with
          | state u => exact none u contained
          | event u => exact event u _ contained
      by_cases hp : p = q
      · subst hp
        simp only [topAfter]
        split
        case isTrue gone =>
          rw [resetTop_getLsbD]
          simpa using empty.mp gone
        case isFalse some =>
          have before := (placed.bitmap p).mpr ⟨t, h⟩
          rw [empty, not_forall] at some
          simp only [before, true_iff]
          exact some.imp fun _ => not_not.mp
      · rw [elsewhere p (by simpa using Ne.symm hp), ← placed.bitmap p]
        simp only [topAfter]
        split
        · rw [resetTop_getLsbD]
          have ne : p.val ≠ q.val := fun e => hp (Fin.ext e)
          simp [ne]
        · rfl
    | _ =>
      rw [elsewhere p (by simp)]
      exact placed.bitmap p

omit [DecidableEq ε] in
/-- A free event item enters an event list. -/
theorem joinEvent (placed : Placed s prio top) {l : KernelList ε} {t : τ}
    (put : Lists.Put s s' l (.event t)) (takes : l.takesEvent) : Placed s' prio top where
  tidy := put.tidy
  made := by
    intro k hk
    rw [put.made]
    exact placed.made k hk
  state := by
    intro u k h
    rw [put.container, Function.update_of_ne (by simp)] at h
    exact placed.state u k h
  event := by
    intro u k h
    rw [put.container] at h
    by_cases hu : u = t
    · simp only [hu, Function.update_self, Option.some.injEq] at h
      exact h ▸ takes
    · rw [Function.update_of_ne (by simpa using hu)] at h
      exact placed.event u k h
  bitmap := by
    intro p
    rw [put.container]
    simp only [ne_eq, reduceCtorEq, not_false_eq_true, Function.update_of_ne]
    exact placed.bitmap p
  small := placed.small
  sorted := by
    intro d
    have ne : KernelList.delayed d ≠ l := by
      rintro rfl
      exact takes
    rw [put.value, put.others _ ne]
    exact placed.sorted d

/-- The bitmap after a state item has entered the list `l`. -/
def topWith (top : BitVec 32) : KernelList ε → BitVec 32
  | .ready q => recordTop top q
  | _ => top

/-- A free state item enters a list. -/
theorem join (placed : Placed s prio top) {l : KernelList ε} {t : τ} (free : s.container (.state t) = none)
    (put : Lists.Put s s' l (.state t)) (takes : l.takesState (prio t))
    (sorted : ∀ d, l = .delayed d →
      (s'.members (.delayed d)).Pairwise fun i j => s'.value i ≤ s'.value j) :
    Placed s' prio (topWith top l) := by
  have here : s'.container (.state t) = some l := by rw [put.container, Function.update_self]
  have others : ∀ u, u ≠ t → s'.container (.state u) = s.container (.state u) := by
    intro u hu
    rw [put.container, Function.update_of_ne (by simpa using hu)]
  constructor
  case tidy => exact put.tidy
  case made =>
    intro k hk
    rw [put.made]
    exact placed.made k hk
  case state =>
    intro u k h
    by_cases hu : u = t
    · rw [hu, here, Option.some.injEq] at h
      rw [hu, ← h]
      exact takes
    · rw [others u hu] at h
      exact placed.state u k h
  case event =>
    intro u k h
    rw [put.container, Function.update_of_ne (by simp)] at h
    exact placed.event u k h
  case sorted =>
    intro d
    by_cases hd : l = .delayed d
    · exact sorted d hd
    · rw [put.value, put.others _ (Ne.symm hd)]
      exact placed.sorted d
  case small =>
    intro j hj
    have before := placed.small j hj
    cases l with
    | ready q =>
      have bound : q.val < configMAX_PRIORITIES := q.isLt
      have ne : j ≠ q.val := by omega
      rw [topWith, recordTop_getLsbD, before]
      simp [ne]
    | _ => exact before
  case bitmap =>
    intro p
    have elsewhere : l ≠ .ready p →
        ((∃ u, s'.container (.state u) = some (.ready p)) ↔ ∃ u, s.container (.state u) = some (.ready p)) := by
      intro ne
      apply exists_congr
      intro u
      by_cases hu : u = t
      · rw [hu, here, free]
        simpa using ne
      · rw [others u hu]
    cases l with
    | ready q =>
      rw [topWith, recordTop_getLsbD]
      by_cases hp : p = q
      · subst hp
        simp only [decide_true, Bool.or_true, true_iff]
        exact ⟨t, here⟩
      · rw [elsewhere (by simpa using Ne.symm hp), ← placed.bitmap p]
        have ne : p.val ≠ q.val := fun e => hp (Fin.ext e)
        simp [ne]
    | _ =>
      rw [elsewhere (by simp)]
      exact placed.bitmap p

omit [DecidableEq ε] in
/-- Put in a delayed list in the order of wake times, a task leaves it sorted. -/
theorem sorted_insert (placed : Placed s prio top) {d : Bool} {t : τ}
    (put : Lists.Put s s' (.delayed d) (.state t))
    (order : s'.members (.delayed d) =
      (s.members (.delayed d)).takeWhile (fun j => s.value j ≤ s.value (.state t)) ++
        .state t :: (s.members (.delayed d)).dropWhile (fun j => s.value j ≤ s.value (.state t))) :
    (s'.members (.delayed d)).Pairwise fun i j => s'.value i ≤ s'.value j := by
  rw [put.value, order]
  exact Cursor.sorted_insert (r := fun i j => s.value i ≤ s.value j)
    (fun x y z => BitVec.le_trans) (fun x y => BitVec.le_total _ _) _ (placed.sorted d)

end Placed

end Blinky.Kernel
