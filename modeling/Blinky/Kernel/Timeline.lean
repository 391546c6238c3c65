import Blinky.Kernel.Safety
import Blinky.Lib.Alarm

/-!
# Time

The tick count and the two delayed lists are a wheel that stands for a clock which never
wraps: `run_shows` says so of every state the kernel reaches, with the ticks kept while
the scheduler is suspended counted apart. A task that blocks for `n` ticks is an alarm set
`n` ahead, so it wakes at its tick and at no other, through wraps, suspensions and replays.
-/

namespace Blinky.Kernel
set_option autoImplicit false
open Blinky.Alarm

variable {τ ε : Type}

namespace Scheduler

variable {k k' : Scheduler τ ε}

/-- The delayed lists as a wheel of 32 bits. -/
def delays (k : Scheduler τ ε) : Wheel 32 τ where
  count := k.xTickCount
  inUse := k.pxDelayedTaskList
  place := fun t =>
    match k.lists.container (.state t) with
    | some (.delayed d) => some (d, k.lists.value (.state t))
    | _ => none

theorem delays_place {t : τ} {d : Bool} {v : TickType} :
    k.delays.place t = some (d, v) ↔
      k.lists.container (.state t) = some (.delayed d) ∧ k.lists.value (.state t) = v := by
  simp only [delays]
  split
  case h_1 d' h => simp [h]
  case h_2 h =>
    refine iff_of_false (by simp) ?_
    rintro ⟨here, -⟩
    exact h d here

theorem delays_none {t : τ} :
    k.delays.place t = none ↔ ∀ d, k.lists.container (.state t) ≠ some (.delayed d) := by
  constructor
  · intro none d h
    have here := (delays_place (k := k)).mpr ⟨h, rfl⟩
    rw [none] at here
    cases here
  · intro away
    cases place : k.delays.place t with
    | none => rfl
    | some p => exact absurd (delays_place.mp place).1 (away p.1)

/-- Where both items of a task are where they were, so is its alarm. -/
theorem delays_congr {t : τ} (state : k'.lists.container (.state t) = k.lists.container (.state t))
    (value : k'.lists.value (.state t) = k.lists.value (.state t)) : k'.delays.place t = k.delays.place t := by
  simp only [delays, state, value]

theorem inUseAfter_eq (steady : k.Steady) : k.delays.inUseAfter = k.delayedAfterTick := by
  simp only [Wheel.inUseAfter, delays, delayedAfterTick, steady.overflow]
  rfl

/-- Whoever is in no delayed list. -/
def gone (k : Scheduler τ ε) (t : τ) : Bool := (k.delays.place t).isNone

theorem gone_iff {t : τ} : k.gone t = true ↔ k.delays.place t = none := Option.isNone_iff_eq_none

variable [DecidableEq τ]

/-- A counted tick is a tick of the wheel. -/
theorem TickedTo.wheel (ticked : k.TickedTo k') (steady : k.Steady) : k.delays.Ticked k'.delays := by
  have due_iff : ∀ t, k.delays.Due t ↔ k.DueAtTick t := by
    intro t
    simp only [Wheel.Due, delays_place, inUseAfter_eq steady, DueAtTick]
    constructor
    · rintro ⟨v, ⟨here, rfl⟩, le⟩
      exact ⟨here, le⟩
    · rintro ⟨here, le⟩
      exact ⟨_, ⟨here, rfl⟩, le⟩
  constructor
  case count => exact ticked.clock
  case inUse => exact ticked.inUse.trans (inUseAfter_eq steady).symm
  case due =>
    intro t due
    rw [delays_none, (ticked.lists.due t ((due_iff t).mp due)).1]
    simp
  case others =>
    intro t due
    exact delays_congr (ticked.lists.others t (mt (due_iff t).mpr due)).1 (ticked.lists.value t)

theorem Still.wheel {touched : τ → Prop} (still : k.Still k' touched) : k.delays.Fewer k'.delays where
  count := still.clock
  inUse := still.inUse
  place := by
    intro t some'
    obtain ⟨⟨d, v⟩, here⟩ := Option.ne_none_iff_exists'.mp some'
    obtain ⟨h, rfl⟩ := delays_place.mp here
    obtain ⟨was, same⟩ := still.delayed t d h
    exact delays_congr (h.trans was.symm) same

/-- Parking the running task sets its alarm. -/
theorem Parks.wheel {c : τ} {n : TickType} {forever : Bool} (parks : k.Parks k' c n forever) (steady : k.Steady)
    (timed : ¬ (n = portMAX_DELAY ∧ forever)) : k.delays.Put k'.delays c n where
  count := parks.clock
  inUse := parks.inUse
  here := by
    have list : k.parkingList n forever =
        .delayed (if k.xTickCount + n < k.xTickCount then !k.pxDelayedTaskList else k.pxDelayedTaskList) := by
      rw [parkingList, if_neg timed, steady.overflow]
      split <;> rfl
    exact delays_place.mpr ⟨parks.parked.trans (congrArg some list), parks.wake _ list⟩
  others := fun u hu => delays_congr (parks.state u hu) (parks.value u hu)

/-- A task parked without a timeout is in no delayed list, and nobody else moves. -/
theorem Parks.fewer {c : τ} {n : TickType} {forever : Bool} (parks : k.Parks k' c n forever)
    (untimed : n = portMAX_DELAY ∧ forever) : k.Still k' fun u => u = c := by
  apply parks.toFrame.still
  rintro u rfl d
  rw [parks.parked, parkingList, if_pos untimed]
  simp

/-- The wheel after any number of counted ticks. -/
theorem Ticks.shows {c : Clock τ} {n : Nat} (ticks : k.Ticks n k') (shows' : k.delays.Shows c) :
    k'.delays.Shows (c.ticks n) := by
  induction ticks with
  | none => exact shows'
  | tick _ awake ticked ih => exact ih.tick (ticked.wheel awake.toSteady)

theorem Still.shows {c : Clock τ} {touched : τ → Prop} (still : k.Still k' touched) (shows' : k.delays.Shows c) :
    k'.delays.Shows (c.clear k'.gone) ∧
      ∀ t, ¬ touched t → (c.clear k'.gone).alarm t = c.alarm t := by
  refine ⟨shows'.fewer still.wheel k'.gone fun _ => gone_iff, ?_⟩
  intro t ht
  exact shows'.clear_alarm gone_iff (delays_congr (still.state t ht) (still.value t ht))

/-- Over counted ticks a task stays where it is or becomes ready. -/
theorem Ticks.place {n : Nat} (ticks : k.Ticks n k') (t : τ) :
    k'.lists.container (.state t) = k.lists.container (.state t) ∨
      ∃ p, k'.lists.container (.state t) = some (.ready p) := by
  induction ticks with
  | none => exact Or.inl rfl
  | @tick n j j' _ awake ticked ih =>
    by_cases due : j.DueAtTick t
    · exact Or.inr ⟨_, (ticked.lists.due t due).1⟩
    · rw [(ticked.lists.others t due).1]
      exact ih

variable [DecidableEq ε]

/-- What an event does to the clock: it goes on by `m` ticks, and whoever the event does not
touch stays where it is, or becomes ready when its alarm rings. -/
structure Advances (k k' : Scheduler τ ε) (e : Event τ ε) (c c' : Clock τ) (m : Nat) : Prop where
  shows' : k'.delays.Shows c'
  now : c'.now = c.now + m
  pended : c'.now + k'.uxPendedTicks = c.now + k.uxPendedTicks + if e.isTick then 1 else 0
  alarm : ∀ t, ¬ e.Touches k t → c'.alarm t = (c.ticks m).alarm t
  place : ∀ t, ¬ e.Touches k t → k'.lists.container (.state t) = k.lists.container (.state t) ∨
    ∃ p, k'.lists.container (.state t) = some (.ready p)

omit [DecidableEq ε] in
theorem Effect.advances {e : Event τ ε} {c : Clock τ} (effect : k.Effect e k') (steady : k.Steady)
    (shows' : k.delays.Shows c) : ∃ c' m, k.Advances k' e c c' m := by
  cases effect with
  | ticked awake pended ticked =>
    refine ⟨c.tick, 1, shows'.tick (ticked.wheel steady), rfl, ?_, fun _ _ => rfl, ?_⟩
    · rw [pended]
      simp only [Clock.tick, Event.isTick, if_true]
      omega
    · intro t _
      by_cases due : k.DueAtTick t
      · exact Or.inr ⟨_, (ticked.lists.due t due).1⟩
      · exact Or.inl (ticked.lists.others t due).1
  | pended suspended pended still =>
    obtain ⟨after, alarm⟩ := still.shows shows'
    refine ⟨_, 0, after, rfl, ?_, fun t _ => alarm t id, fun t _ => Or.inl (still.state t id)⟩
    rw [pended]
    simp only [Clock.clear, Event.isTick, if_true]
    omega
  | resumed outer resumed =>
    obtain ⟨zero, j, j', still, ticks, count, inUse, lists, -⟩ := resumed
    obtain ⟨after, alarm⟩ := still.shows shows'
    have final := ticks.shows after
    have same : j'.delays = k'.delays := by
      simp only [delays, count, inUse, lists]
    rw [same] at final
    refine ⟨_, k.uxPendedTicks, final, Clock.ticks_now _ _, ?_, ?_, ?_⟩
    · rw [Clock.ticks_now, zero]
      rfl
    · exact fun t ht => Clock.ticks_congr (c := c.clear j.gone) (d := c) rfl (alarm t ht) _
    · intro t ht
      rw [← lists]
      obtain same | ready := ticks.place t
      · exact Or.inl (same.trans (still.state t ht))
      · exact Or.inr ready
  | @parked _ _ u n forever blocks positive parks =>
    have quiet : e.isTick = false := by
      cases e <;> first | rfl | cases blocks
    have other : ∀ t, ¬ e.Touches k t → t ≠ u := by
      rintro t ht rfl
      apply ht
      cases e <;> first | exact ⟨parks.running, parks.ready⟩ | cases blocks
    by_cases untimed : n = portMAX_DELAY ∧ forever
    · have still := parks.fewer untimed
      obtain ⟨after, alarm⟩ := still.shows shows'
      refine ⟨_, 0, after, rfl, ?_, fun t ht => alarm t (other t ht), fun t ht => Or.inl (parks.state t (other t ht))⟩
      rw [quiet, parks.pended]
      rfl
    · have put := parks.wheel steady untimed
      refine ⟨_, 0, shows'.put positive put, rfl, ?_, ?_, fun t ht => Or.inl (parks.state t (other t ht))⟩
      · rw [quiet, parks.pended]
        rfl
      · exact fun t ht => Function.update_of_ne (other t ht) _ _
  | still quiet others still =>
    obtain ⟨after, alarm⟩ := still.shows shows'
    refine ⟨_, 0, after, rfl, ?_, fun t ht => alarm t (mt (others t) ht),
      fun t ht => Or.inl (still.state t (mt (others t) ht))⟩
    rw [quiet, still.pended]
    rfl

/-! ## Over runs -/

/-- The events of the run are not about `t`: only the clock moves it. -/
inductive Apart (t : τ) (k : Scheduler τ ε) : List (Event τ ε) → Scheduler τ ε → Prop where
  | start : Apart t k [] k
  | step {past : List (Event τ ε)} {j j' : Scheduler τ ε} {e : Event τ ε} (apart : Apart t k past j)
      (allowed : e.Allowed j) (untouched : ¬ e.Touches j t) (next : j.step e = some j') : Apart t k (e :: past) j'

/-- A replay of events that are never about `t`. -/
theorem Apart.replay {t : τ} {past : List (Event τ ε)} {j j' : Scheduler τ ε} (es : List (Event τ ε))
    (apart : Apart t k past j)
    (never : ∀ e ∈ es, ∀ i : Scheduler τ ε, ¬ e.Touches i t) (replayed : j.replay es = some j') :
    Apart t k (es.reverse ++ past) j' := by
  induction es generalizing j past with
  | nil =>
    cases replayed
    exact apart
  | cons e es ih =>
    rw [Scheduler.replay] at replayed
    split_ifs at replayed with allowed
    obtain ⟨j₁, next, rest⟩ := Option.bind_eq_some_iff.mp replayed
    rw [List.reverse_cons, List.append_assoc]
    have first := apart.step allowed (never e List.mem_cons_self j) next
    exact ih first (fun e' he => never e' (List.mem_cons_of_mem _ he)) rest

/-- One event of a run that has reached the live phase. -/
theorem Live.advance {e : Event τ ε} {c : Clock τ} (live : k.Live) (allowed : e.Allowed k)
    (next : k.step e = some k') (shows' : k.delays.Shows c) :
    k'.Live ∧ ∃ c' m, k.Advances k' e c c' m := by
  obtain ⟨k₁, run, live', effect⟩ := live.step allowed
  obtain rfl := Option.some.inj (next.symm.trans run)
  exact ⟨live', effect.advances live.toSteady shows'⟩

/-- The scheduler starts with its count at zero and nobody delayed. -/
structure Started (k : Scheduler τ ε) : Prop where
  count : k.xTickCount = 0
  pended : k.uxPendedTicks = 0
  notDelayed : ∀ t d, k.lists.container (.state t) ≠ some (.delayed d)

omit [DecidableEq τ] [DecidableEq ε] in
theorem Started.shows (started : k.Started) : k.delays.Shows ⟨0, fun _ => none⟩ where
  count := started.count
  none := by
    intro t
    exact iff_of_true (delays_none.mpr (started.notDelayed t)) rfl
  some := by
    intro t d v time here
    exact absurd (delays_place.mp here).1 (started.notDelayed t d)

/-- Before the scheduler runs no tick comes; the event that starts it leaves it `Started`. -/
theorem Kept.start (kept : k.Kept) (stopped : k.xSchedulerRunning = false) {e : Event τ ε} (allowed : e.Allowed k)
    (next : k.step e = some k') :
    e.isTick = false ∧ (k'.xSchedulerRunning = true → k'.Started) := by
  have booting : k'.Booted → k'.xSchedulerRunning = true → k'.Started := by
    intro booted running
    exact absurd running (by simp [booted.stopped])
  cases kept with
  | live live => exact absurd live.running (by simp [stopped])
  | cold cold =>
    cases e with
    | create t v =>
      obtain ⟨k₁, run, booted, -⟩ := cold.create t v
      obtain rfl := Option.some.inj (next.symm.trans run)
      exact ⟨rfl, booting booted⟩
    | start idle =>
      obtain ⟨k₁, created, booted, ready⟩ := cold.create idle portPRIVILEGE_BIT
      obtain ⟨k₂, run, -, count, pended, notDelayed⟩ := vTaskStartScheduler_spec created booted ready
      obtain rfl := Option.some.inj (next.symm.trans run)
      exact ⟨rfl, fun _ => ⟨count, pended, notDelayed⟩⟩
    | createEventList e =>
      obtain rfl := Option.some.inj next
      exact ⟨rfl, fun running => absurd running (by simp [vListInitialise, stopped])⟩
    | _ => simp [Event.Allowed, stopped] at allowed
  | booted booted =>
    cases e with
    | create t v =>
      obtain ⟨k₁, run, booted', -⟩ := booted.create v allowed.1 allowed.2
      obtain rfl := Option.some.inj (next.symm.trans run)
      exact ⟨rfl, booting booted'⟩
    | start idle =>
      obtain ⟨k₁, created, booted', ready⟩ := booted.create portPRIVILEGE_BIT allowed.2.1 allowed.2.2
      obtain ⟨k₂, run, -, count, pended, notDelayed⟩ := vTaskStartScheduler_spec created booted' ready
      obtain rfl := Option.some.inj (next.symm.trans run)
      exact ⟨rfl, fun _ => ⟨count, pended, notDelayed⟩⟩
    | createEventList e =>
      obtain rfl := Option.some.inj next
      exact ⟨rfl, fun running => absurd running (by simp [vListInitialise, stopped])⟩
    | _ => simp [Event.Allowed, stopped] at allowed

/-- In every state the running scheduler reaches, its tick count and its delayed lists stand for
a clock that has seen every tick interrupt but those still pended. -/
theorem run_shows {past : List (Event τ ε)} {j : Scheduler τ ε} (reset : k.Reset) (run : Run k past j) :
    if j.xSchedulerRunning then
      ∃ c, j.delays.Shows c ∧ c.now + j.uxPendedTicks = past.countP Event.isTick
    else past.countP Event.isTick = 0 := by
  induction run with
  | start => simp [reset.xSchedulerRunning]
  | @step past i j e before allowed next ih =>
    have kept := run_kept reset before
    by_cases running : i.xSchedulerRunning = true
    · rw [if_pos running] at ih
      obtain ⟨c, shows', counted⟩ := ih
      obtain ⟨live, c', m, advances⟩ := (kept.toLive running).advance allowed next shows'
      rw [if_pos live.running]
      refine ⟨c', advances.shows', ?_⟩
      rw [advances.pended, counted, List.countP_cons]
    · have stopped : i.xSchedulerRunning = false := by simpa using running
      obtain ⟨quiet, started⟩ := kept.start stopped allowed next
      rw [if_neg running] at ih
      have none : (e :: past).countP Event.isTick = 0 := by
        rw [List.countP_cons, ih, quiet]
        rfl
      by_cases starts : j.xSchedulerRunning = true
      · rw [if_pos starts, none]
        exact ⟨_, (started starts).shows, by rw [(started starts).pended]⟩
      · rw [if_neg starts, none]

/-- No tick is lost: the tick count and the ticks pended while the scheduler is suspended make up
the tick interrupts that have come. -/
theorem ticks_conserved {past : List (Event τ ε)} {j : Scheduler τ ε} (reset : k.Reset) (run : Run k past j)
    (running : j.xSchedulerRunning = true) :
    j.xTickCount + BitVec.ofNat 32 j.uxPendedTicks = BitVec.ofNat 32 (past.countP Event.isTick) := by
  have shows' := run_shows reset run
  rw [if_pos running] at shows'
  obtain ⟨c, stands, counted⟩ := shows'
  rw [← counted, BitVec.ofNat_add]
  exact congrArg (· + _) stands.count

theorem ticks_conserved_played :
    (played [.suspendAll, .tick, .tick] (by decide)).xTickCount + BitVec.ofNat 32 2 = BitVec.ofNat 32 2 :=
  ticks_conserved atReset_reset (played_run [.suspendAll, .tick, .tick] (by decide)) (by decide)

/-! ## Sleeping -/

/-- A task that blocks is parked. -/
theorem Live.parks (live : k.Live) {e : Event τ ε} {n : TickType} {forever : Bool}
    (blocks : e.blocksFor = some (n, forever)) (allowed : e.Allowed k) (next : k.step e = some k') :
    n ≠ 0 ∧ k'.Live ∧ ∃ c, k.Parks k' c n forever := by
  cases e with
  | block n' forever' =>
    cases blocks
    obtain ⟨k₁, c, run, live', parks⟩ := live.block forever allowed.2
    obtain rfl := Option.some.inj (next.symm.trans run)
    exact ⟨allowed.2.1, live', c, parks⟩
  | placeOnEventList v n' =>
    cases blocks
    obtain ⟨k₁, c, run, live', parks⟩ := live.placeOnEventList allowed.2.1 allowed.2.2
    obtain rfl := Option.some.inj (next.symm.trans run)
    exact ⟨allowed.2.1.1, live', c, parks⟩
  | placeOnUnorderedEventList v x n' =>
    cases blocks
    obtain ⟨-, may, made, suspended⟩ := allowed
    obtain ⟨k₁, c, run, live', parks⟩ := live.placeOnUnorderedEventList x may made suspended
    obtain rfl := Option.some.inj (next.symm.trans run)
    exact ⟨may.1, live', c, parks⟩
  | _ => cases blocks

end Scheduler

end Blinky.Kernel
