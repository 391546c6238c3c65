import Mathlib.Algebra.Order.Ring.Nat
import Mathlib.Logic.Function.Basic

/-!
# Alarms on a clock that wraps round

`Clock` is the purpose: a clock that never wraps and at most one alarm for each sleeper.
`Wheel` is the machine: a counter of `w` bits and two lists, one for the alarms of this
round of the counter and one for those of the next, which change places at every wrap. An
alarm is at most one round ahead, so the two lists are enough: `Shows` says which clock a
wheel stands for, and every operation of the wheel keeps it.
-/

namespace Blinky.Alarm
set_option autoImplicit false

variable {α : Type} {w : Nat}

/-! ## The clock -/

structure Clock (α : Type) where
  now : Nat
  alarm : α → Option Nat

namespace Clock

/-- The clock goes on, and the alarms set for the new time ring. -/
def tick (c : Clock α) : Clock α where
  now := c.now + 1
  alarm := fun a => if c.alarm a = some (c.now + 1) then none else c.alarm a

def set [DecidableEq α] (c : Clock α) (a : α) (n : Nat) : Clock α :=
  { c with alarm := Function.update c.alarm a (some (c.now + n)) }

/-- The alarms of the sleepers that `gone` holds of are taken off. -/
def clear (c : Clock α) (gone : α → Bool) : Clock α :=
  { c with alarm := fun a => if gone a then none else c.alarm a }

/-- `n` ticks, one after the other. -/
def ticks (c : Clock α) : Nat → Clock α
  | 0 => c
  | n + 1 => (c.ticks n).tick

theorem ticks_now (c : Clock α) (n : Nat) : (c.ticks n).now = c.now + n := by
  induction n with
  | zero => rfl
  | succ n ih => rw [ticks, tick, ih, Nat.add_assoc]

/-- Ticks do the same to an alarm on any clock that shows the same time. -/
theorem ticks_congr {c d : Clock α} {a : α} (now : c.now = d.now) (alarm : c.alarm a = d.alarm a) (n : Nat) :
    (c.ticks n).alarm a = (d.ticks n).alarm a := by
  induction n with
  | zero => exact alarm
  | succ n ih => simp only [ticks, tick, ih, ticks_now, now]

end Clock

/-! ## The wheel -/

/-- The counter, which list is in use, and where every sleeper is, with the count it wakes at. -/
structure Wheel (w : Nat) (α : Type) where
  count : BitVec w
  inUse : Bool
  place : α → Option (Bool × BitVec w)

namespace Wheel

/-- The list in use after the next tick. -/
def inUseAfter (p : Wheel w α) : Bool := if p.count + 1 = 0 then !p.inUse else p.inUse

/-- The sleeper is in the list that is in use after the next tick, at a count then reached. -/
def Due (p : Wheel w α) (a : α) : Prop := ∃ v, p.place a = some (p.inUseAfter, v) ∧ v ≤ p.count + 1

/-- `q` is `p` after a tick that took exactly the sleepers due out of their list. -/
structure Ticked (p q : Wheel w α) : Prop where
  count : q.count = p.count + 1
  inUse : q.inUse = p.inUseAfter
  due : ∀ a, p.Due a → q.place a = none
  others : ∀ a, ¬ p.Due a → q.place a = p.place a

/-- `q` is `p` with some sleepers taken out of their lists. -/
structure Fewer (p q : Wheel w α) : Prop where
  count : q.count = p.count
  inUse : q.inUse = p.inUse
  place : ∀ a, q.place a ≠ none → q.place a = p.place a

/-- `q` is `p` with `a` in the list its alarm belongs to, `n` counts from now. -/
structure Put (p q : Wheel w α) (a : α) (n : BitVec w) : Prop where
  count : q.count = p.count
  inUse : q.inUse = p.inUse
  here : q.place a = some (if p.count + n < p.count then !p.inUse else p.inUse, p.count + n)
  others : ∀ b, b ≠ a → q.place b = p.place b

/-- The wheel stands for the clock: alarms are in the future and less than a round ahead, and
the list in use has those of the round that the clock is in. -/
structure Shows (p : Wheel w α) (c : Clock α) : Prop where
  count : p.count = BitVec.ofNat w c.now
  none : ∀ a, p.place a = none ↔ c.alarm a = none
  some : ∀ a d v time, p.place a = some (d, v) → c.alarm a = some time →
    c.now < time ∧ time < c.now + 2 ^ w ∧ v = BitVec.ofNat w time ∧
      (d = p.inUse ↔ time / 2 ^ w = c.now / 2 ^ w)

end Wheel

/-! ## Rounds of the counter -/

/-- The next time is in the same round, or the first of the next one. -/
theorem round_succ {round : Nat} (some : 0 < round) (now : Nat) :
    ((now + 1) / round = now / round ∧ (now + 1) % round ≠ 0) ∨
      ((now + 1) / round = now / round + 1 ∧ (now + 1) % round = 0) := by
  have before := Nat.div_add_mod now round
  have bound := Nat.mod_lt now some
  by_cases wraps : now % round + 1 = round
  · have next : now + 1 = round * (now / round + 1) := by
      rw [Nat.mul_add, Nat.mul_one]
      omega
    right
    rw [next, Nat.mul_div_cancel_left _ some, Nat.mul_mod_right]
    exact ⟨rfl, rfl⟩
  · have next : now + 1 = now % round + 1 + round * (now / round) := by omega
    have small : now % round + 1 < round := by omega
    left
    rw [next, Nat.add_mul_div_left _ _ some, Nat.div_eq_of_lt small, Nat.add_mul_mod_self_left,
      Nat.mod_eq_of_lt small]
    omega

/-- A time less than a round ahead is in this round or in the next. -/
theorem round_ahead {round now time : Nat} (later : now < time) (near : time < now + round) :
    time / round = now / round ∨ time / round = now / round + 1 := by
  have some : 0 < round := by omega
  have low : now / round ≤ time / round := Nat.div_le_div_right (Nat.le_of_lt later)
  have high : time / round ≤ (now + round) / round := Nat.div_le_div_right (Nat.le_of_lt near)
  rw [Nat.add_div_right _ some] at high
  omega

/-- A time still to come is the next one where it is in the next one's round and not past its
count. -/
theorem reached_iff {round now time : Nat} (later : now < time) :
    (time / round = (now + 1) / round ∧ time % round ≤ (now + 1) % round) ↔ time = now + 1 := by
  constructor
  · rintro ⟨same, le⟩
    have timeIs := Nat.div_add_mod time round
    have nextIs := Nat.div_add_mod (now + 1) round
    rw [same] at timeIs
    omega
  · rintro rfl
    exact ⟨rfl, Nat.le_refl _⟩

/-- Adding a count less than a round wraps exactly where it leaves the round. -/
theorem wraps_iff {round now n : Nat} (some : 0 < round) (short : n < round) :
    (now + n) % round < now % round ↔ (now + n) / round ≠ now / round := by
  have nowIs := Nat.div_add_mod now round
  have timeIs := Nat.div_add_mod (now + n) round
  have timeBound := Nat.mod_lt (now + n) some
  have nowBound := Nat.mod_lt now some
  constructor
  · intro less same
    rw [same] at timeIs
    omega
  · intro leaves
    have ahead : (now + n) / round = now / round + 1 := by
      have low : now / round ≤ (now + n) / round := Nat.div_le_div_right (Nat.le_add_right ..)
      have high : (now + n) / round ≤ (now + round) / round := Nat.div_le_div_right (by omega)
      rw [Nat.add_div_right _ some] at high
      omega
    rw [ahead, Nat.mul_add, Nat.mul_one] at timeIs
    omega

/-! ## The wheel stands for the clock -/

namespace Wheel

variable {p q : Wheel w α} {c : Clock α}

theorem Shows.next (shows' : p.Shows c) : p.count + 1 = BitVec.ofNat w (c.now + 1) := by
  rw [shows'.count, BitVec.ofNat_add]
  rfl

/-- The list in use after the next tick has the alarms of the round that the next tick is in. -/
theorem Shows.inUseAfter_iff (shows' : p.Shows c) {a : α} {d : Bool} {v : BitVec w} {time : Nat}
    (here : p.place a = Option.some (d, v)) (set : c.alarm a = Option.some time) :
    d = p.inUseAfter ↔ time / 2 ^ w = (c.now + 1) / 2 ^ w := by
  obtain ⟨later, near, -, list⟩ := shows'.some a d v time here set
  have wraps : p.count + 1 = 0 ↔ (c.now + 1) % 2 ^ w = 0 := by
    rw [shows'.next, ← BitVec.toNat_inj, BitVec.toNat_ofNat]
    simp
  have ahead := round_ahead later near
  rw [inUseAfter]
  obtain ⟨same, notZero⟩ | ⟨next, zero⟩ := round_succ (Nat.two_pow_pos w) c.now
  · rw [if_neg (fun h => notZero (wraps.mp h)), same]
    exact list
  · rw [if_pos (wraps.mpr zero), next]
    have other : d = !p.inUse ↔ ¬ d = p.inUse := by cases d <;> cases p.inUse <;> simp
    rw [other, list]
    omega

/-- The wheel finds a sleeper due exactly when its alarm is set for the next tick. -/
theorem Shows.due_iff (shows' : p.Shows c) (a : α) : p.Due a ↔ c.alarm a = Option.some (c.now + 1) := by
  constructor
  · rintro ⟨v, here, le⟩
    have placed : p.place a ≠ Option.none := by simp [here]
    obtain ⟨time, set⟩ := Option.ne_none_iff_exists'.mp (mt (shows'.none a).mpr placed)
    obtain ⟨later, -, rfl, -⟩ := shows'.some a _ v time here set
    have round := (shows'.inUseAfter_iff here set).mp rfl
    rw [shows'.next, BitVec.le_def, BitVec.toNat_ofNat, BitVec.toNat_ofNat] at le
    rw [set, (reached_iff later).mp ⟨round, le⟩]
  · intro set
    have alarmed : c.alarm a ≠ Option.none := by simp [set]
    obtain ⟨⟨d, v⟩, here⟩ := Option.ne_none_iff_exists'.mp (mt (shows'.none a).mp alarmed)
    obtain ⟨-, -, rfl, -⟩ := shows'.some a d v _ here set
    have round := (shows'.inUseAfter_iff here set).mpr rfl
    refine ⟨_, round ▸ here, ?_⟩
    rw [shows'.next]
    exact BitVec.le_refl _

theorem Shows.tick (shows' : p.Shows c) (ticked : p.Ticked q) : q.Shows c.tick where
  count := by
    rw [ticked.count, shows'.next]
    rfl
  none := by
    intro a
    by_cases due : p.Due a
    · simp [ticked.due a due, Clock.tick, (shows'.due_iff a).mp due]
    · rw [ticked.others a due, shows'.none]
      simp [Clock.tick, mt (shows'.due_iff a).mpr due]
  some := by
    intro a d v time here set
    have notDue : ¬ p.Due a := by
      intro due
      rw [ticked.due a due] at here
      cases here
    have notNext := mt (shows'.due_iff a).mpr notDue
    rw [ticked.others a notDue] at here
    simp only [Clock.tick, if_neg notNext] at set
    obtain ⟨later, near, value, -⟩ := shows'.some a d v time here set
    have ne : time ≠ c.now + 1 := by
      rintro rfl
      exact notNext set
    rw [ticked.inUse, shows'.inUseAfter_iff here set]
    refine ⟨?_, ?_, value, Iff.rfl⟩
    · show c.now + 1 < time
      omega
    · show time < c.now + 1 + 2 ^ w
      omega

theorem Shows.fewer (shows' : p.Shows c) (fewer : p.Fewer q) (gone : α → Bool)
    (isGone : ∀ a, gone a = true ↔ q.place a = Option.none) : q.Shows (c.clear gone) where
  count := fewer.count.trans shows'.count
  none := by
    intro a
    by_cases h : q.place a = Option.none
    · simp [Clock.clear, (isGone a).mpr h, h]
    · have stays : gone a = false := by simpa using mt (isGone a).mp h
      simp [Clock.clear, stays, fewer.place a h, shows'.none]
  some := by
    intro a d v time here set
    have h : q.place a ≠ Option.none := by simp [here]
    have stays : gone a = false := by simpa using mt (isGone a).mp h
    simp only [Clock.clear, stays, Bool.false_eq_true, if_false] at set
    rw [fewer.place a h] at here
    rw [fewer.inUse]
    exact shows'.some a d v time here set

/-- Taking the alarms off leaves those of the sleepers that stay. -/
theorem Shows.clear_alarm (shows' : p.Shows c) {gone : α → Bool} {a : α}
    (isGone : gone a = true ↔ q.place a = Option.none) (same : q.place a = p.place a) :
    (c.clear gone).alarm a = c.alarm a := by
  by_cases h : gone a = true
  · have none := isGone.mp h
    rw [same, shows'.none] at none
    simp only [Clock.clear, h, if_true, none]
  · simp only [Clock.clear, h, Bool.false_eq_true, if_false]

theorem Shows.put [DecidableEq α] (shows' : p.Shows c) {a : α} {n : BitVec w} (ahead : n ≠ 0)
    (put : p.Put q a n) : q.Shows (c.set a n.toNat) := by
  have wraps : p.count + n < p.count ↔ (c.now + n.toNat) / 2 ^ w ≠ c.now / 2 ^ w := by
    rw [← wraps_iff (Nat.two_pow_pos w) n.isLt, BitVec.lt_def, BitVec.toNat_add, shows'.count,
      BitVec.toNat_ofNat, Nat.mod_add_mod]
  have some' : 0 < n.toNat := by
    apply Nat.pos_of_ne_zero
    intro zero
    exact ahead (BitVec.eq_of_toNat_eq (zero.trans (by simp)))
  constructor
  case count => exact put.count.trans shows'.count
  case none =>
    intro b
    by_cases hb : b = a
    · subst hb
      simp [Clock.set, put.here]
    · simp only [Clock.set, Function.update_of_ne hb, put.others b hb]
      exact shows'.none b
  case some =>
    intro b d v time here set
    by_cases hb : b = a
    · subst hb
      simp only [Clock.set, Function.update_self, Option.some.injEq] at set
      rw [put.here, Option.some.injEq, Prod.mk.injEq] at here
      obtain ⟨rfl, rfl⟩ := here
      subst set
      refine ⟨?_, ?_, ?_, ?_⟩
      · show c.now < c.now + n.toNat
        omega
      · have bound := n.isLt
        show c.now + n.toNat < c.now + 2 ^ w
        omega
      · rw [shows'.count, BitVec.ofNat_add, BitVec.ofNat_toNat, BitVec.setWidth_eq]
      · rw [put.inUse]
        show _ ↔ (c.now + n.toNat) / 2 ^ w = c.now / 2 ^ w
        by_cases wrapped : p.count + n < p.count
        · rw [if_pos wrapped]
          exact iff_of_false (by simp) (wraps.mp wrapped)
        · rw [if_neg wrapped]
          exact iff_of_true rfl (not_not.mp (mt wraps.mpr wrapped))
    · simp only [Clock.set, Function.update_of_ne hb] at set
      rw [put.others b hb] at here
      rw [put.inUse]
      exact shows'.some b d v time here set

end Wheel

end Blinky.Alarm
