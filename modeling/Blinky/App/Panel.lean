import Blinky.App.Leds

/-!
# The application as two independent toggles

What the two tasks are for: a panel of two LEDs, each inverted by its own task
and by nothing else. On the panel a toggle is one atomic operation. The running
system refines it: its LEDs are what the atomic toggles make of a dark panel, in
the order of the writes (`blinky_refines_panel`). And since a task writes once
in four of its steps, each LED depends only on how often the scheduler has
picked its task (`led_eq_picks`).
-/

namespace Blinky.App
set_option autoImplicit false
open Interleave Hal

/-- A turn is one `gioToggleBit` and a delay. -/
theorem toggleTurn_eq (bit : BitVec 32) (ticks : Nat) : toggleTurn bit ticks =
    Prog.bind (gioToggleBit .gioPORTB bit) fun _ => vTaskDelay ticks := by
  rw [gioToggleBit_eq]
  rfl

/-! ## The panel -/

/-- Which LEDs are on. -/
abbrev Panel := Task → Bool

def Panel.dark : Panel := fun _ => false

def Panel.toggle (p : Panel) (t : Task) : Panel := Function.update p t (!p t)

/-- The toggles of the others do not count. -/
theorem Panel.foldl_toggle (p : Panel) (ts : List Task) (t : Task) :
    ts.foldl Panel.toggle p t = (p t ^^ odd (ts.count t)) := by
  induction ts generalizing p with
  | nil => simp [odd]
  | cons u ts ih =>
    rw [List.foldl_cons, ih, Panel.toggle]
    by_cases own : t = u
    · subst own
      rw [Function.update_self, List.count_cons_self, odd_succ]
      cases p t <;> cases odd (ts.count t) <;> rfl
    · rw [Function.update_of_ne own, List.count_cons_of_ne fun h => own h.symm]

/-- The panel a module shows: the latch bits of the two pins. -/
def panel (s : Gio) : Panel := fun t => s.portB.DOUT.getLsbD t.pin.toNat

/-- A write, whenever it comes, is one toggle of the writer's LED. -/
theorem panel_write {t : Task} {n : Nat} {s : Gio} {r : GioReg} {v : BitVec 32} {k : Driver Unit}
    (h : Led t (.write r v k) n s) : panel (gioDevice.write s r v) = (panel s).toggle t := by
  funext u
  rw [h.at_write.2, Panel.toggle]
  by_cases own : u = t
  · subst own
    simp only [panel, toggled_getLsbD, decide_true, Bool.xor_true, Function.update_self]
  · have apart : u.pin.toNat ≠ t.pin.toNat := fun same => Task.pin_ne own (BitVec.eq_of_toNat_eq same)
    simp only [panel, toggled_getLsbD, decide_eq_false apart, Bool.xor_false, Function.update_of_ne own]

/-- **The system refines the panel**: every reachable state shows the atomic toggles
of its writes, one after another. -/
theorem blinky_refines_panel (hw : Gio) (schedule : List (Event Task Levels)) :
    panel (blinky.run (boot hw) schedule).dev =
      (blinky.commits (boot hw) schedule).foldl Panel.toggle Panel.dark := by
  have dark : panel (boot hw).dev = Panel.dark := by
    funext t
    exact (boot_leds hw t).own
  rw [← dark]
  exact ledOutline.run_view panel_write (fun _ _ => rfl) (boot_leds hw) schedule

/-! ## Progress -/

/-- How far a task is past its latest write: the turn's four steps are counted from
the delay that follows the write. -/
def place : Driver Unit → Nat
  | .delay _ _ => 2
  | .ret _ => 3
  | .read _ _ => 4
  | .write _ _ _ => 5

theorem place_bounds (p : Driver Unit) : 2 ≤ place p ∧ place p ≤ 5 := by
  cases p <;> simp [place]

/-- Where `k` own steps have taken a task: four for every write, and its place since. -/
def Steps (c : Config Task Gio GioReg (BitVec 32)) (t : Task) (k : Nat) : Prop :=
  4 * c.writes t + place (c.code t) = k + 4

/-- A task's own step moves it to the next place. -/
theorem Steps.own {c : Config Task Gio GioReg (BitVec 32)} {t : Task} {k : Nat} (h : ledOutline.All c)
    (steps : Steps c t k) : Steps (blinky.turn c t) t (k + 1) := by
  have led : Led t (c.code t) (c.writes t) c.dev := h t
  unfold Steps at steps ⊢
  cases code : c.code t with
  | ret u =>
    have here : place (c.code t) = 3 := by rw [code]; rfl
    have next : place (blinky.body t) = 4 := by cases t <;> rfl
    rw [blinky.turn_ret code]
    simp only [Function.update_self]
    omega
  | read r k' =>
    rw [code] at led
    have here : place (c.code t) = 4 := by rw [code]; rfl
    have next : place (k' (blinky.device.read c.dev r)) = 5 := congrArg place led.at_read
    rw [blinky.turn_read code]
    simp only [Function.update_self]
    omega
  | write r v k' =>
    rw [code] at led
    have here : place (c.code t) = 5 := by rw [code]; rfl
    have next : place k' = 2 := congrArg place led.at_write.1
    rw [blinky.turn_write code]
    simp only [Function.update_self]
    omega
  | delay n k' =>
    rw [code] at led
    have here : place (c.code t) = 2 := by rw [code]; rfl
    have next : place k' = 3 := congrArg place led.at_delay
    rw [blinky.turn_delay code]
    simp only [Function.update_self]
    omega

/-- The other task's step leaves it where it is. -/
theorem Steps.other {c : Config Task Gio GioReg (BitVec 32)} {t u : Task} {k : Nat} (different : t ≠ u)
    (steps : Steps c t k) : Steps (blinky.turn c u) t k := by
  cases code : c.code u with
  | ret a =>
    rw [blinky.turn_ret code]
    simpa only [Steps, Function.update_of_ne different] using steps
  | read r k' =>
    rw [blinky.turn_read code]
    simpa only [Steps, Function.update_of_ne different] using steps
  | write r v k' =>
    rw [blinky.turn_write code]
    simpa only [Steps, Function.update_of_ne different] using steps
  | delay n k' =>
    rw [blinky.turn_delay code]
    simpa only [Steps, Function.update_of_ne different] using steps

/-- Over a schedule a task makes the steps it is picked for. -/
theorem Steps.run {c : Config Task Gio GioReg (BitVec 32)} {t : Task} {k : Nat} (h : ledOutline.All c)
    (steps : Steps c t k) (schedule : List (Event Task Levels)) :
    Steps (blinky.run c schedule) t (k + System.picks t schedule) := by
  induction schedule generalizing c k with
  | nil => exact steps
  | cons e schedule ih =>
    rw [blinky.run_cons]
    cases e with
    | input l => exact ih (h.step (.input l)) steps
    | task u =>
      rw [System.picks]
      by_cases own : u = t
      · subst own
        have later := ih (h.step (.task u)) (steps.own h)
        rw [if_pos rfl, ← Nat.add_assoc]
        exact later
      · have later := ih (h.step (.task u)) (steps.other fun same => own same.symm)
        rw [if_neg own, Nat.zero_add]
        exact later

/-- **A task writes once for every four times it is picked**, whatever the other does. -/
theorem writes_eq_picks (hw : Gio) (schedule : List (Event Task Levels)) (t : Task) :
    (blinky.run (boot hw) schedule).writes t = (System.picks t schedule + 2) / 4 := by
  have start : Steps (boot hw) t 0 := by
    cases t <;> rfl
  have steps := start.run (boot_leds hw) schedule
  unfold Steps at steps
  have within := place_bounds ((blinky.run (boot hw) schedule).code t)
  omega

/-- **Each LED depends only on how often its own task was picked.** -/
theorem led_eq_picks (hw : Gio) (schedule : List (Event Task Levels)) (t : Task) :
    panel (blinky.run (boot hw) schedule).dev t = odd ((System.picks t schedule + 2) / 4) := by
  have count := blinky.writes_run (boot hw) schedule t
  have none : (boot hw).writes t = 0 := rfl
  rw [writes_eq_picks, none, Nat.zero_add] at count
  rw [blinky_refines_panel, Panel.foldl_toggle, count]
  exact Bool.false_xor _

end Blinky.App
