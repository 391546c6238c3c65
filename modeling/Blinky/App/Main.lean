import Blinky.Hal.Gio

/-!
# The application (`source/app_main.c`)

`vTask1` and `vTask2` are the bodies of two endless loops; one turn of either
reads its pin, writes the inverted bit back and sleeps. `blinky` runs both,
preemptibly, over the GIO module, while the outside world may put any levels on
the pins.
-/

namespace Blinky.App
set_option autoImplicit false
open Interleave Hal

def vTaskDelay (ticks : Nat) : Driver Unit := .delay ticks (.ret ())

/-- One turn of a task's loop: toggle a port B pin, then sleep. -/
def toggleTurn (bit : BitVec 32) (ticks : Nat) : Driver Unit := do
  let value ← gioGetBit .gioPORTB bit
  gioSetBit .gioPORTB bit (value ^^^ 1#32)
  vTaskDelay ticks

def vTask1 : Driver Unit := toggleTurn 6#32 100

def vTask2 : Driver Unit := toggleTurn 7#32 500

inductive Task where
  | vTask1 | vTask2
deriving DecidableEq, Repr

def Task.body : Task → Driver Unit
  | .vTask1 => App.vTask1
  | .vTask2 => App.vTask2

/-- The port B pin a task toggles. -/
def Task.pin : Task → BitVec 32
  | .vTask1 => 6#32
  | .vTask2 => 7#32

def Task.ticks : Task → Nat
  | .vTask1 => 100
  | .vTask2 => 500

def pdTRUE : Int := 1

/-- What `app_main` leaves behind: the module, the tasks created and whether the
scheduler was started. -/
structure Boot where
  gio : Gio
  created : List Task
  started : Bool
deriving DecidableEq

/-- `xTaskCreate` stands for the kernel's answer to each creation. -/
def app_main (xTaskCreate : Task → Int) (hw : Gio) : Boot :=
  let gio := (gioInit.run gioDevice hw).2
  if xTaskCreate .vTask1 ≠ pdTRUE then ⟨gio, [], false⟩
  else if xTaskCreate .vTask2 ≠ pdTRUE then ⟨gio, [.vTask1], false⟩
  else ⟨gio, [.vTask1, .vTask2], true⟩

/-- The two tasks under the scheduler. -/
def blinky : System Task Levels Gio GioReg (BitVec 32) where
  device := gioDevice
  body := Task.body
  input l s := s.setLevels l

/-- The scheduler takes over from `app_main`: both tasks at the head of their loops. -/
def boot (hw : Gio) : Config Task Gio GioReg (BitVec 32) :=
  blinky.start (gioInit.run gioDevice hw).2

/-- `app_main` hands over the module as the scheduler finds it. -/
theorem app_main_gio (xTaskCreate : Task → Int) (hw : Gio) :
    (app_main xTaskCreate hw).gio = (boot hw).dev := by
  unfold app_main
  split
  · rfl
  · split <;> rfl

/-- The scheduler starts exactly if both tasks could be created, and then both exist. -/
theorem app_main_started_iff (xTaskCreate : Task → Int) (hw : Gio) :
    (app_main xTaskCreate hw).started = true ↔
      (∀ t, xTaskCreate t = pdTRUE) ∧ ∀ t, t ∈ (app_main xTaskCreate hw).created := by
  have both : ∀ P : Task → Prop, (∀ t, P t) ↔ P .vTask1 ∧ P .vTask2 := fun P =>
    ⟨fun h => ⟨h _, h _⟩, fun h t => by cases t; exact h.1; exact h.2⟩
  rw [both, both]
  unfold app_main
  by_cases one : xTaskCreate .vTask1 = pdTRUE
  · by_cases two : xTaskCreate .vTask2 = pdTRUE
    · simp [one, two]
    · simp [one, two]
  · simp [one]

end Blinky.App
