import Blinky.App.Main
import Blinky.Hal.Driver

/-!
# The LEDs follow the write counts

A turn of either task reads the port and, any number of foreign steps later,
writes a value computed from that read. No lock protects the two accesses, yet
no toggle is lost: the write goes through `DSET`/`DCLR` with one bit set, so it
cannot touch the other task's bit, and nothing but the task itself changes its
own bit in between. `Point` says where a task can be in its turn and what it is
then about to write; `ledOutline` is the proof that no foreign step disturbs it.
-/

namespace Blinky.App
set_option autoImplicit false
open Interleave Hal

/-- The parity of a write count, as an LED level. -/
def odd (n : Nat) : Bool := n % 2 == 1

theorem odd_succ (n : Nat) : odd (n + 1) = !odd n := by
  unfold odd
  rcases Nat.mod_two_eq_zero_or_one n with h | h <;> simp [Nat.add_mod, h]

theorem Task.pin_ne {t u : Task} (h : t ≠ u) : t.pin ≠ u.pin := by
  cases t <;> cases u <;> first | exact absurd rfl h | decide

/-- The one-bit mask `gioSetBit` writes. -/
theorem mask_getLsbD (t : Task) (j : Nat) : (1#32 <<< t.pin).getLsbD j = decide (j = t.pin.toNat) := by
  rw [BitVec.shiftLeft_eq']
  by_cases h : j = t.pin.toNat
  · subst h
    cases t <;> decide
  · have off : (1#32 <<< t.pin.toNat).getLsbD j = false := by
      simp only [BitVec.getLsbD_shiftLeft, BitVec.getLsbD_one]
      simp
      omega
    rw [off, decide_eq_false h]

/-- Port B as `gioInit` leaves it, apart from the latch: pins 6 and 7 push-pull
outputs, the rest inputs. -/
structure Configured (s : PortState) : Prop where
  DIR : s.DIR = 0xC0#32
  PDR : s.PDR = 0#32
  PULDIS : s.PULDIS = 0#32
  PSL : s.PSL = 0#32

/-- On a configured port a task's own pin reads back its latch bit. -/
theorem Configured.din {s : PortState} (h : Configured s) (t : Task) :
    s.din.getLsbD t.pin.toNat = s.DOUT.getLsbD t.pin.toNat := by
  have output : s.driven.getLsbD t.pin.toNat = true := by
    simp only [PortState.driven, h.DIR, h.PDR]
    cases t <;> simp <;> decide
  simp [PortState.din, output]

/-- The register a task's next write goes to, having written `n` times. -/
def nextReg (n : Nat) : GioReg := .port .gioPORTB (if odd n then .DCLR else .DSET)

/-- Where a task can be in its turn. After the read, the pending write is fixed:
it inverts the LED the task's own writes have left. -/
inductive Point (t : Task) (n : Nat) : Driver Unit → Prop where
  | read : Point t n t.body
  | write : Point t n (.write (nextReg n) (1#32 <<< t.pin) (.delay t.ticks (.ret ())))
  | delay : Point t n (.delay t.ticks (.ret ()))
  | again : Point t n (.ret ())

/-- What a task relies on: port B is configured, the task's own LED shows the
parity of its writes, and its pending write inverts that. -/
structure Led (t : Task) (p : Driver Unit) (n : Nat) (s : Gio) : Prop where
  point : Point t n p
  port : Configured s.portB
  own : s.portB.DOUT.getLsbD t.pin.toNat = odd n
  inputs : ∀ j, (∀ u : Task, j ≠ u.pin.toNat) → s.portB.DOUT.getLsbD j = false

/-- The turn from its read on: the access, then the write it decides. -/
theorem body_eq (t : Task) : t.body = .read (.port .gioPORTB .DIN) fun din =>
    Prog.bind (gioSetBit .gioPORTB t.pin (((din >>> t.pin) &&& 1#32) ^^^ 1#32)) fun _ =>
      vTaskDelay t.ticks := by
  cases t <;> rfl

/-- A read of the task's own LED decides the write that inverts it. -/
theorem after_read (t : Task) {n : Nat} {din : BitVec 32} (own : din.getLsbD t.pin.toNat = odd n) :
    Prog.bind (gioSetBit .gioPORTB t.pin (((din >>> t.pin) &&& 1#32) ^^^ 1#32))
      (fun _ => vTaskDelay t.ticks) =
    .write (nextReg n) (1#32 <<< t.pin) (.delay t.ticks (.ret ())) := by
  rw [getBit_value, own]
  cases parity : odd n <;> simp only [nextReg, parity] <;> rfl

/-- The write inverts exactly the writer's bit of the latch. -/
theorem write_next {t : Task} {n : Nat} {s : Gio} (own : s.portB.DOUT.getLsbD t.pin.toNat = odd n) :
    gioDevice.write s (nextReg n) (1#32 <<< t.pin) =
      { s with portB := { s.portB with DOUT := s.portB.DOUT ^^^ (1#32 <<< t.pin) } } := by
  cases parity : odd n
  · have set : s.portB.DOUT ||| (1#32 <<< t.pin) = s.portB.DOUT ^^^ (1#32 <<< t.pin) := by
      apply BitVec.eq_of_getLsbD_eq
      intro j _
      simp only [BitVec.getLsbD_or, BitVec.getLsbD_xor, mask_getLsbD]
      by_cases h : j = t.pin.toNat
      · subst h; simp [own, parity]
      · simp [h]
    simp only [nextReg, parity, gioDevice, Gio.port, Gio.setPort, PortState.write, Bool.false_eq_true,
      if_false, set]
  · have clear : s.portB.DOUT &&& ~~~(1#32 <<< t.pin) = s.portB.DOUT ^^^ (1#32 <<< t.pin) := by
      apply BitVec.eq_of_getLsbD_eq
      intro j hj
      simp only [BitVec.getLsbD_and, BitVec.getLsbD_not, BitVec.getLsbD_xor, mask_getLsbD]
      by_cases h : j = t.pin.toNat
      · subst h; simp [own, parity]
      · simp [h, hj]
    simp only [nextReg, parity, gioDevice, Gio.port, Gio.setPort, PortState.write, if_true, clear]

/-- The toggle as the latch sees it: the writer's bit inverted, every other bit kept. -/
theorem toggled_getLsbD (t : Task) (w : BitVec 32) (j : Nat) :
    (w ^^^ (1#32 <<< t.pin)).getLsbD j = (w.getLsbD j ^^ decide (j = t.pin.toNat)) := by
  rw [BitVec.getLsbD_xor, mask_getLsbD]

/-- What a task's read can be: the first access of its turn, and what it answers
decides the write. -/
theorem Led.at_read {t : Task} {n : Nat} {s : Gio} {r : GioReg} {k : BitVec 32 → Driver Unit}
    (h : Led t (.read r k) n s) :
    k (gioDevice.read s r) = .write (nextReg n) (1#32 <<< t.pin) (.delay t.ticks (.ret ())) := by
  obtain ⟨point, port, own, -⟩ := h
  generalize code : Prog.read r k = p at point
  cases point with
  | write => cases code
  | delay => cases code
  | again => cases code
  | read =>
    rw [body_eq] at code
    cases code
    exact after_read t ((port.din t).trans own)

/-- What a task's write can be: it inverts the task's own bit of the latch, and the
delay follows. -/
theorem Led.at_write {t : Task} {n : Nat} {s : Gio} {r : GioReg} {v : BitVec 32} {k : Driver Unit}
    (h : Led t (.write r v k) n s) : k = .delay t.ticks (.ret ()) ∧ gioDevice.write s r v =
      { s with portB := { s.portB with DOUT := s.portB.DOUT ^^^ (1#32 <<< t.pin) } } := by
  obtain ⟨point, -, own, -⟩ := h
  generalize code : Prog.write r v k = p at point
  cases point with
  | read => rw [body_eq] at code; cases code
  | delay => cases code
  | again => cases code
  | write =>
    cases code
    exact ⟨rfl, write_next own⟩

/-- A delay is the last access of a turn. -/
theorem Led.at_delay {t : Task} {n ticks : Nat} {s : Gio} {k : Driver Unit}
    (h : Led t (.delay ticks k) n s) : k = .ret () := by
  have point := h.point
  generalize code : Prog.delay ticks k = p at point
  cases point with
  | read => rw [body_eq] at code; cases code
  | write => cases code
  | again => cases code
  | delay => cases code; rfl

/-- A task's own write advances its assertion. -/
theorem Led.write {t : Task} {n : Nat} {s : Gio} {r : GioReg} {v : BitVec 32} {k : Driver Unit}
    (h : Led t (.write r v k) n s) : Led t k (n + 1) (gioDevice.write s r v) := by
  obtain ⟨rest, written⟩ := h.at_write
  obtain ⟨-, port, own, inputs⟩ := h
  rw [rest, written]
  refine ⟨.delay, ⟨port.DIR, port.PDR, port.PULDIS, port.PSL⟩, ?_, ?_⟩
  · simp only [toggled_getLsbD, own, odd_succ, decide_true, Bool.xor_true]
  · intro j other
    simp only [toggled_getLsbD, inputs j other, decide_eq_false (other t), Bool.xor_false]

/-- Another task's write leaves the assertion standing: it inverts that task's bit only. -/
theorem Led.interference {t u : Task} {p q : Driver Unit} {n m : Nat} {s : Gio} {r : GioReg}
    {v : BitVec 32} (different : t ≠ u) (h : Led t p n s) (foreign : Led u (.write r v q) m s) :
    Led t p n (gioDevice.write s r v) := by
  obtain ⟨-, written⟩ := foreign.at_write
  obtain ⟨point, port, own, inputs⟩ := h
  have apart : t.pin.toNat ≠ u.pin.toNat := fun same =>
    Task.pin_ne different (BitVec.eq_of_toNat_eq same)
  rw [written]
  refine ⟨point, ⟨port.DIR, port.PDR, port.PULDIS, port.PSL⟩, ?_, ?_⟩
  · simp only [toggled_getLsbD, own, decide_eq_false apart, Bool.xor_false]
  · intro j other
    simp only [toggled_getLsbD, inputs j other, decide_eq_false (other u), Bool.xor_false]

/-- A task's read fixes its pending write. -/
theorem Led.read {t : Task} {n : Nat} {s : Gio} {r : GioReg} {k : BitVec 32 → Driver Unit}
    (h : Led t (.read r k) n s) : Led t (k (gioDevice.read s r)) n s := by
  rw [h.at_read]
  exact ⟨.write, h.port, h.own, h.inputs⟩

/-- The delay only moves the task to the end of its turn. -/
theorem Led.delay {t : Task} {n ticks : Nat} {s : Gio} {k : Driver Unit}
    (h : Led t (.delay ticks k) n s) : Led t k n s := by
  rw [h.at_delay]
  exact ⟨.again, h.port, h.own, h.inputs⟩

/-- The two LED assertions form a proof outline of the running system. -/
def ledOutline : Outline blinky where
  holds := Led
  again h := ⟨.read, h.port, h.own, h.inputs⟩
  read := Led.read
  write := Led.write
  delay := Led.delay
  input _ h := ⟨h.point, ⟨h.port.DIR, h.port.PDR, h.port.PULDIS, h.port.PSL⟩, h.own, h.inputs⟩
  interference := Led.interference

/-- `gioInit` leaves port B configured with a clear latch, whatever it found. -/
theorem gioInit_portB (hw : Gio) : (gioInit.run gioDevice hw).2.portB =
    ⟨0xC0#32, 0#32, 0#32, 0#32, 0#32, hw.portB.pins⟩ := rfl

/-- Both assertions hold when the scheduler takes over. -/
theorem boot_leds (hw : Gio) : ledOutline.All (boot hw) := by
  intro t
  refine ⟨.read, ⟨rfl, rfl, rfl, rfl⟩, ?_, ?_⟩
  · change (gioInit.run gioDevice hw).2.portB.DOUT.getLsbD t.pin.toNat = odd 0
    rw [gioInit_portB]
    exact BitVec.getLsbD_zero
  · intro j _
    change (gioInit.run gioDevice hw).2.portB.DOUT.getLsbD j = false
    rw [gioInit_portB]
    exact BitVec.getLsbD_zero

/-- The latch two write counts determine. -/
def ledLatch (n₁ n₂ : Nat) : BitVec 32 :=
  (if odd n₁ then 1#32 <<< Task.vTask1.pin else 0#32) |||
    (if odd n₂ then 1#32 <<< Task.vTask2.pin else 0#32)

theorem ledLatch_getLsbD (n₁ n₂ j : Nat) : (ledLatch n₁ n₂).getLsbD j =
    (odd n₁ && decide (j = Task.vTask1.pin.toNat) || odd n₂ && decide (j = Task.vTask2.pin.toNat)) := by
  unfold ledLatch
  rw [BitVec.getLsbD_or]
  congr 1
  · cases odd n₁
    · simp
    · simp only [if_true, mask_getLsbD, Bool.true_and]
  · cases odd n₂
    · simp
    · simp only [if_true, mask_getLsbD, Bool.true_and]

/-- The two assertions together determine the whole latch. -/
theorem latch_eq {c : Config Task Gio GioReg (BitVec 32)} (h : ledOutline.All c) :
    c.dev.portB.DOUT = ledLatch (c.writes .vTask1) (c.writes .vTask2) := by
  apply BitVec.eq_of_getLsbD_eq
  intro j _
  rw [ledLatch_getLsbD]
  by_cases one : j = Task.vTask1.pin.toNat
  · subst one
    have own : c.dev.portB.DOUT.getLsbD Task.vTask1.pin.toNat = odd (c.writes .vTask1) :=
      (h .vTask1).own
    rw [own]
    simp [Task.pin]
  · by_cases two : j = Task.vTask2.pin.toNat
    · subst two
      have own : c.dev.portB.DOUT.getLsbD Task.vTask2.pin.toNat = odd (c.writes .vTask2) :=
        (h .vTask2).own
      rw [own]
      simp [Task.pin]
    · rw [(h .vTask1).inputs j fun u => by cases u; exact one; exact two]
      simp [one, two]

/-- A task about to write will invert its own LED and change nothing else of the module. -/
theorem write_flips {c : Config Task Gio GioReg (BitVec 32)} (h : ledOutline.All c) {t : Task}
    (writing : (c.code t).writing = true) :
    (blinky.step c (.task t)).dev =
      { c.dev with portB := { c.dev.portB with DOUT := c.dev.portB.DOUT ^^^ (1#32 <<< t.pin) } } := by
  obtain ⟨r, v, k, code⟩ := Prog.exists_write writing
  have led : Led t (.write r v k) (c.writes t) c.dev := by
    rw [← code]
    exact h t
  rw [blinky.step_task, blinky.turn_write code]
  exact led.at_write.2

/-- What never breaks: the latch is a function of the two write counts, bits 0-5
and the direction stay as `gioInit` left them, and a write inverts its own pin
and nothing else of the whole module. -/
structure LedsFollowWrites (hw : Gio) (c : Config Task Gio GioReg (BitVec 32)) : Prop where
  led1 : c.dev.portB.DOUT.getLsbD 6 = odd (c.writes .vTask1)
  led2 : c.dev.portB.DOUT.getLsbD 7 = odd (c.writes .vTask2)
  inputs : ∀ j < 6, c.dev.portB.DOUT.getLsbD j = (boot hw).dev.portB.DOUT.getLsbD j
  direction : c.dev.portB.DIR = (boot hw).dev.portB.DIR
  flips : ∀ t, (c.code t).writing = true → (blinky.step c (.task t)).dev =
    { c.dev with portB := { c.dev.portB with DOUT := c.dev.portB.DOUT ^^^ (1#32 <<< t.pin) } }
  latch : c.dev.portB.DOUT = ledLatch (c.writes .vTask1) (c.writes .vTask2)

/-- **No toggle is lost or crosses over**, whatever the schedule and the pin levels. -/
theorem leds_follow_writes (hw : Gio) (schedule : List (Event Task Levels)) :
    LedsFollowWrites hw (blinky.run (boot hw) schedule) := by
  have all := ledOutline.run (boot_leds hw) schedule
  have base := boot_leds hw
  constructor
  · exact (all .vTask1).own
  · exact (all .vTask2).own
  · intro j low
    have input : ∀ u : Task, j ≠ u.pin.toNat := fun u => by cases u <;> simp [Task.pin] <;> omega
    exact ((all .vTask1).inputs j input).trans ((base .vTask1).inputs j input).symm
  · exact (all .vTask1).port.DIR.trans (base .vTask1).port.DIR.symm
  · exact fun t writing => write_flips all writing
  · exact latch_eq all

end Blinky.App
