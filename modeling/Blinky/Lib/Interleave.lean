import Mathlib.Logic.Function.Basic

/-!
# Preemptible tasks over a shared device

A task is a driver program: register accesses and delays, in order, each access
one atomic step of the bus. A `System` runs one such program per task for ever,
and a schedule picks, step by step, which task performs its next access or how
the outside world changes the device. Nothing restricts the schedule, so a task
may be preempted for any number of steps between any two of its accesses.

`Outline` is the proof rule: one assertion per task, at every point of its
program, that its own steps carry along and that neither the other tasks'
writes nor the world disturb. `Outline.run` folds it over every schedule, and
`Outline.run_view` turns it into a refinement of atomic operations.
-/

namespace Blinky.Interleave
set_option autoImplicit false

/-- A driver program over registers `ρ` of words `ω`. -/
inductive Prog (ρ ω α : Type) where
  | ret (a : α)
  | read (r : ρ) (k : ω → Prog ρ ω α)
  | write (r : ρ) (v : ω) (k : Prog ρ ω α)
  | delay (ticks : Nat) (k : Prog ρ ω α)

namespace Prog

variable {ρ ω α β : Type}

def bind : Prog ρ ω α → (α → Prog ρ ω β) → Prog ρ ω β
  | .ret a, f => f a
  | .read r k, f => .read r fun w => (k w).bind f
  | .write r v k, f => .write r v (k.bind f)
  | .delay n k, f => .delay n (k.bind f)

instance : Monad (Prog ρ ω) where
  pure := .ret
  bind := Prog.bind

/-- One register read, returning the word. -/
def readReg (r : ρ) : Prog ρ ω ω := .read r .ret

/-- One register write. -/
def writeReg (r : ρ) (v : ω) : Prog ρ ω Unit := .write r v (.ret ())

/-- The program's next access is a write. -/
def writing : Prog ρ ω α → Bool
  | .write _ _ _ => true
  | _ => false

theorem exists_write {p : Prog ρ ω α} (h : p.writing = true) : ∃ r v k, p = .write r v k := by
  cases p with
  | write r v k => exact ⟨r, v, k, rfl⟩
  | ret a => cases h
  | read r k => cases h
  | delay n k => cases h

end Prog

/-- How a device answers one read and takes one write. -/
structure Device (σ ρ ω : Type) where
  read : σ → ρ → ω
  write : σ → ρ → ω → σ

/-- The program run alone: nothing happens between its accesses. -/
def Prog.run {σ ρ ω α : Type} (d : Device σ ρ ω) : Prog ρ ω α → σ → α × σ
  | .ret a, s => (a, s)
  | .read r k, s => (k (d.read s r)).run d s
  | .write r v k, s => k.run d (d.write s r v)
  | .delay _ k, s => k.run d s

/-- Tasks `ι` over one device; `input` is what the world does to it. -/
structure System (ι ε σ ρ ω : Type) where
  device : Device σ ρ ω
  body : ι → Prog ρ ω Unit
  input : ε → σ → σ

/-- One scheduling decision: a task's next access, or a change from outside. -/
inductive Event (ι ε : Type) where
  | task (i : ι)
  | input (e : ε)

/-- The device, what each task still has to do in its current turn, and how
many writes each task has performed. -/
structure Config (ι σ ρ ω : Type) where
  dev : σ
  code : ι → Prog ρ ω Unit
  writes : ι → Nat

namespace System

variable {ι ε σ ρ ω : Type} [DecidableEq ι] (S : System ι ε σ ρ ω)

/-- Every task at the head of its loop. -/
def start (s : σ) : Config ι σ ρ ω := ⟨s, S.body, fun _ => 0⟩

/-- Task `i` performs its next access; at the end of a turn its loop starts over. -/
def turn (c : Config ι σ ρ ω) (i : ι) : Config ι σ ρ ω :=
  match c.code i with
  | .ret _ => { c with code := Function.update c.code i (S.body i) }
  | .read r k => { c with code := Function.update c.code i (k (S.device.read c.dev r)) }
  | .write r v k =>
    { dev := S.device.write c.dev r v
      code := Function.update c.code i k
      writes := Function.update c.writes i (c.writes i + 1) }
  | .delay _ k => { c with code := Function.update c.code i k }

def step (c : Config ι σ ρ ω) : Event ι ε → Config ι σ ρ ω
  | .task i => S.turn c i
  | .input e => { c with dev := S.input e c.dev }

theorem step_task (c : Config ι σ ρ ω) (i : ι) : S.step c (.task i : Event ι ε) = S.turn c i := rfl

/-- The configuration a schedule leads to. -/
def run (c : Config ι σ ρ ω) (schedule : List (Event ι ε)) : Config ι σ ρ ω :=
  schedule.foldl S.step c

@[simp] theorem run_nil (c : Config ι σ ρ ω) : S.run c [] = c := rfl

@[simp] theorem run_cons (c : Config ι σ ρ ω) (e : Event ι ε) (schedule : List (Event ι ε)) :
    S.run c (e :: schedule) = S.run (S.step c e) schedule := rfl

theorem turn_ret {c : Config ι σ ρ ω} {i : ι} {u : Unit} (h : c.code i = .ret u) :
    S.turn c i = { c with code := Function.update c.code i (S.body i) } := by
  simp only [turn, h]

theorem turn_read {c : Config ι σ ρ ω} {i : ι} {r : ρ} {k : ω → Prog ρ ω Unit}
    (h : c.code i = .read r k) :
    S.turn c i = { c with code := Function.update c.code i (k (S.device.read c.dev r)) } := by
  simp only [turn, h]

theorem turn_write {c : Config ι σ ρ ω} {i : ι} {r : ρ} {v : ω} {k : Prog ρ ω Unit}
    (h : c.code i = .write r v k) :
    S.turn c i = ⟨S.device.write c.dev r v, Function.update c.code i k,
      Function.update c.writes i (c.writes i + 1)⟩ := by
  simp only [turn, h]

theorem turn_delay {c : Config ι σ ρ ω} {i : ι} {n : Nat} {k : Prog ρ ω Unit}
    (h : c.code i = .delay n k) :
    S.turn c i = { c with code := Function.update c.code i k } := by
  simp only [turn, h]

/-- A property every event preserves holds after every schedule. -/
theorem run_invariant {P : Config ι σ ρ ω → Prop} (keep : ∀ c e, P c → P (S.step c e))
    {c : Config ι σ ρ ω} (h : P c) (schedule : List (Event ι ε)) : P (S.run c schedule) := by
  induction schedule generalizing c with
  | nil => exact h
  | cons e schedule ih => exact ih (keep c e h)

/-- The tasks in the order of their writes. -/
def commits (c : Config ι σ ρ ω) : List (Event ι ε) → List ι
  | [] => []
  | .task i :: schedule =>
    if (c.code i).writing then i :: commits (S.step c (.task i)) schedule
    else commits (S.step c (.task i)) schedule
  | .input e :: schedule => commits (S.step c (.input e)) schedule

/-- How often a schedule picks a task. -/
def picks (i : ι) : List (Event ι ε) → Nat
  | [] => 0
  | .task j :: schedule => (if j = i then 1 else 0) + picks i schedule
  | .input _ :: schedule => picks i schedule

/-- An access that is no write changes neither the device nor the counts. -/
theorem turn_quiet {c : Config ι σ ρ ω} {i : ι} (h : (c.code i).writing = false) :
    (S.turn c i).dev = c.dev ∧ (S.turn c i).writes = c.writes := by
  unfold turn
  cases code : c.code i with
  | write r v k =>
    rw [code] at h
    cases h
  | ret u => exact ⟨rfl, rfl⟩
  | read r k => exact ⟨rfl, rfl⟩
  | delay n k => exact ⟨rfl, rfl⟩

/-- The write counts count the writes. -/
theorem writes_run (c : Config ι σ ρ ω) (schedule : List (Event ι ε)) (i : ι) :
    (S.run c schedule).writes i = c.writes i + (S.commits c schedule).count i := by
  induction schedule generalizing c with
  | nil => rfl
  | cons e schedule ih =>
    rw [run_cons, ih]
    cases e with
    | input e => rfl
    | task j =>
      rw [commits, step_task]
      cases access : (c.code j).writing with
      | false => rw [(S.turn_quiet access).2, if_neg Bool.false_ne_true]
      | true =>
        obtain ⟨r, v, k, code⟩ := Prog.exists_write access
        rw [S.turn_write code, if_pos rfl, List.count_cons]
        dsimp only
        by_cases own : i = j
        · subst own
          rw [Function.update_self, beq_self_eq_true, if_pos rfl]
          omega
        · have other : (j == i) = false := beq_eq_false_iff_ne.mpr fun h => own h.symm
          rw [Function.update_of_ne own, other, if_neg Bool.false_ne_true]
          omega

end System

/-- A proof outline: `holds i p n s` is what task `i` may rely on when `p` is
left of its turn, it has written `n` times and the device is in state `s`. -/
structure Outline {ι ε σ ρ ω : Type} (S : System ι ε σ ρ ω) where
  holds : ι → Prog ρ ω Unit → Nat → σ → Prop
  again : ∀ {i n s}, holds i (.ret ()) n s → holds i (S.body i) n s
  read : ∀ {i r k n s}, holds i (.read r k) n s → holds i (k (S.device.read s r)) n s
  write : ∀ {i r v k n s}, holds i (.write r v k) n s → holds i k (n + 1) (S.device.write s r v)
  delay : ∀ {i t k n s}, holds i (.delay t k) n s → holds i k n s
  input : ∀ {i p n s} (e : ε), holds i p n s → holds i p n (S.input e s)
  /-- Another task's write, at a point where that task's own assertion holds. -/
  interference : ∀ {i j p n s r v k m}, i ≠ j → holds i p n s → holds j (.write r v k) m s →
    holds i p n (S.device.write s r v)

namespace Outline

variable {ι ε σ ρ ω : Type} [DecidableEq ι] {S : System ι ε σ ρ ω} (O : Outline S)

/-- Every task's assertion holds at the point it has reached. -/
def All (c : Config ι σ ρ ω) : Prop := ∀ i, O.holds i (c.code i) (c.writes i) c.dev

/-- An access that leaves the device alone moves one task and disturbs no other. -/
theorem All.move {O : Outline S} {c : Config ι σ ρ ω} (h : O.All c) {j : ι} {p : Prog ρ ω Unit}
    (own : O.holds j p (c.writes j) c.dev) :
    O.All { c with code := Function.update c.code j p } := by
  intro i
  by_cases same : i = j
  · subst same
    simpa only [Function.update_self] using own
  · simpa only [Function.update_of_ne same] using h i

/-- A write moves its task, counts for it, and leaves every other assertion standing. -/
theorem All.write {O : Outline S} {c : Config ι σ ρ ω} (h : O.All c) {j : ι} {r : ρ} {v : ω}
    {k : Prog ρ ω Unit} (at_write : c.code j = .write r v k) :
    O.All ⟨S.device.write c.dev r v, Function.update c.code j k,
      Function.update c.writes j (c.writes j + 1)⟩ := by
  have own := h j
  rw [at_write] at own
  intro i
  by_cases same : i = j
  · subst same
    simpa only [Function.update_self] using O.write own
  · simpa only [Function.update_of_ne same] using O.interference same (h i) own

/-- One event keeps every assertion. -/
theorem All.step {O : Outline S} {c : Config ι σ ρ ω} (h : O.All c) (e : Event ι ε) :
    O.All (S.step c e) := by
  cases e with
  | input e => exact fun i => O.input e (h i)
  | task j =>
    have own := h j
    change O.All (S.turn c j)
    cases code : c.code j with
    | ret u =>
      rw [code] at own
      rw [S.turn_ret code]
      exact h.move (O.again own)
    | read r k =>
      rw [code] at own
      rw [S.turn_read code]
      exact h.move (O.read own)
    | write r v k =>
      rw [S.turn_write code]
      exact h.write code
    | delay n k =>
      rw [code] at own
      rw [S.turn_delay code]
      exact h.move (O.delay own)

/-- **The interleaving rule.** Assertions that hold at the start hold after
every schedule. -/
theorem run {c : Config ι σ ρ ω} (h : O.All c) (schedule : List (Event ι ε)) :
    O.All (S.run c schedule) :=
  S.run_invariant (fun _ e held => held.step e) h schedule

/-- **The refinement rule.** If every write, made where its task's assertion holds,
acts on a view of the device as one abstract operation of the task, and the world
does not change the view, then the view of every reachable device is what the
abstract operations make of it, one after another in the order of the writes. -/
theorem run_view {α : Type} {view : σ → α} {act : α → ι → α}
    (commit : ∀ {i r v k n s}, O.holds i (.write r v k) n s →
      view (S.device.write s r v) = act (view s) i)
    (quiet : ∀ e s, view (S.input e s) = view s) {c : Config ι σ ρ ω} (h : O.All c)
    (schedule : List (Event ι ε)) :
    view (S.run c schedule).dev = (S.commits c schedule).foldl act (view c.dev) := by
  induction schedule generalizing c with
  | nil => rfl
  | cons e schedule ih =>
    have later := ih (h.step e)
    rw [System.run_cons, later]
    cases e with
    | input e =>
      have same : view (S.step c (.input e)).dev = view c.dev := quiet e c.dev
      rw [same, System.commits]
    | task j =>
      rw [System.commits, System.step_task]
      cases access : (c.code j).writing with
      | false => rw [(S.turn_quiet access).1, if_neg Bool.false_ne_true]
      | true =>
        obtain ⟨r, v, k, code⟩ := Prog.exists_write access
        have own := h j
        rw [code] at own
        rw [S.turn_write code, if_pos rfl, List.foldl_cons, commit own]

end Outline

end Blinky.Interleave
