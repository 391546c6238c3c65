import Blinky.Lib.Text

/-!
# Bash, as far as scripts rely on it

A command prints a text and returns a status. A pipeline keeps every stage's
status but, without `pipefail`, returns the last one; command substitution keeps
the text, less its NUL characters and trailing newlines, and that last status. A `Shell` is the
script's own process: its variables, `$?` and `PIPESTATUS`. Only what runs in
the foreground of this process sets `PIPESTATUS`; a pipeline inside `$(…)` runs
in a subshell, so the assignment around it counts as a pipeline of one command.
-/

namespace Blinky.Bash
set_option autoImplicit false

abbrev Status := UInt8

/-- What a command prints and returns. -/
structure Outcome where
  out : Text
  status : Status
deriving DecidableEq

/-- A command that reads its standard input. -/
abbrev Filter := Text → Outcome

/-- `first | f₁ | … | fₙ`: the text at the end and every stage's status. -/
def pipe (first : Outcome) : List Filter → Text × List Status
  | [] => (first.out, [first.status])
  | f :: fs => ((pipe (f first.out) fs).1, first.status :: (pipe (f first.out) fs).2)

/-- What `$(…)` keeps of the text a pipeline printed. -/
def kept (t : Text) : Text := Text.chomp (t.filter (· ≠ Char.ofNat 0))

/-- `$(…)` of a pipeline. -/
def substitute (p : Text × List Status) : Outcome := ⟨kept p.1, p.2.getLast?.getD 0⟩

theorem pipe_statuses_ne_nil (first : Outcome) (fs : List Filter) : (pipe first fs).2 ≠ [] := by
  cases fs <;> simp [pipe]

/-- A pipeline returns what its last stage returns, whatever the stages before it did. -/
theorem substitute_pipe_snoc (first : Outcome) (fs : List Filter) (f : Filter) :
    substitute (pipe first (fs ++ [f])) =
      ⟨kept (f (pipe first fs).1).out, (f (pipe first fs).1).status⟩ := by
  induction fs generalizing first with
  | nil => rfl
  | cons g fs ih =>
    have last := ih (g first.out)
    simp only [substitute, Outcome.mk.injEq] at last ⊢
    refine ⟨last.1, ?_⟩
    simp only [List.cons_append, pipe]
    rw [List.getLast?_cons_of_ne_nil (pipe_statuses_ne_nil _ _)]
    exact last.2

/-- The script's process over its variables `V`. -/
structure Shell (V : Type) where
  vars : V
  status : Status
  pipestatus : List Status

abbrev Cmd (V : Type) := Shell V → Shell V

namespace Cmd

variable {V : Type}

/-- A single foreground command that ended with `st`. -/
def ended (vars : V) (st : Status) : Shell V := ⟨vars, st, [st]⟩

/-- `name="$(…)"`. -/
def assign (set : Text → V → V) (value : V → Outcome) : Cmd V := fun s =>
  ended (set (value s.vars).out s.vars) (value s.vars).status

/-- An assignment without command substitution. -/
def update (f : V → V) : Cmd V := fun s => ended (f s.vars) 0

/-- `((…))`: fails when the expression is zero. -/
def arith (value : V → Nat) (f : V → V) : Cmd V := fun s =>
  ended (f s.vars) (if value s.vars = 0 then 1 else 0)

/-- `if [ … ]; then …; fi`. -/
def ifThen (test : Shell V → Bool) (body : Cmd V) : Cmd V := fun s =>
  if test s then body (ended s.vars 0) else { ended s.vars 1 with status := 0 }

/-- Commands one after another. -/
def seq (cmds : List (Cmd V)) : Cmd V := fun s => cmds.foldl (fun s c => c s) s

/-- `for x in …; do …; done`. -/
def forIn {α : Type} (xs : List α) (body : α → Cmd V) : Cmd V := fun s =>
  xs.foldl (fun s x => body x s) s

@[simp] theorem seq_nil (s : Shell V) : seq [] s = s := rfl

@[simp] theorem seq_cons (c : Cmd V) (cmds : List (Cmd V)) (s : Shell V) :
    seq (c :: cmds) s = seq cmds (c s) := rfl

@[simp] theorem forIn_nil {α : Type} (body : α → Cmd V) (s : Shell V) : forIn [] body s = s := rfl

@[simp] theorem forIn_cons {α : Type} (x : α) (xs : List α) (body : α → Cmd V) (s : Shell V) :
    forIn (x :: xs) body s = forIn xs body (body x s) := rfl

@[simp] theorem assign_vars (set : Text → V → V) (value : V → Outcome) (s : Shell V) :
    (assign set value s).vars = set (value s.vars).out s.vars := rfl

@[simp] theorem assign_pipestatus (set : Text → V → V) (value : V → Outcome) (s : Shell V) :
    (assign set value s).pipestatus = [(value s.vars).status] := rfl

@[simp] theorem update_vars (f : V → V) (s : Shell V) : (update f s).vars = f s.vars := rfl

@[simp] theorem arith_vars (value : V → Nat) (f : V → V) (s : Shell V) :
    (arith value f s).vars = f s.vars := rfl

/-- What no turn of a loop changes, the loop does not change. -/
theorem forIn_keep {α β : Type} {body : α → Cmd V} {view : V → β}
    (step : ∀ x s, view (body x s).vars = view s.vars) (xs : List α) (s : Shell V) :
    view (forIn xs body s).vars = view s.vars := by
  induction xs generalizing s with
  | nil => rfl
  | cons x xs ih => rw [forIn_cons, ih, step]

/-- A loop whose body adds the number of some items counts them all. -/
theorem forIn_count {α β : Type} {body : α → Cmd V} {view : V → Nat} {items : α → List β}
    (step : ∀ x s, view (body x s).vars = view s.vars + (items x).length) (xs : List α) (s : Shell V) :
    view (forIn xs body s).vars = view s.vars + (xs.flatMap items).length := by
  induction xs generalizing s with
  | nil => rfl
  | cons x xs ih =>
    rw [forIn_cons, ih, step, List.flatMap_cons, List.length_append]
    omega

/-- A loop whose body appends to an array collects. -/
theorem forIn_collect {α β : Type} {body : α → Cmd V} {view : V → List β} {out : α → List β}
    (step : ∀ x s, view (body x s).vars = view s.vars ++ out x) (xs : List α) (s : Shell V) :
    view (forIn xs body s).vars = view s.vars ++ xs.flatMap out := by
  induction xs generalizing s with
  | nil => simp
  | cons x xs ih => rw [forIn_cons, ih, step, List.flatMap_cons, List.append_assoc]

end Cmd

/-- Pathname expansion: what an unquoted word becomes. It depends on the files at
hand, except that a word without pattern characters stays as it is. -/
structure Globbing where
  expand : Text → List Text
  plain : ∀ w, (∀ c ∈ w, c ∉ ['*', '?', '[', '\\']) → expand w = [w]

/-- An unquoted expansion: field splitting, then pathname expansion. -/
def Globbing.unquoted (g : Globbing) (t : Text) : List Text := (Text.words t).flatMap g.expand

end Blinky.Bash
