import Blinky.RunTests.ExitStatus

/-!
# What the filters see

Between a program and the four filters stand a terminal, `tr` and two command
substitutions; a text without carriage returns and NUL characters comes through
with its lines intact. A tally is then the number of lines its pattern matches,
and the names are the words of what the perl pattern captures, line by line.
The loop adds these up over the executables.
-/

namespace Blinky.RunTests
set_option autoImplicit false
open Bash

/-! ## One program -/

/-- `tr` takes back what the terminal added. -/
theorem tr_terminal (t : Text) : (tr (terminal t)).out = t.filter (· ≠ '\r') := by
  change (terminal t).filter (· ≠ '\r') = t.filter (· ≠ '\r')
  induction t with
  | nil => rfl
  | cons c t ih =>
    have step : terminal (c :: t) = (if c = '\n' then ['\r', '\n'] else [c]) ++ terminal t :=
      List.flatMap_cons
    rw [step, List.filter_append, ih]
    by_cases newline : c = '\n'
    · rw [if_pos newline, newline]
      rfl
    · rw [if_neg newline, ← List.filter_append, List.singleton_append]

/-- Output without carriage returns and NUL characters loses only its trailing newlines. -/
theorem captured_out {cmd : Outcome} (noReturn : '\r' ∉ cmd.out) (noNul : Char.ofNat 0 ∉ cmd.out) :
    (captured cmd).out = Text.chomp cmd.out := by
  have plain : cmd.out.filter (· ≠ '\r') = cmd.out := by
    apply List.filter_eq_self.mpr
    intro c hc
    have other : c ≠ '\r' := fun h => noReturn (h ▸ hc)
    simpa using other
  have whole : cmd.out.filter (· ≠ Char.ofNat 0) = cmd.out := by
    apply List.filter_eq_self.mpr
    intro c hc
    have other : c ≠ Char.ofNat 0 := fun h => noNul (h ▸ hc)
    simpa using other
  unfold captured
  rw [show [tr, cat] = [tr] ++ [cat] from rfl, substitute_pipe_snoc]
  change kept (tr (terminal cmd.out)).out = _
  rw [tr_terminal, plain, kept, whole]

/-- A pattern's lines. -/
def hit (re : Regex Char) (line : Text) : Bool := (re.search line).isSome

/-- A value with a character that no option has is printed. -/
theorem echo_of_mem {t : Text} {c : Char} (h : c ∈ t) (other : "-neE".toList.contains c = false) :
    echo t = ⟨t ++ ['\n'], 0⟩ := by
  have text : isEchoOption t = false := by
    unfold isEchoOption
    split
    · rename_i d cs
      rw [List.all_eq_false]
      rcases List.mem_cons.mp h with rfl | later
      · cases other
      · refine ⟨c, later, ?_⟩
        intro letter
        have dashed : "-neE".toList.contains c = true := by
          rw [show "-neE".toList = '-' :: "neE".toList from rfl, List.contains_cons, letter, Bool.or_true]
        rw [other] at dashed
        cases dashed
    · rfl
  rw [echo, text, if_neg Bool.false_ne_true]

theorem echo_of_noDash {t : Text} (h : '-' ∉ t) : echo t = ⟨t ++ ['\n'], 0⟩ := by
  have text : isEchoOption t = false := by
    unfold isEchoOption
    split
    · exact absurd List.mem_cons_self h
    · rfl
  rw [echo, text, if_neg Bool.false_ne_true]

/-- The lines a value arrives with at a filter behind `echo`. -/
def echoed (output : Text) : List Text := Text.records (echo output).out

/-- **A tally counts the lines its pattern matches.** -/
theorem tally_eq (g : Globbing) (re : Regex Char) (output : Text) :
    tally ⟨g, printLine⟩ re output = (echoed output).countP (hit re) := by
  have printed : (pipe (echo output) [awk re printLine]).1 =
      Text.unlines ((echoed output).filter (hit re)) := by
    simp only [pipe, awk, Text.unlines]
    rw [← echoed]
    induction echoed output with
    | nil => rfl
    | cons l ls ih =>
      rw [List.flatMap_cons, ih]
      by_cases found : hit re l = true
      · rw [if_pos (show (re.search l).isSome = true from found), List.filter_cons_of_pos found,
          List.flatMap_cons, printLine]
      · rw [if_neg (show ¬ (re.search l).isSome = true from found), List.filter_cons_of_neg found,
          List.nil_append]
  unfold tally
  rw [printed, wcLines, Text.count_unlines, List.countP_eq_length_filter]
  intro l member
  exact Text.notMem_of_mem_records (List.mem_filter.mp member).1

/-- What perl prints for a line: the first group of its match. -/
def capture (re : Regex Char) (line : Text) : Option Text :=
  (re.search (line ++ ['\n'])).map fun m => (m.groups.lookup 1).getD []

theorem perl_echo (re : Regex Char) (output : Text) : (pipe (echo output) [perl re]).1 =
    Text.unlines ((echoed output).filterMap (capture re)) := by
  simp only [pipe, perl, Text.unlines]
  rw [← echoed]
  induction echoed output with
  | nil => rfl
  | cons l ls ih =>
    rw [List.flatMap_cons, ih]
    cases found : re.search (l ++ ['\n']) with
    | none =>
      have none : capture re l = none := by rw [capture, found, Option.map_none]
      rw [List.filterMap_cons_none none, List.nil_append]
    | some m =>
      have some : capture re l = some ((m.groups.lookup 1).getD []) := by
        rw [capture, found, Option.map_some]
      rw [List.filterMap_cons_some some, List.flatMap_cons]

/-- The words a captured text is split into. -/
theorem words_kept {t : Text} (noNul : Char.ofNat 0 ∉ t) : Text.words (kept t) = Text.words t := by
  have whole : t.filter (· ≠ Char.ofNat 0) = t := by
    apply List.filter_eq_self.mpr
    intro c hc
    have other : c ≠ Char.ofNat 0 := fun h => noNul (h ▸ hc)
    simpa using other
  rw [kept, whole, Text.words_chomp]

theorem notMem_kept {t : Text} {c : Char} (h : c ∉ t) : c ∉ kept t := by
  intro found
  have sub : kept t <:+: t.filter (· ≠ Char.ofNat 0) := (List.rdropWhile_prefix _ _).isInfix
  exact h (List.mem_filter.mp (sub.subset found)).1

/-- **The names are the words of what perl captures, line by line.** -/
theorem namesIn_eq (cfg : Setting) {output : Text} {caps : List Text}
    (captured : (echoed output).filterMap (capture capRe) = caps)
    (noNul : ∀ t ∈ caps, Char.ofNat 0 ∉ t) (noDash : ∀ t ∈ caps, '-' ∉ t) :
    namesIn cfg output = caps.flatMap fun t => cfg.globbing.unquoted t := by
  have clean : Char.ofNat 0 ∉ Text.unlines caps := Text.notMem_unlines (by decide) noNul
  have literal : '-' ∉ kept (Text.unlines caps) := notMem_kept (Text.notMem_unlines (by decide) noDash)
  have first : (substitute (pipe (echo output) [perl capRe])).out = kept (Text.unlines caps) := by
    rw [substitute, perl_echo, captured]
  have second : (substitute (pipe (echo (kept (Text.unlines caps))) [])).out =
      kept (kept (Text.unlines caps) ++ ['\n']) := by
    rw [echo_of_noDash literal]
    rfl
  have clean' : Char.ofNat 0 ∉ kept (Text.unlines caps) ++ ['\n'] := by
    intro found
    rcases List.mem_append.mp found with inside | newline
    · exact notMem_kept clean inside
    · exact absurd (List.mem_singleton.mp newline) (by decide)
  have split : Text.words (kept (kept (Text.unlines caps) ++ ['\n'])) = caps.flatMap Text.words := by
    rw [words_kept clean', Text.words_append_cons (by decide), words_kept clean, Text.words_unlines,
      Text.words_nil, List.append_nil]
  unfold namesIn
  rw [first, second, Globbing.unquoted, split, List.flatMap_assoc]
  rfl

/-! ## The loop -/

/-- What runs in the place of `f` when `bin` is empty. -/
def complaint : Outcome := ⟨"bash: ./*: No such file or directory\n".toList, 127⟩

/-- The loop runs every executable of `bin` once, in order; in an empty `bin` it
runs the pattern itself, which counts only for what bash's complaint counts. -/
theorem BinDir.star_flatMap {β : Type} (bin : BinDir Text) {g : Outcome → List β}
    (silent : g complaint = []) :
    bin.star.flatMap (fun f => g (bin.exec f)) = bin.execs.flatMap fun e => g ⟨e.output, e.status⟩ := by
  by_cases empty : bin.execs = []
  · have none : bin.exec "*".toList = complaint := by
      rw [BinDir.exec, empty]
      rfl
    rw [BinDir.star, if_pos empty, empty, List.flatMap_singleton, none, silent, List.flatMap_nil]
  · rw [BinDir.star, if_neg empty, List.flatMap_map]
    apply List.flatMap_congr
    intro e member
    have found : bin.execs.find? (·.name = e.name) = some e := by
      rw [List.find?_eq_some_iff_append]
      obtain ⟨before, after, split⟩ := List.append_of_mem member
      refine ⟨by simp, before, after, split, ?_⟩
      intro x hx
      have apart := bin.distinct
      rw [split, List.map_append, List.map_cons] at apart
      have different : x.name ≠ e.name :=
        (List.nodup_append.mp apart).2.2 x.name (List.mem_map_of_mem hx) e.name List.mem_cons_self
      simpa using different
    rw [BinDir.exec, found]

/-- Every line of output the filters see over a whole run. -/
def BinDir.seen (bin : BinDir Text) : List Text :=
  bin.star.flatMap fun f => echoed (captured (bin.exec f)).out

/-- A counter that each turn raises by a tally ends up counting lines of the whole run. -/
theorem testAll_tally (g : Globbing) (bin : BinDir Text) (re : Regex Char) {view : Vars → Nat}
    (start : view Vars.initial = 0)
    (step : ∀ f s, view (testOne ⟨g, printLine⟩ bin f s).vars =
      view s.vars + tally ⟨g, printLine⟩ re (captured (bin.exec f)).out) :
    view (testAll ⟨g, printLine⟩ bin) = bin.seen.countP (hit re) := by
  have count : ∀ f s, view (testOne ⟨g, printLine⟩ bin f s).vars =
      view s.vars + ((echoed (captured (bin.exec f)).out).filter (hit re)).length := by
    intro f s
    rw [step, tally_eq, List.countP_eq_length_filter]
  have whole := Cmd.forIn_count count bin.star (Cmd.ended Vars.initial 0)
  rw [testAll, whole, Cmd.ended, start, Nat.zero_add, BinDir.seen, List.countP_eq_length_filter,
    List.filter_flatMap]

theorem testAll_runCount (g : Globbing) (bin : BinDir Text) :
    (testAll ⟨g, printLine⟩ bin).runCount = bin.seen.countP (hit runRe) :=
  testAll_tally g bin runRe rfl fun f s => by rw [testOne_vars]

theorem testAll_passCount (g : Globbing) (bin : BinDir Text) :
    (testAll ⟨g, printLine⟩ bin).passCount = bin.seen.countP (hit okRe) :=
  testAll_tally g bin okRe rfl fun f s => by rw [testOne_vars]

theorem testAll_failCount (g : Globbing) (bin : BinDir Text) :
    (testAll ⟨g, printLine⟩ bin).failCount = bin.seen.countP (hit failedRe) :=
  testAll_tally g bin failedRe rfl fun f s => by rw [testOne_vars]

theorem testAll_names (cfg : Setting) (bin : BinDir Text) : (testAll cfg bin).namesOfFailures =
    bin.star.flatMap fun f => namesIn cfg (captured (bin.exec f)).out := by
  have step : ∀ f s, (testOne cfg bin f s).vars.namesOfFailures =
      s.vars.namesOfFailures ++ namesIn cfg (captured (bin.exec f)).out := fun f s => by
    rw [testOne_vars]
  exact Cmd.forIn_collect step bin.star (Cmd.ended Vars.initial 0)

end Blinky.RunTests
