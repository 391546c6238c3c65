import Blinky.RunTests.Legible

/-!
# The tallies of `runTests.sh`

Over a run on googletest logs the script counts lines, and every test has its
own `RUN` line and its own closing line. So the tallies can only be too high:
they are right exactly when no line is taken for one of another kind, that is,
when the logs are legible; and then the names are the failures, too.
-/

namespace Blinky.RunTests
set_option autoImplicit false
open Bash

/-! ## From the log to the filters -/

/-- The filters get a log's lines back, up to empty ones at its end. -/
theorem GtestLog.captured_lines (log : GtestLog) (st : Status) :
    (captured ⟨log.print, st⟩).out = Text.chomp log.print ∧
      log.print.splitOn '\n' = log.lines.map Line.text := by
  have chars : ∀ {c : Char}, c ≠ '\n' → isLogChar c = false → c ∉ log.print := by
    intro c other outside found
    rcases Text.mem_intercalate found with newline | ⟨t, member, hc⟩
    · exact other newline
    · obtain ⟨l, -, rfl⟩ := List.mem_map.mp member
      exact l.notMem outside hc
  constructor
  · exact captured_out (chars (by decide) (by decide)) (chars (by decide) (by decide))
  · apply List.splitOn_intercalate
    · intro t member
      obtain ⟨l, -, rfl⟩ := List.mem_map.mp member
      exact l.notMem (by decide)
    · simp [GtestLog.lines]

/-- They are no option of `echo`'s, and arrive at the filters as they are. -/
theorem GtestLog.echoed_lines (log : GtestLog) (st : Status) :
    echoed (captured ⟨log.print, st⟩).out = (Text.chomp log.print).splitOn '\n' := by
  have banner : 'R' ∈ Text.chomp log.print := by
    have head : 'R' ∈ log.print := by
      obtain ⟨ls, lines⟩ : ∃ ls, log.lines = .main log.file :: ls := ⟨_, rfl⟩
      rw [GtestLog.print, lines, List.map_cons]
      apply (Text.prefix_intercalate _ _).subset
      simp [Line.text, Line.pieces, Piece.render, Piece.text, fixed]
    exact Text.mem_chomp (by decide) head
  rw [(log.captured_lines st).1, echoed, echo_of_mem banner (by decide), Text.records_newline]

/-- **The names the script finds in a legible log are its failures.** -/
theorem GtestLog.Legible.namesIn {log : GtestLog} (h : log.Legible) (cfg : Setting) (st : Status) :
    RunTests.namesIn cfg (captured ⟨log.print, st⟩).out = log.failures.map FullName.text := by
  obtain ⟨-, lines⟩ := log.captured_lines st
  have perLine : ∀ l ∈ log.lines, capture capRe l.text = l.failedName.map (·.text ++ [' ']) := by
    intro l hl
    cases captured : capture capRe l.text with
    | some t =>
      have found := hit_failedRe l.text |>.mpr (l.timedFailure_of_capture captured)
      rcases l.failed_iff.mp found with own | mimics
      · cases l with
        | failed n ms =>
          rw [capture_failed] at captured
          exact captured.symm
        | _ => cases own
      · exact absurd mimics (h.noMimic hl)
    | none =>
      cases l with
      | failed n ms =>
        rw [capture_failed] at captured
        cases captured
      | _ => rfl
  have caps : (echoed (captured ⟨log.print, st⟩).out).filterMap (capture capRe) =
      log.failures.map (·.text ++ [' ']) := by
    rw [log.echoed_lines, Text.filterMap_chomp (by decide), lines, List.filterMap_map,
      ← log.filterMap_failedName, List.map_filterMap]
    exact List.filterMap_congr perLine
  rw [namesIn_eq cfg caps]
  · rw [List.flatMap_map, List.map_eq_flatMap]
    apply List.flatMap_congr
    intro n _
    have noBlank : ∀ c ∈ n.text, Text.isIFS c = false := by
      intro c hc
      have others : ∀ d : Char, isIdentChar d = false → d ≠ '.' → (c == d) = false := by
        intro d outside dot
        have different : c ≠ d := fun same => n.notMem outside dot (same ▸ hc)
        simpa using different
      rw [Text.isIFS, others ' ' (by decide) (by decide), others '\t' (by decide) (by decide),
        others '\n' (by decide) (by decide)]
      rfl
    have single : Text.words (n.text ++ [' ']) = [n.text] := by
      rw [Text.words_append_cons (by decide), Text.words_nil, List.append_nil]
      exact Text.words_single noBlank (by simp [FullName.text])
    have literal : cfg.globbing.expand n.text = [n.text] := by
      apply cfg.globbing.plain
      intro c hc special
      simp only [List.mem_cons, List.not_mem_nil, or_false] at special
      rcases special with rfl | rfl | rfl | rfl <;>
        exact n.notMem (by decide) (by decide) hc
    rw [Globbing.unquoted, single, List.flatMap_singleton, literal]
  · intro t member
    obtain ⟨n, -, rfl⟩ := List.mem_map.mp member
    simp [n.notMem (c := Char.ofNat 0) (by decide) (by decide)]
  · intro t member
    obtain ⟨n, -, rfl⟩ := List.mem_map.mp member
    simp [n.notMem (c := '-') (by decide) (by decide)]

/-! ## A whole run -/

/-- The executables with what they print. -/
def BinDir.printed (bin : BinDir GtestLog) : BinDir Text where
  execs := bin.execs.map fun e => ⟨e.name, e.output.print, e.status⟩
  plain := by
    intro e member
    obtain ⟨x, hx, rfl⟩ := List.mem_map.mp member
    exact bin.plain x hx
  distinct := by
    rw [List.map_map]
    exact bin.distinct

/-- All lines of a run's logs, in order. -/
def BinDir.lines (bin : BinDir GtestLog) : List Line := bin.execs.flatMap (·.output.lines)

/-- A filter blind to empty lines and to bash's complaint sees the lines of the logs. -/
theorem BinDir.seen_filter (bin : BinDir GtestLog) {f : Text → Bool} (blank : f [] = false)
    (silent : f "bash: ./*: No such file or directory".toList = false) :
    bin.printed.seen.filter f = (bin.lines.map Line.text).filter f := by
  have none : (echoed (captured complaint).out).filter f = [] := by
    rw [show echoed (captured complaint).out = ["bash: ./*: No such file or directory".toList] by
      decide, List.filter_cons_of_neg (by rw [silent]; exact Bool.false_ne_true), List.filter_nil]
  rw [BinDir.seen, List.filter_flatMap,
    bin.printed.star_flatMap (g := fun o => (echoed (captured o).out).filter f) none,
    BinDir.lines, List.map_flatMap, List.filter_flatMap, BinDir.printed, List.flatMap_map]
  apply List.flatMap_congr
  intro e _
  obtain ⟨-, lines⟩ := e.output.captured_lines e.status
  dsimp only
  rw [e.output.echoed_lines, Text.filter_chomp blank, lines]

theorem BinDir.seen_countP (bin : BinDir GtestLog) {f : Text → Bool} (blank : f [] = false)
    (silent : f "bash: ./*: No such file or directory".toList = false) :
    bin.printed.seen.countP f = bin.lines.countP fun l => f l.text := by
  rw [List.countP_eq_length_filter, bin.seen_filter blank silent, ← List.countP_eq_length_filter,
    List.countP_map]
  rfl

/-- All tests of a run, in the order they ran. -/
def BinDir.tests (bin : BinDir GtestLog) : List (FullName × Verdict × Nat) :=
  bin.execs.flatMap (·.output.tests)

theorem BinDir.reports (bin : BinDir GtestLog) : Reports bin.lines bin.tests := by
  rw [Reports, BinDir.lines, BinDir.tests, List.filter_flatMap, List.flatMap_assoc]
  apply List.flatMap_congr
  intro e _
  exact e.output.reports

/-- Where every `p` is a `q`, the two counts agree exactly if every `q` is a `p`. -/
theorem countP_eq_iff {α : Type} {p q : α → Bool} {l : List α}
    (sub : ∀ x ∈ l, p x = true → q x = true) :
    l.countP q = l.countP p ↔ ∀ x ∈ l, q x = true → p x = true := by
  induction l with
  | nil => simp
  | cons x l ih =>
    have rest := ih fun y hy => sub y (List.mem_cons_of_mem x hy)
    have le : l.countP p ≤ l.countP q :=
      List.countP_mono_left fun y hy => sub y (List.mem_cons_of_mem x hy)
    rw [List.countP_cons, List.countP_cons, List.forall_mem_cons, ← rest]
    have here := sub x List.mem_cons_self
    cases hp : p x <;> cases hq : q x
    · simp
    · simp only [if_true, Bool.false_eq_true, if_false, imp_false, not_true_eq_false, false_and, iff_false]
      omega
    · rw [here hp] at hq
      cases hq
    · simp

/-- A host where both cmake steps and `cd bin` succeed. -/
def Host.ofBin (bin : BinDir Text) : Host := ⟨0, 0, 0, bin⟩

/-- The full names of the failed tests, in the order they ran. -/
def BinDir.failures (bin : BinDir GtestLog) : List Text :=
  (bin.tests.filter fun t => !t.2.1.isPassed).map (·.1.text)

/-- What the summary should say about the tests that ran. -/
structure TruthfulSummary (bin : BinDir GtestLog) (s : Summary) : Prop where
  run : s.runCount = bin.tests.length
  passed : s.passCount = bin.tests.countP (·.2.1.isPassed)
  failed : s.failCount = bin.tests.countP (!·.2.1.isPassed)
  total : s.runCount = s.passCount + s.failCount
  names : s.failedTests = bin.failures
  once : s.failedTests.Nodup

/-- Every log is legible, and no two failed tests share their full name. -/
structure BinDir.Legible (bin : BinDir GtestLog) : Prop where
  logs : ∀ e ∈ bin.execs, e.output.Legible
  distinct : bin.failures.Nodup

/-- The three tallies of a run on logs. -/
theorem testAll_counts (g : Globbing) (bin : BinDir GtestLog) :
    (testAll ⟨g, printLine⟩ bin.printed).runCount = bin.lines.countP (fun l => hit runRe l.text) ∧
    (testAll ⟨g, printLine⟩ bin.printed).passCount = bin.lines.countP (fun l => hit okRe l.text) ∧
    (testAll ⟨g, printLine⟩ bin.printed).failCount = bin.lines.countP (fun l => hit failedRe l.text) := by
  rw [testAll_runCount, testAll_passCount, testAll_failCount]
  refine ⟨bin.seen_countP ?_ ?_, bin.seen_countP ?_ ?_, bin.seen_countP ?_ ?_⟩ <;> decide

theorem summarise_counts (v : Vars) : (summarise v).runCount = v.runCount ∧
    (summarise v).passCount = v.passCount ∧ (summarise v).failCount = v.failCount := by
  unfold summarise
  split <;> exact ⟨rfl, rfl, rfl⟩

/-- **True tallies are read off lines of the right kind only.** -/
theorem faithful_iff (g : Globbing) (bin : BinDir GtestLog) :
    (∀ l ∈ bin.lines, l.Faithful) ↔
      (testAll ⟨g, printLine⟩ bin.printed).runCount = bin.tests.length ∧
      (testAll ⟨g, printLine⟩ bin.printed).passCount = bin.tests.countP (·.2.1.isPassed) ∧
      (testAll ⟨g, printLine⟩ bin.printed).failCount = bin.tests.countP (!·.2.1.isPassed) := by
  obtain ⟨run, pass, fail⟩ := testAll_counts g bin
  rw [run, pass, fail, ← bin.reports.countP_isRun, ← bin.reports.countP_isOk,
    ← bin.reports.countP_isFailed,
    countP_eq_iff fun l _ own => l.run_iff.mpr (.inl own),
    countP_eq_iff fun l _ own => l.ok_iff.mpr (.inl own),
    countP_eq_iff fun l _ own => l.failed_iff.mpr (.inl own)]
  constructor
  · exact fun h => ⟨fun l hl => (h l hl).run, fun l hl => (h l hl).ok, fun l hl => (h l hl).failed⟩
  · exact fun ⟨run, ok, failed⟩ l hl => ⟨run l hl, ok l hl, failed l hl⟩

theorem BinDir.forall_lines_iff (bin : BinDir GtestLog) :
    (∀ l ∈ bin.lines, l.Faithful) ↔ ∀ e ∈ bin.execs, e.output.Legible := by
  simp only [GtestLog.legible_iff, BinDir.lines, List.mem_flatMap]
  constructor
  · exact fun h e he l hl => h l ⟨e, he, hl⟩
  · rintro h l ⟨e, he, hl⟩
    exact h e he l hl

/-- In legible logs the script finds the names of the failures. -/
theorem testAll_failures (cfg : Setting) {bin : BinDir GtestLog}
    (h : ∀ e ∈ bin.execs, e.output.Legible) : (testAll cfg bin.printed).namesOfFailures = bin.failures := by
  have silent : namesIn cfg (captured complaint).out = [] := by
    have caps : (echoed (captured complaint).out).filterMap (capture capRe) = [] := by decide
    rw [namesIn_eq cfg caps (by simp) (by simp), List.flatMap_nil]
  rw [testAll_names, bin.printed.star_flatMap (g := fun o => namesIn cfg (captured o).out) silent,
    BinDir.printed, List.flatMap_map, BinDir.failures, BinDir.tests, List.filter_flatMap, List.map_flatMap]
  apply List.flatMap_congr
  intro e he
  have names := (h e he).namesIn cfg e.status
  rw [GtestLog.failures, List.map_map] at names
  exact names

/-- The list of failures is printed exactly if there is one. -/
theorem summarise_failedTests {v : Vars} (h : v.failCount = v.namesOfFailures.length) :
    (summarise v).failedTests = v.namesOfFailures := by
  unfold summarise
  split
  · rfl
  · have none : v.namesOfFailures.length = 0 := by omega
    exact (List.length_eq_zero_iff.mp none).symm

/-- A run on logs finishes with the summary of the loop. -/
theorem runTests_printed (g : Globbing) (bin : BinDir GtestLog) :
    runTests ⟨g, printLine⟩ (Host.ofBin bin.printed) = .finished
      (summarise (testAll ⟨g, printLine⟩ bin.printed)) (testAll ⟨g, printLine⟩ bin.printed).exitCode :=
  runTests_built ⟨rfl, rfl, rfl⟩ ⟨g, printLine⟩

/-- A true summary leaves no line misread. -/
theorem TruthfulSummary.faithful {g : Globbing} {bin : BinDir GtestLog} {s : Summary} {st : Status}
    (truth : TruthfulSummary bin s)
    (report : runTests ⟨g, printLine⟩ (Host.ofBin bin.printed) = .finished s st) :
    ∀ l ∈ bin.lines, l.Faithful := by
  obtain ⟨run, pass, fail⟩ := summarise_counts (testAll ⟨g, printLine⟩ bin.printed)
  rw [runTests_printed] at report
  cases report
  apply (faithful_iff g bin).mpr
  exact ⟨run ▸ truth.run, pass ▸ truth.passed, fail ▸ truth.failed⟩

/-- **The summary is true exactly when the logs are legible.** -/
theorem summary_truthful_iff (g : Globbing) (bin : BinDir GtestLog) :
    (∃ s st, runTests ⟨g, printLine⟩ (Host.ofBin bin.printed) = .finished s st ∧ TruthfulSummary bin s) ↔
      bin.Legible := by
  constructor
  · rintro ⟨s, st, report, truth⟩
    exact ⟨bin.forall_lines_iff.mp (truth.faithful report), truth.names ▸ truth.once⟩
  · intro legible
    obtain ⟨run, pass, fail⟩ := summarise_counts (testAll ⟨g, printLine⟩ bin.printed)
    obtain ⟨runs, passes, fails⟩ := (faithful_iff g bin).mp (bin.forall_lines_iff.mpr legible.logs)
    have names := testAll_failures ⟨g, printLine⟩ legible.logs
    have listed : (summarise (testAll ⟨g, printLine⟩ bin.printed)).failedTests = bin.failures := by
      rw [summarise_failedTests, names]
      rw [names, fails, BinDir.failures, List.length_map, List.countP_eq_length_filter]
    refine ⟨_, _, runTests_printed g bin, ?_⟩
    constructor
    · exact run.trans runs
    · exact pass.trans passes
    · exact fail.trans fails
    · have split := List.length_eq_countP_add_countP (fun t => t.2.1.isPassed) (l := bin.tests)
      rw [run, pass, fail, runs, passes, fails, split]
      simp
    · exact listed
    · rw [listed]
      exact legible.distinct

/-- One program with one test, `S.TOKEN`, that passes. -/
def tokenBin : BinDir GtestLog where
  execs := [⟨"token_tests".toList,
    ⟨⟨"gtest_main.cc".toList, by decide⟩,
      [⟨⟨"S".toList, by decide⟩, [⟨⟨"TOKEN".toList, by decide⟩, .passed, 0⟩], by simp, 0⟩], 0, 0⟩, 0⟩]
  plain := by decide
  distinct := by decide

/-- Its `RUN` line is taken for a second passed test. -/
theorem token_counted_twice : ¬ ∃ s st, runTests ⟨noFiles, printLine⟩ (Host.ofBin tokenBin.printed) =
    .finished s st ∧ TruthfulSummary tokenBin s := by
  rintro ⟨s, st, report, truth⟩
  have line : Line.run ⟨⟨"S".toList, by decide⟩, ⟨"TOKEN".toList, by decide⟩⟩ ∈ tokenBin.lines := by
    simp [tokenBin, BinDir.lines, GtestLog.lines, suiteLines, testLines]
  have noOk := (truth.faithful report _ line).noOk rfl (t := "TOKEN".toList) (by simp [Line.fields])
  exact noOk (by decide)

end Blinky.RunTests
