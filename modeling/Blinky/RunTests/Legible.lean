import Blinky.RunTests.Classify

/-!
# Legible logs

A log has one `RUN` line and one closing line for each of its tests
(`GtestLog.reports`). Whether the patterns find these and no others depends on
the names and the free text of the log alone: `Legible` is that condition, and
`legible_iff` says that it is exact.
-/

namespace Blinky.RunTests
set_option autoImplicit false
open Bash

/-! ## The lines of a log -/

/-- The line that reports how a test ended. -/
def closingLine (t : FullName × Verdict × Nat) : Line :=
  if t.2.1.isPassed then .ok t.1 t.2.2 else .failed t.1 t.2.2

/-- The lines every executed test has exactly one of each. -/
def Line.ofTest : Line → Bool
  | .run _ => true
  | .ok _ _ => true
  | .failed _ _ => true
  | _ => false

theorem ofTest_closingLine (t : FullName × Verdict × Nat) : (closingLine t).ofTest = true := by
  unfold closingLine
  split <;> rfl

theorem testLines_ofTest (t : FullName × Verdict × Nat) :
    (testLines t).filter Line.ofTest = [.run t.1, closingLine t] := by
  have reports : (t.2.1.report.map Line.report).filter Line.ofTest = [] := by
    rw [List.filter_map]
    simp [Function.comp_def, Line.ofTest]
  have closing : [closingLine t].filter Line.ofTest = [closingLine t] := by
    rw [List.filter_cons_of_pos (ofTest_closingLine t), List.filter_nil]
  change (Line.run t.1 :: (t.2.1.report.map .report ++ [closingLine t])).filter Line.ofTest = _
  rw [List.filter_cons_of_pos rfl, List.filter_append, reports, closing, List.nil_append]

theorem suiteLines_ofTest (s : TestSuite) : (suiteLines s).filter Line.ofTest =
    (s.tests.map fun t => ((⟨s.name, t.name⟩ : FullName), t.verdict, t.ms)).flatMap
      fun t => [.run t.1, closingLine t] := by
  rw [suiteLines, List.filter_cons_of_neg (by simp [Line.ofTest]), List.filter_append,
    List.filter_flatMap]
  simp only [testLines_ofTest]
  have rest : [Line.suiteEnd s.tests.length s.name s.ms, .blank].filter Line.ofTest = [] := rfl
  rw [rest, List.append_nil]

theorem failureLines_ofTest (log : GtestLog) : (failureLines log).filter Line.ofTest = [] := by
  unfold failureLines
  split
  · rfl
  · rw [List.filter_cons_of_neg (by simp [Line.ofTest]), List.filter_append, List.filter_map]
    simp [Function.comp_def, Line.ofTest]

theorem closingLines_ofTest (log : GtestLog) : (closingLines log).filter Line.ofTest = [] := by
  unfold closingLines
  split
  · rfl
  · split <;> rfl

/-- Every test has started once and ended once, in order, and nothing else has. -/
def Reports (ls : List Line) (ts : List (FullName × Verdict × Nat)) : Prop :=
  ls.filter Line.ofTest = ts.flatMap fun t => [.run t.1, closingLine t]

/-- **Every executed test starts once and ends once, in order.** -/
theorem GtestLog.reports (log : GtestLog) : Reports log.lines log.tests := by
  have suites : (log.suites.flatMap suiteLines).filter Line.ofTest =
      log.tests.flatMap fun t => [.run t.1, closingLine t] := by
    rw [List.filter_flatMap, GtestLog.tests, List.flatMap_assoc]
    simp only [suiteLines_ofTest]
  have middle : (if log.suites = [] then [] else
      Line.setUp :: (log.suites.flatMap suiteLines ++ [.tearDown])).filter Line.ofTest =
      (log.suites.flatMap suiteLines).filter Line.ofTest := by
    split
    · rename_i none
      rw [none]
      rfl
    · rw [List.filter_cons_of_neg (by simp [Line.ofTest]), List.filter_append,
        show [Line.tearDown].filter Line.ofTest = [] from rfl, List.append_nil]
  have ending : [Line.ran log.executed log.suites.length log.ms, .passed log.passed].filter Line.ofTest =
      [] := rfl
  rw [Reports, GtestLog.lines, List.filter_cons_of_neg (by simp [Line.ofTest]),
    List.filter_cons_of_neg (by simp [Line.ofTest]), List.filter_append, List.filter_append,
    List.filter_append, middle, suites, ending, failureLines_ofTest, closingLines_ofTest,
    List.append_nil, List.append_nil, List.append_nil]

section

variable {ls : List Line} {ts : List (FullName × Verdict × Nat)}

/-- A count that takes at most one of a test's two lines counts tests. -/
theorem Reports.countP (h : Reports ls ts) {p : Line → Bool} {q : FullName × Verdict × Nat → Bool}
    (sub : ∀ l, p l = true → l.ofTest = true)
    (each : ∀ t, [Line.run t.1, closingLine t].countP p = if q t then 1 else 0) :
    ls.countP p = ts.countP q := by
  have tests : ls.countP p = (ts.flatMap fun t => [.run t.1, closingLine t]).countP p := by
    rw [← h, List.countP_filter]
    apply List.countP_congr
    intro l _
    have imp := sub l
    rw [Bool.and_eq_true]
    exact ⟨fun h => ⟨h, imp h⟩, fun h => h.1⟩
  rw [tests]
  clear h tests
  induction ts with
  | nil => rfl
  | cons t ts ih =>
    rw [List.flatMap_cons, List.countP_append, ih, each, List.countP_cons]
    omega

theorem Reports.countP_isRun (h : Reports ls ts) : ls.countP Line.isRun = ts.length := by
  rw [h.countP (q := fun _ => true) (by intro l; cases l <;> simp [Line.isRun, Line.ofTest])]
  · rw [List.countP_true]
  · intro t
    unfold closingLine
    split <;> rfl

theorem Reports.countP_isOk (h : Reports ls ts) : ls.countP Line.isOk = ts.countP (·.2.1.isPassed) := by
  apply h.countP (by intro l; cases l <;> simp [Line.isOk, Line.ofTest])
  intro t
  unfold closingLine
  cases t.2.1.isPassed <;> rfl

theorem Reports.countP_isFailed (h : Reports ls ts) :
    ls.countP Line.isFailed = ts.countP (!·.2.1.isPassed) := by
  apply h.countP (by intro l; cases l <;> simp [Line.isFailed, Line.ofTest])
  intro t
  unfold closingLine
  cases t.2.1.isPassed <;> rfl

end

/-- The failed tests, as their closing lines name them. -/
def Line.failedName : Line → Option FullName
  | .failed name _ => some name
  | _ => none

theorem GtestLog.filterMap_failedName (log : GtestLog) :
    log.lines.filterMap Line.failedName = log.failures := by
  have relevant : log.lines.filterMap Line.failedName =
      (log.lines.filter Line.ofTest).filterMap Line.failedName := by
    rw [List.filterMap_filter]
    congr 1
    funext l
    cases l <;> rfl
  have pair : ∀ t, [Line.run t.1, closingLine t].filterMap Line.failedName =
      if t.2.1.isPassed then [] else [t.1] := by
    intro t
    unfold closingLine
    split <;> rfl
  rw [relevant, log.reports, GtestLog.failures]
  induction log.tests with
  | nil => rfl
  | cons t ts ih =>
    rw [List.flatMap_cons, List.filterMap_append, ih, pair]
    cases passed : t.2.1.isPassed <;> simp [passed]

/-! ## Legible logs -/

/-- Neither `RUN` nor `OK` in it. -/
structure Unmarked (t : Text) : Prop where
  run : ¬ "RUN".toList <:+: t
  ok : ¬ "OK".toList <:+: t

/-- Names without `RUN` and `OK`, passed tests without `FAILED` in their names, and
free text without any of the three. -/
structure GtestLog.Legible (log : GtestLog) : Prop where
  file : Unmarked log.file.text ∧ ¬ TimedFailure log.file.text
  suites : ∀ s ∈ log.suites, Unmarked s.name.text
  tests : ∀ t ∈ log.tests, Unmarked t.1.test.text
  passed : ∀ t ∈ log.tests, t.2.1.isPassed = true →
    ¬ "FAILED".toList <:+: t.1.suite.text ∧ ¬ "FAILED".toList <:+: t.1.test.text
  reports : ∀ t ∈ log.tests, ∀ x ∈ t.2.1.report, Unmarked x.text ∧ ¬ TimedFailure x.text

/-- Each pattern selects the line only if it is of the pattern's own kind. -/
structure Line.Faithful (l : Line) : Prop where
  run : hit runRe l.text = true → l.isRun = true
  ok : hit okRe l.text = true → l.isOk = true
  failed : hit failedRe l.text = true → l.isFailed = true

theorem Line.Faithful.noRun {l : Line} (h : l.Faithful) (other : l.isRun = false) {t : Text}
    (field : t ∈ l.fields) : ¬ "RUN".toList <:+: t := fun found => by
  rw [h.run (l.run_iff.mpr (.inr ⟨t, field, found⟩))] at other
  cases other

theorem Line.Faithful.noOk {l : Line} (h : l.Faithful) (other : l.isOk = false) {t : Text}
    (field : t ∈ l.fields) : ¬ "OK".toList <:+: t := fun found => by
  rw [h.ok (l.ok_iff.mpr (.inr ⟨t, field, found⟩))] at other
  cases other

theorem Line.Faithful.noMimic {l : Line} (h : l.Faithful) (other : l.isFailed = false) :
    ¬ l.MimicsFailure := fun mimics => by
  rw [h.failed (l.failed_iff.mpr (.inr mimics))] at other
  cases other

/-- Where the fields of a line come from. -/
def Line.From (log : GtestLog) : Line → Prop
  | .main file => file = log.file
  | .suiteStart _ suite => ∃ s ∈ log.suites, suite = s.name
  | .suiteEnd _ suite _ => ∃ s ∈ log.suites, suite = s.name
  | .run name => ∃ t ∈ log.tests, name = t.1
  | .report line => ∃ t ∈ log.tests, line ∈ t.2.1.report
  | .ok name _ => ∃ t ∈ log.tests, name = t.1 ∧ t.2.1.isPassed = true
  | .failed name _ => ∃ t ∈ log.tests, name = t.1
  | .listed name => ∃ t ∈ log.tests, name = t.1
  | _ => True

theorem GtestLog.exists_suite {log : GtestLog} {t : FullName × Verdict × Nat} (h : t ∈ log.tests) :
    ∃ s ∈ log.suites, t.1.suite = s.name := by
  obtain ⟨s, suite, member⟩ := List.mem_flatMap.mp h
  obtain ⟨x, -, rfl⟩ := List.mem_map.mp member
  exact ⟨s, suite, rfl⟩

theorem from_testLines {log : GtestLog} {t : FullName × Verdict × Nat} (ht : t ∈ log.tests) {l : Line}
    (h : l ∈ testLines t) : l.From log := by
  rcases List.mem_cons.mp h with rfl | h
  · exact ⟨t, ht, rfl⟩
  · rcases List.mem_append.mp h with report | closing
    · obtain ⟨x, member, rfl⟩ := List.mem_map.mp report
      exact ⟨t, ht, member⟩
    · obtain rfl := List.mem_singleton.mp closing
      split
      · rename_i passed
        exact ⟨t, ht, rfl, passed⟩
      · exact ⟨t, ht, rfl⟩

theorem from_suiteLines {log : GtestLog} {s : TestSuite} (hs : s ∈ log.suites) {l : Line}
    (h : l ∈ suiteLines s) : l.From log := by
  rcases List.mem_cons.mp h with rfl | h
  · exact ⟨s, hs, rfl⟩
  · rcases List.mem_append.mp h with tests | ending
    · obtain ⟨t, member, hl⟩ := List.mem_flatMap.mp tests
      exact from_testLines (List.mem_flatMap.mpr ⟨s, hs, member⟩) hl
    · rcases List.mem_cons.mp ending with rfl | ending
      · exact ⟨s, hs, rfl⟩
      · obtain rfl := List.mem_singleton.mp ending
        trivial

theorem from_failureLines {log : GtestLog} {l : Line} (h : l ∈ failureLines log) : l.From log := by
  unfold failureLines at h
  split at h
  · cases h
  · rcases List.mem_cons.mp h with rfl | h
    · trivial
    · rcases List.mem_append.mp h with listed | ending
      · obtain ⟨name, member, rfl⟩ := List.mem_map.mp listed
        obtain ⟨t, failed, rfl⟩ := List.mem_map.mp member
        exact ⟨t, (List.mem_filter.mp failed).1, rfl⟩
      · rcases List.mem_cons.mp ending with rfl | ending
        · trivial
        · obtain rfl := List.mem_singleton.mp ending
          trivial

theorem from_closingLines {log : GtestLog} {l : Line} (h : l ∈ closingLines log) : l.From log := by
  have shape : ∀ l ∈ closingLines log, l = .blank ∨ l = .disabled log.disabled ∨ l = .reset := by
    unfold closingLines
    split
    · simp
    · split <;> simp
  rcases shape l h with rfl | rfl | rfl <;> trivial

/-- **Every field of a log comes from its suites, its tests or its free text.** -/
theorem GtestLog.from_of_mem {log : GtestLog} {l : Line} (h : l ∈ log.lines) : l.From log := by
  rw [GtestLog.lines] at h
  rcases List.mem_cons.mp h with rfl | h
  · exact rfl
  rcases List.mem_cons.mp h with rfl | h
  · trivial
  rcases List.mem_append.mp h with h | closing
  · rcases List.mem_append.mp h with h | failures
    · rcases List.mem_append.mp h with suites | totals
      · split at suites
        · cases suites
        · rcases List.mem_cons.mp suites with rfl | suites
          · trivial
          · rcases List.mem_append.mp suites with body | tearDown
            · obtain ⟨s, hs, hl⟩ := List.mem_flatMap.mp body
              exact from_suiteLines hs hl
            · obtain rfl := List.mem_singleton.mp tearDown
              trivial
      · rcases List.mem_cons.mp totals with rfl | totals
        · trivial
        · obtain rfl := List.mem_singleton.mp totals
          trivial
    · exact from_failureLines failures
  · exact from_closingLines closing

theorem GtestLog.mem_lines_of_suite {log : GtestLog} {s : TestSuite} (hs : s ∈ log.suites) {l : Line}
    (h : l ∈ suiteLines s) : l ∈ log.lines := by
  have some : log.suites ≠ [] := List.ne_nil_of_mem hs
  have body : l ∈ log.suites.flatMap suiteLines := List.mem_flatMap.mpr ⟨s, hs, h⟩
  rw [GtestLog.lines, if_neg some]
  simp [body]

theorem GtestLog.mem_lines_of_test {log : GtestLog} {t : FullName × Verdict × Nat} (ht : t ∈ log.tests)
    {l : Line} (h : l ∈ testLines t) : l ∈ log.lines := by
  obtain ⟨s, hs, member⟩ := List.mem_flatMap.mp ht
  refine log.mem_lines_of_suite hs (List.mem_cons_of_mem _ (List.mem_append_left _ ?_))
  exact List.mem_flatMap.mpr ⟨t, member, h⟩

/-- In a legible log no field of any line has `RUN` or `OK` in it. -/
theorem GtestLog.Legible.unmarked {log : GtestLog} (h : log.Legible) {l : Line} (hl : l ∈ log.lines)
    {t : Text} (field : t ∈ l.fields) : Unmarked t := by
  have source := log.from_of_mem hl
  have name : ∀ {x : FullName × Verdict × Nat}, x ∈ log.tests →
      t ∈ [x.1.suite.text, x.1.test.text] → Unmarked t := by
    intro x hx member
    rcases List.mem_cons.mp member with rfl | member
    · obtain ⟨s, hs, same⟩ := log.exists_suite hx
      rw [same]
      exact h.suites s hs
    · rw [List.mem_singleton.mp member]
      exact h.tests x hx
  cases l with
  | main file =>
    rw [List.mem_singleton.mp field, show file = log.file from source]
    exact h.file.1
  | suiteStart n suite | suiteEnd n suite ms =>
    obtain ⟨s, hs, rfl⟩ := source
    rw [List.mem_singleton.mp field]
    exact h.suites s hs
  | report line =>
    obtain ⟨x, hx, member⟩ := source
    rw [List.mem_singleton.mp field]
    exact (h.reports x hx line member).1
  | run n | failed n ms | listed n =>
    obtain ⟨x, hx, rfl⟩ := source
    exact name hx field
  | ok n ms =>
    obtain ⟨x, hx, rfl, -⟩ := source
    exact name hx field
  | running | setUp | blank | tearDown | ran | passed | failedTests | failedTotal | disabled | reset =>
    cases field

/-- In a legible log no line mimics a failed test. -/
theorem GtestLog.Legible.noMimic {log : GtestLog} (h : log.Legible) {l : Line} (hl : l ∈ log.lines) :
    ¬ l.MimicsFailure := by
  have source := log.from_of_mem hl
  intro mimics
  cases l with
  | main file =>
    obtain rfl : file = log.file := source
    exact h.file.2 mimics
  | report line =>
    obtain ⟨x, hx, member⟩ := source
    exact (h.reports x hx line member).2 mimics
  | ok n ms =>
    obtain ⟨x, hx, rfl, passed⟩ := source
    rcases mimics with suite | test
    · exact (h.passed x hx passed).1 suite
    · exact (h.passed x hx passed).2 test
  | running | setUp | blank | tearDown | ran | passed | failedTests | failedTotal | disabled | reset
  | suiteStart | suiteEnd | run | failed | listed => cases mimics

/-- **A log is legible exactly when every pattern selects its own lines only.** -/
theorem GtestLog.legible_iff (log : GtestLog) : log.Legible ↔ ∀ l ∈ log.lines, l.Faithful := by
  constructor
  · intro h l hl
    constructor
    · intro found
      rcases l.run_iff.mp found with own | ⟨t, field, inField⟩
      · exact own
      · exact absurd inField (h.unmarked hl field).run
    · intro found
      rcases l.ok_iff.mp found with own | ⟨t, field, inField⟩
      · exact own
      · exact absurd inField (h.unmarked hl field).ok
    · intro found
      rcases l.failed_iff.mp found with own | mimics
      · exact own
      · exact absurd mimics (h.noMimic hl)
  · intro faithful
    have main : (Line.main log.file).Faithful := faithful _ (by simp [GtestLog.lines])
    have start : ∀ s ∈ log.suites, (Line.suiteStart s.tests.length s.name).Faithful := fun s hs =>
      faithful _ (log.mem_lines_of_suite hs (by simp [suiteLines]))
    have run : ∀ t ∈ log.tests, (Line.run t.1).Faithful := fun t ht =>
      faithful _ (log.mem_lines_of_test ht (by simp [testLines]))
    have report : ∀ t ∈ log.tests, ∀ x ∈ t.2.1.report, (Line.report x).Faithful := fun t ht x hx =>
      faithful _ (log.mem_lines_of_test ht (by simp [testLines, hx]))
    have closing : ∀ t ∈ log.tests, (closingLine t).Faithful := fun t ht =>
      faithful _ (log.mem_lines_of_test ht (by simp [testLines, closingLine]))
    constructor
    · refine ⟨⟨main.noRun rfl (by simp [Line.fields]), main.noOk rfl (by simp [Line.fields])⟩, ?_⟩
      exact main.noMimic rfl
    · intro s hs
      exact ⟨(start s hs).noRun rfl (by simp [Line.fields]), (start s hs).noOk rfl (by simp [Line.fields])⟩
    · intro t ht
      -- the `RUN` line shows that `OK` is absent, the closing line that `RUN` is
      refine ⟨?_, (run t ht).noOk rfl (by simp [Line.fields])⟩
      have line := closing t ht
      unfold closingLine at line
      split at line <;> exact line.noRun rfl (by simp [Line.fields])
    · intro t ht passed
      have line := closing t ht
      rw [closingLine, if_pos passed] at line
      exact not_or.mp (line.noMimic rfl)
    · intro t ht x hx
      have line := report t ht x hx
      exact ⟨⟨line.noRun rfl (by simp [Line.fields]), line.noOk rfl (by simp [Line.fields])⟩,
        line.noMimic rfl⟩

end Blinky.RunTests
