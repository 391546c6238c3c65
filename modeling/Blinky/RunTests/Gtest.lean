import Blinky.Lib.Template
import Blinky.RunTests.Script

/-!
# The log of a googletest 1.10 program

What a program linked with `gtest_main` prints on a terminal, line by line, as
`PrettyUnitTestResultPrinter` formats it: the banner, for each suite the lines
around its tests, for each test a `RUN` line, the report of its failed
assertions and its closing line, then the summary with the list of failures.
The names are C identifiers; the file name of `gtest_main` and the reports are
free text without control characters.
-/

namespace Blinky.RunTests
set_option autoImplicit false
open Bash

/-! ## What a log is about -/

def isIdentChar (c : Char) : Bool := c.isAlphanum || c == '_'

def isIdentifier : Text → Bool
  | [] => false
  | c :: cs => !c.isDigit && isIdentChar c && cs.all isIdentChar

/-- A C identifier. -/
structure Identifier where
  text : Text
  legal : isIdentifier text = true

def isPrintable (c : Char) : Bool := decide (' ' ≤ c) && c != Char.ofNat 127

/-- A line of free text. -/
structure FreeText where
  text : Text
  printable : text.all isPrintable = true

/-- How a test ended; a failed one reports its failed assertions. -/
inductive Verdict where
  | passed
  | failed (report : List FreeText)

structure TestRun where
  name : Identifier
  verdict : Verdict
  ms : Nat

/-- A suite is run only if it has a test to run. -/
structure TestSuite where
  name : Identifier
  tests : List TestRun
  nonempty : tests ≠ []
  ms : Nat

/-- One run of a test program. `file` is `gtest_main`'s own `__FILE__`. -/
structure GtestLog where
  file : FreeText
  suites : List TestSuite
  ms : Nat
  disabled : Nat

def Verdict.isPassed : Verdict → Bool
  | .passed => true
  | .failed _ => false

def Verdict.report : Verdict → List FreeText
  | .passed => []
  | .failed r => r

/-- A test as the log names it. -/
structure FullName where
  suite : Identifier
  test : Identifier

def FullName.text (n : FullName) : Text := n.suite.text ++ '.' :: n.test.text

/-- The tests of a log with their full names, in the order they run. -/
def GtestLog.tests (log : GtestLog) : List (FullName × Verdict × Nat) :=
  log.suites.flatMap fun s => s.tests.map fun t => (⟨s.name, t.name⟩, t.verdict, t.ms)

def GtestLog.executed (log : GtestLog) : Nat := log.tests.length

def GtestLog.passed (log : GtestLog) : Nat := log.tests.countP (·.2.1.isPassed)

def GtestLog.failures (log : GtestLog) : List FullName :=
  (log.tests.filter fun t => !t.2.1.isPassed).map (·.1)

/-! ## How it is printed -/

inductive Line where
  | main (file : FreeText)
  | running (tests suites : Nat)
  | setUp
  | suiteStart (tests : Nat) (suite : Identifier)
  | run (name : FullName)
  | report (line : FreeText)
  | ok (name : FullName) (ms : Nat)
  | failed (name : FullName) (ms : Nat)
  | suiteEnd (tests : Nat) (suite : Identifier) (ms : Nat)
  | blank
  | tearDown
  | ran (tests suites ms : Nat)
  | passed (tests : Nat)
  | failedTests (tests : Nat)
  | listed (name : FullName)
  | failedTotal (tests : Nat)
  | disabled (tests : Nat)
  | reset

def esc : Char := Char.ofNat 27

/-- `ColoredPrintf`: a text between the colour's escape sequence and the reset. -/
def coloured (code : Char) (s : String) : Piece :=
  .lit (esc :: "[0;3".toList ++ code :: 'm' :: s.toList ++ [esc, '[', 'm'])

def red (s : String) : Piece := coloured '1' s

def green (s : String) : Piece := coloured '2' s

def fixed (s : String) : Piece := .lit s.toList

/-- `FormatCountableNoun`, with the text that follows the noun. -/
def counted (n : Nat) (one many : String) : List Piece :=
  [.num n, if n = 1 then fixed one else fixed many]

/-- The suite and test name of a test. -/
def named (name : FullName) : List Piece :=
  [.field name.suite.text, fixed ".", .field name.test.text]

/-- The elapsed time `print_time` adds. -/
def elapsed (ms : Nat) (closing : String) : List Piece := [fixed " (", .num ms, fixed closing]

def Line.pieces : Line → List Piece
  | .main file => [fixed "Running main() from ", .field file.text]
  | .running tests suites =>
    green "[==========] " :: fixed "Running " :: counted tests " test from " " tests from " ++
      counted suites " test suite." " test suites."
  | .setUp => [green "[----------] ", fixed "Global test environment set-up."]
  | .suiteStart tests suite =>
    green "[----------] " :: counted tests " test from " " tests from " ++ [.field suite.text]
  | .run name => green "[ RUN      ] " :: named name
  | .report line => [.field line.text]
  | .ok name ms => green "[       OK ] " :: named name ++ elapsed ms " ms)"
  | .failed name ms => red "[  FAILED  ] " :: named name ++ elapsed ms " ms)"
  | .suiteEnd tests suite ms =>
    green "[----------] " :: counted tests " test from " " tests from " ++ [.field suite.text] ++
      elapsed ms " ms total)"
  | .blank => []
  | .tearDown => [green "[----------] ", fixed "Global test environment tear-down"]
  | .ran tests suites ms =>
    green "[==========] " :: counted tests " test from " " tests from " ++
      counted suites " test suite ran." " test suites ran." ++ elapsed ms " ms total)"
  | .passed tests => green "[  PASSED  ] " :: counted tests " test." " tests."
  | .failedTests tests =>
    red "[  FAILED  ] " :: counted tests " test, listed below:" " tests, listed below:"
  | .listed name => red "[  FAILED  ] " :: named name
  | .failedTotal tests =>
    (if tests < 10 then fixed " " else fixed "") :: counted tests " FAILED TEST" " FAILED TESTS"
  | .disabled tests =>
    .lit (esc :: "[0;33m  YOU HAVE ".toList) :: counted tests " DISABLED TEST" " DISABLED TESTS"
  | .reset => [.lit [esc, '[', 'm']]

def Line.text (l : Line) : Text := Piece.render l.pieces

/-- A test's lines: `OnTestStart`, `OnTestPartResult`, `OnTestEnd`. -/
def testLines (t : FullName × Verdict × Nat) : List Line :=
  .run t.1 :: (t.2.1.report.map .report ++
    [if t.2.1.isPassed then .ok t.1 t.2.2 else .failed t.1 t.2.2])

/-- A suite's lines: `OnTestSuiteStart`, its tests, `OnTestSuiteEnd`. -/
def suiteLines (s : TestSuite) : List Line :=
  .suiteStart s.tests.length s.name ::
    ((s.tests.map fun t => ((⟨s.name, t.name⟩ : FullName), t.verdict, t.ms)).flatMap testLines ++
      [.suiteEnd s.tests.length s.name s.ms, .blank])

/-- The list of failures of `OnTestIterationEnd`. -/
def failureLines (log : GtestLog) : List Line :=
  if log.failures = [] then []
  else .failedTests log.failures.length ::
    (log.failures.map .listed ++ [.blank, .failedTotal log.failures.length])

/-- The reminder of disabled tests, and what stands after the last newline. -/
def closingLines (log : GtestLog) : List Line :=
  if log.disabled = 0 then [.blank]
  else (if log.failures = [] then [.blank] else []) ++ [.disabled log.disabled, .blank, .reset]

def GtestLog.lines (log : GtestLog) : List Line :=
  .main log.file :: .running log.executed log.suites.length ::
    ((if log.suites = [] then [] else .setUp :: (log.suites.flatMap suiteLines ++ [.tearDown])) ++
      [.ran log.executed log.suites.length log.ms, .passed log.passed] ++
      failureLines log ++ closingLines log)

/-- What the program prints: its lines, separated by newlines. -/
def GtestLog.print (log : GtestLog) : Text := ['\n'].intercalate (log.lines.map Line.text)

end Blinky.RunTests
