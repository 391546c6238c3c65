import Blinky.Lib.Regex
import Blinky.Lib.Shell

/-!
# `runTests.sh`

The script builds the tests, runs every executable in `test/build/bin` under
`script`, so that they print in colour, and reads three tallies and the names
of the failures out of what they printed. Each command is modelled in order,
with the status it leaves behind.
-/

namespace Blinky.RunTests
set_option autoImplicit false
open Bash

/-! ## The test executables -/

/-- Characters the shell does not take literally inside a word, and the slash, which
no file name holds. -/
def isSpecial (c : Char) : Bool :=
  c.isWhitespace || "|&;()<>$\"'\\*?[\x7b/".toList.contains c || c == Char.ofNat 96

/-- A name that `*` lists and the shell takes literally. -/
def isPlainName (t : Text) : Bool :=
  t != [] && t.head? != some '.' && t.all fun c => !isSpecial c

/-- A program in `test/build/bin`: its name, what it prints and how it exits. -/
structure TestExecutable (Out : Type) where
  name : Text
  output : Out
  status : Status

/-- `test/build/bin`, in the order `*` lists it. -/
structure BinDir (Out : Type) where
  execs : List (TestExecutable Out)
  plain : ∀ e ∈ execs, isPlainName e.name = true
  distinct : (execs.map (·.name)).Nodup

/-- The words `*` expands to in `bin`; without a match it stays as it is. -/
def BinDir.star {Out : Type} (bin : BinDir Out) : List Text :=
  if bin.execs = [] then ["*".toList] else bin.execs.map (·.name)

/-- `bash -c './f; exit $?'` in `bin`: the program's output and status, or bash's
complaint when there is no such file. -/
def BinDir.exec (bin : BinDir Text) (f : Text) : Outcome :=
  match bin.execs.find? (·.name = f) with
  | some e => ⟨e.output, e.status⟩
  | none => ⟨"bash: ./".toList ++ f ++ ": No such file or directory\n".toList, 127⟩

/-! ## The commands of the pipelines -/

/-- What a terminal makes of a text: newlines become carriage return and newline. -/
def terminal (t : Text) : Text := t.flatMap fun c => if c = '\n' then ['\r', '\n'] else [c]

/-- `script -q /dev/null …`: the command on a terminal, its status passed on. -/
def script (cmd : Outcome) : Outcome := ⟨terminal cmd.out, cmd.status⟩

/-- `tr -d '\r'`. -/
def tr : Filter := fun t => ⟨t.filter (· ≠ '\r'), 0⟩

def cat : Filter := fun t => ⟨t, 0⟩

/-- What `echo` takes for an option: a dash and then only `n`, `e` and `E`. -/
def isEchoOption : Text → Bool
  | '-' :: c :: cs => (c :: cs).all "neE".toList.contains
  | _ => false

/-- `echo "$x"`. A value that looks like an option is one, and `n` drops the newline. -/
def echo (t : Text) : Outcome :=
  if isEchoOption t then ⟨if 'n' ∈ t then [] else ['\n'], 0⟩ else ⟨t ++ ['\n'], 0⟩

/-- `awk "/re/ {print $2}"`. The shell itself replaces `$2` by the script's second
argument; `action` is what the program left over prints for a matching line. -/
def awk (re : Regex Char) (action : Text → Text) : Filter := fun t =>
  ⟨(Text.records t).flatMap fun line => if (re.search line).isSome then action line else [], 0⟩

/-- Without arguments `$2` is empty, and `{print }` prints the line. -/
def printLine (line : Text) : Text := line ++ ['\n']

/-- The number `wc -l` prints. -/
def wcLines (t : Text) : Nat := t.count '\n'

/-- `perl -ne 'print "$1\n" if s/re/…/'` on newline-terminated input. -/
def perl (re : Regex Char) : Filter := fun t =>
  ⟨(Text.records t).flatMap fun line =>
    match re.search (line ++ ['\n']) with
    | some m => (m.groups.lookup 1).getD [] ++ ['\n']
    | none => [], 0⟩

/-! ## The four patterns -/

def isDigit (c : Char) : Bool := '0' ≤ c && c ≤ '9'

/-- Perl's `\s`. -/
def isSpace (c : Char) : Bool :=
  c == ' ' || c == '\t' || c == '\n' || c == '\r' || c == Char.ofNat 11 || c == Char.ofNat 12

/-- `/RUN/`. -/
def runRe : Regex Char := .lit "RUN".toList

/-- `/OK/`. -/
def okRe : Regex Char := .lit "OK".toList

/-- `/FAILED.*?\([0-9]+? ms\)/`. In an extended regular expression `*?` and `+?`
are no lazy operators but an optional repetition. -/
def failedRe : Regex Char :=
  .seq (.lit "FAILED".toList) <| .seq (.opt (.star false fun _ => true)) <|
  .seq (.lit "(".toList) <| .seq (.opt (.plus isDigit)) <| .lit " ms)".toList

/-- Perl's `.`: anything but a newline. -/
def dot (c : Char) : Bool := c != '\n'

/-- `.*?FAILED.*?\[m(?<cap>.*?)(,.*?)?\(\d+\sms\)`. -/
def capRe : Regex Char :=
  .seq (.star true dot) <| .seq (.lit "FAILED".toList) <| .seq (.star true dot) <|
  .seq (.lit "[m".toList) <| .seq (.group 1 (.star true dot)) <|
  .seq (.opt (.group 2 (.seq (.lit ",".toList) (.star true dot)))) <|
  .seq (.lit "(".toList) <| .seq (.plus isDigit) <| .seq (.cls isSpace) <| .lit "ms)".toList

/-! ## The script -/

structure Vars where
  fileCount : Nat
  runCount : Nat
  passCount : Nat
  failCount : Nat
  namesOfFailures : List Text
  exitCode : Status
  output : Text
  count : Nat
  matched : Text
  matcharray : Text

def Vars.initial : Vars := ⟨0, 0, 0, 0, [], 0, [], 0, [], []⟩

/-- What the script does not decide itself: pathname expansion and awk's action. -/
structure Setting where
  globbing : Globbing
  action : Text → Text

/-- `$(script -q /dev/null bash -c './'$f'; exit $?' | tr -d '\r' | cat)`. -/
def captured (cmd : Outcome) : Outcome := substitute (pipe (script cmd) [tr, cat])

/-- `$(echo "$output" | awk "/re/ {print $2}" | wc -l)`. -/
def tally (cfg : Setting) (re : Regex Char) (output : Text) : Nat :=
  wcLines (pipe (echo output) [awk re cfg.action]).1

/-- The body of the loop over `*`; what it prints on the way is left out. -/
def testOne (cfg : Setting) (bin : BinDir Text) (f : Text) : Cmd Vars :=
  .seq [
    .arith (·.fileCount) fun v => { v with fileCount := v.fileCount + 1 },
    .assign (fun t v => { v with output := t }) fun _ => captured (bin.exec f),
    .ifThen (fun s => s.pipestatus.headD 0 ≠ 0) <| .update fun v => { v with exitCode := 1 },
    .update fun v => { v with count := tally cfg runRe v.output },
    .update fun v => { v with runCount := v.runCount + v.count },
    .update fun v => { v with count := tally cfg okRe v.output },
    .update fun v => { v with passCount := v.passCount + v.count },
    .update fun v => { v with count := tally cfg failedRe v.output },
    .update fun v => { v with failCount := v.failCount + v.count },
    .assign (fun t v => { v with matched := t }) fun v =>
      substitute (pipe (echo v.output) [perl capRe]),
    .assign (fun t v => { v with matcharray := t }) fun v => substitute (pipe (echo v.matched) []),
    -- `"${matcharray[@]}"` of a plain variable is one word, the variable's value
    .update fun v => { v with
      namesOfFailures := v.namesOfFailures ++ cfg.globbing.unquoted v.matcharray }]

inductive Colour where
  | plainCode | redCode | greenCode
deriving DecidableEq, Repr

/-- The summary: a colour for each tally, the tallies, and the lines under
`Failed tests:`, which are printed only when `failCount` is positive. -/
structure Summary where
  totalColor : Colour
  passedColor : Colour
  failedColor : Colour
  runCount : Nat
  passCount : Nat
  failCount : Nat
  failedTests : List Text
deriving DecidableEq

def summarise (v : Vars) : Summary :=
  if v.failCount > 0 then
    ⟨.plainCode, .plainCode, .redCode, v.runCount, v.passCount, v.failCount, v.namesOfFailures⟩
  else
    ⟨.greenCode, .greenCode, .plainCode, v.runCount, v.passCount, v.failCount, []⟩

/-- What a run of the script ends with. -/
inductive Report where
  | aborted (message : Text) (status : Status)
  | finished (summary : Summary) (status : Status)
deriving DecidableEq

def Report.status : Report → Status
  | .aborted _ st => st
  | .finished _ st => st

/-- The statuses of the two cmake steps and of `cd bin`, and what is then in `bin`. -/
structure Host where
  configure : Status
  build : Status
  cdBin : Status
  bin : BinDir Text

/-- The loop over the executables. -/
def testAll (cfg : Setting) (bin : BinDir Text) : Vars :=
  (Cmd.forIn bin.star (testOne cfg bin) (Cmd.ended Vars.initial 0)).vars

def runTests (cfg : Setting) (host : Host) : Report :=
  if host.configure ≠ 0 then
    .aborted "cmake failed discovering changes and rebuilding build directory".toList 1
  else if host.build ≠ 0 then
    .aborted "cmake failed to compile executables for testing".toList 1
  else if host.cdBin ≠ 0 then
    .aborted "bin was not made, no test executables compiled".toList 1
  else
    .finished (summarise (testAll cfg host.bin)) (testAll cfg host.bin).exitCode

end Blinky.RunTests
