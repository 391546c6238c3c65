import Blinky.RunTests.Script

/-!
# The exit status of `runTests.sh`

The loop asks `PIPESTATUS[0]` for the status of the program it ran. By then the
pipeline that ran it is gone: it lived in the subshell of `$(…)`, and the
assignment around it is a pipeline of its own, whose only status is that of
`cat`. So `exitCode` is never set, and a built test run exits 0 whatever the
executables do.
-/

namespace Blinky.RunTests
set_option autoImplicit false
open Bash

/-- The substitution returns what `cat` returns, not what the program returned. -/
theorem captured_status (cmd : Outcome) : (captured cmd).status = 0 := by
  unfold captured
  rw [show [tr, cat] = [tr] ++ [cat] from rfl, substitute_pipe_snoc]
  rfl

/-- The words one executable adds to `namesOfFailures`. -/
def namesIn (cfg : Setting) (output : Text) : List Text :=
  cfg.globbing.unquoted (substitute (pipe (echo (substitute (pipe (echo output) [perl capRe])).out) [])).out

/-- One turn of the loop, as an equation on the variables. -/
theorem testOne_vars (cfg : Setting) (bin : BinDir Text) (f : Text) (s : Shell Vars) :
    (testOne cfg bin f s).vars =
      let output := (captured (bin.exec f)).out
      { fileCount := s.vars.fileCount + 1
        runCount := s.vars.runCount + tally cfg runRe output
        passCount := s.vars.passCount + tally cfg okRe output
        failCount := s.vars.failCount + tally cfg failedRe output
        namesOfFailures := s.vars.namesOfFailures ++ namesIn cfg output
        exitCode := s.vars.exitCode
        output := output
        count := tally cfg failedRe output
        matched := (substitute (pipe (echo output) [perl capRe])).out
        matcharray :=
          (substitute (pipe (echo (substitute (pipe (echo output) [perl capRe])).out) [])).out } := by
  have status := captured_status (bin.exec f)
  simp only [testOne, Cmd.seq_cons, Cmd.seq_nil, Cmd.assign_vars, Cmd.update_vars]
  -- the only test: `PIPESTATUS[0]` is the status of the assignment before it
  simp [Cmd.ifThen, Cmd.assign_pipestatus, status, Cmd.ended, namesIn]

theorem testOne_exitCode (cfg : Setting) (bin : BinDir Text) (f : Text) (s : Shell Vars) :
    (testOne cfg bin f s).vars.exitCode = s.vars.exitCode := by
  rw [testOne_vars]

theorem testAll_exitCode (cfg : Setting) (bin : BinDir Text) : (testAll cfg bin).exitCode = 0 := by
  have keep : (testAll cfg bin).exitCode = Vars.initial.exitCode :=
    Cmd.forIn_keep (testOne_exitCode cfg bin) bin.star (Cmd.ended Vars.initial 0)
  rw [keep]
  rfl

/-- Both cmake steps and `cd bin` succeeded. -/
structure Host.Built (host : Host) : Prop where
  configure : host.configure = 0
  build : host.build = 0
  cdBin : host.cdBin = 0

/-- A built run reports the summary of the loop. -/
theorem runTests_built {host : Host} (built : host.Built) (cfg : Setting) :
    runTests cfg host = .finished (summarise (testAll cfg host.bin)) (testAll cfg host.bin).exitCode := by
  simp only [runTests, built.configure, built.build, built.cdBin, ne_eq, not_true_eq_false, if_false]

/-- A run that fails to build says so and exits 1 without running any executable. -/
theorem runTests_unbuilt {host : Host} (unbuilt : ¬ host.Built) (cfg : Setting) :
    ∃ message, runTests cfg host = .aborted message 1 := by
  unfold runTests
  by_cases configure : host.configure = 0
  · by_cases build : host.build = 0
    · by_cases cdBin : host.cdBin = 0
      · exact absurd ⟨configure, build, cdBin⟩ unbuilt
      · simp [configure, build, cdBin]
    · simp [configure, build]
  · simp [configure]

/-- A built run exits 0, whatever the executables print and return. -/
theorem runTests_status {host : Host} (built : host.Built) (cfg : Setting) :
    (runTests cfg host).status = 0 := by
  rw [runTests_built built cfg]
  exact testAll_exitCode cfg host.bin

/-- What the exit status should tell: success exactly when every executable
succeeded; failure when one fails at any position, and when a test of a failing
executable was counted as failed. -/
structure ExitTellsTruth (cfg : Setting) (host : Host) : Prop where
  success : (runTests cfg host).status = 0 ↔ ∀ e ∈ host.bin.execs, e.status = 0
  anywhere : ∀ before e after, host.bin.execs = before ++ e :: after → e.status ≠ 0 →
    (runTests cfg host).status ≠ 0
  counted : ∀ e ∈ host.bin.execs, e.status ≠ 0 →
    0 < tally cfg failedRe (captured ⟨e.output, e.status⟩).out → (runTests cfg host).status ≠ 0

/-- **The exit status is right exactly on the runs with nothing to report.** -/
theorem exit_truth_iff {host : Host} (built : host.Built) (cfg : Setting) :
    ExitTellsTruth cfg host ↔ ∀ e ∈ host.bin.execs, e.status = 0 := by
  have status := runTests_status built cfg
  constructor
  · exact fun truth => truth.success.mp status
  · intro clean
    refine ⟨⟨fun _ => clean, fun _ => status⟩, ?_, ?_⟩
    · intro before e after split bad
      exact absurd (clean e (by simp [split])) bad
    · intro e member bad
      exact absurd (clean e member) bad

/-- Pathname expansion where no file matches any pattern. -/
def noFiles : Globbing := ⟨fun w => [w], fun _ _ => rfl⟩

/-- The script run without arguments, in a directory no pattern matches in. -/
def bare : Setting := ⟨noFiles, printLine⟩

/-- One test program that prints nothing and exits 1. -/
def failingHost : Host :=
  ⟨0, 0, 0, ⟨[⟨"app_main_tests".toList, [], 1⟩], by decide, by decide⟩⟩

theorem exit_truth_failing :
    ExitTellsTruth bare failingHost ↔ ∀ e ∈ failingHost.bin.execs, e.status = 0 :=
  exit_truth_iff ⟨rfl, rfl, rfl⟩ bare

/-- The failing program goes unreported. -/
theorem failing_run_exits_zero : ¬ ExitTellsTruth bare failingHost := fun truth => by
  have status : (runTests bare failingHost).status = 0 := runTests_status ⟨rfl, rfl, rfl⟩ bare
  have clean := truth.success.mp status
  have one : (1 : Status) = 0 := clean ⟨"app_main_tests".toList, [], 1⟩ (by simp [failingHost])
  exact absurd one (by decide)

end Blinky.RunTests
