import Blinky.RunTests.Filters
import Blinky.RunTests.Gtest

/-!
# How the patterns classify a line

None of the four patterns is anchored, so each finds its own kind of line and
also whatever name or free text happens to contain it. Per line, `run_iff`,
`ok_iff` and `failed_iff` say exactly when that happens; `capture_failed` is
what perl takes from a failed test's closing line.
-/

namespace Blinky.RunTests
set_option autoImplicit false
open Bash

/-! ## Characters of a log -/

/-- Printable, or the escape that starts a colour sequence. -/
def isLogChar (c : Char) : Bool := isPrintable c || c == esc

theorem isDigit_range {c : Char} (h : c.isDigit = true) : 48 ≤ c.toNat ∧ c.toNat ≤ 57 := by
  simp only [Char.isDigit, Bool.and_eq_true, decide_eq_true_eq, ge_iff_le, UInt32.le_iff_toNat_le] at h
  exact h

theorem isUpper_of_isDigit {c : Char} (h : c.isDigit = true) : c.isUpper = false := by
  have range := isDigit_range h
  show decide ('A'.val ≤ c.val ∧ c.val ≤ 'Z'.val) = false
  rw [decide_eq_false_iff_not, UInt32.le_iff_toNat_le, UInt32.le_iff_toNat_le]
  show ¬ (65 ≤ c.toNat ∧ c.toNat ≤ 90)
  omega

/-- The digits of the patterns are the digits numbers are printed with. -/
theorem isDigit_eq (c : Char) : isDigit c = c.isDigit := by
  rw [Bool.eq_iff_iff]
  simp [isDigit, Char.isDigit, Char.le_def]

theorem isLogChar_of_range {c : Char} (low : 32 ≤ c.toNat) (high : c.toNat < 127) :
    isLogChar c = true := by
  have space : ' ' ≤ c := by
    rw [Char.le_def, UInt32.le_iff_toNat_le]
    exact low
  have other : c ≠ Char.ofNat 127 := by
    intro same
    rw [same] at high
    exact absurd high (by decide)
  simp [isLogChar, isPrintable, space, other]

theorem isLogChar_of_isDigit {c : Char} (h : c.isDigit = true) : isLogChar c = true := by
  have range := isDigit_range h
  exact isLogChar_of_range (by omega) (by omega)

theorem isLogChar_of_isIdentChar {c : Char} (h : isIdentChar c = true) : isLogChar c = true := by
  have ranges : (((decide ('A'.val ≤ c.val ∧ c.val ≤ 'Z'.val) ||
      (decide ('a'.val ≤ c.val) && decide (c.val ≤ 'z'.val))) || c.isDigit) || c == '_') = true := h
  simp only [Bool.or_eq_true, Bool.and_eq_true, decide_eq_true_eq, UInt32.le_iff_toNat_le,
    beq_iff_eq] at ranges
  rcases ranges with ((upper | lower) | digit) | rfl
  · change 65 ≤ c.toNat ∧ c.toNat ≤ 90 at upper
    exact isLogChar_of_range (by omega) (by omega)
  · change 97 ≤ c.toNat ∧ c.toNat ≤ 122 at lower
    exact isLogChar_of_range (by omega) (by omega)
  · exact isLogChar_of_isDigit digit
  · decide

/-- The characters of an identifier. -/
theorem Identifier.isIdentChar_of_mem (i : Identifier) {c : Char} (h : c ∈ i.text) :
    isIdentChar c = true := by
  have legal := i.legal
  generalize i.text = t at h legal
  cases t with
  | nil => cases h
  | cons d ds =>
    simp only [isIdentifier, Bool.and_eq_true, List.all_eq_true] at legal
    rcases List.mem_cons.mp h with rfl | later
    · exact legal.1.2
    · exact legal.2 c later

theorem Identifier.notMem (i : Identifier) {c : Char} (h : isIdentChar c = false) : c ∉ i.text :=
  fun found => by
    rw [i.isIdentChar_of_mem found] at h
    cases h

theorem FullName.notMem (n : FullName) {c : Char} (h : isIdentChar c = false) (dot : c ≠ '.') :
    c ∉ n.text := by
  intro found
  rcases List.mem_append.mp found with suite | rest
  · exact n.suite.notMem h suite
  · rcases List.mem_cons.mp rest with here | test
    · exact dot here
    · exact n.test.notMem h test

/-! ## Lines and their pieces -/

/-- What a line fills in. -/
def Line.fields : Line → List Text
  | .main file => [file.text]
  | .suiteStart _ suite => [suite.text]
  | .run name => [name.suite.text, name.test.text]
  | .report line => [line.text]
  | .ok name _ => [name.suite.text, name.test.text]
  | .failed name _ => [name.suite.text, name.test.text]
  | .suiteEnd _ suite _ => [suite.text]
  | .listed name => [name.suite.text, name.test.text]
  | _ => []

def Line.isRun : Line → Bool
  | .run _ => true
  | _ => false

def Line.isOk : Line → Bool
  | .ok _ _ => true
  | _ => false

def Line.isFailed : Line → Bool
  | .failed _ _ => true
  | _ => false

/-- The lines whose format has a parenthesis. -/
def Line.isTimed : Line → Bool
  | .main _ => true
  | .ok _ _ => true
  | .failed _ _ => true
  | .suiteEnd _ _ _ => true
  | .ran _ _ _ => true
  | _ => false

/-- What the formats of the lines have to do with the patterns, read off the literals. -/
structure Line.Formatted (l : Line) : Prop where
  parted : Piece.parted Char.isUpper l.pieces = true
  fields : Piece.fields l.pieces = l.fields
  chars : (Piece.lits l.pieces).all (·.all isLogChar) = true
  run : Piece.hasLit "RUN".toList l.pieces = l.isRun
  ok : Piece.hasLit "OK".toList l.pieces = l.isOk
  timed : Piece.hasLit "(".toList l.pieces = l.isTimed

theorem Line.formatted (l : Line) : l.Formatted := by
  cases l with
  | running tests suites | ran tests suites ms =>
    by_cases one : tests = 1 <;> by_cases one' : suites = 1 <;> constructor <;>
      simp only [Line.pieces, counted, one, one', if_true, if_false] <;> rfl
  | suiteStart n s | suiteEnd n s ms | passed n | failedTests n | disabled n =>
    by_cases one : n = 1 <;> constructor <;>
      simp only [Line.pieces, counted, one, if_true, if_false] <;> rfl
  | failedTotal n =>
    by_cases one : n = 1 <;> by_cases few : n < 10 <;> constructor <;>
      simp only [Line.pieces, counted, one, few, if_true, if_false] <;> rfl
  | main | setUp | run | report | ok | failed | blank | tearDown | listed | reset =>
    constructor <;> rfl

/-- A pattern in capitals occurs in a line where its format or a field has it. -/
theorem Line.infix_iff (l : Line) {p : Text} (ne : p ≠ []) (upper : p.all Char.isUpper = true) :
    p <:+: l.text ↔ Piece.hasLit p l.pieces = true ∨ ∃ t ∈ l.fields, p <:+: t := by
  have pieces := Piece.infix_render_iff ne upper (fun _ => isUpper_of_isDigit) l.formatted.parted
  rw [Line.text, pieces, Piece.exists_infix_iff ne upper (fun _ => isUpper_of_isDigit),
    l.formatted.fields]

/-- A field holds characters of identifiers, or printable ones. -/
theorem Line.isLogChar_of_field {l : Line} {t : Text} (h : t ∈ l.fields) {c : Char} (hc : c ∈ t) :
    isLogChar c = true := by
  have ident : ∀ i : Identifier, c ∈ i.text → isLogChar c = true := fun i found =>
    isLogChar_of_isIdentChar (i.isIdentChar_of_mem found)
  have free : ∀ x : FreeText, c ∈ x.text → isLogChar c = true := fun x found => by
    have printable := List.all_eq_true.mp x.printable c found
    rw [isLogChar, printable, Bool.true_or]
  have name : ∀ n : FullName, t ∈ [n.suite.text, n.test.text] → isLogChar c = true := by
    intro n member
    rcases List.mem_cons.mp member with rfl | member
    · exact ident _ hc
    · obtain rfl := List.mem_singleton.mp member
      exact ident _ hc
  cases l with
  | main file => exact free file (List.mem_singleton.mp h ▸ hc)
  | report line => exact free line (List.mem_singleton.mp h ▸ hc)
  | suiteStart n suite => exact ident suite (List.mem_singleton.mp h ▸ hc)
  | suiteEnd n suite ms => exact ident suite (List.mem_singleton.mp h ▸ hc)
  | run n => exact name n h
  | ok n ms => exact name n h
  | failed n ms => exact name n h
  | listed n => exact name n h
  | running | setUp | blank | tearDown | ran | passed | failedTests | failedTotal | disabled | reset =>
    cases h

/-- A line holds no control character but the escapes of its colours. -/
theorem Line.isLogChar_of_mem (l : Line) {c : Char} (h : c ∈ l.text) : isLogChar c = true := by
  rcases Piece.mem_render_cases h with digit | ⟨t, member, hc⟩ | ⟨t, member, hc⟩
  · exact isLogChar_of_isDigit digit
  · exact List.all_eq_true.mp (List.all_eq_true.mp l.formatted.chars t member) c hc
  · rw [l.formatted.fields] at member
    exact isLogChar_of_field member hc

theorem Line.notMem (l : Line) {c : Char} (h : isLogChar c = false) : c ∉ l.text := fun found => by
  rw [l.isLogChar_of_mem found] at h
  cases h

/-! ## The two plain patterns -/

theorem hit_lit (p t : Text) : hit (.lit p) t = true ↔ p <:+: t := by
  rw [hit, Regex.search_isSome_iff]
  constructor
  · rintro ⟨u, w, v, rfl, rfl⟩
    exact ⟨u, v, rfl⟩
  · rintro ⟨u, v, rfl⟩
    exact ⟨u, p, v, rfl, rfl⟩

/-- **`/RUN/` finds the lines that start a test, and every field that spells it.** -/
theorem Line.run_iff (l : Line) :
    hit runRe l.text = true ↔ l.isRun = true ∨ ∃ t ∈ l.fields, "RUN".toList <:+: t := by
  rw [runRe, hit_lit, l.infix_iff (by decide) (by decide), l.formatted.run]

/-- **`/OK/` finds the lines of passed tests, and every field that spells it.** -/
theorem Line.ok_iff (l : Line) :
    hit okRe l.text = true ↔ l.isOk = true ∨ ∃ t ∈ l.fields, "OK".toList <:+: t := by
  rw [okRe, hit_lit, l.infix_iff (by decide) (by decide), l.formatted.ok]

/-! ## The pattern of failed tests -/

/-- `FAILED`, and further on a duration in parentheses. -/
def TimedFailure (t : Text) : Prop := ∃ a x ds y : Text,
  t = a ++ "FAILED".toList ++ x ++ '(' :: (ds ++ " ms)".toList ++ y) ∧ ∀ c ∈ ds, c.isDigit = true

theorem hit_failedRe (t : Text) : hit failedRe t = true ↔ TimedFailure t := by
  rw [hit, Regex.search_isSome_iff]
  constructor
  · rintro ⟨a, w, y, rfl, _, _, rfl, rfl, x, _, rfl, -, _, _, rfl, rfl, ds, _, rfl, digits, rfl⟩
    refine ⟨a, x, ds, y, by simp, ?_⟩
    rcases digits with ⟨_, _, rfl, ⟨d, rfl, first⟩, others⟩ | rfl
    · intro c hc
      rcases List.mem_cons.mp hc with rfl | later
      · rwa [isDigit_eq] at first
      · have digit := others c later
        rwa [isDigit_eq] at digit
    · simp
  · rintro ⟨a, x, ds, y, rfl, digits⟩
    refine ⟨a, "FAILED".toList ++ (x ++ ("(".toList ++ (ds ++ " ms)".toList))), y, by simp,
      _, _, rfl, rfl, x, _, rfl, .inl fun _ _ => rfl, _, _, rfl, rfl, ds, _, rfl, ?_, rfl⟩
    cases ds with
    | nil => exact .inr rfl
    | cons d ds =>
      refine .inl ⟨[d], ds, rfl, ⟨d, rfl, ?_⟩, fun c hc => ?_⟩
      · rw [isDigit_eq]
        exact digits d (by simp)
      · rw [isDigit_eq]
        exact digits c (by simp [hc])

theorem TimedFailure.infix {t : Text} (h : TimedFailure t) : "FAILED".toList <:+: t := by
  obtain ⟨a, x, ds, y, rfl, -⟩ := h
  exact ⟨a, x ++ '(' :: (ds ++ " ms)".toList ++ y), by simp⟩

theorem TimedFailure.paren {t : Text} (h : TimedFailure t) : '(' ∈ t := by
  obtain ⟨a, x, ds, y, rfl, -⟩ := h
  simp

/-- Text in front without an `F` changes nothing. -/
theorem timedFailure_append {u : Text} (noF : 'F' ∉ u) (t : Text) :
    TimedFailure (u ++ t) ↔ TimedFailure t := by
  constructor
  · rintro ⟨a, x, ds, y, whole, digits⟩
    rw [List.append_assoc, List.append_assoc] at whole
    rcases List.append_eq_append_iff.mp whole with ⟨b, rfl, rest⟩ | ⟨b, rfl, rest⟩
    · exact ⟨b, x, ds, y, by rw [rest]; simp, digits⟩
    · cases b with
      | nil => exact ⟨[], x, ds, y, by rw [List.nil_append] at rest; rw [← rest]; simp, digits⟩
      | cons c b =>
        have head : 'F' = c := (List.cons.inj rest).1
        exact absurd (by rw [← head]; simp) noF
  · rintro ⟨a, x, ds, y, rfl, digits⟩
    exact ⟨u ++ a, x, ds, y, by simp, digits⟩

/-- A test's closing line counts if `FAILED` occurs before its duration. -/
theorem timedFailure_closing (t : Text) (ms : Nat) :
    TimedFailure (t ++ Piece.render (elapsed ms " ms)")) ↔ "FAILED".toList <:+: t := by
  have rest : Piece.render (elapsed ms " ms)") =
      ' ' :: '(' :: ((Piece.num ms).text ++ " ms)".toList) := by
    simp [elapsed, fixed, Piece.text]
  rw [rest]
  constructor
  · intro h
    have found := h.infix
    rw [Text.infix_append_cons_iff (by decide)] at found
    rcases found with before | after
    · exact before
    · have letter : 'A' ∈ '(' :: ((Piece.num ms).text ++ " ms)".toList) := after.subset (by decide)
      rcases List.mem_cons.mp letter with paren | tail
      · exact absurd paren (by decide)
      · rcases List.mem_append.mp tail with digit | unit
        · exact absurd (Piece.isDigit_of_mem_num digit) (by decide)
        · exact absurd unit (by decide)
  · rintro ⟨a, x, rfl⟩
    refine ⟨a, x ++ [' '], (Piece.num ms).text, [], by simp, ?_⟩
    exact fun c hc => Piece.isDigit_of_mem_num hc

/-- The total time of a suite or a program is no duration of a test. -/
theorem not_timedFailure_total {t : Text} (noParen : '(' ∉ t) (ms : Nat) :
    ¬ TimedFailure (t ++ Piece.render (elapsed ms " ms total)")) := by
  rintro ⟨a, x, ds, y, whole, digits⟩
  have rest : Piece.render (elapsed ms " ms total)") =
      [' '] ++ '(' :: ((Piece.num ms).text ++ ' ' :: "ms total)".toList) := by
    simp [elapsed, fixed, Piece.text]
  have paren : ∀ u : Text, (∀ c ∈ u, c.isDigit = true) → '(' ∉ u := fun u all h =>
    absurd (all _ h) (by decide)
  have blank : ∀ u : Text, (∀ c ∈ u, c.isDigit = true) → ' ' ∉ u := fun u all h =>
    absurd (all _ h) (by decide)
  have number : ∀ c ∈ (Piece.num ms).text, c.isDigit = true := fun c => Piece.isDigit_of_mem_num
  rw [rest, ← List.append_assoc] at whole
  obtain ⟨-, tail⟩ := Text.cut_unique (by simpa using noParen)
    (by
      intro h
      rcases List.mem_append.mp h with inNumber | inUnit
      · exact paren _ number inNumber
      · exact absurd inUnit (by decide)) whole
  -- both tails are digits up to the first blank; after it `ms)` is not `ms `
  have sameTail : (Piece.num ms).text ++ ' ' :: "ms total)".toList = ds ++ ' ' :: ("ms)".toList ++ y) := by
    rw [tail]
    simp
  have unit := (Text.first_cut_unique (blank _ number) (blank _ digits) sameTail).2
  cases unit

/-- A line's parentheses are in its format or its fields. -/
theorem paren_notMem_render {ps : List Piece} (format : Piece.hasLit "(".toList ps = false)
    (fields : ∀ t ∈ Piece.fields ps, '(' ∉ t) : '(' ∉ Piece.render ps := by
  intro found
  rcases Piece.mem_render_cases found with digit | ⟨t, member, hc⟩ | ⟨t, member, hc⟩
  · exact absurd digit (by decide)
  · have here : Piece.hasLit "(".toList ps = true := by
      refine List.any_eq_true.mpr ⟨t, member, decide_eq_true ?_⟩
      obtain ⟨a, b, rfl⟩ := List.append_of_mem hc
      exact ⟨a, b, by simp⟩
    rw [format] at here
    cases here
  · exact fields t member hc

/-- What else the pattern takes for a failed test. -/
def Line.MimicsFailure : Line → Prop
  | .main file => TimedFailure file.text
  | .report line => TimedFailure line.text
  | .ok name _ => "FAILED".toList <:+: name.suite.text ∨ "FAILED".toList <:+: name.test.text
  | _ => False

/-- The names on a closing line are parted from the rest of it. -/
theorem infix_named_iff (tag : Piece) (name : FullName) (parted : tag.endsOutside Char.isUpper = true) :
    "FAILED".toList <:+: Piece.render (tag :: named name) ↔ "FAILED".toList <:+: tag.text ∨
      "FAILED".toList <:+: name.suite.text ∨ "FAILED".toList <:+: name.test.text := by
  have whole : Piece.parted Char.isUpper (tag :: named name) = true := by
    simp only [Piece.parted, named, parted, Bool.true_or, Bool.true_and]
    rfl
  rw [Piece.infix_render_iff (by decide) (by decide) (fun _ => isUpper_of_isDigit) whole]
  have dot : ¬ "FAILED".toList <:+: (fixed ".").text := by decide
  rw [named, List.exists_mem_cons_iff, List.exists_mem_cons_iff, List.exists_mem_cons_iff,
    List.exists_mem_cons_iff]
  simp only [dot, false_or, List.not_mem_nil, false_and, exists_false, or_false]
  exact Iff.rfl

/-- **`/FAILED…ms)/` finds the lines of failed tests, and what mimics them.** -/
theorem Line.failed_iff (l : Line) :
    hit failedRe l.text = true ↔ l.isFailed = true ∨ l.MimicsFailure := by
  rw [hit_failedRe]
  have untimed : l.isTimed = false → (∀ t ∈ l.fields, '(' ∉ t) → ¬ TimedFailure l.text := by
    intro format fields timed
    refine paren_notMem_render ?_ ?_ timed.paren
    · rw [l.formatted.timed, format]
    · rwa [l.formatted.fields]
  have ident : ∀ i : Identifier, '(' ∉ i.text := fun i => i.notMem (by decide)
  cases l with
  | main file =>
    rw [show (Line.main file).text = "Running main() from ".toList ++ file.text by
      simp [Line.text, Line.pieces, fixed, Piece.text], timedFailure_append (by decide)]
    simp [Line.isFailed, Line.MimicsFailure]
  | report line =>
    rw [show (Line.report line).text = line.text by simp [Line.text, Line.pieces, Piece.text]]
    simp [Line.isFailed, Line.MimicsFailure]
  | ok name ms =>
    rw [show (Line.ok name ms).text = Piece.render (green "[       OK ] " :: named name) ++
      Piece.render (elapsed ms " ms)") by simp [Line.text, Line.pieces, Piece.render],
      timedFailure_closing, infix_named_iff _ _ (by decide)]
    have tag : ¬ "FAILED".toList <:+: (green "[       OK ] ").text := by decide
    rw [or_iff_right tag]
    exact (or_iff_right Bool.false_ne_true).symm
  | failed name ms =>
    rw [show (Line.failed name ms).text = Piece.render (red "[  FAILED  ] " :: named name) ++
      Piece.render (elapsed ms " ms)") by simp [Line.text, Line.pieces, Piece.render],
      timedFailure_closing, infix_named_iff _ _ (by decide)]
    have tag : "FAILED".toList <:+: (red "[  FAILED  ] ").text := by decide
    exact iff_of_true (.inl tag) (.inl rfl)
  | suiteEnd tests suite ms =>
    rw [show (Line.suiteEnd tests suite ms).text =
      Piece.render (green "[----------] " :: counted tests " test from " " tests from " ++
        [.field suite.text]) ++ Piece.render (elapsed ms " ms total)") by
      simp [Line.text, Line.pieces, Piece.render]]
    simp only [Line.isFailed, Line.MimicsFailure, Bool.false_eq_true, or_self, iff_false]
    apply not_timedFailure_total
    by_cases one : tests = 1 <;> simp only [counted, one, if_true, if_false]
    all_goals exact paren_notMem_render rfl fun t h => List.mem_singleton.mp h ▸ ident suite
  | ran tests suites ms =>
    rw [show (Line.ran tests suites ms).text =
      Piece.render (green "[==========] " :: counted tests " test from " " tests from " ++
        counted suites " test suite ran." " test suites ran.") ++
      Piece.render (elapsed ms " ms total)") by simp [Line.text, Line.pieces, Piece.render]]
    simp only [Line.isFailed, Line.MimicsFailure, Bool.false_eq_true, or_self, iff_false]
    apply not_timedFailure_total
    by_cases one : tests = 1 <;> by_cases one' : suites = 1 <;>
      simp only [counted, one, one', if_true, if_false]
    all_goals exact paren_notMem_render rfl fun t h => by cases h
  | suiteStart n suite =>
    have none := untimed rfl fun t h => List.mem_singleton.mp h ▸ ident suite
    simpa [Line.isFailed, Line.MimicsFailure] using none
  | run name | listed name =>
    have none := untimed rfl fun t h => by
      rcases List.mem_cons.mp h with rfl | h
      · exact ident _
      · exact List.mem_singleton.mp h ▸ ident _
    simpa [Line.isFailed, Line.MimicsFailure] using none
  | running | setUp | blank | tearDown | passed | failedTests | failedTotal | disabled | reset =>
    have none := untimed rfl fun t h => by cases h
    simpa [Line.isFailed, Line.MimicsFailure] using none

/-! ## What perl captures -/

/-- Perl finds nothing on a line that the pattern of failed tests does not select. -/
theorem Line.timedFailure_of_capture {l : Line} {t : Text} (h : capture capRe l.text = some t) :
    TimedFailure l.text := by
  have found : (capRe.search (l.text ++ ['\n'])).isSome = true := by
    cases search : capRe.search (l.text ++ ['\n']) with
    | none =>
      rw [capture, search] at h
      cases h
    | some m => rfl
  obtain ⟨a, w, v, whole, x, _, rfl, -, _, _, rfl, rfl, y, _, rfl, -, _, _, rfl, rfl, cap, _, rfl, -,
    o, _, rfl, -, _, _, rfl, rfl, ds, _, rfl, ⟨_, others, rfl, ⟨d, rfl, first⟩, digits⟩, _, _, rfl,
    ⟨c, rfl, space⟩, rfl⟩ := Regex.search_isSome_iff.mp found
  -- the newline perl sees after the line is beyond the match
  obtain ⟨v', rfl⟩ : ∃ v', v = v' ++ ['\n'] := by
    rcases List.eq_nil_or_concat v with rfl | ⟨v', e, rfl⟩
    · have closed : l.text ++ ['\n'] = (a ++ x ++ "FAILED".toList ++ y ++ "[m".toList ++ cap ++ o ++
          "(".toList ++ d :: others ++ [c] ++ "ms".toList) ++ [')'] := by
        rw [whole]
        simp
      have last := congrArg List.getLast? closed
      rw [List.getLast?_concat, List.getLast?_concat] at last
      exact absurd (Option.some.inj last) (by decide)
    · have last := congrArg List.getLast? whole
      rw [List.concat_eq_append, ← List.append_assoc, List.getLast?_concat, List.getLast?_concat] at last
      obtain rfl : '\n' = e := Option.some.inj last
      exact ⟨v', List.concat_eq_append⟩
  rw [← List.append_assoc] at whole
  have line := List.append_cancel_right whole
  have blank : c = ' ' := by
    have printable := l.isLogChar_of_mem (c := c) (by rw [line]; simp)
    simp only [isSpace, Bool.or_eq_true, beq_iff_eq] at space
    rcases space with ((((rfl | rfl) | rfl) | rfl) | rfl) | rfl
    · rfl
    all_goals exact absurd printable (by decide)
  subst blank
  refine ⟨a ++ x, y ++ "[m".toList ++ cap ++ o, d :: others, v', by rw [line]; simp, ?_⟩
  intro c hc
  rw [← isDigit_eq]
  rcases List.mem_cons.mp hc with rfl | later
  · exact first
  · exact digits c later

/-- The part of the perl pattern behind the captured name. -/
def closingRe : Regex Char :=
  .seq (.opt (.group 2 (.seq (.lit ",".toList) (.star true dot)))) <|
  .seq (.lit "(".toList) <| .seq (.plus isDigit) <| .seq (.cls isSpace) <| .lit "ms)".toList

/-- It matches a duration. -/
theorem closingRe_first {d : Char} {ds : Text} (digits : ∀ c ∈ d :: ds, isDigit c = true) (t : Text) :
    ∃ m, closingRe.First ("(".toList ++ d :: (ds ++ ' ' :: ("ms)".toList ++ t))) m := by
  have unit := Regex.First.seq (Regex.First.cls (p := isSpace) (c := ' ') rfl ("ms)".toList ++ t))
    (Regex.First.lit "ms)".toList t)
  have number := Regex.First.seq (Regex.First.cls (digits d (by simp)) (ds ++ ' ' :: ("ms)".toList ++ t)))
    (Regex.First.greedy (fun c hc => digits c (by simp [hc])) (by intro c hc; cases hc; rfl))
  have paren := Regex.First.lit "(".toList (d :: (ds ++ ' ' :: ("ms)".toList ++ t)))
  have noOption : (Regex.group 2 (.seq (.lit ",".toList) (.star true dot))).run
      ("(".toList ++ d :: (ds ++ ' ' :: ("ms)".toList ++ t))) = [] := rfl
  exact ⟨_, (Regex.First.skip noOption).seq (paren.seq (number.seq unit))⟩

/-- It matches nowhere inside a text without commas and parentheses. -/
theorem closingRe_nil {u : Text} (noComma : ',' ∉ u) (noParen : '(' ∉ u) (t : Text) :
    ∀ a b, u = a ++ b → b ≠ [] → closingRe.run (b ++ t) = [] := by
  intro a b whole ne
  apply Regex.run_seq_opt_nil
  · rw [Regex.run, Regex.run_seq_lit_nil rfl noComma _ _ a b whole ne, List.map_nil]
  · exact Regex.run_seq_lit_nil rfl noParen _ _ a b whole ne

/-- Behind a colour's tag perl captures everything up to the duration. -/
theorem capture_closing {u t : Text} {m : Match Char} (line : ∀ c ∈ u, dot c = true) (noComma : ',' ∉ u)
    (noParen : '(' ∉ u) (closing : closingRe.First t m) :
    ∃ m', capRe.search ((esc :: "[0;31m[  ".toList) ++ ("FAILED".toList ++ (("  ] ".toList ++ [esc]) ++
      ("[m".toList ++ (u ++ t))))) = some m' ∧ m'.groups.lookup 1 = some u := by
  have name := Regex.First.lazyGroup 1 line (closingRe_nil noComma noParen t) closing
  have tag := (Regex.First.lit "[m".toList (u ++ t)).seq name
  have reset := Regex.First.lazy (p := dot) (u := "  ] ".toList ++ [esc])
    (List.all_eq_true.mp (by decide))
    (Regex.run_seq_lit_nil rfl (by decide) _ _) tag
  have word := (Regex.First.lit "FAILED".toList _).seq reset
  have start := Regex.First.lazy (p := dot) (u := esc :: "[0;31m[  ".toList)
    (List.all_eq_true.mp (by decide))
    (Regex.run_seq_lit_nil rfl (by decide) _ _) word
  exact ⟨_, start.search, rfl⟩

/-- **On a failed test's closing line perl captures its full name and the blank after it.** -/
theorem capture_failed (name : FullName) (ms : Nat) :
    capture capRe (Line.failed name ms).text = some (name.text ++ [' ']) := by
  obtain ⟨d, ds, number⟩ := List.exists_cons_of_ne_nil (l := (Piece.num ms).text) Nat.toDigits_ne_nil
  have digits : ∀ c ∈ d :: ds, isDigit c = true := fun c hc => by
    rw [isDigit_eq]
    exact Piece.isDigit_of_mem_num (number ▸ hc)
  have text : (Line.failed name ms).text ++ ['\n'] = (esc :: "[0;31m[  ".toList) ++ ("FAILED".toList ++
      (("  ] ".toList ++ [esc]) ++ ("[m".toList ++ ((name.text ++ [' ']) ++ ("(".toList ++
        d :: (ds ++ ' ' :: ("ms)".toList ++ ['\n']))))))) := by
    have number' : Nat.toDigits 10 ms = d :: ds := number
    simp [Line.text, Line.pieces, red, coloured, named, elapsed, fixed, Piece.text, FullName.text, number']
  have line : ∀ c ∈ name.text ++ [' '], dot c = true := by
    intro c hc
    rcases List.mem_append.mp hc with inName | blank
    · have other : c ≠ '\n' := fun same => name.notMem (c := '\n') (by decide) (by decide) (same ▸ inName)
      simpa [dot] using other
    · rw [List.mem_singleton.mp blank]
      rfl
  have noComma : ',' ∉ name.text ++ [' '] := by
    simp [name.notMem (c := ',') (by decide) (by decide)]
  have noParen : '(' ∉ name.text ++ [' '] := by
    simp [name.notMem (c := '(') (by decide) (by decide)]
  obtain ⟨m, closing⟩ := closingRe_first digits ['\n']
  obtain ⟨m', found, group⟩ := capture_closing line noComma noParen closing
  rw [capture, text, found, Option.map_some, group, Option.getD_some]

end Blinky.RunTests
