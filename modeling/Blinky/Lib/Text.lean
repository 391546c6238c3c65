import Mathlib.Data.List.DropRight
import Mathlib.Data.List.Infix

/-!
# Texts, lines and words

A text is a list of characters. `records` are the lines a filter reads from it,
`chomp` is what command substitution keeps of it, `words` is field splitting.
The search lemmas cut a question about a long text at a character the pattern
does not contain (`infix_append_cons_iff`), so that whether a formatted line
contains a pattern reduces to whether one of its fields does.
-/

namespace Blinky
set_option autoImplicit false

abbrev Text := List Char

namespace Text

/-! ## Searching -/

section Infix

variable {α : Type}

/-- A pattern without `c` lies on one side of any `c`. -/
theorem infix_append_cons_iff {p u v : List α} {c : α} (h : c ∉ p) :
    p <:+: u ++ c :: v ↔ p <:+: u ∨ p <:+: v := by
  have whole : ∀ {q : List α}, (∀ x ∈ q, x ∈ p) → q <+: c :: v → q = [] := by
    intro q sub pre
    cases q with
    | nil => rfl
    | cons x q =>
      obtain ⟨rfl, -⟩ := List.cons_prefix_cons.mp pre
      exact absurd (sub x (by simp)) h
  constructor
  · intro found
    rcases List.infix_append_iff.mp found with left | right | ⟨a, b, rfl, suffix, pre⟩
    · exact .inl left
    · rcases List.infix_cons_iff.mp right with here | there
      · rw [whole (fun _ => id) here]
        exact .inl List.nil_infix
      · exact .inr there
    · have none := whole (fun x hx => List.mem_append_right a hx) pre
      subst none
      rw [List.append_nil]
      exact .inl suffix.isInfix
  · rintro (left | right)
    · exact left.trans (List.prefix_append u _).isInfix
    · exact right.trans ((List.suffix_cons c v).trans (List.suffix_append u _)).isInfix

/-- Two cuts at the same unrepeated character are the same cut. -/
theorem cut_unique {u v u' v' : List α} {c : α} (before : c ∉ u) (after : c ∉ v)
    (same : u ++ c :: v = u' ++ c :: v') : u = u' ∧ v = v' := by
  have cut := (List.append_cons_inj_of_notMem before after).mp same
  exact ⟨cut.1, cut.2.2⟩

/-- Two cuts at the first such character are the same cut. -/
theorem first_cut_unique {u v u' v' : List α} {c : α} (before : c ∉ u) (before' : c ∉ u')
    (same : u ++ c :: v = u' ++ c :: v') : u = u' ∧ v = v' := by
  induction u generalizing u' with
  | nil =>
    cases u' with
    | nil => exact ⟨rfl, (List.cons.inj same).2⟩
    | cons d u' =>
      have head : c = d := (List.cons.inj same).1
      exact absurd (by simp [head]) before'
  | cons d u ih =>
    cases u' with
    | nil =>
      have head : d = c := (List.cons.inj same).1
      exact absurd (by simp [head]) before
    | cons d' u' =>
      obtain ⟨rfl, rest⟩ := List.cons.inj same
      obtain ⟨rfl, rfl⟩ := ih (fun h => before (by simp [h])) (fun h => before' (by simp [h])) rest
      exact ⟨rfl, rfl⟩

end Infix

/-! ## Lines -/

/-- The newline-terminated text of some lines. -/
def unlines (ls : List Text) : Text := ls.flatMap (· ++ ['\n'])

/-- The lines a filter reads: what follows the last newline is a line only if
there is something there. -/
def records (t : Text) : List Text :=
  let segments := t.splitOn '\n'
  if segments.getLast? = some [] then segments.dropLast else segments

/-- The text without its trailing newlines. -/
def chomp (t : Text) : Text := t.rdropWhile (· == '\n')

theorem records_newline (t : Text) : records (t ++ ['\n']) = t.splitOn '\n' := by
  have split : (t ++ ['\n']).splitOn '\n' = t.splitOn '\n' ++ [[]] := by
    rw [List.splitOn_append_cons_self, List.splitOn_nil]
  simp only [records, split, List.getLast?_append, List.getLast?_singleton, Option.some_or,
    if_true, List.dropLast_concat]

/-- `chomp` removes newlines and nothing else. -/
theorem chomp_append_newlines (t : Text) : ∃ n, t = chomp t ++ List.replicate n '\n' := by
  refine ⟨(t.rtakeWhile (· == '\n')).length, ?_⟩
  have tail : t.rtakeWhile (· == '\n') =
      List.replicate (t.rtakeWhile (· == '\n')).length '\n' := by
    apply List.eq_replicate_of_mem
    intro c hc
    exact beq_iff_eq.mp (List.mem_rtakeWhile_imp (p := (· == '\n')) hc)
  rw [← tail]
  exact List.rdropWhile_append_rtakeWhile.symm

theorem mem_chomp {t : Text} {c : Char} (other : c ≠ '\n') (h : c ∈ t) : c ∈ chomp t := by
  obtain ⟨n, whole⟩ := chomp_append_newlines t
  rw [whole] at h
  rcases List.mem_append.mp h with kept | newline
  · exact kept
  · exact absurd (List.eq_of_mem_replicate newline) other

theorem splitOn_newlines (t : Text) (n : Nat) :
    (t ++ List.replicate n '\n').splitOn '\n' = t.splitOn '\n' ++ List.replicate n [] := by
  induction n with
  | zero => simp
  | succ n ih =>
    rw [List.replicate_succ', ← List.append_assoc, List.splitOn_append_cons_self, ih,
      List.splitOn_nil, List.append_assoc, ← List.replicate_succ']

theorem mem_intercalate {c : Char} {ls : List Text} (h : c ∈ ['\n'].intercalate ls) :
    c = '\n' ∨ ∃ l ∈ ls, c ∈ l := by
  induction ls with
  | nil => cases h
  | cons l ls ih =>
    cases ls with
    | nil =>
      rw [List.intercalate_singleton] at h
      exact .inr ⟨l, by simp, h⟩
    | cons l' ls =>
      rw [List.intercalate_cons_cons, List.append_assoc] at h
      rcases List.mem_append.mp h with here | later
      · exact .inr ⟨l, by simp, here⟩
      · rcases List.mem_append.mp later with newline | rest
        · exact .inl (List.mem_singleton.mp newline)
        · rcases ih rest with newline | ⟨x, member, hc⟩
          · exact .inl newline
          · exact .inr ⟨x, List.mem_cons_of_mem l member, hc⟩

theorem prefix_intercalate (l : Text) (ls : List Text) : l <+: ['\n'].intercalate (l :: ls) := by
  cases ls with
  | nil => rw [List.intercalate_singleton]
  | cons l' ls =>
    rw [List.intercalate_cons_cons, List.append_assoc]
    exact List.prefix_append l _

/-- Trailing newlines only add empty lines. -/
theorem splitOn_chomp (t : Text) :
    ∃ n, t.splitOn '\n' = (chomp t).splitOn '\n' ++ List.replicate n [] := by
  obtain ⟨n, whole⟩ := chomp_append_newlines t
  refine ⟨n, ?_⟩
  conv_lhs => rw [whole, splitOn_newlines]

/-- A filter that ignores empty lines selects the same from a text without its trailing newlines. -/
theorem filterMap_chomp {β : Type} {f : Text → Option β} (blank : f [] = none) (t : Text) :
    ((chomp t).splitOn '\n').filterMap f = (t.splitOn '\n').filterMap f := by
  obtain ⟨n, lines⟩ := splitOn_chomp t
  have none : (List.replicate n ([] : Text)).filterMap f = [] := by
    simp [blank]
  rw [lines, List.filterMap_append, none, List.append_nil]

theorem filter_chomp {f : Text → Bool} (blank : f [] = false) (t : Text) :
    ((chomp t).splitOn '\n').filter f = (t.splitOn '\n').filter f := by
  rw [← List.filterMap_eq_filter]
  exact filterMap_chomp (by simp [blank]) t

/-- A line holds no newline. -/
theorem notMem_of_mem_splitOn {t l : Text} (h : l ∈ t.splitOn '\n') : '\n' ∉ l := by
  induction t generalizing l with
  | nil =>
    rw [List.splitOn_nil, List.mem_singleton] at h
    rw [h]
    exact List.not_mem_nil
  | cons c t ih =>
    rw [List.splitOn_cons_eq_if_modifyHead] at h
    split at h
    · rcases List.mem_cons.mp h with rfl | rest
      · exact List.not_mem_nil
      · exact ih rest
    · rename_i other
      obtain ⟨x, xs, split⟩ := List.exists_cons_of_ne_nil (List.splitOn_ne_nil '\n' t)
      rw [split, List.modifyHead_cons] at h
      rcases List.mem_cons.mp h with rfl | rest
      · have first := ih (by rw [split]; exact List.mem_cons_self)
        intro found
        rcases List.mem_cons.mp found with here | there
        · exact other (beq_iff_eq.mpr here.symm)
        · exact first there
      · exact ih (by rw [split]; exact List.mem_cons_of_mem x rest)

theorem notMem_of_mem_records {t l : Text} (h : l ∈ records t) : '\n' ∉ l := by
  unfold records at h
  dsimp only at h
  split at h
  · exact notMem_of_mem_splitOn (List.dropLast_subset _ h)
  · exact notMem_of_mem_splitOn h

theorem notMem_unlines {c : Char} {ls : List Text} (other : c ≠ '\n') (plain : ∀ l ∈ ls, c ∉ l) :
    c ∉ unlines ls := by
  intro found
  obtain ⟨l, member, hc⟩ := List.mem_flatMap.mp found
  rcases List.mem_append.mp hc with inside | newline
  · exact plain l member inside
  · exact other (List.mem_singleton.mp newline)

/-- `unlines` ends each line with the one newline `wc` counts. -/
theorem count_unlines {ls : List Text} (plain : ∀ l ∈ ls, '\n' ∉ l) :
    (unlines ls).count '\n' = ls.length := by
  induction ls with
  | nil => rfl
  | cons l ls ih =>
    have rest := ih fun x hx => plain x (by simp [hx])
    have here : l.count '\n' = 0 := List.count_eq_zero.mpr (plain l (by simp))
    have step : unlines (l :: ls) = l ++ '\n' :: unlines ls := by
      simp [unlines]
    rw [step, List.count_append, here, List.count_cons_self, rest, List.length_cons]
    omega

/-! ## Words -/

/-- The characters of the shell's default `IFS`. -/
def isIFS (c : Char) : Bool := c == ' ' || c == '\t' || c == '\n'

/-- Field splitting on the default `IFS`. -/
def words (t : Text) : List Text := (t.splitOnP isIFS).filter (· ≠ [])

@[simp] theorem words_nil : words [] = [] := rfl

theorem words_append_cons {c : Char} (sep : isIFS c = true) (u v : Text) :
    words (u ++ c :: v) = words u ++ words v := by
  unfold words
  rw [List.splitOnP_append_cons u v sep, List.filter_append]

theorem words_single {w : Text} (plain : ∀ c ∈ w, isIFS c = false) (ne : w ≠ []) : words w = [w] := by
  unfold words
  rw [List.splitOnP_eq_singleton plain]
  simp [ne]

theorem words_unlines (ls : List Text) : words (unlines ls) = ls.flatMap words := by
  induction ls with
  | nil => rfl
  | cons l ls ih =>
    rw [unlines, List.flatMap_cons, List.append_assoc, List.singleton_append,
      words_append_cons (by decide)]
    exact congrArg (words l ++ ·) ih

theorem words_newlines (t : Text) (n : Nat) : words (t ++ List.replicate n '\n') = words t := by
  induction n with
  | zero => simp
  | succ n ih =>
    rw [List.replicate_succ', ← List.append_assoc, words_append_cons (by decide), ih, words_nil,
      List.append_nil]

theorem words_chomp (t : Text) : words (chomp t) = words t := by
  obtain ⟨n, whole⟩ := chomp_append_newlines t
  conv_rhs => rw [whole, words_newlines]

end Text

end Blinky
