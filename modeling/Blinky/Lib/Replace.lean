import Blinky.Lib.Text

/-!
# Replacing a pattern throughout a text

`replaceAll` reads the text once from left to right and replaces every
occurrence that does not overlap the one before, wherever it stands. With an
empty replacement it leaves a text alone exactly when the pattern does not occur
in it, and otherwise shortens it.
-/

namespace Blinky.Text
set_option autoImplicit false

/-- The first argument counts the characters left of the occurrence being replaced. -/
def replaceFrom (pat rep : Text) : Nat → Text → Text
  | _, [] => []
  | k + 1, _ :: t => replaceFrom pat rep k t
  | 0, c :: t =>
    if pat.isPrefixOf (c :: t) then rep ++ replaceFrom pat rep (pat.length - 1) t
    else c :: replaceFrom pat rep 0 t

def replaceAll (pat rep t : Text) : Text := replaceFrom pat rep 0 t

theorem replaceFrom_eq (pat rep : Text) (k : Nat) (t : Text) :
    replaceFrom pat rep k t = replaceAll pat rep (t.drop k) := by
  induction t generalizing k with
  | nil => rw [List.drop_nil, replaceAll, replaceFrom, replaceFrom]
  | cons c t ih =>
    cases k with
    | zero => rfl
    | succ k => rw [replaceFrom, ih, List.drop_succ_cons]

@[simp] theorem replaceAll_nil (pat rep : Text) : replaceAll pat rep [] = [] := rfl

/-- An occurrence at the front is replaced. -/
theorem replaceAll_append {pat : Text} (ne : pat ≠ []) (rep t : Text) :
    replaceAll pat rep (pat ++ t) = rep ++ replaceAll pat rep t := by
  obtain ⟨c, p, rfl⟩ := List.exists_cons_of_ne_nil ne
  have front : (c :: p).isPrefixOf (c :: (p ++ t)) = true :=
    List.isPrefixOf_iff_prefix.mpr ⟨t, rfl⟩
  have rest : (p ++ t).drop p.length = t := List.drop_left
  rw [List.cons_append, replaceAll, replaceFrom, if_pos front, replaceFrom_eq, List.length_cons,
    Nat.add_sub_cancel, rest]

/-- Anywhere else the first character stays. -/
theorem replaceAll_cons {pat : Text} {c : Char} {t : Text} (other : ¬ pat <+: c :: t) (rep : Text) :
    replaceAll pat rep (c :: t) = c :: replaceAll pat rep t := by
  rw [replaceAll, replaceFrom, if_neg fun front => other (List.isPrefixOf_iff_prefix.mp front)]
  rfl

/-- A stretch without the pattern's first character is copied. -/
theorem replaceAll_skip {pat u : Text} {c : Char} (head : pat.head? = some c) (absent : c ∉ u)
    (rep t : Text) : replaceAll pat rep (u ++ t) = u ++ replaceAll pat rep t := by
  obtain ⟨p, rfl⟩ := List.head?_eq_some_iff.mp head
  induction u with
  | nil => rfl
  | cons d u ih =>
    have other : ¬ c :: p <+: d :: (u ++ t) := by
      intro front
      have same : c = d := (List.cons_prefix_cons.mp front).1
      exact absent (by rw [same]; simp)
    rw [List.cons_append, replaceAll_cons other, ih fun h => absent (by simp [h]), List.cons_append]

/-- A text without the pattern is copied. -/
theorem replaceAll_of_not_infix {pat t : Text} (rep : Text) (absent : ¬ pat <:+: t) :
    replaceAll pat rep t = t := by
  induction t with
  | nil => rfl
  | cons c t ih =>
    have other : ¬ pat <+: c :: t := fun front => absent front.isInfix
    have later : ¬ pat <:+: t := fun found => absent (found.trans (List.suffix_cons c t).isInfix)
    rw [replaceAll_cons other, ih later]

/-- Removing the pattern never lengthens a text. -/
theorem length_replaceAll_le {pat : Text} (ne : pat ≠ []) (t : Text) :
    (replaceAll pat [] t).length ≤ t.length := by
  induction h : t.length using Nat.strongRecOn generalizing t with
  | ind n ih =>
    cases t with
    | nil => simp
    | cons c t =>
      by_cases front : pat <+: c :: t
      · obtain ⟨u, whole⟩ := front
        have size : pat.length + u.length = n := by
          rw [← List.length_append, whole, h]
        have positive := List.length_pos_of_ne_nil ne
        have rest := ih u.length (by omega) u rfl
        rw [← whole, replaceAll_append ne, List.nil_append]
        omega
      · have size : t.length + 1 = n := h
        have rest := ih t.length (by omega) t rfl
        rw [replaceAll_cons front, List.length_cons]
        omega

/-- Removing a pattern that occurs shortens the text. -/
theorem length_replaceAll_lt {pat t : Text} (ne : pat ≠ []) (found : pat <:+: t) :
    (replaceAll pat [] t).length < t.length := by
  induction t with
  | nil => exact absurd (List.infix_nil.mp found) ne
  | cons c t ih =>
    by_cases front : pat <+: c :: t
    · obtain ⟨u, whole⟩ := front
      have size : pat.length + u.length = (c :: t).length := by
        rw [← List.length_append, whole]
      have positive := List.length_pos_of_ne_nil ne
      have rest := length_replaceAll_le ne u
      rw [← whole, replaceAll_append ne, List.nil_append, whole]
      omega
    · have later : pat <:+: t := (List.infix_cons_iff.mp found).resolve_left front
      have rest := ih later
      rw [replaceAll_cons front, List.length_cons, List.length_cons]
      omega

/-- **Removing a pattern changes exactly the texts it occurs in.** -/
theorem replaceAll_eq_self_iff {pat t : Text} (ne : pat ≠ []) :
    replaceAll pat [] t = t ↔ ¬ pat <:+: t := by
  constructor
  · intro same found
    have shorter := length_replaceAll_lt ne found
    rw [same] at shorter
    omega
  · exact replaceAll_of_not_infix []

end Blinky.Text
