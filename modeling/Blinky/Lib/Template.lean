import Blinky.Lib.Text

/-!
# Formatted lines

A line printed from a format string is a list of pieces: literal text, numbers
and fields filled in. A pattern over a class of characters cannot reach across
a boundary where a character outside the class stands, so on a line whose pieces
are parted by such characters it occurs exactly where a single piece contains it
(`infix_render_iff`). `parted` looks only at literals and is evaluated, never
proved, for a concrete format.
-/

namespace Blinky
set_option autoImplicit false

inductive Piece where
  | lit (t : Text)
  | field (t : Text)
  | num (n : Nat)

namespace Piece

def text : Piece → Text
  | .lit t => t
  | .field t => t
  | .num n => Nat.toDigits 10 n

def render (ps : List Piece) : Text := ps.flatMap text

@[simp] theorem render_nil : render [] = [] := rfl

@[simp] theorem render_cons (q : Piece) (ps : List Piece) : render (q :: ps) = q.text ++ render ps :=
  rfl

theorem mem_render {c : Char} {ps : List Piece} : c ∈ render ps ↔ ∃ q ∈ ps, c ∈ q.text :=
  List.mem_flatMap

theorem isDigit_of_mem_num {c : Char} {n : Nat} (h : c ∈ (Piece.num n).text) : c.isDigit = true :=
  Nat.isDigit_of_mem_toDigits (by decide) (by decide) h

/-- The literal pieces. -/
def lits (ps : List Piece) : List Text := ps.filterMap fun
  | .lit t => some t
  | _ => none

/-- What was filled in. -/
def fields (ps : List Piece) : List Text := ps.filterMap fun
  | .field t => some t
  | _ => none

/-- Whether a literal contains the pattern. -/
def hasLit (p : Text) (ps : List Piece) : Bool := (lits ps).any fun t => decide (p <:+: t)

theorem mem_render_cases {c : Char} {ps : List Piece} (h : c ∈ render ps) :
    c.isDigit = true ∨ (∃ t ∈ lits ps, c ∈ t) ∨ ∃ t ∈ fields ps, c ∈ t := by
  obtain ⟨q, member, hc⟩ := mem_render.mp h
  cases q with
  | lit t => exact .inr (.inl ⟨t, List.mem_filterMap.mpr ⟨_, member, rfl⟩, hc⟩)
  | field t => exact .inr (.inr ⟨t, List.mem_filterMap.mpr ⟨_, member, rfl⟩, hc⟩)
  | num n => exact .inl (isDigit_of_mem_num hc)

/-- The piece surely ends with a character outside `word`. -/
def endsOutside (word : Char → Bool) : Piece → Bool
  | .lit t => match t.getLast? with
    | some c => !word c
    | none => false
  | .field _ => false
  | .num _ => true

/-- The piece surely starts with a character outside `word`. -/
def startsOutside (word : Char → Bool) : Piece → Bool
  | .lit t => match t.head? with
    | some c => !word c
    | none => false
  | .field _ => false
  | .num _ => true

/-- At every boundary between two pieces stands a character outside `word`. -/
def parted (word : Char → Bool) : List Piece → Bool
  | a :: b :: ps => (a.endsOutside word || b.startsOutside word) && parted word (b :: ps)
  | _ => true

section

variable {word : Char → Bool} {p : Text}

theorem infix_append_of_last {u v : Text} {c : Char} (last : u.getLast? = some c) (outside : c ∉ p)
    (ne : p ≠ []) : p <:+: u ++ v ↔ p <:+: u ∨ p <:+: v := by
  obtain ⟨u', rfl⟩ := List.getLast?_eq_some_iff.mp last
  rw [List.append_assoc, List.singleton_append, Text.infix_append_cons_iff outside,
    Text.infix_append_cons_iff outside]
  have empty : ¬ p <:+: [] := fun h => ne (List.infix_nil.mp h)
  simp [empty]

theorem infix_append_of_head {u v : Text} {c : Char} (head : v.head? = some c) (outside : c ∉ p)
    (ne : p ≠ []) : p <:+: u ++ v ↔ p <:+: u ∨ p <:+: v := by
  obtain ⟨v', rfl⟩ := List.head?_eq_some_iff.mp head
  rw [Text.infix_append_cons_iff outside]
  have drop : p <:+: c :: v' ↔ p <:+: v' := by
    have split := Text.infix_append_cons_iff (u := []) (v := v') outside
    have empty : ¬ p <:+: [] := fun h => ne (List.infix_nil.mp h)
    simpa [empty] using split
  rw [drop]

/-- The last character of a piece that ends outside `word`. -/
theorem last_of_endsOutside (digits : ∀ c, c.isDigit = true → word c = false) {q : Piece}
    (h : q.endsOutside word = true) : ∃ c, q.text.getLast? = some c ∧ word c = false := by
  cases q with
  | lit t =>
    simp only [endsOutside] at h
    split at h
    · rename_i c last
      exact ⟨c, last, by simpa using h⟩
    · cases h
  | field t => cases h
  | num n =>
    have ne : (Piece.num n).text ≠ [] := Nat.toDigits_ne_nil
    refine ⟨_, List.getLast?_eq_some_getLast ne, digits _ ?_⟩
    exact isDigit_of_mem_num (List.getLast_mem ne)

/-- The first character of a piece that starts outside `word`, whatever follows it. -/
theorem head_of_startsOutside (digits : ∀ c, c.isDigit = true → word c = false) {q : Piece}
    (h : q.startsOutside word = true) (t : Text) :
    ∃ c, (q.text ++ t).head? = some c ∧ word c = false := by
  cases q with
  | lit u =>
    simp only [startsOutside] at h
    split at h
    · rename_i c head
      exact ⟨c, by rw [text, List.head?_append, head, Option.some_or], by simpa using h⟩
    · cases h
  | field u => cases h
  | num n =>
    have ne : (Piece.num n).text ≠ [] := Nat.toDigits_ne_nil
    refine ⟨(Piece.num n).text.head ne, by rw [List.head?_append, List.head?_eq_some_head ne]; rfl, ?_⟩
    exact digits _ (isDigit_of_mem_num (List.head_mem ne))

/-- On a parted line a pattern occurs exactly where one piece contains it. -/
theorem infix_render_iff (ne : p ≠ []) (inWord : p.all word = true)
    (digits : ∀ c, c.isDigit = true → word c = false) {ps : List Piece}
    (h : parted word ps = true) : p <:+: render ps ↔ ∃ q ∈ ps, p <:+: q.text := by
  have outside : ∀ {c}, word c = false → c ∉ p := fun no member => by
    rw [List.all_eq_true.mp inWord _ member] at no
    cases no
  induction ps with
  | nil => simp [ne]
  | cons a ps ih =>
    cases ps with
    | nil => simp
    | cons b ps =>
      simp only [parted, Bool.and_eq_true, Bool.or_eq_true] at h
      obtain ⟨boundary, rest⟩ := h
      have cut : p <:+: a.text ++ render (b :: ps) ↔ p <:+: a.text ∨ p <:+: render (b :: ps) := by
        rcases boundary with left | right
        · obtain ⟨c, last, no⟩ := last_of_endsOutside digits left
          exact infix_append_of_last last (outside no) ne
        · obtain ⟨c, head, no⟩ := head_of_startsOutside digits right (render ps)
          exact infix_append_of_head head (outside no) ne
      rw [render_cons, cut, List.exists_mem_cons_iff]
      exact or_congr_right (ih rest)

/-- A pattern of word characters lies in no number, so a piece that contains it is a
literal or a field. -/
theorem exists_infix_iff (ne : p ≠ []) (inWord : p.all word = true)
    (digits : ∀ c, c.isDigit = true → word c = false) (ps : List Piece) :
    (∃ q ∈ ps, p <:+: q.text) ↔ hasLit p ps = true ∨ ∃ t ∈ fields ps, p <:+: t := by
  induction ps with
  | nil => simp [hasLit, lits, fields]
  | cons q ps ih =>
    rw [List.exists_mem_cons_iff, ih]
    cases q with
    | lit t =>
      rw [show hasLit p (.lit t :: ps) = (decide (p <:+: t) || hasLit p ps) from rfl,
        show fields (.lit t :: ps) = fields ps from rfl, Bool.or_eq_true, decide_eq_true_eq, or_assoc,
        text]
    | field t =>
      rw [show hasLit p (.field t :: ps) = hasLit p ps from rfl,
        show fields (.field t :: ps) = t :: fields ps from rfl, List.exists_mem_cons_iff, text,
        or_left_comm]
    | num n =>
      have absent : ¬ p <:+: (Piece.num n).text := by
        intro found
        obtain ⟨c, hc⟩ := List.exists_mem_of_ne_nil p ne
        have digit := isDigit_of_mem_num (found.subset hc)
        have clash := digits c digit
        rw [List.all_eq_true.mp inWord c hc] at clash
        cases clash
      rw [show hasLit p (.num n :: ps) = hasLit p ps from rfl,
        show fields (.num n :: ps) = fields ps from rfl]
      exact or_iff_right absent

end

end Piece

end Blinky
