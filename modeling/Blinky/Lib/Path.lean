import Blinky.Lib.Text

/-!
# Absolute paths as texts and as lists of names

A path is written with a slash before each name (`pathText`) and read back by
`collapse`, which drops empty and `.` components and lets `..` undo the
component before it. A name is what may stand between two slashes, so a slash in
a written path starts a component, and reading gives the names back.
-/

namespace Blinky
set_option autoImplicit false

/-- What a component of a path in a list of paths can be. -/
structure IsName (t : Text) : Prop where
  nonempty : t ≠ []
  noSlash : '/' ∉ t
  noSemicolon : ';' ∉ t
  notDot : t ≠ ".".toList
  notDotDot : t ≠ "..".toList

instance (t : Text) : Decidable (IsName t) :=
  decidable_of_iff (t ≠ [] ∧ '/' ∉ t ∧ ';' ∉ t ∧ t ≠ ".".toList ∧ t ≠ "..".toList)
    ⟨fun ⟨a, b, c, d, e⟩ => ⟨a, b, c, d, e⟩, fun ⟨a, b, c, d, e⟩ => ⟨a, b, c, d, e⟩⟩

@[ext] structure Name where
  text : Text
  legal : IsName text
deriving DecidableEq

abbrev Path := List Name

namespace Name

/-- Two names written together are a name. -/
def append (m n : Name) : Name where
  text := m.text ++ n.text
  legal := by
    have left := m.legal
    have right := n.legal
    have long : ∀ u v : Text, u ≠ [] → v ≠ [] → u ≠ ".".toList →
        u ++ v ≠ ".".toList ∧ u ++ v ≠ "..".toList := by
      intro u v hu hv dot
      obtain ⟨c, u, rfl⟩ := List.exists_cons_of_ne_nil hu
      obtain ⟨d, v, rfl⟩ := List.exists_cons_of_ne_nil hv
      refine ⟨by simp, ?_⟩
      intro both
      obtain ⟨rfl, rest⟩ := List.cons.inj both
      rcases List.append_eq_singleton_iff.mp rest with ⟨rfl, -⟩ | ⟨-, bad⟩
      · exact dot rfl
      · cases bad
    obtain ⟨dot, dotDot⟩ := long _ _ left.nonempty right.nonempty left.notDot
    refine ⟨by simp [left.nonempty], ?_, ?_, dot, dotDot⟩
    · simp [left.noSlash, right.noSlash]
    · simp [left.noSemicolon, right.noSemicolon]

@[simp] theorem append_text (m n : Name) : (m.append n).text = m.text ++ n.text := rfl

theorem head_ne_slash (n : Name) : n.text.head? ≠ some '/' := fun head =>
  n.legal.noSlash (List.mem_of_head? head)

end Name

/-- A slash before every name. -/
def pathText (q : Path) : Text := q.flatMap fun n => '/' :: n.text

@[simp] theorem pathText_nil : pathText [] = [] := rfl

@[simp] theorem pathText_cons (n : Name) (q : Path) : pathText (n :: q) = '/' :: (n.text ++ pathText q) :=
  rfl

@[simp] theorem pathText_append (q r : Path) : pathText (q ++ r) = pathText q ++ pathText r :=
  List.flatMap_append

/-- A directory as its own text: the root is a single slash. -/
def dirText (r : Path) : Text := if r = [] then ['/'] else pathText r

/-! ## Writing is unambiguous -/

/-- A name up to a slash is determined by the text. -/
theorem name_cut {m n : Name} {s : Text} {q : Path} (h : m.text ++ '/' :: s = n.text ++ pathText q) :
    m = n ∧ '/' :: s = pathText q := by
  cases q with
  | nil =>
    have inside : '/' ∈ n.text := by
      rw [pathText_nil, List.append_nil] at h
      rw [← h]
      simp
    exact absurd inside n.legal.noSlash
  | cons k q =>
    rw [pathText_cons] at h
    obtain ⟨same, rest⟩ := Text.first_cut_unique m.legal.noSlash n.legal.noSlash h
    exact ⟨Name.ext same, by rw [rest, pathText_cons]⟩

/-- Where a path's text runs through `r` and a slash, the path does. -/
theorem path_cut {r q : Path} {s : Text} (h : pathText r ++ '/' :: s = pathText q) :
    ∃ n w, q = r ++ n :: w ∧ s = n.text ++ pathText w := by
  induction r generalizing q with
  | nil =>
    cases q with
    | nil => cases h
    | cons n w => exact ⟨n, w, rfl, (List.cons.inj h).2⟩
  | cons m r ih =>
    cases q with
    | nil => cases h
    | cons n q =>
      rw [pathText_cons, List.cons_append, pathText_cons, List.append_assoc] at h
      have inner := (List.cons.inj h).2
      obtain ⟨c, rest⟩ : ∃ c, pathText r ++ '/' :: s = '/' :: c := by
        cases r with
        | nil => exact ⟨s, rfl⟩
        | cons k r => exact ⟨_, rfl⟩
      rw [rest] at inner
      obtain ⟨rfl, tail⟩ := name_cut inner
      obtain ⟨k, w, rfl, hs⟩ := ih (rest.trans tail)
      exact ⟨k, w, rfl, hs⟩

/-- A slash in a path's text starts a component. -/
theorem slash_cut {n : Name} {q : Path} {x s : Text} (h : n.text ++ pathText q = x ++ '/' :: s) :
    ∃ a b, q = a ++ b ∧ '/' :: s = pathText b ∧ x = n.text ++ pathText a := by
  induction q generalizing n x with
  | nil =>
    have inside : '/' ∈ n.text := by
      rw [pathText_nil, List.append_nil] at h
      rw [h]
      simp
    exact absurd inside n.legal.noSlash
  | cons k q ih =>
    rw [pathText_cons] at h
    rcases List.append_eq_append_iff.mp h with ⟨y, rfl, rest⟩ | ⟨y, whole, rest⟩
    · cases y with
      | nil =>
        rw [List.nil_append] at rest
        exact ⟨[], k :: q, rfl, by rw [← rest, pathText_cons], by simp⟩
      | cons c y =>
        rw [List.cons_append] at rest
        obtain ⟨rfl, inner⟩ := List.cons.inj rest
        obtain ⟨a, b, rfl, hb, rfl⟩ := ih inner
        exact ⟨k :: a, b, rfl, hb, by simp⟩
    · cases y with
      | nil =>
        rw [List.nil_append] at rest
        exact ⟨[], k :: q, rfl, by rw [rest, pathText_cons], by simp [whole]⟩
      | cons c y =>
        have slash : '/' = c := (List.cons.inj rest).1
        exact absurd (by rw [whole, ← slash]; simp) n.legal.noSlash

/-! ## Reading -/

/-- The components of a text that name something. -/
def segments (t : Text) : List Text := (t.splitOn '/').filter fun s => s ≠ [] ∧ s ≠ ".".toList

/-- `..` undoes the component before it. -/
def enter (dirs : List Text) (s : Text) : List Text := if s = "..".toList then dirs.dropLast else dirs ++ [s]

def collapse (t : Text) : List Text := (segments t).foldl enter []

theorem segments_append_slash (t u : Text) : segments (t ++ '/' :: u) = segments t ++ segments u := by
  rw [segments, List.splitOn_append_cons_self, List.filter_append, segments, segments]

theorem segments_name (n : Name) : segments n.text = [n.text] := by
  rw [segments, List.splitOn_eq_singleton n.legal.noSlash]
  simp [n.legal.nonempty, show n.text ≠ ['.'] from n.legal.notDot]

theorem segments_append_path (t : Text) (q : Path) :
    segments (t ++ pathText q) = segments t ++ q.map Name.text := by
  induction q generalizing t with
  | nil => simp
  | cons n q ih =>
    have slash : t ++ pathText (n :: q) = (t ++ '/' :: n.text) ++ pathText q := by simp
    rw [slash, ih, segments_append_slash, segments_name]
    simp

theorem collapse_append_slash (t u : Text) :
    collapse (t ++ '/' :: u) = (segments u).foldl enter (collapse t) := by
  rw [collapse, segments_append_slash, List.foldl_append, collapse]

theorem enter_names (dirs : List Text) (q : Path) :
    (q.map Name.text).foldl enter dirs = dirs ++ q.map Name.text := by
  induction q generalizing dirs with
  | nil => simp
  | cons n q ih =>
    rw [List.map_cons, List.foldl_cons, enter, if_neg n.legal.notDotDot, ih, List.append_assoc]
    rfl

/-- **Reading a written path gives its names back.** -/
theorem collapse_append_path (t : Text) (q : Path) :
    collapse (t ++ pathText q) = collapse t ++ q.map Name.text := by
  rw [collapse, segments_append_path, List.foldl_append, enter_names, collapse]

theorem collapse_dirText (r : Path) : collapse (dirText r) = r.map Name.text := by
  unfold dirText
  split
  · rename_i root
    rw [root]
    rfl
  · exact collapse_append_path [] r

theorem map_text_injective {q r : Path} (h : q.map Name.text = r.map Name.text) : q = r :=
  List.map_injective_iff.mpr (fun _ _ => Name.ext) h

end Blinky
