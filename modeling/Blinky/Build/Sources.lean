import Blinky.Build.Discover

/-!
# Which files are flashed and which are tested

The root list removes every occurrence of its own directory from a path, not
only the first: where the directory's components recur further down, two names
run together and the entry stands for another file (`discovered_exact_iff`).
The test list takes its paths as they are and finds exactly the `.c` files below
`source` (`tested_exact`). But the root list looks below `SOURCE`, and whatever
the removal does to a path, its first name still starts with `SOURCE`: nothing
below `source` is ever flashed.
-/

namespace Blinky.Build
set_option autoImplicit false

/-! ## Globbing -/

/-- **A glob below a directory of the project returns its files, written behind the directory.** -/
theorem globRecurse_eq {root : Path} {dir : Name} {text : Text}
    (dirIs : collapse text = (root ++ [dir]).map Name.text) (tree : List Path) (suffix : Text) :
    globRecurse root tree text suffix = (below tree dir suffix).map (text ++ pathText ·) := by
  rw [globRecurse, dirIs, below]
  congr 1
  apply List.filterMap_congr
  intro p _
  cases p with
  | nil =>
    have outside : ¬ (root ++ [dir]).map Name.text <+: (root ++ []).map Name.text := by
      intro pre
      have shorter := pre.length_le
      rw [List.length_map, List.length_map, List.length_append, List.length_append,
        List.length_singleton, List.length_nil] at shorter
      omega
    exact if_neg fun h => outside h.1
  | cons n q =>
    have inside : (root ++ [dir]).map Name.text <+: (root ++ n :: q).map Name.text ↔ n = dir := by
      rw [List.map_append, List.map_append, List.prefix_append_right_inj, List.map_cons, List.map_cons,
        List.map_nil, List.cons_prefix_cons]
      constructor
      · exact fun h => (Name.ext h.1).symm
      · rintro rfl
        exact ⟨rfl, List.nil_prefix⟩
    have rest : (root ++ n :: q).drop ((root ++ [dir]).map Name.text).length = q := by
      rw [show root ++ n :: q = (root ++ [n]) ++ q by simp]
      exact List.drop_left' (by simp)
    simp only [matchBelow, inside, rest]

/-- The files below a directory of the project. -/
def filesBelow (root : Path) (tree : List Path) (dir : Name) (suffix : Text) : List (List Text) :=
  (below tree dir suffix).map fun q => (root ++ dir :: q).map Name.text

/-! ## Removing the project's directory -/

/-- What the root list removes from each path. -/
def removed (root : Path) : Text := dirText root ++ ['/']

theorem removed_ne_nil (root : Path) : removed root ≠ [] := by
  simp [removed]

theorem removed_head (root : Path) : (removed root).head? = some '/' := by
  cases root <;> rfl

/-- The project's components, once more, with something before and behind them. -/
def Recurs (root q : Path) : Prop := root ≠ [] ∧ ∃ a n w, q = a ++ root ++ n :: w

/-- Where the removed text starts at a slash of a path, the components are the project's. -/
theorem removed_cut {root q : Path} {s : Text} (h : removed root ++ s = pathText q) :
    root ≠ [] ∧ ∃ n w, q = root ++ n :: w ∧ s = n.text ++ pathText w := by
  by_cases top : root = []
  · subst top
    cases q with
    | nil => cases h
    | cons n q =>
      have tail : '/' :: s = n.text ++ pathText q := (List.cons.inj h).2
      obtain ⟨c, t, name⟩ := List.exists_cons_of_ne_nil n.legal.nonempty
      rw [name] at tail
      have slash : '/' = c := (List.cons.inj tail).1
      exact absurd (by rw [name, slash]; simp) n.legal.noSlash
  · rw [removed, dirText, if_neg top, List.append_assoc] at h
    exact ⟨top, path_cut h⟩

theorem removed_path {root : Path} (top : root ≠ []) (n : Name) (w : Path) :
    pathText (root ++ n :: w) = removed root ++ (n.text ++ pathText w) := by
  rw [removed, dirText, if_neg top]
  simp

/-- The removed text occurs behind a first name exactly where the components recur. -/
theorem removed_infix_iff (root : Path) (n : Name) (q : Path) :
    removed root <:+: n.text ++ pathText q ↔ Recurs root q := by
  constructor
  · rintro ⟨x, s, whole⟩
    obtain ⟨r, start⟩ := List.head?_eq_some_iff.mp (removed_head root)
    have slash : n.text ++ pathText q = x ++ '/' :: (r ++ s) := by
      rw [← whole, start]
      simp
    obtain ⟨a, b, rfl, hb, -⟩ := slash_cut slash
    have cut : removed root ++ s = pathText b := by
      rw [← hb, start]
      rfl
    obtain ⟨top, m, w, rfl, -⟩ := removed_cut cut
    exact ⟨top, a, m, w, by simp⟩
  · rintro ⟨top, a, m, w, rfl⟩
    refine ⟨n.text ++ pathText a, m.text ++ pathText w, ?_⟩
    rw [List.append_assoc a root, pathText_append, removed_path top]
    simp

/-- **Removal leaves a path, and its first name keeps its beginning.** -/
theorem removal_path (root : Path) (n : Name) (q : Path) : ∃ (n' : Name) (q' : Path),
    Text.replaceAll (removed root) [] (n.text ++ pathText q) = n'.text ++ pathText q' ∧
      n.text <+: n'.text := by
  induction h : q.length using Nat.strongRecOn generalizing n q with
  | ind k ih =>
    rw [Text.replaceAll_skip (removed_head root) n.legal.noSlash]
    cases q with
    | nil => exact ⟨n, [], rfl, List.prefix_rfl⟩
    | cons m q =>
      by_cases here : removed root <+: pathText (m :: q)
      · -- the next components are the project's: the name behind them is glued on
        obtain ⟨s, whole⟩ := here
        obtain ⟨top, v, w, split, rfl⟩ := removed_cut whole
        have positive := List.length_pos_of_ne_nil top
        have size : root.length + (w.length + 1) = k := by
          rw [← h, split, List.length_append, List.length_cons]
        obtain ⟨v', q', rest, -⟩ := ih w.length (by omega) v w rfl
        refine ⟨n.append v', q', ?_, by simp⟩
        rw [← whole, Text.replaceAll_append (removed_ne_nil root), List.nil_append, rest,
          Name.append_text, List.append_assoc]
      · have size : q.length + 1 = k := h
        obtain ⟨m', q', rest, -⟩ := ih q.length (by omega) m q rfl
        refine ⟨n, m' :: q', ?_, List.prefix_rfl⟩
        rw [pathText_cons] at here
        rw [pathText_cons, Text.replaceAll_cons here, rest, pathText_cons]

/-- The entry of a file below `dir`. -/
def entry (root : Path) (dir : Name) (q : Path) : Text :=
  relativePath (dirText root) (dirText root ++ '/' :: dir.text ++ pathText q)

theorem entry_eq (root : Path) (dir : Name) (q : Path) :
    entry root dir q = Text.replaceAll (removed root) [] (dir.text ++ pathText q) := by
  have front : dirText root ++ '/' :: dir.text ++ pathText q = removed root ++ (dir.text ++ pathText q) := by
    simp [removed]
  rw [entry, relativePath, front]
  exact Text.replaceAll_append (removed_ne_nil root) [] _

/-- A relative entry is resolved below the project. -/
theorem sourceFile_relative (root : Path) (n : Name) (q : Path) :
    sourceFile root (n.text ++ pathText q) = (root ++ n :: q).map Name.text := by
  have relative : (n.text ++ pathText q).head? ≠ some '/' := by
    obtain ⟨c, t, name⟩ := List.exists_cons_of_ne_nil n.legal.nonempty
    have head := n.head_ne_slash
    rw [name] at head ⊢
    exact head
  have written : dirText root ++ '/' :: (n.text ++ pathText q) = dirText root ++ pathText (n :: q) := rfl
  rw [sourceFile, if_neg relative, written, collapse_append_path, collapse_dirText, List.map_append]

/-- The file an entry of the root list stands for. -/
def entryFile (root : Path) (dir : Name) (q : Path) : List Text := sourceFile root (entry root dir q)

/-- **It lies in the project, and the name it starts with starts with the directory's.** -/
theorem entryFile_eq (root : Path) (dir : Name) (q : Path) : ∃ (n' : Name) (q' : Path),
    entryFile root dir q = (root ++ n' :: q').map Name.text ∧ dir.text <+: n'.text ∧
      entry root dir q = n'.text ++ pathText q' := by
  obtain ⟨n', q', text, pre⟩ := removal_path root dir q
  rw [← entry_eq] at text
  exact ⟨n', q', by rw [entryFile, text, sourceFile_relative], pre, text⟩

/-- It is the file itself unless the project's components recur below the directory. -/
theorem entryFile_exact_iff (root : Path) (dir : Name) (q : Path) :
    entryFile root dir q = (root ++ dir :: q).map Name.text ↔ ¬ Recurs root q := by
  rw [← removed_infix_iff root dir q, ← Text.replaceAll_eq_self_iff (removed_ne_nil root), ← entry_eq]
  constructor
  · intro same
    obtain ⟨n', q', file, -, text⟩ := entryFile_eq root dir q
    rw [file] at same
    have path := List.append_cancel_left (map_text_injective same)
    obtain ⟨rfl, rfl⟩ := List.cons.inj path
    exact text
  · intro same
    rw [entryFile, same, sourceFile_relative]

/-- The characters of a file's path. -/
def size (file : List Text) : Nat := (file.flatMap fun t => '/' :: t).length

theorem size_map (q : Path) : size (q.map Name.text) = (pathText q).length := by
  rw [size, pathText, List.flatMap_map]

/-- Where the components recur, the entry stands for a file with a shorter path. -/
theorem entryFile_shorter {root : Path} {dir : Name} {q : Path} (recurs : Recurs root q) :
    size (entryFile root dir q) < size ((root ++ dir :: q).map Name.text) := by
  obtain ⟨n', q', file, -, text⟩ := entryFile_eq root dir q
  have shorter := Text.length_replaceAll_lt (removed_ne_nil root) ((removed_infix_iff root dir q).mpr recurs)
  rw [← entry_eq, text] at shorter
  rw [file, size_map, size_map, pathText_append, pathText_append, pathText_cons, pathText_cons,
    List.length_append, List.length_append, List.length_cons, List.length_cons]
  omega

/-- Elements that are kept or shrunk cover the same set only if all are kept. -/
theorem shrinking_image_iff {α β : Type} {S : List α} {e g : α → β} {size : β → Nat}
    (inj : Function.Injective e) (shrink : ∀ x ∈ S, g x = e x ∨ size (g x) < size (e x)) :
    (∀ y, y ∈ S.map g ↔ y ∈ S.map e) ↔ ∀ x ∈ S, g x = e x := by
  constructor
  · intro same
    obtain ⟨B, bound⟩ : ∃ B, ∀ x ∈ S, size (e x) ≤ B := by
      clear same shrink
      induction S with
      | nil => exact ⟨0, by simp⟩
      | cons x S ih =>
        obtain ⟨B, bound⟩ := ih
        refine ⟨max B (size (e x)), ?_⟩
        intro y hy
        rcases List.mem_cons.mp hy with rfl | later
        · omega
        · have le := bound y later
          omega
    -- the largest changed element is nobody's image
    have largest : ∀ k, ∀ x ∈ S, B - size (e x) = k → g x = e x := by
      intro k
      induction k using Nat.strongRecOn with
      | ind k ih =>
        intro x hx slack
        obtain ⟨y, hy, image⟩ := List.mem_map.mp ((same (e x)).mpr (List.mem_map_of_mem hx))
        rcases shrink y hy with kept | smaller
        · have self : y = x := inj (kept.symm.trans image)
          rw [← self, kept]
        · rw [image] at smaller
          have le := bound y hy
          have fixed := ih (B - size (e y)) (by omega) y hy rfl
          rw [fixed] at image
          rw [image] at smaller
          omega
    exact fun x hx => largest _ x hx rfl
  · intro kept y
    rw [List.map_congr_left kept]

/-! ## The root list -/

/-- Its entries, resolved: one for each file below the directory. -/
theorem mem_discovered {root : Path} {tree : List Path} {dir : Name} {suffix : Text} {f : List Text} :
    f ∈ (discoverAllFiles root tree dir suffix).map (sourceFile root) ↔
      f ∈ (below tree dir suffix).map (entryFile root dir) := by
  have dirIs : collapse (dirText root ++ '/' :: dir.text) = (root ++ [dir]).map Name.text := by
    have written : dirText root ++ '/' :: dir.text = dirText root ++ pathText [dir] := by simp
    rw [written, collapse_append_path, collapse_dirText, List.map_append]
  rw [discoverAllFiles, globRecurse_eq dirIs]
  simp only [List.mem_map, List.mem_eraseDups]
  constructor
  · rintro ⟨_, ⟨_, ⟨q, hq, rfl⟩, rfl⟩, rfl⟩
    exact ⟨q, hq, rfl⟩
  · rintro ⟨q, hq, rfl⟩
    exact ⟨_, ⟨_, ⟨q, hq, rfl⟩, rfl⟩, rfl⟩

/-- **The root list finds a directory's files exactly if its own path recurs below none of them.** -/
theorem discovered_exact_iff (root : Path) (tree : List Path) (dir : Name) (suffix : Text) :
    (∀ f, f ∈ (discoverAllFiles root tree dir suffix).map (sourceFile root) ↔
      f ∈ filesBelow root tree dir suffix) ↔ ∀ q ∈ below tree dir suffix, ¬ Recurs root q := by
  have inj : Function.Injective fun q : Path => (root ++ dir :: q).map Name.text := fun q r h =>
    (List.cons.inj (List.append_cancel_left (map_text_injective h))).2
  have shrink : ∀ q ∈ below tree dir suffix, entryFile root dir q = (root ++ dir :: q).map Name.text ∨
      size (entryFile root dir q) < size ((root ++ dir :: q).map Name.text) := by
    intro q _
    by_cases recurs : Recurs root q
    · exact .inr (entryFile_shorter recurs)
    · exact .inl ((entryFile_exact_iff root dir q).mpr recurs)
  simp only [mem_discovered, filesBelow]
  rw [shrinking_image_iff inj shrink]
  simp only [entryFile_exact_iff]

/-! ## The test list -/

theorem collapse_searchDir (root : Path) : collapse (searchDir root) = (root ++ [source]).map Name.text := by
  have written : searchDir root = (dirText (root ++ [test]) ++ '/' :: "..".toList) ++ pathText [source] := by
    rw [searchDir, List.append_assoc]
    rfl
  have up : (segments "..".toList).foldl enter ((root ++ [test]).map Name.text) = root.map Name.text := by
    change enter ((root ++ [test]).map Name.text) "..".toList = root.map Name.text
    rw [enter, if_pos rfl, List.map_append]
    exact List.dropLast_concat
  rw [written, collapse_append_path, collapse_append_slash, collapse_dirText, up, List.map_append]

/-- **The test list finds exactly the `.c` files below `source`.** -/
theorem tested_exact (root : Path) (tree : List Path) :
    tested root tree = filesBelow root tree source ".c".toList := by
  rw [tested, discoverAllSrcFiles, globRecurse_eq (collapse_searchDir root), List.map_map, filesBelow]
  apply List.map_congr_left
  intro q _
  have absolute : (searchDir root ++ pathText q).head? = some '/' := by
    rw [searchDir, dirText, if_neg (by simp)]
    cases root <;> rfl
  change sourceFile (root ++ [test]) (searchDir root ++ pathText q) = _
  rw [sourceFile, if_pos absolute, collapse_append_path, collapse_searchDir]
  simp

/-! ## The two lists compared -/

/-- **Nothing below `source` is flashed.** -/
theorem flashed_outside_source {root : Path} {tree : List Path} {f : List Text} (h : f ∈ flashed root tree) :
    f ∉ filesBelow root tree source ".c".toList := by
  obtain ⟨q, -, rfl⟩ := List.mem_map.mp (mem_discovered.mp h)
  intro application
  obtain ⟨r, -, same⟩ := List.mem_map.mp application
  obtain ⟨n', q', file, pre, -⟩ := entryFile_eq root SOURCE q
  rw [file] at same
  have path := List.append_cancel_left (map_text_injective same)
  obtain ⟨rfl, -⟩ := List.cons.inj path
  exact absurd pre (by decide)

/-- The application is flashed as it is tested: both lists name the same files, the
`.c` files below `source`. -/
structure FlashedAsTested (root : Path) (tree : List Path) : Prop where
  same : ∀ f, f ∈ flashed root tree ↔ f ∈ tested root tree
  flashed : ∀ f, f ∈ flashed root tree ↔ f ∈ filesBelow root tree source ".c".toList
  tested : ∀ f, f ∈ tested root tree ↔ f ∈ filesBelow root tree source ".c".toList

/-- **The two lists agree only where there is nothing to agree on.** -/
theorem flashed_as_tested_iff (root : Path) (tree : List Path) : FlashedAsTested root tree ↔
    below tree source ".c".toList = [] ∧ below tree SOURCE ".c".toList = [] := by
  constructor
  · intro agree
    refine ⟨List.eq_nil_iff_forall_not_mem.mpr ?_, List.eq_nil_iff_forall_not_mem.mpr ?_⟩
    · intro q hq
      have application : (root ++ source :: q).map Name.text ∈ filesBelow root tree source ".c".toList :=
        List.mem_map_of_mem hq
      exact flashed_outside_source ((agree.flashed _).mpr application) application
    · intro q hq
      have listed : entryFile root SOURCE q ∈ Build.flashed root tree :=
        mem_discovered.mpr (List.mem_map_of_mem hq)
      exact flashed_outside_source listed ((agree.flashed _).mp listed)
  · rintro ⟨noSource, noSOURCE⟩
    have noApplication : filesBelow root tree source ".c".toList = [] := by
      rw [filesBelow, noSource, List.map_nil]
    have noFlashed : ∀ f, f ∉ Build.flashed root tree := by
      intro f h
      have listed := mem_discovered.mp h
      rw [noSOURCE] at listed
      cases listed
    have noTested : Build.tested root tree = [] := by
      rw [tested_exact, noApplication]
    constructor <;> intro f
    · rw [noTested]
      exact iff_of_false (noFlashed f) List.not_mem_nil
    · rw [noApplication]
      exact iff_of_false (noFlashed f) List.not_mem_nil
    · rw [noTested, noApplication]

/-- A project at `/proj` with one application file. -/
def project : Path := [⟨"proj".toList, by decide⟩]

def projectTree : List Path := [[source, ⟨"app_main.c".toList, by decide⟩]]

/-- The file is tested and not flashed. -/
theorem app_main_not_flashed : ¬ FlashedAsTested project projectTree := by
  intro agree
  have tested : ["proj".toList, "source".toList, "app_main.c".toList] ∈ Build.tested project projectTree := by
    decide
  have flashed := (agree.same _).mpr tested
  have none : Build.flashed project projectTree = [] := by
    decide
  rw [none] at flashed
  cases flashed

end Blinky.Build
