import Blinky.Lib.Path
import Blinky.Lib.Replace

/-!
# How the two `CMakeLists.txt` find their sources

The root list globs below a directory, makes each path relative by
`string(REPLACE "${CMAKE_CURRENT_SOURCE_DIR}/" "")` and removes duplicates; the
test list globs below `../source` and uses the paths as they come. Names hold no
`;`, so a list variable is the list of its elements. A target resolves a
relative source against the directory of its own `CMakeLists.txt`.
-/

namespace Blinky.Build
set_option autoImplicit false

def endsWith (suffix : Text) (q : Path) : Bool :=
  match q.getLast? with
  | some n => suffix.isSuffixOf n.text
  | none => false

/-- The part of a path below a directory, if its last name has the suffix. -/
def matchBelow (dirs : List Text) (suffix : Text) (q : Path) : Option Path :=
  if dirs <+: q.map Name.text ∧ endsWith suffix (q.drop dirs.length) = true then
    some (q.drop dirs.length)
  else
    none

/-- `file(GLOB_RECURSE … dir/*suffix)` in a project at `root` whose files are `tree`:
the files below the literal directory, each written behind `dir` as `dir` is written. -/
def globRecurse (root : Path) (tree : List Path) (dir suffix : Text) : List Text :=
  (tree.filterMap fun q => matchBelow (collapse dir) suffix (root ++ q)).map (dir ++ pathText ·)

/-- `string(REPLACE "${CMAKE_CURRENT_SOURCE_DIR}/" "" relative_path ${file_path})`. -/
def relativePath (sourceDir file_path : Text) : Text := Text.replaceAll (sourceDir ++ ['/']) [] file_path

/-- The body the three macros of the root list share. -/
def discoverAllFiles (root : Path) (tree : List Path) (dir : Name) (suffix : Text) : List Text :=
  ((globRecurse root tree (dirText root ++ '/' :: dir.text) suffix).map
    (relativePath (dirText root))).eraseDups

def SOURCE : Name := ⟨"SOURCE".toList, by decide⟩

def source : Name := ⟨"source".toList, by decide⟩

def hal : Name := ⟨"hal".toList, by decide⟩

def test : Name := ⟨"test".toList, by decide⟩

/-- `DISCOVER_ALL_C_SOURCE_FILES(C_SOURCES)`. -/
def discoverAllCSourceFiles (root : Path) (tree : List Path) : List Text :=
  discoverAllFiles root tree SOURCE ".c".toList

/-- `DISCOVER_ALL_C_HAL_FILES(HAL_C)`. -/
def discoverAllCHalFiles (root : Path) (tree : List Path) : List Text :=
  discoverAllFiles root tree hal ".c".toList

/-- `DISCOVER_ALL_ASM_HAL_FILES(HAL_ASM)`. -/
def discoverAllAsmHalFiles (root : Path) (tree : List Path) : List Text :=
  discoverAllFiles root tree hal ".asm".toList

/-- `SEARCH_DIR` of the test list: `${CMAKE_CURRENT_SOURCE_DIR}/../source`. -/
def searchDir (root : Path) : Text := dirText (root ++ [test]) ++ "/../source".toList

/-- `DISCOVER_ALL_SRC_FILES(APP_SOURCES)`. -/
def discoverAllSrcFiles (root : Path) (tree : List Path) : List Text :=
  globRecurse root tree (searchDir root) ".c".toList

/-- The file a target's source entry stands for. -/
def sourceFile (sourceDir : Path) (entry : Text) : List Text :=
  collapse (if entry.head? = some '/' then entry else dirText sourceDir ++ '/' :: entry)

/-- The application files of `add_executable(blinky.out …)`. -/
def flashed (root : Path) (tree : List Path) : List (List Text) :=
  (discoverAllCSourceFiles root tree).map (sourceFile root)

/-- The files of `target_sources(ourSampleApp …)`. -/
def tested (root : Path) (tree : List Path) : List (List Text) :=
  (discoverAllSrcFiles root tree).map (sourceFile (root ++ [test]))

/-- The files below a directory of the project, without the directory's name. -/
def below (tree : List Path) (dir : Name) (suffix : Text) : List Path :=
  tree.filterMap fun
    | n :: q => if n = dir ∧ endsWith suffix q = true then some q else none
    | [] => none

end Blinky.Build
