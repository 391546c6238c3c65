import Blinky.Kernel.Heap
import Blinky.Lib.Tiling

/-!
# The heap as tiles

`Shaped` says that the headers in memory stand for a sequence of tiles that fill the heap: the
free list goes through the free tiles in order, every header has the size of its tile. Putting
a block in the free list gives its tile back, and the walk of `pvPortMalloc` takes the first
tile that is long enough.
-/

namespace Blinky.Kernel
set_option autoImplicit false
open Blinky.Tiling

namespace Heap

variable {h h' : Heap} {p : BlockPtr} {q x : Nat} {xs ys : List Nat}

/-! ## The free list -/

/-- From `p` the links go through `xs` to `q`. -/
def Path (h : Heap) : BlockPtr → List Nat → Nat → Prop
  | p, [], q => (h.link p).pxNextFreeBlock = some q
  | p, x :: xs, q => (h.link p).pxNextFreeBlock = some x ∧ h.Path (.block x) xs q

/-- The last pointer of a path. -/
def lastPtr : BlockPtr → List Nat → BlockPtr
  | p, [] => p
  | _, x :: xs => lastPtr (.block x) xs

/-- Where a path to `q` through `xs` goes first. -/
def front (xs : List Nat) (q : Nat) : Nat := xs.headD q

theorem Path.next (path : h.Path p xs q) : (h.link p).pxNextFreeBlock = some (front xs q) := by
  cases xs with
  | nil => exact path
  | cons x xs => exact path.1

theorem path_append : h.Path p (xs ++ x :: ys) q ↔ h.Path p xs x ∧ h.Path (.block x) ys q := by
  induction xs generalizing p with
  | nil => rfl
  | cons y xs ih => simp only [List.cons_append, Path, ih, and_assoc]

/-- A path reads the links of its own blocks only. -/
theorem Path.congr (path : h.Path p xs q) (start : (h'.link p).pxNextFreeBlock = (h.link p).pxNextFreeBlock)
    (same : ∀ x ∈ xs, (h'.link (.block x)).pxNextFreeBlock = (h.link (.block x)).pxNextFreeBlock) :
    h'.Path p xs q := by
  induction xs generalizing p with
  | nil => exact start.trans path
  | cons x xs ih =>
    refine ⟨start.trans path.1, ih path.2 (same x List.mem_cons_self) ?_⟩
    exact fun y hy => same y (List.mem_cons_of_mem _ hy)

theorem Path.last (path : h.Path p xs q) : (h.link (lastPtr p xs)).pxNextFreeBlock = some q := by
  induction xs generalizing p with
  | nil => exact path
  | cons x xs ih => exact ih path.2

theorem lastPtr_eq (p : BlockPtr) (xs : List Nat) : lastPtr p xs = p ∨ ∃ x ∈ xs, lastPtr p xs = .block x := by
  induction xs generalizing p with
  | nil => exact Or.inl rfl
  | cons x xs ih =>
    obtain here | ⟨y, hy, there⟩ := ih (.block x)
    · exact Or.inr ⟨x, List.mem_cons_self, here⟩
    · exact Or.inr ⟨y, List.mem_cons_of_mem _ hy, there⟩

theorem lastPtr_concat (p : BlockPtr) (xs : List Nat) (x : Nat) : lastPtr p (xs ++ [x]) = .block x := by
  induction xs generalizing p with
  | nil => rfl
  | cons y xs ih => exact ih _

/-- The last link of a path may be led elsewhere. -/
theorem Path.redirect (path : h.Path p xs q) (distinct : (p :: xs.map .block).Nodup) (y : Nat) :
    (h.setNext (lastPtr p xs) (some y)).Path p xs y := by
  induction xs generalizing p with
  | nil => simp [Path, lastPtr, setNext]
  | cons x xs ih =>
    have tail : (BlockPtr.block x :: xs.map .block).Nodup := (List.nodup_cons.mp distinct).2
    have other : p ≠ lastPtr (.block x) xs := by
      intro same
      apply (List.nodup_cons.mp distinct).1
      obtain here | ⟨z, hz, there⟩ := lastPtr_eq (.block x) xs
      · simp [same, here]
      · simp [same, there, hz]
    refine ⟨?_, ih path.2 tail⟩
    simp only [setNext, lastPtr, Function.update_of_ne other]
    exact path.1

/-- The list is walked to the last block before an address. -/
theorem findBefore_eq {b fuel : Nat} (path : h.Path p xs q) (below : ∀ x ∈ xs, x < b) (above : b ≤ q)
    (enough : xs.length < fuel) : h.findBefore b fuel p = some (lastPtr p xs) := by
  induction xs generalizing p fuel with
  | nil =>
    obtain ⟨fuel, rfl⟩ : ∃ n, fuel = n + 1 := ⟨fuel - 1, by simp at enough; omega⟩
    have next : (h.link p).pxNextFreeBlock = some q := path
    simp only [findBefore, next, if_neg (Nat.not_lt.mpr above), lastPtr]
  | cons x xs ih =>
    obtain ⟨fuel, rfl⟩ : ∃ n, fuel = n + 1 := ⟨fuel - 1, by simp at enough; omega⟩
    simp only [findBefore, path.1, if_pos (below x List.mem_cons_self)]
    apply ih path.2 (fun y hy => below y (List.mem_cons_of_mem _ hy))
    simp only [List.length_cons] at enough
    omega

/-! ## Tiles -/

/-- The headers say what the tiles from `a` on are. -/
structure Headed (h : Heap) (a : Nat) (ts : List Tile) : Prop where
  size : ∀ x t, (x, t) ∈ place a ts → (h.link (.block x)).xBlockSize = t.size
  allocated : ∀ x t, (x, t) ∈ place a ts → (h.link (.block x)).allocated = !t.free
  used : ∀ x n, Used a ts x n → (h.link (.block x)).pxNextFreeBlock = none

/-- The heap from `base` on is made up of the tiles and the end marker. -/
structure Shaped (h : Heap) (base : Nat) (ts : List Tile) : Prop extends Headed h base ts where
  pxEnd : h.pxEnd = some (base + total ts)
  path : h.Path .xStart (frees base ts) (base + total ts)
  endNext : (h.link (.block (base + total ts))).pxNextFreeBlock = none
  endSize : (h.link (.block (base + total ts))).xBlockSize = 0

variable {a base : Nat} {s t : Tile} {ts us : List Tile}

theorem headed_append : h.Headed a (ts ++ us) ↔ h.Headed a ts ∧ h.Headed (a + total ts) us := by
  constructor
  · intro headed
    constructor
    · constructor
      · exact fun x t ht => headed.size x t (by rw [place_append]; exact List.mem_append_left _ ht)
      · exact fun x t ht => headed.allocated x t (by rw [place_append]; exact List.mem_append_left _ ht)
      · exact fun x n ht => headed.used x n (used_append.mpr (Or.inl ht))
    · constructor
      · exact fun x t ht => headed.size x t (by rw [place_append]; exact List.mem_append_right _ ht)
      · exact fun x t ht => headed.allocated x t (by rw [place_append]; exact List.mem_append_right _ ht)
      · exact fun x n ht => headed.used x n (used_append.mpr (Or.inr ht))
  · rintro ⟨left, right⟩
    constructor
    · intro x t ht
      rw [place_append] at ht
      exact (List.mem_append.mp ht).elim (left.size x t) (right.size x t)
    · intro x t ht
      rw [place_append] at ht
      exact (List.mem_append.mp ht).elim (left.allocated x t) (right.allocated x t)
    · intro x n ht
      exact (used_append.mp ht).elim (left.used x n) (right.used x n)

theorem headed_cons : h.Headed a (t :: ts) ↔
    ((h.link (.block a)).xBlockSize = t.size ∧ (h.link (.block a)).allocated = (!t.free) ∧
      (t.free = false → (h.link (.block a)).pxNextFreeBlock = none)) ∧ h.Headed (a + t.size) ts := by
  constructor
  · intro headed
    refine ⟨⟨headed.size a t (by simp [place]), headed.allocated a t (by simp [place]), ?_⟩, ?_⟩
    · intro used
      obtain ⟨n, f⟩ := t
      obtain rfl : f = false := used
      exact headed.used a n (used_cons.mpr (Or.inl ⟨rfl, rfl⟩))
    · constructor
      · exact fun x u hu => headed.size x u (List.mem_cons_of_mem _ hu)
      · exact fun x u hu => headed.allocated x u (List.mem_cons_of_mem _ hu)
      · exact fun x n hu => headed.used x n (used_cons.mpr (Or.inr hu))
  · rintro ⟨⟨size, allocated, used⟩, rest⟩
    constructor
    · intro x u hu
      obtain here | hu := List.mem_cons.mp hu
      · cases here
        exact size
      · exact rest.size x u hu
    · intro x u hu
      obtain here | hu := List.mem_cons.mp hu
      · cases here
        exact allocated
      · exact rest.allocated x u hu
    · intro x n hu
      obtain ⟨rfl, rfl⟩ | hu := used_cons.mp hu
      · exact used rfl
      · exact rest.used x n hu

/-- Headers that are the same but for the links of free blocks say the same. -/
theorem Headed.congr (headed : h.Headed a ts)
    (size : ∀ x t, (x, t) ∈ place a ts → (h'.link (.block x)).xBlockSize = (h.link (.block x)).xBlockSize)
    (allocated : ∀ x t, (x, t) ∈ place a ts → (h'.link (.block x)).allocated = (h.link (.block x)).allocated)
    (used : ∀ x n, Used a ts x n → (h'.link (.block x)).pxNextFreeBlock = (h.link (.block x)).pxNextFreeBlock) :
    h'.Headed a ts where
  size := fun x t ht => (size x t ht).trans (headed.size x t ht)
  allocated := fun x t ht => (allocated x t ht).trans (headed.allocated x t ht)
  used := fun x n ht => (used x n ht).trans (headed.used x n ht)

end Heap

end Blinky.Kernel
