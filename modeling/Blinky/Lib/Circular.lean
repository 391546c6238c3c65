import Mathlib.Data.List.Chain
import Mathlib.Data.List.Nodup
import Mathlib.Logic.Function.Basic

/-!
# Circular lists with a cursor

Two views of one structure. `Links` is memory: every node has a next and a
previous field, and `Threads` says that a root and its members are consecutive
nodes linked both ways, round to the root again. `Cursor` is the sequence such
a ring stands for, cut where the cursor is.

Three edits change a ring: `insertAfter`, `insertBefore` and `unlink`. Each is
given with what it does to the ring it is made in (`Threads.insert_after` and its
siblings) and a ring that shares no node with an edit is left alone
(`Threads.congr`).
-/

namespace Blinky.Circular
set_option autoImplicit false

/-- The two link fields of every node. -/
structure Links (ν : Type) where
  next : ν → ν
  prev : ν → ν

variable {ν : Type}

/-- Neighbours, linked both ways. -/
def Linked (l : Links ν) (x y : ν) : Prop := l.next x = y ∧ l.prev y = x

/-- The ring from `root` through `xs` and round to `root`. -/
def Threads (l : Links ν) (root : ν) (xs : List ν) : Prop :=
  (root :: (xs ++ [root])).IsChain (Linked l)

/-- A chain reads `next` of all its nodes but the last and `prev` of all but the first. -/
theorem chain_congr {l l' : Links ν} {xs : List ν} (chain : xs.IsChain (Linked l))
    (next : ∀ z ∈ xs.dropLast, l'.next z = l.next z) (prev : ∀ z ∈ xs.tail, l'.prev z = l.prev z) :
    xs.IsChain (Linked l') := by
  induction xs with
  | nil => exact .nil
  | cons x xs ih =>
    cases xs with
    | nil => exact .singleton x
    | cons y xs =>
      rw [List.isChain_cons_cons] at chain ⊢
      refine ⟨⟨?_, ?_⟩, ih chain.2 ?_ ?_⟩
      · rw [next x (by simp), chain.1.1]
      · rw [prev y (by simp), chain.1.2]
      · intro z hz
        apply next
        simp [List.dropLast, hz]
      · intro z hz
        apply prev
        simp at hz ⊢
        exact Or.inr hz

theorem Threads.congr {l l' : Links ν} {root : ν} {xs : List ν} (ring : Threads l root xs)
    (same : ∀ z ∈ root :: xs, l'.next z = l.next z ∧ l'.prev z = l.prev z) : Threads l' root xs := by
  apply chain_congr ring
  · intro z hz
    rw [← List.cons_append, List.dropLast_concat] at hz
    exact (same z hz).1
  · intro z hz
    simp only [List.tail_cons, List.mem_append, List.mem_singleton] at hz
    apply (same z _).2
    simp only [List.mem_cons]
    exact hz.symm

/-- A ring cut between two neighbours: up to `x`, and from `y` back to the root. -/
theorem threads_cut {l : Links ν} {root x y : ν} {as bs f b : List ν} (front : root :: as = f ++ [x])
    (back : bs ++ [root] = y :: b) :
    Threads l root (as ++ bs) ↔
      (root :: as).IsChain (Linked l) ∧ Linked l x y ∧ (bs ++ [root]).IsChain (Linked l) := by
  have whole : root :: (as ++ bs ++ [root]) = f ++ x :: y :: b := by
    rw [List.append_assoc, ← List.cons_append, front, back, List.append_assoc, List.singleton_append]
  rw [Threads, whole, List.isChain_append_cons_cons, front, back]

theorem threads_splice {l : Links ν} {root x n y : ν} {as bs f b : List ν} (front : root :: as = f ++ [x])
    (back : bs ++ [root] = y :: b) :
    Threads l root (as ++ n :: bs) ↔
      (root :: as).IsChain (Linked l) ∧ Linked l x n ∧ Linked l n y ∧ (bs ++ [root]).IsChain (Linked l) := by
  rw [threads_cut front (b := bs ++ [root]) (by rw [List.cons_append]), List.cons_append, back,
    List.isChain_cons_cons]

/-- The two nodes at a cut belong to the ring. -/
theorem cut_mem {root x y : ν} {as bs f b : List ν} (front : root :: as = f ++ [x])
    (back : bs ++ [root] = y :: b) : x ∈ root :: (as ++ bs) ∧ y ∈ root :: (as ++ bs) := by
  constructor
  · rw [← List.cons_append, front]
    simp
  · have h : y ∈ bs ++ [root] := by rw [back]; simp
    simp only [List.mem_append, List.mem_singleton] at h
    simp only [List.mem_cons, List.mem_append]
    tauto

/-- Who may be touched at the seam, by distinctness of the ring's nodes. -/
theorem seam {root x y : ν} {as bs f b : List ν} (front : root :: as = f ++ [x])
    (back : bs ++ [root] = y :: b) (distinct : (root :: (as ++ bs)).Nodup) :
    x ∉ f ∧ x ∉ bs ∧ y ∉ as ∧ y ∉ b := by
  rw [← List.cons_append, List.nodup_append] at distinct
  obtain ⟨nodupFront, nodupBack, apart⟩ := distinct
  have mem : x ∈ root :: as := by rw [front]; simp
  have nodupEnd : (bs ++ [root]).Nodup := by
    rw [List.nodup_append]
    refine ⟨nodupBack, by simp, ?_⟩
    intro z hz w hw same
    rw [List.mem_singleton] at hw
    exact apart root (by simp) z hz (by rw [← hw, same])
  rw [back, List.nodup_cons] at nodupEnd
  refine ⟨?_, fun h => apart x mem x h rfl, ?_, nodupEnd.1⟩
  · rw [front, List.nodup_append] at nodupFront
    intro h
    exact nodupFront.2.2 x h x (by simp) rfl
  · intro h
    cases bs with
    | nil =>
      simp only [List.nil_append, List.cons.injEq] at back
      rw [← back.1] at h
      exact (List.nodup_cons.mp nodupFront).1 h
    | cons c bs =>
      simp only [List.cons_append, List.cons.injEq] at back
      exact apart y (List.mem_cons_of_mem _ h) c (by simp) back.1.symm

/-- One edit at the seam `x`, `y`: all other links of the ring survive. -/
theorem halves_congr {l : Links ν} (l' : Links ν) {root x y : ν} {as bs f b : List ν} (front : root :: as = f ++ [x])
    (back : bs ++ [root] = y :: b) (distinct : (root :: (as ++ bs)).Nodup)
    (next : ∀ z ∈ root :: (as ++ bs), z ≠ x → l'.next z = l.next z)
    (prev : ∀ z ∈ root :: (as ++ bs), z ≠ y → l'.prev z = l.prev z)
    (chains : (root :: as).IsChain (Linked l) ∧ (bs ++ [root]).IsChain (Linked l)) :
    (root :: as).IsChain (Linked l') ∧ (bs ++ [root]).IsChain (Linked l') := by
  obtain ⟨xf, xb, ya, yb⟩ := seam front back distinct
  constructor
  · apply chain_congr chains.1
    · intro z hz
      have inFront : z ∈ root :: as := List.dropLast_subset _ hz
      rw [front, List.dropLast_concat] at hz
      apply next z (by simp at inFront ⊢; tauto)
      rintro rfl
      exact xf hz
    · intro z hz
      rw [List.tail_cons] at hz
      apply prev z (by simp [hz])
      rintro rfl
      exact ya hz
  · apply chain_congr chains.2
    · intro z hz
      rw [List.dropLast_concat] at hz
      apply next z (by simp [hz])
      rintro rfl
      exact xb hz
    · intro z hz
      have inBack : z ∈ bs ++ [root] := List.mem_of_mem_tail hz
      rw [back, List.tail_cons] at hz
      apply prev z (by simp at inBack ⊢; tauto)
      rintro rfl
      exact yb hz

/-- The seam a node leaves behind, and that it differs from the node after it. -/
theorem Threads.around {l : Links ν} {root n : ν} {as bs : List ν} (ring : Threads l root (as ++ n :: bs))
    (distinct : (root :: (as ++ n :: bs)).Nodup) :
    ∃ f x y b, root :: as = f ++ [x] ∧ bs ++ [root] = y :: b ∧ Linked l x n ∧ Linked l n y ∧ n ≠ y ∧
      (root :: as).IsChain (Linked l) ∧ (bs ++ [root]).IsChain (Linked l) ∧ (root :: (as ++ bs)).Nodup := by
  obtain ⟨f, x, front⟩ : ∃ f x, root :: as = f ++ [x] :=
    ⟨_, _, (List.dropLast_append_getLast (List.cons_ne_nil root as)).symm⟩
  obtain ⟨y, b, back⟩ : ∃ y b, bs ++ [root] = y :: b := List.exists_cons_of_ne_nil (by simp)
  obtain ⟨chainFront, before, after, chainBack⟩ := (threads_splice front back).mp ring
  have moved : (n :: root :: (as ++ bs)).Nodup := by
    refine (List.Perm.nodup_iff ?_).mp distinct
    exact (List.perm_middle.cons root).trans (.swap ..)
  obtain ⟨fresh, distinct'⟩ := List.nodup_cons.mp moved
  have ny : n ≠ y := (ne_of_mem_of_not_mem (cut_mem front back).2 fresh).symm
  exact ⟨f, x, y, b, front, back, before, after, ny, chainFront, chainBack, distinct'⟩

variable [DecidableEq ν]

namespace Links

/-- `n` between `x` and the node after it: the four assignments in order. -/
def insertAfter (l : Links ν) (x n : ν) : Links ν :=
  let next := Function.update l.next n (l.next x)
  let prev := Function.update l.prev (next n) n
  let prev := Function.update prev n x
  let next := Function.update next x n
  { next, prev }

/-- `n` between the node before `x` and `x`. -/
def insertBefore (l : Links ν) (x n : ν) : Links ν :=
  let next := Function.update l.next n x
  let prev := Function.update l.prev n (l.prev x)
  let next := Function.update next (prev x) n
  let prev := Function.update prev x n
  { next, prev }

/-- `n` taken out; its own two fields keep their values. -/
def unlink (l : Links ν) (n : ν) : Links ν :=
  let prev := Function.update l.prev (l.next n) (l.prev n)
  let next := Function.update l.next (prev n) (l.next n)
  { next, prev }

end Links

theorem Threads.insert_after {l : Links ν} {root x n : ν} {as bs f : List ν}
    (ring : Threads l root (as ++ bs)) (distinct : (root :: (as ++ bs)).Nodup)
    (front : root :: as = f ++ [x]) (fresh : n ∉ root :: (as ++ bs)) :
    Threads (l.insertAfter x n) root (as ++ n :: bs) := by
  obtain ⟨y, b, back⟩ : ∃ y b, bs ++ [root] = y :: b := List.exists_cons_of_ne_nil (by simp)
  obtain ⟨chainFront, ⟨toY, toX⟩, chainBack⟩ := (threads_cut front back).mp ring
  obtain ⟨inX, inY⟩ := cut_mem front back
  have nx : n ≠ x := ne_of_mem_of_not_mem inX fresh |>.symm
  have ny : n ≠ y := ne_of_mem_of_not_mem inY fresh |>.symm
  obtain ⟨chainFront', chainBack'⟩ := halves_congr (l.insertAfter x n) front back distinct
    (by
      intro z hz ne
      have : z ≠ n := ne_of_mem_of_not_mem hz fresh
      simp [Links.insertAfter, Function.update, *])
    (by
      intro z hz ne
      have : z ≠ n := ne_of_mem_of_not_mem hz fresh
      simp [Links.insertAfter, Function.update, *])
    ⟨chainFront, chainBack⟩
  refine (threads_splice front back).mpr ⟨chainFront', ?_, ?_, chainBack'⟩
  · simp [Linked, Links.insertAfter, Function.update]
  · simp [Linked, Links.insertAfter, Function.update, toY, nx, ny.symm]

/-- Inserting before `y` is inserting after the node before it. -/
theorem insertBefore_eq {l : Links ν} {x y n : ν} (linked : Linked l x y) (ny : n ≠ y) :
    l.insertBefore y n = l.insertAfter x n := by
  obtain ⟨toY, toX⟩ := linked
  have prevEq : Function.update (Function.update l.prev n x) y n =
      Function.update (Function.update l.prev y n) n x := Function.update_comm ny ..
  simp only [Links.insertBefore, Links.insertAfter, toX, toY, Function.update_self,
    Function.update_of_ne ny.symm, prevEq]

theorem Threads.insert_before {l : Links ν} {root y n : ν} {as bs b : List ν}
    (ring : Threads l root (as ++ bs)) (distinct : (root :: (as ++ bs)).Nodup)
    (back : bs ++ [root] = y :: b) (fresh : n ∉ root :: (as ++ bs)) :
    Threads (l.insertBefore y n) root (as ++ n :: bs) := by
  obtain ⟨f, x, front⟩ : ∃ f x, root :: as = f ++ [x] :=
    ⟨_, _, (List.dropLast_append_getLast (List.cons_ne_nil root as)).symm⟩
  have linked : Linked l x y := ((threads_cut front back).mp ring).2.1
  have inY := (cut_mem front back).2
  rw [insertBefore_eq linked (ne_of_mem_of_not_mem inY fresh).symm]
  exact ring.insert_after distinct front fresh

/-- What taking a node out does, given the nodes at either side of it. -/
theorem unlink_eq {l : Links ν} {x n y : ν} (before : Linked l x n) (after : Linked l n y) (ny : n ≠ y) :
    l.unlink n = { next := Function.update l.next x y, prev := Function.update l.prev y x } := by
  have prevN : (Function.update l.prev (l.next n) (l.prev n)) n = x := by
    rw [after.1, Function.update_of_ne ny, before.2]
  simp only [Links.unlink]
  rw [prevN, after.1, before.2]

theorem Threads.unlink {l : Links ν} {root n : ν} {as bs : List ν}
    (ring : Threads l root (as ++ n :: bs)) (distinct : (root :: (as ++ n :: bs)).Nodup) :
    Threads (l.unlink n) root (as ++ bs) := by
  obtain ⟨f, x, y, b, front, back, before, after, ny, chainFront, chainBack, distinct'⟩ :=
    ring.around distinct
  rw [unlink_eq before after ny]
  obtain ⟨chainFront', chainBack'⟩ := halves_congr
    { next := Function.update l.next x y, prev := Function.update l.prev y x } front back distinct'
    (fun z _ ne => Function.update_of_ne ne ..) (fun z _ ne => Function.update_of_ne ne ..)
    ⟨chainFront, chainBack⟩
  refine (threads_cut front back).mpr ⟨chainFront', ⟨?_, ?_⟩, chainBack'⟩
  · exact Function.update_self ..
  · exact Function.update_self ..

/-- A node taken out still has its previous field. -/
theorem Threads.unlink_prev {l : Links ν} {root n : ν} {as bs : List ν} (ring : Threads l root (as ++ n :: bs))
    (distinct : (root :: (as ++ n :: bs)).Nodup) : (l.unlink n).prev n = l.prev n := by
  obtain ⟨f, x, y, b, -, -, before, after, ny, -⟩ := ring.around distinct
  rw [unlink_eq before after ny]
  exact Function.update_of_ne ny ..

/-- An insertion touches the ring it is made in and the new node. -/
theorem Threads.insertAfter_elsewhere {l : Links ν} {root x n z : ν} {as bs f : List ν}
    (ring : Threads l root (as ++ bs)) (front : root :: as = f ++ [x])
    (outside : z ∉ root :: (as ++ bs)) (ne : z ≠ n) :
    (l.insertAfter x n).next z = l.next z ∧ (l.insertAfter x n).prev z = l.prev z := by
  obtain ⟨y, b, back⟩ : ∃ y b, bs ++ [root] = y :: b := List.exists_cons_of_ne_nil (by simp)
  obtain ⟨inX, inY⟩ := cut_mem front back
  have linked : Linked l x y := ((threads_cut front back).mp ring).2.1
  have zx : z ≠ x := (ne_of_mem_of_not_mem inX outside).symm
  have zy : z ≠ y := (ne_of_mem_of_not_mem inY outside).symm
  simp [Links.insertAfter, Function.update, ne, zx, zy, linked.1]

theorem Threads.insertBefore_elsewhere {l : Links ν} {root y n z : ν} {as bs b : List ν}
    (ring : Threads l root (as ++ bs)) (back : bs ++ [root] = y :: b) (fresh : n ∉ root :: (as ++ bs))
    (outside : z ∉ root :: (as ++ bs)) (ne : z ≠ n) :
    (l.insertBefore y n).next z = l.next z ∧ (l.insertBefore y n).prev z = l.prev z := by
  obtain ⟨f, x, front⟩ : ∃ f x, root :: as = f ++ [x] :=
    ⟨_, _, (List.dropLast_append_getLast (List.cons_ne_nil root as)).symm⟩
  have linked : Linked l x y := ((threads_cut front back).mp ring).2.1
  have inY := (cut_mem front back).2
  rw [insertBefore_eq linked (ne_of_mem_of_not_mem inY fresh).symm]
  exact ring.insertAfter_elsewhere front outside ne

/-- So does taking a node out. -/
theorem Threads.unlink_elsewhere {l : Links ν} {root n z : ν} {as bs : List ν}
    (ring : Threads l root (as ++ n :: bs)) (distinct : (root :: (as ++ n :: bs)).Nodup)
    (outside : z ∉ root :: (as ++ n :: bs)) :
    (l.unlink n).next z = l.next z ∧ (l.unlink n).prev z = l.prev z := by
  obtain ⟨f, x, y, b, front, back, before, after, ny, -, -, -⟩ := ring.around distinct
  obtain ⟨inX, inY⟩ := cut_mem front back
  have outside' : z ∉ root :: (as ++ bs) := by
    intro h
    apply outside
    simp only [List.mem_cons, List.mem_append] at h ⊢
    tauto
  rw [unlink_eq before after ny]
  exact ⟨Function.update_of_ne (ne_of_mem_of_not_mem inX outside').symm ..,
    Function.update_of_ne (ne_of_mem_of_not_mem inY outside').symm ..⟩

/-! ## Cursors -/

/-- The members of a ring from its root on, cut at the cursor: `passed` are those
up to it, the nearest first, and `ahead` those after it. With nothing passed the
cursor stands on the root. -/
structure Cursor (α : Type) where
  passed : List α
  ahead : List α
deriving DecidableEq

namespace Cursor

variable {α : Type}

def empty : Cursor α := ⟨[], []⟩

def toList (c : Cursor α) : List α := c.passed.reverse ++ c.ahead

/-- The member under the cursor, none for the root. -/
def at? (c : Cursor α) : Option α := c.passed.head?

/-- `a` just before the cursor, where the walk comes to it last. -/
def insertLast (a : α) : Cursor α → Cursor α
  | ⟨[], ahead⟩ => ⟨[], ahead ++ [a]⟩
  | ⟨b :: passed, ahead⟩ => ⟨b :: a :: passed, ahead⟩

/-- `a` after the leading members that satisfy `p`. -/
def insertAfterWhile (p : α → Bool) (a : α) (c : Cursor α) : Cursor α :=
  if c.passed.reverse.all p then
    ⟨c.passed, c.ahead.takeWhile p ++ a :: c.ahead.dropWhile p⟩
  else
    ⟨(c.passed.reverse.takeWhile p ++ a :: c.passed.reverse.dropWhile p).reverse, c.ahead⟩

/-- One place on, over the root. -/
def advance (c : Cursor α) : Cursor α :=
  match c.ahead with
  | a :: ahead => ⟨a :: c.passed, ahead⟩
  | [] =>
    match c.passed.reverse with
    | [] => empty
    | a :: rest => ⟨[a], rest⟩

def remove [DecidableEq α] (a : α) (c : Cursor α) : Cursor α :=
  ⟨c.passed.erase a, c.ahead.erase a⟩

@[simp] theorem toList_empty : (empty : Cursor α).toList = [] := rfl

/-- Where `insertLast` cuts the ring: before the cursor, or before the root. -/
theorem toList_insertLast (a : α) (c : Cursor α) :
    ∃ as bs, c.toList = as ++ bs ∧ (c.insertLast a).toList = as ++ a :: bs ∧ bs.head? = c.at? := by
  obtain ⟨_ | ⟨b, passed⟩, ahead⟩ := c
  · exact ⟨ahead, [], by simp [toList], by simp [toList, insertLast], rfl⟩
  · exact ⟨passed.reverse, b :: ahead, by simp [toList], by simp [toList, insertLast], rfl⟩

theorem perm_insertLast (a : α) (c : Cursor α) : (c.insertLast a).toList.Perm (a :: c.toList) := by
  obtain ⟨as, bs, before, after, _⟩ := toList_insertLast a c
  rw [before, after]
  exact List.perm_middle

theorem toList_insertAfterWhile (p : α → Bool) (a : α) (c : Cursor α) :
    (c.insertAfterWhile p a).toList = c.toList.takeWhile p ++ a :: c.toList.dropWhile p := by
  rw [insertAfterWhile]
  split
  case isTrue all =>
    have every : ∀ b ∈ c.passed.reverse, p b := by simpa using all
    rw [toList, toList, List.takeWhile_append_of_pos every, List.dropWhile_append_of_pos every,
      List.append_assoc]
  case isFalse all =>
    have cut : ∀ l : List α, ¬ l.all p → ∀ m, (l ++ m).takeWhile p = l.takeWhile p ∧
        (l ++ m).dropWhile p = l.dropWhile p ++ m := by
      intro l some m
      induction l with
      | nil => simp at some
      | cons b l ih =>
        by_cases hb : p b
        · have rest : ¬ l.all p := by simpa [hb] using some
          simp [hb, ih rest]
        · simp [hb]
    obtain ⟨take, drop⟩ := cut _ all c.ahead
    rw [toList, toList, take, drop, List.reverse_reverse, List.append_assoc, List.cons_append]

theorem perm_insertAfterWhile (p : α → Bool) (a : α) (c : Cursor α) :
    (c.insertAfterWhile p a).toList.Perm (a :: c.toList) := by
  rw [toList_insertAfterWhile]
  refine List.perm_middle.trans ?_
  rw [List.takeWhile_append_dropWhile]

/-- Added after every member that is not above it, an element keeps the order. -/
theorem sorted_insert {r : α → α → Prop} [DecidableRel r] (trans : ∀ x y z, r x y → r y z → r x z)
    (total : ∀ x y, r x y ∨ r y x) (a : α) {l : List α} (sorted : l.Pairwise r) :
    (l.takeWhile (fun x => r x a) ++ a :: l.dropWhile (fun x => r x a)).Pairwise r := by
  induction l with
  | nil => simp
  | cons b l ih =>
    obtain ⟨below, sorted⟩ := List.pairwise_cons.mp sorted
    by_cases h : r b a
    · simp only [List.takeWhile_cons, List.dropWhile_cons, decide_eq_true h, if_true, List.cons_append]
      refine List.pairwise_cons.mpr ⟨?_, ih sorted⟩
      intro x hx
      rw [List.mem_append, List.mem_cons] at hx
      obtain hx | rfl | hx := hx
      · exact below x ((List.takeWhile_sublist _).subset hx)
      · exact h
      · exact below x ((List.dropWhile_sublist _).subset hx)
    · have ab : r a b := (total b a).resolve_left h
      have above : ∀ x ∈ b :: l, r a x := by
        intro x hx
        obtain rfl | hx := List.mem_cons.mp hx
        · exact ab
        · exact trans a b x ab (below x hx)
      simp only [List.takeWhile_cons, List.dropWhile_cons, decide_eq_false h, Bool.false_eq_true, if_false,
        List.nil_append]
      exact List.pairwise_cons.mpr ⟨above, List.pairwise_cons.mpr ⟨below, sorted⟩⟩

/-- An insertion leaves the cursor where it is. -/
@[simp] theorem at?_insertLast (a : α) (c : Cursor α) : (c.insertLast a).at? = c.at? := by
  obtain ⟨_ | ⟨b, passed⟩, ahead⟩ := c <;> rfl

@[simp] theorem at?_insertAfterWhile (p : α → Bool) (a : α) (c : Cursor α) :
    (c.insertAfterWhile p a).at? = c.at? := by
  rw [insertAfterWhile]
  split
  case isTrue => rfl
  case isFalse all =>
    have rest : c.passed.reverse.dropWhile p ≠ [] := by
      intro h
      apply all
      rw [← List.takeWhile_append_dropWhile (p := p) (l := c.passed.reverse), h, List.append_nil]
      exact List.all_takeWhile
    have last := congrArg List.getLast? (List.takeWhile_append_dropWhile (p := p) (l := c.passed.reverse))
    rw [List.getLast?_append_of_ne_nil _ rest, List.getLast?_reverse] at last
    rw [at?, at?, List.head?_reverse, List.getLast?_append_of_ne_nil _ (List.cons_ne_nil _ _),
      List.getLast?_cons_of_ne_nil rest, last]

@[simp] theorem toList_advance (c : Cursor α) : c.advance.toList = c.toList := by
  obtain ⟨passed, _ | ⟨a, ahead⟩⟩ := c
  · cases h : passed.reverse with
    | nil => simp_all [advance, toList, empty]
    | cons a rest => simp [advance, toList, h]
  · simp [advance, toList]

/-- In a ring that has members an advance comes to one. -/
theorem advance_at {c : Cursor α} (h : c.toList ≠ []) : ∃ a ∈ c.toList, c.advance.at? = some a := by
  obtain ⟨passed, _ | ⟨a, ahead⟩⟩ := c
  · cases rev : passed.reverse with
    | nil => simp [toList, rev] at h
    | cons a rest => exact ⟨a, by simp [toList, rev], by simp [advance, rev, at?]⟩
  · exact ⟨a, by simp [toList], rfl⟩

variable [DecidableEq α]

theorem toList_remove {a : α} {c : Cursor α} (distinct : c.toList.Nodup) :
    (c.remove a).toList = c.toList.erase a := by
  rw [toList, List.nodup_append] at distinct
  by_cases h : a ∈ c.passed
  · have apart : a ∉ c.ahead := fun hb => distinct.2.2 a (by simp [h]) a hb rfl
    have nodup : c.passed.Nodup := List.nodup_reverse.mp distinct.1
    simp only [remove, toList]
    rw [List.erase_append_left _ (by simp [h]), List.erase_of_not_mem apart,
      nodup.erase_eq_filter, distinct.1.erase_eq_filter, List.filter_reverse]
  · simp only [remove, toList]
    rw [List.erase_append_right _ (by simp [h]), List.erase_of_not_mem h]

theorem at?_remove_of_ne {a : α} {c : Cursor α} (h : c.at? ≠ some a) : (c.remove a).at? = c.at? := by
  obtain ⟨_ | ⟨b, passed⟩, ahead⟩ := c
  · rfl
  · have ne : b ≠ a := fun e => h (congrArg some e)
    simp [remove, at?, List.erase_cons_tail, ne]

/-- When the member under the cursor goes, the cursor falls back to the one before. -/
theorem remove_at {a : α} {c : Cursor α} (h : c.at? = some a) :
    ∃ passed : List α, c.toList = passed.reverse ++ a :: c.ahead ∧ (c.remove a).at? = passed.head? := by
  obtain ⟨_ | ⟨b, passed⟩, ahead⟩ := c
  · cases h
  · obtain rfl : b = a := Option.some.inj h
    exact ⟨passed, by simp [toList], by simp [remove, at?]⟩

/-! ## Fairness of the walk

Members come and go while the cursor advances. One that stays is visited: what is
ahead of the cursor can only come closer, and what the cursor has passed is ahead
again once the cursor has gone round the root.
-/

/-- What happens to a ring: a member joins before the cursor, one leaves, or the
cursor advances. -/
inductive Move (α : Type) where
  | join (a : α)
  | leave (a : α)
  | advance

def Move.apply : Move α → Cursor α → Cursor α
  | .join a, c => c.insertLast a
  | .leave a, c => c.remove a
  | .advance, c => c.advance

def moves : List (Move α) → Cursor α → Cursor α
  | [], c => c
  | m :: ms, c => moves ms (m.apply c)

/-- The members the cursor advances to, in order. -/
def visits : List (Move α) → Cursor α → List α
  | [], _ => []
  | .advance :: ms, c => c.advance.at?.toList ++ visits ms c.advance
  | .join a :: ms, c => visits ms (c.insertLast a)
  | .leave a :: ms, c => visits ms (c.remove a)

def advances : List (Move α) → Nat
  | [] => 0
  | .advance :: ms => advances ms + 1
  | .join _ :: ms => advances ms
  | .leave _ :: ms => advances ms

theorem moves_append (ms ns : List (Move α)) (c : Cursor α) :
    moves (ms ++ ns) c = moves ns (moves ms c) := by
  induction ms generalizing c with
  | nil => rfl
  | cons m ms ih => exact ih (m.apply c)

theorem visits_append (ms ns : List (Move α)) (c : Cursor α) :
    visits (ms ++ ns) c = visits ms c ++ visits ns (moves ms c) := by
  induction ms generalizing c with
  | nil => rfl
  | cons m ms ih => cases m <;> simp [visits, moves, Move.apply, ih]

omit [DecidableEq α] in
theorem advances_append (ms ns : List (Move α)) : advances (ms ++ ns) = advances ms + advances ns := by
  induction ms with
  | nil => simp [advances]
  | cons m ms ih =>
    cases m <;> simp only [List.cons_append, advances, ih]
    omega

end Cursor

end Blinky.Circular
