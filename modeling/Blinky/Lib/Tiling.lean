import Mathlib.Data.List.Basic

/-!
# A stretch of memory cut into tiles

Tiles lie one after another, each of them free or used. Taking the first free tile that is
long enough and giving a used one back keep what the tiles make up, the places of all other
used tiles, and that no two free tiles are neighbours; so free bytes that lie together lie
in one tile, and with nothing used there is but one.
-/

namespace Blinky.Tiling
set_option autoImplicit false

structure Tile where
  size : Nat
  free : Bool
deriving DecidableEq

/-- The tiles with where each begins, the first at `a`. -/
def place (a : Nat) : List Tile → List (Nat × Tile)
  | [] => []
  | t :: ts => (a, t) :: place (a + t.size) ts

/-- How long the tiles are together. -/
def total : List Tile → Nat
  | [] => 0
  | t :: ts => t.size + total ts

/-- How long the free ones are. -/
def freeTotal : List Tile → Nat
  | [] => 0
  | t :: ts => (if t.free then t.size else 0) + freeTotal ts

/-- Where the free ones begin. -/
def frees (a : Nat) : List Tile → List Nat
  | [] => []
  | t :: ts => if t.free then a :: frees (a + t.size) ts else frees (a + t.size) ts

/-- No two free tiles are neighbours. -/
def Merged : List Tile → Prop
  | [] => True
  | [_] => True
  | s :: t :: ts => ¬ (s.free ∧ t.free) ∧ Merged (t :: ts)

/-- A tile before the others, made one with the first where both are free. -/
def join (s : Tile) : List Tile → List Tile
  | [] => [s]
  | t :: ts => if s.free ∧ t.free then ⟨s.size + t.size, true⟩ :: ts else s :: t :: ts

/-- The used tile that begins at `b` is given back. -/
def release (b : Nat) : Nat → List Tile → List Tile
  | _, [] => []
  | a, t :: ts => if a = b then join ⟨t.size, true⟩ ts else join t (release b (a + t.size) ts)

/-- The first free tile of at least `need` is taken, and what is over given back where it is
longer than `least`. -/
def take (need least : Nat) : Nat → List Tile → Option (Nat × List Tile)
  | _, [] => none
  | a, t :: ts =>
    if t.free ∧ need ≤ t.size then
      if least < t.size - need then some (a, ⟨need, false⟩ :: join ⟨t.size - need, true⟩ ts)
      else some (a, ⟨t.size, false⟩ :: ts)
    else (take need least (a + t.size) ts).map fun r => (r.1, t :: r.2)

variable {a b x : Nat} {s t : Tile} {ts us : List Tile}

/-! ## Places -/

theorem place_append : place a (ts ++ us) = place a ts ++ place (a + total ts) us := by
  induction ts generalizing a with
  | nil => simp [place, total]
  | cons t ts ih => simp [place, total, ih, Nat.add_assoc]

theorem total_append : total (ts ++ us) = total ts + total us := by
  induction ts with
  | nil => simp [total]
  | cons t ts ih =>
    simp only [List.cons_append, total, ih]
    omega

theorem frees_append : frees a (ts ++ us) = frees a ts ++ frees (a + total ts) us := by
  induction ts generalizing a with
  | nil => simp [frees, total]
  | cons t ts ih =>
    simp only [List.cons_append, frees, ih, total]
    split <;> simp [Nat.add_assoc]

theorem freeTotal_append : freeTotal (ts ++ us) = freeTotal ts + freeTotal us := by
  induction ts with
  | nil => simp [freeTotal]
  | cons t ts ih =>
    simp only [List.cons_append, freeTotal, ih]
    omega

theorem freeTotal_le : freeTotal ts ≤ total ts := by
  induction ts with
  | nil => exact Nat.le_refl 0
  | cons t ts ih =>
    simp only [freeTotal, total]
    split <;> omega

/-- A tile lies within the stretch. -/
theorem place_bounds (h : (x, t) ∈ place a ts) : a ≤ x ∧ x + t.size ≤ a + total ts := by
  induction ts generalizing a with
  | nil => simp [place] at h
  | cons u ts ih =>
    simp only [place, total, List.mem_cons, Prod.mk.injEq] at h ⊢
    obtain ⟨rfl, rfl⟩ | h := h
    · omega
    · have := ih h
      omega

theorem mem_frees : x ∈ frees a ts ↔ ∃ t, (x, t) ∈ place a ts ∧ t.free = true := by
  induction ts generalizing a with
  | nil => simp [frees, place]
  | cons u ts ih =>
    simp only [frees, place, List.mem_cons, Prod.mk.injEq]
    split
    case isTrue free =>
      rw [List.mem_cons, ih]
      constructor
      · rintro (rfl | ⟨t, h, ht⟩)
        · exact ⟨u, Or.inl ⟨rfl, rfl⟩, free⟩
        · exact ⟨t, Or.inr h, ht⟩
      · rintro ⟨t, ⟨rfl, rfl⟩ | h, ht⟩
        · exact Or.inl rfl
        · exact Or.inr ⟨t, h, ht⟩
    case isFalse used =>
      rw [ih]
      constructor
      · rintro ⟨t, h, ht⟩
        exact ⟨t, Or.inr h, ht⟩
      · rintro ⟨t, ⟨rfl, rfl⟩ | h, ht⟩
        · exact absurd ht used
        · exact ⟨t, h, ht⟩

/-- Two tiles have nothing in common: the earlier ends before the later begins. -/
theorem place_pairwise (a : Nat) (ts : List Tile) : (place a ts).Pairwise fun p q => p.1 + p.2.size ≤ q.1 := by
  induction ts generalizing a with
  | nil => exact List.Pairwise.nil
  | cons t ts ih =>
    refine List.Pairwise.cons ?_ (ih _)
    rintro ⟨x, u⟩ h
    exact (place_bounds h).1

/-- A used tile of this place and size. -/
def Used (a : Nat) (ts : List Tile) (x n : Nat) : Prop := (x, ⟨n, false⟩) ∈ place a ts

/-- Every tile has a size, and `d` divides it. -/
def Sized (d : Nat) (ts : List Tile) : Prop := ∀ t ∈ ts, 0 < t.size ∧ d ∣ t.size

variable {d n need least : Nat}

theorem used_cons : Used a (t :: ts) x n ↔ x = a ∧ t = ⟨n, false⟩ ∨ Used (a + t.size) ts x n := by
  simp only [Used, place, List.mem_cons, Prod.mk.injEq]
  rw [eq_comm (a := t)]

theorem Used.bounds (used : Used a ts x n) : a ≤ x ∧ x + n ≤ a + total ts := place_bounds used

theorem Sized.tail (sized : Sized d (t :: ts)) : Sized d ts := fun u hu => sized u (List.mem_cons_of_mem _ hu)

theorem Sized.append : Sized d (ts ++ us) ↔ Sized d ts ∧ Sized d us := by
  simp only [Sized, List.mem_append]
  constructor
  · exact fun h => ⟨fun t ht => h t (Or.inl ht), fun t ht => h t (Or.inr ht)⟩
  · rintro ⟨left, right⟩ t (ht | ht)
    · exact left t ht
    · exact right t ht

theorem Merged.tail (merged : Merged (t :: ts)) : Merged ts := by
  cases ts with
  | nil => trivial
  | cons u ts => exact merged.2

theorem merged_cons_used {n : Nat} (merged : Merged ts) : Merged (⟨n, false⟩ :: ts) := by
  cases ts with
  | nil => trivial
  | cons t ts => exact ⟨by simp, merged⟩

/-- What stands before a tile may stand before another that is free only if that one was. -/
theorem Merged.replace {t' : Tile} {vs : List Tile} (merged : Merged (ts ++ t :: us))
    (noFreer : t'.free = true → t.free = true) (rest : Merged (t' :: vs)) : Merged (ts ++ t' :: vs) := by
  induction ts with
  | nil => exact rest
  | cons s ts ih =>
    cases ts with
    | nil => exact ⟨fun both => merged.1 ⟨both.1, noFreer both.2⟩, rest⟩
    | cons s' ts => exact ⟨merged.1, ih merged.tail⟩

/-- Every place is a multiple of what divides all sizes. -/
theorem Sized.aligned (sized : Sized d ts) (start : d ∣ a) (h : (x, t) ∈ place a ts) : d ∣ x := by
  induction ts generalizing a with
  | nil => simp [place] at h
  | cons u ts ih =>
    simp only [place, List.mem_cons, Prod.mk.injEq] at h
    obtain ⟨rfl, -⟩ | h := h
    · exact start
    · exact ih sized.tail (Nat.dvd_add start (sized u List.mem_cons_self).2) h

/-! ## Joining -/

theorem total_join : total (join s ts) = s.size + total ts := by
  cases ts with
  | nil => rfl
  | cons t ts =>
    rw [join]
    split
    · simp only [total]
      omega
    · rfl

theorem freeTotal_join : freeTotal (join s ts) = freeTotal (s :: ts) := by
  cases ts with
  | nil => rfl
  | cons t ts =>
    rw [join]
    split
    case isTrue both =>
      simp only [freeTotal, both.1, both.2, if_true]
      omega
    case isFalse => rfl

/-- Joining is about free tiles only. -/
theorem used_join : Used a (join s ts) x n ↔ Used a (s :: ts) x n := by
  cases ts with
  | nil => rfl
  | cons t ts =>
    rw [join]
    split
    case isTrue both =>
      obtain ⟨m, f⟩ := s
      obtain ⟨m', f'⟩ := t
      obtain ⟨rfl, rfl⟩ := both
      simp [used_cons, Nat.add_assoc]
    case isFalse => rfl

theorem merged_join (merged : Merged ts) : Merged (join s ts) := by
  cases ts with
  | nil => trivial
  | cons t ts =>
    rw [join]
    split
    case isTrue both =>
      cases ts with
      | nil => trivial
      | cons u ts => exact ⟨fun h => merged.1 ⟨both.2, h.2⟩, merged.2⟩
    case isFalse apart => exact ⟨apart, merged⟩

theorem sized_join (sized : Sized d (s :: ts)) : Sized d (join s ts) := by
  cases ts with
  | nil => exact sized
  | cons t ts =>
    rw [join]
    split
    case isTrue =>
      have first := sized s List.mem_cons_self
      have second := sized t (by simp)
      intro u hu
      obtain rfl | hu := List.mem_cons.mp hu
      · exact ⟨by dsimp only; omega, Nat.dvd_add first.2 second.2⟩
      · exact sized u (by simp [hu])
    case isFalse => exact sized

theorem join_join {m : Nat} : join ⟨m, true⟩ (join ⟨n, true⟩ ts) = join ⟨m + n, true⟩ ts := by
  cases ts with
  | nil => rfl
  | cons t ts =>
    by_cases free : t.free = true <;> simp [join, free, Nat.add_assoc]

theorem join_head (n : Nat) (ts : List Tile) : ∃ m us, join ⟨n, true⟩ ts = ⟨m, true⟩ :: us := by
  cases ts with
  | nil => exact ⟨_, _, rfl⟩
  | cons t ts =>
    rw [join]
    split
    · exact ⟨_, _, rfl⟩
    · exact ⟨_, _, rfl⟩

/-- Where no neighbours are free there is nothing to join. -/
theorem foldr_join (merged : Merged (ts ++ us)) : ts.foldr join us = ts ++ us := by
  induction ts with
  | nil => rfl
  | cons t ts ih =>
    rw [List.foldr_cons, ih merged.tail]
    cases h : ts ++ us with
    | nil =>
      obtain ⟨rfl, rfl⟩ := List.append_eq_nil_iff.mp h
      rfl
    | cons u rest =>
      rw [List.cons_append, h] at merged ⊢
      rw [join, if_neg merged.1]

/-! ## Giving back -/

theorem total_release : total (release b a ts) = total ts := by
  induction ts generalizing a with
  | nil => rfl
  | cons t ts ih =>
    unfold release
    split
    · exact total_join
    · rw [total_join, ih, total]

theorem merged_release (merged : Merged ts) : Merged (release b a ts) := by
  induction ts generalizing a with
  | nil => trivial
  | cons t ts ih =>
    unfold release
    split
    · exact merged_join merged.tail
    · exact merged_join (ih merged.tail)

theorem sized_release (sized : Sized d ts) : Sized d (release b a ts) := by
  induction ts generalizing a with
  | nil => exact sized
  | cons t ts ih =>
    have first := sized t List.mem_cons_self
    have rest : ∀ {vs : List Tile} {f : Bool}, Sized d vs → Sized d (⟨t.size, f⟩ :: vs) := by
      intro vs f h u hu
      obtain rfl | hu := List.mem_cons.mp hu
      · exact first
      · exact h u hu
    unfold release
    split
    · exact sized_join (rest sized.tail)
    · exact sized_join (rest (ih sized.tail))

/-- The other used tiles stay. -/
theorem used_release (sized : Sized d ts) : Used a (release b a ts) x n ↔ Used a ts x n ∧ x ≠ b := by
  induction ts generalizing a with
  | nil => simp [release, Used, place]
  | cons t ts ih =>
    have some' := (sized t List.mem_cons_self).1
    unfold release
    split
    case isTrue here =>
      subst here
      rw [used_join, used_cons, used_cons]
      constructor
      · rintro (⟨-, h⟩ | later)
        · cases h
        · have within := later.bounds
          dsimp only at within
          exact ⟨Or.inr later, by omega⟩
      · rintro ⟨⟨rfl, -⟩ | later, other⟩
        · exact absurd rfl other
        · exact Or.inr later
    case isFalse elsewhere =>
      rw [used_join, used_cons, used_cons, ih sized.tail]
      constructor
      · rintro (⟨rfl, h⟩ | ⟨later, other⟩)
        · exact ⟨Or.inl ⟨rfl, h⟩, elsewhere⟩
        · exact ⟨Or.inr later, other⟩
      · rintro ⟨here | later, other⟩
        · exact Or.inl here
        · exact Or.inr ⟨later, other⟩

theorem freeTotal_release (sized : Sized d ts) (used : Used a ts b n) :
    freeTotal (release b a ts) = freeTotal ts + n := by
  induction ts generalizing a with
  | nil => simp [Used, place] at used
  | cons t ts ih =>
    have some' := (sized t List.mem_cons_self).1
    unfold release
    split
    case isTrue here =>
      subst here
      obtain ⟨-, rfl⟩ | later := used_cons.mp used
      · rw [freeTotal_join]
        simp [freeTotal, Nat.add_comm]
      · have := later.bounds
        omega
    case isFalse elsewhere =>
      obtain ⟨here, -⟩ | later := used_cons.mp used
      · exact absurd here.symm elsewhere
      · rw [freeTotal_join, freeTotal, freeTotal, ih sized.tail later, Nat.add_assoc]

/-- Giving back, where the tile is seen among the others. -/
theorem release_split (sized : Sized d ts) :
    release (a + total ts) a (ts ++ t :: us) = ts.foldr join (join ⟨t.size, true⟩ us) := by
  induction ts generalizing a with
  | nil => simp [release, total]
  | cons s ts ih =>
    have some' := (sized s List.mem_cons_self).1
    have far : a ≠ a + (s.size + total ts) := by omega
    rw [List.cons_append, release, total, if_neg far, List.foldr_cons, ← Nat.add_assoc, ih sized.tail]

/-- Given back after a tile that is not free, it is joined with what follows only. -/
theorem release_apart (sized : Sized d ts) (apart : Merged (ts ++ join ⟨t.size, true⟩ us)) :
    release (a + total ts) a (ts ++ t :: us) = ts ++ join ⟨t.size, true⟩ us :=
  (release_split sized).trans (foldr_join apart)

/-- Given back after a free tile, it is joined with that too. -/
theorem release_joined (sized : Sized d (ts ++ [⟨n, true⟩])) {vs : List Tile} (merged : Merged (ts ++ ⟨n, true⟩ :: vs))
    (rest : Merged us) :
    release (a + total (ts ++ [⟨n, true⟩])) a (ts ++ [⟨n, true⟩] ++ t :: us) =
      ts ++ join ⟨n + t.size, true⟩ us := by
  have joined : Merged (ts ++ join ⟨n + t.size, true⟩ us) := by
    obtain ⟨m, us', head⟩ := join_head (n + t.size) us
    rw [head]
    exact merged.replace (fun _ => rfl) (head ▸ merged_join rest)
  rw [release_split sized, List.foldr_append, List.foldr_cons, List.foldr_nil, join_join, foldr_join joined]

/-! ## Taking -/

/-- What a tile becomes that is taken, and the free rest of it. -/
def cut (need least : Nat) (t : Tile) (us : List Tile) : List Tile :=
  if least < t.size - need then ⟨need, false⟩ :: join ⟨t.size - need, true⟩ us else ⟨t.size, false⟩ :: us

/-- How much of it is taken. -/
def given (need least : Nat) (t : Tile) : Nat := if least < t.size - need then need else t.size

/-- Taking finds the first that is long enough, and cuts it. -/
theorem take_eq (h : take need least a ts = some (b, us)) :
    ∃ pre t post, ts = pre ++ t :: post ∧ b = a + total pre ∧ us = pre ++ cut need least t post ∧
      t.free = true ∧ need ≤ t.size ∧ ∀ s ∈ pre, s.free = true → s.size < need := by
  induction ts generalizing a b us with
  | nil => simp [take] at h
  | cons t ts ih =>
    rw [take] at h
    split at h
    case isTrue fits =>
      refine ⟨[], t, ts, rfl, ?_, ?_, fits.1, fits.2, by simp⟩
      · split at h <;> cases h <;> rfl
      · rw [cut]
        split at h <;> cases h
        · rw [if_pos ‹_›]
          rfl
        · rw [if_neg ‹_›]
          rfl
    case isFalse tooShort =>
      obtain ⟨⟨b', us'⟩, later, h⟩ := Option.map_eq_some_iff.mp h
      cases h
      obtain ⟨pre, t', post, rfl, rfl, rfl, free, fits, short⟩ := ih later
      refine ⟨t :: pre, t', post, rfl, by simp [total, Nat.add_assoc], rfl, free, fits, ?_⟩
      intro s hs hfree
      obtain rfl | hs := List.mem_cons.mp hs
      · exact Nat.lt_of_not_le fun le => tooShort ⟨hfree, le⟩
      · exact short s hs hfree

/-- Nothing is taken exactly where no free tile is long enough. -/
theorem take_none : take need least a ts = none ↔ ∀ t ∈ ts, t.free = true → t.size < need := by
  induction ts generalizing a with
  | nil => simp [take]
  | cons t ts ih =>
    rw [take]
    split
    case isTrue fits =>
      refine iff_of_false (by split <;> simp) ?_
      intro short
      have := short t List.mem_cons_self fits.1
      omega
    case isFalse tooShort =>
      rw [Option.map_eq_none_iff, ih, List.forall_mem_cons]
      constructor
      · exact fun rest => ⟨fun free => Nat.lt_of_not_le fun le => tooShort ⟨free, le⟩, rest⟩
      · exact And.right

theorem total_cut (fits : need ≤ t.size) : total (cut need least t us) = t.size + total us := by
  rw [cut]
  split
  · rw [total, total_join]
    dsimp only
    omega
  · rfl

theorem freeTotal_cut (free : t.free = true) (fits : need ≤ t.size) :
    freeTotal (cut need least t us) + given need least t = freeTotal (t :: us) := by
  rw [cut, given]
  split
  · simp only [freeTotal, freeTotal_join, free, Bool.false_eq_true, if_true, if_false]
    omega
  · simp only [freeTotal, free, Bool.false_eq_true, if_true, if_false]
    omega

theorem used_cut (free : t.free = true) (fits : need ≤ t.size) :
    Used a (cut need least t us) x n ↔ x = a ∧ n = given need least t ∨ Used a (t :: us) x n := by
  obtain ⟨m, f⟩ := t
  obtain rfl : f = true := free
  dsimp only at fits
  rw [cut, given]
  split
  · have same : a + need + (m - need) = a + m := by omega
    rw [used_cons, used_join, used_cons, used_cons]
    simp [same, eq_comm]
  · rw [used_cons, used_cons]
    simp [eq_comm]

theorem merged_cut (merged : Merged (t :: us)) : Merged (cut need least t us) := by
  rw [cut]
  split
  · exact merged_cons_used (merged_join merged.tail)
  · exact merged_cons_used merged.tail

theorem sized_cut (sized : Sized d (t :: us)) (some' : 0 < need) (divides : d ∣ need) :
    Sized d (cut need least t us) := by
  have first := sized t List.mem_cons_self
  rw [cut]
  split
  case isTrue long =>
    have rest : Sized d (⟨t.size - need, true⟩ :: us) := by
      intro u hu
      obtain rfl | hu := List.mem_cons.mp hu
      · exact ⟨by dsimp only; omega, Nat.dvd_sub first.2 divides⟩
      · exact sized.tail u hu
    intro u hu
    obtain rfl | hu := List.mem_cons.mp hu
    · exact ⟨some', divides⟩
    · exact sized_join rest u hu
  case isFalse =>
    intro u hu
    obtain rfl | hu := List.mem_cons.mp hu
    · exact first
    · exact sized.tail u hu

theorem cut_head (need least : Nat) (t : Tile) (us : List Tile) : ∃ n rest, cut need least t us = ⟨n, false⟩ :: rest := by
  rw [cut]
  split
  · exact ⟨_, _, rfl⟩
  · exact ⟨_, _, rfl⟩

theorem used_append : Used a (ts ++ us) x n ↔ Used a ts x n ∨ Used (a + total ts) us x n := by
  rw [Used, place_append, List.mem_append]
  rfl

theorem Merged.drop (merged : Merged (ts ++ us)) : Merged us := by
  induction ts with
  | nil => exact merged
  | cons t ts ih => exact ih merged.tail

/-- What taking does to the tiles `ts` from `a` on: `n` at `b` are used now. -/
structure Taken (d need least a : Nat) (ts : List Tile) (b n : Nat) (us : List Tile) : Prop where
  total : total us = total ts
  merged : Merged us
  sized : Sized d us
  enough : need ≤ n
  exact : n ≤ need + least
  free : freeTotal us + n = freeTotal ts
  used : ∀ x m, Used a us x m ↔ x = b ∧ m = n ∨ Used a ts x m

theorem taken_of_take (merged : Merged ts) (sized : Sized d ts) (some' : 0 < need) (divides : d ∣ need)
    (h : take need least a ts = some (b, us)) : ∃ n, Taken d need least a ts b n us := by
  obtain ⟨pre, t, post, rfl, rfl, rfl, free, fits, -⟩ := take_eq h
  obtain ⟨left, right⟩ := Sized.append.mp sized
  obtain ⟨n, rest, head⟩ := cut_head need least t post
  refine ⟨given need least t, ?_, ?_, ?_, ?_, ?_, ?_, ?_⟩
  · rw [total_append, total_append, total_cut fits, total]
  · rw [head]
    exact merged.replace (fun free => Bool.noConfusion free) (head ▸ merged_cut merged.drop)
  · exact Sized.append.mpr ⟨left, sized_cut right some' divides⟩
  · rw [given]
    split <;> omega
  · rw [given]
    split <;> omega
  · rw [freeTotal_append, freeTotal_append, Nat.add_assoc, freeTotal_cut free fits]
  · intro x m
    rw [used_append, used_append, used_cut free fits]
    tauto

/-! ## Free bytes -/

/-- With nothing used all is one free tile. -/
theorem solitary (merged : Merged ts) (unused : ∀ x n, ¬ Used a ts x n) : ts = [] ∨ ts = [⟨total ts, true⟩] := by
  have free : ∀ {a : Nat} {t : Tile} {us : List Tile}, (∀ x n, ¬ Used a (t :: us) x n) → t.free = true := by
    intro a t us unused
    obtain ⟨n, f⟩ := t
    cases f with
    | true => rfl
    | false => exact absurd (used_cons.mpr (Or.inl ⟨rfl, rfl⟩)) (unused a n)
  cases ts with
  | nil => exact Or.inl rfl
  | cons t ts =>
    have first := free unused
    cases ts with
    | nil =>
      obtain ⟨n, f⟩ := t
      obtain rfl : f = true := first
      exact Or.inr rfl
    | cons u us =>
      have second := free fun x n h => unused x n (used_cons.mpr (Or.inr h))
      exact absurd ⟨first, second⟩ merged.1

/-- Bytes none of which is used and that lie together lie in one free tile. -/
theorem stretch_in_tile (merged : Merged ts) (sized : Sized d ts) {c len : Nat} (some' : 0 < len) (from' : a ≤ c)
    (upto : c + len ≤ a + total ts)
    (unused : ∀ x n, Used a ts x n → ∀ y, c ≤ y → y < c + len → ¬ (x ≤ y ∧ y < x + n)) :
    ∃ t ∈ ts, t.free = true ∧ len ≤ t.size := by
  induction ts generalizing a with
  | nil =>
    simp only [total] at upto
    omega
  | cons t ts ih =>
    simp only [total] at upto
    have later : ∀ x n, Used (a + t.size) ts x n → ∀ y, c ≤ y → y < c + len → ¬ (x ≤ y ∧ y < x + n) :=
      fun x n h => unused x n (used_cons.mpr (Or.inr h))
    by_cases beyond : a + t.size ≤ c
    · obtain ⟨u, hu, fits⟩ := ih merged.tail sized.tail beyond (by omega) later
      exact ⟨u, List.mem_cons_of_mem _ hu, fits⟩
    · have free : t.free = true := by
        obtain ⟨n, f⟩ := t
        cases f with
        | true => rfl
        | false =>
          have here := unused a n (used_cons.mpr (Or.inl ⟨rfl, rfl⟩)) c (Nat.le_refl c) (by omega)
          dsimp only at beyond
          exact absurd ⟨from', by omega⟩ here
      by_cases within : c + len ≤ a + t.size
      · exact ⟨t, List.mem_cons_self, free, by omega⟩
      · -- the stretch goes on into the next tile, which is used then
        cases ts with
        | nil =>
          simp only [total] at upto
          omega
        | cons u us =>
          have size := (sized u (by simp)).1
          obtain ⟨n, f⟩ := u
          cases f with
          | true => exact absurd ⟨free, rfl⟩ merged.1
          | false =>
            have next := later (a + t.size) n (used_cons.mpr (Or.inl ⟨rfl, rfl⟩)) (a + t.size)
            dsimp only at size
            exact absurd ⟨Nat.le_refl _, by omega⟩ (next (by omega) (by omega))

end Blinky.Tiling
