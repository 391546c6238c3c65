import Blinky.Kernel.ListRefine

/-!
# What a list call does

`Tidy` adds to `Valid` that an item is in the list it names. In tidy lists every
call succeeds where its item is free, or in a list, as the call needs; `Put` and
`Taken` say everything else a caller has to know.
-/

namespace Blinky.Kernel
set_option autoImplicit false
open Blinky.Circular

namespace Lists

variable {ι κ : Type}

structure Tidy (s : Lists ι κ) : Prop where
  valid : s.Valid
  exact : ∀ i l, s.container i = some l → i ∈ s.members l

theorem Tidy.mem_iff {s : Lists ι κ} (tidy : s.Tidy) {i : ι} {l : κ} :
    i ∈ s.members l ↔ s.container i = some l :=
  ⟨tidy.valid.contained l i, tidy.exact i l⟩

theorem isSome_of_mem {s : Lists ι κ} {i : ι} {l : κ} (h : i ∈ s.members l) :
    ∃ c, s.list l = some c ∧ i ∈ c.toList := by
  cases hc : s.list l with
  | none =>
    simp only [members, hc] at h
    cases h
  | some c => exact ⟨c, rfl, by rw [← members_eq hc]; exact h⟩

theorem made_update [DecidableEq κ] {list : κ → Option (Cursor ι)} {l : κ} {c c' : Cursor ι} (hc : list l = some c) (k : κ) :
    (Function.update list l (some c') k).isSome = (list k).isSome := by
  by_cases hk : k = l
  · rw [hk, Function.update_self, hc]
    rfl
  · rw [Function.update_of_ne hk]

/-- Advancing a list's cursor moves nothing. -/
theorem Tidy.next [DecidableEq κ] {s : Lists ι κ} (tidy : s.Tidy) {l : κ} {c : Cursor ι} (hc : s.list l = some c) :
    ∃ s', s.next l = some s' ∧ s'.Tidy ∧ s'.container = s.container ∧ s'.value = s.value ∧
      (∀ k, s'.members k = s.members k) ∧ (∀ k, (s'.list k).isSome = (s.list k).isSome) ∧
      s'.list l = some c.advance ∧ ∀ k, k ≠ l → s'.list k = s.list k := by
  let s' : Lists ι κ := { s with list := Function.update s.list l (some c.advance) }
  have same : ∀ k, s'.members k = s.members k := by
    intro k
    by_cases hk : k = l
    · rw [hk, members_update_self, Cursor.toList_advance, members_eq hc]
    · exact members_update_of_ne hk ..
  refine ⟨s', by rw [Lists.next, hc]; rfl, ⟨⟨?_, ?_⟩, ?_⟩, rfl, rfl, same, made_update hc,
    Function.update_self .., fun k ne => Function.update_of_ne ne ..⟩
  · intro k
    rw [same]
    exact tidy.valid.distinct k
  · intro k j hj
    rw [same] at hj
    exact tidy.valid.contained k j hj
  · intro j k hj
    rw [same]
    exact tidy.exact j k hj

variable [DecidableEq ι]

theorem Tidy.setValue {s : Lists ι κ} (tidy : s.Tidy) (i : ι) (v : TickType) : (s.setValue i v).Tidy :=
  ⟨⟨tidy.valid.distinct, tidy.valid.contained⟩, tidy.exact⟩

@[simp] theorem setValue_container (s : Lists ι κ) (i : ι) (v : TickType) :
    (s.setValue i v).container = s.container := rfl

@[simp] theorem setValue_members (s : Lists ι κ) (i : ι) (v : TickType) (l : κ) :
    (s.setValue i v).members l = s.members l := rfl

@[simp] theorem setValue_list (s : Lists ι κ) (i : ι) (v : TickType) :
    (s.setValue i v).list = s.list := rfl

theorem setValue_value_of_ne {s : Lists ι κ} {i j : ι} (ne : j ≠ i) (v : TickType) :
    (s.setValue i v).value j = s.value j := Function.update_of_ne ne ..

/-- An item that is in no list may be initialised again. -/
theorem Tidy.initialiseItem {s : Lists ι κ} (_ : s.Tidy) {i : ι} (free : s.container i = none) :
    s.initialiseItem i = some s := by
  have same : Function.update s.container i none = s.container := by
    rw [← free]
    exact Function.update_eq_self i s.container
  simp [Lists.initialiseItem, isContained, free, same]

variable [DecidableEq κ]

/-- `s'` is `s` with the free item `i` in the list `l`. -/
structure Put (s s' : Lists ι κ) (l : κ) (i : ι) : Prop where
  tidy : s'.Tidy
  container : s'.container = Function.update s.container i (some l)
  value : s'.value = s.value
  perm : (s'.members l).Perm (i :: s.members l)
  elsewhere : ∀ k, k ≠ l → s'.list k = s.list k
  made : ∀ k, (s'.list k).isSome = (s.list k).isSome

/-- `s'` is `s` with the item `i` out of the list `l`. -/
structure Taken (s s' : Lists ι κ) (l : κ) (i : ι) : Prop where
  tidy : s'.Tidy
  container : s'.container = Function.update s.container i none
  value : s'.value = s.value
  left : s'.members l = (s.members l).erase i
  here : ∀ c, s.list l = some c → s'.list l = some (c.remove i)
  elsewhere : ∀ k, k ≠ l → s'.list k = s.list k
  made : ∀ k, (s'.list k).isSome = (s.list k).isSome

omit [DecidableEq ι] [DecidableEq κ] in
theorem members_congr {s s' : Lists ι κ} {k : κ} (h : s'.list k = s.list k) : s'.members k = s.members k := by
  rw [members, members, h]

omit [DecidableEq κ] in
theorem Put.others {s s' : Lists ι κ} {l : κ} {i : ι} (put : Put s s' l i) (k : κ) (ne : k ≠ l) :
    s'.members k = s.members k :=
  members_congr (put.elsewhere k ne)

omit [DecidableEq κ] in
theorem Taken.others {s s' : Lists ι κ} {l : κ} {i : ι} (taken : Taken s s' l i) (k : κ) (ne : k ≠ l) :
    s'.members k = s.members k :=
  members_congr (taken.elsewhere k ne)

theorem Tidy.place {s : Lists ι κ} (tidy : s.Tidy) {l : κ} {i : ι} {c c' : Cursor ι}
    (hc : s.list l = some c) (free : s.container i = none) (added : c'.toList.Perm (i :: c.toList)) :
    Put s (s.place l i c') l i := by
  have here : (s.place l i c').members l = c'.toList := members_update_self s l c' _ _
  have elsewhere : ∀ k, k ≠ l → (s.place l i c').members k = s.members k :=
    fun k ne => members_update_of_ne ne ..
  refine ⟨⟨tidy.valid.place hc free added, ?_⟩, rfl, rfl, ?_, fun k ne => Function.update_of_ne ne ..,
    made_update hc⟩
  · intro j k hj
    by_cases hk : k = l
    · subst hk
      rw [here, added.mem_iff, ← members_eq hc, List.mem_cons]
      by_cases hi : j = i
      · exact Or.inl hi
      · simp only [Lists.place, Function.update_of_ne hi] at hj
        exact Or.inr (tidy.exact j k hj)
    · rw [elsewhere k hk]
      apply tidy.exact j k
      by_cases hi : j = i
      · subst hi
        simp only [Lists.place, Function.update_self, Option.some.injEq] at hj
        exact absurd hj.symm hk
      · simpa only [Lists.place, Function.update_of_ne hi] using hj
  · rw [here, members_eq hc]
    exact added

theorem Tidy.insertEnd {s : Lists ι κ} (tidy : s.Tidy) {l : κ} {i : ι} (made : (s.list l).isSome)
    (free : s.container i = none) :
    ∃ s', s.insertEnd l i = some s' ∧ Put s s' l i ∧
      ∀ c, s.list l = some c → s'.list l = some (c.insertLast i) := by
  obtain ⟨c, hc⟩ := Option.isSome_iff_exists.mp made
  refine ⟨s.place l i (c.insertLast i), ?_, tidy.place hc free (Cursor.perm_insertLast i c), ?_⟩
  · rw [Lists.insertEnd, hc, free]
  · intro d hd
    obtain rfl := Option.some.inj (hc.symm.trans hd)
    exact Function.update_self ..

theorem Tidy.insert {s : Lists ι κ} (tidy : s.Tidy) {l : κ} {i : ι} (made : (s.list l).isSome)
    (free : s.container i = none) :
    ∃ s', s.insert l i = some s' ∧ Put s s' l i ∧
      s'.members l = (s.members l).takeWhile (fun j => s.value j ≤ s.value i) ++
        i :: (s.members l).dropWhile (fun j => s.value j ≤ s.value i) := by
  obtain ⟨c, hc⟩ := Option.isSome_iff_exists.mp made
  refine ⟨s.place l i (c.insertAfterWhile (fun j => s.value j ≤ s.value i) i), ?_,
    tidy.place hc free (Cursor.perm_insertAfterWhile _ i c), ?_⟩
  · rw [Lists.insert, hc, free]
  · rw [Lists.place, members_update_self, Cursor.toList_insertAfterWhile, members_eq hc]

theorem Tidy.remove {s : Lists ι κ} (tidy : s.Tidy) {l : κ} {i : ι} (h : s.container i = some l) :
    ∃ s', s.remove i = some s' ∧ Taken s s' l i := by
  obtain ⟨c, hc, mem⟩ := isSome_of_mem (tidy.exact i l h)
  have distinct : c.toList.Nodup := by
    rw [← members_eq hc]
    exact tidy.valid.distinct l
  let s' : Lists ι κ :=
    { s with
      list := Function.update s.list l (some (c.remove i))
      container := Function.update s.container i none }
  have here : s'.members l = (s.members l).erase i := by
    rw [members_update_self, members_eq hc, Cursor.toList_remove distinct]
  have elsewhere : ∀ k, k ≠ l → s'.members k = s.members k := fun k ne => members_update_of_ne ne ..
  refine ⟨s', ?_, ⟨tidy.valid.removed hc mem, ?_⟩, rfl, rfl, here, ?_, fun k ne => Function.update_of_ne ne ..,
    made_update hc⟩
  · rw [Lists.remove, h]
    simp only [hc, if_pos mem]
    rfl
  · intro j k hj
    have ne : j ≠ i := by
      rintro rfl
      simp [s'] at hj
    have before : j ∈ s.members k := by
      apply tidy.exact j k
      simpa only [s', Function.update_of_ne ne] using hj
    by_cases hk : k = l
    · subst hk
      rw [here]
      exact (List.mem_erase_of_ne ne).mpr before
    · rw [elsewhere k hk]
      exact before
  · intro d hd
    obtain rfl := Option.some.inj (hc.symm.trans hd)
    exact Function.update_self ..

end Lists

end Blinky.Kernel
