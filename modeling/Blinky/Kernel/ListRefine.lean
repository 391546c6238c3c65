import Blinky.Kernel.List
import Mathlib.Data.List.TakeWhile

namespace Blinky.Kernel
set_option autoImplicit false
open Blinky.Circular

variable {ι κ : Type}

/-! ## The abstract lists stay valid -/

namespace Lists

theorem members_eq {s : Lists ι κ} {l : κ} {c : Cursor ι} (h : s.list l = some c) :
    s.members l = c.toList := by
  simp [members, h]

theorem Valid.outside {s : Lists ι κ} (valid : s.Valid) {i : ι} (free : s.container i = none) (l : κ) :
    i ∉ s.members l := by
  intro h
  rw [valid.contained l i h] at free
  cases free

/-- An item is a member of one list only. -/
theorem Valid.apart {s : Lists ι κ} (valid : s.Valid) {l k : κ} {i : ι} (hl : i ∈ s.members l)
    (hk : i ∈ s.members k) : l = k := by
  have h := valid.contained l i hl
  rw [valid.contained k i hk] at h
  exact (Option.some.inj h).symm

variable [DecidableEq κ]

@[simp] theorem members_update_self (s : Lists ι κ) (l : κ) (c : Cursor ι) (container : ι → Option κ)
    (value : ι → TickType) :
    (Lists.mk (Function.update s.list l (some c)) container value).members l = c.toList := by
  simp [members]

theorem members_update_of_ne {s : Lists ι κ} {l k : κ} (ne : k ≠ l) (c : Cursor ι)
    (container : ι → Option κ) (value : ι → TickType) :
    (Lists.mk (Function.update s.list l (some c)) container value).members k = s.members k := by
  simp [members, Function.update_of_ne ne]

variable [DecidableEq ι]

theorem Valid.place {s : Lists ι κ} (valid : s.Valid) {l : κ} {i : ι} {c c' : Cursor ι}
    (hc : s.list l = some c) (free : s.container i = none) (added : c'.toList.Perm (i :: c.toList)) :
    (s.place l i c').Valid := by
  have fresh : i ∉ c.toList := by
    rw [← members_eq hc]
    exact valid.outside free l
  have distinct : c.toList.Nodup := by
    rw [← members_eq hc]
    exact valid.distinct l
  constructor
  · intro k
    by_cases hk : k = l
    · rw [hk, Lists.place, members_update_self]
      exact added.nodup_iff.mpr (List.nodup_cons.mpr ⟨fresh, distinct⟩)
    · rw [Lists.place, members_update_of_ne hk]
      exact valid.distinct k
  · intro k j hj
    by_cases hk : k = l
    · rw [hk, Lists.place, members_update_self, added.mem_iff, List.mem_cons] at hj
      by_cases hi : j = i
      · simp [Lists.place, hi, hk]
      · have mem : j ∈ s.members l := by
          rw [members_eq hc]
          exact hj.resolve_left hi
        simp only [Lists.place, Function.update_of_ne hi, hk]
        exact valid.contained l j mem
    · rw [Lists.place, members_update_of_ne hk] at hj
      have hi : j ≠ i := fun h => valid.outside free k (h ▸ hj)
      simp only [Lists.place, Function.update_of_ne hi]
      exact valid.contained k j hj

theorem Valid.removed {s : Lists ι κ} (valid : s.Valid) {l : κ} {i : ι} {c : Cursor ι}
    (hc : s.list l = some c) (mem : i ∈ c.toList) :
    Valid { s with
      list := Function.update s.list l (some (c.remove i))
      container := Function.update s.container i none } := by
  have distinct : c.toList.Nodup := by
    rw [← members_eq hc]
    exact valid.distinct l
  have left : (c.remove i).toList = c.toList.erase i := Cursor.toList_remove distinct
  constructor
  · intro k
    by_cases hk : k = l
    · rw [hk, members_update_self, left]
      exact distinct.erase i
    · rw [members_update_of_ne hk]
      exact valid.distinct k
  · intro k j hj
    by_cases hk : k = l
    · rw [hk, members_update_self, left, distinct.mem_erase_iff] at hj
      have mem : j ∈ s.members l := by
        rw [members_eq hc]
        exact hj.2
      simp only [Function.update_of_ne hj.1, hk]
      exact valid.contained l j mem
    · rw [members_update_of_ne hk] at hj
      have hi : j ≠ i := by
        rintro rfl
        exact hk (valid.apart hj (by rw [members_eq hc]; exact mem))
      simp only [Function.update_of_ne hi]
      exact valid.contained k j hj

end Lists

/-! ## The pointers follow -/

/-- After one list's cursor has been replaced: that list, or another one as it was. -/
theorem update_cases [DecidableEq κ] {list : κ → Option (Cursor ι)} {l k : κ} {c d : Cursor ι}
    (h : Function.update list l (some c) k = some d) : k = l ∧ d = c ∨ k ≠ l ∧ list k = some d := by
  by_cases hk : k = l
  · subst hk
    rw [Function.update_self, Option.some.injEq] at h
    exact Or.inl ⟨rfl, h.symm⟩
  · rw [Function.update_of_ne hk] at h
    exact Or.inr ⟨hk, h⟩

theorem listEnd_ne_item (l : κ) (i : ι) : ItemPtr.listEnd l ≠ .item i := nofun

/-- The node under the cursor of `l`. -/
def cursorNode (l : κ) : Option ι → ItemPtr ι κ
  | some i => .item i
  | none => .listEnd l

/-- What the cursor has passed ends at the node under it. -/
theorem cursorNode_last (l : κ) (passed : List ι) :
    ItemPtr.listEnd l :: passed.reverse.map .item =
      (ItemPtr.listEnd l :: passed.reverse.map .item).dropLast ++ [cursorNode l passed.head?] := by
  cases passed with
  | nil => rfl
  | cons b passed =>
    rw [List.reverse_cons, List.map_append, List.map_singleton, ← List.cons_append, List.dropLast_concat]
    rfl

/-- What is ahead of it starts at the node after it. -/
theorem cursorNode_first (l : κ) (ahead : List ι) :
    ahead.map ItemPtr.item ++ [ItemPtr.listEnd l] =
      cursorNode l ahead.head? :: (ahead.map ItemPtr.item ++ [ItemPtr.listEnd l]).tail := by
  cases ahead <;> rfl

/-- The memory holds the lists. -/
structure Represents (m : ListMemory ι κ) (s : Lists ι κ) : Prop where
  valid : s.Valid
  ring : ∀ l c, s.list l = some c → Threads m.links (.listEnd l) (c.toList.map .item)
  count : ∀ l c, s.list l = some c → m.uxNumberOfItems l = c.toList.length
  index : ∀ l c, s.list l = some c → m.pxIndex l = cursorNode l c.at?
  marker : ∀ l c, s.list l = some c → m.xItemValue (.listEnd l) = portMAX_DELAY
  container : m.pvContainer = s.container
  value : ∀ i, m.xItemValue (.item i) = s.value i

theorem nodes_nodup {l : κ} {is : List ι} (distinct : is.Nodup) :
    (ItemPtr.listEnd l :: is.map .item).Nodup := by
  refine List.nodup_cons.mpr ⟨by simp, distinct.map ?_⟩
  intro i j h
  exact ItemPtr.item.inj h

namespace Represents

variable {m : ListMemory ι κ} {s : Lists ι κ}

theorem distinct (rep : Represents m s) {l : κ} {c : Cursor ι} (hc : s.list l = some c) :
    c.toList.Nodup := by
  rw [← Lists.members_eq hc]
  exact rep.valid.distinct l

/-- The rings of two lists share no node. -/
theorem apart (rep : Represents m s) {l k : κ} {c d : Cursor ι} (hc : s.list l = some c)
    (hd : s.list k = some d) (ne : k ≠ l) :
    ∀ z ∈ ItemPtr.listEnd k :: d.toList.map .item, z ∉ ItemPtr.listEnd l :: c.toList.map .item := by
  intro z hz hz'
  simp only [List.mem_cons, List.mem_map] at hz hz'
  obtain rfl | ⟨i, hi, rfl⟩ := hz
  · obtain h | ⟨j, _, h⟩ := hz'
    · exact ne (ItemPtr.listEnd.inj h)
    · cases h
  · obtain h | ⟨j, hj, h⟩ := hz'
    · cases h
    · cases h
      rw [← Lists.members_eq hc] at hj
      rw [← Lists.members_eq hd] at hi
      exact ne (rep.valid.apart hi hj)

/-- The rings of the other lists survive an edit of one ring and of a free node. -/
theorem ring_elsewhere (rep : Represents m s) {l k : κ} {c d : Cursor ι} {links : Links (ItemPtr ι κ)}
    (hc : s.list l = some c) (hd : s.list k = some d) (ne : k ≠ l)
    (same : ∀ z, z ∉ ItemPtr.listEnd l :: c.toList.map .item → z ∈ ItemPtr.listEnd k :: d.toList.map .item →
      links.next z = m.links.next z ∧ links.prev z = m.links.prev z) :
    Threads links (.listEnd k) (d.toList.map .item) := by
  apply (rep.ring k d hd).congr
  intro z hz
  exact same z (rep.apart hc hd ne z hz) hz

/-- Where a list is cut, the next node is the first of the rest, or the end marker. -/
theorem next_node (rep : Represents m s) {l : κ} {c : Cursor ι} (hc : s.list l = some c) {as bs : List ι}
    (split : c.toList = as ++ bs) {f : List (ItemPtr ι κ)} {x : ItemPtr ι κ}
    (front : .listEnd l :: as.map .item = f ++ [x]) : m.links.next x = cursorNode l bs.head? := by
  have ring := rep.ring l c hc
  rw [split, List.map_append] at ring
  exact ((threads_cut front (cursorNode_first l bs)).mp ring).2.1.1

theorem node_fresh (rep : Represents m s) {l : κ} {i : ι} {c : Cursor ι} (hc : s.list l = some c)
    (free : s.container i = none) : ItemPtr.item i ∉ ItemPtr.listEnd l :: c.toList.map .item := by
  intro h
  simp only [List.mem_cons, reduceCtorEq, false_or, List.mem_map, ItemPtr.item.injEq, exists_eq_right] at h
  exact rep.valid.outside free l (by rw [Lists.members_eq hc]; exact h)

/-- The loop of `vListInsert` stops after the last member that is not above the new
value; the end marker ends it at the latest. -/
theorem insertionPoint_spec (rep : Represents m s) {l : κ} {c : Cursor ι} (hc : s.list l = some c)
    {v : TickType} (below : v ≠ portMAX_DELAY) {as bs : List ι} (split : c.toList = as ++ bs)
    {f : List (ItemPtr ι κ)} {x : ItemPtr ι κ} (front : .listEnd l :: as.map .item = f ++ [x])
    (fuel : Nat) (enough : bs.length < fuel) :
    ∃ f' x', ItemPtr.listEnd l :: (as ++ bs.takeWhile (fun j => s.value j ≤ v)).map .item = f' ++ [x'] ∧
      m.insertionPoint v fuel x = some x' := by
  have next := rep.next_node hc split front
  induction bs generalizing as f x fuel with
  | nil =>
    obtain _ | fuel := fuel
    · simp at enough
    refine ⟨f, x, by simpa using front, ?_⟩
    rw [ListMemory.insertionPoint, next, List.head?_nil, cursorNode, rep.marker l c hc, if_neg]
    intro le
    exact below (BitVec.le_antisymm (by simp only [portMAX_DELAY]; bv_omega) le)
  | cons b bs ih =>
    obtain _ | fuel := fuel
    · simp at enough
    rw [ListMemory.insertionPoint, next, List.head?_cons, cursorNode, rep.value]
    by_cases le : s.value b ≤ v
    · have split' : c.toList = (as ++ [b]) ++ bs := by
        rw [split, List.append_assoc, List.singleton_append]
      have passed : ItemPtr.listEnd l :: (as ++ [b]).map .item = (f ++ [x]) ++ [ItemPtr.item b] := by
        rw [List.map_append, ← List.cons_append, front, List.map_singleton]
      obtain ⟨f', x', front', run⟩ :=
        ih split' passed fuel (Nat.lt_of_succ_lt_succ enough) (rep.next_node hc split' passed)
      refine ⟨f', x', ?_, ?_⟩
      · rw [← front', List.takeWhile_cons_of_pos (by simpa using le), List.append_assoc,
          List.singleton_append]
      · rw [if_pos le, run]
    · refine ⟨f, x, ?_, if_neg le⟩
      rw [List.takeWhile_cons_of_neg (by simpa using le), List.append_nil, front]

variable [DecidableEq ι] [DecidableEq κ]

/-- A free item linked into the ring of `l` where the new cursor has it. -/
theorem place (rep : Represents m s) {l : κ} {i : ι} {c c' : Cursor ι} (hc : s.list l = some c)
    (free : s.container i = none) (added : c'.toList.Perm (i :: c.toList)) (stays : c'.at? = c.at?)
    {links : Links (ItemPtr ι κ)} (ring : Threads links (.listEnd l) (c'.toList.map .item))
    (elsewhere : ∀ z, z ∉ ItemPtr.listEnd l :: c.toList.map .item → z ≠ .item i →
      links.next z = m.links.next z ∧ links.prev z = m.links.prev z) :
    Represents
      { m with
        links
        pvContainer := Function.update m.pvContainer i (some l)
        uxNumberOfItems := Function.update m.uxNumberOfItems l (m.uxNumberOfItems l + 1) }
      (s.place l i c') where
  valid := rep.valid.place hc free added
  ring := by
    intro k d hd
    obtain ⟨rfl, rfl⟩ | ⟨ne, hd⟩ := update_cases hd
    · exact ring
    · apply rep.ring_elsewhere hc hd ne
      intro z outside hz
      apply elsewhere z outside
      rintro rfl
      exact rep.node_fresh hd free hz
  count := by
    intro k d hd
    obtain ⟨rfl, rfl⟩ | ⟨ne, hd⟩ := update_cases hd
    · simp only [Function.update_self]
      rw [added.length_eq, List.length_cons, rep.count k c hc]
    · simp only [Function.update_of_ne ne]
      exact rep.count k d hd
  index := by
    intro k d hd
    obtain ⟨rfl, rfl⟩ | ⟨_, hd⟩ := update_cases hd
    · rw [stays]
      exact rep.index k c hc
    · exact rep.index k d hd
  marker := by
    intro k d hd
    obtain ⟨rfl, rfl⟩ | ⟨_, hd⟩ := update_cases hd
    · exact rep.marker k c hc
    · exact rep.marker k d hd
  container := by
    simp only [Lists.place, rep.container]
  value := rep.value

theorem insertEnd (rep : Represents m s) {l : κ} {i : ι} {s' : Lists ι κ}
    (h : s.insertEnd l i = some s') : Represents (m.vListInsertEnd l i) s' := by
  rw [Lists.insertEnd] at h
  split at h
  case h_2 => cases h
  case h_1 c hc free =>
    cases h
    obtain ⟨as, bs, before, after, head⟩ := Cursor.toList_insertLast i c
    have ring := rep.ring l c hc
    have fresh := rep.node_fresh hc free
    have distinct := nodes_nodup (l := l) (rep.distinct hc)
    have back := cursorNode_first l bs
    rw [head, ← rep.index l c hc] at back
    rw [before, List.map_append] at ring fresh distinct
    apply rep.place hc free (Cursor.perm_insertLast i c) (Cursor.at?_insertLast i c)
    · rw [after, List.map_append, List.map_cons]
      exact ring.insert_before distinct back fresh
    · intro z outside ne
      rw [before, List.map_append] at outside
      exact ring.insertBefore_elsewhere back fresh outside ne

theorem insert (rep : Represents m s) {l : κ} {i : ι} {s' : Lists ι κ} (h : s.insert l i = some s') :
    ∃ m', m.vListInsert l i = some m' ∧ Represents m' s' := by
  rw [Lists.insert] at h
  split at h
  case h_2 => cases h
  case h_1 c hc free =>
    cases h
    let p := fun j => decide (s.value j ≤ s.value i)
    have sorted := Cursor.toList_insertAfterWhile p i c
    have parts := List.takeWhile_append_dropWhile (p := p) (l := c.toList)
    have ring := rep.ring l c hc
    have fresh := rep.node_fresh hc free
    have distinct := nodes_nodup (l := l) (rep.distinct hc)
    -- both ways of finding the place end at the last member that is not above the new value
    obtain ⟨f, x, front, iterator⟩ : ∃ f x,
        ItemPtr.listEnd l :: (c.toList.takeWhile p).map .item = f ++ [x] ∧
        (if m.xItemValue (.item i) = portMAX_DELAY then some (m.links.prev (.listEnd l))
          else m.insertionPoint (m.xItemValue (.item i)) (m.uxNumberOfItems l + 1) (.listEnd l)) =
          some x := by
      rw [rep.value]
      split
      case isTrue top =>
        have all : c.toList.takeWhile p = c.toList := by
          apply List.takeWhile_eq_self_iff.mpr
          intro j _
          simp only [p, top, portMAX_DELAY, decide_eq_true_eq]
          bv_omega
        have ring' : Threads m.links (.listEnd l) (c.toList.map .item ++ []) := by
          rw [List.append_nil]
          exact ring
        rw [all]
        obtain ⟨f, x, front⟩ : ∃ f x, ItemPtr.listEnd l :: c.toList.map .item = f ++ [x] :=
          ⟨_, _, (List.dropLast_append_getLast (List.cons_ne_nil _ _)).symm⟩
        refine ⟨f, x, front, congrArg some ?_⟩
        have back : [] ++ [.listEnd l] = (.listEnd l : ItemPtr ι κ) :: [] := rfl
        exact ((threads_cut front back).mp ring').2.1.2
      case isFalse below =>
        have enough : c.toList.length < m.uxNumberOfItems l + 1 := by
          rw [rep.count l c hc]
          omega
        have root : ItemPtr.listEnd l :: ([] : List ι).map .item = [] ++ [ItemPtr.listEnd l] := rfl
        exact rep.insertionPoint_spec hc below (List.nil_append _).symm root _ enough
    rw [ListMemory.vListInsert]
    simp only [iterator, Option.map_some]
    refine ⟨_, rfl, ?_⟩
    rw [← parts, List.map_append] at ring fresh distinct
    apply rep.place hc free (Cursor.perm_insertAfterWhile p i c) (Cursor.at?_insertAfterWhile p i c)
    · rw [sorted, List.map_append, List.map_cons]
      exact ring.insert_after distinct front fresh
    · intro z outside ne
      rw [← parts, List.map_append] at outside
      exact ring.insertAfter_elsewhere front outside ne

/-- The index never points at the item taken out. -/
theorem index_removed (rep : Represents m s) {l : κ} {i : ι} {c : Cursor ι} (hc : s.list l = some c) :
    (if m.pxIndex l = .item i then
        Function.update m.pxIndex l ((m.links.unlink (.item i)).prev (.item i))
      else m.pxIndex) l = cursorNode l (c.remove i).at? := by
  have index := rep.index l c hc
  by_cases here : c.at? = some i
  · obtain ⟨passed, split, fallsBack⟩ := Cursor.remove_at here
    have ring := rep.ring l c hc
    have nodup := nodes_nodup (l := l) (rep.distinct hc)
    rw [split, List.map_append, List.map_cons] at ring nodup
    have front := cursorNode_last l passed
    obtain ⟨y, b, back⟩ : ∃ y b, c.ahead.map ItemPtr.item ++ [ItemPtr.listEnd l] = y :: b :=
      List.exists_cons_of_ne_nil (by simp)
    have before := ((threads_splice front back).mp ring).2.1.2
    rw [index, here, cursorNode, if_pos rfl, Function.update_self, ring.unlink_prev nodup, before,
      fallsBack]
  · have elsewhere : m.pxIndex l ≠ .item i := by
      rw [index]
      intro h
      cases at? : c.at? with
      | none =>
        rw [at?] at h
        cases h
      | some j =>
        rw [at?] at h here
        exact here (congrArg some (ItemPtr.item.inj h))
    rw [if_neg elsewhere, index, Cursor.at?_remove_of_ne here]

theorem remove (rep : Represents m s) {i : ι} {s' : Lists ι κ} (h : s.remove i = some s') :
    ∃ m' count, m.uxListRemove i = some (m', count) ∧ Represents m' s' ∧
      ∃ l, s.container i = some l ∧ count = (s'.members l).length := by
  rw [Lists.remove] at h
  split at h
  case h_2 => cases h
  case h_1 l hl =>
    split at h
    case h_2 => cases h
    case h_1 c hc =>
      split at h
      case isFalse => cases h
      case isTrue mem =>
        cases h
        have distinct := rep.distinct hc
        have left : (c.remove i).toList = c.toList.erase i := Cursor.toList_remove distinct
        have fewer : (c.remove i).toList.length = c.toList.length - 1 := by
          rw [left, List.length_erase_of_mem mem]
        obtain ⟨as, bs, split⟩ := List.append_of_mem mem
        have notBefore : i ∉ as := by
          rw [split, List.nodup_append] at distinct
          exact fun h => distinct.2.2 i h i (by simp) rfl
        have rest : c.toList.erase i = as ++ bs := by
          rw [split, List.erase_append_right _ notBefore, List.erase_cons_head]
        have ring := rep.ring l c hc
        have nodup := nodes_nodup (l := l) distinct
        rw [split, List.map_append, List.map_cons] at ring nodup
        rw [ListMemory.uxListRemove, rep.container, hl]
        refine ⟨_, _, rfl, ⟨rep.valid.removed hc mem, ?_, ?_, ?_, ?_, ?_, rep.value⟩, l, rfl, ?_⟩
        · intro k d hd
          obtain ⟨rfl, rfl⟩ | ⟨ne, hd⟩ := update_cases hd
          · rw [left, rest, List.map_append]
            exact ring.unlink nodup
          · apply rep.ring_elsewhere hc hd ne
            intro z outside _
            rw [split, List.map_append, List.map_cons] at outside
            exact ring.unlink_elsewhere nodup outside
        · intro k d hd
          obtain ⟨rfl, rfl⟩ | ⟨ne, hd⟩ := update_cases hd
          · simp only [Function.update_self]
            rw [fewer, rep.count k c hc]
          · simp only [Function.update_of_ne ne]
            exact rep.count k d hd
        · intro k d hd
          obtain ⟨rfl, rfl⟩ | ⟨ne, hd⟩ := update_cases hd
          · exact rep.index_removed hc
          · have same : m.pxIndex k = cursorNode k d.at? := rep.index k d hd
            dsimp only
            split
            case isTrue => rw [Function.update_of_ne ne, same]
            case isFalse => exact same
        · intro k d hd
          obtain ⟨rfl, rfl⟩ | ⟨_, hd⟩ := update_cases hd
          · exact rep.marker k c hc
          · exact rep.marker k d hd
        · rfl
        · rw [Lists.members_update_self, fewer, rep.count l c hc]

theorem setValue (rep : Represents m s) (i : ι) (v : TickType) :
    Represents (m.listSET_LIST_ITEM_VALUE i v) (s.setValue i v) where
  valid := ⟨rep.valid.distinct, rep.valid.contained⟩
  ring := rep.ring
  count := rep.count
  index := rep.index
  marker := by
    intro l c hc
    simp only [ListMemory.listSET_LIST_ITEM_VALUE, Function.update_of_ne (listEnd_ne_item l i)]
    exact rep.marker l c hc
  container := rep.container
  value := by
    intro j
    by_cases hj : j = i
    · rw [hj]
      simp [ListMemory.listSET_LIST_ITEM_VALUE, Lists.setValue]
    · have ne : ItemPtr.item (κ := κ) j ≠ .item i := fun h => hj (ItemPtr.item.inj h)
      simp [ListMemory.listSET_LIST_ITEM_VALUE, Lists.setValue, Function.update_of_ne, hj, ne, rep.value]

omit [DecidableEq κ] in
theorem initialiseItem (rep : Represents m s) {i : ι} {s' : Lists ι κ}
    (h : s.initialiseItem i = some s') : Represents (m.vListInitialiseItem i) s' := by
  rw [Lists.initialiseItem] at h
  split at h
  case isTrue => cases h
  case isFalse outside =>
    cases h
    refine ⟨⟨rep.valid.distinct, ?_⟩, rep.ring, rep.count, rep.index, rep.marker, ?_, rep.value⟩
    · intro l j hj
      have contained := rep.valid.contained l j hj
      have ne : j ≠ i := by
        rintro rfl
        have mem : j ∈ s.members l := hj
        exact outside (by simpa [Lists.isContained, contained] using mem)
      simp only [Function.update_of_ne ne]
      exact contained
    · simp only [ListMemory.vListInitialiseItem, rep.container]

theorem initialise (rep : Represents m s) (l : κ) : Represents (m.vListInitialise l) (s.initialise l) := by
  have elsewhere : ∀ k, k ≠ l → ∀ is : List ι, ∀ z ∈ ItemPtr.listEnd k :: is.map .item, z ≠ .listEnd l := by
    intro k ne is z hz h
    simp [h] at hz
    exact ne hz.symm
  constructor
  case valid =>
    constructor
    · intro k
      by_cases hk : k = l
      · simp [Lists.initialise, hk]
      · rw [Lists.initialise, Lists.members_update_of_ne hk]
        exact rep.valid.distinct k
    · intro k j hj
      by_cases hk : k = l
      · simp [Lists.initialise, hk] at hj
      · rw [Lists.initialise, Lists.members_update_of_ne hk] at hj
        exact rep.valid.contained k j hj
  case ring =>
    intro k d hd
    obtain ⟨rfl, rfl⟩ | ⟨ne, hd⟩ := update_cases hd
    · simp [Threads, Linked, ListMemory.vListInitialise]
    · apply (rep.ring k d hd).congr
      intro z hz
      have apart := elsewhere k ne _ z hz
      exact ⟨Function.update_of_ne apart .., Function.update_of_ne apart ..⟩
  case count =>
    intro k d hd
    obtain ⟨rfl, rfl⟩ | ⟨ne, hd⟩ := update_cases hd
    · exact Function.update_self ..
    · exact (Function.update_of_ne ne ..).trans (rep.count k d hd)
  case index =>
    intro k d hd
    obtain ⟨rfl, rfl⟩ | ⟨ne, hd⟩ := update_cases hd
    · exact Function.update_self ..
    · exact (Function.update_of_ne ne ..).trans (rep.index k d hd)
  case marker =>
    intro k d hd
    obtain ⟨rfl, rfl⟩ | ⟨ne, hd⟩ := update_cases hd
    · exact Function.update_self ..
    · exact (Function.update_of_ne (by simpa using ne) ..).trans (rep.marker k d hd)
  case container => exact rep.container
  case value =>
    intro j
    simp only [ListMemory.vListInitialise, ne_eq, (listEnd_ne_item l j).symm, not_false_eq_true,
      Function.update_of_ne]
    exact rep.value j

/-- The index moves to what the cursor advances to. -/
theorem index_next (rep : Represents m s) {l : κ} {c : Cursor ι} (hc : s.list l = some c) :
    (m.listGET_OWNER_OF_NEXT_ENTRY l).2 = cursorNode l c.advance.at? := by
  have root : ItemPtr.listEnd l :: ([] : List ι).map .item = [] ++ [(.listEnd l : ItemPtr ι κ)] := rfl
  have head : m.links.next (.listEnd l) = cursorNode l c.toList.head? :=
    rep.next_node hc (List.nil_append _).symm root
  have next : m.links.next (m.pxIndex l) = cursorNode l c.ahead.head? := by
    rw [rep.index l c hc]
    exact rep.next_node hc rfl (cursorNode_last l c.passed)
  rw [ListMemory.listGET_OWNER_OF_NEXT_ENTRY]
  simp only [next]
  obtain ⟨passed, _ | ⟨a, ahead⟩⟩ := c
  · simp only [List.head?_nil, cursorNode, if_true, head, Cursor.toList, List.append_nil]
    cases h : passed.reverse with
    | nil => simp only [Cursor.advance, h]; rfl
    | cons a rest => simp only [Cursor.advance, h]; rfl
  · rw [List.head?_cons, cursorNode, if_neg (listEnd_ne_item l a).symm]
    rfl

theorem next (rep : Represents m s) {l : κ} {s' : Lists ι κ} (h : s.next l = some s') :
    Represents (m.listGET_OWNER_OF_NEXT_ENTRY l).1 s' := by
  rw [Lists.next, Option.map_eq_some_iff] at h
  obtain ⟨c, hc, rfl⟩ := h
  have same : ∀ k, Lists.members
      { s with list := Function.update s.list l (some c.advance) } k = s.members k := by
    intro k
    by_cases hk : k = l
    · rw [hk, Lists.members_update_self, Cursor.toList_advance, Lists.members_eq hc]
    · exact Lists.members_update_of_ne hk ..
  constructor
  case valid =>
    constructor
    · intro k
      rw [same]
      exact rep.valid.distinct k
    · intro k j hj
      rw [same] at hj
      exact rep.valid.contained k j hj
  case ring =>
    intro k d hd
    obtain ⟨rfl, rfl⟩ | ⟨_, hd⟩ := update_cases hd
    · rw [Cursor.toList_advance]
      exact rep.ring k c hc
    · exact rep.ring k d hd
  case count =>
    intro k d hd
    obtain ⟨rfl, rfl⟩ | ⟨_, hd⟩ := update_cases hd
    · rw [Cursor.toList_advance]
      exact rep.count k c hc
    · exact rep.count k d hd
  case index =>
    intro k d hd
    obtain ⟨rfl, rfl⟩ | ⟨ne, hd⟩ := update_cases hd
    · exact (Function.update_self ..).trans (rep.index_next hc)
    · exact (Function.update_of_ne ne ..).trans (rep.index k d hd)
  case marker =>
    intro k d hd
    obtain ⟨rfl, rfl⟩ | ⟨_, hd⟩ := update_cases hd
    · exact rep.marker k c hc
    · exact rep.marker k d hd
  case container => exact rep.container
  case value => exact rep.value

end Represents

/-! ## Runs of calls -/

/-- Memory before any list has been initialised, whatever it holds. -/
def ListMemory.uninitialised (m : ListMemory ι κ) : Lists ι κ :=
  { list := fun _ => none
    container := m.pvContainer
    value := fun i => m.xItemValue (.item i) }

theorem represents_uninitialised (m : ListMemory ι κ) : Represents m m.uninitialised where
  valid := ⟨fun _ => List.nodup_nil, fun _ _ h => nomatch h⟩
  ring := nofun
  count := nofun
  index := nofun
  marker := nofun
  container := rfl
  value := fun _ => rfl

variable [DecidableEq ι] [DecidableEq κ]

/-- A call of the list module. -/
inductive ListCall (ι κ : Type) where
  | initialise (l : κ)
  | initialiseItem (i : ι)
  | insertEnd (l : κ) (i : ι)
  | insert (l : κ) (i : ι)
  | remove (i : ι)
  | setValue (i : ι) (v : TickType)
  | next (l : κ)

def ListMemory.call (m : ListMemory ι κ) : ListCall ι κ → Option (ListMemory ι κ)
  | .initialise l => some (m.vListInitialise l)
  | .initialiseItem i => some (m.vListInitialiseItem i)
  | .insertEnd l i => some (m.vListInsertEnd l i)
  | .insert l i => m.vListInsert l i
  | .remove i => (m.uxListRemove i).map Prod.fst
  | .setValue i v => some (m.listSET_LIST_ITEM_VALUE i v)
  | .next l => some (m.listGET_OWNER_OF_NEXT_ENTRY l).1

def Lists.call (s : Lists ι κ) : ListCall ι κ → Option (Lists ι κ)
  | .initialise l => some (s.initialise l)
  | .initialiseItem i => s.initialiseItem i
  | .insertEnd l i => s.insertEnd l i
  | .insert l i => s.insert l i
  | .remove i => s.remove i
  | .setValue i v => some (s.setValue i v)
  | .next l => s.next l

theorem Represents.call {m : ListMemory ι κ} {s s' : Lists ι κ} (rep : Represents m s) {c : ListCall ι κ}
    (h : s.call c = some s') : ∃ m', m.call c = some m' ∧ Represents m' s' := by
  cases c with
  | initialise l =>
    cases h
    exact ⟨_, rfl, rep.initialise l⟩
  | initialiseItem i => exact ⟨_, rfl, rep.initialiseItem h⟩
  | insertEnd l i => exact ⟨_, rfl, rep.insertEnd h⟩
  | insert l i => exact rep.insert h
  | remove i =>
    obtain ⟨m', count, removed, rep', _⟩ := rep.remove h
    exact ⟨m', by rw [ListMemory.call, removed]; rfl, rep'⟩
  | setValue i v =>
    cases h
    exact ⟨_, rfl, rep.setValue i v⟩
  | next l => exact ⟨_, rfl, rep.next h⟩

theorem Represents.run {calls : List (ListCall ι κ)} {m : ListMemory ι κ} {s s' : Lists ι κ}
    (rep : Represents m s) (h : calls.foldlM Lists.call s = some s') :
    ∃ m', calls.foldlM ListMemory.call m = some m' ∧ Represents m' s' := by
  induction calls generalizing m s with
  | nil =>
    cases h
    exact ⟨m, rfl, rep⟩
  | cons c calls ih =>
    rw [List.foldlM_cons] at h
    obtain ⟨s₁, first, rest⟩ := Option.bind_eq_some_iff.mp h
    obtain ⟨m₁, called, rep₁⟩ := rep.call first
    obtain ⟨m', run, rep'⟩ := ih rep₁ rest
    exact ⟨m', by rw [List.foldlM_cons, called]; exact run, rep'⟩

/-- Out of any memory whatever, calls that never add an item twice and never remove one
that is in no list return, every loop of them, and leave in every list that has been
initialised a ring of its members: next and previous pointers agree from the end marker
round to it, the count is their number, the index is at the cursor and no item is in two
lists. -/
theorem lists_refined (m : ListMemory ι κ) (calls : List (ListCall ι κ)) (s : Lists ι κ)
    (h : calls.foldlM Lists.call m.uninitialised = some s) :
    ∃ m', calls.foldlM ListMemory.call m = some m' ∧ Represents m' s :=
  (represents_uninitialised m).run h

/-- Memory as it may be found at reset. -/
def ListMemory.unset : ListMemory Bool Unit where
  xItemValue := fun _ => 7
  links := { next := id, prev := id }
  pvContainer := fun _ => none
  uxNumberOfItems := fun _ => 3
  pxIndex := fun _ => .item true

theorem lists_refined_unset :
    ∃ m', [.initialise (), .insertEnd () true, .insert () false, .next (), .remove true].foldlM ListMemory.call
        ListMemory.unset = some m' ∧
      Represents m'
        (([.initialise (), .insertEnd () true, .insert () false, .next (), .remove true].foldlM Lists.call
          ListMemory.unset.uninitialised).get (by decide)) :=
  lists_refined ListMemory.unset _ _ (Option.some_get _).symm

end Blinky.Kernel
