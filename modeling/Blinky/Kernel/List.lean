import Blinky.Lib.Circular

/-!
# The kernel's lists

`ListMemory` is what the list module keeps in memory: list items, and in every
list an end marker, linked into rings through `pxNext` and `pxPrevious`. The
functions over it are those of the list module.

`Lists` is what that memory stands for: for every list a sequence with a cursor,
for every item its value and the list that contains it. Its operations refuse what
would corrupt the memory: an item added while it is in a list, or removed
while it is in none. `Represents.step` says that where they do not refuse, the
pointers follow.
-/

namespace Blinky.Kernel
set_option autoImplicit false
open Blinky.Circular

/-- `TickType_t` -/
abbrev TickType := BitVec 32

def portMAX_DELAY : TickType := 0xFFFFFFFF

/-- A `ListItem_t *`: an item, or the end marker inside a list. -/
inductive ItemPtr (ι κ : Type) where
  | item (i : ι)
  | listEnd (l : κ)
deriving DecidableEq

/-- The items `ι` and the lists `κ` in memory; `links` are `pxNext` and `pxPrevious`.
An item stands for its `pvOwner`. -/
structure ListMemory (ι κ : Type) where
  xItemValue : ItemPtr ι κ → TickType
  links : Links (ItemPtr ι κ)
  pvContainer : ι → Option κ
  uxNumberOfItems : κ → Nat
  pxIndex : κ → ItemPtr ι κ

namespace ListMemory

variable {ι κ : Type} [DecidableEq ι] [DecidableEq κ]

def vListInitialise (m : ListMemory ι κ) (pxList : κ) : ListMemory ι κ :=
  let xListEnd := ItemPtr.listEnd pxList
  { m with
    pxIndex := Function.update m.pxIndex pxList xListEnd
    xItemValue := Function.update m.xItemValue xListEnd portMAX_DELAY
    links :=
      { next := Function.update m.links.next xListEnd xListEnd
        prev := Function.update m.links.prev xListEnd xListEnd }
    uxNumberOfItems := Function.update m.uxNumberOfItems pxList 0 }

def vListInitialiseItem (m : ListMemory ι κ) (pxItem : ι) : ListMemory ι κ :=
  { m with pvContainer := Function.update m.pvContainer pxItem none }

def vListInsertEnd (m : ListMemory ι κ) (pxList : κ) (pxNewListItem : ι) : ListMemory ι κ :=
  let pxIndex := m.pxIndex pxList
  { m with
    links := m.links.insertBefore pxIndex (.item pxNewListItem)
    pvContainer := Function.update m.pvContainer pxNewListItem (some pxList)
    uxNumberOfItems := Function.update m.uxNumberOfItems pxList (m.uxNumberOfItems pxList + 1) }

/-- The loop of `vListInsert`: on from `pxIterator` while the next value is not above
the one to insert. None when `fuel` nodes did not end it. -/
def insertionPoint (m : ListMemory ι κ) (xValueOfInsertion : TickType) :
    Nat → ItemPtr ι κ → Option (ItemPtr ι κ)
  | 0, _ => none
  | fuel + 1, pxIterator =>
    if m.xItemValue (m.links.next pxIterator) ≤ xValueOfInsertion then
      m.insertionPoint xValueOfInsertion fuel (m.links.next pxIterator)
    else
      some pxIterator

def vListInsert (m : ListMemory ι κ) (pxList : κ) (pxNewListItem : ι) : Option (ListMemory ι κ) :=
  let xValueOfInsertion := m.xItemValue (.item pxNewListItem)
  let xListEnd := ItemPtr.listEnd pxList
  let iterator :=
    if xValueOfInsertion = portMAX_DELAY then some (m.links.prev xListEnd)
    else m.insertionPoint xValueOfInsertion (m.uxNumberOfItems pxList + 1) xListEnd
  iterator.map fun pxIterator =>
    { m with
      links := m.links.insertAfter pxIterator (.item pxNewListItem)
      pvContainer := Function.update m.pvContainer pxNewListItem (some pxList)
      uxNumberOfItems := Function.update m.uxNumberOfItems pxList (m.uxNumberOfItems pxList + 1) }

/-- The count that is left is returned. None where `pvContainer` is NULL, which the
function dereferences. -/
def uxListRemove (m : ListMemory ι κ) (pxItemToRemove : ι) : Option (ListMemory ι κ × Nat) :=
  (m.pvContainer pxItemToRemove).map fun pxList =>
    let links := m.links.unlink (.item pxItemToRemove)
    let pxIndex :=
      if m.pxIndex pxList = .item pxItemToRemove then
        Function.update m.pxIndex pxList (links.prev (.item pxItemToRemove))
      else m.pxIndex
    let count := m.uxNumberOfItems pxList - 1
    ({ m with
        links
        pxIndex
        pvContainer := Function.update m.pvContainer pxItemToRemove none
        uxNumberOfItems := Function.update m.uxNumberOfItems pxList count }, count)

def listSET_LIST_ITEM_VALUE (m : ListMemory ι κ) (pxListItem : ι) (xValue : TickType) :
    ListMemory ι κ :=
  { m with xItemValue := Function.update m.xItemValue (.item pxListItem) xValue }

def listGET_ITEM_VALUE_OF_HEAD_ENTRY (m : ListMemory ι κ) (pxList : κ) : TickType :=
  m.xItemValue (m.links.next (.listEnd pxList))

def listGET_HEAD_ENTRY (m : ListMemory ι κ) (pxList : κ) : ItemPtr ι κ :=
  m.links.next (.listEnd pxList)

/-- The index moves on, over the end marker. -/
def listGET_OWNER_OF_NEXT_ENTRY (m : ListMemory ι κ) (pxList : κ) : ListMemory ι κ × ItemPtr ι κ :=
  let pxIndex := m.links.next (m.pxIndex pxList)
  let pxIndex := if pxIndex = .listEnd pxList then m.links.next pxIndex else pxIndex
  ({ m with pxIndex := Function.update m.pxIndex pxList pxIndex }, pxIndex)

end ListMemory

/-! ## What the memory stands for -/

/-- The lists that have been initialised, and what every item says of itself. -/
structure Lists (ι κ : Type) where
  list : κ → Option (Cursor ι)
  container : ι → Option κ
  value : ι → TickType

variable {ι κ : Type} [DecidableEq ι] [DecidableEq κ]

namespace Lists

/-- The members of a list from its head; none of a list not initialised. -/
def members (s : Lists ι κ) (l : κ) : List ι :=
  match s.list l with
  | some c => c.toList
  | none => []

/-- The item is in the list it names as its container. -/
def isContained (s : Lists ι κ) (i : ι) : Bool :=
  match s.container i with
  | some l => decide (i ∈ s.members l)
  | none => false

def initialise (s : Lists ι κ) (l : κ) : Lists ι κ :=
  { s with list := Function.update s.list l (some .empty) }

def initialiseItem (s : Lists ι κ) (i : ι) : Option (Lists ι κ) :=
  if s.isContained i then none
  else some { s with container := Function.update s.container i none }

/-- The list's cursor is replaced and `i` says it is in it. -/
def place (s : Lists ι κ) (l : κ) (i : ι) (c : Cursor ι) : Lists ι κ :=
  { s with
    list := Function.update s.list l (some c)
    container := Function.update s.container i (some l) }

def insertEnd (s : Lists ι κ) (l : κ) (i : ι) : Option (Lists ι κ) :=
  match s.list l, s.container i with
  | some c, none => some (s.place l i (c.insertLast i))
  | _, _ => none

/-- After every member whose value is not above that of `i`. -/
def insert (s : Lists ι κ) (l : κ) (i : ι) : Option (Lists ι κ) :=
  match s.list l, s.container i with
  | some c, none => some (s.place l i (c.insertAfterWhile (fun j => s.value j ≤ s.value i) i))
  | _, _ => none

def remove (s : Lists ι κ) (i : ι) : Option (Lists ι κ) :=
  match s.container i with
  | some l =>
    match s.list l with
    | some c =>
      if i ∈ c.toList then
        some
          { s with
            list := Function.update s.list l (some (c.remove i))
            container := Function.update s.container i none }
      else none
    | none => none
  | none => none

def setValue (s : Lists ι κ) (i : ι) (v : TickType) : Lists ι κ :=
  { s with value := Function.update s.value i v }

def next (s : Lists ι κ) (l : κ) : Option (Lists ι κ) :=
  (s.list l).map fun c => { s with list := Function.update s.list l (some c.advance) }

/-- A member of a list names that list, and is in it once. -/
structure Valid (s : Lists ι κ) : Prop where
  distinct : ∀ l, (s.members l).Nodup
  contained : ∀ l, ∀ i ∈ s.members l, s.container i = some l

end Lists

end Blinky.Kernel
