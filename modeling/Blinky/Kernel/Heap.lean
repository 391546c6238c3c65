import Blinky.Kernel.Tasks

/-!
# The heap

`pvPortMalloc` and `vPortFree` over the memory of the heap: the headers of its blocks, the free
ones linked in the order of their addresses. Addresses and sizes are numbers, which is right
as long as `ucHeap` lies within the address space: no sum wraps then, and no block is so
long that its size would reach the bit that marks a block as allocated.

Both functions run with the scheduler suspended. As before, none is where the code would
stop at a `configASSERT` or go through a null pointer.
-/

namespace Blinky.Kernel
set_option autoImplicit false

/-- `size_t` values of the build: `sizeof(BlockLink_t)` is 8 and already aligned. -/
def xHeapStructSize : Nat := 8

def portBYTE_ALIGNMENT : Nat := 8

def heapMINIMUM_BLOCK_SIZE : Nat := xHeapStructSize * 2

def configTOTAL_HEAP_SIZE : Nat := 8192

/-- `xBlockAllocatedBit`, once `prvHeapInit` has worked it out. -/
def xBlockAllocatedBit : BitVec 32 := 0x80000000

/-- `x & ~portBYTE_ALIGNMENT_MASK` -/
def alignDown (x : Nat) : Nat := x - x % portBYTE_ALIGNMENT

/-- A `BlockLink_t *`: `&xStart`, which lies outside `ucHeap`, or the address of a block. -/
inductive BlockPtr where
  | xStart
  | block (address : Nat)
deriving DecidableEq

/-- `BlockLink_t`; `allocated` is the top bit of `xBlockSize`. -/
structure BlockLink where
  pxNextFreeBlock : Option Nat
  xBlockSize : Nat
  allocated : Bool
deriving DecidableEq

structure Heap where
  link : BlockPtr → BlockLink
  pxEnd : Option Nat
  xFreeBytesRemaining : Nat
  xMinimumEverFreeBytesRemaining : Nat

namespace Heap

/-- A write to `xBlockSize` of a size below the top bit. -/
def setSize (h : Heap) (p : BlockPtr) (xBlockSize : Nat) : Heap :=
  { h with link := Function.update h.link p { h.link p with xBlockSize, allocated := false } }

def setNext (h : Heap) (p : BlockPtr) (pxNextFreeBlock : Option Nat) : Heap :=
  { h with link := Function.update h.link p { h.link p with pxNextFreeBlock } }

/-- The one free block there is at first reaches from the aligned start to `pxEnd`. -/
def prvHeapInit (h : Heap) (ucHeap : Nat) : Heap :=
  let pucAlignedHeap :=
    if ucHeap % portBYTE_ALIGNMENT ≠ 0 then alignDown (ucHeap + (portBYTE_ALIGNMENT - 1)) else ucHeap
  let xTotalHeapSize := configTOTAL_HEAP_SIZE - (pucAlignedHeap - ucHeap)
  let pxEnd := alignDown (pucAlignedHeap + xTotalHeapSize - xHeapStructSize)
  let h := (h.setNext .xStart (some pucAlignedHeap)).setSize .xStart 0
  let h := (h.setSize (.block pxEnd) 0).setNext (.block pxEnd) none
  let xBlockSize := pxEnd - pucAlignedHeap
  let h := (h.setSize (.block pucAlignedHeap) xBlockSize).setNext (.block pucAlignedHeap) (some pxEnd)
  { h with
    pxEnd := some pxEnd
    xMinimumEverFreeBytesRemaining := xBlockSize
    xFreeBytesRemaining := xBlockSize }

/-! ### The free list -/

/-- The loop of `prvInsertBlockIntoFreeList`: the last block of the list before the address. A
null `pxNextFreeBlock` is before every address, so the loop would go through it. -/
def findBefore (h : Heap) (pxBlockToInsert : Nat) : Nat → BlockPtr → Option BlockPtr
  | 0, _ => none
  | fuel + 1, pxIterator =>
    match (h.link pxIterator).pxNextFreeBlock with
    | none => none
    | some next => if next < pxBlockToInsert then h.findBefore pxBlockToInsert fuel (.block next) else some pxIterator

/-- The block before grows by the one to insert, where that begins at its end. -/
def mergeBefore (h : Heap) (pxIterator : BlockPtr) (pxBlockToInsert : Nat) : Heap × Nat :=
  match pxIterator with
  | .xStart => (h, pxBlockToInsert)
  | .block puc =>
    if puc + (h.link pxIterator).xBlockSize = pxBlockToInsert then
      (h.setSize pxIterator ((h.link pxIterator).xBlockSize + (h.link (.block pxBlockToInsert)).xBlockSize), puc)
    else (h, pxBlockToInsert)

/-- The block grows by the one after it, where that begins at its end. -/
def mergeAfter (h : Heap) (pxIterator : BlockPtr) (pxBlockToInsert : Nat) : Heap :=
  let puc := pxBlockToInsert + (h.link (.block pxBlockToInsert)).xBlockSize
  match (h.link pxIterator).pxNextFreeBlock with
  | none => h.setNext (.block pxBlockToInsert) none
  | some next =>
    if puc = next then
      if some next ≠ h.pxEnd then
        (h.setSize (.block pxBlockToInsert)
          ((h.link (.block pxBlockToInsert)).xBlockSize + (h.link (.block next)).xBlockSize)).setNext
          (.block pxBlockToInsert) (h.link (.block next)).pxNextFreeBlock
      else h.setNext (.block pxBlockToInsert) h.pxEnd
    else h.setNext (.block pxBlockToInsert) (some next)

def prvInsertBlockIntoFreeList (h : Heap) (pxBlockToInsert : Nat) : Option Heap := do
  let pxIterator ← h.findBefore pxBlockToInsert configTOTAL_HEAP_SIZE .xStart
  let (h, pxBlockToInsert) := h.mergeBefore pxIterator pxBlockToInsert
  let h := h.mergeAfter pxIterator pxBlockToInsert
  some (if pxIterator ≠ .block pxBlockToInsert then h.setNext pxIterator (some pxBlockToInsert) else h)

/-! ### Allocation -/

/-- The size of the block for a request: with the header, and rounded up. -/
def blockSizeFor (xWantedSize : Nat) : Nat :=
  if xWantedSize > 0 then
    let xWantedSize := xWantedSize + xHeapStructSize
    if xWantedSize % portBYTE_ALIGNMENT ≠ 0 then
      xWantedSize + (portBYTE_ALIGNMENT - xWantedSize % portBYTE_ALIGNMENT)
    else xWantedSize
  else xWantedSize

/-- The loop of `pvPortMalloc`: the first block that is long enough, or `pxEnd`, and the one
before it. -/
def findFit (h : Heap) (xWantedSize : Nat) : Nat → BlockPtr → Nat → Option (BlockPtr × Nat)
  | 0, _, _ => none
  | fuel + 1, pxPreviousBlock, pxBlock =>
    if (h.link (.block pxBlock)).xBlockSize < xWantedSize then
      match (h.link (.block pxBlock)).pxNextFreeBlock with
      | some next => h.findFit xWantedSize fuel (.block pxBlock) next
      | none => some (pxPreviousBlock, pxBlock)
    else some (pxPreviousBlock, pxBlock)

/-- The block is split where what is over is long enough for a block of its own. -/
def splitBlock (h : Heap) (pxBlock xWantedSize : Nat) : Option Heap :=
  let xBlockSize := (h.link (.block pxBlock)).xBlockSize
  if xBlockSize - xWantedSize > heapMINIMUM_BLOCK_SIZE then do
    let pxNewBlockLink := pxBlock + xWantedSize
    configASSERT (pxNewBlockLink % portBYTE_ALIGNMENT = 0)
    let h := h.setSize (.block pxNewBlockLink) (xBlockSize - xWantedSize)
    let h := h.setSize (.block pxBlock) xWantedSize
    h.prvInsertBlockIntoFreeList pxNewBlockLink
  else some h

/-- The block belongs to the application from now on. -/
def allocate (h : Heap) (pxBlock : Nat) : Heap :=
  let xFreeBytesRemaining := h.xFreeBytesRemaining - (h.link (.block pxBlock)).xBlockSize
  { h with
    link := Function.update h.link (.block pxBlock)
      { h.link (.block pxBlock) with allocated := true, pxNextFreeBlock := none }
    xFreeBytesRemaining
    xMinimumEverFreeBytesRemaining :=
      if xFreeBytesRemaining < h.xMinimumEverFreeBytesRemaining then xFreeBytesRemaining
      else h.xMinimumEverFreeBytesRemaining }

/-- The pointer to what the application may use comes with it, none for a null one. -/
def pvPortMalloc (h : Heap) (ucHeap : Nat) (xWantedSize : BitVec 32) : Option (Heap × Option Nat) := do
  let h := if h.pxEnd = none then h.prvHeapInit ucHeap else h
  if xWantedSize &&& xBlockAllocatedBit = 0 then
    let xWantedSize := blockSizeFor xWantedSize.toNat
    if xWantedSize > 0 ∧ xWantedSize ≤ h.xFreeBytesRemaining then
      let first ← (h.link .xStart).pxNextFreeBlock
      let (pxPreviousBlock, pxBlock) ← h.findFit xWantedSize configTOTAL_HEAP_SIZE .xStart first
      if some pxBlock ≠ h.pxEnd then
        let pvReturn ← (h.link pxPreviousBlock).pxNextFreeBlock
        let h := h.setNext pxPreviousBlock (h.link (.block pxBlock)).pxNextFreeBlock
        let h ← h.splitBlock pxBlock xWantedSize
        let h := h.allocate pxBlock
        configASSERT ((pvReturn + xHeapStructSize) % portBYTE_ALIGNMENT = 0)
        some (h, some (pvReturn + xHeapStructSize))
      else some (h, none)
    else some (h, none)
  else some (h, none)

/-- The two tests that follow the assertions ask again what the assertions have. -/
def vPortFree (h : Heap) (pv : Option Nat) : Option Heap :=
  match pv with
  | none => some h
  | some pv => do
    let pxLink := pv - xHeapStructSize
    configASSERT ((h.link (.block pxLink)).allocated = true)
    configASSERT ((h.link (.block pxLink)).pxNextFreeBlock = none)
    let xBlockSize := (h.link (.block pxLink)).xBlockSize
    let h := h.setSize (.block pxLink) xBlockSize
    let h := { h with xFreeBytesRemaining := h.xFreeBytesRemaining + xBlockSize }
    h.prvInsertBlockIntoFreeList pxLink

end Heap

end Blinky.Kernel
