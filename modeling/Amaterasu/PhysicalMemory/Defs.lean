import Amaterasu.Util
import Mathlib.Logic.Function.Basic

/-! The page-frame allocator of `physicalMemory.c`. A `struct Page *` is the index of its
descriptor in `memoryMap`, or `none` for the null pointer. `memoryMap` is total: past
`totalPageNumber` it holds whatever follows the array in memory. A function returns
`none` where the C code loops forever or dereferences a null pointer. -/

namespace Amaterasu
open Function

def pageAllocated : BitVec 8 := 1 <<< 0
def pageReserved : BitVec 8 := 1 <<< 1
def pageTop : BitVec 8 := 1 <<< 2

def pageFrameMaxOrder : Nat := 10

/-- `struct Page`; the field `private` is `priv`. -/
structure Page where
  flags : BitVec 8
  priv : Nat
  prev : Option Nat
  next : Option Nat
deriving DecidableEq, Repr

namespace Page

def isAllocated (p : Page) : Bool := p.flags &&& pageAllocated != 0
def isReserved (p : Page) : Bool := p.flags &&& pageReserved != 0
def isTop (p : Page) : Bool := p.flags &&& pageTop != 0

def setPriv (p : Page) (v : Nat) : Page := { p with priv := v }
def setPrev (p : Page) (v : Option Nat) : Page := { p with prev := v }
def setNext (p : Page) (v : Option Nat) : Page := { p with next := v }
def orFlags (p : Page) (f : BitVec 8) : Page := { p with flags := p.flags ||| f }
def xorFlags (p : Page) (f : BitVec 8) : Page := { p with flags := p.flags ^^^ f }

end Page

/-- The globals of `physicalMemory.c`. `pageFrameOrder` has a slot for every order, and
`totalPageNumber` is `physicalMemoryFreeMapInfo.Size / sizeof(struct Page)`. -/
structure PageFrames where
  memoryMap : Nat → Page
  pageFrameOrder : Nat → Option Nat
  totalPageNumber : Nat

namespace PageFrames

def modifyPage (s : PageFrames) (i : Nat) (f : Page → Page) : PageFrames :=
  { s with memoryMap := update s.memoryMap i (f (s.memoryMap i)) }

def setOrder (s : PageFrames) (order : Nat) (p : Option Nat) : PageFrames :=
  { s with pageFrameOrder := update s.pageFrameOrder order p }

/-! ## Lists -/

def addToPageFrameOrder (s : PageFrames) (order page : Nat) : PageFrames :=
  let front := s.pageFrameOrder order
  let s := s.modifyPage page (·.setPriv order)
  let s := s.modifyPage page (·.setPrev none)
  let s := s.modifyPage page (·.setNext front)
  let s := match front with
    | none => s
    | some f => s.modifyPage f (·.setPrev (some page))
  s.setOrder order (some page)

def deleteFromPageFrameOrder (s : PageFrames) (order page : Nat) : PageFrames :=
  let prev := (s.memoryMap page).prev
  let next := (s.memoryMap page).next
  let s := match prev with
    | none => s.setOrder order next
    | some q => s.modifyPage q (·.setNext next)
  let s := match next with
    | none => s
    | some q => s.modifyPage q (·.setPrev prev)
  let s := s.modifyPage page (·.setPrev none)
  s.modifyPage page (·.setNext none)

/-! ## `BuddySystemInit` -/

/-- `while ((memoryMap[start].flags & PAGE_RESERVED) && start < totalPageNumber) start++`,
where the first argument is `totalPageNumber - start`. -/
def skipReserved (s : PageFrames) : Nat → Nat → Nat
  | 0, start => start
  | rest + 1, start =>
    if (s.memoryMap start).isReserved then skipReserved s rest (start + 1) else start

/-- The loop that sets `maxOrder` to the lowest set bit of `start`, at most the largest order. -/
def maxOrder (start : Nat) : Nat :=
  ((List.range (pageFrameMaxOrder + 1)).find? fun i => start &&& (1 <<< i) != 0).getD
    pageFrameMaxOrder

/-- The streak loop, where the first argument is `maxPageCount - (end - start)`. -/
def streakEnd (s : PageFrames) : Nat → Nat → Nat
  | 0, stop => stop
  | room + 1, stop =>
    if stop = s.totalPageNumber then stop
    else if (s.memoryMap stop).isReserved then stop
    else streakEnd s room (stop + 1)

/-- One round of the outer loop from a `start` below `totalPageNumber`: the new state and
`start`, or `none` inside when the round ends in `break`. -/
def initRound (s : PageFrames) (start : Nat) : Option (PageFrames × Option Nat) :=
  let start := s.skipReserved (s.totalPageNumber - start) start
  if (s.memoryMap start).isReserved then some (s, none)
  else do
    let maxPageCount := pow 2 (maxOrder start)
    let stop := s.streakEnd (maxPageCount - 1) (start + 1)
    let order ← log2 (stop - start)
    let s := s.modifyPage start (·.orFlags pageTop)
    return (s.addToPageFrameOrder order start, some (start + pow 2 order))

/-- `while (start < totalPageNumber)`; every round advances `start`. -/
def initLoop : Nat → PageFrames → Nat → Option PageFrames
  | 0, s, _ => some s
  | fuel + 1, s, start =>
    if start < s.totalPageNumber then do
      let (s, start) ← s.initRound start
      match start with
      | none => return s
      | some start => initLoop fuel s start
    else some s

def clearOrders (s : PageFrames) : PageFrames :=
  { s with pageFrameOrder := fun order =>
      if order ≤ pageFrameMaxOrder then none else s.pageFrameOrder order }

def buddySystemInit (s : PageFrames) : Option PageFrames :=
  initLoop s.totalPageNumber s.clearOrders 0

/-! ## `AllocatePageFrames` -/

/-- One round of `while (currentOrder > requestedOrder)` with `currentOrder = order + 1`. -/
def splitFront (s : PageFrames) (order : Nat) : Option PageFrames := do
  let front ← s.pageFrameOrder (order + 1)
  let s := s.deleteFromPageFrameOrder (order + 1) front
  let buddyId := front ^^^ (1 <<< order)
  let s := s.modifyPage front (·.orFlags pageTop)
  let s := s.modifyPage buddyId (·.orFlags pageTop)
  let s := s.addToPageFrameOrder order buddyId
  return s.addToPageFrameOrder order front

/-- The split loop, where `currentOrder` is `requestedOrder` plus the first argument. -/
def splitDown : Nat → PageFrames → Nat → Option PageFrames
  | 0, s, _ => some s
  | above + 1, s, requestedOrder => do
    let s ← s.splitFront (requestedOrder + above)
    splitDown above s requestedOrder

def takeFront (s : PageFrames) (order : Nat) : Option (PageFrames × Nat) := do
  let allocated ← s.pageFrameOrder order
  let s := s.modifyPage allocated (·.orFlags pageAllocated)
  return (s.deleteFromPageFrameOrder order allocated, allocated)

/-- `AllocatePageFrames` up to its result: the index of the allocated descriptor, or `none`
when no list has a block. -/
def allocateFrames (s : PageFrames) (requestedPageNumber : Int) :
    Option (PageFrames × Option Nat) := do
  let requestedOrder ← ceilLog2 (toUnsigned64 requestedPageNumber)
  if requestedOrder > pageFrameMaxOrder then return (s, none)
  match firstNonempty s.pageFrameOrder (pageFrameMaxOrder + 1 - requestedOrder) requestedOrder with
  | none => return (s, none)
  | some currentOrder =>
    let s ← splitDown (currentOrder - requestedOrder) s requestedOrder
    let (s, allocated) ← s.takeFront requestedOrder
    return (s, some allocated)

/-- The address `AllocatePageFrames` returns. -/
def frameAddress : Option Nat → Nat
  | none => 0
  | some i => i <<< 12

def allocatePageFrames (s : PageFrames) (requestedPageNumber : Int) : Option (PageFrames × Nat) :=
  (s.allocateFrames requestedPageNumber).map fun r => (r.1, frameAddress r.2)

/-! ## `FreePageFrames` -/

/-- The order scan. `1 << freedOrder` leaves the range of `int` at 31. -/
def scanOrder (s : PageFrames) (i : Nat) : Option Nat :=
  (List.range 31).find? fun freedOrder => (s.memoryMap (i + (1 <<< freedOrder))).isTop

/-- The test of the merge loop: the buddy of `i` at `currentOrder` is a free block of that order. -/
def buddyIsFree (s : PageFrames) (i currentOrder : Nat) : Bool :=
  let buddyId := i ^^^ (1 <<< currentOrder)
  let buddy := s.memoryMap buddyId
  buddyId < s.totalPageNumber && buddy.priv == currentOrder && buddy.isTop &&
    !buddy.isAllocated && !buddy.isReserved

/-- The merge loop, where the first argument counts the orders left. -/
def mergeUp : Nat → PageFrames → Nat → Nat → PageFrames
  | 0, s, _, _ => s
  | left + 1, s, i, currentOrder =>
    if s.buddyIsFree i currentOrder then
      let s := s.deleteFromPageFrameOrder currentOrder i
      let s := s.deleteFromPageFrameOrder currentOrder (i ^^^ (1 <<< currentOrder))
      let s := s.addToPageFrameOrder (currentOrder + 1) i
      mergeUp left s i (currentOrder + 1)
    else s

def freePageFrames (s : PageFrames) (address : Nat) : Option PageFrames := do
  let i := address >>> 12
  let freedOrder ← s.scanOrder i
  let s := s.addToPageFrameOrder freedOrder i
  let s := s.modifyPage i (·.xorFlags pageAllocated)
  return mergeUp (pageFrameMaxOrder + 1 - freedOrder) s i freedOrder

end PageFrames
end Amaterasu
