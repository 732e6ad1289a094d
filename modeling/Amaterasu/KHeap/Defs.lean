import Amaterasu.Util
import Mathlib.Logic.Function.Basic

/-! The kernel heap of `kHeap.c`. A `struct kHeapBlock *` is the index of its cell in
`kHeapBlocks`, or `none` for the null pointer. `none` as a whole result is the loop of `log2`
that never ends. -/

namespace Amaterasu
open Function

def kHeapHeapSize : Nat := 4096
def kHeapBlockSize : Nat := 256
def kHeapBlockNum : Nat := kHeapHeapSize / kHeapBlockSize
def kHeapMaxOrder : Nat := 4

/-- `struct kHeapBlock`. -/
structure KHeapBlock where
  order : Nat
  isAllocated : Bool
  id : Nat
  prev : Option Nat
  next : Option Nat
deriving DecidableEq, Repr

namespace KHeapBlock

def setPrev (b : KHeapBlock) (v : Option Nat) : KHeapBlock := { b with prev := v }
def setNext (b : KHeapBlock) (v : Option Nat) : KHeapBlock := { b with next := v }

/-- What `AddTokHeapOrder` writes into the added block. -/
def enlist (b : KHeapBlock) (order : Nat) (front : Option Nat) : KHeapBlock :=
  { b with order := order, isAllocated := false, prev := none, next := front }

/-- The last four writes of `DeleteFromkHeapOrder`. -/
def clear (b : KHeapBlock) : KHeapBlock :=
  { b with order := 0, isAllocated := false, prev := none, next := none }

def allocate (b : KHeapBlock) (order : Nat) : KHeapBlock :=
  { b with order := order, isAllocated := true }

end KHeapBlock

/-- The globals of `kHeap.c`. -/
structure KHeap where
  kHeapStart : Nat
  kHeapBlocks : Nat → KHeapBlock
  kHeapOrder : Nat → Option Nat

namespace KHeap

def modifyBlock (h : KHeap) (i : Nat) (f : KHeapBlock → KHeapBlock) : KHeap :=
  { h with kHeapBlocks := update h.kHeapBlocks i (f (h.kHeapBlocks i)) }

def setOrder (h : KHeap) (order : Nat) (p : Option Nat) : KHeap :=
  { h with kHeapOrder := update h.kHeapOrder order p }

/-- `kHeapInit`, where `start` is the result of `AllocatePageFrames(1)`. -/
def kHeapInit (start : Nat) : KHeap where
  kHeapStart := start
  kHeapBlocks i := ⟨if i = 0 then kHeapMaxOrder else 0, false, i, none, none⟩
  kHeapOrder order := if order = kHeapMaxOrder then some 0 else none

/-! ## Lists -/

def addTokHeapOrder (h : KHeap) (order id : Nat) : KHeap :=
  let front := h.kHeapOrder order
  let h := h.modifyBlock id (·.enlist order front)
  h.setOrder order (some id)

def deleteFromkHeapOrder (h : KHeap) (order id : Nat) : KHeap :=
  let prev := (h.kHeapBlocks id).prev
  let next := (h.kHeapBlocks id).next
  let h := match prev with
    | none => h.setOrder order next
    | some q => h.modifyBlock q (·.setNext next)
  let h := match next with
    | none => h
    | some q => h.modifyBlock q (·.setPrev prev)
  h.modifyBlock id (·.clear)

/-! ## `kmalloc` -/

/-- One round of `while (currentOrder > requestedOrder)` with `currentOrder = order + 1`. -/
def splitFront (h : KHeap) (order : Nat) : Option KHeap := do
  let front ← h.kHeapOrder (order + 1)
  let id := (h.kHeapBlocks front).id
  let h := h.deleteFromkHeapOrder (order + 1) id
  let buddyId := (id + pow 2 order) % 2 ^ 32
  let h := h.addTokHeapOrder order buddyId
  return h.addTokHeapOrder order id

/-- The split loop, where `currentOrder` is `requestedOrder` plus the first argument. -/
def splitDown : Nat → KHeap → Nat → Option KHeap
  | 0, h, _ => some h
  | above + 1, h, requestedOrder => do
    let h ← h.splitFront (requestedOrder + above)
    splitDown above h requestedOrder

def takeFront (h : KHeap) (order : Nat) : Option (KHeap × Nat) := do
  let front ← h.kHeapOrder order
  let id := (h.kHeapBlocks front).id
  let h := h.deleteFromkHeapOrder order id
  let h := h.modifyBlock front (·.allocate order)
  return (h, (h.kHeapStart + kHeapBlockSize * id) % 2 ^ 64)

def blockNumber (size : Nat) : Nat :=
  if size % kHeapBlockSize = 0 then size / kHeapBlockSize else size / kHeapBlockSize + 1

def kmalloc (h : KHeap) (size : Nat) : Option (KHeap × Nat) :=
  if size > kHeapHeapSize then some (h, 0)
  else do
    let requestedBlockNumber := blockNumber size
    let requestedOrder ← ceilLog2 requestedBlockNumber
    match firstNonempty h.kHeapOrder (kHeapMaxOrder + 1 - requestedOrder) requestedOrder with
    | none => return (h, 0)
    | some currentOrder =>
      let h ← splitDown (currentOrder - requestedOrder) h requestedOrder
      h.takeFront requestedOrder

/-! ## `kfree` -/

/-- The cell that `kfree` frees, when the address passes both early returns. -/
def freedCell (h : KHeap) (addr : Nat) : Option Nat :=
  if addr < h.kHeapStart ∨ (h.kHeapStart + kHeapHeapSize) % 2 ^ 64 ≤ addr then none
  else
    let id := (addr - h.kHeapStart) / kHeapBlockSize
    if (h.kHeapBlocks id).isAllocated then some id else none

/-- The merge loop, where the first argument counts the orders left. -/
def mergeUp : Nat → KHeap → Nat → Nat → KHeap
  | 0, h, _, _ => h
  | left + 1, h, id, order =>
    let buddyId := id ^^^ (1 <<< order)
    if (h.kHeapBlocks buddyId).isAllocated then h
    else
      let h := h.deleteFromkHeapOrder order id
      let h := h.deleteFromkHeapOrder order buddyId
      let id := if id < buddyId then id else buddyId
      let h := h.addTokHeapOrder (order + 1) id
      mergeUp left h id (order + 1)

def kfree (h : KHeap) (addr : Nat) : KHeap :=
  match h.freedCell addr with
  | none => h
  | some id =>
    let order := (h.kHeapBlocks id).order
    let h := h.addTokHeapOrder order id
    mergeUp (kHeapMaxOrder - order) h id order

end KHeap
end Amaterasu
