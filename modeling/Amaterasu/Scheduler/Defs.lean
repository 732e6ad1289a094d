import Amaterasu.KHeap.Runs
import Amaterasu.Library.Ring
import Amaterasu.Process.Defs

/-! The process list of `process.c` and the search through it in `scheduler.c`. A `struct List *` is
its address, and so is a `struct Process *`; `links` is what memory holds of `struct List` at each
address. The records' other fields play no part here. -/

namespace Amaterasu
open Function

def sizeofProcess : Nat := 48
def sizeofProcessMemory : Nat := 32
def sizeofThreadInfo : Nat := 40

/-- `&p->processes`. -/
def processNode (p : Nat) : Nat := p + 16

/-- `LIST_ENTRY(pl, struct Process, processes)`. -/
def listEntry (pl : Nat) : Nat := pl - 16

def listAdd (m : RingLinks Nat) (added prev : Nat) : RingLinks Nat :=
  let next := m.next prev
  let m := { m with next := update m.next prev added }
  let m := { m with prev := update m.prev added prev }
  let m := { m with prev := update m.prev next added }
  { m with next := update m.next added next }

def HeapSystem.kmalloc (s : HeapSystem) (size : Nat) : Option (HeapSystem × Nat) :=
  (s.heap.kmalloc size).map fun r => (HeapSystem.record size s.live r.1 r.2, r.2)

/-- One `kmalloc` after the other succeeds. -/
def HeapSystem.provides (s : HeapSystem) : List Nat → Bool
  | [] => true
  | size :: sizes =>
    match s.kmalloc size with
    | none => false
    | some r => r.2 ≠ 0 && HeapSystem.provides r.1 sizes

/-- `created` are the processes so far, the newest first. -/
structure TaskList where
  links : RingLinks Nat
  processList : Nat
  currentProcess : Nat
  heap : HeapSystem
  created : List Nat

namespace TaskList

/-- The `kmalloc`s of a fork, and of `ProcessInit`. -/
def recordSizes : List Nat := [sizeofProcess, sizeofProcessMemory, sizeofThreadInfo]

/-- `ProcessInit`, with `links` for what memory holds. -/
def processInit (links : RingLinks Nat) (processList : Nat) (heap : HeapSystem) :
    Option TaskList := do
  let links : RingLinks Nat :=
    ⟨update links.next processList processList, update links.prev processList processList⟩
  let process ← heap.kmalloc sizeofProcess
  let links := listAdd links (processNode process.2) processList
  let memory ← process.1.kmalloc sizeofProcessMemory
  let thread ← memory.1.kmalloc sizeofThreadInfo
  return ⟨links, processList, process.2, thread.1, [process.2]⟩

/-- `CopyProcess`, which inserts the copy before it gets a record of its memory and thread. -/
def copyProcess (s : TaskList) (original : Nat) : Option (TaskList × Nat) := do
  let process ← s.heap.kmalloc sizeofProcess
  let copy := processNode process.2
  -- `memcpy` copies the links as well
  let links : RingLinks Nat :=
    ⟨update s.links.next copy (s.links.next (processNode original)),
      update s.links.prev copy (s.links.prev (processNode original))⟩
  let links := listAdd links copy (processNode original)
  let memory ← process.1.kmalloc sizeofProcessMemory
  let thread ← memory.1.kmalloc sizeofThreadInfo
  return ({ s with links := links, heap := thread.1, created := process.2 :: s.created }, process.2)

/-- The condition of the loop of `FindNextTask`. -/
def isNext (s : TaskList) (state : Nat → ProcessState) (pl : Nat) : Bool :=
  pl ≠ s.processList && state (listEntry pl) = .running

/-- `FindNextTask` from the node `pl` on; `none` is a loop that has not ended after `n` rounds. -/
def findNextTask (s : TaskList) (state : Nat → ProcessState) : Nat → Nat → Option Nat
  | 0, _ => none
  | n + 1, pl =>
    let pl := s.links.next pl
    if s.isNext state pl then some (listEntry pl) else s.findNextTask state n pl

/-- The choice of `Schedule`. -/
def schedule (s : TaskList) (state : Nat → ProcessState) (n : Nat) : Option TaskList :=
  (s.findNextTask state n (processNode s.currentProcess)).map fun next =>
    { s with currentProcess := next }

/-- The processes that `k` calls of `Schedule` switch to. -/
def decisions (s : TaskList) (state : Nat → ProcessState) (n : Nat) : Nat → Option (List Nat)
  | 0 => some []
  | k + 1 => do
    let t ← s.schedule state n
    let ps ← decisions t state n k
    return t.currentProcess :: ps

/-- A fork by `parent`, all of whose `kmalloc`s succeed. -/
def fork (s : TaskList) (parent : Nat) : Option TaskList :=
  if parent ∈ s.created ∧ s.heap.provides recordSizes = true then
    (s.copyProcess parent).map Prod.fst
  else none

end TaskList
end Amaterasu
