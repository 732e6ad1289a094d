import Amaterasu.Library.Access
import Amaterasu.Process.Fork

/-! `sysFork` through the page table of the process that forks. The addresses of frames are used as
linear ones, and a page fault ends everything: `PageFaultHandler` does not return. What `kmalloc`
returns is the kernel's own and kept apart from this memory. -/

namespace Amaterasu
open Cpu PageWalk
namespace Paged

def setUpKernelStack (registers kernelStackBase : BitVec 64) : Accessing (BitVec 64) := do
  let sp := kernelStackBase - sizeofInterruptStack + 8
  Ram.copy sp registers sizeofInterruptStack.toNat
  return sp

/-- The result, and the frames still to come. -/
def setUpPageTable (frames : List (BitVec 64))
    (textSegmentPageFrame processStackBase : BitVec 64) :
    Accessing (BitVec 64 × List (BitVec 64)) := do
  let l3ptBaseLower := (allocatePageFrame frames).1
  let frames := (allocatePageFrame frames).2
  if l3ptBaseLower = 0 then return (0, frames) else
  Ram.modifyWords l3ptBaseLower l3PtLower 512
  let l1ptBaseHigher := (allocatePageFrame frames).1
  let frames := (allocatePageFrame frames).2
  if l1ptBaseHigher = 0 then return (0, frames) else
  Ram.modifyWords l1ptBaseHigher (l1PtHigher textSegmentPageFrame processStackBase) 512
  let l2ptBaseHigher := (allocatePageFrame frames).1
  let frames := (allocatePageFrame frames).2
  if l2ptBaseHigher = 0 then return (0, frames) else
  Ram.modifyWords l2ptBaseHigher (l2PtHigher l1ptBaseHigher) 512
  let l3ptBaseHigher := (allocatePageFrame frames).1
  let frames := (allocatePageFrame frames).2
  if l3ptBaseHigher = 0 then return (0, frames) else
  Ram.modifyWords l3ptBaseHigher (l3PtHigher l2ptBaseHigher) 512
  let l4ptBase := (allocatePageFrame frames).1
  let frames := (allocatePageFrame frames).2
  if l4ptBase = 0 then return (0, frames) else
  Ram.modifyWords l4ptBase (l4Pt l3ptBaseLower l3ptBaseHigher) 512
  return (l4ptBase, frames)

/-- The text segment of `CopyProcessMemory`: shared, or copied with the two stacks. -/
def copyTextSegment (frames : List (BitVec 64)) (cloneFlags : BitVec 8)
    (userStackPageFrame kernelStackPageFrame : BitVec 64) (originalPm : ProcessMemory) :
    Accessing (BitVec 64 × List (BitVec 64)) := do
  if cloneFlags &&& cloneVM ≠ 0 then return (originalPm.textSegmentPageFrame, frames) else
  let textSegmentPageFrame := (allocatePageFrame frames).1
  Ram.copy textSegmentPageFrame originalPm.textSegmentPageFrame 4096
  Ram.copy kernelStackPageFrame originalPm.kernelStackPageFrame 4096
  Ram.copy userStackPageFrame originalPm.userStackPageFrame 4096
  return (textSegmentPageFrame, (allocatePageFrame frames).2)

def copyProcessMemory (frames : List (BitVec 64)) (cloneFlags : BitVec 8)
    (originalPm : ProcessMemory) : Accessing (ProcessMemory × List (BitVec 64)) := do
  let userStackPageFrame := (allocatePageFrame frames).1
  let frames := (allocatePageFrame frames).2
  let kernelStackPageFrame := (allocatePageFrame frames).1
  let frames := (allocatePageFrame frames).2
  let text ← copyTextSegment frames cloneFlags userStackPageFrame kernelStackPageFrame originalPm
  let l4 ← setUpPageTable text.2 text.1 (userStackPageFrame - 8 + pageSize)
  return (⟨userStackPageFrame, kernelStackPageFrame, text.1, l4.1⟩, l4.2)

/-- The kernel stack of the child: its `ring0rsp`. -/
def setUpStack (shareVM : BitVec 8) (registers rsp : BitVec 64) (parent child : ProcessMemory) :
    Accessing (BitVec 64) := do
  if shareVM ≠ 0 then
    let top := child.kernelStackPageFrame - 8 + pageSize
    Ram.storeAll (Ram.wordBytes (registers + 32) top)
    Ram.storeAll (Ram.wordBytes (registers + 144) top)
    setUpKernelStack registers top
  else
    let childRsp := child.kernelStackPageFrame + (rsp - parent.kernelStackPageFrame)
    Ram.storeAll (Ram.wordBytes childRsp 0)
    return childRsp

/-- `DoFork`, where the registers are the `struct InterruptStack` at `registers`: the pid and the
record of the child, and the frames still to come. -/
def doFork (returnFromSysFork : BitVec 64) (frames : List (BitVec 64)) (shareVM : BitVec 8)
    (registers rsp : BitVec 64) (parent : Process) :
    Accessing (BitVec 32 × Process × List (BitVec 64)) := do
  let memory ← copyProcessMemory frames shareVM parent.processMemory
  let ring0rsp ← setUpStack shareVM registers rsp parent.processMemory memory.1
  let child := { parent with
    pid := newProcessId parent.pid
    threadInfo :=
      { rsp := ring0rsp
        ring0rsp := ring0rsp
        cr3 := memory.1.l4PageTableBase
        rip := returnFromSysFork }
    processMemory := memory.1 }
  return (child.pid, child, memory.2)

def sysFork (returnFromSysFork : BitVec 64) (frames : List (BitVec 64)) (rsp : BitVec 64)
    (currentProcess : Process) : Accessing (BitVec 32 × Process × List (BitVec 64)) :=
  doFork returnFromSysFork frames 0 rsp rsp currentProcess

/-- What `SyscallHandler` returns to, unless a page fault has ended it. -/
def forkReturn (low : Nat) (junk : State) (s : State) :
    EStateM.Result Unit Ram (BitVec 32 × Process × List (BitVec 64)) →
      Option (BitVec 32 × Process × State)
  | .ok r ram => some (r.1, r.2.1, { s with mem := ram.mem }.call low junk)
  | .error _ _ => none

def forkSyscall (returnFromSysFork : BitVec 64) (frames : List (BitVec 64)) (junk₁ junk₂ : State)
    (currentProcess : Process) (s : State) : Option (BitVec 32 × Process × State) :=
  let low := currentProcess.processMemory.kernelStackPageFrame.toNat
  let s := syscallEnter s
  let rsp := s.reg .rsp
  let s := s.call low junk₁
  forkReturn low junk₂ s (sysFork returnFromSysFork frames rsp currentProcess ⟨s.mem, s.cr3, [], []⟩)

end Paged
end Amaterasu
