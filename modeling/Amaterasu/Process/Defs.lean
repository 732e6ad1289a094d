import Mathlib.Logic.Basic

/-! The process records of `process.h`. A record stands for the kernel-heap object that holds it;
the links of the process list, `parent` and `ThreadInfo.process` are left out. -/

namespace Amaterasu

inductive ProcessState
  | running
  | sleep
  | zombie
deriving DecidableEq, Repr

structure ProcessMemory where
  userStackPageFrame : BitVec 64
  kernelStackPageFrame : BitVec 64
  textSegmentPageFrame : BitVec 64
  l4PageTableBase : BitVec 64
deriving DecidableEq

structure ThreadInfo where
  rsp : BitVec 64
  ring0rsp : BitVec 64
  cr3 : BitVec 64
  rip : BitVec 64
deriving DecidableEq

structure Process where
  pid : BitVec 32
  state : ProcessState
  threadInfo : ThreadInfo
  processMemory : ProcessMemory
deriving DecidableEq

end Amaterasu
