import Amaterasu.Library.Cpu
import Amaterasu.Process.AddressSpace
import Amaterasu.Process.Defs

/-! `sysFork`, and the way into and out of it: `SyscallHandlerASM`, the switch of `Schedule` to a
new process and `return_from_sys_fork`. C code runs on the kernel stack below the stack pointer it
is called with; what it leaves there is not part of the model. -/

namespace Amaterasu
open Cpu

/-! ## The register frame -/

/-- The general registers of `struct InterruptStack`, the one at the lowest address first. -/
def generalRegisters : List Reg :=
  [.rax, .rbx, .rcx, .rdx, .rbp, .rsi, .rdi, .r8, .r9, .r10, .r11, .r12, .r13, .r14, .r15]

/-- The words of a `struct InterruptStack`. -/
def interruptStack (c : Context) : List (BitVec 64) := generalRegisters.map c.reg ++ c.trap

/-- The `struct InterruptStack` at `a`. -/
def readInterruptStack (m : ByteMemory) (a : Nat) : Context where
  reg r := if r = .rsp then m.readWord (a + 144) else m.readWord (a + 8 * generalRegisters.idxOf r)
  rip := m.readWord (a + 120)
  cs := m.readWord (a + 128)
  rflags := m.readWord (a + 136)
  ss := m.readWord (a + 152)

def sizeofInterruptStack : BitVec 64 := 160

def saveAllRegisters (s : State) : State :=
  s.pushRegs [.r15, .r14, .r13, .r12, .r11, .r10, .r9, .r8, .rdi, .rsi, .rbp, .rdx, .rcx, .rbx,
    .rax]

def popAllRegistersExcludeRax (s : State) : State :=
  s.popRegs [.rbx, .rcx, .rdx, .rbp, .rsi, .rdi, .r8, .r9, .r10, .r11, .r12, .r13, .r14, .r15]

def popAllRegisters (s : State) : State := popAllRegistersExcludeRax (s.popReg .rax)

/-! ## System calls -/

/-- `int $0x80`, and `SyscallHandlerASM` up to the call. -/
def syscallEnter (s : State) : State :=
  let s := saveAllRegisters s.interrupt
  s.setReg .rsi (s.reg .rsp)

/-- `SyscallHandlerASM` after `SyscallHandler` has returned `ret`. -/
def syscallLeave (ret : BitVec 64) (s : State) : State :=
  let s := s.setReg .rax ret
  (popAllRegistersExcludeRax (s.popReg .rcx)).iretq

/-! ## Fork -/

def cloneVM : BitVec 8 := 1

def newProcessId (pid : BitVec 32) : BitVec 32 := pid + 1

/-- `SetUpKernelStack`: the stack pointer, and the memory with the frame of `registers`. -/
def setUpKernelStack (m : ByteMemory) (registers : Context) (kernelStackBase : BitVec 64) :
    BitVec 64 × ByteMemory :=
  let sp := kernelStackBase - sizeofInterruptStack + 8
  (sp, m.writeWords sp.toNat (interruptStack registers))

def copyProcessMemory (m : ByteMemory) (frames : List (BitVec 64)) (cloneFlags : BitVec 8)
    (originalPm : ProcessMemory) : ProcessMemory × ByteMemory × List (BitVec 64) :=
  let (userStackPageFrame, frames) := allocatePageFrame frames
  let (kernelStackPageFrame, frames) := allocatePageFrame frames
  let (textSegmentPageFrame, m, frames) :=
    if cloneFlags &&& cloneVM ≠ 0 then (originalPm.textSegmentPageFrame, m, frames)
    else
      let (textSegmentPageFrame, frames) := allocatePageFrame frames
      let m := m.copy textSegmentPageFrame.toNat originalPm.textSegmentPageFrame.toNat 4096
      let m := m.copy kernelStackPageFrame.toNat originalPm.kernelStackPageFrame.toNat 4096
      let m := m.copy userStackPageFrame.toNat originalPm.userStackPageFrame.toNat 4096
      (textSegmentPageFrame, m, frames)
  let (l4PageTableBase, m, frames) :=
    setUpPageTable m frames textSegmentPageFrame (userStackPageFrame - 8 + pageSize)
  (⟨userStackPageFrame, kernelStackPageFrame, textSegmentPageFrame, l4PageTableBase⟩, m, frames)

/-- `CopyProcess`, with `CopyThreadInfo`, which copies the original's record. -/
def copyProcess (m : ByteMemory) (frames : List (BitVec 64)) (cloneFlags : BitVec 8)
    (original : Process) : Process × ByteMemory × List (BitVec 64) :=
  let (processMemory, m, frames) := copyProcessMemory m frames cloneFlags original.processMemory
  ({ original with pid := newProcessId original.pid, processMemory := processMemory }, m, frames)

/-- `DoFork`; `returnFromSysFork` is the address of `return_from_sys_fork`. The result is the pid
of the child. -/
def doFork (returnFromSysFork : BitVec 64) (m : ByteMemory) (frames : List (BitVec 64))
    (shareVM : BitVec 8) (registers : Context) (rsp : BitVec 64) (parent : Process) :
    BitVec 32 × Process × ByteMemory × List (BitVec 64) :=
  let (child, m, frames) := copyProcess m frames shareVM parent
  let kernelStackPageFrame := child.processMemory.kernelStackPageFrame
  let (ring0rsp, m) :=
    if shareVM ≠ 0 then
      let top := kernelStackPageFrame - 8 + pageSize
      let registers := { registers with
        reg := Function.update (Function.update registers.reg .rbp top) .rsp top }
      setUpKernelStack m registers top
    else
      let childRsp := kernelStackPageFrame + (rsp - parent.processMemory.kernelStackPageFrame)
      (childRsp, m.writeWord childRsp.toNat 0)
  let threadInfo : ThreadInfo :=
    { rsp := ring0rsp
      ring0rsp := ring0rsp
      cr3 := child.processMemory.l4PageTableBase
      rip := returnFromSysFork }
  (child.pid, { child with threadInfo := threadInfo }, m, frames)

def sysFork (returnFromSysFork : BitVec 64) (m : ByteMemory) (frames : List (BitVec 64))
    (rsp : BitVec 64) (currentProcess : Process) :
    BitVec 32 × Process × ByteMemory × List (BitVec 64) :=
  doFork returnFromSysFork m frames 0 (readInterruptStack m rsp.toNat) rsp currentProcess

/-- `SYSCALL_FORK` from the interrupt to the return of `SyscallHandler`. Compiled code, up to the
fork and from there on, uses the kernel stack below the frame. -/
def forkSyscall (returnFromSysFork : BitVec 64) (frames : List (BitVec 64)) (junk₁ junk₂ : State)
    (currentProcess : Process) (s : State) : BitVec 32 × Process × State :=
  let low := currentProcess.processMemory.kernelStackPageFrame.toNat
  let s := syscallEnter s
  let rsp := s.reg .rsp
  let s := s.call low junk₁
  let (ret, child, m, _) := sysFork returnFromSysFork s.mem frames rsp currentProcess
  (ret, child, { s with mem := m }.call low junk₂)

/-! ## The first switch to a child -/

/-- `Schedule` with the task `next` found, up to the `ret` of `SwitchKernelStack`; `load` is the
address of `.load`. -/
def schedule (load : BitVec 64) (junk : State) (prev next : Process) (s : State) :
    Process × State :=
  let s := s.push (s.reg .rbp)
  let s := s.push s.rflags
  let prev := { prev with
    threadInfo := { prev.threadInfo with rsp := s.reg .rsp, rip := load } }
  let s := { s with cr3 := next.processMemory.l4PageTableBase }
  let s := s.setReg .rsp next.threadInfo.rsp
  let s := s.push (s.reg .rdi)
  let s := s.push next.threadInfo.rip
  let s := s.setReg .rdi next.threadInfo.ring0rsp
  -- `SwitchKernelStack`, entered by a jump
  let s := { s with rsp0 := s.reg .rdi }
  (prev, (s.call next.processMemory.kernelStackPageFrame.toNat junk).ret)

/-- `return_from_sys_fork` on the kernel stack page from `low` on. -/
def returnFromSysFork (low : Nat) (junk : State) (s : State) : State :=
  let s := s.setReg .rdi 0x20
  -- `SendEndOfInterrupt`
  let s := s.call low junk
  (popAllRegisters (s.popReg .rdi)).iretq

end Amaterasu
