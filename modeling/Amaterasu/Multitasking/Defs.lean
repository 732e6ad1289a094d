import Amaterasu.Library.Suspension
import Amaterasu.PhysicalMemory.Runs
import Amaterasu.Process.Duplicate
import Amaterasu.Process.SavedFrame

/-! One processor shared by processes. User code runs and makes system calls, devices interrupt it,
and from the timer, `sleep` and `sysExit` on `Schedule` goes on with some process that is
`PROCESS_RUNNING`. -/

namespace Amaterasu
open Cpu PageWalk Function

/-- What compiling and linking fix: the addresses that `Schedule` and `DoFork` write into
`threadInfo->rip`, and how far below the frame of registers the stack pointer is in `Schedule`
when `HPETHandler`, `sleep` and `sysExit` call it. -/
structure Link where
  load : BitVec 64
  returnFromSysFork : BitVec 64
  timerDepth : Nat
  sleepDepth : Nat
  exitDepth : Nat
  distinct : returnFromSysFork ≠ load

/-- Where a process is suspended: in a system call, or by the timer. -/
def Link.depth (l : Link) (inCall : Bool) : Nat := if inCall then l.sleepDepth else l.timerDepth

/-- `calls` calls of `AllocatePageFrames(1)`, and the addresses they return. -/
def FrameSystem.allocateOnes : Nat → FrameSystem → Option (FrameSystem × List (BitVec 64))
  | 0, s => some (s, [])
  | calls + 1, s => do
    let r ← s.frames.allocatePageFrames 1
    let s ← s.step (.allocate 1)
    let (s, addresses) ← allocateOnes calls s
    return (s, BitVec.ofNat 64 r.2 :: addresses)

def ForkFrames.ofList : List (BitVec 64) → Option ForkFrames
  | [userStack, kernelStack, text, l3Lower, l1, l2, l3, l4] =>
    some ⟨userStack, kernelStack, text, ⟨l3Lower, l1, l2, l3, l4⟩⟩
  | _ => none

/-- An instruction of user code: from the registers and what it can load to the registers and the
stores, the first one first. -/
abbrev UserCode := Context → (BitVec 64 → Option (BitVec 8)) →
  Context × List (BitVec 64 × BitVec 8)

/-- What a system call that has slept does in the end: the bytes it stores through the caller's
pointers, and what it returns. -/
structure CallResult where
  stores : List (BitVec 64 × BitVec 8)
  ret : BitVec 64

/-- A change of the process: `next` is the one that `FindNextTask` finds, and `result` is that of
its system call if it has slept in one. The states are what compiled code leaves behind. -/
structure Turn where
  next : Nat
  result : CallResult
  junk₁ : State
  junk₂ : State
  junk₃ : State

/-- Of each process, `tables` are the frames that its page table is made of, `suspended` is the
processor when the process last called `Schedule`, and `inCall` that `sleep` did. -/
structure Machine where
  cpu : State
  process : Nat → Process
  created : List Nat
  currentProcess : Nat
  frames : FrameSystem
  tables : Nat → TableFrames
  suspended : Nat → State
  inCall : Nat → Bool

/-- `call` is a system call that stores nothing and does not sleep, `exec` one that loads the first
`size` bytes of `image`, and `interrupt` the keyboard's or the disk's, which may wake a process.
`child` is the record that `kmalloc` returns. -/
inductive MachineEvent
  | user (code : UserCode)
  | call (ret : BitVec 64) (junk : State)
  | exec (entryPoint : BitVec 64) (image : Nat → BitVec 8) (size : Nat) (junk : State)
  | fork (child : Nat) (junk₁ junk₂ : State)
  | interrupt (woken : Option Nat) (junk : State)
  | timer (turn : Turn)
  | sleep (turn : Turn)
  | exit (turn : Turn)

namespace Machine

def kernelStack (s : Machine) (p : Nat) : BitVec 64 :=
  (s.process p).processMemory.kernelStackPageFrame

def Runnable (s : Machine) (p : Nat) : Prop := p ∈ s.created ∧ (s.process p).state = .running

instance (s : Machine) : DecidablePred s.Runnable := fun p =>
  inferInstanceAs (Decidable (p ∈ s.created ∧ (s.process p).state = .running))

/-- The end of a system call that has slept. -/
def finish (result : CallResult) (s : State) : State :=
  syscallLeave result.ret { s with
    mem := result.stores.foldl (fun m w => userStore m s.cr3 w.1 w.2) s.mem }

/-- From the `ret` with which `Schedule` leaves `SwitchKernelStack` to user mode: at `.load`, back
through `Schedule` and its callers into `HPETHandlerASM` or `SyscallHandlerASM`, or at
`return_from_sys_fork`. -/
def goOn (l : Link) (low : Nat) (inCall : Bool) (result : CallResult) (suspended junk s : State) :
    State :=
  if s.rip = l.load then
    let s := (((s.popReg .rdi).popFlags).popReg .rbp).ascend suspended low (l.depth inCall) junk
    if inCall then finish result s else (popAllRegisters s).iretq
  else if s.rip = l.returnFromSysFork then returnFromSysFork low junk s
  else junk

/-- `Schedule` from its inline assembly on, when `FindNextTask` has found another process. -/
def switch (l : Link) (s : Machine) (entered : State) (t : Turn) : Machine :=
  let r := schedule l.load t.junk₂ (s.process s.currentProcess) (s.process t.next) entered
  let low := (s.kernelStack t.next).toNat
  { s with
    cpu := goOn l low (s.inCall t.next) t.result (s.suspended t.next) t.junk₃ r.2
    process := update s.process s.currentProcess r.1
    currentProcess := t.next
    suspended := update s.suspended s.currentProcess entered
    inCall := update s.inCall t.next false }

/-- The timer's interrupt, from the gate to `Schedule`. -/
def enterTimer (l : Link) (s : Machine) (junk : State) : State :=
  (saveAllRegisters s.cpu.interrupt).descend (s.kernelStack s.currentProcess).toNat l.timerDepth
    junk

/-- A system call, from the gate to a `Schedule` that is called `depth` bytes below the frame. -/
def enterCall (s : Machine) (depth : Nat) (junk : State) : State :=
  (syscallEnter s.cpu).descend (s.kernelStack s.currentProcess).toNat depth junk

def setState (s : Machine) (p : Nat) (state : ProcessState) : Machine :=
  { s with process := update s.process p { s.process p with state := state } }

/-- `sysExec` from user mode, when it finds a program that fits into the text segment. -/
def exec (s : Machine) (entryPoint : BitVec 64) (image : Nat → BitVec 8) (size : Nat)
    (junk : State) : State :=
  let processMemory := (s.process s.currentProcess).processMemory
  let low := processMemory.kernelStackPageFrame.toNat
  let text := processMemory.textSegmentPageFrame.toNat
  let entered := syscallEnter s.cpu
  let rsp := entered.reg .rsp
  -- the file is read into a buffer
  let t := entered.call low junk
  let m : ByteMemory := fun x => if text ≤ x ∧ x < text + size then image (x - text) else t.mem x
  let t : State := { t with
    mem := m.writeWords rsp.toNat (execWords (execRegisters entryPoint))
    rsp0 := processMemory.kernelStackPageFrame - 8 + pageSize }
  -- the buffer is freed
  returnFromSysExec rsp (t.call low junk)

def step (l : Link) (s : Machine) : MachineEvent → Option Machine
  | .user code =>
    let r := code s.cpu.toContext (userLoad s.cpu.mem s.cpu.cr3)
    some { s with cpu := { s.cpu with
      toContext := r.1
      mem := r.2.foldl (fun m w => userStore m s.cpu.cr3 w.1 w.2) s.cpu.mem } }
  | .call ret junk =>
    let low := (s.kernelStack s.currentProcess).toNat
    some { s with cpu := syscallLeave ret ((syscallEnter s.cpu).call low junk) }
  | .exec entryPoint image size junk =>
    if size ≤ 4096 then some { s with cpu := s.exec entryPoint image size junk } else none
  | .fork child junk₁ junk₂ =>
    if child ∈ s.created then none
    else do
      let (frames, addresses) ← s.frames.allocateOnes 8
      let n ← ForkFrames.ofList addresses
      if 0 ∈ addresses then none
      else
        let r := forkSyscall l.returnFromSysFork addresses junk₁ junk₂
          (s.process s.currentProcess) s.cpu
        some { s with
          cpu := syscallLeave (r.1.signExtend 64) r.2.2
          process := update s.process child r.2.1
          created := child :: s.created
          frames := frames
          tables := update s.tables child n.tables
          inCall := update s.inCall child false }
  | .interrupt woken junk =>
    let low := (s.kernelStack s.currentProcess).toNat
    let s := { s with
      cpu := (popAllRegisters ((saveAllRegisters s.cpu.interrupt).call low junk)).iretq }
    match woken with
    | none => some s
    -- the process of the request at the front of the queue waits for it
    | some p => if p ∈ s.created ∧ (s.process p).state = .sleep then some (s.setState p .running)
      else none
  | .timer t =>
    if s.Runnable t.next then
      let entered := s.enterTimer l t.junk₁
      if t.next = s.currentProcess then
        -- `Schedule` returns at once
        let low := (s.kernelStack s.currentProcess).toNat
        some { s with
          cpu := (popAllRegisters (entered.ascend entered low l.timerDepth t.junk₃)).iretq }
      else some (s.switch l entered t)
    else none
  | .sleep t =>
    let r := s.setState s.currentProcess .sleep
    let r := { r with inCall := update r.inCall s.currentProcess true }
    if r.Runnable t.next then some (r.switch l (s.enterCall l.sleepDepth t.junk₁) t) else none
  | .exit t =>
    let r := s.setState s.currentProcess .zombie
    if r.Runnable t.next then some (r.switch l (s.enterCall l.exitDepth t.junk₁) t) else none

/-- The kernel stack of the current process has room for what the event needs of it. -/
def HasRoom (l : Link) (s : Machine) (e : MachineEvent) : Prop :=
  let room (depth : Nat) := (s.kernelStack s.currentProcess).toNat + depth + 192 ≤ s.cpu.top.toNat
  match e with
  | .user _ => True
  | .call .. | .exec .. | .fork .. | .interrupt .. => room 0
  | .timer _ => room l.timerDepth
  | .sleep _ => room l.sleepDepth
  | .exit _ => room l.exitDepth

end Machine
end Amaterasu
