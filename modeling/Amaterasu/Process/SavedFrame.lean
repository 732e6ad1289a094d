import Amaterasu.Process.Exec
import Amaterasu.Process.KernelStack

/-! The saved registers in every place that makes or reads them: the interrupt and
`SAVE_ALL_REGISTERS`, the two ways out of a handler, the stores of `sysExec` and the stack of a
kernel thread. -/

namespace Amaterasu
open Cpu Function

/-! ## `sysExec` -/

/-- The words that `sysExec` stores from `rsp` on, statement by statement. -/
def execWords (registers : Context) : List (BitVec 64) :=
  [registers.reg .rax, registers.reg .rbx, registers.reg .rcx, registers.reg .rdx,
    registers.reg .rbp, registers.reg .rsi, registers.reg .rdi, registers.reg .r8,
    registers.reg .r9, registers.reg .r10, registers.reg .r11, registers.reg .r12,
    registers.reg .r13, registers.reg .r14, registers.reg .r15, registers.rip, registers.cs,
    registers.rflags, registers.reg .rsp, registers.ss]

theorem execWords_eq (c : Context) : execWords c = interruptStack c := rfl

/-- The end of `sysExec`, and `return_from_sys_exec`. -/
def returnFromSysExec (rsp : BitVec 64) (s : State) : State :=
  (popAllRegisters (s.setReg .rsp rsp)).iretq

/-! ## `KernelThread` -/

def csSegmentSelectorKernel : BitVec 64 := 8

/-- The registers `KernelThread` hands to `DoFork`. -/
def kernelThreadRegisters (fn arg1 : BitVec 64) : Context where
  reg := update (fun _ => 0) .rdi arg1
  rip := fn
  cs := csSegmentSelectorKernel
  rflags := 0x202
  ss := 0

def kernelThread (returnFromSysFork : BitVec 64) (m : ByteMemory) (frames : List (BitVec 64))
    (fn arg1 : BitVec 64) (currentProcess : Process) :
    BitVec 32 × Process × ByteMemory × List (BitVec 64) :=
  doFork returnFromSysFork m frames cloneVM (kernelThreadRegisters fn arg1) 0 currentProcess

/-- The registers of a kernel thread with the stack base that `DoFork` fills in. -/
def threadContext (fn arg1 base : BitVec 64) : Context where
  reg r := if r = .rdi then arg1 else if r = .rbp ∨ r = .rsp then base else 0
  rip := fn
  cs := csSegmentSelectorKernel
  rflags := 0x202
  ss := 0

/-- What `KernelThread` leaves for the first switch to the thread. -/
structure ThreadReady (child : Process) (m : ByteMemory) (returnFromSysFork : BitVec 64)
    (c : Context) : Prop where
  rip : child.threadInfo.rip = returnFromSysFork
  rsp : child.threadInfo.rsp =
    child.processMemory.kernelStackPageFrame - 8 + pageSize - sizeofInterruptStack + 8
  frame : Words m child.threadInfo.rsp.toNat (interruptStack c)

section Thread
variable {fn arg1 addr : BitVec 64}

theorem threadContext_eq (fn arg1 base : BitVec 64) : threadContext fn arg1 base =
    { kernelThreadRegisters fn arg1 with
      reg := update (update (kernelThreadRegisters fn arg1).reg .rbp base) .rsp base } := by
  have hreg : (threadContext fn arg1 base).reg =
      update (update (kernelThreadRegisters fn arg1).reg .rbp base) .rsp base := by
    funext r
    cases r <;> rfl
  unfold threadContext at hreg ⊢
  rw [Context.mk.injEq]
  exact ⟨hreg, rfl, rfl, rfl, rfl⟩

theorem kernelThread_ready (addr : BitVec 64) (m : ByteMemory) (frames : List (BitVec 64))
    (fn arg1 : BitVec 64) (p : Process) :
    let r := kernelThread addr m frames fn arg1 p
    ThreadReady r.2.1 r.2.2.1 addr
      (threadContext fn arg1 (r.2.1.processMemory.kernelStackPageFrame - 8 + pageSize)) := by
  refine ⟨rfl, rfl, ?_⟩
  rw [threadContext_eq]
  exact writeWords_words _ _ _

/-- The kernel stack is the second page frame that `CopyProcessMemory` allocates. -/
theorem kernelThread_aligned (addr : BitVec 64) (m : ByteMemory) (fn arg1 : BitVec 64)
    (p : Process) {frames : List (BitVec 64)} (h : ∀ a ∈ frames, 4096 ∣ a.toNat) :
    4096 ∣ (kernelThread addr m frames fn arg1 p).2.1.processMemory.kernelStackPageFrame.toNat := by
  have hsecond : (kernelThread addr m frames fn arg1 p).2.1.processMemory.kernelStackPageFrame =
      (allocatePageFrame (allocatePageFrame frames).2).1 := rfl
  rw [hsecond]
  match frames, h with
  | [], _ => exact dvd_zero _
  | [_], _ => exact dvd_zero _
  | _ :: b :: _, h => exact h b (by simp)

variable {child : Process} {m : ByteMemory} {c : Context} {s : State}

theorem ThreadReady.rsp_toNat (h : ThreadReady child m addr c)
    (hk : 4096 ∣ child.processMemory.kernelStackPageFrame.toNat) :
    child.threadInfo.rsp.toNat = child.processMemory.kernelStackPageFrame.toNat + 3936 := by
  rw [h.rsp]
  generalize child.processMemory.kernelStackPageFrame = k at hk ⊢
  have hlt := k.isLt
  unfold pageSize sizeofInterruptStack
  bv_omega

/-- `Schedule` pushes two words below the frame, and `return_from_sys_fork` pops what is left. -/
theorem ThreadReady.resumes (h : ThreadReady child m addr c)
    (hk : 4096 ∣ child.processMemory.kernelStackPageFrame.toNat) (load : BitVec 64)
    (prev : Process) (junk junk' : State) (low : Nat) (hs : 16 ≤ s.sp)
    (hout : s.sp ≤ child.threadInfo.rsp.toNat ∨ child.threadInfo.rsp.toNat + 176 ≤ s.sp)
    (hmem : ∀ x, child.threadInfo.rsp.toNat ≤ x → x < child.threadInfo.rsp.toNat + 160 →
      s.mem x = m x) :
    (schedule load junk prev child s).2.rip = addr ∧
      (returnFromSysFork low junk' (schedule load junk prev child s).2).toContext = c := by
  have hrsp := h.rsp_toNat hk
  have hlt := child.processMemory.kernelStackPageFrame.isLt
  obtain ⟨hrip, hsp, -, -, hsmem⟩ := schedule_spec (s := s) load junk prev child hs (by omega)
  refine ⟨hrip.trans h.rip, returnFromSysFork_context ?_ (by omega)⟩
  rw [hsp, Nat.sub_add_cancel (by omega)]
  apply h.frame.congr
  intro x h1 h2
  have hlen : 8 * (interruptStack c).length = 160 := rfl
  rw [hsmem x h1 (by omega), hmem x h1 (by omega)]

end Thread

/-! ## Agreement -/

theorem returnFromSysExec_context {s : State} {m : ByteMemory} {rsp : BitVec 64} {c : Context}
    (hrsp : rsp.toNat + 160 ≤ 2 ^ 64) (hmem : ∀ x, rsp.toNat ≤ x → x < rsp.toNat + 160 →
      s.mem x = m.writeWords rsp.toNat (execWords c) x) :
    (returnFromSysExec rsp s).toContext = c := by
  have hsp : (s.setReg .rsp rsp).sp = rsp.toNat := State.sp_setReg_self
  apply popAllRegisters_context
  · rw [hsp, ← execWords_eq]
    exact (writeWords_words m rsp.toNat (execWords c)).congr hmem
  · rw [hsp]
    exact hrsp

/-- Every maker of a frame of registers writes an `InterruptStack`, and every reader loads the
registers of the `InterruptStack` it finds. Interrupts of user code push from the stack of the task
state segment on, those of kernel code from the running stack on. -/
theorem savedFrames_agree :
    (∀ (s : State) (top : BitVec 64), 160 ≤ top.toNat →
      (saveAllRegisters (s.interruptAt top)).sp = top.toNat - 160 ∧
      Words (saveAllRegisters (s.interruptAt top)).mem (saveAllRegisters (s.interruptAt top)).sp
        (interruptStack s.toContext) ∧
      ∀ x, x < top.toNat - 160 ∨ top.toNat ≤ x →
        (saveAllRegisters (s.interruptAt top)).mem x = s.mem x) ∧
    (∀ (s : State) (c : Context), s.sp + 160 ≤ 2 ^ 64 → Words s.mem s.sp (interruptStack c) →
      (popAllRegisters s).iretq.toContext = c ∧
      ∀ ret, (syscallLeave ret s).toContext = { c with reg := update c.reg .rax ret }) ∧
    (∀ (s : State) (m : ByteMemory) (rsp entryPoint : BitVec 64), rsp.toNat + 160 ≤ 2 ^ 64 →
      (∀ x, rsp.toNat ≤ x → x < rsp.toNat + 160 →
        s.mem x = m.writeWords rsp.toNat (execWords (execRegisters entryPoint)) x) →
      (returnFromSysExec rsp s).toContext = execRegisters entryPoint) ∧
    ∀ (addr fn arg1 : BitVec 64) (m : ByteMemory) (frames : List (BitVec 64)) (p : Process),
      (∀ a ∈ frames, 4096 ∣ a.toNat) →
      let child := (kernelThread addr m frames fn arg1 p).2.1
      let page := child.processMemory.kernelStackPageFrame
      page.toNat ≤ child.threadInfo.rsp.toNat ∧
      child.threadInfo.rsp.toNat + 160 ≤ page.toNat + 4096 ∧
      Words (kernelThread addr m frames fn arg1 p).2.2.1 child.threadInfo.rsp.toNat
        (interruptStack (threadContext fn arg1 (page - 8 + pageSize))) ∧
      ∀ (load : BitVec 64) (prev : Process) (junk junk' s : State) (low : Nat), 16 ≤ s.sp →
        (s.sp ≤ page.toNat ∨ page.toNat + 4096 + 16 ≤ s.sp) →
        (∀ x, child.threadInfo.rsp.toNat ≤ x → x < child.threadInfo.rsp.toNat + 160 →
          s.mem x = (kernelThread addr m frames fn arg1 p).2.2.1 x) →
        (schedule load junk prev child s).2.rip = addr ∧
        (returnFromSysFork low junk' (schedule load junk prev child s).2).toContext =
          threadContext fn arg1 (page - 8 + pageSize) := by
  refine ⟨fun s top h => saveAllRegisters_frame h, fun s c h hw => ?_,
    fun s m rsp entryPoint hrsp hmem => returnFromSysExec_context hrsp hmem, ?_⟩
  · exact ⟨popAllRegisters_context hw h, fun ret => syscallLeave_context hw h⟩
  · intro addr fn arg1 m frames p hframes child page
    have hready := kernelThread_ready addr m frames fn arg1 p
    have hk := kernelThread_aligned addr m fn arg1 p hframes
    have hrsp : child.threadInfo.rsp.toNat = page.toNat + 3936 := hready.rsp_toNat hk
    refine ⟨by omega, by omega, hready.frame, ?_⟩
    intro load prev junk junk' s low hs hout hmem
    have hapart : s.sp ≤ child.threadInfo.rsp.toNat ∨ child.threadInfo.rsp.toNat + 176 ≤ s.sp := by
      omega
    exact hready.resumes hk load prev junk junk' low hs hapart hmem

end Amaterasu
