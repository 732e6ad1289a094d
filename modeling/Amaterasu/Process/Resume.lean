import Amaterasu.Process.UserMemory

/-! The saved registers on their way through a fork: what `SyscallHandlerASM` pushes, the parent
gets back with the pid in `rax`, and the child with 0. -/

namespace Amaterasu
open Cpu PageWalk Function

section Frames
variable {s : State} {c : Context} {ret : BitVec 64}

/-- The frame of registers after an interrupt that pushes from `top` on. -/
theorem saveAllRegisters_frame {top : BitVec 64} (h : 160 ≤ top.toNat) :
    (saveAllRegisters (s.interruptAt top)).sp = top.toNat - 160 ∧
      Words (saveAllRegisters (s.interruptAt top)).mem (saveAllRegisters (s.interruptAt top)).sp
        (interruptStack s.toContext) ∧
      ∀ x, x < top.toNat - 160 ∨ top.toNat ≤ x →
        (saveAllRegisters (s.interruptAt top)).mem x = s.mem x := by
  have hlen : 8 * generalRegisters.reverse.length + 40 = 160 := rfl
  have hframe := State.enter_words (s := s) top generalRegisters.reverse (by decide)
    (by rw [hlen]; exact h)
  rw [hlen, List.reverse_reverse] at hframe
  exact hframe

/-- The frame on the kernel stack when `SyscallHandler` is called. -/
theorem syscallEnter_frame (h : 160 ≤ s.top.toNat) :
    (syscallEnter s).sp = s.top.toNat - 160 ∧
    Words (syscallEnter s).mem (syscallEnter s).sp (interruptStack s.toContext) ∧
    ∀ x, x < s.top.toNat - 160 ∨ s.top.toNat ≤ x → (syscallEnter s).mem x = s.mem x := by
  have henter : syscallEnter s = (saveAllRegisters (s.interruptAt s.top)).setReg .rsi
      ((saveAllRegisters (s.interruptAt s.top)).reg .rsp) := rfl
  rw [henter, State.sp_setReg (by decide), State.setReg_mem]
  exact saveAllRegisters_frame h

/-- `SyscallHandlerASM` drops the saved `rax`. -/
theorem syscallLeave_context (hw : Words s.mem s.sp (interruptStack c)) (h : s.sp + 160 ≤ 2 ^ 64) :
    (syscallLeave ret s).toContext = { c with reg := update c.reg .rax ret } := by
  let t := (s.setReg .rax ret).popReg .rcx
  have hsp : t.sp = s.sp + 8 :=
    State.sp_popReg (s := s.setReg .rax ret) (by decide) (show s.sp + 8 < _ by omega)
  have hleave := State.leave_context (s := t) (c := c) [.rbx, .rcx, .rdx, .rbp, .rsi, .rdi,
    .r8, .r9, .r10, .r11, .r12, .r13, .r14, .r15] (by decide) (by decide)
    (by rw [hsp]; exact (by omega : s.sp + 8 + 8 * 14 < 2 ^ 64)) (by rw [hsp]; exact hw.2)
  refine hleave.trans ?_
  congr 1
  funext r
  cases r <;> rfl

theorem popAllRegisters_context (hw : Words s.mem s.sp (interruptStack c))
    (h : s.sp + 160 ≤ 2 ^ 64) : (popAllRegisters s).iretq.toContext = c := by
  have hlen : 8 * generalRegisters.length = 120 := rfl
  have hleave := State.leave_context (s := s) (c := c) generalRegisters (by decide)
    (by decide) (by rw [hlen]; omega) hw
  have hevery : ∀ r, r ∈ generalRegisters ∨ r = .rsp := by
    intro r
    cases r <;> decide
  have hreg : (fun r => if r ∈ generalRegisters ∨ r = .rsp then c.reg r else s.reg r) = c.reg := by
    funext r
    exact if_pos (hevery r)
  have hpop : popAllRegisters s = s.popRegs generalRegisters := by
    unfold popAllRegisters popAllRegistersExcludeRax State.popRegs generalRegisters
    simp only [List.foldl_cons]
  rw [hpop, hleave, hreg]

/-- `return_from_sys_fork` finds one word above which the frame lies. -/
theorem returnFromSysFork_context {low : Nat} {junk : State}
    (hw : Words s.mem (s.sp + 8) (interruptStack c)) (h : s.sp + 168 ≤ 2 ^ 64) :
    (returnFromSysFork low junk s).toContext = c := by
  have hrdi : (s.setReg .rdi 0x20).sp = s.sp := State.sp_setReg (by decide)
  have hcall : ((s.setReg .rdi 0x20).call low junk).sp = s.sp := State.sp_call.trans hrdi
  have hpop : (((s.setReg .rdi 0x20).call low junk).popReg .rdi).sp = s.sp + 8 := by
    rw [State.sp_popReg (by decide) (by rw [hcall]; omega), hcall]
  unfold returnFromSysFork
  apply popAllRegisters_context
  · rw [hpop]
    apply hw.congr
    intro x h1 _
    -- compiled code leaves the frame alone
    have habove : (s.setReg .rdi 0x20).sp ≤ x := by omega
    show ((s.setReg .rdi 0x20).call low junk).mem x = _
    rw [State.call_mem (Or.inr habove)]
    rfl
  · rw [hpop]
    omega

theorem returnFromSysFork_cr3 {low : Nat} {junk : State} :
    (returnFromSysFork low junk s).cr3 = s.cr3 := by
  unfold returnFromSysFork popAllRegisters popAllRegistersExcludeRax
  rw [State.iretq_cr3, State.popRegs_cr3, State.popReg_cr3, State.popReg_cr3, State.call_cr3,
    State.setReg_cr3]

end Frames

section Switch
variable {v w : BitVec 64} {s t : State}

/-- Two words are pushed, and compiled code returns to the second one. -/
theorem ret_of_pushed (low : Nat) (junk : State) (h : 16 ≤ s.sp) (hsp : t.sp = s.sp - 16)
    (hmem : t.mem = (s.pushAll [v, w]).mem) :
    (t.call low junk).ret.rip = w ∧ (t.call low junk).ret.sp = s.sp - 8 ∧
      ∀ x, s.sp ≤ x → (t.call low junk).ret.mem x = s.mem x := by
  have hwords := State.pushAll_words (s := s) [v, w] h
  have hcall : ∀ x, t.sp ≤ x → (t.call low junk).mem x = t.mem x := fun x hx =>
    State.call_mem (Or.inr hx)
  refine ⟨?_, ?_, fun x hx => ?_⟩
  · show (t.call low junk).mem.readWord (t.call low junk).sp = w
    rw [State.sp_call, hsp, ← hwords.1, ← hmem]
    apply ByteMemory.readWord_congr
    intro i _
    exact hcall _ (by omega)
  · have hrsp : (t.call low junk).sp = s.sp - 16 := State.sp_call.trans hsp
    have hlt : s.sp < 2 ^ 64 := (s.reg .rsp).isLt
    show (update (t.call low junk).reg .rsp ((t.call low junk).reg .rsp + 8) .rsp).toNat = _
    rw [update_self]
    unfold State.sp at hrsp hlt h ⊢
    bv_omega
  · show (t.call low junk).mem x = _
    rw [hcall x (by omega), hmem]
    exact State.pushAll_mem (s := s) [v, w] h (Or.inr hx)

/-- The switch lands at the saved `rip`, one word below the saved stack pointer. -/
theorem schedule_spec (load : BitVec 64) (junk : State) (prev next : Process) (hs : 16 ≤ s.sp)
    (hn : 16 ≤ next.threadInfo.rsp.toNat) :
    let u := (schedule load junk prev next s).2
    u.rip = next.threadInfo.rip ∧ u.sp = next.threadInfo.rsp.toNat - 8 ∧
      u.cr3 = next.processMemory.l4PageTableBase ∧ u.rsp0 = next.threadInfo.ring0rsp ∧
      ∀ x, next.threadInfo.rsp.toNat ≤ x → (x < s.sp - 16 ∨ s.sp ≤ x) → u.mem x = s.mem x := by
  -- the two words of the running thread
  let s₁ := (s.push (s.reg .rbp)).push (s.push (s.reg .rbp)).rflags
  have hs₁ : ∀ x, x < s.sp - 16 ∨ s.sp ≤ x → s₁.mem x = s.mem x := fun x hx =>
    State.pushAll_mem (s := s) [s.reg .rbp, (s.push (s.reg .rbp)).rflags] hs hx
  -- the two words of the next thread
  let s₂ := ({ s₁ with cr3 := next.processMemory.l4PageTableBase } : State).setReg .rsp
    next.threadInfo.rsp
  have hsp₂ : s₂.sp = next.threadInfo.rsp.toNat := State.sp_setReg_self
  let s₃ := s₂.pushAll [s₂.reg .rdi, next.threadInfo.rip]
  have hsp₃ : s₃.sp = s₂.sp - 16 := State.pushAll_sp _ (by rw [hsp₂]; exact hn)
  let s₄ : State := { s₃.setReg .rdi next.threadInfo.ring0rsp with
    rsp0 := next.threadInfo.ring0rsp }
  have hsp₄ : s₄.sp = s₂.sp - 16 := (State.sp_setReg (s := s₃) (by decide)).trans hsp₃
  have hret := ret_of_pushed (s := s₂) (t := s₄) (v := s₂.reg .rdi) (w := next.threadInfo.rip)
    next.processMemory.kernelStackPageFrame.toNat junk (by rw [hsp₂]; exact hn) hsp₄ rfl
  rw [hsp₂] at hret
  obtain ⟨hrip, hsp, hmem⟩ := hret
  exact ⟨hrip, hsp, rfl, rfl, fun x h1 h2 => (hmem x h1).trans (hs₁ x h2)⟩

end Switch
end Amaterasu
