import Amaterasu.Multitasking.Defs

/-! A process that is put away on its kernel stack, and the way back to its user code. -/

namespace Amaterasu
open Cpu Function

/-- Where the registers of a process are that does not run. -/
inductive Parked (l : Link) (m : ByteMemory) (p : Process) (saved : State) (inCall : Bool)
    (c : Context) : Prop
  | suspended (hrip : p.threadInfo.rip = l.load)
      (hroom : p.processMemory.kernelStackPageFrame.toNat + 16 ≤ p.threadInfo.rsp.toNat)
      (hsuspended : Suspended m saved (l.depth inCall) p.threadInfo.rsp)
      (hframe : Words m (saved.sp + l.depth inCall) (interruptStack c))
      (hbelow : saved.sp + l.depth inCall + 160 ≤
        p.processMemory.kernelStackPageFrame.toNat + 4096)
  | forked (hrip : p.threadInfo.rip = l.returnFromSysFork) (hcall : inCall = false)
      (hroom : p.processMemory.kernelStackPageFrame.toNat + 16 ≤ p.threadInfo.rsp.toNat)
      (hframe : Words m p.threadInfo.rsp.toNat (interruptStack c))
      (hbelow : p.threadInfo.rsp.toNat + 160 ≤
        p.processMemory.kernelStackPageFrame.toNat + 4096)

section Parked
variable {l : Link} {m m' : ByteMemory} {p : Process} {saved s junk : State} {c : Context}
  {inCall : Bool}

theorem Parked.room (h : Parked l m p saved inCall c) :
    p.processMemory.kernelStackPageFrame.toNat + 16 ≤ p.threadInfo.rsp.toNat ∧
      p.threadInfo.rsp.toNat + 160 ≤ p.processMemory.kernelStackPageFrame.toNat + 4096 := by
  cases h with
  | suspended hrip hroom hsuspended hframe hbelow =>
    have hsp := hsuspended.sp
    exact ⟨hroom, by omega⟩
  | forked hrip hcall hroom hframe hbelow => exact ⟨hroom, hbelow⟩

/-- It is all on the kernel stack. -/
theorem Parked.congr (h : Parked l m p saved inCall c)
    (hm : ∀ x, p.threadInfo.rsp.toNat ≤ x →
      x < p.processMemory.kernelStackPageFrame.toNat + 4096 → m' x = m x) :
    Parked l m' p saved inCall c := by
  have hlen : 8 * (interruptStack c).length = 160 := rfl
  cases h with
  | suspended hrip hroom hsuspended hframe hbelow =>
    have hsp := hsuspended.sp
    refine .suspended hrip hroom (hsuspended.congr fun x h1 h2 => hm x h1 (by omega)) ?_ hbelow
    exact hframe.congr fun x h1 h2 => hm x (by omega) (by omega)
  | forked hrip hcall hroom hframe hbelow =>
    exact .forked hrip hcall hroom (hframe.congr fun x h1 h2 => hm x h1 (by omega)) hbelow

/-- `Schedule` has just switched to it. -/
structure Arrived (p : Process) (s : State) : Prop where
  rip : s.rip = p.threadInfo.rip
  sp : s.sp + 8 = p.threadInfo.rsp.toNat

theorem popAllRegisters_iretq (s : State) : (popAllRegisters s).iretq.cr3 = s.cr3 ∧
    (popAllRegisters s).iretq.rsp0 = s.rsp0 ∧ (popAllRegisters s).iretq.mem = s.mem := by
  unfold popAllRegisters popAllRegistersExcludeRax
  rw [State.iretq_cr3, State.popRegs_cr3, State.iretq_rsp0, State.popRegs_rsp0, State.iretq_mem,
    State.popRegs_mem]
  exact ⟨rfl, rfl, rfl⟩

theorem syscallLeave_frame (v : BitVec 64) (s : State) : (syscallLeave v s).cr3 = s.cr3 ∧
    (syscallLeave v s).rsp0 = s.rsp0 ∧ (syscallLeave v s).mem = s.mem := by
  unfold syscallLeave popAllRegistersExcludeRax
  rw [State.iretq_cr3, State.popRegs_cr3, State.iretq_rsp0, State.popRegs_rsp0, State.iretq_mem,
    State.popRegs_mem]
  exact ⟨rfl, rfl, rfl⟩

/-- The end of the handler: the stack pointer of `u` is at the frame of registers. -/
def leave (inCall : Bool) (result : CallResult) (u : State) : State :=
  if inCall then Machine.finish result u else (popAllRegisters u).iretq

/-- The handler is about to leave: the registers of user mode are at the stack pointer of `u`. -/
structure Leaving (k : BitVec 64) (s u : State) (c : Context) : Prop where
  cr3 : u.cr3 = s.cr3
  rsp0 : u.rsp0 = s.rsp0
  above : k.toNat ≤ u.sp
  below : u.sp + 160 ≤ k.toNat + 4096
  frame : Words u.mem u.sp (interruptStack c)
  outside : ∀ x, Outside k x → u.mem x = s.mem x

theorem Leaving.returns {k : BitVec 64} {u : State} (h : Leaving k s u c) (hk : IsFrame k) :
    let t := (popAllRegisters u).iretq
    t.toContext = c ∧ t.cr3 = s.cr3 ∧ t.rsp0 = s.rsp0 ∧ ∀ x, Outside k x → t.mem x = s.mem x := by
  have hlt := hk.below
  have hbelow := h.below
  obtain ⟨hcr3, hrsp0, hmem⟩ := popAllRegisters_iretq u
  exact ⟨popAllRegisters_context h.frame (by omega), hcr3.trans h.cr3, hrsp0.trans h.rsp0,
    fun x hx => (congrFun hmem x).trans (h.outside x hx)⟩

/-- It goes on to where the handler leaves with the registers it was put away with. -/
theorem Parked.goOn (h : Parked l s.mem p saved inCall c) (ha : Arrived p s) (junk : State)
    (result : CallResult) :
    ∃ u, Machine.goOn l p.processMemory.kernelStackPageFrame.toNat inCall result saved junk s =
      leave inCall result u ∧ Leaving p.processMemory.kernelStackPageFrame s u c := by
  have hroom := h.room
  have hlen : 8 * (interruptStack c).length = 160 := rfl
  unfold Machine.goOn
  rw [ha.rip]
  cases h with
  | suspended hrip _ hsuspended hframe hbelow =>
    rw [if_pos hrip]
    have hsuspendedSp := hsuspended.sp
    obtain ⟨hsp, hcr3, hrsp0, hmem⟩ := hsuspended.returns
      p.processMemory.kernelStackPageFrame.toNat junk ha.sp
    refine ⟨_, rfl, hcr3, hrsp0, by omega, by omega, ?_, fun x hx => hmem x ?_⟩
    · rw [hsp]
      exact hframe.congr fun x h1 _ => hmem x (Or.inr h1)
    · unfold Outside at hx
      omega
  | forked hrip hcall _ hframe hbelow =>
    rw [hrip, if_neg l.distinct, if_pos rfl, hcall]
    have hat := ha.sp
    have hlt := p.threadInfo.rsp.isLt
    have hsp : (s.setReg .rdi 0x20).sp = s.sp := State.sp_setReg (by decide)
    let t := (s.setReg .rdi 0x20).call p.processMemory.kernelStackPageFrame.toNat junk
    have ht : t.sp = s.sp := State.sp_call.trans hsp
    have hu : (t.popReg .rdi).sp = s.sp + 8 := by
      rw [State.sp_popReg (by decide) (by omega), ht]
    have hmem : ∀ x, x < p.processMemory.kernelStackPageFrame.toNat ∨ s.sp ≤ x →
        (t.popReg .rdi).mem x = s.mem x := fun x hx => by
      rw [State.popReg_mem]
      exact State.call_mem (by rw [hsp]; exact hx)
    refine ⟨t.popReg .rdi, ?_, ?_, ?_, by omega, by omega, ?_, fun x hx => hmem x ?_⟩
    · unfold leave returnFromSysFork
      rw [if_neg Bool.false_ne_true]
    · rfl
    · rfl
    · rw [hu, hat]
      exact hframe.congr fun x h1 _ => hmem x (Or.inr (by omega))
    · unfold Outside at hx
      omega

end Parked

/-! ## The switch -/

section Schedule
variable {s : State}

/-- Two words are pushed on the running stack. The rest happens on the next one, below the stack
pointer that it was put away with. -/
theorem schedule_mem (load : BitVec 64) (junk : State) (prev next : Process)
    (hn : next.processMemory.kernelStackPageFrame.toNat + 16 ≤ next.threadInfo.rsp.toNat) {x : Nat}
    (hx : x < next.processMemory.kernelStackPageFrame.toNat ∨ next.threadInfo.rsp.toNat ≤ x) :
    (schedule load junk prev next s).2.mem x = (s.pushAll [s.reg .rbp, s.rflags]).mem x := by
  let s₁ := s.pushAll [s.reg .rbp, s.rflags]
  let s₂ := ({ s₁ with cr3 := next.processMemory.l4PageTableBase } : State).setReg .rsp
    next.threadInfo.rsp
  have hsp₂ : s₂.sp = next.threadInfo.rsp.toNat := State.sp_setReg_self
  let vs := [s₂.reg .rdi, next.threadInfo.rip]
  have hlen : 8 * vs.length = 16 := rfl
  have hsp₃ : (s₂.pushAll vs).sp = s₂.sp - 16 := State.pushAll_sp vs (by omega)
  let s₄ : State := { (s₂.pushAll vs).setReg .rdi next.threadInfo.ring0rsp with
    rsp0 := next.threadInfo.ring0rsp }
  have hsp₄ : s₄.sp = s₂.sp - 16 :=
    (State.sp_setReg (s := s₂.pushAll vs) (by decide)).trans hsp₃
  calc (schedule load junk prev next s).2.mem x
      = (s₄.call next.processMemory.kernelStackPageFrame.toNat junk).mem x := rfl
    _ = (s₂.pushAll vs).mem x := State.call_mem (by omega)
    _ = s₁.mem x := State.pushAll_mem (s := s₂) vs (by omega) (by omega)

theorem schedule_outside (load : BitVec 64) (junk : State) (prev next : Process) (hs : 16 ≤ s.sp)
    (hn : next.processMemory.kernelStackPageFrame.toNat + 16 ≤ next.threadInfo.rsp.toNat) {x : Nat}
    (hx : x < s.sp - 16 ∨ s.sp ≤ x)
    (hx' : x < next.processMemory.kernelStackPageFrame.toNat ∨ next.threadInfo.rsp.toNat ≤ x) :
    (schedule load junk prev next s).2.mem x = s.mem x :=
  (schedule_mem load junk prev next hn hx').trans
    (State.pushAll_mem (s := s) [s.reg .rbp, s.rflags] hs hx)

/-- The record of the process that is put away. -/
theorem schedule_prev (load : BitVec 64) (junk : State) (prev next : Process) (hs : 16 ≤ s.sp) :
    let prev' := (schedule load junk prev next s).1
    prev'.threadInfo.rip = load ∧ prev'.threadInfo.rsp.toNat = s.sp - 16 ∧
      prev'.threadInfo.ring0rsp = prev.threadInfo.ring0rsp ∧
      prev'.processMemory = prev.processMemory ∧ prev'.state = prev.state ∧
      prev'.pid = prev.pid := by
  refine ⟨rfl, ?_, rfl, rfl, rfl, rfl⟩
  exact State.pushAll_sp (s := s) [s.reg .rbp, (s.push (s.reg .rbp)).rflags] hs

/-- The frame pointer is put away below what `Schedule` has of the stack. -/
theorem schedule_frame (load : BitVec 64) (junk : State) (prev next : Process) (hs : 16 ≤ s.sp)
    (hn : next.processMemory.kernelStackPageFrame.toNat + 16 ≤ next.threadInfo.rsp.toNat)
    (hapart : s.sp ≤ next.processMemory.kernelStackPageFrame.toNat ∨
      next.threadInfo.rsp.toNat + 8 ≤ s.sp) :
    (schedule load junk prev next s).2.mem.readWord (s.sp - 8) = s.reg .rbp := by
  have hwords := State.pushAll_words (s := s) [s.reg .rbp, s.rflags] hs
  have hat : s.sp - 8 * [s.reg .rbp, s.rflags].length + 8 = s.sp - 8 := by
    have hlen : 8 * [s.reg .rbp, s.rflags].length = 16 := rfl
    omega
  have hword := hwords.2.1
  rw [hat] at hword
  refine Eq.trans ?_ hword
  apply ByteMemory.readWord_congr
  intro i hi
  exact schedule_mem load junk prev next hn (by omega)

end Schedule

/-! ## The way in -/

/-- In `e` compiled code is `depth` bytes below the frame of registers that `s` has left on its
kernel stack `k`. -/
structure Entered (k : BitVec 64) (depth : Nat) (s e : State) : Prop where
  cr3 : e.cr3 = s.cr3
  rsp0 : e.rsp0 = s.rsp0
  room : k.toNat + 32 ≤ e.sp
  below : e.sp + depth + 160 ≤ k.toNat + 4096
  frame : Words e.mem (e.sp + depth) (interruptStack s.toContext)
  outside : ∀ x, Outside k x → e.mem x = s.mem x

section Entered
variable {k : BitVec 64} {depth : Nat} {s e u : State}

theorem entered_descend (junk : State) (hroom : k.toNat + depth + 192 ≤ s.top.toNat)
    (hbelow : s.top.toNat ≤ k.toNat + 4096) (hcr3 : u.cr3 = s.cr3) (hrsp0 : u.rsp0 = s.rsp0)
    (hsp : u.sp = s.top.toNat - 160) (hframe : Words u.mem u.sp (interruptStack s.toContext))
    (hmem : ∀ x, x < s.top.toNat - 160 ∨ s.top.toNat ≤ x → u.mem x = s.mem x) :
    Entered k depth s (u.descend k.toNat depth junk) := by
  have hdescend : (u.descend k.toNat depth junk).sp = u.sp - depth :=
    State.sp_descend (by omega)
  refine ⟨hcr3, hrsp0, by omega, by omega, ?_, fun x hx => ?_⟩
  · have hat : (u.descend k.toNat depth junk).sp + depth = u.sp := by omega
    rw [hat]
    exact hframe.congr fun x h1 _ => State.descend_mem (Or.inr h1)
  · unfold Outside at hx
    rw [State.descend_mem (by omega), hmem x (by omega)]

theorem saveAllRegisters_entered (junk : State) (hroom : k.toNat + depth + 192 ≤ s.top.toNat)
    (hbelow : s.top.toNat ≤ k.toNat + 4096) :
    Entered k depth s ((saveAllRegisters s.interrupt).descend k.toNat depth junk) := by
  obtain ⟨hsp, hframe, hmem⟩ := saveAllRegisters_frame (s := s)
    (show 160 ≤ s.top.toNat by omega)
  exact entered_descend junk hroom hbelow rfl rfl hsp hframe hmem

theorem syscallEnter_entered (junk : State) (hroom : k.toNat + depth + 192 ≤ s.top.toNat)
    (hbelow : s.top.toNat ≤ k.toNat + 4096) :
    Entered k depth s ((syscallEnter s).descend k.toNat depth junk) := by
  obtain ⟨hsp, hframe, hmem⟩ := syscallEnter_frame (s := s) (by omega)
  exact entered_descend junk hroom hbelow rfl rfl hsp hframe hmem

/-- A handler that does not call `Schedule`. -/
theorem saveAllRegisters_leaving (junk : State) (hroom : k.toNat + 192 ≤ s.top.toNat)
    (hbelow : s.top.toNat ≤ k.toNat + 4096) :
    Leaving k s ((saveAllRegisters s.interrupt).call k.toNat junk) s.toContext := by
  obtain ⟨hsp, hframe, hmem⟩ := saveAllRegisters_frame (s := s) (show 160 ≤ s.top.toNat by omega)
  have hcall : ((saveAllRegisters s.interrupt).call k.toNat junk).sp = s.top.toNat - 160 :=
    State.sp_call.trans hsp
  refine ⟨rfl, rfl, by omega, by omega, ?_, fun x hx => ?_⟩
  · rw [hcall, ← hsp]
    exact hframe.congr fun x h1 _ => State.call_mem (Or.inr h1)
  · unfold Outside at hx
    have hsp' : (saveAllRegisters s.interrupt).sp = s.top.toNat - 160 := hsp
    rw [State.call_mem (by omega)]
    exact hmem x (by omega)

theorem syscallEnter_leaving (junk : State) (hroom : k.toNat + 192 ≤ s.top.toNat)
    (hbelow : s.top.toNat ≤ k.toNat + 4096) :
    Leaving k s ((syscallEnter s).call k.toNat junk) s.toContext := by
  obtain ⟨hsp, hframe, hmem⟩ := syscallEnter_frame (s := s) (by omega)
  have hcall : ((syscallEnter s).call k.toNat junk).sp = s.top.toNat - 160 :=
    State.sp_call.trans hsp
  refine ⟨rfl, rfl, by omega, by omega, ?_, fun x hx => ?_⟩
  · rw [hcall, ← hsp]
    exact hframe.congr fun x h1 _ => State.call_mem (Or.inr h1)
  · unfold Outside at hx
    rw [State.call_mem (by omega)]
    exact hmem x (by omega)

/-- `Schedule` finds the process that runs: it returns to `HPETHandlerASM`. -/
theorem Entered.back (h : Entered k depth s e) (hk : IsFrame k) (junk : State) :
    Leaving k s (e.ascend e k.toNat depth junk) s.toContext := by
  have hlt := hk.below
  have hbelow := h.below
  have hroom := h.room
  have hfits : e.sp + depth < 2 ^ 64 := by omega
  obtain ⟨hsp, hcr3, hrsp0, hmem⟩ := State.ascend_spec k.toNat junk rfl rfl hfits fun _ _ => rfl
  refine ⟨hcr3.trans h.cr3, hrsp0.trans h.rsp0, by omega, by omega, ?_, fun x hx => ?_⟩
  · rw [hsp]
    exact h.frame.congr fun x h1 _ => hmem x (Or.inr h1)
  · rw [← h.outside x hx]
    unfold Outside at hx
    exact hmem x (by omega)

/-- Another process goes on where it was put away, and the one that entered is put away. -/
theorem Entered.switch {l : Link} {prev next : Process} {saved : State} {c : Context}
    {inCall : Bool} (h : Entered prev.processMemory.kernelStackPageFrame depth s e)
    (hprev : IsFrame prev.processMemory.kernelStackPageFrame)
    (hnext : IsFrame next.processMemory.kernelStackPageFrame)
    (hne : prev.processMemory.kernelStackPageFrame ≠ next.processMemory.kernelStackPageFrame)
    (hparked : Parked l s.mem next saved inCall c) (result : CallResult) (junk₂ junk₃ : State) :
    let r := schedule l.load junk₂ prev next e
    ∃ u, Machine.goOn l next.processMemory.kernelStackPageFrame.toNat inCall result saved junk₃
        r.2 = leave inCall result u ∧
      Leaving next.processMemory.kernelStackPageFrame r.2 u c ∧
      u.cr3 = next.processMemory.l4PageTableBase ∧ u.rsp0 = next.threadInfo.ring0rsp ∧
      (∀ x, Outside prev.processMemory.kernelStackPageFrame x →
        Outside next.processMemory.kernelStackPageFrame x → u.mem x = s.mem x) ∧
      ∀ called, depth = l.depth called → Parked l u.mem r.1 e called s.toContext := by
  intro r
  have hlp := hprev.below
  have hln := hnext.below
  have hroom := h.room
  have hbelow := h.below
  obtain ⟨hn, hntop⟩ := hparked.room
  have hapart := hprev.apart hnext hne
  have hsp16 : 16 ≤ e.sp := by omega
  obtain ⟨hrip, (hsp : r.2.sp = _), hcr3, hrsp0, -⟩ :=
    schedule_spec l.load junk₂ prev next hsp16 (by omega)
  obtain ⟨hprip, (hprsp : r.1.threadInfo.rsp.toNat = _), -, hpm, -⟩ :=
    schedule_prev l.load junk₂ prev next hsp16
  have hkeep : ∀ x, (x < e.sp - 16 ∨ e.sp ≤ x) →
      (x < next.processMemory.kernelStackPageFrame.toNat ∨ next.threadInfo.rsp.toNat ≤ x) →
      r.2.mem x = e.mem x := fun x h1 h2 =>
    schedule_outside l.load junk₂ prev next hsp16 hn h1 h2
  have hnextParked : Parked l r.2.mem next saved inCall c := by
    apply hparked.congr
    intro x h1 h2
    rw [hkeep x (by omega) (Or.inr h1)]
    exact h.outside x (by unfold Outside; omega)
  obtain ⟨u, hgo, hu⟩ := hnextParked.goOn ⟨hrip, by omega⟩ junk₃ result
  -- from the stack pointer of `Schedule` up, and below the frames of registers
  have hstack : ∀ x, prev.processMemory.kernelStackPageFrame.toNat ≤ x →
      x < prev.processMemory.kernelStackPageFrame.toNat + 4096 → u.mem x = r.2.mem x :=
    fun x h1 h2 => hu.outside x (by unfold Outside; omega)
  have habove : ∀ x, e.sp ≤ x → x < e.sp + depth + 160 → u.mem x = e.mem x := fun x h1 h2 =>
    (hstack x (by omega) (by omega)).trans (hkeep x (Or.inr h1) (by omega))
  refine ⟨u, hgo, hu, hu.cr3.trans hcr3, hu.rsp0.trans hrsp0, fun x hp hn' => ?_,
    fun called hd => ?_⟩
  · rw [hu.outside x hn', ← h.outside x hp]
    unfold Outside at hp hn'
    exact hkeep x (by omega) (by omega)
  · have hlen : 8 * (interruptStack s.toContext).length = 160 := rfl
    subst hd
    refine .suspended hprip (by rw [hpm]; omega) ⟨by omega, by omega, ?_, fun i hi =>
      habove _ (by omega) (by omega)⟩ (h.frame.congr fun x h1 h2 => habove x (by omega) (by omega))
      (by rw [hpm]; omega)
    have hat : r.1.threadInfo.rsp.toNat + 8 = e.sp - 8 := by omega
    rw [hat, ← schedule_frame l.load junk₂ prev next hsp16 hn (by omega)]
    apply ByteMemory.readWord_congr
    intro i hi
    exact hstack _ (by omega) (by omega)

end Entered
end Amaterasu
