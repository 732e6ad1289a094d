import Amaterasu.Library.Cpu

/-! A call of compiled code in two halves: a thread is suspended inside, its stack pointer and its
frame pointer put away, and the call returns when the thread finds them and its stack again. -/

namespace Cpu
open Function

namespace State

theorem eq_of {s t : State} (hcontext : s.toContext = t.toContext) (hcr3 : s.cr3 = t.cr3)
    (hrsp0 : s.rsp0 = t.rsp0) (hmem : s.mem = t.mem) : s = t := by
  cases s
  cases t
  simp_all only

/-- Compiled code that has been called and has moved the stack pointer down by `depth`. It has used
the registers and the memory from `low` up to where it was called. -/
def descend (s : State) (low depth : Nat) (junk : State) : State :=
  { s with
    reg := update junk.reg .rsp (s.reg .rsp - BitVec.ofNat 64 depth)
    mem := fun x => if low ≤ x ∧ x < s.sp then junk.mem x else s.mem x }

/-- It goes on to its return if it finds the pointers and its part of the stack as in `saved`.
Without them nothing is known. -/
def ascend (s saved : State) (low depth : Nat) (junk : State) : State :=
  if s.reg .rsp = saved.reg .rsp ∧ s.reg .rbp = saved.reg .rbp ∧
      (List.range depth).all fun i => s.mem (saved.sp + i) = saved.mem (saved.sp + i) then
    { s with
      reg := update junk.reg .rsp (s.reg .rsp + BitVec.ofNat 64 depth)
      mem := fun x => if low ≤ x ∧ x < s.sp + depth then junk.mem x else s.mem x }
  else junk

def popFlags (s : State) : State :=
  { s.setReg .rsp (s.reg .rsp + 8) with rflags := s.mem.readWord s.sp }

end State

theorem writeWords_outside {m : ByteMemory} {a x : Nat} {ws : List (BitVec 64)}
    (h : x < a ∨ a + 8 * ws.length ≤ x) : m.writeWords a ws x = m x := by
  induction ws generalizing m a with
  | nil => rfl
  | cons w ws ih =>
    have hlen : (w :: ws).length = ws.length + 1 := rfl
    show (m.writeWord a w).writeWords (a + 8) ws x = _
    rw [ih (by omega), ByteMemory.writeWord_outside (by omega)]

section Suspension
variable {s saved junk : State} {low depth : Nat} {a b v : BitVec 64} {x : Nat}

theorem State.sp_descend (h : depth ≤ s.sp) : (s.descend low depth junk).sp = s.sp - depth := by
  have hlt : s.sp < 2 ^ 64 := (s.reg .rsp).isLt
  show (update junk.reg .rsp (s.reg .rsp - BitVec.ofNat 64 depth) .rsp).toNat = _
  rw [update_self]
  unfold State.sp at h hlt ⊢
  rw [BitVec.toNat_sub_of_le, BitVec.toNat_ofNat, Nat.mod_eq_of_lt (h.trans_lt hlt)]
  rw [BitVec.le_def, BitVec.toNat_ofNat, Nat.mod_eq_of_lt (h.trans_lt hlt)]
  exact h

theorem State.popReg_self (s : State) (r : Reg) : (s.popReg r).reg r = s.mem.readWord s.sp := by
  show update (s.setReg .rsp (s.reg .rsp + 8)).reg r _ r = _
  rw [update_self]

@[simp] theorem State.popReg_rsp0 {r : Reg} : (s.popReg r).rsp0 = s.rsp0 := rfl
@[simp] theorem State.popReg_mem {r : Reg} : (s.popReg r).mem = s.mem := rfl
@[simp] theorem State.iretq_rsp0 : s.iretq.rsp0 = s.rsp0 := rfl
@[simp] theorem State.iretq_mem : s.iretq.mem = s.mem := rfl
theorem State.popRegs_rsp0 {rs : List Reg} : (s.popRegs rs).rsp0 = s.rsp0 := by
  induction rs generalizing s with
  | nil => rfl
  | cons r rs ih => exact ih (s := s.popReg r)

@[simp] theorem State.descend_cr3 : (s.descend low depth junk).cr3 = s.cr3 := rfl
@[simp] theorem State.descend_rflags : (s.descend low depth junk).rflags = s.rflags := rfl

theorem State.descend_mem (h : x < low ∨ s.sp ≤ x) :
    (s.descend low depth junk).mem x = s.mem x := by
  unfold State.descend
  exact if_neg (by omega)

/-- A thread that finds its pointers and its stack returns to its caller. -/
theorem State.ascend_spec (low : Nat) (junk : State) (hrsp : s.reg .rsp = saved.reg .rsp)
    (hrbp : s.reg .rbp = saved.reg .rbp) (hfits : saved.sp + depth < 2 ^ 64)
    (hmem : ∀ i < depth, s.mem (saved.sp + i) = saved.mem (saved.sp + i)) :
    let t := s.ascend saved low depth junk
    t.sp = saved.sp + depth ∧ t.cr3 = s.cr3 ∧ t.rsp0 = s.rsp0 ∧
      ∀ x, x < low ∨ saved.sp + depth ≤ x → t.mem x = s.mem x := by
  have hall : ((List.range depth).all fun i =>
      s.mem (saved.sp + i) = saved.mem (saved.sp + i)) = true := by
    rw [List.all_eq_true]
    intro i hi
    exact decide_eq_true (hmem i (List.mem_range.mp hi))
  have hsp : s.sp = saved.sp := congrArg BitVec.toNat hrsp
  unfold State.ascend
  rw [if_pos ⟨hrsp, hrbp, hall⟩]
  refine ⟨?_, rfl, rfl, fun x hx => if_neg (by omega)⟩
  show (update junk.reg .rsp (s.reg .rsp + BitVec.ofNat 64 depth) .rsp).toNat = _
  rw [update_self, BitVec.toNat_add, BitVec.toNat_ofNat]
  show (s.sp + depth % 2 ^ 64) % 2 ^ 64 = _
  omega

/-- What a thread leaves when it is put away: the flags and the frame pointer below its part of
the stack. -/
structure Suspended (m : ByteMemory) (saved : State) (depth : Nat) (rsp : BitVec 64) : Prop where
  sp : rsp.toNat + 16 = saved.sp
  fits : saved.sp + depth < 2 ^ 64
  frame : m.readWord (rsp.toNat + 8) = saved.reg .rbp
  stack : ∀ i < depth, m (saved.sp + i) = saved.mem (saved.sp + i)

theorem Suspended.congr {m m' : ByteMemory} {rsp : BitVec 64}
    (h : Suspended m saved depth rsp)
    (hm : ∀ x, rsp.toNat ≤ x → x < saved.sp + depth → m' x = m x) :
    Suspended m' saved depth rsp where
  sp := h.sp
  fits := h.fits
  frame := by
    have hrsp := h.sp
    rw [← h.frame]
    apply ByteMemory.readWord_congr
    intro i hi
    exact hm _ (by omega) (by omega)
  stack i hi := by
    have hrsp := h.sp
    rw [← h.stack i hi]
    exact hm _ (by omega) (by omega)

/-- Pops of a scratch register, of the flags and of the frame pointer lead a suspended thread back
to its caller. -/
theorem Suspended.returns {rsp : BitVec 64} (h : Suspended s.mem saved depth rsp) (low : Nat)
    (junk : State) (hsp : s.sp + 8 = rsp.toNat) :
    let t := (((s.popReg .rdi).popFlags).popReg .rbp).ascend saved low depth junk
    t.sp = saved.sp + depth ∧ t.cr3 = s.cr3 ∧ t.rsp0 = s.rsp0 ∧
      ∀ x, x < low ∨ saved.sp + depth ≤ x → t.mem x = s.mem x := by
  have hrsp := h.sp
  have hfits := h.fits
  let u := ((s.popReg .rdi).popFlags).popReg .rbp
  have h₁ : (s.popReg .rdi).sp = s.sp + 8 := State.sp_popReg (by decide) (by omega)
  have h₂ : ((s.popReg .rdi).popFlags).sp = s.sp + 16 := by
    show (update (s.popReg .rdi).reg .rsp ((s.popReg .rdi).reg .rsp + 8) .rsp).toNat = _
    rw [update_self, BitVec.toNat_add]
    show ((s.popReg .rdi).sp + 8) % 2 ^ 64 = _
    omega
  have h₃ : u.sp = saved.sp := by
    rw [State.sp_popReg (s := (s.popReg .rdi).popFlags) (by decide) (by omega), h₂]
    omega
  have hrbp : u.reg .rbp = saved.reg .rbp := by
    have hword : u.reg .rbp = s.mem.readWord ((s.popReg .rdi).popFlags).sp := State.popReg_self ..
    have hat : s.sp + 16 = rsp.toNat + 8 := by omega
    rw [hword, h₂, hat, h.frame]
  exact State.ascend_spec (s := u) low junk (BitVec.eq_of_toNat_eq h₃) hrbp hfits h.stack

end Suspension
end Cpu
