import Amaterasu.Process.Duplicate

/-! The kernel stacks of `ProcessInit`'s process and of its descendants. A child is entered where
its parent's frame of registers was, so each generation starts one frame lower. -/

namespace Cpu.State
open Function
variable {s : State}

theorem setReg_rsp (v : BitVec 64) : (s.setReg .rsp v).reg .rsp = v := by
  show update s.reg .rsp v .rsp = v
  rw [update_self]

theorem setReg_of_ne {r q : Reg} {v : BitVec 64} (h : q ≠ r) : (s.setReg r v).reg q = s.reg q := by
  show update s.reg r v q = s.reg q
  rw [update_of_ne h]

theorem push_rsp (v : BitVec 64) : (s.push v).reg .rsp = s.reg .rsp - 8 := by
  unfold push
  exact setReg_rsp _

theorem pushAll_rsp (vs : List (BitVec 64)) :
    (s.pushAll vs).reg .rsp = s.reg .rsp - 8 * BitVec.ofNat 64 vs.length := by
  induction vs generalizing s with
  | nil => simp [pushAll]
  | cons v vs ih =>
    show ((s.push v).pushAll vs).reg .rsp = _
    rw [ih, push_rsp, List.length_cons, BitVec.ofNat_add]
    bv_omega

theorem pushRegs_rsp (rs : List Reg) :
    (s.pushRegs rs).reg .rsp = s.reg .rsp - 8 * BitVec.ofNat 64 rs.length := by
  induction rs generalizing s with
  | nil => simp [pushRegs]
  | cons r rs ih =>
    show ((s.push (s.reg r)).pushRegs rs).reg .rsp = _
    rw [ih, push_rsp, List.length_cons, BitVec.ofNat_add]
    bv_omega

end Cpu.State

namespace Amaterasu
open Cpu

def pidInitial : BitVec 32 := 0

/-- `ProcessInit`, with `record` for what the memory of the new `struct ThreadInfo` holds. -/
def processInit (m : ByteMemory) (frames : List (BitVec 64)) (record : ThreadInfo) :
    Process × ByteMemory × List (BitVec 64) :=
  let (textSegmentPageFrame, frames) := allocatePageFrame frames
  let (kernelStackPageFrame, frames) := allocatePageFrame frames
  let (userStackPageFrame, frames) := allocatePageFrame frames
  let (l4PageTableBase, m, frames) :=
    setUpPageTable m frames textSegmentPageFrame (userStackPageFrame - 8 + pageSize)
  ({ pid := pidInitial
     state := .running
     threadInfo := { record with ring0rsp := kernelStackPageFrame - 8 + pageSize }
     processMemory :=
      ⟨userStackPageFrame, kernelStackPageFrame, textSegmentPageFrame, l4PageTableBase⟩ },
    m, frames)

/-- The child of a `sysFork` that `parent` makes from user mode, all allocations succeeding. The fork
returns when the frames lie below 5 GiB, as they do in the booted system; where the child's stack
starts does not depend on that. The task state segment has had the parent's `ring0rsp` since
`Schedule` switched to it. -/
def ForkedFrom (parent child : Process) : Prop :=
  ∃ (f : TableFrames) (n : ForkFrames) (frames : List (BitVec 64)) (s junk₁ junk₂ : State)
    (returnFromSysFork : BitVec 64), Fresh parent.processMemory f n ∧
      s.rsp0 = parent.threadInfo.ring0rsp ∧
      child = (forkSyscall returnFromSysFork (n.toList ++ frames) junk₁ junk₂ parent s).2.1

/-- The processes after `g` forks in a row. -/
inductive Generation : Nat → Process → Prop
  | init (m : ByteMemory) (frames : List (BitVec 64)) (record : ThreadInfo)
      (h : 4096 ∣ (processInit m frames record).1.processMemory.kernelStackPageFrame.toNat) :
      Generation 0 (processInit m frames record).1
  | fork {g : Nat} {parent child : Process} (hg : Generation g parent)
      (hf : ForkedFrom parent child) : Generation (g + 1) child

/-- What `ProcessInit` sets up: the stack starts at the top of its page, which has room for the
frame of registers. -/
structure StartsOnTop (p : Process) : Prop where
  inside : p.processMemory.kernelStackPageFrame.toNat ≤ p.threadInfo.ring0rsp.toNat ∧
    p.threadInfo.ring0rsp.toNat < p.processMemory.kernelStackPageFrame.toNat + 4096
  top : p.threadInfo.ring0rsp = p.processMemory.kernelStackPageFrame + pageSize - 8
  frame : OnStack ((p.threadInfo.ring0rsp &&& ~~~15) - 160) p.processMemory.kernelStackPageFrame

section Entry
variable {s : State} {p c : Process} {g : Nat}

/-- The frame of registers is 160 bytes, 40 of them pushed by the processor. -/
theorem syscallEnter_rsp : (syscallEnter s).reg .rsp = s.top - 160 := by
  unfold syscallEnter saveAllRegisters
  dsimp only
  rw [State.setReg_of_ne (by decide), State.pushRegs_rsp]
  unfold State.interrupt
  rw [State.pushAll_rsp, State.setReg_rsp]
  simp only [List.length_cons, List.length_nil]
  bv_omega

theorem ForkedFrom.ring0rsp (h : ForkedFrom p c) : c.threadInfo.ring0rsp =
    c.processMemory.kernelStackPageFrame + ((p.threadInfo.ring0rsp &&& ~~~15) - 160 -
      p.processMemory.kernelStackPageFrame) := by
  obtain ⟨f, n, frames, s, junk₁, junk₂, addr, hf, hrsp0, rfl⟩ := h
  rw [forkSyscall_eq hf]
  show n.kernelStack + ((syscallEnter s).reg .rsp - _) = _
  rw [syscallEnter_rsp]
  unfold State.top
  rw [hrsp0]
  rfl

theorem ForkedFrom.aligned (h : ForkedFrom p c) :
    4096 ∣ c.processMemory.kernelStackPageFrame.toNat := by
  obtain ⟨f, n, frames, s, junk₁, junk₂, addr, hf, hrsp0, rfl⟩ := h
  rw [forkSyscall_eq hf]
  exact (hf.new kernelStack_mem).aligned

theorem mask_toNat (a : BitVec 64) : (a &&& ~~~15).toNat = a.toNat / 16 * 16 := by
  have hmask : (~~~15 : BitVec 64) = BitVec.allOnes 64 <<< 4 := by decide
  rw [hmask, ← BitVec.shiftLeft_ushiftRight, BitVec.toNat_shiftLeft, BitVec.toNat_ushiftRight,
    Nat.shiftRight_eq_div_pow, Nat.shiftLeft_eq]
  omega

theorem mask_add {d : BitVec 64} (hd : d.toNat < 16) (e : BitVec 64) :
    (16 * e + d) &&& ~~~15 = 16 * e := by
  apply BitVec.eq_of_toNat_eq
  rw [mask_toNat, BitVec.toNat_add, BitVec.toNat_mul]
  show (16 * e.toNat % 2 ^ 64 + d.toNat) % 2 ^ 64 / 16 * 16 = 16 * e.toNat % 2 ^ 64
  omega

theorem eq_mul_of_aligned {a : BitVec 64} (h : 4096 ∣ a.toNat) : ∃ e : BitVec 64, a = 16 * e := by
  obtain ⟨k, hk⟩ := h
  refine ⟨BitVec.ofNat 64 (256 * k), BitVec.eq_of_toNat_eq ?_⟩
  have hlt := a.isLt
  rw [BitVec.toNat_mul, BitVec.toNat_ofNat]
  show a.toNat = 16 * (256 * k % 2 ^ 64) % 2 ^ 64
  omega

/-- What the task state segment holds after `g` forks, and where the frame of registers ends that is
pushed from there. -/
theorem Generation.stack (h : Generation g p) :
    let k := p.processMemory.kernelStackPageFrame
    4096 ∣ k.toNat ∧
      p.threadInfo.ring0rsp = (if g = 0 then k + 4088 else k + 4080 - 160 * BitVec.ofNat 64 g) ∧
      (p.threadInfo.ring0rsp &&& ~~~15) = k + 4080 - 160 * BitVec.ofNat 64 g := by
  induction h with
  | init m frames record halign =>
    have hrsp : (processInit m frames record).1.threadInfo.ring0rsp =
        (processInit m frames record).1.processMemory.kernelStackPageFrame - 8 + pageSize := rfl
    obtain ⟨e, he⟩ := eq_mul_of_aligned halign
    refine ⟨halign, ?_, ?_⟩
    · rw [hrsp, if_pos rfl]
      unfold pageSize
      grind
    · have htop : 16 * e - 8 + pageSize = 16 * (e + 255) + 8 := by
        unfold pageSize
        grind
      rw [hrsp, he, htop, mask_add (by decide)]
      grind
  | @fork g parent child hg hf ih =>
    obtain ⟨-, -, hmask⟩ := ih
    have hsum : child.threadInfo.ring0rsp = child.processMemory.kernelStackPageFrame + 4080 -
        160 * BitVec.ofNat 64 (g + 1) := by
      rw [hf.ring0rsp, hmask, BitVec.ofNat_add]
      grind
    refine ⟨hf.aligned, by rw [if_neg (Nat.succ_ne_zero g), hsum], ?_⟩
    -- a child's stack is aligned already
    obtain ⟨e, he⟩ := eq_mul_of_aligned hf.aligned
    have hmul : child.processMemory.kernelStackPageFrame + 4080 - 160 * BitVec.ofNat 64 (g + 1) =
        16 * (e + 255 - 10 * BitVec.ofNat 64 (g + 1)) + 0 := by
      rw [he]
      grind
    rw [hsum, hmul, mask_add (by decide)]
    grind

/-- The stack starts at the top of its page in the first process only. -/
theorem Generation.startsOnTop_iff (h : Generation g p) : StartsOnTop p ↔ g = 0 := by
  obtain ⟨⟨l, hl⟩, hrsp, hmask⟩ := h.stack
  generalize hk : p.processMemory.kernelStackPageFrame = k at hl hrsp hmask
  have hlt := k.isLt
  constructor
  · intro hs
    by_contra hg
    rw [if_neg hg] at hrsp
    have htop := hs.top
    rw [hrsp, hk] at htop
    -- the deviation is `8 * (20 * g + 1)`, which no power of two above 8 divides
    have hzero : 160 * BitVec.ofNat 64 g + 8 = 0 := by
      unfold pageSize at htop
      grind
    have hnat := congrArg BitVec.toNat hzero
    rw [BitVec.toNat_add, BitVec.toNat_mul, BitVec.toNat_ofNat] at hnat
    change (160 * (g % 2 ^ 64) % 2 ^ 64 + 8) % 2 ^ 64 = 0 at hnat
    omega
  · rintro rfl
    rw [if_pos rfl] at hrsp
    have h1 : (k + 4088).toNat = k.toNat + 4088 := by bv_omega
    have h2 : (k + 4080 - 160 * BitVec.ofNat 64 0 - 160).toNat = k.toNat + 3920 := by
      rw [show (160 * BitVec.ofNat 64 0 : BitVec 64) = 0 from rfl]
      bv_omega
    refine ⟨?_, ?_, ?_⟩
    · rw [hrsp, hk, h1]
      omega
    · rw [hrsp, hk]
      unfold pageSize
      grind
    · rw [hmask, hk]
      constructor <;> omega

/-- Up to 24 forks the page has room for the frame of registers that the next one saves. -/
theorem Generation.frame_iff (h : Generation g p) (hg : g < 2 ^ 50) :
    OnStack ((p.threadInfo.ring0rsp &&& ~~~15) - 160) p.processMemory.kernelStackPageFrame ↔
      g ≤ 24 := by
  obtain ⟨⟨l, hl⟩, -, hmask⟩ := h.stack
  rw [hmask]
  generalize p.processMemory.kernelStackPageFrame = k at hl
  have hlt := k.isLt
  have hsub : (160 * BitVec.ofNat 64 g : BitVec 64).toNat = 160 * g := by
    rw [BitVec.toNat_mul, BitVec.toNat_ofNat]
    change 160 * (g % 2 ^ 64) % 2 ^ 64 = 160 * g
    omega
  generalize (160 * BitVec.ofNat 64 g : BitVec 64) = d at hsub
  have h3920 : (k + 3920).toNat = k.toNat + 3920 := by bv_omega
  rw [show k + 4080 - d - 160 = k + 3920 - d by grind]
  have hrsp : (k + 3920 - d).toNat = (2 ^ 64 - 160 * g + (k.toNat + 3920)) % 2 ^ 64 := by
    rw [BitVec.toNat_sub, h3920, hsub]
  have hcases : (k + 3920 - d).toNat + 160 * g = k.toNat + 3920 ∨
      (k.toNat + 3920 < 160 * g ∧
        (k + 3920 - d).toNat + 160 * g = k.toNat + 3920 + 2 ^ 64) := by
    by_cases hle : 160 * g ≤ k.toNat + 3920
    · left
      omega
    · right
      omega
  constructor
  · intro hon
    have habove := hon.above
    have hbelow := hon.below
    omega
  · intro h24
    constructor <;> omega

end Entry

/-- A first process, in the frames from `0x201000` on, and its first child. -/
theorem exists_firstChild : ∃ p c : Process, Generation 0 p ∧ ForkedFrom p c ∧ Generation 1 c ∧
    c.processMemory.kernelStackPageFrame = 0x20a000 ∧ c.threadInfo.ring0rsp = 0x20af50 := by
  let frames : List (BitVec 64) :=
    [0x203000, 0x202000, 0x201000, 0x204000, 0x205000, 0x206000, 0x207000, 0x208000]
  let p : Process := (processInit (fun _ => 0) frames ⟨0, 0, 0, 0⟩).1
  let s : State := {
    reg := fun _ => 7, rip := 0xffffffffffffe000, cs := 0x1b, rflags := 0x202, ss := 0x23
    cr3 := 0x208000, rsp0 := 0x202ff8, mem := fun _ => 0 }
  have hmemory : p.processMemory = ⟨0x201000, 0x202000, 0x203000, 0x208000⟩ := rfl
  have hrsp0 : p.threadInfo.ring0rsp = 0x202ff8 := rfl
  have hp : Generation 0 p := Generation.init _ _ _ (by decide)
  have hfresh : Fresh p.processMemory firstTables firstForkFrames := firstForkFrames_fresh
  have hc : ForkedFrom p (forkSyscall 0x100000 (firstForkFrames.toList ++ []) s s p s).2.1 :=
    ⟨firstTables, firstForkFrames, [], s, s, s, 0x100000, hfresh, hrsp0.symm, rfl⟩
  have hstack : (forkSyscall 0x100000 (firstForkFrames.toList ++ []) s s p
      s).2.1.processMemory.kernelStackPageFrame = 0x20a000 := by
    rw [forkSyscall_eq hfresh]
    rfl
  refine ⟨p, _, hp, hc, hp.fork hc, hstack, ?_⟩
  rw [hc.ring0rsp, hstack, hrsp0, hmemory]
  rfl

/-- The first child is entered 168 bytes below the top of its page. -/
theorem firstChild_below_top : ∃ p c : Process, Generation 0 p ∧ ForkedFrom p c ∧
    Generation 1 c ∧ c.processMemory.kernelStackPageFrame = 0x20a000 ∧
    c.threadInfo.ring0rsp = 0x20af50 ∧ ¬ StartsOnTop c := by
  obtain ⟨p, c, hp, hc, hone, hstack, hrsp⟩ := exists_firstChild
  refine ⟨p, c, hp, hc, hone, hstack, hrsp, ?_⟩
  intro hs
  have htop := hs.top
  rw [hrsp, hstack] at htop
  exact absurd htop (by decide)

theorem firstChild_startsOnTop_iff : ∃ c : Process, Generation 1 c ∧ (StartsOnTop c ↔ 1 = 0) := by
  obtain ⟨p, c, -, -, hone, -⟩ := exists_firstChild
  exact ⟨c, hone, hone.startsOnTop_iff⟩

end Amaterasu
