import Amaterasu.Process.Fork

/-! What `sysFork` leaves in memory: copies of three frames, the tables of the child, and a zero
where the child will find `rax`. -/

namespace Amaterasu
open Cpu

/-- The frames of a process, those of its tables included. -/
def processFrames (p : ProcessMemory) (f : TableFrames) : List (BitVec 64) :=
  [p.userStackPageFrame, p.kernelStackPageFrame, p.textSegmentPageFrame] ++ f.toList

/-- The byte `x` is not in the frame `a`. -/
def Outside (a : BitVec 64) (x : Nat) : Prop := x < a.toNat ∨ a.toNat + 4096 ≤ x

section Copy
variable {m : ByteMemory} {a b c : BitVec 64} {i x : Nat}

theorem IsFrame.outside (ha : IsFrame a) (hb : IsFrame b) (hab : a ≠ b) (hi : i < 4096) :
    Outside b (a.toNat + i) := by
  unfold Outside
  rcases ha.apart hb hab with h | h <;> omega

theorem copy_frame (ha : IsFrame a) (hb : IsFrame b) (hab : a ≠ b) (hi : i < 4096) :
    m.copy a.toNat b.toNat 4096 (a.toNat + i) = m (b.toNat + i) := by
  apply ByteMemory.copy_inside _ hi
  rcases ha.apart hb hab with h | h <;> omega

theorem copy_frame_outside (h : Outside a x) : m.copy a.toNat b.toNat 4096 x = m x :=
  ByteMemory.copy_outside h

end Copy

/-- The frames of a child-to-be, in the order of their allocation. -/
structure ForkFrames where
  userStack : BitVec 64
  kernelStack : BitVec 64
  text : BitVec 64
  tables : TableFrames

namespace ForkFrames

def toList (n : ForkFrames) : List (BitVec 64) :=
  [n.userStack, n.kernelStack, n.text] ++ n.tables.toList

def processMemory (n : ForkFrames) : ProcessMemory :=
  ⟨n.userStack, n.kernelStack, n.text, n.tables.l4⟩

end ForkFrames

/-- The child's place for the address `rsp` on the parent's kernel stack. -/
def childRsp (p : ProcessMemory) (n : ForkFrames) (rsp : BitVec 64) : BitVec 64 :=
  n.kernelStack + (rsp - p.kernelStackPageFrame)

/-- The memory after the copies and the tables. -/
def copyFrames (m : ByteMemory) (p : ProcessMemory) (n : ForkFrames) : ByteMemory :=
  let m := m.copy n.text.toNat p.textSegmentPageFrame.toNat 4096
  let m := m.copy n.kernelStack.toNat p.kernelStackPageFrame.toNat 4096
  let m := m.copy n.userStack.toNat p.userStackPageFrame.toNat 4096
  fillTables m n.tables n.text (n.userStack - 8 + pageSize)

/-- In the end, the child's `rax` is zero. -/
def forkMemory (m : ByteMemory) (p : ProcessMemory) (n : ForkFrames) (rsp : BitVec 64) :
    ByteMemory := (copyFrames m p n).writeWord (childRsp p n rsp).toNat 0

/-- The child's record. -/
def forkChild (returnFromSysFork : BitVec 64) (parent : Process) (n : ForkFrames)
    (rsp : BitVec 64) : Process where
  pid := newProcessId parent.pid
  state := parent.state
  threadInfo :=
    { rsp := childRsp parent.processMemory n rsp
      ring0rsp := childRsp parent.processMemory n rsp
      cr3 := n.tables.l4
      rip := returnFromSysFork }
  processMemory := n.processMemory

theorem copyProcessMemory_eq {m : ByteMemory} {n : ForkFrames} (h : n.tables.Usable)
    (frames : List (BitVec 64)) (p : ProcessMemory) :
    copyProcessMemory m (n.toList ++ frames) 0 p = (n.processMemory, copyFrames m p n, frames) := by
  have hflag : ¬((0 : BitVec 8) &&& cloneVM ≠ 0) := by decide
  unfold copyProcessMemory ForkFrames.toList
  simp only [List.cons_append, List.nil_append, allocatePageFrame, if_neg hflag,
    setUpPageTable_eq h]
  rfl

theorem sysFork_eq (returnFromSysFork : BitVec 64) {m : ByteMemory} {n : ForkFrames}
    (h : n.tables.Usable) (frames : List (BitVec 64)) (rsp : BitVec 64) (parent : Process) :
    sysFork returnFromSysFork m (n.toList ++ frames) rsp parent =
      (newProcessId parent.pid, forkChild returnFromSysFork parent n rsp,
        forkMemory m parent.processMemory n rsp, frames) := by
  have hshare : ¬((0 : BitVec 8) ≠ 0) := by decide
  unfold sysFork doFork copyProcess
  simp only [copyProcessMemory_eq h, if_neg hshare]
  rfl

/-! ## The bytes of the new frames -/

/-- All allocations succeed, with frames distinct from each other and from the parent's. -/
structure Fresh (p : ProcessMemory) (f : TableFrames) (n : ForkFrames) : Prop where
  frames : ∀ a ∈ processFrames p f ++ n.toList, IsFrame a
  nodup : (processFrames p f ++ n.toList).Nodup
  nonzero : ∀ a ∈ n.toList, a ≠ 0

instance (p : ProcessMemory) (f : TableFrames) (n : ForkFrames) : Decidable (Fresh p f n) :=
  decidable_of_iff ((processFrames p f ++ n.toList).all (IsFrame ·) ∧
      (processFrames p f ++ n.toList).Nodup ∧ n.toList.all (· ≠ 0)) <| by
    simp only [List.all_eq_true, decide_eq_true_eq]
    exact ⟨fun h => ⟨h.1, h.2.1, h.2.2⟩, fun h => ⟨h.frames, h.nodup, h.nonzero⟩⟩

section Fresh
variable {m : ByteMemory} {p : ProcessMemory} {f : TableFrames} {n : ForkFrames}
  {rsp a b : BitVec 64} {i x : Nat}

theorem Fresh.old (h : Fresh p f n) (ha : a ∈ processFrames p f) : IsFrame a :=
  h.frames a (List.mem_append_left _ ha)

theorem Fresh.new (h : Fresh p f n) (ha : a ∈ n.toList) : IsFrame a :=
  h.frames a (List.mem_append_right _ ha)

theorem Fresh.old_ne_new (h : Fresh p f n) (ha : a ∈ processFrames p f) (hb : b ∈ n.toList) :
    a ≠ b := (List.nodup_append.mp h.nodup).2.2 a ha b hb

theorem Fresh.usable (h : Fresh p f n) : n.tables.Usable := by
  have hn : n.toList.Nodup := (List.nodup_append.mp h.nodup).2.1
  exact ⟨fun a ha => h.new (List.mem_append_right _ ha),
    fun a ha => h.nonzero a (List.mem_append_right _ ha), (List.nodup_append.mp hn).2.1⟩

/-- No new frame is a table of the child, except its tables. -/
theorem Fresh.ne_table (h : Fresh p f n) (ha : a ∈ [n.userStack, n.kernelStack, n.text])
    (hb : b ∈ n.tables.toList) : a ≠ b := by
  have hn : n.toList.Nodup := (List.nodup_append.mp h.nodup).2.1
  exact (List.nodup_append.mp hn).2.2 a ha b hb

theorem Fresh.pages (h : Fresh p f n) :
    n.userStack ≠ n.kernelStack ∧ n.userStack ≠ n.text ∧ n.kernelStack ≠ n.text := by
  have hn : n.toList.Nodup := (List.nodup_append.mp h.nodup).2.1
  have hpages := (List.nodup_append.mp hn).1
  simp only [List.nodup_cons, List.mem_cons, List.not_mem_nil, not_or, or_false] at hpages
  exact ⟨hpages.1.1, hpages.1.2, hpages.2.1⟩

theorem userStack_mem : n.userStack ∈ n.toList := by simp [ForkFrames.toList]
theorem kernelStack_mem : n.kernelStack ∈ n.toList := by simp [ForkFrames.toList]
theorem text_mem : n.text ∈ n.toList := by simp [ForkFrames.toList]

theorem userStackPageFrame_mem : p.userStackPageFrame ∈ processFrames p f := by
  simp [processFrames]
theorem kernelStackPageFrame_mem : p.kernelStackPageFrame ∈ processFrames p f := by
  simp [processFrames]
theorem textSegmentPageFrame_mem : p.textSegmentPageFrame ∈ processFrames p f := by
  simp [processFrames]

theorem Fresh.outside_tables (h : Fresh p f n) (ha : a ∈ [n.userStack, n.kernelStack, n.text])
    (hi : i < 4096) : ∀ b ∈ n.tables.toList, Outside b (a.toNat + i) := fun _ hb =>
  (h.new (List.mem_append_left _ ha)).outside (h.new (List.mem_append_right _ hb))
    (h.ne_table ha hb) hi

theorem copyFrames_text (h : Fresh p f n) (hi : i < 4096) :
    copyFrames m p n (n.text.toNat + i) = m (p.textSegmentPageFrame.toNat + i) := by
  obtain ⟨-, hut, hkt⟩ := h.pages
  have ht := h.new text_mem
  unfold copyFrames
  rw [fillTables_outside (h.outside_tables (by simp) hi),
    copy_frame_outside (ht.outside (h.new userStack_mem) hut.symm hi),
    copy_frame_outside (ht.outside (h.new kernelStack_mem) hkt.symm hi),
    copy_frame ht (h.old textSegmentPageFrame_mem)
      (h.old_ne_new textSegmentPageFrame_mem text_mem).symm hi]

theorem copyFrames_kernelStack (h : Fresh p f n) (hi : i < 4096) :
    copyFrames m p n (n.kernelStack.toNat + i) = m (p.kernelStackPageFrame.toNat + i) := by
  obtain ⟨huk, -, -⟩ := h.pages
  have hk := h.new kernelStack_mem
  have hp := h.old kernelStackPageFrame_mem
  unfold copyFrames
  rw [fillTables_outside (h.outside_tables (by simp) hi),
    copy_frame_outside (hk.outside (h.new userStack_mem) huk.symm hi),
    copy_frame hk hp (h.old_ne_new kernelStackPageFrame_mem kernelStack_mem).symm hi,
    copy_frame_outside (hp.outside (h.new text_mem)
      (h.old_ne_new kernelStackPageFrame_mem text_mem) hi)]

theorem copyFrames_userStack (h : Fresh p f n) (hi : i < 4096) :
    copyFrames m p n (n.userStack.toNat + i) = m (p.userStackPageFrame.toNat + i) := by
  have hu := h.new userStack_mem
  have hp := h.old userStackPageFrame_mem
  unfold copyFrames
  rw [fillTables_outside (h.outside_tables (by simp) hi),
    copy_frame hu hp (h.old_ne_new userStackPageFrame_mem userStack_mem).symm hi,
    copy_frame_outside (hp.outside (h.new kernelStack_mem)
      (h.old_ne_new userStackPageFrame_mem kernelStack_mem) hi),
    copy_frame_outside (hp.outside (h.new text_mem)
      (h.old_ne_new userStackPageFrame_mem text_mem) hi)]

theorem copyFrames_outside (hx : ∀ a ∈ n.toList, Outside a x) : copyFrames m p n x = m x := by
  have htables : ∀ a ∈ n.tables.toList, Outside a x := fun a ha =>
    hx a (List.mem_append_right _ ha)
  unfold copyFrames
  rw [fillTables_outside htables, copy_frame_outside (hx _ userStack_mem),
    copy_frame_outside (hx _ kernelStack_mem), copy_frame_outside (hx _ text_mem)]

/-! ## The child's frame of registers -/

/-- A `struct InterruptStack` at `rsp` lies in the frame `k`. -/
structure OnStack (rsp k : BitVec 64) : Prop where
  above : k.toNat ≤ rsp.toNat
  below : rsp.toNat + 160 ≤ k.toNat + 4096

theorem childRsp_toNat (h : Fresh p f n) (hr : OnStack rsp p.kernelStackPageFrame) :
    (childRsp p n rsp).toNat =
      n.kernelStack.toNat + (rsp.toNat - p.kernelStackPageFrame.toNat) := by
  have hk := (h.new kernelStack_mem).below
  have hp := (h.old kernelStackPageFrame_mem).below
  obtain ⟨habove, hbelow⟩ := hr
  unfold childRsp
  bv_omega

theorem forkMemory_outside (h : Fresh p f n) (hr : OnStack rsp p.kernelStackPageFrame)
    (hx : Outside n.kernelStack x) : forkMemory m p n rsp x = copyFrames m p n x := by
  have hrsp := childRsp_toNat h hr
  obtain ⟨habove, hbelow⟩ := hr
  unfold forkMemory
  apply ByteMemory.writeWord_outside
  unfold Outside at hx
  omega

theorem forkMemory_describes (h : Fresh p f n) (hr : OnStack rsp p.kernelStackPageFrame) :
    Describes (forkMemory m p n rsp) n.tables n.text n.userStack := by
  apply Describes.congr (h.usable.describes (h.new text_mem) (h.new userStack_mem))
  intro a ha x h1 h2
  obtain ⟨i, rfl⟩ := Nat.exists_eq_add_of_le h1
  have hne : a ≠ n.kernelStack := (h.ne_table (by simp) ha).symm
  have htable := h.new (List.mem_append_right _ ha)
  exact forkMemory_outside h hr (htable.outside (h.new kernelStack_mem) hne (by omega))

end Fresh

/-- Page tables of a first process. -/
def firstTables : TableFrames := ⟨0x204000, 0x205000, 0x206000, 0x207000, 0x208000⟩

/-- The frames of its first child. -/
def firstForkFrames : ForkFrames :=
  ⟨0x209000, 0x20a000, 0x20b000, ⟨0x20c000, 0x20d000, 0x20e000, 0x20f000, 0x210000⟩⟩

theorem firstTables_usable : firstTables.Usable := by decide

theorem firstForkFrames_fresh :
    Fresh ⟨0x201000, 0x202000, 0x203000, 0x208000⟩ firstTables firstForkFrames := by decide

end Amaterasu
