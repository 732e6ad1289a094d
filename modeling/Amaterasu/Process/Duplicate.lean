import Amaterasu.Process.Resume

/-! `SYSCALL_FORK` duplicates the process: the child sees the parent's bytes at every address of the
user, goes on where the parent does, and neither sees what the other stores from then on. -/

namespace Amaterasu
open Cpu PageWalk Function

/-- A process that enters the kernel on its own kernel stack frame, under its own tables. -/
structure UserMode (p : ProcessMemory) (f : TableFrames) (s : State) : Prop where
  root : p.l4PageTableBase = f.l4
  tables : Describes s.mem f p.textSegmentPageFrame p.userStackPageFrame
  above : p.kernelStackPageFrame.toNat + 160 ≤ s.top.toNat
  below : s.top.toNat ≤ p.kernelStackPageFrame.toNat + 4096

/-- What the child starts with. -/
def childContext (c : Context) : Context := { c with reg := update c.reg .rax 0 }

/-- The child's frame differs from the parent's in its first word. -/
theorem interruptStack_childContext (c : Context) :
    interruptStack (childContext c) = 0 :: (interruptStack c).tail := by
  unfold interruptStack childContext generalRegisters Context.trap
  simp

section Entry
variable {p : ProcessMemory} {f : TableFrames} {n : ForkFrames} {s : State} {low : Nat}
  {junk : State} {x : Nat}

theorem UserMode.enter_sp (hp : UserMode p f s) :
    (syscallEnter s).sp = s.top.toNat - 160 :=
  (syscallEnter_frame ((Nat.le_add_left _ _).trans hp.above)).1

theorem UserMode.onStack (hp : UserMode p f s) :
    OnStack ((syscallEnter s).reg .rsp) p.kernelStackPageFrame := by
  have hsp := hp.enter_sp
  have habove := hp.above
  have hbelow := hp.below
  unfold State.sp at hsp
  constructor <;> omega

/-- The frame that `sysFork` finds. -/
theorem UserMode.enter_words (hp : UserMode p f s) :
    Words ((syscallEnter s).call low junk).mem (syscallEnter s).sp (interruptStack s.toContext) := by
  have hframe := syscallEnter_frame ((Nat.le_add_left _ _).trans hp.above)
  apply hframe.2.1.congr
  intro x h1 _
  exact State.call_mem (Or.inr h1)

/-- The way in writes on the kernel stack only. -/
theorem UserMode.enter_outside (hp : UserMode p f s) (hx : Outside p.kernelStackPageFrame x) :
    ((syscallEnter s).call p.kernelStackPageFrame.toNat junk).mem x = s.mem x := by
  have habove := hp.above
  have hbelow := hp.below
  have hframe := syscallEnter_frame (s := s) (by omega)
  unfold Outside at hx
  rw [State.call_mem (by rw [hp.enter_sp]; omega), hframe.2.2 x (by omega)]

end Entry

/-! ## The memory of both -/

/-- The pages that the parent's user can reach, and the tables that say so. -/
def ownFrames (p : ProcessMemory) (f : TableFrames) : List (BitVec 64) :=
  p.userStackPageFrame :: p.textSegmentPageFrame :: f.toList

/-- What the fork of `s` leaves for the parent `p` and the child of the frames `n`. -/
structure Forked (p : ProcessMemory) (f : TableFrames) (n : ForkFrames) (rsp : BitVec 64)
    (s : State) (m : ByteMemory) : Prop where
  described : BothDescribed m p f n
  text : ∀ i < 4096, m (n.text.toNat + i) = m (p.textSegmentPageFrame.toNat + i)
  userStack : ∀ i < 4096, m (n.userStack.toNat + i) = m (p.userStackPageFrame.toNat + i)
  parentFrame : Words m rsp.toNat (interruptStack s.toContext)
  childFrame : Words m (childRsp p n rsp).toNat (interruptStack (childContext s.toContext))

section Fork
variable {m m' : ByteMemory} {p : ProcessMemory} {f : TableFrames} {n : ForkFrames}
  {rsp a : BitVec 64} {c : Context} {s : State} {i : Nat}

/-- The parent's frames keep their bytes. -/
theorem forkMemory_old (h : Fresh p f n) (hr : OnStack rsp p.kernelStackPageFrame)
    (ha : a ∈ processFrames p f) (hi : i < 4096) :
    forkMemory m p n rsp (a.toNat + i) = m (a.toNat + i) := by
  have hout : ∀ b ∈ n.toList, Outside b (a.toNat + i) := fun b hb =>
    (h.old ha).outside (h.new hb) (h.old_ne_new ha hb) hi
  rw [forkMemory_outside h hr (hout _ kernelStack_mem), copyFrames_outside hout]

theorem forkMemory_text (h : Fresh p f n) (hr : OnStack rsp p.kernelStackPageFrame)
    (hi : i < 4096) :
    forkMemory m p n rsp (n.text.toNat + i) = m (p.textSegmentPageFrame.toNat + i) := by
  obtain ⟨-, -, hkt⟩ := h.pages
  rw [forkMemory_outside h hr ((h.new text_mem).outside (h.new kernelStack_mem) hkt.symm hi),
    copyFrames_text h hi]

theorem forkMemory_userStack (h : Fresh p f n) (hr : OnStack rsp p.kernelStackPageFrame)
    (hi : i < 4096) :
    forkMemory m p n rsp (n.userStack.toNat + i) = m (p.userStackPageFrame.toNat + i) := by
  obtain ⟨huk, -, -⟩ := h.pages
  rw [forkMemory_outside h hr ((h.new userStack_mem).outside (h.new kernelStack_mem) huk hi),
    copyFrames_userStack h hi]

/-- The frame of registers is copied with its page, and `rax` in it is zeroed. -/
theorem forkMemory_childFrame (h : Fresh p f n) (hr : OnStack rsp p.kernelStackPageFrame)
    (hw : Words m rsp.toNat (interruptStack c)) :
    Words (forkMemory m p n rsp) (childRsp p n rsp).toNat (interruptStack (childContext c)) := by
  have hrsp := childRsp_toNat h hr
  obtain ⟨habove, hbelow⟩ := hr
  have hlen : 8 * (interruptStack c).length = 160 := rfl
  have hcopy : Words (copyFrames m p n) (childRsp p n rsp).toNat (interruptStack c) := by
    apply hw.copy
    intro i hi
    have hoffset : rsp.toNat - p.kernelStackPageFrame.toNat + i < 4096 := by omega
    have hbyte := copyFrames_kernelStack (m := m) h hoffset
    rw [← Nat.add_assoc, ← Nat.add_assoc, Nat.add_sub_cancel' habove] at hbyte
    rw [hrsp]
    exact hbyte
  rw [interruptStack_childContext]
  exact hcopy.writeWord_head

/-- The parent's kernel stack is none of its other frames. -/
theorem Fresh.ne_kernelStack (h : Fresh p f n)
    (ha : a ∈ ownFrames p f) : a ∈ processFrames p f ∧ a ≠ p.kernelStackPageFrame := by
  have hperm : (processFrames p f).Perm (p.kernelStackPageFrame :: ownFrames p f) :=
    List.Perm.swap ..
  have hnodup := hperm.nodup (List.nodup_append.mp h.nodup).1
  exact ⟨hperm.mem_iff.mpr (List.mem_cons_of_mem _ ha),
    fun he => (List.nodup_cons.mp hnodup).1 (he ▸ ha)⟩

theorem Fresh.own_outside (h : Fresh p f n) (ha : a ∈ ownFrames p f) (hi : i < 4096) :
    Outside p.kernelStackPageFrame (a.toNat + i) :=
  (h.old (h.ne_kernelStack ha).1).outside (h.old (f := f) kernelStackPageFrame_mem)
    (h.ne_kernelStack ha).2 hi

/-- Compiled code on the parent's stack, below the frame, disturbs nothing. -/
theorem Forked.congr (h : Forked p f n rsp s m) (hf : Fresh p f n)
    (hr : OnStack rsp p.kernelStackPageFrame)
    (hm : ∀ x, Outside p.kernelStackPageFrame x ∨ rsp.toNat ≤ x → m' x = m x) :
    Forked p f n rsp s m' := by
  have hk : p.kernelStackPageFrame ∈ processFrames p f := kernelStackPageFrame_mem
  have hkframe := hf.old hk
  have hnew : ∀ a ∈ n.toList, ∀ i < 4096, Outside p.kernelStackPageFrame (a.toNat + i) :=
    fun a ha _ hi => (hf.new ha).outside hkframe (hf.old_ne_new hk ha).symm hi
  have htext : p.textSegmentPageFrame ∈ ownFrames p f := by simp [ownFrames]
  constructor
  · constructor
    · apply h.described.parent.congr
      intro a ha x h1 h2
      obtain ⟨i, rfl⟩ := Nat.exists_eq_add_of_le h1
      have hown : a ∈ ownFrames p f := List.mem_cons_of_mem _ (List.mem_cons_of_mem _ ha)
      exact hm _ (Or.inl (hf.own_outside hown (by omega)))
    · apply h.described.child.congr
      intro a ha x h1 h2
      obtain ⟨i, rfl⟩ := Nat.exists_eq_add_of_le h1
      exact hm _ (Or.inl (hnew a (List.mem_append_right _ ha) i (by omega)))
  · intro i hi
    rw [hm _ (Or.inl (hnew _ text_mem i hi)), h.text i hi, hm _ (Or.inl (hf.own_outside htext hi))]
  · intro i hi
    rw [hm _ (Or.inl (hnew _ userStack_mem i hi)), h.userStack i hi,
      hm _ (Or.inl (hf.own_outside List.mem_cons_self hi))]
  · exact h.parentFrame.congr fun x h1 _ => hm x (Or.inr h1)
  · have hrsp := childRsp_toNat hf hr
    obtain ⟨habove, hbelow⟩ := hr
    apply h.childFrame.congr
    intro x h1 h2
    have hlen : 8 * (interruptStack (childContext s.toContext)).length = 160 := rfl
    obtain ⟨i, rfl⟩ := Nat.exists_eq_add_of_le (Nat.le_of_add_right_le (hrsp ▸ h1))
    exact hm _ (Or.inl (hnew _ kernelStack_mem i (by omega)))

/-- The fork and the way out of it leave what the child needs. -/
theorem forkMemory_forked (hf : Fresh p f n) (hr : OnStack rsp p.kernelStackPageFrame)
    (hd : Describes m f p.textSegmentPageFrame p.userStackPageFrame)
    (hw : Words m rsp.toNat (interruptStack s.toContext)) :
    Forked p f n rsp s (forkMemory m p n rsp) := by
  constructor
  · constructor
    · apply hd.congr
      intro a ha x h1 h2
      obtain ⟨i, rfl⟩ := Nat.exists_eq_add_of_le h1
      exact forkMemory_old hf hr (List.mem_append_right _ ha) (by omega)
    · exact forkMemory_describes hf hr
  · intro i hi
    rw [forkMemory_text hf hr hi, forkMemory_old hf hr textSegmentPageFrame_mem hi]
  · intro i hi
    rw [forkMemory_userStack hf hr hi, forkMemory_old hf hr userStackPageFrame_mem hi]
  · obtain ⟨habove, hbelow⟩ := hr
    apply hw.congr
    intro x h1 h2
    have hlen : 8 * (interruptStack s.toContext).length = 160 := rfl
    obtain ⟨i, rfl⟩ := Nat.exists_eq_add_of_le (habove.trans h1)
    exact forkMemory_old hf ⟨habove, hbelow⟩ kernelStackPageFrame_mem (by omega)
  · exact forkMemory_childFrame hf hr hw

end Fork

/-! ## The two processes -/

section Duplicate
variable {p : Process} {f : TableFrames} {n : ForkFrames} {s t : State} {rsp : BitVec 64}
  {junk : State}

theorem forkSyscall_eq (hf : Fresh p.processMemory f n) (returnFromSysFork : BitVec 64)
    (frames : List (BitVec 64)) (junk₁ junk₂ : State) :
    let low := p.processMemory.kernelStackPageFrame.toNat
    let rsp := (syscallEnter s).reg .rsp
    let t := (syscallEnter s).call low junk₁
    forkSyscall returnFromSysFork (n.toList ++ frames) junk₁ junk₂ p s =
      (newProcessId p.pid, forkChild returnFromSysFork p n rsp,
        { t with mem := forkMemory t.mem p.processMemory n rsp }.call low junk₂) := by
  unfold forkSyscall
  simp only [sysFork_eq returnFromSysFork hf.usable]

/-- The fork, and compiled code after it. -/
theorem forkMemory_call (junk : State) (hf : Fresh p.processMemory f n)
    (hr : OnStack rsp p.processMemory.kernelStackPageFrame) (hsp : t.sp = rsp.toNat)
    (hd : Describes t.mem f p.processMemory.textSegmentPageFrame
      p.processMemory.userStackPageFrame)
    (hw : Words t.mem rsp.toNat (interruptStack s.toContext)) :
    let u := ({ t with mem := forkMemory t.mem p.processMemory n rsp } : State).call
      p.processMemory.kernelStackPageFrame.toNat junk
    u.sp = rsp.toNat ∧ Forked p.processMemory f n rsp s u.mem ∧
      ∀ a ∈ ownFrames p.processMemory f, ∀ i < 4096,
        u.mem (a.toNat + i) = t.mem (a.toNat + i) := by
  have hcall : ∀ x, Outside p.processMemory.kernelStackPageFrame x ∨ rsp.toNat ≤ x →
      (({ t with mem := forkMemory t.mem p.processMemory n rsp } : State).call
        p.processMemory.kernelStackPageFrame.toNat junk).mem x =
        forkMemory t.mem p.processMemory n rsp x := by
    intro x hx
    obtain ⟨habove, hbelow⟩ := hr
    apply State.call_mem
    show _ ∨ t.sp ≤ x
    unfold Outside at hx
    omega
  refine ⟨State.sp_call.trans hsp, (forkMemory_forked hf hr hd hw).congr hf hr hcall,
    fun a ha i hi => ?_⟩
  rw [hcall _ (Or.inl (hf.own_outside ha hi))]
  exact forkMemory_old hf hr (hf.ne_kernelStack ha).1 hi

/-- The memory with which `SyscallHandler` returns to the parent. -/
theorem UserMode.forked (hp : UserMode p.processMemory f s) (hf : Fresh p.processMemory f n)
    (returnFromSysFork : BitVec 64) (frames : List (BitVec 64)) (junk₁ junk₂ : State) :
    let rsp := (syscallEnter s).reg .rsp
    let u := (forkSyscall returnFromSysFork (n.toList ++ frames) junk₁ junk₂ p s).2.2
    u.sp = rsp.toNat ∧ Forked p.processMemory f n rsp s u.mem ∧
      ∀ a ∈ ownFrames p.processMemory f, ∀ i < 4096,
        u.mem (a.toNat + i) = s.mem (a.toNat + i) := by
  rw [forkSyscall_eq hf]
  dsimp only
  have hd : Describes ((syscallEnter s).call p.processMemory.kernelStackPageFrame.toNat junk₁).mem f
      p.processMemory.textSegmentPageFrame p.processMemory.userStackPageFrame := by
    apply hp.tables.congr
    intro a ha x h1 h2
    obtain ⟨i, rfl⟩ := Nat.exists_eq_add_of_le h1
    have hown : a ∈ ownFrames p.processMemory f :=
      List.mem_cons_of_mem _ (List.mem_cons_of_mem _ ha)
    exact hp.enter_outside (hf.own_outside hown (by omega))
  obtain ⟨hsp, hforked, hkeep⟩ := forkMemory_call junk₂ hf hp.onStack
    (State.sp_call (s := syscallEnter s)) hd hp.enter_words
  refine ⟨hsp, hforked, fun a ha i hi => ?_⟩
  rw [hkeep a ha i hi]
  exact hp.enter_outside (hf.own_outside ha hi)

/-- The first switch to the child, from a stack that is not the child's. -/
theorem Forked.child_resumes {m : ByteMemory} (h : Forked p.processMemory f n rsp s m)
    (hf : Fresh p.processMemory f n) (hr : OnStack rsp p.processMemory.kernelStackPageFrame)
    (hmem : ∀ i < 4096, t.mem (n.kernelStack.toNat + i) = m (n.kernelStack.toNat + i))
    (hroom : 16 ≤ t.sp)
    (hstack : t.sp ≤ n.kernelStack.toNat ∨ n.kernelStack.toNat + 4096 + 16 ≤ t.sp)
    (returnFromSysForkAddr load : BitVec 64) (prev : Process) (low : Nat) (junk' : State) :
    let child := forkChild returnFromSysForkAddr p n rsp
    let u := (schedule load junk prev child t).2
    u.rip = returnFromSysForkAddr ∧
      (returnFromSysFork low junk' u).toContext = childContext s.toContext ∧
      (returnFromSysFork low junk' u).cr3 = n.tables.l4 := by
  have hrsp := childRsp_toNat hf hr
  have hk := hf.new kernelStack_mem
  obtain ⟨habove, hbelow⟩ := hr
  have hfirst : 4096 ≤ n.kernelStack.toNat := by
    have hpos : n.kernelStack.toNat ≠ 0 := fun h0 =>
      hf.nonzero _ kernelStack_mem (BitVec.eq_of_toNat_eq h0)
    exact Nat.le_of_dvd (Nat.pos_of_ne_zero hpos) hk.aligned
  have hlt := hk.below
  intro child u
  obtain ⟨hrip, hsp, hcr3, -, hkeep⟩ := schedule_spec load junk prev child hroom
    (show 16 ≤ (childRsp p.processMemory n rsp).toNat by omega)
  have hchild : child.threadInfo.rsp = childRsp p.processMemory n rsp := rfl
  rw [hchild] at hsp hkeep
  have hframe : u.sp + 8 = (childRsp p.processMemory n rsp).toNat := by
    show (schedule load junk prev child t).2.sp + 8 = _
    omega
  refine ⟨hrip, returnFromSysFork_context ?_ (by omega), returnFromSysFork_cr3.trans hcr3⟩
  rw [hframe]
  apply h.childFrame.congr
  intro x h1 h2
  have hlen : 8 * (interruptStack (childContext s.toContext)).length = 160 := rfl
  obtain ⟨i, rfl⟩ := Nat.exists_eq_add_of_le (Nat.le_of_add_right_le (hrsp ▸ h1))
  exact (hkeep _ h1 (by omega)).trans (hmem i (by omega))

/-- The same bytes at the same addresses of the user. -/
theorem Forked.userLoad_eq {m : ByteMemory} (h : Forked p.processMemory f n rsp s m)
    (la : BitVec 64) : userLoad m n.tables.l4 la = userLoad m f.l4 la := by
  have hoffset : la.toNat % 2 ^ 12 < 4096 := Nat.mod_lt _ (by decide)
  rw [h.described.child.userLoad_eq, h.described.parent.userLoad_eq, h.text _ hoffset,
    h.userStack _ hoffset]

/-- What `SYSCALL_FORK` does for the user: the child reads what the parent reads; both go on where
the parent entered the kernel, the parent with the pid and the child with 0; and what one of them
stores as a user, the other never sees. -/
structure Duplicated (p : Process) (f : TableFrames) (n : ForkFrames) (s : State)
    (returnFromSysForkAddr : BitVec 64) (pid : BitVec 32) (child : Process) (u : State) :
    Prop where
  reads : ∀ la, userLoad u.mem child.processMemory.l4PageTableBase la =
      userLoad u.mem p.processMemory.l4PageTableBase la ∧
    userLoad u.mem p.processMemory.l4PageTableBase la = userLoad s.mem f.l4 la
  childPid : child.pid = pid
  parentResumes : (syscallLeave (pid.signExtend 64) u).toContext =
    { s.toContext with reg := update s.reg .rax (pid.signExtend 64) }
  isolated : ∀ (ss : List UserStore) (la : BitVec 64) (v : BitVec 8) (a : BitVec 64),
    let m := UserStore.run f n u.mem ss
    let l4 := p.processMemory.l4PageTableBase
    let childL4 := child.processMemory.l4PageTableBase
    userLoad (userStore m l4 la v) childL4 a = userLoad m childL4 a ∧
      userLoad (userStore m childL4 la v) l4 a = userLoad m l4 a
  /-- The child is switched to after any stores, from a stack that is not its own. -/
  childResumes : ∀ (ss : List UserStore) (t : State) (load : BitVec 64) (prev : Process)
    (junk junk' : State) (low : Nat),
    (∀ i < 4096, t.mem (n.kernelStack.toNat + i) =
      UserStore.run f n u.mem ss (n.kernelStack.toNat + i)) →
    16 ≤ t.sp → (t.sp ≤ n.kernelStack.toNat ∨ n.kernelStack.toNat + 4096 + 16 ≤ t.sp) →
    let v := (schedule load junk prev child t).2
    v.rip = returnFromSysForkAddr ∧
      (returnFromSysFork low junk' v).toContext = childContext s.toContext ∧
      (returnFromSysFork low junk' v).cr3 = child.processMemory.l4PageTableBase

/-- A fork for which all allocations succeed, with every frame within reach. -/
theorem UserMode.duplicated (hp : UserMode p.processMemory f s)
    (hf : Fresh p.processMemory f n) (returnFromSysForkAddr : BitVec 64)
    (frames : List (BitVec 64)) (junk₁ junk₂ : State) :
    let r := forkSyscall returnFromSysForkAddr (n.toList ++ frames) junk₁ junk₂ p s
    Duplicated p f n s returnFromSysForkAddr r.1 r.2.1 r.2.2 := by
  obtain ⟨hsp, hforked, hkeep⟩ := hp.forked hf returnFromSysForkAddr frames junk₁ junk₂
  have hr := hp.onStack
  have hk := (hf.old (f := f) kernelStackPageFrame_mem).below
  have hbelow := hr.below
  rw [forkSyscall_eq hf] at hsp hforked hkeep ⊢
  dsimp only at hsp hforked hkeep ⊢
  constructor
  case reads =>
    intro la
    have hoffset : la.toNat % 2 ^ 12 < 4096 := Nat.mod_lt _ (by decide)
    rw [hp.root]
    refine ⟨hforked.userLoad_eq la, ?_⟩
    rw [hforked.described.parent.userLoad_eq, hp.tables.userLoad_eq,
      hkeep _ (by simp [ownFrames]) _ hoffset, hkeep _ (by simp [ownFrames]) _ hoffset]
  case childPid => rfl
  case parentResumes =>
    apply syscallLeave_context
    · rw [hsp]
      exact hforked.parentFrame
    · rw [hsp]
      omega
  case isolated =>
    intro ss la v a
    rw [hp.root]
    exact (hforked.described.run hf ss).isolated hf
  case childResumes =>
    intro ss t load prev junk junk' low hmem hroom hstack
    apply hforked.child_resumes hf hr (fun i hi => ?_) hroom hstack
    rw [hmem i hi]
    exact hforked.described.run_outside hf ss (hf.kernelStack_outside hi)

end Duplicate
end Amaterasu
