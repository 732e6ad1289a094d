import Amaterasu.Process.Duplicate
import Amaterasu.Process.ExecImage
import Amaterasu.Process.PagedFork

/-! When a fork gets through. The kernel reaches frames by their addresses, and the page tables map
the first 5 GiB of these: a fork with a frame beyond them ends in a page fault. Below them it does
what `sysFork` does to physical memory. -/

namespace Amaterasu
open Cpu PageWalk Program Function
namespace Paged

/-- The kernel reaches the frame by its address. -/
def Low (a : BitVec 64) : Prop := a.toNat < 5 * 2 ^ 30

instance (a : BitVec 64) : Decidable (Low a) := inferInstanceAs (Decidable (a.toNat < 5 * 2 ^ 30))

/-- The tables of the process are in use. -/
structure OwnTables (p : ProcessMemory) (f : TableFrames) (r : Ram) : Prop where
  cr3 : r.cr3 = f.l4
  tables : Describes r.mem f p.textSegmentPageFrame p.userStackPageFrame

section Steps
variable {p : ProcessMemory} {f : TableFrames} {r : Ram} {a b la : BitVec 64}

theorem OwnTables.congr {t : Ram} (h : OwnTables p f r) (ha : IsFrame a)
    (hf : ∀ b ∈ f.toList, b ≠ a) (hcr3 : t.cr3 = r.cr3)
    (hm : ∀ x, Outside a x → t.mem x = r.mem x) : OwnTables p f t := by
  refine ⟨hcr3.trans h.cr3, h.tables.congr fun b hb x h1 h2 => hm x ?_⟩
  obtain ⟨i, rfl⟩ := Nat.exists_eq_add_of_le h1
  exact (h.tables.frames b hb).outside ha (hf b hb) (by omega)

theorem OwnTables.faults (h : OwnTables p f r) (ha : IsFrame a) (hhigh : ¬Low a) :
    physical r.mem r.cr3 a = none := by
  have hlt := ha.below
  unfold Low at hhigh
  unfold physical
  rw [h.cr3, h.tables.walk_eq]
  unfold addressSpace
  rw [if_neg hhigh, if_neg (by omega), if_neg (by omega)]
  rfl

/-- A page below 5 GiB is written as it is. -/
theorem OwnTables.direct (h : OwnTables p f r) (ha : IsFrame a) (hf : ∀ b ∈ f.toList, b ≠ a)
    (hlow : Low a) : Direct { x | Low x } (range a 4096) r.cr3 r.mem := by
  obtain ⟨k, hk⟩ := ha.aligned
  unfold Low at hlow
  rw [h.cr3]
  refine h.tables.direct ?_ ?_
  · rintro x (hx | ⟨-, hx⟩)
    · exact hx
    · omega
  · rintro x ⟨h1, h2⟩ t ht
    rcases (h.tables.frames t ht).apart ha (hf t ht) with hap | hap
    · right
      omega
    · left
      omega

theorem page_within (ha : IsFrame a) {i : Nat} (hi : i < 4096) :
    (a + BitVec.ofNat 64 i).toNat = a.toNat + i := by
  have hlt := ha.below
  exact toNat_add_ofNat (by omega)

theorem page_low (ha : IsFrame a) (hlow : Low a) {i : Nat} (hi : i < 4096) :
    Low (a + BitVec.ofNat 64 i) := by
  obtain ⟨k, hk⟩ := ha.aligned
  unfold Low at hlow ⊢
  rw [page_within ha hi]
  omega

theorem copy_runsWhen (h : OwnTables p f r) (ha : IsFrame a) (hb : IsFrame b)
    (hf : ∀ c ∈ f.toList, c ≠ a) : RunsWhen (Low a ∧ Low b) (Ram.copy a b 4096) r ()
      fun t => t.mem = r.mem.copy a.toNat b.toNat 4096 ∧ OwnTables p f t := by
  have hlta := ha.below
  have hltb := hb.below
  constructor
  · rintro ⟨hla, hlb⟩
    obtain ⟨t, hrun, hmem, hcr3⟩ := Ram.copy_direct (h.direct ha hf hla) fun i hi =>
      ⟨page_low hb hlb hi, by
        rw [page_within ha hi]
        omega, by
        rw [page_within ha hi]
        omega⟩
    rw [copied_eq (by omega) (by omega)] at hmem
    refine ⟨t, hrun, hmem, h.congr ha hf hcr3 fun x hx => ?_⟩
    rw [hmem, copy_frame_outside hx]
  · intro hhigh
    obtain ⟨t, ht⟩ : ∃ t, Ram.copy a b 4096 r = .error () t := by
      refine Ram.copy_faults (by decide) ?_
      by_cases hlb : Low b
      · exact Or.inr (h.faults ha fun hla => hhigh ⟨hla, hlb⟩)
      · exact Or.inl (h.faults hb hlb)
    exact ⟨(), t, ht⟩

theorem modifyWords_runsWhen (g : Nat → BitVec 64 → BitVec 64) (h : OwnTables p f r)
    (ha : IsFrame a) (hf : ∀ b ∈ f.toList, b ≠ a) :
    RunsWhen (Low a) (Ram.modifyWords a g 512) r ()
      fun t => t.mem = r.mem.modifyWords a.toNat g 512 ∧ OwnTables p f t := by
  have hlta := ha.below
  constructor
  · intro hlow
    obtain ⟨t, hrun, hmem, hcr3⟩ := Ram.modifyWords_direct (f := g) (n := 512)
      (h.direct ha hf hlow) (by omega) fun i hi =>
      ⟨page_low ha hlow hi, by
        rw [page_within ha hi]
        omega, by
        rw [page_within ha hi]
        omega⟩
    refine ⟨t, hrun, hmem, h.congr ha hf hcr3 fun x hx => ?_⟩
    rw [hmem, ByteMemory.modifyWords_outside (a := a.toNat) (n := 512) hx]
  · intro hhigh
    obtain ⟨t, ht⟩ := Ram.modifyWords_faults (f := g) (n := 512) (by decide) (h.faults ha hhigh)
    exact ⟨(), t, ht⟩

end Steps

/-! ## The program -/

section Fork
variable {p : ProcessMemory} {f : TableFrames} {n : ForkFrames} {r : Ram} {rsp : BitVec 64}

/-- No new frame is a table of the parent. -/
theorem table_ne_new (hf : Fresh p f n) {a : BitVec 64} (ha : a ∈ n.toList) :
    ∀ b ∈ f.toList, b ≠ a := fun _ hb => hf.old_ne_new (List.mem_append_right _ hb) ha

theorem setUpPageTable_runsWhen (frames : List (BitVec 64)) (text base : BitVec 64)
    (h : OwnTables p f r) (hf : Fresh p f n) :
    RunsWhen (∀ a ∈ n.tables.toList, Low a)
      (setUpPageTable (n.tables.toList ++ frames) text base) r (n.tables.l4, frames)
      fun t => t.mem = fillTables r.mem n.tables text base ∧ OwnTables p f t := by
  have hnew : ∀ a ∈ n.tables.toList, a ∈ n.toList := fun a ha => List.mem_append_right _ ha
  have hframes := hf.usable.frames
  have hne := hf.usable.nonzero
  have hfill : ∀ a ∈ n.tables.toList, ∀ (g : Nat → BitVec 64 → BitVec 64) (r : Ram),
      OwnTables p f r → RunsWhen (Low a) (Ram.modifyWords a g 512) r ()
        fun t => t.mem = r.mem.modifyWords a.toNat g 512 ∧ OwnTables p f t := fun a ha g r hr =>
    modifyWords_runsWhen g hr (hframes a ha) (table_ne_new hf (hnew a ha))
  simp only [TableFrames.toList, List.forall_mem_cons] at hfill hne
  obtain ⟨f0, f1, f2, f3, f4, -⟩ := hfill
  obtain ⟨h0, h1, h2, h3, h4, -⟩ := hne
  unfold setUpPageTable TableFrames.toList
  simp only [List.cons_append, List.nil_append, allocatePageFrame, h0, h1, h2, h3, h4, if_false]
  refine RunsWhen.congr (RunsWhen.bind (f0 _ r h) fun r₀ h₀ =>
    RunsWhen.bind (f1 _ r₀ h₀.2) fun r₁ h₁ =>
    RunsWhen.bind (f2 _ r₁ h₁.2) fun r₂ h₂ =>
    RunsWhen.bind (f3 _ r₂ h₂.2) fun r₃ h₃ =>
    RunsWhen.bind (f4 _ r₃ h₃.2) fun r₄ h₄ => RunsWhen.pure ⟨?_, h₄.2⟩) ?_
  · rw [h₄.1, h₃.1, h₂.1, h₁.1, h₀.1]
    rfl
  · simp only [List.forall_mem_cons, List.not_mem_nil, IsEmpty.forall_iff, implies_true, and_true]

/-- The frames of the parent that a fork copies. -/
def copied (p : ProcessMemory) : List (BitVec 64) :=
  [p.textSegmentPageFrame, p.kernelStackPageFrame, p.userStackPageFrame]

theorem copyProcessMemory_runsWhen (frames : List (BitVec 64)) (h : OwnTables p f r)
    (hf : Fresh p f n) :
    RunsWhen (∀ a ∈ copied p ++ n.toList, Low a)
      (copyProcessMemory (n.toList ++ frames) 0 p) r (n.processMemory, frames)
      fun t => t.mem = copyFrames r.mem p n ∧ OwnTables p f t := by
  have hflag : ¬((0 : BitVec 8) &&& cloneVM ≠ 0) := by decide
  have hcopy : ∀ a ∈ n.toList, ∀ b ∈ processFrames p f, ∀ r : Ram, OwnTables p f r →
      RunsWhen (Low a ∧ Low b) (Ram.copy a b 4096) r ()
        fun t => t.mem = r.mem.copy a.toNat b.toNat 4096 ∧ OwnTables p f t :=
    fun a ha b hb r hr => copy_runsWhen hr (hf.new ha) (hf.old hb) (table_ne_new hf ha)
  unfold copyProcessMemory copyTextSegment ForkFrames.toList
  simp only [List.cons_append, List.nil_append, allocatePageFrame, if_neg hflag, bind_assoc,
    pure_bind]
  refine RunsWhen.congr
    (RunsWhen.bind (hcopy _ text_mem _ textSegmentPageFrame_mem r h) fun r₀ h₀ =>
    RunsWhen.bind (hcopy _ kernelStack_mem _ kernelStackPageFrame_mem r₀ h₀.2) fun r₁ h₁ =>
    RunsWhen.bind (hcopy _ userStack_mem _ userStackPageFrame_mem r₁ h₁.2) fun r₂ h₂ =>
    RunsWhen.bind (setUpPageTable_runsWhen frames n.text _ h₂.2 hf) fun r₃ h₃ =>
    RunsWhen.pure ⟨?_, h₃.2⟩) ?_
  · rw [h₃.1, h₂.1, h₁.1, h₀.1]
    rfl
  · simp only [copied, List.forall_mem_append, List.forall_mem_cons, List.not_mem_nil,
      IsEmpty.forall_iff, implies_true, and_true]
    tauto

theorem setUpStack_runsWhen (registers : BitVec 64) (h : OwnTables p f r) (hf : Fresh p f n)
    (hr : OnStack rsp p.kernelStackPageFrame) (hlow : Low n.kernelStack) :
    RunsWhen True (setUpStack 0 registers rsp p n.processMemory) r (childRsp p n rsp)
      fun t => t.mem = r.mem.writeWord (childRsp p n rsp).toNat 0 := by
  have hrsp := childRsp_toNat hf hr
  have hk := hf.new kernelStack_mem
  have hlt := hk.below
  obtain ⟨habove, hbelow⟩ := hr
  have hdirect := h.direct hk (table_ne_new hf kernelStack_mem) hlow
  obtain ⟨t, hrun, hmem, -⟩ : ∃ t, Ram.storeAll (Ram.wordBytes (childRsp p n rsp) 0) r =
      .ok () t ∧ t.mem = poke r.mem (Ram.wordBytes (childRsp p n rsp) 0) ∧ t.cr3 = r.cr3 :=
    Ram.storeAll_direct hdirect fun w hw => by
      obtain ⟨i, hi, rfl⟩ := List.mem_map.mp hw
      have hbyte : i < 8 := List.mem_range.mp hi
      show n.kernelStack.toNat ≤ (childRsp p n rsp + BitVec.ofNat 64 i).toNat ∧
        (childRsp p n rsp + BitVec.ofNat 64 i).toNat < n.kernelStack.toNat + 4096
      rw [toNat_add_ofNat (by omega), hrsp]
      omega
  rw [poke_wordBytes (by omega)] at hmem
  exact ⟨fun _ => ⟨t, bind_ok hrun, hmem⟩, fun hfalse => absurd trivial hfalse⟩

theorem sysFork_runsWhen {parent : Process} (returnFromSysFork : BitVec 64)
    (frames : List (BitVec 64)) (h : OwnTables parent.processMemory f r)
    (hf : Fresh parent.processMemory f n)
    (hr : OnStack rsp parent.processMemory.kernelStackPageFrame) :
    RunsWhen (∀ a ∈ copied parent.processMemory ++ n.toList, Low a)
      (sysFork returnFromSysFork (n.toList ++ frames) rsp parent) r
      (newProcessId parent.pid, forkChild returnFromSysFork parent n rsp, frames)
      fun t => t.mem = forkMemory r.mem parent.processMemory n rsp := by
  unfold sysFork doFork
  refine RunsWhen.congr
    (RunsWhen.bind (copyProcessMemory_runsWhen frames h hf).and fun r₀ h₀ =>
    RunsWhen.bind (setUpStack_runsWhen rsp h₀.2.2 hf hr ?_) fun r₁ h₁ => RunsWhen.pure ?_) ?_
  · exact h₀.1 _ (List.mem_append_right _ kernelStack_mem)
  · rw [h₁, h₀.2.1]
    rfl
  · simp only [and_true]

end Fork

/-! ## The system call -/

section Syscall
variable {p : Process} {f : TableFrames} {n : ForkFrames} {s : State}

/-- The tables are still there when `sysFork` is called. -/
theorem ownTables_enter (hp : UserMode p.processMemory f s) (hcr3 : s.cr3 = f.l4)
    (hf : Fresh p.processMemory f n) (junk : State) :
    let t := (syscallEnter s).call p.processMemory.kernelStackPageFrame.toNat junk
    OwnTables p.processMemory f ⟨t.mem, t.cr3, [], []⟩ := by
  refine ⟨hcr3, hp.tables.congr fun a ha x h1 h2 => ?_⟩
  obtain ⟨i, rfl⟩ := Nat.exists_eq_add_of_le h1
  have hown : a ∈ ownFrames p.processMemory f :=
    List.mem_cons_of_mem _ (List.mem_cons_of_mem _ ha)
  exact hp.enter_outside (hf.own_outside hown (by omega))

/-- Within reach, the system call does to physical memory what it should. -/
theorem forkSyscall_low (hp : UserMode p.processMemory f s) (hcr3 : s.cr3 = f.l4)
    (hf : Fresh p.processMemory f n) (hlow : ∀ a ∈ copied p.processMemory ++ n.toList, Low a)
    (returnFromSysForkAddr : BitVec 64) (frames : List (BitVec 64)) (junk₁ junk₂ : State) :
    forkSyscall returnFromSysForkAddr (n.toList ++ frames) junk₁ junk₂ p s =
      some (Amaterasu.forkSyscall returnFromSysForkAddr (n.toList ++ frames) junk₁ junk₂ p s) := by
  obtain ⟨t, hrun, hmem⟩ := (sysFork_runsWhen returnFromSysForkAddr frames
    (ownTables_enter hp hcr3 hf junk₁) hf hp.onStack).runs hlow
  have hphysical := Amaterasu.forkSyscall_eq (s := s) hf returnFromSysForkAddr frames junk₁ junk₂
  unfold forkSyscall
  dsimp only at hrun hmem hphysical ⊢
  rw [hrun, hphysical, ← hmem]
  rfl

theorem forkSyscall_high (hp : UserMode p.processMemory f s) (hcr3 : s.cr3 = f.l4)
    (hf : Fresh p.processMemory f n) (hhigh : ¬∀ a ∈ copied p.processMemory ++ n.toList, Low a)
    (returnFromSysForkAddr : BitVec 64) (frames : List (BitVec 64)) (junk₁ junk₂ : State) :
    forkSyscall returnFromSysForkAddr (n.toList ++ frames) junk₁ junk₂ p s = none := by
  obtain ⟨e, t, hrun⟩ := (sysFork_runsWhen returnFromSysForkAddr frames
    (ownTables_enter hp hcr3 hf junk₁) hf hp.onStack).stops hhigh
  unfold forkSyscall
  dsimp only at hrun ⊢
  rw [hrun]
  rfl

/-- `SYSCALL_FORK` duplicates the process just when the kernel reaches the eight new frames and the
three that it copies. -/
theorem forkSyscall_duplicates_iff (hp : UserMode p.processMemory f s) (hcr3 : s.cr3 = f.l4)
    (hf : Fresh p.processMemory f n) (returnFromSysForkAddr : BitVec 64)
    (frames : List (BitVec 64)) (junk₁ junk₂ : State) :
    (∃ r, forkSyscall returnFromSysForkAddr (n.toList ++ frames) junk₁ junk₂ p s = some r ∧
        Duplicated p f n s returnFromSysForkAddr r.1 r.2.1 r.2.2) ↔
      ∀ a ∈ copied p.processMemory ++ n.toList, Low a := by
  constructor
  · rintro ⟨r, hreturn, -⟩
    by_contra hhigh
    rw [forkSyscall_high hp hcr3 hf hhigh] at hreturn
    cases hreturn
  · intro hlow
    exact ⟨_, forkSyscall_low hp hcr3 hf hlow returnFromSysForkAddr frames junk₁ junk₂,
      hp.duplicated hf returnFromSysForkAddr frames junk₁ junk₂⟩

/-- A process whose kernel stack is the frame `0x202000`. -/
def forkingProcess : Process where
  pid := 1
  state := .running
  threadInfo := ⟨0, 0, 0, 0⟩
  processMemory := ⟨0x201000, 0x202000, 0x203000, 0x208000⟩

def forkingState : State where
  reg _ := 7
  rip := 0xffffffffffffe000
  cs := 0x1b
  rflags := 0x202
  ss := 0x23
  cr3 := 0x208000
  rsp0 := 0x202ff8
  mem := fillTables (fun _ => 0) firstTables 0x203000 (0x201000 - 8 + pageSize)

theorem forkingState_mem : forkingState.mem =
    fillTables (fun _ => 0) firstTables 0x203000 (0x201000 - 8 + pageSize) := by
  simp only [forkingState]

theorem forkingState_userMode :
    UserMode forkingProcess.processMemory firstTables forkingState := by
  have htables : Describes (fillTables (fun _ => 0) firstTables 0x203000
      (0x201000 - 8 + pageSize)) firstTables 0x203000 0x201000 :=
    firstTables_usable.describes (by decide) (by decide)
  refine ⟨rfl, ?_, by decide, by decide⟩
  rw [forkingState_mem]
  exact htables

/-- `∀ a : BitVec 64` would be decided by trying them all. -/
theorem firstForkFrames_low :
    ∀ a ∈ copied forkingProcess.processMemory ++ firstForkFrames.toList, Low a := by
  have hall : (copied forkingProcess.processMemory ++ firstForkFrames.toList).all (Low ·) := by
    decide
  exact fun a ha => of_decide_eq_true (List.all_eq_true.mp hall a ha)

/-- Forked with the frames from `0x209000` on, and switched to from the parent's stack. -/
theorem forkSyscall_duplicates_seven : ∃ r : BitVec 32 × Process × State,
    forkSyscall 0x100000 firstForkFrames.toList forkingState forkingState forkingProcess
      forkingState = some r ∧
    r.1 = 2 ∧
    (syscallLeave (r.1.signExtend 64) r.2.2).toContext =
      { forkingState.toContext with reg := update forkingState.reg .rax 2 } ∧
    r.2.2.sp = 0x202f50 ∧
    let v := (schedule 0x110000 forkingState forkingProcess r.2.1 r.2.2).2
    v.rip = 0x100000 ∧ (returnFromSysFork 0 forkingState v).toContext =
      { forkingState.toContext with reg := update forkingState.reg .rax 0 } := by
  have hp := forkingState_userMode
  have hf : Fresh forkingProcess.processMemory firstTables firstForkFrames :=
    firstForkFrames_fresh
  obtain ⟨r, hreturn, hdup⟩ := (forkSyscall_duplicates_iff hp rfl hf 0x100000 []
    forkingState forkingState).mpr firstForkFrames_low
  have hr := Option.some.inj (hreturn.symm.trans
    (forkSyscall_low hp rfl hf firstForkFrames_low 0x100000 [] forkingState forkingState))
  have hpid : r.1 = 2 := by
    rw [hr, forkSyscall_eq hf]
    rfl
  have hsp : r.2.2.sp = forkingState.top.toNat - 160 := by
    rw [hr]
    exact (hp.forked hf 0x100000 [] forkingState forkingState).1.trans hp.enter_sp
  have htop : forkingState.top.toNat - 160 = 0x202f50 := by decide
  rw [htop] at hsp
  obtain ⟨hrip, hcontext, -⟩ := hdup.childResumes [] r.2.2 0x110000 forkingProcess forkingState
    forkingState 0 (fun _ _ => rfl) (by rw [hsp]; decide) (Or.inl (by rw [hsp]; decide))
  have hparent := hdup.parentResumes
  rw [hpid] at hparent
  rw [List.append_nil] at hreturn
  refine ⟨r, hreturn, hpid, ?_, hsp, hrip, hcontext⟩
  rw [hpid]
  exact hparent

/-- The first frame allocated starts at 5 GiB. -/
def highForkFrames : ForkFrames := { firstForkFrames with userStack := 0x140000000 }

theorem forkSyscall_faults :
    UserMode forkingProcess.processMemory firstTables forkingState ∧
      forkingState.cr3 = firstTables.l4 ∧
      Fresh forkingProcess.processMemory firstTables highForkFrames ∧
      forkSyscall 0x100000 highForkFrames.toList forkingState forkingState forkingProcess
        forkingState = none := by
  have hp := forkingState_userMode
  have hf : Fresh forkingProcess.processMemory firstTables highForkFrames := by decide
  have hhigh : ¬∀ a ∈ copied forkingProcess.processMemory ++ highForkFrames.toList, Low a :=
    fun h => absurd (h 0x140000000 (by decide)) (by decide)
  have hreturn := forkSyscall_high hp rfl hf hhigh 0x100000 [] forkingState forkingState
  rw [List.append_nil] at hreturn
  exact ⟨hp, rfl, hf, hreturn⟩

end Syscall
end Paged
end Amaterasu
