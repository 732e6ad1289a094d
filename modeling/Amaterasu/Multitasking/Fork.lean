import Amaterasu.Multitasking.Isolation

/-! A fork of the current process with frames that nobody has: the child is put away on its new
kernel stack, and nobody else notices. -/

namespace Amaterasu
open Cpu PageWalk Function Runs Machine

section Leave
variable {p : Process} {f : TableFrames} {n : ForkFrames} {s : State} {x : Nat}

/-- The copies and the compiled code after them. -/
theorem forkMemory_call_outside {rsp : BitVec 64} {t : State} (junk : State)
    (hf : Fresh p.processMemory f n) (hr : OnStack rsp p.processMemory.kernelStackPageFrame)
    (hsp : t.sp = rsp.toNat) (hx : Outside p.processMemory.kernelStackPageFrame x)
    (hnew : ∀ a ∈ n.toList, Outside a x) :
    (({ t with mem := forkMemory t.mem p.processMemory n rsp } : State).call
      p.processMemory.kernelStackPageFrame.toNat junk).mem x = t.mem x := by
  have hbelow := hr.below
  have hcall : (({ t with mem := forkMemory t.mem p.processMemory n rsp } : State).call
      p.processMemory.kernelStackPageFrame.toNat junk).mem x =
      forkMemory t.mem p.processMemory n rsp x := by
    apply State.call_mem
    show _ ∨ t.sp ≤ x
    unfold Outside at hx
    omega
  rw [hcall, forkMemory_outside hf hr (hnew _ kernelStack_mem), copyFrames_outside hnew]

/-- The fork writes on the parent's kernel stack and in the new frames. -/
theorem UserMode.forked_outside (hp : UserMode p.processMemory f s)
    (hf : Fresh p.processMemory f n) (returnFromSysFork : BitVec 64) (junk₁ junk₂ : State) :
    let u := (forkSyscall returnFromSysFork n.toList junk₁ junk₂ p s).2.2
    u.cr3 = s.cr3 ∧ u.rsp0 = s.rsp0 ∧
      ∀ x, Outside p.processMemory.kernelStackPageFrame x → (∀ a ∈ n.toList, Outside a x) →
        u.mem x = s.mem x := by
  have heq := forkSyscall_eq (s := s) hf returnFromSysFork [] junk₁ junk₂
  rw [List.append_nil] at heq
  rw [heq]
  refine ⟨rfl, rfl, fun x hx hnew => ?_⟩
  exact (forkMemory_call_outside junk₂ hf hp.onStack State.sp_call hx hnew).trans
    (hp.enter_outside hx)

end Leave

section Fork
variable {l : Link} {m : PageFrames} {s : Machine} {x : Tasks} {frames : FrameSystem}
  {n : ForkFrames} {child p : Nat} {a : BitVec 64}

/-- The frames of the child are not those of a process. -/
theorem Represents.granted_ne (h : Represents l m s x)
    (hg : FrameSystem.Granted m s.frames frames n.toList) (hp : p ∈ s.created)
    (ha : a ∈ s.framesOf p) : a ∉ n.toList := fun hn =>
  hg.free a hn (h.separate.live p hp a ha)

theorem Represents.fresh (h : Represents l m s x)
    (hg : FrameSystem.Granted m s.frames frames n.toList) (hzero : 0 ∉ n.toList) :
    Fresh (s.process s.currentProcess).processMemory (s.tables s.currentProcess) n where
  frames a ha := (List.mem_append.mp ha).elim (h.separate.frame h.memCurrent) (hg.frame a)
  nodup := List.nodup_append.mpr ⟨(h.separate.framed _ h.memCurrent).nodup, hg.nodup,
    fun _ ha _ hb e => h.granted_ne hg h.memCurrent ha (e ▸ hb)⟩
  nonzero _ ha e := hzero (e ▸ ha)

/-- The child as `sysFork` leaves it. -/
theorem Forked.child_resident {p : Process} {f : TableFrames} {rsp : BitVec 64} {u : State}
    {t : Task} {mem : ByteMemory} (hforked : Forked p.processMemory f n rsp u mem)
    (hf : Fresh p.processMemory f n) (hr : OnStack rsp p.processMemory.kernelStackPageFrame)
    (hres : Resident mem p f t) (returnFromSysFork : BitVec 64) :
    Resident mem (forkChild returnFromSysFork p n rsp) n.tables
      { t.setRax 0 with pid := newProcessId t.pid } where
  root := rfl
  described := hforked.described.child
  holds := ⟨fun i hi => (hforked.text i hi).trans (hres.holds.text i hi),
    fun i hi => (hforked.userStack i hi).trans (hres.holds.userStack i hi)⟩
  below := by
    have hrsp := childRsp_toNat hf hr
    have hbelow := hr.below
    have hmask : (childRsp p.processMemory n rsp &&& ~~~15).toNat ≤
        (childRsp p.processMemory n rsp).toNat := by
      rw [BitVec.toNat_and]
      exact Nat.and_le_left
    show (childRsp p.processMemory n rsp &&& ~~~15).toNat ≤ n.kernelStack.toNat + 4096
    omega
  pid := congrArg newProcessId hres.pid
  state := hres.state

theorem Forked.child_parked {p : Process} {f : TableFrames} {rsp : BitVec 64} {u : State}
    {mem : ByteMemory} (hforked : Forked p.processMemory f n rsp u mem)
    (hf : Fresh p.processMemory f n) (hr : OnStack rsp p.processMemory.kernelStackPageFrame)
    (hroom : p.processMemory.kernelStackPageFrame.toNat + 16 ≤ rsp.toNat) (saved : State) :
    Parked l mem (forkChild l.returnFromSysFork p n rsp) saved false
      (childContext u.toContext) := by
  have hrsp := childRsp_toNat hf hr
  have hbelow := hr.below
  refine .forked rfl rfl ?_ hforked.childFrame ?_
  · show n.kernelStack.toNat + 16 ≤ (childRsp p.processMemory n rsp).toNat
    omega
  · show (childRsp p.processMemory n rsp).toNat + 160 ≤ n.kernelStack.toNat + 4096
    omega

/-- The machine after a fork for which `AllocatePageFrames` has the frames of `n`. -/
def Machine.forkWith (l : Link) (s : Machine) (frames : FrameSystem) (n : ForkFrames)
    (child : Nat) (junk₁ junk₂ : State) : Machine :=
  let r := forkSyscall l.returnFromSysFork n.toList junk₁ junk₂ (s.process s.currentProcess) s.cpu
  { s with
    cpu := syscallLeave (r.1.signExtend 64) r.2.2
    process := update s.process child r.2.1
    created := child :: s.created
    frames := frames
    tables := update s.tables child n.tables
    inCall := update s.inCall child false }

theorem Represents.separate_fork (h : Represents l m s x) (hchild : child ∉ s.created)
    (hg : FrameSystem.Granted m s.frames frames n.toList) (hzero : 0 ∉ n.toList)
    (junk₁ junk₂ : State) : Separate (s.forkWith l frames n child junk₁ junk₂) := by
  let t := s.forkWith l frames n child junk₁ junk₂
  have hold : ∀ p ∈ s.created, t.process p = s.process p ∧ t.tables p = s.tables p := by
    intro p hp
    have hne : p ≠ child := fun e => hchild (e ▸ hp)
    exact ⟨update_of_ne hne .., update_of_ne hne ..⟩
  have hframes : ∀ p ∈ s.created, t.framesOf p = s.framesOf p := by
    intro p hp
    unfold framesOf
    rw [(hold p hp).1, (hold p hp).2]
  have hnew : (t.process child).processMemory = n.processMemory ∧ t.tables child = n.tables := by
    have heq := forkSyscall_eq (s := s.cpu) (h.fresh hg hzero) l.returnFromSysFork [] junk₁ junk₂
    rw [List.append_nil] at heq
    refine ⟨?_, update_self ..⟩
    show (update s.process child _ child).processMemory = _
    rw [update_self, heq]
    rfl
  have hnewFrames : t.framesOf child = n.toList := by
    unfold framesOf
    rw [hnew.1, hnew.2]
    rfl
  have hcases : ∀ p ∈ t.created, p = child ∨ p ∈ s.created := fun p hp => List.mem_cons.mp hp
  constructor
  · intro p hp
    rcases hcases p hp with rfl | hp
    · constructor
      · intro a ha
        exact hg.frame a (hnewFrames ▸ ha)
      · exact (congrArg List.Nodup hnewFrames).mpr hg.nodup
    · rw [(hold p hp).1, (hold p hp).2]
      exact h.separate.framed p hp
  · intro p hp a ha
    rcases hcases p hp with rfl | hp
    · exact hg.live a (hnewFrames ▸ ha)
    · exact hg.kept _ (h.separate.live p hp a (hframes p hp ▸ ha))
  · intro p hp q hq hpq a ha
    rcases hcases p hp with rfl | hp'
    · rcases hcases q hq with rfl | hq'
      · exact absurd rfl hpq
      · rw [hframes q hq']
        exact fun hmem => h.granted_ne hg hq' hmem (hnewFrames ▸ ha)
    · rcases hcases q hq with rfl | hq'
      · rw [hnewFrames]
        exact h.granted_ne hg hp' (hframes p hp' ▸ ha)
      · rw [hframes q hq']
        exact h.separate.apart p hp' q hq' hpq a (hframes p hp' ▸ ha)

/-- Nobody but the parent and the child notices the fork. -/
theorem Represents.forks (h : Represents l m s x) (hchild : child ∉ s.created)
    (hg : FrameSystem.Granted m s.frames frames n.toList) (hzero : 0 ∉ n.toList)
    (hroom : (s.kernelStack s.currentProcess).toNat + 192 ≤ s.cpu.top.toNat)
    (junk₁ junk₂ : State) :
    let pid := newProcessId x.own.pid
    Represents l m (s.forkWith l frames n child junk₁ junk₂)
      { (x.set x.current (x.own.setRax (pid.signExtend 64))).set child
          { x.own.setRax 0 with pid := pid } with created := child :: x.created } := by
  intro pid
  have hcur := h.memCurrent
  have hne : s.currentProcess ≠ child := fun e => hchild (e ▸ hcur)
  have hf := h.fresh hg hzero
  have hp := h.userMode (by omega)
  have hr := hp.onStack
  have hroom' : (s.kernelStack s.currentProcess).toNat + 16 ≤
      ((syscallEnter s.cpu).reg .rsp).toNat := by
    have hsp := hp.enter_sp
    unfold State.sp at hsp
    omega
  have heq := forkSyscall_eq (s := s.cpu) hf l.returnFromSysFork [] junk₁ junk₂
  obtain ⟨hsp, hforked, hkeep⟩ := hp.forked hf l.returnFromSysFork [] junk₁ junk₂
  rw [List.append_nil] at heq hsp hforked hkeep
  obtain ⟨hcr3, hrsp0, hout⟩ := hp.forked_outside hf l.returnFromSysFork junk₁ junk₂
  let r := forkSyscall l.returnFromSysFork n.toList junk₁ junk₂ (s.process s.currentProcess) s.cpu
  let v := r.1.signExtend 64
  obtain ⟨hcr3', hrsp0', hmem⟩ := syscallLeave_frame v r.2.2
  have hpid : r.1 = pid := by
    have hown : x.own.pid = (s.process s.currentProcess).pid := by
      unfold Tasks.own
      rw [h.current]
      exact (h.resident _ hcur).pid.symm
    show _ = newProcessId x.own.pid
    rw [hown]
    exact congrArg Prod.fst heq
  have hrecord : r.2.1 = forkChild l.returnFromSysFork (s.process s.currentProcess) n
      ((syscallEnter s.cpu).reg .rsp) := congrArg (fun r => r.2.1) heq
  let t := s.forkWith l frames n child junk₁ junk₂
  have hcurTask : x.own = x.task s.currentProcess := h.own_eq
  have hresident := (h.resident _ hcur).congr hkeep
  have hother : ∀ p ∈ s.created, p ≠ s.currentProcess → ∀ a ∈ s.framesOf p, ∀ i < 4096,
      r.2.2.mem (a.toNat + i) = s.cpu.mem (a.toNat + i) := by
    intro p hp hpc a ha i hi
    apply hout
    · exact h.separate.outside hp hcur hpc ha (kernelStack_mem_framesOf s _) hi
    · intro b hb
      exact (h.separate.frame hp ha).outside (hf.new hb)
        (fun e => h.granted_ne hg hp ha (e ▸ hb)) hi
  let y := (x.set x.current (x.own.setRax (pid.signExtend 64))).set child
    { x.own.setRax 0 with pid := pid }
  have hchildTask : y.task child = { (x.task s.currentProcess).setRax 0 with
      pid := newProcessId (x.task s.currentProcess).pid } := by
    rw [← hcurTask]
    exact update_self ..
  have hparentTask : y.task s.currentProcess =
      (x.task s.currentProcess).setRax (pid.signExtend 64) := by
    rw [← hcurTask]
    refine (update_of_ne hne ..).trans ?_
    rw [← h.current]
    exact update_self ..
  have hold : ∀ p, p ≠ child → p ≠ s.currentProcess → y.task p = x.task p := fun p hp hpc =>
    (update_of_ne hp ..).trans (update_of_ne (h.current ▸ hpc) ..)
  constructor
  · exact congrArg (child :: ·) h.created
  · exact h.current
  · refine ⟨List.mem_cons_of_mem _ hcur, ?_⟩
    show (update s.process child r.2.1 s.currentProcess).state = .running
    rw [update_of_ne hne]
    exact h.runnable.2
  · exact hg.tracks
  · exact h.separate_fork hchild hg hzero junk₁ junk₂
  · intro p hp
    show Resident (syscallLeave v r.2.2).mem (update s.process child r.2.1 p)
      (update s.tables child n.tables p) (y.task p)
    rw [hmem]
    rcases List.mem_cons.mp hp with rfl | hp
    · rw [update_self, update_self, hrecord, hchildTask]
      exact hforked.child_resident hf hr hresident l.returnFromSysFork
    · have hpne : p ≠ child := fun e => hchild (e ▸ hp)
      rw [update_of_ne hpne, update_of_ne hpne]
      by_cases hpc : p = s.currentProcess
      · subst hpc
        rw [hparentTask]
        exact hresident.setContext _
      · rw [hold p hpne hpc]
        exact (h.other_kept (hother p hp hpc) hp hpc).1
  · show (syscallLeave v r.2.2).cr3 =
      (update s.process child r.2.1 s.currentProcess).processMemory.l4PageTableBase
    rw [hcr3', hcr3, update_of_ne hne]
    exact h.cr3
  · have htop : t.cpu.top = s.cpu.top := congrArg (· &&& ~~~15) (hrsp0'.trans hrsp0)
    have hstack : t.kernelStack t.currentProcess = s.kernelStack s.currentProcess :=
      congrArg (fun p : Process => p.processMemory.kernelStackPageFrame) (update_of_ne hne ..)
    rw [htop, hstack]
    exact h.top_le
  · show (syscallLeave v r.2.2).toContext = (y.task s.currentProcess).context
    have hk := (h.separate.frame hcur (kernelStack_mem_framesOf s _)).below
    have hbelow := hr.below
    have hleave : (syscallLeave v r.2.2).toContext =
        { s.cpu.toContext with reg := update s.cpu.reg .rax v } := by
      apply syscallLeave_context
      · rw [hsp]
        exact hforked.parentFrame
      · rw [hsp]
        unfold kernelStack at hk
        omega
    rw [hleave, hparentTask, h.context, show v = pid.signExtend 64 by rw [← hpid]]
    rfl
  · intro p hp
    show update s.inCall child false p = (y.task p).inCall
    rcases List.mem_cons.mp hp with rfl | hp
    · rw [update_self, hchildTask]
      exact (h.inCall _ hcur ▸ h.idle).symm
    · have hpne : p ≠ child := fun e => hchild (e ▸ hp)
      rw [update_of_ne hpne, h.inCall p hp]
      by_cases hpc : p = s.currentProcess
      · subst hpc
        rw [hparentTask]
        rfl
      · rw [hold p hpne hpc]
  · exact (update_of_ne hne _ _).trans h.idle
  · intro p hp
    show (update s.process child r.2.1 p).state = .sleep → update s.inCall child false p = true
    rcases List.mem_cons.mp hp with rfl | hp
    · rw [update_self, hrecord]
      exact fun hsleep => absurd (h.runnable.2.symm.trans hsleep) (by decide)
    · have hpne : p ≠ child := fun e => hchild (e ▸ hp)
      rw [update_of_ne hpne, update_of_ne hpne]
      exact h.asleep p hp
  · intro p hp hpc
    show (update s.process child r.2.1 p).state ≠ _ → Parked l (syscallLeave v r.2.2).mem
      (update s.process child r.2.1 p) (s.suspended p) (update s.inCall child false p)
      (y.task p).context
    rw [hmem]
    rcases List.mem_cons.mp hp with rfl | hp
    · rw [update_self, update_self, hrecord, hchildTask]
      intro _
      have hcontext : childContext s.cpu.toContext = ((x.task s.currentProcess).setRax 0).context :=
        congrArg childContext h.context
      show Parked l r.2.2.mem _ _ false ((x.task s.currentProcess).setRax 0).context
      rw [← hcontext]
      exact hforked.child_parked hf hr hroom' _
    · have hpne : p ≠ child := fun e => hchild (e ▸ hp)
      rw [update_of_ne hpne, update_of_ne hpne, hold p hpne hpc]
      exact (h.other_kept (hother p hp hpc) hp hpc).2

end Fork
end Amaterasu
