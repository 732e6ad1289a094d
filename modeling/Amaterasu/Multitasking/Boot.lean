import Amaterasu.Multitasking.Runs
import Amaterasu.Process.Exec
import Amaterasu.Process.KernelStack

/-! The machine with its first process, and the runs that start there. -/

namespace Amaterasu
open Cpu PageWalk Function Runs Machine

namespace Machine

/-- After `kHeapInit`, `ProcessInit`, `PagingInit` and a `sysExec` that has loaded `image`. -/
def boot (s : FrameSystem) (m : ByteMemory) (record : ThreadInfo) (entryPoint : BitVec 64)
    (image : Nat → BitVec 8) (suspended : State) : Option Machine :=
  match s.allocateOnes 9 with
  | some (frames, [kHeapStart, text, kernelStack, userStack, l3Lower, l1, l2, l3, l4]) =>
    let addresses := [text, kernelStack, userStack, l3Lower, l1, l2, l3, l4]
    if (kHeapStart :: addresses).any (· = 0) then none
    else
      let r := processInit m addresses record
      let m := r.2.1
      some {
        cpu := {
          toContext := execRegisters entryPoint
          cr3 := r.1.processMemory.l4PageTableBase
          rsp0 := r.1.threadInfo.ring0rsp
          mem x := if text.toNat ≤ x ∧ x < text.toNat + 4096 then image (x - text.toNat) else m x }
        process _ := r.1
        created := [0]
        currentProcess := 0
        frames := frames
        tables _ := ⟨l3Lower, l1, l2, l3, l4⟩
        suspended _ := suspended
        inCall _ := false }
  | _ => none

/-- What the processes are when the current one is the only one. -/
def tasks (s : Machine) : Tasks where
  task p := {
    context := s.cpu.toContext
    text i := s.cpu.mem ((s.process p).processMemory.textSegmentPageFrame.toNat + i)
    userStack i := s.cpu.mem ((s.process p).processMemory.userStackPageFrame.toNat + i)
    pid := (s.process p).pid
    state := (s.process p).state
    inCall := s.inCall p }
  created := s.created
  current := s.currentProcess

end Machine

section Boot
variable {l : Link} {m : PageFrames} {fs : FrameSystem} {mem : ByteMemory} {record : ThreadInfo}
  {entryPoint : BitVec 64} {image : Nat → BitVec 8} {suspended : State} {s : Machine}
  {text kernelStack userStack : BitVec 64} {f : TableFrames}

/-- The record of the first process. -/
def firstProcess (text kernelStack userStack : BitVec 64) (f : TableFrames)
    (record : ThreadInfo) : Process where
  pid := pidInitial
  state := .running
  threadInfo := { record with ring0rsp := kernelStack - 8 + pageSize }
  processMemory := ⟨userStack, kernelStack, text, f.l4⟩

theorem processInit_eq (h : f.Usable) (record : ThreadInfo) :
    processInit mem ([text, kernelStack, userStack] ++ f.toList) record =
      (firstProcess text kernelStack userStack f record,
        fillTables mem f text (userStack - 8 + pageSize), []) := by
  have htables : setUpPageTable mem (f.toList ++ []) text (userStack - 8 + pageSize) = _ :=
    setUpPageTable_eq h [] (userStack - 8 + pageSize)
  rw [List.append_nil] at htables
  unfold processInit
  simp only [List.cons_append, List.nil_append, allocatePageFrame, htables]
  rfl

/-- What is loaded is outside the tables. -/
theorem Framed.loaded_describes {p : ProcessMemory} (h : Framed p f) (husable : f.Usable)
    (mem : ByteMemory) (image : Nat → BitVec 8) :
    let text := p.textSegmentPageFrame
    Describes (fun x => if text.toNat ≤ x ∧ x < text.toNat + 4096 then image (x - text.toNat)
      else fillTables mem f text (p.userStackPageFrame - 8 + pageSize) x) f text
      p.userStackPageFrame := by
  intro text
  have ht : IsFrame text := h.frame _ (textSegmentPageFrame_mem (f := f))
  apply (husable.describes ht (h.frame _ (userStackPageFrame_mem (f := f)))).congr
  intro a ha x h1 h2
  obtain ⟨i, rfl⟩ := Nat.exists_eq_add_of_le h1
  have hout := (husable.frames a ha).outside ht (h.ne.2.2 a ha).1 (i := i) (by omega)
  unfold Outside at hout
  exact if_neg (by omega)

/-- `ProcessInit` and the program it is given stand for one process. -/
theorem boot_represents {q : Pool m.usable} (hfs : fs.Tracks q) (hm : m.totalPageNumber ≤ 2 ^ 40)
    (hs : boot fs mem record entryPoint image suspended = some s) :
    Represents l m s s.tasks := by
  unfold boot at hs
  split at hs
  case h_2 => cases hs
  case h_1 frames kHeapStart text kernelStack userStack l3Lower l1 l2 l3 l4 halloc =>
    dsimp only at hs
    split_ifs at hs with hany
    have hzero : 0 ∉ [kHeapStart, text, kernelStack, userStack, l3Lower, l1, l2, l3, l4] :=
      fun h => hany (List.any_eq_true.mpr ⟨0, h, rfl⟩)
    let f : TableFrames := ⟨l3Lower, l1, l2, l3, l4⟩
    let pm : ProcessMemory := ⟨userStack, kernelStack, text, f.l4⟩
    have hg := hfs.allocateOnes hm 9 halloc hzero
    have hperm : (processFrames pm f).Perm ([text, kernelStack, userStack] ++ f.toList) :=
      (List.reverse_perm [text, kernelStack, userStack]).append_right f.toList
    have hmem : ∀ a ∈ processFrames pm f,
        a ∈ [kHeapStart, text, kernelStack, userStack, l3Lower, l1, l2, l3, l4] := fun a ha =>
      List.mem_cons_of_mem _ (hperm.mem_iff.mp ha)
    have hframed : Framed pm f :=
      ⟨fun a ha => hg.frame a (hmem a ha), hperm.nodup_iff.mpr (List.nodup_cons.mp hg.nodup).2⟩
    have husable : f.Usable := by
      refine ⟨fun a ha => hframed.frame a (List.mem_append_right _ ha), fun a ha e => hzero ?_,
        (List.nodup_append.mp hframed.nodup).2.1⟩
      exact e ▸ hmem a (List.mem_append_right _ ha)
    have hinit : processInit mem [text, kernelStack, userStack, l3Lower, l1, l2, l3, l4] record =
        (firstProcess text kernelStack userStack f record,
          fillTables mem f text (userStack - 8 + pageSize), []) := processInit_eq husable record
    rw [hinit] at hs
    obtain rfl := Option.some.inj hs
    have hlt := (hframed.frame kernelStack (kernelStackPageFrame_mem (p := pm))).below
    have honly : ∀ p ∈ [0], p = 0 := fun p hp => List.mem_singleton.mp hp
    have htop : (kernelStack - 8 + pageSize &&& ~~~15).toNat ≤ kernelStack.toNat + 4096 := by
      have hmask : (kernelStack - 8 + pageSize &&& ~~~15).toNat ≤
          (kernelStack - 8 + pageSize).toNat := by
        rw [BitVec.toNat_and]
        exact Nat.and_le_left
      unfold pageSize at hmask ⊢
      bv_omega
    constructor
    · rfl
    · rfl
    · exact ⟨List.mem_singleton_self 0, rfl⟩
    · exact hg.tracks
    · refine ⟨fun p _ => hframed, fun p _ a ha => hg.live a (hmem a ha), fun p hp q hq hpq => ?_⟩
      exact absurd ((honly p hp).trans (honly q hq).symm) hpq
    · intro p _
      exact ⟨rfl, hframed.loaded_describes husable mem image, ⟨fun _ _ => rfl, fun _ _ => rfl⟩,
        htop, rfl, rfl⟩
    · rfl
    · exact htop
    · rfl
    · exact fun _ _ => rfl
    · rfl
    · exact fun _ _ => ProcessState.noConfusion
    · intro p hp hne
      exact absurd (honly p hp) hne

end Boot

/-! ## Refinement -/

/-- The processes of the machine are those of `y`, as far as anybody can see. -/
structure Machine.Shows (t : Machine) (y : Tasks) : Prop where
  created : t.created = y.created
  current : t.currentProcess = y.current
  context : t.cpu.toContext = y.own.context
  load : userLoad t.cpu.mem t.cpu.cr3 = y.own.load
  pid : ∀ p ∈ t.created, (t.process p).pid = (y.task p).pid
  state : ∀ p ∈ t.created, (t.process p).state = (y.task p).state

/-- A machine that has been booted with the memory map `m`, after a run for which the kernel stacks
have had room. -/
def Machine.Reachable (l : Link) (m : PageFrames) (t : Machine) : Prop :=
  ∃ fs mem record entryPoint image suspended s es, FrameSystem.boot m = some fs ∧
    boot fs mem record entryPoint image suspended = some s ∧
    Along (Machine.step l) (HasRoom l) s es ∧ run (Machine.step l) s es = some t

section Refinement
variable {l : Link} {m : PageFrames} {fs : FrameSystem} {mem : ByteMemory} {record : ThreadInfo}
  {entryPoint : BitVec 64} {image : Nat → BitVec 8} {suspended : State} {s t : Machine}
  {x : Tasks} {es : List MachineEvent}

theorem Represents.load_eq (h : Represents l m s x) :
    userLoad s.cpu.mem s.cpu.cr3 = (x.task s.currentProcess).load := by
  rw [h.cr3]
  exact (h.resident _ h.memCurrent).userLoad_eq

theorem Represents.shows (h : Represents l m s x) : s.Shows x where
  created := h.created.symm
  current := h.current.symm
  context := by rw [h.own_eq, h.context]
  load := by rw [h.own_eq, h.load_eq]
  pid p hp := (h.resident p hp).pid
  state p hp := (h.resident p hp).state

def lowMap : PageFrames where
  memoryMap i := ⟨if i = 0 then pageReserved else 0, 0, none, none⟩
  pageFrameOrder _ := none
  totalPageNumber := 32

def lowLink : Link := ⟨0x110000, 0x100000, 64, 128, 32, by decide⟩

def zeroState : State where
  reg _ := 0
  rip := 0
  cs := 0
  rflags := 0
  ss := 0
  cr3 := 0
  rsp0 := 0
  mem _ := 0

def lowBoot : Option Machine :=
  (FrameSystem.boot lowMap).bind fun fs =>
    Machine.boot fs (fun _ => 0) ⟨0, 0, 0, 0⟩ 0xffffffffffffe000 (fun _ => 0x90) zeroState

instance (l : Link) : DecidableRel (HasRoom l)
  | _, .user _ => inferInstanceAs (Decidable True)
  | _, .call .. => inferInstanceAs (Decidable (_ ≤ _))
  | _, .exec .. => inferInstanceAs (Decidable (_ ≤ _))
  | _, .fork .. => inferInstanceAs (Decidable (_ ≤ _))
  | _, .interrupt .. => inferInstanceAs (Decidable (_ ≤ _))
  | _, .timer _ => inferInstanceAs (Decidable (_ ≤ _))
  | _, .sleep _ => inferInstanceAs (Decidable (_ ≤ _))
  | _, .exit _ => inferInstanceAs (Decidable (_ ≤ _))

theorem lowMap_mapped : lowMap.Mapped := by
  refine ⟨fun i _ => ?_, Or.inl fun i hi => ?_, fun _ _ => rfl⟩
  · unfold lowMap
    dsimp only
    split_ifs <;> decide
  · obtain rfl : i = 31 := by
      have htotal : lowMap.totalPageNumber = 32 := rfl
      omega
    decide

theorem lowBoot_eq {s : Machine} (h : lowBoot = some s) :
    ∃ fs, FrameSystem.boot lowMap = some fs ∧ Machine.boot fs (fun _ => 0) ⟨0, 0, 0, 0⟩
      0xffffffffffffe000 (fun _ => 0x90) zeroState = some s :=
  Option.bind_eq_some_iff.mp h

def lowTurn (next : Nat) : Turn :=
  ⟨next, ⟨[(0xfffffffffffffff0, 5)], 512⟩, zeroState, zeroState, zeroState⟩

/-- The first process forks and sleeps. The child loads a program and is interrupted by the disk,
exits, and the parent reads. -/
def lowEvents : List MachineEvent :=
  [.user fun c _ => (c, [(0xfffffffffffffff0, 7)]), .fork 1 zeroState zeroState,
    .sleep (lowTurn 1), .exec 0xffffffffffffe010 (fun _ => 0x90) 64 zeroState,
    .interrupt (some 0) zeroState, .timer (lowTurn 1), .exit (lowTurn 0), .call 0 zeroState]

theorem Machine.Reachable.represents (h : Reachable l m t) (hm : m.Mapped)
    (hlow : m.totalPageNumber ≤ 5 * 2 ^ 18) : ∃ y, Represents l m t y := by
  obtain ⟨fs, mem, record, entryPoint, image, suspended, s, es, hfs, hs, hroom, hr⟩ := h
  obtain ⟨_, hboot, htracks⟩ := FrameSystem.boot_tracks hm
  obtain rfl := Option.some.inj (hfs.symm.trans hboot)
  have htotal : m.totalPageNumber ≤ 2 ^ 40 := hlow.trans (by decide)
  obtain ⟨y, -, ht⟩ := (boot_represents htracks htotal hs).runs htotal hroom hr
  exact ⟨y, ht⟩

end Refinement
end Amaterasu
