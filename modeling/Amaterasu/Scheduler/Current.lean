import Amaterasu.KHeap.Buffer
import Amaterasu.Process.ForkFailure
import Amaterasu.Process.KernelStack
import Amaterasu.Scheduler.System

/-! What the processor holds of the current process: CR3, and in the task state segment the stack of
ring 0. `Schedule` loads both for the process it switches to, `sysExec` the second one only. -/

namespace Amaterasu
open Cpu Function Runs

/-- `pid`, `threadInfo` and `processMemory` are what the records of the processes hold; their states
are those of the task system. -/
structure CurrentSystem extends TaskSystem where
  pid : Nat → BitVec 32
  threadInfo : Nat → ThreadInfo
  processMemory : Nat → ProcessMemory
  cr3 : BitVec 64
  tss : Nat → BitVec 32

/-- A call of `ATARead` that polls, by `GetFileInfo` or `ReadFile`. -/
structure FilePoll where
  lba : Nat
  sizeOfBytes : Int
  buffer : BitVec 64
  ok : Bool

/-- What `sysExec` finds: no file, one that is not read in full, or one whose program header gives
the size of the text segment. `overrun` is what a copy leaves behind that is longer than a page. -/
inductive ExecFile
  | missing
  | short (size : BitVec 32)
  | image (size : BitVec 32) (textSegmentSize : BitVec 64) (overrun : CurrentSystem)

namespace CurrentSystem

def record (s : CurrentSystem) (p : Nat) : Process :=
  ⟨s.pid p, s.ata.state p, s.threadInfo p, s.processMemory p⟩

def setRecord (s : CurrentSystem) (p : Nat) (process : Process) : CurrentSystem :=
  { s with
    pid := update s.pid p process.pid
    threadInfo := update s.threadInfo p process.threadInfo
    processMemory := update s.processMemory p process.processMemory }

def setHeap (s : CurrentSystem) (heap : HeapSystem) : CurrentSystem :=
  { s with tasks := { s.tasks with heap := heap } }

/-- The field RSP0, which is not aligned to eight bytes. -/
def rsp0 (s : CurrentSystem) : BitVec 64 := s.tss 2 ++ s.tss 1

def switchKernelStack (s : CurrentSystem) (ring0rsp : BitVec 64) : CurrentSystem :=
  let tss := update s.tss 1 ((ring0rsp &&& 0xffffffff).setWidth 32)
  { s with tss := update tss 2 ((ring0rsp >>> 32 &&& 0xffffffff).setWidth 32) }

/-- After `ProcessInit` and `PagingInit`. The rest of memory and of the processor is that of `s`. -/
def boot (tasks : TaskList) (body : Nat → AtaRequest) (state : Nat → ProcessState)
    (m : ByteMemory) (frames : List (BitVec 64)) (info : ThreadInfo) (s : CurrentSystem) :
    CurrentSystem :=
  let process := (processInit m frames info).1
  let s := { s with toTaskSystem := TaskSystem.boot tasks body state }
  let s := s.setRecord tasks.currentProcess process
  let s := s.switchKernelStack (process.processMemory.kernelStackPageFrame - 8 + pageSize)
  { s with cr3 := (s.processMemory tasks.currentProcess).l4PageTableBase }

/-- A fork is a `sysFork` or a `KernelThread`, with the arguments of `DoFork`, the memory and the
frames that are free. The stack pointer beside another event of the tasks is saved if it ends in a
switch. -/
inductive Event
  | task (e : TaskSystem.Event) (rsp : BitVec 64)
  | fork (m : ByteMemory) (frames : List (BitVec 64)) (shareVM : BitVec 8) (registers : Context)
      (rsp : BitVec 64)
  | exec (polls : List FilePoll) (file : ExecFile)

/-- `Schedule` behind `FindNextTask`, which has been called by `prev`. -/
def switchFrom (load : BitVec 64) (s : CurrentSystem) (prev : Nat) (rsp : BitVec 64) :
    CurrentSystem :=
  let next := s.tasks.currentProcess
  if prev = next then s
  else
    let threadInfo := update s.threadInfo prev { s.threadInfo prev with rsp := rsp, rip := load }
    let s := { s with threadInfo := threadInfo }
    let s := { s with cr3 := (s.processMemory next).l4PageTableBase }
    s.switchKernelStack (s.threadInfo next).ring0rsp

/-- `sysExec` after the reads of the file. -/
def execFile (s : CurrentSystem) : ExecFile → Option CurrentSystem
  | .missing => some s
  | .short size => (s.tasks.heap.kmalloc size.toNat).map fun r => s.setHeap r.1
  | .image size textSegmentSize overrun =>
    (s.tasks.heap.kmalloc size.toNat).bind fun r =>
      let s := s.setHeap r.1
      if r.2 = 0 then some s
      else if textSegmentSize ≤ pageSize then
        let processMemory := s.processMemory s.tasks.currentProcess
        let s := s.switchKernelStack (processMemory.kernelStackPageFrame - 8 + pageSize)
        (s.tasks.heap.step (.kfree r.2)).map s.setHeap
      else some overrun

section Steps
variable (disk : Nat → BitVec 8) (floating : Nat → BitVec 16) (load returnFromSysFork : BitVec 64)

def step (s : CurrentSystem) : Event → Option CurrentSystem
  | .task .fork _ => none
  | .task e rsp => (s.toTaskSystem.step disk floating e).map fun t =>
    switchFrom load { s with toTaskSystem := t } s.tasks.currentProcess rsp
  | .fork m frames shareVM registers rsp => do
    let t ← s.toTaskSystem.step disk floating .fork
    let copy ← s.tasks.copyProcess s.tasks.currentProcess
    let parent := s.record s.tasks.currentProcess
    let child := (doFork returnFromSysFork m frames shareVM registers rsp parent).2.1
    return setRecord { s with toTaskSystem := t } copy.2 child
  | .exec polls file =>
    if s.control = .user then do
      let calls := polls.map fun poll : FilePoll => AtaSystem.Event.poll
        ⟨s.tasks.currentProcess, poll.lba, poll.sizeOfBytes, poll.buffer⟩ poll.ok
      let ata ← run (AtaTrace.step disk floating) s.ata calls
      execFile { s with toTaskSystem := { s.enterGate with ata := ata }.iretq } file
    else none

end Steps

/-- CR3 and RSP0 are those in the records of the current process. -/
structure Agrees (s : CurrentSystem) : Prop where
  cr3 : s.cr3 = (s.processMemory s.tasks.currentProcess).l4PageTableBase
  rsp0 : s.rsp0 = (s.threadInfo s.tasks.currentProcess).ring0rsp

/-- A fork gets its records, and the text segment of a program fits into its page. -/
def Served (s : CurrentSystem) : Event → Prop
  | .fork _ _ _ _ _ => s.tasks.heap.provides TaskList.recordSizes = true
  | .exec _ (.image _ textSegmentSize _) => textSegmentSize ≤ pageSize
  | _ => True

/-- The `sysExec` gets its buffer and does not return. -/
def Loads (s : CurrentSystem) : ExecFile → Prop
  | .image size _ _ => s.tasks.heap.provides [size.toNat] = true
  | _ => False

/-- A process that loads a program has `ring0rsp` at the top of the page of its kernel stack. -/
def OnTop (s : CurrentSystem) : Event → Prop
  | .exec _ file => s.Loads file → (s.threadInfo s.tasks.currentProcess).ring0rsp =
      (s.processMemory s.tasks.currentProcess).kernelStackPageFrame - 8 + pageSize
  | _ => True

instance : DecidableRel Served
  | s, .fork _ _ _ _ _ =>
    inferInstanceAs (Decidable (s.tasks.heap.provides TaskList.recordSizes = true))
  | _, .exec _ (.image _ textSegmentSize _) =>
    inferInstanceAs (Decidable (textSegmentSize ≤ pageSize))
  | _, .exec _ .missing => inferInstanceAs (Decidable True)
  | _, .exec _ (.short _) => inferInstanceAs (Decidable True)
  | _, .task _ _ => inferInstanceAs (Decidable True)

instance : DecidableRel Loads
  | s, .image size _ _ => inferInstanceAs (Decidable (s.tasks.heap.provides [size.toNat] = true))
  | _, .missing => inferInstanceAs (Decidable False)
  | _, .short _ => inferInstanceAs (Decidable False)

instance : DecidableRel OnTop
  | s, .exec _ file => inferInstanceAs (Decidable (s.Loads file → _ = _))
  | _, .task _ _ => inferInstanceAs (Decidable True)
  | _, .fork _ _ _ _ _ => inferInstanceAs (Decidable True)

/-! ## What a step can do -/

section Step
variable {disk : Nat → BitVec 8} {floating : Nat → BitVec 16} {load returnFromSysFork : BitVec 64}
  {s t u : CurrentSystem} {m : ByteMemory} {frames : List (BitVec 64)} {shareVM : BitVec 8}
  {registers : Context} {rsp : BitVec 64} {prev : Nat} {polls : List FilePoll} {file : ExecFile}

/-- The two words of the task state segment hold what `SwitchKernelStack` is given. -/
theorem switchKernelStack_rsp0 (s : CurrentSystem) (v : BitVec 64) :
    (s.switchKernelStack v).rsp0 = v := by
  have hlow : (s.switchKernelStack v).tss 1 = (v &&& 0xffffffff).setWidth 32 := by
    unfold switchKernelStack
    dsimp only
    rw [update_of_ne (by decide), update_self]
  have hhigh : (s.switchKernelStack v).tss 2 = (v >>> 32 &&& 0xffffffff).setWidth 32 := by
    unfold switchKernelStack
    dsimp only
    rw [update_self]
  have hmask : (0xffffffff : BitVec 64).toNat = 2 ^ 32 - 1 := rfl
  unfold rsp0
  rw [hlow, hhigh]
  apply BitVec.eq_of_toNat_eq
  rw [BitVec.toNat_append, ← Nat.shiftLeft_add_eq_or_of_lt (BitVec.isLt _), Nat.shiftLeft_eq,
    BitVec.toNat_setWidth, BitVec.toNat_setWidth, BitVec.toNat_and, BitVec.toNat_and,
    BitVec.toNat_ushiftRight, Nat.shiftRight_eq_div_pow, hmask, Nat.and_two_pow_sub_one_eq_mod,
    Nat.and_two_pow_sub_one_eq_mod]
  have hlt := v.isLt
  omega

theorem switchFrom_toTaskSystem (load : BitVec 64) (s : CurrentSystem) (prev : Nat)
    (rsp : BitVec 64) : (switchFrom load s prev rsp).toTaskSystem = s.toTaskSystem := by
  unfold switchFrom
  dsimp only
  split_ifs <;> rfl

/-- A switch loads what the records of the next process hold. -/
theorem switchFrom_agrees (h : prev = s.tasks.currentProcess → s.Agrees) :
    (switchFrom load s prev rsp).Agrees := by
  unfold switchFrom
  dsimp only
  split_ifs with heq
  · exact h heq
  · refine ⟨rfl, ?_⟩
    rw [switchKernelStack_rsp0]
    rfl

theorem boot_agrees (tasks : TaskList) (body : Nat → AtaRequest) (state : Nat → ProcessState)
    (m : ByteMemory) (frames : List (BitVec 64)) (info : ThreadInfo) (s : CurrentSystem) :
    (boot tasks body state m frames info s).Agrees := by
  let process := (processInit m frames info).1
  let u := setRecord { s with toTaskSystem := TaskSystem.boot tasks body state }
    tasks.currentProcess process
  have hinfo : u.threadInfo tasks.currentProcess = process.threadInfo := update_self ..
  have hrsp0 := switchKernelStack_rsp0 u
    (process.processMemory.kernelStackPageFrame - 8 + pageSize)
  refine ⟨rfl, hrsp0.trans ?_⟩
  show _ = (u.threadInfo tasks.currentProcess).ring0rsp
  rw [hinfo]
  rfl

theorem step_task {e : TaskSystem.Event}
    (ht : s.step disk floating load returnFromSysFork (.task e rsp) = some t) :
    e ≠ .fork ∧ ∃ u, s.toTaskSystem.step disk floating e = some u ∧
      t = switchFrom load { s with toTaskSystem := u } s.tasks.currentProcess rsp := by
  cases e with
  | fork => cases ht
  | _ =>
    refine ⟨TaskSystem.Event.noConfusion, ?_⟩
    obtain ⟨u, hu, rfl⟩ := Option.map_eq_some_iff.mp ht
    exact ⟨u, hu, rfl⟩

theorem step_fork (ht : s.step disk floating load returnFromSysFork
      (.fork m frames shareVM registers rsp) = some t) :
    ∃ u tasks c child, s.toTaskSystem.step disk floating .fork = some u ∧
      s.tasks.copyProcess s.tasks.currentProcess = some (tasks, c) ∧
      t = setRecord { s with toTaskSystem := u } c child := by
  obtain ⟨u, hu, ht⟩ := Option.bind_eq_some_iff.mp ht
  obtain ⟨copy, hcopy, ht⟩ := Option.bind_eq_some_iff.mp ht
  exact ⟨u, copy.1, copy.2, _, hu, hcopy, (Option.some.inj ht).symm⟩

theorem step_exec (ht : s.step disk floating load returnFromSysFork (.exec polls file) = some t) :
    ∃ ata, execFile { s with toTaskSystem := { s.enterGate with ata := ata }.iretq } file =
      some t := by
  unfold step at ht
  dsimp only at ht
  split_ifs at ht
  obtain ⟨ata, -, ht⟩ := Option.bind_eq_some_iff.mp ht
  exact ⟨ata, ht⟩

end Step
end CurrentSystem

/-! ## The heap -/

namespace HeapSystem
variable {start n a : Nat} {s t : HeapSystem}

theorem kmalloc_pos (hk : s.kmalloc n = some (t, a)) : 1 ≤ n := by
  by_contra hn
  obtain rfl : n = 0 := by omega
  obtain ⟨r, hr, -⟩ := Option.map_eq_some_iff.mp hk
  have hsome := (KHeap.kmalloc_isSome_iff s.heap 0).mp (Option.isSome_iff_exists.mpr ⟨r, hr⟩)
  exact absurd hsome (by decide)

theorem kmalloc_newest (hk : s.kmalloc n = some (t, a)) (ha : a ≠ 0) :
    ∃ b : Allocation, b.address = a ∧ t.live = b :: s.live := by
  obtain ⟨r, -, heq⟩ := Option.map_eq_some_iff.mp hk
  obtain ⟨rfl, rfl⟩ := Prod.mk.inj heq
  unfold record
  rw [if_neg ha]
  exact ⟨_, rfl, rfl⟩

theorem Tidied.kmallocs (h : s.Tidied start) (hpage : 2 ^ 12 ∣ start) (h0 : 0 < start)
    (h64 : start < 2 ^ 64) {sizes : List Nat} (hsizes : ∀ n ∈ sizes, n < 2 ^ 32)
    (ht : s.kmallocs sizes = some t) : t.Tidied start := by
  induction sizes generalizing s with
  | nil =>
    obtain rfl := Option.some.inj ht
    exact h
  | cons n sizes ih =>
    obtain ⟨r, hr, ht⟩ := Option.bind_eq_some_iff.mp ht
    have htidied := h.kmalloc hpage h0 h64 (kmalloc_pos hr) (hsizes n List.mem_cons_self)
      (kmalloc_step hr)
    exact ih htidied (fun n hn => hsizes n (List.mem_cons_of_mem _ hn)) ht

end HeapSystem

namespace TaskList
variable {start p c : Nat} {s t : TaskList} {heap : HeapSystem}

theorem Sound.setHeap (h : s.Sound start) (hheap : heap.Tidied start)
    (hlive : ∀ b ∈ s.heap.live, b ∈ heap.live) : Sound start { s with heap := heap } := by
  obtain ⟨q, hq, -⟩ := hheap
  refine ⟨⟨_, q, hq⟩, h.apart, ?_, h.circle⟩
  intro p hp
  obtain ⟨b, hb, heq⟩ := h.records p hp
  exact ⟨b, hlive b hb, heq⟩

theorem recordSizes_lt : ∀ n ∈ recordSizes, n < 2 ^ 32 := by decide

theorem copyProcess_tidied (hpage : 2 ^ 12 ∣ start) (h0 : 0 < start) (h64 : start < 2 ^ 64)
    (h : s.heap.Tidied start) (hcopy : s.copyProcess p = some (t, c)) : t.heap.Tidied start := by
  have hheap := s.copyProcess_heap p
  rw [hcopy, Option.map_some] at hheap
  exact h.kmallocs hpage h0 h64 recordSizes_lt hheap.symm

theorem processInit_tidied (hpage : 2 ^ 12 ∣ start) (h0 : 0 < start) (h64 : start < 2 ^ 64)
    {links : RingLinks Nat} {processList : Nat}
    (hs : processInit links processList (HeapSystem.boot start) = some s) :
    s.heap.Tidied start := by
  unfold processInit at hs
  obtain ⟨process, h₁, hs⟩ := Option.bind_eq_some_iff.mp hs
  obtain ⟨memory, h₂, hs⟩ := Option.bind_eq_some_iff.mp hs
  obtain ⟨thread, h₃, hs⟩ := Option.bind_eq_some_iff.mp hs
  obtain rfl := Option.some.inj hs
  have hkmallocs : (HeapSystem.boot start).kmallocs recordSizes = some thread.1 := by
    unfold recordSizes
    simp only [HeapSystem.kmallocs, h₁, h₂, h₃, Option.bind_some]
  exact (HeapSystem.boot_tidied start).kmallocs hpage h0 h64 recordSizes_lt hkmallocs

end TaskList

namespace TaskSystem
variable {disk : Nat → BitVec 8} {floating : Nat → BitVec 16} {s t : TaskSystem} {start : Nat}
  {e : Event}

/-- Only a fork allocates. -/
theorem step_heap (he : e ≠ .fork) (ht : s.step disk floating e = some t) :
    t.tasks.heap = s.tasks.heap := by
  cases e with
  | timer =>
    obtain ⟨-, rfl⟩ := step_timer ht
    rfl
  | read lba sizeOfBytes buffer =>
    obtain ⟨-, -, ⟨-, rfl⟩ | ⟨-, rfl⟩⟩ := step_read ht <;> rfl
  | poll lba sizeOfBytes buffer ok =>
    obtain ⟨-, ata, -, rfl⟩ := step_poll ht
    rfl
  | fork => exact absurd rfl he
  | exit =>
    obtain ⟨-, rfl⟩ := step_exit ht
    rfl
  | settle ok =>
    obtain ⟨d, rfl⟩ := step_settle ht
    rfl
  | handler =>
    obtain ⟨-, rfl⟩ := step_handler ht
    rfl
  | look =>
    obtain ⟨pl, -, rfl⟩ := step_look ht
    unfold look
    dsimp only
    split_ifs <;> rfl
  | resume =>
    obtain ⟨-, ata, -, rfl⟩ := step_resume ht
    rfl

theorem iretq_coherent (hsound : s.tasks.Sound start)
    (hcurrent : s.tasks.currentProcess ∈ s.tasks.created) : s.iretq.Coherent start where
  sound := hsound
  current := hcurrent
  node _ hpl := nomatch hpl
  flag := ⟨fun _ => rfl, fun _ => rfl⟩

end TaskSystem

namespace CurrentSystem

/-- The state between two kernel operations. -/
structure Settled (start : Nat) (s : CurrentSystem) : Prop where
  coherent : s.toTaskSystem.Coherent start
  heap : s.tasks.heap.Tidied start
  agrees : s.Agrees

section Runs
variable {disk : Nat → BitVec 8} {floating : Nat → BitVec 16} {load returnFromSysFork : BitVec 64}
  {s t u : CurrentSystem} {start : Nat} {rsp : BitVec 64} {polls : List FilePoll} {file : ExecFile}

variable (hpage : 2 ^ 12 ∣ start) (h0 : 0 < start) (h64 : start < 2 ^ 64)
include hpage h0 h64

theorem Settled.task (h : s.Settled start) {e : TaskSystem.Event}
    (ht : s.step disk floating load returnFromSysFork (.task e rsp) = some t) :
    t.Settled start := by
  obtain ⟨he, u, hu, rfl⟩ := step_task ht
  have hserved : s.toTaskSystem.Served e := by
    cases e with
    | fork => exact absurd rfl he
    | _ => trivial
  refine ⟨?_, ?_, switchFrom_agrees ?_⟩
  · rw [switchFrom_toTaskSystem]
    exact h.coherent.step hpage h0 h64 hserved hu
  · rw [switchFrom_toTaskSystem]
    show u.tasks.heap.Tidied start
    rw [TaskSystem.step_heap he hu]
    exact h.heap
  · intro hsame
    change s.tasks.currentProcess = u.tasks.currentProcess at hsame
    constructor
    · show s.cr3 = (s.processMemory u.tasks.currentProcess).l4PageTableBase
      rw [← hsame]
      exact h.agrees.cr3
    · show s.rsp0 = (s.threadInfo u.tasks.currentProcess).ring0rsp
      rw [← hsame]
      exact h.agrees.rsp0

theorem Settled.fork (h : s.Settled start) {m : ByteMemory} {frames : List (BitVec 64)}
    {shareVM : BitVec 8} {registers : Context}
    (hserved : s.Served (.fork m frames shareVM registers rsp))
    (ht : s.step disk floating load returnFromSysFork (.fork m frames shareVM registers rsp) =
      some t) : t.Settled start := by
  obtain ⟨u, tasks, c, child, hu, hcopy, rfl⟩ := step_fork ht
  obtain ⟨v, d, hv, -, -, hfresh, hsame, -⟩ :=
    h.coherent.sound.copyProcess hpage h0 h64 h.coherent.current hserved
  obtain ⟨rfl, rfl⟩ := Prod.mk.inj (Option.some.inj (hcopy.symm.trans hv))
  have hcoherent := h.coherent.step (e := .fork) hpage h0 h64 hserved hu
  have hne : s.tasks.currentProcess ≠ c := ne_of_mem_of_not_mem h.coherent.current hfresh
  obtain ⟨-, tasks', c', hcopy', rfl⟩ := TaskSystem.step_fork hu
  obtain ⟨rfl, rfl⟩ := Prod.mk.inj (Option.some.inj (hcopy'.symm.trans hcopy))
  refine ⟨hcoherent, TaskList.copyProcess_tidied hpage h0 h64 h.heap hcopy, ?_, ?_⟩
  · show s.cr3 = (update s.processMemory c' _ tasks'.currentProcess).l4PageTableBase
    rw [hsame, update_of_ne hne]
    exact h.agrees.cr3
  · show s.rsp0 = (update s.threadInfo c' _ tasks'.currentProcess).ring0rsp
    rw [hsame, update_of_ne hne]
    exact h.agrees.rsp0

/-- `sysExec` changes the heap, which stays in order, and when it loads a program also RSP0. -/
theorem execFile_spec (hu : u.tasks.heap.Tidied start)
    (hfits : s.Served (.exec polls file)) (ht : u.execFile file = some t) :
    ∃ heap : HeapSystem, heap.Tidied start ∧ (∀ b ∈ u.tasks.heap.live, b ∈ heap.live) ∧
      let processMemory := u.processMemory u.tasks.currentProcess
      let top := processMemory.kernelStackPageFrame - 8 + pageSize
      (u.Loads file ∧ t = (u.switchKernelStack top).setHeap heap ∨
        ¬u.Loads file ∧ t = u.setHeap heap) := by
  cases file with
  | missing =>
    obtain rfl := Option.some.inj ht
    exact ⟨u.tasks.heap, hu, fun b hb => hb, Or.inr ⟨id, rfl⟩⟩
  | short size =>
    obtain ⟨r, hr, rfl⟩ := Option.map_eq_some_iff.mp ht
    refine ⟨r.1, hu.kmalloc hpage h0 h64 (HeapSystem.kmalloc_pos hr) size.isLt
      (HeapSystem.kmalloc_step hr), ?_, Or.inr ⟨id, rfl⟩⟩
    exact fun b hb => (HeapSystem.kmalloc_suffix hr).subset hb
  | image size textSegmentSize overrun =>
    obtain ⟨r, hr, ht⟩ := Option.bind_eq_some_iff.mp ht
    have hpos := HeapSystem.kmalloc_pos hr
    have hstep := HeapSystem.kmalloc_step hr
    have hloads : u.Loads (.image size textSegmentSize overrun) ↔ r.2 ≠ 0 := by
      show u.tasks.heap.provides [size.toNat] = true ↔ r.2 ≠ 0
      unfold HeapSystem.provides
      rw [hr]
      simp [HeapSystem.provides]
    dsimp only at ht
    split_ifs at ht with hzero hfit
    · obtain rfl := Option.some.inj ht
      refine ⟨r.1, hu.kmalloc hpage h0 h64 hpos size.isLt hstep, ?_, Or.inr ⟨?_, rfl⟩⟩
      · exact fun b hb => (HeapSystem.kmalloc_suffix hr).subset hb
      · rw [hloads]
        exact fun hne => hne hzero
    · obtain ⟨heap, hfree, rfl⟩ := Option.map_eq_some_iff.mp ht
      obtain ⟨b, haddr, hlive⟩ := HeapSystem.kmalloc_newest hr hzero
      rw [← haddr] at hfree
      obtain ⟨htidied, hkept⟩ :=
        hu.kmalloc_kfree hpage h0 h64 hpos size.isLt hstep hlive hfree
      exact ⟨heap, htidied, hkept, Or.inl ⟨hloads.mpr hzero, rfl⟩⟩
    · exact absurd hfits hfit

/-- A `sysExec` leaves the records and the processor in agreement exactly when a program that it
loads starts with its stack where `ring0rsp` is. -/
theorem Settled.exec (h : s.Settled start) (hserved : s.Served (.exec polls file))
    (ht : s.step disk floating load returnFromSysFork (.exec polls file) = some t) :
    t.toTaskSystem.Coherent start ∧ t.tasks.heap.Tidied start ∧
      (t.Agrees ↔ s.OnTop (.exec polls file)) := by
  obtain ⟨ata, ht⟩ := step_exec ht
  let u : CurrentSystem :=
    { s with toTaskSystem := TaskSystem.iretq { s.enterGate with ata := ata } }
  have hu : u.toTaskSystem.Coherent start :=
    TaskSystem.iretq_coherent h.coherent.sound h.coherent.current
  have hagrees : u.Agrees := ⟨h.agrees.cr3, h.agrees.rsp0⟩
  obtain ⟨heap, htidied, hlive, ⟨hloads, rfl⟩ | ⟨hloads, rfl⟩⟩ :=
    execFile_spec (u := u) hpage h0 h64 h.heap hserved ht
  · refine ⟨⟨hu.sound.setHeap htidied hlive, hu.current, hu.node, hu.flag⟩, htidied, ?_⟩
    constructor
    · intro ht _
      have hrsp0 := ht.rsp0
      change (u.switchKernelStack _).rsp0 = (s.threadInfo s.tasks.currentProcess).ring0rsp at hrsp0
      rw [switchKernelStack_rsp0] at hrsp0
      exact hrsp0.symm
    · intro htop
      refine ⟨hagrees.cr3, ?_⟩
      show (u.switchKernelStack _).rsp0 = (s.threadInfo s.tasks.currentProcess).ring0rsp
      rw [switchKernelStack_rsp0]
      exact (htop hloads).symm
  · refine ⟨⟨hu.sound.setHeap htidied hlive, hu.current, hu.node, hu.flag⟩, htidied, ?_⟩
    constructor
    · intro _ hload
      exact absurd hload hloads
    · intro _
      exact ⟨hagrees.cr3, hagrees.rsp0⟩

/-- After `PagingInit` CR3 and RSP0 are those of the current process. In every run whose forks get
their records and whose programs fit into their page, they are so in every state exactly when every
process that loads a program has its `ring0rsp` at the top of the page of its kernel stack. -/
theorem run_agrees_iff {processList : Nat} {tasks : TaskList} {events : List Event}
    (hapart : processList + 16 ≤ start ∨ start + kHeapHeapSize ≤ processList)
    (links : RingLinks Nat) (body : Nat → AtaRequest) (state : Nat → ProcessState)
    (m : ByteMemory) (frames : List (BitVec 64)) (info : ThreadInfo) (before : CurrentSystem)
    (hinit : TaskList.processInit links processList (HeapSystem.boot start) = some tasks)
    (hserved : Along (step disk floating load returnFromSysFork) Served
      (boot tasks body state m frames info before) events)
    (hr : run (step disk floating load returnFromSysFork)
      (boot tasks body state m frames info before) events = some t) :
    (boot tasks body state m frames info before).Agrees ∧
      (Along (step disk floating load returnFromSysFork)
          (fun s e => ∀ t ∈ s.step disk floating load returnFromSysFork e, t.Agrees)
          (boot tasks body state m frames info before) events ↔
        Along (step disk floating load returnFromSysFork) OnTop
          (boot tasks body state m frames info before) events) := by
  obtain ⟨s, hs, hsound, hcreated, -⟩ := TaskList.processInit_sound hpage h0 h64 links hapart
  obtain rfl := Option.some.inj (hinit.symm.trans hs)
  have hboot : Settled start (boot tasks body state m frames info before) :=
    ⟨TaskSystem.boot_coherent hsound hcreated body state,
      TaskList.processInit_tidied hpage h0 h64 hinit,
      boot_agrees tasks body state m frames info before⟩
  refine ⟨hboot.agrees, ?_⟩
  apply Along.congr (I := Settled start) ?_ hboot hserved hr
  intro s e t h hserved ht
  have hall : (∀ u ∈ s.step disk floating load returnFromSysFork e, u.Agrees) ↔ t.Agrees := by
    rw [ht]
    simp
  rw [hall]
  cases e with
  | task e rsp =>
    have htask := h.task hpage h0 h64 ht
    exact ⟨⟨fun _ => trivial, fun _ => htask.agrees⟩, fun _ => htask⟩
  | fork m frames shareVM registers rsp =>
    have hfork := h.fork hpage h0 h64 hserved ht
    exact ⟨⟨fun _ => trivial, fun _ => hfork.agrees⟩, fun _ => hfork⟩
  | exec polls file =>
    obtain ⟨hcoherent, htidied, hiff⟩ := h.exec hpage h0 h64 hserved ht
    exact ⟨hiff, fun hagrees => ⟨hcoherent, htidied, hagrees⟩⟩

end Runs

/-! ## A parent and its child -/

/-- Memory, processor and task state segment all zero. -/
def blank : CurrentSystem where
  toTaskSystem := TaskSystem.boot ⟨⟨fun _ => 0, fun _ => 0⟩, 0, 0, HeapSystem.boot 0, []⟩
    (fun _ => ⟨false, 0, 0, false, 0, 0⟩) fun _ => .running
  pid _ := 0
  threadInfo _ := ⟨0, 0, 0, 0⟩
  processMemory _ := ⟨0, 0, 0, 0⟩
  cr3 := 0
  tss _ := 0

/-- `boot` with the frames from `0x201000` on. -/
def bootBlank (tasks : TaskList) : CurrentSystem :=
  boot tasks (fun _ => ⟨false, 0, 0, false, 0, 0⟩) (fun _ => .running) (fun _ => 0)
    [0x203000, 0x202000, 0x201000, 0x204000, 0x205000, 0x206000, 0x207000, 0x208000] ⟨0, 0, 0, 0⟩
    blank

def stepBlank : CurrentSystem → Event → Option CurrentSystem :=
  step (fun i => BitVec.ofNat 8 i) (fun _ => 0) 0x110000 0x110100

/-- A `sysFork` of the first process, whose frame of registers is at `0x202f50`. -/
def forkFirst : Event :=
  .fork (fun _ => 0)
    [0x209000, 0x20a000, 0x20b000, 0x20c000, 0x20d000, 0x20e000, 0x20f000, 0x210000] 0
    ⟨fun _ => 0, 0, 0, 0, 0⟩ 0x202f50

/-- A `sysExec` of a file of 136 bytes. -/
def execSmall : Event :=
  .exec [⟨1, 512, 0x202800, true⟩, ⟨2, 136, 0x100600, true⟩] (.image 136 16 blank)

/-- The first process executes a program, forks, lets its child run and executes another one. -/
theorem run_agrees_two : ∃ tasks t,
    TaskList.processInit ⟨fun _ => 0, fun _ => 0⟩ 0x200000 (HeapSystem.boot 0x100000) = some tasks ∧
    run stepBlank (bootBlank tasks) [execSmall, forkFirst, .task .timer 0, .task .look 0x202e00,
      .task .timer 0, .task .look 0, .task .look 0x20ae00, execSmall] = some t ∧
    t.cr3 = 0x208000 ∧ t.rsp0 = 0x202ff8 ∧ (bootBlank tasks).Agrees ∧
    Along stepBlank (fun s e => ∀ t ∈ stepBlank s e, t.Agrees) (bootBlank tasks)
      [execSmall, forkFirst, .task .timer 0, .task .look 0x202e00, .task .timer 0, .task .look 0,
        .task .look 0x20ae00, execSmall] := by
  obtain ⟨tasks, hinit, -⟩ := TaskList.processInit_sound (by decide : 2 ^ 12 ∣ 0x100000) (by decide)
    (by decide) ⟨fun _ => 0, fun _ => 0⟩ (Or.inr (by decide : 0x100000 + kHeapHeapSize ≤ 0x200000))
  have hruns : ∀ tasks ∈ TaskList.processInit ⟨fun _ => 0, fun _ => 0⟩ 0x200000
        (HeapSystem.boot 0x100000),
      (run stepBlank (bootBlank tasks) [execSmall, forkFirst, .task .timer 0, .task .look 0x202e00,
        .task .timer 0, .task .look 0, .task .look 0x20ae00, execSmall]).map
          (fun t => (t.cr3, t.rsp0)) = some (0x208000, 0x202ff8) ∧
      Along stepBlank Served (bootBlank tasks) [execSmall, forkFirst, .task .timer 0,
        .task .look 0x202e00, .task .timer 0, .task .look 0, .task .look 0x20ae00, execSmall] ∧
      Along stepBlank OnTop (bootBlank tasks) [execSmall, forkFirst, .task .timer 0,
        .task .look 0x202e00, .task .timer 0, .task .look 0, .task .look 0x20ae00, execSmall] := by
    decide +kernel
  obtain ⟨hend, hserved, htop⟩ := hruns tasks hinit
  obtain ⟨t, ht, hview⟩ := Option.map_eq_some_iff.mp hend
  obtain ⟨hcr3, hrsp0⟩ := Prod.mk.inj hview
  obtain ⟨hboot, hiff⟩ := run_agrees_iff (by decide : 2 ^ 12 ∣ 0x100000) (by decide) (by decide)
    (Or.inr (by decide : 0x100000 + kHeapHeapSize ≤ 0x200000)) _ _ _ _ _ _ _ hinit hserved ht
  exact ⟨tasks, t, hinit, ht, hcr3, hrsp0, hboot, hiff.mpr htop⟩

/-- The child of the first process executes a program. -/
theorem exec_of_child_moves_rsp0 : ∃ tasks t,
    TaskList.processInit ⟨fun _ => 0, fun _ => 0⟩ 0x200000 (HeapSystem.boot 0x100000) = some tasks ∧
    run stepBlank (bootBlank tasks) [forkFirst, .task .timer 0, .task .look 0x202e00, execSmall] =
      some t ∧
    t.tasks.currentProcess = 0x100300 ∧ t.rsp0 = 0x20aff8 ∧
    (t.threadInfo t.tasks.currentProcess).ring0rsp = 0x20af50 ∧
    ¬Along stepBlank (fun s e => ∀ t ∈ stepBlank s e, t.Agrees) (bootBlank tasks)
      [forkFirst, .task .timer 0, .task .look 0x202e00, execSmall] := by
  obtain ⟨tasks, hinit, -⟩ := TaskList.processInit_sound (by decide : 2 ^ 12 ∣ 0x100000) (by decide)
    (by decide) ⟨fun _ => 0, fun _ => 0⟩ (Or.inr (by decide : 0x100000 + kHeapHeapSize ≤ 0x200000))
  have hruns : ∀ tasks ∈ TaskList.processInit ⟨fun _ => 0, fun _ => 0⟩ 0x200000
        (HeapSystem.boot 0x100000),
      (run stepBlank (bootBlank tasks) [forkFirst, .task .timer 0, .task .look 0x202e00,
        execSmall]).map (fun t => (t.tasks.currentProcess, t.rsp0,
          (t.threadInfo t.tasks.currentProcess).ring0rsp)) =
        some (0x100300, 0x20aff8, 0x20af50) := by
    decide +kernel
  obtain ⟨t, ht, hview⟩ := Option.map_eq_some_iff.mp (hruns tasks hinit)
  obtain ⟨hcurrent, hview⟩ := Prod.mk.inj hview
  obtain ⟨hrsp0, hring0rsp⟩ := Prod.mk.inj hview
  refine ⟨tasks, t, hinit, ht, hcurrent, hrsp0, hring0rsp, fun hall => ?_⟩
  have hagrees := Along.invariant (I := Agrees) (fun s e u _ hok hu => hok u hu)
    (boot_agrees tasks _ _ _ _ _ _) hall ht
  have heq := hagrees.rsp0
  rw [hrsp0, hring0rsp] at heq
  exact absurd heq (by decide)

end CurrentSystem
end Amaterasu
