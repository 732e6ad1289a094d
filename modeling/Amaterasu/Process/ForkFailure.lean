import Amaterasu.Allocators
import Amaterasu.Library.Program
import Amaterasu.Process.Fork
import Amaterasu.Scheduler.Ring

/-! `DoFork` as it goes through memory, the heap and the page frames, and what it leaves when one of
its allocations fails. -/

namespace Amaterasu
open Program

/-- The allocations of a fork. -/
inductive ForkAllocation
  | process
  | processMemory
  | threadInfo
  | userStack
  | kernelStack
  | textSegment
  | l3Lower
  | l1Higher
  | l2Higher
  | l3Higher
  | l4
deriving DecidableEq, Repr

/-- A store of `size` bytes. `pointer` is the allocation that returned the pointer it goes through,
if one did. -/
structure ForkStore where
  pointer : Option ForkAllocation
  address : Nat
  size : Nat
deriving DecidableEq, Repr

structure ForkState where
  mem : ByteMemory
  heap : HeapSystem
  frames : PageFrames

/-- A fork under way: the allocations that failed, the stores, and what `ListAdd` has added to the
process list, the latest first. -/
structure ForkRun extends ForkState where
  failed : List ForkAllocation
  written : List ForkStore
  inserted : List Nat

/-- The error is a loop that never ends. -/
abbrev Forking := EStateM Unit ForkRun

namespace Forking

-- the fields of `struct Process`, of `struct ThreadInfo` and of `struct ProcessMemory`
def parentField : Nat := 8
def threadInfoField : Nat := 32
def processMemoryField : Nat := 40
def rspField : Nat := 0
def ring0rspField : Nat := 8
def cr3Field : Nat := 16
def ripField : Nat := 24
def processField : Nat := 32
def userStackField : Nat := 0
def kernelStackField : Nat := 8
def textSegmentField : Nat := 16
def l4Field : Nat := 24

def kmalloc (a : ForkAllocation) (size : Nat) : Forking Nat := fun s =>
  match s.heap.kmalloc size with
  | none => .error () s
  | some (heap, address) => .ok address { s with
    heap := heap
    failed := if address = 0 then a :: s.failed else s.failed }

def allocatePageFrame (a : ForkAllocation) : Forking (BitVec 64) := fun s =>
  match s.frames.allocateFrames 1 with
  | none => .error () s
  | some (frames, frame) => .ok (BitVec.ofNat 64 (PageFrames.frameAddress frame)) { s with
    frames := frames
    failed := if frame = none then a :: s.failed else s.failed }

def load (address : Nat) : Forking (BitVec 64) := return (← get).mem.readWord address

def loadInt (address : Nat) : Forking (BitVec 32) :=
  return ((← get).mem.readWord address).setWidth 32

def record (pointer : Option ForkAllocation) (address size : Nat) (m : ByteMemory → ByteMemory) :
    Forking Unit :=
  modify fun s => { s with mem := m s.mem, written := ⟨pointer, address, size⟩ :: s.written }

def store (pointer : Option ForkAllocation) (address : Nat) (w : BitVec 64) : Forking Unit :=
  record pointer address 8 (·.writeWord address w)

def storeInt (pointer : Option ForkAllocation) (address : Nat) (v : BitVec 32) : Forking Unit :=
  record pointer address 4 (·.writeInt address v)

def memcpy (pointer : Option ForkAllocation) (dst src size : Nat) : Forking Unit :=
  record pointer dst size (·.copy dst src size)

/-- The loop over the entries of a table. -/
def fill (a : ForkAllocation) (table : BitVec 64) (f : Nat → BitVec 64 → BitVec 64) :
    Forking Unit :=
  record (some a) table.toNat 4096 (·.modifyWords table.toNat f 512)

/-- `ListAdd(&(p->processes), prev)`, where `added` is `&(p->processes)`. -/
def listAdd (added prev : Nat) : Forking Unit := do
  let next ← load (prev + 8)
  store none (prev + 8) (BitVec.ofNat 64 added)
  store (some .process) added (BitVec.ofNat 64 prev)
  store none next.toNat (BitVec.ofNat 64 added)
  store (some .process) (added + 8) next
  modify fun s => { s with inserted := listEntry added :: s.inserted }

def setUpPageTable (textSegmentPageFrame processStackBase : BitVec 64) : Forking (BitVec 64) := do
  let l3ptBaseLower ← allocatePageFrame .l3Lower
  if l3ptBaseLower = 0 then return 0 else
  fill .l3Lower l3ptBaseLower l3PtLower
  let l1ptBaseHigher ← allocatePageFrame .l1Higher
  if l1ptBaseHigher = 0 then return 0 else
  fill .l1Higher l1ptBaseHigher (l1PtHigher textSegmentPageFrame processStackBase)
  let l2ptBaseHigher ← allocatePageFrame .l2Higher
  if l2ptBaseHigher = 0 then return 0 else
  fill .l2Higher l2ptBaseHigher (l2PtHigher l1ptBaseHigher)
  let l3ptBaseHigher ← allocatePageFrame .l3Higher
  if l3ptBaseHigher = 0 then return 0 else
  fill .l3Higher l3ptBaseHigher (l3PtHigher l2ptBaseHigher)
  let l4ptBase ← allocatePageFrame .l4
  if l4ptBase = 0 then return 0 else
  fill .l4 l4ptBase (l4Pt l3ptBaseLower l3ptBaseHigher)
  return l4ptBase

/-- The text segment of `CopyProcessMemory`: shared, or copied with the two stacks. -/
def copyTextSegment (cloneFlags : BitVec 8) (originalPm pm : Nat) : Forking Unit := do
  if cloneFlags &&& cloneVM ≠ 0 then
    store (some .processMemory) (pm + textSegmentField) (← load (originalPm + textSegmentField))
  else
    let textSegmentPageFrame ← allocatePageFrame .textSegment
    store (some .processMemory) (pm + textSegmentField) textSegmentPageFrame
    memcpy (some .textSegment) (← load (pm + textSegmentField)).toNat
      (← load (originalPm + textSegmentField)).toNat 4096
    memcpy (some .kernelStack) (← load (pm + kernelStackField)).toNat
      (← load (originalPm + kernelStackField)).toNat 4096
    memcpy (some .userStack) (← load (pm + userStackField)).toNat
      (← load (originalPm + userStackField)).toNat 4096

def copyProcessMemory (cloneFlags : BitVec 8) (originalPm : Nat) : Forking Nat := do
  let pm ← kmalloc .processMemory sizeofProcessMemory
  memcpy (some .processMemory) pm originalPm sizeofProcessMemory
  let userStackPageFrame ← allocatePageFrame .userStack
  store (some .processMemory) (pm + userStackField) userStackPageFrame
  let kernelStackPageFrame ← allocatePageFrame .kernelStack
  store (some .processMemory) (pm + kernelStackField) kernelStackPageFrame
  copyTextSegment cloneFlags originalPm pm
  let l4PageTableBase ← setUpPageTable (← load (pm + textSegmentField))
    ((← load (pm + userStackField)) - 8 + pageSize)
  store (some .processMemory) (pm + l4Field) l4PageTableBase
  return pm

def copyThreadInfo (originalTi process : Nat) : Forking Nat := do
  let ti ← kmalloc .threadInfo sizeofThreadInfo
  memcpy (some .threadInfo) ti originalTi sizeofThreadInfo
  store (some .threadInfo) (ti + processField) (BitVec.ofNat 64 process)
  return ti

/-- `CopyProcess` after `ListAdd`. -/
def copyRecords (cloneFlags : BitVec 8) (original p : Nat) : Forking Unit := do
  storeInt (some .process) p (newProcessId (← loadInt original))
  let processMemory ← copyProcessMemory cloneFlags (← load (original + processMemoryField)).toNat
  store (some .process) (p + processMemoryField) (BitVec.ofNat 64 processMemory)
  let threadInfo ← copyThreadInfo (← load (original + threadInfoField)).toNat p
  store (some .process) (p + threadInfoField) (BitVec.ofNat 64 threadInfo)

def copyProcess (cloneFlags : BitVec 8) (original : Nat) : Forking Nat := do
  let p ← kmalloc .process sizeofProcess
  memcpy (some .process) p original sizeofProcess
  listAdd (processNode p) (processNode original)
  copyRecords cloneFlags original p
  return p

/-- `p->processMemory`. -/
def processMemory (p : Nat) : Forking Nat := return (← load (p + processMemoryField)).toNat

/-- `p->threadInfo`. -/
def threadInfo (p : Nat) : Forking Nat := return (← load (p + threadInfoField)).toNat

def kernelStackPageFrame (p : Nat) : Forking (BitVec 64) := do
  load ((← processMemory p) + kernelStackField)

/-- The kernel stack of the child. -/
def setUpStack (parent child : Nat) (shareVM : BitVec 8) (registers : Nat) (rsp : BitVec 64) :
    Forking Unit := do
  if shareVM ≠ 0 then
    store none (registers + 32) ((← kernelStackPageFrame child) - 8 + pageSize)
    store none (registers + 144) ((← kernelStackPageFrame child) - 8 + pageSize)
    -- `SetUpKernelStack`
    let sp := (← kernelStackPageFrame child) - 8 + pageSize - sizeofInterruptStack + 8
    memcpy (some .kernelStack) sp.toNat registers sizeofInterruptStack.toNat
    store (some .threadInfo) ((← threadInfo child) + ring0rspField) sp
  else
    let childRsp := (← kernelStackPageFrame child) + (rsp - (← kernelStackPageFrame parent))
    store (some .kernelStack) childRsp.toNat 0
    store (some .threadInfo) ((← threadInfo child) + ring0rspField) childRsp

/-- `DoFork` after `CopyProcess`. -/
def finishFork (returnFromSysFork : BitVec 64) (parent child : Nat) (shareVM : BitVec 8)
    (registers : Nat) (rsp : BitVec 64) : Forking (BitVec 32) := do
  store (some .process) (child + parentField) (BitVec.ofNat 64 parent)
  setUpStack parent child shareVM registers rsp
  let ring0rsp ← load ((← threadInfo child) + ring0rspField)
  store (some .threadInfo) ((← threadInfo child) + rspField) ring0rsp
  store (some .threadInfo) ((← threadInfo child) + ripField) returnFromSysFork
  let l4PageTableBase ← load ((← processMemory child) + l4Field)
  store (some .threadInfo) ((← threadInfo child) + cr3Field) l4PageTableBase
  loadInt child

/-- `DoFork`, where the registers are the `struct InterruptStack` at `registers`. -/
def doFork (returnFromSysFork : BitVec 64) (currentProcess : Nat) (shareVM : BitVec 8)
    (registers : Nat) (rsp : BitVec 64) : Forking (BitVec 32) := do
  let child ← copyProcess shareVM currentProcess
  finishFork returnFromSysFork currentProcess child shareVM registers rsp

end Forking

def ForkState.sysFork (returnFromSysFork : BitVec 64) (currentProcess : Nat) (rsp : BitVec 64)
    (s : ForkState) : EStateM.Result Unit ForkRun (BitVec 32) :=
  Forking.doFork returnFromSysFork currentProcess 0 rsp.toNat rsp ⟨s, [], [], []⟩

/-! ## The records of a fork -/

namespace HeapSystem
variable {R : Set Nat} {start : Nat} {q : Pool R} {s t u : HeapSystem} {size p : Nat}
  {sizes : List Nat}

/-- One `kmalloc` after the other, whatever they return. -/
def kmallocs (s : HeapSystem) : List Nat → Option HeapSystem
  | [] => some s
  | size :: sizes => (s.kmalloc size).bind fun r => r.1.kmallocs sizes

theorem kmallocs_append (s : HeapSystem) (ms ns : List Nat) :
    s.kmallocs (ms ++ ns) = (s.kmallocs ms).bind fun t => t.kmallocs ns := by
  induction ms generalizing s with
  | nil => rfl
  | cons m ms ih =>
    show (s.kmalloc m).bind (fun r => r.1.kmallocs (ms ++ ns)) =
      ((s.kmalloc m).bind fun r => r.1.kmallocs ms).bind fun t => t.kmallocs ns
    rw [Option.bind_assoc]
    congr 1
    funext r
    exact ih r.1

theorem kmalloc_suffix (h : s.kmalloc size = some (t, p)) : s.live <:+ t.live := by
  obtain ⟨r, -, heq⟩ := Option.map_eq_some_iff.mp h
  obtain ⟨rfl, -⟩ := Prod.mk.inj heq
  unfold record
  split_ifs
  · exact List.suffix_rfl
  · exact List.suffix_cons _ _

theorem kmallocs_suffix (h : s.kmallocs sizes = some t) : s.live <:+ t.live := by
  induction sizes generalizing s with
  | nil =>
    obtain rfl := Option.some.inj h
    exact List.suffix_rfl
  | cons size sizes ih =>
    obtain ⟨r, hr, h⟩ := Option.bind_eq_some_iff.mp h
    exact (kmalloc_suffix hr).trans (ih h)

theorem kmalloc_length (h : s.kmalloc size = some (t, p)) (hp : p ≠ 0) :
    s.live.length < t.live.length := by
  obtain ⟨r, -, heq⟩ := Option.map_eq_some_iff.mp h
  obtain ⟨rfl, rfl⟩ := Prod.mk.inj heq
  unfold record
  rw [if_neg hp]
  exact Nat.lt_succ_self _

/-- A record that is not at address 0 is one more allocation than before. -/
theorem kmallocs_ne (h : s.kmalloc size = some (u, p))
    (hall : s.kmallocs (size :: sizes) = some t) (hp : p ≠ 0) : t ≠ s := by
  rintro rfl
  obtain ⟨r, hr, hrest⟩ := Option.bind_eq_some_iff.mp hall
  obtain rfl := Option.some.inj (h.symm.trans hr)
  have hlt := kmalloc_length h hp
  have hle := (kmallocs_suffix hrest).length_le
  exact absurd (hlt.trans_le hle) (lt_irrefl _)

theorem Tracks.kmallocs (hq : s.Tracks start q)
    (hpage : 2 ^ 12 ∣ start) (h0 : 0 < start) (h64 : start < 2 ^ 64)
    (hsizes : ∀ n ∈ sizes, 1 ≤ n ∧ n < 2 ^ 32) (h : s.kmallocs sizes = some t) :
    ∃ q' : Pool R, t.Tracks start q' := by
  induction sizes generalizing s q with
  | nil =>
    obtain rfl := Option.some.inj h
    exact ⟨q, hq⟩
  | cons n sizes ih =>
    obtain ⟨hn, hsizes⟩ := List.forall_mem_cons.mp hsizes
    obtain ⟨⟨u, a⟩, hk, hrest⟩ := Option.bind_eq_some_iff.mp h
    obtain ⟨v, q', hv, hq', -⟩ := hq.kmalloc hpage h0 h64 hn.1 hn.2
    obtain rfl := Option.some.inj ((kmalloc_step hk).symm.trans hv)
    exact ih hq' hsizes hrest

/-- In a heap in order not even the blocks are as before: a cell is allocated that was not. -/
theorem Tracks.kmallocs_blocks_ne (hq : s.Tracks start q) (hpage : 2 ^ 12 ∣ start) (h0 : 0 < start)
    (h64 : start < 2 ^ 64) (hsizes : ∀ n ∈ size :: sizes, 1 ≤ n ∧ n < 2 ^ 32)
    (h : s.kmalloc size = some (u, p)) (hall : s.kmallocs (size :: sizes) = some t) (hp : p ≠ 0) :
    t.heap ≠ s.heap := by
  intro heq
  obtain ⟨hn, hsizes⟩ := List.forall_mem_cons.mp hsizes
  obtain ⟨r, hr, hrest⟩ := Option.bind_eq_some_iff.mp hall
  obtain rfl := Option.some.inj (h.symm.trans hr)
  have hfresh := hq.kmalloc_fresh hpage h0 h64 hn.1 hn.2 h hp
  obtain ⟨hlive, q₁, hq₁⟩ := hq.kmalloc_live hpage h0 h64 hn.1 hn.2 h hp
  obtain ⟨q₂, hq₂⟩ := hq₁.kmallocs hpage h0 h64 hsizes hrest
  let a : Allocation := ⟨p, KHeap.requestOrder size, size⟩
  have ha : a ∈ t.live := (kmallocs_suffix hrest).subset (hlive ▸ List.mem_cons_self)
  have hcell : ∀ x, t.cell x = s.cell x := by
    intro x
    unfold cell
    rw [heq]
  have hallocated := (hq₂.represents.allocated (t.cell p)).mpr ⟨t.block a, (hq₂.live _).mpr
    ⟨a, ha, rfl⟩, rfl⟩
  rw [heq, hcell] at hallocated
  obtain ⟨b, hb, hstart⟩ := (hq.represents.allocated _).mp hallocated
  obtain ⟨c, hc, rfl⟩ := (hq.live b).mp hb
  -- the cell was that of a record, which was then at the address of the new one
  apply hfresh c hc
  calc
    c.address = start + kHeapBlockSize * s.cell c.address := hq.address c hc
    _ = start + kHeapBlockSize * s.cell p := congrArg (start + kHeapBlockSize * ·) hstart
    _ = start + kHeapBlockSize * t.cell p := by rw [hcell]
    _ = p := (hq₂.address a ha).symm

end HeapSystem

/-- The records are those that `TaskList.copyProcess` asks for. -/
theorem TaskList.copyProcess_heap (s : TaskList) (original : Nat) :
    (s.copyProcess original).map (fun r => r.1.heap) = s.heap.kmallocs recordSizes := by
  unfold TaskList.copyProcess recordSizes
  cases h₁ : s.heap.kmalloc sizeofProcess with
  | none => simp [HeapSystem.kmallocs, h₁]
  | some process =>
    cases h₂ : process.1.kmalloc sizeofProcessMemory with
    | none => simp [HeapSystem.kmallocs, h₁, h₂]
    | some memory =>
      cases h₃ : memory.1.kmalloc sizeofThreadInfo with
      | none => simp [HeapSystem.kmallocs, h₁, h₂, h₃]
      | some thread => simp [HeapSystem.kmallocs, h₁, h₂, h₃]

/-- What is recorded is not taken back, and the heap is not touched. -/
structure ForkRun.Extends (s t : ForkRun) : Prop where
  heap : t.heap = s.heap
  failed : s.failed <:+ t.failed
  written : s.written <:+ t.written
  inserted : s.inserted <:+ t.inserted

theorem ForkRun.Extends.refl (s : ForkRun) : s.Extends s :=
  ⟨rfl, List.suffix_rfl, List.suffix_rfl, List.suffix_rfl⟩

namespace Forking
variable {α β : Type} {sizes : List Nat} {x : Forking α} {f : α → Forking β}

/-- The program always returns, and its calls of `kmalloc` are for these sizes in turn. -/
def Allocates (sizes : List Nat) : Forking α → Prop :=
  Returns fun s _ t => ∃ heap, s.heap.kmallocs sizes = some heap ∧
    ForkRun.Extends { s with heap := heap } t

theorem allocates_pure (y : α) : Allocates [] (pure y : Forking α) :=
  Returns.pure fun s => ⟨s.heap, rfl, ForkRun.Extends.refl s⟩

theorem Allocates.bind {ms ns : List Nat} (hx : Allocates ms x) (hf : ∀ y, Allocates ns (f y)) :
    Allocates (ms ++ ns) (x >>= f) := by
  apply Returns.bind hx hf
  rintro s y t z u ⟨heap, hheap, hst⟩ ⟨heap', hheap', htu⟩
  rw [hst.heap] at hheap'
  refine ⟨heap', ?_, htu.heap, ?_, ?_, ?_⟩
  · rw [HeapSystem.kmallocs_append, hheap]
    exact hheap'
  · exact hst.failed.trans htu.failed
  · exact hst.written.trans htu.written
  · exact hst.inserted.trans htu.inserted

/-- A step that does not call `kmalloc` comes first. -/
theorem Allocates.after (hx : Allocates [] x) (hf : ∀ y, Allocates sizes (f y)) :
    Allocates sizes (x >>= f) := hx.bind hf

/-- The steps that come last do not call `kmalloc`. -/
theorem Allocates.before (hx : Allocates sizes x) (hf : ∀ y, Allocates [] (f y)) :
    Allocates sizes (x >>= f) := by
  have hboth := hx.bind hf
  rw [List.append_nil] at hboth
  exact hboth

theorem load_allocates (address : Nat) : Allocates [] (load address) := fun s =>
  ⟨_, s, rfl, s.heap, rfl, ForkRun.Extends.refl s⟩

theorem loadInt_allocates (address : Nat) : Allocates [] (loadInt address) := fun s =>
  ⟨_, s, rfl, s.heap, rfl, ForkRun.Extends.refl s⟩

theorem record_allocates (pointer : Option ForkAllocation) (address size : Nat)
    (m : ByteMemory → ByteMemory) : Allocates [] (record pointer address size m) := fun s =>
  ⟨_, _, rfl, s.heap, rfl, rfl, List.suffix_rfl, List.suffix_cons _ _, List.suffix_rfl⟩

/-- What is added is recorded. -/
theorem listAdd_ok (added prev : Nat) (s : ForkRun) : ∃ t, listAdd added prev s = .ok () t ∧
    s.Extends t ∧ listEntry added ∈ t.inserted := by
  refine ⟨_, rfl, ⟨rfl, List.suffix_rfl, ?_, List.suffix_cons _ _⟩, List.mem_cons_self⟩
  exact (List.suffix_cons _ _).trans ((List.suffix_cons _ _).trans
    ((List.suffix_cons _ _).trans (List.suffix_cons _ _)))

theorem suffix_ite {c : Prop} [Decidable c] (y : α) (ys : List α) :
    ys <:+ if c then y :: ys else ys := by
  split_ifs
  · exact List.suffix_cons y ys
  · exact List.suffix_rfl

theorem allocatePageFrame_ok (a : ForkAllocation) (s : ForkRun) :
    ∃ table t, allocatePageFrame a s = .ok table t ∧ t.mem = s.mem ∧ s.Extends t := by
  obtain ⟨⟨frames, frame⟩, hframes⟩ := Option.isSome_iff_exists.mp
    ((s.frames.allocateFrames_isSome_iff 1).mpr (by decide))
  refine ⟨BitVec.ofNat 64 (PageFrames.frameAddress frame), { s with
    frames := frames
    failed := if frame = none then a :: s.failed else s.failed }, ?_, rfl, rfl,
    suffix_ite a s.failed, List.suffix_rfl, List.suffix_rfl⟩
  unfold allocatePageFrame
  rw [hframes]

theorem allocatePageFrame_allocates (a : ForkAllocation) : Allocates [] (allocatePageFrame a) := by
  intro s
  obtain ⟨table, t, hrun, -, hext⟩ := allocatePageFrame_ok a s
  exact ⟨table, t, hrun, s.heap, rfl, hext⟩

/-- The `kmalloc` of a record returns, with 0 when it fails. -/
theorem kmalloc_ok (a : ForkAllocation) {size : Nat}
    (hsize : (ceilLog2 (KHeap.blockNumber size)).isSome) (s : ForkRun) :
    ∃ heap p, s.heap.kmalloc size = some (heap, p) ∧ kmalloc a size s = .ok p { s with
      heap := heap
      failed := if p = 0 then a :: s.failed else s.failed } := by
  obtain ⟨⟨h, p⟩, hh⟩ := Option.isSome_iff_exists.mp
    ((s.heap.heap.kmalloc_isSome_iff size).mpr (Or.inr hsize))
  have hk : s.heap.kmalloc size = some (HeapSystem.record size s.heap.live h p, p) := by
    unfold HeapSystem.kmalloc
    rw [hh]
    rfl
  refine ⟨_, p, hk, ?_⟩
  unfold kmalloc
  rw [hk]

theorem kmalloc_allocates (a : ForkAllocation) {size : Nat}
    (hsize : (ceilLog2 (KHeap.blockNumber size)).isSome) : Allocates [size] (kmalloc a size) := by
  intro s
  obtain ⟨heap, p, hk, hrun⟩ := kmalloc_ok a hsize s
  refine ⟨p, _, hrun, heap, ?_, rfl, suffix_ite a s.failed, List.suffix_rfl, List.suffix_rfl⟩
  unfold HeapSystem.kmallocs
  rw [hk]
  rfl

theorem table_allocates (a : ForkAllocation) (g : Nat → BitVec 64 → BitVec 64)
    {f : BitVec 64 → Forking (BitVec 64)} (hf : ∀ table, Allocates [] (f table)) :
    Allocates [] (allocatePageFrame a >>= fun table =>
      if table = 0 then return 0 else fill a table g >>= fun _ => f table) := by
  apply (allocatePageFrame_allocates a).after
  intro table
  apply Returns.ite (allocates_pure 0)
  apply (record_allocates _ _ _ _).after
  intro _
  exact hf table

theorem setUpPageTable_allocates (textSegmentPageFrame processStackBase : BitVec 64) :
    Allocates [] (setUpPageTable textSegmentPageFrame processStackBase) := by
  unfold setUpPageTable
  apply table_allocates
  intro l3ptBaseLower
  apply table_allocates
  intro l1ptBaseHigher
  apply table_allocates
  intro l2ptBaseHigher
  apply table_allocates
  intro l3ptBaseHigher
  apply table_allocates
  intro l4ptBase
  exact allocates_pure l4ptBase

/-! The page tables are those of `Amaterasu.setUpPageTable`, for what the allocator returns. -/

/-- In the memory `m`, the program does what `F` does with some frames. -/
def Follows (m : ByteMemory) (x : Forking (BitVec 64))
    (F : List (BitVec 64) → BitVec 64 × ByteMemory × List (BitVec 64)) : Prop :=
  ∀ s : ForkRun, s.mem = m → ∃ r t frames rest, x s = .ok r t ∧ F frames = (r, t.mem, rest)

theorem table_follows {m : ByteMemory} {a : ForkAllocation} {g : Nat → BitVec 64 → BitVec 64}
    {f : BitVec 64 → Forking (BitVec 64)}
    {F : List (BitVec 64) → BitVec 64 × ByteMemory × List (BitVec 64)}
    {G : BitVec 64 → List (BitVec 64) → BitVec 64 × ByteMemory × List (BitVec 64)}
    (hF : ∀ table frames, F (table :: frames) = if table = 0 then (0, m, frames) else G table frames)
    (hf : ∀ table, Follows (m.modifyWords table.toNat g 512) (f table) (G table)) :
    Follows m (allocatePageFrame a >>= fun table =>
      if table = 0 then return 0 else fill a table g >>= fun _ => f table) F := by
  rintro s rfl
  obtain ⟨table, t, hrun, hmem, -⟩ := allocatePageFrame_ok a s
  by_cases h0 : table = 0
  · refine ⟨0, t, [table], [], ?_, ?_⟩
    · rw [bind_ok hrun, if_pos h0]
      rfl
    · rw [hF, if_pos h0, hmem]
  · obtain ⟨r, u, frames, rest, hr, hG⟩ := hf table { t with
      mem := t.mem.modifyWords table.toNat g 512
      written := ⟨some a, table.toNat, 4096⟩ :: t.written } (by rw [hmem])
    refine ⟨r, u, table :: frames, rest, ?_, ?_⟩
    · rw [bind_ok hrun, if_neg h0]
      exact hr
    · rw [hF, if_neg h0]
      exact hG

theorem setUpPageTable_follows (m : ByteMemory)
    (textSegmentPageFrame processStackBase : BitVec 64) :
    Follows m (setUpPageTable textSegmentPageFrame processStackBase) fun frames =>
      Amaterasu.setUpPageTable m frames textSegmentPageFrame processStackBase := by
  unfold setUpPageTable
  apply table_follows fun _ _ => rfl
  intro l3ptBaseLower
  apply table_follows fun _ _ => rfl
  intro l1ptBaseHigher
  apply table_follows fun _ _ => rfl
  intro l2ptBaseHigher
  apply table_follows fun _ _ => rfl
  intro l3ptBaseHigher
  apply table_follows fun _ _ => rfl
  intro l4ptBase s hs
  refine ⟨l4ptBase, s, [], [], rfl, ?_⟩
  rw [hs]

theorem copy_allocates (pointer : Option ForkAllocation) (dst src size : Nat) {f : Unit → Forking α}
    (hf : ∀ u, Allocates [] (f u)) : Allocates [] (load dst >>= fun d => load src >>= fun w =>
      memcpy pointer d.toNat w.toNat size >>= f) := by
  apply (load_allocates dst).after
  intro d
  apply (load_allocates src).after
  intro w
  exact (record_allocates _ _ _ _).after hf

theorem copyTextSegment_allocates (cloneFlags : BitVec 8) (originalPm pm : Nat) :
    Allocates [] (copyTextSegment cloneFlags originalPm pm) := by
  unfold copyTextSegment
  apply Returns.ite
  · apply (load_allocates _).after
    intro w
    exact record_allocates _ _ _ _
  · apply (allocatePageFrame_allocates .textSegment).after
    intro textSegmentPageFrame
    apply (record_allocates _ _ _ _).after
    intro _
    apply copy_allocates
    intro _
    apply copy_allocates
    intro _
    apply (load_allocates _).after
    intro dst
    apply (load_allocates _).after
    intro src
    exact record_allocates _ _ _ _

theorem copyProcessMemory_allocates (cloneFlags : BitVec 8) (originalPm : Nat) :
    Allocates [sizeofProcessMemory] (copyProcessMemory cloneFlags originalPm) := by
  unfold copyProcessMemory
  apply (kmalloc_allocates .processMemory (by decide)).before
  intro pm
  apply (record_allocates _ _ _ _).after
  intro _
  apply (allocatePageFrame_allocates .userStack).after
  intro userStackPageFrame
  apply (record_allocates _ _ _ _).after
  intro _
  apply (allocatePageFrame_allocates .kernelStack).after
  intro kernelStackPageFrame
  apply (record_allocates _ _ _ _).after
  intro _
  apply (copyTextSegment_allocates cloneFlags originalPm pm).after
  intro _
  apply (load_allocates _).after
  intro text
  apply (load_allocates _).after
  intro stack
  apply (setUpPageTable_allocates text (stack - 8 + pageSize)).after
  intro l4PageTableBase
  apply (record_allocates _ _ _ _).after
  intro _
  exact allocates_pure pm

theorem copyThreadInfo_allocates (originalTi process : Nat) :
    Allocates [sizeofThreadInfo] (copyThreadInfo originalTi process) := by
  unfold copyThreadInfo
  apply (kmalloc_allocates .threadInfo (by decide)).before
  intro ti
  apply (record_allocates _ _ _ _).after
  intro _
  apply (record_allocates _ _ _ _).after
  intro _
  exact allocates_pure ti

theorem copyRecords_allocates (cloneFlags : BitVec 8) (original p : Nat) :
    Allocates [sizeofProcessMemory, sizeofThreadInfo] (copyRecords cloneFlags original p) := by
  unfold copyRecords
  apply (loadInt_allocates _).after
  intro pid
  apply (record_allocates _ _ _ _).after
  intro _
  apply (load_allocates _).after
  intro originalPm
  apply (copyProcessMemory_allocates cloneFlags originalPm.toNat).bind
  intro processMemory
  apply (record_allocates _ _ _ _).after
  intro _
  apply (load_allocates _).after
  intro originalTi
  apply (copyThreadInfo_allocates originalTi.toNat p).before
  intro threadInfo
  exact record_allocates _ _ _ _

theorem processMemory_allocates (p : Nat) : Allocates [] (processMemory p) := by
  apply (load_allocates _).after
  intro w
  exact allocates_pure w.toNat

theorem threadInfo_allocates (p : Nat) : Allocates [] (threadInfo p) := by
  apply (load_allocates _).after
  intro w
  exact allocates_pure w.toNat

theorem kernelStackPageFrame_allocates (p : Nat) : Allocates [] (kernelStackPageFrame p) := by
  apply (processMemory_allocates p).after
  intro pm
  exact load_allocates _

theorem setUpStack_allocates (parent child : Nat) (shareVM : BitVec 8) (registers : Nat)
    (rsp : BitVec 64) : Allocates [] (setUpStack parent child shareVM registers rsp) := by
  unfold setUpStack
  apply Returns.ite
  · apply (kernelStackPageFrame_allocates child).after
    intro stack₁
    apply (record_allocates _ _ _ _).after
    intro _
    apply (kernelStackPageFrame_allocates child).after
    intro stack₂
    apply (record_allocates _ _ _ _).after
    intro _
    apply (kernelStackPageFrame_allocates child).after
    intro stack₃
    apply (record_allocates _ _ _ _).after
    intro _
    apply (threadInfo_allocates child).after
    intro ti
    exact record_allocates _ _ _ _
  · apply (kernelStackPageFrame_allocates child).after
    intro stack
    apply (kernelStackPageFrame_allocates parent).after
    intro parentStack
    apply (record_allocates _ _ _ _).after
    intro _
    apply (threadInfo_allocates child).after
    intro ti
    exact record_allocates _ _ _ _

theorem finishFork_allocates (returnFromSysFork : BitVec 64) (parent child : Nat)
    (shareVM : BitVec 8) (registers : Nat) (rsp : BitVec 64) : Allocates []
      (finishFork returnFromSysFork parent child shareVM registers rsp) := by
  unfold finishFork
  apply (record_allocates _ _ _ _).after
  intro _
  apply (setUpStack_allocates parent child shareVM registers rsp).after
  intro _
  apply (threadInfo_allocates child).after
  intro ti₁
  apply (load_allocates _).after
  intro ring0rsp
  apply (threadInfo_allocates child).after
  intro ti₂
  apply (record_allocates _ _ _ _).after
  intro _
  apply (threadInfo_allocates child).after
  intro ti₃
  apply (record_allocates _ _ _ _).after
  intro _
  apply (processMemory_allocates child).after
  intro pm
  apply (load_allocates _).after
  intro l4PageTableBase
  apply (threadInfo_allocates child).after
  intro ti₄
  apply (record_allocates _ _ _ _).after
  intro _
  exact loadInt_allocates child

/-- What a fork leaves: the records it has asked for and, wherever the first of them is, a copy of
the process there and in the process list. -/
structure Leaves (s t : ForkRun) : Prop where
  heap : s.heap.kmallocs TaskList.recordSizes = some t.heap
  process : ∃ heap p, s.heap.kmalloc sizeofProcess = some (heap, p) ∧
    (p = 0 → .process ∈ t.failed) ∧ ⟨some .process, p, sizeofProcess⟩ ∈ t.written ∧ p ∈ t.inserted

theorem Leaves.extend {s t u : ForkRun} (h : Leaves s t) (h' : t.Extends u) : Leaves s u := by
  obtain ⟨heap, p, hp, hfailed, hwritten, hinserted⟩ := h.process
  refine ⟨h.heap.trans (congrArg some h'.heap.symm), heap, p, hp, ?_, ?_, ?_⟩
  · exact fun h0 => h'.failed.subset (hfailed h0)
  · exact h'.written.subset hwritten
  · exact h'.inserted.subset hinserted

theorem copyProcess_leaves (cloneFlags : BitVec 8) (original : Nat) :
    Returns (fun s _ t => Leaves s t) (copyProcess cloneFlags original) := by
  intro s
  have hsize : (ceilLog2 (KHeap.blockNumber sizeofProcess)).isSome := by decide
  obtain ⟨heap, p, hk, hp⟩ := kmalloc_ok .process hsize s
  let copied : ForkRun := { s with
    heap := heap
    failed := if p = 0 then .process :: s.failed else s.failed
    mem := s.mem.copy p original sizeofProcess
    written := ⟨some .process, p, sizeofProcess⟩ :: s.written }
  have hcopied : memcpy (some .process) p original sizeofProcess { s with
      heap := heap
      failed := if p = 0 then .process :: s.failed else s.failed } = .ok () copied := rfl
  obtain ⟨t, hadd, hext, hmem⟩ := listAdd_ok (processNode p) (processNode original) copied
  obtain ⟨_, u, hrest, heap', hheap', htu⟩ := copyRecords_allocates cloneFlags original p t
  refine ⟨p, u, ?_, ?_, heap, p, hk, ?_, ?_, ?_⟩
  · unfold copyProcess
    rw [bind_ok hp, bind_ok hcopied, bind_ok hadd, bind_ok hrest]
    rfl
  · rw [htu.heap, ← hheap', hext.heap]
    unfold TaskList.recordSizes HeapSystem.kmallocs
    rw [hk]
    rfl
  · intro h0
    apply htu.failed.subset
    apply hext.failed.subset
    show .process ∈ if p = 0 then .process :: s.failed else s.failed
    rw [if_pos h0]
    exact List.mem_cons_self
  · exact htu.written.subset (hext.written.subset List.mem_cons_self)
  · exact htu.inserted.subset hmem

theorem doFork_leaves (returnFromSysFork : BitVec 64) (currentProcess : Nat) (shareVM : BitVec 8)
    (registers : Nat) (rsp : BitVec 64) : Returns (fun s _ t => Leaves s t)
      (doFork returnFromSysFork currentProcess shareVM registers rsp) := by
  have hrest := fun child =>
    finishFork_allocates returnFromSysFork currentProcess child shareVM registers rsp
  apply Returns.bind (copyProcess_leaves shareVM currentProcess) hrest
  rintro s child t pid u hst ⟨heap, hheap, htu⟩
  obtain rfl := Option.some.inj hheap
  exact hst.extend htu

end Forking

/-- An error is reported, no process is added, nothing at address 0 is written through a failed
allocation, and the heap and the free page frames are as before. -/
structure Undone (s : ForkState) (ret : BitVec 32) (t : ForkRun) : Prop where
  error : ret.toInt < 0
  list : t.inserted = []
  null : ∀ w ∈ t.written, ∀ a ∈ w.pointer, a ∈ t.failed → w.address ≠ 0
  heap : t.heap = s.heap
  frames : t.frames.freeFrames = s.frames.freeFrames

/-- In every state `sysFork` returns, and a fork with a failed allocation is never undone: the
record of the copy stays allocated, or else the copy has been made at address 0. -/
theorem sysFork_never_undone (returnFromSysFork : BitVec 64) (currentProcess : Nat)
    (rsp : BitVec 64) (s : ForkState) : ∃ ret t,
      s.sysFork returnFromSysFork currentProcess rsp = .ok ret t ∧
      (t.failed ≠ [] → ¬Undone s ret t) := by
  obtain ⟨ret, t, hrun, hleaves⟩ :=
    Forking.doFork_leaves returnFromSysFork currentProcess 0 rsp.toNat rsp ⟨s, [], [], []⟩
  refine ⟨ret, t, hrun, fun _ hundone => ?_⟩
  obtain ⟨heap, p, hp, hfailed, hwritten, hinserted⟩ := hleaves.process
  by_cases h0 : p = 0
  · exact hundone.null _ hwritten .process rfl (hfailed h0) h0
  · exact HeapSystem.kmallocs_ne hp hleaves.heap h0 hundone.heap

theorem sysFork_blocks_ne {R : Set Nat} {start : Nat} {q : Pool R} {returnFromSysFork : BitVec 64}
    {currentProcess : Nat} {rsp : BitVec 64} {s : ForkState} {ret : BitVec 32} {t : ForkRun}
    (hq : s.heap.Tracks start q) (hpage : 2 ^ 12 ∣ start) (h0 : 0 < start) (h64 : start < 2 ^ 64)
    (h : s.sysFork returnFromSysFork currentProcess rsp = .ok ret t)
    (hrecord : .process ∉ t.failed) : t.heap.heap ≠ s.heap.heap := by
  obtain ⟨ret', t', hrun, hleaves⟩ :=
    Forking.doFork_leaves returnFromSysFork currentProcess 0 rsp.toNat rsp ⟨s, [], [], []⟩
  obtain ⟨-, rfl⟩ := EStateM.Result.ok.inj (h.symm.trans hrun)
  obtain ⟨heap, p, hp, hfailed, -⟩ := hleaves.process
  exact hq.kmallocs_blocks_ne hpage h0 h64 (by decide) hp hleaves.heap fun hp0 =>
    hrecord (hfailed hp0)

/-- The process of `ProcessInit`, with its records at the start of the heap, and three free page
frames. -/
def threeFramesLeft (heap : HeapSystem) : ForkState where
  mem := ((ByteMemory.writeWords (fun _ => 0) 0x100000
    [0, 0, 0x200000, 0x200000, 0x100200, 0x100100]).writeWords 0x100100
    [0x201000, 0x202000, 0x203000, 0x204000]).writeWords 0x100200
    [0x202f50, 0x202ff8, 0x204000, 0, 0x100000]
  heap := heap
  frames :=
    { memoryMap i := ⟨0, 0, none, if 0x300 ≤ i ∧ i < 0x302 then some (i + 1) else none⟩
      pageFrameOrder k := if k = 0 then some 0x300 else none
      totalPageNumber := 0x1000 }

/-- The child gets its stacks and its text, but no page table: it is in the process list all the
same, and its three records stay allocated. -/
theorem table_failure_leaves_child : ∃ heap ret t,
    (HeapSystem.boot 0x100000).kmallocs TaskList.recordSizes = some heap ∧
    (threeFramesLeft heap).sysFork 0x1234 0x100000 0x202f50 = .ok ret t ∧
    t.failed = [.l3Lower] ∧ t.inserted = [0x100300] ∧
    t.heap.live.map Allocation.address =
      [0x100500, 0x100400, 0x100300, 0x100200, 0x100100, 0x100000] ∧
    ¬Undone (threeFramesLeft heap) ret t := by
  have hruns : ((HeapSystem.boot 0x100000).kmallocs TaskList.recordSizes).bind (fun heap =>
      match (threeFramesLeft heap).sysFork 0x1234 0x100000 0x202f50 with
      | .ok _ t => some (t.failed, t.inserted, t.heap.live.map Allocation.address)
      | .error _ _ => none) = some ([.l3Lower], [0x100300],
        [0x100500, 0x100400, 0x100300, 0x100200, 0x100100, 0x100000]) := by decide +kernel
  obtain ⟨heap, hheap, hview⟩ := Option.bind_eq_some_iff.mp hruns
  obtain ⟨ret, t, hrun, -⟩ := Forking.doFork_leaves 0x1234 0x100000 0 0x202f50 0x202f50
    ⟨threeFramesLeft heap, [], [], []⟩
  change (threeFramesLeft heap).sysFork 0x1234 0x100000 0x202f50 = .ok ret t at hrun
  rw [hrun] at hview
  replace hview := Option.some.inj hview
  obtain ⟨hfailed, hview⟩ := Prod.mk.inj hview
  obtain ⟨hinserted, hlive⟩ := Prod.mk.inj hview
  refine ⟨heap, ret, t, hheap, hrun, hfailed, hinserted, hlive, fun hundone => ?_⟩
  have hlist := hundone.list
  rw [hinserted] at hlist
  cases hlist

end Amaterasu
