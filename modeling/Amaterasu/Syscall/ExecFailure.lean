import Amaterasu.File.Outcome
import Amaterasu.KHeap.Runs
import Amaterasu.Process.ExecFile
import Amaterasu.Process.Resume
import Amaterasu.Syscall.Defs

/-! A `sysExec` that fails. What was done before is not undone: a request that the device has failed
stays in the queue, and the buffer of a file that was not read stays allocated. `SyscallHandler`
does not look at the result. -/

namespace Amaterasu
open Cpu PageWalk Program

/-! ## The call -/

/-- The process calls `sysExec` with the registers `c`. Its frames are its own, and the array of
`GetFileInfo` lies below the registers on its kernel stack. -/
structure ExecCall (k : Kernel) (f : TableFrames) (sector rsp : BitVec 64) (c : Context) :
    Prop where
  cr3 : k.ram.cr3 = f.l4
  tables : Describes k.ram.mem f k.process.processMemory.textSegmentPageFrame
    k.process.processMemory.userStackPageFrame
  frames : ∀ a ∈ processFrames k.process.processMemory f, IsFrame a
  nodup : (processFrames k.process.processMemory f).Nodup
  low : k.process.processMemory.kernelStackPageFrame.toNat + 4096 ≤ 5 * 2 ^ 30
  onStack : OnStack rsp k.process.processMemory.kernelStackPageFrame
  sector : k.process.processMemory.kernelStackPageFrame.toNat ≤ sector.toNat ∧
    sector.toNat + 512 ≤ rsp.toNat
  saved : Words k.ram.mem rsp.toNat (interruptStack c)
  queue : k.ata.queue.Fits ataRequestQueueCapacity
  heap : ∃ (R : Set Nat) (p : Pool R), k.heap.Represents p
  heapStart : 0 < k.heap.kHeapStart ∧ k.heap.kHeapStart + kHeapHeapSize ≤ 2 ^ 64

/-- A failed call as it should be: the process goes on with -1 in `rax` and its other registers as
they were, and the call has left nothing behind. -/
structure FailedCleanly (k k' : Kernel) (rsp ret : BitVec 64) (c : Context) : Prop where
  resumes : ∀ s : State, s.reg .rsp = rsp →
    (∀ x, rsp.toNat ≤ x → x < rsp.toNat + 160 → s.mem x = k'.ram.mem x) →
    (syscallLeave ret s).toContext = { c with reg := Function.update c.reg .rax (-1) }
  process : k'.process = k.process
  frames : ∀ a ∈ [k.process.processMemory.textSegmentPageFrame,
    k.process.processMemory.userStackPageFrame], ∀ j < 4096,
    k'.ram.mem (a.toNat + j) = k.ram.mem (a.toNat + j)
  free : k'.heap.freeBlocks = k.heap.freeBlocks
  live : k'.heap.liveBlocks = k.heap.liveBlocks
  queue : k'.ata.queue.toList ataRequestQueueCapacity =
    k.ata.queue.toList ataRequestQueueCapacity

/-- The `ATARead` of `GetFileInfo`. -/
def directoryCall (env : Environment) (k : Kernel) (sector : BitVec 64) : AtaCall :=
  ⟨k.current, env.partition.rootDirStartLBA.toNat, 512, sector⟩

/-- Memory when `GetFileInfo` searches, unless its `ATARead` has served another or failed. With a
full queue, the array is what it was. -/
def directoryMemory (env : Environment) (k : Kernel) (sector : BitVec 64) : ByteMemory :=
  let c := directoryCall env k sector
  if k.ata.queue.size = ataRequestQueueCapacity then k.ram.mem
  else poke k.ram.mem (c.request.copy
    ((k.ata.answered c (k.answers.headD true)).word env.disk env.floating))

def directoryView (env : Environment) (k : Kernel) (sector : BitVec 64) : ByteMemory :=
  view (directoryMemory env k sector) k.ram.cr3

/-- No file is found for which the heap has room. -/
def NoRoom (m : ByteMemory) (h : KHeap) (filename sector : BitVec 64) : Prop :=
  ∀ i < 16, Begins m filename (entryAt sector i) →
    (∀ l < i, ¬Begins m filename (entryAt sector l)) →
    ∃ t, h.kmalloc ((bytesOf m (entryAt sector i)).readInt 28).toNat = some (t, 0)

/-- When a failing `sysExec` has nothing to undo and the right result is there by chance: the
request is refused, or it is served in its turn, and `ReadFile` is not reached. -/
structure NothingToUndo (env : Environment) (locals : Locals) (k : Kernel)
    (filename : BitVec 64) : Prop where
  result : locals.ret = -1
  request : k.ata.Passes (directoryCall env k locals.sector) (k.answers.headD true)
  room : NoRoom (directoryView env k locals.sector) k.heap filename locals.sector

/-! ## What a failed call has done -/

section Call
variable {env : Environment} {locals : Locals} {k k' : Kernel} {f : TableFrames}
  {sector rsp filename ret arg2 arg3 : BitVec 64} {c : Context}

theorem ataReadPoll_heap {lba size : BitVec 32} {buffer : BitVec 64} {r : BitVec 32}
    (h : ataReadPoll env lba size buffer k = .ok r k') : k'.heap = k.heap := by
  rcases ataReadPoll_cases rfl h with ⟨-, rfl⟩ | ⟨-, interrupt, hserve⟩
  · rfl
  · by_cases hd : (k.waited ⟨k.current, lba.toNat, size.toInt, buffer⟩ interrupt).ata.device =
      .failed
    · obtain ⟨ram, x, y, -, rfl⟩ := ataServe_failed hd hserve
      rfl
    · obtain ⟨ram, -, -, rfl⟩ := ataServe_served hd hserve
      rfl

/-- The three ways to fail: no file is found, the heap has no room, or the file is not read. -/
theorem sysExec_failed (h : sysExec env sector rsp filename k = .ok false k') :
    ∃ r k₀ found k₁, ataReadPoll env env.partition.rootDirStartLBA 512 sector k = .ok r k₀ ∧
      searchRootDir env filename sector k₀ = .ok found k₁ ∧
      ((found = none ∧ k' = k₁) ∨
        ∃ file heap addr, found = some file ∧
          k₁.heap.kmalloc (file.size.setWidth 32).toNat = some (heap, addr) ∧
          ((BitVec.ofNat 64 addr = 0 ∧ k' = { k₁ with heap := heap }) ∨
            BitVec.ofNat 64 addr ≠ 0 ∧ k'.heap = heap)) := by
  unfold sysExec at h
  obtain ⟨found, k₁, hinfo, hrest⟩ := ok_of_bind h
  obtain ⟨r, k₀, hread, hsearch⟩ := ok_of_bind hinfo
  refine ⟨r, k₀, found, k₁, hread, hsearch, ?_⟩
  cases found with
  | none =>
    cases hrest
    exact Or.inl ⟨rfl, rfl⟩
  | some file =>
    right
    obtain ⟨buffer, k₂, hmalloc, hrest⟩ := ok_of_bind hrest
    unfold kmalloc at hmalloc
    cases hk : k₁.heap.kmalloc (file.size.setWidth 32).toNat with
    | none =>
      rw [hk] at hmalloc
      cases hmalloc
    | some result =>
      obtain ⟨heap, addr⟩ := result
      rw [hk] at hmalloc
      cases hmalloc
      refine ⟨file, heap, addr, rfl, hk, ?_⟩
      by_cases hzero : BitVec.ofNat 64 addr = 0
      · rw [if_pos hzero] at hrest
        cases hrest
        exact Or.inl ⟨hzero, rfl⟩
      · rw [if_neg hzero] at hrest
        obtain ⟨r', k₃, hfile, hrest⟩ := ok_of_bind hrest
        split_ifs at hrest
        · cases hrest
          exact Or.inr ⟨hzero, ataReadPoll_heap hfile⟩
        · obtain ⟨_, k₄, -, hlast⟩ := ok_of_bind hrest
          cases hlast

theorem resumes_iff {m : ByteMemory} (hw : Words m rsp.toNat (interruptStack c))
    (hfit : rsp.toNat + 160 ≤ 2 ^ 64) :
    (∀ s : State, s.reg .rsp = rsp →
      (∀ x, rsp.toNat ≤ x → x < rsp.toNat + 160 → s.mem x = m x) →
      (syscallLeave ret s).toContext = { c with reg := Function.update c.reg .rax (-1) }) ↔
    ret = -1 := by
  have hleave : ∀ s : State, s.reg .rsp = rsp →
      (∀ x, rsp.toNat ≤ x → x < rsp.toNat + 160 → s.mem x = m x) →
      (syscallLeave ret s).toContext = { c with reg := Function.update c.reg .rax ret } := by
    intro s hrsp hmem
    have hsp : s.sp = rsp.toNat := congrArg BitVec.toNat hrsp
    exact syscallLeave_context (hsp ▸ hw.congr hmem) (hsp ▸ hfit)
  constructor
  · intro h
    let s : State := ⟨{ c with reg := Function.update c.reg .rsp rsp }, 0, 0, m⟩
    have hrsp : s.reg .rsp = rsp := Function.update_self Reg.rsp rsp c.reg
    have heq := (hleave s hrsp fun _ _ _ => rfl).symm.trans (h s hrsp fun _ _ _ => rfl)
    have hrax := congrArg (fun c : Context => c.reg .rax) heq
    simpa only [Function.update_self] using hrax
  · rintro rfl
    exact hleave

section Layout
variable (h : ExecCall k f sector rsp c)
include h

theorem ExecCall.array :
    range sector 512 ⊆ range k.process.processMemory.kernelStackPageFrame 4096 := by
  obtain ⟨hlow, hhigh⟩ := h.sector
  have hbelow := h.onStack.below
  rintro a ⟨h1, h2⟩
  exact ⟨by omega, by omega⟩

theorem ExecCall.direct : Direct ∅ (range sector 512) k.ram.cr3 k.ram.mem := by
  have hlow := h.low
  have hstack := h.frames _ kernelStackPageFrame_mem
  rw [h.cr3]
  refine h.tables.direct ?_ ?_
  · rintro a (ha | ha)
    · exact absurd ha (Set.notMem_empty a)
    · obtain ⟨-, h2⟩ := h.array ha
      omega
  · intro a ha t ht
    obtain ⟨h1, h2⟩ := h.array ha
    have hne : k.process.processMemory.kernelStackPageFrame ≠ t :=
      (List.nodup_append.mp h.nodup).2.2 _ (by simp) t ht
    rcases hstack.apart (h.tables.frames t ht) hne with hap | hap
    · left
      omega
    · right
      omega

theorem ExecCall.bytes_subset : bytesAt sector 512 ⊆ range sector 512 := by
  obtain ⟨hlow, hhigh⟩ := h.sector
  have hbelow := h.onStack.below
  have hpage := h.low
  rintro a ⟨i, hi, rfl⟩
  exact range_within (by omega) i hi

theorem ExecCall.unfilled {x : Nat} (hx : x < sector.toNat ∨ sector.toNat + 512 ≤ x) :
    directoryMemory env k sector x = k.ram.mem x := by
  unfold directoryMemory
  split_ifs
  · rfl
  · apply poke_outside
    intro w hw
    obtain ⟨h1, h2⟩ := h.bytes_subset (AtaRequest.copy_mem hw)
    have hbuffer : (directoryCall env k sector).request.buffer = sector := rfl
    omega

theorem ExecCall.frame_outside {a : BitVec 64} (ha : a ∈
    [k.process.processMemory.textSegmentPageFrame, k.process.processMemory.userStackPageFrame])
    {j : Nat} (hj : j < 4096) :
    directoryMemory env k sector (a.toNat + j) = k.ram.mem (a.toNat + j) := by
  obtain ⟨hlow, hhigh⟩ := h.sector
  have hbelow := h.onStack.below
  have hne := (List.nodup_append.mp h.nodup).1
  simp only [List.nodup_cons, List.mem_cons, List.not_mem_nil, not_or, or_false] at hne
  have hapart : a.toNat + 4096 ≤ k.process.processMemory.kernelStackPageFrame.toNat ∨
      k.process.processMemory.kernelStackPageFrame.toNat + 4096 ≤ a.toNat := by
    simp only [List.mem_cons, List.not_mem_nil, or_false] at ha
    rcases ha with rfl | rfl
    · exact (h.frames _ textSegmentPageFrame_mem).apart (h.frames _ kernelStackPageFrame_mem)
        (Ne.symm hne.2.1)
    · exact (h.frames _ userStackPageFrame_mem).apart (h.frames _ kernelStackPageFrame_mem) hne.1.1
  apply h.unfilled
  omega

/-- When its request does not stay behind, the search of the directory is in the sector that was
read, or in what the array held. -/
theorem ExecCall.polled {k₀ : Kernel} (hp : k.Polled env (directoryCall env k sector) k₀)
    (hpass : k.ata.Passes (directoryCall env k sector) (k.answers.headD true)) :
    k₀.ram.mem = directoryMemory env k sector ∧ k₀.view = directoryView env k sector := by
  have hmem : k₀.ram.mem = directoryMemory env k sector := by
    unfold directoryMemory
    by_cases hfull : k.ata.queue.size = ataRequestQueueCapacity
    · rw [if_pos hfull]
      exact hp.full hfull
    · obtain ⟨hown, hok⟩ := hpass.resolve_left hfull
      rw [if_neg hfull]
      exact hp.own hfull hok hown ∅ (range sector 512) h.direct h.bytes_subset
  refine ⟨hmem, ?_⟩
  unfold Kernel.view directoryView
  rw [hmem, hp.cr3]

end Layout

/-- A file that is found is the one of the entry with its fields. -/
theorem noRoom_iff {m : ByteMemory} {heap : KHeap} {found : Option File}
    (hfound : FirstOf (fun i => Begins m filename (entryAt sector i))
      (fun i => entryFile env m (entryAt sector i)) 0 16 found) :
    NoRoom m heap filename sector ↔
      ∀ file ∈ found, ∃ t, heap.kmalloc (file.size.setWidth 32).toNat = some (t, 0) := by
  have hsize : ∀ i, ((entryFile env m (entryAt sector i)).size.setWidth 32).toNat =
      ((bytesOf m (entryAt sector i)).readInt 28).toNat := by
    intro i
    rw [entryFile_eq, BitVec.setWidth_setWidth_of_le _ (by decide), BitVec.setWidth_eq]
  cases found with
  | none =>
    constructor
    · intro _ file hfile
      cases hfile
    · exact fun _ i hi hbegins => absurd hbegins (hfound i (Nat.zero_le i) (by omega))
  | some file =>
    obtain ⟨l, ⟨-, hl⟩, hbegins, hfirst, rfl⟩ := hfound
    constructor
    · rintro h file hfile
      obtain rfl := Option.some.inj hfile
      rw [hsize]
      exact h l (by omega) hbegins fun d hd => hfirst d (Nat.zero_le d) hd
    · intro h i hi hi' hbefore
      obtain rfl : i = l := by
        rcases Nat.lt_trichotomy i l with hlt | heq | hgt
        · exact absurd hi' (hfirst i (Nat.zero_le i) hlt)
        · exact heq
        · exact absurd hbegins (hbefore l hgt)
      rw [← hsize]
      exact h _ rfl

section Outcome
variable (h : ExecCall k f sector rsp c) (hrun : sysExec env sector rsp filename k = .ok false k')
include h hrun

/-- A failed call that did not reach `ReadFile` has done nothing after the search. Any other has
allocated a buffer. -/
theorem sysExec_failed_cases : ∃ k₀, k.Polled env (directoryCall env k sector) k₀ ∧
    ((k' = { k₀ with ram := k'.ram } ∧ k'.ram.mem = k₀.ram.mem ∧
        NoRoom k₀.view k.heap filename sector) ∨
      k'.heap.liveBlocks ≠ k.heap.liveBlocks ∧ ¬NoRoom k₀.view k.heap filename sector) := by
  obtain ⟨r, k₀, found, k₁, hread, hsearch, hend⟩ := sysExec_failed hrun
  have hp := ataReadPoll_polled h.queue (c := directoryCall env k sector) rfl hread
  have hstores : k₀.Stores ∅ (final (searchRootDir env filename sector k₀)) :=
    searchRootDir_stores k₀
  rw [hsearch] at hstores
  have hmem : k₁.ram.mem = k₀.ram.mem := hstores.mem_eq
  have hrest : k₁ = { k₀ with ram := k₁.ram } := hstores.rest
  have hheap : k₁.heap = k.heap := by
    rw [hrest]
    exact hp.heap
  refine ⟨k₀, hp, ?_⟩
  rw [noRoom_iff (searchRootDir_ok hsearch)]
  rcases hend with ⟨rfl, rfl⟩ | ⟨file, heap, addr, rfl, hk, hbuffer⟩
  · left
    refine ⟨hrest, hmem, fun file hfile => ?_⟩
    cases hfile
  · rw [hheap] at hk
    obtain ⟨R, p, hrep⟩ := h.heap
    obtain ⟨hpos, hfit⟩ := h.heapStart
    have hlive := hrep.kmalloc_live hpos hfit (BitVec.isLt _) hk
    rcases hbuffer with ⟨hzero, rfl⟩ | ⟨hne, hleft⟩
    · left
      have haddr : addr = 0 ∧ heap = k.heap := by
        refine hlive.resolve_right fun ⟨⟨hne, hlt⟩, _⟩ => hne ?_
        have hnat := congrArg BitVec.toNat hzero
        rwa [BitVec.toNat_ofNat, Nat.mod_eq_of_lt hlt] at hnat
      refine ⟨?_, hmem, fun file' hfile => ?_⟩
      · rw [haddr.2, ← hheap]
        exact hrest
      · obtain rfl := Option.some.inj hfile
        exact ⟨heap, by rw [hk, haddr.1]⟩
    · right
      have hchanged := hlive.resolve_left fun ⟨hzero, _⟩ => hne (by rw [hzero]; rfl)
      refine ⟨hleft ▸ hchanged.2, fun hroom => ?_⟩
      obtain ⟨t, ht⟩ := hroom file rfl
      cases hk.symm.trans ht
      exact hne rfl

end Outcome

theorem sysExec_failsCleanly_iff (h : ExecCall k f locals.sector rsp c)
    (hrun : sysExec env locals.sector rsp filename k = .ok false k') :
    FailedCleanly k k' rsp locals.ret c ↔ NothingToUndo env locals k filename := by
  obtain ⟨k₀, hp, hend⟩ := sysExec_failed_cases h hrun
  rcases hend with ⟨hrest, hmem, hroom⟩ | ⟨hlive, hroom⟩
  · have hqueue : k'.ata.queue.toList ataRequestQueueCapacity =
        k.ata.remaining (directoryCall env k locals.sector) (k.answers.headD true) := by
      rw [hrest]
      exact hp.queue
    have hheap : k'.heap = k.heap := by
      rw [hrest]
      exact hp.heap
    have hprocess : k'.process = k.process := by
      rw [hrest]
      exact hp.process
    have hbelow := h.onStack.below
    have hlow := h.low
    -- the registers are above the array
    have hsaved : k₀.ram.mem = directoryMemory env k locals.sector →
        Words k'.ram.mem rsp.toNat (interruptStack c) := by
      intro hdirectory
      apply h.saved.congr
      intro x hx _
      rw [hmem, hdirectory, h.unfilled (Or.inr (h.sector.2.trans hx))]
    constructor
    · intro hclean
      have hpass := AtaSystem.remaining_eq_iff.mp (hqueue.symm.trans hclean.queue)
      obtain ⟨hdirectory, hview⟩ := h.polled hp hpass
      exact ⟨(resumes_iff (hsaved hdirectory) (by omega)).mp hclean.resumes, hpass, hview ▸ hroom⟩
    · intro hnothing
      obtain ⟨hdirectory, -⟩ := h.polled hp hnothing.request
      refine ⟨(resumes_iff (hsaved hdirectory) (by omega)).mpr hnothing.result, hprocess,
        fun a ha j hj => ?_, by rw [hheap], by rw [hheap],
        hqueue.trans (AtaSystem.remaining_eq_iff.mpr hnothing.request)⟩
      · rw [hmem, hdirectory]
        exact h.frame_outside ha hj
  · constructor
    · exact fun hclean => absurd hclean.live hlive
    · intro hnothing
      obtain ⟨-, hview⟩ := h.polled hp hnothing.request
      exact absurd (hview ▸ hnothing.room) hroom

/-- `SyscallHandler` returns from `sysExec` just when it has failed, with whatever `ret` holds. -/
theorem syscallHandler_exec (hrun : syscallHandler env locals syscallExec rsp filename arg2 arg3 k =
      .ok (.returned ret) k') :
    sysExec env locals.sector rsp filename k = .ok false k' ∧ ret = locals.ret := by
  unfold syscallHandler at hrun
  rw [if_neg (by decide), if_neg (by decide), if_neg (by decide), if_pos rfl] at hrun
  obtain ⟨entered, k₁, hexec, hlast⟩ := ok_of_bind hrun
  cases entered with
  | false =>
    cases hlast
    exact ⟨hexec, rfl⟩
  | true => cases hlast

/-- A failed exec changes nothing and is reported exactly when its request for the directory was
refused or served in its turn, no file was found for which there was room, and `ret` was -1. -/
theorem syscallExec_failsCleanly_iff (h : ExecCall k f locals.sector rsp c)
    (hrun : syscallHandler env locals syscallExec rsp filename arg2 arg3 k =
      .ok (.returned ret) k') :
    FailedCleanly k k' rsp ret c ↔ NothingToUndo env locals k filename := by
  obtain ⟨hexec, rfl⟩ := syscallHandler_exec hrun
  exact sysExec_failsCleanly_iff h hexec

end Call

/-! ## A disk with an empty directory -/

def emptyEnvironment : Environment := ⟨fun _ => 0, fun _ => 0, ⟨1, 1, 2⟩, 0, smallDisplay⟩

/-- The process of the sample with one program, with what becomes of the coming commands. -/
def execKernel (answers : List Bool) : Kernel := { elfKernel with answers := answers }

def zeroContext : Context := ⟨fun _ => 0, 0, 0, 0, 0⟩

section Sample
variable {answers : List Bool} {k₀ : Kernel}

theorem elfMemory_low {x : Nat} (hx : x < 0x204000) (hne : x ≠ elfName.toNat) :
    elfMemory x = 0 := by
  unfold elfMemory
  rw [fillTables_outside fun t ht => elfTables_apart hx t ht, Function.update_of_ne hne]

theorem elfMemory_name : elfMemory elfName.toNat = 0x41 ∧ elfMemory (elfName.toNat + 1) = 0 := by
  refine ⟨?_, elfMemory_low (by decide) (by decide)⟩
  unfold elfMemory
  rw [fillTables_outside fun t ht => elfTables_apart (by decide) t ht, Function.update_self]

theorem words_zero (a n : Nat) : Words (fun _ => 0) a (List.replicate n 0) := by
  induction n generalizing a with
  | zero => trivial
  | succ n ih =>
    have hword : ByteMemory.readWord (fun _ => 0) a = 0 := by
      unfold ByteMemory.readWord
      dsimp only
      decide
    exact ⟨hword, ih (a + 8)⟩

theorem execKernel_call (answers : List Bool) :
    ExecCall (execKernel answers) elfTables elfSector 0x202f50 zeroContext where
  cr3 := rfl
  tables := elfMemory_describes
  frames := by
    show ∀ a ∈ processFrames elfProcess.processMemory elfTables, IsFrame a
    simp only [processFrames, elfProcess, elfTables, TableFrames.toList, List.forall_mem_append,
      List.forall_mem_cons, List.not_mem_nil, IsEmpty.forall_iff, implies_true, and_true]
    decide
  nodup := show (processFrames elfProcess.processMemory elfTables).Nodup by decide
  low := show elfProcess.processMemory.kernelStackPageFrame.toNat + 4096 ≤ 5 * 2 ^ 30 by decide
  onStack := show OnStack 0x202f50 elfProcess.processMemory.kernelStackPageFrame from
    ⟨by decide, by decide⟩
  sector := show elfProcess.processMemory.kernelStackPageFrame.toNat ≤ elfSector.toNat ∧ _ from
    ⟨by decide, by decide⟩
  saved := by
    have hwords : Words (fun _ => 0) (0x202f50 : BitVec 64).toNat (interruptStack zeroContext) :=
      words_zero _ 20
    apply hwords.congr
    intro x h1 h2
    have hlength : (0x202f50 : BitVec 64).toNat + 8 * (interruptStack zeroContext).length ≤
      0x204000 := by decide
    have hname : elfName.toNat < (0x202f50 : BitVec 64).toNat := by decide
    exact elfMemory_low (by omega) (by omega)
  queue := show elfKernel.ata.queue.Fits ataRequestQueueCapacity from ⟨by decide, by decide⟩
  heap := ⟨_, _, HeapSystem.kHeapInit_represents elfBuffer.toNat⟩
  heapStart := show 0 < elfKernel.heap.kHeapStart ∧ elfKernel.heap.kHeapStart + _ ≤ _ from
    ⟨by decide, by decide⟩

theorem elfLow_add {a : BitVec 64} {i : Nat} (ha : a.toNat < 0x203000) (hi : i < 0x1000) :
    a + BitVec.ofNat 64 i ∈ elfLow := by
  show (a + BitVec.ofNat 64 i).toNat < 5 * 2 ^ 30
  rw [toNat_add_ofNat (by omega)]
  omega

theorem emptyDirectory_search (hd : Direct elfLow elfWritten k₀.ram.cr3 k₀.ram.mem)
    (hsector : ∀ i < 512, k₀.ram.mem (elfSector.toNat + i) = 0)
    (hname : k₀.ram.mem elfName.toNat ≠ 0 ∧ k₀.ram.mem (elfName.toNat + 1) = 0) :
    ∃ k₁, searchRootDir emptyEnvironment elfName elfSector k₀ = .ok none k₁ := by
  have hlow : elfName.toNat < 0x203000 ∧ elfSector.toNat < 0x203000 := by decide
  have hbyte : ∀ a : BitVec 64, ∀ i < 0x1000, a.toNat < 0x203000 →
      k₀.view (a + BitVec.ofNat 64 i).toNat = k₀.ram.mem (a.toNat + i) := by
    intro a i hi ha
    exact bytesOf_direct hd (elfLow_add ha hi) (by omega)
  obtain ⟨k₁, hrun, hr⟩ := strnlength_name (W := ∅) hd.mapped
    (fun i hi => elfLow_add hlow.1 (by omega)) (by decide)
    (fun j hj => by
      rw [Nat.lt_one_iff.mp hj]
      exact (hbyte _ _ (by decide) hlow.1).trans_ne hname.1)
    ((hbyte _ _ (by decide) hlow.1).trans hname.2)
  have hbytes : searchBytes elfName elfSector 1 ⊆ elfLow := by
    rintro a (⟨i, hi, rfl⟩ | ⟨i, hi, rfl⟩)
    · have hi : i < 512 := hi
      exact elfLow_add hlow.2 (by omega)
    · have hi : i < 2 := hi
      exact elfLow_add hlow.1 (by omega)
  have hfree : ∀ l < 16, bytesOf k₁.view (entryAt elfSector l) 0 = 0 := by
    intro l hl
    rw [bytesOf_zero, hr.view]
    unfold entryAt
    rw [hbyte _ _ (by omega) hlow.2]
    exact hsector _ (by omega)
  obtain ⟨k₂, hsearch, -⟩ := searchEntries_none
    (fun a ha => hr.mapped hd.mapped a (hbytes ha)) emptyEnvironment fun l hl hstop =>
      hstop.elim (fun hp => hp.1 (hfree l hl)) fun ho => ho.1 (hfree l hl)
  refine ⟨k₂, ?_⟩
  unfold searchRootDir
  rw [bind_ok hrun]
  exact hsearch

/-- When the search finds nothing, `SyscallHandler` returns what `ret` holds. -/
theorem emptyDirectory_returns {k k₁ : Kernel} {r : BitVec 32} (ret : BitVec 64)
    (hread : ataReadPoll emptyEnvironment 1 512 elfSector k = .ok r k₀)
    (hsearch : searchRootDir emptyEnvironment elfName elfSector k₀ = .ok none k₁) :
    syscallHandler emptyEnvironment ⟨elfSector, ret⟩ syscallExec 0x202f50 elfName 0 0 k =
      .ok (.returned ret) k₁ := by
  have hinfo : getFileInfoPoll emptyEnvironment elfName elfSector k = .ok none k₁ :=
    (bind_ok hread).trans hsearch
  have hexec : sysExec emptyEnvironment elfSector 0x202f50 elfName k = .ok false k₁ :=
    bind_ok hinfo
  exact bind_ok hexec

theorem execKernel_reads : ∃ k₀, ataReadPoll emptyEnvironment 1 512 elfSector (execKernel []) =
      .ok 512 k₀ ∧ Direct elfLow elfWritten k₀.ram.cr3 k₀.ram.mem ∧
    (∀ i < 512, k₀.ram.mem (elfSector.toNat + i) = 0) ∧
    k₀.ram.mem elfName.toNat ≠ 0 ∧ k₀.ram.mem (elfName.toNat + 1) = 0 := by
  have hidle : (execKernel []).Idle :=
    ⟨⟨by decide, by decide⟩, rfl, fun b hb => absurd hb List.not_mem_nil⟩
  have hwritten : Within elfWritten elfSector 512 := fun i hi =>
    Or.inl (range_within (by decide) i hi)
  obtain ⟨k₀, hrun, -, hdirect, -, hinside, houtside⟩ := ataReadPoll_sector emptyEnvironment 1
    (k := execKernel []) hidle elf_direct hwritten (by decide)
  have hname : elfName.toNat + 1 < elfSector.toNat := by decide
  refine ⟨k₀, hrun, hdirect, hinside, ?_, ?_⟩
  · rw [houtside _ (Or.inl (by omega))]
    show elfMemory _ ≠ 0
    rw [elfMemory_name.1]
    decide
  · rw [houtside _ (Or.inl hname)]
    exact elfMemory_name.2

/-- The elements of the first line of characters. -/
theorem smallDisplay_line {a : BitVec 64}
    (ha : a ∈ lineBytes smallDisplay 0 0 (fontWidth * 5)) :
    0x80000000 ≤ a.toNat ∧ a.toNat < 0x90000000 := by
  obtain ⟨i, hi, j, hj, l, hl, rfl⟩ := ha
  have hi : i < 40 := hi
  have hj : j < 10 := hj
  have hl : l < 3 := hl
  have hx : ((0 : BitVec 32) + BitVec.ofNat 32 i).toNat = i := by
    rw [zero_add, BitVec.toNat_ofNat]
    omega
  have hy : ((640 : BitVec 32) * (0 + BitVec.ofNat 32 j)).toNat = 640 * j := by
    rw [zero_add, BitVec.toNat_mul, BitVec.toNat_ofNat]
    show 640 * (j % 2 ^ 32) % 2 ^ 32 = 640 * j
    omega
  have hscale : (4 : BitVec 64) * BitVec.ofNat 64 (640 * j + i) =
      BitVec.ofNat 64 (4 * (640 * j + i)) := (BitVec.ofNat_mul _ _).symm
  have hbase : (0x80000000 : BitVec 64).toNat = 0x80000000 := rfl
  unfold Display.element
  rw [hx, show smallDisplay.horizontalResolution = 640 from rfl, hy,
    show smallDisplay.base = 0x80000000 from rfl, hscale, BitVec.add_assoc, ← BitVec.ofNat_add,
    toNat_add_ofNat (by omega), hbase]
  omega

/-- The device fails the command for the directory, and the message is drawn. -/
theorem execKernel_fails : ∃ k₀, ataReadPoll emptyEnvironment 1 512 elfSector
    (execKernel [false]) = .ok (-1) k₀ ∧ Direct elfLow elfWritten k₀.ram.cr3 k₀.ram.mem ∧
    ∀ x < 0x204000, k₀.ram.mem x = elfMemory x := by
  let c : AtaCall := ⟨1, 1, 512, elfSector⟩
  let screen : Set (BitVec 64) := { a | 0x80000000 ≤ a.toNat ∧ a.toNat < 0x90000000 }
  obtain ⟨ws, hin, hruns, -⟩ := ataServe_error emptyEnvironment c
    (k := (execKernel [false]).waited c true) rfl
  have hscreen : ∀ w ∈ ws, w.1 ∈ elfWritten ∪ screen := fun w hw =>
    Or.inr (smallDisplay_line (hin w hw))
  have htables : ∀ t ∈ elfTables.toList, t.toNat + 4096 ≤ 0x80000000 := by
    simp only [elfTables, TableFrames.toList, List.forall_mem_cons, List.not_mem_nil,
      IsEmpty.forall_iff, implies_true, and_true]
    decide
  have hd : Direct elfLow (elfWritten ∪ screen) elfTables.l4 elfMemory := by
    refine elfMemory_describes.direct ?_ ?_
    · rintro a (ha | ha | ha)
      · exact ha
      · exact (elfWritten_lt ha).trans (by decide)
      · exact ha.2.trans (by decide)
    · rintro a (ha | ha) t ht
      · exact elfTables_apart ((elfWritten_lt ha).trans (by decide)) t ht
      · exact Or.inr ((htables t ht).trans ha.1)
  obtain ⟨ram, hrun, hmem, hcr3⟩ := Ram.storeAll_direct (r := elfKernel.ram) hd hscreen
  have hread : ataReadPoll emptyEnvironment 1 512 elfSector (execKernel [false]) =
      ataServe emptyEnvironment c ((execKernel [false]).waited c true) :=
    ataReadPoll_space emptyEnvironment (c := c) rfl (by decide)
  refine ⟨_, hread.trans (hruns ram hrun), ?_, fun x hx => ?_⟩
  · show Direct elfLow elfWritten ram.cr3 ram.mem
    rw [hcr3, hmem]
    exact (hd.poke hscreen).mono (Set.Subset.refl _) Set.subset_union_left
  · show ram.mem x = elfMemory x
    rw [hmem]
    exact poke_outside fun w hw =>
      (hx.trans_le ((by decide : 0x204000 ≤ 0x80000000).trans (smallDisplay_line (hin w hw)).1)).ne'

/-- With -1 in `ret`, the missing file is reported and the call leaves nothing behind. -/
theorem syscallExec_failsCleanly_empty : ∃ k',
    syscallHandler emptyEnvironment ⟨elfSector, -1⟩ syscallExec 0x202f50 elfName 0 0
      (execKernel []) = .ok (.returned (-1)) k' ∧
    FailedCleanly (execKernel []) k' 0x202f50 (-1) zeroContext := by
  obtain ⟨k₀, hread, hd, hsector, hname⟩ := execKernel_reads
  obtain ⟨k', hsearch⟩ := emptyDirectory_search hd hsector hname
  have hcall := execKernel_call []
  have hpass : (execKernel []).ata.Passes (directoryCall emptyEnvironment (execKernel []) elfSector)
      true := Or.inr ⟨fun r hr => absurd hr List.not_mem_nil, fun h => nomatch h⟩
  have hp := ataReadPoll_polled hcall.queue
    (c := directoryCall emptyEnvironment (execKernel []) elfSector) rfl hread
  have hroom : NoRoom k₀.view (execKernel []).heap elfName elfSector :=
    (noRoom_iff (searchRootDir_ok hsearch)).mpr fun _ hfile => nomatch hfile
  rw [(hcall.polled hp hpass).2] at hroom
  have hnothing : NothingToUndo emptyEnvironment ⟨elfSector, -1⟩ (execKernel []) elfName :=
    ⟨rfl, hpass, hroom⟩
  have hrun := emptyDirectory_returns (-1) hread hsearch
  exact ⟨k', hrun, (syscallExec_failsCleanly_iff hcall hrun).mpr hnothing⟩

/-- A file that is not there is reported only by chance, and a request that has failed stays in the
queue. -/
theorem syscallExec_fails_uncleanly :
    (∃ k', syscallHandler emptyEnvironment ⟨elfSector, 0⟩ syscallExec 0x202f50 elfName 0 0
        (execKernel []) = .ok (.returned 0) k' ∧
      ¬FailedCleanly (execKernel []) k' 0x202f50 0 zeroContext) ∧
    ∃ k', syscallHandler emptyEnvironment ⟨elfSector, -1⟩ syscallExec 0x202f50 elfName 0 0
        (execKernel [false]) = .ok (.returned (-1)) k' ∧
      ¬FailedCleanly (execKernel [false]) k' 0x202f50 (-1) zeroContext := by
  constructor
  · obtain ⟨k₀, hread, hd, hsector, hname⟩ := execKernel_reads
    obtain ⟨k', hsearch⟩ := emptyDirectory_search hd hsector hname
    have hrun := emptyDirectory_returns 0 hread hsearch
    refine ⟨k', hrun, fun hclean => ?_⟩
    have hnothing : NothingToUndo emptyEnvironment ⟨elfSector, 0⟩ (execKernel []) elfName :=
      (sysExec_failsCleanly_iff (execKernel_call []) (syscallHandler_exec hrun).1).mp hclean
    exact absurd hnothing.result (by decide)
  · obtain ⟨k₀, hread, hd, hmem⟩ := execKernel_fails
    have hplaces : elfName.toNat < elfSector.toNat ∧ elfSector.toNat + 512 ≤ 0x204000 := by decide
    obtain ⟨k', hsearch⟩ := emptyDirectory_search hd
      (fun i hi => by
        rw [hmem _ (by omega)]
        exact elfMemory_low (by omega) (by omega))
      (by
        rw [hmem _ (by omega), hmem _ (by omega), elfMemory_name.1]
        exact ⟨by decide, elfMemory_name.2⟩)
    have hrun := emptyDirectory_returns (-1) hread hsearch
    refine ⟨k', hrun, fun hclean => ?_⟩
    have hnothing : NothingToUndo emptyEnvironment ⟨elfSector, -1⟩ (execKernel [false]) elfName :=
      (sysExec_failsCleanly_iff (execKernel_call [false]) (syscallHandler_exec hrun).1).mp hclean
    rcases hnothing.request with hfull | ⟨-, hok⟩
    · exact absurd hfull (by decide)
    · exact hok rfl

end Sample

end Amaterasu
