import Amaterasu.Kernel.Stores
import Amaterasu.Process.ExecFile
import Amaterasu.Syscall.Defs

/-! Where system calls write: in the objects that their arguments name, wherever these are. No
address is checked against the page table. -/

namespace Amaterasu
open PageWalk Program

/-! ## `sysExec` -/

/-- What `sysExec` has read when it starts to copy. -/
structure ExecFields where
  buffer : BitVec 64
  entryPoint : BitVec 64
  textSegmentSize : BitVec 64
  textSegmentOffset : BitVec 64

/-- `sysExec` up to the copy; `none` is the result -1. -/
def execFields (env : Environment) (sector filename : BitVec 64) :
    KernelM (Option ExecFields) := do
  match ← getFileInfoPoll env filename sector with
  | none => return none
  | some file =>
    let buffer ← kmalloc (file.size.setWidth 32)
    if buffer = 0 then return none
    else if (← readFilePoll env file buffer).signExtend 64 ≠ file.size then return none
    else
      let entryPoint ← loadWord (buffer + eEntry)
      let phoff ← loadWord (buffer + ePhoff)
      let textSegmentSize ← loadWord (buffer + phoff + pMemsz)
      let textSegmentOffset ← loadWord (buffer + phoff + pOffset)
      return some ⟨buffer, entryPoint, textSegmentSize, textSegmentOffset⟩

theorem sysExec_eq_fields (env : Environment) (sector rsp filename : BitVec 64) :
    sysExec env sector rsp filename = do
      match ← execFields env sector filename with
      | none => return false
      | some f =>
        execSegment rsp f.buffer f.entryPoint f.textSegmentSize f.textSegmentOffset
        return true := by
  unfold sysExec execFields execImage
  simp only [bind_assoc]
  congr 1
  funext file
  cases file with
  | none => rfl
  | some file =>
    simp only [bind_assoc]
    congr 1
    funext buffer
    split_ifs
    · rfl
    · simp only [bind_assoc]
      congr 1
      funext ret
      split_ifs
      · rfl
      · simp only [bind_assoc, pure_bind]

/-- The blocks that `kmalloc` can return next. -/
def heapBlocks (h : KHeap) : Set (BitVec 64) :=
  { a | ∃ size heap addr, h.kmalloc size = some (heap, addr) ∧ addr ≠ 0 ∧
    a ∈ bytesAt (BitVec.ofNat 64 addr) size }

theorem kmalloc_size {h heap : KHeap} {size addr : Nat} (hk : h.kmalloc size = some (heap, addr))
    (hne : addr ≠ 0) : size ≤ kHeapHeapSize := by
  by_contra hlarge
  unfold KHeap.kmalloc at hk
  rw [if_pos (Nat.lt_of_not_le hlarge)] at hk
  exact hne (Prod.mk.inj (Option.some.inj hk)).2.symm

section Exec
variable {W : Set (BitVec 64)} {k : Kernel} {env : Environment} {sector rsp filename : BitVec 64}

/-- `sysExec` from the return of `ReadFile` up to the copy. -/
theorem readFields_confined (env : Environment) (file : File) {buffer : BitVec 64}
    (hbuffer : bytesAt buffer (file.size.setWidth 32).toInt ⊆ W) :
    Kernel.Confined env.display W 1 (do
      if (← readFilePoll env file buffer).signExtend 64 ≠ file.size then return none
      else
        let entryPoint ← loadWord (buffer + eEntry)
        let phoff ← loadWord (buffer + ePhoff)
        let textSegmentSize ← loadWord (buffer + phoff + pMemsz)
        let textSegmentOffset ← loadWord (buffer + phoff + pOffset)
        return some (⟨buffer, entryPoint, textSegmentSize, textSegmentOffset⟩ : ExecFields)) := by
  refine Kernel.Confined.bind (ataReadPoll_confined env hbuffer) fun ret => ?_
  refine Kernel.Stores.confined ?_ env.display
  split_ifs
  · exact return_stores _
  · refine Keeps.thenStores (loadWord_stores _) fun _ => Keeps.thenStores (loadWord_stores _) fun _ =>
      Keeps.thenStores (loadWord_stores _) fun _ => Keeps.thenStores (loadWord_stores _) fun _ =>
        return_stores _

theorem execFields_touches (env : Environment) (filename : BitVec 64) (hk : k.QueueWithin W)
    (hlines : errorBytes env.display 2 k.cursorX k.cursorY ⊆ W)
    (hsector : bytesAt sector 512 ⊆ W) (hheap : heapBlocks k.heap ⊆ W) :
    k.Touches Set.univ W (final (execFields env sector filename k)) ∧
      (final (execFields env sector filename k)).process = k.process := by
  unfold execFields
  obtain ⟨htouch₁, hheap₁, hprocess₁, hok₁⟩ :=
    getFileInfoPoll_confined env filename hsector k 1 hk hlines
  cases hinfo : getFileInfoPoll env filename sector k with
  | error e k₁ =>
    rw [hinfo] at htouch₁ hprocess₁
    rw [bind_error hinfo]
    exact ⟨htouch₁, hprocess₁⟩
  | ok info k₁ =>
    obtain ⟨hq₁, hlines₁⟩ := hok₁ info k₁ hinfo
    rw [hinfo] at htouch₁ hheap₁ hprocess₁
    rw [bind_ok hinfo]
    have hheap₁ : k₁.heap = k.heap := hheap₁
    cases info with
    | none => exact ⟨htouch₁, hprocess₁⟩
    | some file =>
      dsimp only
      cases hm : k₁.heap.kmalloc (file.size.setWidth 32).toNat with
      | none =>
        have hmalloc : kmalloc (file.size.setWidth 32) k₁ = .error () k₁ := by
          unfold kmalloc
          rw [hm]
        rw [bind_error hmalloc]
        exact ⟨htouch₁, hprocess₁⟩
      | some r =>
        obtain ⟨heap, addr⟩ := r
        let k₂ : Kernel := { k₁ with heap := heap }
        have hmalloc : kmalloc (file.size.setWidth 32) k₁ = .ok (BitVec.ofNat 64 addr) k₂ := by
          unfold kmalloc
          rw [hm]
        rw [bind_ok hmalloc]
        split_ifs with hzero
        · exact ⟨htouch₁, hprocess₁⟩
        · have hne : addr ≠ 0 := fun h => hzero (congrArg (BitVec.ofNat 64) h)
          have hsize := kmalloc_size hm hne
          have hint : (file.size.setWidth 32).toInt = ((file.size.setWidth 32).toNat : Int) := by
            have hlow : (file.size.setWidth 32).toNat ≤ 4096 := hsize
            rw [BitVec.toInt_eq_toNat_cond, if_pos (by omega)]
          have hblock : bytesAt (BitVec.ofNat 64 addr) (file.size.setWidth 32).toInt ⊆ W := by
            intro a ha
            rw [hint] at ha
            exact hheap ⟨_, heap, addr, hheap₁ ▸ hm, hne, ha⟩
          obtain ⟨htouch, -, hprocess, -⟩ :=
            readFields_confined env file hblock k₂ 0 ⟨hq₁.fits, hq₁.bytes⟩ hlines₁
          exact ⟨Ram.Touches.trans htouch₁ htouch, hprocess.trans hprocess₁⟩

/-- `sysExec` writes, besides what it does for the file, the text frame and the registers, when the
copy is no longer than a page. -/
theorem sysExec_touches (hk : k.QueueWithin W)
    (hlines : errorBytes env.display 2 k.cursorX k.cursorY ⊆ W) (hsector : bytesAt sector 512 ⊆ W)
    (hheap : heapBlocks k.heap ⊆ W) (hrsp : bytesAt rsp 160 ⊆ W)
    (htext : bytesAt k.process.processMemory.textSegmentPageFrame 4096 ⊆ W)
    (hsize : ∀ f k', execFields env sector filename k = .ok (some f) k' →
      f.textSegmentSize.toNat ≤ 4096) :
    k.Touches Set.univ W (final (sysExec env sector rsp filename k)) := by
  obtain ⟨htouch, hprocess⟩ := execFields_touches env filename hk hlines hsector hheap
  rw [sysExec_eq_fields]
  cases hfields : execFields env sector filename k with
  | error e k₁ =>
    rw [hfields] at htouch
    rw [bind_error hfields]
    exact htouch
  | ok fields k₁ =>
    rw [hfields] at htouch hprocess
    rw [bind_ok hfields]
    cases fields with
    | none => exact htouch
    | some f =>
      refine Ram.Touches.trans htouch ?_
      have hprocess : k₁.process = k.process := hprocess
      have hshort := hsize f k₁ hfields
      have htarget : bytesAt k₁.process.processMemory.textSegmentPageFrame
          f.textSegmentSize.toNat ⊆ W := by
        rw [hprocess]
        rintro a ⟨i, hi, rfl⟩
        exact htext ⟨i, by omega, rfl⟩
      have hcopy : Keeps (Kernel.Touches Set.univ W) (do
          memcpy k₁.process.processMemory.textSegmentPageFrame (f.buffer + f.textSegmentOffset)
            f.textSegmentSize
          storeWords rsp (interruptStack (execRegisters f.entryPoint))
          switchKernelStack (k₁.process.processMemory.kernelStackPageFrame - 8 + pageSize)
          kfree f.buffer) := by
        refine Keeps.next (Keeps.imp (memcpy_stores htarget) fun _ _ h => h.touches) fun _ => ?_
        refine Keeps.next (Keeps.imp (storeWords_stores _ hrsp) fun _ _ h => h.touches) fun _ => ?_
        exact Keeps.next (modify_touches fun _ => rfl) fun _ => modify_touches fun _ => rfl
      have hsegment : k₁.Touches Set.univ W (final (execSegment rsp f.buffer f.entryPoint
          f.textSegmentSize f.textSegmentOffset k₁)) := by
        unfold execSegment
        rw [bind_get]
        exact hcopy k₁
      rcases final_bind (execSegment rsp f.buffer f.entryPoint f.textSegmentSize
        f.textSegmentOffset) (fun _ => return true) k₁ with ⟨a, t, ht, hfinal⟩ | hfinal
      · rw [ht] at hsegment
        exact hfinal ▸ hsegment
      · exact hfinal ▸ hsegment

end Exec

/-! ## `sysFork` -/

namespace Paged
variable {W : Set (BitVec 64)} {frames : List (BitVec 64)} {p : ProcessMemory}
  {userStack kernelStack rsp : BitVec 64} {α β : Type}

theorem modifyWords_page {a : BitVec 64} (h : bytesAt a 4096 ⊆ W) (g : Nat → BitVec 64 → BitVec 64) :
    Keeps (Ram.Touches Set.univ W) (Ram.modifyWords a g 512) :=
  Ram.modifyWords_touches fun i hi => ⟨trivial, h ⟨i, hi, rfl⟩⟩

theorem copy_page {a : BitVec 64} (b : BitVec 64) (h : bytesAt a 4096 ⊆ W) :
    Keeps (Ram.Touches Set.univ W) (Ram.copy a b 4096) :=
  Ram.copy_touches fun i hi => ⟨trivial, h ⟨i, hi, rfl⟩⟩

theorem Keeps.after {x : Accessing α} {f : α → Accessing β} (hx : Keeps (Ram.Touches Set.univ W) x)
    (hf : ∀ a, Keeps (Ram.Touches Set.univ W) (f a)) : Keeps (Ram.Touches Set.univ W) (x >>= f) :=
  Ram.Keeps.sequence (g := id) hx hf

theorem Keeps.unlessZero {a : BitVec 64} {v : α} {x : Accessing α}
    (hx : Keeps (Ram.Touches Set.univ W) x) :
    Keeps (Ram.Touches Set.univ W) (if a = 0 then return v else x) := by
  split_ifs
  · exact fun r => Ram.Touches.refl r
  · exact hx

theorem cons_of_length {n : Nat} (h : n + 1 ≤ frames.length) :
    ∃ a rest, frames = a :: rest ∧ n ≤ rest.length := by
  obtain ⟨a, rest, rfl⟩ := List.exists_cons_of_length_pos (Nat.lt_of_lt_of_le n.succ_pos h)
  exact ⟨a, rest, rfl, Nat.le_of_succ_le_succ h⟩

theorem setUpPageTable_touches (text base : BitVec 64) (hlength : 5 ≤ frames.length)
    (h : ∀ a ∈ frames.take 5, bytesAt a 4096 ⊆ W) :
    Keeps (Ram.Touches Set.univ W) (setUpPageTable frames text base) := by
  obtain ⟨a, l, rfl, h4⟩ := cons_of_length hlength
  obtain ⟨b, l, rfl, h3⟩ := cons_of_length h4
  obtain ⟨c, l, rfl, h2⟩ := cons_of_length h3
  obtain ⟨d, l, rfl, h1⟩ := cons_of_length h2
  obtain ⟨e, l, rfl, -⟩ := cons_of_length h1
  simp only [List.take_succ_cons, List.take_zero, List.forall_mem_cons] at h
  obtain ⟨ha, hb, hc, hd, he, -⟩ := h
  unfold setUpPageTable
  simp only [allocatePageFrame]
  refine Keeps.unlessZero (Keeps.after (modifyWords_page ha _) fun _ => ?_)
  refine Keeps.unlessZero (Keeps.after (modifyWords_page hb _) fun _ => ?_)
  refine Keeps.unlessZero (Keeps.after (modifyWords_page hc _) fun _ => ?_)
  refine Keeps.unlessZero (Keeps.after (modifyWords_page hd _) fun _ => ?_)
  refine Keeps.unlessZero (Keeps.after (modifyWords_page he _) fun _ => ?_)
  exact fun r => Ram.Touches.refl r

theorem copyProcessMemory_touches (hlength : 6 ≤ frames.length)
    (h : ∀ a ∈ (userStack :: kernelStack :: frames).take 8, bytesAt a 4096 ⊆ W) :
    Keeps (Ram.Touches Set.univ W)
      (copyProcessMemory (userStack :: kernelStack :: frames) 0 p) := by
  obtain ⟨text, rest, rfl, h5⟩ := cons_of_length hlength
  have hflag : ¬((0 : BitVec 8) &&& cloneVM ≠ 0) := by decide
  simp only [List.take_succ_cons, List.forall_mem_cons] at h
  obtain ⟨huser, hkernel, htext, hrest⟩ := h
  unfold copyProcessMemory copyTextSegment
  simp only [allocatePageFrame, if_neg hflag, bind_assoc, pure_bind]
  refine Keeps.after (copy_page _ htext) fun _ => Keeps.after (copy_page _ hkernel) fun _ =>
    Keeps.after (copy_page _ huser) fun _ => Keeps.after ?_ fun _ r => Ram.Touches.refl r
  exact setUpPageTable_touches _ _ h5 hrest

theorem copyProcessMemory_kernelStack {r t : Ram} {m : ProcessMemory × List (BitVec 64)}
    (h : copyProcessMemory (userStack :: kernelStack :: frames) 0 p r = .ok m t) :
    m.1.kernelStackPageFrame = kernelStack := by
  unfold copyProcessMemory at h
  obtain ⟨text, r₁, -, hrest⟩ := ok_of_bind h
  obtain ⟨l4, r₂, -, hlast⟩ := ok_of_bind hrest
  cases hlast
  rfl

theorem setUpStack_touches {child : ProcessMemory} (registers : BitVec 64)
    (hr : OnStack rsp p.kernelStackPageFrame) (h : bytesAt child.kernelStackPageFrame 4096 ⊆ W) :
    Keeps (Ram.Touches Set.univ W) (setUpStack 0 registers rsp p child) := by
  obtain ⟨habove, hbelow⟩ := hr
  have hoffset : (rsp - p.kernelStackPageFrame).toNat + 8 ≤ 4096 := by bv_omega
  unfold setUpStack
  refine Keeps.after (Ram.storeAll_touches fun w hw => h ?_) fun _ r => Ram.Touches.refl r
  obtain ⟨i, hi, rfl⟩ := List.mem_map.mp hw
  have hbyte : i < 8 := List.mem_range.mp hi
  refine ⟨(rsp - p.kernelStackPageFrame).toNat + i, by omega, ?_⟩
  rw [BitVec.ofNat_add, BitVec.ofNat_toNat, BitVec.setWidth_eq, ← BitVec.add_assoc]

/-- `sysFork` writes the frames that it allocates. -/
theorem sysFork_touches {parent : Process} (returnFromSysFork : BitVec 64)
    (hlength : 8 ≤ frames.length) (hr : OnStack rsp parent.processMemory.kernelStackPageFrame)
    (h : ∀ a ∈ frames.take 8, bytesAt a 4096 ⊆ W) :
    Keeps (Ram.Touches Set.univ W) (sysFork returnFromSysFork frames rsp parent) := by
  obtain ⟨userStack, l, rfl, h7⟩ := cons_of_length hlength
  obtain ⟨kernelStack, rest, rfl, h6⟩ := cons_of_length h7
  have hcopy : Keeps (Ram.Touches Set.univ W)
      (copyProcessMemory (userStack :: kernelStack :: rest) 0 parent.processMemory) :=
    copyProcessMemory_touches h6 h
  have hkernel : bytesAt kernelStack 4096 ⊆ W := h _ (by simp)
  intro r
  have htouch := hcopy r
  unfold sysFork doFork
  cases hrun : copyProcessMemory (userStack :: kernelStack :: rest) 0 parent.processMemory r with
  | error e t =>
    rw [hrun] at htouch
    rw [bind_error hrun]
    exact htouch
  | ok memory t =>
    rw [hrun] at htouch
    have hstack := copyProcessMemory_kernelStack hrun
    have hset : Keeps (Ram.Touches Set.univ W)
        (setUpStack 0 rsp rsp parent.processMemory memory.1) :=
      setUpStack_touches rsp hr (hstack ▸ hkernel)
    have hlast := Keeps.after (f := fun ring0rsp : BitVec 64 => (return (newProcessId parent.pid,
      { parent with
        pid := newProcessId parent.pid
        threadInfo := ⟨ring0rsp, ring0rsp, memory.1.l4PageTableBase, returnFromSysFork⟩
        processMemory := memory.1 }, memory.2) : Accessing _)) hset fun _ r => Ram.Touches.refl r
    rw [bind_ok hrun]
    exact Ram.Touches.trans htouch (hlast t)

end Paged

/-! ## `SyscallHandler` -/

/-- What the caller's pointers name: the buffer of `ReadFile`, the `struct File` of `GetFileInfo`
and the buffer of `ATARead`. -/
def callerBytes (k : Kernel) (syscallId arg1 arg2 arg3 : BitVec 64) : Set (BitVec 64) :=
  { a | syscallId = syscallRead ∧ ∃ file k', loadFile arg1 k = .ok file k' ∧
      a ∈ bytesAt arg2 (file.size.setWidth 32).toInt } ∪
    { a | syscallId = syscallOpen ∧ a ∈ bytesAt arg2 16 } ∪
    { a | syscallId = syscallAtaRead ∧ a ∈ bytesAt arg3 (arg2.setWidth 32).toInt }

/-- The kernel's own bytes: the array of `GetFileInfo`, the objects of `sysExec`, and the frames
that `sysFork` allocates. -/
def kernelBytes (k : Kernel) (locals : Locals) (syscallId rsp : BitVec 64) : Set (BitVec 64) :=
  { a | syscallId = syscallOpen ∧ a ∈ bytesAt locals.sector 512 } ∪
    { a | syscallId = syscallExec ∧ (a ∈ bytesAt locals.sector 512 ∨ a ∈ heapBlocks k.heap ∨
      a ∈ bytesAt k.process.processMemory.textSegmentPageFrame 4096 ∨ a ∈ bytesAt rsp 160) } ∪
    { a | syscallId = syscallFork ∧ ∃ frame ∈ k.frames.take 8, a ∈ bytesAt frame 4096 }

/-- The elements of the frame buffer, or what is found in their place: those of a character, and
those of the lines of both polled reads of `sysExec`. -/
def screenBytes (env : Environment) (k : Kernel) (syscallId : BitVec 64) : Set (BitVec 64) :=
  { a | syscallId = syscallPut ∧ a ∈ lineBytes env.display k.cursorX k.cursorY fontWidth } ∪
    { a | syscallId = syscallExec ∧ a ∈ errorBytes env.display 2 k.cursorX k.cursorY }

/-- When it is resumed with its own request at the front of the queue, the call that process `p`
sleeps in writes into `W` only, and after an error of the device a line on the screen. -/
def Progress.Confined (env : Environment) (W : Set (BitVec 64)) (k' : Kernel) (p : Nat) :
    Progress → Prop
  | .sleeping rest => ∀ c ∈ k'.ata.asleep p, ∀ t : Kernel, t.ata.queue.front = c.request →
    t.Touches Set.univ (W ∪ { a | t.ata.device = .failed ∧
      a ∈ errorBytes env.display 1 t.cursorX t.cursorY }) (final (rest t))
  | _ => True

/-- What a call has written when it gives the processor back, and what it writes when it is
resumed. -/
structure Kernel.Answers (env : Environment) (W : Set (BitVec 64)) (k : Kernel)
    (r : EStateM.Result Unit Kernel Progress) : Prop where
  touches : k.Touches Set.univ W (final r)
  confined : ∀ p k', r = .ok p k' → p.Confined env W k' k.current

section Handler
variable {W : Set (BitVec 64)} {k : Kernel} {env : Environment} {lba size : BitVec 32}
  {buffer : BitVec 64} {α : Type}

/-- A call that does not sleep. -/
theorem Kernel.Answers.of_awake {x : KernelM α} {f : α → KernelM Progress}
    (hx : k.Touches Set.univ W (final (x k)))
    (hf : ∀ a, ∃ p : Progress, f a = pure p ∧ ∀ rest, p ≠ .sleeping rest) :
    k.Answers env W ((x >>= f) k) := by
  cases hr : x k with
  | error e k₁ =>
    rw [hr] at hx
    rw [bind_error hr]
    exact ⟨hx, fun _ _ h => nomatch h⟩
  | ok a k₁ =>
    rw [hr] at hx
    obtain ⟨p, hp, hawake⟩ := hf a
    rw [bind_ok hr, hp]
    refine ⟨hx, fun q k' hq => ?_⟩
    obtain ⟨rfl, rfl⟩ := EStateM.Result.ok.inj hq
    cases p with
    | sleeping rest => exact absurd rfl (hawake rest)
    | returned ret => trivial
    | entered => trivial
    | exited => trivial

theorem ataRead_sleeps {rest : BitVec 32 → KernelM (BitVec 64)} {c : AtaCall}
    (hc : c = ⟨k.current, lba.toNat, size.toInt, buffer⟩)
    (hspace : k.ata.queue.size ≠ ataRequestQueueCapacity) :
    ataRead env lba size buffer rest k =
      .ok (.sleeping do ataWake c; rest (← ataServe env c)) { k with
        ata := { k.ata.submitted c with
          state := Function.update k.ata.state c.process .sleep
          asleep := Function.update k.ata.asleep c.process (some c) } } := by
  unfold ataRead
  rw [bind_ok (ataSubmit_space hc hspace)]
  rfl

/-- `ATARead` writes nothing before it sleeps, and its own buffer afterwards. -/
theorem ataRead_answers {rest : BitVec 32 → KernelM (BitVec 64)}
    (h : bytesAt buffer size.toInt ⊆ W) (hrest : ∀ ret, Keeps (Kernel.Stores W) (rest ret)) :
    k.Answers env W (ataRead env lba size buffer rest k) := by
  let c : AtaCall := ⟨k.current, lba.toNat, size.toInt, buffer⟩
  by_cases hfull : k.ata.queue.size = ataRequestQueueCapacity
  · unfold ataRead
    rw [bind_ok (ataSubmit_full (c := c) rfl hfull)]
    have hstores := (hrest (-1) { k with ata := k.ata.refuse c }).touches
    have hanswers : Kernel.Answers env W { k with ata := k.ata.refuse c } _ :=
      Kernel.Answers.of_awake (f := fun ret => return Progress.returned ret) hstores fun ret =>
        ⟨_, rfl, fun _ h => nomatch h⟩
    exact ⟨hanswers.touches, hanswers.confined⟩
  · rw [ataRead_sleeps (c := c) rfl hfull]
    refine ⟨Ram.Touches.refl _, fun p k' hp => ?_⟩
    obtain ⟨rfl, rfl⟩ := EStateM.Result.ok.inj hp
    intro d hd t hfront
    change Function.update k.ata.asleep k.current (some c) k.current = some d at hd
    rw [Function.update_self] at hd
    obtain rfl := Option.some.inj hd
    let t' : Kernel :=
      { t with ata := { t.ata with asleep := Function.update t.ata.asleep c.process none } }
    have hwake : ataWake c t = .ok () t' := rfl
    let W' : Set (BitVec 64) := W ∪ { a | t.ata.device = .failed ∧
      a ∈ errorBytes env.display 1 t.cursorX t.cursorY }
    have hserve : t'.Touches Set.univ W' (final (ataServe env c t')) := by
      refine ataServe_touches env c ?_ fun hd a ha => Or.inr ⟨hd, ha⟩
      show t.ata.queue.front.bytes ⊆ W'
      rw [hfront]
      exact h.trans Set.subset_union_left
    rw [bind_ok hwake]
    rcases final_bind (ataServe env c) rest t' with ⟨ret, u, hu, hfinal⟩ | hfinal
    · rw [hu] at hserve
      rw [hfinal]
      exact Ram.Touches.trans hserve
        ((hrest ret u).touches.mono (Set.Subset.refl _) Set.subset_union_left)
    · rw [hfinal]
      exact hserve

/-- The object `file` of `GetFileInfo` is written in the end, the array before. -/
theorem getFileInfo_answers {filename file sector : BitVec 64} (hsector : bytesAt sector 512 ⊆ W)
    (hfile : bytesAt file 16 ⊆ W) : k.Answers env W (getFileInfo env filename file sector k) := by
  unfold getFileInfo
  refine ataRead_answers hsector fun _ => Keeps.thenStores searchRootDir_stores fun r => ?_
  cases r with
  | none => exact return_stores _
  | some f => exact Keeps.thenStores (storeWords_stores _ hfile) fun _ => return_stores _

theorem readFile_answers {file : BitVec 64} (hbuffer : ∀ f k', loadFile file k = .ok f k' →
    bytesAt buffer (f.size.setWidth 32).toInt ⊆ W) :
    k.Answers env W ((loadFile file >>= fun f => readFile env f buffer) k) := by
  have hload := loadFile_stores (W := W) file k
  cases hr : loadFile file k with
  | error e k₁ =>
    rw [hr] at hload
    rw [bind_error hr]
    exact ⟨hload.touches, fun _ _ h => nomatch h⟩
  | ok f k₁ =>
    rw [hr] at hload
    rw [bind_ok hr]
    have hcurrent : k₁.current = k.current := by
      have hrest : k₁ = { k with ram := k₁.ram } := hload.rest
      rw [hrest]
    have hanswers : k₁.Answers env W (readFile env f buffer k₁) :=
      ataRead_answers (hbuffer f k₁ hr) fun ret => return_stores (ret.signExtend 64)
    exact ⟨Ram.Touches.trans hload.touches hanswers.touches, hcurrent ▸ hanswers.confined⟩

variable {locals : Locals} {syscallId rsp arg1 arg2 arg3 : BitVec 64}

theorem sysForkKernel_touches (env : Environment) (hlength : 8 ≤ k.frames.length)
    (hr : OnStack rsp k.process.processMemory.kernelStackPageFrame)
    (h : ∀ a ∈ k.frames.take 8, bytesAt a 4096 ⊆ W) :
    k.Touches Set.univ W (final (sysForkKernel env rsp k)) := by
  have hfork : Keeps (Kernel.Touches Set.univ W) (do
      let r ← onRam (Paged.sysFork env.returnFromSysFork k.frames rsp k.process)
      modify fun k => { k with frames := r.2.2, children := r.2.1 :: k.children }
      return r.1) :=
    Keeps.next (onRam_touches (Paged.sysFork_touches _ hlength hr h)) fun _ =>
      Keeps.next (modify_touches fun _ => rfl) fun _ => return_touches _
  unfold sysForkKernel
  rw [bind_get]
  exact hfork k

end Handler

end Amaterasu
