import Amaterasu.Kernel.Access
import Amaterasu.Process.Exec
import Amaterasu.Process.ForkMemory

/-! The accesses of `sysExec` once the file is in its buffer: when they all stay in the buffer, in
the text frame and in the frame of registers, and that they are made otherwise. -/

namespace Amaterasu
open PageWalk Program

/-- The place of the program header that `sysExec` looks at. -/
def programHeader (m : ByteMemory) (buffer : BitVec 64) : BitVec 64 :=
  buffer + wordAt m (buffer + ePhoff)

/-- What `sysExec` accesses, given the sets for its reads and its writes. -/
structure ExecWithin (R W : Set (BitVec 64)) (m : ByteMemory) (buffer text : BitVec 64) : Prop where
  entry : Within R (buffer + eEntry) 8
  phoff : Within R (buffer + ePhoff) 8
  memsz : Within R (programHeader m buffer + pMemsz) 8
  offset : Within R (programHeader m buffer + pOffset) 8
  source : Within R (buffer + wordAt m (programHeader m buffer + pOffset))
    (wordAt m (programHeader m buffer + pMemsz)).toNat
  target : Within W text (wordAt m (programHeader m buffer + pMemsz)).toNat

section Exec
variable {R W : Set (BitVec 64)} {k : Kernel} {rsp buffer entry size offset : BitVec 64}

/-- Once the copy is made, only the registers are written. -/
theorem execReturn_touches {low : BitVec 64} (hrsp : rsp.toNat + 160 ≤ 2 ^ 64)
    (hW : range rsp 160 ⊆ W) : Keeps (Kernel.Touches R W) (do
      storeWords rsp (interruptStack (execRegisters entry))
      switchKernelStack low
      kfree buffer) := by
  refine Keeps.next (storeWords_touches _ hrsp hW) fun _ => ?_
  exact Keeps.next (modify_touches fun _ => rfl) fun _ => modify_touches fun _ => rfl

theorem execSegment_recorded (hrsp : rsp.toNat + 160 ≤ 2 ^ 64) :
    Keeps (Kernel.Touches Set.univ Set.univ) (execSegment rsp buffer entry size offset) := by
  unfold execSegment
  refine Keeps.next get_touches fun k => ?_
  refine Keeps.next (memcpy_touches (fun _ _ => trivial) fun _ _ => trivial) fun _ => ?_
  exact execReturn_touches hrsp (Set.subset_univ _)

theorem execSegment_strays (hd : Direct R W k.ram.cr3 k.ram.mem) (hrsp : rsp.toNat + 160 ≤ 2 ^ 64)
    (h : ¬(Within R (buffer + offset) size.toNat ∧
      Within W k.process.processMemory.textSegmentPageFrame size.toNat)) :
    k.Strays R W (final (execSegment rsp buffer entry size offset k)) := by
  unfold execSegment
  rw [bind_get]
  exact Ram.Strays.bind (g := Kernel.ram) (memcpy_strays hd h) fun _ =>
    execReturn_touches hrsp (Set.subset_univ _)

/-- Where an access leaves its set, the run strays. -/
theorem execImage_strays (hd : Direct R W k.ram.cr3 k.ram.mem) (hrsp : rsp.toNat + 160 ≤ 2 ^ 64)
    (h : ¬ExecWithin R W k.ram.mem buffer k.process.processMemory.textSegmentPageFrame) :
    k.Strays R W (final (execImage rsp buffer k)) := by
  have hsegment : ∀ e s o, Keeps (Kernel.Touches Set.univ Set.univ)
      (execSegment rsp buffer e s o) := fun _ _ _ => execSegment_recorded hrsp
  have hoffset : ∀ e s phdr, Keeps (Kernel.Touches Set.univ Set.univ)
      (loadWord (phdr + pOffset) >>= fun o => execSegment rsp buffer e s o) := fun e s _ =>
    Keeps.next (loadWord_touches fun _ _ => trivial) fun o => hsegment e s o
  have hmemsz : ∀ e phdr, Keeps (Kernel.Touches Set.univ Set.univ)
      (loadWord (phdr + pMemsz) >>= fun s => loadWord (phdr + pOffset) >>= fun o =>
        execSegment rsp buffer e s o) := fun e _ =>
    Keeps.next (loadWord_touches fun _ _ => trivial) fun s => hoffset e s _
  have hphoff : ∀ e, Keeps (Kernel.Touches Set.univ Set.univ)
      (loadWord (buffer + ePhoff) >>= fun p => loadWord (buffer + p + pMemsz) >>= fun s =>
        loadWord (buffer + p + pOffset) >>= fun o => execSegment rsp buffer e s o) := fun e =>
    Keeps.next (loadWord_touches fun _ _ => trivial) fun _ => hmemsz e _
  unfold execImage
  by_cases h1 : Within R (buffer + eEntry) 8
  swap
  · exact Ram.Strays.bind (g := Kernel.ram) (loadWord_strays hd h1) hphoff
  obtain ⟨k₁, hrun₁, hr₁⟩ := loadWord_reads hd h1
  refine Ram.Strays.bind_after (g := Kernel.ram) hrun₁ hr₁.touches ?_
  by_cases h2 : Within R (buffer + ePhoff) 8
  swap
  · exact Ram.Strays.bind (g := Kernel.ram) (loadWord_strays (hr₁.direct hd) h2) fun _ =>
      hmemsz _ _
  obtain ⟨k₂, hrun₂, hr₂⟩ := loadWord_reads (hr₁.direct hd) h2
  refine Ram.Strays.bind_after (g := Kernel.ram) hrun₂ hr₂.touches ?_
  rw [hr₁.mem]
  have hd₂ := hr₂.direct (hr₁.direct hd)
  have hmem₂ : k₂.ram.mem = k.ram.mem := hr₂.mem.trans hr₁.mem
  by_cases h3 : Within R (programHeader k.ram.mem buffer + pMemsz) 8
  swap
  · exact Ram.Strays.bind (g := Kernel.ram) (loadWord_strays hd₂ h3) fun _ => hoffset _ _ _
  obtain ⟨k₃, hrun₃, hr₃⟩ := loadWord_reads hd₂ h3
  refine Ram.Strays.bind_after (g := Kernel.ram) hrun₃ hr₃.touches ?_
  rw [hmem₂]
  by_cases h4 : Within R (programHeader k.ram.mem buffer + pOffset) 8
  swap
  · exact Ram.Strays.bind (g := Kernel.ram) (loadWord_strays (hr₃.direct hd₂) h4) fun _ =>
      hsegment _ _ _
  obtain ⟨k₄, hrun₄, hr₄⟩ := loadWord_reads (hr₃.direct hd₂) h4
  refine Ram.Strays.bind_after (g := Kernel.ram) hrun₄ hr₄.touches ?_
  have hall := ((hr₁.trans hr₂).trans hr₃).trans hr₄
  have hprocess : k₄.process = k.process := by
    rw [hall.rest]
  rw [hr₃.mem, hmem₂]
  apply execSegment_strays (hall.direct hd) hrsp
  rintro ⟨hsource, htarget⟩
  rw [hprocess] at htarget
  exact h ⟨h1, h2, h3, h4, hsource, htarget⟩

/-- The whole run, when every access stays in its set. -/
theorem execSegment_done (entry : BitVec 64) (hd : Direct R W k.ram.cr3 k.ram.mem)
    (hrsp : rsp.toNat + 160 ≤ 2 ^ 64) (hframe : range rsp 160 ⊆ W)
    (hsource : Within R (buffer + offset) size.toNat)
    (htarget : Within W k.process.processMemory.textSegmentPageFrame size.toNat) :
    ∃ k', execSegment rsp buffer entry size offset k = .ok () k' ∧ k.Touches R W k' ∧
      ∀ x, x < rsp.toNat ∨ rsp.toNat + 160 ≤ x → k'.ram.mem x =
        copied k.ram.mem k.process.processMemory.textSegmentPageFrame (buffer + offset)
          size.toNat x := by
  obtain ⟨r, hcopy, hmem⟩ := memcpy_direct hd hsource htarget
  have hcopyTouch := memcpy_touches hsource htarget k
  rw [hcopy] at hcopyTouch
  have hcr3 : r.cr3 = k.ram.cr3 := hcopyTouch.cr3
  have hdr : Direct R W r.cr3 r.mem := by
    rw [hcr3, hmem]
    exact hd.copied htarget
  obtain ⟨r', hstore, hkeep⟩ := storeWords_direct (k := { k with ram := r })
    (interruptStack (execRegisters entry)) hdr hrsp hframe
  have hstoreTouch := storeWords_touches (R := R) (interruptStack (execRegisters entry)) hrsp
    hframe { k with ram := r }
  rw [hstore] at hstoreTouch
  let k' : Kernel := { k with
    ram := r'
    rsp0 := k.process.processMemory.kernelStackPageFrame - 8 + pageSize
    heap := k.heap.kfree buffer.toNat }
  refine ⟨k', ?_, Ram.Touches.trans hcopyTouch hstoreTouch, fun x hx => ?_⟩
  · unfold execSegment
    rw [bind_get, bind_ok hcopy, bind_ok hstore]
    rfl
  · exact (hkeep x hx).trans (congrFun hmem x)

theorem execImage_done (hd : Direct R W k.ram.cr3 k.ram.mem) (hrsp : rsp.toNat + 160 ≤ 2 ^ 64)
    (hframe : range rsp 160 ⊆ W)
    (h : ExecWithin R W k.ram.mem buffer k.process.processMemory.textSegmentPageFrame) :
    ∃ k', execImage rsp buffer k = .ok () k' ∧ k.Touches R W k' ∧
      ∀ x, x < rsp.toNat ∨ rsp.toNat + 160 ≤ x → k'.ram.mem x =
        copied k.ram.mem k.process.processMemory.textSegmentPageFrame
          (buffer + wordAt k.ram.mem (programHeader k.ram.mem buffer + pOffset))
          (wordAt k.ram.mem (programHeader k.ram.mem buffer + pMemsz)).toNat x := by
  obtain ⟨k₁, hrun₁, hr₁⟩ := loadWord_reads hd h.entry
  obtain ⟨k₂, hrun₂, hr₂⟩ := loadWord_reads (hr₁.direct hd) h.phoff
  rw [hr₁.mem] at hrun₂
  have h₂ := hr₁.trans hr₂
  obtain ⟨k₃, hrun₃, hr₃⟩ := loadWord_reads (h₂.direct hd) h.memsz
  rw [h₂.mem] at hrun₃
  have h₃ := h₂.trans hr₃
  obtain ⟨k₄, hrun₄, hr₄⟩ := loadWord_reads (h₃.direct hd) h.offset
  rw [h₃.mem] at hrun₄
  have h₄ := h₃.trans hr₄
  have hprocess : k₄.process = k.process := by
    rw [h₄.rest]
  obtain ⟨k', hrun, htouch, hbytes⟩ := execSegment_done (k := k₄)
    (wordAt k.ram.mem (buffer + eEntry)) (h₄.direct hd) hrsp hframe h.source
    (by rw [hprocess]; exact h.target)
  refine ⟨k', ?_, Ram.Touches.trans h₄.touches htouch, fun x hx => ?_⟩
  · unfold execImage
    rw [bind_ok hrun₁, bind_ok hrun₂]
    exact ((bind_ok hrun₃).trans (bind_ok hrun₄)).trans hrun
  · rw [hbytes x hx, h₄.mem, hprocess]

end Exec
end Amaterasu
