import Amaterasu.Process.ExecBounds

/-! What `sysExec` makes of an ELF file: when its accesses stay in bounds and the text frame ends up
with the program image. The length of the copy is `p_memsz`, the size of the segment in memory,
and its target the start of the frame, wherever the segment belongs. -/

namespace Amaterasu
open PageWalk Program

/-- The linear address of the text page. -/
def textPage : BitVec 64 := 0xffffffffffffe000

/-- The fields of the first program header that say where the segment is. -/
structure Segment where
  offset : BitVec 64
  vaddr : BitVec 64
  filesz : BitVec 64
  memsz : BitVec 64

def segmentAt (m : ByteMemory) (phdr : BitVec 64) : Segment where
  offset := wordAt m (phdr + pOffset)
  vaddr := wordAt m (phdr + pVaddr)
  filesz := wordAt m (phdr + pFilesz)
  memsz := wordAt m (phdr + pMemsz)

namespace Segment

/-- The place of the segment in the text page. -/
def place (s : Segment) : Nat := (s.vaddr - textPage).toNat

/-- The bytes of the segment, in the file or after it. -/
def length (s : Segment) : Nat := max s.filesz.toNat s.memsz.toNat

/-- Byte `i` of the segment, where `file` is the contents of the file. -/
def byte (s : Segment) (file : Nat → BitVec 8) (i : Nat) : BitVec 8 :=
  if i < s.filesz.toNat then file (s.offset.toNat + i) else 0

/-- The segment lies in the text page, and its bytes in a file of the given size. -/
def Fits (s : Segment) (size : Nat) : Prop :=
  ∀ i < s.length, s.place + i < 4096 ∧ (i < s.filesz.toNat → s.offset.toNat + i < size)

/-- The page holds the segment at its place. -/
def Held (s : Segment) (file page : Nat → BitVec 8) : Prop :=
  ∀ i < s.length, page (s.place + i) = s.byte file i

/-- Every byte of the segment is found at its place: among the `p_memsz` bytes of the file that
start with the segment, or in the page behind that many bytes. -/
structure InPlace (s : Segment) (file page : Nat → BitVec 8) : Prop where
  copied : ∀ i < s.length, s.place + i < s.memsz.toNat →
    file (s.offset.toNat + (s.place + i)) = s.byte file i
  kept : ∀ i < s.length, s.memsz.toNat ≤ s.place + i → page (s.place + i) = s.byte file i

/-- The ordinary case: the segment starts the page and is as long in the file as in memory. -/
theorem inPlace_of_plain {s : Segment} (hplace : s.vaddr = textPage) (hsize : s.filesz = s.memsz)
    (file page : Nat → BitVec 8) : s.InPlace file page := by
  have hlength : s.length = s.memsz.toNat := by
    unfold length
    rw [hsize, Nat.max_self]
  have hzero : s.place = 0 := by
    unfold place
    rw [hplace, BitVec.sub_self]
    rfl
  constructor
  · intro i hi _
    unfold byte
    rw [hzero, Nat.zero_add, if_pos (by rw [hsize]; omega)]
  · intro i hi hlow
    omega

end Segment

/-- The bytes from `a` on. -/
def bytesFrom (m : ByteMemory) (a : BitVec 64) (i : Nat) : BitVec 8 := m (a.toNat + i)

/-- The header fields that `sysExec` looks at are in the file, and so is what it copies. -/
structure Segment.Inside (s : Segment) (phoff : BitVec 64) (size : Nat) : Prop where
  header : 40 ≤ size
  memsz : (phoff + pMemsz).toNat + 8 ≤ size
  offset : (phoff + pOffset).toNat + 8 ≤ size
  source : s.memsz ≠ 0 → s.offset.toNat + s.memsz.toNat ≤ size

/-- Where everything is when `sysExec` has read the file of `size` bytes into `buffer`. -/
structure ExecLayout (k : Kernel) (f : TableFrames) (userStack heap buffer rsp : BitVec 64)
    (size : Nat) : Prop where
  cr3 : k.ram.cr3 = f.l4
  tables : Describes k.ram.mem f k.process.processMemory.textSegmentPageFrame userStack
  frames : ∀ a ∈ [heap, k.process.processMemory.textSegmentPageFrame,
    k.process.processMemory.kernelStackPageFrame], IsFrame a ∧ a.toNat + 4096 ≤ 5 * 2 ^ 30
  nodup : ([heap, k.process.processMemory.textSegmentPageFrame,
    k.process.processMemory.kernelStackPageFrame] ++ f.toList).Nodup
  buffer : heap.toNat ≤ buffer.toNat ∧ buffer.toNat + size ≤ heap.toNat + 4096
  onStack : OnStack rsp k.process.processMemory.kernelStackPageFrame

section Layout
variable {k : Kernel} {f : TableFrames} {userStack heap buffer rsp : BitVec 64} {size : Nat}

/-- The sets that `sysExec` should keep to. -/
def mayRead (buffer : BitVec 64) (size : Nat) : Set (BitVec 64) := range buffer size
def mayWrite (k : Kernel) (rsp : BitVec 64) : Set (BitVec 64) :=
  range k.process.processMemory.textSegmentPageFrame 4096 ∪ range rsp 160

/-- The kernel reaches the low addresses as they are, as long as the tables are not written. -/
theorem Describes.direct {m : ByteMemory} {text : BitVec 64} {R W : Set (BitVec 64)}
    (h : Describes m f text userStack) (hlow : ∀ a ∈ R ∪ W, a.toNat < 5 * 2 ^ 30)
    (hW : ∀ a ∈ W, ∀ t ∈ f.toList, a.toNat < t.toNat ∨ t.toNat + 4096 ≤ a.toNat) :
    Direct R W f.l4 m := by
  intro m' hm' a ha
  have hd : Describes m' f text userStack := by
    apply h.congr
    intro t ht x h1 h2
    apply hm'
    rintro b hb rfl
    have := hW b hb t ht
    omega
  unfold physical
  rw [hd.walk_eq]
  unfold addressSpace
  rw [if_pos (hlow a ha)]
  rfl

theorem ExecLayout.direct (h : ExecLayout k f userStack heap buffer rsp size) :
    Direct (mayRead buffer size) (mayWrite k rsp) k.ram.cr3 k.ram.mem := by
  have hframes := h.frames
  simp only [List.forall_mem_cons, List.not_mem_nil, IsEmpty.forall_iff, implies_true,
    and_true] at hframes
  obtain ⟨⟨hheap, hheapLow⟩, ⟨htext, htextLow⟩, ⟨hstack, hstackLow⟩⟩ := hframes
  have hne := (List.nodup_append.mp h.nodup).2.2
  obtain ⟨habove, hbelow⟩ := h.onStack
  obtain ⟨hbuffer, hbufferEnd⟩ := h.buffer
  rw [h.cr3]
  refine h.tables.direct ?_ ?_
  · rintro a (⟨h1, h2⟩ | ⟨h1, h2⟩ | ⟨h1, h2⟩) <;> omega
  · intro a ha t ht
    have htable := h.tables.frames t ht
    rcases ha with ⟨h1, h2⟩ | ⟨h1, h2⟩
    · rcases htable.apart htext (hne _ (by simp) t ht).symm with hap | hap <;> omega
    · rcases htable.apart hstack (hne _ (by simp) t ht).symm with hap | hap <;> omega

theorem ExecLayout.bounds (h : ExecLayout k f userStack heap buffer rsp size) :
    let text := k.process.processMemory.textSegmentPageFrame
    buffer.toNat + size < 2 ^ 64 ∧ size ≤ 4096 ∧ rsp.toNat + 160 ≤ 2 ^ 64 ∧
      text.toNat + 4096 ≤ 2 ^ 64 ∧
      (text.toNat + 4096 ≤ buffer.toNat ∨ buffer.toNat + size ≤ text.toNat) ∧
      (text.toNat + 4096 ≤ rsp.toNat ∨ rsp.toNat + 160 ≤ text.toNat) := by
  intro text
  have hframes := h.frames
  simp only [List.forall_mem_cons, List.not_mem_nil, IsEmpty.forall_iff, implies_true,
    and_true] at hframes
  obtain ⟨⟨hheap, hheapLow⟩, ⟨htext, htextLow⟩, ⟨hstack, hstackLow⟩⟩ := hframes
  have hne := (List.nodup_append.mp h.nodup).1
  simp only [List.nodup_cons, List.mem_cons, List.not_mem_nil, not_or, or_false] at hne
  obtain ⟨habove, hbelow⟩ := h.onStack
  obtain ⟨hlow, hhigh⟩ := h.buffer
  have hapart : text.toNat + 4096 ≤ heap.toNat ∨ heap.toNat + 4096 ≤ text.toNat :=
    htext.apart hheap (Ne.symm hne.1.1)
  have hstackApart : text.toNat + 4096 ≤ k.process.processMemory.kernelStackPageFrame.toNat ∨
      k.process.processMemory.kernelStackPageFrame.toNat + 4096 ≤ text.toNat :=
    htext.apart hstack hne.2.1
  exact ⟨by omega, by omega, by omega, htextLow.trans (by decide), by omega, by omega⟩

theorem within_range_iff {a d : BitVec 64} {n : Nat} (ha : a.toNat + size < 2 ^ 64) (hn : 0 < n) :
    Within (range a size) (a + d) n ↔ d.toNat + n ≤ size := by
  have hd := d.isLt
  constructor
  · intro h
    have hfirst : d.toNat < size := by
      obtain ⟨h1, h2⟩ := h 0 hn
      rw [BitVec.toNat_add, BitVec.toNat_add, BitVec.toNat_ofNat] at h1 h2
      omega
    by_contra hlong
    obtain ⟨h1, h2⟩ := h (size - d.toNat) (by omega)
    rw [BitVec.toNat_add, BitVec.toNat_add, BitVec.toNat_ofNat] at h2
    omega
  · intro h i hi
    have hadd : (a + d + BitVec.ofNat 64 i).toNat = a.toNat + d.toNat + i := by
      rw [BitVec.toNat_add, BitVec.toNat_add, BitVec.toNat_ofNat]
      omega
    exact ⟨by omega, by omega⟩

variable {m : ByteMemory} {text : BitVec 64} {W : Set (BitVec 64)}

/-- Staying in bounds, in terms of the header fields. -/
theorem execWithin_iff (hbuffer : buffer.toNat + size < 2 ^ 64) (hsize : size ≤ 4096)
    (htext : text.toNat + 4096 ≤ 2 ^ 64) (hW : range text 4096 ⊆ W) :
    ExecWithin (mayRead buffer size) W m buffer text ↔
      (segmentAt m (programHeader m buffer)).Inside (wordAt m (buffer + ePhoff)) size := by
  have hfield : ∀ d : BitVec 64, Within (mayRead buffer size) (programHeader m buffer + d) 8 ↔
      (wordAt m (buffer + ePhoff) + d).toNat + 8 ≤ size := by
    intro d
    rw [← within_range_iff hbuffer (by decide), ← BitVec.add_assoc]
    rfl
  have hentry : Within (mayRead buffer size) (buffer + eEntry) 8 ↔ 32 ≤ size :=
    within_range_iff hbuffer (by decide)
  have hphoff : Within (mayRead buffer size) (buffer + ePhoff) 8 ↔ 40 ≤ size :=
    within_range_iff hbuffer (by decide)
  constructor
  · intro h
    refine ⟨hphoff.mp h.phoff, (hfield _).mp h.memsz, (hfield _).mp h.offset, fun hne => ?_⟩
    exact (within_range_iff hbuffer (Nat.pos_of_ne_zero fun h0 =>
      hne (BitVec.eq_of_toNat_eq h0))).mp h.source
  · intro h
    have hheader := h.header
    let s := segmentAt m (programHeader m buffer)
    have hshort : s.memsz ≠ 0 → s.offset.toNat + s.memsz.toNat ≤ size := h.source
    have hzero : s.memsz = 0 → s.memsz.toNat = 0 := fun h0 => by rw [h0]; rfl
    refine ⟨hentry.mpr (by omega), hphoff.mpr hheader, (hfield _).mpr h.memsz,
      (hfield _).mpr h.offset, ?_, ?_⟩
    · show Within (mayRead buffer size) (buffer + s.offset) s.memsz.toNat
      by_cases h0 : s.memsz = 0
      · rw [hzero h0]
        exact fun i hi => absurd hi (Nat.not_lt_zero i)
      · exact (within_range_iff hbuffer (Nat.pos_of_ne_zero fun hn =>
          h0 (BitVec.eq_of_toNat_eq hn))).mpr (hshort h0)
    · intro i hi
      have hlt : i < s.memsz.toNat := hi
      have hn : s.memsz.toNat ≤ size := by
        by_cases h0 : s.memsz = 0
        · rw [hzero h0]
          exact Nat.zero_le size
        · exact (Nat.le_add_left _ _).trans (hshort h0)
      have hadd : (text + BitVec.ofNat 64 i).toNat = text.toNat + i := toNat_add_ofNat (by omega)
      exact hW ⟨by omega, by omega⟩

theorem ExecLayout.within_iff (h : ExecLayout k f userStack heap buffer rsp size) :
    ExecWithin (mayRead buffer size) (mayWrite k rsp) k.ram.mem buffer
        k.process.processMemory.textSegmentPageFrame ↔
      (segmentAt k.ram.mem (programHeader k.ram.mem buffer)).Inside
        (wordAt k.ram.mem (buffer + ePhoff)) size := by
  obtain ⟨hbuffer, hsize, -, htext, -⟩ := h.bounds
  exact execWithin_iff hbuffer hsize htext Set.subset_union_left

/-- The text page after the copy, for a segment inside the file. -/
theorem copied_page {s : Segment} {j : Nat}
    (hsource : s.memsz ≠ 0 → s.offset.toNat + s.memsz.toNat ≤ size)
    (hbuffer : buffer.toNat + size < 2 ^ 64) (htext : text.toNat + 4096 ≤ 2 ^ 64)
    (hsize : size ≤ 4096)
    (hapart : text.toNat + 4096 ≤ buffer.toNat ∨ buffer.toNat + size ≤ text.toNat) :
    bytesFrom (copied m text (buffer + s.offset) s.memsz.toNat) text j =
      if j < s.memsz.toNat then bytesFrom m buffer (s.offset.toNat + j)
      else bytesFrom m text j := by
  by_cases h0 : s.memsz = 0
  · have hzero : s.memsz.toNat = 0 := by rw [h0]; rfl
    rw [hzero, if_neg (Nat.not_lt_zero j)]
    rfl
  · have hshort := hsource h0
    have hadd : (buffer + s.offset).toNat = buffer.toNat + s.offset.toNat := by
      rw [BitVec.toNat_add]
      omega
    unfold bytesFrom
    rw [copied_eq (by omega) (by omega), hadd]
    split_ifs with hj
    · rw [ByteMemory.copy_inside (by omega) hj, Nat.add_assoc]
    · exact ByteMemory.copy_outside (by omega)

end Layout

end Amaterasu
