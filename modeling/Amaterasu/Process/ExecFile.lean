import Amaterasu.File.Read
import Amaterasu.Process.ExecImage

/-! `sysExec` on a file that is found and read, and with an idle disk, on which it is. -/

namespace Amaterasu
open PageWalk Program

/-- `GetFileInfo` finds the file, `kmalloc` finds room for it, and `ReadFile` reads all of it. -/
def ReadsFile (env : Environment) (sector filename : BitVec 64) (k : Kernel) (file : File)
    (buffer : BitVec 64) (k' : Kernel) : Prop :=
  ∃ k₁ k₂ ret, getFileInfoPoll env filename sector k = .ok (some file) k₁ ∧
    kmalloc (file.size.setWidth 32) k₁ = .ok buffer k₂ ∧ buffer ≠ 0 ∧
    readFilePoll env file buffer k₂ = .ok ret k' ∧ ret.signExtend 64 = file.size

section Call
variable {env : Environment} {sector filename rsp buffer heap userStack : BitVec 64}
  {k k' : Kernel} {file : File} {f : TableFrames}

theorem sysExec_eq (h : ReadsFile env sector filename k file buffer k') :
    sysExec env sector rsp filename k = (execImage rsp buffer >>= fun _ => return true) k' := by
  obtain ⟨k₁, k₂, ret, hinfo, hmalloc, hne, hread, hret⟩ := h
  have hcomplete : ¬ret.signExtend 64 ≠ file.size := fun h => h hret
  unfold sysExec
  rw [bind_ok hinfo]
  dsimp only
  rw [bind_ok hmalloc, if_neg hne, bind_ok hread, if_neg hcomplete]

/-- With an idle device, the file is the one of the first directory entry, when the name fits. The
memory holds the directory sector and then the file. -/
theorem readsFile_idle {R W : Set (BitVec 64)} {n : Nat} {heap' : KHeap} {m : ByteMemory}
    {c : AtaCall} (hk : k.Idle) (hd : Direct R W k.ram.cr3 k.ram.mem)
    (hroot : env.partition.rootDirStartLBA.toNat < 2 ^ 28)
    (hc : c = ⟨k.current, env.partition.rootDirStartLBA.toNat, 512, sector⟩)
    (hm : m = poke k.ram.mem (c.image env.disk)) (hsector : Within (R ∩ W) sector 512)
    (hname : Within R filename (n + 1)) (hn : n ≤ 32)
    (hchars : ∀ j < n, m (filename + BitVec.ofNat 64 j).toNat ≠ 0)
    (hend : m (filename + BitVec.ofNat 64 n).toNat = 0) (hentry : m sector.toNat ≠ 0)
    (hmatch : ∀ j < n, m (filename + BitVec.ofNat 64 j).toNat =
      m (sector + BitVec.ofNat 64 j).toNat)
    (hfile : file = entryFile env m sector)
    (hsize : (file.size.setWidth 32).signExtend 64 = file.size)
    (h0 : 0 ≤ (file.size.setWidth 32).toInt) (hmost : (file.size.setWidth 32).toInt ≤ 131072)
    (hlba : (file.start.setWidth 32).toNat < 2 ^ 28)
    (hmalloc : k.heap.kmalloc (file.size.setWidth 32).toNat = some (heap', buffer.toNat))
    (hbuffer : buffer ≠ 0) (hW : Within W buffer (file.size.setWidth 32).toInt.toNat) :
    ∃ k', ReadsFile env sector filename k file buffer k' ∧
      k'.ram.mem = poke m (AtaCall.image env.disk
        ⟨k.current, (file.start.setWidth 32).toNat, (file.size.setWidth 32).toInt, buffer⟩) ∧
      k'.ram.cr3 = k.ram.cr3 ∧ k'.process = k.process := by
  have hsectorW : Within W sector 512 := fun i hi => (hsector i hi).2
  have haddressable : c.Addressable := fun _ => by
    rw [hc]
    exact ⟨hroot, show (512 : Int) ≤ 131072 by decide⟩
  obtain ⟨k₁, hrun₁, hidle₁, hmem₁, hcr₁, hrest₁⟩ := ataReadPoll_idle env hk
    (show c = ⟨k.current, env.partition.rootDirStartLBA.toNat, (512 : BitVec 32).toInt, sector⟩
      from hc) haddressable (by decide) hd hsectorW
  rw [← hm] at hmem₁
  have hd₁ : Direct R W k₁.ram.cr3 k₁.ram.mem := by
    rw [hcr₁, hmem₁, hm, hc]
    exact hd.poke fun w hw => AtaCall.image_mem hsectorW hw
  -- the search
  have hview : ∀ a ∈ R, k₁.view a.toNat = m a.toNat := fun a ha => by
    rw [← hmem₁]
    exact hd₁.view_eq ha
  have hfirst : Within R sector 32 := fun i hi => (hsector i (hi.trans (by decide))).1
  obtain ⟨k₃, hrun₃, hreads⟩ := searchRootDir_first (W := W) env hd₁.mapped hname hn hfirst
    (fun j hj => (hview _ (hname j (by omega))).trans_ne (hchars j hj))
    ((hview _ (hname n (Nat.lt_succ_self n))).trans hend)
    ((hview _ (hfirst.start (by decide))).trans_ne hentry)
    fun j hj => ((hview _ (hname j (by omega))).trans (hmatch j hj)).trans
      (hview _ (hfirst.mono hn j hj)).symm
  have hentryFile : entryFile env k₁.view sector = file := by
    rw [hfile]
    exact entryFile_congr fun j hj => hview _ (hfirst j hj)
  rw [hentryFile] at hrun₃
  have hinfo : getFileInfoPoll env filename sector k = .ok (some file) k₃ :=
    (bind_ok hrun₁).trans hrun₃
  -- the buffer
  have hheap : k₃.heap = k.heap := by
    rw [hreads.rest, hrest₁]
  let k₄ : Kernel := { k₃ with heap := heap' }
  have halloc : kmalloc (file.size.setWidth 32) k₃ = .ok buffer k₄ :=
    kmalloc_ok (hheap ▸ hmalloc)
  -- the file
  have hidle₃ := hidle₁.reads hreads
  have hidle₄ : k₄.Idle := ⟨hidle₃.fits, hidle₃.empty, hidle₃.answers⟩
  have hcurrent : k₄.current = k.current := by
    show k₃.current = _
    rw [hreads.rest, hrest₁]
  let d : AtaCall :=
    ⟨k₄.current, (file.start.setWidth 32).toNat, (file.size.setWidth 32).toInt, buffer⟩
  obtain ⟨k', hrun', -, hmem', hcr', hrest'⟩ := ataReadPoll_idle env (k := k₄) (c := d) hidle₄ rfl
    (fun _ => ⟨hlba, hmost⟩) h0 (hreads.direct hd₁) hW
  have hmem₃ : k₄.ram.mem = m := hreads.mem.trans hmem₁
  refine ⟨k', ⟨k₃, k₄, _, hinfo, halloc, hbuffer, hrun', hsize⟩, ?_, ?_, ?_⟩
  · rw [hmem', hmem₃, ← hcurrent]
  · exact hcr'.trans (hreads.touches.cr3.trans hcr₁)
  · rw [hrest']
    show k₃.process = _
    rw [hreads.rest, hrest₁]

/-- The run, when the fields that are used lie in the file: the text page gets `p_memsz` bytes of
the file from its start on. -/
theorem sysExec_done (hread : ReadsFile env sector filename k file buffer k')
    (hlayout : ExecLayout k' f userStack heap buffer rsp file.size.toNat)
    (hin : (segmentAt k'.ram.mem (programHeader k'.ram.mem buffer)).Inside
      (wordAt k'.ram.mem (buffer + ePhoff)) file.size.toNat) :
    let text := k'.process.processMemory.textSegmentPageFrame
    let s := segmentAt k'.ram.mem (programHeader k'.ram.mem buffer)
    ∃ k'', sysExec env sector rsp filename k = .ok true k'' ∧
      k'.Touches (mayRead buffer file.size.toNat) (mayWrite k' rsp) k'' ∧
      ∀ j < 4096, bytesFrom k''.ram.mem text j =
        if j < s.memsz.toNat then bytesFrom k'.ram.mem buffer (s.offset.toNat + j)
        else bytesFrom k'.ram.mem text j := by
  intro text s
  obtain ⟨hbuffer, hsize, hrsp, htext, hapart, hstack⟩ := hlayout.bounds
  obtain ⟨k'', hdone, htouch, hmem⟩ :=
    execImage_done hlayout.direct hrsp Set.subset_union_right (hlayout.within_iff.mpr hin)
  refine ⟨k'', ?_, htouch, fun j hj => ?_⟩
  · rw [sysExec_eq hread, bind_ok hdone]
    rfl
  · rw [← copied_page hin.source hbuffer htext hsize hapart]
    exact hmem _ (hstack.imp (fun h => (Nat.add_lt_add_left hj _).trans_le h)
      fun h => h.trans (Nat.le_add_right _ j))

/-- A file that is found and read is executed as an ELF file should be exactly when the
fields that are used lie in the file, the segment fits, and its bytes are where a plain copy to the
start of the page puts them. -/
theorem sysExec_loads_iff (hread : ReadsFile env sector filename k file buffer k')
    (hlayout : ExecLayout k' f userStack heap buffer rsp file.size.toNat) :
    let r := sysExec env sector rsp filename k
    let size := file.size.toNat
    let text := k'.process.processMemory.textSegmentPageFrame
    let contents := bytesFrom k'.ram.mem buffer
    let s := segmentAt k'.ram.mem (programHeader k'.ram.mem buffer)
    (k'.Touches (mayRead buffer size) (mayWrite k' rsp) (final r) ∧
      ((∃ k'', r = .ok false k'') ∨
        s.Fits size ∧ s.Held contents (bytesFrom (final r).ram.mem text))) ↔
    s.Inside (wordAt k'.ram.mem (buffer + ePhoff)) size ∧ s.Fits size ∧
      s.InPlace contents (bytesFrom k'.ram.mem text) := by
  intro r size text contents s
  by_cases hin : s.Inside (wordAt k'.ram.mem (buffer + ePhoff)) size
  · obtain ⟨k'', hr, htouch, hpage⟩ := sysExec_done hread hlayout hin
    have hrun : r = .ok true k'' := hr
    rw [hrun]
    constructor
    · rintro ⟨-, hfail | ⟨hfits, hheld⟩⟩
      · obtain ⟨_, hfalse⟩ := hfail
        cases hfalse
      · refine ⟨hin, hfits, fun i hi hj => ?_, fun i hi hj => ?_⟩
        · rw [← hheld i hi]
          exact ((hpage _ (hfits i hi).1).trans (if_pos hj)).symm
        · rw [← hheld i hi]
          exact ((hpage _ (hfits i hi).1).trans (if_neg (Nat.not_lt.mpr hj))).symm
    · rintro ⟨-, hfits, hplace⟩
      refine ⟨htouch, Or.inr ⟨hfits, fun i hi => ?_⟩⟩
      refine (hpage _ (hfits i hi).1).trans ?_
      split_ifs with hj
      · exact hplace.copied i hi hj
      · exact hplace.kept i hi (Nat.le_of_not_lt hj)
  · have hstray : k'.Strays (mayRead buffer size) (mayWrite k' rsp) (final r) := by
      obtain ⟨-, -, hrsp, -⟩ := hlayout.bounds
      have hout := fun hw => hin (hlayout.within_iff.mp hw)
      have hrun : r = (execImage rsp buffer >>= fun _ => return true) k' := sysExec_eq hread
      rw [hrun]
      exact Ram.Strays.bind (g := Kernel.ram) (execImage_strays hlayout.direct hrsp hout) fun _ =>
        return_touches _
    constructor
    · rintro ⟨htouch, -⟩
      exact absurd htouch hstray.not_touches
    · rintro ⟨hinside, -⟩
      exact absurd hinside hin

end Call

/-! ## A disk with one program -/

section Sample
variable (filesz : BitVec 64)

/-- An ELF file with a segment of 16 bytes, of which `filesz` are to be taken from the file. -/
def elfWords : List (BitVec 64) :=
  [0, 0, 0, 0, 64, 0, 0, 0, 0, 120, textPage, 0, filesz, 16, 0, 0x9090909090909090,
    0x9090909090909090]

def elfByte (i : Nat) : BitVec 8 :=
  ((elfWords filesz).getD (i / 8) 0).extractLsb' (8 * (i % 8)) 8

/-- The directory is in sector 1, with the one entry `A`. The file starts in sector 2. -/
def elfDisk (i : Nat) : BitVec 8 :=
  if 1024 ≤ i then elfByte filesz (i - 1024)
  else if i = 512 then 0x41
  else if i = 538 then 2
  else if i = 540 then 136
  else 0

def elfEnvironment : Environment := ⟨elfDisk filesz, fun _ => 0, ⟨1, 1, 2⟩, 0, smallDisplay⟩

def elfTables : TableFrames := ⟨0x204000, 0x205000, 0x206000, 0x207000, 0x208000⟩

def elfProcess : Process :=
  ⟨1, .running, ⟨0, 0, 0, 0⟩, ⟨0x201000, 0x202000, 0x203000, elfTables.l4⟩⟩

def elfSector : BitVec 64 := 0x202800
def elfBuffer : BitVec 64 := 0x100000
def elfName : BitVec 64 := 0x1f0000

@[irreducible] def elfMemory : ByteMemory :=
  fillTables (Function.update (fun _ => 0) elfName.toNat 0x41) elfTables 0x203000
    (0x201000 - 8 + pageSize)

def elfKernel : Kernel where
  ram := ⟨elfMemory, elfTables.l4, [], []⟩
  rsp0 := 0x202ff8
  heap := KHeap.kHeapInit elfBuffer.toNat
  frames := []
  ata := AtaSystem.ataInit fun _ => ⟨false, 0, 0, false, 0, 0⟩
  answers := []
  current := 1
  process := elfProcess
  children := []
  cursorX := 0
  cursorY := 0

theorem elfTables_usable : elfTables.Usable := by decide

theorem elfMemory_describes : Describes elfMemory elfTables 0x203000 0x201000 := by
  unfold elfMemory
  exact elfTables_usable.describes (by decide) (by decide)

/-- What the run changes before the program is loaded: the sector and the buffer. -/
def elfWritten : Set (BitVec 64) := range elfSector 512 ∪ range elfBuffer 136

theorem elfTables_apart {x : Nat} (hx : x < 0x204000) :
    ∀ t ∈ elfTables.toList, x < t.toNat ∨ t.toNat + 4096 ≤ x := by
  simp only [elfTables, TableFrames.toList, List.forall_mem_cons, List.not_mem_nil,
    IsEmpty.forall_iff, implies_true, and_true]
  refine ⟨?_, ?_, ?_, ?_, ?_⟩ <;>
  · left
    exact hx.trans_le (by decide)

theorem elfWritten_lt {a : BitVec 64} (ha : a ∈ elfWritten) : a.toNat < 0x202a00 := by
  rcases ha with ⟨-, h⟩ | ⟨-, h⟩
  · exact h
  · exact h.trans (by decide)

/-- The memory that the kernel maps to itself. -/
def elfLow : Set (BitVec 64) := { a | a.toNat < 5 * 2 ^ 30 }

theorem elf_direct : Direct elfLow elfWritten elfKernel.ram.cr3 elfKernel.ram.mem := by
  show Direct elfLow elfWritten elfTables.l4 elfMemory
  refine elfMemory_describes.direct ?_ fun a ha => ?_
  · rintro a (ha | ha)
    · exact ha
    · exact (elfWritten_lt ha).trans (by decide)
  · exact elfTables_apart ((elfWritten_lt ha).trans (by decide))

theorem elf_sector {m : ByteMemory} {c : AtaCall} (hc : c = ⟨1, 1, 512, elfSector⟩)
    (hm : m = poke elfMemory (c.image (elfDisk filesz))) :
    (∀ i < 512, m (elfSector.toNat + i) = elfDisk filesz (512 + i)) ∧
      ∀ x < elfSector.toNat, m x = if x = elfName.toNat then 0x41 else 0 := by
  have hlength : c.buffer.toNat + c.sizeOfBytes.toNat ≤ 2 ^ 64 := by
    rw [hc]
    decide
  constructor
  · intro i hi
    have hlt : i < c.sizeOfBytes.toNat := by
      rw [hc]
      exact hi
    have hbyte : m (c.buffer.toNat + i) = elfDisk filesz (c.lba * 512 + i) := by
      rw [hm]
      exact image_inside hlength hlt
    rw [hc] at hbyte
    exact hbyte
  · intro x hx
    rw [hm, image_outside hlength ?_]
    · unfold elfMemory
      rw [fillTables_outside fun t ht => elfTables_apart (hx.trans (by decide)) t ht,
        Function.update_apply]
    · subst hc
      rintro a ⟨ha, -⟩ rfl
      exact absurd hx (Nat.not_lt.mpr ha)

theorem elf_entryFile {m : ByteMemory}
    (hsector : ∀ i < 512, m (elfSector.toNat + i) = elfDisk filesz (512 + i)) :
    entryFile (elfEnvironment filesz) m elfSector = ⟨2, 136⟩ := by
  have hat : ∀ d < 512, ∀ a : BitVec 64, a.toNat = elfSector.toNat + d →
      m a.toNat = elfDisk filesz (512 + d) := fun d hd a ha => ha ▸ hsector d hd
  have h26 : m (elfSector + 26 + 0).toNat = 2 := hat 26 (by decide) _ (by decide)
  have h27 : m (elfSector + 26 + 1).toNat = 0 := hat 27 (by decide) _ (by decide)
  have h28 : m (elfSector + 28 + 0).toNat = 136 := hat 28 (by decide) _ (by decide)
  have h29 : m (elfSector + 28 + 1).toNat = 0 := hat 29 (by decide) _ (by decide)
  have h30 : m (elfSector + 28 + 2).toNat = 0 := hat 30 (by decide) _ (by decide)
  have h31 : m (elfSector + 28 + 3).toNat = 0 := hat 31 (by decide) _ (by decide)
  unfold entryFile
  rw [h26, h27, h28, h29, h30, h31]
  rfl

theorem elf_kmalloc : ∃ heap', elfKernel.heap.kmalloc 136 = some (heap', elfBuffer.toNat) := by
  have hsome : ((KHeap.kHeapInit 0x100000).kmalloc 136).map (·.2) = some 0x100000 := by
    decide +kernel
  obtain ⟨⟨heap', addr⟩, hrun, rfl⟩ := Option.map_eq_some_iff.mp hsome
  exact ⟨heap', hrun⟩

/-- The run up to the ELF header, with what it leaves in memory. -/
theorem elf_readsFile : ∃ k',
    ReadsFile (elfEnvironment filesz) elfSector elfName elfKernel ⟨2, 136⟩ elfBuffer k' ∧
    (∀ i < 136, k'.ram.mem (elfBuffer.toNat + i) = elfByte filesz i) ∧
    (∀ x, (∀ a ∈ elfWritten, a.toNat ≠ x) → k'.ram.mem x = elfMemory x) ∧
    k'.ram.cr3 = elfTables.l4 ∧ k'.process = elfProcess := by
  obtain ⟨c, hc⟩ : ∃ c : AtaCall, c = ⟨1, 1, 512, elfSector⟩ := ⟨_, rfl⟩
  obtain ⟨m, hm⟩ : ∃ m, m = poke elfMemory (c.image (elfDisk filesz)) := ⟨_, rfl⟩
  obtain ⟨hsector, hname⟩ := elf_sector filesz hc hm
  have hname0 : m elfName.toNat = 0x41 := by
    rw [hname _ (by decide), if_pos rfl]
  have hname1 : m (elfName + BitVec.ofNat 64 1).toNat = 0 := by
    rw [hname _ (by decide), if_neg (by decide)]
  have hsector0 : m elfSector.toNat = 0x41 := hsector 0 (by decide)
  have hlow : ∀ a : BitVec 64, a.toNat < 0x202a00 → a ∈ elfLow := fun a ha => ha.trans (by decide)
  have hwrite := range_within (a := elfSector) (n := 512) (by decide)
  have hbuffer := range_within (a := elfBuffer) (n := 136) (by decide)
  obtain ⟨heap', hmalloc⟩ := elf_kmalloc
  have hcall : c = ⟨elfKernel.current, (elfEnvironment filesz).partition.rootDirStartLBA.toNat, 512,
    elfSector⟩ := hc
  have hpoke : m = poke elfKernel.ram.mem (c.image (elfEnvironment filesz).disk) := hm
  have hidle : elfKernel.Idle :=
    ⟨⟨by decide, by decide⟩, rfl, fun b hb => absurd hb List.not_mem_nil⟩
  have hroot : (elfEnvironment filesz).partition.rootDirStartLBA.toNat < 2 ^ 28 := by
    show (1 : BitVec 32).toNat < 2 ^ 28
    decide
  have hreadable : Within elfLow elfName (1 + 1) := by
    intro i hi
    rcases Nat.lt_succ_iff_lt_or_eq.mp hi with h | rfl
    · rw [Nat.lt_one_iff.mp h]
      exact hlow _ (by decide)
    · exact hlow _ (by decide)
  have hmatch : ∀ j < 1, m (elfName + BitVec.ofNat 64 j).toNat =
      m (elfSector + BitVec.ofNat 64 j).toNat := by
    intro j hj
    rw [Nat.lt_one_iff.mp hj, BitVec.add_zero, BitVec.add_zero, hname0, hsector0]
  have hchars : ∀ j < 1, m (elfName + BitVec.ofNat 64 j).toNat ≠ 0 := by
    intro j hj
    rw [Nat.lt_one_iff.mp hj, BitVec.add_zero, hname0]
    decide
  have hentry : m elfSector.toNat ≠ 0 := by
    rw [hsector0]
    decide
  obtain ⟨k', hreads, hmem, hcr3, hprocess⟩ := readsFile_idle (k := elfKernel) (n := 1) hidle
    elf_direct hroot hcall hpoke
    (fun i hi => ⟨hlow _ (elfWritten_lt (Or.inl (hwrite i hi))), Or.inl (hwrite i hi)⟩)
    hreadable (by decide) hchars hname1 hentry hmatch (elf_entryFile filesz hsector).symm
    (by decide) (by decide) (by decide) (by decide) hmalloc (by decide)
    (fun i hi => Or.inr (hbuffer i hi))
  let d : AtaCall := ⟨1, 2, 136, elfBuffer⟩
  have hstored : k'.ram.mem = poke m (d.image (elfDisk filesz)) := hmem
  have hfits : d.buffer.toNat + d.sizeOfBytes.toNat ≤ 2 ^ 64 := by decide
  refine ⟨k', hreads, fun i hi => ?_, fun x hx => ?_, hcr3, hprocess⟩
  · have hbyte : k'.ram.mem (elfBuffer.toNat + i) = elfDisk filesz (2 * 512 + i) := by
      rw [hstored]
      exact image_inside hfits hi
    rw [hbyte]
    unfold elfDisk
    rw [if_pos (by omega), show 2 * 512 + i - 1024 = i by omega]
  · rw [hstored, image_outside hfits fun a ha => hx a (Or.inr ha), hm,
      image_outside (by rw [hc]; decide) fun a ha => hx a (Or.inl ?_)]
    rw [hc] at ha
    exact ha

theorem elf_wordAt {m : ByteMemory} (h : ∀ i < 136, m (elfBuffer.toNat + i) = elfByte filesz i)
    {j : Nat} (hj : j < 17) {la : BitVec 64} (hla : la.toNat = elfBuffer.toNat + 8 * j) :
    wordAt m la = (elfWords filesz).getD j 0 := by
  have hlow : elfBuffer.toNat < 2 ^ 32 := by decide
  unfold wordAt
  rw [← ByteMemory.readWord_writeWord_self (m := fun _ => 0) (a := 0)
    (w := (elfWords filesz).getD j 0)]
  apply ByteMemory.readWord_congr
  intro i hi
  have hadd : (la + BitVec.ofNat 64 (0 + i)).toNat = elfBuffer.toNat + (8 * j + i) := by
    rw [BitVec.toNat_add, BitVec.toNat_ofNat, hla]
    omega
  have hdiv : (8 * j + i) / 8 = j := by omega
  have hmod : (8 * j + i) % 8 = i := by omega
  rw [ByteMemory.writeWord_inside hi, hadd, h _ (by omega)]
  unfold elfByte
  rw [hdiv, hmod]

theorem elf_segment {m : ByteMemory} (h : ∀ i < 136, m (elfBuffer.toNat + i) = elfByte filesz i) :
    wordAt m (elfBuffer + ePhoff) = 64 ∧
      segmentAt m (programHeader m elfBuffer) = ⟨120, textPage, filesz, 16⟩ := by
  have hphoff : wordAt m (elfBuffer + ePhoff) = 64 := elf_wordAt filesz h (j := 4) (by decide)
    (by decide)
  refine ⟨hphoff, ?_⟩
  unfold segmentAt programHeader
  rw [hphoff, elf_wordAt filesz h (j := 9) (by decide) (by decide),
    elf_wordAt filesz h (j := 10) (by decide) (by decide),
    elf_wordAt filesz h (j := 12) (by decide) (by decide),
    elf_wordAt filesz h (j := 13) (by decide) (by decide)]
  rfl

theorem elf_layout {k' : Kernel}
    (hmem : ∀ x, (∀ a ∈ elfWritten, a.toNat ≠ x) → k'.ram.mem x = elfMemory x)
    (hcr3 : k'.ram.cr3 = elfTables.l4) (hprocess : k'.process = elfProcess) :
    ExecLayout k' elfTables 0x201000 elfBuffer elfBuffer 0x202f50 136 := by
  have htables : Describes k'.ram.mem elfTables 0x203000 0x201000 := by
    apply elfMemory_describes.congr
    intro t ht x h1 h2
    apply hmem
    rintro a ha rfl
    have := elfTables_apart ((elfWritten_lt ha).trans (by decide)) t ht
    omega
  refine ⟨hcr3, by rw [hprocess]; exact htables, ?_, ?_, ⟨le_rfl, by decide⟩, ?_⟩
  · rw [hprocess]
    simp only [List.forall_mem_cons, List.not_mem_nil, IsEmpty.forall_iff, implies_true, and_true]
    decide
  · rw [hprocess]
    decide
  · rw [hprocess]
    exact ⟨by decide, by decide⟩

end Sample

/-- With 8 bytes in the file and 16 in memory, the segment fits, but its last 8 bytes are what
follows in the file. -/
theorem sysExec_keeps_tail : ∃ k' k'',
    ReadsFile (elfEnvironment 8) elfSector elfName elfKernel ⟨2, 136⟩ elfBuffer k' ∧
    ExecLayout k' elfTables 0x201000 elfBuffer elfBuffer 0x202f50 136 ∧
    sysExec (elfEnvironment 8) elfSector 0x202f50 elfName elfKernel = .ok true k'' ∧
    let s := segmentAt k'.ram.mem (programHeader k'.ram.mem elfBuffer)
    s = ⟨120, textPage, 8, 16⟩ ∧ s.Fits 136 ∧
      ¬s.Held (bytesFrom k'.ram.mem elfBuffer) (bytesFrom k''.ram.mem 0x203000) := by
  obtain ⟨k', hread, hbytes, hmem, hcr3, hprocess⟩ := elf_readsFile 8
  have hlayout := elf_layout hmem hcr3 hprocess
  obtain ⟨hphoff, hsegment⟩ := elf_segment 8 hbytes
  obtain ⟨k'', hrun, -, hpage⟩ := sysExec_done hread hlayout (by
    rw [hphoff, hsegment]
    exact ⟨by decide, by decide, by decide, fun _ => by decide⟩)
  refine ⟨k', k'', hread, hlayout, hrun, hsegment, ?_, fun hheld => ?_⟩
  · rw [hsegment]
    exact fun i hi => ⟨by have : i < 16 := hi; show 0 + i < 4096; omega, fun h => by
      have : i < 8 := h; show 120 + i < 136; omega⟩
  · rw [hsegment] at hheld hpage
    rw [hprocess] at hpage
    have hzero := (hheld 8 (by decide)).symm.trans (hpage 8 (by decide))
    rw [if_pos (show 8 < (16 : BitVec 64).toNat by decide)] at hzero
    unfold Segment.byte at hzero
    rw [if_neg (show ¬8 < (8 : BitVec 64).toNat by decide)] at hzero
    have hnop : k'.ram.mem (elfBuffer.toNat + 128) = 0x90 := hbytes 128 (by decide)
    exact absurd (hzero.trans hnop) (by decide)

/-- With 16 bytes both in the file and in memory, the segment is loaded. -/
theorem sysExec_loads_sixteen : ∃ k',
    ReadsFile (elfEnvironment 16) elfSector elfName elfKernel ⟨2, 136⟩ elfBuffer k' ∧
    let r := sysExec (elfEnvironment 16) elfSector 0x202f50 elfName elfKernel
    let s := segmentAt k'.ram.mem (programHeader k'.ram.mem elfBuffer)
    k'.Touches (mayRead elfBuffer 136) (mayWrite k' 0x202f50) (final r) ∧
      ((∃ k'', r = .ok false k'') ∨ s.Fits 136 ∧ s.Held (bytesFrom k'.ram.mem elfBuffer)
        (bytesFrom (final r).ram.mem k'.process.processMemory.textSegmentPageFrame)) := by
  obtain ⟨k', hread, hbytes, hmem, hcr3, hprocess⟩ := elf_readsFile 16
  obtain ⟨hphoff, hsegment⟩ := elf_segment 16 hbytes
  refine ⟨k', hread, (sysExec_loads_iff hread (elf_layout hmem hcr3 hprocess)).mpr ?_⟩
  rw [hphoff, hsegment]
  refine ⟨⟨by decide, by decide, by decide, fun _ => by decide⟩, fun i hi => ?_,
    Segment.inPlace_of_plain rfl rfl _ _⟩
  have hlt : i < 16 := hi
  constructor
  · show 0 + i < 4096
    omega
  · intro _
    show 120 + i < 136
    omega

end Amaterasu
