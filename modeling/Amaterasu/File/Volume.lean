import Amaterasu.File.DriveInit
import Amaterasu.Library.FatVolume

/-! A file as `GetFileInfo` and `ReadFile` give it, against the clusters that the file allocation
table lists for it. The table's place is recorded in `partitions[0]`, and nothing reads it. -/

namespace Amaterasu
open PageWalk Program

/-- `GetFileInfo` and `ReadFile` as `sysExec` calls them; `sector` is the address of the array of
the first one. -/
def readNamed (env : Environment) (filename sector buffer : BitVec 64) :
    KernelM (Option (BitVec 32)) := do
  match ← getFileInfoPoll env filename sector with
  | none => return none
  | some file => return some (← readFilePoll env file buffer)

def FatPartition.volume (p : FatPartition) : FatVolume where
  table := (p.FATs 0).startLBA.toNat * 512
  data := p.dataStartLBA.toNat * 512
  clusterSize := p.sectorsOfCluster.toNat * 512

def firstCluster (entry : ByteMemory) : Nat := (entry.readShort 26).toNat

def fileSize (entry : ByteMemory) : Nat := (entry.readInt 28).toNat

/-- Entry `i` is the first one that starts with the name. -/
def FoundAt (disk : ByteMemory) (rootDirStartLBA : BitVec 32) (name : ByteMemory) (n i : Nat) :
    Prop :=
  Picked name (rootEntry disk rootDirStartLBA i) n ∧
    ∀ l < i, ¬Picked name (rootEntry disk rootDirStartLBA l) n

/-- The name can be read, and there is room for the sector and the file. -/
structure Rooms (R W : Set (BitVec 64)) (k : Kernel) (filename sector buffer : BitVec 64)
    (n size : Nat) : Prop where
  ready : k.Ready R W
  nameIn : Within R filename (n + 1)
  chars : ∀ j < n, bytesOf k.view filename j ≠ 0
  terminated : bytesOf k.view filename n = 0
  sectorIn : Within (R ∩ W) sector 512
  sectorEnd : sector.toNat + 512 ≤ 2 ^ 64
  apart : filename.toNat + n < sector.toNat ∨
    sector.toNat + 512 ≤ filename.toNat ∧ filename.toNat + n < 2 ^ 64
  bufferIn : Within (R ∩ W) buffer size
  bufferEnd : buffer.toNat + size ≤ 2 ^ 64

section Read
variable {env : Environment} {R W : Set (BitVec 64)} {k : Kernel}
  {filename sector buffer : BitVec 64} {n i size : Nat}

theorem Kernel.Ready.of_reads {R' W' : Set (BitVec 64)} {k' : Kernel} (h : k.Ready R W)
    (hr : k.Reads R' W' k') : k'.Ready R W := by
  refine ⟨h.idle.reads hr, ?_⟩
  rw [hr.mem, hr.touches.cr3]
  exact h.direct

/-- A name of no more than 32 characters is not compared with anything outside the sector. -/
theorem not_overruns (m : ByteMemory) (hn : n ≤ 32) (hi : i < 16) :
    ¬Overruns (searchBytes filename sector n) m filename (entryAt sector i) n := by
  rintro ⟨-, j, hj, -, hout⟩
  exact hout (sector_within hi j (hj.trans_le hn))

theorem picked_congr {name name' entry entry' : ByteMemory} (hn : n ≤ 32)
    (hname : ∀ j < n, name j = name' j) (hentry : ∀ j < 32, entry j = entry' j) :
    Picked name entry n ↔ Picked name' entry' n := by
  unfold Picked
  rw [hentry 0 (by decide)]
  refine and_congr_right fun _ => forall_congr' fun j => imp_congr_right fun hj => ?_
  rw [hname j hj, hentry j (hj.trans_le hn)]

/-- The directory as `GetFileInfo` finds it in memory, and what it answers. -/
theorem getFileInfoPoll_found (h : Rooms R W k filename sector buffer n size) (hn : n ≤ 32)
    (hroot : env.partition.rootDirStartLBA.toNat < 2 ^ 28) (hi : i < 16)
    (hfound : FoundAt env.disk env.partition.rootDirStartLBA (bytesOf k.view filename) n i)
    (hfits : env.partition.dataStartLBA.toNat + env.partition.sectorsOfCluster.toNat *
      (firstCluster (rootEntry env.disk env.partition.rootDirStartLBA i) - 2) < 2 ^ 32) :
    ∃ f k', getFileInfoPoll env filename sector k = .ok (some f) k' ∧ k'.Ready R W ∧
      DescribedBy env (rootEntry env.disk env.partition.rootDirStartLBA i) f := by
  obtain ⟨k₁, hrun₁, hidle, hdirect, -, hinside, houtside⟩ := ataReadPoll_sector env
    env.partition.rootDirStartLBA h.ready.idle h.ready.direct (fun j hj => (h.sectorIn j hj).2)
    h.sectorEnd
  have hready₁ : k₁.Ready R W := ⟨hidle, hdirect⟩
  have hname : ∀ j ≤ n, bytesOf k₁.view filename j = bytesOf k.view filename j := fun j hj => by
    have hin := h.nameIn j (Nat.lt_succ_of_le hj)
    have hlt : filename.toNat + j < 2 ^ 64 := by
      have := h.apart
      have := h.sectorEnd
      omega
    rw [bytesOf_direct hdirect hin hlt, bytesOf_direct h.ready.direct hin hlt]
    apply houtside
    have := h.apart
    omega
  have hdir : ∀ l < 16, ∀ j < 32, bytesOf k₁.view (entryAt sector l) j =
      rootEntry env.disk env.partition.rootDirStartLBA l j := fun l hl j hj => by
    have hbyte := hinside (32 * l + j) (by omega)
    rw [Nat.mod_eq_of_lt hroot] at hbyte
    rw [← bytesOf_direct hdirect (h.sectorIn _ (by omega)).1
      (by have := h.sectorEnd; omega)] at hbyte
    refine Eq.trans ?_ hbyte
    unfold bytesOf entryAt
    rw [BitVec.add_assoc, ← BitVec.ofNat_add]
  -- the search, from the length of the name on
  obtain ⟨k₂, hrun₂, hr₂⟩ := strnlength_name (W := ∅) hdirect.mapped h.nameIn
    (hn.trans (by decide)) (fun j hj => hname j hj.le ▸ h.chars j hj) (hname n le_rfl ▸ h.terminated)
  have hready₂ := hready₁.of_reads hr₂
  have hpicked : ∀ l < 16, Picked (bytesOf k₂.view filename) (bytesOf k₂.view (entryAt sector l)) n ↔
      Picked (bytesOf k.view filename)
        (rootEntry env.disk env.partition.rootDirStartLBA l) n := fun l hl => by
    rw [hr₂.view]
    exact picked_congr hn (fun j hj => hname j hj.le) (hdir l hl)
  have hmapped : Mapped (searchBytes filename sector n) k₂.ram.cr3 k₂.ram.mem := fun a ha => by
    refine hready₂.direct.mapped a ?_
    rcases ha with ⟨j, hj, rfl⟩ | ⟨j, hj, rfl⟩
    · exact (h.sectorIn j hj).1
    · exact h.nameIn j hj
  obtain ⟨k₃, hrun₃, hr₃⟩ := searchEntries_takes hmapped env hi
    (fun l hl hstop => hstop.elim
      (fun hp => hfound.2 l hl ((hpicked l (hl.trans hi)).mp hp))
      (not_overruns _ hn (hl.trans hi)))
    ((hpicked i hi).mpr hfound.1) (not_overruns _ hn hi)
  refine ⟨entryFile env k₂.view (entryAt sector i), k₃, ?_, hready₂.of_reads hr₃, ?_⟩
  · unfold getFileInfoPoll searchRootDir
    rw [bind_ok hrun₁, bind_ok hrun₂, hrun₃]
  · have hshort : (bytesOf k₂.view (entryAt sector i)).readShort 26 =
        (rootEntry env.disk env.partition.rootDirStartLBA i).readShort 26 := by
      rw [hr₂.view]
      exact ByteMemory.readShort_congr fun j hj => hdir i hi _ (by omega)
    have hint : (bytesOf k₂.view (entryAt sector i)).readInt 28 =
        (rootEntry env.disk env.partition.rootDirStartLBA i).readInt 28 := by
      rw [hr₂.view]
      exact ByteMemory.readInt_congr fun j hj => hdir i hi _ (by omega)
    exact entryFile_describedBy_iff.mpr ⟨hint, fun _ => ⟨Or.inr hshort, hfits⟩⟩

/-- `ReadFile` goes straight on from the first sector. -/
theorem readNamed_linear (h : Rooms R W k filename sector buffer n size) (hn : n ≤ 32)
    (hroot : env.partition.rootDirStartLBA.toNat < 2 ^ 28) (hi : i < 16)
    (hfound : FoundAt env.disk env.partition.rootDirStartLBA (bytesOf k.view filename) n i)
    (hsize : fileSize (rootEntry env.disk env.partition.rootDirStartLBA i) = size)
    (hmost : size ≤ 131072)
    (hfirst : 2 ≤ firstCluster (rootEntry env.disk env.partition.rootDirStartLBA i))
    (hlba : env.partition.dataStartLBA.toNat + env.partition.sectorsOfCluster.toNat *
      (firstCluster (rootEntry env.disk env.partition.rootDirStartLBA i) - 2) < 2 ^ 28) :
    ∃ k', readNamed env filename sector buffer k = .ok (some (BitVec.ofNat 32 size)) k' ∧
      ∀ j < size, bytesOf k'.view buffer j = env.disk ((env.partition.dataStartLBA.toNat +
        env.partition.sectorsOfCluster.toNat *
          (firstCluster (rootEntry env.disk env.partition.rootDirStartLBA i) - 2)) * 512 + j) := by
  obtain ⟨f, k₁, hinfo, hready, hfsize, hfstart⟩ := getFileInfoPoll_found h hn hroot hi hfound
    (hlba.trans (by decide))
  have hlength : f.size.setWidth 32 = BitVec.ofNat 32 size := by
    apply BitVec.eq_of_toNat_eq
    rw [BitVec.toNat_setWidth, hfsize, BitVec.toNat_ofNat]
    exact congrArg (· % 2 ^ 32) hsize
  have hstart : (f.start.setWidth 32).toNat = env.partition.dataStartLBA.toNat +
      env.partition.sectorsOfCluster.toNat *
        (firstCluster (rootEntry env.disk env.partition.rootDirStartLBA i) - 2) := by
    rw [BitVec.toNat_setWidth, hfstart hfirst]
    exact Nat.mod_eq_of_lt (hlba.trans (by decide))
  have hint : (BitVec.ofNat 32 size).toInt = size := by
    rw [BitVec.toInt_eq_toNat_of_lt (by rw [BitVec.toNat_ofNat]; omega), BitVec.toNat_ofNat,
      Nat.mod_eq_of_lt (by omega)]
  have hnat : (BitVec.ofNat 32 size).toInt.toNat = size := by
    rw [hint]
    exact Int.toNat_natCast size
  have hW : Within W buffer (BitVec.ofNat 32 size).toInt.toNat := by
    rw [hnat]
    exact fun j hj => (h.bufferIn j hj).2
  obtain ⟨c, hc⟩ : ∃ c : AtaCall, c = ⟨k₁.current, (f.start.setWidth 32).toNat,
    (BitVec.ofNat 32 size).toInt, buffer⟩ := ⟨_, rfl⟩
  have haddressable : c.Addressable := fun _ => by
    rw [hc]
    refine ⟨hstart ▸ hlba, ?_⟩
    show (BitVec.ofNat 32 size).toInt ≤ 131072
    omega
  obtain ⟨k', hread, -, hmem, hcr3, -⟩ := ataReadPoll_idle env hready.idle hc haddressable
    (by omega) hready.direct hW
  have hcbuffer : c.buffer = buffer := by rw [hc]
  have hcsize : c.sizeOfBytes.toNat = size := by rw [hc]; exact hnat
  have hclba : c.lba = (f.start.setWidth 32).toNat := by rw [hc]
  refine ⟨k', ?_, fun j hj => ?_⟩
  · have hfile : readFilePoll env f buffer k₁ = .ok (BitVec.ofNat 32 size) k' := by
      unfold readFilePoll
      rw [hlength]
      exact hread
    unfold readNamed
    rw [bind_ok hinfo]
    exact bind_ok hfile
  · have hdirect : Direct R W k'.ram.cr3 k'.ram.mem := by
      rw [hcr3, hmem]
      refine hready.direct.poke fun w hw => AtaCall.image_mem ?_ hw
      rw [hcbuffer, hcsize]
      exact fun j hj => (h.bufferIn j hj).2
    rw [bytesOf_direct hdirect (h.bufferIn j hj).1 (by have := h.bufferEnd; omega), hmem,
      ← hcbuffer, image_inside (by rw [hcbuffer, hcsize]; exact h.bufferEnd) (by rw [hcsize]; exact hj),
      hclba, hstart]

end Read

/-! ## Against the table -/

section Volume
variable {R W : Set (BitVec 64)} {k : Kernel} {filename sector buffer : BitVec 64} {n i : Nat}

theorem rootEntry_congr {disk disk' : ByteMemory} {lba : BitVec 32} {data : Nat}
    (hlba : lba.toNat < data) (hsame : ∀ x < data * 512, disk' x = disk x) (hi : i < 16) :
    ∀ j < 32, rootEntry disk' lba i j = rootEntry disk lba i j := fun j hj =>
  hsame _ (by omega)

/-- On a mounted volume, whatever the clusters hold: a file that is found is read as the table has
it just when each of its clusters but the last is followed by the one behind it. -/
theorem readNamed_contents_iff (env : Environment) (p : FatPartition) {BRsector : ByteMemory}
    {startLBA : BitVec 32} (henv : env.partition = p.toPartition)
    (hgeometry : Geometry BRsector startLBA p) (hentries : BRsector.readShort 0x11 ≠ 0)
    (hcluster : p.sectorsOfCluster ≠ 0) (hn : n ≤ 32) (hi : i < 16)
    (hfound : FoundAt env.disk p.rootDirStartLBA (bytesOf k.view filename) n i) :
    let entry := rootEntry env.disk p.rootDirStartLBA i
    let size := fileSize entry
    let first := firstCluster entry
    Rooms R W k filename sector buffer n size → size ≤ 131072 → 2 ≤ first →
    p.dataStartLBA.toNat + p.sectorsOfCluster.toNat * (first - 2) < 2 ^ 28 →
    first + size / p.volume.clusterSize ≤ 256 * (BRsector.readShort 0x16).toNat →
    ((∀ disk' : ByteMemory, (∀ x < p.volume.data, disk' x = env.disk x) →
      ∃ k', readNamed { env with disk := disk' } filename sector buffer k =
          .ok (some (BitVec.ofNat 32 size)) k' ∧
        ∀ j < size, bytesOf k'.view buffer j = p.volume.contents disk' first j) ↔
      p.volume.Contiguous env.disk first size) := by
  intro entry size first hrooms hmost hfirst hlba hclusters
  have hroot : p.rootDirStartLBA.toNat < p.dataStartLBA.toNat := by
    have hdata := hgeometry.data
    have hpos : 0 < (BRsector.readShort 0x11).toNat := by
      rw [Nat.pos_iff_ne_zero]
      exact fun h => hentries (BitVec.eq_of_toNat_eq h)
    unfold BootRecord.sectorsOfRootDir at hdata
    omega
  have hpos : 0 < p.volume.clusterSize := by
    have hne : p.sectorsOfCluster.toNat ≠ 0 := fun h => hcluster (BitVec.eq_of_toNat_eq h)
    unfold FatPartition.volume
    dsimp only
    omega
  have hentered : p.volume.Entered first size := fun l hl => by
    have hcount : l + 1 ≤ size / p.volume.clusterSize := by
      rw [Nat.le_div_iff_mul_le hpos, Nat.mul_comm]
      exact hl.le
    have htable := (hgeometry.fats 0).2
    show (p.FATs 0).startLBA.toNat * 512 + _ + 2 ≤ p.dataStartLBA.toNat * 512
    omega
  -- what is read on such a disk
  have hread : ∀ disk' : ByteMemory, (∀ x < p.volume.data, disk' x = env.disk x) →
      ∃ k', readNamed { env with disk := disk' } filename sector buffer k =
          .ok (some (BitVec.ofNat 32 size)) k' ∧
        ∀ j < size, bytesOf k'.view buffer j =
          disk' (p.volume.clusterStart first + j) := fun disk' hsame => by
    have hdir : ∀ l < 16, ∀ j < 32, rootEntry disk' p.rootDirStartLBA l j =
        rootEntry env.disk p.rootDirStartLBA l j := fun l hl => rootEntry_congr hroot hsame hl
    have hsize' : fileSize (rootEntry disk' p.rootDirStartLBA i) = size :=
      congrArg BitVec.toNat (ByteMemory.readInt_congr fun j hj => hdir i hi _ (by omega))
    have hfirst' : firstCluster (rootEntry disk' p.rootDirStartLBA i) = first :=
      congrArg BitVec.toNat (ByteMemory.readShort_congr fun j hj => hdir i hi _ (by omega))
    have hfound' : FoundAt disk' p.rootDirStartLBA (bytesOf k.view filename) n i :=
      ⟨(picked_congr hn (fun _ _ => rfl) (hdir i hi)).mpr hfound.1, fun l hl hp =>
        hfound.2 l hl ((picked_congr hn (fun _ _ => rfl) (hdir l (hl.trans hi))).mp hp)⟩
    have hlinear := @readNamed_linear { env with disk := disk' } R W k filename sector buffer n i size
    obtain ⟨k', hrun, hbytes⟩ := hlinear hrooms hn
      (by rw [henv]; exact (hroot.trans_le (Nat.le_add_right _ _)).trans hlba) hi
      (by rw [henv]; exact hfound') (by rw [henv]; exact hsize') hmost
      (by rw [henv]; exact hfirst' ▸ hfirst) (by rw [henv]; exact hfirst' ▸ hlba)
    refine ⟨k', hrun, fun j hj => (hbytes j hj).trans ?_⟩
    rw [henv]
    show disk' ((p.dataStartLBA.toNat + p.sectorsOfCluster.toNat *
      (firstCluster (rootEntry disk' p.rootDirStartLBA i) - 2)) * 512 + j) = _
    rw [hfirst']
    unfold FatVolume.clusterStart FatPartition.volume
    dsimp only
    rw [Nat.add_mul, Nat.mul_right_comm]
  rw [← FatVolume.contents_linear_iff hfirst hpos hentered]
  constructor
  · intro h disk' hsame j hj
    obtain ⟨k₁, hrun₁, hbytes₁⟩ := hread disk' hsame
    obtain ⟨k₂, hrun₂, hbytes₂⟩ := h disk' hsame
    cases hrun₁.symm.trans hrun₂
    exact (hbytes₁ j hj).symm.trans (hbytes₂ j hj)
  · intro h disk' hsame
    obtain ⟨k', hrun, hbytes⟩ := hread disk' hsame
    exact ⟨k', hrun, fun j hj => (hbytes j hj).trans (h disk' hsame j hj)⟩

end Volume

/-! ## A volume with one file -/

/-- A boot record, two tables and the root directory take a sector each. The file `AB` has 600 bytes
from cluster 2 on, and the cluster `second` is its other one. -/
def volumeDisk (second : BitVec 8) : ByteMemory
  | 0x0d => 1
  | 0x0e => 1
  | 0x10 => 2
  | 0x11 => 16
  | 0x16 => 1
  | 0x20 => 64
  | 0x204 => second
  | 0x600 => 0x41
  | 0x601 => 0x42
  | 0x61a => 2
  | 0x61c => 0x58
  | 0x61d => 0x02
  | _ => 0

def volumePartition (second : BitVec 8) : FatPartition :=
  parseBootRecord (sectorAt (volumeDisk second) 0) 0

def volumeEnvironment (second : BitVec 8) : Environment :=
  ⟨volumeDisk second, fun _ => 0, (volumePartition second).toPartition, 0, smallDisplay⟩

def volumeWritten : Set (BitVec 64) := { a | 0x4000 ≤ a.toNat ∧ a.toNat < 2 ^ 30 }

theorem volume_name : ∀ j ≤ 2, bytesOf directoryKernel.view 0x3008 j = oneGiB (0x3008 + j) := by
  intro j hj
  have hd : Direct { a | a.toNat < 2 ^ 30 } volumeWritten 0x1000 oneGiB :=
    oneGiB_direct fun a ha => ha
  refine bytesOf_direct hd ?_ (show 0x3008 + j < 2 ^ 64 by omega)
  show ((0x3008 : BitVec 64) + BitVec.ofNat 64 j).toNat < 2 ^ 30
  bv_omega

theorem volume_rooms : Rooms { a | a.toNat < 2 ^ 30 } volumeWritten directoryKernel 0x3008 0x4000
    0x5000 2 600 where
  ready := ⟨⟨⟨by decide, by decide⟩, rfl, fun b hb => absurd hb List.not_mem_nil⟩,
    oneGiB_direct fun a ha => ha⟩
  nameIn j hj := by
    show ((0x3008 : BitVec 64) + BitVec.ofNat 64 j).toNat < 2 ^ 30
    bv_omega
  chars j hj := by
    rw [volume_name j hj.le]
    interval_cases j <;> decide
  terminated := (volume_name 2 le_rfl).trans (by decide)
  sectorIn j hj := by
    show ((0x4000 : BitVec 64) + BitVec.ofNat 64 j).toNat < 2 ^ 30 ∧
      0x4000 ≤ ((0x4000 : BitVec 64) + BitVec.ofNat 64 j).toNat ∧
      ((0x4000 : BitVec 64) + BitVec.ofNat 64 j).toNat < 2 ^ 30
    bv_omega
  sectorEnd := by decide
  apart := by decide
  bufferIn j hj := by
    show ((0x5000 : BitVec 64) + BitVec.ofNat 64 j).toNat < 2 ^ 30 ∧
      0x4000 ≤ ((0x5000 : BitVec 64) + BitVec.ofNat 64 j).toNat ∧
      ((0x5000 : BitVec 64) + BitVec.ofNat 64 j).toNat < 2 ^ 30
    bv_omega
  bufferEnd := by decide

section Files
variable {second : BitVec 8} (hsecond : second = 3 ∨ second = 5)
include hsecond

theorem volume_entry : (volumePartition second).rootDirStartLBA = 3 ∧
    fileSize (rootEntry (volumeDisk second) 3 0) = 600 ∧
    firstCluster (rootEntry (volumeDisk second) 3 0) = 2 := by
  rcases hsecond with rfl | rfl
  · exact ⟨by decide, by decide, by decide⟩
  · exact ⟨by decide, by decide, by decide⟩

theorem volume_found :
    FoundAt (volumeDisk second) 3 (bytesOf directoryKernel.view 0x3008) 2 0 := by
  refine ⟨⟨?_, fun j hj => ?_⟩, fun l hl => absurd hl (Nat.not_lt_zero l)⟩
  · rcases hsecond with rfl | rfl <;> decide
  · rw [volume_name j hj.le]
    rcases hsecond with rfl | rfl <;> interval_cases j <;> decide

theorem volume_geometry :
    Geometry (sectorAt (volumeDisk second) 0) 0 (volumePartition second) ∧
      (sectorAt (volumeDisk second) 0).readShort 0x11 ≠ 0 ∧
      (sectorAt (volumeDisk second) 0).readShort 0x16 = 1 ∧
      (volumePartition second).sectorsOfCluster = 1 ∧
      (volumePartition second).dataStartLBA = 4 := by
  refine ⟨(geometry_counted_iff _ _ _).mpr ?_, ?_⟩
  · rcases hsecond with rfl | rfl
    · exact ⟨by decide, Or.inl (by decide), by decide⟩
    · exact ⟨by decide, Or.inl (by decide), by decide⟩
  · rcases hsecond with rfl | rfl
    · exact ⟨by decide, by decide, by decide, by decide⟩
    · exact ⟨by decide, by decide, by decide, by decide⟩

end Files

/-- With the other cluster behind the first one the file is read, with one elsewhere it is not. -/
theorem readNamed_contents_two : (∃ k', readNamed (volumeEnvironment 3) 0x3008 0x4000 0x5000
        directoryKernel = .ok (some 600) k' ∧ ∀ j < 600, bytesOf k'.view 0x5000 j =
      (volumePartition 3).volume.contents (volumeDisk 3) 2 j) ∧
    ¬∀ disk' : ByteMemory, (∀ x < (volumePartition 5).volume.data, disk' x = volumeDisk 5 x) →
      ∃ k', readNamed { volumeEnvironment 5 with disk := disk' } 0x3008 0x4000 0x5000
          directoryKernel = .ok (some 600) k' ∧ ∀ j < 600, bytesOf k'.view 0x5000 j =
        (volumePartition 5).volume.contents disk' 2 j := by
  have hiff : ∀ second, second = 3 ∨ second = 5 →
      ((∀ disk' : ByteMemory,
        (∀ x < (volumePartition second).volume.data, disk' x = volumeDisk second x) →
        ∃ k', readNamed { volumeEnvironment second with disk := disk' } 0x3008 0x4000 0x5000
            directoryKernel = .ok (some 600) k' ∧ ∀ j < 600, bytesOf k'.view 0x5000 j =
          (volumePartition second).volume.contents disk' 2 j) ↔
        (volumePartition second).volume.Contiguous (volumeDisk second) 2 600) := by
    intro second hsecond
    obtain ⟨hroot, hsize, hfirst⟩ := volume_entry hsecond
    obtain ⟨hgeometry, hentries, hfat, hcluster, hdata⟩ := volume_geometry hsecond
    have h := @readNamed_contents_iff { a | a.toNat < 2 ^ 30 } volumeWritten directoryKernel
      0x3008 0x4000 0x5000 2 0 (volumeEnvironment second) (volumePartition second) _ _ rfl
      hgeometry hentries (by rw [hcluster]; decide) (by decide) (by decide)
      (hroot.symm ▸ volume_found hsecond)
    dsimp only at h
    rw [hroot] at h
    have hdisk : (volumeEnvironment second).disk = volumeDisk second := rfl
    have hbytes : (volumePartition second).volume.clusterSize = 512 := by
      unfold FatPartition.volume
      rw [hcluster]
      rfl
    rw [hdisk, hsize, hfirst, hcluster, hdata, hfat, hbytes] at h
    exact h volume_rooms (by decide) (by decide) (by decide) (by decide)
  constructor
  · refine (hiff 3 (Or.inl rfl)).mpr ?_ (volumeDisk 3) fun x _ => rfl
    intro i hi
    have hzero : i = 0 := by
      have hi : 1 * 512 * (i + 1) < 600 := hi
      omega
    rw [hzero]
    decide
  · rw [hiff 5 (Or.inr rfl)]
    intro h
    exact absurd (h 0 (by decide)) (by decide)

end Amaterasu
