import Amaterasu.File.BootRecord
import Amaterasu.File.Directory

/-! `DriveInit` of `fat.c`. Drives are numbered as `ATAInit` numbers them: bit 0 for the secondary
bus, bit 1 for the slave. `drives` and `partitions[0]` are its result here. -/

namespace Amaterasu
open Function PageWalk Program

structure PartitionTableEntry where
  isValid : BitVec 8
  startLBA : BitVec 32
  numbersOfSectors : BitVec 32
deriving DecidableEq

structure MasterBootRecord where
  id : BitVec 32
  partitionTables : Nat → PartitionTableEntry

structure Drive where
  isValid : BitVec 8
  MBR : MasterBootRecord

/-- `drives` after `ATAInit`: what it does not store in is zero. -/
def identifiedDrives (isValid : Nat → BitVec 8) (i : Nat) : Drive :=
  ⟨isValid i, ⟨0, fun _ => ⟨0, 0, 0⟩⟩⟩

/-- The loop over the partition entries of the sector at `buffer`, from entry `partition` on. -/
def readPartitionTables (buffer : BitVec 64) (mbr : MasterBootRecord) (partition : Nat) :
    Nat → KernelM MasterBootRecord
  | 0 => return mbr
  | left + 1 => do
    let partitionTableStart := buffer + 0x1be + BitVec.ofNat 64 (16 * partition)
    if (← load partitionTableStart) ≠ 0 then
      let startLBA ← loadInt (partitionTableStart + 0x08)
      let numbersOfSectors ← loadInt (partitionTableStart + 0x0c)
      let mbr := { mbr with
        partitionTables := update mbr.partitionTables partition ⟨1, startLBA, numbersOfSectors⟩ }
      readPartitionTables buffer mbr (partition + 1) left
    else readPartitionTables buffer mbr (partition + 1) left

section Disk
variable (env : Environment)

/-- The loop over the drives, from drive `i` on. -/
def readDrives (buffer : BitVec 64) (drives : Nat → Drive) (i : Nat) :
    Nat → KernelM (Nat → Drive)
  | 0 => return drives
  | left + 1 => do
    if (drives i).isValid ≠ 0 then
      let _ ← ataReadPoll env 0 512 buffer
      let id ← loadInt (buffer + 0x1b8)
      let mbr ← readPartitionTables buffer { (drives i).MBR with id := id } 0 4
      readDrives buffer (update drives i { drives i with MBR := mbr }) (i + 1) left
    else readDrives buffer drives (i + 1) left

def driveInit (drives : Nat → Drive) : KernelM ((Nat → Drive) × FatPartition) := do
  let buffer ← kmalloc 512
  let drives ← readDrives env buffer drives 0 4
  let startLBA := ((drives 0).MBR.partitionTables 0).startLBA
  let _ ← ataReadPoll env startLBA 512 buffer
  let BRsector ← onRam (Ram.loadAll buffer 512)
  let partition := parseBootRecord BRsector startLBA
  kfree buffer
  return (drives, partition)

end Disk

/-- The drive on the primary bus that the device register selects. -/
def TaskFile.drive (t : TaskFile) : Nat := if t.device.testBit 4 then 2 else 0

/-- `ATASendRequest` selects drive 0 for every request. -/
theorem AtaRequest.taskFile_drive (request : AtaRequest) : request.taskFile.drive = 0 := by
  have hmask : (request.lba >>> 24) &&& 0x0f < 16 :=
    Nat.lt_of_le_of_lt Nat.and_le_right (by decide)
  have hsmall : ∀ x < 16, (0xe0 ||| x).testBit 4 = false := by decide
  have hbit : request.taskFile.device.testBit 4 = false := hsmall _ hmask
  unfold TaskFile.drive
  rw [hbit]
  rfl

/-! ## The records of a disk -/

namespace Sector
variable (sector : ByteMemory) (partition : Nat)

def bootIndicator : BitVec 8 := sector (0x1be + 16 * partition)

def partitionType : BitVec 8 := sector (0x1be + 16 * partition + 4)

def startLBA : BitVec 32 := sector.readInt (0x1be + 16 * partition + 0x08)

def numbersOfSectors : BitVec 32 := sector.readInt (0x1be + 16 * partition + 0x0c)

def id : BitVec 32 := sector.readInt 0x1b8

/-- The record of an entry in use. -/
def entry : PartitionTableEntry := ⟨1, startLBA sector partition, numbersOfSectors sector partition⟩

/-- The record is the one of the sector, where an entry is in use when it has a type. -/
def Parsed (mbr : MasterBootRecord) : Prop :=
  mbr.id = id sector ∧ ∀ partition < 4,
    (partitionType sector partition ≠ 0 → mbr.partitionTables partition = entry sector partition) ∧
    (partitionType sector partition = 0 → (mbr.partitionTables partition).isValid = 0)

/-- The record by the boot indicators. -/
def record (tables : Nat → PartitionTableEntry) : MasterBootRecord where
  id := id sector
  partitionTables partition :=
    if partition < 4 ∧ bootIndicator sector partition ≠ 0 then entry sector partition
    else tables partition

theorem record_congr {sector sector' : ByteMemory} (h : ∀ j < 512, sector j = sector' j)
    (tables : Nat → PartitionTableEntry) : record sector tables = record sector' tables := by
  have hint : ∀ a, a + 4 ≤ 512 → sector.readInt a = sector'.readInt a := fun a ha =>
    ByteMemory.readInt_congr fun i hi => h _ (by omega)
  unfold record id
  rw [hint _ (by decide)]
  congr 1
  funext partition
  by_cases hlt : partition < 4
  · unfold entry startLBA numbersOfSectors bootIndicator
    rw [hint _ (by omega), hint _ (by omega), h _ (by omega)]
  · simp only [hlt, false_and, if_false]

end Sector

/-- The boot record of the partition in entry 0. -/
def bootRecord (disk : ByteMemory) : ByteMemory := sectorAt disk (Sector.startLBA disk 0).toNat

/-- Each valid drive has the record of its own first sector, and the partition records the volume
in entry 0 of drive 0. -/
def Mounted (disks : Nat → ByteMemory) (isValid : Nat → BitVec 8)
    (r : (Nat → Drive) × FatPartition) : Prop :=
  (∀ i < 4, isValid i ≠ 0 → Sector.Parsed (disks i) (r.1 i).MBR) ∧
    VolumeRecord (bootRecord (disks 0)) (Sector.startLBA (disks 0) 0) r.2

/-- What is found on drive 0 by the boot indicators is what the drive itself has. -/
def FoundOnZero (own zero : ByteMemory) : Prop :=
  Sector.id own = Sector.id zero ∧ ∀ partition < 4,
    (Sector.partitionType own partition ≠ 0 ↔ Sector.bootIndicator zero partition ≠ 0) ∧
    (Sector.partitionType own partition ≠ 0 →
      Sector.startLBA own partition = Sector.startLBA zero partition ∧
      Sector.numbersOfSectors own partition = Sector.numbersOfSectors zero partition)

/-! ## Loops over a table -/

section Table
variable {α : Type} {g : Nat → α → α} {i : Nat} {table : Nat → α}

/-- The entries of a table from `i` on, one after the other. -/
def mapFrom (g : Nat → α → α) (i : Nat) : Nat → (Nat → α) → Nat → α
  | 0, table => table
  | left + 1, table => mapFrom g (i + 1) left (update table i (g i (table i)))

theorem mapFrom_skip (left : Nat) (h : g i (table i) = table i) :
    mapFrom g i (left + 1) table = mapFrom g (i + 1) left table := by
  rw [mapFrom, h, update_eq_self]

theorem mapFrom_apply (g : Nat → α → α) (i left : Nat) (table : Nat → α) (j : Nat) :
    mapFrom g i left table j = if i ≤ j ∧ j < i + left then g j (table j) else table j := by
  induction left generalizing i table with
  | zero => exact (if_neg (by omega)).symm
  | succ left ih =>
    rw [mapFrom, ih]
    by_cases hj : j = i
    · subst hj
      rw [if_neg (by omega), if_pos (by omega), update_self]
    · rw [update_of_ne hj]
      exact if_congr (by omega) rfl rfl

theorem mapFrom_zero (g : Nat → α → α) (n : Nat) (table : Nat → α) (j : Nat) :
    mapFrom g 0 n table j = if j < n then g j (table j) else table j := by
  rw [mapFrom_apply]
  exact if_congr (by omega) rfl rfl

end Table

/-- An entry of the table, once the one of the sector is read. -/
def Sector.take (sector : ByteMemory) (partition : Nat) (e : PartitionTableEntry) :
    PartitionTableEntry :=
  if Sector.bootIndicator sector partition ≠ 0 then Sector.entry sector partition else e

theorem Sector.record_eq (sector : ByteMemory) (tables : Nat → PartitionTableEntry) :
    Sector.record sector tables = ⟨Sector.id sector, mapFrom (Sector.take sector) 0 4 tables⟩ := by
  unfold Sector.record
  congr 1
  funext partition
  rw [ite_and, mapFrom_zero]
  rfl

/-- A drive, once sector 0 of the disk is read for it. -/
def Drive.read (disk : ByteMemory) (d : Drive) : Drive :=
  if d.isValid ≠ 0 then ⟨d.isValid, Sector.record disk d.MBR.partitionTables⟩ else d

/-! ## The run -/

/-- The device is idle, and the addresses are mapped to themselves. -/
structure Kernel.Ready (R W : Set (BitVec 64)) (k : Kernel) : Prop where
  idle : k.Idle
  direct : Direct R W k.ram.cr3 k.ram.mem

section Run
variable {env : Environment} {R W : Set (BitVec 64)} {k k' : Kernel} {buffer : BitVec 64}

theorem Kernel.Ready.reads (h : k.Ready R W) (hr : k.Reads R W k') : k'.Ready R W :=
  ⟨h.idle.reads hr, hr.direct h.direct⟩

section Buffer
variable (hR : Within R buffer 512) (hfits : buffer.toNat + 512 ≤ 2 ^ 64)
include hR

theorem load_at {la : BitVec 64} {d : Nat} (h : k.Ready R W) (hla : la = buffer + BitVec.ofNat 64 d)
    (hd : d < 512) : ∃ k', load la k = .ok (bytesOf k.view buffer d) k' ∧ k.Reads R W k' := by
  rw [hla]
  exact load_reads h.direct.mapped (hR d hd)

theorem loadInt_at {la : BitVec 64} {d : Nat} (h : k.Ready R W)
    (hla : la = buffer + BitVec.ofNat 64 d) (hd : d + 4 ≤ 512) :
    ∃ k', loadInt la k = .ok ((bytesOf k.view buffer).readInt d) k' ∧ k.Reads R W k' := by
  obtain ⟨k', hrun, hr⟩ := loadInt_reads (W := W) h.direct.mapped (within_add (d := d) hR hd)
  refine ⟨k', ?_, hr⟩
  have hbyte : ∀ j : Nat, k.view (buffer + BitVec.ofNat 64 d + BitVec.ofNat 64 j).toNat =
      bytesOf k.view buffer (d + j) := fun j => by
    unfold bytesOf
    rw [BitVec.add_assoc, ← BitVec.ofNat_add]
  rw [hla, hrun, show (3 : BitVec 64) = BitVec.ofNat 64 3 from rfl,
    show (2 : BitVec 64) = BitVec.ofNat 64 2 from rfl,
    show (1 : BitVec 64) = BitVec.ofNat 64 1 from rfl,
    show (0 : BitVec 64) = BitVec.ofNat 64 0 from rfl]
  simp only [hbyte]
  rfl

include hfits

theorem read_sector (env : Environment) (lba : BitVec 32) (h : k.Ready R W)
    (hW : Within W buffer 512) :
    ∃ k', ataReadPoll env lba 512 buffer k = .ok 512 k' ∧ k'.Ready R W ∧ k'.heap = k.heap ∧
      ∀ j < 512, bytesOf k'.view buffer j = sectorAt env.disk (lba.toNat % 2 ^ 28) j := by
  obtain ⟨k', hrun, hidle, hdirect, hheap, hbytes, -⟩ :=
    ataReadPoll_sector env lba h.idle h.direct hW hfits
  refine ⟨k', hrun, ⟨hidle, hdirect⟩, hheap, fun j hj => ?_⟩
  rw [bytesOf_direct hdirect (hR j hj) (by omega)]
  exact hbytes j hj

end Buffer

/-- The loop over the entries; the induction is on those that are left. -/
theorem readPartitionTables_eq (partition left : Nat) (mbr : MasterBootRecord)
    (hR : Within R buffer 512) (h : k.Ready R W) (hp : partition + left ≤ 4) :
    ∃ k', readPartitionTables buffer mbr partition left k = .ok { mbr with
      partitionTables :=
        mapFrom (Sector.take (bytesOf k.view buffer)) partition left mbr.partitionTables } k' ∧
      k.Reads R W k' := by
  induction left generalizing partition mbr k with
  | zero => exact ⟨k, rfl, Kernel.Reads.refl k⟩
  | succ left ih =>
    have hstart : buffer + 0x1be + BitVec.ofNat 64 (16 * partition) =
        buffer + BitVec.ofNat 64 (0x1be + 16 * partition) := by
      rw [BitVec.ofNat_add, ← BitVec.add_assoc]
      rfl
    have hfield : ∀ d : Nat, buffer + 0x1be + BitVec.ofNat 64 (16 * partition) + BitVec.ofNat 64 d =
        buffer + BitVec.ofNat 64 (0x1be + 16 * partition + d) := fun d => by
      rw [hstart, BitVec.add_assoc, ← BitVec.ofNat_add]
    obtain ⟨k₁, hrun₁, hr₁⟩ := load_at hR h hstart (by omega)
    rw [readPartitionTables]
    by_cases hboot : bytesOf k.view buffer (0x1be + 16 * partition) = 0
    · obtain ⟨k₂, hrun₂, hr₂⟩ := ih (partition + 1) mbr (h.reads hr₁) (by omega)
      refine ⟨k₂, ?_, hr₁.trans hr₂⟩
      refine (bind_ok hrun₁).trans ?_
      rw [if_neg (not_not.mpr hboot), hrun₂, hr₁.view, mapFrom_skip]
      exact if_neg (not_not.mpr hboot)
    · obtain ⟨k₂, hrun₂, hr₂⟩ := loadInt_at hR (h.reads hr₁) (hfield 0x08) (by omega)
      have h₂ := hr₁.trans hr₂
      obtain ⟨k₃, hrun₃, hr₃⟩ := loadInt_at hR (h.reads h₂) (hfield 0x0c) (by omega)
      have h₃ := h₂.trans hr₃
      obtain ⟨k₄, hrun₄, hr₄⟩ := ih (partition + 1) ({ mbr with
        partitionTables := update mbr.partitionTables partition
          (Sector.entry (bytesOf k.view buffer) partition) }) (h.reads h₃) (by omega)
      have htake : Sector.take (bytesOf k.view buffer) partition (mbr.partitionTables partition) =
        Sector.entry (bytesOf k.view buffer) partition := if_pos hboot
      refine ⟨k₄, ?_, h₃.trans hr₄⟩
      rw [hr₁.view] at hrun₂
      rw [h₂.view] at hrun₃
      rw [h₃.view] at hrun₄
      refine (bind_ok hrun₁).trans ?_
      rw [if_pos hboot, mapFrom, htake]
      exact (bind_ok hrun₂).trans ((bind_ok hrun₃).trans hrun₄)

/-- The loop over the drives reads sector 0 of the disk for each of them. -/
theorem readDrives_eq (env : Environment) (i left : Nat) (drives : Nat → Drive)
    (hR : Within R buffer 512) (hW : Within W buffer 512)
    (hfits : buffer.toNat + 512 ≤ 2 ^ 64) (h : k.Ready R W) :
    ∃ k', readDrives env buffer drives i left k =
        .ok (mapFrom (fun _ => Drive.read env.disk) i left drives) k' ∧
      k'.Ready R W ∧ k'.heap = k.heap := by
  induction left generalizing i drives k with
  | zero => exact ⟨k, rfl, h, rfl⟩
  | succ left ih =>
    rw [readDrives]
    by_cases hvalid : (drives i).isValid = 0
    · obtain ⟨k₁, hrun₁, hready₁, hheap₁⟩ := ih (i + 1) drives h
      refine ⟨k₁, ?_, hready₁, hheap₁⟩
      rw [if_neg (not_not.mpr hvalid), hrun₁, mapFrom_skip]
      exact if_neg (not_not.mpr hvalid)
    · obtain ⟨k₁, hrun₁, hready₁, hheap₁, hbytes⟩ := read_sector hR hfits env 0 h hW
      obtain ⟨k₂, hrun₂, hr₂⟩ := loadInt_at hR hready₁
        (show buffer + 0x1b8 = buffer + BitVec.ofNat 64 0x1b8 from rfl) (by decide)
      obtain ⟨k₃, hrun₃, hr₃⟩ := readPartitionTables_eq 0 4
        { (drives i).MBR with id := (bytesOf k₁.view buffer).readInt 0x1b8 } hR
        (hready₁.reads hr₂) (by decide)
      have hr := hr₂.trans hr₃
      have hdisk : ∀ j < 512, bytesOf k₁.view buffer j = env.disk j := fun j hj => by
        rw [hbytes j hj]
        exact congrArg env.disk (Nat.zero_add j)
      have hrecord := Sector.record_eq (bytesOf k₁.view buffer) (drives i).MBR.partitionTables
      rw [Sector.record_congr hdisk] at hrecord
      have hread : Drive.read env.disk (drives i) =
        ⟨(drives i).isValid, Sector.record env.disk (drives i).MBR.partitionTables⟩ := if_pos hvalid
      obtain ⟨k₄, hrun₄, hready₄, hheap₄⟩ := ih (i + 1) (update drives i
        ⟨(drives i).isValid, Sector.record env.disk (drives i).MBR.partitionTables⟩)
        (hready₁.reads hr)
      refine ⟨k₄, ?_, hready₄, ?_⟩
      · rw [hr₂.view] at hrun₃
        rw [if_pos hvalid, mapFrom, hread]
        rw [hrecord] at hrun₄ ⊢
        exact (bind_ok hrun₁).trans ((bind_ok hrun₂).trans ((bind_ok hrun₃).trans hrun₄))
      · rw [hheap₄, hr.rest]
        exact hheap₁

/-- `drives` after the loop. -/
def mountedDrives (disk : ByteMemory) (drives : Nat → Drive) (i : Nat) : Drive :=
  if i < 4 ∧ (drives i).isValid ≠ 0 then
    ⟨(drives i).isValid, Sector.record disk (drives i).MBR.partitionTables⟩
  else drives i

theorem driveInit_eq (env : Environment) (drives : Nat → Drive) {heap' : KHeap}
    {startLBA : BitVec 32} (hR : Within R buffer 512) (hW : Within W buffer 512)
    (hfits : buffer.toNat + 512 ≤ 2 ^ 64) (h : k.Ready R W)
    (hmalloc : k.heap.kmalloc 512 = some (heap', buffer.toNat))
    (hstart : startLBA = ((mountedDrives env.disk drives 0).MBR.partitionTables 0).startLBA) :
    ∃ k', driveInit env drives k = .ok (mountedDrives env.disk drives,
      parseBootRecord (sectorAt env.disk (startLBA.toNat % 2 ^ 28)) startLBA) k' := by
  have halloc : kmalloc 512 k = .ok buffer { k with heap := heap' } := kmalloc_ok hmalloc
  have hready : Kernel.Ready R W { k with heap := heap' } :=
    ⟨⟨h.idle.fits, h.idle.empty, h.idle.answers⟩, h.direct⟩
  obtain ⟨k₁, hrun₁, hready₁, -⟩ := readDrives_eq env 0 4 drives hR hW hfits hready
  have hdrives : mapFrom (fun _ => Drive.read env.disk) 0 4 drives =
      mountedDrives env.disk drives := by
    funext j
    unfold mountedDrives
    rw [ite_and, mapFrom_zero]
    rfl
  rw [hdrives] at hrun₁
  obtain ⟨k₂, hrun₂, hready₂, -, hbytes⟩ := read_sector hR hfits env startLBA hready₁ hW
  obtain ⟨m, k₃, hrun₃, -, hload⟩ := loadAll_reads (W := W) hready₂.direct.mapped hR
  refine ⟨{ k₃ with heap := k₃.heap.kfree buffer.toNat }, ?_⟩
  have hparse : parseBootRecord m startLBA =
      parseBootRecord (sectorAt env.disk (startLBA.toNat % 2 ^ 28)) startLBA :=
    parseBootRecord_congr startLBA fun j hj => (hload j hj).trans (hbytes j hj)
  unfold driveInit
  rw [bind_ok halloc, bind_ok hrun₁]
  dsimp only
  rw [← hstart, bind_ok hrun₂, bind_ok hrun₃, hparse]
  rfl

end Run

/-! ## What is mounted -/

theorem parsed_record_iff {own zero : ByteMemory} :
    Sector.Parsed own (Sector.record zero fun _ => ⟨0, 0, 0⟩) ↔ FoundOnZero own zero := by
  unfold Sector.Parsed FoundOnZero
  refine and_congr eq_comm (forall_congr' fun partition => imp_congr_right fun hlt => ?_)
  by_cases hboot : Sector.bootIndicator zero partition = 0
  · have hfree : (Sector.record zero fun _ => ⟨0, 0, 0⟩).partitionTables partition = ⟨0, 0, 0⟩ :=
      if_neg fun h => h.2 hboot
    rw [hfree]
    constructor
    · rintro ⟨hused, -⟩
      have hnone : Sector.partitionType own partition = 0 := by
        by_contra htype
        exact absurd (congrArg PartitionTableEntry.isValid (hused htype))
          (show ¬(0#8 = 1#8) by decide)
      exact ⟨iff_of_false (not_not.mpr hnone) (not_not.mpr hboot), fun h => absurd hnone h⟩
    · rintro ⟨hiff, -⟩
      have hnone : Sector.partitionType own partition = 0 := by
        by_contra htype
        exact hiff.mp htype hboot
      exact ⟨fun h => absurd hnone h, fun _ => rfl⟩
  · have hused : (Sector.record zero fun _ => ⟨0, 0, 0⟩).partitionTables partition =
        Sector.entry zero partition := if_pos ⟨hlt, hboot⟩
    rw [hused]
    constructor
    · rintro ⟨hown, hnone⟩
      have htype : Sector.partitionType own partition ≠ 0 := fun h =>
        absurd (hnone h) (show ¬(1#8 = 0#8) by decide)
      have hentry := (hown htype).symm
      exact ⟨iff_of_true htype hboot, fun _ => ⟨congrArg PartitionTableEntry.startLBA hentry,
        congrArg PartitionTableEntry.numbersOfSectors hentry⟩⟩
    · rintro ⟨hiff, hsame⟩
      have htype := hiff.mpr hboot
      refine ⟨fun _ => ?_, fun h => absurd h htype⟩
      unfold Sector.entry
      rw [(hsame htype).1, (hsame htype).2]

section Mount
variable {env : Environment} {R W : Set (BitVec 64)} {k : Kernel} {buffer : BitVec 64}
  {disks : Nat → ByteMemory} {isValid : Nat → BitVec 8} {heap' : KHeap}

/-- `DriveInit` mounts what is on the drives just when drive 0, which all reads go to, has by its
boot indicators what each drive has, and the sector that is read for the boot record, at 28 bits of
its address, has the fields of a boot record that `ParseBootRecord` gets right. -/
theorem driveInit_mounts_iff
    (hdisk : ∀ request : AtaRequest, env.disk = disks request.taskFile.drive)
    (h : k.Ready R W) (hR : Within R buffer 512) (hW : Within W buffer 512)
    (hfits : buffer.toNat + 512 ≤ 2 ^ 64)
    (hmalloc : k.heap.kmalloc 512 = some (heap', buffer.toNat)) (hzero : isValid 0 ≠ 0)
    (huse : Sector.partitionType (disks 0) 0 ≠ 0) :
    (∃ r k', driveInit env (identifiedDrives isValid) k = .ok r k' ∧ Mounted disks isValid r) ↔
      (∀ i < 4, isValid i ≠ 0 → FoundOnZero (disks i) (disks 0)) ∧
      SameVolume (bootRecord (disks 0))
        (sectorAt (disks 0) ((Sector.startLBA (disks 0) 0).toNat % 2 ^ 28)) ∧
      (2 ≤ (bootRecord (disks 0) 0x10).toNat ∨ (bootRecord (disks 0)).readShort 0x16 = 0) ∧
      (Sector.startLBA (disks 0) 0).toNat +
        BootRecord.sectorsOfHeader (bootRecord (disks 0)) < 2 ^ 32 := by
  have henv : env.disk = disks 0 := by
    rw [hdisk ⟨false, 0, 0, false, 0, 0⟩, AtaRequest.taskFile_drive]
  obtain ⟨k', hrun⟩ := driveInit_eq env (identifiedDrives isValid) hR hW hfits h hmalloc rfl
  rw [henv] at hrun
  have hmbr : ∀ i < 4, isValid i ≠ 0 →
      (mountedDrives (disks 0) (identifiedDrives isValid) i).MBR =
        Sector.record (disks 0) fun _ => ⟨0, 0, 0⟩ := fun i hi hvalid => by
    unfold mountedDrives
    rw [if_pos ⟨hi, hvalid⟩]
    rfl
  have hparsed : (∀ i < 4, isValid i ≠ 0 → Sector.Parsed (disks i)
        (mountedDrives (disks 0) (identifiedDrives isValid) i).MBR) ↔
      ∀ i < 4, isValid i ≠ 0 → FoundOnZero (disks i) (disks 0) :=
    forall_congr' fun i => imp_congr_right fun hi => imp_congr_right fun hvalid => by
      rw [hmbr i hi hvalid, parsed_record_iff]
  -- the start that is used is the start in the entry, once the boot indicator is set
  have hstart : FoundOnZero (disks 0) (disks 0) →
      ((mountedDrives (disks 0) (identifiedDrives isValid) 0).MBR.partitionTables 0).startLBA =
        Sector.startLBA (disks 0) 0 := fun hfound => by
    have hboot : Sector.bootIndicator (disks 0) 0 ≠ 0 := (hfound.2 0 (by decide)).1.mp huse
    have hentry : (Sector.record (disks 0) fun _ => ⟨0, 0, 0⟩).partitionTables 0 =
      Sector.entry (disks 0) 0 := if_pos ⟨by decide, hboot⟩
    rw [hmbr 0 (by decide) hzero, hentry]
    rfl
  constructor
  · rintro ⟨r, k'', hrun', hdrives, hpartition⟩
    rw [hrun] at hrun'
    cases hrun'
    have hfound := hparsed.mp hdrives
    rw [hstart (hfound 0 (by decide) hzero), parseBootRecord_volumeRecord_iff] at hpartition
    exact ⟨hfound, hpartition⟩
  · rintro ⟨hfound, hpartition⟩
    refine ⟨_, k', hrun, hparsed.mpr hfound, ?_⟩
    rw [hstart (hfound 0 (by decide) hzero), parseBootRecord_volumeRecord_iff]
    exact hpartition

end Mount
/-! ## Disks with one partition -/

/-- The one partition starts in sector 63 and has 65536 sectors; `active` is its boot indicator. -/
def partitionedDisk (active : BitVec 8) : ByteMemory
  | 0x1be => active
  | 0x1c2 => 0x06
  | 0x1c6 => 63
  | 0x1cc => 1
  -- the boot record
  | 0x7e0c => 0x02
  | 0x7e0d => 0x04
  | 0x7e0e => 0x04
  | 0x7e10 => 0x02
  | 0x7e12 => 0x02
  | 0x7e16 => 0x40
  | 0x7e22 => 0x01
  | _ => 0

def partitionedEnvironment (active : BitVec 8) : Environment :=
  ⟨partitionedDisk active, fun _ => 0, ⟨0, 0, 0⟩, 0, smallDisplay⟩

theorem directoryKernel_ready :
    directoryKernel.Ready { a | a.toNat < 2 ^ 30 } (range 0x100000 512) where
  idle := ⟨⟨by decide, by decide⟩, rfl, fun b hb => absurd hb List.not_mem_nil⟩
  direct := oneGiB_direct fun a ha =>
    ⟨le_trans (by decide) ha.1, ha.2.trans (by decide)⟩

theorem directoryKernel_buffer : Within (range (0x100000 : BitVec 64) 512) 0x100000 512 :=
  range_within (by decide)

theorem directoryKernel_kmalloc :
    ∃ heap', directoryKernel.heap.kmalloc 512 = some (heap', (0x100000 : BitVec 64).toNat) := by
  have hsome : ((KHeap.kHeapInit 0x100000).kmalloc 512).map (·.2) = some 0x100000 := by
    decide +kernel
  obtain ⟨⟨heap', addr⟩, hrun, rfl⟩ := Option.map_eq_some_iff.mp hsome
  exact ⟨heap', hrun⟩

/-- Four equal drives with an active partition are mounted. -/
theorem driveInit_mounts_active : ∃ r k',
    driveInit (partitionedEnvironment 0x80) (identifiedDrives fun _ => 1) directoryKernel =
      .ok r k' ∧
    Mounted (fun _ => partitionedDisk 0x80) (fun _ => 1) r := by
  obtain ⟨heap', hmalloc⟩ := directoryKernel_kmalloc
  refine (driveInit_mounts_iff (fun _ => rfl) directoryKernel_ready
    (fun j hj => (directoryKernel_buffer j hj).2.trans (by decide)) directoryKernel_buffer
    (by decide) hmalloc (by decide) (by decide)).mpr
    ⟨fun i _ _ => ⟨rfl, fun partition hlt => ?_⟩, ?_, Or.inl (by decide), by decide⟩
  · interval_cases partition <;> decide
  · exact ⟨by decide, by decide, by decide, by decide, by decide, by decide⟩

/-- A single drive whose partition is not active is not mounted. -/
theorem driveInit_skips_inactive :
    Sector.partitionType (partitionedDisk 0x00) 0 = 0x06 ∧
    ¬∃ r k', driveInit (partitionedEnvironment 0x00)
        (identifiedDrives fun i => if i = 0 then 1 else 0) directoryKernel = .ok r k' ∧
      Mounted (fun _ => partitionedDisk 0x00) (fun i => if i = 0 then 1 else 0) r := by
  refine ⟨by decide, ?_⟩
  rintro ⟨r, k', hrun, hparsed, -⟩
  obtain ⟨heap', hmalloc⟩ := directoryKernel_kmalloc
  obtain ⟨k'', hrun'⟩ := driveInit_eq (partitionedEnvironment 0x00)
    (identifiedDrives fun i => if i = 0 then 1 else 0)
    (fun j hj => (directoryKernel_buffer j hj).2.trans (by decide)) directoryKernel_buffer
    (by decide) directoryKernel_ready hmalloc rfl
  rw [hrun] at hrun'
  cases hrun'
  have hentry := ((hparsed 0 (by decide) (by decide)).2 0 (by decide)).1 (by decide)
  exact absurd (congrArg PartitionTableEntry.isValid hentry) (by decide)

end Amaterasu
