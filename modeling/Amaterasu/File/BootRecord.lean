import Amaterasu.Kernel.Defs
import Amaterasu.Library.Regions

/-! `ParseBootRecord` of `fat.c`: the geometry of a FAT16 volume, out of its boot record. -/

namespace Amaterasu
open Region

/-- `struct FAT`. -/
structure FAT where
  startLBA : BitVec 32
deriving DecidableEq

/-- All of `struct Partition`. -/
structure FatPartition extends Partition where
  startLBA : BitVec 32
  numbersOfSectors : BitVec 32
  numbersOfReservedSectors : BitVec 16
  numbersOfFATs : BitVec 8
  sectorsOfFAT : BitVec 16
  FATs : Fin 2 → FAT
  numbersOfRootDirEntries : BitVec 16
  sectorsOfRootDir : BitVec 32

/-- What `ParseBootRecord` stores in `partitions[0]`. -/
def parseBootRecord (BRsector : ByteMemory) (startLBA : BitVec 32) : FatPartition :=
  let reservedSectors := BRsector.readShort 0x0e
  let sectorsOfFAT := BRsector.readShort 0x16
  let numbersOfFATs := BRsector 0x10
  let numbersOfRootDirEntries := BRsector.readShort 0x11
  let sectorsOfRootDir := (numbersOfRootDirEntries.setWidth 32 * 32 + 511).sdiv 512
  let dataStartLBA := startLBA + reservedSectors.setWidth 32 +
    sectorsOfFAT.setWidth 32 * numbersOfFATs.setWidth 32 + sectorsOfRootDir
  { startLBA := startLBA
    sectorsOfCluster := BRsector 0x0d
    numbersOfReservedSectors := reservedSectors
    numbersOfFATs := numbersOfFATs
    sectorsOfFAT := sectorsOfFAT
    FATs := fun i => ⟨startLBA + reservedSectors.setWidth 32 +
      sectorsOfFAT.setWidth 32 * BitVec.ofNat 32 i⟩
    numbersOfRootDirEntries := numbersOfRootDirEntries
    sectorsOfRootDir := sectorsOfRootDir
    dataStartLBA := dataStartLBA
    rootDirStartLBA := dataStartLBA - sectorsOfRootDir
    numbersOfSectors := BRsector.readInt 0x20 }

/-- Only the sector itself is looked at. -/
theorem parseBootRecord_congr {BRsector BRsector' : ByteMemory} (startLBA : BitVec 32)
    (h : ∀ j < 512, BRsector j = BRsector' j) :
    parseBootRecord BRsector startLBA = parseBootRecord BRsector' startLBA := by
  have hshort : ∀ a, a + 2 ≤ 512 → BRsector.readShort a = BRsector'.readShort a := fun a ha =>
    ByteMemory.readShort_congr fun i hi => h _ (by omega)
  have hint : BRsector.readInt 0x20 = BRsector'.readInt 0x20 :=
    ByteMemory.readInt_congr fun i hi => h _ (by omega)
  unfold parseBootRecord
  rw [hshort 0x0e (by decide), hshort 0x16 (by decide), hshort 0x11 (by decide), hint,
    h 0x10 (by decide), h 0x0d (by decide)]

/-! ## The geometry that the record describes -/

namespace BootRecord
variable (BRsector : ByteMemory)

def sectorsOfFATs : Nat := (BRsector 0x10).toNat * (BRsector.readShort 0x16).toNat

/-- `⌈32 * entries / 512⌉`. -/
def sectorsOfRootDir : Nat := (32 * (BRsector.readShort 0x11).toNat + 511) / 512

/-- The sectors before the data. -/
def sectorsOfHeader : Nat :=
  (BRsector.readShort 0x0e).toNat + sectorsOfFATs BRsector + sectorsOfRootDir BRsector

/-- All sectors of the volume. The field of 16 bits is zero when they are too many for it. -/
def totalSectors : Nat :=
  if BRsector.readShort 0x13 ≠ 0 then (BRsector.readShort 0x13).toNat
  else (BRsector.readInt 0x20).toNat

end BootRecord

/-- The reserved area, the FATs, the root directory and the data. -/
def FatPartition.regions (p : FatPartition) : List Region :=
  [⟨p.startLBA.toNat, p.numbersOfReservedSectors.toNat⟩,
    ⟨p.startLBA.toNat + p.numbersOfReservedSectors.toNat,
      p.numbersOfFATs.toNat * p.sectorsOfFAT.toNat⟩,
    ⟨p.rootDirStartLBA.toNat, p.sectorsOfRootDir.toNat⟩,
    ⟨p.dataStartLBA.toNat,
      p.startLBA.toNat + p.numbersOfSectors.toNat - p.dataStartLBA.toNat⟩]

/-- The geometry of the volume at `startLBA`, as its boot record has it. -/
structure Geometry (BRsector : ByteMemory) (startLBA : BitVec 32) (p : FatPartition) : Prop where
  rootDir : p.rootDirStartLBA.toNat = startLBA.toNat + (BRsector.readShort 0x0e).toNat +
    BootRecord.sectorsOfFATs BRsector
  data : p.dataStartLBA.toNat = p.rootDirStartLBA.toNat + BootRecord.sectorsOfRootDir BRsector
  fats : ∀ i, startLBA.toNat + (BRsector.readShort 0x0e).toNat ≤ (p.FATs i).startLBA.toNat ∧
    (p.FATs i).startLBA.toNat + (BRsector.readShort 0x16).toNat ≤ p.rootDirStartLBA.toNat
  sectors : p.numbersOfSectors.toNat = BootRecord.totalSectors BRsector
  regions : BootRecord.sectorsOfHeader BRsector ≤ BootRecord.totalSectors BRsector →
    Tile startLBA.toNat (startLBA.toNat + BootRecord.totalSectors BRsector) p.regions ∧
    p.regions.Pairwise Before ∧ ∀ r ∈ p.regions, startLBA.toNat ≤ r.start ∧
      r.start + r.length ≤ startLBA.toNat + BootRecord.totalSectors BRsector

/-- `p` records the volume at `startLBA` that has this boot record. -/
structure VolumeRecord (BRsector : ByteMemory) (startLBA : BitVec 32) (p : FatPartition) : Prop
    extends Geometry BRsector startLBA p where
  start : p.startLBA = startLBA
  sectorsOfCluster : p.sectorsOfCluster = BRsector 0x0d
  numbersOfReservedSectors : p.numbersOfReservedSectors = BRsector.readShort 0x0e
  numbersOfFATs : p.numbersOfFATs = BRsector 0x10
  sectorsOfFAT : p.sectorsOfFAT = BRsector.readShort 0x16
  startOfFATs : ∀ i, (p.FATs i).startLBA.toNat = startLBA.toNat +
    (BRsector.readShort 0x0e).toNat + (BRsector.readShort 0x16).toNat * i
  numbersOfRootDirEntries : p.numbersOfRootDirEntries = BRsector.readShort 0x11
  sectorsOfRootDir : p.sectorsOfRootDir.toNat = BootRecord.sectorsOfRootDir BRsector

/-- A sector has the fields of a boot record, and counts the sectors of the volume in the large
field. -/
structure SameVolume (BRsector sector : ByteMemory) : Prop where
  sectorsOfCluster : sector 0x0d = BRsector 0x0d
  numbersOfReservedSectors : sector.readShort 0x0e = BRsector.readShort 0x0e
  numbersOfFATs : sector 0x10 = BRsector 0x10
  numbersOfRootDirEntries : sector.readShort 0x11 = BRsector.readShort 0x11
  sectorsOfFAT : sector.readShort 0x16 = BRsector.readShort 0x16
  numbersOfSectors : (sector.readInt 0x20).toNat = BootRecord.totalSectors BRsector

section Parse
variable (BRsector : ByteMemory) (startLBA : BitVec 32)

theorem parseBootRecord_sectorsOfRootDir :
    (parseBootRecord BRsector startLBA).sectorsOfRootDir.toNat =
      BootRecord.sectorsOfRootDir BRsector := by
  let entries := (BRsector.readShort 0x11).setWidth 32 * 32 + 511
  have hlt : (BRsector.readShort 0x11).toNat < 2 ^ 16 := BitVec.isLt _
  have hentries : entries.toNat = 32 * (BRsector.readShort 0x11).toNat + 511 := by
    show ((BRsector.readShort 0x11).setWidth 32 * 32 + 511).toNat = _
    rw [BitVec.toNat_add, BitVec.toNat_mul, BitVec.toNat_setWidth]
    simp
    omega
  have hmsb : entries.msb = false := by
    rw [BitVec.msb_eq_false_iff_two_mul_lt]
    omega
  show (entries.sdiv 512).toNat = _
  rw [BitVec.sdiv_eq, hmsb]
  show (entries / 512).toNat = _
  rw [BitVec.toNat_udiv, hentries]
  rfl

theorem parseBootRecord_dataStartLBA :
    (parseBootRecord BRsector startLBA).dataStartLBA.toNat =
      (startLBA.toNat + BootRecord.sectorsOfHeader BRsector) % 2 ^ 32 := by
  have hroot := parseBootRecord_sectorsOfRootDir BRsector startLBA
  show (startLBA + (BRsector.readShort 0x0e).setWidth 32 + (BRsector.readShort 0x16).setWidth 32 *
    (BRsector 0x10).setWidth 32 + (parseBootRecord BRsector startLBA).sectorsOfRootDir).toNat = _
  unfold BootRecord.sectorsOfHeader BootRecord.sectorsOfFATs
  simp only [BitVec.toNat_add, BitVec.toNat_mul, BitVec.toNat_setWidth, hroot]
  rw [Nat.mod_eq_of_lt (a := (BRsector.readShort 0x0e).toNat) (by omega),
    Nat.mod_eq_of_lt (a := (BRsector.readShort 0x16).toNat) (by omega),
    Nat.mod_eq_of_lt (a := (BRsector 0x10).toNat) (by omega), Nat.mul_comm]
  simp [Nat.add_assoc]

theorem parseBootRecord_rootDirStartLBA :
    (parseBootRecord BRsector startLBA).rootDirStartLBA.toNat =
      (startLBA.toNat + (BRsector.readShort 0x0e).toNat +
        BootRecord.sectorsOfFATs BRsector) % 2 ^ 32 := by
  have hdata := parseBootRecord_dataStartLBA BRsector startLBA
  have hroot := parseBootRecord_sectorsOfRootDir BRsector startLBA
  have hlt : (BRsector.readShort 0x11).toNat < 2 ^ 16 := BitVec.isLt _
  show ((parseBootRecord BRsector startLBA).dataStartLBA -
    (parseBootRecord BRsector startLBA).sectorsOfRootDir).toNat = _
  rw [BitVec.toNat_sub, hdata, hroot]
  unfold BootRecord.sectorsOfHeader BootRecord.sectorsOfRootDir
  omega

theorem parseBootRecord_FATs (i : Fin 2) :
    ((parseBootRecord BRsector startLBA).FATs i).startLBA.toNat =
      (startLBA.toNat + (BRsector.readShort 0x0e).toNat +
        (BRsector.readShort 0x16).toNat * i) % 2 ^ 32 := by
  show (startLBA + (BRsector.readShort 0x0e).setWidth 32 +
    (BRsector.readShort 0x16).setWidth 32 * BitVec.ofNat 32 i).toNat = _
  simp

theorem totalSectors_eq_iff :
    (BRsector.readInt 0x20).toNat = BootRecord.totalSectors BRsector ↔
      BRsector.readShort 0x13 = 0 ∨
        (BRsector.readShort 0x13).toNat = (BRsector.readInt 0x20).toNat := by
  unfold BootRecord.totalSectors
  by_cases hsmall : BRsector.readShort 0x13 = 0
  · simp [hsmall]
  · rw [if_pos hsmall, eq_comm, or_iff_right hsmall]

/-- The two FATs that are recorded, where nothing wraps around. -/
theorem parseBootRecord_fats_iff
    (hfit : startLBA.toNat + BootRecord.sectorsOfHeader BRsector < 2 ^ 32) :
    (∀ i, startLBA.toNat + (BRsector.readShort 0x0e).toNat ≤
        ((parseBootRecord BRsector startLBA).FATs i).startLBA.toNat ∧
      ((parseBootRecord BRsector startLBA).FATs i).startLBA.toNat +
        (BRsector.readShort 0x16).toNat ≤
        startLBA.toNat + (BRsector.readShort 0x0e).toNat + BootRecord.sectorsOfFATs BRsector) ↔
      2 ≤ (BRsector 0x10).toNat ∨ BRsector.readShort 0x16 = 0 := by
  have hzero : BRsector.readShort 0x16 = 0 ↔ (BRsector.readShort 0x16).toNat = 0 :=
    BitVec.toNat_eq
  simp only [parseBootRecord_FATs, Fin.forall_fin_two, hzero]
  unfold BootRecord.sectorsOfHeader BootRecord.sectorsOfFATs at hfit
  unfold BootRecord.sectorsOfFATs
  generalize (BRsector.readShort 0x16).toNat = sectorsOfFAT at *
  generalize (BRsector 0x10).toNat = numbersOfFATs at *
  rcases Nat.lt_or_ge numbersOfFATs 2 with hfew | hmany
  · -- the second FAT is there only if it is empty
    interval_cases numbersOfFATs <;> simp <;> omega
  · have htwo : 2 * sectorsOfFAT ≤ numbersOfFATs * sectorsOfFAT := Nat.mul_le_mul_right _ hmany
    simp only [hmany, true_or, iff_true]
    simp
    omega

/-- The geometry with any count of sectors: it is the volume's just when the count is, there is room
for two FATs, and the header does not wrap around. -/
theorem geometry_counted_iff (numbersOfSectors : BitVec 32) :
    Geometry BRsector startLBA
        { parseBootRecord BRsector startLBA with numbersOfSectors := numbersOfSectors } ↔
      numbersOfSectors.toNat = BootRecord.totalSectors BRsector ∧
      (2 ≤ (BRsector 0x10).toNat ∨ BRsector.readShort 0x16 = 0) ∧
      startLBA.toNat + BootRecord.sectorsOfHeader BRsector < 2 ^ 32 := by
  have hdata := parseBootRecord_dataStartLBA BRsector startLBA
  have hroot := parseBootRecord_rootDirStartLBA BRsector startLBA
  have hheader : BootRecord.sectorsOfHeader BRsector = (BRsector.readShort 0x0e).toNat +
    BootRecord.sectorsOfFATs BRsector + BootRecord.sectorsOfRootDir BRsector := rfl
  constructor
  · rintro ⟨hrootDir, hsum, hfats, hsectors, -⟩
    have hfit : startLBA.toNat + BootRecord.sectorsOfHeader BRsector < 2 ^ 32 := by
      rw [hrootDir] at hsum
      have hlt := (parseBootRecord BRsector startLBA).dataStartLBA.isLt
      dsimp only at hsum
      omega
    refine ⟨hsectors, ?_, hfit⟩
    refine (parseBootRecord_fats_iff BRsector startLBA hfit).mp fun i => ?_
    rw [← hrootDir]
    exact hfats i
  · rintro ⟨hsectors, hfats, hfit⟩
    rw [Nat.mod_eq_of_lt hfit] at hdata
    rw [Nat.mod_eq_of_lt (by omega)] at hroot
    refine ⟨hroot, by dsimp only; omega, fun i => ?_, hsectors, fun hinside => ?_⟩
    · dsimp only
      rw [hroot]
      exact (parseBootRecord_fats_iff BRsector startLBA hfit).mpr hfats i
    · have htile : Tile startLBA.toNat (startLBA.toNat + BootRecord.totalSectors BRsector)
          (FatPartition.regions
            { parseBootRecord BRsector startLBA with numbersOfSectors := numbersOfSectors }) := by
        have hreserved : (parseBootRecord BRsector startLBA).numbersOfReservedSectors =
          BRsector.readShort 0x0e := rfl
        have hfatsize : (parseBootRecord BRsector startLBA).numbersOfFATs.toNat *
            (parseBootRecord BRsector startLBA).sectorsOfFAT.toNat =
              BootRecord.sectorsOfFATs BRsector := rfl
        have hstart : (parseBootRecord BRsector startLBA).startLBA = startLBA := rfl
        unfold FatPartition.regions
        dsimp only
        rw [hstart, hreserved, hfatsize, parseBootRecord_sectorsOfRootDir, hroot, hdata, hsectors]
        exact ⟨rfl, rfl, rfl, by dsimp only; omega, by simp only [Tile]; omega⟩
      exact ⟨htile, htile.pairwise, htile.inside⟩

/-- The parsed geometry is the volume's just when the small count of sectors is not used or agrees
with the large one, there is room for two FATs, and the header does not wrap around. -/
theorem parseBootRecord_geometry_iff :
    Geometry BRsector startLBA (parseBootRecord BRsector startLBA) ↔
      (BRsector.readShort 0x13 = 0 ∨
        (BRsector.readShort 0x13).toNat = (BRsector.readInt 0x20).toNat) ∧
      (2 ≤ (BRsector 0x10).toNat ∨ BRsector.readShort 0x16 = 0) ∧
      startLBA.toNat + BootRecord.sectorsOfHeader BRsector < 2 ^ 32 := by
  rw [← totalSectors_eq_iff]
  exact geometry_counted_iff BRsector startLBA (BRsector.readInt 0x20)

/-- What is parsed out of any sector records the volume just when the sector has the fields of its
boot record, there is room for two FATs, and the header does not wrap around. -/
theorem parseBootRecord_volumeRecord_iff (sector : ByteMemory) :
    VolumeRecord BRsector startLBA (parseBootRecord sector startLBA) ↔
      SameVolume BRsector sector ∧
      (2 ≤ (BRsector 0x10).toNat ∨ BRsector.readShort 0x16 = 0) ∧
      startLBA.toNat + BootRecord.sectorsOfHeader BRsector < 2 ^ 32 := by
  have hparse : SameVolume BRsector sector → parseBootRecord sector startLBA =
      { parseBootRecord BRsector startLBA with numbersOfSectors := sector.readInt 0x20 } :=
    fun h => by
      unfold parseBootRecord
      rw [h.sectorsOfCluster, h.numbersOfReservedSectors, h.numbersOfFATs,
        h.numbersOfRootDirEntries, h.sectorsOfFAT]
  constructor
  · intro h
    have hsame : SameVolume BRsector sector := ⟨h.sectorsOfCluster, h.numbersOfReservedSectors,
      h.numbersOfFATs, h.numbersOfRootDirEntries, h.sectorsOfFAT, h.sectors⟩
    have hgeometry := h.toGeometry
    rw [hparse hsame, geometry_counted_iff] at hgeometry
    exact ⟨hsame, hgeometry.2⟩
  · rintro ⟨hsame, hfats, hfit⟩
    rw [hparse hsame]
    refine ⟨(geometry_counted_iff _ _ _).mpr ⟨hsame.numbersOfSectors, hfats, hfit⟩, rfl, rfl, rfl,
      rfl, rfl, fun i => ?_, rfl, parseBootRecord_sectorsOfRootDir BRsector startLBA⟩
    refine (parseBootRecord_FATs BRsector startLBA i).trans (Nat.mod_eq_of_lt ?_)
    have hroom : (BRsector.readShort 0x16).toNat * i ≤ BootRecord.sectorsOfFATs BRsector := by
      unfold BootRecord.sectorsOfFATs
      rw [Nat.mul_comm]
      rcases hfats with htwo | hempty
      · exact Nat.mul_le_mul_right _ (by omega)
      · rw [hempty]
        simp
    unfold BootRecord.sectorsOfHeader at hfit
    omega

end Parse

/-- A volume of 32768 sectors, which a formatter counts in the small field. -/
def smallVolume : ByteMemory
  | 0x0c => 0x02
  | 0x0d => 0x04
  | 0x0e => 0x04
  | 0x10 => 0x02
  | 0x12 => 0x02
  | 0x14 => 0x80
  | 0x16 => 0x20
  | _ => 0

/-- Its number of sectors is parsed as 0. -/
theorem parseBootRecord_smallVolume :
    smallVolume.readShort 0x0b = 512 ∧ 63 + BootRecord.totalSectors smallVolume ≤ 2 ^ 32 ∧
      BootRecord.sectorsOfHeader smallVolume ≤ BootRecord.totalSectors smallVolume ∧
      (parseBootRecord smallVolume 63).numbersOfSectors = 0 ∧
      ¬Geometry smallVolume 63 (parseBootRecord smallVolume 63) :=
  ⟨by decide, by decide, by decide, by decide, fun h => absurd h.sectors (by decide)⟩

end Amaterasu
