import Amaterasu.Library.BitField
import Amaterasu.Library.ByteMemory

/-! The table entries of `paging.h` and `CalcPhyAddr` of `paging.c`. A bit-field struct is a
64-bit word whose first field is the lowest; tables are read at physical addresses. A bit-field
of 40 bits is shifted as a 40-bit integer, as gcc does it. -/

namespace Amaterasu

/-! ## Entry layouts -/

/-- The fields at one place in every entry. -/
def present : BitField := ⟨0, 1⟩
def readWrite : BitField := ⟨1, 1⟩
def userSupervisor : BitField := ⟨2, 1⟩
def pageWriteThrough : BitField := ⟨3, 1⟩
def pageCacheDisable : BitField := ⟨4, 1⟩
def accessed : BitField := ⟨5, 1⟩
def executeDisable : BitField := ⟨63, 1⟩

-- `struct L4PTEntry`, `struct L3PTEntry` and `struct L2PTEntry` differ in one name only: what is
-- `tablePhysAddr` here is `L3PTPhysAddr`, `L2PTPhysAddr` and `L1PTPhysAddr` there
namespace PTEntry
def ignored1 : BitField := ⟨6, 1⟩
def pageSize : BitField := ⟨7, 1⟩
def ignored2 : BitField := ⟨8, 4⟩
def tablePhysAddr : BitField := ⟨12, 40⟩
def ignored3 : BitField := ⟨52, 11⟩
end PTEntry

namespace L3PTEntry1GB
def dirty : BitField := ⟨6, 1⟩
def pageSize : BitField := ⟨7, 1⟩
def global : BitField := ⟨8, 1⟩
def ignored : BitField := ⟨9, 3⟩
def pat : BitField := ⟨12, 1⟩
def reserved : BitField := ⟨13, 17⟩
def pageFramePhysAddr : BitField := ⟨30, 22⟩
def ignored3 : BitField := ⟨52, 7⟩
def protectionKey : BitField := ⟨59, 4⟩
end L3PTEntry1GB

namespace L2PTEntry2MB
def pageFramePhysAddr : BitField := ⟨21, 31⟩
end L2PTEntry2MB

namespace L1PTEntry
def dirty : BitField := ⟨6, 1⟩
def pat : BitField := ⟨7, 1⟩
def global : BitField := ⟨8, 1⟩
def ignored : BitField := ⟨9, 3⟩
def pageFramePhysAddr : BitField := ⟨12, 40⟩
def ignored2 : BitField := ⟨52, 7⟩
def protectionKey : BitField := ⟨59, 4⟩
end L1PTEntry

/-! ## The walk -/

def l4PtIndex (address : BitVec 64) : Nat := ((address >>> 39) &&& 0x1ff).toNat
def l3PtIndex (address : BitVec 64) : Nat := ((address >>> 30) &&& 0x1ff).toNat
def l2PtIndex (address : BitVec 64) : Nat := ((address >>> 21) &&& 0x1ff).toNat
def l1PtIndex (address : BitVec 64) : Nat := ((address >>> 12) &&& 0x1ff).toNat

section Walk
variable (m : ByteMemory) (linearAddr cr3 : BitVec 64)

def l4PtEntry : BitVec 64 := m.readWord (cr3.toNat + 8 * l4PtIndex linearAddr)

/-- The table an entry points to: `L3PTPhysAddr << 12`, `L2PTPhysAddr << 12` or
`L1PTPhysAddr << 12`. -/
def ptBase (entry : BitVec 64) : BitVec 64 := (PTEntry.tablePhysAddr.get entry <<< 12).setWidth 64

def l3PtEntry : BitVec 64 :=
  m.readWord ((ptBase (l4PtEntry m linearAddr cr3)).toNat + 8 * l3PtIndex linearAddr)

def l2PtEntry : BitVec 64 :=
  m.readWord ((ptBase (l3PtEntry m linearAddr cr3)).toNat + 8 * l2PtIndex linearAddr)

def l1PtEntry : BitVec 64 :=
  m.readWord ((ptBase (l2PtEntry m linearAddr cr3)).toNat + 8 * l1PtIndex linearAddr)

def notCanonical : Prop := 0x7fffffffffff#64 < linearAddr ∧ linearAddr < 0xffff800000000000#64

instance : Decidable (notCanonical linearAddr) :=
  inferInstanceAs (Decidable (0x7fffffffffff#64 < linearAddr ∧
    linearAddr < 0xffff800000000000#64))

def calcPhyAddr : BitVec 64 :=
  if notCanonical linearAddr then 0
  else
    let l4ptEntry := l4PtEntry m linearAddr cr3
    if present.get l4ptEntry ≠ 1 then 0
    else
      let l3ptEntry := l3PtEntry m linearAddr cr3
      if present.get l3ptEntry ≠ 1 then 0
      else if PTEntry.pageSize.get l3ptEntry = 1 then
        let inPageOffset := (linearAddr &&& 0x3fffffff).setWidth 32
        let physicalPageAddr := (L3PTEntry1GB.pageFramePhysAddr.get l3ptEntry).setWidth 64 <<< 30
        physicalPageAddr + inPageOffset.setWidth 64
      else
        let l2ptEntry := l2PtEntry m linearAddr cr3
        if present.get l2ptEntry ≠ 1 then 0
        else if PTEntry.pageSize.get l2ptEntry = 1 then
          let inPageOffset := (linearAddr &&& 0x1fffff).setWidth 32
          let physicalPageAddr := (L2PTEntry2MB.pageFramePhysAddr.get l2ptEntry).setWidth 64 <<< 21
          physicalPageAddr + inPageOffset.setWidth 64
        else
          let l1ptEntry := l1PtEntry m linearAddr cr3
          if present.get l1ptEntry ≠ 1 then 0
          else
            let inPageOffset := (linearAddr &&& 0xfff).setWidth 32
            let physicalPageAddr := (L1PTEntry.pageFramePhysAddr.get l1ptEntry).setWidth 64 <<< 12
            physicalPageAddr + inPageOffset.setWidth 64

/-- The addresses of the tables that `CalcPhyAddr` reads: `cr3`, and what it makes of the entry
before. -/
def calcPhyAddrTables : List Nat :=
  if notCanonical linearAddr then []
  else cr3.toNat ::
    let l4ptEntry := l4PtEntry m linearAddr cr3
    if present.get l4ptEntry ≠ 1 then []
    else (ptBase l4ptEntry).toNat ::
      let l3ptEntry := l3PtEntry m linearAddr cr3
      if present.get l3ptEntry ≠ 1 ∨ PTEntry.pageSize.get l3ptEntry = 1 then []
      else (ptBase l3ptEntry).toNat ::
        let l2ptEntry := l2PtEntry m linearAddr cr3
        if present.get l2ptEntry ≠ 1 ∨ PTEntry.pageSize.get l2ptEntry = 1 then []
        else [(ptBase l2ptEntry).toNat]

/-- The walk of `CalcPhyAddr` ends at a page, and `UserSupervisor` is 1 in every entry it
reads. -/
def userAtEveryLevel : Prop :=
  let l4ptEntry := l4PtEntry m linearAddr cr3
  let l3ptEntry := l3PtEntry m linearAddr cr3
  let l2ptEntry := l2PtEntry m linearAddr cr3
  let l1ptEntry := l1PtEntry m linearAddr cr3
  ¬notCanonical linearAddr ∧
  (present.get l4ptEntry = 1 ∧ userSupervisor.get l4ptEntry = 1) ∧
  (present.get l3ptEntry = 1 ∧ userSupervisor.get l3ptEntry = 1) ∧
  (PTEntry.pageSize.get l3ptEntry = 1 ∨
    (present.get l2ptEntry = 1 ∧ userSupervisor.get l2ptEntry = 1) ∧
    (PTEntry.pageSize.get l2ptEntry = 1 ∨
      present.get l1ptEntry = 1 ∧ userSupervisor.get l1ptEntry = 1))

end Walk
end Amaterasu
