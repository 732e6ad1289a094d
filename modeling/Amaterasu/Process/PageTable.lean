import Amaterasu.Paging.Walk

/-! `SetUpPageTable` of `process.c`, and the address space that its five tables describe. -/

namespace Amaterasu
open PageWalk

def pageSize : BitVec 64 := 4096

/-- `AllocatePageFrames(1)`, where `frames` is what its coming calls return. -/
def allocatePageFrame : List (BitVec 64) → BitVec 64 × List (BitVec 64)
  | [] => (0, [])
  | frame :: frames => (frame, frames)

/-! ## Entries -/

/-- The assignments to `l3ptBaseLower[i]` for `i < 5`. -/
def gigabyteEntry (i : Nat) (e : BitVec 64) : BitVec 64 :=
  e |> present.set 1
    |> readWrite.set 1
    |> userSupervisor.set 0
    |> pageWriteThrough.set 0
    |> pageCacheDisable.set 0
    |> accessed.set 0
    |> L3PTEntry1GB.dirty.set 0
    |> L3PTEntry1GB.pageSize.set 1
    |> L3PTEntry1GB.global.set 0
    |> L3PTEntry1GB.ignored.set 0
    |> L3PTEntry1GB.pat.set 0
    |> L3PTEntry1GB.reserved.set 0
    |> L3PTEntry1GB.pageFramePhysAddr.set (((BitVec.ofNat 64 i * 0x40000000) >>> 30).setWidth _)
    |> L3PTEntry1GB.ignored3.set 0
    |> L3PTEntry1GB.protectionKey.set 0
    |> executeDisable.set 0

/-- The assignments to `l1ptBaseHigher[i]` for a page at `address`. -/
def pageEntry (address e : BitVec 64) : BitVec 64 :=
  e |> present.set 1
    |> readWrite.set 1
    |> userSupervisor.set 1
    |> pageWriteThrough.set 0
    |> pageCacheDisable.set 0
    |> accessed.set 0
    |> L1PTEntry.dirty.set 0
    |> L1PTEntry.pat.set 0
    |> L1PTEntry.global.set 0
    |> L1PTEntry.ignored.set 0
    |> L1PTEntry.pageFramePhysAddr.set ((address >>> 12).setWidth _)
    |> L1PTEntry.ignored2.set 0
    |> L1PTEntry.protectionKey.set 0
    |> executeDisable.set 0

/-- The assignments to an entry of `l2ptBaseHigher`, `l3ptBaseHigher` or `l4ptBase` that points to
`table`. -/
def tableEntry (user : BitVec userSupervisor.width) (table e : BitVec 64) : BitVec 64 :=
  e |> present.set 1
    |> readWrite.set 1
    |> userSupervisor.set user
    |> pageWriteThrough.set 0
    |> pageCacheDisable.set 0
    |> accessed.set 0
    |> PTEntry.ignored1.set 0
    |> PTEntry.pageSize.set 0
    |> PTEntry.ignored2.set 0
    |> PTEntry.tablePhysAddr.set ((table >>> 12).setWidth _)
    |> PTEntry.ignored3.set 0
    |> executeDisable.set 0

def absentEntry (e : BitVec 64) : BitVec 64 := present.set 0 e

def l3PtLower (i : Nat) : BitVec 64 → BitVec 64 :=
  if i < 5 then gigabyteEntry i else absentEntry

def l1PtHigher (textSegmentPageFrame processStackBase : BitVec 64) (i : Nat) :
    BitVec 64 → BitVec 64 :=
  if i = 510 then pageEntry textSegmentPageFrame
  else if i = 511 then pageEntry (processStackBase + 8 - pageSize)
  else absentEntry

def l2PtHigher (l1ptBaseHigher : BitVec 64) (i : Nat) : BitVec 64 → BitVec 64 :=
  if i = 511 then tableEntry 1 l1ptBaseHigher else absentEntry

def l3PtHigher (l2ptBaseHigher : BitVec 64) (i : Nat) : BitVec 64 → BitVec 64 :=
  if i = 511 then tableEntry 1 l2ptBaseHigher else absentEntry

def l4Pt (l3ptBaseLower l3ptBaseHigher : BitVec 64) (i : Nat) : BitVec 64 → BitVec 64 :=
  if i = 0 then tableEntry 0 l3ptBaseLower
  else if i = 511 then tableEntry 1 l3ptBaseHigher
  else absentEntry

/-- `SetUpPageTable`: the result, the memory it leaves and the frames still to come. -/
def setUpPageTable (m : ByteMemory) (frames : List (BitVec 64))
    (textSegmentPageFrame processStackBase : BitVec 64) :
    BitVec 64 × ByteMemory × List (BitVec 64) :=
  let (l3ptBaseLower, frames) := allocatePageFrame frames
  if l3ptBaseLower = 0 then (0, m, frames) else
  let m := m.modifyWords l3ptBaseLower.toNat l3PtLower 512
  let (l1ptBaseHigher, frames) := allocatePageFrame frames
  if l1ptBaseHigher = 0 then (0, m, frames) else
  let m := m.modifyWords l1ptBaseHigher.toNat
    (l1PtHigher textSegmentPageFrame processStackBase) 512
  let (l2ptBaseHigher, frames) := allocatePageFrame frames
  if l2ptBaseHigher = 0 then (0, m, frames) else
  let m := m.modifyWords l2ptBaseHigher.toNat (l2PtHigher l1ptBaseHigher) 512
  let (l3ptBaseHigher, frames) := allocatePageFrame frames
  if l3ptBaseHigher = 0 then (0, m, frames) else
  let m := m.modifyWords l3ptBaseHigher.toNat (l3PtHigher l2ptBaseHigher) 512
  let (l4ptBase, frames) := allocatePageFrame frames
  if l4ptBase = 0 then (0, m, frames) else
  let m := m.modifyWords l4ptBase.toNat (l4Pt l3ptBaseLower l3ptBaseHigher) 512
  (l4ptBase, m, frames)

/-! ## What an entry means -/

/-- The address of a page frame: a multiple of the page size among the physical addresses. -/
structure IsFrame (a : BitVec 64) : Prop where
  aligned : 4096 ∣ a.toNat
  below : a.toNat < 2 ^ 52

instance (a : BitVec 64) : Decidable (IsFrame a) :=
  decidable_of_iff (4096 ∣ a.toNat ∧ a.toNat < 2 ^ 52)
    ⟨fun h => ⟨h.1, h.2⟩, fun h => ⟨h.aligned, h.below⟩⟩

/-- The entry leads to `address` and lets it be written. -/
structure PointsTo (e : BitVec 64) (user large : Bool) (k address : Nat) : Prop where
  present : isPresent e = true
  writable : isWritable e = true
  user : isUser e = user
  large : isLarge e = large
  frame : frame e k = address

theorem frame_eq (e : BitVec 64) {k : Nat} (hk : k ≤ 52) :
    frame e k = (BitField.get ⟨k, 52 - k⟩ e).toNat * 2 ^ k := by
  have hpow : 2 ^ k * 2 ^ (52 - k) = 2 ^ 52 := by rw [← Nat.pow_add, Nat.add_sub_cancel' hk]
  unfold frame BitField.get
  rw [BitVec.extractLsb'_toNat, Nat.shiftRight_eq_div_pow, ← hpow, Nat.mod_mul_right_div_self]

theorem writable_iff (e : BitVec 64) : readWrite.get e = 1 ↔ isWritable e = true :=
  BitField.get_eq_one

theorem absentEntry_spec (e : BitVec 64) : isPresent (absentEntry e) = false := by
  rw [← Bool.not_eq_true, ← present_iff]
  unfold absentEntry
  rw [BitField.get_set_self (by decide)]
  decide

theorem pointsTo_of_fields {e : BitVec 64} (user : BitVec userSupervisor.width)
    (large : BitVec PTEntry.pageSize.width) {k address : Nat} (hk : k ≤ 52)
    (hpresent : present.get e = 1) (hwrite : readWrite.get e = 1)
    (huser : userSupervisor.get e = user) (hlarge : PTEntry.pageSize.get e = large)
    (hframe : (BitField.get ⟨k, 52 - k⟩ e).toNat * 2 ^ k = address) :
    PointsTo e (user == 1) (large == 1) k address := by
  refine ⟨(present_iff e).mp hpresent, (writable_iff e).mp hwrite, ?_, ?_, ?_⟩
  · rw [Bool.eq_iff_iff, ← userSupervisor_iff, huser, beq_iff_eq]
  · rw [Bool.eq_iff_iff, ← pageSize_iff, hlarge, beq_iff_eq]
  · rw [frame_eq e hk, hframe]

/-- The address field holds a frame's address without its last 12 bits. -/
theorem IsFrame.field {a : BitVec 64} (h : IsFrame a) :
    ((a >>> 12).setWidth 40).toNat * 2 ^ 12 = a.toNat := by
  obtain ⟨⟨k, hk⟩, hlt⟩ := h
  rw [BitVec.toNat_setWidth, BitVec.toNat_ushiftRight, Nat.shiftRight_eq_div_pow]
  omega

theorem tableEntry_pointsTo {user : BitVec userSupervisor.width} {table : BitVec 64}
    (e : BitVec 64) (h : IsFrame table) :
    PointsTo (tableEntry user table e) (user == 1) false 12 table.toNat := by
  have haddress : PTEntry.tablePhysAddr.get (tableEntry user table e) =
      (table >>> 12).setWidth _ := by
    unfold tableEntry
    simp (disch := decide) only [BitField.get_set_of_apart, BitField.get_set_self]
  refine pointsTo_of_fields _ 0 (by decide) ?_ ?_ ?_ ?_
    ((congrArg (fun v : BitVec 40 => v.toNat * 2 ^ 12) haddress).trans h.field)
  all_goals
    unfold tableEntry
    simp (disch := decide) only [BitField.get_set_of_apart, BitField.get_set_self]

theorem pageEntry_pointsTo {address : BitVec 64} (e : BitVec 64) (h : IsFrame address) :
    PointsTo (pageEntry address e) true false 12 address.toNat := by
  have haddress : L1PTEntry.pageFramePhysAddr.get (pageEntry address e) =
      (address >>> 12).setWidth _ := by
    unfold pageEntry
    simp (disch := decide) only [BitField.get_set_of_apart, BitField.get_set_self]
  -- where the other entries have `PageSize`, an entry of the last level has `PAT`
  have hpat : L1PTEntry.pat.get (pageEntry address e) = 0 := by
    unfold pageEntry
    simp (disch := decide) only [BitField.get_set_of_apart, BitField.get_set_self]
  refine pointsTo_of_fields 1 _ (by decide) ?_ ?_ ?_ hpat
    ((congrArg (fun v : BitVec 40 => v.toNat * 2 ^ 12) haddress).trans h.field)
  all_goals
    unfold pageEntry
    simp (disch := decide) only [BitField.get_set_of_apart, BitField.get_set_self]

theorem gigabyteEntry_pointsTo {i : Nat} (e : BitVec 64) (hi : i < 5) :
    PointsTo (gigabyteEntry i e) false true 30 (i * 2 ^ 30) := by
  have haddress : L3PTEntry1GB.pageFramePhysAddr.get (gigabyteEntry i e) =
      ((BitVec.ofNat 64 i * 0x40000000) >>> 30).setWidth _ := by
    unfold gigabyteEntry
    simp (disch := decide) only [BitField.get_set_of_apart, BitField.get_set_self]
  have hlarge : L3PTEntry1GB.pageSize.get (gigabyteEntry i e) = 1 := by
    unfold gigabyteEntry
    simp (disch := decide) only [BitField.get_set_of_apart, BitField.get_set_self]
  have hindex : ∀ j < 5,
      (((BitVec.ofNat 64 j * 0x40000000) >>> 30).setWidth 22).toNat = j := by decide
  refine pointsTo_of_fields 0 _ (by decide) ?_ ?_ ?_ hlarge
    ((congrArg (fun v : BitVec 22 => v.toNat * 2 ^ 30) haddress).trans
      (congrArg (· * 2 ^ 30) (hindex i hi)))
  all_goals
    unfold gigabyteEntry
    simp (disch := decide) only [BitField.get_set_of_apart, BitField.get_set_self]

end Amaterasu
