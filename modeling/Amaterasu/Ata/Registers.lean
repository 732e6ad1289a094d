import Amaterasu.Ata.Queue
import Amaterasu.Ata.Transfer

/-! The registers of the drive: the bytes that `ATASendRequest` writes to them, and the command that
the drive finds there. -/

namespace Amaterasu

def ataIoBasePrimary : BitVec 16 := 0x1f0
def ataControlBasePrimary : BitVec 16 := 0x3f6

/-- A call of `OutByte`. -/
structure OutByte where
  addr : BitVec 16
  data : BitVec 8
deriving DecidableEq

/-- The calls of `OutByte` in `ATASendRequest`. An `int` is shifted arithmetically. -/
def AtaRequestQueueEntry.ataSendRequest (request : AtaRequestQueueEntry) : List OutByte :=
  if request.isWrite ≠ 0 then []
  else
    let lba := request.lba
    let sectorCount :=
      if request.sizeOfBytes.srem 512 = 0 then request.sizeOfBytes.sdiv 512
      else request.sizeOfBytes.sdiv 512 + 1
    [⟨ataIoBasePrimary + 6, (0xe0 ||| (lba.sshiftRight 24 &&& 0x0f)).setWidth 8⟩,
      ⟨ataControlBasePrimary, 0x0⟩,
      ⟨ataIoBasePrimary + 2, sectorCount.setWidth 8⟩,
      ⟨ataIoBasePrimary + 3, (lba &&& 0xff).setWidth 8⟩,
      ⟨ataIoBasePrimary + 4, (lba.sshiftRight 8).setWidth 8⟩,
      ⟨ataIoBasePrimary + 5, (lba.sshiftRight 16).setWidth 8⟩,
      ⟨ataIoBasePrimary + 7, 0x20⟩]

/-- The byte that was written last to the port `addr`. -/
def lastByte (writes : List OutByte) (addr : BitVec 16) : BitVec 8 :=
  writes.foldl (fun old w => if w.addr = addr then w.data else old) 0

/-- The registers of the drive after the writes. -/
def taskFile (writes : List OutByte) : TaskFile where
  device := (lastByte writes (ataIoBasePrimary + 6)).toNat
  sectorCount := (lastByte writes (ataIoBasePrimary + 2)).toNat
  lbaLow := (lastByte writes (ataIoBasePrimary + 3)).toNat
  lbaMid := (lastByte writes (ataIoBasePrimary + 4)).toNat
  lbaHigh := (lastByte writes (ataIoBasePrimary + 5)).toNat

/-- The command `READ SECTORS`, when it has been given. -/
def readSectors (writes : List OutByte) : Option AtaCommand :=
  if lastByte writes (ataIoBasePrimary + 7) = 0x20 then some (taskFile writes).command else none

/-! ## Bytes of an `int` -/

section Bytes
variable (x : BitVec 32)

theorem setWidth_sshiftRight {n k : Nat} (h : n + k ≤ 32) :
    (x.sshiftRight n).setWidth k = (x >>> n).setWidth k := by
  apply BitVec.eq_of_getLsbD_eq
  intro i hi
  have hlt : n + i < 32 := by omega
  have hnot : ¬32 ≤ i := by omega
  simp [BitVec.getLsbD_sshiftRight, hlt, hnot]

theorem setWidth_sshiftRight_toNat {n : Nat} (h : n + 8 ≤ 32) :
    ((x.sshiftRight n).setWidth 8).toNat = (x.toNat >>> n) % 256 := by
  rw [setWidth_sshiftRight x h, BitVec.toNat_setWidth, BitVec.toNat_ushiftRight]

theorem device_toNat : ((0xe0 ||| (x.sshiftRight 24 &&& 0x0f)).setWidth 8).toNat =
    0xe0 ||| ((x.toNat >>> 24) &&& 0x0f) := by
  have hlt : x.toNat >>> 24 < 256 := by
    rw [Nat.shiftRight_eq_div_pow]
    exact Nat.div_lt_of_lt_mul x.isLt
  rw [BitVec.setWidth_or, BitVec.setWidth_and, BitVec.toNat_or, BitVec.toNat_and,
    setWidth_sshiftRight_toNat x (by decide), Nat.mod_eq_of_lt hlt]
  rfl

theorem setWidth_toNat_of_toInt : (x.setWidth 8).toNat = (x.toInt % 256).toNat := by
  have hlt := x.isLt
  rw [BitVec.toNat_setWidth, BitVec.toInt_eq_toNat_cond]
  split_ifs <;> omega

end Bytes

/-- The `int` of sectors does not overflow. -/
theorem sectorCount_toInt (x : BitVec 32) :
    (if x.srem 512 = 0 then x.sdiv 512 else x.sdiv 512 + 1).toInt =
      if x.toInt.tmod 512 = 0 then x.toInt.tdiv 512 else x.toInt.tdiv 512 + 1 := by
  have hdiv : (x.sdiv 512).toInt = x.toInt.tdiv 512 :=
    BitVec.toInt_sdiv_of_ne_or_ne x 512 (Or.inr (by decide))
  have hrem : x.srem 512 = 0 ↔ x.toInt.tmod 512 = 0 := by
    rw [← BitVec.toInt_inj, BitVec.toInt_srem]
    rfl
  have hlt := x.toInt_lt
  have hle := x.le_toInt
  simp only [hrem]
  split_ifs
  · exact hdiv
  · have hsum : (x.sdiv 512 + 1).toInt = (x.toInt.tdiv 512 + 1).bmod (2 ^ 32) := by
      rw [BitVec.toInt_add, hdiv]
      rfl
    have hbound : -2 ^ 31 ≤ x.toInt.tdiv 512 + 1 ∧ x.toInt.tdiv 512 + 1 < 2 ^ 31 := by
      have hsign : Int.sign 512 = 1 := rfl
      rw [Int.tdiv_eq_ediv, hsign]
      split_ifs <;> omega
    rw [hsum]
    exact Int.bmod_eq_of_le (by omega) (by omega)

/-- The bytes are those of the request in the system. -/
theorem taskFile_ataSendRequest {request : AtaRequestQueueEntry} (h : request.isWrite = 0) :
    taskFile request.ataSendRequest = request.request.taskFile := by
  have hwrites : request.ataSendRequest = _ := if_neg (not_not.mpr h)
  have hsectors := setWidth_toNat_of_toInt
    (if request.sizeOfBytes.srem 512 = 0 then request.sizeOfBytes.sdiv 512
      else request.sizeOfBytes.sdiv 512 + 1)
  rw [sectorCount_toInt] at hsectors
  have hlow : ((request.lba &&& 0xff).setWidth 8).toNat = request.lba.toNat % 256 := by
    rw [BitVec.setWidth_and, BitVec.toNat_and, BitVec.toNat_setWidth]
    exact Nat.and_two_pow_sub_one_of_lt_two_pow (Nat.mod_lt _ (by decide))
  rw [hwrites]
  exact (TaskFile.mk.injEq ..).mpr ⟨device_toNat request.lba, hsectors, hlow,
    setWidth_sshiftRight_toNat request.lba (by decide),
    setWidth_sshiftRight_toNat request.lba (by decide)⟩

/-! ## The requests that fit -/

/-- The push of `ATARead`. -/
def ataReadPush (lba sizeOfBytes : BitVec 32) (buffer : BitVec 64) (currentProcess : Nat) :
    AtaPush := ⟨0, lba, sizeOfBytes, buffer, currentProcess⟩

theorem command_lba_iff (r : AtaRequest) : r.command.lba = r.lba ↔ r.lba < 2 ^ 28 := by
  rw [command_lba]
  exact Nat.mod_eq_iff_lt (by decide)

theorem command_sectors_le (r : AtaRequest) : r.command.sectors ≤ 256 := by
  have hcount : r.taskFile.sectorCount < 256 := by
    unfold AtaRequest.taskFile
    dsimp only
    omega
  show (if r.taskFile.sectorCount = 0 then 256 else r.taskFile.sectorCount) ≤ 256
  split_ifs <;> omega

theorem command_sectors_iff {r : AtaRequest} (h0 : 0 < r.sizeOfBytes) :
    r.command.sectors = (r.sizeOfBytes.toNat + 511) / 512 ↔ r.sizeOfBytes ≤ 131072 := by
  refine ⟨fun h => ?_, command_sectors h0⟩
  have hle := command_sectors_le r
  omega

theorem readSectors_ataSendRequest {request : AtaRequestQueueEntry} (h : request.isWrite = 0) :
    readSectors request.ataSendRequest = some request.request.command := by
  have hcommand : lastByte request.ataSendRequest (ataIoBasePrimary + 7) = 0x20 := by
    have hwrites : request.ataSendRequest = _ := if_neg (not_not.mpr h)
    rw [hwrites]
    rfl
  unfold readSectors
  rw [if_pos hcommand, taskFile_ataSendRequest h]
  rfl

/-- After any calls, the registers name the sectors of a request that `ATARead` queues exactly when
it has a 28-bit address and at most 256 sectors. Whatever has room in the queue is queued. -/
theorem ataRead_encodes_iff (q : AtaRing) (calls : List AtaRing.Call) (lba sizeOfBytes : BitVec 32)
    (buffer : BitVec 64) (currentProcess : Nat) (hsize : 0 < sizeOfBytes.toInt) :
    let q := calls.foldl AtaRing.call q.ataInit
    let r := q.ataRequestQueuePush (ataReadPush lba sizeOfBytes buffer currentProcess)
    (r.2 = -1 ∨ readSectors (r.1.queueBody r.2).ataSendRequest =
        some ⟨lba.toNat, (sizeOfBytes.toInt.toNat + 511) / 512⟩) ↔
      (q.size = ataRequestQueueCapacity ∨ lba.toNat < 2 ^ 28 ∧ sizeOfBytes.toInt ≤ 131072) := by
  have hrefines := q.ataInit_refines calls
  have hserves := hrefines.serves
  set p := ataReadPush lba sizeOfBytes buffer currentProcess
  dsimp only
  set r := (calls.foldl AtaRing.call q.ataInit).ataRequestQueuePush p with hr
  have hrefused := (hserves.full p).trans hrefines.full_iff.symm
  rw [← hr] at hrefused
  by_cases hfull : r.2 = -1
  · exact iff_of_true (Or.inl hfull) (Or.inl (hrefused.mp hfull))
  · have hentry : r.1.queueBody r.2 = p.entry := (hserves.pushed p hfull).1
    rw [or_iff_right hfull, or_iff_right (mt hrefused.mpr hfull), hentry,
      readSectors_ataSendRequest rfl, Option.some_inj]
    have hcommand := and_congr (command_lba_iff p.entry.request)
      (command_sectors_iff (r := p.entry.request) hsize)
    exact AtaCommand.mk.injEq .. ▸ hcommand

/-- Two sectors at the end of the disk. -/
theorem ataRead_encodes_two :
    let r := (AtaRing.ataInit ⟨0, 0, fun _ => ⟨0, 0, 0, 0, 0, 0⟩⟩).ataRequestQueuePush
      (ataReadPush 0xffffffe 1000 0x100000 0)
    r.2 = -1 ∨ readSectors (r.1.queueBody r.2).ataSendRequest = some ⟨0xffffffe, 2⟩ :=
  (ataRead_encodes_iff ⟨0, 0, fun _ => ⟨0, 0, 0, 0, 0, 0⟩⟩ [] 0xffffffe 1000 0x100000 0
    (by decide)).mpr (Or.inr (by decide))

/-- The sector behind the 28-bit addresses, and one sector more than the count can say. -/
theorem ataRead_truncates :
    let r (lba sizeOfBytes : BitVec 32) :=
      (AtaRing.ataInit ⟨0, 0, fun _ => ⟨0, 0, 0, 0, 0, 0⟩⟩).ataRequestQueuePush
        (ataReadPush lba sizeOfBytes 0x100000 0)
    ((r 0x10000000 512).2 = 0 ∧
      readSectors ((r 0x10000000 512).1.queueBody 0).ataSendRequest = some ⟨0, 1⟩) ∧
    (r 1 131073).2 = 0 ∧
      readSectors ((r 1 131073).1.queueBody 0).ataSendRequest = some ⟨1, 1⟩ := by
  decide

end Amaterasu
