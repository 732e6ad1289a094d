import Amaterasu.Ata.Defs
import Mathlib.Tactic.IntervalCases

/-! What one request transfers: the registers address the request's own sectors, and the copy
loop stores the words of the port as consecutive bytes. -/

namespace Amaterasu
open Function

/-- The bytes that a finished read of `c` owes its buffer. -/
def AtaCall.image (disk : Nat → BitVec 8) (c : AtaCall) : List (BitVec 64 × BitVec 8) :=
  (List.range c.sizeOfBytes.toNat).map fun i =>
    (c.buffer + BitVec.ofNat 64 i, disk (c.lba * 512 + i))

/-- The request can be put into one 28-bit command of at most 256 sectors. -/
def AtaCall.Addressable (c : AtaCall) : Prop :=
  0 < c.sizeOfBytes → c.lba < 2 ^ 28 ∧ c.sizeOfBytes ≤ 131072

/-- The call whose sectors the command of `c` addresses. -/
def AtaCall.wrapped (c : AtaCall) : AtaCall := { c with lba := c.lba % 2 ^ 28 }

/-! ## The command -/

theorem select_bits (n : Nat) : (0xe0 ||| (n &&& 0x0f)) &&& 0x0f = n % 16 := by
  have hmask : n &&& 0x0f = n % 16 := Nat.and_two_pow_sub_one_eq_mod n 4
  have hsmall : ∀ x < 16, (0xe0 ||| x) &&& 0x0f = x := by decide
  rw [hmask]
  exact hsmall _ (Nat.mod_lt _ (by decide))

/-- The device reads back the low 28 bits of the address. -/
theorem command_lba (r : AtaRequest) : r.command.lba = r.lba % 2 ^ 28 := by
  show ((0xe0 ||| ((r.lba >>> 24) &&& 0x0f)) &&& 0x0f) * 2 ^ 24 + (r.lba >>> 16) % 256 * 2 ^ 16 +
    (r.lba >>> 8) % 256 * 2 ^ 8 + r.lba % 256 = r.lba % 2 ^ 28
  rw [select_bits]
  simp only [Nat.shiftRight_eq_div_pow]
  omega

/-- A request of at most 256 sectors commands the sectors that hold it. -/
theorem command_sectors {r : AtaRequest} (h0 : 0 < r.sizeOfBytes) (h1 : r.sizeOfBytes ≤ 131072) :
    r.command.sectors = (r.sizeOfBytes.toNat + 511) / 512 := by
  obtain ⟨n, hn⟩ := Int.eq_ofNat_of_zero_le h0.le
  have hsector : (if r.sizeOfBytes.tmod 512 = 0 then r.sizeOfBytes.tdiv 512
      else r.sizeOfBytes.tdiv 512 + 1) = ((n + 511) / 512 : Nat) := by
    rw [hn, Int.tmod_eq_emod_of_nonneg (by omega), Int.tdiv_eq_ediv_of_nonneg (by omega)]
    split_ifs <;> omega
  show (if r.taskFile.sectorCount = 0 then 256 else r.taskFile.sectorCount) = _
  have hcount : r.taskFile.sectorCount = (((n + 511) / 512 : Nat) % 256 : Int).toNat := by
    unfold AtaRequest.taskFile
    rw [hsector]
  rw [hcount, hn]
  simp only [Int.toNat_natCast]
  split_ifs <;> omega

/-! ## The copy loop -/

/-- Byte `i` of the stream of little-endian words `w`. -/
def streamByte (w : Nat → BitVec 16) (i : Nat) : BitVec 8 :=
  if i % 2 = 0 then (w (i / 2)).setWidth 8 else (w (i / 2) >>> 8).setWidth 8

theorem setWidth_append_low (x y : BitVec 8) : (x ++ y).setWidth 8 = y := by
  ext i hi
  rw [BitVec.getElem_setWidth, BitVec.getLsbD_append, if_pos hi]
  exact BitVec.getLsbD_eq_getElem hi

theorem setWidth_append_high (x y : BitVec 8) : ((x ++ y) >>> 8).setWidth 8 = x := by
  ext i hi
  rw [BitVec.getElem_setWidth, BitVec.getLsbD_ushiftRight, BitVec.getLsbD_append,
    if_neg (Nat.not_lt.mpr (Nat.le_add_right 8 i)), Nat.add_sub_cancel_left]
  exact BitVec.getLsbD_eq_getElem hi

variable {β : Type*}

/-- Rounds that store both bytes of their word store the bytes of the stream. -/
theorem flatMap_pairs (g : Nat → β) (m : Nat) :
    ((List.range m).flatMap fun i => [g (2 * i), g (2 * i + 1)]) = (List.range (2 * m)).map g := by
  induction m with
  | zero => rfl
  | succ m ih =>
    rw [List.range_succ, List.flatMap_append, ih, Nat.mul_succ, List.range_succ, List.range_succ,
      List.map_append, List.map_append, List.append_assoc]
    rfl

/-- The copy loop stores the first `sizeOfBytes` bytes of the stream, an odd last one included. -/
theorem copy_eq {r : AtaRequest} (h0 : 0 ≤ r.sizeOfBytes) (w : Nat → BitVec 16) :
    r.copy w = (List.range r.sizeOfBytes.toNat).map fun i =>
      (r.buffer + BitVec.ofNat 64 i, streamByte w i) := by
  obtain ⟨n, hn⟩ := Int.eq_ofNat_of_zero_le h0
  have hwords : r.words = (n + 1) / 2 := by
    show ((r.sizeOfBytes + 1).tdiv 2).toNat = _
    rw [hn, Int.tdiv_eq_ediv_of_nonneg (by omega)]
    omega
  have hparity : (n : Int).tmod 2 = 0 ↔ n % 2 = 0 := by
    rw [Int.tmod_eq_emod_of_nonneg (by omega)]
    omega
  have hlow : ∀ i, streamByte w (2 * i) = (w i).setWidth 8 := fun i => by
    unfold streamByte
    rw [if_pos (by omega), Nat.mul_div_cancel_left i (by decide)]
  have hhigh : ∀ i, streamByte w (2 * i + 1) = (w i >>> 8).setWidth 8 := fun i => by
    unfold streamByte
    rw [if_neg (by omega), show (2 * i + 1) / 2 = i by omega]
  have hpair := flatMap_pairs fun i => (r.buffer + BitVec.ofNat 64 i, streamByte w i)
  simp only [hlow, hhigh] at hpair
  unfold AtaRequest.copy
  rw [hwords, hn, Int.toNat_natCast]
  rcases Nat.even_or_odd' n with ⟨m, rfl | rfl⟩
  · rw [show (2 * m + 1) / 2 = m by omega, ← hpair m]
    apply List.flatMap_congr
    intro i _
    simp only [hparity, show 2 * m % 2 = 0 by omega, or_true, if_true]
  · -- the last round of an odd transfer stores one byte
    rw [show (2 * m + 1 + 1) / 2 = m + 1 by omega, List.range_succ, List.flatMap_append,
      List.range_succ, List.map_append, ← hpair m]
    congr 1
    · apply List.flatMap_congr
      intro i hi
      have hlt : i < m := List.mem_range.mp hi
      have hne : i ≠ m + 1 - 1 := by omega
      simp only [hne, ne_eq, not_false_eq_true, true_or, if_true]
    · simp only [List.flatMap_cons, List.flatMap_nil, List.append_nil, List.map_cons, List.map_nil,
        hparity, hlow]
      rw [if_neg]
      omega

variable (disk : Nat → BitVec 8) (floating : Nat → BitVec 16)

/-- Served by its own command, a request of at most 256 sectors stores what is at the lower 28 bits
of its address. -/
theorem copy_own_command_wrapped {c : AtaCall} (h0 : 0 ≤ c.sizeOfBytes)
    (hsize : c.sizeOfBytes ≤ 131072) :
    c.request.copy ((AtaDevice.ready c.request.command 0).word disk floating) =
      c.wrapped.image disk := by
  rw [copy_eq (r := c.request) h0]
  unfold AtaCall.image
  apply List.map_congr_left
  intro i hi
  have hlt : i < c.sizeOfBytes.toNat := List.mem_range.mp hi
  have hcl : c.request.command.lba = c.wrapped.lba := command_lba c.request
  have hcs : c.request.command.sectors = (c.sizeOfBytes.toNat + 511) / 512 :=
    command_sectors (r := c.request) (show 0 < c.sizeOfBytes by omega) hsize
  have hword : ∀ j, j < (c.sizeOfBytes.toNat + 1) / 2 →
      (AtaDevice.ready c.request.command 0).word disk floating j =
        disk (c.wrapped.lba * 512 + 2 * j + 1) ++ disk (c.wrapped.lba * 512 + 2 * j) := by
    intro j hj
    unfold AtaDevice.word
    simp only [hcl, hcs, Nat.zero_add]
    rw [if_pos (by omega)]
  have hbyte : streamByte ((AtaDevice.ready c.request.command 0).word disk floating) i =
      disk (c.wrapped.lba * 512 + i) := by
    unfold streamByte
    rw [hword (i / 2) (by omega), setWidth_append_low, setWidth_append_high]
    split_ifs with hpar
    · exact congrArg disk (by omega)
    · exact congrArg disk (by omega)
  rw [hbyte]
  rfl

theorem wrapped_image {c : AtaCall} (ha : c.Addressable) :
    c.wrapped.image disk = c.image disk := by
  rcases Int.lt_or_le 0 c.sizeOfBytes with hpos | hneg
  · have hlba : c.lba % 2 ^ 28 = c.lba := Nat.mod_eq_of_lt (ha hpos).1
    have hwrapped : c.wrapped = c := congrArg (fun lba => { c with lba := lba }) hlba
    rw [hwrapped]
  · have hempty : List.range c.sizeOfBytes.toNat = [] := by
      rw [Int.toNat_of_nonpos hneg, List.range_zero]
    show (List.range c.sizeOfBytes.toNat).map _ = (List.range c.sizeOfBytes.toNat).map _
    simp only [hempty, List.map_nil]

/-- Served by its own command, an addressable request of non-negative size stores its image. -/
theorem copy_own_command {c : AtaCall} (h0 : 0 ≤ c.sizeOfBytes) (ha : c.Addressable) :
    c.request.copy ((AtaDevice.ready c.request.command 0).word disk floating) = c.image disk := by
  have hsize : c.sizeOfBytes ≤ 131072 := by
    rcases Int.lt_or_le 0 c.sizeOfBytes with hpos | hneg
    · exact (ha hpos).2
    · exact hneg.trans (by decide)
  rw [copy_own_command_wrapped disk floating h0 hsize, wrapped_image disk ha]

end Amaterasu
