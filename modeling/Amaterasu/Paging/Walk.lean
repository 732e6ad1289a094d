import Amaterasu.Library.PageWalk
import Amaterasu.Paging.Defs

/-! `CalcPhyAddr` against the page walk of the processor: they agree on tables below `2 ^ 40`. -/

namespace Amaterasu
open PageWalk

section Fields
variable (e la : BitVec 64)

theorem index_bits (k : Nat) : ((la >>> k) &&& 0x1ff).toNat = la.toNat / 2 ^ k % 512 := by
  rw [BitVec.toNat_and, BitVec.toNat_ushiftRight, Nat.shiftRight_eq_div_pow]
  exact Nat.and_two_pow_sub_one_eq_mod _ 9

theorem l4PtIndex_eq : l4PtIndex la = index la 3 := index_bits la 39
theorem l3PtIndex_eq : l3PtIndex la = index la 2 := index_bits la 30
theorem l2PtIndex_eq : l2PtIndex la = index la 1 := index_bits la 21
theorem l1PtIndex_eq : l1PtIndex la = index la 0 := index_bits la 12

theorem notCanonical_iff : notCanonical la ↔ ¬Canonical la := by
  unfold notCanonical Canonical
  rw [BitVec.lt_def, BitVec.lt_def]
  simp only [BitVec.toNat_ofNat]
  omega

theorem present_iff : present.get e = 1 ↔ isPresent e = true := BitField.get_eq_one
theorem pageSize_iff : PTEntry.pageSize.get e = 1 ↔ isLarge e = true := BitField.get_eq_one
theorem userSupervisor_iff : userSupervisor.get e = 1 ↔ isUser e = true := BitField.get_eq_one

/-- The shift keeps 40 bits of the address. -/
theorem ptBase_toNat_mod : (ptBase e).toNat = frame e 12 % 2 ^ 40 := by
  unfold frame
  show (((e.extractLsb' 12 40) <<< 12).setWidth 64).toNat = _
  rw [BitVec.toNat_setWidth, BitVec.toNat_shiftLeft, BitVec.extractLsb'_toNat,
    Nat.shiftRight_eq_div_pow, Nat.shiftLeft_eq]
  omega

theorem ptBase_toNat (h : frame e 12 < 2 ^ 40) : (ptBase e).toNat = frame e 12 := by
  rw [ptBase_toNat_mod, Nat.mod_eq_of_lt h]

/-- The end of the walk at a page of `2 ^ k` bytes. -/
theorem leaf_toNat {k : Nat} (hk : k ≤ 32) :
    ((BitField.get ⟨k, 52 - k⟩ e).setWidth 64 <<< k +
      ((la &&& BitVec.ofNat 64 (2 ^ k - 1)).setWidth 32).setWidth 64).toNat =
    frame e k + la.toNat % 2 ^ k := by
  have hpow : 2 ^ k * 2 ^ (52 - k) = 2 ^ 52 := by rw [← Nat.pow_add, Nat.add_sub_cancel' (by omega)]
  have hle : 2 ^ k ≤ 2 ^ 32 := Nat.pow_le_pow_right (by decide) hk
  have hoffset : la.toNat % 2 ^ k < 2 ^ k := Nat.mod_lt _ (Nat.two_pow_pos k)
  have hmask : (BitVec.ofNat 64 (2 ^ k - 1)).toNat = 2 ^ k - 1 := by
    rw [BitVec.toNat_ofNat, Nat.mod_eq_of_lt (by omega)]
  have hfield : e.toNat / 2 ^ k % 2 ^ (52 - k) = e.toNat % 2 ^ 52 / 2 ^ k := by
    rw [← hpow, Nat.mod_mul_right_div_self]
  have hframe : frame e k ≤ e.toNat % 2 ^ 52 := Nat.div_mul_le_self _ _
  have hlt : e.toNat % 2 ^ 52 < 2 ^ 52 := Nat.mod_lt _ (by decide)
  have hdiv : e.toNat % 2 ^ 52 / 2 ^ k ≤ e.toNat % 2 ^ 52 := Nat.div_le_self _ _
  show (((e.extractLsb' k (52 - k)).setWidth 64 <<< k) + _).toNat = _
  unfold frame at hframe ⊢
  rw [BitVec.toNat_add, BitVec.toNat_shiftLeft, BitVec.toNat_setWidth, BitVec.extractLsb'_toNat,
    BitVec.toNat_setWidth, BitVec.toNat_setWidth, BitVec.toNat_and, hmask,
    Nat.and_two_pow_sub_one_eq_mod, Nat.shiftRight_eq_div_pow, Nat.shiftLeft_eq, hfield]
  rw [Nat.mod_eq_of_lt (a := e.toNat % 2 ^ 52 / 2 ^ k) (by omega),
    Nat.mod_eq_of_lt (a := e.toNat % 2 ^ 52 / 2 ^ k * 2 ^ k) (by omega),
    Nat.mod_eq_of_lt (a := la.toNat % 2 ^ k) (by omega),
    Nat.mod_eq_of_lt (a := la.toNat % 2 ^ k) (by omega), Nat.mod_eq_of_lt (by omega)]

end Fields

section Agreement
variable {m : ByteMemory} {la cr3 : BitVec 64}

/-- The tables that the walk meets lie below `2 ^ 40`, where `CalcPhyAddr` loses no address bit. -/
structure TablesBelow (m : ByteMemory) (la cr3 : BitVec 64) : Prop where
  root : frame cr3 12 = cr3.toNat
  l3pt : isPresent (l4PtEntry m la cr3) → frame (l4PtEntry m la cr3) 12 < 2 ^ 40
  l2pt : isPresent (l4PtEntry m la cr3) → isPresent (l3PtEntry m la cr3) →
    isLarge (l3PtEntry m la cr3) = false → frame (l3PtEntry m la cr3) 12 < 2 ^ 40
  l1pt : isPresent (l4PtEntry m la cr3) → isPresent (l3PtEntry m la cr3) →
    isLarge (l3PtEntry m la cr3) = false → isPresent (l2PtEntry m la cr3) →
    isLarge (l2PtEntry m la cr3) = false → frame (l2PtEntry m la cr3) 12 < 2 ^ 40

/-- What `CalcPhyAddr` makes of the outcome of a walk. -/
def addressOrZero (t : Option Translation) : Nat := (t.map (·.address)).getD 0

theorem calcPhyAddr_eq_walk (h : TablesBelow m la cr3) :
    (calcPhyAddr m la cr3).toNat = addressOrZero (walk m cr3 la) ∧
      (userAtEveryLevel m la cr3 ↔ ∃ t ∈ walk m cr3 la, t.user = true) := by
  have h4 : entry m (frame cr3 12) la 3 = l4PtEntry m la cr3 := by
    unfold entry l4PtEntry
    rw [h.root, l4PtIndex_eq]
  have h3 : isPresent (l4PtEntry m la cr3) →
      entry m (frame (l4PtEntry m la cr3) 12) la 2 = l3PtEntry m la cr3 := fun hp => by
    unfold entry
    rw [← ptBase_toNat _ (h.l3pt hp), ← l3PtIndex_eq]
    rfl
  have h2 : isPresent (l4PtEntry m la cr3) → isPresent (l3PtEntry m la cr3) →
      isLarge (l3PtEntry m la cr3) = false →
      entry m (frame (l3PtEntry m la cr3) 12) la 1 = l2PtEntry m la cr3 := fun p4 p3 s3 => by
    unfold entry
    rw [← ptBase_toNat _ (h.l2pt p4 p3 s3), ← l2PtIndex_eq]
    rfl
  have h1 : isPresent (l4PtEntry m la cr3) → isPresent (l3PtEntry m la cr3) →
      isLarge (l3PtEntry m la cr3) = false → isPresent (l2PtEntry m la cr3) →
      isLarge (l2PtEntry m la cr3) = false →
      entry m (frame (l2PtEntry m la cr3) 12) la 0 = l1PtEntry m la cr3 := fun p4 p3 s3 p2 s2 => by
    unfold entry
    rw [← ptBase_toNat _ (h.l1pt p4 p3 s3 p2 s2), ← l1PtIndex_eq]
    rfl
  unfold walk calcPhyAddr userAtEveryLevel
  simp only [notCanonical_iff, ne_eq, present_iff, pageSize_iff, userSupervisor_iff, not_not]
  by_cases hcan : Canonical la
  · simp only [hcan, not_true_eq_false, if_true, if_false]
    cases p4 : isPresent (l4PtEntry m la cr3) with
    | false =>
      rw [walkFrom_absent (by rw [h4, p4])]
      simp [addressOrZero]
    | true =>
      rw [walkFrom_table (by rw [h4, p4]) (by simp), h4]
      cases p3 : isPresent (l3PtEntry m la cr3) with
      | false =>
        rw [walkFrom_absent (by rw [h3 p4, p3])]
        simp [addressOrZero]
      | true =>
        cases s3 : isLarge (l3PtEntry m la cr3) with
        | true =>
          rw [walkFrom_large (by rw [h3 p4, p3]) (by rw [h3 p4, s3]) (by decide), h3 p4]
          refine ⟨leaf_toNat _ la (k := 30) (by decide), ?_⟩
          simp [leaf, Translation.restrict]
        | false =>
          rw [walkFrom_table (by rw [h3 p4, p3]) (by rw [h3 p4, s3]; rfl), h3 p4]
          cases p2 : isPresent (l2PtEntry m la cr3) with
          | false =>
            rw [walkFrom_absent (by rw [h2 p4 p3 s3, p2])]
            simp [addressOrZero]
          | true =>
            cases s2 : isLarge (l2PtEntry m la cr3) with
            | true =>
              rw [walkFrom_large (by rw [h2 p4 p3 s3, p2]) (by rw [h2 p4 p3 s3, s2]) (by decide),
                h2 p4 p3 s3]
              refine ⟨leaf_toNat _ la (k := 21) (by decide), ?_⟩
              simp [leaf, Translation.restrict]
            | false =>
              rw [walkFrom_table (by rw [h2 p4 p3 s3, p2]) (by rw [h2 p4 p3 s3, s2]; rfl),
                h2 p4 p3 s3]
              cases p1 : isPresent (l1PtEntry m la cr3) with
              | false =>
                rw [walkFrom_absent (by rw [h1 p4 p3 s3 p2 s2, p1])]
                simp [addressOrZero]
              | true =>
                rw [walkFrom_page (by rw [h1 p4 p3 s3 p2 s2, p1]), h1 p4 p3 s3 p2 s2]
                refine ⟨leaf_toNat _ la (k := 12) (by decide), ?_⟩
                simp [leaf, Translation.restrict]
  · simp [hcan, addressOrZero]

end Agreement
end Amaterasu
