import Amaterasu.Paging.Walk

/-! `CalcPhyAddr` against the page walk of the processor on any tables: the shift of a 40-bit field
keeps the lower 40 bits of the address of a table, whose contents may be other ones there. -/

namespace Amaterasu
open PageWalk

section Agreement
variable {m : ByteMemory} {la cr3 : BitVec 64}

/-- `CalcPhyAddr` goes through the tables as the walk does, but for the lost bits. -/
theorem calcPhyAddrTables_eq (hcan : Canonical la) :
    calcPhyAddrTables m la cr3 =
      cr3.toNat :: nextTables m la (fun e => frame e 12 % 2 ^ 40) 3 cr3.toNat := by
  have h4 : entry m cr3.toNat la 3 = l4PtEntry m la cr3 := by
    unfold entry l4PtEntry
    rw [l4PtIndex_eq]
  have h3 : entry m (frame (l4PtEntry m la cr3) 12 % 2 ^ 40) la 2 = l3PtEntry m la cr3 := by
    unfold entry l3PtEntry
    rw [ptBase_toNat_mod, l3PtIndex_eq]
  have h2 : entry m (frame (l3PtEntry m la cr3) 12 % 2 ^ 40) la 1 = l2PtEntry m la cr3 := by
    unfold entry l2PtEntry
    rw [ptBase_toNat_mod, l2PtIndex_eq]
  unfold calcPhyAddrTables
  simp only [notCanonical_iff, hcan, not_true_eq_false, if_false, ne_eq, present_iff, pageSize_iff,
    ptBase_toNat_mod]
  simp only [nextTables, h4, h3, h2]
  cases isPresent (l4PtEntry m la cr3) with
  | false => rfl
  | true =>
    cases isPresent (l3PtEntry m la cr3) with
    | false => simp
    | true =>
      cases isLarge (l3PtEntry m la cr3) with
      | true => simp
      | false =>
        cases isPresent (l2PtEntry m la cr3) with
        | false => simp
        | true => cases isLarge (l2PtEntry m la cr3) <;> simp

/-- The tables are read where they are just when none of them has an address bit above the shifted
field. -/
theorem calcPhyAddrTables_eq_walkTables_iff :
    calcPhyAddrTables m la cr3 = walkTables m cr3 la ↔
      (Canonical la → frame cr3 12 = cr3.toNat ∧
        ∀ t ∈ nextTables m la (fun e => frame e 12) 3 (frame cr3 12), t < 2 ^ 40) := by
  unfold walkTables
  by_cases hcan : Canonical la
  · rw [if_pos hcan, calcPhyAddrTables_eq hcan, List.cons.injEq, eq_comm]
    simp only [hcan, true_implies]
    refine and_congr_right fun hroot => ?_
    rw [hroot]
    refine (nextTables_eq_iff (fun e => frame e 12) fun t => t % 2 ^ 40).trans ?_
    exact forall₂_congr fun t _ => Nat.mod_eq_iff_lt (by decide)
  · rw [if_neg hcan]
    exact iff_of_true (if_pos ((notCanonical_iff la).mpr hcan)) fun h => absurd h hcan

theorem tablesBelow_of_walkTables (hroot : frame cr3 12 = cr3.toNat)
    (hlow : ∀ t ∈ nextTables m la (fun e => frame e 12) 3 (frame cr3 12), t < 2 ^ 40) :
    TablesBelow m la cr3 := by
  have h4 : entry m (frame cr3 12) la 3 = l4PtEntry m la cr3 := by
    unfold entry l4PtEntry
    rw [hroot, l4PtIndex_eq]
  have h3 (h : frame (l4PtEntry m la cr3) 12 < 2 ^ 40) :
      entry m (frame (l4PtEntry m la cr3) 12) la 2 = l3PtEntry m la cr3 := by
    unfold entry
    rw [← ptBase_toNat _ h, ← l3PtIndex_eq]
    rfl
  have h2 (h : frame (l3PtEntry m la cr3) 12 < 2 ^ 40) :
      entry m (frame (l3PtEntry m la cr3) 12) la 1 = l2PtEntry m la cr3 := by
    unfold entry
    rw [← ptBase_toNat _ h, ← l2PtIndex_eq]
    rfl
  have l3pt (p4 : isPresent (l4PtEntry m la cr3)) : frame (l4PtEntry m la cr3) 12 < 2 ^ 40 ∧
      ∀ t ∈ nextTables m la (fun e => frame e 12) 2 (frame (l4PtEntry m la cr3) 12),
        t < 2 ^ 40 := by
    rwa [nextTables_table (by rw [h4, p4]) (by simp), h4, List.forall_mem_cons] at hlow
  have l2pt (p4 : isPresent (l4PtEntry m la cr3)) (p3 : isPresent (l3PtEntry m la cr3))
      (s3 : isLarge (l3PtEntry m la cr3) = false) : frame (l3PtEntry m la cr3) 12 < 2 ^ 40 ∧
      ∀ t ∈ nextTables m la (fun e => frame e 12) 1 (frame (l3PtEntry m la cr3) 12),
        t < 2 ^ 40 := by
    obtain ⟨hbase, hlow⟩ := l3pt p4
    rwa [nextTables_table (by rw [h3 hbase, p3]) (by rw [h3 hbase, s3]; rfl), h3 hbase,
      List.forall_mem_cons] at hlow
  refine ⟨hroot, fun p4 => (l3pt p4).1, fun p4 p3 s3 => (l2pt p4 p3 s3).1,
    fun p4 p3 s3 p2 s2 => ?_⟩
  obtain ⟨hbase, hlow⟩ := l2pt p4 p3 s3
  rw [nextTables_table (by rw [h2 hbase, p2]) (by rw [h2 hbase, s2]; rfl), h2 hbase,
    List.forall_mem_cons] at hlow
  exact hlow.1

/-- `CalcPhyAddr` gives the address of the walk and reads each table at its full address, just when
every table that the walk goes on to lies below `2 ^ 40`. -/
theorem calcPhyAddr_eq_walk_iff (m : ByteMemory) (la cr3 : BitVec 64) :
    (calcPhyAddr m la cr3).toNat = addressOrZero (walk m cr3 la) ∧
        calcPhyAddrTables m la cr3 = walkTables m cr3 la ↔
      (Canonical la → frame cr3 12 = cr3.toNat ∧
        ∀ t ∈ nextTables m la (fun e => frame e 12) 3 (frame cr3 12), t < 2 ^ 40) := by
  rw [← calcPhyAddrTables_eq_walkTables_iff]
  refine and_iff_right_of_imp fun htables => ?_
  by_cases hcan : Canonical la
  · obtain ⟨hroot, hlow⟩ := calcPhyAddrTables_eq_walkTables_iff.mp htables hcan
    exact (calcPhyAddr_eq_walk (tablesBelow_of_walkTables hroot hlow)).1
  · have hzero : calcPhyAddr m la cr3 = 0 := if_pos ((notCanonical_iff la).mpr hcan)
    rw [walk, if_neg hcan, hzero]
    rfl

/-- A 1 GiB page, whose table lies at `2 ^ 40`. -/
def highTable : ByteMemory
  | 0x1000 => 0x03
  | 0x1005 => 0x01
  | 0x10000000000 => 0x83
  | 0x10000000003 => 0x40
  | _ => 0

/-- The page is not found. -/
theorem calcPhyAddr_highTable :
    addressOrZero (walk highTable 0x1000 0) = 0x40000000 ∧
      (calcPhyAddr highTable 0 0x1000).toNat = 0 :=
  ⟨by decide, by decide⟩

end Agreement
end Amaterasu
