import Amaterasu.Process.PageTable

/-! The address space of a process: the first 5 GiB for the kernel, one text page and one stack
page for the user. `SetUpPageTable` builds the tables that describe it. -/

namespace Amaterasu
open PageWalk

/-- The frames of a page table, in the order of their allocation. -/
structure TableFrames where
  l3Lower : BitVec 64
  l1 : BitVec 64
  l2 : BitVec 64
  l3 : BitVec 64
  l4 : BitVec 64

def TableFrames.toList (f : TableFrames) : List (BitVec 64) := [f.l3Lower, f.l1, f.l2, f.l3, f.l4]

/-- Where a linear address leads in the address space of a process. -/
def addressSpace (text stack la : BitVec 64) : Option Translation :=
  if la.toNat < 5 * 2 ^ 30 then some ⟨la.toNat, true, false⟩
  else if la.toNat / 2 ^ 12 = 2 ^ 52 - 2 then some ⟨text.toNat + la.toNat % 2 ^ 12, true, true⟩
  else if la.toNat / 2 ^ 12 = 2 ^ 52 - 1 then some ⟨stack.toNat + la.toNat % 2 ^ 12, true, true⟩
  else none

/-- The user reaches two pages. -/
theorem addressSpace_user {text stack la : BitVec 64} :
    (∃ t ∈ addressSpace text stack la, t.user = true) ↔
      la.toNat / 2 ^ 12 = 2 ^ 52 - 2 ∨ la.toNat / 2 ^ 12 = 2 ^ 52 - 1 := by
  unfold addressSpace
  split_ifs with hlow htext hstack
  · simp only [Option.mem_def, Option.some.injEq, exists_eq_left', Bool.false_eq_true, false_iff]
    omega
  · simp only [Option.mem_def, Option.some.injEq, exists_eq_left', htext, true_or]
  · simp only [Option.mem_def, Option.some.injEq, exists_eq_left', hstack, or_true]
  · simp only [Option.mem_def, reduceCtorEq, false_and, exists_false, htext, hstack, or_self]

/-- The words of the five tables. -/
structure Describes (m : ByteMemory) (f : TableFrames) (text stack : BitVec 64) : Prop where
  frames : ∀ a ∈ f.toList, IsFrame a
  lower : ∀ i < 5, PointsTo (m.readWord (f.l3Lower.toNat + 8 * i)) false true 30 (i * 2 ^ 30)
  lowerRest : ∀ i < 512, 5 ≤ i → isPresent (m.readWord (f.l3Lower.toNat + 8 * i)) = false
  text : PointsTo (m.readWord (f.l1.toNat + 8 * 510)) true false 12 text.toNat
  stack : PointsTo (m.readWord (f.l1.toNat + 8 * 511)) true false 12 stack.toNat
  l1Rest : ∀ i < 510, isPresent (m.readWord (f.l1.toNat + 8 * i)) = false
  l2 : PointsTo (m.readWord (f.l2.toNat + 8 * 511)) true false 12 f.l1.toNat
  l2Rest : ∀ i < 511, isPresent (m.readWord (f.l2.toNat + 8 * i)) = false
  l3 : PointsTo (m.readWord (f.l3.toNat + 8 * 511)) true false 12 f.l2.toNat
  l3Rest : ∀ i < 511, isPresent (m.readWord (f.l3.toNat + 8 * i)) = false
  l4Lower : PointsTo (m.readWord (f.l4.toNat + 8 * 0)) false false 12 f.l3Lower.toNat
  l4Higher : PointsTo (m.readWord (f.l4.toNat + 8 * 511)) true false 12 f.l3.toNat
  l4Rest : ∀ i < 511, 0 < i → isPresent (m.readWord (f.l4.toNat + 8 * i)) = false

/-- The description depends on the bytes of the five frames only. -/
theorem Describes.congr {m m' : ByteMemory} {f : TableFrames} {text stack : BitVec 64}
    (h : Describes m f text stack)
    (hm : ∀ a ∈ f.toList, ∀ x, a.toNat ≤ x → x < a.toNat + 4096 → m' x = m x) :
    Describes m' f text stack := by
  have hword : ∀ a ∈ f.toList, ∀ i < 512,
      m'.readWord (a.toNat + 8 * i) = m.readWord (a.toNat + 8 * i) := fun a ha i hi => by
    apply ByteMemory.readWord_congr
    intro j hj
    exact hm a ha _ (by omega) (by omega)
  simp only [TableFrames.toList, List.forall_mem_cons] at hword
  obtain ⟨h0, h1, h2, h3, h4, -⟩ := hword
  refine ⟨h.frames, fun i hi => ?_, fun i hi h5 => ?_, ?_, ?_, fun i hi => ?_, ?_, fun i hi => ?_,
    ?_, fun i hi => ?_, ?_, ?_, fun i hi hpos => ?_⟩
  · rw [h0 i (by omega)]
    exact h.lower i hi
  · rw [h0 i hi]
    exact h.lowerRest i hi h5
  · rw [h1 510 (by decide)]
    exact h.text
  · rw [h1 511 (by decide)]
    exact h.stack
  · rw [h1 i (by omega)]
    exact h.l1Rest i hi
  · rw [h2 511 (by decide)]
    exact h.l2
  · rw [h2 i (by omega)]
    exact h.l2Rest i hi
  · rw [h3 511 (by decide)]
    exact h.l3
  · rw [h3 i (by omega)]
    exact h.l3Rest i hi
  · rw [h4 0 (by decide)]
    exact h.l4Lower
  · rw [h4 511 (by decide)]
    exact h.l4Higher
  · rw [h4 i (by omega)]
    exact h.l4Rest i hi hpos

/-! ## The walk -/

section Walk
variable {m : ByteMemory} {f : TableFrames} {text stack la : BitVec 64} {user : Bool}
  {table address level : Nat}

theorem IsFrame.frame_eq {a : BitVec 64} (h : IsFrame a) : frame a 12 = a.toNat := by
  obtain ⟨⟨k, hk⟩, hlt⟩ := h
  unfold frame
  omega

theorem PointsTo.walk (h : PointsTo (entry m table la (level + 1)) user false 12 address) :
    walkFrom m la (level + 1) table = (walkFrom m la level address).map fun t =>
      ⟨t.address, t.writable, user && t.user⟩ := by
  rw [walkFrom_table h.present (by rw [h.large]; rfl), h.frame]
  unfold Translation.restrict
  rw [h.user, h.writable]
  rfl

theorem PointsTo.leaf {e : BitVec 64} {large : Bool} (level : Nat)
    (h : PointsTo e user large (shift level) address) :
    leaf e la level = ⟨address + la.toNat % 2 ^ shift level, true, user⟩ := by
  unfold PageWalk.leaf
  rw [h.frame, h.writable, h.user]

theorem entry_eq {i : Nat} (h : index la level = i) :
    m.readWord (table + 8 * i) = entry m table la level := by
  unfold entry
  rw [h]

theorem Describes.walk_lower (h : Describes m f text stack) (hla : la.toNat < 2 ^ 39) :
    walkFrom m la 3 f.l4.toNat = addressSpace text stack la := by
  have h3 : index la 3 = 0 := by
    show la.toNat / 2 ^ 39 % 512 = 0
    omega
  have h2 : index la 2 = la.toNat / 2 ^ 30 := by
    show la.toNat / 2 ^ 30 % 512 = _
    omega
  have hl4 := h.l4Lower
  rw [entry_eq h3] at hl4
  rw [hl4.walk]
  unfold addressSpace
  by_cases hlow : la.toNat < 5 * 2 ^ 30
  · have hpage := h.lower (la.toNat / 2 ^ 30) (by omega)
    rw [entry_eq h2] at hpage
    have hsum : la.toNat / 2 ^ 30 * 2 ^ 30 + la.toNat % 2 ^ 30 = la.toNat := Nat.div_add_mod' _ _
    rw [walkFrom_large hpage.present hpage.large (by decide), if_pos hlow,
      PointsTo.leaf 2 hpage]
    exact congrArg (fun a => some (Translation.mk a true false)) hsum
  · have habsent := h.lowerRest (la.toNat / 2 ^ 30) (by omega) (by omega)
    rw [entry_eq h2] at habsent
    rw [walkFrom_absent habsent, if_neg hlow, if_neg (by omega), if_neg (by omega)]
    rfl

theorem Describes.walk_higher (h : Describes m f text stack) (hla : 2 ^ 64 - 2 ^ 39 ≤ la.toNat) :
    walkFrom m la 3 f.l4.toNat = addressSpace text stack la := by
  have hlt : la.toNat < 2 ^ 64 := la.isLt
  have h3 : index la 3 = 511 := by
    show la.toNat / 2 ^ 39 % 512 = 511
    omega
  have hl4 := h.l4Higher
  rw [entry_eq h3] at hl4
  rw [hl4.walk]
  unfold addressSpace
  rw [if_neg (by omega)]
  have hi2 : index la 2 = la.toNat / 2 ^ 30 % 512 := rfl
  have hi1 : index la 1 = la.toNat / 2 ^ 21 % 512 := rfl
  have hi0 : index la 0 = la.toNat / 2 ^ 12 % 512 := rfl
  by_cases h2 : index la 2 = 511
  · have hl3 := h.l3
    rw [entry_eq h2] at hl3
    rw [hl3.walk]
    by_cases h1 : index la 1 = 511
    · have hl2 := h.l2
      rw [entry_eq h1] at hl2
      rw [hl2.walk]
      by_cases htext : index la 0 = 510
      · have hpage := h.text
        rw [entry_eq htext] at hpage
        rw [walkFrom_page hpage.present, PointsTo.leaf 0 hpage, if_pos (by omega)]
        rfl
      · by_cases hstack : index la 0 = 511
        · have hpage := h.stack
          rw [entry_eq hstack] at hpage
          rw [walkFrom_page hpage.present, PointsTo.leaf 0 hpage, if_neg (by omega),
            if_pos (by omega)]
          rfl
        · have habsent := h.l1Rest (index la 0) (by omega)
          rw [entry_eq rfl] at habsent
          rw [walkFrom_absent habsent, if_neg (by omega), if_neg (by omega)]
          rfl
    · have habsent := h.l2Rest (index la 1) (by omega)
      rw [entry_eq rfl] at habsent
      rw [walkFrom_absent habsent, if_neg (by omega), if_neg (by omega)]
      rfl
  · have habsent := h.l3Rest (index la 2) (by omega)
    rw [entry_eq rfl] at habsent
    rw [walkFrom_absent habsent, if_neg (by omega), if_neg (by omega)]
    rfl

theorem Describes.frame (h : Describes m f text stack) {a : BitVec 64} (ha : a ∈ f.toList) :
    frame a 12 = a.toNat := (h.frames a ha).frame_eq

/-- The processor sees the address space of the process. -/
theorem Describes.walk_eq (h : Describes m f text stack) :
    walk m f.l4 la = addressSpace text stack la := by
  have hlt : la.toNat < 2 ^ 64 := la.isLt
  have hroot : PageWalk.frame f.l4 12 = f.l4.toNat := h.frame (by simp [TableFrames.toList])
  unfold walk
  rw [hroot]
  by_cases hlow : la.toNat < 2 ^ 39
  · rw [if_pos (show Canonical la from Or.inl (by omega)), h.walk_lower hlow]
  · by_cases hhigh : 2 ^ 64 - 2 ^ 39 ≤ la.toNat
    · rw [if_pos (show Canonical la from Or.inr (by omega)), h.walk_higher hhigh]
    · -- neither half of the top table that is in use
      have hnone : addressSpace text stack la = none := by
        unfold addressSpace
        rw [if_neg (by omega), if_neg (by omega), if_neg (by omega)]
      rw [hnone]
      split_ifs with hcan
      · unfold Canonical at hcan
        have habsent := h.l4Rest (index la 3) (show la.toNat / 2 ^ 39 % 512 < 511 by omega)
          (show 0 < la.toNat / 2 ^ 39 % 512 by omega)
        rw [entry_eq rfl] at habsent
        exact walkFrom_absent habsent
      · rfl

end Walk

/-! ## The walk of `CalcPhyAddr` -/

section Calc
variable {m : ByteMemory} {f : TableFrames} {text stack la : BitVec 64}

theorem PointsTo.below {e a : BitVec 64} {user large : Bool} (h : PointsTo e user large 12 a.toNat)
    (ha : a.toNat < 2 ^ 40) : PageWalk.frame e 12 < 2 ^ 40 := by
  rwa [h.frame]

theorem PointsTo.ptBase {e a : BitVec 64} {user large : Bool} (h : PointsTo e user large 12 a.toNat)
    (ha : a.toNat < 2 ^ 40) : (ptBase e).toNat = a.toNat := by
  rw [ptBase_toNat e (h.below ha), h.frame]

theorem Describes.l4_cases (h : Describes m f text stack) {i : Nat} (hi : i < 512)
    (hp : isPresent (m.readWord (f.l4.toNat + 8 * i)) = true) :
    PointsTo (m.readWord (f.l4.toNat + 8 * i)) false false 12 f.l3Lower.toNat ∨
      PointsTo (m.readWord (f.l4.toNat + 8 * i)) true false 12 f.l3.toNat := by
  by_cases h0 : i = 0
  · rw [h0]
    exact Or.inl h.l4Lower
  · by_cases h511 : i = 511
    · rw [h511]
      exact Or.inr h.l4Higher
    · rw [h.l4Rest i (by omega) (by omega)] at hp
      cases hp

theorem Describes.lower_large (h : Describes m f text stack) {i : Nat} (hi : i < 512)
    (hp : isPresent (m.readWord (f.l3Lower.toNat + 8 * i)) = true) :
    isLarge (m.readWord (f.l3Lower.toNat + 8 * i)) = true := by
  by_cases h5 : i < 5
  · exact (h.lower i h5).large
  · rw [h.lowerRest i hi (by omega)] at hp
    cases hp

theorem Describes.l3_pointsTo (h : Describes m f text stack) {i : Nat} (hi : i < 512)
    (hp : isPresent (m.readWord (f.l3.toNat + 8 * i)) = true) :
    PointsTo (m.readWord (f.l3.toNat + 8 * i)) true false 12 f.l2.toNat := by
  by_cases h511 : i = 511
  · rw [h511]
    exact h.l3
  · rw [h.l3Rest i (by omega)] at hp
    cases hp

theorem Describes.l2_pointsTo (h : Describes m f text stack) {i : Nat} (hi : i < 512)
    (hp : isPresent (m.readWord (f.l2.toNat + 8 * i)) = true) :
    PointsTo (m.readWord (f.l2.toNat + 8 * i)) true false 12 f.l1.toNat := by
  by_cases h511 : i = 511
  · rw [h511]
    exact h.l2
  · rw [h.l2Rest i (by omega)] at hp
    cases hp

/-- `CalcPhyAddr` needs tables whose addresses it does not truncate. -/
theorem Describes.tablesBelow (h : Describes m f text stack)
    (hlow : ∀ a ∈ f.toList, a.toNat < 2 ^ 40) (la : BitVec 64) : TablesBelow m la f.l4 := by
  have hroot : PageWalk.frame f.l4 12 = f.l4.toNat := h.frame (by simp [TableFrames.toList])
  simp only [TableFrames.toList, List.forall_mem_cons] at hlow
  obtain ⟨f0, f1, f2, f3, -, -⟩ := hlow
  have hi : ∀ level, index la level < 512 := fun _ => Nat.mod_lt _ (by decide)
  have hl4 : isPresent (l4PtEntry m la f.l4) = true → _ := fun hp => h.l4_cases
    (i := l4PtIndex la) (by rw [l4PtIndex_eq]; exact hi 3) hp
  -- below the top table, only the upper half leads to further tables
  have hl3 : isPresent (l4PtEntry m la f.l4) = true → isPresent (l3PtEntry m la f.l4) = true →
      isLarge (l3PtEntry m la f.l4) = false →
      PointsTo (l3PtEntry m la f.l4) true false 12 f.l2.toNat := fun p4 p3 s3 => by
    have hlt : l3PtIndex la < 512 := by
      rw [l3PtIndex_eq]
      exact hi 2
    unfold l3PtEntry at p3 s3 ⊢
    rcases hl4 p4 with hlow | hhigh
    · rw [PointsTo.ptBase (e := l4PtEntry m la f.l4) hlow f0] at p3 s3
      rw [h.lower_large hlt p3] at s3
      cases s3
    · rw [PointsTo.ptBase (e := l4PtEntry m la f.l4) hhigh f3] at p3 ⊢
      exact h.l3_pointsTo hlt p3
  refine ⟨hroot, fun p4 => ?_, fun p4 p3 s3 => (hl3 p4 p3 s3).below f2,
    fun p4 p3 s3 p2 _ => ?_⟩
  · rcases hl4 p4 with hlow | hhigh
    · exact hlow.below f0
    · exact hhigh.below f3
  · have hlt : l2PtIndex la < 512 := by
      rw [l2PtIndex_eq]
      exact hi 1
    unfold l2PtEntry at p2 ⊢
    rw [(hl3 p4 p3 s3).ptBase f2] at p2 ⊢
    exact (h.l2_pointsTo hlt p2).below f1

end Calc

/-! ## The tables that `SetUpPageTable` leaves -/

section SetUp
variable {m : ByteMemory} {f : TableFrames} {text stack : BitVec 64} {a b : BitVec 64} {i : Nat}

theorem IsFrame.apart (ha : IsFrame a) (hb : IsFrame b) (hab : a ≠ b) :
    a.toNat + 4096 ≤ b.toNat ∨ b.toNat + 4096 ≤ a.toNat := by
  obtain ⟨⟨k, hk⟩, -⟩ := ha
  obtain ⟨⟨l, hl⟩, -⟩ := hb
  have hne : a.toNat ≠ b.toNat := fun h => hab (BitVec.eq_of_toNat_eq h)
  omega

/-- The frames of a page table can be used: `SetUpPageTable` finds none of them null. -/
structure TableFrames.Usable (f : TableFrames) : Prop where
  frames : ∀ a ∈ f.toList, IsFrame a
  nonzero : ∀ a ∈ f.toList, a ≠ 0
  nodup : f.toList.Nodup

-- by `List.all`: the quantifier over `BitVec 64` itself is decidable by going through every word
instance (f : TableFrames) : Decidable f.Usable :=
  decidable_of_iff (f.toList.all (fun a => IsFrame a ∧ a ≠ 0) ∧ f.toList.Nodup) <| by
    simp only [List.all_eq_true, decide_eq_true_eq]
    exact ⟨fun h => ⟨fun a ha => (h.1 a ha).1, fun a ha => (h.1 a ha).2, h.2⟩,
      fun h => ⟨fun a ha => ⟨h.frames a ha, h.nonzero a ha⟩, h.nodup⟩⟩

/-- The five loops. -/
def fillTables (m : ByteMemory) (f : TableFrames) (text stackBase : BitVec 64) : ByteMemory :=
  let m := m.modifyWords f.l3Lower.toNat l3PtLower 512
  let m := m.modifyWords f.l1.toNat (l1PtHigher text stackBase) 512
  let m := m.modifyWords f.l2.toNat (l2PtHigher f.l1) 512
  let m := m.modifyWords f.l3.toNat (l3PtHigher f.l2) 512
  m.modifyWords f.l4.toNat (l4Pt f.l3Lower f.l3) 512

theorem setUpPageTable_eq (h : f.Usable) (frames : List (BitVec 64)) (stackBase : BitVec 64) :
    setUpPageTable m (f.toList ++ frames) text stackBase =
      (f.l4, fillTables m f text stackBase, frames) := by
  have hne := h.nonzero
  simp only [TableFrames.toList, List.forall_mem_cons] at hne
  obtain ⟨h0, h1, h2, h3, h4, -⟩ := hne
  unfold setUpPageTable TableFrames.toList fillTables
  simp only [List.cons_append, allocatePageFrame, h0, h1, h2, h3, h4, if_false, List.nil_append]

theorem readWord_other {g : Nat → BitVec 64 → BitVec 64} (ha : IsFrame a) (hb : IsFrame b)
    (hab : a ≠ b) (hi : i < 512) :
    (m.modifyWords b.toNat g 512).readWord (a.toNat + 8 * i) = m.readWord (a.toNat + 8 * i) := by
  apply ByteMemory.readWord_modifyWords_of_disjoint
  rcases ha.apart hb hab with h | h <;> omega

theorem TableFrames.Usable.describes (h : f.Usable) (ht : IsFrame text) (hs : IsFrame stack) :
    Describes (fillTables m f text (stack - 8 + pageSize)) f text stack := by
  have hframes := h.frames
  have hnodup := h.nodup
  simp only [TableFrames.toList, List.forall_mem_cons] at hframes
  simp only [TableFrames.toList, List.nodup_cons, List.mem_cons, List.not_mem_nil, not_or,
    or_false] at hnodup
  obtain ⟨f0, f1, f2, f3, f4, -⟩ := hframes
  obtain ⟨⟨n01, n02, n03, n04⟩, ⟨n12, n13, n14⟩, ⟨n23, n24⟩, n34, -⟩ := hnodup
  have hbase : stack - 8 + pageSize + 8 - pageSize = stack := by
    unfold pageSize
    grind
  have hlower : ∀ j < 512, ∃ e, (fillTables m f text (stack - 8 + pageSize)).readWord
      (f.l3Lower.toNat + 8 * j) = l3PtLower j e := fun j hj => by
    unfold fillTables
    rw [readWord_other f0 f4 n04 hj, readWord_other f0 f3 n03 hj, readWord_other f0 f2 n02 hj,
      readWord_other f0 f1 n01 hj, ByteMemory.readWord_modifyWords hj]
    exact ⟨_, rfl⟩
  have hl1 : ∀ j < 512, ∃ e, (fillTables m f text (stack - 8 + pageSize)).readWord
      (f.l1.toNat + 8 * j) = l1PtHigher text (stack - 8 + pageSize) j e := fun j hj => by
    unfold fillTables
    rw [readWord_other f1 f4 n14 hj, readWord_other f1 f3 n13 hj, readWord_other f1 f2 n12 hj,
      ByteMemory.readWord_modifyWords hj]
    exact ⟨_, rfl⟩
  have hl2 : ∀ j < 512, ∃ e, (fillTables m f text (stack - 8 + pageSize)).readWord
      (f.l2.toNat + 8 * j) = l2PtHigher f.l1 j e := fun j hj => by
    unfold fillTables
    rw [readWord_other f2 f4 n24 hj, readWord_other f2 f3 n23 hj,
      ByteMemory.readWord_modifyWords hj]
    exact ⟨_, rfl⟩
  have hl3 : ∀ j < 512, ∃ e, (fillTables m f text (stack - 8 + pageSize)).readWord
      (f.l3.toNat + 8 * j) = l3PtHigher f.l2 j e := fun j hj => by
    unfold fillTables
    rw [readWord_other f3 f4 n34 hj, ByteMemory.readWord_modifyWords hj]
    exact ⟨_, rfl⟩
  have hl4 : ∀ j < 512, ∃ e, (fillTables m f text (stack - 8 + pageSize)).readWord
      (f.l4.toNat + 8 * j) = l4Pt f.l3Lower f.l3 j e := fun j hj => by
    unfold fillTables
    rw [ByteMemory.readWord_modifyWords hj]
    exact ⟨_, rfl⟩
  exact {
    frames := h.frames
    lower := fun j hj => by
      obtain ⟨e, he⟩ := hlower j (by omega)
      rw [he, l3PtLower, if_pos hj]
      exact gigabyteEntry_pointsTo e hj
    lowerRest := fun j hj h5 => by
      obtain ⟨e, he⟩ := hlower j hj
      rw [he, l3PtLower, if_neg (by omega)]
      exact absentEntry_spec e
    text := by
      obtain ⟨e, he⟩ := hl1 510 (by decide)
      rw [he]
      exact pageEntry_pointsTo e ht
    stack := by
      obtain ⟨e, he⟩ := hl1 511 (by decide)
      rw [he]
      show PointsTo (pageEntry (stack - 8 + pageSize + 8 - pageSize) e) _ _ _ _
      rw [hbase]
      exact pageEntry_pointsTo e hs
    l1Rest := fun j hj => by
      obtain ⟨e, he⟩ := hl1 j (by omega)
      rw [he, l1PtHigher, if_neg (by omega), if_neg (by omega)]
      exact absentEntry_spec e
    l2 := by
      obtain ⟨e, he⟩ := hl2 511 (by decide)
      rw [he]
      exact tableEntry_pointsTo e f1
    l2Rest := fun j hj => by
      obtain ⟨e, he⟩ := hl2 j (by omega)
      rw [he, l2PtHigher, if_neg (by omega)]
      exact absentEntry_spec e
    l3 := by
      obtain ⟨e, he⟩ := hl3 511 (by decide)
      rw [he]
      exact tableEntry_pointsTo e f2
    l3Rest := fun j hj => by
      obtain ⟨e, he⟩ := hl3 j (by omega)
      rw [he, l3PtHigher, if_neg (by omega)]
      exact absentEntry_spec e
    l4Lower := by
      obtain ⟨e, he⟩ := hl4 0 (by decide)
      rw [he]
      exact tableEntry_pointsTo e f0
    l4Higher := by
      obtain ⟨e, he⟩ := hl4 511 (by decide)
      rw [he]
      exact tableEntry_pointsTo e f3
    l4Rest := fun j hj h0 => by
      obtain ⟨e, he⟩ := hl4 j (by omega)
      rw [he, l4Pt, if_neg (by omega), if_neg (by omega)]
      exact absentEntry_spec e }

/-- Nothing but the five frames is written. -/
theorem fillTables_outside {x : Nat} {stackBase : BitVec 64}
    (hx : ∀ a ∈ f.toList, x < a.toNat ∨ a.toNat + 4096 ≤ x) :
    fillTables m f text stackBase x = m x := by
  simp only [TableFrames.toList, List.forall_mem_cons] at hx
  obtain ⟨h0, h1, h2, h3, h4, -⟩ := hx
  unfold fillTables
  rw [ByteMemory.modifyWords_outside h4, ByteMemory.modifyWords_outside h3,
    ByteMemory.modifyWords_outside h2, ByteMemory.modifyWords_outside h1,
    ByteMemory.modifyWords_outside h0]

theorem page_iff {la : BitVec 64} (p : Nat) (hp : p < 2 ^ 64) :
    la >>> 12 = BitVec.ofNat 64 p ↔ la.toNat / 2 ^ 12 = p := by
  rw [← BitVec.toNat_inj, BitVec.toNat_ushiftRight, Nat.shiftRight_eq_div_pow, BitVec.toNat_ofNat,
    Nat.mod_eq_of_lt hp]

theorem IsFrame.add_offset (ha : IsFrame a) (la : BitVec 64) :
    (a + (la &&& 0xfff)).toNat = a.toNat + la.toNat % 2 ^ 12 := by
  have hmask : (la &&& 0xfff).toNat = la.toNat % 2 ^ 12 := by
    rw [BitVec.toNat_and]
    exact Nat.and_two_pow_sub_one_eq_mod _ 12
  have hlt := ha.below
  rw [BitVec.toNat_add, hmask]
  omega

/-- `CalcPhyAddr` reads the tables of `SetUpPageTable` as the address space of the process, and the
pages of the user are the only ones a user may reach. -/
theorem setUpPageTable_translates (hf : f.Usable) (hlow : ∀ a ∈ f.toList, a.toNat < 2 ^ 40)
    (ht : IsFrame text) (hs : IsFrame stack) (frames : List (BitVec 64)) (la : BitVec 64) :
    let r := setUpPageTable m (f.toList ++ frames) text (stack - 8 + pageSize)
    calcPhyAddr r.2.1 la r.1 =
      (if la.toNat < 5 * 2 ^ 30 then la
      else if la >>> 12 = 0xffffffffffffe then text + (la &&& 0xfff)
      else if la >>> 12 = 0xfffffffffffff then stack + (la &&& 0xfff)
      else 0) ∧
    (userAtEveryLevel r.2.1 la r.1 ↔
      la >>> 12 = 0xffffffffffffe ∨ la >>> 12 = 0xfffffffffffff) := by
  have hd : Describes (fillTables m f text (stack - 8 + pageSize)) f text stack :=
    hf.describes ht hs
  obtain ⟨hcalc, huser⟩ := calcPhyAddr_eq_walk (hd.tablesBelow hlow la)
  rw [hd.walk_eq] at hcalc huser
  rw [setUpPageTable_eq hf]
  dsimp only
  have htextPage : la >>> 12 = 0xffffffffffffe ↔ la.toNat / 2 ^ 12 = 2 ^ 52 - 2 :=
    page_iff (2 ^ 52 - 2) (by decide)
  have hstackPage : la >>> 12 = 0xfffffffffffff ↔ la.toNat / 2 ^ 12 = 2 ^ 52 - 1 :=
    page_iff (2 ^ 52 - 1) (by decide)
  simp only [htextPage, hstackPage]
  constructor
  · apply BitVec.eq_of_toNat_eq
    rw [hcalc]
    unfold addressSpace addressOrZero
    split_ifs with hlow htext hstack
    · rfl
    · exact (ht.add_offset la).symm
    · exact (hs.add_offset la).symm
    · rfl
  · rw [huser, addressSpace_user]

theorem setUpPageTable_translates_text : ∃ r,
    r = setUpPageTable (fun _ => 0xff)
      (TableFrames.toList ⟨0x201000, 0x202000, 0x203000, 0x204000, 0x205000⟩ ++ [])
      0x206000 (0x207000 - 8 + pageSize) ∧
    calcPhyAddr r.2.1 0xffffffffffffe123 r.1 = 0x206123 ∧
    userAtEveryLevel r.2.1 0xffffffffffffe123 r.1 := by
  have hf : TableFrames.Usable ⟨0x201000, 0x202000, 0x203000, 0x204000, 0x205000⟩ := by decide
  have hlow : ∀ a ∈ TableFrames.toList ⟨0x201000, 0x202000, 0x203000, 0x204000, 0x205000⟩,
      a.toNat < 2 ^ 40 := by
    simp only [TableFrames.toList, List.forall_mem_cons, List.not_mem_nil, IsEmpty.forall_iff,
        implies_true, and_true]
    decide
  have ht : IsFrame 0x206000 := by decide
  have hs : IsFrame 0x207000 := by decide
  obtain ⟨hcalc, huser⟩ := setUpPageTable_translates (m := fun _ => 0xff) hf hlow ht hs []
    0xffffffffffffe123
  exact ⟨_, rfl, hcalc.trans (by decide), huser.mpr (Or.inl (by decide))⟩

end SetUp
end Amaterasu
