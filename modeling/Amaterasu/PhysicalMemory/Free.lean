import Amaterasu.PhysicalMemory.Lists

/-! `FreePageFrames` on a state that represents a pool: the freed block is given back and the
merge loop is a sequence of pool joins, as long as the order read off the `PAGE_TOP` flags is
the allocated one and no merge reaches below the freed frame. -/

namespace Amaterasu.PageFrames
open Block
variable {R : Set Nat} {s : PageFrames} {p : Pool R}

/-- No frame at a power-of-two distance inside the block has `PAGE_TOP`, the one behind it has. -/
def OrderVisible (s : PageFrames) (b : Block) : Prop :=
  (∀ j < b.order, (s.memoryMap (b.start + 2 ^ j)).isTop = false) ∧
    (s.memoryMap (b.start + 2 ^ b.order)).isTop = true

/-- The buddies of the orders from that of `b` to `j` are all in the free lists. -/
def BuddiesFree (s : PageFrames) (b : Block) (j : Nat) : Prop :=
  ∀ l, b.order ≤ l → l ≤ j → (⟨l, b.start⟩ : Block).buddy ∈ s.freeBlocks

/-- Every buddy that the freed block coalesces with lies above it. -/
def MergesUpward (s : PageFrames) (b : Block) : Prop :=
  ∀ j, b.order ≤ j → j ≤ pageFrameMaxOrder → BuddiesFree s b j →
    b.start < (⟨j, b.start⟩ : Block).buddy.start

theorem scanOrder_eq {b : Block} (ho : b.order < 31) (h : OrderVisible s b) :
    s.scanOrder b.start = some b.order := by
  refine List.find?_range_eq_some.mpr ⟨?_, List.mem_range.mpr ho, fun j hj => ?_⟩
  · rw [Nat.one_shiftLeft]
    exact h.2
  · rw [Nat.one_shiftLeft, h.1 j hj]
    rfl

/-! ## Giving a block back -/

/-- The freed block enters its list and loses `PAGE_ALLOCATED`. -/
theorem Represents.give (h : s.Represents p) {b : Block} (hb : b ∈ p.live) :
    ((s.addToPageFrameOrder b.order b.start).modifyPage b.start
      (·.xorFlags pageAllocated)).Represents (p.give b hb) := by
  have hlinks := links_modifyPage (s.addToPageFrameOrder b.order b.start) b.start
    (f := (·.xorFlags pageAllocated)) (fun _ => rfl) fun _ => rfl
  have hfree : ((s.addToPageFrameOrder b.order b.start).modifyPage b.start
      (·.xorFlags pageAllocated)).freeBlocks =
      (s.addToPageFrameOrder b.order b.start).freeBlocks :=
    freeBlocks_modifyPage _ b.start (fun _ => rfl) fun _ => rfl
  have hne : ∀ c ∈ p.free, c.start ≠ b.start := fun c hc e =>
    p.not_live_of_free hc (p.eq_of_start_eq (Or.inl hc) (Or.inr hb) e ▸ hb)
  obtain ⟨hlinked, hmem⟩ := mem_freeBlocks_addTo (k := b.order) (i := b.start) h.linked
    fun c hc => hne c ((h.mem c).mp hc)
  have htop : ∀ x, ((((s.addToPageFrameOrder b.order b.start).modifyPage b.start
      (·.xorFlags pageAllocated))).memoryMap x).isTop = (s.memoryMap x).isTop := fun x => by
    rw [modifyPage_field Page.isTop _ _ _ Page.isTop_xorAllocated,
      isTop_congr (flags_addTo s _ _ _)]
  have hxor : ∀ x, ((((s.addToPageFrameOrder b.order b.start).modifyPage b.start
      (·.xorFlags pageAllocated))).memoryMap x).priv =
      ((s.addToPageFrameOrder b.order b.start).memoryMap x).priv := fun x =>
    modifyPage_field Page.priv _ b.start x fun _ => rfl
  refine ⟨hlinks ▸ hlinked, fun c => ?_, ?_, ?_, fun x hx => ?_, ?_⟩
  · rw [hfree, hmem c, h.mem c]
    rfl
  · rintro c (rfl | hc) <;> rw [hxor, priv_addTo]
    · exact if_pos rfl
    · rw [if_neg (hne c hc), h.priv c hc]
  · rintro c ((rfl | hc) | ⟨hc, -⟩) <;> rw [htop]
    · exact h.top c (Or.inr hb)
    · exact h.top c (Or.inl hc)
    · exact h.top c (Or.inr hc)
  · rw [Pool.give_live]
    by_cases hxb : x = b.start
    · subst hxb
      rw [modifyPage_self, Page.isAllocated_xorAllocated, isAllocated_congr (flags_addTo s _ _ _),
        (h.allocated b.start hx).mpr ⟨b, hb, rfl⟩]
      constructor
      · intro hf
        cases hf
      · rintro ⟨c, ⟨hc, hcb⟩, e⟩
        exact absurd (p.eq_of_start_eq (Or.inr hc) (Or.inr hb) e) hcb
    · rw [modifyPage_of_ne _ _ hxb, isAllocated_congr (flags_addTo s _ _ _), h.allocated x hx]
      constructor
      · rintro ⟨c, hc, rfl⟩
        exact ⟨c, ⟨hc, fun hcb => hxb (congrArg start hcb)⟩, rfl⟩
      · rintro ⟨c, ⟨hc, -⟩, rfl⟩
        exact ⟨c, hc, rfl⟩
  · rw [← h.usable]
    refine usable_congr (by simp) fun x => ?_
    rw [modifyPage_field Page.isReserved _ _ _ Page.isReserved_xorAllocated,
      isReserved_congr (flags_addTo s _ _ _)]

/-! ## Merging -/

/-- The flag test of the merge loop finds exactly the free buddies. -/
theorem buddyIsFree_iff (h : s.Represents p) {b : Block} (hb : b ∈ p.free) :
    s.buddyIsFree b.start b.order = true ↔ b.buddy ∈ p.free := by
  have hstart : b.start ^^^ (1 <<< b.order) = b.buddy.start := by
    rw [Nat.one_shiftLeft]
    rfl
  simp only [buddyIsFree, hstart, Bool.and_eq_true, decide_eq_true_eq, beq_iff_eq,
    Bool.not_eq_true']
  constructor
  · rintro ⟨⟨⟨⟨hN, hpriv⟩, -⟩, halloc⟩, hres⟩
    have hR : b.buddy.start ∈ R := h.usable ▸ ⟨hN, hres⟩
    obtain ⟨c, hc, hxc⟩ := (p.covers _).mp hR
    by_contra hnf
    have hstart_eq : c.order ≤ b.order → c.start = b.buddy.start := fun hle => by
      -- the first frame of the buddy is aligned for the smaller block too
      have hdvd : c.size ∣ b.buddy.start :=
        (Nat.pow_dvd_pow 2 hle).trans (buddy_aligned (p.free_aligned hb))
      have hdiv := (mem_span_iff_div (p.aligned c hc)).mp hxc
      rw [← Nat.div_mul_cancel (p.aligned c hc), ← hdiv, Nat.div_mul_cancel hdvd]
    by_cases hcb : c = b.buddy
    · rcases hc with hc | hc
      · exact hnf (hcb ▸ hc)
      · rw [(h.allocated _ hR).mpr ⟨c, hc, by rw [hcb]⟩] at halloc
        cases halloc
    · have hlt := p.order_lt_of_mem_buddy (Or.inl hb) hc hcb b.buddy.start_mem_span hxc
      have hcs := hstart_eq hlt.le
      rcases hc with hc | hc
      · have := h.priv c hc
        rw [hcs, hpriv] at this
        omega
      · rw [(h.allocated _ hR).mpr ⟨c, hc, hcs⟩] at halloc
        cases halloc
  · intro hc
    have hR : b.buddy.start ∈ R := p.span_subset (Or.inl hc) b.buddy.start_mem_span
    have hu : b.buddy.start ∈ s.usable := h.usable ▸ hR
    refine ⟨⟨⟨⟨hu.1, h.priv _ hc⟩, h.top _ (Or.inl hc)⟩, ?_⟩, hu.2⟩
    rw [← Bool.not_eq_true, h.allocated _ hR]
    rintro ⟨d, hd, e⟩
    exact p.not_live_of_free hc (p.eq_of_start_eq (Or.inr hd) (Or.inl hc) e ▸ hd)

/-- One round of the merge loop joins the block with its buddy above. -/
theorem Represents.join (h : s.Represents p) {b : Block} (hb : b ∈ p.free)
    (hc : b.buddy ∈ p.free) (hlow : b.start < b.buddy.start) :
    (((s.deleteFromPageFrameOrder b.order b.start).deleteFromPageFrameOrder b.order
      b.buddy.start).addToPageFrameOrder (b.order + 1) b.start).Represents (p.join b hb hc) := by
  obtain ⟨hl1, hm1⟩ := mem_freeBlocks_deleteFrom h.linked ((h.mem b).mpr hb)
  obtain ⟨hl2, hm2⟩ := mem_freeBlocks_deleteFrom (b := b.buddy) hl1
    ((hm1 _).mpr ⟨(h.mem _).mpr hc, b.buddy_ne⟩)
  have hmem2 : ∀ c, c ∈ ((s.deleteFromPageFrameOrder b.order b.start).deleteFromPageFrameOrder
      b.order b.buddy.start).freeBlocks ↔ (c ∈ p.free ∧ c ≠ b) ∧ c ≠ b.buddy := fun c => by
    rw [← h.mem c, ← hm1 c]
    exact hm2 c
  have hne : ∀ c ∈ p.free, c ≠ b → c.start ≠ b.start := fun c hcp hcb e =>
    hcb (p.eq_of_start_eq (Or.inl hcp) (Or.inl hb) e)
  obtain ⟨hl3, hm3⟩ := mem_freeBlocks_addTo (k := b.order + 1) (i := b.start) hl2
    fun c hcp => hne c ((hmem2 c).mp hcp).1.1 ((hmem2 c).mp hcp).1.2
  have hpar := parent_of_lower hlow
  have hflags : ∀ x, (((((s.deleteFromPageFrameOrder b.order b.start).deleteFromPageFrameOrder
      b.order b.buddy.start).addToPageFrameOrder (b.order + 1) b.start)).memoryMap x).flags =
      (s.memoryMap x).flags := fun x => by
    rw [flags_addTo, flags_deleteFrom, flags_deleteFrom]
  refine ⟨hl3, fun c => ?_, ?_, ?_, fun x hx => ?_, ?_⟩
  · refine (hm3 c).trans ?_
    rw [hpar.symm]
    refine (or_congr_right (hmem2 c)).trans ?_
    rw [Pool.join_free]
    simp only [Set.mem_union, Set.mem_sdiff, Set.mem_insert_iff, Set.mem_singleton_iff]
    tauto
  · rintro c (⟨hcp, hcn⟩ | rfl)
    · have hcb : c ≠ b := fun e => hcn (Or.inl e)
      rw [priv_addTo, if_neg (hne c hcp hcb), priv_deleteFrom, priv_deleteFrom, h.priv c hcp]
    · rw [priv_addTo, hpar]
      exact if_pos rfl
  · rintro c ((⟨hcp, -⟩ | rfl) | hcl) <;> rw [isTop_congr (hflags _)]
    · exact h.top c (Or.inl hcp)
    · rw [hpar]
      exact h.top b (Or.inl hb)
    · exact h.top c (Or.inr hcl)
  · rw [isAllocated_congr (hflags x), h.allocated x hx, Pool.join_live]
  · rw [← h.usable]
    exact usable_congr (by simp) fun x => isReserved_congr (hflags x)

theorem BuddiesFree.of_join {t : PageFrames} {b : Block} {m : Nat} (h : s.Represents p)
    {hb : b ∈ p.free} (hc : b.buddy ∈ p.free) (hpar : b.parent = ⟨b.order + 1, b.start⟩)
    (ht : t.Represents (p.join b hb hc)) (hm : BuddiesFree t ⟨b.order + 1, b.start⟩ m) :
    BuddiesFree s b m := by
  intro l h1 h2
  rcases Nat.eq_or_lt_of_le h1 with rfl | h1
  · exact (h.mem _).mpr hc
  rcases (ht.mem _).mp (hm l h1 h2) with ⟨hl, -⟩ | hl
  · exact (h.mem _).mpr hl
  · rw [hpar] at hl
    obtain rfl : l = b.order + 1 := congrArg Block.order hl
    exact absurd hl (Block.buddy_ne _)

theorem buddiesFree_self (h : s.Represents p) {b : Block} :
    BuddiesFree s b b.order ↔ b.buddy ∈ p.free := by
  constructor
  · exact fun hf => (h.mem _).mp (hf b.order le_rfl le_rfl)
  · intro hf l h1 h2
    obtain rfl : l = b.order := le_antisymm h2 h1
    exact (h.mem _).mpr hf

/-- The freed block is not a buddy of its own. -/
theorem buddiesFree_give (h : s.Represents p) {b : Block} (hb : b ∈ p.live) (m : Nat) :
    BuddiesFree ((s.addToPageFrameOrder b.order b.start).modifyPage b.start
      (·.xorFlags pageAllocated)) b m ↔ BuddiesFree s b m := by
  refine forall_congr' fun l => imp_congr_right fun _ => imp_congr_right fun _ => ?_
  rw [(h.give hb).mem, h.mem]
  refine or_iff_right fun hl => ?_
  have hlb : l = b.order := congrArg Block.order hl
  subst hlb
  exact b.buddy_ne hl

/-- One round of the merge loop on a block that starts with its parent. -/
theorem mergeRound (h : s.Represents p) {i j : Nat} (hj : j ≤ pageFrameMaxOrder)
    (hb : (⟨j, i⟩ : Block) ∈ p.free) (hf : s.buddyIsFree i j = true)
    (hlow : MergesUpward s ⟨j, i⟩) :
    ∃ hbud : (⟨j, i⟩ : Block).buddy ∈ p.free, (⟨j, i⟩ : Block).parent = ⟨j + 1, i⟩ ∧
      ∃ t, t = ((s.deleteFromPageFrameOrder j i).deleteFromPageFrameOrder j
          (i ^^^ (1 <<< j))).addToPageFrameOrder (j + 1) i ∧
        t.Represents (p.join ⟨j, i⟩ hb hbud) ∧
        (∀ m, BuddiesFree t ⟨j + 1, i⟩ m → BuddiesFree s ⟨j, i⟩ m) ∧
        MergesUpward t ⟨j + 1, i⟩ := by
  have hbud : (⟨j, i⟩ : Block).buddy ∈ p.free := (buddyIsFree_iff h hb).mp hf
  have hlt : i < (⟨j, i⟩ : Block).buddy.start :=
    hlow j le_rfl hj ((buddiesFree_self h).mpr hbud)
  have hpar : (⟨j, i⟩ : Block).parent = ⟨j + 1, i⟩ := parent_of_lower hlt
  have hjoin := h.join hb hbud hlt
  have hstart : (⟨j, i⟩ : Block).buddy.start = i ^^^ (1 <<< j) := by
    rw [Nat.one_shiftLeft]
    rfl
  rw [hstart] at hjoin
  have hbuddies := fun m (hm : BuddiesFree _ ⟨j + 1, i⟩ m) =>
    BuddiesFree.of_join h hbud hpar hjoin hm
  exact ⟨hbud, hpar, _, rfl, hjoin, hbuddies, fun m h1 h2 hm =>
    hlow m (Nat.le_of_succ_le h1) h2 (hbuddies m hm)⟩

/-- The merge loop coalesces the freed block as far as its buddies are free. It leaves a block
above the largest order only when the buddies of all orders are free. -/
theorem mergeUp_spec {i : Nat} (left : Nat) :
    ∀ {s : PageFrames} {p : Pool R} {j : Nat}, s.Represents p → j + left = pageFrameMaxOrder + 1 →
      (⟨j, i⟩ : Block) ∈ p.free → CoalescedBut pageFrameMaxOrder ⟨j, i⟩ p.free →
      MergesUpward s ⟨j, i⟩ →
      ∃ q : Pool R, (mergeUp left s i j).Represents q ∧ q.live = p.live ∧
        Coalesced pageFrameMaxOrder q.free ∧
        ((∀ c ∈ p.free, c.order ≤ pageFrameMaxOrder) →
          ¬BuddiesFree s ⟨j, i⟩ pageFrameMaxOrder → ∀ c ∈ q.free, c.order ≤ pageFrameMaxOrder) := by
  induction left with
  | zero =>
    intro s p j h hj hb hc hlow
    exact ⟨p, h, rfl, hc.stop fun hlt => by dsimp only at hlt; omega, fun ho _ => ho⟩
  | succ left ih =>
    intro s p j h hj hb hc hlow
    rw [mergeUp]
    split_ifs with hf
    · obtain ⟨hbud, hpar, t, rfl, hjoin, hbuddies, hup⟩ := mergeRound h (by omega) hb hf hlow
      obtain ⟨q, hq, hlive, hqc, hord⟩ := ih (j := j + 1) hjoin (by omega)
        (hpar ▸ Or.inr rfl) (hpar ▸ hc.join) hup
      refine ⟨q, hq, hlive, hqc, fun ho hn => ?_⟩
      by_cases hjm : j = pageFrameMaxOrder
      · subst hjm
        exact absurd ((buddiesFree_self h).mpr hbud) hn
      · refine hord ?_ fun hm => hn (hbuddies _ hm)
        rintro c (⟨hcp, -⟩ | rfl)
        · exact ho c hcp
        · rw [hpar]
          dsimp only
          omega
    · have hnb : (⟨j, i⟩ : Block).buddy ∉ p.free := fun hbud =>
        hf ((buddyIsFree_iff h hb).mpr hbud)
      exact ⟨p, h, rfl, hc.stop fun _ => hnb, fun ho _ => ho⟩

/-- What `FreePageFrames` does to a represented coalesced pool. -/
theorem freePageFrames_spec (h : s.Represents p) (hc : Coalesced pageFrameMaxOrder p.free)
    {b : Block} (hb : b ∈ p.live) (ho : b.order ≤ pageFrameMaxOrder) (hv : OrderVisible s b)
    (hlow : MergesUpward s b) :
    ∃ t, ∃ q : Pool R, s.freePageFrames (frameAddress (some b.start)) = some t ∧
      t.Represents q ∧ q.live = p.live \ {b} ∧ Coalesced pageFrameMaxOrder q.free ∧
      ((∀ c ∈ p.free, c.order ≤ pageFrameMaxOrder) → ¬BuddiesFree s b pageFrameMaxOrder →
        ∀ c ∈ q.free, c.order ≤ pageFrameMaxOrder) := by
  have hmax : b.order ≤ 10 := ho
  have haddr : frameAddress (some b.start) >>> 12 = b.start := Nat.shiftLeft_shiftRight ..
  have hgive := h.give hb
  have hbuddies := buddiesFree_give h hb
  obtain ⟨q, hq, hlive, hqc, hord⟩ := mergeUp_spec (i := b.start)
    (pageFrameMaxOrder + 1 - b.order) hgive (by omega) (Set.mem_insert _ _) hc.insert
    fun m h1 h2 hm => hlow m h1 h2 ((hbuddies m).mp hm)
  refine ⟨_, q, ?_, hq, hlive, hqc, fun hof hn => hord ?_ fun hm => hn ((hbuddies _).mp hm)⟩
  · rw [freePageFrames, haddr, scanOrder_eq (by omega) hv]
    rfl
  · rintro c (rfl | hcp)
    · exact ho
    · exact hof c hcp

end Amaterasu.PageFrames
