import Amaterasu.KHeap.Alloc

/-! `kfree` on a heap that represents a pool. The merge loop looks only at `isAllocated` of the
buddy's first cell, so it coalesces what it should as long as every buddy it takes is a free
block of its order; when the buddy is also the front of its list, nothing else is lost. -/

namespace Amaterasu.KHeap
open Block
variable {R : Set Nat} {h : KHeap} {p : Pool R}

/-- Every buddy met on the way up from `b`, before one whose first cell is marked allocated,
satisfies `ok`. -/
def Merges (h : KHeap) (ok : Block → Prop) : Nat → Block → Prop
  | 0, _ => True
  | left + 1, b => (h.kHeapBlocks b.buddy.start).isAllocated = true ∨
      ok b.buddy ∧ Merges h ok left b.parent

instance decidableMerges (h : KHeap) (ok : Block → Prop) [DecidablePred ok] :
    ∀ (left : Nat) (b : Block), Decidable (h.Merges ok left b)
  | 0, _ => inferInstanceAs (Decidable True)
  | left + 1, b =>
    have := decidableMerges h ok left b.parent
    inferInstanceAs (Decidable (_ = true ∨ ok b.buddy ∧ h.Merges ok left b.parent))

/-- The freed block at `b` only takes in free blocks. -/
def MergesFree (h : KHeap) (b : Block) : Prop :=
  h.Merges (· ∈ h.freeBlocks) (kHeapMaxOrder - b.order) b

/-- The freed block at `b` only takes in blocks from the front of their lists. -/
def MergesFront (h : KHeap) (b : Block) : Prop :=
  h.Merges (fun c => h.kHeapOrder c.order = some c.start) (kHeapMaxOrder - b.order) b

instance (h : KHeap) (b : Block) : Decidable (h.MergesFront b) :=
  inferInstanceAs (Decidable (h.Merges _ _ b))

theorem Merges.imp {ok ok' : Block → Prop} (hok : ∀ c, ok c → ok' c) {left : Nat} {b : Block}
    (hm : h.Merges ok left b) : h.Merges ok' left b := by
  induction left generalizing b with
  | zero => trivial
  | succ left ih => exact Or.imp id (fun ⟨hc, hm⟩ => ⟨hok _ hc, ih hm⟩) hm

theorem MergesFront.free {b : Block} (hm : h.MergesFront b) : h.MergesFree b :=
  Merges.imp (fun _ hc => Links.head_mem (l := h.links) hc) hm

theorem freedCell_isAllocated {addr id : Nat} (hid : h.freedCell addr = some id) :
    (h.kHeapBlocks id).isAllocated = true := by
  unfold freedCell at hid
  split_ifs at hid
  simp only [] at hid
  split_ifs at hid with hal
  exact Option.some.inj hid ▸ hal

/-! ## Giving a block back -/

theorem Represents.give (hr : h.Represents p) {b : Block} (hb : b ∈ p.live) :
    (h.addTokHeapOrder b.order b.start).Represents (p.give b hb) := by
  have hne : ∀ c ∈ p.free ∪ p.live, c ≠ b → c.start ≠ b.start := fun c hc hcb e =>
    hcb (p.eq_of_start_eq hc (Or.inr hb) e)
  have hfree : ∀ c ∈ p.free, c ≠ b := fun c hc e => p.not_live_of_free hc (e ▸ hb)
  obtain ⟨hchain, hmem⟩ := mem_freeBlocks_addTo (k := b.order) (i := b.start) hr.chained
    fun c hc => hne c (Or.inl ((hr.mem c).mp hc)) (hfree c ((hr.mem c).mp hc))
  refine ⟨hr.within, hchain, fun c => ?_, ?_, fun x => ?_, fun x => by rw [id_addTo, hr.id]⟩
  · rw [hmem c, hr.mem c]
    rfl
  · rintro c ((rfl | hc) | ⟨hc, hcb⟩) <;> rw [order_addTo]
    · exact if_pos rfl
    · rw [if_neg (hne c (Or.inl hc) (hfree c hc)), hr.order c (Or.inl hc)]
    · rw [if_neg (hne c (Or.inr hc) hcb), hr.order c (Or.inr hc)]
  · rw [isAllocated_addTo, Pool.give_live]
    split_ifs with hx
    · subst hx
      constructor
      · intro hf
        cases hf
      · rintro ⟨c, ⟨hc, hcb⟩, e⟩
        exact absurd e (hne c (Or.inr hc) hcb)
    · rw [hr.allocated x]
      constructor
      · rintro ⟨c, hc, rfl⟩
        exact ⟨c, ⟨hc, fun hcb => hx (congrArg start hcb)⟩, rfl⟩
      · rintro ⟨c, ⟨hc, -⟩, rfl⟩
        exact ⟨c, hc, rfl⟩

/-! ## One round of the merge loop -/

/-- The state after a round that merges `b`. -/
def merged (h : KHeap) (b : Block) : KHeap :=
  ((h.deleteFromkHeapOrder b.order b.start).deleteFromkHeapOrder b.order
    b.buddy.start).addTokHeapOrder (b.order + 1) b.parent.start

/-- A round that takes in a free buddy joins the two, and loses the blocks of their list in front
of the buddy. -/
theorem Represents.merge (hr : h.Represents p) {b : Block} (hb : b ∈ p.free)
    (hf : h.kHeapOrder b.order = some b.start) (hc : b.buddy ∈ p.free) :
    ∃ D, ∃ hD : D ⊆ p.free, ∃ hb' : b ∈ (p.drop D hD).free, ∃ hc' : b.buddy ∈ (p.drop D hD).free,
      (∀ c ∈ D, c.order = b.order) ∧
      ((h.kHeapBlocks b.start).next = some b.buddy.start → D = ∅) ∧
      (h.merged b).Represents ((p.drop D hD).join b hb' hc') := by
  obtain ⟨hc1, hm1⟩ := hr.delete_front hf
  obtain ⟨hc2, D, hD, hcD, hDo, hDf, hm2⟩ := mem_freeBlocks_deleteFrom (b := b.buddy) hc1
    ((hm1 _).mpr ⟨hc, b.buddy_ne⟩)
  have hDp : D ⊆ p.free := fun c hcd => ((hm1 c).mp (hD hcd)).1
  have hbD : b ∉ D := fun hbd => ((hm1 b).mp (hD hbd)).2 rfl
  have hne : ∀ c ∈ p.free ∪ p.live, c ≠ b → c.start ≠ b.start := fun c hcp hcb e =>
    hcb (p.eq_of_start_eq hcp (Or.inl hb) e)
  have hne' : ∀ c ∈ p.free ∪ p.live, c ≠ b.buddy → c.start ≠ b.buddy.start := fun c hcp hcb e =>
    hcb (p.eq_of_start_eq hcp (Or.inl hc) e)
  have hpar : ∀ c ∈ p.free ∪ p.live, c ≠ b → c ≠ b.buddy → c.start ≠ b.parent.start :=
    fun c hcp hcb hcb' => by
      have hp : b.parent.start = min b.start b.buddy.start := rfl
      have h1 := hne c hcp hcb
      have h2 := hne' c hcp hcb'
      omega
  have hmem2 : ∀ c, c ∈ ((h.deleteFromkHeapOrder b.order b.start).deleteFromkHeapOrder b.order
      b.buddy.start).freeBlocks ↔ (c ∈ p.free ∧ c ≠ b) ∧ c ≠ b.buddy ∧ c ∉ D := fun c => by
    rw [← hm1 c]
    exact hm2 c
  have hlive : ∀ c ∈ p.live, c ≠ b ∧ c ≠ b.buddy := fun c hcl =>
    ⟨fun e => p.not_live_of_free hb (e ▸ hcl), fun e => p.not_live_of_free hc (e ▸ hcl)⟩
  obtain ⟨hc3, hm3⟩ := mem_freeBlocks_addTo (k := b.order + 1) (i := b.parent.start) hc2
    fun c hcf => by
      obtain ⟨⟨hcp, hcb⟩, hcb', -⟩ := (hmem2 c).mp hcf
      exact hpar c (Or.inl hcp) hcb hcb'
  have hkeep : ∀ c ∈ p.free ∪ p.live, c ≠ b → c ≠ b.buddy →
      ((h.merged b).kHeapBlocks c.start).order = c.order := fun c hcp hcb hcb' => by
    rw [merged, order_addTo, order_deleteFrom, order_deleteFrom, if_neg (hpar c hcp hcb hcb'),
      if_neg (hne' c hcp hcb'), if_neg (hne c hcp hcb), hr.order c hcp]
  have hb' : b ∈ (p.drop D hDp).free := ⟨hb, hbD⟩
  have hc' : b.buddy ∈ (p.drop D hDp).free := ⟨hc, hcD⟩
  refine ⟨D, hDp, hb', hc', hDo, fun hnext => hDf ?_, Set.sdiff_subset.trans hr.within, hc3,
    fun c => ?_, ?_, fun x => ?_, fun x => ?_⟩
  · exact (head_deleteFrom b.order (hr.chained.prev_eq_none b.start)).trans hnext
  · refine (hm3 c).trans ((or_congr_right (hmem2 c)).trans ?_)
    have hpo : (⟨b.order + 1, b.parent.start⟩ : Block) = b.parent := rfl
    rw [hpo, Pool.join_free, Pool.drop_free]
    simp only [Set.mem_union, Set.mem_sdiff, Set.mem_insert_iff, Set.mem_singleton_iff]
    tauto
  · rintro c ((⟨⟨hcp, -⟩, hcn⟩ | rfl) | hcl)
    · exact hkeep c (Or.inl hcp) (fun e => hcn (Or.inl e)) fun e => hcn (Or.inr e)
    · rw [merged, order_addTo]
      exact if_pos rfl
    · exact hkeep c (Or.inr hcl) (hlive c hcl).1 (hlive c hcl).2
  · rw [merged, isAllocated_addTo, isAllocated_deleteFrom, isAllocated_deleteFrom, Pool.join_live,
      Pool.drop_live, ← hr.allocated x]
    have hfalse : (∀ c ∈ p.live, c.start ≠ x) → (h.kHeapBlocks x).isAllocated = false := by
      intro hx
      rw [← Bool.not_eq_true, hr.allocated]
      rintro ⟨c, hcl, rfl⟩
      exact hx c hcl rfl
    split_ifs with h1 h2 h3
    · simp [hfalse fun c hcl => h1 ▸ hpar c (Or.inr hcl) (hlive c hcl).1 (hlive c hcl).2]
    · simp [hfalse fun c hcl => h2 ▸ hne' c (Or.inr hcl) (hlive c hcl).2]
    · simp [hfalse fun c hcl => h3 ▸ hne c (Or.inr hcl) (hlive c hcl).1]
    · rfl
  · rw [merged, id_addTo, id_deleteFrom, id_deleteFrom, hr.id]

theorem mergeUp_succ (h : KHeap) (left : Nat) (b : Block) :
    mergeUp (left + 1) h b.start b.order =
      if (h.kHeapBlocks b.buddy.start).isAllocated then h
      else mergeUp left (h.merged b) b.parent.start b.parent.order := by
  have hbud : b.start ^^^ (1 <<< b.order) = b.buddy.start := by
    rw [Nat.one_shiftLeft]
    rfl
  have hmin : (if b.start < b.buddy.start then b.start else b.buddy.start) = b.parent.start := by
    have hp : b.parent.start = min b.start b.buddy.start := rfl
    rw [hp]
    split_ifs <;> omega
  rw [mergeUp]
  simp only [hbud, hmin]
  rfl

/-! ## The whole loop -/

/-- The state `u` of the merge loop at `b`, where `kfree` started from `h`: the lists of higher
orders and the marks outside `b` are still those of `h`. -/
structure Climbing (h u : KHeap) (b : Block) : Prop where
  head : u.kHeapOrder b.order = some b.start
  next : (u.kHeapBlocks b.start).next = h.kHeapOrder b.order
  above : ∀ j, b.order < j → u.kHeapOrder j = h.kHeapOrder j
  free : ∀ c ∈ h.freeBlocks, b.order ≤ c.order → c ∈ u.freeBlocks
  allocated : ∀ x, x ∉ b.span → (u.kHeapBlocks x).isAllocated = (h.kHeapBlocks x).isAllocated

theorem Represents.climbing (hr : h.Represents p) {b : Block} (hb : b ∈ p.live) :
    Climbing h (h.addTokHeapOrder b.order b.start) b where
  head := head_addTo _ _ _
  next := next_addTo _ _ _
  above j hj := order_list_addTo h _ hj.ne'
  free c hc _ := ((hr.give hb).mem c).mpr (Or.inr ((hr.mem c).mp hc))
  allocated x hx := by
    have hxb : x ≠ b.start := fun e => hx (e ▸ b.start_mem_span)
    rw [isAllocated_addTo, if_neg hxb]

theorem Climbing.merge {u : KHeap} {b : Block} (hcl : Climbing h u b) (hr : u.Represents p)
    (hb : b ∈ p.free) {R' : Set Nat} {q : Pool R'} (hm : (u.merged b).Represents q)
    (hq : ∀ c ∈ p.free, b.order < c.order → c ∈ q.free) :
    Climbing h (u.merged b) b.parent where
  head := head_addTo _ _ _
  next := by
    refine (next_addTo _ _ _).trans ?_
    rw [order_list_deleteFrom _ _ (Nat.succ_ne_self _), order_list_deleteFrom _ _
      (Nat.succ_ne_self _)]
    exact hcl.above _ (Nat.lt_succ_self _)
  above j hj := by
    have hj' : b.order < j := Nat.lt_of_succ_lt hj
    refine (order_list_addTo _ _ hj.ne').trans ?_
    rw [order_list_deleteFrom _ _ hj'.ne', order_list_deleteFrom _ _ hj'.ne', hcl.above j hj']
  free c hc ho := by
    have hcp := (hr.mem c).mp (hcl.free c hc (Nat.le_of_succ_le ho))
    exact (hm.mem c).mpr (hq c hcp ho)
  allocated x hx := by
    have hba := p.free_aligned hb
    have hne : ∀ y ∈ b.parent.span, x ≠ y := fun y hy e => hx (e ▸ hy)
    rw [merged, isAllocated_addTo, isAllocated_deleteFrom, isAllocated_deleteFrom,
      if_neg (hne _ b.parent.start_mem_span),
      if_neg (hne _ ((mem_parent_span hba).mpr (Or.inr b.buddy.start_mem_span))),
      if_neg (hne _ ((mem_parent_span hba).mpr (Or.inl b.start_mem_span)))]
    exact hcl.allocated x fun hxb => hx (span_subset_parent hba hxb)

/-- The merge loop over free buddies keeps the live blocks. Over front buddies it loses no cell
and coalesces fully. -/
theorem mergeUp_spec (left : Nat) :
    ∀ {R : Set Nat} {u : KHeap} {p : Pool R} {b : Block}, u.Represents p →
      b.order + left = kHeapMaxOrder → b ∈ p.free → Climbing h u b →
      h.Merges (· ∈ h.freeBlocks) left b →
      ∃ R' ⊆ R, ∃ q : Pool R', (mergeUp left u b.start b.order).Represents q ∧ q.live = p.live ∧
        (mergeUp left u b.start b.order).kHeapStart = u.kHeapStart ∧
        (h.Merges (fun c => h.kHeapOrder c.order = some c.start) left b → R' = R ∧
          (CoalescedBut kHeapMaxOrder b p.free → Coalesced kHeapMaxOrder q.free)) := by
  induction left with
  | zero =>
    intro R u p b hr ho hb hcl hm
    exact ⟨R, subset_rfl, p, hr, rfl, rfl, fun _ => ⟨rfl, fun hc => hc.stop fun hlt => by omega⟩⟩
  | succ left ih =>
    intro R u p b hr ho hb hcl hm
    have hba := p.free_aligned hb
    have hmark : (u.kHeapBlocks b.buddy.start).isAllocated =
        (h.kHeapBlocks b.buddy.start).isAllocated :=
      hcl.allocated _ fun hx => Set.disjoint_left.mp (buddy_disjoint hba) hx b.buddy.start_mem_span
    rw [mergeUp_succ]
    split_ifs with hal
    · refine ⟨R, subset_rfl, p, hr, rfl, rfl, fun _ => ⟨rfl, fun hc => hc.stop fun _ hbud => ?_⟩⟩
      obtain ⟨c, hc, e⟩ := (hr.allocated _).mp hal
      exact p.not_live_of_free hbud (p.eq_of_start_eq (Or.inr hc) (Or.inl hbud) e ▸ hc)
    · have hnot : ¬(h.kHeapBlocks b.buddy.start).isAllocated = true := hmark ▸ hal
      obtain ⟨hfree, hrest⟩ := hm.resolve_left hnot
      have hbud : b.buddy ∈ p.free := (hr.mem _).mp (hcl.free _ hfree le_rfl)
      obtain ⟨D, hD, hb', hc', hDo, hDf, hmerge⟩ := hr.merge hb hcl.head hbud
      have hup : ∀ c ∈ p.free, b.order < c.order → c ∈ ((p.drop D hD).join b hb' hc').free := by
        refine fun c hcp hlt => Or.inl ⟨⟨hcp, fun hcD => ?_⟩, ?_⟩
        · exact hlt.ne' (hDo c hcD)
        · rintro (rfl | rfl) <;> exact lt_irrefl _ hlt
      obtain ⟨R', hR', q, hq, hlive, hstart, hfront⟩ := ih hmerge
        (by rw [parent_order]; omega) (Or.inr rfl) (hcl.merge hr hb hmerge hup) hrest
      refine ⟨R', hR'.trans Set.sdiff_subset, q, hq, hlive, hstart.trans (by simp [merged]),
        fun hmf => ?_⟩
      obtain ⟨hhead, hmf⟩ := hmf.resolve_left hnot
      obtain rfl := hDf (hcl.next.trans hhead)
      obtain ⟨rfl, hcoal⟩ := hfront hmf
      refine ⟨by simp, fun hc => hcoal ?_⟩
      have hdrop : (p.drop ∅ hD).free = p.free := Set.sdiff_empty
      rw [Pool.join_free, hdrop]
      exact hc.join

/-- What `kfree` does to a represented pool when it frees the live block `b` and merges only with
free blocks. -/
theorem kfree_spec (hr : h.Represents p) {addr : Nat} {b : Block} (hb : b ∈ p.live)
    (hcell : h.freedCell addr = some b.start) (hm : h.MergesFree b) :
    ∃ R' ⊆ R, ∃ q : Pool R', (h.kfree addr).Represents q ∧ q.live = p.live \ {b} ∧
      (h.kfree addr).kHeapStart = h.kHeapStart ∧
      (h.MergesFront b → R' = R ∧
        (Coalesced kHeapMaxOrder p.free → Coalesced kHeapMaxOrder q.free)) := by
  have ho := hr.order_le (Or.inr hb)
  obtain ⟨R', hR', q, hq, hlive, hstart, hfront⟩ := mergeUp_spec (kHeapMaxOrder - b.order)
    (hr.give hb) (by omega) (Set.mem_insert _ _) (hr.climbing hb) hm
  have hfree : h.kfree addr = mergeUp (kHeapMaxOrder - b.order)
      (h.addTokHeapOrder b.order b.start) b.start b.order := by
    rw [kfree, hcell]
    simp only [hr.order b (Or.inr hb)]
  rw [hfree]
  exact ⟨R', hR', q, hq, hlive, hstart, fun hmf => ⟨(hfront hmf).1,
    fun hc => (hfront hmf).2 hc.insert⟩⟩

end Amaterasu.KHeap
