import Amaterasu.PhysicalMemory.Allocate

/-! `AllocatePageFrames` from any well-formed state, coalesced or not: the free blocks alone are a
pool, and splitting keeps what the flags and `priv` fields say about it. -/

namespace Amaterasu.PageFrames
open Block

/-- The lists and the flags tell which blocks are free, `live` which are not. -/
structure WellFormed (s : PageFrames) (live : Set Block) : Prop where
  linked : s.links.Linked
  order_le : ∀ b ∈ s.freeBlocks, b.order ≤ pageFrameMaxOrder
  priv : ∀ b ∈ s.freeBlocks, (s.memoryMap b.start).priv = b.order
  aligned : ∀ b ∈ s.freeBlocks, 2 ^ b.order ∣ b.start
  unallocated : ∀ b ∈ s.freeBlocks, ∀ x ∈ b.span, (s.memoryMap x).isAllocated = false
  disjoint : (s.freeBlocks ∪ live).PairwiseDisjoint Block.span
  separate : Disjoint s.freeBlocks live
  usable : ∀ b ∈ s.freeBlocks ∪ live, ∀ x ∈ b.span,
    x < s.totalPageNumber ∧ (s.memoryMap x).isReserved = false
  top : ∀ x < s.totalPageNumber,
    (s.memoryMap x).isTop = true ↔ ∃ b ∈ s.freeBlocks ∪ live, b.start = x

/-- The block `b` was carved out of a free block of the smallest adequate order. -/
structure Grants (s t : PageFrames) (live : Set Block) (b : Block) : Prop where
  aligned : 2 ^ b.order ∣ b.start
  source : ∃ c ∈ s.freeBlocks, b.span ⊆ c.span ∧ b.order ≤ c.order ∧
    ∀ d, b.order ≤ d → d < c.order → s.pageFrameOrder d = none
  wellFormed : t.WellFormed (insert b live)
  total : t.totalPageNumber = s.totalPageNumber
  freeFrames : t.freeFrames = s.freeFrames \ b.span
  kept : ∀ c ∈ s.freeBlocks, b.start ∉ c.span → c ∈ t.freeBlocks
  unchanged : ∀ c ∈ s.freeBlocks ∪ live, b.start ∉ c.span → ∀ x ∈ c.span,
    (t.memoryMap x).flags = (s.memoryMap x).flags ∧ (t.memoryMap x).priv = (s.memoryMap x).priv

variable {R : Set Nat} {s t : PageFrames} {p q : Pool R} {T : Set Nat}

/-! ## Flags and `priv` fields through the split loop -/

/-- The descriptors describe the free blocks; `T` has the other frames with `PAGE_TOP`. -/
structure Describes (s : PageFrames) (p : Pool R) (T : Set Nat) : Prop where
  spells : s.Spells p
  priv : ∀ b ∈ p.free, (s.memoryMap b.start).priv = b.order
  top : ∀ x, (s.memoryMap x).isTop = true ↔ (∃ b ∈ p.free, b.start = x) ∨ x ∈ T

/-- Nothing but the descriptors of the block `b` differs, and of those only tops and `priv`. -/
structure Inside (b : Block) (s t : PageFrames) : Prop where
  total : t.totalPageNumber = s.totalPageNumber
  allocated : ∀ x, (t.memoryMap x).isAllocated = (s.memoryMap x).isAllocated
  reserved : ∀ x, (t.memoryMap x).isReserved = (s.memoryMap x).isReserved
  outside : ∀ x ∉ b.span,
    (t.memoryMap x).flags = (s.memoryMap x).flags ∧ (t.memoryMap x).priv = (s.memoryMap x).priv

theorem Inside.refl (b : Block) (s : PageFrames) : Inside b s s :=
  ⟨rfl, fun _ => rfl, fun _ => rfl, fun _ _ => ⟨rfl, rfl⟩⟩

theorem Inside.trans {b c : Block} {u : PageFrames} (hst : Inside b s t) (htu : Inside c t u)
    (hcb : c.span ⊆ b.span) : Inside b s u where
  total := htu.total.trans hst.total
  allocated x := (htu.allocated x).trans (hst.allocated x)
  reserved x := (htu.reserved x).trans (hst.reserved x)
  outside x hx := by
    obtain ⟨hf, hp⟩ := htu.outside x fun hc => hx (hcb hc)
    obtain ⟨hf', hp'⟩ := hst.outside x hx
    exact ⟨hf.trans hf', hp.trans hp'⟩

theorem splitFront_flags {k i j : Nat} (hf : s.pageFrameOrder (k + 1) = some i)
    (hj : i ^^^ (1 <<< k) = j) (ht : s.splitFront k = some t) {x : Nat} (hi : x ≠ i)
    (hxj : x ≠ j) : (t.memoryMap x).flags = (s.memoryMap x).flags := by
  rw [splitFront, hf] at ht
  obtain rfl := Option.some.inj ht
  rw [flags_addTo, flags_addTo, hj, modifyPage_of_ne _ _ hxj, modifyPage_of_ne _ _ hi,
    flags_deleteFrom]

theorem Describes.splitFront (h : s.Describes p T) {k i : Nat}
    (hf : s.pageFrameOrder (k + 1) = some i) :
    ∃ t, s.splitFront k = some t ∧ t.pageFrameOrder k = some i ∧
      t.Describes (p.split ⟨k + 1, i⟩ (h.spells.head hf) (Nat.succ_pos k)) T ∧
      Inside ⟨k + 1, i⟩ s t := by
  have hbp := h.spells.head hf
  have hj := upper_start_eq_xor (p.free_aligned hbp)
  obtain ⟨t, ht, hhead, hspell⟩ := h.spells.splitFront hf
  obtain ⟨t', ht', -, htot, htop, halloc, hres, hpriv⟩ := splitFront_fields hf hj
  obtain rfl : t = t' := Option.some.inj (ht.symm.trans ht')
  have hlow : (⟨k + 1, i⟩ : Block).lower = ⟨k, i⟩ := rfl
  have hupp : (⟨k + 1, i⟩ : Block).upper = ⟨k, i + 2 ^ k⟩ := rfl
  have hin : i ∈ (⟨k + 1, i⟩ : Block).span := start_mem_span _
  have hjn : i + 2 ^ k ∈ (⟨k + 1, i⟩ : Block).span := by
    rw [mem_span, size, Nat.pow_succ]
    have := Nat.two_pow_pos k
    exact ⟨Nat.le_add_right _ _, by dsimp only; omega⟩
  refine ⟨t, ht, hhead, ⟨hspell, h.spells.splitFront_priv h.priv hf ht, fun x => ?_⟩, htot, halloc,
    hres, fun x hx => ?_⟩
  · rw [htop, Bool.or_eq_true, decide_eq_true_iff, h.top x]
    constructor
    · rintro ((rfl | rfl) | ⟨c, hc, rfl⟩ | hT)
      · exact Or.inl ⟨_, Or.inr (Or.inl rfl), rfl⟩
      · exact Or.inl ⟨_, Or.inr (Or.inr rfl), rfl⟩
      · by_cases hcb : c = ⟨k + 1, i⟩
        · subst hcb
          exact Or.inl ⟨_, Or.inr (Or.inl rfl), rfl⟩
        · exact Or.inl ⟨c, Or.inl ⟨hc, hcb⟩, rfl⟩
      · exact Or.inr hT
    · rintro (⟨c, ⟨hc, -⟩ | rfl | rfl, rfl⟩ | hT)
      · exact Or.inr (Or.inl ⟨c, hc, rfl⟩)
      · exact Or.inl (Or.inl rfl)
      · exact Or.inl (Or.inr rfl)
      · exact Or.inr (Or.inr hT)
  · have hi : x ≠ i := fun e => hx (e ▸ hin)
    have hu : x ≠ i + 2 ^ k := fun e => hx (e ▸ hjn)
    exact ⟨splitFront_flags hf hj ht hi hu, by rw [hpriv, if_neg (not_or.mpr ⟨hi, hu⟩)]⟩

theorem Describes.splitDown {k i : Nat} (above : Nat) :
    ∀ {s : PageFrames} {p : Pool R}, s.Describes p T → s.pageFrameOrder (k + above) = some i →
      ∃ t, ∃ q : Pool R, PageFrames.splitDown above s k = some t ∧ t.pageFrameOrder k = some i ∧
        t.Describes q T ∧ p.Carves ⟨k + above, i⟩ q ∧ Inside ⟨k + above, i⟩ s t := by
  induction above with
  | zero => exact fun {s p} h hf => ⟨s, p, rfl, hf, h, Pool.Carves.refl p, Inside.refl _ s⟩
  | succ above ih =>
    intro s p h hf
    have hbp := h.spells.head hf
    obtain ⟨t, ht, hhead, hdesc, hin⟩ := h.splitFront (k := k + above) hf
    obtain ⟨u, q, hu, huhead, hudesc, hcarve, huin⟩ := ih hdesc hhead
    have hlow : (⟨k + above, i⟩ : Block).span ⊆ (⟨k + (above + 1), i⟩ : Block).span :=
      fun x hx => (mem_halves (p.free_aligned hbp) (Nat.succ_pos _)).mpr (Or.inl hx)
    refine ⟨u, q, ?_, huhead, hudesc, hcarve.of_split hbp (Nat.succ_pos _), hin.trans huin hlow⟩
    rw [PageFrames.splitDown, ht]
    exact hu

/-! ## Well-formed states -/

variable {live : Set Block}

/-- The free blocks as a pool of their own frames. -/
def WellFormed.pool (h : s.WellFormed live) : Pool s.freeFrames :=
  Pool.ofFree s.freeBlocks h.aligned (h.disjoint.subset Set.subset_union_left)

/-- The frames with `PAGE_TOP` that start no free block. -/
def otherTops (s : PageFrames) (live : Set Block) : Set Nat :=
  {x | (∃ b ∈ live, b.start = x) ∨ s.totalPageNumber ≤ x ∧ (s.memoryMap x).isTop = true}

theorem WellFormed.describes (h : s.WellFormed live) :
    s.Describes h.pool (s.otherTops live) := by
  refine ⟨⟨h.linked, fun b => Iff.rfl⟩, h.priv, fun x => ?_⟩
  rcases Nat.lt_or_ge x s.totalPageNumber with hx | hx
  · rw [h.top x hx]
    constructor
    · rintro ⟨b, hb | hb, e⟩
      · exact Or.inl ⟨b, hb, e⟩
      · exact Or.inr (Or.inl ⟨b, hb, e⟩)
    · rintro (⟨b, hb, e⟩ | ⟨b, hb, e⟩ | ⟨hge, -⟩)
      · exact ⟨b, Or.inl hb, e⟩
      · exact ⟨b, Or.inr hb, e⟩
      · omega
  · refine ⟨fun htop => Or.inr (Or.inr ⟨hx, htop⟩), ?_⟩
    have hout : ∀ b ∈ s.freeBlocks ∪ live, b.start ≠ x := fun b hb e => by
      have := (h.usable b hb b.start b.start_mem_span).1
      omega
    rintro (⟨b, hb, e⟩ | ⟨b, hb, e⟩ | ⟨-, htop⟩)
    · exact absurd e (hout b (Or.inl hb))
    · exact absurd e (hout b (Or.inr hb))
    · exact htop

theorem WellFormed.disjoint_live (h : s.WellFormed live) {b : Block} (hb : b ∈ live) {x : Nat}
    (hx : x ∈ s.freeFrames) : x ∉ b.span := by
  obtain ⟨c, hc, hxc⟩ := hx
  have hne : c ≠ b := fun e => Set.disjoint_left.mp h.separate hc (e ▸ hb)
  exact Set.disjoint_left.mp (h.disjoint (Or.inl hc) (Or.inr hb) hne) hxc

/-- The state after the front of a list of the carved pool has been taken. -/
structure Taken (s t : PageFrames) (q : Pool R) (T : Set Nat) (b : Block) : Prop where
  linked : t.links.Linked
  mem : ∀ c, c ∈ t.freeBlocks ↔ c ∈ q.free ∧ c ≠ b
  priv : ∀ c ∈ q.free, (t.memoryMap c.start).priv = c.order
  top : ∀ x, (t.memoryMap x).isTop = true ↔ (∃ c ∈ q.free, c.start = x) ∨ x ∈ T
  total : t.totalPageNumber = s.totalPageNumber
  allocated : ∀ x ≠ b.start, (t.memoryMap x).isAllocated = (s.memoryMap x).isAllocated
  reserved : ∀ x, (t.memoryMap x).isReserved = (s.memoryMap x).isReserved

theorem Describes.takeFront {u : PageFrames} {k i : Nat} {c : Block} (h : u.Describes q T)
    (hin : Inside c s u) (hc : i ∈ c.span) (hf : u.pageFrameOrder k = some i) :
    ∃ t, u.takeFront k = some (t, i) ∧ Taken s t q T ⟨k, i⟩ ∧ ∀ x ∉ c.span,
      (t.memoryMap x).flags = (s.memoryMap x).flags ∧
        (t.memoryMap x).priv = (s.memoryMap x).priv := by
  obtain ⟨ht, hspell⟩ := h.spells.takeFront hf
  have hpriv : ∀ x, (((u.modifyPage i (·.orFlags pageAllocated)).deleteFromPageFrameOrder k i
      ).memoryMap x).priv = (u.memoryMap x).priv := fun x => by
    rw [priv_deleteFrom]
    exact modifyPage_field Page.priv u i x fun _ => rfl
  refine ⟨_, ht, ⟨hspell.linked, hspell.mem, fun c hc => ?_, fun x => ?_, ?_, fun x hx => ?_,
    fun x => ?_⟩, fun x hx => ⟨?_, ?_⟩⟩
  · rw [hpriv, h.priv c hc]
  · rw [isTop_congr (flags_deleteFrom _ k i x),
      modifyPage_field Page.isTop u i x Page.isTop_orAllocated, h.top x]
  · rw [total_deleteFrom, modifyPage_total, hin.total]
  · rw [isAllocated_congr (flags_deleteFrom _ k i x), modifyPage_of_ne u _ hx, hin.allocated]
  · rw [isReserved_congr (flags_deleteFrom _ k i x),
      modifyPage_field Page.isReserved u i x Page.isReserved_orAllocated, hin.reserved]
  · have hxi : x ≠ i := fun e => hx (e ▸ hc)
    rw [flags_deleteFrom, modifyPage_of_ne u _ hxi, (hin.outside x hx).1]
  · rw [hpriv, (hin.outside x hx).2]

theorem WellFormed.taken (h : s.WellFormed live) {q : Pool s.freeFrames} {b : Block} {d : Nat}
    (hd : (⟨d, b.start⟩ : Block) ∈ s.freeBlocks) (hb : b ∈ q.free)
    (hq : h.pool.Carves ⟨d, b.start⟩ q) (ht : Taken s t q (s.otherTops live) b) :
    t.WellFormed (insert b live) := by
  have hR : ∀ c ∈ q.free, c.span ⊆ s.freeFrames := fun c hc => q.span_subset (Or.inl hc)
  have hout : ∀ c ∈ live, Disjoint s.freeFrames c.span := fun c hc =>
    Set.disjoint_left.mpr fun x hx => h.disjoint_live hc hx
  have hall : ∀ c, c ∈ t.freeBlocks ∪ insert b live ↔ c ∈ q.free ∨ c ∈ live :=
    Pool.mem_taken hb ht.mem
  refine ⟨ht.linked, fun c hc => ?_, fun c hc => ht.priv c ((ht.mem c).mp hc).1,
    fun c hc => q.free_aligned ((ht.mem c).mp hc).1, fun c hc x hx => ?_,
    Pool.taken_disjoint hb ht.mem hout (h.disjoint.subset Set.subset_union_right),
    Pool.taken_separate ht.mem hout, fun c hc x hx => ?_, fun x hx => ?_⟩
  · rcases hq.pieces c ((ht.mem c).mp hc).1 with ⟨hcs, -⟩ | ⟨-, hcd⟩
    · exact h.order_le c hcs
    · exact hcd.trans (h.order_le _ hd)
  · obtain ⟨hcq, hne⟩ := (ht.mem c).mp hc
    obtain ⟨e, he, hxe⟩ := hR c hcq hx
    have hxb : x ≠ b.start := fun hxb =>
      hne (q.eq_of_mem_span (Or.inl hcq) (Or.inl hb) hx (hxb ▸ b.start_mem_span))
    rw [ht.allocated x hxb, h.unallocated e he x hxe]
  · rw [ht.total, ht.reserved]
    rcases (hall c).mp hc with hc | hc
    · obtain ⟨e, he, hxe⟩ := hR c hc hx
      exact h.usable e (Or.inl he) x hxe
    · exact h.usable c (Or.inr hc) x hx
  · rw [ht.total] at hx
    rw [ht.top x]
    constructor
    · rintro (⟨c, hc, e⟩ | ⟨c, hc, e⟩ | ⟨hge, -⟩)
      · exact ⟨c, (hall c).mpr (Or.inl hc), e⟩
      · exact ⟨c, (hall c).mpr (Or.inr hc), e⟩
      · omega
    · rintro ⟨c, hc, e⟩
      rcases (hall c).mp hc with hc | hc
      · exact Or.inl ⟨c, hc, e⟩
      · exact Or.inr (Or.inl ⟨c, hc, e⟩)

theorem WellFormed.grants (h : s.WellFormed live) {q : Pool s.freeFrames} {b : Block} {d : Nat}
    (hd : (⟨d, b.start⟩ : Block) ∈ s.freeBlocks) (hbd : b.order ≤ d)
    (hmin : ∀ j, b.order ≤ j → j < d → s.pageFrameOrder j = none) (hb : b ∈ q.free)
    (hq : h.pool.Carves ⟨d, b.start⟩ q) (ht : Taken s t q (s.otherTops live) b)
    (hout : ∀ x ∉ (⟨d, b.start⟩ : Block).span, (t.memoryMap x).flags = (s.memoryMap x).flags ∧
      (t.memoryMap x).priv = (s.memoryMap x).priv) : Grants s t live b := by
  have hwf := h.taken hd hb hq ht
  have hbspan : b.span ⊆ (⟨d, b.start⟩ : Block).span :=
    span_subset_of_mem (q.free_aligned hb) (h.aligned _ hd) hbd b.start_mem_span
      (start_mem_span ⟨d, b.start⟩)
  have hapart : ∀ c ∈ s.freeBlocks ∪ live, b.start ∉ c.span →
      Disjoint c.span (⟨d, b.start⟩ : Block).span := fun c hc hbc =>
    h.disjoint hc (Or.inl hd) fun e => hbc (e ▸ start_mem_span ⟨d, b.start⟩)
  refine ⟨q.free_aligned hb, ⟨_, hd, hbspan, hbd, hmin⟩, hwf, ht.total,
    Pool.taken_region hq.live hb ht.mem, fun c hc hbc => ?_,
    fun c hc hbc x hx => hout x (Set.disjoint_left.mp (hapart c hc hbc) hx)⟩
  have hne : c ≠ ⟨d, b.start⟩ := fun e => hbc (e ▸ start_mem_span ⟨d, b.start⟩)
  exact (ht.mem c).mpr ⟨hq.kept c hc hne, fun e => hbc (e ▸ b.start_mem_span)⟩

/-- An allocation carves its block out of the smallest adequate free block, and fails without a
trace when there is none. -/
theorem allocatePageFrames_grants (h : s.WellFormed live) {n k : Nat} (hn : 1 ≤ n)
    (hb : n ≤ 2 ^ pageFrameMaxOrder) (hk : IsLeast {k | n ≤ 2 ^ k} k) :
    ((∃ d, k ≤ d ∧ d ≤ pageFrameMaxOrder ∧ s.pageFrameOrder d ≠ none) →
      ∃ t idx, s.allocatePageFrames n = some (t, idx <<< 12) ∧ Grants s t live ⟨k, idx⟩) ∧
    ((∀ d, k ≤ d → d ≤ pageFrameMaxOrder → s.pageFrameOrder d = none) →
      s.allocatePageFrames n = some (s, 0)) := by
  have hclog : Nat.clog 2 (n : Int).toNat = k := by rw [Int.toNat_natCast, (clog_isLeast n).unique hk]
  have hbound : (n : Int) < 2 ^ 31 := by
    have : n ≤ 2 ^ 10 := hb
    omega
  have hcases := allocateFrames_cases s (n := n) (by omega) hbound
  rw [hclog] at hcases
  rcases hcases with ⟨hfail, hnone⟩ | ⟨d, i, hkd, hd, hi, hmin, heq⟩
  · constructor
    · rintro ⟨d, hkd, hd, hne⟩
      exact absurd (hnone d hkd hd) hne
    · intro _
      rw [allocatePageFrames, hfail]
      rfl
  refine ⟨fun _ => ?_, fun hall => ?_⟩
  · have hkd' : k + (d - k) = d := Nat.add_sub_cancel' hkd
    obtain ⟨u, q, hu, huhead, hdesc, hcarve, hin⟩ := h.describes.splitDown (d - k)
      (hkd'.symm ▸ hi)
    rw [hkd'] at hcarve hin
    obtain ⟨t, ht, htaken, hout⟩ := hdesc.takeFront hin (start_mem_span ⟨d, i⟩) huhead
    refine ⟨t, i, ?_, h.grants (head_mem_freeBlocks hi) hkd hmin (hdesc.spells.head huhead)
      hcarve htaken hout⟩
    rw [allocatePageFrames, heq, hu, Option.bind_some, ht]
    rfl
  · rw [hall d hkd hd] at hi
    cases hi

/-- Four frames: 0 and 1 allocated, 2 and 3 a free block. -/
def halfFree : PageFrames where
  memoryMap i := ⟨if i = 0 then pageAllocated ||| pageTop else if i = 2 then pageTop else 0,
    1, none, none⟩
  pageFrameOrder k := if k = 1 then some 2 else none
  totalPageNumber := 4

theorem halfFree_wellFormed : halfFree.WellFormed {⟨1, 0⟩} := by
  have hholds : halfFree.links.Holds fun k => if k = 1 then [2] else [] := by
    refine ⟨⟨fun k => ?_, fun j k x hj hk => ?_⟩, fun k => ?_, fun k => ?_⟩
    · split_ifs <;> simp
    · split_ifs at hj hk <;> simp_all
    · by_cases hk : k = 1 <;> simp [Links.Path, links, halfFree, hk]
    · by_cases hk : k = 1 <;> simp [Links.Back, links, halfFree, hk]
  have hfree : ∀ b, b ∈ halfFree.freeBlocks ↔ b = ⟨1, 2⟩ := fun b => by
    have hmem : b ∈ halfFree.freeBlocks ↔ b.start ∈ if b.order = 1 then [2] else [] :=
      hholds.mem_iff
    rw [hmem]
    cases b
    split_ifs <;> simp_all
  have hspan : ∀ {b : Block}, b.order = 1 → ∀ {x}, x ∈ b.span → x = b.start ∨ x = b.start + 1 :=
    fun {b} ho {x} hx => by
      have hs : b.size = 2 := by rw [size, ho, Nat.pow_one]
      have := mem_span.mp hx
      omega
  have hboth : ∀ b, b ∈ halfFree.freeBlocks ∪ {⟨1, 0⟩} ↔ b = ⟨1, 2⟩ ∨ b = ⟨1, 0⟩ := fun b => by
    rw [Set.mem_union, hfree, Set.mem_singleton_iff]
  have hapart : Disjoint (⟨1, 2⟩ : Block).span (⟨1, 0⟩ : Block).span :=
    Set.disjoint_left.mpr fun x hx hx' => by
      have := hspan rfl hx
      have := hspan rfl hx'
      dsimp only at *
      omega
  refine ⟨⟨_, hholds⟩, ?_, ?_, ?_, ?_, ?_, ?_, ?_, ?_⟩
  · intro b hb
    obtain rfl := (hfree b).mp hb
    decide
  · intro b hb
    obtain rfl := (hfree b).mp hb
    rfl
  · intro b hb
    obtain rfl := (hfree b).mp hb
    decide
  · intro b hb x hx
    obtain rfl := (hfree b).mp hb
    rcases hspan rfl hx with rfl | rfl <;> decide
  · intro b hb c hc hne
    rcases (hboth b).mp hb with rfl | rfl <;> rcases (hboth c).mp hc with rfl | rfl
    · exact absurd rfl hne
    · exact hapart
    · exact hapart.symm
    · exact absurd rfl hne
  · refine Set.disjoint_singleton_right.mpr fun hb => ?_
    exact absurd ((hfree _).mp hb) (by decide)
  · intro b hb x hx
    rcases (hboth b).mp hb with rfl | rfl <;> rcases hspan rfl hx with rfl | rfl <;> decide
  · intro x hx
    have htop : ∀ x < 4, (halfFree.memoryMap x).isTop = true ↔ x = 2 ∨ x = 0 := by decide
    rw [htop x hx]
    constructor
    · rintro (rfl | rfl)
      · exact ⟨_, (hboth _).mpr (Or.inl rfl), rfl⟩
      · exact ⟨_, (hboth _).mpr (Or.inr rfl), rfl⟩
    · rintro ⟨b, hb, rfl⟩
      rcases (hboth b).mp hb with rfl | rfl <;> decide

theorem allocatePageFrames_grants_one : ∃ t idx,
    halfFree.allocatePageFrames (1 : Nat) = some (t, idx <<< 12) ∧
      Grants halfFree t {⟨1, 0⟩} ⟨0, idx⟩ :=
  (allocatePageFrames_grants halfFree_wellFormed (n := 1) (k := 0) (by decide) (by decide)
    ⟨by decide, fun _ _ => Nat.zero_le _⟩).1 ⟨1, by decide, by decide, by decide⟩

end Amaterasu.PageFrames
