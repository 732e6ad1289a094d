import Amaterasu.PhysicalMemory.Lists

/-! `BuddySystemInit` builds the canonical pool: every round of the outer loop finds the next
maximal block of the map. -/

namespace Amaterasu.PageFrames
open Block
variable {s t : PageFrames} {start : Nat}

/-- The memory map as it is handed to `BuddySystemInit`, and the zeroed lists. -/
structure Boot (s : PageFrames) : Prop where
  clear : ∀ i < s.totalPageNumber,
    (s.memoryMap i).isAllocated = false ∧ (s.memoryMap i).isTop = false
  last : ∀ i, i + 1 = s.totalPageNumber → (s.memoryMap i).isReserved = false
  empty : ∀ order, s.pageFrameOrder order = none

/-- The memory map alone, with a slot for each order up to the largest. -/
structure Handed (s : PageFrames) : Prop where
  clear : ∀ i < s.totalPageNumber,
    (s.memoryMap i).isAllocated = false ∧ (s.memoryMap i).isTop = false
  last : ∀ i, i + 1 = s.totalPageNumber → (s.memoryMap i).isReserved = false
  slots : ∀ order, pageFrameMaxOrder < order → s.pageFrameOrder order = none

/-- As before, but the map may end in a reserved run when the descriptor behind it is reserved too:
`BuddySystemInit` looks at that descriptor and stops. -/
structure Mapped (s : PageFrames) : Prop where
  clear : ∀ i < s.totalPageNumber,
    (s.memoryMap i).isAllocated = false ∧ (s.memoryMap i).isTop = false
  edge : (∀ i, i + 1 = s.totalPageNumber → (s.memoryMap i).isReserved = false) ∨
    (s.memoryMap s.totalPageNumber).isReserved = true
  slots : ∀ order, pageFrameMaxOrder < order → s.pageFrameOrder order = none

theorem Handed.mapped (h : Handed s) : Mapped s := ⟨h.clear, Or.inl h.last, h.slots⟩

theorem Boot.mapped (h : Boot s) : Mapped s :=
  ⟨h.clear, Or.inl h.last, fun order _ => h.empty order⟩

/-! ## Scans -/

theorem le_skipReserved (rest start : Nat) : start ≤ s.skipReserved rest start := by
  induction rest generalizing start with
  | zero => exact le_rfl
  | succ rest ih =>
    rw [skipReserved]
    split_ifs
    · exact (Nat.le_succ start).trans (ih (start + 1))
    · exact le_rfl

theorem skipReserved_spec (rest start : Nat) (h : start + rest = s.totalPageNumber) :
    start ≤ s.skipReserved rest start ∧ s.skipReserved rest start ≤ s.totalPageNumber ∧
      (∀ x, start ≤ x → x < s.skipReserved rest start → (s.memoryMap x).isReserved = true) ∧
      (s.skipReserved rest start < s.totalPageNumber →
        (s.memoryMap (s.skipReserved rest start)).isReserved = false) := by
  refine ⟨le_skipReserved rest start, ?_⟩
  induction rest generalizing start with
  | zero =>
    rw [skipReserved]
    exact ⟨by omega, fun x h1 h2 => by omega, fun hlt => by omega⟩
  | succ rest ih =>
    rw [skipReserved]
    split_ifs with hr
    · obtain ⟨h2, h3, h4⟩ := ih (start + 1) (by omega)
      refine ⟨h2, fun x hx hlt => ?_, h4⟩
      rcases Nat.eq_or_lt_of_le hx with rfl | hx
      · exact hr
      · exact h3 x hx hlt
    · exact ⟨by omega, fun x h1 h2 => by omega, fun _ => by simpa using hr⟩

theorem streakEnd_spec (room stop : Nat) (hN : stop ≤ s.totalPageNumber) :
    stop ≤ s.streakEnd room stop ∧ s.streakEnd room stop ≤ stop + room ∧
      (∀ x, stop ≤ x → x < s.streakEnd room stop → x ∈ s.usable) ∧
      (s.streakEnd room stop < stop + room → s.streakEnd room stop ∉ s.usable) := by
  induction room generalizing stop with
  | zero =>
    rw [streakEnd]
    exact ⟨le_rfl, le_rfl, fun x h1 h2 => by omega, fun hlt => by omega⟩
  | succ room ih =>
    rw [streakEnd]
    split_ifs with hend hr
    · exact ⟨le_rfl, by omega, fun x h1 h2 => by omega, fun _ hu => by have := hu.1; omega⟩
    · exact ⟨le_rfl, by omega, fun x h1 h2 => by omega, fun _ hu => by
        rw [hu.2] at hr
        cases hr⟩
    · obtain ⟨h1, h2, h3, h4⟩ := ih (stop + 1) (by omega)
      refine ⟨by omega, by omega, fun x hx hlt => ?_, fun hlt => h4 (by omega)⟩
      rcases Nat.eq_or_lt_of_le hx with rfl | hx
      · exact ⟨by omega, by simpa using hr⟩
      · exact h3 x hx hlt

theorem two_pow_dvd_iff_testBit {k n : Nat} : 2 ^ k ∣ n ↔ ∀ j < k, n.testBit j = false := by
  rw [Nat.dvd_iff_mod_eq_zero]
  constructor
  · intro h j hj
    have hbit := Nat.testBit_mod_two_pow n k j
    rwa [h, Nat.zero_testBit, decide_eq_true hj, Bool.true_and, eq_comm] at hbit
  · intro h
    refine Nat.eq_of_testBit_eq fun j => ?_
    rw [Nat.testBit_mod_two_pow, Nat.zero_testBit]
    by_cases hj : j < k
    · rw [h j hj, Bool.and_false]
    · rw [decide_eq_false hj, Bool.false_and]

theorem and_shift_bne_zero (n i : Nat) : (n &&& (1 <<< i) != 0) = n.testBit i := by
  rw [Nat.one_shiftLeft, Nat.and_two_pow]
  cases n.testBit i <;> simp

/-- `maxOrder` is the largest order a block at `start` can be aligned for. -/
theorem maxOrder_isGreatest (start : Nat) :
    IsGreatest {k | k ≤ pageFrameMaxOrder ∧ 2 ^ k ∣ start} (maxOrder start) := by
  unfold maxOrder
  cases h : (List.range (pageFrameMaxOrder + 1)).find? fun i => start &&& (1 <<< i) != 0 with
  | none =>
    rw [Option.getD_none]
    refine ⟨⟨le_rfl, two_pow_dvd_iff_testBit.mpr fun j hj => ?_⟩, fun k hk => hk.1⟩
    have := List.find?_range_eq_none.mp h j (by omega)
    rw [and_shift_bne_zero] at this
    simpa using this
  | some i =>
    obtain ⟨hi, hmem, hlow⟩ := List.find?_range_eq_some.mp h
    rw [Option.getD_some]
    have hi' : i < pageFrameMaxOrder + 1 := List.mem_range.mp hmem
    rw [and_shift_bne_zero] at hi
    refine ⟨⟨by omega, two_pow_dvd_iff_testBit.mpr fun j hj => ?_⟩, fun k ⟨_, hk⟩ => ?_⟩
    · have := hlow j hj
      rw [and_shift_bne_zero] at this
      simpa using this
    · by_contra hlt
      have := two_pow_dvd_iff_testBit.mp hk i (by omega)
      rw [hi] at this
      cases this

/-! ## One round -/

/-- The state of the outer loop at `start`: the lists hold the maximal blocks below it. -/
structure Built (s t : PageFrames) (start : Nat) : Prop where
  linked : t.links.Linked
  mem : ∀ b, b ∈ t.freeBlocks ↔ b ∈ maximal pageFrameMaxOrder s.usable ∧ b.start < start
  priv : ∀ b ∈ t.freeBlocks, (t.memoryMap b.start).priv = b.order
  top : ∀ b ∈ t.freeBlocks, (t.memoryMap b.start).isTop = true
  below : ∀ b ∈ t.freeBlocks, b.start + b.size ≤ start
  allocated : ∀ x, (t.memoryMap x).isAllocated = (s.memoryMap x).isAllocated
  reserved : ∀ x, (t.memoryMap x).isReserved = (s.memoryMap x).isReserved
  total : t.totalPageNumber = s.totalPageNumber

/-- The streak from a usable frame that starts a maximal block has the logarithm of that block. -/
theorem log_streak {a e : Nat} {b : Block} (hb : b ∈ maximal pageFrameMaxOrder s.usable)
    (ha : b.start = a) (he : a < e) (hroom : e ≤ a + 2 ^ maxOrder a)
    (hin : ∀ x, a ≤ x → x < e → x ∈ s.usable) (hout : e < a + 2 ^ maxOrder a → e ∉ s.usable) :
    Nat.log 2 (e - a) = b.order := by
  obtain ⟨⟨hm, hdvd⟩, hgreat⟩ := maxOrder_isGreatest a
  have hsize : b.start + b.size ≤ e := by
    by_contra hlt
    have hle : 2 ^ b.order ≤ 2 ^ maxOrder a :=
      Nat.pow_le_pow_right (by omega) (hgreat ⟨hb.2.1, ha ▸ hb.1⟩)
    have hs : b.size = 2 ^ b.order := rfl
    exact hout (by omega) (hb.2.2.1 (mem_span.mpr ⟨by omega, by omega⟩))
  refine le_antisymm ?_ (Nat.le_log_of_pow_le (by omega) (by rw [size] at hsize; omega))
  have hlog : 2 ^ Nat.log 2 (e - a) ≤ e - a := Nat.pow_log_le_self 2 (by omega)
  have hlm : Nat.log 2 (e - a) ≤ maxOrder a := by
    have := Nat.log_mono_right (b := 2) (n := e - a) (m := 2 ^ maxOrder a) (by omega)
    rwa [Nat.log_pow (by omega)] at this
  exact order_le_of_mem_maximal (c := ⟨Nat.log 2 (e - a), a⟩) hb
    ((Nat.pow_dvd_pow 2 hlm).trans hdvd) (hlm.trans hm)
    (fun x hx => hin x (mem_span.mp hx).1 (by
      have hx2 : x < a + 2 ^ Nat.log 2 (e - a) := (mem_span.mp hx).2
      omega))
    b.start_mem_span (ha ▸ start_mem_span ⟨Nat.log 2 (e - a), a⟩)

theorem Built.usable (h : Built s t start) : t.usable = s.usable :=
  usable_congr h.total h.reserved

/-- The first frame past `start` that is not reserved starts a maximal block. -/
theorem Built.next (h : Built s t start) {a : Nat} (ha : start ≤ a) (hu : a ∈ s.usable)
    (hskip : ∀ x, start ≤ x → x < a → x ∉ s.usable) :
    ∃ b ∈ maximal pageFrameMaxOrder s.usable, b.start = a := by
  obtain ⟨b, hb, hab⟩ := exists_maximal_mem pageFrameMaxOrder hu
  refine ⟨b, hb, ?_⟩
  obtain ⟨hle, hlt⟩ := mem_span.mp hab
  by_contra hne
  rcases Nat.lt_or_ge b.start start with hbs | hbs
  · have := h.below b ((h.mem b).mpr ⟨hb, hbs⟩)
    omega
  · exact hskip b.start hbs (by omega) (hb.2.2.1 b.start_mem_span)

/-- Adding the maximal block found extends the lists to its end. -/
theorem Built.add (h : Built s t start) {b : Block} (hb : b ∈ maximal pageFrameMaxOrder s.usable)
    (ha : start ≤ b.start) (hskip : ∀ x, start ≤ x → x < b.start → x ∉ s.usable) :
    Built s ((t.modifyPage b.start (·.orFlags pageTop)).addToPageFrameOrder b.order b.start)
      (b.start + b.size) := by
  have hlinks := links_modifyPage t b.start (f := (·.orFlags pageTop)) (fun _ => rfl) fun _ => rfl
  have hfree : (t.modifyPage b.start (·.orFlags pageTop)).freeBlocks = t.freeBlocks :=
    freeBlocks_modifyPage t b.start (fun _ => rfl) fun _ => rfl
  have hlow : ∀ c ∈ t.freeBlocks, c.start < b.start := fun c hc =>
    ((h.mem c).mp hc).2.trans_le ha
  obtain ⟨hlinked, hmem⟩ := mem_freeBlocks_addTo (k := b.order) (i := b.start)
    (s := t.modifyPage b.start (·.orFlags pageTop)) (hlinks ▸ h.linked)
    (by rw [hfree]; exact fun c hc => (hlow c hc).ne)
  rw [hfree] at hmem
  have hor : ∀ x, ((t.modifyPage b.start (·.orFlags pageTop)).memoryMap x).priv =
      (t.memoryMap x).priv := fun x => modifyPage_field Page.priv t b.start x fun _ => rfl
  refine ⟨hlinked, fun c => ?_, fun c hc => ?_, fun c hc => ?_, fun c hc => ?_, fun x => ?_,
    fun x => ?_, by rw [total_addTo, modifyPage_total, h.total]⟩
  · rw [hmem c, h.mem c]
    constructor
    · rintro (rfl | ⟨hc, hlt⟩)
      · exact ⟨hb, Nat.lt_add_of_pos_right b.size_pos⟩
      · exact ⟨hc, by omega⟩
    · rintro ⟨hc, hlt⟩
      rcases Nat.lt_or_ge c.start start with hcs | hcs
      · exact Or.inr ⟨hc, hcs⟩
      rcases Nat.lt_or_ge c.start b.start with hcb | hcb
      · exact absurd (hc.2.2.1 c.start_mem_span) (hskip c.start hcs hcb)
      · exact Or.inl (eq_of_mem_maximal hc hb c.start_mem_span (mem_span.mpr ⟨hcb, hlt⟩))
  · rw [priv_addTo, hor]
    rcases (hmem c).mp hc with rfl | hc
    · exact if_pos rfl
    · rw [if_neg (hlow c hc).ne, h.priv c hc]
  · rw [isTop_congr (flags_addTo _ _ _ _)]
    rcases (hmem c).mp hc with rfl | hc
    · rw [modifyPage_self, Page.isTop_orTop]
    · rw [modifyPage_of_ne t _ (hlow c hc).ne, h.top c hc]
  · rcases (hmem c).mp hc with rfl | hc
    · exact le_rfl
    · exact (h.below c hc).trans (ha.trans (Nat.le_add_right _ _))
  · rw [isAllocated_congr (flags_addTo _ _ _ _),
      modifyPage_field Page.isAllocated t _ _ Page.isAllocated_orTop, h.allocated]
  · rw [isReserved_congr (flags_addTo _ _ _ _),
      modifyPage_field Page.isReserved t _ _ Page.isReserved_orTop, h.reserved]

/-- A round lists the maximal block at the next usable frame and continues behind it. -/
theorem initRound_eq (h : Built s t start) (hlt : start < s.totalPageNumber)
    (hlast : t.skipReserved (t.totalPageNumber - start) start < s.totalPageNumber) :
    ∃ b ∈ maximal pageFrameMaxOrder s.usable, start ≤ b.start ∧
      (∀ x, start ≤ x → x < b.start → x ∉ s.usable) ∧
      t.initRound start = some
        ((t.modifyPage b.start (·.orFlags pageTop)).addToPageFrameOrder b.order b.start,
          some (b.start + b.size)) := by
  obtain ⟨h1, h2, h3, h4⟩ := skipReserved_spec (s := t)
    (t.totalPageNumber - start) start (by rw [h.total]; omega)
  generalize ha : t.skipReserved (t.totalPageNumber - start) start = a at h1 h2 h3 h4 hlast
  rw [h.total] at h2 h4
  have hskip : ∀ x, start ≤ x → x < a → x ∉ s.usable := fun x hx1 hx2 hu => by
    have hr := h3 x hx1 hx2
    rw [h.reserved, hu.2] at hr
    cases hr
  have hfound := h4 hlast
  have hau : a ∈ s.usable := ⟨hlast, by rw [← h.reserved, hfound]⟩
  obtain ⟨b, hb, rfl⟩ := h.next h1 hau hskip
  have hm : maxOrder b.start ≤ 10 := (maxOrder_isGreatest b.start).1.1
  have hpos := Nat.two_pow_pos (maxOrder b.start)
  obtain ⟨e1, e2, e3, e4⟩ := streakEnd_spec (s := t) (2 ^ maxOrder b.start - 1)
    (b.start + 1) (by rw [h.total]; omega)
  rw [h.usable] at e3 e4
  generalize he : t.streakEnd (2 ^ maxOrder b.start - 1) (b.start + 1) = e at e1 e2 e3 e4
  have hlog := log_streak hb rfl (by omega) (by omega)
    (fun x hx1 hx2 => by
      rcases Nat.eq_or_lt_of_le hx1 with rfl | hx1
      · exact hau
      · exact e3 x hx1 hx2)
    (fun hlt => e4 (by omega))
  have hpow : (2 : Nat) ^ maxOrder b.start ≤ 2 ^ 10 := Nat.pow_le_pow_right (by omega) hm
  have hlog2 : log2 (e - b.start) = some b.order := by
    rw [log2_eq (by omega) (by omega), hlog]
  have hbo : b.order < 64 := by
    have : b.order ≤ 10 := hb.2.1
    omega
  refine ⟨b, hb, h1, hskip, ?_⟩
  rw [initRound]
  simp only [ha, hfound, Bool.false_eq_true, if_false,
    pow_two_eq (show maxOrder b.start < 64 by omega), he, hlog2, Option.bind_eq_bind,
    Option.bind_some, Option.pure_def, pow_two_eq hbo]
  rfl

/-- A round that skips to the end of the map finds the descriptor behind it reserved. -/
theorem initRound_end (hs : Mapped s) (h : Built s t start) (hlt : start < s.totalPageNumber)
    (hend : s.totalPageNumber ≤ t.skipReserved (t.totalPageNumber - start) start) :
    t.initRound start = some (t, none) ∧ ∀ x, start ≤ x → x ∉ s.usable := by
  obtain ⟨-, h2, h3, -⟩ := skipReserved_spec (s := t) (t.totalPageNumber - start) start
    (by rw [h.total]; omega)
  have heq : t.skipReserved (t.totalPageNumber - start) start = s.totalPageNumber :=
    Nat.le_antisymm (h2.trans h.total.le) hend
  rw [heq] at h3
  have hskip : ∀ x, start ≤ x → x ∉ s.usable := fun x hx hu => by
    have hr := h3 x hx hu.1
    rw [h.reserved, hu.2] at hr
    cases hr
  refine ⟨?_, hskip⟩
  have hbehind : (t.memoryMap s.totalPageNumber).isReserved = true := by
    rw [h.reserved]
    rcases hs.edge with hlast | hbehind
    · exact absurd ⟨by omega, hlast _ (by omega)⟩ (hskip (s.totalPageNumber - 1) (by omega))
    · exact hbehind
  rw [initRound, heq]
  exact if_pos hbehind

/-- Behind the last usable frame the lists are complete. -/
theorem Built.complete (h : Built s t start) (hle : start ≤ s.totalPageNumber)
    (hskip : ∀ x, start ≤ x → x ∉ s.usable) : Built s t s.totalPageNumber := by
  refine ⟨h.linked, fun b => ?_, h.priv, h.top, fun b hb => (h.below b hb).trans hle, h.allocated,
    h.reserved, h.total⟩
  rw [h.mem b]
  apply and_congr_right
  intro hb
  have hu : b.start ∈ s.usable := hb.2.2.1 b.start_mem_span
  constructor
  · exact fun _ => hu.1
  · intro _
    by_contra hge
    exact hskip b.start (Nat.le_of_not_lt hge) hu

/-! ## The whole map -/

/-- The tops are those of the map and the first frames of the listed blocks. -/
def Marked (s t : PageFrames) : Prop :=
  ∀ x, (t.memoryMap x).isTop = true ↔
    (∃ b ∈ t.freeBlocks, b.start = x) ∨ (s.memoryMap x).isTop = true

theorem Marked.add (hm : Marked s t) (h : Built s t start) {b : Block}
    (ha : start ≤ b.start) :
    Marked s ((t.modifyPage b.start (·.orFlags pageTop)).addToPageFrameOrder b.order b.start) := by
  have hlinks := links_modifyPage t b.start (f := (·.orFlags pageTop)) (fun _ => rfl) fun _ => rfl
  have hfree : (t.modifyPage b.start (·.orFlags pageTop)).freeBlocks = t.freeBlocks :=
    freeBlocks_modifyPage t b.start (fun _ => rfl) fun _ => rfl
  obtain ⟨-, hmem⟩ := mem_freeBlocks_addTo (k := b.order) (i := b.start)
    (s := t.modifyPage b.start (·.orFlags pageTop)) (hlinks ▸ h.linked)
    (by rw [hfree]; exact fun c hc => (((h.mem c).mp hc).2.trans_le ha).ne)
  intro x
  rw [isTop_congr (flags_addTo _ _ _ _)]
  simp only [hmem, hfree]
  by_cases hx : x = b.start
  · subst hx
    rw [modifyPage_self, Page.isTop_orTop]
    exact ⟨fun _ => Or.inl ⟨b, Or.inl rfl, rfl⟩, fun _ => rfl⟩
  · rw [modifyPage_of_ne t _ hx, hm x]
    apply or_congr_left
    constructor
    · rintro ⟨c, hc, e⟩
      exact ⟨c, Or.inr hc, e⟩
    · rintro ⟨c, rfl | hc, e⟩
      · exact absurd e.symm hx
      · exact ⟨c, hc, e⟩

theorem initLoop_spec (hs : Mapped s) (fuel : Nat) {start : Nat} {t : PageFrames}
    (h : Built s t start) (hm : Marked s t) (hf : s.totalPageNumber ≤ start + fuel) :
    ∃ u stop, initLoop fuel t start = some u ∧ s.totalPageNumber ≤ stop ∧ Built s u stop ∧
      Marked s u := by
  induction fuel generalizing t start with
  | zero => exact ⟨t, start, rfl, hf, h, hm⟩
  | succ fuel ih =>
    rw [initLoop, h.total]
    split_ifs with hlt
    · rcases Nat.lt_or_ge (t.skipReserved (t.totalPageNumber - start) start) s.totalPageNumber with
        hin | hend
      · obtain ⟨b, hb, hle, hskip, hround⟩ := initRound_eq h hlt hin
        have hpos := b.size_pos
        obtain ⟨v, fin, hv, hfin⟩ := ih (h.add hb hle hskip) (hm.add h hle) (by omega)
        exact ⟨v, fin, by rw [hround]; exact hv, hfin⟩
      · obtain ⟨hround, hskip⟩ := initRound_end hs h hlt hend
        exact ⟨t, _, by rw [hround]; rfl, le_rfl, h.complete hlt.le hskip, hm⟩
    · exact ⟨t, start, rfl, by omega, h, hm⟩

theorem Mapped.not_mem_freeBlocks (h : Mapped s) (b : Block) : b ∉ s.clearOrders.freeBlocks := by
  refine PageFrames.not_mem_freeBlocks ?_
  change (if b.order ≤ pageFrameMaxOrder then none else s.pageFrameOrder b.order) = none
  split_ifs with ho
  · rfl
  · exact h.slots _ (Nat.lt_of_not_le ho)

theorem Mapped.built (h : Mapped s) : Built s s.clearOrders 0 := by
  have hfree := h.not_mem_freeBlocks
  have hempty : ∀ order, s.clearOrders.links.head order = none := fun order => by
    cases hhead : s.clearOrders.links.head order with
    | none => rfl
    | some i => exact absurd (head_mem_freeBlocks hhead) (hfree ⟨order, i⟩)
  exact ⟨Links.linked_of_empty hempty,
    fun b => ⟨fun hb => absurd hb (hfree b), fun hb => absurd hb.2 (Nat.not_lt_zero _)⟩,
    fun b hb => absurd hb (hfree b), fun b hb => absurd hb (hfree b),
    fun b hb => absurd hb (hfree b), fun _ => rfl, fun _ => rfl, rfl⟩

theorem Mapped.marked (h : Mapped s) : Marked s s.clearOrders := by
  intro x
  have hno : ¬∃ b ∈ s.clearOrders.freeBlocks, b.start = x := by
    rintro ⟨b, hb, -⟩
    exact h.not_mem_freeBlocks b hb
  rw [or_iff_right hno]
  rfl

/-- The lists of `BuddySystemInit` hold the maximal blocks of the map. -/
theorem buddySystemInit_built (h : Mapped s) :
    ∃ t stop, s.buddySystemInit = some t ∧ s.totalPageNumber ≤ stop ∧ Built s t stop ∧
      Marked s t ∧ ∀ b, b ∈ t.freeBlocks ↔ b ∈ maximal pageFrameMaxOrder s.usable := by
  obtain ⟨t, stop, ht, hstop, hb, hm⟩ :=
    initLoop_spec h s.totalPageNumber h.built h.marked (by omega)
  refine ⟨t, stop, ht, hstop, hb, hm, fun b => ?_⟩
  rw [hb.mem b, and_iff_left_iff_imp]
  exact fun hmax => (hmax.2.2.1 b.start_mem_span).1.trans_le hstop

/-- `BuddySystemInit` leaves the canonical decomposition of the map in the lists. -/
theorem buddySystemInit_spec (h : Mapped s) :
    ∃ t, s.buddySystemInit = some t ∧
      t.Represents (Pool.canonical pageFrameMaxOrder s.usable) ∧ Marked s t := by
  obtain ⟨t, stop, ht, -, hb, hmark, hmem⟩ := buddySystemInit_built h
  refine ⟨t, ht, ⟨hb.linked, hmem, fun b hm => hb.priv b ((hmem b).mpr hm), ?_, fun x hx => ?_,
    hb.usable⟩, hmark⟩
  · rintro b (hm | hm)
    · exact hb.top b ((hmem b).mpr hm)
    · exact absurd hm (Set.notMem_empty b)
  · rw [hb.allocated, (h.clear x hx.1).1]
    simp

/-! ## The canonical decomposition -/

/-- The free lists of `t` are the canonical decomposition of the map `s`. -/
structure Decomposes (s t : PageFrames) : Prop where
  disjoint : t.freeBlocks.PairwiseDisjoint Block.span
  order_le : ∀ b ∈ t.freeBlocks, b.order ≤ pageFrameMaxOrder
  aligned : ∀ b ∈ t.freeBlocks, 2 ^ b.order ∣ b.start
  priv : ∀ b ∈ t.freeBlocks, (t.memoryMap b.start).priv = b.order
  covers : ∀ x, (∃ b ∈ t.freeBlocks, x ∈ b.span) ↔
    x < s.totalPageNumber ∧ (s.memoryMap x).isReserved = false
  top : ∀ x < s.totalPageNumber,
    (t.memoryMap x).isTop = true ↔ ∃ b ∈ t.freeBlocks, b.start = x
  coalesced : ∀ b ∈ t.freeBlocks, b.order < pageFrameMaxOrder → b.buddy ∉ t.freeBlocks
  maximal : ∀ b : Block, 2 ^ b.order ∣ b.start → b.order ≤ pageFrameMaxOrder →
    (∀ x ∈ b.span, x < s.totalPageNumber ∧ (s.memoryMap x).isReserved = false) →
    ∃ c ∈ t.freeBlocks, b.order ≤ c.order ∧ b.span ⊆ c.span

theorem buddySystemInit_decomposes (h : Handed s) :
    ∃ t, s.buddySystemInit = some t ∧ Decomposes s t := by
  obtain ⟨t, stop, ht, -, hb, hm, hmem⟩ := buddySystemInit_built h.mapped
  have hset : t.freeBlocks = maximal pageFrameMaxOrder s.usable := Set.ext hmem
  refine ⟨t, ht, ?_, fun b hf => ((hmem b).mp hf).2.1, fun b hf => ((hmem b).mp hf).1, hb.priv,
    fun x => ?_, fun x hx => ?_, ?_, fun b ha ho hR => ?_⟩
  · intro b hf c hc hne
    refine Set.disjoint_left.mpr fun x hxb hxc => hne ?_
    exact eq_of_mem_maximal ((hmem b).mp hf) ((hmem c).mp hc) hxb hxc
  · rw [hset]
    constructor
    · rintro ⟨b, hf, hxb⟩
      exact hf.2.2.1 hxb
    · exact fun hx => exists_maximal_mem pageFrameMaxOrder hx
  · rw [hm x, or_iff_left]
    rw [(h.clear x hx).2]
    exact Bool.false_ne_true
  · rw [hset]
    exact maximal_coalesced _ _
  · obtain ⟨c, hc, hsub⟩ := exists_maximal ha ho hR
    have hbc := order_le_of_mem_maximal hc ha ho hR (hsub b.start_mem_span) b.start_mem_span
    exact ⟨c, (hmem c).mpr hc, hbc, hsub⟩

/-- Seven frames of which frame 2 is reserved. -/
def holedMap : PageFrames where
  memoryMap i := ⟨if i = 2 then pageReserved else 0, 0, none, none⟩
  pageFrameOrder _ := none
  totalPageNumber := 7

theorem buddySystemInit_decomposes_seven :
    ∃ t, holedMap.buddySystemInit = some t ∧ Decomposes holedMap t :=
  buddySystemInit_decomposes
    ⟨by decide, fun i hi => by
      have hi : i + 1 = 7 := hi
      obtain rfl : i = 6 := by omega
      decide, fun _ _ => rfl⟩

end Amaterasu.PageFrames
