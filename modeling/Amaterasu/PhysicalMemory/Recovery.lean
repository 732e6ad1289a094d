import Amaterasu.PhysicalMemory.Runs

/-! Whether the scan of `FreePageFrames` finds the order of a live block again. It looks at
`PAGE_TOP` flags, which are set when a block is split and never cleared, so the flags inside a block
are decided when it is allocated. -/

namespace Amaterasu
open Block Runs

namespace PageFrames
variable {R : Set Nat} {s t : PageFrames} {p : Pool R} {b : Block} {k i : Nat}

/-! ## The scan -/

/-- The descriptors that the order scan reads. -/
def scanPagesFrom (s : PageFrames) (i : Nat) : Nat → Nat → List Nat
  | 0, _ => []
  | left + 1, freedOrder =>
    (i + (1 <<< freedOrder)) ::
      if (s.memoryMap (i + (1 <<< freedOrder))).isTop then []
      else scanPagesFrom s i left (freedOrder + 1)

def scanPages (s : PageFrames) (i : Nat) : List Nat := s.scanPagesFrom i 31 0

/-- The scan stops at the order of `b` and stays in the array. -/
structure Recovers (s : PageFrames) (b : Block) : Prop where
  order : s.scanOrder b.start = some b.order
  pages : ∀ x ∈ s.scanPages b.start, x < s.totalPageNumber

theorem scanOrder_iff (ho : b.order < 31) :
    s.scanOrder b.start = some b.order ↔ OrderVisible s b := by
  refine ⟨fun h => ?_, scanOrder_eq ho⟩
  obtain ⟨htop, -, hlow⟩ := List.find?_range_eq_some.mp h
  rw [Nat.one_shiftLeft] at htop
  refine ⟨fun j hj => ?_, htop⟩
  have hclear := hlow j hj
  rwa [Nat.one_shiftLeft, Bool.not_eq_true'] at hclear

theorem mem_scanPagesFrom (hv : OrderVisible s b) (left : Nat) {j x : Nat} (hj : j ≤ b.order)
    (hleft : b.order < j + left) : x ∈ s.scanPagesFrom b.start left j ↔
      ∃ e, j ≤ e ∧ e ≤ b.order ∧ x = b.start + 2 ^ e := by
  induction left generalizing j with
  | zero => omega
  | succ left ih =>
    rw [scanPagesFrom, Nat.one_shiftLeft, List.mem_cons]
    rcases Nat.eq_or_lt_of_le hj with rfl | hlt
    · rw [if_pos hv.2]
      constructor
      · rintro (rfl | hx)
        · exact ⟨_, le_rfl, le_rfl, rfl⟩
        · exact absurd hx List.not_mem_nil
      · rintro ⟨e, h1, h2, rfl⟩
        exact Or.inl (by rw [le_antisymm h2 h1])
    · rw [if_neg (by rw [hv.1 j hlt]; exact Bool.false_ne_true), ih hlt (by omega)]
      constructor
      · rintro (rfl | ⟨e, h1, h2, rfl⟩)
        · exact ⟨j, le_rfl, hj, rfl⟩
        · exact ⟨e, by omega, h2, rfl⟩
      · rintro ⟨e, h1, h2, rfl⟩
        rcases Nat.eq_or_lt_of_le h1 with rfl | h1
        · exact Or.inl rfl
        · exact Or.inr ⟨e, h1, h2, rfl⟩

theorem recovers_iff (ho : b.order ≤ pageFrameMaxOrder) :
    Recovers s b ↔ OrderVisible s b ∧ b.start + b.size < s.totalPageNumber := by
  have hmax : b.order ≤ 10 := ho
  have hpages : OrderVisible s b → ∀ x, x ∈ s.scanPages b.start ↔
      ∃ e, 0 ≤ e ∧ e ≤ b.order ∧ x = b.start + 2 ^ e := fun hv x =>
    mem_scanPagesFrom hv 31 (Nat.zero_le _) (by omega)
  constructor
  · rintro ⟨horder, hin⟩
    have hv := (scanOrder_iff (by omega)).mp horder
    exact ⟨hv, hin _ ((hpages hv _).mpr ⟨b.order, Nat.zero_le _, le_rfl, rfl⟩)⟩
  · rintro ⟨hv, hend⟩
    refine ⟨scanOrder_eq (by omega) hv, fun x hx => ?_⟩
    obtain ⟨e, -, he, rfl⟩ := (hpages hv x).mp hx
    have hle : 2 ^ e ≤ b.size := Nat.pow_le_pow_right (by omega) he
    omega

/-! ## Tops -/

/-- The list that `AllocatePageFrames` takes a block of order `k` from, and its front. -/
def Front (s : PageFrames) (k d i : Nat) : Prop :=
  k ≤ d ∧ d ≤ pageFrameMaxOrder ∧ s.pageFrameOrder d = some i ∧
    ∀ j, k ≤ j → j < d → s.pageFrameOrder j = none

/-- The fields that the scans read, with `PAGE_TOP` set in addition in `T`. -/
structure Topped (s t : PageFrames) (T : Set Nat) : Prop where
  total : t.totalPageNumber = s.totalPageNumber
  reserved : ∀ x, (t.memoryMap x).isReserved = (s.memoryMap x).isReserved
  top : ∀ x, (t.memoryMap x).isTop = true ↔ (s.memoryMap x).isTop = true ∨ x ∈ T

theorem Topped.refl (s : PageFrames) : Topped s s ∅ :=
  ⟨rfl, fun _ => rfl, fun x => (or_iff_left (Set.notMem_empty x)).symm⟩

theorem Topped.trans {u : PageFrames} {T : Set Nat} (hst : Topped s t T) (htu : Topped t u ∅) :
    Topped s u T := by
  refine ⟨htu.total.trans hst.total, fun x => (htu.reserved x).trans (hst.reserved x), fun x => ?_⟩
  rw [htu.top, hst.top]
  exact or_iff_left (Set.notMem_empty x)

theorem Topped.of_flags (htot : t.totalPageNumber = s.totalPageNumber)
    (hflags : ∀ x, (t.memoryMap x).flags = (s.memoryMap x).flags) : Topped s t ∅ := by
  refine ⟨htot, fun x => isReserved_congr (hflags x), fun x => ?_⟩
  rw [isTop_congr (hflags x)]
  exact (or_iff_left (Set.notMem_empty x)).symm

theorem Topped.of_modifyPage {f : Page → Page} (hr : ∀ p, (f p).isReserved = p.isReserved)
    (ht : ∀ p, (f p).isTop = p.isTop) (s : PageFrames) (i : Nat) :
    Topped s (s.modifyPage i f) ∅ := by
  refine ⟨modifyPage_total .., fun x => modifyPage_field Page.isReserved s i x hr, fun x => ?_⟩
  rw [modifyPage_field Page.isTop s i x ht]
  exact (or_iff_left (Set.notMem_empty x)).symm

/-- The split loop sets `PAGE_TOP` at the power-of-two distances down to the requested order. -/
theorem splitDown_topped (above : Nat) :
    ∀ {s : PageFrames} {p : Pool R}, s.Represents p → s.pageFrameOrder (k + above) = some i →
      ∃ t, splitDown above s k = some t ∧ t.pageFrameOrder k = some i ∧
        Topped s t {x | ∃ e, k ≤ e ∧ e < k + above ∧ x = i + 2 ^ e} := by
  induction above with
  | zero =>
    intro s p h hf
    refine ⟨s, rfl, hf, rfl, fun _ => rfl, fun x => ?_⟩
    rw [or_iff_left]
    rintro ⟨e, h1, h2, -⟩
    omega
  | succ above ih =>
    intro s p h hf
    have hbp := h.spells.head hf
    obtain ⟨t, ht, hhead, hrep⟩ := splitFront_spec (k := k + above) h hf
    obtain ⟨t', ht', -, htot, htop, -, hres, -⟩ :=
      splitFront_fields hf (upper_start_eq_xor (p.free_aligned hbp))
    obtain rfl : t = t' := Option.some.inj (ht.symm.trans ht')
    obtain ⟨u, hu, huhead, hut⟩ := ih hrep hhead
    refine ⟨u, by rw [splitDown, ht]; exact hu, huhead, hut.total.trans htot,
      fun x => (hut.reserved x).trans (hres x), fun x => ?_⟩
    have hi : (s.memoryMap i).isTop = true := h.top _ (Or.inl hbp)
    rw [hut.top, htop, Bool.or_eq_true, decide_eq_true_iff]
    constructor
    · rintro (((rfl | rfl) | hx) | ⟨e, h1, h2, rfl⟩)
      · exact Or.inl hi
      · exact Or.inr ⟨k + above, by omega, by omega, rfl⟩
      · exact Or.inl hx
      · exact Or.inr ⟨e, h1, by omega, rfl⟩
    · rintro (hx | ⟨e, h1, h2, rfl⟩)
      · exact Or.inl (Or.inr hx)
      · rcases Nat.lt_or_ge e (k + above) with hlt | hge
        · exact Or.inr ⟨e, h1, hlt, rfl⟩
        · obtain rfl : e = k + above := by omega
          exact Or.inl (Or.inl (Or.inr rfl))

theorem takeFront_topped (hf : s.pageFrameOrder k = some i) :
    ∃ t, s.takeFront k = some (t, i) ∧ Topped s t ∅ := by
  refine ⟨_, by rw [takeFront, hf]; rfl, Topped.trans
    (.of_modifyPage Page.isReserved_orAllocated Page.isTop_orAllocated s i) (.of_flags ?_ ?_)⟩
  · exact total_deleteFrom ..
  · exact flags_deleteFrom _ k i

theorem allocateFrames_topped (h : s.Represents p) {n : Int} (hn : 1 ≤ n) (hb : n < 2 ^ 31)
    (hk : Nat.clog 2 n.toNat = k) :
    (s.allocateFrames n = some (s, none) ∧ ∀ d i, ¬s.Front k d i) ∨
    ∃ t d i, s.Front k d i ∧ s.allocateFrames n = some (t, some i) ∧
      Topped s t {x | ∃ e, k ≤ e ∧ e < d ∧ x = i + 2 ^ e} := by
  have hcases := allocateFrames_cases s hn hb
  rw [hk] at hcases
  obtain ⟨hfail, hnone⟩ | ⟨d, i, hkd, hd, hi, hmin, heq⟩ := hcases
  · refine Or.inl ⟨hfail, ?_⟩
    rintro d i ⟨hkd, hd, hi, -⟩
    rw [hnone d hkd hd] at hi
    cases hi
  have hkd' : k + (d - k) = d := Nat.add_sub_cancel' hkd
  obtain ⟨u, hu, huhead, hut⟩ := splitDown_topped (k := k) (d - k) h (hkd'.symm ▸ hi)
  obtain ⟨t, ht, htt⟩ := takeFront_topped huhead
  rw [hkd'] at hut
  refine Or.inr ⟨t, d, i, ⟨hkd, hd, hi, hmin⟩, ?_, hut.trans htt⟩
  rw [heq, hu, Option.bind_some, ht]
  rfl

theorem mergeUp_topped (left : Nat) :
    ∀ (s : PageFrames) (j : Nat), Topped s (mergeUp left s i j) ∅ := by
  induction left with
  | zero => exact fun s j => Topped.refl s
  | succ left ih =>
    intro s j
    rw [mergeUp]
    split_ifs
    · refine Topped.trans (.of_flags ?_ fun x => ?_) (ih _ (j + 1))
      · simp
      · rw [flags_addTo, flags_deleteFrom, flags_deleteFrom]
    · exact Topped.refl s

/-- No free touches `PAGE_TOP`. -/
theorem freePageFrames_topped {address : Nat} (ht : s.freePageFrames address = some t) :
    Topped s t ∅ := by
  obtain ⟨freedOrder, -, heq⟩ := Option.bind_eq_some_iff.mp ht
  obtain rfl := Option.some.inj heq
  refine Topped.trans (Topped.trans (.of_flags ?_ ?_) (.of_modifyPage
    Page.isReserved_xorAllocated Page.isTop_xorAllocated _ _)) (mergeUp_topped _ _ freedOrder)
  · exact total_addTo ..
  · exact flags_addTo s freedOrder _

end PageFrames

namespace FrameSystem
open PageFrames
variable {m : PageFrames} {s t : FrameSystem}

/-- The order of every live block is found again. -/
def AllRecovered (s : FrameSystem) : Prop := ∀ b ∈ s.live, s.frames.Recovers b

/-- The block that is about to be allocated has no top left in it by an earlier split, and behind it
comes a frame that has a top: the rest of a larger block, or another block of the map. -/
def Fresh (s : FrameSystem) : FrameRequest → Prop
  | .allocate n => ∀ d i, s.frames.Front (Nat.clog 2 n.toNat) d i →
    (∀ j < Nat.clog 2 n.toNat, (s.frames.memoryMap (i + 2 ^ j)).isTop = false) ∧
      (d = Nat.clog 2 n.toNat → i + 2 ^ d ∈ s.frames.usable)
  | .free _ => True

/-- The allocations of fresh blocks, and the frees that merge upward. -/
def Orderly (s : FrameSystem) (a : FrameRequest) : Prop :=
  s.Admissible a ∧ s.Fresh a ∧ ∀ b, a = .free b → s.frames.MergesUpward b

/-- The state stands for a pool whose live blocks show their orders. -/
structure Shows (m : PageFrames) (s : FrameSystem) : Prop where
  tracks : ∃ p : Pool m.usable, s.Tracks p
  recovered : s.AllRecovered
  reserved : ∀ x < s.frames.totalPageNumber,
    (s.frames.memoryMap x).isReserved = true → (s.frames.memoryMap x).isTop = false

/-- The frame behind a block of the pool has a top exactly when it is in the pool. -/
theorem Shows.top_behind (h : Shows m s) {p : Pool m.usable} (hp : s.Tracks p) {b : Block}
    (hb : b ∈ p.free ∪ p.live) : b.start + b.size ∈ s.frames.usable ↔
      b.start + b.size < s.frames.totalPageNumber ∧
        (s.frames.memoryMap (b.start + b.size)).isTop = true := by
  constructor
  · intro hu
    have hR : b.start + b.size ∈ m.usable := hp.represents.usable ▸ hu
    obtain ⟨c, hc, hxc⟩ := (p.covers _).mp hR
    obtain ⟨hle, hlt⟩ := mem_span.mp hxc
    have hpos := b.size_pos
    -- a block that starts before the end of `b` would share its last frame
    have hstart : c.start = b.start + b.size := by
      by_contra hne
      have hlast : b.start + b.size - 1 ∈ b.span := mem_span.mpr (by omega)
      have hlast' : b.start + b.size - 1 ∈ c.span := mem_span.mpr (by omega)
      obtain rfl := p.eq_of_mem_span hc hb hlast' hlast
      omega
    exact ⟨hu.1, hstart ▸ hp.represents.top c hc⟩
  · rintro ⟨hlt, htop⟩
    refine ⟨hlt, eq_false_of_ne_true fun hres => ?_⟩
    rw [h.reserved _ hlt hres] at htop
    cases htop

/-- A live block away from the new tops shows its order as before. -/
theorem recovers_of_topped {f g : PageFrames} {T : Set Nat} {b : Block} (hfg : Topped f g T)
    (hT : ∀ x ∈ T, x ∉ b.span) (ho : b.order ≤ pageFrameMaxOrder) (h : f.Recovers b) :
    g.Recovers b := by
  obtain ⟨hv, hend⟩ := (recovers_iff ho).mp h
  refine (recovers_iff ho).mpr ⟨⟨fun j hj => ?_, (hfg.top _).mpr (Or.inl hv.2)⟩,
    hfg.total.symm ▸ hend⟩
  rw [← Bool.not_eq_true, hfg.top, hv.1 j hj]
  rintro (hfalse | hx)
  · cases hfalse
  · have hlt : 2 ^ j < b.size := Nat.pow_lt_pow_right (by decide) hj
    exact hT _ hx (mem_span.mpr ⟨Nat.le_add_right _ _, Nat.add_lt_add_left hlt _⟩)

/-- The new block shows its order exactly when it was fresh. -/
theorem Shows.granted_recovers_iff (h : Shows m s) {p : Pool m.usable} (hp : s.Tracks p)
    {k d i : Nat} (hf : s.frames.Front k d i) {f : PageFrames}
    (ht : Topped s.frames f {x | ∃ e, k ≤ e ∧ e < d ∧ x = i + 2 ^ e}) : f.Recovers ⟨k, i⟩ ↔
      (∀ j < k, (s.frames.memoryMap (i + 2 ^ j)).isTop = false) ∧
        (d = k → i + 2 ^ d ∈ s.frames.usable) := by
  obtain ⟨hkd, hd, hi, -⟩ := hf
  have hblock : (⟨d, i⟩ : Block) ∈ p.free := hp.represents.spells.head hi
  have hinside : ∀ j < k, ((f.memoryMap (i + 2 ^ j)).isTop = false ↔
      (s.frames.memoryMap (i + 2 ^ j)).isTop = false) := by
    intro j hj
    rw [← Bool.not_eq_true, ← Bool.not_eq_true, ht.top, or_iff_left]
    rintro ⟨e, he, -, heq⟩
    have : 2 ^ j < 2 ^ e := Nat.pow_lt_pow_right (by decide) (hj.trans_le he)
    omega
  have hbehind : (f.memoryMap (i + 2 ^ k)).isTop = true ∧ i + 2 ^ k < f.totalPageNumber ↔
      (d = k → i + 2 ^ d ∈ s.frames.usable) := by
    rw [ht.top, ht.total]
    rcases Nat.eq_or_lt_of_le hkd with rfl | hlt
    · have hnone : i + 2 ^ k ∉ {x | ∃ e, k ≤ e ∧ e < k ∧ x = i + 2 ^ e} := by
        rintro ⟨e, h1, h2, -⟩
        omega
      rw [or_iff_left hnone, and_comm, forall_prop_of_true rfl]
      exact (h.top_behind hp (Or.inl hblock)).symm
    · have hin : i + 2 ^ k ∈ (⟨d, i⟩ : Block).span :=
        mem_span.mpr ⟨Nat.le_add_right _ _,
          Nat.add_lt_add_left (Nat.pow_lt_pow_right (by decide) hlt) i⟩
      have hu : i + 2 ^ k ∈ s.frames.usable :=
        hp.represents.usable ▸ p.span_subset (Or.inl hblock) hin
      exact iff_of_true ⟨Or.inr ⟨k, le_rfl, hlt, rfl⟩, hu.1⟩ fun heq => absurd heq hlt.ne'
  rw [recovers_iff (hkd.trans hd), OrderVisible, and_assoc]
  exact and_congr (forall_congr' fun j => imp_congr_right fun hj => hinside j hj) hbehind

/-- An allocation keeps the live blocks visible, and shows its own exactly when it is fresh. -/
theorem Shows.allocate (h : Shows m s) {n : Int} (hn : 1 ≤ n) (hb : n < 2 ^ 31) :
    ∃ t, s.step (.allocate n) = some t ∧ (t.AllRecovered ↔ s.Fresh (.allocate n)) ∧
      (t.AllRecovered → Shows m t) := by
  obtain ⟨p, hp⟩ := h.tracks
  rcases allocateFrames_topped hp.represents hn hb rfl with ⟨hfail, hnone⟩ | ⟨f, d, i, hf, heq, ht⟩
  · have hstep : s.step (.allocate n) = some s := by
      rw [step, hfail]
      rfl
    exact ⟨s, hstep, iff_of_true h.recovered fun d i hf => absurd hf (hnone d i), fun _ => h⟩
  have hstep : s.step (.allocate n) = some ⟨f, granted n i :: s.live⟩ := by
    rw [step, heq]
    rfl
  obtain ⟨hkd, hd, hi, hmin⟩ := hf
  have hblock : (⟨d, i⟩ : Block) ∈ p.free := hp.represents.spells.head hi
  -- the new tops lie in the free block that is split
  have hapart : ∀ b ∈ s.live, ∀ x ∈ {x | ∃ e, Nat.clog 2 n.toNat ≤ e ∧ e < d ∧ x = i + 2 ^ e},
      x ∉ b.span := by
    rintro b hb' _ ⟨e, -, he, rfl⟩ hx
    have hin : i + 2 ^ e ∈ (⟨d, i⟩ : Block).span := mem_span.mpr ⟨Nat.le_add_right _ _,
      Nat.add_lt_add_left (Nat.pow_lt_pow_right (by decide) he) i⟩
    have hlive := (hp.live b).mp hb'
    exact p.not_live_of_free hblock (p.eq_of_mem_span (Or.inr hlive) (Or.inl hblock) hx hin ▸ hlive)
  refine ⟨_, hstep, ?_, fun hall => ⟨?_, hall, fun x hx hres => ?_⟩⟩
  · have hnew := h.granted_recovers_iff hp ⟨hkd, hd, hi, hmin⟩ ht
    have hfresh : s.Fresh (.allocate n) ↔ f.Recovers (granted n i) := by
      rw [granted, hnew]
      constructor
      · exact fun hall => hall d i ⟨hkd, hd, hi, hmin⟩
      · rintro hcond d' i' ⟨hkd', -, hi', hmin'⟩
        have hdd : d' = d := by
          by_contra hne
          rcases Nat.lt_or_gt_of_ne hne with hlt | hgt
          · rw [hmin d' hkd' hlt] at hi'
            cases hi'
          · rw [hmin' d hkd hgt] at hi
            cases hi
        subst hdd
        obtain rfl : i' = i := Option.some.inj (hi'.symm.trans hi)
        exact hcond
    rw [hfresh]
    constructor
    · exact fun hall => hall _ List.mem_cons_self
    · intro hgranted b hb'
      rcases List.mem_cons.mp hb' with rfl | hb'
      · exact hgranted
      · exact recovers_of_topped ht (hapart b hb') (hp.order_le b hb') (h.recovered b hb')
  · rcases hp.allocate hn hb with ⟨hfail, -⟩ | ⟨u, g, j, e, q, -, hu, hq, -⟩
    · rw [heq] at hfail
      cases hfail
    · obtain rfl := Option.some.inj (hstep.symm.trans hu)
      exact ⟨q, hq⟩
  · have hx' : x < s.frames.totalPageNumber := ht.total ▸ hx
    have hres' : (s.frames.memoryMap x).isReserved = true := ht.reserved x ▸ hres
    rw [← Bool.not_eq_true, ht.top, h.reserved x hx' hres']
    rintro (hfalse | ⟨e, -, he, rfl⟩)
    · cases hfalse
    · have hin : i + 2 ^ e ∈ (⟨d, i⟩ : Block).span := mem_span.mpr ⟨Nat.le_add_right _ _,
        Nat.add_lt_add_left (Nat.pow_lt_pow_right (by decide) he) i⟩
      have hu : i + 2 ^ e ∈ s.frames.usable :=
        hp.represents.usable ▸ p.span_subset (Or.inl hblock) hin
      rw [hu.2] at hres'
      cases hres'

/-- A free keeps the other live blocks visible. -/
theorem Shows.free (h : Shows m s) {b : Block} (hb : b ∈ s.live) :
    ∃ t, s.step (.free b) = some t ∧ t.AllRecovered ∧
      (s.frames.MergesUpward b → Shows m t) := by
  obtain ⟨p, hp⟩ := h.tracks
  have ho : b.order ≤ 10 := hp.order_le b hb
  obtain ⟨hv, -⟩ := (recovers_iff ho).mp (h.recovered b hb)
  have haddr : frameAddress (some b.start) >>> 12 = b.start := Nat.shiftLeft_shiftRight ..
  obtain ⟨f, hfree⟩ : ∃ f, s.frames.freePageFrames (frameAddress (some b.start)) = some f := by
    rw [freePageFrames, haddr, scanOrder_eq (by omega) hv]
    exact ⟨_, rfl⟩
  have hstep : s.step (.free b) = some ⟨f, s.live.filter (· ≠ b)⟩ := by
    rw [step, hfree]
    rfl
  have ht := freePageFrames_topped hfree
  have hall : AllRecovered ⟨f, s.live.filter (· ≠ b)⟩ := by
    intro c hc
    have hcl := List.mem_of_mem_filter hc
    exact recovers_of_topped ht (fun x hx => absurd hx (Set.notMem_empty x)) (hp.order_le c hcl)
      (h.recovered c hcl)
  refine ⟨_, hstep, hall, fun hup => ⟨?_, hall, fun x hx hres => ?_⟩⟩
  · obtain ⟨u, q, hu, hq, -⟩ := hp.free ⟨hb, hv, hup⟩
    obtain rfl := Option.some.inj (hstep.symm.trans hu)
    exact ⟨q, hq⟩
  · have hx' : x < s.frames.totalPageNumber := ht.total ▸ hx
    have hres' : (s.frames.memoryMap x).isReserved = true := ht.reserved x ▸ hres
    rw [← Bool.not_eq_true, ht.top, h.reserved x hx' hres']
    rintro (hfalse | hx)
    · cases hfalse
    · exact absurd hx (Set.notMem_empty x)

/-- Every request completes, and leaves the orders to be found again exactly when it is fresh. -/
theorem Shows.step_iff (h : Shows m s) {a : FrameRequest} (ha : s.Admissible a) :
    ∃ t, s.step a = some t ∧ (t.AllRecovered ↔ s.Fresh a) ∧ (s.Orderly a → Shows m t) := by
  cases a with
  | allocate n =>
    obtain ⟨t, ht, hiff, hnext⟩ := h.allocate ha.1 ha.2
    exact ⟨t, ht, hiff, fun hok => hnext (hiff.mpr hok.2.1)⟩
  | free b =>
    obtain ⟨t, ht, hall, hnext⟩ := h.free ha
    exact ⟨t, ht, iff_of_true hall trivial, fun hok => hnext (hok.2.2 b rfl)⟩

theorem boot_shows (hm : m.Mapped) : ∃ s, boot m = some s ∧ Shows m s := by
  obtain ⟨t, stop, ht, -, hb, hmark, hmem⟩ := buddySystemInit_built hm
  obtain ⟨s, hs, htr⟩ := boot_tracks hm
  have hboot : boot m = some ⟨t, []⟩ := by
    rw [boot, ht]
    rfl
  obtain rfl := Option.some.inj (hboot.symm.trans hs)
  refine ⟨_, hs, ⟨_, htr⟩, fun b hb => absurd hb List.not_mem_nil, fun x hx hres => ?_⟩
  have hx' : x < m.totalPageNumber := hb.total ▸ hx
  rw [← Bool.not_eq_true, hmark x, (hm.clear x hx').2]
  rintro (⟨b, hfree, rfl⟩ | hfalse)
  · have hu : b.start ∈ m.usable := ((hmem b).mp hfree).2.2.1 b.start_mem_span
    have hfree := hu.2
    rw [← hb.reserved, hres] at hfree
    cases hfree
  · cases hfalse

/-- Runs of fresh allocations and of frees that merge upward complete, and in every state they reach
the order of every live block is found again. A further request keeps that exactly when it is
fresh. -/
theorem run_orders_recovered (hm : m.Mapped) :
    ∃ s₀, boot m = some s₀ ∧ ∀ as, Along step Orderly s₀ as →
      ∃ t, run step s₀ as = some t ∧ t.AllRecovered ∧
        ∀ a, t.Admissible a → ∃ u, t.step a = some u ∧ (u.AllRecovered ↔ t.Fresh a) := by
  obtain ⟨s₀, hs₀, hshows⟩ := boot_shows hm
  refine ⟨s₀, hs₀, fun as hok => ?_⟩
  have hstep : ∀ s a, Shows m s → s.Orderly a → ∃ t, s.step a = some t ∧ Shows m t := by
    intro s a hs ha
    obtain ⟨t, ht, -, hnext⟩ := hs.step_iff ha.1
    exact ⟨t, ht, hnext ha⟩
  obtain ⟨t, ht, hshows⟩ := Along.completes hstep hshows hok
  refine ⟨t, ht, hshows.recovered, fun a ha => ?_⟩
  obtain ⟨u, hu, hiff, -⟩ := hshows.step_iff ha
  exact ⟨u, hu, hiff⟩

theorem run_orders_recovered_two : ∃ s₀ t, boot (blankMap 2) = some s₀ ∧
    run step s₀ [.allocate 1] = some t ∧ t.AllRecovered := by
  obtain ⟨s₀, hs₀, hruns⟩ := run_orders_recovered (blankMap_boot 2).mapped
  have hempty : ∀ s ∈ boot (blankMap 2), s.frames.pageFrameOrder 0 = none := by decide
  have hok : Along step Orderly s₀ [.allocate 1] := by
    refine ⟨⟨⟨by decide, by decide⟩, ?_, fun b hb => by cases hb⟩, fun _ _ => trivial⟩
    rintro d i ⟨-, -, hi, -⟩
    refine ⟨fun j hj => absurd hj (Nat.not_lt_zero j), fun hd => ?_⟩
    rw [hd, show Nat.clog 2 (Int.toNat 1) = 0 from rfl, hempty s₀ hs₀] at hi
    cases hi
  obtain ⟨t, ht, hall, -⟩ := hruns _ hok
  exact ⟨s₀, t, hs₀, ht, hall⟩

/-- Frame 0 of four is allocated and freed. The block of frames 0 and 1 is then taken for one
frame. -/
theorem merged_block_shows_half : ∃ s₀ t, boot (blankMap 4) = some s₀ ∧
    Along step Admissible s₀ [.allocate 1, .free ⟨0, 0⟩, .allocate 2] ∧
    run step s₀ [.allocate 1, .free ⟨0, 0⟩, .allocate 2] = some t ∧ ¬t.AllRecovered := by
  have hfacts : ∀ s ∈ boot (blankMap 4), Along step Admissible s
      [.allocate 1, .free ⟨0, 0⟩, .allocate 2] := by decide
  have hend : ((boot (blankMap 4)).bind fun s => run step s
      [.allocate 1, .free ⟨0, 0⟩, .allocate 2]).map
      (fun t => (t.live, t.frames.scanOrder 0)) = some ([⟨1, 0⟩], some 0) := by decide
  obtain ⟨t, ht, hview⟩ := Option.map_eq_some_iff.mp hend
  obtain ⟨s₀, hs₀, hrun⟩ := Option.bind_eq_some_iff.mp ht
  refine ⟨s₀, t, hs₀, hfacts s₀ hs₀, hrun, fun hall => ?_⟩
  obtain ⟨hlive, hscan⟩ := Prod.mk.inj hview
  have hrec := (hall ⟨1, 0⟩ (by rw [hlive]; exact List.mem_singleton_self _)).order
  rw [hscan] at hrec
  cases hrec

end FrameSystem
end Amaterasu
