import Amaterasu.PhysicalMemory.Runs
import Mathlib.Data.List.Perm.Subperm

/-! The address of frame 0 is the result with which `AllocatePageFrames` fails. Any memory map is
allowed here: when its last frames are reserved, `BuddySystemInit` looks at the descriptor behind
the array, and may list a block there. -/

namespace Amaterasu
open Block Runs

namespace PageFrames

/-- The globals before `BuddySystemInit`: the map as it was loaded, and the table zeroed. -/
def loaded (memoryMap : Nat → Page) (totalPageNumber : Nat) : PageFrames :=
  ⟨memoryMap, fun _ => none, totalPageNumber⟩

/-- The map offers frame 0. -/
def OffersZero (m : PageFrames) : Prop := 0 ∈ m.usable

/-! ## The lists after `BuddySystemInit` -/

variable {m s t : PageFrames} {start : Nat}

/-- The outer loop at `start`. -/
structure Laid (m t : PageFrames) (start : Nat) : Prop where
  linked : t.links.Linked
  aligned : ∀ b ∈ t.freeBlocks, b.Aligned
  disjoint : t.freeBlocks.PairwiseDisjoint Block.span
  order_le : ∀ b ∈ t.freeBlocks, b.order ≤ pageFrameMaxOrder
  below : ∀ b ∈ t.freeBlocks, b.start + b.size ≤ start
  reserved : ∀ x, (t.memoryMap x).isReserved = (m.memoryMap x).isReserved
  total : t.totalPageNumber = m.totalPageNumber
  zero : (∃ b ∈ t.freeBlocks, 0 ∈ b.span) ↔ 0 < start ∧ m.OffersZero

theorem streakEnd_bounds (s : PageFrames) (room stop : Nat) :
    stop ≤ s.streakEnd room stop ∧ s.streakEnd room stop ≤ stop + room := by
  induction room generalizing stop with
  | zero => exact ⟨le_rfl, le_rfl⟩
  | succ room ih =>
    rw [streakEnd]
    split_ifs
    · exact ⟨le_rfl, Nat.le_add_right _ _⟩
    · exact ⟨le_rfl, Nat.le_add_right _ _⟩
    · obtain ⟨h1, h2⟩ := ih (stop + 1)
      omega

/-- The block of a round is aligned, and of an order that has a list. -/
theorem log_streak_le {a e : Nat} (ha : a < e) (he : e ≤ a + 2 ^ maxOrder a) :
    Nat.log 2 (e - a) ≤ pageFrameMaxOrder ∧ 2 ^ Nat.log 2 (e - a) ∣ a := by
  obtain ⟨⟨hm, hdvd⟩, -⟩ := maxOrder_isGreatest a
  have hlog : Nat.log 2 (e - a) ≤ maxOrder a := by
    have := Nat.log_mono_right (b := 2) (n := e - a) (m := 2 ^ maxOrder a) (by omega)
    rwa [Nat.log_pow (by omega)] at this
  exact ⟨hlog.trans hm, (Nat.pow_dvd_pow 2 hlog).trans hdvd⟩

theorem Laid.add (h : Laid m t start) {b : Block} (ha : b.Aligned)
    (ho : b.order ≤ pageFrameMaxOrder)
    (hb : start ≤ b.start) (h0 : start = 0 → (b.start = 0 ↔ m.OffersZero)) :
    Laid m ((t.modifyPage b.start (·.orFlags pageTop)).addToPageFrameOrder b.order b.start)
      (b.start + b.size) := by
  have hlinks := links_modifyPage t b.start (f := (·.orFlags pageTop)) (fun _ => rfl) fun _ => rfl
  have hfree : (t.modifyPage b.start (·.orFlags pageTop)).freeBlocks = t.freeBlocks :=
    freeBlocks_modifyPage t b.start (fun _ => rfl) fun _ => rfl
  have hlow : ∀ c ∈ t.freeBlocks, c.start + c.size ≤ b.start := fun c hc => (h.below c hc).trans hb
  obtain ⟨hlinked, hmem⟩ := mem_freeBlocks_addTo (k := b.order) (i := b.start)
    (s := t.modifyPage b.start (·.orFlags pageTop)) (hlinks ▸ h.linked)
    (by
      rw [hfree]
      intro c hc
      have := hlow c hc
      have := c.size_pos
      omega)
  rw [hfree] at hmem
  have hbc : ∀ c ∈ t.freeBlocks, Disjoint c.span b.span := fun c hc =>
    Set.disjoint_left.mpr fun x hxc hxb => by
      have := hlow c hc
      have := mem_span.mp hxc
      have := mem_span.mp hxb
      omega
  refine ⟨hlinked, fun c hc => ?_, fun c hc d hd hne => ?_, fun c hc => ?_, fun c hc => ?_,
    fun x => ?_, by rw [total_addTo, modifyPage_total, h.total], ?_⟩
  · rcases (hmem c).mp hc with rfl | hc
    · exact ha
    · exact h.aligned c hc
  · rcases (hmem c).mp hc with rfl | hc <;> rcases (hmem d).mp hd with rfl | hd
    · exact absurd rfl hne
    · exact (hbc d hd).symm
    · exact hbc c hc
    · exact h.disjoint hc hd hne
  · rcases (hmem c).mp hc with rfl | hc
    · exact ho
    · exact h.order_le c hc
  · rcases (hmem c).mp hc with rfl | hc
    · exact le_rfl
    · exact (hlow c hc).trans (Nat.le_add_right _ _)
  · rw [isReserved_congr (flags_addTo _ _ _ _),
      modifyPage_field Page.isReserved t _ _ Page.isReserved_orTop, h.reserved]
  · have hpos := b.size_pos
    have hsplit : (∃ c ∈ (((t.modifyPage b.start (·.orFlags pageTop)).addToPageFrameOrder b.order
        b.start)).freeBlocks, 0 ∈ c.span) ↔ b.start = 0 ∨ ∃ c ∈ t.freeBlocks, 0 ∈ c.span := by
      have hzero : 0 ∈ b.span ↔ b.start = 0 := by
        rw [mem_span]
        omega
      constructor
      · rintro ⟨c, hc, h0c⟩
        rcases (hmem c).mp hc with rfl | hc
        · exact Or.inl (hzero.mp h0c)
        · exact Or.inr ⟨c, hc, h0c⟩
      · rintro (h0b | ⟨c, hc, h0c⟩)
        · exact ⟨b, (hmem b).mpr (Or.inl rfl), hzero.mpr h0b⟩
        · exact ⟨c, (hmem c).mpr (Or.inr hc), h0c⟩
    rw [hsplit, h.zero]
    rcases Nat.eq_zero_or_pos start with hs | hs
    · rw [h0 hs]
      constructor
      · rintro (ho | ⟨hlt, -⟩)
        · exact ⟨by omega, ho⟩
        · omega
      · exact fun hw => Or.inl hw.2
    · constructor
      · rintro (hb0 | hw)
        · omega
        · exact ⟨by omega, hw.2⟩
      · exact fun hw => Or.inr ⟨hs, hw.2⟩

theorem initRound_listed {first : Nat}
    (hfirst : s.skipReserved (s.totalPageNumber - start) start = first)
    (hres : (s.memoryMap first).isReserved = false) : ∃ k ≤ pageFrameMaxOrder, 2 ^ k ∣ first ∧
      first + 2 ^ k ≤ s.streakEnd (pow 2 (maxOrder first) - 1) (first + 1) ∧
      log2 (s.streakEnd (pow 2 (maxOrder first) - 1) (first + 1) - first) = some k ∧
      s.initRound start = some
        ((s.modifyPage first (·.orFlags pageTop)).addToPageFrameOrder k first,
          some (first + 2 ^ k)) := by
  have hm : maxOrder first ≤ 10 := (maxOrder_isGreatest first).1.1
  have hpow : (2 : Nat) ^ maxOrder first ≤ 2 ^ 10 := Nat.pow_le_pow_right (by omega) hm
  have hpos := Nat.two_pow_pos (maxOrder first)
  have hroom : pow 2 (maxOrder first) = 2 ^ maxOrder first := pow_two_eq (by omega)
  obtain ⟨e1, e2⟩ := streakEnd_bounds s (2 ^ maxOrder first - 1) (first + 1)
  unfold initRound
  dsimp only
  rw [hfirst, if_neg (by rw [hres]; exact Bool.false_ne_true), hroom]
  generalize s.streakEnd (2 ^ maxOrder first - 1) (first + 1) = e at e1 e2 ⊢
  obtain ⟨hle, hdvd⟩ := log_streak_le (a := first) (e := e) (by omega) (by omega)
  have hle' : Nat.log 2 (e - first) ≤ 10 := hle
  have hlog : log2 (e - first) = some (Nat.log 2 (e - first)) := log2_eq (by omega) (by omega)
  have hself : 2 ^ Nat.log 2 (e - first) ≤ e - first := Nat.pow_log_le_self 2 (by omega)
  refine ⟨Nat.log 2 (e - first), hle, hdvd, by omega, hlog, ?_⟩
  simp only [hlog, Option.bind_eq_bind, Option.bind_some, Option.pure_def,
    pow_two_eq (show Nat.log 2 (e - first) < 64 by omega)]

/-- A round ends the loop and leaves no offer of frame 0 unseen, or lists one more block. -/
theorem initRound_laid (h : Laid m t start) (hlt : start < m.totalPageNumber) :
    (t.initRound start = some (t, none) ∧ (start = 0 → ¬m.OffersZero)) ∨
      ∃ u stop, t.initRound start = some (u, some stop) ∧ start < stop ∧ Laid m u stop := by
  obtain ⟨h1, h2, h3, h4⟩ := skipReserved_spec (s := t) (t.totalPageNumber - start) start
    (by rw [h.total]; omega)
  generalize ha : t.skipReserved (t.totalPageNumber - start) start = a at h1 h2 h3 h4
  have hzero : start = 0 → 0 < a → ¬m.OffersZero := fun hs ha ho => by
    have hr := h3 0 (by omega) ha
    rw [h.reserved, ho.2] at hr
    cases hr
  by_cases hres : (t.memoryMap a).isReserved = true
  · refine Or.inl ⟨by rw [initRound, ha]; exact if_pos hres, fun hs ho => ?_⟩
    rcases Nat.eq_zero_or_pos a with ha | ha
    · rw [ha, h.reserved, ho.2] at hres
      cases hres
    · exact hzero hs ha ho
  · obtain ⟨k, hk, hdvd, -, -, hround⟩ := initRound_listed ha (eq_false_of_ne_true hres)
    have hpos := Nat.two_pow_pos k
    refine Or.inr ⟨_, a + 2 ^ k, hround, by omega, h.add (b := ⟨k, a⟩) hdvd hk h1 fun hs => ?_⟩
    constructor
    · intro ha0
      have ha0 : a = 0 := ha0
      refine ⟨by omega, ?_⟩
      rw [← h.reserved, ← ha0]
      exact eq_false_of_ne_true hres
    · intro ho
      by_contra ha
      exact hzero hs (Nat.pos_of_ne_zero ha) ho

/-- The lists that `BuddySystemInit` leaves, whatever the map. -/
structure Listed (m t : PageFrames) (stop : Nat) : Prop where
  laid : Laid m t stop
  zero : (∃ b ∈ t.freeBlocks, 0 ∈ b.span) ↔ m.OffersZero

theorem Laid.done (h : Laid m t start) (hz : start = 0 → ¬m.OffersZero) : Listed m t start := by
  refine ⟨h, ?_⟩
  rw [h.zero, and_iff_right_iff_imp]
  exact fun ho => Nat.pos_of_ne_zero fun hs => hz hs ho

theorem initLoop_laid (fuel : Nat) (h : Laid m t start) (hf : m.totalPageNumber ≤ start + fuel) :
    ∃ u stop, initLoop fuel t start = some u ∧ Listed m u stop := by
  have hend : m.totalPageNumber ≤ start → Listed m t start := fun hle =>
    h.done fun hs ho => Nat.not_lt.mpr (hs ▸ hle) ho.1
  induction fuel generalizing t start with
  | zero => exact ⟨t, start, rfl, hend hf⟩
  | succ fuel ih =>
    rw [initLoop, h.total]
    split_ifs with hlt
    · rcases initRound_laid h hlt with ⟨hround, hz⟩ | ⟨u, stop, hround, hadv, hu⟩
      · exact ⟨t, start, by rw [hround]; rfl, h.done hz⟩
      · obtain ⟨v, fin, hv, hfin⟩ := ih hu (by omega) fun hle =>
          hu.done fun hs ho => Nat.not_lt.mpr (hs ▸ hle) ho.1
        exact ⟨v, fin, by rw [hround]; exact hv, hfin⟩
    · exact ⟨t, start, rfl, hend (Nat.le_of_not_lt hlt)⟩

theorem loaded_laid (memoryMap : Nat → Page) (totalPageNumber : Nat) :
    Laid (loaded memoryMap totalPageNumber) (loaded memoryMap totalPageNumber).clearOrders 0 := by
  have hempty : ∀ order,
      (loaded memoryMap totalPageNumber).clearOrders.links.head order = none := fun order => by
    simp only [links, clearOrders, loaded, ite_self]
  have hfree : ∀ b, b ∉ (loaded memoryMap totalPageNumber).clearOrders.freeBlocks := fun b =>
    not_mem_freeBlocks (hempty b.order)
  refine ⟨Links.linked_of_empty hempty, fun b hb => absurd hb (hfree b),
    fun b hb => absurd hb (hfree b), fun b hb => absurd hb (hfree b),
    fun b hb => absurd hb (hfree b), fun _ => rfl, rfl, ?_, fun hw => absurd hw.1 (Nat.lt_irrefl 0)⟩
  rintro ⟨b, hb, -⟩
  exact absurd hb (hfree b)

theorem buddySystemInit_listed (memoryMap : Nat → Page) (totalPageNumber : Nat) :
    ∃ t stop, (loaded memoryMap totalPageNumber).buddySystemInit = some t ∧
      Listed (loaded memoryMap totalPageNumber) t stop :=
  initLoop_laid totalPageNumber (loaded_laid memoryMap totalPageNumber)
    (Nat.le_add_left _ _)

end PageFrames

namespace FrameSystem
open PageFrames
variable {R : Set Nat} {p : Pool R} {s : FrameSystem}

/-! ## Runs of allocations -/

/-- Requests that allocate. -/
def Allocates (_ : FrameSystem) : FrameRequest → Prop
  | .allocate n => 1 ≤ n ∧ n < 2 ^ 31
  | .free _ => False

/-- The result 0 means failure: it leaves the lists and flags as they were. -/
def ZeroFails (s : FrameSystem) : FrameRequest → Prop
  | .allocate n => ∀ t, s.frames.allocatePageFrames n = some (t, 0) →
    t.freeBlocks = s.frames.freeBlocks ∧
      ∀ i, (t.memoryMap i).flags = (s.frames.memoryMap i).flags
  | .free _ => True

/-- The state stands for the pool `p`, as far as allocations go. -/
structure Serves (s : FrameSystem) (p : Pool R) : Prop where
  spells : s.frames.Spells p
  capped : CappedPool p
  live : ∀ b, b ∈ s.live ↔ b ∈ p.live
  nodup : s.live.Nodup

theorem frameAddress_eq_zero {i : Nat} : frameAddress (some i) = 0 ↔ i = 0 := by
  show i <<< 12 = 0 ↔ i = 0
  rw [Nat.shiftLeft_eq]
  omega

/-- An allocation fails and changes nothing, or takes a block at a listed frame. -/
theorem Serves.allocate (h : s.Serves p) {n : Int} (hn : 1 ≤ n) (hb : n < 2 ^ 31) :
    (s.frames.allocateFrames n = some (s.frames, none) ∧ s.step (.allocate n) = some s ∧
      ∀ c ∈ p.free, c.order < Nat.clog 2 n.toNat) ∨
    ∃ t i, ∃ q : Pool R, s.frames.allocateFrames n = some (t.frames, some i) ∧
      s.step (.allocate n) = some t ∧ t.Serves q ∧ t.live = granted n i :: s.live ∧ i ∈ R ∧
      t.frames.freeBlocks ≠ s.frames.freeBlocks := by
  rcases h.spells.allocateFrames hn hb with ⟨hfail, hnone⟩ | ⟨u, i, d, q, hi, hu, hspell, hdp, hd,
    hcarve⟩
  · refine Or.inl ⟨hfail, by rw [step, hfail]; rfl, fun c hc => ?_⟩
    by_contra hle
    exact absurd (h.capped c hc) (Nat.not_le.mpr (hnone c hc (Nat.le_of_not_lt hle)))
  refine Or.inr ⟨⟨u, granted n i :: s.live⟩, i, q.take _ hi, hu, by rw [step, hu]; rfl,
    ⟨hspell, ?_, fun b => ?_, ?_⟩, rfl, p.span_subset (Or.inl hdp) (start_mem_span ⟨d, i⟩), ?_⟩
  · rintro c ⟨hcq, -⟩
    rcases hcarve.pieces c hcq with ⟨hcp, -⟩ | ⟨-, hcd⟩
    · exact h.capped c hcp
    · exact hcd.trans hd
  · rw [List.mem_cons, Pool.take_live, Set.mem_insert_iff, hcarve.live, h.live]
    rfl
  · refine List.nodup_cons.mpr ⟨fun hmem => ?_, h.nodup⟩
    exact q.not_live_of_free hi (hcarve.live ▸ (h.live _).mp hmem)
  · intro heq
    have hfront : (⟨d, i⟩ : Block) ∈ u.freeBlocks := by
      rw [show u.freeBlocks = s.frames.freeBlocks from heq]
      exact (h.spells.mem _).mpr hdp
    obtain ⟨hq, hne⟩ := (hspell.mem _).mp hfront
    exact hne (q.eq_of_start_eq (Or.inl hq) (Or.inl hi) rfl)

/-- Without frame 0, no allocation returns 0. -/
theorem Serves.zeroFails (h : s.Serves p) (h0 : 0 ∉ R) {a : FrameRequest} (ha : s.Allocates a) :
    s.ZeroFails a ∧ ∀ t ∈ s.step a, ∃ q : Pool R, t.Serves q := by
  cases a with
  | free b => exact ha.elim
  | allocate n =>
    rcases h.allocate ha.1 ha.2 with ⟨hfail, hs, -⟩ | ⟨t, i, q, hi, ht, hq, -, hiR, -⟩
    · refine ⟨fun t ht => ?_, fun t ht => ⟨p, ?_⟩⟩
      · unfold allocatePageFrames at ht
        rw [hfail] at ht
        obtain ⟨rfl, -⟩ := Prod.mk.inj (Option.some.inj ht)
        exact ⟨rfl, fun _ => rfl⟩
      · rw [hs] at ht
        exact Option.some.inj ht ▸ h
    · refine ⟨fun u hu => ?_, fun u hu => ⟨q, ?_⟩⟩
      · unfold allocatePageFrames at hu
        rw [hi] at hu
        have hzero := frameAddress_eq_zero.mp (Prod.mk.inj (Option.some.inj hu)).2
        exact absurd (hzero ▸ hiR) h0
      · rw [ht] at hu
        exact Option.some.inj hu ▸ hq

theorem Serves.length_le (h : s.Serves p) {N : Nat} (hR : R ⊆ Set.Iio N) : s.live.length ≤ N := by
  have hnodup : (s.live.map Block.start).Nodup := by
    refine h.nodup.map_on fun b hb c hc heq => ?_
    exact p.eq_of_start_eq (Or.inr ((h.live b).mp hb)) (Or.inr ((h.live c).mp hc)) heq
  have hsub : s.live.map Block.start ⊆ List.range N := fun x hx => by
    obtain ⟨b, hb, rfl⟩ := List.mem_map.mp hx
    exact List.mem_range.mpr (hR (p.span_subset (Or.inr ((h.live b).mp hb)) b.start_mem_span))
  have hlen := (List.subperm_of_subset hnodup hsub).length_le
  rwa [List.length_map, List.length_range] at hlen

/-- Allocations of one frame come to frame 0 in the end. -/
theorem Serves.reaches_zero {N : Nat} (hR : R ⊆ Set.Iio N) (h0 : 0 ∈ R) (left : Nat) :
    ∀ {s : FrameSystem} {p : Pool R}, s.Serves p → N ≤ s.live.length + left →
      (∀ b ∈ s.live, b.start ≠ 0) →
      ∃ as, Along step Allocates s as ∧ ¬Along step ZeroFails s as := by
  have hone : (1 : Int) ≤ 1 ∧ (1 : Int) < 2 ^ 31 := by decide
  have hclog : Nat.clog 2 (1 : Int).toNat = 0 := Nat.clog_one_right 2
  induction left with
  | zero =>
    intro s p h hlen hno
    rcases h.allocate hone.1 hone.2 with ⟨-, -, hnone⟩ | ⟨t, i, q, -, -, hq, hlive, -, -⟩
    · -- every frame is live, frame 0 among them
      obtain ⟨b, hb, h0b⟩ := (p.covers 0).mp h0
      rcases hb with hb | hb
      · exact absurd (hnone b hb) (by rw [hclog]; exact Nat.not_lt_zero _)
      · exact absurd (Nat.le_zero.mp (mem_span.mp h0b).1) (hno b ((h.live b).mpr hb))
    · have hle := hq.length_le hR
      rw [hlive, List.length_cons] at hle
      omega
  | succ left ih =>
    intro s p h hlen hno
    rcases h.allocate hone.1 hone.2 with ⟨-, -, hnone⟩ | ⟨t, i, q, hi, ht, hq, hlive, -, hne⟩
    · obtain ⟨b, hb, h0b⟩ := (p.covers 0).mp h0
      rcases hb with hb | hb
      · exact absurd (hnone b hb) (by rw [hclog]; exact Nat.not_lt_zero _)
      · exact absurd (Nat.le_zero.mp (mem_span.mp h0b).1) (hno b ((h.live b).mpr hb))
    · rcases Nat.eq_zero_or_pos i with rfl | hpos
      · refine ⟨[.allocate 1], ⟨hone, fun _ _ => trivial⟩, fun hall => ?_⟩
        have haddr : s.frames.allocatePageFrames 1 = some (t.frames, 0) := by
          unfold allocatePageFrames
          rw [hi]
          rfl
        exact hne (hall.1 t.frames haddr).1
      · obtain ⟨as, has, hbad⟩ := ih hq (by rw [hlive, List.length_cons]; omega) (by
          rw [hlive]
          exact List.forall_mem_cons.mpr ⟨hpos.ne', hno⟩)
        refine ⟨.allocate 1 :: as, ⟨hone, fun u hu => ?_⟩, fun hall => hbad (hall.2 t ht)⟩
        rw [ht] at hu
        exact Option.some.inj hu ▸ has

/-- The result 0 means failure in all runs of allocations exactly when the map does not offer
frame 0. -/
theorem zero_fails_iff (memoryMap : Nat → Page) (totalPageNumber : Nat) :
    ∃ s₀, boot (loaded memoryMap totalPageNumber) = some s₀ ∧
      ((∀ as, Along step Allocates s₀ as → Along step ZeroFails s₀ as) ↔
        totalPageNumber = 0 ∨ (memoryMap 0).isReserved = true) := by
  obtain ⟨t, stop, ht, hlaid, hzero⟩ := buddySystemInit_listed memoryMap totalPageNumber
  have hserves : Serves ⟨t, []⟩ (Pool.ofFree t.freeBlocks hlaid.aligned hlaid.disjoint) :=
    ⟨⟨hlaid.linked, fun _ => Iff.rfl⟩, hlaid.order_le,
      fun b => ⟨fun hb => absurd hb List.not_mem_nil, fun hb => absurd hb (Set.notMem_empty b)⟩,
      List.nodup_nil⟩
  have hoffer : (loaded memoryMap totalPageNumber).OffersZero ↔
      ¬(totalPageNumber = 0 ∨ (memoryMap 0).isReserved = true) := by
    show 0 < totalPageNumber ∧ (memoryMap 0).isReserved = false ↔ _
    rw [not_or, Bool.not_eq_true, Nat.pos_iff_ne_zero]
  refine ⟨⟨t, []⟩, by rw [boot, ht]; rfl, fun hall => ?_, fun hno as has => ?_⟩
  · by_contra hyes
    have h0 : 0 ∈ {x | ∃ b ∈ t.freeBlocks, x ∈ b.span} := hzero.mpr (hoffer.mpr hyes)
    have hR : {x | ∃ b ∈ t.freeBlocks, x ∈ b.span} ⊆ Set.Iio stop := by
      rintro x ⟨b, hb, hx⟩
      exact (mem_span.mp hx).2.trans_le (hlaid.below b hb)
    obtain ⟨as, has, hbad⟩ := Serves.reaches_zero hR h0 stop hserves (Nat.le_add_left _ _)
      fun b hb => absurd hb List.not_mem_nil
    exact hbad (hall as has)
  · have h0 : 0 ∉ {x | ∃ b ∈ t.freeBlocks, x ∈ b.span} := fun h => hoffer.mp (hzero.mp h) hno
    refine Along.imp (I := fun s => ∃ q : Pool {x | ∃ b ∈ t.freeBlocks, x ∈ b.span}, s.Serves q)
      ?_ ⟨_, hserves⟩ has
    rintro s a ⟨q, hq⟩ ha
    exact hq.zeroFails h0 ha

/-- A map of one frame: its allocation succeeds with the address 0. -/
theorem frame_zero_succeeds : ∃ s₀, boot (loaded (fun _ => ⟨0, 0, none, none⟩) 1) = some s₀ ∧
    Along step Allocates s₀ [.allocate 1] ∧ ¬Along step ZeroFails s₀ [.allocate 1] := by
  have hrun : ((boot (loaded (fun _ => ⟨0, 0, none, none⟩) 1)).bind fun s =>
      (s.frames.allocatePageFrames 1).map fun r =>
        (s.frames.pageFrameOrder 0, r.1.pageFrameOrder 0, r.2)) = some (some 0, none, 0) := by
    decide
  obtain ⟨s₀, hs₀, hrun⟩ := Option.bind_eq_some_iff.mp hrun
  obtain ⟨⟨t, addr⟩, ht, hview⟩ := Option.map_eq_some_iff.mp hrun
  obtain ⟨hbefore, hview⟩ := Prod.mk.inj hview
  obtain ⟨hafter, rfl⟩ := Prod.mk.inj hview
  refine ⟨s₀, hs₀, ⟨⟨by decide, by decide⟩, fun _ _ => trivial⟩, fun hall => ?_⟩
  have hsame := (hall.1 t ht).1
  have hfree := head_mem_freeBlocks hbefore
  rw [← hsame] at hfree
  exact not_mem_freeBlocks hafter hfree

end FrameSystem
end Amaterasu
