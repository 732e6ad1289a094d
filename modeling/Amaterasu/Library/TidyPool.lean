import Amaterasu.Library.BuddyPool

/-! Pools from which blocks are taken, each out of the smallest free block that has room, and none
is given back but the last one. -/

namespace Block
variable {d i j : Nat}

theorem aligned_of_le (h : (⟨d, i⟩ : Block).Aligned) (hj : j ≤ d) :
    (⟨j, i⟩ : Block).Aligned :=
  (Nat.pow_dvd_pow 2 hj).trans h

/-- Inside a larger block at the same start, the buddy follows. -/
theorem buddy_first (h : (⟨d, i⟩ : Block).Aligned) (hj : j < d) :
    (⟨j, i⟩ : Block).buddy = ⟨j, i + 2 ^ j⟩ :=
  buddy_lower (b := ⟨j + 1, i⟩) (aligned_of_le h hj) (Nat.succ_pos j)

theorem buddy_second (h : (⟨d, i⟩ : Block).Aligned) (hj : j < d) :
    (⟨j, i + 2 ^ j⟩ : Block).buddy = ⟨j, i⟩ := by
  rw [← buddy_first h hj, buddy_buddy]

theorem parent_first (h : (⟨d, i⟩ : Block).Aligned) (hj : j < d) :
    (⟨j, i⟩ : Block).parent = ⟨j + 1, i⟩ :=
  parent_lower (b := ⟨j + 1, i⟩) (aligned_of_le h hj) (Nat.succ_pos j)

end Block

namespace Pool
open Block
variable {R : Set Nat} {cap k d i : Nat} {b : Block} {p q : Pool R}

/-- One free block of each order at most, and a live one where its buddy starts. -/
structure Tidy (cap : Nat) (p : Pool R) : Prop where
  single : ∀ b ∈ p.free, ∀ c ∈ p.free, b.order = c.order → b = c
  leans : ∀ b ∈ p.free, b.order < cap → ∃ c ∈ p.live, c.start = b.buddy.start

/-- `q` is `p` with the free block of order `d` at `i` halved down to the order `k`. -/
structure Halves (k d i : Nat) (p q : Pool R) : Prop where
  live : q.live = p.live
  free : ∀ c, c ∈ q.free ↔ c ∈ p.free ∧ c ≠ ⟨d, i⟩ ∨ c = ⟨k, i⟩ ∨
    ∃ j, k ≤ j ∧ j < d ∧ c = ⟨j, i + 2 ^ j⟩

/-- `q` is `p` with `b` taken off the smallest free block that has room for it. -/
structure Allots (b : Block) (p q : Pool R) : Prop where
  live : q.live = insert b p.live
  free : ∃ d, b.order ≤ d ∧ ⟨d, b.start⟩ ∈ p.free ∧
    (∀ c ∈ p.free, b.order ≤ c.order → d ≤ c.order) ∧
    ∀ c, c ∈ q.free ↔ c ∈ p.free ∧ c ≠ ⟨d, b.start⟩ ∨
      ∃ j, b.order ≤ j ∧ j < d ∧ c = ⟨j, b.start + 2 ^ j⟩

theorem Halves.refl (hb : ⟨k, i⟩ ∈ p.free) : Halves k k i p p where
  live := rfl
  free c := by
    constructor
    · intro hc
      by_cases h : c = ⟨k, i⟩
      · exact Or.inr (Or.inl h)
      · exact Or.inl ⟨hc, h⟩
    · rintro (⟨hc, -⟩ | rfl | ⟨j, hkj, hj, -⟩)
      · exact hc
      · exact hb
      · exact absurd (hkj.trans_lt hj) (lt_irrefl k)

theorem Halves.of_split (hb : ⟨d + 1, i⟩ ∈ p.free) (hkd : k ≤ d)
    (h : Halves k d i (p.split ⟨d + 1, i⟩ hb (Nat.succ_pos d)) q) : Halves k (d + 1) i p q where
  live := h.live
  free c := by
    have hlower : (⟨d + 1, i⟩ : Block).lower = ⟨d, i⟩ := rfl
    have hupper : (⟨d + 1, i⟩ : Block).upper = ⟨d, i + 2 ^ d⟩ := rfl
    have hpos : 0 < 2 ^ d := Nat.two_pow_pos d
    rw [h.free c, split_free, hlower, hupper]
    constructor
    · rintro (⟨⟨hc, hne⟩ | rfl | rfl, hne'⟩ | hc | ⟨j, hkj, hj, hc⟩)
      · exact Or.inl ⟨hc, hne⟩
      · exact absurd rfl hne'
      · exact Or.inr (Or.inr ⟨d, hkd, Nat.lt_succ_self d, rfl⟩)
      · exact Or.inr (Or.inl hc)
      · exact Or.inr (Or.inr ⟨j, hkj, Nat.lt_succ_of_lt hj, hc⟩)
    · rintro (⟨hc, hne⟩ | hc | ⟨j, hkj, hj, rfl⟩)
      · refine Or.inl ⟨Or.inl ⟨hc, hne⟩, ?_⟩
        rintro rfl
        exact hne (p.eq_of_start_eq (Or.inl hc) (Or.inl hb) rfl)
      · exact Or.inr (Or.inl hc)
      · rcases Nat.eq_or_lt_of_le (Nat.le_of_lt_succ hj) with rfl | hlt
        · refine Or.inl ⟨Or.inr (Or.inr rfl), ?_⟩
          intro heq
          have hstart := congrArg Block.start heq
          dsimp only at hstart
          omega
        · exact Or.inr (Or.inr ⟨j, hkj, hlt, rfl⟩)

/-- The piece at the start of a block halved down is the one to take. -/
theorem Halves.allots (h : Halves k d i p q) (hkd : k ≤ d) (hb : ⟨d, i⟩ ∈ p.free)
    (hleast : ∀ c ∈ p.free, k ≤ c.order → d ≤ c.order) (hi : ⟨k, i⟩ ∈ q.free) :
    Allots ⟨k, i⟩ p (q.take ⟨k, i⟩ hi) where
  live := by rw [take_live, h.live]
  free := by
    refine ⟨d, hkd, hb, hleast, ?_⟩
    intro c
    rw [take_free, Set.mem_sdiff, Set.mem_singleton_iff, h.free c]
    constructor
    · rintro ⟨hc | hc | hc, hne⟩
      · exact Or.inl hc
      · exact absurd hc hne
      · exact Or.inr hc
    · rintro (⟨hc, hne⟩ | ⟨j, hkj, hj, rfl⟩)
      · refine ⟨Or.inl ⟨hc, hne⟩, ?_⟩
        rintro rfl
        exact hne (p.eq_of_start_eq (Or.inl hc) (Or.inl hb) rfl)
      · refine ⟨Or.inr (Or.inr ⟨j, hkj, hj, rfl⟩), ?_⟩
        intro heq
        have hpos : 0 < 2 ^ j := Nat.two_pow_pos j
        have hstart := congrArg Block.start heq
        dsimp only at hstart
        omega

theorem Tidy.allots (hp : p.Tidy cap) (h : Allots b p q) : q.Tidy cap := by
  obtain ⟨d, -, hd, hleast, hfree⟩ := h.free
  constructor
  · intro c hc e he heq
    rcases (hfree c).mp hc with ⟨hcp, -⟩ | ⟨j, hbj, hj, rfl⟩ <;>
      rcases (hfree e).mp he with ⟨hep, -⟩ | ⟨j', hbj', hj', rfl⟩
    · exact hp.single c hcp e hep heq
    · change c.order = j' at heq
      have hle := hleast c hcp (heq ▸ hbj')
      omega
    · change j = e.order at heq
      have hle := hleast e hep (heq ▸ hbj)
      omega
    · change j = j' at heq
      rw [heq]
  · intro c hc hlt
    rw [h.live]
    rcases (hfree c).mp hc with ⟨hcp, -⟩ | ⟨j, -, hj, rfl⟩
    · obtain ⟨l, hl, hstart⟩ := hp.leans c hcp hlt
      exact ⟨l, Set.mem_insert_of_mem _ hl, hstart⟩
    · refine ⟨b, Set.mem_insert _ _, ?_⟩
      rw [buddy_second (p.free_aligned hd) hj]

end Pool
