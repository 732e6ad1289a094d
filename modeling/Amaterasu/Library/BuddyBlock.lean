import Mathlib.Data.Nat.Bitwise
import Mathlib.Order.CompletePartialOrder
import Mathlib.Order.Interval.Set.Disjoint
import Mathlib.Tactic.Ring

/-! Power-of-two blocks of consecutive frames. An aligned block is one class of
`x ↦ x / 2 ^ order`, so two aligned blocks are nested or disjoint, and a block
and its buddy are the two halves of an aligned block of the next order. -/

/-- The `2 ^ order` frames from `start` on. -/
structure Block where
  order : Nat
  start : Nat
deriving DecidableEq, Repr

namespace Block

def size (b : Block) : Nat := 2 ^ b.order

def span (b : Block) : Set Nat := Set.Ico b.start (b.start + b.size)

def Aligned (b : Block) : Prop := b.size ∣ b.start

/-- The other half of the block of the next order. -/
def buddy (b : Block) : Block := ⟨b.order, b.start ^^^ b.size⟩

/-- What a block and its buddy coalesce into. -/
def parent (b : Block) : Block := ⟨b.order + 1, min b.start b.buddy.start⟩

/-- The lower half of a block of positive order. -/
def lower (b : Block) : Block := ⟨b.order - 1, b.start⟩

/-- The upper half of a block of positive order. -/
def upper (b : Block) : Block := ⟨b.order - 1, b.start + 2 ^ (b.order - 1)⟩

@[simp] theorem buddy_order (b : Block) : b.buddy.order = b.order := rfl
@[simp] theorem parent_order (b : Block) : b.parent.order = b.order + 1 := rfl
@[simp] theorem lower_order (b : Block) : b.lower.order = b.order - 1 := rfl
@[simp] theorem upper_order (b : Block) : b.upper.order = b.order - 1 := rfl

theorem size_pos (b : Block) : 0 < b.size := Nat.two_pow_pos _

theorem mem_span {b : Block} {x : Nat} : x ∈ b.span ↔ b.start ≤ x ∧ x < b.start + b.size :=
  Set.mem_Ico

theorem start_mem_span (b : Block) : b.start ∈ b.span :=
  mem_span.mpr ⟨le_rfl, Nat.lt_add_of_pos_right b.size_pos⟩

/-! ## Aligned blocks are quotient classes -/

theorem mem_span_iff_div {b : Block} (hb : b.Aligned) {x : Nat} :
    x ∈ b.span ↔ x / b.size = b.start / b.size := by
  obtain ⟨q, hq⟩ := hb
  have hdiv : b.start / b.size = q := by rw [hq, Nat.mul_div_cancel_left q b.size_pos]
  rw [mem_span, hdiv, Nat.div_eq_iff b.size_pos, hq, Nat.mul_comm]
  have := b.size_pos
  omega

theorem eq_of_div {b c : Block} (hb : b.Aligned) (hc : c.Aligned) (ho : b.order = c.order)
    (hd : b.start / b.size = c.start / c.size) : b = c := by
  have hs : b.size = c.size := by rw [size, size, ho]
  have : b.start = c.start := by
    rw [← Nat.mul_div_cancel' hb, ← Nat.mul_div_cancel' hc, hd, hs]
  cases b
  cases c
  simp_all

/-- A frame of the smaller block that lies in the larger one brings the whole block with it. -/
theorem span_subset_of_mem {b c : Block} (hb : b.Aligned) (hc : c.Aligned)
    (ho : b.order ≤ c.order) {x : Nat} (hxb : x ∈ b.span) (hxc : x ∈ c.span) :
    b.span ⊆ c.span := by
  have hsize : c.size = b.size * 2 ^ (c.order - b.order) := by
    rw [size, size, ← Nat.pow_add, Nat.add_sub_cancel' ho]
  intro y hy
  rw [mem_span_iff_div hb] at hxb hy
  rw [mem_span_iff_div hc] at hxc ⊢
  rw [← hxc, hsize, ← Nat.div_div_eq_div_mul, ← Nat.div_div_eq_div_mul, hy, hxb]

theorem eq_of_order_eq_of_mem {b c : Block} (hb : b.Aligned) (hc : c.Aligned)
    (ho : b.order = c.order) {x : Nat} (hxb : x ∈ b.span) (hxc : x ∈ c.span) : b = c := by
  rw [mem_span_iff_div hb] at hxb
  rw [mem_span_iff_div hc] at hxc
  have hs : b.size = c.size := by rw [size, size, ho]
  exact eq_of_div hb hc ho (by rw [← hxb, ← hxc, hs])

/-! ## Buddies -/

@[simp] theorem buddy_buddy (b : Block) : b.buddy.buddy = b := by
  simp [buddy, size]

theorem buddy_start_div (b : Block) : b.buddy.start / b.size = (b.start / b.size) ^^^ 1 := by
  simp only [buddy, size]
  rw [Nat.xor_div_two_pow, Nat.div_self (Nat.two_pow_pos _)]

theorem buddy_aligned {b : Block} (hb : b.Aligned) : b.buddy.Aligned := by
  have hz : b.start % 2 ^ b.order = 0 := Nat.mod_eq_zero_of_dvd hb
  apply Nat.dvd_of_mod_eq_zero
  simp only [buddy, size]
  rw [Nat.xor_mod_two_pow, hz, Nat.mod_self, Nat.xor_self]

theorem xor_one_cases (q : Nat) :
    (q % 2 = 0 ∧ q ^^^ 1 = q + 1) ∨ (q % 2 = 1 ∧ q ^^^ 1 = q - 1) := by
  rcases Nat.mod_two_eq_zero_or_one q with h | h
  · exact Or.inl ⟨h, Nat.xor_one_of_even (Nat.even_iff.mpr h)⟩
  · exact Or.inr ⟨h, Nat.xor_one_of_odd (Nat.odd_iff.mpr h)⟩

/-- The buddy of a lower half starts right after it; the buddy of an upper half right before. -/
theorem buddy_start {b : Block} (hb : b.Aligned) :
    ((b.start / b.size) % 2 = 0 ∧ b.buddy.start = b.start + b.size) ∨
      ((b.start / b.size) % 2 = 1 ∧ b.buddy.start + b.size = b.start) := by
  have hd := b.buddy_start_div
  have h1 := Nat.div_mul_cancel (buddy_aligned hb)
  have h2 := Nat.div_mul_cancel hb
  have hs : b.buddy.size = b.size := rfl
  rw [hs, hd] at h1
  rcases xor_one_cases (b.start / b.size) with ⟨h, hx⟩ | ⟨h, hx⟩ <;> rw [hx] at h1
  · refine Or.inl ⟨h, ?_⟩
    rw [← h1, Nat.add_mul, h2, Nat.one_mul]
  · refine Or.inr ⟨h, ?_⟩
    have hpos : 1 ≤ b.start / b.size := Nat.pos_of_ne_zero fun h0 => by simp [h0] at h
    rw [← h1, Nat.sub_mul, h2, Nat.one_mul, Nat.sub_add_cancel]
    calc b.size = 1 * b.size := (Nat.one_mul _).symm
      _ ≤ b.start / b.size * b.size := Nat.mul_le_mul_right _ hpos
      _ = b.start := h2

theorem buddy_ne (b : Block) : b.buddy ≠ b := by
  intro h
  have hd := b.buddy_start_div
  rw [h] at hd
  generalize b.start / b.size = q at hd
  rcases xor_one_cases q with ⟨_, hx⟩ | ⟨_, hx⟩ <;> omega

theorem buddy_disjoint {b : Block} (hb : b.Aligned) : Disjoint b.span b.buddy.span := by
  refine Set.disjoint_left.mpr fun x hx hy => b.buddy_ne ?_
  exact (eq_of_order_eq_of_mem hb (buddy_aligned hb) rfl hx hy).symm

/-! ## Parents -/

theorem parent_size (b : Block) : b.parent.size = b.size * 2 := by
  simp only [size, parent_order, Nat.pow_succ]

@[simp] theorem parent_buddy (b : Block) : b.buddy.parent = b.parent := by
  simp only [parent, buddy_buddy, buddy_order, Nat.min_comm]

theorem parent_start {b : Block} (hb : b.Aligned) :
    b.parent.start = b.start / b.size / 2 * 2 * b.size := by
  have h2 := Nat.div_mul_cancel hb
  have hp : b.parent.start = min b.start b.buddy.start := rfl
  rcases buddy_start hb with ⟨h, hs⟩ | ⟨h, hs⟩
  · have hq : b.start / b.size / 2 * 2 = b.start / b.size := by omega
    rw [hq, h2, hp]
    omega
  · have hq : b.start / b.size / 2 * 2 = b.start / b.size - 1 := by omega
    rw [hq, Nat.sub_mul, h2, hp]
    omega

theorem parent_aligned {b : Block} (hb : b.Aligned) : b.parent.Aligned := by
  refine ⟨b.start / b.size / 2, ?_⟩
  rw [parent_start hb, parent_size]
  ring

theorem mem_parent_span {b : Block} (hb : b.Aligned) {x : Nat} :
    x ∈ b.parent.span ↔ x ∈ b.span ∨ x ∈ b.buddy.span := by
  have hp : b.parent.start = min b.start b.buddy.start := rfl
  have hs : b.buddy.size = b.size := rfl
  rw [mem_span, mem_span, mem_span, parent_size, hp, hs]
  rcases buddy_start hb with ⟨-, h⟩ | ⟨-, h⟩ <;> omega

theorem span_subset_parent {b : Block} (hb : b.Aligned) : b.span ⊆ b.parent.span :=
  fun _ hx => (mem_parent_span hb).mpr (Or.inl hx)

theorem parent_span_subset {b c : Block} (hb : b.Aligned) (hc : c.Aligned)
    (ho : b.order < c.order) (h : b.span ⊆ c.span) : b.parent.span ⊆ c.span :=
  span_subset_of_mem (parent_aligned hb) hc ho (span_subset_parent hb b.start_mem_span)
    (h b.start_mem_span)

theorem parent_of_lower {b : Block} (h : b.start < b.buddy.start) :
    b.parent = ⟨b.order + 1, b.start⟩ := by
  rw [parent, Nat.min_eq_left h.le]

/-! ## Halves -/

theorem upper_size {b : Block} (ho : 0 < b.order) : b.size = b.lower.size + b.upper.size := by
  simp only [size, lower_order, upper_order]
  rw [← Nat.two_mul, ← Nat.pow_succ', Nat.succ_eq_add_one, Nat.sub_add_cancel ho]

theorem lower_aligned {b : Block} (hb : b.Aligned) : b.lower.Aligned :=
  (Nat.pow_dvd_pow 2 (Nat.sub_le b.order 1)).trans hb

theorem buddy_lower {b : Block} (hb : b.Aligned) (ho : 0 < b.order) : b.lower.buddy = b.upper := by
  have hsize : b.size = b.lower.size * 2 := by
    rw [upper_size ho, Nat.mul_two]
    rfl
  obtain ⟨q, hq⟩ := hb
  have hstart : b.lower.start = b.start := rfl
  have hd : b.lower.start / b.lower.size = 2 * q := by
    rw [hstart, hq, hsize, Nat.mul_assoc, Nat.mul_div_cancel_left _ b.lower.size_pos]
  rcases buddy_start (lower_aligned ⟨q, hq⟩) with ⟨-, h⟩ | ⟨h, -⟩
  · simp only [upper, mk.injEq, buddy, lower_order, true_and]
    exact h
  · omega

theorem upper_aligned {b : Block} (hb : b.Aligned) (ho : 0 < b.order) : b.upper.Aligned :=
  buddy_lower hb ho ▸ buddy_aligned (lower_aligned hb)

theorem parent_lower {b : Block} (hb : b.Aligned) (ho : 0 < b.order) : b.lower.parent = b := by
  have hs : b.lower.buddy.start = b.start + 2 ^ (b.order - 1) := by rw [buddy_lower hb ho, upper]
  have hm : b.lower.parent = ⟨b.order - 1 + 1, min b.start b.lower.buddy.start⟩ := rfl
  rw [hm, hs, Nat.sub_add_cancel ho, Nat.min_eq_left (Nat.le_add_right _ _)]

theorem mem_halves {b : Block} (hb : b.Aligned) (ho : 0 < b.order) {x : Nat} :
    x ∈ b.span ↔ x ∈ b.lower.span ∨ x ∈ b.upper.span := by
  have h := mem_parent_span (lower_aligned hb) (x := x)
  rwa [parent_lower hb ho, buddy_lower hb ho] at h

end Block
