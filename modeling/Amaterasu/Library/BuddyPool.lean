import Amaterasu.Library.BuddyBlock
import Mathlib.Data.Set.Lattice
import Mathlib.Data.Set.Pairwise.Basic

/-! Partitions of a set of frames into free and live aligned blocks. Splitting,
coalescing, allocating and releasing keep the partition by construction; a
coalesced pool is determined by the frames it covers. -/

/-- Aligned blocks, free or live, that partition the frames `R`. -/
@[ext] structure Pool (R : Set Nat) where
  free : Set Block
  live : Set Block
  aligned : ∀ b ∈ free ∪ live, b.Aligned
  disjoint : (free ∪ live).PairwiseDisjoint Block.span
  separate : Disjoint free live
  covers : ∀ x, x ∈ R ↔ ∃ b ∈ free ∪ live, x ∈ b.span

namespace Pool
open Block Set
variable {R : Set Nat}

theorem free_aligned (p : Pool R) {b : Block} (hb : b ∈ p.free) : b.Aligned :=
  p.aligned b (Or.inl hb)

theorem live_aligned (p : Pool R) {b : Block} (hb : b ∈ p.live) : b.Aligned :=
  p.aligned b (Or.inr hb)

theorem eq_of_mem_span (p : Pool R) {b c : Block} (hb : b ∈ p.free ∪ p.live)
    (hc : c ∈ p.free ∪ p.live) {x : Nat} (hxb : x ∈ b.span) (hxc : x ∈ c.span) : b = c := by
  by_contra hne
  exact Set.disjoint_left.mp (p.disjoint hb hc hne) hxb hxc

theorem eq_of_start_eq (p : Pool R) {b c : Block} (hb : b ∈ p.free ∪ p.live)
    (hc : c ∈ p.free ∪ p.live) (h : b.start = c.start) : b = c :=
  p.eq_of_mem_span hb hc b.start_mem_span (h ▸ c.start_mem_span)

theorem not_live_of_free (p : Pool R) {b : Block} (hb : b ∈ p.free) : b ∉ p.live :=
  fun h => Set.disjoint_left.mp p.separate hb h

theorem span_subset (p : Pool R) {b : Block} (hb : b ∈ p.free ∪ p.live) : b.span ⊆ R :=
  fun x hx => (p.covers x).mpr ⟨b, hb, hx⟩

/-! ## Operations -/

/-- Replaces the free blocks `A` by blocks `B` over the same frames. -/
def regroup (p : Pool R) (A B : Set Block) (hA : A ⊆ p.free) (hB : ∀ b ∈ B, b.Aligned)
    (hd : B.PairwiseDisjoint Block.span)
    (hx : ∀ x, (∃ a ∈ A, x ∈ a.span) ↔ ∃ b ∈ B, x ∈ b.span) : Pool R :=
  have hnew : ∀ b ∈ B, ∀ x ∈ b.span, ∃ a ∈ A, x ∈ a.span := fun b hb x hxb =>
    (hx x).mpr ⟨b, hb, hxb⟩
  have hold : ∀ b ∈ B, ∀ c ∈ p.free ∪ p.live, c ∉ A → Disjoint b.span c.span := by
    intro b hb c hc hcA
    refine Set.disjoint_left.mpr fun x hxb hxc => ?_
    obtain ⟨a, ha, hxa⟩ := hnew b hb x hxb
    exact hcA (p.eq_of_mem_span hc (Or.inl (hA ha)) hxc hxa ▸ ha)
  have hlive : ∀ c ∈ p.live, c ∉ A := fun c hc hcA => p.not_live_of_free (hA hcA) hc
  { free := p.free \ A ∪ B
    live := p.live
    aligned := by
      rintro b ((hb | hb) | hb)
      · exact p.free_aligned hb.1
      · exact hB b hb
      · exact p.live_aligned hb
    disjoint := by
      rintro b ((hb | hb) | hb) c ((hc | hc) | hc) hne
      · exact p.disjoint (Or.inl hb.1) (Or.inl hc.1) hne
      · exact (hold c hc b (Or.inl hb.1) hb.2).symm
      · exact p.disjoint (Or.inl hb.1) (Or.inr hc) hne
      · exact hold b hb c (Or.inl hc.1) hc.2
      · exact hd hb hc hne
      · exact hold b hb c (Or.inr hc) (hlive c hc)
      · exact p.disjoint (Or.inr hb) (Or.inl hc.1) hne
      · exact (hold c hc b (Or.inr hb) (hlive b hb)).symm
      · exact p.disjoint (Or.inr hb) (Or.inr hc) hne
    separate := by
      refine Set.disjoint_left.mpr ?_
      rintro b (hb | hb) hl
      · exact p.not_live_of_free hb.1 hl
      · exact Set.disjoint_left.mp (hold b hb b (Or.inr hl) (hlive b hl)) b.start_mem_span
          b.start_mem_span
    covers := by
      intro x
      rw [p.covers x]
      constructor
      · rintro ⟨c, hc, hxc⟩
        by_cases hcA : c ∈ A
        · obtain ⟨b, hb, hxb⟩ := (hx x).mp ⟨c, hcA, hxc⟩
          exact ⟨b, Or.inl (Or.inr hb), hxb⟩
        · rcases hc with hc | hc
          · exact ⟨c, Or.inl (Or.inl ⟨hc, hcA⟩), hxc⟩
          · exact ⟨c, Or.inr hc, hxc⟩
      · rintro ⟨c, (hc | hc) | hc, hxc⟩
        · exact ⟨c, Or.inl hc.1, hxc⟩
        · obtain ⟨a, ha, hxa⟩ := hnew c hc x hxc
          exact ⟨a, Or.inl (hA ha), hxa⟩
        · exact ⟨c, Or.inr hc, hxc⟩ }

/-- Replaces a free block of positive order by its halves. -/
def split (p : Pool R) (b : Block) (hb : b ∈ p.free) (ho : 0 < b.order) : Pool R :=
  p.regroup {b} {b.lower, b.upper} (by simpa using hb)
    (by
      rintro c (rfl | rfl)
      · exact lower_aligned (p.free_aligned hb)
      · exact upper_aligned (p.free_aligned hb) ho)
    (by
      have hd := buddy_disjoint (lower_aligned (p.free_aligned hb))
      rw [buddy_lower (p.free_aligned hb) ho] at hd
      exact Set.pairwise_pair.mpr fun _ => ⟨hd, hd.symm⟩)
    (by simp [mem_halves (p.free_aligned hb) ho])

/-- Coalesces a free block with its free buddy. -/
def join (p : Pool R) (b : Block) (hb : b ∈ p.free) (hc : b.buddy ∈ p.free) : Pool R :=
  p.regroup {b, b.buddy} {b.parent}
    (by rintro c (rfl | rfl) <;> assumption)
    (by rintro c rfl; exact parent_aligned (p.free_aligned hb))
    (Set.pairwiseDisjoint_singleton _ _)
    (by simp [mem_parent_span (p.free_aligned hb)])

/-- Marks a free block live. -/
def take (p : Pool R) (b : Block) (hb : b ∈ p.free) : Pool R :=
  have hu : p.free \ {b} ∪ insert b p.live = p.free ∪ p.live := by
    ext c
    by_cases hcb : c = b <;> simp_all
  { free := p.free \ {b}
    live := insert b p.live
    aligned := by rw [hu]; exact p.aligned
    disjoint := by rw [hu]; exact p.disjoint
    separate := by
      refine Set.disjoint_left.mpr ?_
      rintro c ⟨hc, hcb⟩ (rfl | hl)
      · exact hcb rfl
      · exact p.not_live_of_free hc hl
    covers := by rw [hu]; exact p.covers }

/-- Disjoint aligned blocks as the free blocks of a pool of their own. -/
def ofFree (B : Set Block) (ha : ∀ b ∈ B, b.Aligned) (hd : B.PairwiseDisjoint Block.span) :
    Pool {x | ∃ b ∈ B, x ∈ b.span} where
  free := B
  live := ∅
  aligned b hb := ha b (by simpa using hb)
  disjoint := by simpa using hd
  separate := Set.disjoint_empty B
  covers x := by simp

/-- Returns a live block to the free blocks. -/
def give (p : Pool R) (b : Block) (hb : b ∈ p.live) : Pool R :=
  have hu : insert b p.free ∪ p.live \ {b} = p.free ∪ p.live := by
    ext c
    by_cases hcb : c = b <;> simp_all
  { free := insert b p.free
    live := p.live \ {b}
    aligned := by rw [hu]; exact p.aligned
    disjoint := by rw [hu]; exact p.disjoint
    separate := by
      refine Set.disjoint_left.mpr ?_
      rintro c (rfl | hc) ⟨hl, hcb⟩
      · exact hcb rfl
      · exact p.not_live_of_free hc hl
    covers := by rw [hu]; exact p.covers }

/-- Loses the free blocks `D` together with their frames. -/
def drop (p : Pool R) (D : Set Block) (hD : D ⊆ p.free) : Pool (R \ ⋃ b ∈ D, b.span) :=
  have hsub : p.free \ D ∪ p.live ⊆ p.free ∪ p.live := union_subset_union_left _ sdiff_subset
  { free := p.free \ D
    live := p.live
    aligned b hb := p.aligned b (hsub hb)
    disjoint := p.disjoint.subset hsub
    separate := p.separate.mono_left sdiff_subset
    covers := by
      intro x
      simp only [mem_sdiff, mem_iUnion, exists_prop, not_exists, not_and]
      constructor
      · rintro ⟨hx, hnot⟩
        obtain ⟨b, hb | hb, hxb⟩ := (p.covers x).mp hx
        · exact ⟨b, Or.inl ⟨hb, fun hD => hnot b hD hxb⟩, hxb⟩
        · exact ⟨b, Or.inr hb, hxb⟩
      · rintro ⟨b, hb, hxb⟩
        refine ⟨(p.covers x).mpr ⟨b, hsub hb, hxb⟩, fun c hc hxc => ?_⟩
        obtain rfl := p.eq_of_mem_span (hsub hb) (Or.inl (hD hc)) hxb hxc
        rcases hb with hb | hb
        · exact hb.2 hc
        · exact p.not_live_of_free (hD hc) hb }

@[simp] theorem split_free (p : Pool R) {b : Block} (hb : b ∈ p.free) (ho : 0 < b.order) :
    (p.split b hb ho).free = p.free \ {b} ∪ {b.lower, b.upper} := rfl

@[simp] theorem split_live (p : Pool R) {b : Block} (hb : b ∈ p.free) (ho : 0 < b.order) :
    (p.split b hb ho).live = p.live := rfl

@[simp] theorem join_free (p : Pool R) {b : Block} (hb : b ∈ p.free) (hc : b.buddy ∈ p.free) :
    (p.join b hb hc).free = p.free \ {b, b.buddy} ∪ {b.parent} := rfl

@[simp] theorem join_live (p : Pool R) {b : Block} (hb : b ∈ p.free) (hc : b.buddy ∈ p.free) :
    (p.join b hb hc).live = p.live := rfl

@[simp] theorem take_free (p : Pool R) {b : Block} (hb : b ∈ p.free) :
    (p.take b hb).free = p.free \ {b} := rfl

@[simp] theorem take_live (p : Pool R) {b : Block} (hb : b ∈ p.free) :
    (p.take b hb).live = insert b p.live := rfl

@[simp] theorem give_live (p : Pool R) {b : Block} (hb : b ∈ p.live) :
    (p.give b hb).live = p.live \ {b} := rfl

@[simp] theorem drop_free (p : Pool R) {D : Set Block} (hD : D ⊆ p.free) :
    (p.drop D hD).free = p.free \ D := rfl

@[simp] theorem drop_live (p : Pool R) {D : Set Block} (hD : D ⊆ p.free) :
    (p.drop D hD).live = p.live := rfl

/-! ## Taking a block beside live blocks

The pool `q` of the free blocks holds no live block itself; the live blocks lie outside `R`. -/

section Taken
variable {q : Pool R} {b : Block} {F live : Set Block}

theorem disjoint_beside (q : Pool R) (hout : ∀ c ∈ live, Disjoint R c.span) :
    ∀ c ∈ q.free, ∀ d ∈ live, Disjoint c.span d.span :=
  fun _ hc d hd => (hout d hd).mono_left (q.span_subset (Or.inl hc))

theorem mem_taken (hb : b ∈ q.free) (hF : ∀ c, c ∈ F ↔ c ∈ q.free ∧ c ≠ b) (c : Block) :
    c ∈ F ∪ insert b live ↔ c ∈ q.free ∨ c ∈ live := by
  rw [Set.mem_union, hF, Set.mem_insert_iff]
  by_cases hcb : c = b
  · subst hcb
    exact ⟨fun _ => Or.inl hb, fun _ => Or.inr (Or.inl rfl)⟩
  · tauto

theorem taken_disjoint (hb : b ∈ q.free) (hF : ∀ c, c ∈ F ↔ c ∈ q.free ∧ c ≠ b)
    (hout : ∀ c ∈ live, Disjoint R c.span) (hlive : live.PairwiseDisjoint Block.span) :
    (F ∪ insert b live).PairwiseDisjoint Block.span := by
  intro c hc d hd hne
  rcases (mem_taken hb hF c).mp hc with hc | hc <;> rcases (mem_taken hb hF d).mp hd with hd | hd
  · exact q.disjoint (Or.inl hc) (Or.inl hd) hne
  · exact q.disjoint_beside hout c hc d hd
  · exact (q.disjoint_beside hout d hd c hc).symm
  · exact hlive hc hd hne

theorem taken_separate (hF : ∀ c, c ∈ F ↔ c ∈ q.free ∧ c ≠ b)
    (hout : ∀ c ∈ live, Disjoint R c.span) : Disjoint F (insert b live) := by
  refine Set.disjoint_left.mpr fun c hc hl => ?_
  obtain ⟨hcq, hne⟩ := (hF c).mp hc
  rcases hl with rfl | hl
  · exact hne rfl
  · exact Set.disjoint_left.mp (q.disjoint_beside hout c hcq c hl) c.start_mem_span
      c.start_mem_span

theorem exists_free_of_mem (hlive : q.live = ∅) {x : Nat} (hx : x ∈ R) :
    ∃ c ∈ q.free, x ∈ c.span := by
  obtain ⟨c, hc | hc, hxc⟩ := (q.covers x).mp hx
  · exact ⟨c, hc, hxc⟩
  · rw [hlive] at hc
    exact absurd hc (Set.notMem_empty c)

/-- The blocks left after `b` was taken cover what `b` does not. -/
theorem taken_region (hlive : q.live = ∅) (hb : b ∈ q.free)
    (hF : ∀ c, c ∈ F ↔ c ∈ q.free ∧ c ≠ b) : {x | ∃ c ∈ F, x ∈ c.span} = R \ b.span := by
  ext x
  constructor
  · rintro ⟨c, hc, hxc⟩
    obtain ⟨hcq, hne⟩ := (hF c).mp hc
    refine ⟨q.span_subset (Or.inl hcq) hxc, fun hxb => hne ?_⟩
    exact q.eq_of_mem_span (Or.inl hcq) (Or.inl hb) hxc hxb
  · rintro ⟨hx, hxb⟩
    obtain ⟨c, hc, hxc⟩ := exists_free_of_mem hlive hx
    exact ⟨c, (hF c).mpr ⟨hc, fun e => hxb (e ▸ hxc)⟩, hxc⟩

end Taken

/-- The buddy of a block of the pool is either in the pool or cut into smaller blocks. -/
theorem order_lt_of_mem_buddy (p : Pool R) {b c : Block} (hb : b ∈ p.free ∪ p.live)
    (hc : c ∈ p.free ∪ p.live) (hne : c ≠ b.buddy) {x : Nat} (hxb : x ∈ b.buddy.span)
    (hxc : x ∈ c.span) : c.order < b.order := by
  by_contra ho
  have hba := p.aligned b hb
  have hca := p.aligned c hc
  rcases Nat.lt_or_ge b.order c.order with hlt | hge
  · have hsub := span_subset_of_mem (buddy_aligned hba) hca hlt.le hxb hxc
    have hpar := parent_span_subset (buddy_aligned hba) hca hlt hsub
    rw [parent_buddy] at hpar
    have hcb := p.eq_of_mem_span hc hb (hpar (span_subset_parent hba b.start_mem_span))
      b.start_mem_span
    exact absurd hlt (by rw [hcb]; exact lt_irrefl _)
  · have heq : c.order = b.buddy.order := by rw [buddy_order]; omega
    exact hne (eq_of_order_eq_of_mem hca (buddy_aligned hba) heq hxc hxb)

/-- The pool `q` is `p` with the free block `b` cut into free pieces. -/
structure Carves (b : Block) (p q : Pool R) : Prop where
  live : q.live = p.live
  kept : ∀ c ∈ p.free, c ≠ b → c ∈ q.free
  pieces : ∀ c ∈ q.free, c ∈ p.free ∧ c ≠ b ∨ c.span ⊆ b.span ∧ c.order ≤ b.order

theorem Carves.refl (p : Pool R) {b : Block} : Carves b p p where
  live := rfl
  kept _ hc _ := hc
  pieces c hc := by
    by_cases h : c = b
    · exact Or.inr ⟨h ▸ subset_rfl, h ▸ le_rfl⟩
    · exact Or.inl ⟨hc, h⟩

/-- Cutting on inside the lower half of a split block cuts the block. -/
theorem Carves.of_split {p q : Pool R} {b : Block} (hb : b ∈ p.free) (ho : 0 < b.order)
    (h : Carves b.lower (p.split b hb ho) q) : Carves b p q where
  live := h.live
  kept c hc hne := by
    refine h.kept c (Or.inl ⟨hc, hne⟩) fun e => ?_
    have hcb := p.eq_of_mem_span (Or.inl hc) (Or.inl hb) c.start_mem_span
      ((mem_halves (p.free_aligned hb) ho).mpr (Or.inl (e ▸ c.start_mem_span)))
    exact hne hcb
  pieces c hc := by
    have hlow : b.lower.span ⊆ b.span :=
      fun x hx => (mem_halves (p.free_aligned hb) ho).mpr (Or.inl hx)
    have hupp : b.upper.span ⊆ b.span :=
      fun x hx => (mem_halves (p.free_aligned hb) ho).mpr (Or.inr hx)
    rcases h.pieces c hc with ⟨(hcp | rfl | rfl), -⟩ | ⟨hsub, hord⟩
    · exact Or.inl hcp
    · exact Or.inr ⟨hlow, Nat.sub_le _ _⟩
    · exact Or.inr ⟨hupp, Nat.sub_le _ _⟩
    · exact Or.inr ⟨hsub.trans hlow, hord.trans (Nat.sub_le _ _)⟩

end Pool

/-! ## Coalesced free sets -/

namespace Block
open Set

/-- No two buddies below the order `cap` are both in `F`. -/
def Coalesced (cap : Nat) (F : Set Block) : Prop := ∀ b ∈ F, b.order < cap → b.buddy ∉ F

/-- Every pair of buddies below `cap` in `F` has `b₀` as a member. -/
def CoalescedBut (cap : Nat) (b₀ : Block) (F : Set Block) : Prop :=
  ∀ b ∈ F, b.order < cap → b.buddy ∈ F → b = b₀ ∨ b.buddy = b₀

variable {cap : Nat} {b₀ : Block} {F : Set Block}

theorem Coalesced.but (h : Coalesced cap F) : CoalescedBut cap b₀ F :=
  fun b hb ho hc => absurd hc (h b hb ho)

theorem Coalesced.insert (h : Coalesced cap F) : CoalescedBut cap b₀ (insert b₀ F) := by
  rintro b (rfl | hb) ho (hc | hc)
  · exact Or.inl rfl
  · exact Or.inl rfl
  · exact Or.inr hc
  · exact absurd hc (h b hb ho)

theorem CoalescedBut.erase (h : CoalescedBut cap b₀ F) : Coalesced cap (F \ {b₀}) := by
  rintro b ⟨hb, hne⟩ ho ⟨hc, hcne⟩
  rcases h b hb ho hc with rfl | h
  · exact hne rfl
  · exact hcne h

theorem CoalescedBut.stop (h : CoalescedBut cap b₀ F) (hb : b₀.order < cap → b₀.buddy ∉ F) :
    Coalesced cap F := by
  intro b hbF ho hc
  rcases h b hbF ho hc with rfl | h
  · exact hb ho hc
  · rw [← h] at hb
    exact hb ho (by rwa [buddy_buddy])

theorem CoalescedBut.split (h : CoalescedBut cap b₀ F) (ha : b₀.Aligned) (ho : 0 < b₀.order) :
    CoalescedBut cap b₀.lower (F \ {b₀} ∪ {b₀.lower, b₀.upper}) := by
  have hlu := buddy_lower ha ho
  have hul : b₀.upper.buddy = b₀.lower := by rw [← hlu, buddy_buddy]
  rintro b (⟨hb, hne⟩ | rfl | rfl) hbo (⟨hc, hcne⟩ | hc | hc)
  · rcases h b hb hbo hc with rfl | h
    · exact absurd rfl hne
    · exact absurd h hcne
  · exact Or.inr hc
  · exact Or.inl (by rw [← buddy_buddy b, hc, hul])
  all_goals first | exact Or.inl rfl | exact Or.inr hul

theorem CoalescedBut.join (h : CoalescedBut cap b₀ F) :
    CoalescedBut cap b₀.parent (F \ {b₀, b₀.buddy} ∪ {b₀.parent}) := by
  rintro b (⟨hb, hne⟩ | rfl) hbo (⟨hc, hcne⟩ | hc)
  · rcases h b hb hbo hc with rfl | h
    · exact absurd (Or.inl rfl) hne
    · exact absurd (Or.inl h) hcne
  · exact Or.inr hc
  · exact Or.inl rfl
  · exact Or.inl rfl

/-- In a coalesced set, an aligned block whose frames are all covered lies in one block. -/
theorem Coalesced.exists_covering (h : Coalesced cap F) (hF : ∀ c ∈ F, c.Aligned) {b : Block}
    (hb : b.Aligned) (ho : b.order ≤ cap) (hx : ∀ x ∈ b.span, ∃ c ∈ F, x ∈ c.span) :
    ∃ c ∈ F, b.order ≤ c.order ∧ b.span ⊆ c.span := by
  obtain ⟨k, hk⟩ : ∃ k, b.order = k := ⟨_, rfl⟩
  induction k generalizing b with
  | zero =>
    obtain ⟨c, hc, hxc⟩ := hx b.start b.start_mem_span
    have hle : b.order ≤ c.order := by omega
    exact ⟨c, hc, hle, span_subset_of_mem hb (hF c hc) hle b.start_mem_span hxc⟩
  | succ k ih =>
    have hpos : 0 < b.order := by omega
    have half : ∀ {d : Block}, d.Aligned → d.order = k → d.span ⊆ b.span →
        ∃ c ∈ F, k ≤ c.order ∧ d.span ⊆ c.span := fun {d} hd hdk hsub => by
      obtain ⟨c, hc, hoc, hdc⟩ := ih hd (by omega) (fun x hxd => hx x (hsub hxd)) hdk
      exact ⟨c, hc, hdk ▸ hoc, hdc⟩
    have hlo : b.lower.order = k := by rw [lower_order]; omega
    have hup : b.upper.order = k := by rw [upper_order]; omega
    obtain ⟨c, hc, hoc, hsc⟩ := half (lower_aligned hb) hlo
      fun x hxl => (mem_halves hb hpos).mpr (Or.inl hxl)
    obtain ⟨d, hd, hod, hsd⟩ := half (upper_aligned hb hpos) hup
      fun x hxu => (mem_halves hb hpos).mpr (Or.inr hxu)
    -- a larger block over either half covers the whole; two exact halves are free buddies
    have larger : ∀ {e f : Block}, e ∈ F → k < e.order → f.span ⊆ b.span → f.span ⊆ e.span →
        ∃ c ∈ F, b.order ≤ c.order ∧ b.span ⊆ c.span := fun {e f} he hlt hfb hfe =>
      ⟨e, he, by omega, span_subset_of_mem hb (hF e he) (by omega) (hfb f.start_mem_span)
        (hfe f.start_mem_span)⟩
    rcases Nat.lt_or_ge k c.order with hlt | hge
    · exact larger hc hlt (fun x hxl => (mem_halves hb hpos).mpr (Or.inl hxl)) hsc
    rcases Nat.lt_or_ge k d.order with hlt | hge'
    · exact larger hd hlt (fun x hxu => (mem_halves hb hpos).mpr (Or.inr hxu)) hsd
    have hcl : c = b.lower := eq_of_order_eq_of_mem (hF c hc) (lower_aligned hb) (by omega)
      (hsc b.lower.start_mem_span) b.lower.start_mem_span
    have hdu : d = b.upper := eq_of_order_eq_of_mem (hF d hd) (upper_aligned hb hpos) (by omega)
      (hsd b.upper.start_mem_span) b.upper.start_mem_span
    refine absurd ?_ (h c hc (by omega))
    rwa [hcl, buddy_lower hb hpos, ← hdu]

/-! ## The canonical decomposition -/

/-- The aligned blocks inside `R` of order at most `cap` that no such block properly contains. -/
def maximal (cap : Nat) (R : Set Nat) : Set Block :=
  {b | b.Aligned ∧ b.order ≤ cap ∧ b.span ⊆ R ∧ (b.order < cap → ¬b.parent.span ⊆ R)}

variable {R : Set Nat}

/-- An aligned block inside `R` that meets a maximal block is not the larger one. -/
theorem order_le_of_mem_maximal {b c : Block} (hb : b ∈ maximal cap R) (hc : c.Aligned)
    (ho : c.order ≤ cap) (hR : c.span ⊆ R) {x : Nat} (hxb : x ∈ b.span) (hxc : x ∈ c.span) :
    c.order ≤ b.order := by
  obtain ⟨hba, -, -, hmax⟩ := hb
  by_contra hlt
  have hsub := span_subset_of_mem hba hc (by omega) hxb hxc
  exact hmax (by omega) ((parent_span_subset hba hc (by omega) hsub).trans hR)

theorem eq_of_mem_maximal {b c : Block} (hb : b ∈ maximal cap R) (hc : c ∈ maximal cap R)
    {x : Nat} (hxb : x ∈ b.span) (hxc : x ∈ c.span) : b = c := by
  have hle := order_le_of_mem_maximal hb hc.1 hc.2.1 hc.2.2.1 hxb hxc
  have hge := order_le_of_mem_maximal hc hb.1 hb.2.1 hb.2.2.1 hxc hxb
  exact eq_of_order_eq_of_mem hb.1 hc.1 (le_antisymm hge hle) hxb hxc

/-- Every aligned block inside `R` lies in a maximal one. -/
theorem exists_maximal {b : Block} (hb : b.Aligned) (ho : b.order ≤ cap) (hR : b.span ⊆ R) :
    ∃ c ∈ maximal cap R, b.span ⊆ c.span := by
  obtain ⟨room, hroom⟩ : ∃ room, b.order + room = cap := ⟨cap - b.order, by omega⟩
  induction room generalizing b with
  | zero => exact ⟨b, ⟨hb, ho, hR, fun hlt => by omega⟩, subset_rfl⟩
  | succ room ih =>
    by_cases hpar : b.parent.span ⊆ R
    · obtain ⟨c, hc, hsub⟩ := ih (parent_aligned hb) (by rw [parent_order]; omega) hpar
        (by rw [parent_order]; omega)
      exact ⟨c, hc, (span_subset_parent hb).trans hsub⟩
    · exact ⟨b, ⟨hb, ho, hR, fun _ => hpar⟩, subset_rfl⟩

theorem exists_maximal_mem (cap : Nat) {x : Nat} (hx : x ∈ R) :
    ∃ c ∈ maximal cap R, x ∈ c.span := by
  have hspan : (⟨0, x⟩ : Block).span = {x} := by
    ext y
    simp only [mem_span, size, Nat.pow_zero, Set.mem_singleton_iff]
    omega
  have hsingle : (⟨0, x⟩ : Block).span ⊆ R := by
    rw [hspan]
    exact Set.singleton_subset_iff.mpr hx
  obtain ⟨c, hc, hsub⟩ := exists_maximal (one_dvd _) (Nat.zero_le cap) hsingle
  exact ⟨c, hc, hsub (Block.start_mem_span ⟨0, x⟩)⟩

theorem maximal_coalesced (cap : Nat) (R : Set Nat) : Coalesced cap (maximal cap R) := by
  intro b hb ho hc
  refine hb.2.2.2 ho fun x hx => ?_
  rcases (mem_parent_span hb.1).mp hx with h | h
  · exact hb.2.2.1 h
  · exact hc.2.2.1 h

end Block

namespace Pool
open Block
variable {R : Set Nat} {cap : Nat}

/-- The pool whose free blocks are the maximal ones. -/
def canonical (cap : Nat) (R : Set Nat) : Pool R where
  free := maximal cap R
  live := ∅
  aligned b hb := by
    rw [Set.union_empty] at hb
    exact hb.1
  disjoint b hb c hc hne := by
    rw [Set.union_empty] at hb hc
    exact Set.disjoint_left.mpr fun x hxb hxc => hne (eq_of_mem_maximal hb hc hxb hxc)
  separate := disjoint_bot_right
  covers x := by
    rw [Set.union_empty]
    exact ⟨fun hx => exists_maximal_mem cap hx, fun ⟨c, hc, hxc⟩ => hc.2.2.1 hxc⟩

@[simp] theorem canonical_free : (canonical cap R).free = maximal cap R := rfl
@[simp] theorem canonical_live : (canonical cap R).live = ∅ := rfl

/-- Over the same live blocks, a coalesced pool has a free block around each free block of
another. -/
theorem exists_free_around {p q : Pool R} (hlive : p.live = q.live) (hq : Coalesced cap q.free)
    {b : Block} (hb : b ∈ p.free) (ho : b.order ≤ cap) :
    ∃ c ∈ q.free, b.order ≤ c.order ∧ b.span ⊆ c.span := by
  apply hq.exists_covering (fun c hc => q.free_aligned hc) (p.free_aligned hb) ho
  intro x hx
  obtain ⟨c, hc | hc, hxc⟩ := (q.covers x).mp (p.span_subset (Or.inl hb) hx)
  · exact ⟨c, hc, hxc⟩
  · rw [← hlive] at hc
    have hcb := p.eq_of_mem_span (Or.inr hc) (Or.inl hb) hxc hx
    exact absurd (hcb ▸ hc) (p.not_live_of_free hb)

theorem free_subset_of_coalesced {p q : Pool R} (hlive : p.live = q.live)
    (hp : Coalesced cap p.free) (hq : Coalesced cap q.free) (hpo : ∀ b ∈ p.free, b.order ≤ cap)
    (hqo : ∀ b ∈ q.free, b.order ≤ cap) : p.free ⊆ q.free := by
  intro b hb
  obtain ⟨c, hc, hbc, hsub⟩ := exists_free_around hlive hq hb (hpo b hb)
  obtain ⟨d, hd, hcd, hsub'⟩ := exists_free_around hlive.symm hp hc (hqo c hc)
  have hbd : b = d := p.eq_of_mem_span (Or.inl hb) (Or.inl hd) b.start_mem_span
    (hsub' (hsub b.start_mem_span))
  have horder : b.order = c.order := le_antisymm hbc (hbd ▸ hcd)
  have heq := eq_of_order_eq_of_mem (p.free_aligned hb) (q.free_aligned hc) horder
    b.start_mem_span (hsub b.start_mem_span)
  exact heq ▸ hc

/-- A coalesced pool is determined by its live blocks. -/
theorem eq_of_coalesced {p q : Pool R} (hlive : p.live = q.live) (hp : Coalesced cap p.free)
    (hq : Coalesced cap q.free) (hpo : ∀ b ∈ p.free, b.order ≤ cap)
    (hqo : ∀ b ∈ q.free, b.order ≤ cap) : p = q := by
  apply Pool.ext _ hlive
  apply Set.Subset.antisymm
  · exact free_subset_of_coalesced hlive hp hq hpo hqo
  · exact free_subset_of_coalesced hlive.symm hq hp hqo hpo

/-- A coalesced pool without live blocks is the canonical decomposition of its frames. -/
theorem free_eq_maximal (p : Pool R) (hl : p.live = ∅) (hc : Coalesced cap p.free)
    (ho : ∀ b ∈ p.free, b.order ≤ cap) : p.free = maximal cap R := by
  have heq : p = canonical cap R := by
    apply eq_of_coalesced hl hc (maximal_coalesced cap R) ho
    intro b hb
    exact hb.2.1
  rw [heq, canonical_free]

end Pool
