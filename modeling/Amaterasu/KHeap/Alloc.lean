import Amaterasu.KHeap.Blocks

/-! `kmalloc` on a heap that represents a pool of cells: the split loop splits the front block
down to the requested order, and the front block becomes live. -/

namespace Amaterasu.KHeap
open Block
variable {R : Set Nat} {h : KHeap} {p : Pool R}

/-- The lists spell the free blocks of the pool, `isAllocated` marks the first cells of the live
ones, and `order` of a first cell is that of its block. -/
structure Represents (h : KHeap) (p : Pool R) : Prop where
  within : R ⊆ Set.Iio kHeapBlockNum
  chained : h.links.Chained
  mem : ∀ b, b ∈ h.freeBlocks ↔ b ∈ p.free
  order : ∀ b ∈ p.free ∪ p.live, (h.kHeapBlocks b.start).order = b.order
  allocated : ∀ x, (h.kHeapBlocks x).isAllocated = true ↔ ∃ b ∈ p.live, b.start = x
  id : ∀ x, (h.kHeapBlocks x).id = x

/-- The heap has room for blocks up to the largest order only. -/
theorem Represents.order_le (hr : h.Represents p) {b : Block} (hb : b ∈ p.free ∪ p.live) :
    b.order ≤ kHeapMaxOrder := by
  have hlast : b.start + b.size - 1 < kHeapBlockNum :=
    hr.within (p.span_subset hb (mem_span.mpr ⟨by have := b.size_pos; omega,
      by have := b.size_pos; omega⟩))
  have hsize : 2 ^ b.order ≤ 2 ^ kHeapMaxOrder := by
    have hs : b.size = 2 ^ b.order := rfl
    have hn : kHeapBlockNum = 2 ^ kHeapMaxOrder := by decide
    have := b.size_pos
    omega
  exact (Nat.pow_le_pow_iff_right (by omega)).mp hsize

theorem Represents.start_lt (hr : h.Represents p) {b : Block} (hb : b ∈ p.free ∪ p.live) :
    b.start < 16 := hr.within (p.span_subset hb b.start_mem_span)

theorem Represents.head (hr : h.Represents p) {k i : Nat} (hf : h.kHeapOrder k = some i) :
    (⟨k, i⟩ : Block) ∈ p.free := (hr.mem _).mp (Links.head_mem (l := h.links) hf)

theorem not_mem_freeBlocks {b : Block} (hb : h.kHeapOrder b.order = none) : b ∉ h.freeBlocks :=
  fun hm => by
    have := Links.members_eq_empty (l := h.links) hb
    exact Set.notMem_empty b.start (this ▸ hm)

/-- Deleting the front of a list takes just its block out of the lists. -/
theorem Represents.delete_front (hr : h.Represents p) {k i : Nat} (hf : h.kHeapOrder k = some i) :
    (h.deleteFromkHeapOrder k i).links.Chained ∧
      ∀ c, c ∈ (h.deleteFromkHeapOrder k i).freeBlocks ↔ c ∈ p.free ∧ c ≠ ⟨k, i⟩ := by
  obtain ⟨hc, D, -, -, -, hD, hm⟩ := mem_freeBlocks_deleteFrom (b := ⟨k, i⟩) hr.chained
    ((hr.mem _).mpr (hr.head hf))
  refine ⟨hc, fun c => ?_⟩
  rw [hm c, hD hf, hr.mem c]
  simp

/-! ## Splitting -/

theorem splitFront_eq (hr : h.Represents p) {k i : Nat} (hf : h.kHeapOrder (k + 1) = some i) :
    h.splitFront k = some (((h.deleteFromkHeapOrder (k + 1) i).addTokHeapOrder k
      (i + 2 ^ k)).addTokHeapOrder k i) := by
  have hb := hr.head hf
  have hk : k + 1 ≤ 4 := hr.order_le (Or.inl hb)
  have hi : i < 16 := hr.start_lt (b := ⟨k + 1, i⟩) (Or.inl hb)
  have hpow : 2 ^ k ≤ 2 ^ 4 := Nat.pow_le_pow_right (by omega) (by omega)
  have hid : (i + 2 ^ k) % 2 ^ 32 = i + 2 ^ k := Nat.mod_eq_of_lt (by omega)
  rw [splitFront, hf]
  simp only [Option.bind_eq_bind, Option.bind_some, Option.pure_def, hr.id,
    pow_two_eq (show k < 64 by omega), hid]

/-- One round of the split loop splits the front block of the pool. -/
theorem splitFront_spec (hr : h.Represents p) {k i : Nat}
    (hf : h.kHeapOrder (k + 1) = some i) :
    ∃ t, h.splitFront k = some t ∧ t.kHeapOrder k = some i ∧ t.kHeapStart = h.kHeapStart ∧
      t.Represents (p.split ⟨k + 1, i⟩ (hr.head hf) (Nat.succ_pos k)) := by
  have hbp := hr.head hf
  have hpos : 0 < 2 ^ k := Nat.two_pow_pos k
  have hspan : i + 2 ^ k ∈ (⟨k + 1, i⟩ : Block).span := by
    rw [mem_span, size, Nat.pow_succ]
    exact ⟨Nat.le_add_right _ _, by dsimp only; omega⟩
  have hother : ∀ c ∈ p.free ∪ p.live, c ≠ ⟨k + 1, i⟩ → c.start ≠ i + 2 ^ k := by
    intro c hc hne e
    exact hne (p.eq_of_mem_span hc (Or.inl hbp) (e ▸ c.start_mem_span) hspan)
  have hstart : ∀ c ∈ p.free ∪ p.live, c ≠ ⟨k + 1, i⟩ → c.start ≠ i := fun c hc hne e =>
    hne (p.eq_of_start_eq hc (Or.inl hbp) e)
  have hne : ∀ c ∈ p.live, c ≠ ⟨k + 1, i⟩ := fun c hc e => p.not_live_of_free hbp (e ▸ hc)
  have hlow : (⟨k + 1, i⟩ : Block).lower = ⟨k, i⟩ := rfl
  have hupp : (⟨k + 1, i⟩ : Block).upper = ⟨k, i + 2 ^ k⟩ := rfl
  obtain ⟨hc1, hm1⟩ := hr.delete_front hf
  obtain ⟨hc2, hm2⟩ := mem_freeBlocks_addTo (k := k) (i := i + 2 ^ k) hc1 fun c hc =>
    hother c (Or.inl ((hm1 c).mp hc).1) ((hm1 c).mp hc).2
  obtain ⟨hc3, hm3⟩ := mem_freeBlocks_addTo (k := k) (i := i) hc2 fun c hc => by
    rcases (hm2 c).mp hc with rfl | hc
    · dsimp only
      omega
    · exact hstart c (Or.inl ((hm1 c).mp hc).1) ((hm1 c).mp hc).2
  refine ⟨_, splitFront_eq hr hf, head_addTo _ _ _, by simp, hr.within, hc3, fun c => ?_, ?_,
    fun x => ?_, fun x => ?_⟩
  · rw [hm3, hm2, hm1, Pool.split_free, hlow, hupp]
    simp only [Set.mem_union, Set.mem_sdiff, Set.mem_singleton_iff, Set.mem_insert_iff]
    tauto
  · rintro c ((⟨hcf, hcb⟩ | rfl | rfl) | hcl) <;>
      simp only [order_addTo, order_deleteFrom]
    · rw [if_neg (hstart c (Or.inl hcf) hcb), if_neg (hother c (Or.inl hcf) hcb),
        if_neg (hstart c (Or.inl hcf) hcb), hr.order c (Or.inl hcf)]
    · simp [hlow]
    · simp [hupp]
    · rw [if_neg (hstart c (Or.inr hcl) (hne c hcl)), if_neg (hother c (Or.inr hcl) (hne c hcl)),
        if_neg (hstart c (Or.inr hcl) (hne c hcl)), hr.order c (Or.inr hcl)]
  · simp only [isAllocated_addTo, isAllocated_deleteFrom, Pool.split_live, ← hr.allocated x]
    have hfalse : ∀ y, (∀ c ∈ p.live, c.start ≠ y) → (h.kHeapBlocks y).isAllocated = false :=
      fun y hy => by
        rw [← Bool.not_eq_true, hr.allocated]
        rintro ⟨c, hc, rfl⟩
        exact hy c hc rfl
    split_ifs with h1 h2
    · simp [h1, hfalse i fun c hc => hstart c (Or.inr hc) (hne c hc)]
    · simp [h2, hfalse _ fun c hc => hother c (Or.inr hc) (hne c hc)]
    · rfl
  · rw [id_addTo, id_addTo, id_deleteFrom, hr.id]

/-- The split loop carves the block at the front of its first list down to the requested order
and leaves the lowest piece at the front. -/
theorem splitDown_spec {k i : Nat} (above : Nat) :
    ∀ {h : KHeap} {p : Pool R}, h.Represents p → h.kHeapOrder (k + above) = some i →
      ∃ t, ∃ q : Pool R, splitDown above h k = some t ∧ t.kHeapOrder k = some i ∧
        t.kHeapStart = h.kHeapStart ∧ t.Represents q ∧ p.Halves k (k + above) i q ∧
        ∀ cap, CoalescedBut cap ⟨k + above, i⟩ p.free → CoalescedBut cap ⟨k, i⟩ q.free := by
  induction above with
  | zero =>
    intro h p hr hf
    exact ⟨h, p, rfl, hf, rfl, hr, Pool.Halves.refl (hr.head hf), fun _ hc => hc⟩
  | succ above ih =>
    intro h p hr hf
    obtain ⟨t, ht, hhead, hstart, hrep⟩ := splitFront_spec (k := k + above) hr hf
    obtain ⟨u, q, hu, huhead, hustart, hurep, hhalves, huc⟩ := ih hrep hhead
    refine ⟨u, q, ?_, huhead, hustart.trans hstart, hurep,
      hhalves.of_split (hr.head hf) (Nat.le_add_right _ _),
      fun cap hc => huc cap (hc.split (p.free_aligned (hr.head hf)) (Nat.succ_pos _))⟩
    rw [splitDown, ht]
    exact hu

theorem takeFront_spec (hr : h.Represents p) {k i : Nat} (hf : h.kHeapOrder k = some i) :
    ∃ t, h.takeFront k = some (t, (h.kHeapStart + kHeapBlockSize * i) % 2 ^ 64) ∧
      t.kHeapStart = h.kHeapStart ∧ t.Represents (p.take ⟨k, i⟩ (hr.head hf)) := by
  have hbp := hr.head hf
  have hne : ∀ c ∈ p.free ∪ p.live, c ≠ ⟨k, i⟩ → c.start ≠ i := fun c hc hcb e =>
    hcb (p.eq_of_start_eq hc (Or.inl hbp) e)
  refine ⟨(h.deleteFromkHeapOrder k i).modifyBlock i (·.allocate k), ?_, by simp, hr.within, ?_,
    fun c => ?_, ?_, fun x => ?_, fun x => ?_⟩
  · rw [takeFront, hf]
    simp only [Option.bind_eq_bind, Option.bind_some, Option.pure_def, hr.id, modifyBlock_start,
      start_deleteFrom]
  · rw [links_modifyBlock _ i (f := (·.allocate k)) (fun _ => rfl) fun _ => rfl]
    exact (hr.delete_front hf).1
  · have hlinks := links_modifyBlock (h.deleteFromkHeapOrder k i) i (f := (·.allocate k))
      (fun _ => rfl) fun _ => rfl
    rw [freeBlocks, hlinks]
    exact (hr.delete_front hf).2 c
  · intro c hc
    have hset := modifyBlock_set KHeapBlock.order k (h.deleteFromkHeapOrder k i) i c.start
      (f := (·.allocate k)) fun _ => rfl
    rw [hset, order_deleteFrom]
    by_cases hcb : c = ⟨k, i⟩
    · rw [hcb]
      exact if_pos rfl
    · have hcp : c ∈ p.free ∪ p.live := by
        rcases hc with ⟨hc, -⟩ | hc | hc
        · exact Or.inl hc
        · exact absurd hc hcb
        · exact Or.inr hc
      rw [if_neg (hne c hcp hcb), if_neg (hne c hcp hcb), hr.order c hcp]
  · have hset := modifyBlock_set KHeapBlock.isAllocated true (h.deleteFromkHeapOrder k i) i x
      (f := (·.allocate k)) fun _ => rfl
    rw [hset, isAllocated_deleteFrom, Pool.take_live]
    split_ifs with hx
    · exact ⟨fun _ => ⟨_, Set.mem_insert _ _, hx.symm⟩, fun _ => rfl⟩
    · rw [hr.allocated x]
      constructor
      · rintro ⟨c, hc, rfl⟩
        exact ⟨c, Or.inr hc, rfl⟩
      · rintro ⟨c, rfl | hc, rfl⟩
        · exact absurd rfl hx
        · exact ⟨c, hc, rfl⟩
  · have hid : ∀ u : KHeap, ((u.modifyBlock i (·.allocate k)).kHeapBlocks x).id =
        (u.kHeapBlocks x).id := fun u => modifyBlock_field KHeapBlock.id u i x fun _ => rfl
    rw [hid, id_deleteFrom, hr.id]

/-! ## The whole call -/

/-- The least order whose blocks hold `size` bytes. -/
def requestOrder (size : Nat) : Nat := Nat.clog 2 (blockNumber size)

theorem size_le_request (size : Nat) : size ≤ kHeapBlockSize * 2 ^ requestOrder size :=
  (blockNumber_isLeast size).1.trans
    (Nat.mul_le_mul_left _ (clog_isLeast (blockNumber size)).1)

/-- What `kmalloc` does to a represented pool: it fails, no free block being large enough, and
changes nothing, or it carves a block of the requested order, which becomes live, out of a free
one. -/
theorem kmalloc_spec (hr : h.Represents p) {size : Nat} (hs : 1 ≤ size) (hb : size < 2 ^ 32) :
    (h.kmalloc size = some (h, 0) ∧
      (size ≤ kHeapHeapSize → ∀ b ∈ p.free, b.order < requestOrder size)) ∨
    ∃ t i, ∃ q : Pool R, ∃ hi : (⟨requestOrder size, i⟩ : Block) ∈ q.free,
      h.kmalloc size = some (t, (h.kHeapStart + kHeapBlockSize * i) % 2 ^ 64) ∧
      t.kHeapStart = h.kHeapStart ∧ t.Represents (q.take _ hi) ∧ q.live = p.live ∧
      (∀ cap, Coalesced cap p.free → Coalesced cap (q.take _ hi).free) ∧
      p.Allots ⟨requestOrder size, i⟩ (q.take _ hi) := by
  have hord : ceilLog2 (blockNumber size) = some (requestOrder size) :=
    ceilLog2_eq (blockNumber_pos hs) (blockNumber_lt hb)
  generalize requestOrder size = k at hord ⊢
  rw [kmalloc]
  split_ifs with hbig
  · exact Or.inl ⟨rfl, fun hle => absurd hbig (Nat.not_lt.mpr hle)⟩
  simp only [hord, Option.bind_eq_bind, Option.bind_some, Option.pure_def]
  cases hfind : firstNonempty h.kHeapOrder (kHeapMaxOrder + 1 - k) k with
  | none =>
    refine Or.inl ⟨rfl, fun _ b hb => ?_⟩
    by_contra hk
    have hmax := hr.order_le (Or.inl hb)
    have hempty := firstNonempty_none hfind b.order (Nat.le_of_not_lt hk) (by omega)
    exact not_mem_freeBlocks hempty ((hr.mem b).mpr hb)
  | some d =>
    obtain ⟨hkd, hd, ⟨i, hi⟩, hempty⟩ := firstNonempty_some hfind
    have hkd' : k + (d - k) = d := by omega
    obtain ⟨u, q, hu, huhead, hustart, hurep, hhalves, huc⟩ := splitDown_spec (k := k) (d - k) hr
      (hkd'.symm ▸ hi)
    obtain ⟨t, ht, htstart, htrep⟩ := takeFront_spec hurep huhead
    rw [hustart] at ht
    rw [hkd'] at hhalves
    have hleast : ∀ c ∈ p.free, k ≤ c.order → d ≤ c.order := by
      intro c hc hkc
      by_contra hlt
      exact not_mem_freeBlocks (hempty c.order hkc (Nat.lt_of_not_le hlt)) ((hr.mem c).mpr hc)
    refine Or.inr ⟨t, i, q, hurep.head huhead, ?_, htstart.trans hustart, htrep, hhalves.live,
      fun cap hc => (huc cap hc.but).erase,
      hhalves.allots hkd (hr.head hi) hleast (hurep.head huhead)⟩
    simp only [hu, ht, Option.bind_some]

/-- The loop of `log2` does not end for no bytes. -/
theorem kmalloc_zero (h : KHeap) : h.kmalloc 0 = none := by
  have hnone : ceilLog2 (blockNumber 0) = none := by
    rw [← Option.not_isSome_iff_eq_none, ceilLog2_isSome_iff (by decide)]
    decide
  unfold kmalloc
  rw [if_neg (by decide)]
  dsimp only
  rw [hnone]
  rfl

/-- A call that returns an address adds to the live blocks, any other changes nothing. -/
theorem Represents.kmalloc_live (hr : h.Represents p) (h0 : 0 < h.kHeapStart)
    (hend : h.kHeapStart + kHeapHeapSize ≤ 2 ^ 64) {t : KHeap} {size addr : Nat}
    (hb : size < 2 ^ 32) (hk : h.kmalloc size = some (t, addr)) :
    (addr = 0 ∧ t = h) ∨ (addr ≠ 0 ∧ addr < 2 ^ 64) ∧ t.liveBlocks ≠ h.liveBlocks := by
  rcases Nat.eq_zero_or_pos size with rfl | hs
  · rw [kmalloc_zero] at hk
    cases hk
  rcases kmalloc_spec hr hs hb with ⟨hfail, -⟩ | ⟨u, i, q, hi, hu, -, hrep, hlive, -⟩
  · cases hfail.symm.trans hk
    exact Or.inl ⟨rfl, rfl⟩
  · cases hu.symm.trans hk
    have hnew : (⟨requestOrder size, i⟩ : Block) ∈ (q.take _ hi).live := Or.inl rfl
    have hlt : i < 16 := hrep.start_lt (Or.inr hnew)
    have haddr : (h.kHeapStart + kHeapBlockSize * i) % 2 ^ 64 = h.kHeapStart + kHeapBlockSize * i :=
      Nat.mod_eq_of_lt (by unfold kHeapBlockSize; unfold kHeapHeapSize at hend; omega)
    refine Or.inr ⟨⟨by omega, Nat.mod_lt _ (by decide)⟩, fun heq => ?_⟩
    have hmem : (⟨requestOrder size, i⟩ : Block) ∈ t.liveBlocks :=
      ⟨(hrep.allocated i).mpr ⟨_, hnew, rfl⟩, hrep.order _ (Or.inr hnew)⟩
    rw [heq] at hmem
    -- before the call the cell was the first of a free block
    obtain ⟨b, hbl, hstart⟩ := (hr.allocated i).mp hmem.1
    rw [← hlive] at hbl
    have hsame := q.eq_of_start_eq (Or.inr hbl) (Or.inl hi) hstart
    exact q.not_live_of_free hi (hsame ▸ hbl)

end Amaterasu.KHeap
