import Amaterasu.KHeap.Runs

/-! A buffer that goes back before anything else does. `kfree` merges it with the blocks that
`kmalloc` cut off for it and with no others, so the heap is as it was. -/

namespace Amaterasu
open Block

namespace KHeap
variable {R : Set Nat} {h t : KHeap} {p q : Pool R} {b : Block}

theorem Represents.single_front (hr : h.Represents p) (hp : p.Tidy kHeapMaxOrder)
    (hb : b ∈ p.free) : h.kHeapOrder b.order = some b.start := by
  cases hhead : h.kHeapOrder b.order with
  | none => exact absurd ((hr.mem b).mpr hb) (not_mem_freeBlocks hhead)
  | some i =>
    have heq := hp.single ⟨b.order, i⟩ (hr.head hhead) b hb rfl
    exact congrArg (fun c : Block => some c.start) heq

/-- The block just allotted merges with the rest of the block it was taken from. The buddy of that
one is allocated. -/
theorem Represents.mergesFront (hr : t.Represents q) (hp : p.Tidy kHeapMaxOrder)
    (hb : p.Allots b q) : t.MergesFront b := by
  obtain ⟨d, hbd, hd, -, hfree⟩ := hb.free
  have haligned := p.free_aligned hd
  have hlive : b ∈ q.live := hb.live ▸ Set.mem_insert b p.live
  have hmax := hr.order_le (Or.inr hlive)
  have hclimb : ∀ left j, j + left = kHeapMaxOrder → b.order ≤ j → j ≤ d →
      t.Merges (fun c => t.kHeapOrder c.order = some c.start) left ⟨j, b.start⟩ := by
    intro left
    induction left with
    | zero => exact fun _ _ _ _ => trivial
    | succ left ih =>
      intro j hj hbj hjd
      rcases Nat.eq_or_lt_of_le hjd with rfl | hlt
      · obtain ⟨c, hc, hstart⟩ := hp.leans _ hd (show j < kHeapMaxOrder by omega)
        left
        rw [hr.allocated, hb.live]
        exact ⟨c, Set.mem_insert_of_mem _ hc, hstart⟩
      · have hpiece : ⟨j, b.start + 2 ^ j⟩ ∈ q.free := (hfree _).mpr (Or.inr ⟨j, hbj, hlt, rfl⟩)
        right
        rw [buddy_first haligned hlt, parent_first haligned hlt]
        exact ⟨hr.single_front (hp.allots hb) hpiece, ih (j + 1) (by omega) (by omega) hlt⟩
  exact hclimb _ b.order (by omega) le_rfl hbd

end KHeap

namespace HeapSystem

/-- Nothing has been given back out of order. -/
def Tidied (start : Nat) (s : HeapSystem) : Prop :=
  ∃ p : Pool (Set.Iio kHeapBlockNum), s.Tracks start p ∧ Coalesced kHeapMaxOrder p.free ∧
    p.Tidy kHeapMaxOrder

section Tidied
variable {start n : Nat} {s t u : HeapSystem} {a : Allocation}

theorem boot_tidied (start : Nat) : (boot start).Tidied start := by
  refine ⟨_, boot_tracks start, maximal_coalesced _ _, ?_, ?_⟩
  · intro b hb c hc _
    rw [Pool.canonical_free, maximal_eq] at hb hc
    exact (Set.mem_singleton_iff.mp hb).trans (Set.mem_singleton_iff.mp hc).symm
  · intro b hb hlt
    rw [Pool.canonical_free, maximal_eq] at hb
    obtain rfl := Set.mem_singleton_iff.mp hb
    exact absurd hlt (lt_irrefl 4)

theorem block_eq (hs : s.heap.kHeapStart = start) (ht : t.heap.kHeapStart = start)
    (a : Allocation) : t.block a = s.block a := by
  unfold block cell
  rw [hs, ht]

theorem freedCell_eq_cell {addr id : Nat} (hid : s.heap.freedCell addr = some id) :
    id = s.cell addr := by
  unfold KHeap.freedCell at hid
  split_ifs at hid
  dsimp only at hid
  split_ifs at hid
  exact (Option.some.inj hid).symm

theorem step_kfree_none (hcell : s.heap.freedCell n = none) : s.step (.kfree n) = some s := by
  unfold step KHeap.kfree
  simp only [hcell]

theorem Tracks.newest_front {R : Set Nat} {p q : Pool R} (hq : t.Tracks start q)
    (hp : p.Tidy kHeapMaxOrder) (ha : a ∈ t.live) (hallots : p.Allots (t.block a) q) :
    ∀ id ∈ t.heap.freedCell a.address,
      t.heap.MergesFront ⟨(t.heap.kHeapBlocks id).order, id⟩ := by
  intro id hid
  obtain rfl := freedCell_eq_cell hid
  have horder : (t.heap.kHeapBlocks (t.cell a.address)).order = a.order :=
    hq.represents.order _ (Or.inr ((hq.live _).mpr ⟨a, ha, rfl⟩))
  rw [horder]
  exact hq.represents.mergesFront hp hallots

/-- `kfree` of the newest allocation takes it off the record. -/
theorem Tracks.kfree_newest {R : Set Nat} {q : Pool R} {l : List Allocation}
    (hq : t.Tracks start q) (ha : t.live = a :: l)
    (hcell : t.heap.freedCell a.address = some (t.cell a.address))
    (hu : t.step (.kfree a.address) = some u) : u.live = l := by
  have hpairwise := hq.nodup
  rw [ha, List.pairwise_cons] at hpairwise
  obtain rfl := Option.some.inj hu
  simp only [hcell]
  rw [ha, List.filter_cons_of_neg (by simp), List.filter_eq_self]
  intro c hc
  have hmem : ∀ b ∈ a :: l, t.block b ∈ q.free ∪ q.live := fun b hb =>
    Or.inr ((hq.live _).mpr ⟨b, ha ▸ hb, rfl⟩)
  apply decide_eq_true
  intro heq
  apply hpairwise.1 c hc
  exact q.eq_of_start_eq (hmem a List.mem_cons_self) (hmem c (List.mem_cons_of_mem a hc)) heq.symm

variable (hpage : 2 ^ 12 ∣ start) (h0 : 0 < start) (h64 : start < 2 ^ 64)
include hpage h0 h64

/-- A call of `kmalloc` has changed nothing, or allotted a block. -/
theorem Tracks.step_kmalloc {R : Set Nat} {p : Pool R} (h : s.Tracks start p) (hn : 1 ≤ n)
    (hb : n < 2 ^ 32) (ht : s.step (.kmalloc n) = some t) : t = s ∨ ∃ a, ∃ q : Pool R,
      t.live = a :: s.live ∧ t.Tracks start q ∧
      (Coalesced kHeapMaxOrder p.free → Coalesced kHeapMaxOrder q.free) ∧
      p.Allots (t.block a) q := by
  rcases h.kmalloc_cases hpage h0 h64 hn hb with
    ⟨hfail, -⟩ | ⟨v, addr, q, -, -, hv, hq, hkeeps, hallots⟩
  · left
    have hsame : s.step (.kmalloc n) = some s := by
      rw [step, hfail]
      rfl
    exact Option.some.inj (ht.symm.trans hsame)
  · right
    obtain rfl := Option.some.inj (hv.symm.trans ht)
    refine ⟨_, q, rfl, hq, hkeeps _, ?_⟩
    rw [block_eq h.start_eq hq.start_eq]
    exact hallots

theorem Tidied.kmalloc (h : s.Tidied start) (hn : 1 ≤ n) (hb : n < 2 ^ 32)
    (ht : s.step (.kmalloc n) = some t) : t.Tidied start := by
  obtain ⟨p, hp, hcoalesced, htidy⟩ := h
  obtain rfl | ⟨a, q, -, hq, hkeeps, hallots⟩ := hp.step_kmalloc hpage h0 h64 hn hb ht
  · exact ⟨p, hp, hcoalesced, htidy⟩
  · exact ⟨q, hq, hkeeps hcoalesced, htidy.allots hallots⟩

/-- The block that `kmalloc` has just returned is given back, and the heap is as before. -/
theorem Tidied.kmalloc_kfree (h : s.Tidied start) (hn : 1 ≤ n) (hb : n < 2 ^ 32)
    (ht : s.step (.kmalloc n) = some t) (ha : t.live = a :: s.live)
    (hu : t.step (.kfree a.address) = some u) :
    u.Tidied start ∧ ∀ c ∈ s.live, c ∈ u.live := by
  have htidied := h.kmalloc hpage h0 h64 hn hb ht
  cases hcell : t.heap.freedCell a.address with
  | none =>
    obtain rfl := Option.some.inj ((step_kfree_none hcell).symm.trans hu)
    refine ⟨htidied, fun c hc => ?_⟩
    rw [ha]
    exact List.mem_cons_of_mem a hc
  | some id =>
    obtain rfl := freedCell_eq_cell hcell
    obtain ⟨p, hp, hcoalesced, htidy⟩ := h
    obtain rfl | ⟨b, q, hlive, hq, hkeeps, hallots⟩ := hp.step_kmalloc hpage h0 h64 hn hb ht
    · exact absurd ha.symm (List.cons_ne_self a t.live)
    obtain rfl := (List.cons.inj (hlive.symm.trans ha)).1
    have hmem : b ∈ t.live := ha ▸ List.mem_cons_self
    have hfront := hq.newest_front htidy hmem hallots
    obtain ⟨v, hv, r, hr, hrcoalesced⟩ := hq.frontal_step (hkeeps hcoalesced) hpage h0 h64
      (a := .kfree b.address) ⟨⟨b, hmem, rfl⟩, hfront⟩
    obtain rfl := Option.some.inj (hv.symm.trans hu)
    have hback := hq.kfree_newest ha hcell hu
    have hsame : r.live = p.live := by
      ext b
      rw [hr.live, hp.live, hback]
      simp only [block_eq hp.start_eq hr.start_eq]
    obtain rfl := Pool.eq_of_coalesced hsame hrcoalesced hcoalesced
      (fun b hb => hr.represents.order_le (Or.inl hb))
      (fun b hb => hp.represents.order_le (Or.inl hb))
    exact ⟨⟨r, hr, hcoalesced, htidy⟩, fun c hc => hback ▸ hc⟩

end Tidied
end HeapSystem
end Amaterasu
