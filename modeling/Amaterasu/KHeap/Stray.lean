import Amaterasu.KHeap.Runs

/-! Stray and repeated calls of `kfree`, in every run, also one whose lists have become irregular.
The one guard is `isAllocated`: the list operations only ever clear it, and `kmalloc` sets it in
the cell it returns. Behind the 16 descriptors lies memory of any content. -/

namespace Amaterasu
open Runs

namespace KHeap

/-- The cell that holds `addr`, when `addr` passes the range check of `kfree`. -/
def addressedCell (h : KHeap) (addr : Nat) : Option Nat :=
  if addr < h.kHeapStart ∨ (h.kHeapStart + kHeapHeapSize) % 2 ^ 64 ≤ addr then none
  else some ((addr - h.kHeapStart) / kHeapBlockSize)

/-- `kmalloc` reaches its last `return`. -/
def serves (h : KHeap) (size : Nat) : Bool :=
  size ≤ kHeapHeapSize && ((ceilLog2 (blockNumber size)).bind fun requestedOrder =>
    firstNonempty h.kHeapOrder (kHeapMaxOrder + 1 - requestedOrder) requestedOrder).isSome

/-- The descriptors and lists as `kHeapInit` leaves them, whatever follows them in memory. -/
structure Initialised (start : Nat) (h : KHeap) : Prop where
  start_eq : h.kHeapStart = start
  blocks : ∀ i < kHeapBlockNum, h.kHeapBlocks i = (kHeapInit start).kHeapBlocks i
  lists : ∀ k ≤ kHeapMaxOrder, h.kHeapOrder k = (kHeapInit start).kHeapOrder k

end KHeap

/-- The heap, and the addresses that `kmalloc` has returned and that have not been passed to
`kfree` since. -/
structure HeapUse where
  heap : KHeap
  returned : List Nat

namespace HeapUse

def step (s : HeapUse) : HeapRequest → Option HeapUse
  | .kmalloc size => (s.heap.kmalloc size).map fun r =>
    ⟨r.1, if s.heap.serves size then r.2 :: s.returned else s.returned⟩
  | .kfree addr => some ⟨s.heap.kfree addr, match s.heap.addressedCell addr with
    | none => s.returned
    | some id => s.returned.filter (s.heap.addressedCell · ≠ some id)⟩

end HeapUse

namespace KHeap

/-- From `h` to `t`, no cell has become allocated. -/
structure Fades (h t : KHeap) : Prop where
  start : t.kHeapStart = h.kHeapStart
  id : ∀ x, (t.kHeapBlocks x).id = (h.kHeapBlocks x).id
  allocated : ∀ x, (t.kHeapBlocks x).isAllocated = true → (h.kHeapBlocks x).isAllocated = true

section Fades
variable {h t u : KHeap} {k i : Nat}

theorem Fades.refl (h : KHeap) : Fades h h := ⟨rfl, fun _ => rfl, fun _ hx => hx⟩

theorem Fades.trans (h₁ : Fades h t) (h₂ : Fades t u) : Fades h u where
  start := h₂.start.trans h₁.start
  id x := (h₂.id x).trans (h₁.id x)
  allocated x hx := h₁.allocated x (h₂.allocated x hx)

theorem fades_addTo (h : KHeap) (k i : Nat) : Fades h (h.addTokHeapOrder k i) where
  start := start_addTo h k i
  id x := id_addTo h k i x
  allocated x hx := by
    rw [isAllocated_addTo] at hx
    split_ifs at hx
    exact hx

theorem fades_deleteFrom (h : KHeap) (k i : Nat) : Fades h (h.deleteFromkHeapOrder k i) where
  start := start_deleteFrom h k i
  id x := id_deleteFrom h k i x
  allocated x hx := by
    rw [isAllocated_deleteFrom] at hx
    split_ifs at hx
    exact hx

theorem splitFront_fades (ht : h.splitFront k = some t) : Fades h t := by
  unfold splitFront at ht
  obtain ⟨front, -, ht⟩ := Option.bind_eq_some_iff.mp ht
  obtain rfl := Option.some.inj ht
  exact ((fades_deleteFrom h _ _).trans (fades_addTo _ _ _)).trans (fades_addTo _ _ _)

theorem splitDown_fades (above : Nat) (ht : splitDown above h k = some t) : Fades h t := by
  induction above generalizing h with
  | zero => exact Option.some.inj ht ▸ Fades.refl h
  | succ above ih =>
    unfold splitDown at ht
    obtain ⟨u, hu, ht⟩ := Option.bind_eq_some_iff.mp ht
    exact (splitFront_fades hu).trans (ih ht)

theorem mergeUp_fades (left : Nat) (h : KHeap) (id order : Nat) :
    Fades h (mergeUp left h id order) := by
  induction left generalizing h id order with
  | zero => exact Fades.refl h
  | succ left ih =>
    unfold mergeUp
    dsimp only
    split
    · exact Fades.refl h
    · exact (((fades_deleteFrom h _ _).trans (fades_deleteFrom _ _ _)).trans
        (fades_addTo _ _ _)).trans (ih _ _ _)

end Fades

/-! ## What the two calls do to the marks -/

/-- Taking a block marks the cell whose `id` gives the address. -/
theorem takeFront_marks {h t : KHeap} {order addr : Nat} (ht : h.takeFront order = some (t, addr)) :
    ∃ front, t.kHeapStart = h.kHeapStart ∧ (∀ x, (t.kHeapBlocks x).id = (h.kHeapBlocks x).id) ∧
      addr = (h.kHeapStart + kHeapBlockSize * (h.kHeapBlocks front).id) % 2 ^ 64 ∧
      ∀ x, (t.kHeapBlocks x).isAllocated = true →
        x = front ∨ (h.kHeapBlocks x).isAllocated = true := by
  unfold takeFront at ht
  obtain ⟨front, -, ht⟩ := Option.bind_eq_some_iff.mp ht
  obtain ⟨rfl, rfl⟩ := Prod.mk.inj (Option.some.inj ht)
  have hfade := fades_deleteFrom h order (h.kHeapBlocks front).id
  refine ⟨front, hfade.start, fun x => ?_, ?_, fun x hx => ?_⟩
  · exact (modifyBlock_field KHeapBlock.id _ front x (f := (·.allocate order)) fun _ => rfl).trans
      (hfade.id x)
  · show ((h.deleteFromkHeapOrder order _).kHeapStart + _) % _ = _
    rw [hfade.start]
  · by_cases hxf : x = front
    · exact Or.inl hxf
    · rw [modifyBlock_of_ne _ _ hxf] at hx
      exact Or.inr (hfade.allocated x hx)

/-- `kmalloc` marks at most the cell whose `id` gives the address it returns. -/
theorem kmalloc_marks {h t : KHeap} {size addr : Nat} (ht : h.kmalloc size = some (t, addr)) :
    t.kHeapStart = h.kHeapStart ∧ (∀ x, (t.kHeapBlocks x).id = (h.kHeapBlocks x).id) ∧
      ∀ x, (t.kHeapBlocks x).isAllocated = true → (h.kHeapBlocks x).isAllocated = true ∨
        h.serves size = true ∧
          addr = (h.kHeapStart + kHeapBlockSize * (h.kHeapBlocks x).id) % 2 ^ 64 := by
  unfold kmalloc at ht
  split_ifs at ht with hbig
  · obtain ⟨rfl, -⟩ := Prod.mk.inj (Option.some.inj ht)
    exact ⟨rfl, fun _ => rfl, fun _ hx => Or.inl hx⟩
  obtain ⟨k, hk, ht⟩ := Option.bind_eq_some_iff.mp ht
  cases hfind : firstNonempty h.kHeapOrder (kHeapMaxOrder + 1 - k) k with
  | none =>
    rw [hfind] at ht
    obtain ⟨rfl, -⟩ := Prod.mk.inj (Option.some.inj ht)
    exact ⟨rfl, fun _ => rfl, fun _ hx => Or.inl hx⟩
  | some d =>
    rw [hfind] at ht
    obtain ⟨u, hu, ht⟩ := Option.bind_eq_some_iff.mp ht
    have hfade := splitDown_fades _ hu
    obtain ⟨front, hstart, hid, haddr, hmarks⟩ := takeFront_marks ht
    have hserves : h.serves size = true := by
      unfold serves
      rw [hk, Option.bind_some, hfind, decide_eq_true (Nat.le_of_not_lt hbig)]
      rfl
    refine ⟨hstart.trans hfade.start, fun x => (hid x).trans (hfade.id x), fun x hx => ?_⟩
    rcases hmarks x hx with rfl | hx
    · rw [hfade.start, hfade.id] at haddr
      exact Or.inr ⟨hserves, haddr⟩
    · exact Or.inl (hfade.allocated x hx)

theorem freedCell_eq (h : KHeap) (addr : Nat) : h.freedCell addr =
    (h.addressedCell addr).filter fun id => (h.kHeapBlocks id).isAllocated := by
  unfold freedCell addressedCell
  split_ifs with hrange
  · rfl
  · rw [Option.filter_some]

/-- `kfree` clears the mark of the cell it is given, and sets none. -/
theorem kfree_marks (h : KHeap) (addr : Nat) : Fades h (h.kfree addr) ∧
    ∀ id, h.addressedCell addr = some id → ((h.kfree addr).kHeapBlocks id).isAllocated = false := by
  unfold kfree
  cases hcell : h.freedCell addr with
  | none =>
    refine ⟨Fades.refl h, fun id hid => ?_⟩
    rw [freedCell_eq, hid, Option.filter_some] at hcell
    split_ifs at hcell with hal
    exact eq_false_of_ne_true hal
  | some id =>
    dsimp only
    have hadd := fades_addTo h (h.kHeapBlocks id).order id
    have hmerge := mergeUp_fades (kHeapMaxOrder - (h.kHeapBlocks id).order)
      (h.addTokHeapOrder (h.kHeapBlocks id).order id) id (h.kHeapBlocks id).order
    refine ⟨hadd.trans hmerge, fun id' hid => eq_false_of_ne_true fun hal => ?_⟩
    have hsame : id' = id := by
      rw [freedCell_eq, hid, Option.filter_some] at hcell
      split_ifs at hcell
      exact Option.some.inj hcell
    have hmark := hmerge.allocated id' hal
    rw [hsame, isAllocated_addTo, if_pos rfl] at hmark
    cases hmark

end KHeap

namespace HeapUse
open KHeap
variable {s t : HeapUse} {start : BitVec 64}

/-- Every marked cell is the first cell of an allocation that is still out. -/
structure Marked (start : BitVec 64) (s : HeapUse) : Prop where
  start_eq : s.heap.kHeapStart = start.toNat
  id : ∀ x < kHeapBlockNum, (s.heap.kHeapBlocks x).id = x
  returned : ∀ x < kHeapBlockNum, (s.heap.kHeapBlocks x).isAllocated = true →
    (start.toNat + kHeapBlockSize * x) % 2 ^ 64 ∈ s.returned

/-- The range check lets pass the addresses of the heap, and none when it ends beyond the address
space. -/
theorem Marked.addressedCell (hm : s.Marked start) {addr id : Nat}
    (h : s.heap.addressedCell addr = some id) :
    start.toNat ≤ addr ∧ addr < start.toNat + kHeapHeapSize ∧
      start.toNat + kHeapHeapSize < 2 ^ 64 ∧ (addr - start.toNat) / kHeapBlockSize = id := by
  have hlt := start.isLt
  unfold KHeap.addressedCell kHeapHeapSize at h
  unfold kHeapHeapSize
  rw [hm.start_eq] at h
  split_ifs at h with hrange
  have hcell := Option.some.inj h
  omega

theorem Marked.first_cell (hm : s.Marked start) {x : Nat} (hx : x < kHeapBlockNum)
    (hend : start.toNat + kHeapHeapSize < 2 ^ 64) :
    s.heap.addressedCell ((start.toNat + kHeapBlockSize * x) % 2 ^ 64) = some x := by
  have hx16 : x < 16 := hx
  unfold kHeapHeapSize at hend
  unfold KHeap.addressedCell kHeapHeapSize kHeapBlockSize
  rw [hm.start_eq, Nat.mod_eq_of_lt (by omega), Nat.mod_eq_of_lt hend, if_neg (by omega),
    Option.some.injEq]
  omega

theorem Marked.step (hm : s.Marked start) {a : HeapRequest} (ht : s.step a = some t) :
    t.Marked start := by
  cases a with
  | kmalloc size =>
    obtain ⟨⟨u, addr⟩, hu, rfl⟩ := Option.map_eq_some_iff.mp ht
    obtain ⟨hstart, hid, hmarks⟩ := KHeap.kmalloc_marks hu
    refine ⟨hstart.trans hm.start_eq, fun x hx => (hid x).trans (hm.id x hx), fun x hx hal => ?_⟩
    rcases hmarks x hal with hold | ⟨hserves, haddr⟩
    · have hout := hm.returned x hx hold
      show _ ∈ if _ then _ else _
      split_ifs
      · exact List.mem_cons_of_mem _ hout
      · exact hout
    · rw [hm.start_eq, hm.id x hx] at haddr
      show _ ∈ if _ then _ else _
      rw [if_pos hserves, haddr]
      exact List.mem_cons_self
  | kfree addr =>
    obtain rfl := Option.some.inj ht
    obtain ⟨hfade, hcleared⟩ := KHeap.kfree_marks s.heap addr
    refine ⟨hfade.start.trans hm.start_eq, fun x hx => (hfade.id x).trans (hm.id x hx),
      fun x hx hal => ?_⟩
    have hout := hm.returned x hx (hfade.allocated x hal)
    show _ ∈ match s.heap.addressedCell addr with | none => _ | some id => _
    cases hcell : s.heap.addressedCell addr with
    | none => exact hout
    | some id =>
      have hend := (hm.addressedCell hcell).2.2.1
      have hne : x ≠ id := by
        rintro rfl
        change ((s.heap.kfree addr).kHeapBlocks x).isAllocated = true at hal
        rw [hcleared x hcell] at hal
        cases hal
      refine List.mem_filter.mpr ⟨hout, decide_eq_true ?_⟩
      rw [hm.first_cell hx hend]
      exact fun h => hne (Option.some.inj h)

theorem initialised_marked {h₀ : KHeap} (h : Initialised start.toNat h₀) :
    Marked start ⟨h₀, []⟩ where
  start_eq := h.start_eq
  id x hx := congrArg KHeapBlock.id (h.blocks x hx)
  returned x hx hal := by
    change (h₀.kHeapBlocks x).isAllocated = true at hal
    rw [h.blocks x hx] at hal
    cases hal

/-- In every run, `kfree(addr)` changes nothing unless `addr` lies in the heap, and its cell is the
first one of an allocation that `kmalloc` has returned and that has not been freed since. -/
theorem kfree_harmless (start : BitVec 64) {h₀ : KHeap} (hinit : Initialised start.toNat h₀)
    {as : List HeapRequest} (hr : run step ⟨h₀, []⟩ as = some s) (addr : BitVec 64) :
    s.heap.kfree addr.toNat = s.heap ∨
      start.toNat ≤ addr.toNat ∧ addr.toNat < start.toNat + kHeapHeapSize ∧
        start.toNat + kHeapBlockSize * ((addr.toNat - start.toNat) / kHeapBlockSize) ∈
          s.returned := by
  have hm : s.Marked start :=
    run_invariant (fun _ _ _ h ht => h.step ht) (initialised_marked hinit) hr
  cases hcell : s.heap.freedCell addr.toNat with
  | none =>
    left
    unfold KHeap.kfree
    rw [hcell]
  | some id =>
    right
    rw [KHeap.freedCell_eq, Option.filter_eq_some_iff] at hcell
    obtain ⟨haddressed, hal⟩ := hcell
    obtain ⟨hlow, hhigh, hend, hid⟩ := hm.addressedCell haddressed
    have hid16 : id < 16 := by
      unfold kHeapHeapSize kHeapBlockSize at *
      omega
    have hout := hm.returned id hid16 hal
    refine ⟨hlow, hhigh, ?_⟩
    rw [hid]
    rwa [Nat.mod_eq_of_lt] at hout
    unfold kHeapHeapSize kHeapBlockSize at *
    omega

theorem kHeapInit_initialised (start : Nat) : Initialised start (kHeapInit start) :=
  ⟨rfl, fun _ _ => rfl, fun _ _ => rfl⟩

/-- A second `kfree` of the same address. -/
theorem kfree_harmless_twice : ∃ s,
    run step ⟨kHeapInit 0x100000, []⟩ [.kmalloc 256, .kfree 0x100000] = some s ∧
      s.heap.kfree 0x100000 = s.heap := by
  have hend : (run step ⟨kHeapInit 0x100000, []⟩ [.kmalloc 256, .kfree 0x100000]).map
      (·.returned) = some [] := by decide +kernel
  obtain ⟨s, hs, hreturned⟩ := Option.map_eq_some_iff.mp hend
  refine ⟨s, hs, ?_⟩
  rcases kfree_harmless 0x100000 (kHeapInit_initialised 0x100000) hs 0x100000 with h | ⟨-, -, h⟩
  · exact h
  · rw [hreturned] at h
    exact absurd h List.not_mem_nil

end HeapUse
end Amaterasu
