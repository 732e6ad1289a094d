import Amaterasu.KHeap.Runs
import Amaterasu.PhysicalMemory.Runs

/-! When the two allocators return, from any state of their lists: the loop of `log2` ends exactly
for a positive number, and the split loop never runs out of blocks. -/

namespace Amaterasu
open Runs

namespace PageFrames

theorem splitDown_head {k : Nat} (above : Nat) {s : PageFrames} {i : Nat}
    (hf : s.pageFrameOrder (k + above) = some i) :
    ∃ t j, splitDown above s k = some t ∧ t.pageFrameOrder k = some j := by
  induction above generalizing s i with
  | zero => exact ⟨s, i, rfl, hf⟩
  | succ above ih =>
    obtain ⟨t, ht, hhead⟩ : ∃ t, s.splitFront (k + above) = some t ∧
        t.pageFrameOrder (k + above) = some i := by
      unfold splitFront
      rw [Nat.add_assoc, hf]
      exact ⟨_, rfl, head_addTo _ (k + above) i⟩
    obtain ⟨u, j, hu, hj⟩ := ih hhead
    refine ⟨u, j, ?_, hj⟩
    unfold splitDown
    rw [ht]
    exact hu

theorem allocateFrames_isSome_iff (s : PageFrames) (n : Int) :
    (s.allocateFrames n).isSome ↔ (ceilLog2 (toUnsigned64 n)).isSome := by
  unfold allocateFrames
  cases ceilLog2 (toUnsigned64 n) with
  | none => rfl
  | some k =>
    simp only [Option.bind_eq_bind, Option.bind_some, Option.isSome_some, iff_true]
    split_ifs with hbig
    · rfl
    cases hfind : firstNonempty s.pageFrameOrder (pageFrameMaxOrder + 1 - k) k with
    | none => rfl
    | some d =>
      obtain ⟨hkd, -, ⟨i, hi⟩, -⟩ := firstNonempty_some hfind
      rw [← Nat.add_sub_cancel' hkd] at hi
      obtain ⟨t, j, ht, hj⟩ := splitDown_head (d - k) hi
      dsimp only
      rw [ht, Option.bind_some]
      unfold takeFront
      rw [hj]
      rfl

end PageFrames

namespace KHeap

theorem splitDown_head {k : Nat} (above : Nat) {h : KHeap} {i : Nat}
    (hf : h.kHeapOrder (k + above) = some i) :
    ∃ t j, splitDown above h k = some t ∧ t.kHeapOrder k = some j := by
  induction above generalizing h i with
  | zero => exact ⟨h, i, rfl, hf⟩
  | succ above ih =>
    obtain ⟨t, j, ht, hhead⟩ : ∃ t j, h.splitFront (k + above) = some t ∧
        t.kHeapOrder (k + above) = some j := by
      unfold splitFront
      rw [Nat.add_assoc, hf]
      exact ⟨_, _, rfl, head_addTo _ (k + above) (h.kHeapBlocks i).id⟩
    obtain ⟨u, l, hu, hl⟩ := ih hhead
    refine ⟨u, l, ?_, hl⟩
    unfold splitDown
    rw [ht]
    exact hu

theorem kmalloc_isSome_iff (h : KHeap) (size : Nat) :
    (h.kmalloc size).isSome ↔ kHeapHeapSize < size ∨ (ceilLog2 (blockNumber size)).isSome := by
  unfold kmalloc
  split_ifs with hbig
  · simp only [Option.isSome_some, hbig, true_or]
  rw [or_iff_right hbig]
  dsimp only
  cases ceilLog2 (blockNumber size) with
  | none => rfl
  | some k =>
    simp only [Option.bind_eq_bind, Option.bind_some, Option.isSome_some, iff_true]
    cases hfind : firstNonempty h.kHeapOrder (kHeapMaxOrder + 1 - k) k with
    | none => rfl
    | some d =>
      obtain ⟨hkd, -, ⟨i, hi⟩, -⟩ := firstNonempty_some hfind
      rw [← Nat.add_sub_cancel' hkd] at hi
      obtain ⟨t, j, ht, hj⟩ := splitDown_head (d - k) hi
      dsimp only
      rw [ht, Option.bind_some]
      unfold takeFront
      rw [hj]
      rfl

end KHeap

theorem toUnsigned64_eq_zero_iff (n : BitVec 32) : toUnsigned64 n.toInt = 0 ↔ n = 0 := by
  have hlow := BitVec.le_toInt n
  have hhigh := BitVec.toInt_lt (x := n)
  have hzero : n.toInt = 0 ↔ n = 0 := by
    rw [← BitVec.toInt_zero, BitVec.toInt_inj]
    rfl
  rw [← hzero]
  unfold toUnsigned64
  omega

/-- In every state, `AllocatePageFrames(n)` returns exactly when `n` is not 0, negative or not, and
`kmalloc(size)` exactly when `size` is not 0. -/
theorem allocators_return_iff (s : PageFrames) (h : KHeap) (n size : BitVec 32) :
    ((s.allocatePageFrames n.toInt).isSome ↔ n ≠ 0) ∧
      ((h.kmalloc size.toNat).isSome ↔ size ≠ 0) := by
  constructor
  · unfold PageFrames.allocatePageFrames
    rw [Option.isSome_map, PageFrames.allocateFrames_isSome_iff,
      ceilLog2_isSome_iff (toUnsigned64_lt _), ne_eq, toUnsigned64_eq_zero_iff]
  · have hnum := KHeap.blockNumber_lt size.isLt
    have hzero : size.toNat = 0 ↔ size = 0 := by
      rw [← BitVec.toNat_inj]
      rfl
    rw [KHeap.kmalloc_isSome_iff, ceilLog2_isSome_iff hnum, ne_eq, KHeap.blockNumber_eq_zero_iff,
      hzero, ne_eq, or_iff_right_iff_imp]
    rintro hbig rfl
    exact absurd hbig (by decide)

/-- After the initialisation of both, on a map of two frames. -/
theorem allocators_hang_on_zero : ∃ s, FrameSystem.boot (FrameSystem.blankMap 2) = some s ∧
    (s.frames.allocatePageFrames 0).isSome = false ∧
    ((KHeap.kHeapInit 0x1000).kmalloc 0).isSome = false := by
  have hboot : ∀ s ∈ FrameSystem.boot (FrameSystem.blankMap 2),
      (s.frames.allocatePageFrames 0).isSome = false := by decide
  have hsome : (FrameSystem.boot (FrameSystem.blankMap 2)).isSome = true := by decide
  obtain ⟨s, hs⟩ := Option.isSome_iff_exists.mp hsome
  exact ⟨s, hs, hboot s hs, by decide⟩

end Amaterasu
