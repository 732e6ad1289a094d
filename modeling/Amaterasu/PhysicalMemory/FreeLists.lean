import Amaterasu.PhysicalMemory.Lists
import Mathlib.Data.Fin.Basic

/-! `AddToPageFrameOrder` and `DeleteFromPageFrameOrder` on the lists of all orders: what they do to
the contents of the lists, and which fields of which descriptors they leave alone. -/

namespace Amaterasu.PageFrames
open Function

/-- The pointers of the lists of the orders up to the largest. -/
def orderLists (s : PageFrames) : Links (Fin (pageFrameMaxOrder + 1)) Nat := s.links.comap Fin.val

/-- What differs is the head of one list, the links and the `priv` field of `page`, the `next` of
the page `before` it and the `prev` of the page `after` it. -/
structure Relinked (s t : PageFrames) (order page : Nat) (before after : Option Nat) : Prop where
  total : t.totalPageNumber = s.totalPageNumber
  head : ∀ j ≠ order, t.pageFrameOrder j = s.pageFrameOrder j
  flags : ∀ i, (t.memoryMap i).flags = (s.memoryMap i).flags
  priv : ∀ i ≠ page, (t.memoryMap i).priv = (s.memoryMap i).priv
  next : ∀ i ≠ page, before ≠ some i → (t.memoryMap i).next = (s.memoryMap i).next
  prev : ∀ i ≠ page, after ≠ some i → (t.memoryMap i).prev = (s.memoryMap i).prev

variable {s : PageFrames}

theorem orderLists_addTo (s : PageFrames) (k : Fin (pageFrameMaxOrder + 1)) (i : Nat) :
    (s.addToPageFrameOrder k i).orderLists = s.orderLists.push k i := by
  unfold orderLists
  rw [links_addTo, Links.comap_push Fin.val_injective]

theorem orderLists_deleteFrom (s : PageFrames) (k : Fin (pageFrameMaxOrder + 1)) (i : Nat) :
    (s.deleteFromPageFrameOrder k i).orderLists = s.orderLists.remove k i := by
  unfold orderLists
  rw [links_deleteFrom, Links.comap_remove Fin.val_injective]

theorem addTo_relinked (s : PageFrames) (k i : Nat) :
    Relinked s (s.addToPageFrameOrder k i) k i none (s.pageFrameOrder k) where
  total := total_addTo s k i
  head j hj := by
    have hlinks := congrFun (congrArg Links.head (links_addTo s k i)) j
    exact hlinks.trans (update_of_ne hj _ _)
  flags j := flags_addTo s k i j
  priv j hj := by rw [priv_addTo, if_neg hj]
  next j hj _ := by
    have hlinks := congrFun (congrArg Links.next (links_addTo s k i)) j
    exact hlinks.trans (update_of_ne hj _ _)
  prev j hj hfront := by
    have hlinks := congrFun (congrArg Links.prev (links_addTo s k i)) j
    exact hlinks.trans (Links.push_prev_of_ne s.links k hj hfront)

theorem deleteFrom_relinked (s : PageFrames) (k i : Nat) :
    Relinked s (s.deleteFromPageFrameOrder k i) k i (s.memoryMap i).prev (s.memoryMap i).next where
  total := total_deleteFrom s k i
  head j hj := by
    have hlinks := congrFun (congrArg Links.head (links_deleteFrom s k i)) j
    exact hlinks.trans (Links.remove_head_of_ne s.links i hj)
  flags j := flags_deleteFrom s k i j
  priv j _ := priv_deleteFrom s k i j
  next j hj hbefore := by
    have hlinks := congrFun (congrArg Links.next (links_deleteFrom s k i)) j
    exact hlinks.trans (Links.remove_next_of_ne s.links k hj hbefore)
  prev j hj hafter := by
    have hlinks := congrFun (congrArg Links.prev (links_deleteFrom s k i)) j
    exact hlinks.trans (Links.remove_prev_of_ne s.links k hj hafter)

section Spliced
variable {ls : Fin (pageFrameMaxOrder + 1) → List Nat} {k : Fin (pageFrameMaxOrder + 1)} {p : Nat}

theorem doublyLinked_addTo (h : s.orderLists.DoublyLinked ls) (hp : ∀ j, p ∉ ls j) :
    (s.addToPageFrameOrder k p).orderLists.DoublyLinked (update ls k (p :: ls k)) := by
  rw [Links.doublyLinked_iff] at h ⊢
  rw [orderLists_addTo]
  exact h.push hp

theorem doublyLinked_deleteFrom (h : s.orderLists.DoublyLinked ls) {xs ys : List Nat}
    (hk : ls k = xs ++ p :: ys) :
    (s.deleteFromPageFrameOrder k p).orderLists.DoublyLinked (update ls k (xs ++ ys)) := by
  rw [Links.doublyLinked_iff] at h ⊢
  rw [orderLists_deleteFrom]
  exact h.remove hk

theorem neighbours (h : s.orderLists.DoublyLinked ls) {xs ys : List Nat}
    (hk : ls k = xs ++ p :: ys) :
    (s.memoryMap p).prev = xs.getLast? ∧ (s.memoryMap p).next = ys.head? := by
  obtain ⟨-, hys, -, hprev, -⟩ := (Links.doublyLinked_iff.mp h).around hk
  exact ⟨hprev.trans (Links.lastOr_none xs), Links.path_head hys⟩

end Spliced

/-- An addition puts its page in front of its list, a deletion takes its page out from any position.
The lists stay doubly linked, and only the page and its neighbours are written. -/
theorem orderLists_spliced {ls : Fin (pageFrameMaxOrder + 1) → List Nat}
    (h : s.orderLists.DoublyLinked ls) (k : Fin (pageFrameMaxOrder + 1)) (p : Nat) :
    ((∀ j, p ∉ ls j) →
      (s.addToPageFrameOrder k p).orderLists.DoublyLinked (update ls k (p :: ls k)) ∧
        ((s.addToPageFrameOrder k p).memoryMap p).priv = k ∧
        Relinked s (s.addToPageFrameOrder k p) k p none (ls k).head?) ∧
    ∀ xs ys, ls k = xs ++ p :: ys →
      (s.deleteFromPageFrameOrder k p).orderLists.DoublyLinked (update ls k (xs ++ ys)) ∧
        Relinked s (s.deleteFromPageFrameOrder k p) k p xs.getLast? ys.head? := by
  constructor
  · intro hp
    have hfront : s.pageFrameOrder k = (ls k).head? := Links.path_head (h.path k)
    exact ⟨doublyLinked_addTo h hp, by rw [priv_addTo, if_pos rfl],
      hfront ▸ addTo_relinked s k p⟩
  · intro xs ys hk
    obtain ⟨hprev, hnext⟩ := neighbours h hk
    exact ⟨doublyLinked_deleteFrom h hk, hprev ▸ hnext ▸ deleteFrom_relinked s k p⟩

/-- Four pages; 3, 2 and 1 are in the list of order 0. -/
def threePages : PageFrames :=
  let blank : PageFrames := ⟨fun _ => ⟨pageTop, 0, none, none⟩, fun _ => none, 4⟩
  ((blank.addToPageFrameOrder 0 1).addToPageFrameOrder 0 2).addToPageFrameOrder 0 3

theorem threePages_doublyLinked :
    threePages.orderLists.DoublyLinked (update (fun _ => []) 0 [3, 2, 1]) := by
  have hnot : ∀ {p : Nat} {xs : List Nat}, p ∉ xs → ∀ j : Fin (pageFrameMaxOrder + 1),
      p ∉ update (fun _ => []) 0 xs j := fun hp j hj => by
    by_cases h : j = 0
    · rw [h, update_self] at hj
      exact hp hj
    · rw [update_of_ne h] at hj
      exact absurd hj List.not_mem_nil
  have hblank := Links.doublyLinked_iff.mpr (Links.holds_of_empty (κ := Fin (pageFrameMaxOrder + 1))
    (l := orderLists ⟨fun _ => ⟨pageTop, 0, none, none⟩, fun _ => none, 4⟩) fun _ => rfl)
  have hone := doublyLinked_addTo (k := 0) (p := 1) hblank fun _ => List.not_mem_nil
  have htwo := doublyLinked_addTo (k := 0) (p := 2) hone (hnot (by decide))
  rw [update_idem, update_self] at htwo
  have hthree := doublyLinked_addTo (k := 0) (p := 3) htwo (hnot (by decide))
  rwa [update_idem, update_self] at hthree

/-- The middle one of three pages leaves its list. -/
theorem orderLists_spliced_middle :
    (threePages.deleteFromPageFrameOrder 0 2).orderLists.DoublyLinked
      (update (update (fun _ => []) 0 [3, 2, 1]) 0 [3, 1]) :=
  ((orderLists_spliced threePages_doublyLinked 0 2).2 [3] [1] (update_self ..)).1

end Amaterasu.PageFrames
