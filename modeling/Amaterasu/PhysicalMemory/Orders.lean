import Amaterasu.PhysicalMemory.FrameZero

/-! The orders with which `pageFrameOrder` is read or written. They are listed function by function
along the states that the functions go through, with a table that has a slot for each of them, and
then compared with the table that is declared. -/

namespace Amaterasu
open Block Runs

/-- The length of `struct Page *pageFrameOrder[PAGE_FRAME_MAX_ORDER]`. -/
def pageFrameOrderLength : Nat := pageFrameMaxOrder

namespace PageFrames

/-- `AddToPageFrameOrder` uses its order always, `DeleteFromPageFrameOrder` at the front of a list
only. -/
def deleteOrders (s : PageFrames) (order page : Nat) : List Nat :=
  match (s.memoryMap page).prev with
  | none => [order]
  | some _ => []

/-! ## `BuddySystemInit` -/

def initRoundOrders (s : PageFrames) (start : Nat) : List Nat :=
  let start := s.skipReserved (s.totalPageNumber - start) start
  if (s.memoryMap start).isReserved then []
  else (log2 (s.streakEnd (pow 2 (maxOrder start) - 1) (start + 1) - start)).toList

def initLoopOrders : Nat → PageFrames → Nat → List Nat
  | 0, _, _ => []
  | fuel + 1, s, start =>
    if start < s.totalPageNumber then
      s.initRoundOrders start ++ match s.initRound start with
        | some (s, some start) => initLoopOrders fuel s start
        | _ => []
    else []

/-- The first loop clears the orders up to the largest one. -/
def buddySystemInitOrders (s : PageFrames) : List Nat :=
  List.range (pageFrameMaxOrder + 1) ++ initLoopOrders s.totalPageNumber s.clearOrders 0

/-! ## `AllocatePageFrames` -/

/-- The search for the first list that is not empty. -/
def searchOrders (s : PageFrames) : Nat → Nat → List Nat
  | 0, _ => []
  | left + 1, currentOrder =>
    currentOrder ::
      if (s.pageFrameOrder currentOrder).isSome then [] else searchOrders s left (currentOrder + 1)

def splitFrontOrders (s : PageFrames) (order : Nat) : List Nat :=
  (order + 1) :: match s.pageFrameOrder (order + 1) with
    | none => []
    | some front => s.deleteOrders (order + 1) front ++ [order, order]

def splitDownOrders : Nat → PageFrames → Nat → List Nat
  | 0, _, _ => []
  | above + 1, s, requestedOrder =>
    s.splitFrontOrders (requestedOrder + above) ++
      match s.splitFront (requestedOrder + above) with
      | none => []
      | some s => splitDownOrders above s requestedOrder

def takeFrontOrders (s : PageFrames) (order : Nat) : List Nat :=
  order :: match s.pageFrameOrder order with
    | none => []
    | some allocated => s.deleteOrders order allocated

def allocateOrders (s : PageFrames) (requestedPageNumber : Int) : List Nat :=
  match ceilLog2 (toUnsigned64 requestedPageNumber) with
  | none => []
  | some requestedOrder =>
    let left := pageFrameMaxOrder + 1 - requestedOrder
    s.searchOrders left requestedOrder ++
      match firstNonempty s.pageFrameOrder left requestedOrder with
      | none => []
      | some currentOrder =>
        splitDownOrders (currentOrder - requestedOrder) s requestedOrder ++
          match splitDown (currentOrder - requestedOrder) s requestedOrder with
          | none => []
          | some s => s.takeFrontOrders requestedOrder

/-! ## `FreePageFrames` -/

def mergeUpOrders : Nat → PageFrames → Nat → Nat → List Nat
  | 0, _, _, _ => []
  | left + 1, s, i, currentOrder =>
    if s.buddyIsFree i currentOrder then
      let buddy := i ^^^ (1 <<< currentOrder)
      let s₁ := s.deleteFromPageFrameOrder currentOrder i
      let s₂ := s₁.deleteFromPageFrameOrder currentOrder buddy
      s.deleteOrders currentOrder i ++ s₁.deleteOrders currentOrder buddy ++ [currentOrder + 1] ++
        mergeUpOrders left (s₂.addToPageFrameOrder (currentOrder + 1) i) i (currentOrder + 1)
    else []

def freeOrders (s : PageFrames) (address : Nat) : List Nat :=
  let i := address >>> 12
  match s.scanOrder i with
  | none => []
  | some freedOrder =>
    let s := s.addToPageFrameOrder freedOrder i
    let s := s.modifyPage i (·.xorFlags pageAllocated)
    freedOrder :: mergeUpOrders (pageFrameMaxOrder + 1 - freedOrder) s i freedOrder

/-! ## Bounds -/

variable {R : Set Nat} {s t : PageFrames} {p : Pool R}

theorem deleteOrders_le {order page k : Nat} (h : k ∈ s.deleteOrders order page) : k = order := by
  unfold deleteOrders at h
  split at h
  · exact List.mem_singleton.mp h
  · exact absurd h List.not_mem_nil

theorem searchOrders_le {left k d : Nat} (h : d ∈ s.searchOrders left k) : d < k + left := by
  induction left generalizing k with
  | zero => exact absurd h List.not_mem_nil
  | succ left ih =>
    unfold searchOrders at h
    rcases List.mem_cons.mp h with rfl | h
    · omega
    · split_ifs at h
      · exact absurd h List.not_mem_nil
      · have := ih h
        omega

theorem splitFrontOrders_le {k d : Nat} (h : d ∈ s.splitFrontOrders k) : d ≤ k + 1 := by
  unfold splitFrontOrders at h
  rcases List.mem_cons.mp h with rfl | h
  · exact le_rfl
  · split at h
    · exact absurd h List.not_mem_nil
    · rcases List.mem_append.mp h with h | h
      · exact (deleteOrders_le h).le
      · simp only [List.mem_cons, List.not_mem_nil, or_false, or_self] at h
        omega

theorem splitDownOrders_le {above k d : Nat} (h : d ∈ splitDownOrders above s k) :
    d ≤ k + above := by
  induction above generalizing s with
  | zero => exact absurd h List.not_mem_nil
  | succ above ih =>
    unfold splitDownOrders at h
    rcases List.mem_append.mp h with h | h
    · exact splitFrontOrders_le h
    · split at h
      · exact absurd h List.not_mem_nil
      · exact (ih h).trans (Nat.le_succ _)

theorem takeFrontOrders_le {k d : Nat} (h : d ∈ s.takeFrontOrders k) : d ≤ k := by
  unfold takeFrontOrders at h
  rcases List.mem_cons.mp h with rfl | h
  · exact le_rfl
  · split at h
    · exact absurd h List.not_mem_nil
    · exact (deleteOrders_le h).le

/-- In every state, `AllocatePageFrames` stays at orders up to the largest one. -/
theorem allocateOrders_le {n : Int} {d : Nat} (h : d ∈ s.allocateOrders n) :
    d ≤ pageFrameMaxOrder := by
  unfold allocateOrders at h
  split at h
  · exact absurd h List.not_mem_nil
  · rename_i k _
    dsimp only at h
    rcases List.mem_append.mp h with h | h
    · -- the search has no order left when it would start above the largest one
      have hsearch := searchOrders_le h
      rcases Nat.lt_or_ge pageFrameMaxOrder k with hk | hk
      · rw [Nat.sub_eq_zero_of_le hk] at h
        exact absurd h List.not_mem_nil
      · omega
    · split at h
      · exact absurd h List.not_mem_nil
      · rename_i e he
        obtain ⟨hke, hlt, -, -⟩ := firstNonempty_some he
        rcases List.mem_append.mp h with h | h
        · have := splitDownOrders_le h
          omega
        · split at h
          · exact absurd h List.not_mem_nil
          · have := takeFrontOrders_le h
            omega

theorem initRoundOrders_le {start d : Nat} (h : d ∈ s.initRoundOrders start) :
    d ≤ pageFrameMaxOrder := by
  unfold initRoundOrders at h
  generalize s.skipReserved (s.totalPageNumber - start) start = a at h
  dsimp only at h
  split_ifs at h
  · exact absurd h List.not_mem_nil
  · obtain ⟨⟨hm, -⟩, -⟩ := maxOrder_isGreatest a
    have hm' : maxOrder a ≤ 10 := hm
    have hpow : (2 : Nat) ^ maxOrder a ≤ 2 ^ 10 := Nat.pow_le_pow_right (by omega) hm
    have hpos := Nat.two_pow_pos (maxOrder a)
    rw [pow_two_eq (show maxOrder a < 64 by omega)] at h
    obtain ⟨e1, e2⟩ := streakEnd_bounds s (2 ^ maxOrder a - 1) (a + 1)
    rw [log2_eq (by omega) (by omega)] at h
    obtain rfl := List.mem_singleton.mp h
    have hlog := Nat.log_mono_right (b := 2)
      (show s.streakEnd (2 ^ maxOrder a - 1) (a + 1) - a ≤ 2 ^ maxOrder a by omega)
    rw [Nat.log_pow (by omega)] at hlog
    exact hlog.trans hm

/-- On every map, `BuddySystemInit` stays at orders up to the largest one. -/
theorem buddySystemInitOrders_le {d : Nat} (h : d ∈ s.buddySystemInitOrders) :
    d ≤ pageFrameMaxOrder := by
  have hloop : ∀ (fuel start : Nat) (t : PageFrames), d ∈ initLoopOrders fuel t start →
      d ≤ pageFrameMaxOrder := by
    intro fuel
    induction fuel with
    | zero => exact fun start t h => absurd h List.not_mem_nil
    | succ fuel ih =>
      intro start t h
      unfold initLoopOrders at h
      split_ifs at h
      · rcases List.mem_append.mp h with h | h
        · exact initRoundOrders_le h
        · split at h
          · exact ih _ _ h
          · exact absurd h List.not_mem_nil
      · exact absurd h List.not_mem_nil
  rcases List.mem_append.mp h with h | h
  · exact Nat.le_of_lt_succ (List.mem_range.mp h)
  · exact hloop _ _ _ h

/-- A block of the merge loop joins its buddy: what of its further buddies is free stays so. -/
theorem BuddiesFree.to_join {b : Block} {m : Nat} (h : s.Represents p) {hb : b ∈ p.free}
    (hc : b.buddy ∈ p.free) (ht : t.Represents (p.join b hb hc)) (hm : BuddiesFree s b m) :
    BuddiesFree t ⟨b.order + 1, b.start⟩ m := by
  intro l h1 h2
  have hl := (h.mem _).mp (hm l (Nat.le_of_succ_le h1) h2)
  refine (ht.mem _).mpr (Or.inl ⟨hl, ?_⟩)
  have horder : (⟨l, b.start⟩ : Block).buddy.order = l := rfl
  rintro (heq | heq)
  · rw [heq] at horder
    exact Nat.lt_irrefl l (horder ▸ h1)
  · have hbud : b.buddy.order = b.order := rfl
    rw [heq, hbud] at horder
    exact Nat.lt_irrefl l (horder ▸ h1)

/-- The merge loop reaches an order without list exactly when the buddies of all orders are
free. -/
theorem mergeUpOrders_le_iff {i : Nat} (left : Nat) :
    ∀ {s : PageFrames} {p : Pool R} {j : Nat}, s.Represents p → j + left = pageFrameMaxOrder + 1 →
      0 < left → (⟨j, i⟩ : Block) ∈ p.free → MergesUpward s ⟨j, i⟩ →
      ((∀ d ∈ mergeUpOrders left s i j, d ≤ pageFrameMaxOrder) ↔
        ¬BuddiesFree s ⟨j, i⟩ pageFrameMaxOrder) := by
  induction left with
  | zero => exact fun _ _ h => absurd h (Nat.lt_irrefl 0)
  | succ left ih =>
    intro s p j h hj _ hb hlow
    unfold mergeUpOrders
    split_ifs with hf
    · obtain ⟨hbud, hpar, t, rfl, hjoin, hbuddies, hup⟩ := mergeRound h (by omega) hb hf hlow
      dsimp only
      rcases Nat.eq_zero_or_pos left with rfl | hleft
      · obtain rfl : j = pageFrameMaxOrder := by omega
        refine iff_of_false (fun hall => ?_) (not_not.mpr ((buddiesFree_self h).mpr hbud))
        have := hall (pageFrameMaxOrder + 1) (by simp)
        omega
      · have hrest := ih (j := j + 1) hjoin (by omega) hleft (hpar ▸ Or.inr rfl) hup
        rw [show BuddiesFree s ⟨j, i⟩ pageFrameMaxOrder ↔ _ from
          ⟨BuddiesFree.to_join h hbud hjoin, hbuddies pageFrameMaxOrder⟩]
        refine Iff.trans ?_ hrest
        constructor
        · exact fun hall d hd => hall d (List.mem_append_right _ hd)
        · intro hall d hd
          rcases List.mem_append.mp hd with hd | hd
          · rcases List.mem_append.mp hd with hd | hd
            · rcases List.mem_append.mp hd with hd | hd <;> rw [deleteOrders_le hd] <;> omega
            · rw [List.mem_singleton.mp hd]
              omega
          · exact hall d hd
    · refine iff_of_true (fun d hd => absurd hd List.not_mem_nil) fun hall => hf ?_
      exact (buddyIsFree_iff h hb).mpr ((h.mem _).mp (hall j le_rfl (by omega)))

/-- A clean free passes the largest order exactly when the buddies of all orders are free. -/
theorem freeOrders_le_iff (h : s.Represents p) {b : Block} (hb : b ∈ p.live)
    (ho : b.order ≤ pageFrameMaxOrder) (hv : OrderVisible s b) (hlow : MergesUpward s b) :
    (∀ d ∈ s.freeOrders (frameAddress (some b.start)), d ≤ pageFrameMaxOrder) ↔
      ¬BuddiesFree s b pageFrameMaxOrder := by
  have hmax : b.order ≤ 10 := ho
  have haddr : frameAddress (some b.start) >>> 12 = b.start := Nat.shiftLeft_shiftRight ..
  have hgive := h.give hb
  have hbuddies := buddiesFree_give h hb
  have hloop := mergeUpOrders_le_iff (i := b.start) (pageFrameMaxOrder + 1 - b.order) hgive
    (by omega) (by omega) (Set.mem_insert _ _)
    fun m h1 h2 hm => hlow m h1 h2 ((hbuddies m).mp hm)
  rw [freeOrders, haddr, scanOrder_eq (by omega) hv]
  refine List.forall_mem_cons.trans ((and_iff_right ho).trans (hloop.trans ?_))
  exact not_congr (hbuddies _)

end PageFrames

namespace FrameSystem
open PageFrames
variable {R : Set Nat} {p : Pool R} {m : PageFrames} {s : FrameSystem}

/-- The orders of a request. -/
def orders (s : FrameSystem) : FrameRequest → List Nat
  | .allocate n => s.frames.allocateOrders n
  | .free b => s.frames.freeOrders (frameAddress (some b.start))

/-- The orders of a run of requests. -/
def runOrders : FrameSystem → List FrameRequest → List Nat
  | _, [] => []
  | s, a :: as => s.orders a ++ match s.step a with
    | none => []
    | some s => runOrders s as

/-- The orders of `BuddySystemInit` and of a run from there on. -/
def bootOrders (m : PageFrames) (as : List FrameRequest) : List Nat :=
  m.buddySystemInitOrders ++ match boot m with
    | none => []
    | some s => runOrders s as

/-- The order behind the largest one is reached by the free that coalesces two blocks of the largest
order, and by no other request. -/
theorem Tracks.orders_le_iff (h : s.Tracks p) {a : FrameRequest} (hok : s.Clean a) :
    (∀ order ∈ s.orders a, order ≤ pageFrameMaxOrder) ↔ s.Capped a := by
  cases a with
  | allocate n => exact iff_of_true (fun _ => allocateOrders_le) hok
  | free b =>
    obtain ⟨hb, hv, hlow⟩ := hok
    rw [orders, freeOrders_le_iff h.represents ((h.live b).mp hb) (h.order_le b hb) hv hlow]
    exact (and_iff_right (show s.Clean (.free b) from ⟨hb, hv, hlow⟩)).symm

/-- The first loop of `BuddySystemInit` already uses the order behind the end of the table. -/
theorem bootOrders_overrun (m : PageFrames) (as : List FrameRequest) :
    ¬∀ order ∈ bootOrders m as, order ≤ pageFrameMaxOrder ∧ order < pageFrameOrderLength := by
  intro hall
  have hmem : pageFrameMaxOrder ∈ bootOrders m as :=
    List.mem_append_left _ (List.mem_append_left _ (List.mem_range.mpr (Nat.lt_succ_self _)))
  exact Nat.lt_irrefl _ (hall _ hmem).2

theorem bootOrders_overrun_ten : ¬∀ order ∈ bootOrders (blankMap 1) [],
    order ≤ pageFrameMaxOrder ∧ order < pageFrameOrderLength := by decide

end FrameSystem
end Amaterasu
