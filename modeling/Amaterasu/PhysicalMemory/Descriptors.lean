import Amaterasu.PhysicalMemory.FrameZero

/-! The descriptors that `BuddySystemInit` reads, writes and links, listed function by function
along the states that it goes through. -/

namespace Amaterasu.PageFrames
open Block

/-- The flags are read before the bound is tested. -/
def skipReservedPages (s : PageFrames) : Nat → Nat → List Nat
  | 0, start => [start]
  | rest + 1, start =>
    start :: if (s.memoryMap start).isReserved then skipReservedPages s rest (start + 1) else []

def streakPages (s : PageFrames) : Nat → Nat → List Nat
  | 0, _ => []
  | room + 1, stop =>
    if stop = s.totalPageNumber then []
    else stop :: if (s.memoryMap stop).isReserved then [] else streakPages s room (stop + 1)

def addToPageFrameOrderPages (s : PageFrames) (order page : Nat) : List Nat :=
  page :: (s.pageFrameOrder order).toList

def initRoundPages (s : PageFrames) (start : Nat) : List Nat :=
  let first := s.skipReserved (s.totalPageNumber - start) start
  s.skipReservedPages (s.totalPageNumber - start) start ++ first ::
    if (s.memoryMap first).isReserved then []
    else
      let room := pow 2 (maxOrder first) - 1
      s.streakPages room (first + 1) ++ first ::
        match log2 (s.streakEnd room (first + 1) - first) with
        | none => []
        | some order => s.addToPageFrameOrderPages order first

def initLoopPages : Nat → PageFrames → Nat → List Nat
  | 0, _, _ => []
  | fuel + 1, s, start =>
    if start < s.totalPageNumber then
      s.initRoundPages start ++ match s.initRound start with
        | some (s, some start) => initLoopPages fuel s start
        | _ => []
    else []

def buddySystemInitPages (s : PageFrames) : List Nat :=
  initLoopPages s.totalPageNumber s.clearOrders 0

/-- `BuddySystemInit` on `s` leaves `t` and stays in the array of descriptors. -/
structure StaysInside (s t : PageFrames) : Prop where
  pages : ∀ i ∈ s.buddySystemInitPages, i < s.totalPageNumber
  blocks : ∀ b ∈ t.freeBlocks, b.start + b.size ≤ s.totalPageNumber

variable {m s t : PageFrames} {start first i : Nat}

/-! ## Scans -/

/-- The frames from `start` to the one at which the loop ends. -/
theorem mem_skipReservedPages {rest : Nat} :
    i ∈ s.skipReservedPages rest start ↔ start ≤ i ∧ i ≤ s.skipReserved rest start := by
  induction rest generalizing start with
  | zero =>
    rw [skipReservedPages, skipReserved, List.mem_singleton]
    omega
  | succ rest ih =>
    rw [skipReservedPages, skipReserved, List.mem_cons]
    split_ifs with hres
    · have := le_skipReserved (s := s) rest (start + 1)
      rw [ih]
      omega
    · simp only [List.not_mem_nil, or_false]
      omega

theorem lt_of_mem_streakPages {room stop : Nat} (hstop : stop ≤ s.totalPageNumber)
    (hi : i ∈ s.streakPages room stop) : i < s.totalPageNumber := by
  induction room generalizing stop with
  | zero => exact absurd hi List.not_mem_nil
  | succ room ih =>
    rw [streakPages] at hi
    split_ifs at hi with hend hres
    · exact absurd hi List.not_mem_nil
    · rw [List.mem_singleton.mp hi]
      omega
    · obtain rfl | hi := List.mem_cons.mp hi
      · omega
      · exact ih (by omega) hi

/-! ## One round -/

/-- A round that finds a frame in the map lists a block of it, of frames that are not reserved. -/
theorem initRound_found (h : Laid m t start) (hlt : start < m.totalPageNumber)
    (hfirst : t.skipReserved (t.totalPageNumber - start) start = first)
    (hin : first < m.totalPageNumber) : ∃ u stop, t.initRound start = some (u, some stop) ∧
      start < stop ∧ stop ≤ m.totalPageNumber ∧ Laid m u stop ∧
      (m.memoryMap (stop - 1)).isReserved = false ∧
      ∀ i ∈ t.initRoundPages start, i < m.totalPageNumber := by
  obtain ⟨h1, -, -, h4⟩ := skipReserved_spec (s := t) (t.totalPageNumber - start) start
    (by rw [h.total]; omega)
  rw [hfirst] at h1 h4
  have hres := h4 (h.total ▸ hin)
  obtain ⟨k, -, -, hstop, hlog, hround⟩ := initRound_listed hfirst hres
  obtain ⟨hnone, -⟩ | ⟨u, stop, hsome, hadv, hu⟩ := initRound_laid h hlt
  · have hsome := congrArg Prod.snd (Option.some.inj (hround.symm.trans hnone))
    cases hsome
  obtain ⟨-, -, hstreak, -⟩ := streakEnd_spec (s := t) (pow 2 (maxOrder first) - 1) (first + 1)
    (by rw [h.total]; omega)
  obtain ⟨hend, -⟩ := streakEnd_bounds t (pow 2 (maxOrder first) - 1) (first + 1)
  have hpos := Nat.two_pow_pos k
  have hk : stop = first + 2 ^ k := by
    rw [hround] at hsome
    exact (Option.some.inj (congrArg Prod.snd (Option.some.inj hsome))).symm
  have husable : stop - 1 ∈ m.usable := by
    rcases Nat.eq_or_lt_of_le (show first ≤ stop - 1 by omega) with heq | hgt
    · exact ⟨by omega, by rw [← heq, ← h.reserved, hres]⟩
    · rw [← usable_congr h.total h.reserved]
      exact hstreak _ hgt (by omega)
  refine ⟨u, stop, hsome, hadv, by have := husable.1; omega, hu, husable.2, ?_⟩
  have hfront : ∀ i ∈ t.pageFrameOrder k, i < m.totalPageNumber := by
    intro i hi
    have hbelow := h.below _ (head_mem_freeBlocks hi)
    have hi' : i + 2 ^ k ≤ start := hbelow
    omega
  intro i hi
  unfold initRoundPages at hi
  rw [hfirst] at hi
  simp only [hres, hlog, Bool.false_eq_true, if_false, addToPageFrameOrderPages, List.mem_append,
    List.mem_cons, Option.mem_toList] at hi
  obtain hi | rfl | hi | rfl | rfl | hi := hi
  · have := (mem_skipReservedPages.mp hi).2
    omega
  · exact hin
  · rw [← h.total]
    exact lt_of_mem_streakPages (by rw [h.total]; omega) hi
  · exact hin
  · exact hin
  · exact hfront i hi

/-- The loop stays inside when the last frame of the map is not reserved. -/
theorem initLoop_inside
    (hlast : ∀ i, i + 1 = m.totalPageNumber → (m.memoryMap i).isReserved = false)
    (fuel : Nat) (h : Laid m t start) (hle : start ≤ m.totalPageNumber)
    (hf : m.totalPageNumber ≤ start + fuel) : ∃ u stop, initLoop fuel t start = some u ∧
      stop ≤ m.totalPageNumber ∧ Laid m u stop ∧
      ∀ i ∈ initLoopPages fuel t start, i < m.totalPageNumber := by
  induction fuel generalizing t start with
  | zero => exact ⟨t, start, rfl, hle, h, fun i hi => absurd hi List.not_mem_nil⟩
  | succ fuel ih =>
    rw [initLoop, initLoopPages, h.total]
    split_ifs with hlt
    · obtain ⟨-, h2, h3, -⟩ := skipReserved_spec (s := t) (t.totalPageNumber - start) start
        (by rw [h.total]; omega)
      have hin : t.skipReserved (t.totalPageNumber - start) start < m.totalPageNumber := by
        by_contra hge
        have hreserved := h3 (m.totalPageNumber - 1) (by omega) (by omega)
        rw [h.reserved, hlast _ (by omega)] at hreserved
        cases hreserved
      obtain ⟨u, stop, hround, hadv, hstop, hu, -, hpages⟩ := initRound_found h hlt rfl hin
      obtain ⟨v, fin, hv, hfin, hlaid, hrest⟩ := ih hu hstop (by omega)
      refine ⟨v, fin, by rw [hround]; exact hv, hfin, hlaid, fun i hi => ?_⟩
      rw [hround] at hi
      obtain hi | hi := List.mem_append.mp hi
      · exact hpages i hi
      · exact hrest i hi
    · exact ⟨t, start, rfl, hle, h, fun i hi => absurd hi List.not_mem_nil⟩

/-- Otherwise it looks behind the map. -/
theorem initLoop_outside (hlast : (m.memoryMap (m.totalPageNumber - 1)).isReserved = true)
    (fuel : Nat) (h : Laid m t start) (hlt : start < m.totalPageNumber)
    (hf : m.totalPageNumber ≤ start + fuel) :
    m.totalPageNumber ∈ initLoopPages fuel t start := by
  induction fuel generalizing t start with
  | zero => omega
  | succ fuel ih =>
    rw [initLoopPages, h.total, if_pos hlt]
    apply List.mem_append.mpr
    obtain ⟨h1, h2, -, -⟩ := skipReserved_spec (s := t) (t.totalPageNumber - start) start
      (by rw [h.total]; omega)
    rcases Nat.lt_or_ge (t.skipReserved (t.totalPageNumber - start) start) m.totalPageNumber with
      hin | hout
    · obtain ⟨u, stop, hround, hadv, hstop, hu, hlow, -⟩ := initRound_found h hlt rfl hin
      right
      rw [hround]
      apply ih hu _ (by omega)
      -- a block never holds the last frame
      apply Nat.lt_of_le_of_ne hstop
      rintro rfl
      rw [hlow] at hlast
      cases hlast
    · left
      unfold initRoundPages
      apply List.mem_append_left
      rw [mem_skipReservedPages]
      exact ⟨hlt.le, hout⟩

/-- `BuddySystemInit` stays in the array exactly when the last descriptor is not reserved. -/
theorem buddySystemInit_staysInside_iff (memoryMap : Nat → Page) (totalPageNumber : Nat) :
    ∃ t, (loaded memoryMap totalPageNumber).buddySystemInit = some t ∧
      (StaysInside (loaded memoryMap totalPageNumber) t ↔
        ∀ i, i + 1 = totalPageNumber → (memoryMap i).isReserved = false) := by
  have hlaid := loaded_laid memoryMap totalPageNumber
  obtain ⟨t, -, ht, -⟩ := buddySystemInit_listed memoryMap totalPageNumber
  refine ⟨t, ht, ?_, ?_⟩
  · intro h i hi
    by_contra hres
    have hlast : (memoryMap (totalPageNumber - 1)).isReserved = true := by
      rw [← hi, Nat.add_sub_cancel]
      exact eq_true_of_ne_false hres
    have hmem := initLoop_outside hlast totalPageNumber hlaid (by rw [← hi]; exact Nat.succ_pos i)
      (Nat.le_add_left _ _)
    exact absurd (h.pages _ hmem) (Nat.lt_irrefl _)
  · intro hlast
    obtain ⟨u, stop, hu, hstop, h, hpages⟩ :=
      initLoop_inside hlast totalPageNumber hlaid (Nat.zero_le _) (Nat.le_add_left _ _)
    obtain rfl : t = u := Option.some.inj (ht.symm.trans hu)
    exact ⟨hpages, fun b hb => (h.below b hb).trans hstop⟩

/-- One frame, reserved, and a descriptor behind it that is not. -/
theorem reserved_end_leaves_array :
    ∃ t, (loaded (fun i => ⟨if i = 0 then pageReserved else 0, 0, none, none⟩) 1).buddySystemInit =
        some t ∧
      ¬StaysInside (loaded (fun i => ⟨if i = 0 then pageReserved else 0, 0, none, none⟩) 1) t := by
  refine ⟨_, rfl, fun h => ?_⟩
  exact absurd (h.pages 1 (by decide)) (by decide)

end Amaterasu.PageFrames
