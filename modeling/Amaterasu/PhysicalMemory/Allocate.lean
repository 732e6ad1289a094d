import Amaterasu.PhysicalMemory.Lists

/-! `AllocatePageFrames` on a state that represents a pool: the split loop is a sequence of
pool splits of the front block, and the allocated block is taken out of the pool. -/

namespace Amaterasu.PageFrames
open Block
variable {R : Set Nat} {s : PageFrames} {p : Pool R}

theorem upper_start_eq_xor {k i : Nat} (ha : (⟨k + 1, i⟩ : Block).Aligned) :
    i ^^^ (1 <<< k) = i + 2 ^ k := by
  have h := congrArg Block.start (buddy_lower ha (Nat.succ_pos k))
  simpa [buddy, lower, upper, size, Nat.one_shiftLeft] using h

theorem Spells.head (h : s.Spells p) {k i : Nat} (hf : s.pageFrameOrder k = some i) :
    (⟨k, i⟩ : Block) ∈ p.free := (h.mem _).mp (head_mem_freeBlocks hf)

/-- The flags and `priv` fields after the split of the block at `i` with upper half at `j`. -/
theorem splitFront_fields {k i j : Nat} (hf : s.pageFrameOrder (k + 1) = some i)
    (hj : i ^^^ (1 <<< k) = j) :
    ∃ t, s.splitFront k = some t ∧ t.pageFrameOrder k = some i ∧
      t.totalPageNumber = s.totalPageNumber ∧
      (∀ x, (t.memoryMap x).isTop = (decide (x = i ∨ x = j) || (s.memoryMap x).isTop)) ∧
      (∀ x, (t.memoryMap x).isAllocated = (s.memoryMap x).isAllocated) ∧
      (∀ x, (t.memoryMap x).isReserved = (s.memoryMap x).isReserved) ∧
      (∀ x, (t.memoryMap x).priv = if x = i ∨ x = j then k else (s.memoryMap x).priv) := by
  refine ⟨_, by rw [splitFront, hf]; rfl, head_addTo _ _ _, by simp, ?_⟩
  have hflags : ∀ (u : PageFrames) x,
      ((((u.modifyPage i (·.orFlags pageTop)).modifyPage (i ^^^ (1 <<< k))
        (·.orFlags pageTop)).addToPageFrameOrder k (i ^^^ (1 <<< k))).addToPageFrameOrder k i
        |>.memoryMap x).flags =
      (((u.modifyPage i (·.orFlags pageTop)).modifyPage (i ^^^ (1 <<< k))
        (·.orFlags pageTop)).memoryMap x).flags := fun u x => by
    rw [flags_addTo, flags_addTo]
  refine ⟨fun x => ?_, fun x => ?_, fun x => ?_, fun x => ?_⟩
  · rw [isTop_congr (hflags _ x), hj]
    by_cases hxj : x = j
    · subst hxj
      simp [modifyPage_self, Page.isTop_orTop]
    · rw [modifyPage_of_ne _ _ hxj]
      by_cases hxi : x = i
      · subst hxi
        simp [modifyPage_self, Page.isTop_orTop]
      · rw [modifyPage_of_ne _ _ hxi, isTop_congr (flags_deleteFrom s (k + 1) i x)]
        simp [hxi, hxj]
  · rw [isAllocated_congr (hflags _ x),
      modifyPage_field Page.isAllocated _ _ _ Page.isAllocated_orTop,
      modifyPage_field Page.isAllocated _ _ _ Page.isAllocated_orTop,
      isAllocated_congr (flags_deleteFrom s (k + 1) i x)]
  · rw [isReserved_congr (hflags _ x),
      modifyPage_field Page.isReserved _ _ _ Page.isReserved_orTop,
      modifyPage_field Page.isReserved _ _ _ Page.isReserved_orTop,
      isReserved_congr (flags_deleteFrom s (k + 1) i x)]
  · have hor : ∀ (u : PageFrames) a,
        ((u.modifyPage a (·.orFlags pageTop)).memoryMap x).priv = (u.memoryMap x).priv :=
      fun u a => modifyPage_field Page.priv u a x fun _ => rfl
    rw [priv_addTo, priv_addTo, hj, hor, hor, priv_deleteFrom]
    by_cases hxi : x = i <;> by_cases hxj : x = j <;> simp [hxi, hxj]

theorem splitFront_lists (h : s.Spells p) {k i j : Nat}
    (hf : s.pageFrameOrder (k + 1) = some i) (hj : i ^^^ (1 <<< k) = j) (hij : i ≠ j)
    (hju : ∀ c ∈ p.free, c ≠ ⟨k + 1, i⟩ → c.start ≠ j) {t : PageFrames}
    (ht : s.splitFront k = some t) :
    t.links.Linked ∧ ∀ c, c ∈ t.freeBlocks ↔
      c = ⟨k, i⟩ ∨ c = ⟨k, j⟩ ∨ c ∈ p.free ∧ c ≠ ⟨k + 1, i⟩ := by
  have hb := head_mem_freeBlocks hf
  have hbp := h.head hf
  obtain ⟨hl1, hm1⟩ := mem_freeBlocks_deleteFrom h.linked hb
  rw [splitFront, hf] at ht
  obtain rfl := Option.some.inj ht
  rw [hj]
  have hlinks : ∀ (u : PageFrames) (a : Nat),
      (u.modifyPage a (·.orFlags pageTop)).links = u.links :=
    fun u a => links_modifyPage u a (fun _ => rfl) (fun _ => rfl)
  have hfree : ∀ (u : PageFrames) (a : Nat),
      (u.modifyPage a (·.orFlags pageTop)).freeBlocks = u.freeBlocks :=
    fun u a => freeBlocks_modifyPage u a (fun _ => rfl) (fun _ => rfl)
  have hmem : ∀ c, c ∈ (s.deleteFromPageFrameOrder (k + 1) i).freeBlocks ↔
      c ∈ p.free ∧ c ≠ ⟨k + 1, i⟩ := fun c => by rw [hm1 c, h.mem c]
  obtain ⟨hl2, hm2⟩ := mem_freeBlocks_addTo (k := k) (i := j)
    (s := ((s.deleteFromPageFrameOrder (k + 1) i).modifyPage i (·.orFlags pageTop)).modifyPage j
      (·.orFlags pageTop)) (by rw [hlinks, hlinks]; exact hl1)
    (by
      rw [hfree, hfree]
      exact fun c hc => hju c ((hmem c).mp hc).1 ((hmem c).mp hc).2)
  rw [hfree, hfree] at hm2
  obtain ⟨hl3, hm3⟩ := mem_freeBlocks_addTo (k := k) (i := i) hl2 (by
    intro c hc
    rcases (hm2 c).mp hc with rfl | hc
    · exact hij.symm
    · obtain ⟨hcp, hne⟩ := (hmem c).mp hc
      exact fun e => hne (p.eq_of_start_eq (Or.inl hcp) (Or.inl hbp) e))
  exact ⟨hl3, fun c => by rw [hm3, hm2, hmem]⟩

/-- The frames at which the halves of a free block start are the first frame of no other block. -/
theorem start_ne_halves {k i : Nat} (hb : (⟨k + 1, i⟩ : Block) ∈ p.free) {c : Block}
    (hc : c ∈ p.free ∪ p.live) (hne : c ≠ ⟨k + 1, i⟩) : c.start ≠ i ∧ c.start ≠ i + 2 ^ k := by
  have hpos : 0 < 2 ^ k := Nat.two_pow_pos k
  have hspan : i + 2 ^ k ∈ (⟨k + 1, i⟩ : Block).span := by
    rw [mem_span, size, Nat.pow_succ]
    exact ⟨Nat.le_add_right _ _, by dsimp only; omega⟩
  exact ⟨fun e => hne (p.eq_of_start_eq hc (Or.inl hb) e),
    fun e => hne (p.eq_of_mem_span hc (Or.inl hb) (e ▸ c.start_mem_span) hspan)⟩

/-- One round of the split loop splits the front block of the pool. -/
theorem Spells.splitFront (h : s.Spells p) {k i : Nat} (hf : s.pageFrameOrder (k + 1) = some i) :
    ∃ t, s.splitFront k = some t ∧ t.pageFrameOrder k = some i ∧
      t.Spells (p.split ⟨k + 1, i⟩ (h.head hf) (Nat.succ_pos k)) := by
  have hbp := h.head hf
  have hj := upper_start_eq_xor (p.free_aligned hbp)
  have hpos : 0 < 2 ^ k := Nat.two_pow_pos k
  obtain ⟨t, ht, hhead, -⟩ := splitFront_fields hf hj
  obtain ⟨hlinked, hmem⟩ := splitFront_lists h hf hj (by omega)
    (fun c hc hne => (start_ne_halves hbp (Or.inl hc) hne).2) ht
  have hlow : (⟨k + 1, i⟩ : Block).lower = ⟨k, i⟩ := rfl
  have hupp : (⟨k + 1, i⟩ : Block).upper = ⟨k, i + 2 ^ k⟩ := rfl
  refine ⟨t, ht, hhead, hlinked, fun c => ?_⟩
  rw [hmem c, Pool.split_free, hlow, hupp]
  simp only [Set.mem_union, Set.mem_sdiff, Set.mem_singleton_iff, Set.mem_insert_iff]
  tauto

/-- Both halves have the order of the halves in `priv`, the other blocks keep theirs. -/
theorem Spells.splitFront_priv (h : s.Spells p)
    (hpriv : ∀ b ∈ p.free, (s.memoryMap b.start).priv = b.order) {k i : Nat}
    (hf : s.pageFrameOrder (k + 1) = some i) {t : PageFrames} (ht : s.splitFront k = some t) :
    ∀ c ∈ (p.split ⟨k + 1, i⟩ (h.head hf) (Nat.succ_pos k)).free,
      (t.memoryMap c.start).priv = c.order := by
  have hbp := h.head hf
  obtain ⟨t', ht', -, -, -, -, -, hset⟩ :=
    splitFront_fields hf (upper_start_eq_xor (p.free_aligned hbp))
  obtain rfl : t = t' := Option.some.inj (ht.symm.trans ht')
  have hlow : (⟨k + 1, i⟩ : Block).lower = ⟨k, i⟩ := rfl
  have hupp : (⟨k + 1, i⟩ : Block).upper = ⟨k, i + 2 ^ k⟩ := rfl
  rintro c (⟨hc, hne⟩ | rfl | rfl)
  · obtain ⟨hi, hu⟩ := start_ne_halves hbp (Or.inl hc) hne
    rw [hset, if_neg (not_or.mpr ⟨hi, hu⟩), hpriv c hc]
  · simp [hset, hlow]
  · simp [hset, hupp]

theorem splitFront_spec (h : s.Represents p) {k i : Nat}
    (hf : s.pageFrameOrder (k + 1) = some i) :
    ∃ t, s.splitFront k = some t ∧ t.pageFrameOrder k = some i ∧
      t.Represents (p.split ⟨k + 1, i⟩ (h.spells.head hf) (Nat.succ_pos k)) := by
  have hbp := h.spells.head hf
  have hj := upper_start_eq_xor (p.free_aligned hbp)
  obtain ⟨t, ht, hhead, hspell⟩ := h.spells.splitFront hf
  obtain ⟨t', ht', -, htot, htop, halloc, hres, -⟩ := splitFront_fields hf hj
  obtain rfl : t = t' := Option.some.inj (ht.symm.trans ht')
  have hlow : (⟨k + 1, i⟩ : Block).lower = ⟨k, i⟩ := rfl
  have hupp : (⟨k + 1, i⟩ : Block).upper = ⟨k, i + 2 ^ k⟩ := rfl
  refine ⟨t, ht, hhead, hspell.linked, hspell.mem, h.spells.splitFront_priv h.priv hf ht, ?_, ?_, ?_⟩
  · rintro c ((⟨hc, -⟩ | rfl | rfl) | hc)
    · rw [htop, h.top c (Or.inl hc), Bool.or_true]
    · simp [htop, hlow]
    · simp [htop, hupp]
    · rw [htop, h.top c (Or.inr hc), Bool.or_true]
  · intro x hx
    rw [halloc, h.allocated x hx, Pool.split_live]
  · rw [← h.usable]
    exact usable_congr htot hres

/-- The split loop carves the block at the front of its first list down to the requested order
and leaves the lowest piece at the front. -/
theorem Spells.splitDown {k i : Nat} (above : Nat) :
    ∀ {s : PageFrames} {p : Pool R}, s.Spells p → s.pageFrameOrder (k + above) = some i →
      ∃ t, ∃ q : Pool R, splitDown above s k = some t ∧ t.pageFrameOrder k = some i ∧
        t.Spells q ∧ p.Carves ⟨k + above, i⟩ q := by
  induction above with
  | zero => exact fun {s p} h hf => ⟨s, p, rfl, hf, h, Pool.Carves.refl p⟩
  | succ above ih =>
    intro s p h hf
    obtain ⟨t, ht, hhead, hspell⟩ := h.splitFront (k := k + above) hf
    obtain ⟨u, q, hu, huhead, huspell, hcarve⟩ := ih hspell hhead
    refine ⟨u, q, ?_, huhead, huspell, hcarve.of_split (h.head hf) (Nat.succ_pos _)⟩
    rw [PageFrames.splitDown, ht]
    exact hu

theorem splitDown_spec {k i cap : Nat} (above : Nat) :
    ∀ {s : PageFrames} {p : Pool R}, s.Represents p → s.pageFrameOrder (k + above) = some i →
      CoalescedBut cap ⟨k + above, i⟩ p.free →
      ∃ t, ∃ q : Pool R, PageFrames.splitDown above s k = some t ∧ t.pageFrameOrder k = some i ∧
        t.Represents q ∧ CoalescedBut cap ⟨k, i⟩ q.free ∧ p.Carves ⟨k + above, i⟩ q := by
  induction above with
  | zero => exact fun {s p} h hf hc => ⟨s, p, rfl, hf, h, hc, Pool.Carves.refl p⟩
  | succ above ih =>
    intro s p h hf hc
    obtain ⟨t, ht, hhead, hrep⟩ := splitFront_spec (k := k + above) h hf
    obtain ⟨u, q, hu, huhead, hurep, huc, hcarve⟩ := ih hrep hhead
      (hc.split (p.free_aligned (h.spells.head hf)) (Nat.succ_pos _))
    refine ⟨u, q, ?_, huhead, hurep, huc, hcarve.of_split (h.spells.head hf) (Nat.succ_pos _)⟩
    rw [PageFrames.splitDown, ht]
    exact hu

theorem Spells.takeFront (h : s.Spells p) {k i : Nat} (hf : s.pageFrameOrder k = some i) :
    s.takeFront k = some ((s.modifyPage i (·.orFlags pageAllocated)).deleteFromPageFrameOrder k i,
      i) ∧ ((s.modifyPage i (·.orFlags pageAllocated)).deleteFromPageFrameOrder k i).Spells
        (p.take ⟨k, i⟩ (h.head hf)) := by
  have hlinks := links_modifyPage s i (f := (·.orFlags pageAllocated)) (fun _ => rfl) fun _ => rfl
  have hfree : (s.modifyPage i (·.orFlags pageAllocated)).freeBlocks = s.freeBlocks :=
    freeBlocks_modifyPage s i (fun _ => rfl) fun _ => rfl
  obtain ⟨hlinked, hmem⟩ := mem_freeBlocks_deleteFrom (b := ⟨k, i⟩)
    (s := s.modifyPage i (·.orFlags pageAllocated)) (hlinks ▸ h.linked)
    (hfree ▸ head_mem_freeBlocks hf)
  refine ⟨?_, hlinked, fun c => ?_⟩
  · rw [PageFrames.takeFront, hf]
    rfl
  · rw [hmem c, hfree, h.mem c]
    rfl

theorem takeFront_spec (h : s.Represents p) {k i : Nat} (hf : s.pageFrameOrder k = some i) :
    ∃ t, s.takeFront k = some (t, i) ∧ t.Represents (p.take ⟨k, i⟩ (h.spells.head hf)) := by
  have hbp := h.spells.head hf
  obtain ⟨ht, hspell⟩ := h.spells.takeFront hf
  have htop : ∀ x, (((s.modifyPage i (·.orFlags pageAllocated)).deleteFromPageFrameOrder k i
      ).memoryMap x).isTop = (s.memoryMap x).isTop := fun x => by
    rw [isTop_congr (flags_deleteFrom _ k i x),
      modifyPage_field Page.isTop s i x Page.isTop_orAllocated]
  refine ⟨_, ht, hspell.linked, hspell.mem, ?_, ?_, ?_, ?_⟩
  · rintro c ⟨hc, -⟩
    have hpriv : ((s.modifyPage i (·.orFlags pageAllocated)).memoryMap c.start).priv =
        (s.memoryMap c.start).priv := modifyPage_field Page.priv s i _ fun _ => rfl
    rw [priv_deleteFrom, hpriv, h.priv c hc]
  · rintro c (⟨hc, -⟩ | rfl | hc) <;> rw [htop]
    · exact h.top c (Or.inl hc)
    · exact h.top _ (Or.inl hbp)
    · exact h.top c (Or.inr hc)
  · intro x hx
    rw [isAllocated_congr (flags_deleteFrom _ k i x), Pool.take_live]
    by_cases hxi : x = i
    · subst hxi
      rw [modifyPage_self, Page.isAllocated_orAllocated]
      exact ⟨fun _ => ⟨_, Set.mem_insert _ _, rfl⟩, fun _ => rfl⟩
    · rw [modifyPage_of_ne s _ hxi, h.allocated x hx]
      constructor
      · rintro ⟨b, hb, rfl⟩
        exact ⟨b, Or.inr hb, rfl⟩
      · rintro ⟨b, rfl | hb, rfl⟩
        · exact absurd rfl hxi
        · exact ⟨b, hb, rfl⟩
  · rw [← h.usable]
    refine usable_congr (by simp) fun x => ?_
    rw [isReserved_congr (flags_deleteFrom _ k i x),
      modifyPage_field Page.isReserved s i x Page.isReserved_orAllocated]

/-- `AllocatePageFrames` finds no list with a block, or splits the front of the first one. -/
theorem allocateFrames_cases (s : PageFrames) {n : Int} (hn : 1 ≤ n) (hb : n < 2 ^ 31) :
    (s.allocateFrames n = some (s, none) ∧ ∀ d, Nat.clog 2 n.toNat ≤ d → d ≤ pageFrameMaxOrder →
      s.pageFrameOrder d = none) ∨
    ∃ d i, Nat.clog 2 n.toNat ≤ d ∧ d ≤ pageFrameMaxOrder ∧ s.pageFrameOrder d = some i ∧
      (∀ j, Nat.clog 2 n.toNat ≤ j → j < d → s.pageFrameOrder j = none) ∧
      s.allocateFrames n = (splitDown (d - Nat.clog 2 n.toNat) s (Nat.clog 2 n.toNat)).bind
        fun u => (u.takeFront (Nat.clog 2 n.toNat)).map fun r => (r.1, some r.2) := by
  have hord : ceilLog2 (toUnsigned64 n) = some (Nat.clog 2 n.toNat) := by
    rw [toUnsigned64_of_nonneg (by omega) (by omega)]
    exact ceilLog2_eq (by omega) (by omega)
  generalize Nat.clog 2 n.toNat = k at hord ⊢
  rw [allocateFrames, hord]
  simp only [Option.bind_eq_bind, Option.bind_some, Option.pure_def]
  split_ifs with hk
  · exact Or.inl ⟨rfl, fun d hkd hd => by omega⟩
  cases hfind : firstNonempty s.pageFrameOrder (pageFrameMaxOrder + 1 - k) k with
  | none => exact Or.inl ⟨rfl, fun d hkd hd => firstNonempty_none hfind d hkd (by omega)⟩
  | some d =>
    obtain ⟨hkd, hd, ⟨i, hi⟩, hmin⟩ := firstNonempty_some hfind
    refine Or.inr ⟨d, i, hkd, by omega, hi, hmin, ?_⟩
    simp only [Option.map_eq_bind]
    rfl

/-- What `AllocatePageFrames` does to the blocks in the lists. -/
theorem Spells.allocateFrames (h : s.Spells p) {n : Int} (hn : 1 ≤ n) (hb : n < 2 ^ 31) :
    (s.allocateFrames n = some (s, none) ∧
      ∀ c ∈ p.free, Nat.clog 2 n.toNat ≤ c.order → pageFrameMaxOrder < c.order) ∨
    ∃ t i d, ∃ q : Pool R, ∃ hi : (⟨Nat.clog 2 n.toNat, i⟩ : Block) ∈ q.free,
      s.allocateFrames n = some (t, some i) ∧ t.Spells (q.take _ hi) ∧
      (⟨d, i⟩ : Block) ∈ p.free ∧ d ≤ pageFrameMaxOrder ∧ p.Carves ⟨d, i⟩ q := by
  rcases allocateFrames_cases s hn hb with ⟨hfail, hnone⟩ | ⟨d, i, hkd, hd, hi, -, heq⟩
  · refine Or.inl ⟨hfail, fun c hc hkc => ?_⟩
    by_contra hle
    exact not_mem_freeBlocks (hnone c.order hkc (Nat.le_of_not_lt hle)) ((h.mem c).mpr hc)
  generalize Nat.clog 2 n.toNat = k at *
  have hkd' : k + (d - k) = d := Nat.add_sub_cancel' hkd
  obtain ⟨u, q, hu, huhead, huspell, hcarve⟩ := h.splitDown (d - k) (hkd'.symm ▸ hi)
  obtain ⟨ht, htspell⟩ := huspell.takeFront huhead
  rw [hkd'] at hcarve
  refine Or.inr ⟨_, i, d, q, huspell.head huhead, ?_, htspell, h.head hi, hd, hcarve⟩
  rw [heq, hu, Option.bind_some, ht]
  rfl

/-- What `AllocatePageFrames` does to a represented coalesced pool: it fails and changes nothing
when no free block is large enough, and else carves the smallest adequate one. -/
theorem allocateFrames_spec (h : s.Represents p) (hc : Coalesced pageFrameMaxOrder p.free)
    {n : Int} (hn : 1 ≤ n) (hb : n < 2 ^ 31) :
    (s.allocateFrames n = some (s, none) ∧
      ∀ c ∈ p.free, Nat.clog 2 n.toNat ≤ c.order → pageFrameMaxOrder < c.order) ∨
    ∃ t i d, ∃ q : Pool R, ∃ hi : (⟨Nat.clog 2 n.toNat, i⟩ : Block) ∈ q.free,
      s.allocateFrames n = some (t, some i) ∧ t.Represents (q.take _ hi) ∧
      Nat.clog 2 n.toNat ≤ d ∧ d ≤ pageFrameMaxOrder ∧ (⟨d, i⟩ : Block) ∈ p.free ∧
      (∀ c ∈ p.free, Nat.clog 2 n.toNat ≤ c.order → d ≤ c.order) ∧
      p.Carves ⟨d, i⟩ q ∧ Coalesced pageFrameMaxOrder (q.take _ hi).free := by
  have hempty : ∀ {c : Block}, c ∈ p.free → s.pageFrameOrder c.order ≠ none := fun hcp hnone =>
    not_mem_freeBlocks hnone ((h.mem _).mpr hcp)
  rcases allocateFrames_cases s hn hb with ⟨hfail, hnone⟩ | ⟨d, i, hkd, hd, hi, hmin, heq⟩
  · refine Or.inl ⟨hfail, fun c hcp hkc => ?_⟩
    by_contra hle
    exact hempty hcp (hnone c.order hkc (Nat.le_of_not_lt hle))
  generalize Nat.clog 2 n.toNat = k at *
  have hkd' : k + (d - k) = d := Nat.add_sub_cancel' hkd
  obtain ⟨u, q, hu, huhead, hurep, huc, hcarve⟩ := splitDown_spec (k := k) (d - k) h
    (hkd'.symm ▸ hi) hc.but
  obtain ⟨t, ht, htrep⟩ := takeFront_spec hurep huhead
  rw [hkd'] at hcarve
  refine Or.inr ⟨t, i, d, q, hurep.spells.head huhead, ?_, htrep, hkd, hd, h.spells.head hi,
    fun c hcp hkc => ?_, hcarve, huc.erase⟩
  · rw [heq, hu, Option.bind_some, ht]
    rfl
  · by_contra hlt
    exact hempty hcp (hmin c.order hkc (Nat.lt_of_not_le hlt))

end Amaterasu.PageFrames
