import Amaterasu.KHeap.Alloc

/-! `kmalloc` from any well-formed heap with doubly linked lists. `AddTokHeapOrder` leaves the back
link of an old front alone. In the split loop the only old front is the buddy added right before,
and the front that hides it is the block the next deletion takes out. -/

namespace Amaterasu.KHeap
open Function Block

/-- The lists and the cells tell which blocks are free, `live` which are not. -/
structure WellFormed (h : KHeap) (live : Set Block) : Prop where
  linked : h.links.Linked
  order : ∀ b ∈ h.freeBlocks, (h.kHeapBlocks b.start).order = b.order
  unallocated : ∀ b ∈ h.freeBlocks, (h.kHeapBlocks b.start).isAllocated = false
  aligned : ∀ b ∈ h.freeBlocks, 2 ^ b.order ∣ b.start
  id : ∀ x < kHeapBlockNum, (h.kHeapBlocks x).id = x
  disjoint : (h.freeBlocks ∪ live).PairwiseDisjoint Block.span
  separate : Disjoint h.freeBlocks live
  covers : ∀ x, x < kHeapBlockNum ↔ ∃ b ∈ h.freeBlocks ∪ live, x ∈ b.span
  allocated : ∀ x < kHeapBlockNum,
    (h.kHeapBlocks x).isAllocated = true ↔ ∃ b ∈ live, b.start = x

def freeCells (h : KHeap) : Set Nat := {x | ∃ b ∈ h.freeBlocks, x ∈ b.span}

/-- The block `b` was carved out of a free block of the smallest adequate order. -/
structure Grants (h t : KHeap) (live : Set Block) (b : Block) : Prop where
  aligned : 2 ^ b.order ∣ b.start
  source : ∃ c ∈ h.freeBlocks, b.span ⊆ c.span ∧ b.order ≤ c.order ∧
    ∀ d, b.order ≤ d → d < c.order → h.kHeapOrder d = none
  wellFormed : t.WellFormed (insert b live)
  start : t.kHeapStart = h.kHeapStart
  freeCells : t.freeCells = h.freeCells \ b.span

variable {R : Set Nat} {h e t : KHeap} {p q : Pool R} {b : Block}

/-! ## The front taken out -/

theorem addTo_self (h : KHeap) (k i : Nat) :
    (h.addTokHeapOrder k i).kHeapBlocks i = (h.kHeapBlocks i).enlist k (h.kHeapOrder k) :=
  modifyBlock_self h i (·.enlist k (h.kHeapOrder k))

theorem addTo_of_ne (h : KHeap) (k : Nat) {i j : Nat} (hj : j ≠ i) :
    (h.addTokHeapOrder k i).kHeapBlocks j = h.kHeapBlocks j :=
  modifyBlock_of_ne h (·.enlist k (h.kHeapOrder k)) hj

/-- Adding a cleared block to a list and deleting it again changes nothing. -/
theorem deleteFrom_addTo {k i : Nat} (hi : (e.kHeapBlocks i).clear = e.kHeapBlocks i)
    (hhead : ∀ y, e.kHeapOrder k = some y → y ≠ i ∧ (e.kHeapBlocks y).prev = none) :
    (e.addTokHeapOrder k i).deleteFromkHeapOrder k i = e := by
  have hself := addTo_self e k i
  have hother : ∀ j ≠ i, (e.addTokHeapOrder k i).kHeapBlocks j = e.kHeapBlocks j :=
    fun j hj => addTo_of_ne e k hj
  have horder : update (e.addTokHeapOrder k i).kHeapOrder k (e.kHeapOrder k) = e.kHeapOrder := by
    rw [addTokHeapOrder, setOrder, update_idem]
    exact update_eq_self k e.kHeapOrder
  have hclear : ((e.kHeapBlocks i).enlist k (e.kHeapOrder k)).clear = e.kHeapBlocks i := hi
  have hprev : ((e.addTokHeapOrder k i).kHeapBlocks i).prev = none := by rw [hself]; rfl
  have hnext : ((e.addTokHeapOrder k i).kHeapBlocks i).next = e.kHeapOrder k := by rw [hself]; rfl
  unfold deleteFromkHeapOrder
  rw [hprev, hnext]
  cases hfront : e.kHeapOrder k with
  | none =>
    rw [hfront] at horder
    dsimp only [modifyBlock, setOrder]
    congr 1
    funext j
    by_cases hj : j = i
    · rw [hj, update_self, hself, hclear]
    · rw [update_of_ne hj, hother j hj]
  | some y =>
    obtain ⟨hy, hyp⟩ := hhead y hfront
    rw [hfront] at horder
    dsimp only [modifyBlock, setOrder]
    congr 1
    funext j
    by_cases hj : j = i
    · rw [hj, update_self, update_of_ne hy.symm, hself, hclear]
    · rw [update_of_ne hj]
      by_cases hjy : j = y
      · rw [hjy, update_self, hother y hy, KHeapBlock.setPrev, ← hyp]
      · rw [update_of_ne hjy, hother j hj]

/-- `e` is `h` with the lists of the pool `p`, but without the block `b` that is being split. -/
structure Detached (h e : KHeap) (p : Pool R) (b : Block) : Prop where
  front : b ∈ p.free
  linked : e.links.Linked
  mem : ∀ c, c ∈ e.freeBlocks ↔ c ∈ p.free ∧ c ≠ b
  order : ∀ c ∈ p.free, c ≠ b → (e.kHeapBlocks c.start).order = c.order
  cleared : (e.kHeapBlocks b.start).clear = e.kHeapBlocks b.start
  unallocated : ∀ x ∈ b.span, (h.kHeapBlocks x).isAllocated = false
  allocated : ∀ x, (e.kHeapBlocks x).isAllocated = (h.kHeapBlocks x).isAllocated
  id : ∀ x, (e.kHeapBlocks x).id = (h.kHeapBlocks x).id
  start : e.kHeapStart = h.kHeapStart

theorem mem_span_upper {k i : Nat} : i + 2 ^ k ∈ (⟨k + 1, i⟩ : Block).span := by
  have := Nat.two_pow_pos k
  rw [mem_span, size, Nat.pow_succ]
  exact ⟨Nat.le_add_right _ _, by dsimp only; omega⟩

/-- The upper half of the detached block enters its empty list. -/
theorem Detached.split {k i : Nat} (hd : Detached h e p ⟨k + 1, i⟩)
    (hempty : e.kHeapOrder k = none) :
    Detached h (e.addTokHeapOrder k (i + 2 ^ k)) (p.split ⟨k + 1, i⟩ hd.front (Nat.succ_pos k))
      ⟨k, i⟩ := by
  have hpos : 0 < 2 ^ k := Nat.two_pow_pos k
  have hlow : (⟨k + 1, i⟩ : Block).lower = ⟨k, i⟩ := rfl
  have hupp : (⟨k + 1, i⟩ : Block).upper = ⟨k, i + 2 ^ k⟩ := rfl
  have hother : ∀ c ∈ p.free, c ≠ ⟨k + 1, i⟩ → c.start ≠ i + 2 ^ k := fun c hc hne e =>
    hne (p.eq_of_mem_span (Or.inl hc) (Or.inl hd.front) (e ▸ c.start_mem_span) mem_span_upper)
  have hstart : ∀ c ∈ p.free, c ≠ ⟨k + 1, i⟩ → c ≠ ⟨k, i⟩ := fun c hc hne e =>
    hne (p.eq_of_start_eq (Or.inl hc) (Or.inl hd.front) (by rw [e]))
  have hpush : (e.addTokHeapOrder k (i + 2 ^ k)).links = e.links.push k (i + 2 ^ k) := by
    have hhead : e.links.head k = none := hempty
    rw [links_addTo, Links.pushForward, Links.push, hhead]
  obtain ⟨hlinked, hmem⟩ := hd.linked.push (k := k) (x := i + 2 ^ k) fun j hj => by
    obtain ⟨hc, hne⟩ := (hd.mem ⟨j, i + 2 ^ k⟩).mp hj
    exact hother _ hc hne rfl
  rw [← hpush] at hlinked hmem
  have hfree : ∀ c, c ∈ (e.addTokHeapOrder k (i + 2 ^ k)).freeBlocks ↔
      c = ⟨k, i + 2 ^ k⟩ ∨ c ∈ p.free ∧ c ≠ ⟨k + 1, i⟩ := fun c => by
    rw [← hd.mem c]
    cases c
    simpa [freeBlocks] using hmem _ _
  refine ⟨Or.inr (Or.inl rfl), hlinked, fun c => ?_, fun c hc hne => ?_, ?_, fun x hx => ?_,
    fun x => ?_, fun x => ?_, hd.start⟩
  · rw [hfree, Pool.split_free, hlow, hupp]
    constructor
    · rintro (rfl | ⟨hc, hne⟩)
      · refine ⟨Or.inr (Or.inr rfl), fun e => ?_⟩
        have hstart := congrArg Block.start e
        dsimp at hstart
        omega
      · exact ⟨Or.inl ⟨hc, hne⟩, hstart c hc hne⟩
    · rintro ⟨⟨hc, hne⟩ | rfl | rfl, hnl⟩
      · exact Or.inr ⟨hc, hne⟩
      · exact absurd rfl hnl
      · exact Or.inl rfl
  · rw [order_addTo]
    rcases hc with ⟨hc, hcb⟩ | rfl | rfl
    · rw [if_neg (hother c hc hcb), hd.order c hc hcb]
    · exact absurd rfl hne
    · exact if_pos rfl
  · dsimp only
    rw [addTo_of_ne e k (Nat.lt_add_of_pos_right hpos).ne, hd.cleared]
  · refine hd.unallocated x ?_
    rw [mem_span, size] at hx ⊢
    rw [Nat.pow_succ]
    dsimp only at hx ⊢
    omega
  · rw [isAllocated_addTo]
    split_ifs with hx
    · rw [hx, hd.unallocated _ mem_span_upper]
    · exact hd.allocated x
  · rw [id_addTo, hd.id]

/-- The split loop, seen with the front block taken out. -/
theorem Detached.splitDown {k i : Nat} (hR : R ⊆ Set.Iio kHeapBlockNum) (above : Nat) :
    ∀ {u e : KHeap} {p : Pool R}, Detached h e p ⟨k + above, i⟩ →
      u.kHeapOrder (k + above) = some i → u.deleteFromkHeapOrder (k + above) i = e →
      (u.kHeapBlocks i).id = i → (∀ j, k ≤ j → j < k + above → e.kHeapOrder j = none) →
      ∃ v f, ∃ q : Pool R, KHeap.splitDown above u k = some v ∧ v.kHeapOrder k = some i ∧
        v.deleteFromkHeapOrder k i = f ∧ (v.kHeapBlocks i).id = i ∧ Detached h f q ⟨k, i⟩ ∧
        p.Carves ⟨k + above, i⟩ q := by
  induction above with
  | zero =>
    exact fun {u e p} hd hu he hid _ =>
      ⟨u, e, p, rfl, hu, he, hid, hd, Pool.Carves.refl p⟩
  | succ above ih =>
    intro u e p hd hu he hid hempty
    have hpos := Nat.two_pow_pos (k + above)
    have hcell : i + 2 ^ (k + above) < 16 :=
      hR (p.span_subset (Or.inl hd.front) mem_span_upper)
    have hlt : k + above < 64 := by
      have := Nat.lt_two_pow_self (n := k + above)
      omega
    have hmod : (i + 2 ^ (k + above)) % 2 ^ 32 = i + 2 ^ (k + above) := Nat.mod_eq_of_lt (by omega)
    have hsplit : Detached h (e.addTokHeapOrder (k + above) (i + 2 ^ (k + above))) _
        ⟨k + above, i⟩ := hd.split (hempty (k + above) (by omega) (by omega))
    have heq : u.splitFront (k + above) = some ((e.addTokHeapOrder (k + above)
        (i + 2 ^ (k + above))).addTokHeapOrder (k + above) i) := by
      have hu' : u.kHeapOrder (k + above + 1) = some i := hu
      rw [splitFront, hu']
      simp only [Option.bind_eq_bind, Option.bind_some, Option.pure_def, hid, pow_two_eq hlt, hmod]
      rw [← he]
      rfl
    have hback := deleteFrom_addTo (k := k + above) hsplit.cleared fun y hy => by
      rw [head_addTo] at hy
      obtain rfl := Option.some.inj hy
      refine ⟨by dsimp only; omega, ?_⟩
      rw [addTo_self]
      rfl
    have hid' : (((e.addTokHeapOrder (k + above) (i + 2 ^ (k + above))).addTokHeapOrder
        (k + above) i).kHeapBlocks i).id = i := by
      rw [id_addTo, id_addTo, ← he, id_deleteFrom, hid]
    obtain ⟨v, f, q, hv, hvhead, hvf, hvid, hdet, hcarve⟩ := ih hsplit (head_addTo _ _ _) hback
      hid' fun j hkj hj => by
        rw [order_list_addTo _ _ (by omega)]
        exact hempty j hkj (by omega)
    refine ⟨v, f, q, ?_, hvhead, hvf, hvid, hdet, hcarve.of_split hd.front (Nat.succ_pos _)⟩
    rw [KHeap.splitDown, heq]
    exact hv

/-! ## Well-formed heaps -/

variable {live : Set Block}

/-- The free blocks as a pool of their own cells. -/
def WellFormed.pool (hw : h.WellFormed live) : Pool h.freeCells :=
  Pool.ofFree h.freeBlocks hw.aligned (hw.disjoint.subset Set.subset_union_left)

theorem WellFormed.freeCells_lt (hw : h.WellFormed live) :
    h.freeCells ⊆ Set.Iio kHeapBlockNum :=
  fun x hx => (hw.covers x).mpr (hx.imp fun _ hb => ⟨Or.inl hb.1, hb.2⟩)

theorem WellFormed.disjoint_live (hw : h.WellFormed live) {c : Block} (hc : c ∈ live) {x : Nat}
    (hx : x ∈ h.freeCells) : x ∉ c.span := by
  obtain ⟨d, hd, hxd⟩ := hx
  have hne : d ≠ c := fun e => Set.disjoint_left.mp hw.separate hd (e ▸ hc)
  exact Set.disjoint_left.mp (hw.disjoint (Or.inl hd) (Or.inr hc) hne) hxd

theorem WellFormed.unallocated_span (hw : h.WellFormed live) (hb : b ∈ h.freeBlocks) {x : Nat}
    (hx : x ∈ b.span) : (h.kHeapBlocks x).isAllocated = false := by
  have hcell : x ∈ h.freeCells := ⟨b, hb, hx⟩
  rw [← Bool.not_eq_true, hw.allocated x (hw.freeCells_lt hcell)]
  rintro ⟨c, hc, rfl⟩
  exact hw.disjoint_live hc hcell c.start_mem_span

/-- Taking the front of a list out of a well-formed heap. -/
theorem WellFormed.detached (hw : h.WellFormed live) (hb : b ∈ h.freeBlocks) :
    Detached h (h.deleteFromkHeapOrder b.order b.start) hw.pool b := by
  obtain ⟨hlinked, hmem⟩ := hw.linked.remove hb
  rw [← links_deleteFrom] at hlinked hmem
  have hother : ∀ c ∈ h.freeBlocks, c ≠ b → c.start ≠ b.start := fun c hc hne e =>
    hne (hw.pool.eq_of_start_eq (Or.inl hc) (Or.inl hb) e)
  refine ⟨hb, hlinked, fun c => ?_, fun c hc hne => ?_, ?_, fun x hx => hw.unallocated_span hb hx,
    fun x => ?_, fun x => id_deleteFrom h _ _ x, start_deleteFrom h _ _⟩
  · have hfree : c ∈ hw.pool.free ↔ c ∈ h.freeBlocks := Iff.rfl
    have := hmem c.order c.start
    rw [hfree]
    cases b
    cases c
    simpa [freeBlocks] using this
  · rw [order_deleteFrom, if_neg (hother c hc hne), hw.order c hc]
  · unfold deleteFromkHeapOrder
    rw [modifyBlock_self]
    rfl
  · rw [isAllocated_deleteFrom]
    split_ifs with hx
    · rw [hx, hw.unallocated b hb]
    · rfl

/-- The taken block of a carved pool becomes live. -/
theorem WellFormed.taken (hw : h.WellFormed live) {f : KHeap} {q : Pool h.freeCells}
    (hlive : q.live = ∅) (hd : Detached h f q b) :
    (f.modifyBlock b.start (·.allocate b.order)).WellFormed (insert b live) ∧
      (f.modifyBlock b.start (·.allocate b.order)).freeCells = h.freeCells \ b.span := by
  have hlinks := links_modifyBlock f b.start (f := (·.allocate b.order)) (fun _ => rfl) fun _ => rfl
  have hmem : ∀ c, c ∈ (f.modifyBlock b.start (·.allocate b.order)).freeBlocks ↔
      c ∈ q.free ∧ c ≠ b := fun c => by
    rw [freeBlocks, hlinks]
    exact hd.mem c
  have hR : ∀ c ∈ q.free, c.span ⊆ h.freeCells := fun c hc => q.span_subset (Or.inl hc)
  have hout : ∀ c ∈ live, Disjoint h.freeCells c.span := fun c hc =>
    Set.disjoint_left.mpr fun x hx => hw.disjoint_live hc hx
  have hall : ∀ c, c ∈ (f.modifyBlock b.start (·.allocate b.order)).freeBlocks ∪ insert b live ↔
      c ∈ q.free ∨ c ∈ live := Pool.mem_taken hd.front hmem
  have hstart : ∀ c ∈ q.free, c ≠ b → c.start ≠ b.start := fun c hc hne e =>
    hne (q.eq_of_start_eq (Or.inl hc) (Or.inl hd.front) e)
  have hself : (f.modifyBlock b.start (·.allocate b.order)).kHeapBlocks b.start =
      (f.kHeapBlocks b.start).allocate b.order := modifyBlock_self f _ _
  have hother : ∀ x ≠ b.start, (f.modifyBlock b.start (·.allocate b.order)).kHeapBlocks x =
      f.kHeapBlocks x := fun x hx => modifyBlock_of_ne f _ hx
  refine ⟨⟨hlinks ▸ hd.linked, fun c hc => ?_, fun c hc => ?_, fun c hc => ?_, fun x hx => ?_,
    Pool.taken_disjoint hd.front hmem hout (hw.disjoint.subset Set.subset_union_right),
    Pool.taken_separate hmem hout, fun x => ?_, fun x hx => ?_⟩,
    Pool.taken_region hlive hd.front hmem⟩
  · obtain ⟨hcq, hne⟩ := (hmem c).mp hc
    rw [hother _ (hstart c hcq hne), hd.order c hcq hne]
  · obtain ⟨hcq, hne⟩ := (hmem c).mp hc
    obtain ⟨d, hd', hxd⟩ := hR c hcq c.start_mem_span
    rw [hother _ (hstart c hcq hne), hd.allocated, hw.unallocated_span hd' hxd]
  · exact q.free_aligned ((hmem c).mp hc).1
  · have hid := modifyBlock_field KHeapBlock.id f b.start x (f := (·.allocate b.order))
      fun _ => rfl
    rw [hid, hd.id, hw.id x hx]
  · rw [hw.covers x]
    constructor
    · rintro ⟨c, hc | hc, hxc⟩
      · obtain ⟨d, hd', hxd⟩ := Pool.exists_free_of_mem hlive ⟨c, hc, hxc⟩
        exact ⟨d, (hall d).mpr (Or.inl hd'), hxd⟩
      · exact ⟨c, (hall c).mpr (Or.inr hc), hxc⟩
    · rintro ⟨c, hc, hxc⟩
      rcases (hall c).mp hc with hc | hc
      · obtain ⟨d, hd', hxd⟩ := hR c hc hxc
        exact ⟨d, Or.inl hd', hxd⟩
      · exact ⟨c, Or.inr hc, hxc⟩
  · by_cases hxb : x = b.start
    · subst hxb
      rw [hself]
      exact ⟨fun _ => ⟨b, Or.inl rfl, rfl⟩, fun _ => rfl⟩
    · rw [hother x hxb, hd.allocated, hw.allocated x hx]
      constructor
      · rintro ⟨c, hc, rfl⟩
        exact ⟨c, Or.inr hc, rfl⟩
      · rintro ⟨c, rfl | hc, rfl⟩
        · exact absurd rfl hxb
        · exact ⟨c, hc, rfl⟩

theorem takeFront_eq {v : KHeap} {k i : Nat} (hv : v.kHeapOrder k = some i)
    (hid : (v.kHeapBlocks i).id = i) : v.takeFront k =
      some ((v.deleteFromkHeapOrder k i).modifyBlock i (·.allocate k),
        (v.kHeapStart + kHeapBlockSize * i) % 2 ^ 64) := by
  rw [takeFront, hv]
  simp only [Option.bind_eq_bind, Option.bind_some, Option.pure_def, hid, modifyBlock_start,
    start_deleteFrom]

/-- A request of at most the heap carves its block out of the smallest adequate free block. Any
other fails without a trace. -/
theorem kmalloc_grants (hw : h.WellFormed live) {size k : Nat} (hs : 1 ≤ size)
    (hk : IsLeast {k | size ≤ kHeapBlockSize * 2 ^ k} k) :
    ((size ≤ kHeapHeapSize ∧ ∃ d, k ≤ d ∧ d ≤ kHeapMaxOrder ∧ h.kHeapOrder d ≠ none) →
      ∃ t id, h.kmalloc size = some (t, (h.kHeapStart + kHeapBlockSize * id) % 2 ^ 64) ∧
        Grants h t live ⟨k, id⟩) ∧
    (¬(size ≤ kHeapHeapSize ∧ ∃ d, k ≤ d ∧ d ≤ kHeapMaxOrder ∧ h.kHeapOrder d ≠ none) →
      h.kmalloc size = some (h, 0)) := by
  rcases Nat.lt_or_ge kHeapHeapSize size with hbig | hle
  · refine ⟨fun hc => absurd hc.1 (Nat.not_le.mpr hbig), fun _ => ?_⟩
    rw [kmalloc, if_pos hbig]
  have hnum : blockNumber size < 2 ^ 64 := blockNumber_lt (hle.trans_lt (by decide))
  have hord : ceilLog2 (blockNumber size) = some k := by
    have hset : {k | size ≤ kHeapBlockSize * 2 ^ k} = {k | blockNumber size ≤ 2 ^ k} :=
      Set.ext fun _ => blockNumber_le_iff.symm
    rw [ceilLog2_eq (blockNumber_pos hs) hnum, (clog_isLeast _).unique (hset ▸ hk)]
  rw [kmalloc, if_neg (Nat.not_lt.mpr hle)]
  simp only [hord, Option.bind_eq_bind, Option.bind_some, Option.pure_def]
  cases hfind : firstNonempty h.kHeapOrder (kHeapMaxOrder + 1 - k) k with
  | none =>
    refine ⟨?_, fun _ => rfl⟩
    rintro ⟨-, d, hkd, hd, hne⟩
    exact absurd (firstNonempty_none hfind d hkd (by omega)) hne
  | some d =>
    obtain ⟨hkd, hd, ⟨i, hi⟩, hmin⟩ := firstNonempty_some hfind
    refine ⟨fun _ => ?_, fun hno => absurd ⟨hle, d, hkd, by omega, by rw [hi]; simp⟩ hno⟩
    have hkd' : k + (d - k) = d := Nat.add_sub_cancel' hkd
    have hfront : (⟨d, i⟩ : Block) ∈ h.freeBlocks := Links.head_mem (l := h.links) hi
    have hcell : i < kHeapBlockNum := hw.freeCells_lt ⟨_, hfront, start_mem_span ⟨d, i⟩⟩
    obtain ⟨v, f, q, hv, hvhead, rfl, hvid, hdet, hcarve⟩ :=
      Detached.splitDown (k := k) (i := i) hw.freeCells_lt (d - k)
        (u := h) (hkd'.symm ▸ hw.detached hfront) (hkd'.symm ▸ hi) rfl (hw.id i hcell)
        fun j hkj hj => by
          rw [hkd'] at hj ⊢
          rw [order_list_deleteFrom _ _ hj.ne]
          exact hmin j hkj hj
    rw [hkd'] at hcarve
    have hvstart : v.kHeapStart = h.kHeapStart := by rw [← hdet.start, start_deleteFrom]
    obtain ⟨hwf, hcells⟩ := hw.taken hcarve.live hdet
    refine ⟨_, i, ?_, q.free_aligned hdet.front, ⟨⟨d, i⟩, hfront, ?_, hkd, hmin⟩, hwf, hdet.start,
      hcells⟩
    · dsimp only
      rw [hv, Option.bind_some, takeFront_eq hvhead hvid, hvstart]
    · exact span_subset_of_mem (q.free_aligned hdet.front) (hw.aligned _ hfront) hkd
        (start_mem_span ⟨k, i⟩) (start_mem_span ⟨d, i⟩)

theorem kHeapInit_wellFormed (start : Nat) : (kHeapInit start).WellFormed ∅ := by
  have hholds : (kHeapInit start).links.Holds fun k => if k = kHeapMaxOrder then [0] else [] := by
    refine ⟨⟨fun k => ?_, fun j k x hj hk => ?_⟩, fun k => ?_, fun k => ?_⟩
    · split_ifs <;> simp
    · split_ifs at hj hk <;> simp_all
    · by_cases hk : k = kHeapMaxOrder <;> simp [Links.Path, links, kHeapInit, hk]
    · by_cases hk : k = kHeapMaxOrder <;> simp [Links.Back, links, kHeapInit, hk]
  have hfree : (kHeapInit start).freeBlocks = {⟨4, 0⟩} := by
    ext b
    have hmem : b ∈ (kHeapInit start).freeBlocks ↔
        b.start ∈ if b.order = kHeapMaxOrder then [0] else [] := hholds.mem_iff
    rw [hmem, Set.mem_singleton_iff]
    cases b
    split_ifs <;> simp_all [kHeapMaxOrder]
  have hspan : ∀ x, x ∈ (⟨4, 0⟩ : Block).span ↔ x < kHeapBlockNum := fun x => by
    rw [mem_span]
    exact ⟨fun hx => hx.2, fun hx => ⟨Nat.zero_le x, hx⟩⟩
  refine ⟨⟨_, hholds⟩, ?_, fun _ _ => rfl, ?_, fun _ _ => rfl, ?_, Set.disjoint_empty _,
    fun x => ?_, fun x _ => ?_⟩
  · rw [hfree]
    rintro b rfl
    rfl
  · rw [hfree]
    rintro b rfl
    exact dvd_zero _
  · rw [hfree, Set.union_empty]
    exact Set.pairwiseDisjoint_singleton _ _
  · rw [hfree, Set.union_empty, ← hspan x]
    constructor
    · intro hx
      exact ⟨_, rfl, hx⟩
    · rintro ⟨b, rfl, hx⟩
      exact hx
  · constructor
    · intro hx
      cases hx
    · rintro ⟨b, hb, -⟩
      exact absurd hb (Set.notMem_empty b)

theorem kmalloc_grants_cell : ∃ t id, (kHeapInit 0x100000).kmalloc 24 =
    some (t, ((kHeapInit 0x100000).kHeapStart + kHeapBlockSize * id) % 2 ^ 64) ∧
      Grants (kHeapInit 0x100000) t ∅ ⟨0, id⟩ :=
  (kmalloc_grants (kHeapInit_wellFormed 0x100000) (by decide : 1 ≤ 24)
    (⟨by decide, fun _ _ => Nat.zero_le _⟩ : IsLeast {k | 24 ≤ kHeapBlockSize * 2 ^ k} 0)).1
    ⟨by decide, 4, by decide, by decide, by decide⟩

end Amaterasu.KHeap
