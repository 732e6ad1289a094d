import Amaterasu.KHeap.Free
import Amaterasu.Library.Runs

/-! Runs of the kernel heap: any order of `kmalloc` and `kfree` from `kHeapInit`. The live
allocations are recorded beside the globals, each with the order `kmalloc` left in its first
cell. A `kfree` frees an allocation when it passes both early returns. -/

namespace Amaterasu
open Block Runs

structure Allocation where
  address : Nat
  order : Nat
  size : Nat
deriving DecidableEq, Repr

/-- The bytes of the cells of an allocation. -/
def Allocation.bytes (a : Allocation) : Set Nat :=
  Set.Ico a.address (a.address + kHeapBlockSize * 2 ^ a.order)

/-- The globals, and the allocations that were returned and not freed. -/
structure HeapSystem where
  heap : KHeap
  live : List Allocation

inductive HeapRequest
  | kmalloc (size : Nat)
  | kfree (addr : Nat)

namespace HeapSystem

def boot (start : Nat) : HeapSystem := ⟨KHeap.kHeapInit start, []⟩

def cell (s : HeapSystem) (addr : Nat) : Nat := (addr - s.heap.kHeapStart) / kHeapBlockSize

/-- The cells of an allocation. -/
def block (s : HeapSystem) (a : Allocation) : Block := ⟨a.order, s.cell a.address⟩

/-- Records the result of a `kmalloc`. -/
def record (size : Nat) (live : List Allocation) (h : KHeap) (addr : Nat) : HeapSystem :=
  let s : HeapSystem := ⟨h, live⟩
  if addr = 0 then s else { s with live := ⟨addr, (h.kHeapBlocks (s.cell addr)).order, size⟩ :: live }

def step (s : HeapSystem) : HeapRequest → Option HeapSystem
  | .kmalloc size => (s.heap.kmalloc size).map fun r => record size s.live r.1 r.2
  | .kfree addr => some ⟨s.heap.kfree addr, match s.heap.freedCell addr with
    | none => s.live
    | some id => s.live.filter (s.cell ·.address ≠ id)⟩

/-- `kmalloc` of a positive `unsigned int`, `kfree` of any address. -/
def Admissible (_ : HeapSystem) : HeapRequest → Prop
  | .kmalloc size => 1 ≤ size ∧ size < 2 ^ 32
  | .kfree addr => addr < 2 ^ 64

/-- A `kfree` that frees merges only with free blocks. -/
def Clean (s : HeapSystem) : HeapRequest → Prop
  | .kmalloc size => s.Admissible (.kmalloc size)
  | .kfree addr => s.Admissible (.kfree addr) ∧ ∀ id ∈ s.heap.freedCell addr,
    s.heap.MergesFree ⟨(s.heap.kHeapBlocks id).order, id⟩

/-- `kfree` of the start of a live allocation. -/
def Disciplined (s : HeapSystem) : HeapRequest → Prop
  | .kmalloc size => s.Admissible (.kmalloc size)
  | .kfree addr => ∃ a ∈ s.live, a.address = addr

/-- Such a `kfree` that merges only with blocks at the front of their lists. -/
def Frontal (s : HeapSystem) : HeapRequest → Prop
  | .kmalloc size => s.Admissible (.kmalloc size)
  | .kfree addr => s.Disciplined (.kfree addr) ∧ ∀ id ∈ s.heap.freedCell addr,
    s.heap.MergesFront ⟨(s.heap.kHeapBlocks id).order, id⟩

/-! ## The pool behind a state -/

variable {R : Set Nat} {start : Nat} {s : HeapSystem} {p : Pool R}

/-- The state stands for the pool `p` over cells of the heap at `start`. -/
structure Tracks (start : Nat) (s : HeapSystem) (p : Pool R) : Prop where
  represents : s.heap.Represents p
  start_eq : s.heap.kHeapStart = start
  live : ∀ b, b ∈ p.live ↔ ∃ a ∈ s.live, s.block a = b
  address : ∀ a ∈ s.live, a.address = start + kHeapBlockSize * s.cell a.address
  size : ∀ a ∈ s.live, a.size ≤ kHeapBlockSize * 2 ^ a.order
  nodup : s.live.Pairwise fun a b => s.block a ≠ s.block b

theorem whole_mem_maximal : (⟨4, 0⟩ : Block) ∈ maximal kHeapMaxOrder (Set.Iio kHeapBlockNum) :=
  ⟨dvd_zero _, le_rfl, fun _ hx => (mem_span.mp hx).2, fun h => absurd h (by decide)⟩

theorem maximal_eq : maximal kHeapMaxOrder (Set.Iio kHeapBlockNum) = {⟨4, 0⟩} := by
  ext b
  constructor
  · intro hb
    have hlt : b.start < 16 := hb.2.2.1 b.start_mem_span
    exact eq_of_mem_maximal hb whole_mem_maximal b.start_mem_span
      (mem_span.mpr ⟨Nat.zero_le _, by rw [size]; dsimp only; omega⟩)
  · rintro rfl
    exact whole_mem_maximal

theorem kHeapInit_holds (start : Nat) : (KHeap.kHeapInit start).links.HoldsForward
    fun k => if k = kHeapMaxOrder then [0] else [] where
  nodup k := by split_ifs <;> simp
  apart j k x hj hk := by
    split_ifs at hj hk with h1 h2
    · rw [h1, h2]
    all_goals simp_all
  path k := by
    by_cases hk : k = kHeapMaxOrder
    · subst hk
      exact ⟨rfl, rfl⟩
    · simp only [if_neg hk]
      exact if_neg hk
  prev x := rfl

theorem kHeapInit_represents (start : Nat) :
    (KHeap.kHeapInit start).Represents (Pool.canonical kHeapMaxOrder (Set.Iio kHeapBlockNum)) := by
  refine ⟨subset_rfl, ⟨_, kHeapInit_holds start⟩, fun b => ?_, fun b hb => ?_, fun x => ?_,
    fun x => rfl⟩
  · rw [Pool.canonical_free, maximal_eq, Set.mem_singleton_iff]
    refine (kHeapInit_holds start).mem_iff.trans ?_
    cases b
    split_ifs with hk <;> simp_all [kHeapMaxOrder]
  · rw [Pool.canonical_free, Pool.canonical_live, Set.union_empty, maximal_eq] at hb
    obtain rfl := hb
    rfl
  · simp [KHeap.kHeapInit]

theorem boot_tracks (start : Nat) :
    (boot start).Tracks start (Pool.canonical kHeapMaxOrder (Set.Iio kHeapBlockNum)) where
  represents := kHeapInit_represents start
  start_eq := rfl
  live b := by simp [boot]
  address a ha := absurd ha List.not_mem_nil
  size a ha := absurd ha List.not_mem_nil
  nodup := List.Pairwise.nil

/-- `kmalloc` fails and changes nothing, or records one more live allocation, off the smallest free
block that has room. -/
theorem Tracks.kmalloc_cases (h : s.Tracks start p) (hpage : 2 ^ 12 ∣ start) (h0 : 0 < start)
    (h64 : start < 2 ^ 64) {n : Nat} (hn : 1 ≤ n) (hb : n < 2 ^ 32) :
    (s.heap.kmalloc n = some (s.heap, 0) ∧
      (n ≤ kHeapHeapSize → ∀ b ∈ p.free, b.order < KHeap.requestOrder n)) ∨
    ∃ t addr, ∃ q : Pool R, s.heap.kmalloc n = some (t, addr) ∧ addr ≠ 0 ∧
      s.step (.kmalloc n) = some ⟨t, ⟨addr, KHeap.requestOrder n, n⟩ :: s.live⟩ ∧
      Tracks start ⟨t, ⟨addr, KHeap.requestOrder n, n⟩ :: s.live⟩ q ∧
      (∀ cap, Coalesced cap p.free → Coalesced cap q.free) ∧
      p.Allots ⟨KHeap.requestOrder n, s.cell addr⟩ q := by
  rcases KHeap.kmalloc_spec h.represents hn hb with
    hfail | ⟨t, i, q, hi, ht, hstart, hrep, hlive, hcoal, hallots⟩
  · exact Or.inl hfail
  have hi16 : i < 16 := hrep.start_lt (b := ⟨KHeap.requestOrder n, i⟩) (Or.inr (Or.inl rfl))
  have haddr : (s.heap.kHeapStart + kHeapBlockSize * i) % 2 ^ 64 = start + kHeapBlockSize * i := by
    rw [h.start_eq]
    refine Nat.mod_eq_of_lt ?_
    unfold kHeapBlockSize
    omega
  have hnz : start + kHeapBlockSize * i ≠ 0 := by omega
  have hcell : ∀ live addr, (⟨t, live⟩ : HeapSystem).cell addr = s.cell addr :=
    fun live addr => by rw [cell, cell, hstart]
  have hnew : s.cell (start + kHeapBlockSize * i) = i := by
    rw [cell, h.start_eq, Nat.add_sub_cancel_left, Nat.mul_div_cancel_left _ (by decide)]
  have horder : (t.kHeapBlocks i).order = KHeap.requestOrder n :=
    hrep.order ⟨KHeap.requestOrder n, i⟩ (Or.inr (Or.inl rfl))
  have hstep : s.step (.kmalloc n) =
      some ⟨t, ⟨start + kHeapBlockSize * i, KHeap.requestOrder n, n⟩ :: s.live⟩ := by
    rw [step, ht, Option.map_some, haddr, record, if_neg hnz, hcell, hnew, horder]
  have hblock : ∀ live (a : Allocation), (⟨t, live⟩ : HeapSystem).block a = s.block a :=
    fun live a => by rw [block, block, hcell]
  have hblocknew : s.block ⟨start + kHeapBlockSize * i, KHeap.requestOrder n, n⟩ =
      ⟨KHeap.requestOrder n, i⟩ := by rw [block, hnew]
  rw [haddr] at ht
  refine Or.inr ⟨t, _, q.take _ hi, ht, hnz, hstep,
    ⟨hrep, hstart.trans h.start_eq, fun b => ?_, ?_, ?_, ?_⟩, hcoal, by rw [hnew]; exact hallots⟩
  · rw [Pool.take_live, Set.mem_insert_iff, hlive, h.live]
    simp only [List.mem_cons, exists_eq_or_imp, hblock, hblocknew, eq_comm]
  · rintro a (_ | ⟨_, ha⟩) <;> rw [hcell]
    · rw [hnew]
    · exact h.address a ha
  · rintro a (_ | ⟨_, ha⟩)
    · exact KHeap.size_le_request n
    · exact h.size a ha
  · simp only [hblock]
    refine List.pairwise_cons.mpr ⟨fun a ha e => ?_, h.nodup⟩
    rw [hblocknew] at e
    exact q.not_live_of_free hi (hlive ▸ (h.live _).mpr ⟨a, ha, e.symm⟩)

theorem Tracks.kmalloc (h : s.Tracks start p) (hpage : 2 ^ 12 ∣ start) (h0 : 0 < start)
    (h64 : start < 2 ^ 64) {n : Nat} (hn : 1 ≤ n) (hb : n < 2 ^ 32) :
    ∃ t, ∃ q : Pool R, s.step (.kmalloc n) = some t ∧ t.Tracks start q ∧
      ∀ cap, Coalesced cap p.free → Coalesced cap q.free := by
  rcases h.kmalloc_cases hpage h0 h64 hn hb with
    ⟨hfail, -⟩ | ⟨t, addr, q, -, -, hstep, hq, hcoal, -⟩
  · exact ⟨s, p, by rw [step, hfail]; rfl, h, fun _ hc => hc⟩
  · exact ⟨_, q, hstep, hq, hcoal⟩

/-- `kfree` changes nothing, or takes the allocation at its cell off the record. -/
theorem Tracks.kfree (h : s.Tracks start p) {addr : Nat} (hok : s.Clean (.kfree addr)) :
    ∃ t, ∃ R' ⊆ R, ∃ q : Pool R', s.step (.kfree addr) = some t ∧ t.Tracks start q ∧
      ((∀ id ∈ s.heap.freedCell addr, s.heap.MergesFront ⟨(s.heap.kHeapBlocks id).order, id⟩) →
        R' = R ∧ (Coalesced kHeapMaxOrder p.free → Coalesced kHeapMaxOrder q.free)) := by
  cases hcell : s.heap.freedCell addr with
  | none =>
    refine ⟨s, R, subset_rfl, p, ?_, h, fun _ => ⟨rfl, id⟩⟩
    rw [step, KHeap.kfree, hcell]
  | some id =>
    obtain ⟨b, hb, rfl⟩ := (h.represents.allocated id).mp (KHeap.freedCell_isAllocated hcell)
    have horder := h.represents.order b (Or.inr hb)
    obtain ⟨R', hR', q, hq, hlive, hstart, hfront⟩ := KHeap.kfree_spec h.represents hb hcell
      (by have := hok.2 _ hcell; rwa [horder] at this)
    have hkeep : ∀ live addr', (⟨s.heap.kfree addr, live⟩ : HeapSystem).cell addr' =
        s.cell addr' := fun live addr' => by rw [cell, cell, hstart]
    have hblock : ∀ live (a : Allocation), (⟨s.heap.kfree addr, live⟩ : HeapSystem).block a =
        s.block a := fun live a => by rw [block, block, hkeep]
    have hmem : ∀ a, a ∈ s.live.filter (s.cell ·.address ≠ b.start) ↔
        a ∈ s.live ∧ s.block a ≠ b := fun a => by
      rw [List.mem_filter, decide_eq_true_eq]
      refine and_congr_right fun ha => not_congr ⟨fun e => ?_, fun e => congrArg Block.start e⟩
      exact p.eq_of_start_eq (Or.inr ((h.live _).mpr ⟨a, ha, rfl⟩)) (Or.inr hb) e
    refine ⟨_, R', hR', q, by rw [step, hcell], ⟨hq, hstart.trans h.start_eq, fun c => ?_,
      fun a ha => ?_, fun a ha => h.size a ((hmem a).mp ha).1, ?_⟩, fun hmf => hfront ?_⟩
    · rw [hlive, Set.mem_sdiff, h.live, Set.mem_singleton_iff]
      simp only [hmem, hblock]
      constructor
      · rintro ⟨⟨a, ha, rfl⟩, hne⟩
        exact ⟨a, ⟨ha, hne⟩, rfl⟩
      · rintro ⟨a, ⟨ha, hne⟩, rfl⟩
        exact ⟨⟨a, ha, rfl⟩, hne⟩
    · rw [hkeep]
      exact h.address a ((hmem a).mp ha).1
    · simp only [hblock]
      exact h.nodup.filter _
    · have := hmf _ rfl
      rwa [horder] at this

/-- Unless the heap ends at the top of the address space, `kfree` frees exactly the allocation
whose first cell holds the address. -/
theorem Tracks.freedCell_iff (h : s.Tracks start p) (hend : start + kHeapHeapSize < 2 ^ 64)
    {addr id : Nat} : s.heap.freedCell addr = some id ↔
      ∃ a ∈ s.live, s.cell a.address = id ∧ a.address ≤ addr ∧
        addr < a.address + kHeapBlockSize := by
  have hstarts : ∀ a ∈ s.live, s.cell a.address < 16 := fun a ha =>
    h.represents.start_lt (b := s.block a) (Or.inr ((h.live _).mpr ⟨a, ha, rfl⟩))
  have haddr : ∀ a ∈ s.live, a.address = start + 256 * s.cell a.address := h.address
  rw [KHeap.freedCell, h.start_eq, Nat.mod_eq_of_lt hend]
  dsimp only
  split_ifs with hrange hal <;> simp only [kHeapHeapSize, kHeapBlockSize] at *
  · simp only [false_iff]
    rintro ⟨a, ha, -, h1, h2⟩
    have := haddr a ha
    have := hstarts a ha
    omega
  · obtain ⟨b, hb, hstart⟩ := (h.represents.allocated _).mp hal
    obtain ⟨a, ha, rfl⟩ := (h.live b).mp hb
    have hcell : s.cell a.address = (addr - start) / 256 := hstart
    have := haddr a ha
    rw [Option.some.injEq]
    constructor
    · rintro rfl
      exact ⟨a, ha, hcell, by omega, by omega⟩
    · rintro ⟨c, hc, rfl, h1, h2⟩
      have := haddr c hc
      omega
  · simp only [false_iff]
    rintro ⟨a, ha, -, h1, h2⟩
    have := haddr a ha
    have hcell : (addr - start) / 256 = s.cell a.address := by omega
    rw [hcell, h.represents.allocated] at hal
    exact absurd ⟨s.block a, (h.live _).mpr ⟨a, ha, rfl⟩, rfl⟩ hal

/-! ## No overlap -/

/-- The live allocations are pairwise disjoint, inside the heap and as long as requested. -/
structure NoOverlap (start : Nat) (s : HeapSystem) : Prop where
  disjoint : s.live.Pairwise fun a b => Disjoint a.bytes b.bytes
  inside : ∀ a ∈ s.live, a.bytes ⊆ Set.Ico start (start + kHeapHeapSize)
  long : ∀ a ∈ s.live, a.size ≤ kHeapBlockSize * 2 ^ a.order

theorem Tracks.cell_mem (h : s.Tracks start p) {a : Allocation} (ha : a ∈ s.live) {y : Nat}
    (hy : y ∈ a.bytes) : start ≤ y ∧ (y - start) / kHeapBlockSize ∈ (s.block a).span := by
  have haddr : a.address = start + 256 * s.cell a.address := h.address a ha
  have h1 : a.address ≤ y := (Set.mem_Ico.mp hy).1
  have h2 : y < a.address + 256 * 2 ^ a.order := (Set.mem_Ico.mp hy).2
  rw [mem_span, Block.size, block, kHeapBlockSize]
  dsimp only
  generalize 2 ^ a.order = n at h2 ⊢
  omega

theorem Tracks.noOverlap (h : s.Tracks start p) : NoOverlap start s := by
  refine ⟨h.nodup.imp_of_mem fun {a b} ha hb hne => ?_, fun a ha y hy => ?_, h.size⟩
  · refine Set.disjoint_left.mpr fun y hya hyb => hne ?_
    exact p.eq_of_mem_span (Or.inr ((h.live _).mpr ⟨a, ha, rfl⟩))
      (Or.inr ((h.live _).mpr ⟨b, hb, rfl⟩)) (h.cell_mem ha hya).2 (h.cell_mem hb hyb).2
  · obtain ⟨h1, h2⟩ := h.cell_mem ha hy
    have hlt : (y - start) / 256 < 16 :=
      h.represents.within (p.span_subset (Or.inr ((h.live _).mpr ⟨a, ha, rfl⟩)) h2)
    rw [kHeapHeapSize]
    exact Set.mem_Ico.mpr ⟨h1, by omega⟩

theorem Tracks.clean_step (h : s.Tracks start p) (hpage : 2 ^ 12 ∣ start) (h0 : 0 < start)
    (h64 : start < 2 ^ 64) {a : HeapRequest} (hok : s.Clean a) :
    ∃ t, s.step a = some t ∧ ∃ R', ∃ q : Pool R', t.Tracks start q := by
  cases a with
  | kmalloc n =>
    obtain ⟨t, q, ht, hq, -⟩ := h.kmalloc hpage h0 h64 hok.1 hok.2
    exact ⟨t, ht, R, q, hq⟩
  | kfree addr =>
    obtain ⟨t, R', -, q, ht, hq, -⟩ := h.kfree hok
    exact ⟨t, ht, R', q, hq⟩

/-- Runs whose frees merge only with free blocks complete and never let allocations overlap. -/
theorem run_allocations_disjoint (hpage : 2 ^ 12 ∣ start) (h0 : 0 < start) (h64 : start < 2 ^ 64)
    {as : List HeapRequest} (hok : Along step Clean (boot start) as) :
    ∃ t, run step (boot start) as = some t ∧ NoOverlap start t := by
  obtain ⟨t, ht, R, q, hq⟩ := Along.completes
    (I := fun s => ∃ R, ∃ q : Pool R, s.Tracks start q)
    (fun s a ⟨_, _, hq⟩ hok => hq.clean_step hpage h0 h64 hok) ⟨_, _, boot_tracks start⟩ hok
  exact ⟨t, ht, hq.noOverlap⟩

instance (s : HeapSystem) : DecidablePred s.Admissible
  | .kmalloc size => inferInstanceAs (Decidable (1 ≤ size ∧ size < 2 ^ 32))
  | .kfree addr => inferInstanceAs (Decidable (addr < 2 ^ 64))

instance (s : HeapSystem) : DecidablePred s.Disciplined
  | .kmalloc size => inferInstanceAs (Decidable (1 ≤ size ∧ size < 2 ^ 32))
  | .kfree addr => inferInstanceAs (Decidable (∃ a ∈ s.live, a.address = addr))

instance (s : HeapSystem) : DecidablePred s.Frontal
  | .kmalloc size => inferInstanceAs (Decidable (1 ≤ size ∧ size < 2 ^ 32))
  | .kfree addr => inferInstanceAs (Decidable ((∃ a ∈ s.live, a.address = addr) ∧
      ∀ id ∈ s.heap.freedCell addr, s.heap.MergesFront ⟨(s.heap.kHeapBlocks id).order, id⟩))

/-- The first free merges two cells while two allocations are live, and two are live at the end. -/
theorem run_allocations_disjoint_merging : ∃ t, run step (boot 0x100000) [.kmalloc 256,
      .kmalloc 512, .kmalloc 300, .kfree 0x100000, .kmalloc 256, .kfree 0x100200] = some t ∧
    NoOverlap 0x100000 t ∧ t.live = [⟨0x100000, 0, 256⟩, ⟨0x100400, 1, 300⟩] := by
  have hfrontal : Along step (fun s a => s.Admissible a ∧ s.Frontal a) (boot 0x100000) [.kmalloc 256,
      .kmalloc 512, .kmalloc 300, .kfree 0x100000, .kmalloc 256, .kfree 0x100200] := by
    decide +kernel
  have hclean : Along step Clean (boot 0x100000) [.kmalloc 256, .kmalloc 512, .kmalloc 300,
      .kfree 0x100000, .kmalloc 256, .kfree 0x100200] := by
    refine hfrontal.imp (I := fun _ => True) (fun s a _ hok => ⟨?_, fun _ _ => trivial⟩) trivial
    obtain ⟨hadm, hfront⟩ := hok
    cases a with
    | kmalloc size => exact hadm
    | kfree addr => exact ⟨hadm, fun id hid => (hfront.2 id hid).free⟩
  have hlive : (run step (boot 0x100000) [.kmalloc 256, .kmalloc 512, .kmalloc 300,
      .kfree 0x100000, .kmalloc 256, .kfree 0x100200]).map (·.live) =
      some [⟨0x100000, 0, 256⟩, ⟨0x100400, 1, 300⟩] := by decide +kernel
  obtain ⟨t, ht, hdisjoint⟩ := run_allocations_disjoint (by decide) (by decide) (by decide) hclean
  rw [ht] at hlive
  exact ⟨t, ht, hdisjoint, Option.some.inj hlive⟩

/-- Four allocations of one cell; freeing the third, the second and the first frees the whole
heap under the fourth, and `kmalloc(4096)` then returns it. -/
theorem kfree_overlaps : ∃ t, run step (boot 0x100000) [.kmalloc 256, .kmalloc 256, .kmalloc 256,
      .kmalloc 256, .kfree 0x100200, .kfree 0x100100, .kfree 0x100000, .kmalloc 4096] = some t ∧
    Along step Admissible (boot 0x100000) [.kmalloc 256, .kmalloc 256, .kmalloc 256,
      .kmalloc 256, .kfree 0x100200, .kfree 0x100100, .kfree 0x100000, .kmalloc 4096] ∧
    ¬NoOverlap 0x100000 t := by
  have hadm : Along step Admissible (boot 0x100000) [.kmalloc 256, .kmalloc 256, .kmalloc 256,
      .kmalloc 256, .kfree 0x100200, .kfree 0x100100, .kfree 0x100000, .kmalloc 4096] := by
    decide +kernel
  have hend : (run step (boot 0x100000) [.kmalloc 256, .kmalloc 256, .kmalloc 256, .kmalloc 256,
      .kfree 0x100200, .kfree 0x100100, .kfree 0x100000, .kmalloc 4096]).map (·.live) =
      some [⟨0x100000, 4, 4096⟩, ⟨0x100300, 0, 256⟩] := by decide +kernel
  obtain ⟨t, ht, hlive⟩ := Option.map_eq_some_iff.mp hend
  refine ⟨t, ht, hadm, fun hno => ?_⟩
  have hdis := hno.disjoint
  rw [hlive, List.pairwise_pair] at hdis
  have hfourth : 0x100300 ∈ (⟨0x100300, 0, 256⟩ : Allocation).bytes :=
    Set.mem_Ico.mpr ⟨by decide, by decide⟩
  exact Set.disjoint_left.mp hdis (Set.mem_Ico.mpr ⟨by decide, by decide⟩) hfourth

/-! ## Nothing lost -/

/-- Every cell belongs to one live allocation or to one listed block of its list's order. -/
structure Partitioned (s : HeapSystem) : Prop where
  owner : ∀ x < kHeapBlockNum, ∃! b, ((∃ a ∈ s.live, s.block a = b) ∨
    b ∈ s.heap.freeBlocks ∧ (s.heap.kHeapBlocks b.start).order = b.order) ∧ x ∈ b.span
  nodup : s.live.Pairwise fun a b => s.block a ≠ s.block b
  apart : ∀ a ∈ s.live, s.block a ∉ s.heap.freeBlocks

/-- The last list holds block 0 and nothing else, the other lists are empty. -/
structure Whole (h : KHeap) : Prop where
  head : h.kHeapOrder kHeapMaxOrder = some 0
  next : (h.kHeapBlocks 0).next = none
  others : ∀ k < kHeapMaxOrder, h.kHeapOrder k = none

theorem Tracks.partitioned {p : Pool (Set.Iio kHeapBlockNum)} (h : s.Tracks start p) :
    Partitioned s := by
  have hmem : ∀ b, ((∃ a ∈ s.live, s.block a = b) ∨ b ∈ s.heap.freeBlocks ∧
      (s.heap.kHeapBlocks b.start).order = b.order) ↔ b ∈ p.free ∪ p.live := fun b => by
    rw [← h.live, h.represents.mem, Set.mem_union, or_comm]
    exact or_congr_left (and_iff_left_of_imp fun hb => h.represents.order b (Or.inl hb))
  refine ⟨fun x hx => ?_, h.nodup, fun a ha hf => ?_⟩
  · obtain ⟨b, hb, hxb⟩ := (p.covers x).mp hx
    refine ⟨b, ⟨(hmem b).mpr hb, hxb⟩, fun c ⟨hc, hxc⟩ => ?_⟩
    exact p.eq_of_mem_span ((hmem c).mp hc) hb hxc hxb
  · exact p.not_live_of_free ((h.represents.mem _).mp hf) ((h.live _).mpr ⟨a, ha, rfl⟩)

theorem Tracks.whole {p : Pool (Set.Iio kHeapBlockNum)} (h : s.Tracks start p)
    (hc : Coalesced kHeapMaxOrder p.free) (hempty : s.live = []) : Whole s.heap := by
  have hlive : p.live = ∅ := Set.eq_empty_iff_forall_notMem.mpr fun b hb => by
    obtain ⟨a, ha, -⟩ := (h.live b).mp hb
    rw [hempty] at ha
    exact absurd ha List.not_mem_nil
  have hfree : p.free = {⟨4, 0⟩} := by
    rw [p.free_eq_maximal hlive hc fun b hb => h.represents.order_le (Or.inl hb), maximal_eq]
  have hmem : ∀ k i, i ∈ s.heap.links.members k ↔ (⟨k, i⟩ : Block) = ⟨4, 0⟩ := fun k i => by
    rw [← Set.mem_singleton_iff, ← hfree]
    exact h.represents.mem ⟨k, i⟩
  obtain ⟨hhead, hnext⟩ := h.represents.chained.singleton (k := kHeapMaxOrder) (x := 0)
    fun y => by rw [hmem]; simp [kHeapMaxOrder]
  refine ⟨hhead, hnext, fun k hk => ?_⟩
  cases hl : s.heap.kHeapOrder k with
  | none => rfl
  | some i =>
    have heq := (hmem k i).mp (Links.head_mem (l := s.heap.links) hl)
    exact absurd (congrArg Block.order heq) hk.ne

theorem Tracks.frontal_step {p : Pool (Set.Iio kHeapBlockNum)} (h : s.Tracks start p)
    (hc : Coalesced kHeapMaxOrder p.free) (hpage : 2 ^ 12 ∣ start) (h0 : 0 < start)
    (h64 : start < 2 ^ 64) {a : HeapRequest} (hok : s.Frontal a) :
    ∃ t, s.step a = some t ∧ ∃ q : Pool (Set.Iio kHeapBlockNum), t.Tracks start q ∧
      Coalesced kHeapMaxOrder q.free := by
  cases a with
  | kmalloc n =>
    obtain ⟨t, q, ht, hq, hqc⟩ := h.kmalloc hpage h0 h64 hok.1 hok.2
    exact ⟨t, ht, q, hq, hqc _ hc⟩
  | kfree addr =>
    obtain ⟨⟨a, ha, rfl⟩, hmf⟩ := hok
    have haddr : a.address = start + 256 * s.cell a.address := h.address a ha
    have hcell : s.cell a.address < 16 :=
      h.represents.start_lt (b := s.block a) (Or.inr ((h.live _).mpr ⟨a, ha, rfl⟩))
    have hclean : s.Clean (.kfree a.address) :=
      ⟨show a.address < 2 ^ 64 by omega, fun id hid => (hmf id hid).free⟩
    obtain ⟨t, R', -, q, ht, hq, hfront⟩ := h.kfree hclean
    obtain ⟨rfl, hqc⟩ := hfront hmf
    exact ⟨t, ht, q, hq, hqc hc⟩

/-- Runs whose frees merge only with front blocks lose no cell and restore the whole heap when
everything has been freed. -/
theorem run_cells_restored (hpage : 2 ^ 12 ∣ start) (h0 : 0 < start) (h64 : start < 2 ^ 64)
    {as : List HeapRequest} (hok : Along step Frontal (boot start) as) :
    ∃ t, run step (boot start) as = some t ∧ Partitioned t ∧ (t.live = [] → Whole t.heap) := by
  obtain ⟨t, ht, q, hq, hqc⟩ := Along.completes
    (I := fun s => ∃ q : Pool (Set.Iio kHeapBlockNum), s.Tracks start q ∧
      Coalesced kHeapMaxOrder q.free)
    (fun s a ⟨_, hq, hc⟩ hok => hq.frontal_step hc hpage h0 h64 hok)
    ⟨_, boot_tracks start, maximal_coalesced _ _⟩ hok
  exact ⟨t, ht, hq.partitioned, hq.whole hqc⟩

theorem run_cells_restored_single : ∃ t, run step (boot 0x100000) [.kmalloc 256, .kfree 0x100000] =
    some t ∧ Partitioned t ∧ (t.live = [] → Whole t.heap) :=
  run_cells_restored (by decide) (by decide) (by decide) (by decide +kernel)

/-- Four allocations of one cell; freeing the second, the fourth, the first and the third leaves
block 1 in the first list of a heap whose last list already holds every cell. -/
theorem kfree_resurrects : ∃ t, run step (boot 0x100000) [.kmalloc 256, .kmalloc 256,
      .kmalloc 256, .kmalloc 256, .kfree 0x100100, .kfree 0x100300, .kfree 0x100000,
      .kfree 0x100200] = some t ∧
    Along step Disciplined (boot 0x100000) [.kmalloc 256, .kmalloc 256, .kmalloc 256,
      .kmalloc 256, .kfree 0x100100, .kfree 0x100300, .kfree 0x100000, .kfree 0x100200] ∧
    t.live = [] ∧ ¬Whole t.heap := by
  have hadm : Along step Disciplined (boot 0x100000) [.kmalloc 256, .kmalloc 256, .kmalloc 256,
      .kmalloc 256, .kfree 0x100100, .kfree 0x100300, .kfree 0x100000, .kfree 0x100200] := by
    decide +kernel
  have hend : (run step (boot 0x100000) [.kmalloc 256, .kmalloc 256, .kmalloc 256, .kmalloc 256,
      .kfree 0x100100, .kfree 0x100300, .kfree 0x100000, .kfree 0x100200]).map
      (fun t => (t.live, t.heap.kHeapOrder 0)) = some ([], some 1) := by decide +kernel
  obtain ⟨t, ht, hview⟩ := Option.map_eq_some_iff.mp hend
  obtain ⟨hlive, hfirst⟩ := Prod.mk.inj hview
  refine ⟨t, ht, hadm, hlive, fun hwhole => ?_⟩
  have hnone := hwhole.others 0 (by decide)
  rw [hfirst] at hnone
  cases hnone

end HeapSystem
end Amaterasu
