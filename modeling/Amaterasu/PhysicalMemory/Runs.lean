import Amaterasu.Library.Runs
import Amaterasu.PhysicalMemory.Allocate
import Amaterasu.PhysicalMemory.Free
import Amaterasu.PhysicalMemory.Init

/-! Runs of the page-frame allocator: any order of allocations and of frees of live
allocations, started from `BuddySystemInit`. The live allocations are recorded beside the
globals; an allocation of frame 0 is live although its address is the failure result. -/

namespace Amaterasu
open Block Runs

/-- The globals, and the allocations that were returned and not freed. -/
structure FrameSystem where
  frames : PageFrames
  live : List Block

inductive FrameRequest
  | allocate (requestedPageNumber : Int)
  | free (b : Block)

namespace FrameSystem

def boot (m : PageFrames) : Option FrameSystem := m.buddySystemInit.map fun s => ⟨s, []⟩

/-- The block an allocation of `n` frames at descriptor `i` owns. -/
def granted (n : Int) (i : Nat) : Block := ⟨Nat.clog 2 n.toNat, i⟩

def step (s : FrameSystem) : FrameRequest → Option FrameSystem
  | .allocate n => (s.frames.allocateFrames n).map fun r =>
    ⟨r.1, (r.2.map (granted n)).toList ++ s.live⟩
  | .free b => (s.frames.freePageFrames (PageFrames.frameAddress (some b.start))).map fun t =>
    ⟨t, s.live.filter (· ≠ b)⟩

/-- The requests the callers may make: `requestedPageNumber` is a positive `int`, and only live
allocations are freed. -/
def Admissible (s : FrameSystem) : FrameRequest → Prop
  | .allocate n => 1 ≤ n ∧ n < 2 ^ 31
  | .free b => b ∈ s.live

/-- The frees that recover the allocated order and merge upward only. -/
def Clean (s : FrameSystem) : FrameRequest → Prop
  | .allocate n => s.Admissible (.allocate n)
  | .free b => s.Admissible (.free b) ∧ s.frames.OrderVisible b ∧ s.frames.MergesUpward b

/-- The clean frees that do not coalesce two blocks of the largest order. -/
def Capped (s : FrameSystem) : FrameRequest → Prop
  | .allocate n => s.Clean (.allocate n)
  | .free b => s.Clean (.free b) ∧ ¬s.frames.BuddiesFree b pageFrameMaxOrder

/-! ## The pool behind a state -/

variable {R : Set Nat} {m : PageFrames} {s : FrameSystem} {p : Pool R}

/-- The state stands for the coalesced pool `p`. -/
structure Tracks (s : FrameSystem) (p : Pool R) : Prop where
  represents : s.frames.Represents p
  live : ∀ b, b ∈ s.live ↔ b ∈ p.live
  nodup : s.live.Nodup
  coalesced : Coalesced pageFrameMaxOrder p.free
  order_le : ∀ b ∈ s.live, b.order ≤ pageFrameMaxOrder

theorem boot_tracks (hm : m.Mapped) :
    ∃ s, boot m = some s ∧ s.Tracks (Pool.canonical pageFrameMaxOrder m.usable) := by
  obtain ⟨t, ht, hrep, -⟩ := PageFrames.buddySystemInit_spec hm
  refine ⟨⟨t, []⟩, by rw [boot, ht]; rfl, hrep, fun b => ?_, List.nodup_nil,
    maximal_coalesced _ _, fun b hb => absurd hb List.not_mem_nil⟩
  simp

/-- An allocation finds no block, or carves one out of the smallest adequate free block. -/
theorem Tracks.allocate (h : s.Tracks p) {n : Int} (hn : 1 ≤ n) (hb : n < 2 ^ 31) :
    (s.frames.allocateFrames n = some (s.frames, none) ∧ s.step (.allocate n) = some s ∧
      ∀ c ∈ p.free, Nat.clog 2 n.toNat ≤ c.order → pageFrameMaxOrder < c.order) ∨
    ∃ t u i d, ∃ q : Pool R, s.frames.allocateFrames n = some (u, some i) ∧
      s.step (.allocate n) = some t ∧ t.Tracks q ∧
      (granted n i).order ≤ d ∧ d ≤ pageFrameMaxOrder ∧ (⟨d, i⟩ : Block) ∈ p.free ∧
      ∀ c ∈ q.free, c ∈ p.free ∨ c.order ≤ d := by
  rcases PageFrames.allocateFrames_spec h.represents h.coalesced hn hb with
    ⟨hfail, hnone⟩ | ⟨t, i, d, q, hi, ht, hrep, hkd, hd, hdp, -, hcarve, hc⟩
  · exact Or.inl ⟨hfail, by rw [step, hfail]; rfl, hnone⟩
  refine Or.inr ⟨⟨t, granted n i :: s.live⟩, t, i, d, q.take _ hi, ht, by rw [step, ht]; rfl,
    ⟨hrep, fun b => ?_, ?_, hc, ?_⟩, hkd, hd, hdp, ?_⟩
  · rw [List.mem_cons, Pool.take_live, Set.mem_insert_iff, hcarve.live, h.live]
    rfl
  · refine List.nodup_cons.mpr ⟨fun hmem => ?_, h.nodup⟩
    exact q.not_live_of_free hi (hcarve.live ▸ (h.live _).mp hmem)
  · rintro b (_ | ⟨_, hbl⟩)
    · exact hkd.trans hd
    · exact h.order_le b hbl
  · rintro c ⟨hcq, -⟩
    rcases hcarve.pieces c hcq with ⟨hcp, -⟩ | ⟨-, hcd⟩
    · exact Or.inl hcp
    · exact Or.inr hcd

/-- A clean free returns the block to the pool. -/
theorem Tracks.free (h : s.Tracks p) {b : Block} (hok : s.Clean (.free b)) :
    ∃ t, ∃ q : Pool R, s.step (.free b) = some t ∧ t.Tracks q ∧
      ((∀ c ∈ p.free, c.order ≤ pageFrameMaxOrder) →
        ¬s.frames.BuddiesFree b pageFrameMaxOrder → ∀ c ∈ q.free, c.order ≤ pageFrameMaxOrder) := by
  obtain ⟨hb, hv, hlow⟩ := hok
  obtain ⟨t, q, ht, hrep, hlive, hc, hord⟩ := PageFrames.freePageFrames_spec h.represents
    h.coalesced ((h.live b).mp hb) (h.order_le b hb) hv hlow
  refine ⟨⟨t, s.live.filter (· ≠ b)⟩, q, by rw [step, ht]; rfl,
    ⟨hrep, fun c => ?_, h.nodup.filter _, hc, fun c hcl => ?_⟩, hord⟩
  · rw [hlive]
    simp [h.live]
  · exact h.order_le c (List.mem_of_mem_filter hcl)

theorem Tracks.clean_step (h : s.Tracks p) {a : FrameRequest} (hok : s.Clean a) :
    ∃ t, s.step a = some t ∧ ∃ q : Pool R, t.Tracks q := by
  cases a with
  | allocate n =>
    rcases h.allocate hok.1 hok.2 with ⟨-, hs, -⟩ | ⟨t, -, -, -, q, -, ht, hq, -⟩
    · exact ⟨s, hs, p, h⟩
    · exact ⟨t, ht, q, hq⟩
  | free b =>
    obtain ⟨t, q, ht, hq, -⟩ := h.free hok
    exact ⟨t, ht, q, hq⟩

/-- Free blocks of the pool are at most of the largest order. -/
def CappedPool (p : Pool R) : Prop := ∀ c ∈ p.free, c.order ≤ pageFrameMaxOrder

theorem Tracks.capped_step (h : s.Tracks p) (hp : CappedPool p) {a : FrameRequest}
    (hok : s.Capped a) : ∃ t, s.step a = some t ∧ ∃ q : Pool R, t.Tracks q ∧ CappedPool q := by
  cases a with
  | allocate n =>
    rcases h.allocate hok.1 hok.2 with ⟨-, hs, -⟩ | ⟨t, -, -, d, q, -, ht, hq, -, hd, -, hpieces⟩
    · exact ⟨s, hs, p, h, hp⟩
    · refine ⟨t, ht, q, hq, fun c hc => ?_⟩
      rcases hpieces c hc with hcp | hcd
      · exact hp c hcp
      · exact hcd.trans hd
  | free b =>
    obtain ⟨t, q, ht, hq, hord⟩ := h.free hok.1
    exact ⟨t, ht, q, hq, hord hp hok.2⟩

theorem canonical_capped (R : Set Nat) : CappedPool (Pool.canonical pageFrameMaxOrder R) :=
  fun _ hc => hc.2.1

/-! ## No overlap -/

/-- The blocks of the live allocations and of the free lists are pairwise disjoint and hold only
frames that the map offers. -/
structure NoOverlap (m : PageFrames) (s : FrameSystem) : Prop where
  live : s.live.Pairwise fun b c => Disjoint b.span c.span
  free : s.frames.freeBlocks.PairwiseDisjoint Block.span
  apart : ∀ b ∈ s.live, ∀ c ∈ s.frames.freeBlocks, Disjoint b.span c.span
  offered : ∀ b, b ∈ s.live ∨ b ∈ s.frames.freeBlocks → ∀ x ∈ b.span,
    x < m.totalPageNumber ∧ (m.memoryMap x).isReserved = false

theorem Tracks.noOverlap {p : Pool m.usable} (h : s.Tracks p) : NoOverlap m s := by
  have hf := h.represents.mem
  have hdis : ∀ {b c : Block}, b ∈ p.free ∪ p.live → c ∈ p.free ∪ p.live → b ≠ c →
      Disjoint b.span c.span := fun hb hc hne => p.disjoint hb hc hne
  refine ⟨?_, fun b hb c hc hne => ?_, fun b hb c hc => ?_, fun b hb x hx => ?_⟩
  · refine h.nodup.imp_of_mem fun hb hc hne => ?_
    exact hdis (Or.inr ((h.live _).mp hb)) (Or.inr ((h.live _).mp hc)) hne
  · exact hdis (Or.inl ((hf b).mp hb)) (Or.inl ((hf c).mp hc)) hne
  · have hbl := (h.live b).mp hb
    have hcf := (hf c).mp hc
    exact hdis (Or.inr hbl) (Or.inl hcf) fun e => p.not_live_of_free hcf (e ▸ hbl)
  · rcases hb with hb | hb
    · exact p.span_subset (Or.inr ((h.live b).mp hb)) hx
    · exact p.span_subset (Or.inl ((hf b).mp hb)) hx

/-- Runs whose frees are clean complete and never let two blocks overlap. -/
theorem run_frames_disjoint (hm : m.Boot) :
    ∃ s₀, boot m = some s₀ ∧ ∀ as, Along step Clean s₀ as →
      ∃ t, run step s₀ as = some t ∧ NoOverlap m t := by
  obtain ⟨s₀, hs₀, htr⟩ := boot_tracks hm.mapped
  refine ⟨s₀, hs₀, fun as hok => ?_⟩
  obtain ⟨t, ht, q, hq⟩ := Along.completes
    (I := fun s => ∃ q : Pool m.usable, s.Tracks q)
    (fun s a ⟨q, hq⟩ hok => hq.clean_step hok) ⟨_, htr⟩ hok
  exact ⟨t, ht, hq.noOverlap⟩

/-- A map of `n` frames without a reserved one. -/
def blankMap (n : Nat) : PageFrames where
  memoryMap _ := ⟨0, 0, none, none⟩
  pageFrameOrder _ := none
  totalPageNumber := n

theorem blankMap_boot (n : Nat) : (blankMap n).Boot := by
  have hblank : ∀ i, (blankMap n).memoryMap i = ⟨0, 0, none, none⟩ := fun _ => rfl
  refine ⟨fun i _ => ?_, fun i _ => ?_, fun _ => rfl⟩
  · rw [hblank]
    decide
  · rw [hblank]
    decide

theorem mergesUpward_zero (s : PageFrames) (k : Nat) : s.MergesUpward ⟨k, 0⟩ := by
  intro j _ _ _
  simp [buddy, size]

instance (s : PageFrames) (b : Block) : Decidable (s.OrderVisible b) :=
  inferInstanceAs (Decidable ((∀ j < b.order, _ = false) ∧ _ = true))

instance (s : FrameSystem) : DecidablePred s.Admissible
  | .allocate n => inferInstanceAs (Decidable (1 ≤ n ∧ n < 2 ^ 31))
  | .free b => inferInstanceAs (Decidable (b ∈ s.live))

theorem run_frames_disjoint_two : ∃ s₀ t, boot (blankMap 2) = some s₀ ∧
    run step s₀ [.allocate 1, .free ⟨0, 0⟩] = some t ∧ NoOverlap (blankMap 2) t := by
  obtain ⟨s₀, hs₀, hruns⟩ := run_frames_disjoint (blankMap_boot 2)
  have hfacts : ∀ s ∈ boot (blankMap 2), ∀ u ∈ step s (.allocate 1),
      ⟨0, 0⟩ ∈ u.live ∧ u.frames.OrderVisible ⟨0, 0⟩ := by decide
  have hok : Along step Clean s₀ [.allocate 1, .free ⟨0, 0⟩] := by
    refine ⟨⟨by decide, by decide⟩, fun u hu => ⟨?_, fun _ _ => trivial⟩⟩
    obtain ⟨hlive, hvis⟩ := hfacts s₀ hs₀ u hu
    exact ⟨hlive, hvis, mergesUpward_zero _ _⟩
  obtain ⟨t, ht, hno⟩ := hruns _ hok
  exact ⟨s₀, t, hs₀, ht, hno⟩

/-- Freeing frames 0 and 1 of four puts the block of frames 1 and 2 into the lists while frame 2
is live. -/
theorem free_upper_half_overlaps : ∃ s₀ t, boot (blankMap 4) = some s₀ ∧
    Along step Admissible s₀
      [.allocate 1, .allocate 1, .allocate 1, .free ⟨0, 0⟩, .free ⟨0, 1⟩] ∧
    run step s₀ [.allocate 1, .allocate 1, .allocate 1, .free ⟨0, 0⟩, .free ⟨0, 1⟩] = some t ∧
    ¬NoOverlap (blankMap 4) t := by
  have hfacts : ∀ s ∈ boot (blankMap 4), Along step Admissible s
      [.allocate 1, .allocate 1, .allocate 1, .free ⟨0, 0⟩, .free ⟨0, 1⟩] := by decide
  have hend : ((boot (blankMap 4)).bind fun s => run step s
      [.allocate 1, .allocate 1, .allocate 1, .free ⟨0, 0⟩, .free ⟨0, 1⟩]).map
      (fun t => (t.live, t.frames.pageFrameOrder 1)) = some ([⟨0, 2⟩], some 1) := by decide
  obtain ⟨t, ht, hview⟩ := Option.map_eq_some_iff.mp hend
  obtain ⟨s₀, hs₀, hrun⟩ := Option.bind_eq_some_iff.mp ht
  refine ⟨s₀, t, hs₀, hfacts s₀ hs₀, hrun, fun hno => ?_⟩
  obtain ⟨hlive, hhead⟩ := Prod.mk.inj hview
  have hdis := hno.apart ⟨0, 2⟩ (by rw [hlive]; exact List.mem_singleton_self _) ⟨1, 1⟩
    (PageFrames.head_mem_freeBlocks hhead)
  have hlow : 2 ∈ (⟨0, 2⟩ : Block).span := mem_span.mpr ⟨by decide, by decide⟩
  exact Set.disjoint_left.mp hdis hlow (mem_span.mpr ⟨by decide, by decide⟩)

/-! ## Nothing lost -/

/-- Every frame the map offers belongs to one free-list block or to one live allocation. -/
structure Partitioned (m : PageFrames) (s : FrameSystem) : Prop where
  owner : ∀ x < m.totalPageNumber, (m.memoryMap x).isReserved = false →
    ∃! b, (b ∈ s.live ∨ b ∈ s.frames.freeBlocks) ∧ x ∈ b.span
  nodup : s.live.Nodup
  apart : ∀ b ∈ s.live, b ∉ s.frames.freeBlocks

theorem Tracks.partitioned {p : Pool m.usable} (h : s.Tracks p) : Partitioned m s := by
  have hmem : ∀ b, (b ∈ s.live ∨ b ∈ s.frames.freeBlocks) ↔ b ∈ p.free ∪ p.live := fun b => by
    rw [h.live, h.represents.mem, Set.mem_union, or_comm]
  refine ⟨fun x hx hr => ?_, h.nodup, fun b hb hf => ?_⟩
  · obtain ⟨b, hb, hxb⟩ := (p.covers x).mp ⟨hx, hr⟩
    refine ⟨b, ⟨(hmem b).mpr hb, hxb⟩, fun c ⟨hc, hxc⟩ => ?_⟩
    exact p.eq_of_mem_span ((hmem c).mp hc) hb hxc hxb
  · exact p.not_live_of_free ((h.represents.mem b).mp hf) ((h.live b).mp hb)

theorem Tracks.freeBlocks_eq (h : s.Tracks p) : s.frames.freeBlocks = p.free :=
  Set.ext h.represents.mem

/-- Runs whose frees are clean and capped lose no frame, leave no buddies uncombined, and
restore the lists of `BuddySystemInit` when everything has been freed. -/
theorem run_frames_restored (hm : m.Boot) :
    ∃ s₀, boot m = some s₀ ∧ ∀ as, Along step Capped s₀ as →
      ∃ t, run step s₀ as = some t ∧ Partitioned m t ∧
        Coalesced pageFrameMaxOrder t.frames.freeBlocks ∧
        (t.live = [] → t.frames.freeBlocks = s₀.frames.freeBlocks) := by
  obtain ⟨s₀, hs₀, htr⟩ := boot_tracks hm.mapped
  refine ⟨s₀, hs₀, fun as hok => ?_⟩
  obtain ⟨t, ht, q, hq, hcap⟩ := Along.completes
    (I := fun s => ∃ q : Pool m.usable, s.Tracks q ∧ CappedPool q)
    (fun s a ⟨q, hq, hcap⟩ hok => hq.capped_step hcap hok) ⟨_, htr, canonical_capped _⟩ hok
  refine ⟨t, ht, hq.partitioned, hq.freeBlocks_eq ▸ hq.coalesced, fun hempty => ?_⟩
  have hlive : q.live = ∅ := Set.eq_empty_iff_forall_notMem.mpr fun b hb => by
    have := (hq.live b).mpr hb
    rw [hempty] at this
    exact absurd this List.not_mem_nil
  rw [hq.freeBlocks_eq, htr.freeBlocks_eq, q.free_eq_maximal hlive hq.coalesced hcap]
  rfl

theorem run_frames_restored_two : ∃ s₀ t, boot (blankMap 2) = some s₀ ∧
    run step s₀ [.allocate 1, .free ⟨0, 0⟩] = some t ∧ Partitioned (blankMap 2) t ∧
    Coalesced pageFrameMaxOrder t.frames.freeBlocks ∧
    (t.live = [] → t.frames.freeBlocks = s₀.frames.freeBlocks) := by
  obtain ⟨s₀, hs₀, hruns⟩ := run_frames_restored (blankMap_boot 2)
  have hfacts : ∀ s ∈ boot (blankMap 2), ∀ u ∈ step s (.allocate 1),
      ⟨0, 0⟩ ∈ u.live ∧ u.frames.OrderVisible ⟨0, 0⟩ ∧ u.frames.pageFrameOrder 1 = none := by
    decide
  have hok : Along step Capped s₀ [.allocate 1, .free ⟨0, 0⟩] := by
    refine ⟨⟨by decide, by decide⟩, fun u hu => ⟨?_, fun _ _ => trivial⟩⟩
    obtain ⟨hlive, hvis, hempty⟩ := hfacts s₀ hs₀ u hu
    refine ⟨⟨hlive, hvis, mergesUpward_zero _ _⟩, fun hall => ?_⟩
    exact PageFrames.not_mem_freeBlocks hempty (hall 1 (by decide) (by decide))
  obtain ⟨t, ht, hend⟩ := hruns _ hok
  exact ⟨s₀, t, hs₀, ht, hend⟩

/-- Freeing frames 0 and 1 of four, the only live ones, does not restore the block of all four. -/
theorem free_upper_half_loses : ∃ s₀ t, boot (blankMap 4) = some s₀ ∧
    Along step Admissible s₀ [.allocate 1, .allocate 1, .free ⟨0, 0⟩, .free ⟨0, 1⟩] ∧
    run step s₀ [.allocate 1, .allocate 1, .free ⟨0, 0⟩, .free ⟨0, 1⟩] = some t ∧
    t.live = [] ∧ t.frames.freeBlocks ≠ s₀.frames.freeBlocks := by
  have hfacts : ∀ s ∈ boot (blankMap 4), s.frames.pageFrameOrder 2 = some 0 ∧
      Along step Admissible s
        [.allocate 1, .allocate 1, .free ⟨0, 0⟩, .free ⟨0, 1⟩] := by decide
  have hend : ((boot (blankMap 4)).bind fun s => run step s
      [.allocate 1, .allocate 1, .free ⟨0, 0⟩, .free ⟨0, 1⟩]).map
      (fun t => (t.live, t.frames.pageFrameOrder 2)) = some ([], none) := by decide
  obtain ⟨t, ht, hview⟩ := Option.map_eq_some_iff.mp hend
  obtain ⟨s₀, hs₀, hrun⟩ := Option.bind_eq_some_iff.mp ht
  obtain ⟨hlive, hempty⟩ := Prod.mk.inj hview
  refine ⟨s₀, t, hs₀, (hfacts s₀ hs₀).2, hrun, hlive, fun heq => ?_⟩
  have hwhole := PageFrames.head_mem_freeBlocks (hfacts s₀ hs₀).1
  rw [← heq] at hwhole
  exact PageFrames.not_mem_freeBlocks hempty hwhole

/-! ## No false out-of-memory -/

/-- The frames `[i, i + 2 ^ k)` are offered by the map and part of no live allocation. -/
def Available (m : PageFrames) (s : FrameSystem) (k i : Nat) : Prop :=
  ∀ x, i ≤ x → x < i + 2 ^ k → x < m.totalPageNumber ∧ (m.memoryMap x).isReserved = false ∧
    ∀ b ∈ s.live, x ∉ b.span

/-- In a capped pool an allocation fails exactly when no aligned run is available. -/
theorem Tracks.allocate_none_iff {p : Pool m.usable} (h : s.Tracks p) (hp : CappedPool p) {n : Int}
    (hn : 1 ≤ n) (hb : n < 2 ^ 31) :
    ∃ u r, s.frames.allocateFrames n = some (u, r) ∧
      (r = none ↔ (¬∃ i, 2 ^ Nat.clog 2 n.toNat ∣ i ∧ Available m s (Nat.clog 2 n.toNat) i) ∨
        pageFrameMaxOrder < Nat.clog 2 n.toNat) := by
  rcases h.allocate hn hb with ⟨hfail, -, hnone⟩ | ⟨t, u, i, d, q, hu, -, -, hkd, hd, hdp, -⟩
  · refine ⟨s.frames, none, hfail, fun _ => ?_, fun _ => rfl⟩
    by_contra hcon
    obtain ⟨hyes, hk⟩ := not_or.mp hcon
    obtain ⟨i, hdvd, hav⟩ := not_not.mp hyes
    obtain ⟨c, hc, hkc, -⟩ := h.coalesced.exists_covering (fun c hc => p.free_aligned hc)
      (b := ⟨Nat.clog 2 n.toNat, i⟩) hdvd (Nat.le_of_not_lt hk) fun x hx => by
        obtain ⟨hxN, hxr, hxl⟩ := hav x (mem_span.mp hx).1 (mem_span.mp hx).2
        obtain ⟨c, hc | hc, hxc⟩ := (p.covers x).mp ⟨hxN, hxr⟩
        · exact ⟨c, hc, hxc⟩
        · exact absurd hxc (hxl c ((h.live c).mpr hc))
    exact absurd (hp c hc) (not_le.mpr (hnone c hc hkc))
  · refine ⟨u, some i, hu, ?_⟩
    constructor
    · intro hr
      cases hr
    rintro (hno | hk)
    · have hle : 2 ^ Nat.clog 2 n.toNat ≤ 2 ^ d := Nat.pow_le_pow_right (by omega) hkd
      refine absurd ⟨i, (Nat.pow_dvd_pow 2 hkd).trans (p.free_aligned hdp), fun x h1 h2 => ?_⟩ hno
      have hxd : x ∈ (⟨d, i⟩ : Block).span := mem_span.mpr ⟨h1, h2.trans_le (by
        rw [size]
        exact Nat.add_le_add_left hle i)⟩
      obtain ⟨hxN, hxr⟩ := p.span_subset (Or.inl hdp) hxd
      refine ⟨hxN, hxr, fun b hbl hxb => ?_⟩
      have hbp := (h.live b).mp hbl
      exact p.not_live_of_free hdp (p.eq_of_mem_span (Or.inr hbp) (Or.inl hdp) hxb hxd ▸ hbp)
    · exact absurd (hkd.trans hd) (not_le.mpr hk)

/-- After any allocations, the next one fails exactly when no aligned run is available. -/
theorem allocations_fail_iff (hm : m.Boot) (as : List Int) (has : ∀ a ∈ as, 1 ≤ a ∧ a < 2 ^ 31)
    (n : Int) (hn : 1 ≤ n) (hb : n < 2 ^ 31) :
    ∃ s₀ t u r, boot m = some s₀ ∧ run step s₀ (as.map .allocate) = some t ∧
      t.frames.allocateFrames n = some (u, r) ∧
      (r = none ↔ (¬∃ i, 2 ^ Nat.clog 2 n.toNat ∣ i ∧ Available m t (Nat.clog 2 n.toNat) i) ∨
        pageFrameMaxOrder < Nat.clog 2 n.toNat) := by
  obtain ⟨s₀, hs₀, htr⟩ := boot_tracks hm.mapped
  have hok : Along step Capped s₀ (as.map FrameRequest.allocate) := by
    clear hs₀ htr
    induction as generalizing s₀ with
    | nil => trivial
    | cons a as ih =>
      exact ⟨has a List.mem_cons_self, fun t _ =>
        ih (fun a ha => has a (List.mem_cons_of_mem _ ha)) t⟩
  obtain ⟨t, ht, q, hq, hcap⟩ := Along.completes
    (I := fun s => ∃ q : Pool m.usable, s.Tracks q ∧ CappedPool q)
    (fun s a ⟨q, hq, hcap⟩ hok => hq.capped_step hcap hok) ⟨_, htr, canonical_capped _⟩ hok
  obtain ⟨u, r, hu, hr⟩ := hq.allocate_none_iff hcap hn hb
  exact ⟨s₀, t, u, r, hs₀, ht, hu, hr⟩

theorem allocations_fail_iff_two : ∃ s₀ t u r, boot (blankMap 2) = some s₀ ∧
    run step s₀ ([1].map .allocate) = some t ∧ t.frames.allocateFrames 2 = some (u, r) ∧
    (r = none ↔ (¬∃ i, 2 ^ Nat.clog 2 (Int.toNat 2) ∣ i ∧
      Available (blankMap 2) t (Nat.clog 2 (Int.toNat 2)) i) ∨
      pageFrameMaxOrder < Nat.clog 2 (Int.toNat 2)) :=
  allocations_fail_iff (blankMap_boot 2) [1] (by simp) 2 (by decide) (by decide)

end FrameSystem
end Amaterasu
