import Amaterasu.Multitasking.Transparency

/-! The page frames of the processes, in every state that a run leads to: each has one owner, the
allocator will not grant it again, and user code writes two pages of its own. -/

namespace Amaterasu
open Cpu PageWalk Function Runs Machine

section Confinement
variable {l : Link} {m : PageFrames} {t : Machine} {x : Tasks} {p q : Nat} {a la : BitVec 64}
  {v : BitVec 8}

/-- The frame at `a` is one that the map offers, and it is not free. -/
structure InUse (m : PageFrames) (s : FrameSystem) (a : BitVec 64) : Prop where
  aligned : 4096 ∣ a.toNat
  offered : a.toNat / 4096 < m.totalPageNumber ∧ (m.memoryMap (a.toNat / 4096)).isReserved = false
  taken : ∀ b ∈ s.frames.freeBlocks, a.toNat / 4096 ∉ b.span

theorem Represents.inUse (h : Represents l m t x) (hp : p ∈ t.created) (ha : a ∈ t.framesOf p) :
    InUse m t.frames a := by
  obtain ⟨q, hq⟩ := h.tracks
  have hno := hq.noOverlap
  have hlive := h.separate.live p hp a ha
  have hspan : a.toNat / 4096 ∈ (FrameSystem.frameBlock a).span := Block.start_mem_span _
  constructor
  · exact (h.separate.frame hp ha).aligned
  · exact hno.offered _ (Or.inl hlive) _ hspan
  · intro b hb hmem
    exact Set.disjoint_left.mp (hno.apart _ hlive b hb) hspan hmem

/-- No frame of a process is one of another process or of the allocator's. -/
theorem frames_apart (hm : m.Mapped) (hlow : m.totalPageNumber ≤ 5 * 2 ^ 18)
    (ht : Reachable l m t) (hp : p ∈ t.created) :
    (t.framesOf p).Nodup ∧ (∀ a ∈ t.framesOf p, InUse m t.frames a) ∧
      ∀ q ∈ t.created, p ≠ q → (t.framesOf p).Disjoint (t.framesOf q) := by
  obtain ⟨x, hx⟩ := ht.represents hm hlow
  refine ⟨(hx.separate.framed p hp).nodup, fun a ha => hx.inUse hp ha, fun q hq hpq a ha hb => ?_⟩
  exact hx.separate.apart p hp q hq hpq a ha hb

theorem frames_apart_two : ∃ t, Reachable lowLink lowMap t ∧
    t.created = [1, 0] ∧ (t.framesOf 0).Disjoint (t.framesOf 1) := by
  have hsome : (lowBoot.bind fun s => run (Machine.step lowLink) s lowFork).isSome = true := by
    decide +kernel
  have hcreated : ∀ t ∈ lowBoot.bind fun s => run (Machine.step lowLink) s lowFork,
      t.created = [1, 0] := by decide +kernel
  obtain ⟨t, ht⟩ := Option.isSome_iff_exists.mp hsome
  obtain ⟨s, hs, hr⟩ := Option.bind_eq_some_iff.mp ht
  have hreach := lowFork_reachable hs hr
  have htwo := hcreated t ht
  obtain ⟨-, -, hdisjoint⟩ := frames_apart (p := 0) lowMap_mapped (by decide) hreach
    (by rw [htwo]; decide)
  exact ⟨t, hreach, htwo, hdisjoint 1 (by rw [htwo]; decide) (by decide)⟩

end Confinement
end Amaterasu
