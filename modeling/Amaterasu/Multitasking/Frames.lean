import Amaterasu.Multitasking.Defs

/-! The frames of a new process: `AllocatePageFrames` returns frames that nobody has. -/

namespace Amaterasu
open Block

namespace FrameSystem

/-- The live allocation of the frame at an address. -/
def frameBlock (a : BitVec 64) : Block := ⟨0, a.toNat / 4096⟩

/-- Frames that were free in `s` and are live in `t`, with all that was live. -/
structure Granted (m : PageFrames) (s t : FrameSystem) (addresses : List (BitVec 64)) : Prop where
  tracks : ∃ q : Pool m.usable, t.Tracks q
  nodup : addresses.Nodup
  frame : ∀ a ∈ addresses, IsFrame a
  free : ∀ a ∈ addresses, frameBlock a ∉ s.live
  live : ∀ a ∈ addresses, frameBlock a ∈ t.live
  kept : ∀ b ∈ s.live, b ∈ t.live

variable {m : PageFrames} {s t u : FrameSystem} {i : Nat}

theorem granted_one (i : Nat) : granted 1 i = ⟨0, i⟩ := by
  have hclog : Nat.clog 2 (Int.toNat 1) = 0 := by decide
  unfold granted
  rw [hclog]

theorem toNat_frameAddress (hi : i < 2 ^ 40) :
    (BitVec.ofNat 64 (PageFrames.frameAddress (some i))).toNat = i * 4096 := by
  show i <<< 12 % 2 ^ 64 = _
  rw [Nat.shiftLeft_eq]
  omega

/-- A call of `AllocatePageFrames(1)` that does not return 0. -/
theorem Tracks.allocateOne {p : Pool m.usable} (h : s.Tracks p)
    (hm : m.totalPageNumber ≤ 2 ^ 40) {r : PageFrames × Nat}
    (hr : s.frames.allocatePageFrames 1 = some r) (ht : s.step (.allocate 1) = some t)
    (hne : BitVec.ofNat 64 r.2 ≠ 0) : ∃ i < 2 ^ 40, r.2 = PageFrames.frameAddress (some i) ∧
      t.live = ⟨0, i⟩ :: s.live ∧ ∃ q : Pool m.usable, t.Tracks q := by
  rcases h.allocate (n := 1) (by decide) (by decide) with
    ⟨hnone, -⟩ | ⟨t', u, i, d, q, hu, ht', hq, -, -, hfree, -⟩
  · rw [PageFrames.allocatePageFrames, hnone] at hr
    obtain rfl := Option.some.inj hr
    exact absurd rfl hne
  · obtain rfl := Option.some.inj (ht.symm.trans ht')
    rw [PageFrames.allocatePageFrames, hu] at hr
    obtain rfl := Option.some.inj hr
    have hi : i < m.totalPageNumber :=
      (p.span_subset (Or.inl hfree) (start_mem_span (⟨d, i⟩ : Block))).1
    refine ⟨i, hi.trans_le hm, rfl, ?_, q, hq⟩
    rw [step, hu] at ht
    obtain rfl := Option.some.inj ht
    show granted 1 i :: s.live = _
    rw [granted_one]

theorem Tracks.allocateOnes (hm : m.totalPageNumber ≤ 2 ^ 40) (calls : Nat) :
    ∀ {s t : FrameSystem} {p : Pool m.usable} {addresses : List (BitVec 64)}, s.Tracks p →
      s.allocateOnes calls = some (t, addresses) → 0 ∉ addresses → Granted m s t addresses := by
  induction calls with
  | zero =>
    intro s t p addresses h hr _
    obtain ⟨rfl, rfl⟩ := Prod.mk.inj (Option.some.inj hr)
    exact ⟨⟨p, h⟩, List.nodup_nil, fun _ ha => absurd ha List.not_mem_nil,
      fun _ ha => absurd ha List.not_mem_nil, fun _ ha => absurd ha List.not_mem_nil,
      fun _ hb => hb⟩
  | succ calls ih =>
    intro s t p addresses h hr hne
    unfold FrameSystem.allocateOnes at hr
    obtain ⟨r, hfirst, hr⟩ := Option.bind_eq_some_iff.mp hr
    obtain ⟨u, hu, hr⟩ := Option.bind_eq_some_iff.mp hr
    obtain ⟨⟨t', rest⟩, hrest, hr⟩ := Option.bind_eq_some_iff.mp hr
    obtain ⟨rfl, rfl⟩ := Prod.mk.inj (Option.some.inj hr)
    rw [List.mem_cons, not_or] at hne
    obtain ⟨i, hi, haddress, hlive, q, hq⟩ := h.allocateOne hm hfirst hu (Ne.symm hne.1)
    obtain ⟨htracks, hnodup, hframe, hfree, hin, hkept⟩ := ih hq hrest hne.2
    have hnat : (BitVec.ofNat 64 r.2).toNat = i * 4096 := by rw [haddress, toNat_frameAddress hi]
    have hblock : frameBlock (BitVec.ofNat 64 r.2) = ⟨0, i⟩ := by
      unfold frameBlock
      rw [hnat, Nat.mul_div_cancel _ (by decide)]
    have hnew : ⟨0, i⟩ ∈ u.live := hlive ▸ List.mem_cons_self
    have hnotin : ⟨0, i⟩ ∉ s.live := (List.nodup_cons.mp (hlive ▸ hq.nodup)).1
    refine ⟨htracks, List.nodup_cons.mpr ⟨fun hmem => ?_, hnodup⟩, ?_, ?_, ?_, fun b hb => ?_⟩
    · exact hfree _ hmem (hblock ▸ hnew)
    · rw [List.forall_mem_cons]
      exact ⟨⟨⟨i, by rw [hnat, Nat.mul_comm]⟩, by omega⟩, hframe⟩
    · rw [List.forall_mem_cons, hblock]
      exact ⟨hnotin, fun a ha hb => hfree a ha (hlive ▸ List.mem_cons_of_mem _ hb)⟩
    · rw [List.forall_mem_cons, hblock]
      exact ⟨hkept _ hnew, hin⟩
    · exact hkept b (hlive ▸ List.mem_cons_of_mem _ hb)

end FrameSystem

theorem ForkFrames.ofList_eq {addresses : List (BitVec 64)} {n : ForkFrames}
    (h : ForkFrames.ofList addresses = some n) : addresses = n.toList := by
  unfold ForkFrames.ofList at h
  split at h
  · obtain rfl := Option.some.inj h
    rfl
  · cases h

end Amaterasu
