import Amaterasu.Library.Ring

/-! Waiting in a ring. A turn goes along the links, and nodes are inserted behind the place where it
is: nobody has a second turn before `g` has its first. -/

namespace RingLinks
open Function
variable {α : Type*} {r : RingLinks α} {x y g c : α} {l before passed : List α}

/-- The nodes `before` come on the way from `x` to `g`, and `passed` only behind `g`. -/
def Ahead (r : RingLinks α) (x g : α) (before passed : List α) : Prop :=
  ∃ l after, r.Ring x l ∧ l ++ [x] = before ++ g :: after ∧ passed ⊆ after

theorem Ring.ahead (h : r.Ring x l) (hg : g ∈ x :: l) :
    ∃ before, r.Ahead x g before [] ∧ before.length ≤ l.length := by
  have hmem : g ∈ l ++ [x] := List.perm_append_singleton x l |>.symm.mem_iff.mp hg
  obtain ⟨before, after, heq⟩ := List.append_of_mem hmem
  refine ⟨before, ⟨l, after, h, heq, List.nil_subset _⟩, ?_⟩
  have hlen := congrArg List.length heq
  simp only [List.length_append, List.length_cons, List.length_nil] at hlen
  omega

/-- The node where the turn is comes behind every other one. -/
theorem Ring.ahead_self (h : r.Ring x l) (hg : g ∈ l) :
    ∃ before, r.Ahead x g before [x] ∧ before.length ≤ l.length := by
  obtain ⟨before, after, rfl⟩ := List.append_of_mem hg
  refine ⟨before, ⟨_, after ++ [x], h, List.append_assoc .., ?_⟩, ?_⟩
  · exact List.subset_append_right after [x]
  · rw [List.length_append]
    exact Nat.le_add_right ..

theorem Ahead.next (h : r.Ahead x g [] passed) : r.next x = g := by
  obtain ⟨l, after, hring, heq, -⟩ := h
  cases l with
  | nil =>
    obtain ⟨rfl, -⟩ := List.cons.inj heq
    exact hring.path.1
  | cons y l =>
    obtain ⟨rfl, -⟩ := List.cons.inj heq
    exact hring.path.1

/-- The turn goes to a node that has not been passed. -/
theorem Ahead.advance (h : r.Ahead x g (y :: before) passed) :
    r.next x = y ∧ y ∉ passed ∧ r.Ahead y g before (y :: passed) := by
  obtain ⟨l, after, hring, heq, hpassed⟩ := h
  cases l with
  | nil =>
    obtain ⟨-, hnil⟩ := List.cons.inj heq
    cases before <;> cases hnil
  | cons z l =>
    obtain ⟨rfl, htail⟩ := List.cons.inj heq
    have htail : l ++ [x] = before ++ g :: after := htail
    refine ⟨hring.path.1, fun hmem => ?_, l ++ [x], after ++ [z], hring.rotate (l := []), ?_, ?_⟩
    · have hin : z ∈ l ++ [x] := by
        rw [htail]
        exact List.mem_append_right _ (List.mem_cons_of_mem _ (hpassed hmem))
      obtain ⟨hx, hl⟩ := List.nodup_cons.mp hring.nodup
      rcases List.mem_append.mp hin with hin | hin
      · exact (List.nodup_cons.mp hl).1 hin
      · exact hx (List.mem_singleton.mp hin ▸ List.mem_cons_self)
    · rw [htail, List.append_assoc, List.cons_append]
    · exact List.cons_subset.mpr ⟨List.mem_append_right _ List.mem_cons_self,
        List.Subset.trans hpassed (List.subset_append_left after [z])⟩

/-- Whatever links `c` had before. -/
theorem Ahead.insertAfter [DecidableEq α] (h : r.Ahead x g before passed)
    (hc : ∀ l, r.Ring x l → c ∉ x :: l) (y z : α) :
    (RingLinks.insertAfter ⟨update r.next c y, update r.prev c z⟩ c x).Ahead x g (c :: before)
      passed := by
  obtain ⟨l, after, hring, heq, hpassed⟩ := h
  have hinsert := (hring.overwrite (hc l hring) y z).insertAfter_self (hc l hring)
  refine ⟨c :: l, after, hinsert, ?_, hpassed⟩
  rw [List.cons_append, heq]
  rfl

end RingLinks
