import Mathlib.Data.List.Nodup
import Mathlib.Logic.Function.Basic

/-! Rings of nodes that are linked in both directions, insertion into them and the search along
them. -/

structure RingLinks (α : Type*) where
  next : α → α
  prev : α → α

namespace RingLinks
open Function
variable {α : Type*} {r : RingLinks α} {a b x c : α} {l m : List α}

/-- The links lead from `a` through the nodes `l` to `b`, and back. -/
def Path (r : RingLinks α) (a : α) : List α → α → Prop
  | [], b => r.next a = b ∧ r.prev b = a
  | x :: l, b => r.next a = x ∧ r.prev x = a ∧ r.Path x l b

/-- The ring of `a` and, in their order, the nodes `l`. -/
structure Ring (r : RingLinks α) (a : α) (l : List α) : Prop where
  path : r.Path a l a
  nodup : (a :: l).Nodup

theorem path_append : r.Path a (l ++ x :: m) b ↔ r.Path a l x ∧ r.Path x m b := by
  induction l generalizing a with
  | nil => simp only [List.nil_append, Path, and_assoc]
  | cons y l ih => simp only [List.cons_append, Path, ih, and_assoc]

theorem Path.congr {q : RingLinks α} (h : r.Path a l b) (hnext : ∀ y ∈ a :: l, q.next y = r.next y)
    (hprev : ∀ y ∈ l ++ [b], q.prev y = r.prev y) : q.Path a l b := by
  induction l generalizing a with
  | nil => exact ⟨(hnext a List.mem_cons_self).trans h.1, (hprev b List.mem_cons_self).trans h.2⟩
  | cons y l ih =>
    obtain ⟨hn, hp, hpath⟩ := h
    refine ⟨(hnext a List.mem_cons_self).trans hn, (hprev y List.mem_cons_self).trans hp, ?_⟩
    apply ih hpath
    · intro z hz
      exact hnext z (List.mem_cons_of_mem a hz)
    · intro z hz
      exact hprev z (List.mem_cons_of_mem y hz)

/-- The nodes up to the first `b` are determined by the links. -/
theorem Path.unique (hl : r.Path a l b) (hm : r.Path a m b) (hbl : b ∉ l) (hbm : b ∉ m) :
    l = m := by
  induction l generalizing a m with
  | nil =>
    cases m with
    | nil => rfl
    | cons y m =>
      rw [List.mem_cons, not_or] at hbm
      exact absurd (hl.1.symm.trans hm.1) hbm.1
  | cons x l ih =>
    rw [List.mem_cons, not_or] at hbl
    cases m with
    | nil => exact absurd (hm.1.symm.trans hl.1) hbl.1
    | cons y m =>
      rw [List.mem_cons, not_or] at hbm
      obtain rfl : x = y := hl.1.symm.trans hm.1
      rw [ih hl.2.2 hm.2.2 hbl.2 hbm.2]

theorem Ring.unique (hl : r.Ring a l) (hm : r.Ring a m) : l = m :=
  hl.path.unique hm.path (List.nodup_cons.mp hl.nodup).1 (List.nodup_cons.mp hm.nodup).1

/-- A ring can be read from any of its nodes. -/
theorem Ring.rotate (h : r.Ring a (l ++ x :: m)) : r.Ring x (m ++ a :: l) := by
  obtain ⟨hl, hm⟩ := path_append.mp h.path
  refine ⟨path_append.mpr ⟨hm, hl⟩, ?_⟩
  have hperm : ((a :: l) ++ x :: m).Perm ((x :: m) ++ a :: l) := List.perm_append_comm
  exact hperm.nodup_iff.mp h.nodup

theorem Ring.exists_rotate (h : r.Ring a l) (hx : x ∈ a :: l) :
    ∃ m, r.Ring x m ∧ (x :: m).Perm (a :: l) := by
  rcases List.mem_cons.mp hx with rfl | hx
  · exact ⟨l, h, List.Perm.refl _⟩
  · obtain ⟨before, after, rfl⟩ := List.append_of_mem hx
    have hperm : ((x :: after) ++ a :: before).Perm ((a :: before) ++ x :: after) :=
      List.perm_append_comm
    exact ⟨_, h.rotate, hperm⟩

/-! ## The links of a node -/

theorem Path.prev_mem (h : r.Path a l b) : r.prev b ∈ a :: l := by
  induction l generalizing a with
  | nil => exact List.mem_singleton.mpr h.2
  | cons x l ih => exact List.mem_cons_of_mem a (ih h.2.2)

theorem Ring.prev_next_self (h : r.Ring a l) : r.prev (r.next a) = a ∧ r.next a ∈ a :: l := by
  cases l with
  | nil =>
    obtain ⟨hn, hp⟩ := h.path
    exact ⟨by rw [hn, hp], by rw [hn]; exact List.mem_cons_self⟩
  | cons y l =>
    obtain ⟨hn, hp, -⟩ := h.path
    exact ⟨by rw [hn, hp], by rw [hn]; exact List.mem_cons_of_mem a List.mem_cons_self⟩

theorem Ring.prev_next (h : r.Ring a l) (hx : x ∈ a :: l) :
    r.prev (r.next x) = x ∧ r.next x ∈ a :: l := by
  obtain ⟨m, hm, hperm⟩ := h.exists_rotate hx
  obtain ⟨hback, hmem⟩ := hm.prev_next_self
  exact ⟨hback, hperm.mem_iff.mp hmem⟩

theorem Ring.next_prev_self (h : r.Ring a l) : r.next (r.prev a) = a ∧ r.prev a ∈ a :: l := by
  rcases List.eq_nil_or_concat' l with rfl | ⟨l, y, rfl⟩
  · obtain ⟨hn, hp⟩ := h.path
    exact ⟨by rw [hp, hn], by rw [hp]; exact List.mem_cons_self⟩
  · obtain ⟨-, hn, hp⟩ := path_append.mp h.path
    refine ⟨by rw [hp, hn], ?_⟩
    rw [hp]
    exact List.mem_cons_of_mem a (List.mem_append_right _ List.mem_cons_self)

theorem Ring.next_prev (h : r.Ring a l) (hx : x ∈ a :: l) :
    r.next (r.prev x) = x ∧ r.prev x ∈ a :: l := by
  obtain ⟨m, hm, hperm⟩ := h.exists_rotate hx
  obtain ⟨hback, hmem⟩ := hm.next_prev_self
  exact ⟨hback, hperm.mem_iff.mp hmem⟩

/-! ## Insertion -/

section Insert
variable [DecidableEq α]

theorem Ring.overwrite (h : r.Ring a l) (hc : c ∉ a :: l) (x y : α) :
    RingLinks.Ring ⟨update r.next c x, update r.prev c y⟩ a l := by
  refine ⟨h.path.congr ?_ ?_, h.nodup⟩
  · intro z hz
    have hne : z ≠ c := ne_of_mem_of_not_mem hz hc
    exact update_of_ne hne _ _
  · intro z hz
    have hmem : z ∈ a :: l := List.perm_append_comm.mem_iff.mp hz
    have hne : z ≠ c := ne_of_mem_of_not_mem hmem hc
    exact update_of_ne hne _ _

/-- `c` is inserted after `a`. -/
def insertAfter (r : RingLinks α) (c a : α) : RingLinks α where
  next := update (update r.next a c) c (r.next a)
  prev := update (update r.prev c a) (r.next a) c

/-- Whatever links `c` had before. -/
theorem Ring.insertAfter_self (h : r.Ring a l) (hc : c ∉ a :: l) :
    (r.insertAfter c a).Ring a (c :: l) := by
  obtain ⟨hca, hcl⟩ := not_or.mp (mt List.mem_cons.mpr hc)
  obtain ⟨hal, hl⟩ := List.nodup_cons.mp h.nodup
  have hnext : ∀ y, y ≠ a → y ≠ c → (r.insertAfter c a).next y = r.next y := by
    intro y hya hyc
    show update (update r.next a c) c (r.next a) y = r.next y
    rw [update_of_ne hyc, update_of_ne hya]
  have hprev : ∀ y, y ≠ r.next a → y ≠ c → (r.insertAfter c a).prev y = r.prev y := by
    intro y hya hyc
    show update (update r.prev c a) (r.next a) c y = r.prev y
    rw [update_of_ne hya, update_of_ne hyc]
  have hnexta : (r.insertAfter c a).next a = c := by
    show update (update r.next a c) c (r.next a) a = c
    rw [update_of_ne (Ne.symm hca), update_self]
  have hnextc : (r.insertAfter c a).next c = r.next a := update_self ..
  have hprevb : (r.insertAfter c a).prev (r.next a) = c := update_self ..
  have hfresh : r.next a ≠ c := fun heq => hc (heq ▸ h.prev_next_self.2)
  have hprevc : (r.insertAfter c a).prev c = a := by
    show update (update r.prev c a) (r.next a) c c = a
    rw [update_of_ne (Ne.symm hfresh), update_self]
  refine ⟨⟨hnexta, hprevc, ?_⟩, ?_⟩
  · cases l with
    | nil =>
      have hself : r.next a = a := h.path.1
      rw [hself] at hnextc hprevb
      exact ⟨hnextc, hprevb⟩
    | cons y l =>
      obtain ⟨hn, -, hpath⟩ := h.path
      rw [hn] at hnextc hprevb hprev
      refine ⟨hnextc, hprevb, hpath.congr ?_ ?_⟩
      · intro z hz
        exact hnext z (fun heq => hal (heq ▸ hz)) (fun heq => hcl (heq ▸ hz))
      · intro z hz
        obtain ⟨hyl, -⟩ := List.nodup_cons.mp hl
        rcases List.mem_append.mp hz with hz | hz
        · refine hprev z (fun heq => hyl (heq ▸ hz)) (fun heq => hcl ?_)
          exact List.mem_cons_of_mem y (heq ▸ hz)
        · obtain rfl := List.mem_singleton.mp hz
          exact hprev z (fun heq => hal (heq ▸ List.mem_cons_self)) (Ne.symm hca)
  · refine List.nodup_cons.mpr ⟨?_, List.nodup_cons.mpr ⟨hcl, hl⟩⟩
    exact mt List.mem_cons.mp (not_or.mpr ⟨Ne.symm hca, hal⟩)

/-- A node inserted after any node of the ring. -/
theorem Ring.insertAfter (h : r.Ring a l) (hx : x ∈ a :: l) (hc : c ∉ a :: l) :
    ∃ m, (r.insertAfter c x).Ring a m ∧ m.Perm (c :: l) := by
  obtain ⟨m, hm, hperm⟩ := h.exists_rotate hx
  have hinsert := hm.insertAfter_self (c := c) (fun hmem => hc (hperm.mem_iff.mp hmem))
  have hall : (x :: c :: m).Perm (c :: a :: l) :=
    (List.Perm.swap c x m).trans (hperm.cons c)
  have ha : a ∈ x :: c :: m := hall.mem_iff.mpr (List.mem_cons_of_mem c List.mem_cons_self)
  obtain ⟨n, hn, hback⟩ := hinsert.exists_rotate ha
  have hback' : (a :: n).Perm (a :: c :: l) := (hback.trans hall).trans (List.Perm.swap a c l)
  exact ⟨n, hn, (List.perm_cons a).mp hback'⟩

/-- A node inserted before `a` comes last. -/
theorem Ring.insertBefore (h : r.Ring a l) (hc : c ∉ a :: l) :
    (r.insertAfter c (r.prev a)).Ring a (l ++ [c]) := by
  rcases List.eq_nil_or_concat' l with rfl | ⟨l, y, rfl⟩
  · rw [h.path.2]
    exact h.insertAfter_self hc
  · obtain ⟨-, -, hprev⟩ := path_append.mp h.path
    have hfresh : c ∉ y :: ([] ++ a :: l) := by
      intro hmem
      have hperm : (y :: a :: l).Perm (a :: (l ++ [y])) :=
        @List.perm_append_comm _ [y] (a :: l)
      exact hc (hperm.mem_iff.mp hmem)
    rw [hprev, List.append_assoc]
    exact (h.rotate.insertAfter_self hfresh).rotate (l := [c])

end Insert

/-! ## Removal -/

section Remove
variable [DecidableEq α]

/-- The neighbours of `x` are linked to each other. -/
def remove (r : RingLinks α) (x : α) : RingLinks α where
  next := update r.next (r.prev x) (r.next x)
  prev := update r.prev (r.next x) (r.prev x)

/-- The end of a path is replaced by another node. -/
theorem Path.redirect (h : r.Path a l b) (hl : (a :: l).Nodup) (hc : c ∉ l) :
    RingLinks.Path ⟨update r.next (r.prev b) c, update r.prev c (r.prev b)⟩ a l c := by
  induction l generalizing a with
  | nil =>
    obtain ⟨-, hp⟩ := h
    rw [hp]
    exact ⟨update_self .., update_self ..⟩
  | cons x l ih =>
    obtain ⟨hn, hp, hpath⟩ := h
    obtain ⟨hax, hl⟩ := List.nodup_cons.mp hl
    rw [List.mem_cons, not_or] at hc
    have hlast : a ≠ r.prev b := (ne_of_mem_of_not_mem hpath.prev_mem hax).symm
    refine ⟨?_, ?_, ih hpath hl hc.2⟩
    · show update r.next _ _ a = x
      rw [update_of_ne hlast, hn]
    · show update r.prev _ _ x = a
      rw [update_of_ne (Ne.symm hc.1), hp]

theorem Ring.remove_self (h : r.Ring x (b :: l)) : (r.remove x).Ring b l := by
  obtain ⟨hn, -, hpath⟩ := h.path
  obtain ⟨-, hnodup⟩ := List.nodup_cons.mp h.nodup
  refine ⟨?_, hnodup⟩
  unfold RingLinks.remove
  rw [hn]
  exact hpath.redirect hnodup (List.nodup_cons.mp hnodup).1

/-- The node behind `a` is removed. -/
theorem Ring.remove_next (h : r.Ring a (x :: l)) : (r.remove x).Ring a l := by
  have hx : r.Ring x (l ++ [a]) := h.rotate (l := [])
  cases l with
  | nil => exact hx.remove_self
  | cons b l => exact hx.remove_self.rotate (m := [])

end Remove

/-! ## The search along the ring -/

section Search
variable {good : α → Bool} {n k : Nat}

/-- The first node after `a` that is `good`, among the next `n`. -/
def search (r : RingLinks α) (good : α → Bool) : Nat → α → Option α
  | 0, _ => none
  | n + 1, a => if good (r.next a) then some (r.next a) else r.search good n (r.next a)

theorem Path.search (h : r.Path a l b) :
    r.search good (l.length + 1) a = (l ++ [b]).find? good := by
  induction l generalizing a with
  | nil =>
    have hb : r.next a = b := h.1
    unfold RingLinks.search
    rw [hb, List.nil_append, List.find?_singleton]
    rfl
  | cons x l ih =>
    obtain ⟨hx, -, hpath⟩ := h
    rw [List.length_cons, RingLinks.search, hx, ih hpath, List.cons_append, List.find?_cons]
    cases good x <;> rfl

theorem search_mono (h : r.search good n a = some b) (hk : n ≤ k) : r.search good k a = some b := by
  induction n generalizing a k with
  | zero => cases h
  | succ n ih =>
    obtain ⟨k, rfl⟩ : ∃ j, k = j + 1 := ⟨k - 1, by omega⟩
    unfold search at h ⊢
    split_ifs at h ⊢ with hgood
    · exact h
    · exact ih h (by omega)

theorem Ring.search_mem (h : r.Ring a l) (hx : x ∈ a :: l) (hs : r.search good n x = some b) :
    b ∈ a :: l ∧ good b = true := by
  induction n generalizing x with
  | zero => cases hs
  | succ n ih =>
    have hnext := (h.prev_next hx).2
    unfold RingLinks.search at hs
    split_ifs at hs with hgood
    · obtain rfl := Option.some.inj hs
      exact ⟨hnext, hgood⟩
    · exact ih hnext hs

/-- What is found is the first good node in the order of the ring, `a` itself the last. -/
theorem Ring.search_eq (h : r.Ring a l) (hn : l.length < n) :
    r.search good n a = (l ++ [a]).find? good := by
  cases hf : (l ++ [a]).find? good with
  | some b => exact search_mono (h.path.search.trans hf) hn
  | none =>
    by_contra hne
    obtain ⟨b, hb⟩ := Option.ne_none_iff_exists'.mp hne
    obtain ⟨hmem, hgood⟩ := h.search_mem List.mem_cons_self hb
    exact List.find?_eq_none.mp hf b (List.perm_append_comm.mem_iff.mp hmem) hgood

/-- The search from a node of the ring ends when, and only when, a node of the ring is good. -/
theorem Ring.search_ends_iff (h : r.Ring a l) (hx : x ∈ a :: l) :
    (∃ n, (r.search good n x).isSome) ↔ ∃ y ∈ a :: l, good y = true := by
  constructor
  · rintro ⟨n, hn⟩
    obtain ⟨b, hb⟩ := Option.isSome_iff_exists.mp hn
    exact ⟨b, h.search_mem hx hb⟩
  · rintro ⟨y, hy, hgood⟩
    obtain ⟨m, hm, hperm⟩ := h.exists_rotate hx
    have hmem : y ∈ m ++ [x] :=
      (List.perm_append_comm.mem_iff.trans hperm.mem_iff).mpr hy
    refine ⟨m.length + 1, ?_⟩
    rw [hm.path.search, List.find?_isSome]
    exact ⟨y, hmem, hgood⟩

/-- The results of `k` searches, each from the result of the one before. -/
def searches (r : RingLinks α) (good : α → Bool) (n : Nat) : Nat → α → Option (List α)
  | 0, _ => some []
  | k + 1, a => do
    let b ← r.search good n a
    let bs ← r.searches good n k b
    return b :: bs

/-- The ring read from what the search finds, and the nodes that are good from there. -/
theorem Ring.exists_found (h : r.Ring a l) (hf : (l ++ [a]).find? good = some b) :
    ∃ m rest, r.Ring b m ∧ m.length = l.length ∧ (l ++ [a]).filter good = b :: rest ∧
      (m ++ [b]).filter good = rest ++ [b] := by
  obtain ⟨hgood, before, after, hsplit, hbefore⟩ := List.find?_eq_some_iff_append.mp hf
  have hskip : before.filter good = [] := by
    apply List.filter_eq_nil_iff.mpr
    intro y hy hg
    have hno := hbefore y hy
    rw [hg] at hno
    cases hno
  have hall : (l ++ [a]).filter good = b :: after.filter good := by
    rw [hsplit, List.filter_append, hskip, List.nil_append, List.filter_cons_of_pos hgood]
  rcases List.eq_nil_or_concat' after with rfl | ⟨after, y, rfl⟩
  · -- only `a` itself is good
    obtain ⟨rfl, hab⟩ := List.append_inj' hsplit rfl
    obtain rfl := (List.cons.inj hab).1
    exact ⟨l, [], h, rfl, hall, hall⟩
  · have hsplit' : l ++ [a] = (before ++ b :: after) ++ [y] := by
      rw [hsplit, List.append_assoc, List.cons_append]
    obtain ⟨rfl, hay⟩ := List.append_inj' hsplit' rfl
    obtain rfl := (List.cons.inj hay).1
    refine ⟨after ++ a :: before, _, h.rotate, ?_, hall, ?_⟩
    · rw [List.length_append, List.length_append, List.length_cons, List.length_cons]
      omega
    · have hlast : (a :: before).filter good = [a].filter good := by
        rw [← List.singleton_append, List.filter_append, hskip, List.append_nil]
      have hb : [b].filter good = [b] := by rw [List.filter_cons_of_pos hgood, List.filter_nil]
      rw [List.filter_append, List.filter_append, hlast, hb, List.filter_append]

/-- One search after the other finds the good nodes one after the other. -/
theorem Ring.searches (h : r.Ring a l) (hn : l.length < n)
    (hk : k ≤ ((l ++ [a]).filter good).length) :
    r.searches good n k a = some (((l ++ [a]).filter good).take k) := by
  induction k generalizing a l with
  | zero => rfl
  | succ k ih =>
    have hne : ∃ y ∈ l ++ [a], good y = true := by
      obtain ⟨y, ys, hy⟩ := List.exists_cons_of_length_pos (Nat.zero_lt_of_lt hk)
      exact ⟨y, List.mem_filter.mp (hy ▸ List.mem_cons_self)⟩
    obtain ⟨b, hb⟩ := Option.isSome_iff_exists.mp (List.find?_isSome.mpr hne)
    obtain ⟨m, rest, hm, hlen, hfilter, hnext⟩ := h.exists_found hb
    rw [hfilter, List.length_cons] at hk
    have hrest : k ≤ ((m ++ [b]).filter good).length := by
      rw [hnext, List.length_append]
      omega
    have htail := ih hm (by omega) hrest
    rw [hnext, List.take_append_of_le_length (by omega)] at htail
    unfold RingLinks.searches
    rw [h.search_eq hn, hb, Option.bind_eq_bind, Option.bind_some, htail, hfilter]
    rfl

end Search
end RingLinks
