import Mathlib.Data.List.Nodup
import Mathlib.Data.Set.Basic
import Mathlib.Logic.Function.Basic

/-! A family of intrusive linked lists over one array of nodes: one head pointer
for each list and one pair of link fields for each node. The abstract contents
of the family are recovered from the pointers and follow the pointer surgery. -/

/-- The head pointers of the lists and the link fields of the nodes. -/
structure Links (κ ι : Type*) where
  head : κ → Option ι
  next : ι → Option ι
  prev : ι → Option ι

namespace Links
open Function
variable {κ ι : Type*}

/-! ## Paths along one link field -/

/-- Following `next` from the pointer `h` visits exactly `xs` and arrives at the pointer `e`. -/
def Path (next : ι → Option ι) : Option ι → List ι → Option ι → Prop
  | h, [], e => h = e
  | h, x :: xs, e => h = some x ∧ Path next (next x) xs e

/-- The last node of `xs`, or the pointer `p` when there is none. -/
def lastOr : Option ι → List ι → Option ι
  | p, [] => p
  | _, x :: xs => lastOr (some x) xs

/-- The `prev` fields of `xs` name the preceding node, the first one `p`. -/
def Back (prev : ι → Option ι) : Option ι → List ι → Prop
  | _, [] => True
  | p, x :: xs => prev x = p ∧ Back prev (some x) xs

/-- The node `x` is met when `next` is followed from a pointer. -/
inductive Reach (next : ι → Option ι) : Option ι → ι → Prop
  | here (x : ι) : Reach next (some x) x
  | step {x y : ι} : Reach next (next x) y → Reach next (some x) y

theorem path_append {next : ι → Option ι} {h e : Option ι} {xs ys : List ι} :
    Path next h (xs ++ ys) e ↔ ∃ m, Path next h xs m ∧ Path next m ys e := by
  induction xs generalizing h with
  | nil => simp [Path]
  | cons x xs ih => simp only [List.cons_append, Path, ih, exists_and_left, and_assoc]

theorem path_congr {next next' : ι → Option ι} {h e : Option ι} {xs : List ι}
    (hx : ∀ x ∈ xs, next' x = next x) : Path next' h xs e ↔ Path next h xs e := by
  induction xs generalizing h with
  | nil => rfl
  | cons x xs ih =>
    rw [Path, Path, hx x List.mem_cons_self, ih fun y hy => hx y (List.mem_cons_of_mem _ hy)]

theorem path_head {next : ι → Option ι} {h : Option ι} {xs : List ι} (hp : Path next h xs none) :
    h = xs.head? := by
  cases xs with
  | nil => exact hp
  | cons x xs => exact hp.1

theorem reach_iff {next : ι → Option ι} {h : Option ι} {xs : List ι}
    (hp : Path next h xs none) {y : ι} : Reach next h y ↔ y ∈ xs := by
  induction xs generalizing h with
  | nil =>
    rw [show h = none from hp]
    exact ⟨(fun hr => nomatch hr), fun hy => absurd hy List.not_mem_nil⟩
  | cons x xs ih =>
    obtain ⟨rfl, htail⟩ := hp
    rw [List.mem_cons, ← ih htail]
    constructor
    · intro hr
      cases hr with
      | here => exact Or.inl rfl
      | step hr => exact Or.inr hr
    · rintro (rfl | hr)
      · exact Reach.here _
      · exact Reach.step hr

theorem path_unique {next : ι → Option ι} {h : Option ι} {xs ys : List ι}
    (hx : Path next h xs none) (hy : Path next h ys none) : xs = ys := by
  induction xs generalizing h ys with
  | nil =>
    cases ys with
    | nil => rfl
    | cons y ys => exact absurd (hx.symm.trans hy.1) (Option.some_ne_none y).symm
  | cons x xs ih =>
    cases ys with
    | nil => exact absurd (hy.symm.trans hx.1) (Option.some_ne_none x).symm
    | cons y ys =>
      obtain rfl : x = y := Option.some.inj (hx.1.symm.trans hy.1)
      rw [ih hx.2 hy.2]

/-- A null-ended path cannot come back to a node. -/
theorem path_nodup {next : ι → Option ι} {h : Option ι} {xs : List ι}
    (hp : Path next h xs none) : xs.Nodup := by
  induction xs generalizing h with
  | nil => exact List.nodup_nil
  | cons x xs ih =>
    refine List.nodup_cons.mpr ⟨fun hx => ?_, ih hp.2⟩
    obtain ⟨as, bs, rfl⟩ := List.append_of_mem hx
    obtain ⟨_, -, -, hbs⟩ := path_append.mp hp.2
    have := congrArg List.length (path_unique hp.2 hbs)
    simp at this
    omega

theorem lastOr_append (p : Option ι) (xs ys : List ι) :
    lastOr p (xs ++ ys) = lastOr (lastOr p xs) ys := by
  induction xs generalizing p with
  | nil => rfl
  | cons x xs ih => exact ih (some x)

theorem back_append {prev : ι → Option ι} {p : Option ι} {xs ys : List ι} :
    Back prev p (xs ++ ys) ↔ Back prev p xs ∧ Back prev (lastOr p xs) ys := by
  induction xs generalizing p with
  | nil => simp [Back, lastOr]
  | cons x xs ih => simp only [List.cons_append, Back, lastOr, ih, and_assoc]

theorem back_congr {prev prev' : ι → Option ι} {p : Option ι} {xs : List ι}
    (hx : ∀ x ∈ xs, prev' x = prev x) : Back prev' p xs ↔ Back prev p xs := by
  induction xs generalizing p with
  | nil => rfl
  | cons x xs ih =>
    rw [Back, Back, hx x List.mem_cons_self, ih fun y hy => hx y (List.mem_cons_of_mem _ hy)]

/-- When the last node before a pointer is `p`, the list ends with it. -/
theorem lastOr_mem {xs : List ι} {p : ι} (h : lastOr none xs = some p) :
    ∃ zs, xs = zs ++ [p] := by
  rcases List.eq_nil_or_concat xs with rfl | ⟨zs, z, rfl⟩
  · cases h
  · rw [List.concat_eq_append, lastOr_append] at h
    obtain rfl : z = p := Option.some.inj h
    exact ⟨zs, List.concat_eq_append⟩

theorem lastOr_none (xs : List ι) : lastOr none xs = xs.getLast? := by
  rcases List.eq_nil_or_concat xs with rfl | ⟨zs, z, rfl⟩
  · rfl
  · rw [List.concat_eq_append, lastOr_append, List.getLast?_concat]
    rfl

/-- Back links from the first node and from what `next` joins. -/
theorem back_of_path {next prev : ι → Option ι} {h p : Option ι} {xs : List ι}
    (hpath : Path next h xs none) (hfirst : ∀ x, h = some x → prev x = p)
    (hnext : ∀ x ∈ xs, ∀ y ∈ xs, next x = some y → prev y = some x) : Back prev p xs := by
  induction xs generalizing h p with
  | nil => trivial
  | cons x xs ih =>
    refine ⟨hfirst x hpath.1, ih hpath.2 (fun y hy => ?_) fun y hy z hz =>
      hnext y (List.mem_cons_of_mem _ hy) z (List.mem_cons_of_mem _ hz)⟩
    have hyx : y ∈ xs := List.mem_of_mem_head? ((path_head hpath.2).symm.trans hy)
    exact hnext x List.mem_cons_self y (List.mem_cons_of_mem _ hyx) hy

/-! ## Families of lists -/

/-- The lists have no node twice. -/
structure Distinct (ls : κ → List ι) : Prop where
  nodup : ∀ k, (ls k).Nodup
  apart : ∀ j k x, x ∈ ls j → x ∈ ls k → j = k

/-- The pointers spell the doubly linked lists `ls`. -/
structure Holds (l : Links κ ι) (ls : κ → List ι) : Prop extends Distinct ls where
  path : ∀ k, Path l.next (l.head k) (ls k) none
  back : ∀ k, Back l.prev none (ls k)

/-- The pointers spell the singly linked lists `ls`, and no back link is set. -/
structure HoldsForward (l : Links κ ι) (ls : κ → List ι) : Prop extends Distinct ls where
  path : ∀ k, Path l.next (l.head k) (ls k) none
  prev : ∀ x, l.prev x = none

/-- The pointers spell the singly linked lists `ls`, and no node in them has a back link. -/
structure HoldsOneWay (l : Links κ ι) (ls : κ → List ι) : Prop extends Distinct ls where
  path : ∀ k, Path l.next (l.head k) (ls k) none
  prev : ∀ k, ∀ x ∈ ls k, l.prev x = none

/-- In each list, `next` and `prev` undo each other. -/
def Inverse (l : Links κ ι) (ls : κ → List ι) : Prop :=
  ∀ k, ∀ x ∈ ls k, ∀ y ∈ ls k, l.next x = some y ↔ l.prev y = some x

/-- Each list is null-ended, no `prev` leads out of it, `next` and `prev` undo each other in it,
and no node is in two lists. -/
structure DoublyLinked (l : Links κ ι) (ls : κ → List ι) : Prop where
  path : ∀ k, Path l.next (l.head k) (ls k) none
  first : ∀ k x, l.head k = some x → l.prev x = none
  inverse : l.Inverse ls
  apart : ∀ j k x, x ∈ ls j → x ∈ ls k → j = k

theorem HoldsForward.oneWay {l : Links κ ι} {ls : κ → List ι} (h : l.HoldsForward ls) :
    l.HoldsOneWay ls := ⟨h.toDistinct, h.path, fun _ x _ => h.prev x⟩

/-- What the link fields of a node of list `k` say about its neighbours. -/
theorem Holds.around {l : Links κ ι} {ls : κ → List ι} (h : l.Holds ls) {k : κ} {x : ι}
    {xs ys : List ι} (hk : ls k = xs ++ x :: ys) :
    Path l.next (l.head k) xs (some x) ∧ Path l.next (l.next x) ys none ∧
      Back l.prev none xs ∧ l.prev x = lastOr none xs ∧ Back l.prev (some x) ys := by
  have hpath := h.path k
  have hback := h.back k
  rw [hk] at hpath hback
  obtain ⟨m, hm, rfl, hys⟩ := path_append.mp hpath
  obtain ⟨hbx, hpx, hby⟩ := back_append.mp hback
  exact ⟨hm, hys, hbx, hpx, hby⟩

theorem Holds.inverse {l : Links κ ι} {ls : κ → List ι} (h : l.Holds ls) : l.Inverse ls := by
  intro k x hx y hy
  constructor
  · intro hxy
    obtain ⟨as, bs, hk⟩ := List.append_of_mem hx
    obtain ⟨-, hbs, -, -, hback⟩ := h.around hk
    cases bs with
    | nil => exact absurd (hbs.symm.trans hxy) (Option.some_ne_none y).symm
    | cons b bs =>
      obtain rfl : b = y := Option.some.inj (hbs.1.symm.trans hxy)
      exact hback.1
  · intro hyx
    obtain ⟨as, bs, hk⟩ := List.append_of_mem hy
    obtain ⟨has, -, -, hprev, -⟩ := h.around hk
    obtain ⟨zs, rfl⟩ := lastOr_mem (hprev.symm.trans hyx)
    obtain ⟨_, -, rfl, hlast⟩ := path_append.mp has
    exact hlast

theorem doublyLinked_iff {l : Links κ ι} {ls : κ → List ι} : l.DoublyLinked ls ↔ l.Holds ls := by
  constructor
  · intro h
    exact ⟨⟨fun k => path_nodup (h.path k), h.apart⟩, h.path, fun k =>
      back_of_path (h.path k) (h.first k) fun x hx y hy => (h.inverse k x hx y hy).mp⟩
  · intro h
    refine ⟨h.path, fun k x hx => ?_, h.inverse, h.apart⟩
    have hhead := path_head (h.path k)
    have hback := h.back k
    cases hk : ls k with
    | nil =>
      rw [hk, hx] at hhead
      exact absurd hhead (Option.some_ne_none x)
    | cons y ys =>
      rw [hk] at hhead hback
      obtain rfl : x = y := Option.some.inj (hx.symm.trans hhead)
      exact hback.1

/-- Lists without back links are doubly linked when they join no two nodes. -/
theorem HoldsOneWay.inverse_iff {l : Links κ ι} {ls : κ → List ι} (h : l.HoldsOneWay ls) :
    l.Inverse ls ↔ ∀ k, (ls k).length ≤ 1 := by
  constructor
  · intro hinv k
    have hpath := h.path k
    have hprev := h.prev k
    have hk := hinv k
    match hls : ls k with
    | [] => exact Nat.zero_le 1
    | [x] => exact le_rfl
    | x :: y :: zs =>
      rw [hls] at hpath hprev hk
      have hy : l.prev y = some x := (hk x (by simp) y (by simp)).mp hpath.2.1
      exact absurd ((hprev y (by simp)).symm.trans hy) (Option.some_ne_none x).symm
  · intro hlen k x hx y hy
    have hpath := h.path k
    have hxy := h.prev k y hy
    obtain ⟨z, hz⟩ := List.length_eq_one_iff.mp
      (le_antisymm (hlen k) (List.length_pos_of_mem hx))
    rw [hz] at hpath hx
    obtain rfl := List.mem_singleton.mp hx
    have hend : l.next x = none := hpath.2
    simp [hend, hxy]

/-! ## Membership -/

/-- The nodes of list `k`, as its pointers give them. -/
def members (l : Links κ ι) (k : κ) : Set ι := {x | Reach l.next (l.head k) x}

/-- The pointers spell some family of doubly linked lists. -/
def Linked (l : Links κ ι) : Prop := ∃ ls, l.Holds ls

/-- The pointers spell some family of singly linked lists. -/
def Chained (l : Links κ ι) : Prop := ∃ ls, l.HoldsForward ls

theorem Holds.mem_iff {l : Links κ ι} {ls : κ → List ι} (h : l.Holds ls) {k : κ} {x : ι} :
    x ∈ l.members k ↔ x ∈ ls k := reach_iff (h.path k)

theorem HoldsForward.mem_iff {l : Links κ ι} {ls : κ → List ι} (h : l.HoldsForward ls) {k : κ}
    {x : ι} : x ∈ l.members k ↔ x ∈ ls k := reach_iff (h.path k)

theorem Chained.prev_eq_none {l : Links κ ι} (h : l.Chained) (x : ι) : l.prev x = none := by
  obtain ⟨_, h⟩ := h
  exact h.prev x

theorem Chained.singleton {l : Links κ ι} (h : l.Chained) {k : κ} {x : ι}
    (hx : ∀ y, y ∈ l.members k ↔ y = x) : l.head k = some x ∧ l.next x = none := by
  obtain ⟨ls, h⟩ := h
  have hpath := h.path k
  have hnd := h.nodup k
  have hls : ∀ y, y ∈ ls k ↔ y = x := fun y => by rw [← h.mem_iff, hx]
  cases hk : ls k with
  | nil => exact absurd ((hls x).mpr rfl) (by simp [hk])
  | cons y ys =>
    rw [hk] at hpath hnd hls
    obtain rfl : y = x := (hls y).mp List.mem_cons_self
    cases ys with
    | nil => exact ⟨hpath.1, hpath.2⟩
    | cons z zs =>
      obtain rfl : z = y := (hls z).mp (by simp)
      exact absurd List.mem_cons_self (List.nodup_cons.mp hnd).1

theorem distinct_nil : Distinct fun _ : κ => ([] : List ι) :=
  ⟨fun _ => List.nodup_nil, fun _ _ _ hx => absurd hx List.not_mem_nil⟩

theorem holdsOneWay_of_empty {l : Links κ ι} (h : ∀ k, l.head k = none) :
    l.HoldsOneWay fun _ => [] := ⟨distinct_nil, h, fun _ _ hx => absurd hx List.not_mem_nil⟩

theorem holds_of_empty {l : Links κ ι} (h : ∀ k, l.head k = none) : l.Holds fun _ => [] :=
  ⟨distinct_nil, h, fun _ => trivial⟩

theorem linked_of_empty {l : Links κ ι} (h : ∀ k, l.head k = none) : l.Linked :=
  ⟨_, holds_of_empty h⟩

theorem head_mem {l : Links κ ι} {k : κ} {x : ι} (h : l.head k = some x) : x ∈ l.members k := by
  change Reach l.next (l.head k) x
  rw [h]
  exact Reach.here x

theorem members_eq_empty {l : Links κ ι} {k : κ} (h : l.head k = none) : l.members k = ∅ := by
  refine Set.eq_empty_iff_forall_notMem.mpr fun x hx => ?_
  change Reach l.next (l.head k) x at hx
  rw [h] at hx
  nomatch hx

/-! ## Pointer surgery -/

section Surgery
variable [DecidableEq κ] [DecidableEq ι]

/-- Puts `x` in front of list `k`; the old front does not learn of it. -/
def pushForward (l : Links κ ι) (k : κ) (x : ι) : Links κ ι :=
  { head := update l.head k (some x)
    next := update l.next x (l.head k)
    prev := update l.prev x none }

/-- Puts `x` in front of list `k` and sets the back link of the old front. -/
def push (l : Links κ ι) (k : κ) (x : ι) : Links κ ι :=
  { head := update l.head k (some x)
    next := update l.next x (l.head k)
    prev := match l.head k with
      | none => update l.prev x none
      | some f => update (update l.prev x none) f (some x) }

/-- Takes `x` out of list `k` by its own link fields and clears them. -/
def remove (l : Links κ ι) (k : κ) (x : ι) : Links κ ι :=
  { head := match l.prev x with
      | none => update l.head k (l.next x)
      | some _ => l.head
    next := match l.prev x with
      | none => update l.next x none
      | some p => update (update l.next p (l.next x)) x none
    prev := match l.next x with
      | none => update l.prev x none
      | some n => update (update l.prev n (l.prev x)) x none }

/-- The lists that `f` names. -/
def comap {κ' : Type*} (f : κ' → κ) (l : Links κ ι) : Links κ' ι :=
  { l with head := l.head ∘ f }

section Comap
variable {κ' : Type*} [DecidableEq κ'] {f : κ' → κ}

theorem comap_push (hf : Injective f) (l : Links κ ι) (k : κ') (x : ι) :
    (l.push (f k) x).comap f = (l.comap f).push k x := by
  simp only [comap, push, update_comp_eq_of_injective _ hf, comp_apply]

theorem comap_pushForward (hf : Injective f) (l : Links κ ι) (k : κ') (x : ι) :
    (l.pushForward (f k) x).comap f = (l.comap f).pushForward k x := by
  simp only [comap, pushForward, update_comp_eq_of_injective _ hf, comp_apply]

theorem comap_remove (hf : Injective f) (l : Links κ ι) (k : κ') (x : ι) :
    (l.remove (f k) x).comap f = (l.comap f).remove k x := by
  cases h : l.prev x <;> simp only [comap, remove, h, update_comp_eq_of_injective _ hf]

end Comap

theorem push_prev_of_ne (l : Links κ ι) (k : κ) {x y : ι} (hx : y ≠ x) (hf : l.head k ≠ some y) :
    (l.push k x).prev y = l.prev y := by
  cases h : l.head k with
  | none => simp only [push, h, update_of_ne hx]
  | some f =>
    have hy : y ≠ f := fun e => hf (by rw [h, e])
    simp only [push, h, update_of_ne hy, update_of_ne hx]

theorem remove_prev_eq_none (l : Links κ ι) (k : κ) {x y : ι} (hx : l.prev x = none)
    (hy : y ≠ x → l.prev y = none) : (l.remove k x).prev y = none := by
  by_cases hyx : y = x
  · cases hn : l.next x <;> simp [remove, hn, hyx]
  · cases hn : l.next x with
    | none => simp only [remove, hn, update_of_ne hyx, hy hyx]
    | some n =>
      by_cases hyn : y = n
      · simp [remove, hn, hyn, hx, update_apply]
      · simp only [remove, hn, update_of_ne hyx, update_of_ne hyn, hy hyx]

theorem remove_head_of_ne (l : Links κ ι) {j k : κ} (x : ι) (hj : j ≠ k) :
    (l.remove k x).head j = l.head j := by
  cases h : l.prev x with
  | none => simp only [remove, h, update_of_ne hj]
  | some p => simp only [remove, h]

theorem remove_next_of_ne (l : Links κ ι) (k : κ) {x y : ι} (hx : y ≠ x)
    (hp : l.prev x ≠ some y) : (l.remove k x).next y = l.next y := by
  cases h : l.prev x with
  | none => simp only [remove, h, update_of_ne hx]
  | some p =>
    have hy : y ≠ p := fun e => hp (by rw [h, e])
    simp only [remove, h, update_of_ne hy, update_of_ne hx]

theorem remove_prev_of_ne (l : Links κ ι) (k : κ) {x y : ι} (hx : y ≠ x)
    (hn : l.next x ≠ some y) : (l.remove k x).prev y = l.prev y := by
  cases h : l.next x with
  | none => simp only [remove, h, update_of_ne hx]
  | some n =>
    have hy : y ≠ n := fun e => hn (by rw [h, e])
    simp only [remove, h, update_of_ne hy, update_of_ne hx]

end Surgery

section Distinct
variable [DecidableEq κ]

/-- A list that gains at most nodes of no other list keeps the family distinct. -/
theorem Distinct.update {ls : κ → List ι} (h : Distinct ls) {k : κ} {xs : List ι}
    (hn : xs.Nodup) (hx : ∀ x ∈ xs, ∀ j, x ∈ ls j → j = k) : Distinct (update ls k xs) := by
  refine ⟨fun j => ?_, fun i j x hi hj => ?_⟩
  · by_cases hj : j = k
    · subst hj
      rwa [update_self]
    · rw [update_of_ne hj]
      exact h.nodup j
  · by_cases hik : i = k <;> by_cases hjk : j = k
    · rw [hik, hjk]
    · subst hik
      rw [update_self] at hi
      rw [update_of_ne hjk] at hj
      exact (hx x hi j hj).symm
    · subst hjk
      rw [update_self] at hj
      rw [update_of_ne hik] at hi
      exact hx x hj i hi
    · rw [update_of_ne hik] at hi
      rw [update_of_ne hjk] at hj
      exact h.apart i j x hi hj

theorem Distinct.cons {ls : κ → List ι} (h : Distinct ls) {x : ι} (hx : ∀ j, x ∉ ls j) (k : κ) :
    Distinct (Function.update ls k (x :: ls k)) := by
  refine h.update (List.nodup_cons.mpr ⟨hx k, h.nodup k⟩) fun y hy j hyj => ?_
  rcases List.mem_cons.mp hy with rfl | hy
  · exact absurd hyj (hx j)
  · exact h.apart j k y hyj hy

theorem Distinct.erase {ls : κ → List ι} (h : Distinct ls) {k : κ} {x : ι} {xs ys : List ι}
    (hk : ls k = xs ++ x :: ys) : Distinct (Function.update ls k (xs ++ ys)) := by
  have hsub : (xs ++ ys).Sublist (ls k) := by
    rw [hk]
    exact (List.Sublist.refl xs).append (List.sublist_cons_self x ys)
  exact h.update ((h.nodup k).sublist hsub) fun y hy j hyj => h.apart j k y hyj (hsub.subset hy)

theorem Distinct.suffix {ls : κ → List ι} (h : Distinct ls) {k : κ} (xs : List ι) {ys : List ι}
    (hk : ls k = xs ++ ys) : Distinct (Function.update ls k ys) := by
  have hsub : ys.Sublist (ls k) := by
    rw [hk]
    exact List.sublist_append_right xs ys
  exact h.update ((h.nodup k).sublist hsub) fun y hy j hyj => h.apart j k y hyj (hsub.subset hy)

theorem mem_update_cons {ls : κ → List ι} {j k : κ} {x y : ι} :
    y ∈ update ls k (x :: ls k) j ↔ (j = k ∧ y = x) ∨ y ∈ ls j := by
  by_cases hj : j = k
  · subst hj
    simp
  · simp [hj]

theorem mem_update_erase {ls : κ → List ι} (h : Distinct ls) {k : κ} {x : ι} {xs ys : List ι}
    (hk : ls k = xs ++ x :: ys) {j : κ} {y : ι} :
    y ∈ update ls k (xs ++ ys) j ↔ y ∈ ls j ∧ ¬(j = k ∧ y = x) := by
  by_cases hj : j = k
  · subst hj
    have hnd := h.nodup j
    rw [hk] at hnd
    obtain ⟨-, hndy, hdis⟩ := List.nodup_append.mp hnd
    rw [update_self, hk]
    simp only [List.mem_append, List.mem_cons, true_and]
    constructor
    · rintro (hy | hy)
      · exact ⟨Or.inl hy, hdis y hy x List.mem_cons_self⟩
      · exact ⟨Or.inr (Or.inr hy), fun e => (List.nodup_cons.mp hndy).1 (e ▸ hy)⟩
    · rintro ⟨hy | rfl | hy, hne⟩
      · exact Or.inl hy
      · exact absurd rfl hne
      · exact Or.inr hy
  · simp [hj]

end Distinct

section Update
variable [DecidableEq κ] [DecidableEq ι] {l : Links κ ι} {ls : κ → List ι}

theorem path_push {k : κ} {x : ι} (hx : ∀ j, x ∉ ls j)
    (h : ∀ j, Path l.next (l.head j) (ls j) none) (j : κ) :
    Path (update l.next x (l.head k)) (update l.head k (some x) j)
      (update ls k (x :: ls k) j) none := by
  have hnext : ∀ j, Path (update l.next x (l.head k)) (l.head j) (ls j) none := fun j =>
    (path_congr fun y hy => update_of_ne (fun (e : y = x) => hx j (e ▸ hy)) _ _).mpr (h j)
  by_cases hj : j = k
  · subst hj
    simp only [update_self]
    exact ⟨rfl, by rw [update_self]; exact hnext j⟩
  · simp only [update_of_ne hj]
    exact hnext j

theorem HoldsOneWay.push (h : l.HoldsOneWay ls) {k : κ} {x : ι} (hx : ∀ j, x ∉ ls j) :
    (l.pushForward k x).HoldsOneWay (update ls k (x :: ls k)) where
  toDistinct := h.toDistinct.cons hx k
  path := path_push hx h.path
  prev j y hy := by
    rcases mem_update_cons.mp hy with ⟨-, rfl⟩ | hy
    · simp only [pushForward, update_self]
    · have hyx : y ≠ x := fun e => hx j (e ▸ hy)
      simp only [pushForward, update_of_ne hyx, h.prev j y hy]

theorem HoldsForward.push (h : l.HoldsForward ls) {k : κ} {x : ι} (hx : ∀ j, x ∉ ls j) :
    (l.pushForward k x).HoldsForward (update ls k (x :: ls k)) where
  toDistinct := h.toDistinct.cons hx k
  path := path_push hx h.path
  prev y := by
    by_cases hy : y = x
    · simp only [pushForward, hy, update_self]
    · simp only [pushForward, update_of_ne hy, h.prev y]

theorem Holds.push (h : l.Holds ls) {k : κ} {x : ι} (hx : ∀ j, x ∉ ls j) :
    (l.push k x).Holds (update ls k (x :: ls k)) where
  toDistinct := h.toDistinct.cons hx k
  path := path_push hx h.path
  back j := by
    by_cases hj : j = k
    · subst hj
      rw [update_self]
      have hback := h.back j
      have hnd := h.nodup j
      have hhead := path_head (h.path j)
      have hxj := hx j
      cases hl : ls j with
      | nil =>
        rw [hl, List.head?_nil] at hhead
        simp [Links.push, hhead, Back]
      | cons f fs =>
        rw [hl] at hhead hback hnd hxj
        rw [List.head?_cons] at hhead
        have hfx : f ≠ x := fun e => hxj (e ▸ List.mem_cons_self)
        refine ⟨by simp [Links.push, hhead, hfx.symm], by simp [Links.push, hhead], ?_⟩
        refine (back_congr fun y hy => push_prev_of_ne l j ?_ ?_).mpr hback.2
        · exact fun e => hxj (e ▸ List.mem_cons_of_mem _ hy)
        · rw [hhead]
          exact fun e => (List.nodup_cons.mp hnd).1 (Option.some.inj e ▸ hy)
    · rw [update_of_ne hj]
      refine (back_congr fun y hy => push_prev_of_ne l k ?_ ?_).mpr (h.back j)
      · exact fun e => hx j (e ▸ hy)
      · exact fun e => hj (h.apart j k y hy ((reach_iff (h.path k)).mp (e ▸ Reach.here y)))

/-- Taking a node out of a singly linked list drops the nodes before it as well. -/
theorem HoldsOneWay.remove (h : l.HoldsOneWay ls) {k : κ} {x : ι} {xs ys : List ι}
    (hk : ls k = xs ++ x :: ys) : (l.remove k x).HoldsOneWay (update ls k ys) where
  toDistinct := h.toDistinct.suffix (xs ++ [x]) (by simp [hk])
  path j := by
    have hprev : l.prev x = none := h.prev k x (by simp [hk])
    have hnext : ∀ y, y ≠ x → (l.remove k x).next y = l.next y := fun y hy =>
      remove_next_of_ne l k hy (by rw [hprev]; exact Option.some_ne_none _ |>.symm)
    by_cases hj : j = k
    · subst hj
      have hpath := h.path j
      have hnd := h.nodup j
      rw [hk] at hpath hnd
      obtain ⟨_, -, rfl, hys⟩ := path_append.mp hpath
      obtain ⟨-, hndy, -⟩ := List.nodup_append.mp hnd
      have hhead : (l.remove j x).head j = l.next x := by simp [Links.remove, hprev]
      rw [update_self, hhead]
      exact (path_congr fun y hy => hnext y fun e =>
        (List.nodup_cons.mp hndy).1 (e ▸ hy)).mpr hys
    · rw [update_of_ne hj, remove_head_of_ne l x hj]
      exact (path_congr fun y hy => hnext y fun e =>
        hj (h.apart j k y hy (by simp [e, hk]))).mpr (h.path j)
  prev j y hy := by
    have hsub : ys.Sublist (ls k) := by
      rw [hk]
      exact (List.sublist_cons_self x ys).trans (List.sublist_append_right xs _)
    refine remove_prev_eq_none l k (h.prev k x (by simp [hk])) fun _ => ?_
    by_cases hj : j = k
    · subst hj
      rw [update_self] at hy
      exact h.prev j y (hsub.subset hy)
    · rw [update_of_ne hj] at hy
      exact h.prev j y hy

theorem HoldsForward.remove (h : l.HoldsForward ls) {k : κ} {x : ι} {xs ys : List ι}
    (hk : ls k = xs ++ x :: ys) : (l.remove k x).HoldsForward (update ls k ys) :=
  have hway := h.oneWay.remove hk
  ⟨hway.toDistinct, hway.path, fun y => remove_prev_eq_none l k (h.prev x) fun _ => h.prev y⟩

theorem Holds.remove_path (h : l.Holds ls) {k : κ} {x : ι} {xs ys : List ι}
    (hk : ls k = xs ++ x :: ys) :
    Path (l.remove k x).next ((l.remove k x).head k) (xs ++ ys) none := by
  obtain ⟨hxs, hys, -, hpx, -⟩ := h.around hk
  have hnd := h.nodup k
  rw [hk] at hnd
  obtain ⟨hndx, hndy, hdis⟩ := List.nodup_append.mp hnd
  have hys' : Path (l.remove k x).next (l.next x) ys none := by
    refine (path_congr fun y hy => remove_next_of_ne l k ?_ fun hp => ?_).mpr hys
    · exact fun e => (List.nodup_cons.mp hndy).1 (e ▸ hy)
    · obtain ⟨zs, rfl⟩ := lastOr_mem (hpx ▸ hp)
      exact hdis y (by simp) y (List.mem_cons_of_mem _ hy) rfl
  cases hp : l.prev x with
  | none =>
    rcases List.eq_nil_or_concat xs with rfl | ⟨zs, z, rfl⟩
    · simpa only [Links.remove, hp, update_self, List.nil_append] using hys'
    · rw [hpx, List.concat_eq_append, lastOr_append] at hp
      cases hp
  | some p =>
    obtain ⟨zs, rfl⟩ := lastOr_mem (hpx ▸ hp)
    obtain ⟨m, hzs, rfl, -⟩ := path_append.mp hxs
    have hpne : p ≠ x := hdis p (by simp) x List.mem_cons_self
    have hhead : (l.remove k x).head k = l.head k := by simp only [Links.remove, hp]
    rw [hhead]
    refine path_append.mpr ⟨l.next x, path_append.mpr ⟨some p, ?_, rfl, ?_⟩, hys'⟩
    · refine (path_congr fun y hy => remove_next_of_ne l k ?_ ?_).mpr hzs
      · exact hdis y (List.mem_append_left _ hy) x List.mem_cons_self
      · rw [hp]
        exact fun e => (List.nodup_append.mp hndx).2.2 y hy p (by simp) (Option.some.inj e).symm
    · simp [Path, Links.remove, hp, update_of_ne hpne]

theorem Holds.remove_back (h : l.Holds ls) {k : κ} {x : ι} {xs ys : List ι}
    (hk : ls k = xs ++ x :: ys) : Back (l.remove k x).prev none (xs ++ ys) := by
  obtain ⟨-, hys, hbx, hpx, hby⟩ := h.around hk
  have hnd := h.nodup k
  rw [hk] at hnd
  obtain ⟨-, hndy, hdis⟩ := List.nodup_append.mp hnd
  obtain ⟨hxys, hndy⟩ := List.nodup_cons.mp hndy
  refine back_append.mpr ⟨?_, ?_⟩
  · refine (back_congr fun y hy => remove_prev_of_ne l k ?_ fun hn => ?_).mpr hbx
    · exact hdis y hy x List.mem_cons_self
    · have hyys := (reach_iff hys).mp (hn ▸ Reach.here y)
      exact hdis y hy y (List.mem_cons_of_mem _ hyys) rfl
  · cases ys with
    | nil => trivial
    | cons n ys =>
      have hn : l.next x = some n := hys.1
      have hnx : n ≠ x := fun e => hxys (e ▸ List.mem_cons_self)
      refine ⟨by simp [Links.remove, hn, update_of_ne hnx, hpx], ?_⟩
      refine (back_congr fun y hy => remove_prev_of_ne l k ?_ ?_).mpr hby.2
      · exact fun e => hxys (e ▸ List.mem_cons_of_mem _ hy)
      · rw [hn]
        exact fun e => (List.nodup_cons.mp hndy).1 (Option.some.inj e ▸ hy)

/-- A node leaves its list from any position; the order of the rest and all other lists stay. -/
theorem Holds.remove (h : l.Holds ls) {k : κ} {x : ι} {xs ys : List ι}
    (hk : ls k = xs ++ x :: ys) : (l.remove k x).Holds (update ls k (xs ++ ys)) := by
  obtain ⟨-, hys, -, hpx, -⟩ := h.around hk
  have hmem : ∀ y, y ∈ xs ++ x :: ys → y ∈ ls k := fun y hy => hk ▸ hy
  have hother : ∀ {j y}, j ≠ k → y ∈ ls j → y ∉ xs ++ x :: ys := fun hj hy hk' =>
    hj (h.apart _ k _ hy (hmem _ hk'))
  refine ⟨h.toDistinct.erase hk, fun j => ?_, fun j => ?_⟩
  · by_cases hj : j = k
    · subst hj
      rw [update_self]
      exact h.remove_path hk
    · rw [update_of_ne hj, remove_head_of_ne l x hj]
      refine (path_congr fun y hy => remove_next_of_ne l k ?_ fun hp => ?_).mpr (h.path j)
      · exact fun e => hother hj hy (by simp [e])
      · obtain ⟨zs, rfl⟩ := lastOr_mem (hpx ▸ hp)
        exact hother hj hy (by simp)
  · by_cases hj : j = k
    · subst hj
      rw [update_self]
      exact h.remove_back hk
    · rw [update_of_ne hj]
      refine (back_congr fun y hy => remove_prev_of_ne l k ?_ fun hn => ?_).mpr (h.back j)
      · exact fun e => hother hj hy (by simp [e])
      · exact hother hj hy (by simp [(reach_iff hys).mp (hn ▸ Reach.here y)])

theorem Linked.push (h : l.Linked) {k : κ} {x : ι} (hx : ∀ j, x ∉ l.members j) :
    (l.push k x).Linked ∧
      ∀ j y, y ∈ (l.push k x).members j ↔ (j = k ∧ y = x) ∨ y ∈ l.members j := by
  obtain ⟨ls, h⟩ := h
  have hp := h.push (k := k) fun j hj => hx j (h.mem_iff.mpr hj)
  exact ⟨⟨_, hp⟩, fun j y => by rw [hp.mem_iff, h.mem_iff, mem_update_cons]⟩

theorem Linked.remove (h : l.Linked) {k : κ} {x : ι} (hx : x ∈ l.members k) :
    (l.remove k x).Linked ∧
      ∀ j y, y ∈ (l.remove k x).members j ↔ y ∈ l.members j ∧ ¬(j = k ∧ y = x) := by
  obtain ⟨ls, h⟩ := h
  obtain ⟨xs, ys, hk⟩ := List.append_of_mem (h.mem_iff.mp hx)
  have hr := h.remove hk
  exact ⟨⟨_, hr⟩, fun j y => by
    rw [hr.mem_iff, h.mem_iff, mem_update_erase h.toDistinct hk]⟩

theorem Chained.pushForward (h : l.Chained) {k : κ} {x : ι} (hx : ∀ j, x ∉ l.members j) :
    (l.pushForward k x).Chained ∧
      ∀ j y, y ∈ (l.pushForward k x).members j ↔ (j = k ∧ y = x) ∨ y ∈ l.members j := by
  obtain ⟨ls, h⟩ := h
  have hp := h.push (k := k) fun j hj => hx j (h.mem_iff.mpr hj)
  exact ⟨⟨_, hp⟩, fun j y => by rw [hp.mem_iff, h.mem_iff, mem_update_cons]⟩

/-- Taking out `x` loses a set `D` of nodes of its list, none when `x` is the front. -/
theorem Chained.remove (h : l.Chained) {k : κ} {x : ι} (hx : x ∈ l.members k) :
    (l.remove k x).Chained ∧ ∃ D : Set ι, D ⊆ l.members k ∧ x ∉ D ∧
      (l.head k = some x → D = ∅) ∧ ∀ j y, y ∈ (l.remove k x).members j ↔
        y ∈ l.members j ∧ ¬(j = k ∧ (y = x ∨ y ∈ D)) := by
  obtain ⟨ls, h⟩ := h
  obtain ⟨xs, ys, hk⟩ := List.append_of_mem (h.mem_iff.mp hx)
  have hr := h.remove hk
  have hnd := h.nodup k
  rw [hk] at hnd
  obtain ⟨-, hndy, hdis⟩ := List.nodup_append.mp hnd
  refine ⟨⟨_, hr⟩, {y | y ∈ xs}, fun y hy => ?_, fun hx => ?_, fun hhead => ?_, fun j y => ?_⟩
  · exact h.mem_iff.mpr (hk ▸ List.mem_append_left _ hy)
  · exact hdis x hx x List.mem_cons_self rfl
  · have hfirst := path_head (h.path k)
    rw [hhead, hk] at hfirst
    cases xs with
    | nil => simp
    | cons z zs =>
      obtain rfl : x = z := Option.some.inj hfirst
      exact absurd rfl (hdis x List.mem_cons_self x List.mem_cons_self)
  · rw [hr.mem_iff, h.mem_iff]
    by_cases hj : j = k
    · subst hj
      rw [update_self, hk]
      simp only [List.mem_append, List.mem_cons, true_and, Set.mem_ofPred_eq]
      constructor
      · intro hy
        refine ⟨Or.inr (Or.inr hy), ?_⟩
        rintro (rfl | hyx)
        · exact (List.nodup_cons.mp hndy).1 hy
        · exact hdis y hyx y (List.mem_cons_of_mem _ hy) rfl
      · tauto
    · simp [hj]

end Update
end Links
