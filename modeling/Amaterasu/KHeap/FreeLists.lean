import Amaterasu.KHeap.Blocks
import Amaterasu.Library.Runs
import Mathlib.Data.Fin.Basic

/-! Runs of `AddTokHeapOrder` and `DeleteFromkHeapOrder` from empty lists. An addition does not set
the back link of the old front, so that a deletion loses the blocks before its own as well. -/

namespace Amaterasu
open Function Runs

/-- The blocks of the list of each order, from its front on. -/
abbrev OrderLists := Fin (kHeapMaxOrder + 1) → List Nat

/-- A call of `AddTokHeapOrder` or of `DeleteFromkHeapOrder`. -/
inductive ListCall
  | addTo (order : Fin (kHeapMaxOrder + 1)) (id : Nat)
  | deleteFrom (order : Fin (kHeapMaxOrder + 1)) (id : Nat)
deriving DecidableEq, Repr

namespace ListCall

/-- An added block is in no list, a deleted one in the list it is deleted from. -/
def Admissible (ls : OrderLists) : ListCall → Prop
  | addTo _ id => ∀ j, id ∉ ls j
  | deleteFrom order id => id ∈ ls order

instance (ls : OrderLists) (c : ListCall) : Decidable (c.Admissible ls) :=
  match c with
  | addTo _ id => inferInstanceAs (Decidable (∀ j, id ∉ ls j))
  | deleteFrom order id => inferInstanceAs (Decidable (id ∈ ls order))

/-- What the call is for: the block is put in front, or taken out. -/
def splice (ls : OrderLists) : ListCall → OrderLists
  | addTo order id => update ls order (id :: ls order)
  | deleteFrom order id => update ls order ((ls order).erase id)

/-- What the call does: a deletion leaves the blocks behind its own. -/
def cut (ls : OrderLists) : ListCall → OrderLists
  | addTo order id => update ls order (id :: ls order)
  | deleteFrom order id => update ls order ((ls order).dropWhile (· ≠ id)).tail

theorem dropWhile_ne {xs ys : List Nat} {id : Nat} (hnd : (xs ++ id :: ys).Nodup) :
    (xs ++ id :: ys).dropWhile (· ≠ id) = id :: ys := by
  have hxs : ∀ x ∈ xs, decide (x ≠ id) = true := fun x hx =>
    decide_eq_true ((List.nodup_append.mp hnd).2.2 x hx id List.mem_cons_self)
  rw [List.dropWhile_append_of_pos hxs, List.dropWhile_cons_of_neg (by simp)]

/-- To erase a block is to drop it and all before it exactly when it is the front. -/
theorem erase_eq_iff {xs : List Nat} {id : Nat} (hnd : xs.Nodup) (hid : id ∈ xs) :
    xs.erase id = (xs.dropWhile (· ≠ id)).tail ↔ xs.head? = some id := by
  obtain ⟨as, bs, rfl⟩ := List.append_of_mem hid
  have has : id ∉ as := fun h =>
    (List.nodup_append.mp hnd).2.2 id h id List.mem_cons_self rfl
  rw [dropWhile_ne hnd, List.tail_cons, List.erase_append_right _ has, List.erase_cons_head]
  constructor
  · intro h
    obtain rfl := List.append_left_eq_self.mp h
    rfl
  · intro h
    cases as with
    | nil => rfl
    | cons a as =>
      obtain rfl : a = id := Option.some.inj h
      exact absurd List.mem_cons_self has

end ListCall

namespace KHeap

/-- The pointers of the lists of all orders. -/
def orderLists (h : KHeap) : Links (Fin (kHeapMaxOrder + 1)) Nat := h.links.comap Fin.val

def listStep (h : KHeap) : ListCall → KHeap
  | .addTo order id => h.addTokHeapOrder order id
  | .deleteFrom order id => h.deleteFromkHeapOrder order id

/-- From the head of each list, `next` leads through `ls` to the null pointer. -/
def Lists (h : KHeap) (ls : OrderLists) : Prop :=
  ∀ k, Links.Path h.orderLists.next (h.orderLists.head k) (ls k) none

def Allows (h : KHeap) (c : ListCall) : Prop := ∃ ls, h.Lists ls ∧ c.Admissible ls

/-- The call does to the lists what it is for. -/
def SplicesLists (h : KHeap) (c : ListCall) : Prop :=
  ∃ ls, h.Lists ls ∧ (h.listStep c).Lists (c.splice ls)

/-- It does so, and `next` and `prev` undo each other in every list afterwards. -/
def KeepsLists (h : KHeap) (c : ListCall) : Prop :=
  ∃ ls, h.Lists ls ∧ (h.listStep c).Lists (c.splice ls) ∧
    (h.listStep c).orderLists.Inverse (c.splice ls)

def AddsToEmpty (h : KHeap) : ListCall → Prop
  | .addTo order _ => h.kHeapOrder order = none
  | .deleteFrom _ _ => True

def DeletesFront (h : KHeap) : ListCall → Prop
  | .addTo _ _ => True
  | .deleteFrom order id => h.kHeapOrder order = some id

instance (h : KHeap) (c : ListCall) : Decidable (h.AddsToEmpty c) :=
  match c with
  | .addTo order _ => inferInstanceAs (Decidable (h.kHeapOrder order = none))
  | .deleteFrom _ _ => inferInstanceAs (Decidable True)

instance (h : KHeap) (c : ListCall) : Decidable (h.DeletesFront c) :=
  match c with
  | .addTo _ _ => inferInstanceAs (Decidable True)
  | .deleteFrom order id => inferInstanceAs (Decidable (h.kHeapOrder order = some id))

variable {h : KHeap} {ls ms : OrderLists} {c : ListCall}

/-! ## One call -/

theorem Lists.unique (hl : h.Lists ls) (hm : h.Lists ms) : ls = ms :=
  funext fun k => Links.path_unique (hl k) (hm k)

theorem allows_iff (hl : h.Lists ls) : h.Allows c ↔ c.Admissible ls := by
  constructor
  · rintro ⟨ms, hm, hc⟩
    rwa [hl.unique hm]
  · intro hc
    exact ⟨ls, hl, hc⟩

theorem splicesLists_iff (hl : h.Lists ls) (hm : (h.listStep c).Lists ms) :
    h.SplicesLists c ↔ c.splice ls = ms := by
  constructor
  · rintro ⟨ls', hl', hm'⟩
    rw [hl.unique hl']
    exact hm'.unique hm
  · rintro rfl
    exact ⟨ls, hl, hm⟩

theorem orderLists_addTo (h : KHeap) (k : Fin (kHeapMaxOrder + 1)) (i : Nat) :
    (h.addTokHeapOrder k i).orderLists = h.orderLists.pushForward k i := by
  unfold orderLists
  rw [links_addTo, Links.comap_pushForward Fin.val_injective]

theorem orderLists_deleteFrom (h : KHeap) (k : Fin (kHeapMaxOrder + 1)) (i : Nat) :
    (h.deleteFromkHeapOrder k i).orderLists = h.orderLists.remove k i := by
  unfold orderLists
  rw [links_deleteFrom, Links.comap_remove Fin.val_injective]

/-- In an allowed call on lists without back links, the code does what `cut` says. -/
theorem listStep_cut (hl : h.orderLists.HoldsOneWay ls) (hc : c.Admissible ls) :
    (h.listStep c).orderLists.HoldsOneWay (c.cut ls) := by
  cases c with
  | addTo k id =>
    have hpush := hl.push (k := k) hc
    rwa [← orderLists_addTo] at hpush
  | deleteFrom k id =>
    obtain ⟨xs, ys, hk⟩ := List.append_of_mem hc
    have hnd := hl.nodup k
    have hremove := hl.remove hk
    rw [← orderLists_deleteFrom] at hremove
    rw [hk] at hnd
    have hcut : ((ls k).dropWhile (· ≠ id)).tail = ys := by
      rw [hk, ListCall.dropWhile_ne hnd, List.tail_cons]
    rw [ListCall.cut, hcut]
    exact hremove

theorem listStep_splices (hl : h.orderLists.HoldsOneWay ls) (hc : c.Admissible ls) :
    h.SplicesLists c ↔ h.DeletesFront c := by
  rw [splicesLists_iff hl.path (listStep_cut hl hc).path]
  cases c with
  | addTo k id => exact iff_of_true rfl trivial
  | deleteFrom k id =>
    have hfront : h.kHeapOrder k = (ls k).head? := Links.path_head (hl.path k)
    rw [ListCall.splice, ListCall.cut, (update_injective ls k).eq_iff,
      ListCall.erase_eq_iff (hl.nodup k) hc, DeletesFront, hfront]

theorem listStep_keeps (hl : h.orderLists.HoldsOneWay ls) (hc : c.Admissible ls) :
    h.KeepsLists c ↔ c.splice ls = c.cut ls ∧ ∀ k, (c.cut ls k).length ≤ 1 := by
  have hcut := listStep_cut hl hc
  constructor
  · rintro ⟨ms, hms, hpath, hinv⟩
    obtain rfl := hms.unique hl.path
    have heq : c.splice ms = c.cut ms := hpath.unique hcut.path
    exact ⟨heq, hcut.inverse_iff.mp (heq ▸ hinv)⟩
  · rintro ⟨heq, hlen⟩
    refine ⟨ls, hl.path, ?_, ?_⟩ <;> rw [heq]
    · exact hcut.path
    · exact hcut.inverse_iff.mpr hlen

/-- Lists of at most one block stay so as long as additions are to empty lists, and only so. -/
theorem listStep_adds (hl : h.orderLists.HoldsOneWay ls) (hlen : ∀ k, (ls k).length ≤ 1)
    (hc : c.Admissible ls) : h.KeepsLists c ↔ h.AddsToEmpty c := by
  rw [listStep_keeps hl hc]
  cases c with
  | addTo k id =>
    have hfront : h.kHeapOrder k = (ls k).head? := Links.path_head (hl.path k)
    rw [AddsToEmpty, hfront, List.head?_eq_none_iff, ListCall.cut]
    constructor
    · rintro ⟨-, hcut⟩
      have hk := hcut k
      rw [update_self, List.length_cons] at hk
      exact List.eq_nil_of_length_eq_zero (by omega)
    · intro hk
      refine ⟨rfl, fun j => ?_⟩
      by_cases hj : j = k
      · rw [hj, update_self, hk, List.length_singleton]
      · rw [update_of_ne hj]
        exact hlen j
  | deleteFrom k id =>
    have hmem : id ∈ ls k := hc
    obtain ⟨x, hx⟩ := List.length_eq_one_iff.mp
      (le_antisymm (hlen k) (List.length_pos_of_mem hmem))
    refine iff_of_true ⟨?_, fun j => ?_⟩ trivial
    · rw [ListCall.splice, ListCall.cut, (update_injective ls k).eq_iff,
        ListCall.erase_eq_iff (hl.nodup k) hmem]
      rw [hx] at hmem ⊢
      rw [List.mem_singleton.mp hmem, List.head?_singleton]
    · rw [ListCall.cut]
      by_cases hj : j = k
      · rw [hj, update_self]
        have hdrop := (List.dropWhile_suffix (l := ls k) (· ≠ id)).length_le
        rw [List.length_tail]
        have := hlen k
        omega
      · rw [update_of_ne hj]
        exact hlen j

/-! ## Runs -/

/-- The step relation of the runs; every call returns. -/
def listSystem (h : KHeap) (c : ListCall) : Option KHeap := some (h.listStep c)

variable {calls : List ListCall}

theorem along_splices_iff (hl : h.orderLists.HoldsOneWay ls)
    (hallow : Along listSystem Allows h calls) :
    Along listSystem SplicesLists h calls ↔ Along listSystem DeletesFront h calls := by
  obtain ⟨t, hrun, -⟩ := hallow.completes (I := fun _ => True)
    (fun u c _ _ => ⟨u.listStep c, rfl, trivial⟩) trivial
  refine Along.congr (I := fun u => ∃ ls, u.orderLists.HoldsOneWay ls) ?_ ⟨ls, hl⟩ hallow hrun
  rintro u c v ⟨ms, hms⟩ hc hv
  obtain rfl := Option.some.inj hv
  have hadm := (allows_iff hms.path).mp hc
  exact ⟨listStep_splices hms hadm, fun _ => ⟨_, listStep_cut hms hadm⟩⟩

theorem along_keeps_iff (hl : h.orderLists.HoldsOneWay ls) (hlen : ∀ k, (ls k).length ≤ 1)
    (hallow : Along listSystem Allows h calls) :
    Along listSystem KeepsLists h calls ↔ Along listSystem AddsToEmpty h calls := by
  obtain ⟨t, hrun, -⟩ := hallow.completes (I := fun _ => True)
    (fun u c _ _ => ⟨u.listStep c, rfl, trivial⟩) trivial
  refine Along.congr (I := fun u => ∃ ls, u.orderLists.HoldsOneWay ls ∧ ∀ k, (ls k).length ≤ 1)
    ?_ ⟨ls, hl, hlen⟩ hallow hrun
  rintro u c v ⟨ms, hms, hlen⟩ hc hv
  obtain rfl := Option.some.inj hv
  have hadm := (allows_iff hms.path).mp hc
  exact ⟨listStep_adds hms hlen hadm, fun hkeeps =>
    ⟨_, listStep_cut hms hadm, ((listStep_keeps hms hadm).mp hkeeps).2⟩⟩

/-- Calls that are admissible for the lists that the code leaves are allowed. -/
theorem along_allows (hl : h.orderLists.HoldsOneWay ls)
    (hadm : Along (fun ls c => some (c.cut ls)) (fun ls c => c.Admissible ls) ls calls) :
    Along listSystem Allows h calls := by
  refine hadm.simulation (R := fun u ls => u.orderLists.HoldsOneWay ls) ?_ hl
  intro u ms c hms hc
  refine ⟨(allows_iff hms.path).mpr hc, fun v hv => ⟨_, rfl, ?_⟩⟩
  obtain rfl := Option.some.inj hv
  exact listStep_cut hms hc

/-- From empty lists, exactly the runs that add to empty lists keep the lists doubly linked and do
to them what each call is for. Exactly the runs that delete fronts do the latter. -/
theorem orderLists_kept_iff (hempty : ∀ k, h.orderLists.head k = none)
    (hallow : Along listSystem Allows h calls) :
    (Along listSystem KeepsLists h calls ↔ Along listSystem AddsToEmpty h calls) ∧
      (Along listSystem SplicesLists h calls ↔ Along listSystem DeletesFront h calls) :=
  have hl := Links.holdsOneWay_of_empty hempty
  ⟨along_keeps_iff hl (fun _ => Nat.zero_le 1) hallow, along_splices_iff hl hallow⟩

/-- The cells and lists before the first block is put into a list. -/
def noLists : KHeap where
  kHeapStart := 0x100000
  kHeapBlocks i := ⟨0, false, i, none, none⟩
  kHeapOrder _ := none

/-- Block 1 is added, deleted again, and then added to another list. -/
theorem orderLists_kept_moved : Along listSystem KeepsLists noLists
    [.addTo 0 1, .deleteFrom 0 1, .addTo 3 1] :=
  (orderLists_kept_iff (fun _ => rfl)
    (along_allows (Links.holdsOneWay_of_empty fun _ => rfl) (by decide))).1.mpr (by decide)

/-- Blocks 1 and 0 are added to one list. Deleting block 1 behind block 0 loses both. -/
theorem orderLists_lose_front :
    Along listSystem Allows noLists [.addTo 0 1, .addTo 0 0, .deleteFrom 0 1] ∧
      ¬ Along listSystem KeepsLists noLists [.addTo 0 1, .addTo 0 0, .deleteFrom 0 1] ∧
      ¬ Along listSystem SplicesLists noLists [.addTo 0 1, .addTo 0 0, .deleteFrom 0 1] := by
  have hl := Links.holdsOneWay_of_empty (l := noLists.orderLists) fun _ => rfl
  have hallow : Along listSystem Allows noLists [.addTo 0 1, .addTo 0 0, .deleteFrom 0 1] :=
    along_allows hl (by decide)
  refine ⟨hallow, ?_, ?_⟩
  · rw [along_keeps_iff hl (fun _ => Nat.zero_le 1) hallow]
    decide
  · rw [along_splices_iff hl hallow]
    decide

end KHeap
end Amaterasu
