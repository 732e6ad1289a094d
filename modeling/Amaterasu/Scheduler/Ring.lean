import Amaterasu.Scheduler.Defs
import Mathlib.Data.Finset.Card
import Mathlib.Data.List.Perm.Basic

/-! `processList` and the processes as one ring, which forks preserve, and the order in which
`Schedule` goes round it. -/

namespace Amaterasu
open Function Runs

/-! ## Fresh records -/

namespace HeapSystem
open Block
variable {R : Set Nat} {start : Nat} {s t : HeapSystem} {p : Pool R} {a n : Nat}

theorem mem_bytes (b : Allocation) {i : Nat} (hi : i < 256) : b.address + i ∈ b.bytes := by
  have hpos : 1 ≤ 2 ^ b.order := Nat.one_le_two_pow
  refine Set.mem_Ico.mpr ⟨Nat.le_add_right _ _, ?_⟩
  unfold kHeapBlockSize
  omega

theorem kmalloc_step (hk : s.kmalloc n = some (t, a)) : s.step (.kmalloc n) = some t := by
  obtain ⟨r, hr, heq⟩ := Option.map_eq_some_iff.mp hk
  obtain ⟨rfl, rfl⟩ := Prod.mk.inj heq
  show (s.heap.kmalloc n).map _ = _
  rw [hr]
  rfl

theorem Tracks.kmalloc_live (h : s.Tracks start p) (hpage : 2 ^ 12 ∣ start) (h0 : 0 < start)
    (h64 : start < 2 ^ 64) (hn : 1 ≤ n) (hb : n < 2 ^ 32) (hk : s.kmalloc n = some (t, a))
    (ha : a ≠ 0) : t.live = ⟨a, KHeap.requestOrder n, n⟩ :: s.live ∧
      ∃ q : Pool R, t.Tracks start q := by
  have hstep := kmalloc_step hk
  obtain ⟨r, hr, heq⟩ := Option.map_eq_some_iff.mp hk
  rcases h.kmalloc_cases hpage h0 h64 hn hb with ⟨hfail, -⟩ | ⟨u, addr, q, hu, -, hlive, hq, -⟩
  · obtain rfl := Option.some.inj (hr.symm.trans hfail)
    exact absurd (Prod.mk.inj heq).2.symm ha
  · obtain rfl := Option.some.inj (hr.symm.trans hu)
    obtain rfl := Option.some.inj (hstep.symm.trans hlive)
    obtain rfl := (Prod.mk.inj heq).2
    exact ⟨rfl, q, hq⟩

theorem Tracks.kmalloc_fresh (h : s.Tracks start p) (hpage : 2 ^ 12 ∣ start) (h0 : 0 < start)
    (h64 : start < 2 ^ 64) (hn : 1 ≤ n) (hb : n < 2 ^ 32) (hk : s.kmalloc n = some (t, a))
    (ha : a ≠ 0) : ∀ b ∈ s.live, b.address ≠ a := by
  obtain ⟨hlive, q, hq⟩ := h.kmalloc_live hpage h0 h64 hn hb hk ha
  have hdisjoint := hq.noOverlap.disjoint
  rw [hlive] at hdisjoint
  obtain ⟨hnew, -⟩ := List.pairwise_cons.mp hdisjoint
  rintro b hb rfl
  have hfirst : b.address ∈ (⟨b.address, KHeap.requestOrder n, n⟩ : Allocation).bytes :=
    mem_bytes ⟨b.address, KHeap.requestOrder n, n⟩ (i := 0) (by decide)
  exact Set.disjoint_left.mp (hnew b hb) hfirst (mem_bytes b (i := 0) (by decide))

theorem requestOrder_cell (hn : 1 ≤ n) (hb : n ≤ 256) : KHeap.requestOrder n = 0 := by
  have hone : KHeap.blockNumber n = 1 := by
    unfold KHeap.blockNumber kHeapBlockSize
    split_ifs <;> omega
  unfold KHeap.requestOrder
  rw [hone, Nat.clog_one_right]

/-- A request for one cell succeeds as long as the allocations are single cells and not all of
them. -/
theorem Tracks.kmalloc_cell {p : Pool (Set.Iio kHeapBlockNum)} (h : s.Tracks start p)
    (hpage : 2 ^ 12 ∣ start) (h0 : 0 < start) (h64 : start < 2 ^ 64) (hn : 1 ≤ n) (hb : n ≤ 256)
    (hcells : ∀ b ∈ s.live, b.order = 0) (hroom : s.live.length < kHeapBlockNum) :
    ∃ t a, s.kmalloc n = some (t, a) ∧ a ≠ 0 := by
  have hsize : n < 2 ^ 32 := by omega
  rcases h.kmalloc_cases hpage h0 h64 hn hsize with ⟨-, hfull⟩ | ⟨u, addr, q, hu, hne, -⟩
  · exfalso
    have hnone : ∀ b, b ∉ p.free := by
      intro b hfree
      have hlt := hfull (by unfold kHeapHeapSize; omega) b hfree
      rw [requestOrder_cell hn hb] at hlt
      exact Nat.not_lt_zero _ hlt
    -- every cell is then the cell of an allocation
    have hcover : Finset.range kHeapBlockNum ⊆ (s.live.map fun b => s.cell b.address).toFinset := by
      intro x hx
      obtain ⟨b, hb, hxb⟩ := (p.covers x).mp (Finset.mem_range.mp hx)
      obtain ⟨c, hc, rfl⟩ := (h.live b).mp (hb.resolve_left (hnone b))
      have hspan := mem_span.mp hxb
      rw [Block.size, block] at hspan
      dsimp only at hspan
      rw [hcells c hc] at hspan
      have hcell : s.cell c.address = x := by omega
      exact List.mem_toFinset.mpr (List.mem_map.mpr ⟨c, hc, hcell⟩)
    have hcard := (Finset.card_le_card hcover).trans (List.toFinset_card_le _)
    rw [Finset.card_range, List.length_map] at hcard
    omega
  · refine ⟨record n s.live u addr, addr, ?_, hne⟩
    unfold HeapSystem.kmalloc
    rw [hu]
    rfl

theorem provides_cons {sizes : List Nat} (h : s.provides (n :: sizes) = true) :
    ∃ t a, s.kmalloc n = some (t, a) ∧ a ≠ 0 ∧ t.provides sizes = true := by
  unfold provides at h
  cases hk : s.kmalloc n with
  | none =>
    rw [hk] at h
    cases h
  | some r =>
    rw [hk] at h
    simp only [ne_eq, Bool.and_eq_true, decide_eq_true_eq] at h
    exact ⟨r.1, r.2, rfl, h.1, h.2⟩

/-- The three records of a process: in a heap that stays in order, the first of them where no other
one lies. -/
theorem Tracks.records (h : s.Tracks start p) (hpage : 2 ^ 12 ∣ start) (h0 : 0 < start)
    (h64 : start < 2 ^ 64) (hserved : s.provides TaskList.recordSizes = true) :
    ∃ t₁ t₂ t₃ a₁ a₂ a₃, s.kmalloc sizeofProcess = some (t₁, a₁) ∧
      t₁.kmalloc sizeofProcessMemory = some (t₂, a₂) ∧
      t₂.kmalloc sizeofThreadInfo = some (t₃, a₃) ∧ (∃ q : Pool R, t₃.Tracks start q) ∧
      (∃ b ∈ t₃.live, b.address = a₁) ∧ (∀ b ∈ s.live, b.address ≠ a₁) ∧
      ∀ b ∈ s.live, b ∈ t₃.live := by
  obtain ⟨t₁, a₁, hk₁, ha₁, hserved⟩ := provides_cons hserved
  obtain ⟨t₂, a₂, hk₂, ha₂, hserved⟩ := provides_cons hserved
  obtain ⟨t₃, a₃, hk₃, ha₃, -⟩ := provides_cons hserved
  obtain ⟨hlive₁, q₁, hq₁⟩ := h.kmalloc_live hpage h0 h64 (by decide) (by decide) hk₁ ha₁
  obtain ⟨hlive₂, q₂, hq₂⟩ := hq₁.kmalloc_live hpage h0 h64 (by decide) (by decide) hk₂ ha₂
  obtain ⟨hlive₃, q₃, hq₃⟩ := hq₂.kmalloc_live hpage h0 h64 (by decide) (by decide) hk₃ ha₃
  have hfresh := h.kmalloc_fresh hpage h0 h64 (by decide) (by decide) hk₁ ha₁
  have hkept : ∀ b ∈ t₁.live, b ∈ t₃.live := by
    intro b hb
    rw [hlive₃, hlive₂]
    exact List.mem_cons_of_mem _ (List.mem_cons_of_mem _ hb)
  refine ⟨t₁, t₂, t₃, a₁, a₂, a₃, hk₁, hk₂, hk₃, ⟨q₃, hq₃⟩, ?_, hfresh, ?_⟩
  · exact ⟨_, hkept _ (hlive₁ ▸ List.mem_cons_self), rfl⟩
  · intro b hb
    exact hkept b (hlive₁ ▸ List.mem_cons_of_mem _ hb)

theorem boot_provides (hpage : 2 ^ 12 ∣ start) (h0 : 0 < start) (h64 : start < 2 ^ 64) :
    (boot start).provides TaskList.recordSizes = true := by
  have horder : KHeap.requestOrder sizeofProcess = 0 ∧ KHeap.requestOrder sizeofProcessMemory = 0 :=
    ⟨requestOrder_cell (by decide) (by decide), requestOrder_cell (by decide) (by decide)⟩
  have hnum : 2 < kHeapBlockNum := by decide
  have hq₀ := boot_tracks start
  have hlive₀ : (boot start).live = [] := rfl
  obtain ⟨t₁, a₁, hk₁, ha₁⟩ := hq₀.kmalloc_cell hpage h0 h64 (n := sizeofProcess) (by decide)
    (by decide) (by simp [hlive₀]) (by rw [hlive₀]; decide)
  obtain ⟨hlive₁, q₁, hq₁⟩ := hq₀.kmalloc_live hpage h0 h64 (by decide) (by decide) hk₁ ha₁
  rw [hlive₀, horder.1] at hlive₁
  obtain ⟨t₂, a₂, hk₂, ha₂⟩ := hq₁.kmalloc_cell hpage h0 h64 (n := sizeofProcessMemory)
    (by decide) (by decide) (by simp [hlive₁]) (by rw [hlive₁]; exact Nat.lt_of_succ_lt hnum)
  obtain ⟨hlive₂, q₂, hq₂⟩ := hq₁.kmalloc_live hpage h0 h64 (by decide) (by decide) hk₂ ha₂
  rw [hlive₁, horder.2] at hlive₂
  obtain ⟨t₃, a₃, hk₃, ha₃⟩ := hq₂.kmalloc_cell hpage h0 h64 (n := sizeofThreadInfo)
    (by decide) (by decide) (by simp [hlive₂]) (by rw [hlive₂]; exact hnum)
  unfold TaskList.recordSizes provides
  simp only [hk₁, ne_eq, ha₁, not_false_eq_true, decide_true, Bool.true_and]
  unfold provides
  simp only [hk₂, ne_eq, ha₂, not_false_eq_true, decide_true, Bool.true_and]
  unfold provides
  simp only [hk₃, ne_eq, ha₃, not_false_eq_true, decide_true, Bool.true_and]
  rfl

end HeapSystem

namespace TaskList

/-- The processes, from `processList` on, are `ps`. -/
def Circle (s : TaskList) (ps : List Nat) : Prop :=
  s.links.Ring s.processList (ps.map processNode)

/-- The heap is in order, and the processes so far are records in it and form one ring. -/
structure Sound (start : Nat) (s : TaskList) : Prop where
  heap : ∃ (R : Set Nat) (p : Pool R), s.heap.Tracks start p
  apart : s.processList + 16 ≤ start ∨ start + kHeapHeapSize ≤ s.processList
  records : ∀ p ∈ s.created, ∃ a ∈ s.heap.live, a.address = p
  circle : ∃ ps, s.Circle ps ∧ ps.Perm s.created

theorem processNode_injective : Injective processNode := fun _ _ h => Nat.add_right_cancel h

section Sound
variable {start : Nat} {s t : TaskList} {p c : Nat} {ps : List Nat}

/-- `processList` lies outside the heap, so it is no node of a record there. -/
theorem node_ne {processList : Nat} {heap : HeapSystem}
    (hapart : processList + 16 ≤ start ∨ start + kHeapHeapSize ≤ processList)
    (hheap : ∃ (R : Set Nat) (q : Pool R), heap.Tracks start q)
    (hp : ∃ a ∈ heap.live, a.address = p) : processNode p ≠ processList := by
  obtain ⟨R, q, hq⟩ := hheap
  obtain ⟨a, ha, rfl⟩ := hp
  have hbytes := HeapSystem.mem_bytes a (i := 16) (by decide)
  have hrange := Set.mem_Ico.mp (hq.noOverlap.inside a ha hbytes)
  unfold processNode
  omega

theorem fresh_node (hcircle : ps.Perm s.created) (hc : c ∉ s.created)
    (hlist : processNode c ≠ s.processList) :
    processNode c ∉ s.processList :: ps.map processNode := by
  intro hmem
  rcases List.mem_cons.mp hmem with heq | hmem
  · exact hlist heq
  · obtain ⟨q, hq, heq⟩ := List.mem_map.mp hmem
    exact hc (hcircle.mem_iff.mp (processNode_injective heq ▸ hq))

section Copy
variable (hpage : 2 ^ 12 ∣ start) (h0 : 0 < start) (h64 : start < 2 ^ 64)
include hpage h0 h64

/-- A copy joins the ring, at whichever place. -/
theorem Sound.copyProcess (h : s.Sound start) (hp : p ∈ s.created)
    (hserved : s.heap.provides recordSizes = true) :
    ∃ t c, s.copyProcess p = some (t, c) ∧ t.Sound start ∧ t.created = c :: s.created ∧
      c ∉ s.created ∧ t.currentProcess = s.currentProcess ∧ t.processList = s.processList := by
  obtain ⟨R, q₀, hq₀⟩ := h.heap
  obtain ⟨heap₁, heap₂, heap₃, c, a₂, a₃, hk₁, hk₂, hk₃, ⟨q, hq⟩, hrecord, hother, hkept⟩ :=
    hq₀.records hpage h0 h64 hserved
  obtain ⟨ps, hcircle, hperm⟩ := h.circle
  have hc : c ∉ s.created := by
    intro hmem
    obtain ⟨b, hb, heq⟩ := h.records c hmem
    exact hother b hb heq
  have hlist : processNode c ≠ s.processList := node_ne h.apart ⟨R, q, hq⟩ hrecord
  have hfresh := fresh_node hperm hc hlist
  have hnode : processNode p ∈ s.processList :: ps.map processNode :=
    List.mem_cons_of_mem _ (List.mem_map_of_mem (hperm.mem_iff.mpr hp))
  have hcopy := RingLinks.Ring.overwrite hcircle hfresh (s.links.next (processNode p))
    (s.links.prev (processNode p))
  obtain ⟨m, hm, hmperm⟩ := hcopy.insertAfter hnode hfresh
  have himage := congrFun (congrFun (List.eq_map_comp_perm processNode) m) (c :: ps)
  obtain ⟨qs, rfl, hqs⟩ := (iff_of_eq himage).mpr hmperm
  let links : RingLinks Nat :=
    ⟨update s.links.next (processNode c) (s.links.next (processNode p)),
      update s.links.prev (processNode c) (s.links.prev (processNode p))⟩
  have heq : s.copyProcess p = some ({ s with
      links := links.insertAfter (processNode c) (processNode p)
      heap := heap₃
      created := c :: s.created }, c) := by
    unfold TaskList.copyProcess
    rw [hk₁]
    simp only [Option.bind_eq_bind, Option.bind_some, hk₂, hk₃]
    rfl
  refine ⟨_, c, heq, ⟨⟨R, q, hq⟩, h.apart, ?_, qs, hm, ?_⟩, rfl, hc, rfl, rfl⟩
  · intro p' hp'
    rcases List.mem_cons.mp hp' with rfl | hp'
    · exact hrecord
    · obtain ⟨b, hb, heq⟩ := h.records p' hp'
      exact ⟨b, hkept b hb, heq⟩
  · exact hqs.trans (hperm.cons c)

/-- `ProcessInit` finds room for its records, and makes a ring of one process. -/
theorem processInit_sound (links : RingLinks Nat) {processList : Nat}
    (hapart : processList + 16 ≤ start ∨ start + kHeapHeapSize ≤ processList) :
    ∃ s, processInit links processList (HeapSystem.boot start) = some s ∧ s.Sound start ∧
      s.created = [s.currentProcess] ∧ s.processList = processList := by
  obtain ⟨heap₁, heap₂, heap₃, c, a₂, a₃, hk₁, hk₂, hk₃, ⟨q, hq⟩, hrecord, -⟩ :=
    (HeapSystem.boot_tracks start).records hpage h0 h64 (HeapSystem.boot_provides hpage h0 h64)
  let alone : RingLinks Nat :=
    ⟨update links.next processList processList, update links.prev processList processList⟩
  have hne : processNode c ≠ processList := node_ne hapart ⟨_, q, hq⟩ hrecord
  have hself : alone.Ring processList [] := by
    refine ⟨⟨?_, ?_⟩, List.nodup_singleton _⟩
    · exact update_self ..
    · exact update_self ..
  have hfresh : processNode c ∉ [processList] := fun hmem => hne (List.mem_singleton.mp hmem)
  have heq : processInit links processList (HeapSystem.boot start) =
      some ⟨alone.insertAfter (processNode c) processList, processList, c, heap₃, [c]⟩ := by
    unfold processInit
    rw [Option.bind_eq_bind, hk₁]
    simp only [Option.bind_some, hk₂, hk₃]
    rfl
  refine ⟨_, heq, ⟨⟨_, q, hq⟩, hapart, ?_, [c], hself.insertAfter_self hfresh, List.Perm.refl _⟩,
    rfl, rfl⟩
  intro p hp
  rw [List.mem_singleton.mp hp]
  exact hrecord

end Copy

theorem fork_some {s t : TaskList} (ht : s.fork p = some t) : p ∈ s.created ∧
    s.heap.provides recordSizes = true ∧ ∃ c, s.copyProcess p = some (t, c) := by
  unfold fork at ht
  split_ifs at ht with h
  obtain ⟨⟨_, c⟩, hr, rfl⟩ := Option.map_eq_some_iff.mp ht
  exact ⟨h.1, h.2, c, hr⟩

theorem Circle.nodup (h : s.Circle ps) : ps.Nodup :=
  (List.nodup_cons.mp (RingLinks.Ring.nodup h)).2.of_map _

theorem Circle.unique {qs : List Nat} (hp : s.Circle ps) (hq : s.Circle qs) : ps = qs :=
  List.map_injective_iff.mpr processNode_injective (RingLinks.Ring.unique hp hq)

theorem Circle.ne_processList (h : s.Circle ps) (hp : p ∈ ps) : processNode p ≠ s.processList := by
  intro heq
  have hout := (List.nodup_cons.mp (RingLinks.Ring.nodup h)).1
  exact hout (heq ▸ List.mem_map_of_mem hp)

end Sound

/-! ## Round robin -/

section RoundRobin
variable {s : TaskList} {ps before after : List Nat} {p q n : Nat} {state : Nat → ProcessState}

theorem findNextTask_eq (s : TaskList) (state : Nat → ProcessState) (n pl : Nat) :
    s.findNextTask state n pl = (s.links.search (s.isNext state) n pl).map listEntry := by
  induction n generalizing pl with
  | zero => rfl
  | succ n ih =>
    unfold findNextTask RingLinks.search
    dsimp only
    rw [ih]
    split_ifs <;> rfl

theorem isNext_processList (s : TaskList) (state : Nat → ProcessState) :
    s.isNext state s.processList = false := by
  unfold isNext
  simp

theorem Circle.isNext (h : s.Circle ps) (state : Nat → ProcessState) (hq : q ∈ ps) :
    s.isNext state (processNode q) = decide (state q = .running) := by
  unfold TaskList.isNext
  rw [decide_eq_true (h.ne_processList hq), Bool.true_and]
  rfl

/-- The search skips `processList` and the processes that are not `PROCESS_RUNNING`. -/
theorem Circle.filter_isNext (h : s.Circle (before ++ p :: after)) (state : Nat → ProcessState) :
    (after.map processNode ++ s.processList :: before.map processNode ++ [processNode p]).filter
        (s.isNext state) =
      ((after ++ before ++ [p]).filter fun q => state q = .running).map processNode := by
  have hrunning : ∀ qs : List Nat, (∀ q ∈ qs, q ∈ before ++ p :: after) →
      (qs.map processNode).filter (s.isNext state) =
        (qs.filter fun q => state q = .running).map processNode := by
    intro qs hqs
    rw [List.filter_map]
    congr 1
    apply List.filter_congr
    intro q hq
    exact h.isNext state (hqs q hq)
  have hguard := s.isNext_processList state
  have hp := hrunning [p] (by simp)
  have hbefore := hrunning before (by simp +contextual)
  have hafter := hrunning after (by simp +contextual)
  rw [List.filter_append, List.filter_append, List.filter_cons_of_neg (by simp [hguard]), hafter,
    hbefore, List.filter_append, List.filter_append, List.map_append, List.map_append]
  exact congrArg _ hp

/-- The ring as `FindNextTask` goes round it from `p`. -/
theorem Circle.from (h : s.Circle (before ++ p :: after)) : s.links.Ring (processNode p)
    (after.map processNode ++ s.processList :: before.map processNode) := by
  unfold Circle at h
  rw [List.map_append, List.map_cons] at h
  exact h.rotate

theorem decisions_eq {qs : List Nat} {k : Nat}
    (h : s.links.searches (s.isNext state) n k (processNode s.currentProcess) =
      some (qs.map processNode)) : s.decisions state n k = some qs := by
  induction k generalizing s qs with
  | zero =>
    have hnil : [] = qs.map processNode := Option.some.inj h
    rw [List.map_eq_nil_iff.mp hnil.symm]
    rfl
  | succ k ih =>
    unfold RingLinks.searches at h
    obtain ⟨b, hb, h⟩ := Option.bind_eq_some_iff.mp h
    obtain ⟨bs, hbs, h⟩ := Option.bind_eq_some_iff.mp h
    obtain ⟨q, qs', rfl, rfl, rfl⟩ := List.map_eq_cons_iff.mp (Option.some.inj h).symm
    have hfind : s.findNextTask state n (processNode s.currentProcess) = some q := by
      rw [findNextTask_eq, hb]
      rfl
    have hrest := ih (s := { s with currentProcess := q }) hbs
    unfold decisions schedule
    rw [hfind, Option.map_some, Option.bind_eq_bind, Option.bind_some, hrest]
    rfl

/-- `FindNextTask` returns the first process after `p`, in the order of the ring and `p` itself
last, that is `PROCESS_RUNNING`; calls of `Schedule` go through them one by one. -/
theorem Circle.round_robin (h : s.Circle (before ++ p :: after))
    (hn : (before ++ p :: after).length < n) {k : Nat}
    (hk : k ≤ ((after ++ before ++ [p]).filter fun q => state q = .running).length) :
    s.findNextTask state n (processNode p) =
        (after ++ before ++ [p]).find? (fun q => state q = .running) ∧
      decisions { s with currentProcess := p } state n k =
        some (((after ++ before ++ [p]).filter fun q => state q = .running).take k) := by
  have hring := h.from
  have hfilter := h.filter_isNext state
  have hlen : (after.map processNode ++ s.processList :: before.map processNode).length < n := by
    rw [List.length_append, List.length_cons, List.length_map, List.length_map]
    rw [List.length_append, List.length_cons] at hn
    omega
  constructor
  · rw [findNextTask_eq, hring.search_eq hlen, ← List.head?_filter, hfilter, ← List.head?_filter,
      List.head?_map, Option.map_map]
    exact Option.map_id' ..
  · apply decisions_eq
    have hcount : k ≤ ((after.map processNode ++ s.processList :: before.map processNode ++
        [processNode p]).filter (s.isNext state)).length := by
      rw [hfilter, List.length_map]
      exact hk
    rw [List.map_take, ← hfilter]
    exact hring.searches hlen hcount

end RoundRobin

/-- The ring that `ProcessInit` and the forks after it have made. -/
theorem forks_sound {start : Nat} (hpage : 2 ^ 12 ∣ start) (h0 : 0 < start) (h64 : start < 2 ^ 64)
    {s t : TaskList} {parents : List Nat} (h : s.Sound start) (hr : run fork s parents = some t) :
    t.Sound start ∧ t.created.length = s.created.length + parents.length := by
  induction parents generalizing s with
  | nil =>
    obtain rfl := Option.some.inj hr
    exact ⟨h, rfl⟩
  | cons p parents ih =>
    obtain ⟨u, hu, hut⟩ := run_cons.mp hr
    obtain ⟨hp, hserved, c, hcopy⟩ := fork_some hu
    obtain ⟨v, d, hv, hsound, hcreated, -⟩ := h.copyProcess hpage h0 h64 hp hserved
    obtain ⟨rfl, -⟩ := Prod.mk.inj (Option.some.inj (hcopy.symm.trans hv))
    obtain ⟨ht, hlen⟩ := ih hsound hut
    refine ⟨ht, ?_⟩
    rw [hlen, hcreated, List.length_cons, List.length_cons]
    omega

/-- After `ProcessInit` and forks by any processes, `processList` and the processes created are one
ring. In every ring, whatever the states, `FindNextTask` finds the first process after its argument
that is `PROCESS_RUNNING`, and as many calls of `Schedule` as there are such processes switch to
each of them once. -/
theorem forks_circle_and_round_robin (start processList : Nat) (hpage : 2 ^ 12 ∣ start)
    (h0 : 0 < start) (h64 : start < 2 ^ 64)
    (hapart : processList + 16 ≤ start ∨ start + kHeapHeapSize ≤ processList)
    (links : RingLinks Nat) :
    (∃ s, processInit links processList (HeapSystem.boot start) = some s ∧
      ∀ parents t, run fork s parents = some t → ∃ ps, t.Circle ps ∧ ps.Perm t.created ∧
        t.created.length = parents.length + 1 ∧
        ∀ a ∈ t.processList :: ps.map processNode,
          t.links.prev (t.links.next a) = a ∧ t.links.next (t.links.prev a) = a) ∧
    ∀ (s : TaskList) (before after : List Nat) (p : Nat) (state : Nat → ProcessState),
      s.Circle (before ++ p :: after) →
      let order := after ++ before ++ [p]
      (∃ q ∈ order, state q = .running) →
      ∃ q, order.find? (fun q => state q = .running) = some q ∧ processNode q ≠ s.processList ∧
        ∀ n > order.length, s.findNextTask state n (processNode p) = some q ∧
          ∃ visits, decisions { s with currentProcess := p } state n
              (order.countP fun q => state q = .running) = some visits ∧
            visits.Nodup ∧ ∀ q, q ∈ visits ↔ q ∈ before ++ p :: after ∧ state q = .running := by
  constructor
  · obtain ⟨s, hs, hsound, hcreated, -⟩ := processInit_sound hpage h0 h64 links hapart
    refine ⟨s, hs, fun parents t hr => ?_⟩
    obtain ⟨ht, hlen⟩ := forks_sound hpage h0 h64 hsound hr
    obtain ⟨ps, hcircle, hperm⟩ := ht.circle
    rw [hcreated] at hlen
    refine ⟨ps, hcircle, hperm, hlen.trans (Nat.add_comm _ _), fun a ha => ?_⟩
    exact ⟨(RingLinks.Ring.prev_next hcircle ha).1, (RingLinks.Ring.next_prev hcircle ha).1⟩
  · intro s before after p state hcircle order hsome
    have hperm : order.Perm (before ++ p :: after) := by
      have hrotate : (after ++ (before ++ [p])).Perm ((before ++ [p]) ++ after) :=
        List.perm_append_comm
      have heq : order = after ++ (before ++ [p]) := List.append_assoc ..
      rw [heq]
      simpa using hrotate
    obtain ⟨q, hq⟩ := Option.isSome_iff_exists.mp (List.find?_isSome.mpr
      (hsome.imp fun q hq => ⟨hq.1, decide_eq_true hq.2⟩))
    have hmem : q ∈ before ++ p :: after := hperm.mem_iff.mp (List.mem_of_find?_eq_some hq)
    refine ⟨q, hq, hcircle.ne_processList hmem, fun n hn => ?_⟩
    rw [hperm.length_eq] at hn
    have hcount := le_refl (order.filter fun q => state q = .running).length
    obtain ⟨hfind, hvisits⟩ := hcircle.round_robin hn hcount
    rw [List.take_length] at hvisits
    refine ⟨hfind.trans hq, order.filter fun q => state q = .running, ?_, ?_, ?_⟩
    · rw [List.countP_eq_length_filter]
      exact hvisits
    · exact (hperm.nodup_iff.mpr hcircle.nodup).filter _
    · intro r
      rw [List.mem_filter, decide_eq_true_iff, hperm.mem_iff]

/-- The first process forks twice, and three calls of `Schedule` from it visit three processes. -/
theorem forks_circle_two : ∃ s t, processInit ⟨fun _ => 0, fun _ => 0⟩ 0x200000
      (HeapSystem.boot 0x100000) = some s ∧
    run fork s [0x100000, 0x100000] = some t ∧ t.created = [0x100600, 0x100300, 0x100000] ∧
    ∃ visits, decisions { t with currentProcess := 0x100000 } (fun _ => .running) 4 3 = some visits ∧
      visits.Nodup ∧ ∀ q, q ∈ visits ↔ q ∈ t.created := by
  obtain ⟨⟨s, hs, hforks⟩, hrobin⟩ := forks_circle_and_round_robin 0x100000 0x200000
    (by decide) (by decide) (by decide) (Or.inr (by decide)) ⟨fun _ => 0, fun _ => 0⟩
  have hend : ((processInit ⟨fun _ => 0, fun _ => 0⟩ 0x200000 (HeapSystem.boot 0x100000)).bind
      fun s => run fork s [0x100000, 0x100000]).map created =
        some [0x100600, 0x100300, 0x100000] := by decide +kernel
  rw [hs, Option.bind_some] at hend
  obtain ⟨t, ht, hcreated⟩ := Option.map_eq_some_iff.mp hend
  obtain ⟨ps, hcircle, hperm, -⟩ := hforks _ t ht
  rw [hcreated] at hperm
  have hmem : 0x100000 ∈ ps := hperm.mem_iff.mpr (by simp)
  obtain ⟨before, after, rfl⟩ := List.append_of_mem hmem
  have hlen : (after ++ before ++ [0x100000]).length = 3 := by
    have hlen := hperm.length_eq
    simp only [List.length_append, List.length_cons, List.length_nil] at hlen ⊢
    omega
  obtain ⟨q, -, -, hvisit⟩ := hrobin t before after 0x100000 (fun _ => .running) hcircle
    ⟨0x100000, by simp, rfl⟩
  obtain ⟨-, visits, hvisits, hnodup, hall⟩ := hvisit 4 (by rw [hlen]; decide)
  have hcount : (after ++ before ++ [0x100000]).countP (fun _ =>
      ProcessState.running = ProcessState.running) = 3 := by
    rw [← hlen]
    exact List.countP_eq_length.mpr (fun _ _ => rfl)
  rw [hcount] at hvisits
  refine ⟨s, t, hs, ht, hcreated, visits, hvisits, hnodup, fun q => ?_⟩
  rw [hall q, hcreated, hperm.mem_iff]
  exact and_iff_left rfl

end TaskList
end Amaterasu
