import Amaterasu.Process.KernelStack
import Amaterasu.Scheduler.Ring

/-! The ids of the processes. `NewProcessId` adds one to the id of the caller, so an id is the
number of forks between the process and the one of `ProcessInit`. -/

namespace Amaterasu
open Function Runs

/-- `pid` is the field of that name in the record of each process. -/
structure PidList where
  tasks : TaskList
  pid : Nat → BitVec 32

/-- The calls that make a process, each by any of the processes there are. -/
inductive ForkCall
  | sysFork (caller : Nat)
  | kernelThread (caller : Nat)

def ForkCall.caller : ForkCall → Nat
  | sysFork caller => caller
  | kernelThread caller => caller

namespace PidList

/-- `ProcessInit`, with `pid` for what the records hold. -/
def processInit (links : RingLinks Nat) (processList : Nat) (heap : HeapSystem)
    (pid : Nat → BitVec 32) : Option PidList :=
  (TaskList.processInit links processList heap).map fun tasks =>
    ⟨tasks, update pid tasks.currentProcess pidInitial⟩

/-- `DoFork`, all of whose `kmalloc`s succeed. -/
def doFork (s : PidList) (caller : Nat) : Option PidList :=
  if caller ∈ s.tasks.created ∧ s.tasks.heap.provides TaskList.recordSizes = true then
    (s.tasks.copyProcess caller).map fun r =>
      ⟨r.1, update s.pid r.2 (newProcessId (s.pid caller))⟩
  else none

def step (s : PidList) (c : ForkCall) : Option PidList := s.doFork c.caller

/-- The processes on `processList` have ids of their own, and only `first` has 0. -/
def PidsUnique (first : Nat) (s : PidList) : Prop :=
  ∃ ps, s.tasks.Circle ps ∧ (ps.map s.pid).Nodup ∧ ∀ p ∈ ps, p ≠ first → s.pid p ≠ 0

/-- The call is made by the process that was created last. -/
def ByNewest (s : PidList) (c : ForkCall) : Prop := s.tasks.created.head? = some c.caller

instance : DecidableRel ByNewest := fun s c =>
  inferInstanceAs (Decidable (s.tasks.created.head? = some c.caller))

/-! ## Generations -/

/-- Every process but `first` was made by the one created right before it. -/
structure Numbered (start first : Nat) (s : PidList) : Prop where
  sound : s.tasks.Sound start
  last : s.tasks.created.getLast? = some first
  pid : ∀ newer p older, s.tasks.created = newer ++ p :: older →
    s.pid p = BitVec.ofNat 32 older.length

/-- Two processes have one id. -/
structure Collided (start : Nat) (s : PidList) : Prop where
  sound : s.tasks.Sound start
  shared : ∃ p ∈ s.tasks.created, ∃ q ∈ s.tasks.created, p ≠ q ∧ s.pid p = s.pid q

section Sound
variable {start first : Nat} {s t : PidList} {c : ForkCall} {p q : Nat}

theorem nodup_created {s : TaskList} (h : s.Sound start) : s.created.Nodup := by
  obtain ⟨ps, hcircle, hperm⟩ := h.circle
  exact hperm.nodup_iff.mp hcircle.nodup

/-- The heap has no room for more processes than cells. -/
theorem length_created {s : TaskList} (h : s.Sound start) :
    s.created.length ≤ kHeapBlockNum := by
  obtain ⟨R, q, hq⟩ := h.heap
  have haddr : ∀ p ∈ s.created, p = start + 256 * s.heap.cell p ∧ s.heap.cell p < 16 := by
    intro p hp
    obtain ⟨a, ha, rfl⟩ := h.records p hp
    have hcell : a.address = start + 256 * s.heap.cell a.address := hq.address a ha
    have hfirst := HeapSystem.mem_bytes a (i := 0) (by decide)
    have hrange := Set.mem_Ico.mp (hq.noOverlap.inside a ha hfirst)
    unfold kHeapHeapSize at hrange
    exact ⟨hcell, by omega⟩
  have hcells : (s.created.map s.heap.cell).Nodup := by
    apply List.Nodup.map_on _ (nodup_created h)
    intro p hp p' hp' heq
    rw [(haddr p hp).1, (haddr p' hp').1, heq]
  have hsub : s.created.map s.heap.cell ⊆ List.range 16 := by
    intro x hx
    obtain ⟨p, hp, rfl⟩ := List.mem_map.mp hx
    exact List.mem_range.mpr (haddr p hp).2
  have hlen := (hcells.subperm hsub).length_le
  rwa [List.length_map, List.length_range] at hlen

/-- What a call adds to the list. -/
theorem step_some (hpage : 2 ^ 12 ∣ start) (h0 : 0 < start) (h64 : start < 2 ^ 64)
    (h : s.tasks.Sound start) (ht : s.step c = some t) : c.caller ∈ s.tasks.created ∧
    t.tasks.Sound start ∧ ∃ child, child ∉ s.tasks.created ∧
      t.tasks.created = child :: s.tasks.created ∧
      t.pid = update s.pid child (newProcessId (s.pid c.caller)) := by
  unfold step doFork at ht
  split_ifs at ht with hok
  obtain ⟨u, child, hu, hsound, hcreated, hchild, -⟩ :=
    h.copyProcess hpage h0 h64 hok.1 hok.2
  rw [hu, Option.map_some] at ht
  obtain rfl := Option.some.inj ht
  exact ⟨hok.1, hsound, child, hchild, hcreated, rfl⟩

theorem ofNat_inj {m n : Nat} (hm : m < 2 ^ 32) (hn : n < 2 ^ 32)
    (h : BitVec.ofNat 32 m = BitVec.ofNat 32 n) : m = n := by
  have := congrArg BitVec.toNat h
  rwa [BitVec.toNat_ofNat, BitVec.toNat_ofNat, Nat.mod_eq_of_lt hm, Nat.mod_eq_of_lt hn] at this

theorem Numbered.lt (h : Numbered start first s) {newer older : List Nat}
    (hp : s.tasks.created = newer ++ p :: older) : older.length < 2 ^ 32 := by
  have hlen := length_created h.sound
  rw [hp, List.length_append, List.length_cons] at hlen
  have : kHeapBlockNum = 16 := rfl
  omega

theorem Numbered.pid_injective (h : Numbered start first s) (hp : p ∈ s.tasks.created)
    (hq : q ∈ s.tasks.created) (heq : s.pid p = s.pid q) : p = q := by
  obtain ⟨newer, older, hpo⟩ := List.append_of_mem hp
  obtain ⟨newer', older', hqo⟩ := List.append_of_mem hq
  rw [h.pid _ _ _ hpo, h.pid _ _ _ hqo] at heq
  have hlen := ofNat_inj (h.lt hpo) (h.lt hqo) heq
  have hsplit := hpo.symm.trans hqo
  have htail := List.append_inj_right' hsplit (by rw [List.length_cons, List.length_cons, hlen])
  exact (List.cons.inj htail).1

theorem Numbered.unique (h : Numbered start first s) : s.PidsUnique first := by
  obtain ⟨ps, hcircle, hperm⟩ := h.sound.circle
  refine ⟨ps, hcircle, ?_, ?_⟩
  · apply List.Nodup.map_on _ hcircle.nodup
    intro p hp q hq heq
    exact h.pid_injective (hperm.mem_iff.mp hp) (hperm.mem_iff.mp hq) heq
  · intro p hp hne hzero
    obtain ⟨newer, older, hpo⟩ := List.append_of_mem (hperm.mem_iff.mp hp)
    rw [h.pid _ _ _ hpo] at hzero
    have hlen : older.length = 0 := ofNat_inj (h.lt hpo) (by decide) hzero
    obtain rfl := List.length_eq_zero_iff.mp hlen
    have hlast := h.last
    rw [hpo, List.getLast?_concat] at hlast
    exact hne (Option.some.inj hlast)

theorem Collided.not_unique (h : Collided start s) : ¬s.PidsUnique first := by
  rintro ⟨ps, hcircle, hnodup, -⟩
  obtain ⟨qs, hqs, hperm⟩ := h.sound.circle
  obtain ⟨p, hp, q, hq, hne, heq⟩ := h.shared
  obtain rfl := hcircle.unique hqs
  exact hne (List.inj_on_of_nodup_map hnodup (hperm.mem_iff.mpr hp) (hperm.mem_iff.mpr hq) heq)

/-! ## Steps -/

variable (hpage : 2 ^ 12 ∣ start) (h0 : 0 < start) (h64 : start < 2 ^ 64)
include hpage h0 h64

theorem Numbered.step (h : Numbered start first s) (hc : s.ByNewest c) (ht : s.step c = some t) :
    Numbered start first t := by
  obtain ⟨-, hsound, child, hchild, hcreated, hpid⟩ := step_some hpage h0 h64 h.sound ht
  obtain ⟨older, holder⟩ := List.head?_eq_some_iff.mp hc
  refine ⟨hsound, ?_, ?_⟩
  · rw [hcreated, holder, List.getLast?_cons_cons, ← holder, h.last]
  · intro newer p rest hp
    rw [hcreated] at hp
    cases newer with
    | nil =>
      obtain ⟨rfl, rfl⟩ := List.cons.inj hp
      have hcaller := h.pid [] _ _ holder
      rw [hpid, update_self, newProcessId, hcaller, holder, List.length_cons, BitVec.ofNat_add]
      rfl
    | cons d newer =>
      have htail : s.tasks.created = newer ++ p :: rest := (List.cons.inj hp).2
      have hne : p ≠ child := by
        rintro rfl
        exact hchild (htail ▸ List.mem_append_right _ List.mem_cons_self)
      rw [hpid, update_of_ne hne, h.pid _ _ _ htail]

/-- Right before its caller another process was made, which has the id already. -/
theorem Numbered.collides (h : Numbered start first s) (hc : ¬s.ByNewest c)
    (ht : s.step c = some t) : Collided start t := by
  obtain ⟨hcaller, hsound, child, hchild, hcreated, hpid⟩ := step_some hpage h0 h64 h.sound ht
  obtain ⟨newer, older, hsplit⟩ := List.append_of_mem hcaller
  rcases List.eq_nil_or_concat newer with rfl | ⟨newer, q, rfl⟩
  · exact absurd (by rw [ByNewest, hsplit]; rfl) hc
  have hq : s.tasks.created = newer ++ q :: c.caller :: older := by
    rw [hsplit, List.concat_eq_append, List.append_assoc]
    rfl
  have hmem : q ∈ s.tasks.created := hq ▸ List.mem_append_right _ List.mem_cons_self
  have hne : q ≠ child := fun e => hchild (e ▸ hmem)
  refine ⟨hsound, child, hcreated ▸ List.mem_cons_self, q, ?_, hne.symm, ?_⟩
  · exact hcreated ▸ List.mem_cons_of_mem _ hmem
  · rw [hpid, update_self, update_of_ne hne, newProcessId, h.pid _ _ _ hsplit, h.pid _ _ _ hq,
      List.length_cons, BitVec.ofNat_add]
    rfl

theorem Collided.step (h : Collided start s) (ht : s.step c = some t) : Collided start t := by
  obtain ⟨-, hsound, child, hchild, hcreated, hpid⟩ := step_some hpage h0 h64 h.sound ht
  obtain ⟨p, hp, q, hq, hne, heq⟩ := h.shared
  have hold : ∀ x ∈ s.tasks.created, t.pid x = s.pid x := by
    intro x hx
    have hne : x ≠ child := fun e => hchild (e ▸ hx)
    rw [hpid, update_of_ne hne]
  refine ⟨hsound, p, ?_, q, ?_, hne, by rw [hold p hp, hold q hq, heq]⟩
  · exact hcreated ▸ List.mem_cons_of_mem _ hp
  · exact hcreated ▸ List.mem_cons_of_mem _ hq

/-- The ids stay apart exactly along the runs in which every caller is the newest process. -/
theorem Numbered.run_unique_iff (h : Numbered start first s) {calls : List ForkCall}
    (hr : run PidList.step s calls = some t) :
    t.PidsUnique first ↔ Along PidList.step ByNewest s calls := by
  induction calls generalizing s with
  | nil =>
    obtain rfl := Option.some.inj hr
    exact ⟨fun _ => trivial, fun _ => h.unique⟩
  | cons c calls ih =>
    obtain ⟨u, hu, hut⟩ := run_cons.mp hr
    by_cases hc : s.ByNewest c
    · rw [ih (h.step hpage h0 h64 hc hu) hut]
      constructor
      · intro hrest
        refine ⟨hc, fun v hv => ?_⟩
        obtain rfl := Option.some.inj (hu.symm.trans hv)
        exact hrest
      · exact fun hall => hall.2 u hu
    · have hcollided := run_invariant (I := Collided start)
        (fun _ _ _ hi hs => hi.step hpage h0 h64 hs) (h.collides hpage h0 h64 hc hu) hut
      exact ⟨fun hunique => absurd hunique hcollided.not_unique, fun hall => absurd hall.1 hc⟩

theorem processInit_numbered (links : RingLinks Nat) {processList : Nat} (pid : Nat → BitVec 32)
    (hapart : processList + 16 ≤ start ∨ start + kHeapHeapSize ≤ processList) :
    ∃ s, processInit links processList (HeapSystem.boot start) pid = some s ∧
      Numbered start s.tasks.currentProcess s := by
  obtain ⟨tasks, hs, hsound, hcreated, -⟩ :=
    TaskList.processInit_sound hpage h0 h64 links hapart
  refine ⟨⟨tasks, update pid tasks.currentProcess pidInitial⟩, by rw [processInit, hs]; rfl,
    hsound, by rw [hcreated]; rfl, ?_⟩
  intro newer p older hp
  rw [hcreated] at hp
  cases newer with
  | nil =>
    obtain ⟨rfl, rfl⟩ := List.cons.inj hp
    exact update_self ..
  | cons d newer => simp at hp

end Sound

/-- After `ProcessInit`, the ids are unique exactly when every `sysFork` and every `KernelThread`
has been called by the process that was made last. -/
theorem run_pids_unique_iff (start processList : Nat) (hpage : 2 ^ 12 ∣ start) (h0 : 0 < start)
    (h64 : start < 2 ^ 64)
    (hapart : processList + 16 ≤ start ∨ start + kHeapHeapSize ≤ processList)
    (links : RingLinks Nat) (pid : Nat → BitVec 32) :
    ∃ s, processInit links processList (HeapSystem.boot start) pid = some s ∧
      ∀ calls t, run step s calls = some t →
        (t.PidsUnique s.tasks.currentProcess ↔ Along step ByNewest s calls) := by
  obtain ⟨s, hs, hnumbered⟩ := processInit_numbered hpage h0 h64 links pid hapart
  exact ⟨s, hs, fun calls t hr => hnumbered.run_unique_iff hpage h0 h64 hr⟩

/-- A child of a child has an id of its own. -/
theorem run_pids_unique_two : ∃ s t, processInit ⟨fun _ => 0, fun _ => 0⟩ 0x200000
      (HeapSystem.boot 0x100000) (fun _ => 7) = some s ∧
    run step s [.sysFork 0x100000, .kernelThread 0x100300] = some t ∧
    t.PidsUnique s.tasks.currentProcess := by
  obtain ⟨s, hs, hruns⟩ := run_pids_unique_iff 0x100000 0x200000 (by decide) (by decide) (by decide)
    (Or.inr (by decide)) ⟨fun _ => 0, fun _ => 0⟩ fun _ => 7
  have hend : ∀ s ∈ processInit ⟨fun _ => 0, fun _ => 0⟩ 0x200000 (HeapSystem.boot 0x100000)
      (fun _ => 7), Along step ByNewest s [.sysFork 0x100000, .kernelThread 0x100300] ∧
        (run step s [.sysFork 0x100000, .kernelThread 0x100300]).isSome = true := by
    decide +kernel
  obtain ⟨halong, hsome⟩ := hend s hs
  obtain ⟨t, ht⟩ := Option.isSome_iff_exists.mp hsome
  exact ⟨s, t, hs, ht, (hruns _ t ht).mpr halong⟩

/-- Two children of the first process have the id 1. -/
theorem siblings_share_pid : ∃ s t, processInit ⟨fun _ => 0, fun _ => 0⟩ 0x200000
      (HeapSystem.boot 0x100000) (fun _ => 7) = some s ∧
    run step s [.sysFork 0x100000, .sysFork 0x100000] = some t ∧
    (t.pid 0x100300 = 1 ∧ t.pid 0x100600 = 1) ∧ ¬t.PidsUnique s.tasks.currentProcess := by
  obtain ⟨s, hs, hnumbered⟩ := processInit_numbered (by decide : 2 ^ 12 ∣ 0x100000) (by decide)
    (by decide) ⟨fun _ => 0, fun _ => 0⟩ (fun _ => 7) (Or.inr (by decide : _ ≤ 0x200000))
  have hend : ∀ s ∈ processInit ⟨fun _ => 0, fun _ => 0⟩ 0x200000 (HeapSystem.boot 0x100000)
      (fun _ => 7), ¬Along step ByNewest s [.sysFork 0x100000, .sysFork 0x100000] ∧
        (run step s [.sysFork 0x100000, .sysFork 0x100000]).map
          (fun t => (t.pid 0x100300, t.pid 0x100600)) = some (1, 1) := by
    decide +kernel
  obtain ⟨hnot, hids⟩ := hend s hs
  obtain ⟨t, ht, hpids⟩ := Option.map_eq_some_iff.mp hids
  refine ⟨s, t, hs, ht, Prod.mk.inj hpids, fun hunique => hnot ?_⟩
  exact (hnumbered.run_unique_iff (by decide) (by decide) (by decide) ht).mp hunique

end PidList
end Amaterasu
