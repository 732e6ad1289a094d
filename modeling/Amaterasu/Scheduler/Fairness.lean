import Amaterasu.Library.RingTurns
import Amaterasu.Process.ForkFailure
import Amaterasu.Scheduler.System

/-! How long a process that is `PROCESS_RUNNING` waits. A fork puts the child behind its parent, where
the search comes to it before all the others; but the search goes round the ring, and the records of
the processes are never freed. -/

namespace Amaterasu
open Block Function Runs

/-! ## The room for processes -/

namespace HeapSystem
variable {R : Set Nat} {start : Nat} {s t : HeapSystem} {p : Pool R} {sizes : List Nat}

theorem Tracks.live_length_le (h : s.Tracks start p) : s.live.length ≤ kHeapBlockNum := by
  have hlive : ∀ a ∈ s.live, s.block a ∈ p.live := fun a ha => (h.live _).mpr ⟨a, ha, rfl⟩
  have hnodup : (s.live.map fun a => s.cell a.address).Nodup := by
    refine List.pairwise_map.mpr (h.nodup.imp_of_mem fun ha hb hne heq => hne ?_)
    exact p.eq_of_start_eq (Or.inr (hlive _ ha)) (Or.inr (hlive _ hb)) heq
  have hsub : (s.live.map fun a => s.cell a.address) ⊆ List.range kHeapBlockNum := fun x hx => by
    obtain ⟨a, ha, rfl⟩ := List.mem_map.mp hx
    have hspan := p.span_subset (Or.inr (hlive a ha)) (s.block a).start_mem_span
    exact List.mem_range.mpr (h.represents.within hspan)
  have hlen := (List.subperm_of_subset hnodup hsub).length_le
  rwa [List.length_map, List.length_range] at hlen

theorem provides_length (h : s.provides sizes = true) (hall : s.kmallocs sizes = some t) :
    s.live.length + sizes.length ≤ t.live.length := by
  induction sizes generalizing s with
  | nil =>
    obtain rfl := Option.some.inj hall
    exact le_rfl
  | cons size sizes ih =>
    obtain ⟨u, a, hk, ha, hrest⟩ := provides_cons h
    obtain ⟨r, hr, hall⟩ := Option.bind_eq_some_iff.mp hall
    obtain rfl := Option.some.inj (hk.symm.trans hr)
    have hone := kmalloc_length hk ha
    have hmore := ih hrest hall
    rw [List.length_cons]
    omega

end HeapSystem

namespace TaskList
variable {s t : TaskList} {p c : Nat}

theorem processInit_heap (links : RingLinks Nat) (processList : Nat) (heap : HeapSystem) :
    (processInit links processList heap).map TaskList.heap = heap.kmallocs recordSizes := by
  unfold processInit recordSizes
  cases h₁ : heap.kmalloc sizeofProcess with
  | none => simp [HeapSystem.kmallocs, h₁]
  | some process =>
    cases h₂ : process.1.kmalloc sizeofProcessMemory with
    | none => simp [HeapSystem.kmallocs, h₁, h₂]
    | some memory =>
      cases h₃ : memory.1.kmalloc sizeofThreadInfo with
      | none => simp [HeapSystem.kmallocs, h₁, h₂, h₃]
      | some thread => simp [HeapSystem.kmallocs, h₁, h₂, h₃]

theorem copyProcess_links (h : s.copyProcess p = some (t, c)) :
    t.links = RingLinks.insertAfter ⟨update s.links.next (processNode c)
      (s.links.next (processNode p)), update s.links.prev (processNode c)
      (s.links.prev (processNode p))⟩ (processNode c) (processNode p) := by
  unfold copyProcess at h
  simp only [Option.bind_eq_bind] at h
  obtain ⟨r₁, -, h⟩ := Option.bind_eq_some_iff.mp h
  obtain ⟨r₂, -, h⟩ := Option.bind_eq_some_iff.mp h
  obtain ⟨r₃, -, h⟩ := Option.bind_eq_some_iff.mp h
  obtain ⟨rfl, rfl⟩ := Prod.mk.inj (Option.some.inj h)
  rfl

/-- Each process has its three records, and no record is ever freed. -/
def Recorded (s : TaskList) : Prop := recordSizes.length * s.created.length ≤ s.heap.live.length

theorem Recorded.created_le {start : Nat} (h : s.Recorded) (hs : s.Sound start) :
    recordSizes.length * s.created.length ≤ kHeapBlockNum := by
  obtain ⟨R, q, hq⟩ := hs.heap
  exact le_trans h hq.live_length_le

theorem Recorded.copyProcess (h : s.Recorded) (hserved : s.heap.provides recordSizes = true)
    (hc : s.copyProcess p = some (t, c)) (hcreated : t.created = c :: s.created) : t.Recorded := by
  have hheap := s.copyProcess_heap p
  rw [hc] at hheap
  have hlen : _ ≤ t.heap.live.length := HeapSystem.provides_length hserved hheap.symm
  unfold Recorded at h ⊢
  rw [hcreated, List.length_cons, Nat.mul_succ]
  omega

end TaskList

/-! ## Turns -/

namespace TaskSystem

def Event.isLook : Event → Bool
  | .look => true
  | _ => false

/-- The node where the next search, or the one under way, goes on. -/
def place (s : TaskSystem) : Nat :=
  match s.control with
  | .searching pl => pl
  | _ => processNode s.tasks.currentProcess

/-- The process that has the processor, or none while `Schedule` searches. -/
def holder (s : TaskSystem) : List Nat :=
  match s.control with
  | .searching _ => []
  | _ => [s.tasks.currentProcess]

section Turns
variable (disk : Nat → BitVec 8) (floating : Nat → BitVec 16)

/-- The processes that the searches find in a run. -/
def turns : TaskSystem → List Event → List Nat
  | _, [] => []
  | s, e :: events =>
    match s.step disk floating e with
    | none => []
    | some t => (if e.isLook then t.holder else []) ++ turns t events

end Turns

section Fairness
variable {disk : Nat → BitVec 8} {floating : Nat → BitVec 16} {s t : TaskSystem} {start p : Nat}
  {e : Event} {events : List Event}

theorem turns_cons (ht : s.step disk floating e = some t) :
    turns disk floating s (e :: events) =
      (if e.isLook then t.holder else []) ++ turns disk floating t events := by
  rw [turns, ht]

theorem mem_holder : p ∈ s.holder ↔
    p = s.tasks.currentProcess ∧ ∀ pl, s.control ≠ .searching pl := by
  unfold holder
  cases hcontrol : s.control <;> simp

theorem holder_eq (hcontrol : ∀ pl, s.control ≠ .searching pl) :
    s.holder = [s.tasks.currentProcess] ∧ s.place = processNode s.tasks.currentProcess := by
  unfold holder place
  cases h : s.control with
  | user => exact ⟨rfl, rfl⟩
  | woken => exact ⟨rfl, rfl⟩
  | searching pl => exact absurd h (hcontrol pl)

/-- A round of the search goes one node on. -/
theorem Coherent.look_place {pl : Nat} (h : s.Coherent start) (hpl : s.control = .searching pl) :
    (s.look pl).place = s.tasks.links.next pl ∧
      ∀ q ∈ (s.look pl).holder, processNode q = s.tasks.links.next pl := by
  obtain ⟨ps, hcircle, hperm⟩ := h.sound.circle
  have hnodes : (s.tasks.processList :: ps.map processNode).Perm
      (s.tasks.processList :: s.tasks.created.map processNode) := (hperm.map _).cons _
  have hnext := (RingLinks.Ring.prev_next hcircle (hnodes.mem_iff.mpr (h.node pl hpl))).2
  unfold TaskSystem.look
  dsimp only
  by_cases hgood : s.tasks.isNext s.ata.state (s.tasks.links.next pl) = true
  · have hnode : processNode (listEntry (s.tasks.links.next pl)) = s.tasks.links.next pl := by
      obtain ⟨hne, -⟩ := Bool.and_eq_true_iff.mp hgood
      obtain ⟨q, -, heq⟩ := List.mem_map.mp
        ((List.mem_cons.mp hnext).resolve_left (of_decide_eq_true hne))
      rw [← heq, listEntry_processNode]
    rw [if_pos hgood]
    split_ifs
    · exact ⟨hnode, fun q hq => List.mem_singleton.mp hq ▸ hnode⟩
    · exact ⟨hnode, fun q hq => List.mem_singleton.mp hq ▸ hnode⟩
  · rw [if_neg hgood]
    exact ⟨rfl, fun q hq => absurd hq List.not_mem_nil⟩

theorem look_kept (s : TaskSystem) (pl : Nat) : (s.look pl).tasks.links = s.tasks.links ∧
    (s.look pl).tasks.created = s.tasks.created ∧ (s.look pl).tasks.heap = s.tasks.heap := by
  unfold look
  dsimp only
  split_ifs <;> exact ⟨rfl, rfl, rfl⟩

/-- What a step makes of the ring and of the place in it. -/
theorem Coherent.step_place (h : s.Coherent start) (hpage : 2 ^ 12 ∣ start) (h0 : 0 < start)
    (h64 : start < 2 ^ 64) (hserved : s.Served e) (ht : s.step disk floating e = some t) :
    (e.isLook = false ∧ t.tasks = s.tasks ∧ t.place = s.place ∧ t.holder ⊆ s.holder) ∨
    (e = .fork ∧ t.place = s.place ∧ t.holder = s.holder ∧
      s.place = processNode s.tasks.currentProcess ∧
      ∃ c, processNode c ∉ s.tasks.processList :: s.tasks.created.map processNode ∧
      t.tasks.created = c :: s.tasks.created ∧
      s.tasks.copyProcess s.tasks.currentProcess = some (t.tasks, c)) ∨
    (e = .look ∧ t.tasks.links = s.tasks.links ∧ t.tasks.created = s.tasks.created ∧
      t.tasks.heap = s.tasks.heap ∧ t.place = s.tasks.links.next s.place ∧
      ∀ q ∈ t.holder, processNode q = t.place) := by
  have huser : s.control = .user →
      s.holder = [s.tasks.currentProcess] ∧ s.place = processNode s.tasks.currentProcess := by
    intro hu
    exact holder_eq fun pl hpl => by rw [hu] at hpl; cases hpl
  cases e with
  | timer =>
    obtain ⟨hu, rfl⟩ := step_timer ht
    exact .inl ⟨rfl, rfl, (huser hu).2.symm, List.nil_subset _⟩
  | read lba sizeOfBytes buffer =>
    obtain ⟨hu, -, ⟨-, rfl⟩ | ⟨-, rfl⟩⟩ := step_read ht
    · exact .inl ⟨rfl, rfl, (huser hu).2.symm, (huser hu).1 ▸ List.Subset.refl _⟩
    · exact .inl ⟨rfl, rfl, (huser hu).2.symm, List.nil_subset _⟩
  | poll lba sizeOfBytes buffer ok =>
    obtain ⟨hu, ata, -, rfl⟩ := step_poll ht
    exact .inl ⟨rfl, rfl, (huser hu).2.symm, (huser hu).1 ▸ List.Subset.refl _⟩
  | fork =>
    obtain ⟨hu, tasks, c, hcopy, rfl⟩ := step_fork ht
    obtain ⟨v, d, hv, hsound, hcreated, hfresh, hsame, hlist⟩ :=
      h.sound.copyProcess hpage h0 h64 h.current hserved
    obtain ⟨rfl, rfl⟩ := Prod.mk.inj (Option.some.inj (hcopy.symm.trans hv))
    obtain ⟨hholder, hplace⟩ := huser hu
    have hnode : processNode c ∉ s.tasks.processList :: s.tasks.created.map processNode := by
      obtain ⟨qs, hqs, hperm⟩ := hsound.circle
      refine TaskList.fresh_node (List.Perm.refl _) hfresh ?_
      rw [← hlist]
      exact hqs.ne_processList (hperm.mem_iff.mpr (hcreated ▸ List.mem_cons_self))
    refine .inr (.inl ⟨rfl, ?_, ?_, hplace, c, hnode, hcreated, hcopy⟩)
    · rw [hplace, ← hsame]
      rfl
    · rw [hholder, ← hsame]
      rfl
  | exit =>
    obtain ⟨hu, rfl⟩ := step_exit ht
    exact .inl ⟨rfl, rfl, (huser hu).2.symm, List.nil_subset _⟩
  | settle ok =>
    obtain ⟨d, rfl⟩ := step_settle ht
    exact .inl ⟨rfl, rfl, rfl, List.Subset.refl _⟩
  | handler =>
    obtain ⟨-, rfl⟩ := step_handler ht
    exact .inl ⟨rfl, rfl, rfl, List.Subset.refl _⟩
  | look =>
    obtain ⟨pl, hpl, rfl⟩ := step_look ht
    obtain ⟨hlinks, hcreated, hheap⟩ := look_kept s pl
    obtain ⟨hplace, hholder⟩ := h.look_place hpl
    have hnow : s.place = pl := by
      unfold place
      rw [hpl]
    rw [hnow]
    exact .inr (.inr ⟨rfl, hlinks, hcreated, hheap, hplace, fun q hq =>
      (hholder q hq).trans hplace.symm⟩)
  | resume =>
    obtain ⟨hw, ata, -, rfl⟩ := step_resume ht
    have hwoken := holder_eq (s := s) fun pl hpl => by rw [hw] at hpl; cases hpl
    exact .inl ⟨rfl, rfl, hwoken.2.symm, hwoken.1 ▸ List.Subset.refl _⟩

/-- A process that does not have the processor stays `PROCESS_RUNNING`. -/
theorem Coherent.running_kept (h : s.Coherent start) (hpage : 2 ^ 12 ∣ start) (h0 : 0 < start)
    (h64 : start < 2 ^ 64) (hserved : s.Served e) (ht : s.step disk floating e = some t)
    (hp : p ∈ s.tasks.created) (hrunning : s.ata.state p = .running) (hwait : p ∉ s.holder) :
    t.ata.state p = .running := by
  have hother : s.control = .user → p ≠ s.tasks.currentProcess := by
    rintro hu rfl
    exact hwait (mem_holder.mpr ⟨rfl, fun pl hpl => by rw [hu] at hpl; cases hpl⟩)
  cases e with
  | timer =>
    obtain ⟨-, rfl⟩ := step_timer ht
    exact hrunning
  | read lba sizeOfBytes buffer =>
    obtain ⟨hu, -, ⟨-, rfl⟩ | ⟨-, rfl⟩⟩ := step_read ht
    · exact hrunning
    · exact (update_of_ne (hother hu) _ _).trans hrunning
  | poll lba sizeOfBytes buffer ok =>
    obtain ⟨-, ata, hata, rfl⟩ := step_poll ht
    show ata.state p = .running
    rw [(AtaTrace.step_poll_kept hata).1]
    exact hrunning
  | fork =>
    obtain ⟨-, tasks, c, hcopy, rfl⟩ := step_fork ht
    obtain ⟨v, d, hv, -, -, hfresh, -⟩ := h.sound.copyProcess hpage h0 h64 h.current hserved
    obtain ⟨rfl, rfl⟩ := Prod.mk.inj (Option.some.inj (hcopy.symm.trans hv))
    exact (update_of_ne (ne_of_mem_of_not_mem hp hfresh) _ _).trans hrunning
  | exit =>
    obtain ⟨hu, rfl⟩ := step_exit ht
    exact (update_of_ne (hother hu) _ _).trans hrunning
  | settle ok =>
    obtain ⟨d, rfl⟩ := step_settle ht
    exact hrunning
  | handler =>
    obtain ⟨-, rfl⟩ := step_handler ht
    show update s.ata.state _ .running p = .running
    rw [update_apply, hrunning, ite_self]
  | look =>
    obtain ⟨pl, hpl, rfl⟩ := step_look ht
    obtain ⟨q, -, -, heq⟩ | ⟨pl', -, heq⟩ := h.look hpl
    · rw [heq]
      exact hrunning
    · rw [heq]
      exact hrunning
  | resume =>
    obtain ⟨-, ata, hata, rfl⟩ := step_resume ht
    show ata.state p = .running
    rw [(AtaTrace.step_resume_kept hata).1]
    exact hrunning

/-- The ring, read from the place in it. -/
theorem Coherent.ring (h : s.Coherent start) : ∃ l, s.tasks.links.Ring s.place l ∧
    (s.place :: l).Perm (s.tasks.processList :: s.tasks.created.map processNode) := by
  obtain ⟨ps, hcircle, hperm⟩ := h.sound.circle
  have hnodes : (s.tasks.processList :: ps.map processNode).Perm
      (s.tasks.processList :: s.tasks.created.map processNode) := (hperm.map _).cons _
  have hplace : s.place ∈ s.tasks.processList :: s.tasks.created.map processNode := by
    unfold place
    split
    · exact h.node _ ‹_›
    · exact node_current h.current
  obtain ⟨l, hl, hback⟩ := RingLinks.Ring.exists_rotate hcircle (hnodes.mem_iff.mpr hplace)
  exact ⟨l, hl, hback.trans hnodes⟩

/-- `p` is `PROCESS_RUNNING`, and the search comes to the nodes `before` before it comes to `p`. -/
structure Waiting (start p : Nat) (before passed : List Nat) (s : TaskSystem) : Prop where
  coherent : s.Coherent start
  recorded : s.tasks.Recorded
  mem : p ∈ s.tasks.created
  running : s.ata.state p = .running
  ahead : s.tasks.links.Ahead s.place (processNode p) before passed

/-- The search stops at `p`. -/
theorem look_finds {pl : Nat} (h : s.Coherent start) (hp : p ∈ s.tasks.created)
    (hrunning : s.ata.state p = .running) (hnext : s.tasks.links.next pl = processNode p) :
    p ∈ (s.look pl).holder := by
  obtain ⟨ps, hcircle, hperm⟩ := h.sound.circle
  have hgood : s.tasks.isNext s.ata.state (s.tasks.links.next pl) = true := by
    rw [hnext, hcircle.isNext _ (hperm.mem_iff.mpr hp)]
    exact decide_eq_true hrunning
  unfold look
  dsimp only
  rw [if_pos hgood, hnext, listEntry_processNode]
  split_ifs <;> exact List.mem_singleton_self p

section Runs
variable {before passed : List Nat} (hpage : 2 ^ 12 ∣ start) (h0 : 0 < start) (h64 : start < 2 ^ 64)
include hpage h0 h64

/-- While others have their turns, `p` comes nearer; only a fork puts somebody before it. -/
theorem Waiting.step (h : s.Waiting start p before passed) (hserved : s.Served e)
    (ht : s.step disk floating e = some t) (hwait : p ∉ s.holder)
    (hlook : e.isLook = true → p ∉ t.holder) :
    p ∉ t.holder ∧ ∃ before' passed', t.Waiting start p before' passed' ∧ passed ⊆ passed' ∧
      (e.isLook.toNat + s.tasks.created.length + before'.length ≤
        before.length + t.tasks.created.length) ∧
      (e.isLook = true → ∀ q ∈ t.holder, processNode q ∉ passed ∧ processNode q ∈ passed') := by
  have hnext := h.coherent.step hpage h0 h64 hserved ht
  have hrunning := h.coherent.running_kept hpage h0 h64 hserved ht h.mem h.running hwait
  obtain ⟨hno, htasks, hplace, hsub⟩ | ⟨rfl, hplace, hholder, hcurrent, c, hfresh, hcreated, hcopy⟩ |
    ⟨rfl, hlinks, hcreated, hheap, hplace, hnode⟩ :=
      h.coherent.step_place hpage h0 h64 hserved ht
  · refine ⟨fun hmem => hwait (hsub hmem), before, passed, ?_, List.Subset.refl _, ?_, fun hl => ?_⟩
    · exact ⟨hnext, htasks ▸ h.recorded, htasks ▸ h.mem, hrunning, by
        rw [htasks, hplace]; exact h.ahead⟩
    · rw [hno, htasks]
      exact (Nat.add_comm ..).le.trans (by simp)
    · rw [hno] at hl
      cases hl
  · -- the child comes before all the others
    have hrecorded := h.recorded.copyProcess hserved hcopy hcreated
    obtain ⟨l, hl, hperm⟩ := h.coherent.ring
    have hnew : ∀ m, s.tasks.links.Ring s.place m → processNode c ∉ s.place :: m := by
      intro m hm
      rw [hm.unique hl, hperm.mem_iff]
      exact hfresh
    have hahead := h.ahead.insertAfter hnew (s.tasks.links.next s.place)
      (s.tasks.links.prev s.place)
    rw [hcurrent, ← TaskList.copyProcess_links hcopy, ← hcurrent, ← hplace] at hahead
    refine ⟨hholder ▸ hwait, _, passed, ⟨hnext, hrecorded, ?_, hrunning, hahead⟩,
      List.Subset.refl _, ?_, fun hl => (nomatch hl)⟩
    · rw [hcreated]
      exact List.mem_cons_of_mem _ h.mem
    · rw [hcreated, List.length_cons, List.length_cons]
      show 0 + _ + _ ≤ _
      omega
  · have hmiss := hlook rfl
    cases before with
    | nil =>
      -- the search stops at `p`
      obtain ⟨pl, hpl, rfl⟩ := step_look ht
      have hnow : s.place = pl := by
        unfold place
        rw [hpl]
      exact absurd (look_finds h.coherent h.mem h.running (hnow ▸ h.ahead.next)) hmiss
    | cons y before =>
      obtain ⟨hy, hyp, hahead⟩ := h.ahead.advance
      have hrecorded : t.tasks.Recorded := by
        have hs := h.recorded
        unfold TaskList.Recorded at hs ⊢
        rw [hcreated, hheap]
        exact hs
      refine ⟨hmiss, before, y :: passed, ⟨hnext, hrecorded, hcreated ▸ h.mem, hrunning, ?_⟩,
        List.subset_cons_self y passed, ?_, fun _ q hq => ?_⟩
      · rw [hlinks, hplace, hy]
        exact hahead
      · rw [hcreated, List.length_cons]
        show 1 + _ + _ ≤ _
        omega
      · rw [hnode q hq, hplace, hy]
        exact ⟨hyp, List.mem_cons_self⟩

theorem Waiting.run (h : s.Waiting start p before passed)
    (hserved : Along (TaskSystem.step disk floating) Served s events)
    (hr : run (TaskSystem.step disk floating) s events = some t)
    (hwait : p ∉ s.holder ++ turns disk floating s events) :
    t.tasks.Sound start ∧ t.tasks.Recorded ∧ (turns disk floating s events).Nodup ∧
      (∀ q ∈ turns disk floating s events, processNode q ∉ passed) ∧
      events.countP Event.isLook + s.tasks.created.length ≤
        before.length + t.tasks.created.length := by
  induction events generalizing s before passed with
  | nil =>
    obtain rfl := Option.some.inj hr
    refine ⟨h.coherent.sound, h.recorded, List.nodup_nil, fun q hq => (nomatch hq), ?_⟩
    rw [List.countP_nil, Nat.zero_add]
    exact Nat.le_add_left ..
  | cons e events ih =>
    obtain ⟨u, hu, hut⟩ := run_cons.mp hr
    rw [turns_cons hu, List.mem_append, List.mem_append, not_or, not_or] at hwait
    obtain ⟨hnow, hfirst, hrest⟩ := hwait
    have hlook : e.isLook = true → p ∉ u.holder := by
      intro hl
      rwa [if_pos hl] at hfirst
    obtain ⟨hout, before', passed', hnext, hsub, hcount, hpassed⟩ :=
      h.step hpage h0 h64 hserved.1 hu hnow hlook
    obtain ⟨hsound, hrecorded, hnodup, hnone, hlooks⟩ := ih hnext (hserved.2 u hu) hut
      (fun hmem => (List.mem_append.mp hmem).elim hout hrest)
    rw [turns_cons hu]
    refine ⟨hsound, hrecorded, ?_, ?_, ?_⟩
    · split_ifs with hl
      · refine List.nodup_append.mpr ⟨?_, hnodup, ?_⟩
        · unfold holder
          split <;> simp
        · rintro q hq q' hq' rfl
          exact hnone q hq' (hpassed hl q hq).2
      · exact hnodup
    · intro q hq
      rcases List.mem_append.mp hq with hq | hq
      · split_ifs at hq with hl
        · exact (hpassed hl q hq).1
        · cases hq
      · exact fun hmem => hnone q hq (hsub hmem)
    · rw [List.countP_cons]
      have hbit : (if e.isLook = true then 1 else 0) = e.isLook.toNat := by
        cases e.isLook <;> rfl
      rw [hbit]
      omega

theorem Coherent.recorded_step (h : s.Coherent start) (hrecorded : s.tasks.Recorded)
    (hserved : s.Served e) (ht : s.step disk floating e = some t) : t.tasks.Recorded := by
  obtain ⟨-, htasks, -⟩ | ⟨rfl, -, -, -, c, -, hcreated, hcopy⟩ | ⟨-, -, hcreated, hheap, -⟩ :=
    h.step_place hpage h0 h64 hserved ht
  · exact htasks ▸ hrecorded
  · exact hrecorded.copyProcess hserved hcopy hcreated
  · unfold TaskList.Recorded at hrecorded ⊢
    rw [hcreated, hheap]
    exact hrecorded

/-- In every state of a run, where a process is `PROCESS_RUNNING` and does not get the processor:
from then on nobody has it twice, and the searches look at no more nodes than there are processes,
for which the kernel heap has room. -/
theorem bounded_wait {processList : Nat} {tasks : TaskList} {earlier : List Event}
    (hapart : processList + 16 ≤ start ∨ start + kHeapHeapSize ≤ processList)
    (links : RingLinks Nat) (body : Nat → AtaRequest) (state : Nat → ProcessState)
    (hinit : TaskList.processInit links processList (HeapSystem.boot start) = some tasks)
    (hearlier : Along (step disk floating) Served (boot tasks body state) earlier)
    (hs : run (step disk floating) (boot tasks body state) earlier = some s)
    (hserved : Along (step disk floating) Served s events)
    (hr : run (step disk floating) s events = some t)
    (hp : p ∈ s.tasks.created) (hrunning : s.ata.state p = .running)
    (hwait : p ∉ s.holder ++ turns disk floating s events) :
    (s.holder ++ turns disk floating s events).Nodup ∧
      events.countP Event.isLook ≤ t.tasks.created.length ∧
      TaskList.recordSizes.length * t.tasks.created.length ≤ kHeapBlockNum := by
  obtain ⟨v, hv, hsound, hcreated, -⟩ := TaskList.processInit_sound hpage h0 h64 links hapart
  obtain rfl := Option.some.inj (hinit.symm.trans hv)
  have hfirst : tasks.Recorded := by
    have hheap := TaskList.processInit_heap links processList (HeapSystem.boot start)
    rw [hinit] at hheap
    have hlen : _ ≤ tasks.heap.live.length := HeapSystem.provides_length
      (HeapSystem.boot_provides hpage h0 h64) hheap.symm
    unfold TaskList.Recorded
    rw [hcreated]
    exact (Nat.le_add_left ..).trans hlen
  obtain ⟨hcoherent, hrecorded⟩ := Along.invariant
    (I := fun s => s.Coherent start ∧ s.tasks.Recorded)
    (fun s e t h hok ht => ⟨h.1.step hpage h0 h64 hok ht,
      h.1.recorded_step hpage h0 h64 h.2 hok ht⟩)
    ⟨boot_coherent hsound hcreated body state, hfirst⟩ hearlier hs
  obtain ⟨l, hl, hperm⟩ := hcoherent.ring
  have hlen : l.length = s.tasks.created.length := by
    have hlen := hperm.length_eq
    simpa using hlen
  have hnode : processNode p ∈ s.place :: l :=
    hperm.mem_iff.mpr (List.mem_cons_of_mem _ (List.mem_map_of_mem hp))
  obtain ⟨before, passed, hahead, hbefore, hpassed⟩ : ∃ before passed,
      s.tasks.links.Ahead s.place (processNode p) before passed ∧ before.length ≤ l.length ∧
        ∀ q ∈ s.holder, processNode q ∈ passed := by
    by_cases hcontrol : ∀ pl, s.control ≠ .searching pl
    · obtain ⟨hholder, hplace⟩ := holder_eq hcontrol
      have hne : processNode p ≠ s.place := by
        rw [hplace]
        intro heq
        apply hwait
        rw [hholder, TaskList.processNode_injective heq]
        exact List.mem_cons_self
      obtain ⟨before, hahead, hbefore⟩ := hl.ahead_self ((List.mem_cons.mp hnode).resolve_left hne)
      refine ⟨before, _, hahead, hbefore, fun q hq => ?_⟩
      rw [hholder] at hq
      rw [List.mem_singleton.mp hq, hplace]
      exact List.mem_cons_self
    · obtain ⟨before, hahead, hbefore⟩ := hl.ahead hnode
      exact ⟨before, [], hahead, hbefore, fun q hq => absurd (mem_holder.mp hq).2 hcontrol⟩
  have hw : s.Waiting start p before passed := ⟨hcoherent, hrecorded, hp, hrunning, hahead⟩
  obtain ⟨ht, htr, hnodup, hnone, hlooks⟩ := hw.run hpage h0 h64 hserved hr hwait
  refine ⟨List.nodup_append.mpr ⟨?_, hnodup, ?_⟩, by omega, htr.created_le ht⟩
  · unfold holder
    split <;> simp
  · rintro q hq q' hq' rfl
    exact hnone q hq' (hpassed q hq)

end Runs
end Fairness

/-- Each child forks before the next timer interrupt. The first process does not get the processor
until the kernel heap is full. -/
theorem bounded_wait_children : ∃ tasks s t,
    TaskList.processInit ⟨fun _ => 0, fun _ => 0⟩ 0x200000 (HeapSystem.boot 0x100000) = some tasks ∧
    run (step (fun _ => 0) fun _ => 0) (boot tasks (fun _ => ⟨false, 0, 0, false, 0, 0⟩)
      fun _ => .zombie) [.fork, .timer, .look] = some s ∧
    run (step (fun _ => 0) fun _ => 0) s
      [.fork, .timer, .look, .fork, .timer, .look, .fork, .timer, .look] = some t ∧
    s.ata.state 0x100000 = .running ∧ 0x100000 ∉ s.holder ∧
    turns (fun _ => 0) (fun _ => 0) s
      [.fork, .timer, .look, .fork, .timer, .look, .fork, .timer, .look] =
        [0x100600, 0x100900, 0x100c00] ∧
    (s.holder ++ turns (fun _ => 0) (fun _ => 0) s
      [.fork, .timer, .look, .fork, .timer, .look, .fork, .timer, .look]).Nodup ∧
    t.tasks.heap.provides TaskList.recordSizes = false := by
  obtain ⟨tasks, hinit, -⟩ := TaskList.processInit_sound (by decide : 2 ^ 12 ∣ 0x100000) (by decide)
    (by decide) ⟨fun _ => 0, fun _ => 0⟩ (Or.inr (by decide : 0x100000 + kHeapHeapSize ≤ 0x200000))
  have hruns : ∀ tasks ∈ TaskList.processInit ⟨fun _ => 0, fun _ => 0⟩ 0x200000
        (HeapSystem.boot 0x100000),
      Along (step (fun _ => 0) fun _ => 0) Served (boot tasks
        (fun _ => ⟨false, 0, 0, false, 0, 0⟩) fun _ => .zombie) [.fork, .timer, .look] ∧
      (run (step (fun _ => 0) fun _ => 0) (boot tasks (fun _ => ⟨false, 0, 0, false, 0, 0⟩)
        fun _ => .zombie) [.fork, .timer, .look]).isSome := by decide +kernel
  obtain ⟨hearlier, hsome⟩ := hruns tasks hinit
  obtain ⟨s, hs⟩ := Option.isSome_iff_exists.mp hsome
  have hrest : ∀ s ∈ (TaskList.processInit ⟨fun _ => 0, fun _ => 0⟩ 0x200000
        (HeapSystem.boot 0x100000)).bind fun tasks =>
          run (step (fun _ => 0) fun _ => 0) (boot tasks (fun _ => ⟨false, 0, 0, false, 0, 0⟩)
            fun _ => .zombie) [.fork, .timer, .look],
      Along (step (fun _ => 0) fun _ => 0) Served s
        [.fork, .timer, .look, .fork, .timer, .look, .fork, .timer, .look] ∧
      (run (step (fun _ => 0) fun _ => 0) s
        [.fork, .timer, .look, .fork, .timer, .look, .fork, .timer, .look]).map
          (fun t => t.tasks.heap.provides TaskList.recordSizes) = some false ∧
      0x100000 ∈ s.tasks.created ∧ s.ata.state 0x100000 = .running ∧ 0x100000 ∉ s.holder ∧
      turns (fun _ => 0) (fun _ => 0) s
        [.fork, .timer, .look, .fork, .timer, .look, .fork, .timer, .look] =
          [0x100600, 0x100900, 0x100c00] := by decide +kernel
  obtain ⟨hserved, hend, hmem, hrunning, hholder, hturns⟩ :=
    hrest s (Option.bind_eq_some_iff.mpr ⟨tasks, hinit, hs⟩)
  obtain ⟨t, ht, hfull⟩ := Option.map_eq_some_iff.mp hend
  have hwait : 0x100000 ∉ s.holder ++ turns (fun _ => 0) (fun _ => 0) s
      [.fork, .timer, .look, .fork, .timer, .look, .fork, .timer, .look] := by
    rw [hturns, List.mem_append, not_or]
    exact ⟨hholder, by decide⟩
  obtain ⟨hnodup, -⟩ := bounded_wait (by decide : 2 ^ 12 ∣ 0x100000) (by decide) (by decide)
    (Or.inr (by decide : 0x100000 + kHeapHeapSize ≤ 0x200000)) _ _ _ hinit hearlier hs hserved ht
    hmem hrunning hwait
  exact ⟨tasks, s, t, hinit, hs, ht, hrunning, hholder, hturns, hnodup, hfull⟩

end TaskSystem
end Amaterasu
