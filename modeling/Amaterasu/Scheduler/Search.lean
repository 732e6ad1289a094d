import Amaterasu.Scheduler.System

/-! When `FindNextTask` ends. It does as long as a process of the ring is `PROCESS_RUNNING`; the one
that calls `Schedule` is itself, unless it has just gone to sleep or exited. -/

namespace Amaterasu
open Function Runs
namespace TaskSystem

/-- A search under way ends, with interrupts off until then, and no step before its end changes the
state of a process. -/
def SearchEnds (disk : Nat → BitVec 8) (floating : Nat → BitVec 16) (s : TaskSystem) : Prop :=
  ∀ pl, s.control = .searching pl →
    (∃ n t, s.tasks.findNextTask s.ata.state n pl = some t.tasks.currentProcess ∧
      run (step disk floating) s (List.replicate n .look) = some t ∧
      ∀ pl', t.control ≠ .searching pl') ∧
    s.interruptFlag = false ∧
    ∀ e t, s.step disk floating e = some t → t.ata.state = s.ata.state

/-- Another process is `PROCESS_RUNNING`. -/
def OtherRuns (s : TaskSystem) : Prop :=
  ∃ p ∈ s.tasks.created, p ≠ s.tasks.currentProcess ∧ s.ata.state p = .running

/-- A process that goes to sleep or exits leaves another one that is `PROCESS_RUNNING`. -/
def LeavesRunning (s : TaskSystem) : Event → Prop
  | .read _ _ _ => s.ata.queue.size = ataRequestQueueCapacity ∨ s.OtherRuns
  | .exit => s.OtherRuns
  | _ => True

instance (s : TaskSystem) : Decidable s.OtherRuns :=
  inferInstanceAs (Decidable (∃ p ∈ s.tasks.created, _))

instance : DecidableRel LeavesRunning
  | s, .read _ _ _ => inferInstanceAs
      (Decidable (s.ata.queue.size = ataRequestQueueCapacity ∨ s.OtherRuns))
  | s, .exit => inferInstanceAs (Decidable s.OtherRuns)
  | _, .timer => inferInstanceAs (Decidable True)
  | _, .poll _ _ _ _ => inferInstanceAs (Decidable True)
  | _, .fork => inferInstanceAs (Decidable True)
  | _, .settle _ => inferInstanceAs (Decidable True)
  | _, .handler => inferInstanceAs (Decidable True)
  | _, .look => inferInstanceAs (Decidable True)
  | _, .resume => inferInstanceAs (Decidable True)

section Search
variable {disk : Nat → BitVec 8} {floating : Nat → BitVec 16} {s t : TaskSystem} {start pl p n : Nat}
  {e : Event}

theorem looks_end (hpl : s.control = .searching pl)
    (hn : s.tasks.findNextTask s.ata.state n pl = some p) :
    ∃ k t, s.tasks.findNextTask s.ata.state k pl = some t.tasks.currentProcess ∧
      run (step disk floating) s (List.replicate k .look) = some t ∧
      ∀ pl', t.control ≠ .searching pl' := by
  induction n generalizing s pl with
  | zero => cases hn
  | succ n ih =>
    have hlook : s.step disk floating .look = some (s.look pl) := by
      unfold step
      rw [hpl]
    unfold TaskList.findNextTask at hn
    dsimp only at hn
    by_cases hgood : s.tasks.isNext s.ata.state (s.tasks.links.next pl) = true
    · have heq : s.look pl = if (s.ata.asleep (listEntry (s.tasks.links.next pl))).isSome then
          { s with
            tasks := { s.tasks with currentProcess := listEntry (s.tasks.links.next pl) }
            control := .woken }
        else iretq { s with
          tasks := { s.tasks with currentProcess := listEntry (s.tasks.links.next pl) } } := by
        unfold look
        rw [if_pos hgood]
      refine ⟨1, s.look pl, ?_, run_cons.mpr ⟨_, hlook, rfl⟩, ?_⟩
      · unfold TaskList.findNextTask
        dsimp only
        rw [if_pos hgood, heq]
        split_ifs <;> rfl
      · intro pl'
        rw [heq]
        split_ifs <;> exact Control.noConfusion
    · rw [if_neg hgood] at hn
      have heq : s.look pl = { s with control := .searching (s.tasks.links.next pl) } := by
        unfold look
        rw [if_neg hgood]
      obtain ⟨k, t, hk, hrun, hend⟩ :=
        ih (s := { s with control := .searching (s.tasks.links.next pl) }) rfl hn
      refine ⟨k + 1, t, ?_, ?_, hend⟩
      · unfold TaskList.findNextTask
        dsimp only
        rw [if_neg hgood]
        exact hk
      · exact run_cons.mpr ⟨_, hlook, heq ▸ hrun⟩

theorem Coherent.search_ends_iff (h : s.Coherent start) (hpl : s.control = .searching pl) :
    (∃ n p, s.tasks.findNextTask s.ata.state n pl = some p) ↔
      ∃ p ∈ s.tasks.created, s.ata.state p = .running := by
  obtain ⟨ps, hcircle, hperm⟩ := h.sound.circle
  have hnodes : (s.tasks.processList :: ps.map processNode).Perm
      (s.tasks.processList :: s.tasks.created.map processNode) := (hperm.map _).cons _
  have hring : (∃ n, (s.tasks.links.search (s.tasks.isNext s.ata.state) n pl).isSome) ↔ _ :=
    RingLinks.Ring.search_ends_iff hcircle (hnodes.mem_iff.mpr (h.node pl hpl))
  have hfind : (∃ n p, s.tasks.findNextTask s.ata.state n pl = some p) ↔
      ∃ n, (s.tasks.links.search (s.tasks.isNext s.ata.state) n pl).isSome := by
    apply exists_congr
    intro n
    rw [TaskList.findNextTask_eq, ← Option.isSome_iff_exists, Option.isSome_map]
  rw [hfind, hring]
  constructor
  · rintro ⟨y, hy, hgood⟩
    rcases List.mem_cons.mp hy with rfl | hy
    · rw [TaskList.isNext_processList] at hgood
      cases hgood
    · obtain ⟨q, hq, rfl⟩ := List.mem_map.mp hy
      rw [hcircle.isNext _ hq] at hgood
      exact ⟨q, hperm.mem_iff.mp hq, of_decide_eq_true hgood⟩
  · rintro ⟨q, hq, hrunning⟩
    have hmem := hperm.mem_iff.mpr hq
    refine ⟨processNode q, List.mem_cons_of_mem _ (List.mem_map_of_mem hmem), ?_⟩
    rw [hcircle.isNext _ hmem]
    exact decide_eq_true hrunning

/-- While it searches, only the loop itself and the device make steps. -/
theorem Coherent.searching_keeps (h : s.Coherent start) (hpl : s.control = .searching pl)
    (ht : s.step disk floating e = some t) : t.ata.state = s.ata.state := by
  have huser : s.control ≠ .user := by
    rw [hpl]
    exact Control.noConfusion
  cases e with
  | timer => exact absurd (step_timer ht).1 huser
  | read lba sizeOfBytes buffer => exact absurd (step_read ht).1 huser
  | poll lba sizeOfBytes buffer ok => exact absurd (step_poll ht).1 huser
  | fork => exact absurd (step_fork ht).1 huser
  | exit => exact absurd (step_exit ht).1 huser
  | settle ok =>
    obtain ⟨d, rfl⟩ := step_settle ht
    rfl
  | handler => exact absurd (h.flag.mp (step_handler ht).1) huser
  | look =>
    obtain ⟨pl', hpl', rfl⟩ := step_look ht
    obtain ⟨p, -, -, heq⟩ | ⟨pl'', -, heq⟩ := h.look hpl'
    · rw [heq]
    · rw [heq]
  | resume =>
    have hwoken := (step_resume ht).1
    rw [hpl] at hwoken
    cases hwoken

theorem Coherent.searchEnds_iff (h : s.Coherent start) (disk : Nat → BitVec 8)
    (floating : Nat → BitVec 16) : s.SearchEnds disk floating ↔
    ∀ pl, s.control = .searching pl → ∃ p ∈ s.tasks.created, s.ata.state p = .running := by
  constructor
  · intro hends pl hpl
    obtain ⟨⟨n, t, hfind, -⟩, -⟩ := hends pl hpl
    exact (h.search_ends_iff hpl).mp ⟨n, _, hfind⟩
  · intro hruns pl hpl
    obtain ⟨n, p, hfind⟩ := (h.search_ends_iff hpl).mpr (hruns pl hpl)
    refine ⟨looks_end hpl hfind, ?_, fun e t ht => h.searching_keeps hpl ht⟩
    by_contra hon
    have huser := h.flag.mp (eq_true_of_ne_false hon)
    rw [hpl] at huser
    cases huser

/-! ## Runs -/

/-- The process that runs is `PROCESS_RUNNING`, and during a search some process is. -/
structure Lively (start : Nat) (s : TaskSystem) : Prop where
  coherent : s.Coherent start
  running : (∀ pl, s.control ≠ .searching pl) → s.ata.state s.tasks.currentProcess = .running
  found : ∀ pl, s.control = .searching pl → ∃ p ∈ s.tasks.created, s.ata.state p = .running

/-- `sleep` and `sysExit` leave a search that another process can end. -/
theorem otherRuns_iff (state : ProcessState) (hstate : state ≠ .running) : s.OtherRuns ↔
    ∃ p ∈ s.tasks.created, update s.ata.state s.tasks.currentProcess state p = .running := by
  constructor
  · rintro ⟨p, hp, hne, hrunning⟩
    refine ⟨p, hp, ?_⟩
    rw [update_of_ne hne]
    exact hrunning
  · rintro ⟨p, hp, hrunning⟩
    have hne : p ≠ s.tasks.currentProcess := by
      rintro rfl
      rw [update_self] at hrunning
      exact hstate hrunning
    rw [update_of_ne hne] at hrunning
    exact ⟨p, hp, hne, hrunning⟩

/-- What a step leaves of the states: a search that ends exactly when the step is one of those
described. -/
theorem Lively.found_iff (h : s.Lively start) (ht : s.step disk floating e = some t) :
    (∀ pl, t.control = .searching pl → ∃ p ∈ t.tasks.created, t.ata.state p = .running) ↔
      s.LeavesRunning e := by
  have hcurrent := h.coherent.current
  have hback : ∀ u : TaskSystem, (∀ pl, u.iretq.control = .searching pl →
      ∃ p ∈ u.iretq.tasks.created, u.iretq.ata.state p = .running) ↔ True := by
    intro u
    exact iff_true_intro fun pl hpl => (nomatch hpl)
  cases e with
  | timer =>
    obtain ⟨hu, rfl⟩ := step_timer ht
    refine iff_true_intro fun pl _ => ⟨_, hcurrent, h.running fun pl' hpl' => ?_⟩
    rw [hu] at hpl'
    cases hpl'
  | read lba sizeOfBytes buffer =>
    obtain ⟨hu, -, ⟨hfull, rfl⟩ | ⟨hspace, rfl⟩⟩ := step_read ht
    · -- the queue is full, and the call returns
      have hleaves : s.LeavesRunning (.read lba sizeOfBytes buffer) := Or.inl hfull
      rw [iff_true_intro hleaves]
      exact hback _
    · show (∀ pl, _ → _) ↔ s.ata.queue.size = ataRequestQueueCapacity ∨ s.OtherRuns
      rw [or_iff_right hspace, otherRuns_iff .sleep (by decide)]
      exact ⟨fun hall => hall _ rfl, fun hsome pl _ => hsome⟩
  | poll lba sizeOfBytes buffer ok =>
    obtain ⟨-, ata, -, rfl⟩ := step_poll ht
    exact hback _
  | fork =>
    obtain ⟨-, tasks, c, -, rfl⟩ := step_fork ht
    exact hback _
  | exit =>
    obtain ⟨hu, rfl⟩ := step_exit ht
    show (∀ pl, _ → _) ↔ s.OtherRuns
    rw [otherRuns_iff .zombie (by decide)]
    exact ⟨fun hall => hall _ rfl, fun hsome pl _ => hsome⟩
  | settle ok =>
    obtain ⟨d, rfl⟩ := step_settle ht
    exact iff_true_intro h.found
  | handler =>
    obtain ⟨hon, rfl⟩ := step_handler ht
    refine iff_true_intro fun pl hpl => ?_
    change s.control = .searching pl at hpl
    rw [h.coherent.flag.mp hon] at hpl
    cases hpl
  | look =>
    obtain ⟨pl, hpl, rfl⟩ := step_look ht
    obtain ⟨p, hp, hrunning, heq⟩ | ⟨pl', -, heq⟩ := h.coherent.look hpl
    · rw [heq]
      exact iff_true_intro fun _ _ => ⟨p, hp, hrunning⟩
    · rw [heq]
      exact iff_true_intro fun _ _ => h.found pl hpl
  | resume =>
    obtain ⟨-, ata, -, rfl⟩ := step_resume ht
    exact hback _

/-- In every run whose forks get their records, every search that a call of `Schedule` begins ends,
with interrupts off and the states unchanged until then, exactly when each process that goes to
sleep or exits leaves another one that is `PROCESS_RUNNING`. -/
theorem run_searches_end_iff {processList : Nat} {tasks : TaskList} {events : List Event}
    (hpage : 2 ^ 12 ∣ start) (h0 : 0 < start) (h64 : start < 2 ^ 64)
    (hapart : processList + 16 ≤ start ∨ start + kHeapHeapSize ≤ processList)
    (links : RingLinks Nat) (body : Nat → AtaRequest) (state : Nat → ProcessState)
    (hinit : TaskList.processInit links processList (HeapSystem.boot start) = some tasks)
    (hserved : Along (step disk floating) Served (boot tasks body state) events)
    (hr : run (step disk floating) (boot tasks body state) events = some t) :
    Along (step disk floating) (fun s e => ∀ t ∈ s.step disk floating e, t.SearchEnds disk floating)
        (boot tasks body state) events ↔
      Along (step disk floating) LeavesRunning (boot tasks body state) events := by
  obtain ⟨s, hs, hsound, hcreated, -⟩ := TaskList.processInit_sound hpage h0 h64 links hapart
  obtain rfl := Option.some.inj (hinit.symm.trans hs)
  have hlively : (boot tasks body state).Lively start := by
    refine ⟨boot_coherent hsound hcreated body state, fun _ => update_self .., fun pl hpl => ?_⟩
    cases hpl
  symm
  apply Along.congr (I := Lively start) ?_ hlively hserved hr
  intro s e t h hserved ht
  have hiff := h.found_iff ht
  have hnext := h.coherent.step hpage h0 h64 hserved ht
  have hrunning := h.coherent.running_step hpage h0 h64 h.running hserved ht
  constructor
  · rw [← hiff, ← hnext.searchEnds_iff disk floating]
    constructor
    · intro hends u hu
      exact Option.some.inj (ht.symm.trans hu) ▸ hends
    · intro hall
      exact hall t ht
  · intro hleaves
    exact ⟨hnext, hrunning, hiff.mpr hleaves⟩

end Search

/-- A process forks and sleeps in `ATARead`; its child runs, and exits once the other is awake. -/
theorem run_searches_end_two : ∃ tasks t,
    TaskList.processInit ⟨fun _ => 0, fun _ => 0⟩ 0x200000 (HeapSystem.boot 0x100000) = some tasks ∧
    run (step (fun i => BitVec.ofNat 8 i) fun _ => 0)
      (boot tasks (fun _ => ⟨false, 0, 0, false, 0, 0⟩) fun _ => .zombie)
      [.fork, .read 5 3 0x300000, .look, .settle true, .handler, .exit, .look, .look, .resume] =
        some t ∧
    t.ata.returned = [0] ∧
    Along (step (fun i => BitVec.ofNat 8 i) fun _ => 0)
      (fun s e => ∀ t ∈ s.step (fun i => BitVec.ofNat 8 i) (fun _ => 0) e,
        t.SearchEnds (fun i => BitVec.ofNat 8 i) fun _ => 0)
      (boot tasks (fun _ => ⟨false, 0, 0, false, 0, 0⟩) fun _ => .zombie)
      [.fork, .read 5 3 0x300000, .look, .settle true, .handler, .exit, .look, .look, .resume] := by
  obtain ⟨tasks, hinit, -⟩ := TaskList.processInit_sound (by decide : 2 ^ 12 ∣ 0x100000) (by decide)
    (by decide) ⟨fun _ => 0, fun _ => 0⟩ (Or.inr (by decide : 0x100000 + kHeapHeapSize ≤ 0x200000))
  have hruns : ∀ tasks ∈ TaskList.processInit ⟨fun _ => 0, fun _ => 0⟩ 0x200000
        (HeapSystem.boot 0x100000),
      (run (step (fun i => BitVec.ofNat 8 i) fun _ => 0)
        (boot tasks (fun _ => ⟨false, 0, 0, false, 0, 0⟩) fun _ => .zombie)
        [.fork, .read 5 3 0x300000, .look, .settle true, .handler, .exit, .look, .look,
          .resume]).map (fun t => t.ata.returned) = some [0] ∧
      Along (step (fun i => BitVec.ofNat 8 i) fun _ => 0) Served
        (boot tasks (fun _ => ⟨false, 0, 0, false, 0, 0⟩) fun _ => .zombie)
        [.fork, .read 5 3 0x300000, .look, .settle true, .handler, .exit, .look, .look,
          .resume] ∧
      Along (step (fun i => BitVec.ofNat 8 i) fun _ => 0) LeavesRunning
        (boot tasks (fun _ => ⟨false, 0, 0, false, 0, 0⟩) fun _ => .zombie)
        [.fork, .read 5 3 0x300000, .look, .settle true, .handler, .exit, .look, .look,
          .resume] := by decide +kernel
  obtain ⟨hend, hserved, hleaves⟩ := hruns tasks hinit
  obtain ⟨t, ht, hreturned⟩ := Option.map_eq_some_iff.mp hend
  exact ⟨tasks, t, hinit, ht, hreturned, (run_searches_end_iff (by decide : 2 ^ 12 ∣ 0x100000)
    (by decide) (by decide)
    (Or.inr (by decide : 0x100000 + kHeapHeapSize ≤ 0x200000)) _ _ _ hinit hserved ht).mpr hleaves⟩

/-- The only process there is goes to sleep: `FindNextTask` never returns, and interrupts are
off. -/
theorem lone_sleeper_searches_forever : ∃ tasks t,
    TaskList.processInit ⟨fun _ => 0, fun _ => 0⟩ 0x200000 (HeapSystem.boot 0x100000) = some tasks ∧
    run (step (fun i => BitVec.ofNat 8 i) fun _ => 0)
      (boot tasks (fun _ => ⟨false, 0, 0, false, 0, 0⟩) fun _ => .zombie) [.read 5 3 0x300000] =
        some t ∧
    t.control = .searching 0x100010 ∧ t.interruptFlag = false ∧
    (∀ n, t.tasks.findNextTask t.ata.state n 0x100010 = none) ∧
    ¬t.SearchEnds (fun i => BitVec.ofNat 8 i) fun _ => 0 := by
  obtain ⟨tasks, hinit, hsound, hcreated, -⟩ := TaskList.processInit_sound
    (by decide : 2 ^ 12 ∣ 0x100000) (by decide) (by decide) ⟨fun _ => 0, fun _ => 0⟩
    (Or.inr (by decide : 0x100000 + kHeapHeapSize ≤ 0x200000))
  have hruns : ∀ tasks ∈ TaskList.processInit ⟨fun _ => 0, fun _ => 0⟩ 0x200000
        (HeapSystem.boot 0x100000),
      (run (step (fun i => BitVec.ofNat 8 i) fun _ => 0)
        (boot tasks (fun _ => ⟨false, 0, 0, false, 0, 0⟩) fun _ => .zombie)
        [.read 5 3 0x300000]).map (fun t => (t.control, t.interruptFlag, t.tasks.created,
          t.ata.state 0x100000)) =
        some (.searching 0x100010, false, [0x100000], .sleep) := by decide +kernel
  obtain ⟨t, ht, hview⟩ := Option.map_eq_some_iff.mp (hruns tasks hinit)
  obtain ⟨hcontrol, hview⟩ := Prod.mk.inj hview
  obtain ⟨hoff, hview⟩ := Prod.mk.inj hview
  obtain ⟨hall, hsleep⟩ := Prod.mk.inj hview
  obtain ⟨u, hu, hut⟩ := run_cons.mp ht
  obtain rfl := Option.some.inj hut
  have hserved : (boot tasks (fun _ => ⟨false, 0, 0, false, 0, 0⟩) fun _ => .zombie).Served
    (.read 5 3 0x300000) := trivial
  have hcoherent : u.Coherent 0x100000 :=
    (boot_coherent hsound hcreated _ _).step (by decide) (by decide) (by decide) hserved hu
  have hnone : ¬∃ p ∈ u.tasks.created, u.ata.state p = .running := by
    rintro ⟨p, hp, hrunning⟩
    rw [hall] at hp
    rw [List.mem_singleton.mp hp, hsleep] at hrunning
    cases hrunning
  refine ⟨tasks, u, hinit, ht, hcontrol, hoff, fun n => ?_, fun hends => ?_⟩
  · by_contra hsome
    obtain ⟨p, hp⟩ := Option.ne_none_iff_exists'.mp hsome
    exact hnone ((hcoherent.search_ends_iff hcontrol).mp ⟨n, p, hp⟩)
  · exact hnone ((hcoherent.searchEnds_iff _ _).mp hends _ hcontrol)

end TaskSystem
end Amaterasu
