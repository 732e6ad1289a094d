import Amaterasu.Ata.Trace
import Amaterasu.Scheduler.Ring

/-! The processes at run time: one of them runs, and it is interrupted by the timer, sleeps or polls
in `ATARead`, forks or exits. A `KernelThread` forks like `sysFork` here. -/

namespace Amaterasu
open Function Runs

/-- Where the current process is: in code of its own, in the loop of `FindNextTask` at the node
`pl`, or back in `ATARead` after its `sleep`. -/
inductive Control
  | user
  | searching (pl : Nat)
  | woken
deriving DecidableEq

/-- `exited` are the processes that have executed `sysExit`. -/
structure TaskSystem where
  tasks : TaskList
  ata : AtaTrace
  control : Control
  interruptFlag : Bool
  exited : List Nat

namespace TaskSystem

/-- The gates that `SetInterruptDescriptor` writes. -/
def interruptDescriptorType : Nat := 0xe

/-- After `ProcessInit` and `ATAInit`, when interrupts have been enabled. -/
def boot (tasks : TaskList) (body : Nat → AtaRequest) (state : Nat → ProcessState) : TaskSystem where
  tasks := tasks
  ata := { AtaTrace.ataInit body with state := update state tasks.currentProcess .running }
  control := .user
  interruptFlag := true
  exited := []

/-- The processor enters a handler: an interrupt gate clears the flag. -/
def enterGate (s : TaskSystem) : TaskSystem :=
  if interruptDescriptorType = 0xe then { s with interruptFlag := false } else s

/-- `iretq` to code that runs with interrupts on. -/
def iretq (s : TaskSystem) : TaskSystem := { s with control := .user, interruptFlag := true }

/-- `Schedule` calls `FindNextTask`. -/
def search (s : TaskSystem) : TaskSystem :=
  { s with control := .searching (processNode s.tasks.currentProcess) }

/-- One round of the loop of `FindNextTask`. The process it finds goes on where it called
`Schedule`, or for the first time. -/
def look (s : TaskSystem) (pl : Nat) : TaskSystem :=
  let pl := s.tasks.links.next pl
  if s.tasks.isNext s.ata.state pl then
    let next := listEntry pl
    let s := { s with tasks := { s.tasks with currentProcess := next } }
    if (s.ata.asleep next).isSome then { s with control := .woken } else s.iretq
  else { s with control := .searching pl }

inductive Event
  | timer
  | read (lba : Nat) (sizeOfBytes : Int) (buffer : BitVec 64)
  | poll (lba : Nat) (sizeOfBytes : Int) (buffer : BitVec 64) (ok : Bool)
  | fork
  | exit
  | settle (ok : Bool)
  | handler
  | look
  | resume

section Steps
variable (disk : Nat → BitVec 8) (floating : Nat → BitVec 16)

def step (s : TaskSystem) : Event → Option TaskSystem
  | .timer =>
    if s.control = .user ∧ s.interruptFlag = true then some s.enterGate.search else none
  | .read lba sizeOfBytes buffer =>
    if s.control = .user then
      let call : AtaCall := ⟨s.tasks.currentProcess, lba, sizeOfBytes, buffer⟩
      (s.ata.step disk floating (.read call)).map fun ata =>
        let s := { s.enterGate with ata := ata }
        -- the call is refused, or it sleeps
        if (ata.asleep call.process).isSome then s.search else s.iretq
    else none
  | .poll lba sizeOfBytes buffer ok =>
    if s.control = .user then
      let call : AtaCall := ⟨s.tasks.currentProcess, lba, sizeOfBytes, buffer⟩
      (s.ata.step disk floating (.poll call ok)).map fun ata =>
        { s.enterGate with ata := ata }.iretq
    else none
  | .fork =>
    if s.control = .user then
      (s.tasks.copyProcess s.tasks.currentProcess).map fun r =>
        let state := update s.ata.state r.2 (s.ata.state s.tasks.currentProcess)
        { s.enterGate with tasks := r.1, ata := { s.ata with state := state } }.iretq
    else none
  | .exit =>
    if s.control = .user then
      let process := s.tasks.currentProcess
      let ata := { s.ata with state := update s.ata.state process .zombie }
      some { s.enterGate with ata := ata, exited := process :: s.exited }.search
    else none
  | .settle ok => (s.ata.step disk floating (.settle ok)).map fun ata => { s with ata := ata }
  | .handler =>
    if s.interruptFlag then
      (s.ata.step disk floating .handler).map fun ata => { s with ata := ata }
    else none
  | .look =>
    match s.control with
    | .searching pl => some (s.look pl)
    | _ => none
  | .resume =>
    if s.control = .woken then
      (s.ata.step disk floating (.resume s.tasks.currentProcess)).map fun ata =>
        { s with ata := ata }.iretq
    else none

end Steps

/-- A fork gets its records. -/
def Served (s : TaskSystem) : Event → Prop
  | .fork => s.tasks.heap.provides TaskList.recordSizes = true
  | _ => True

instance : DecidableRel Served
  | s, .fork => inferInstanceAs (Decidable (s.tasks.heap.provides TaskList.recordSizes = true))
  | _, .timer => inferInstanceAs (Decidable True)
  | _, .read _ _ _ => inferInstanceAs (Decidable True)
  | _, .poll _ _ _ _ => inferInstanceAs (Decidable True)
  | _, .exit => inferInstanceAs (Decidable True)
  | _, .settle _ => inferInstanceAs (Decidable True)
  | _, .handler => inferInstanceAs (Decidable True)
  | _, .look => inferInstanceAs (Decidable True)
  | _, .resume => inferInstanceAs (Decidable True)

/-! ## What a step can do -/

section Step
variable {disk : Nat → BitVec 8} {floating : Nat → BitVec 16} {s t : TaskSystem}
  {start p lba : Nat} {sizeOfBytes : Int} {buffer : BitVec 64} {ok : Bool}

theorem enterGate_eq (s : TaskSystem) : s.enterGate = { s with interruptFlag := false } :=
  if_pos rfl

theorem step_timer (ht : s.step disk floating .timer = some t) :
    s.control = .user ∧ t = { s with interruptFlag := false }.search := by
  unfold step at ht
  dsimp only at ht
  split_ifs at ht with h
  rw [enterGate_eq] at ht
  exact ⟨h.1, (Option.some.inj ht).symm⟩

/-- A call of `ATARead` is refused, or it sleeps. -/
theorem step_read (ht : s.step disk floating (.read lba sizeOfBytes buffer) = some t) :
    let call : AtaCall := ⟨s.tasks.currentProcess, lba, sizeOfBytes, buffer⟩
    s.control = .user ∧ s.ata.asleep s.tasks.currentProcess = none ∧
      (s.ata.queue.size = ataRequestQueueCapacity ∧ t = iretq { s with ata := s.ata.refuse call } ∨
        s.ata.queue.size ≠ ataRequestQueueCapacity ∧ t = search { s with
          ata := { s.ata.submitted call with
            state := update s.ata.state s.tasks.currentProcess .sleep
            asleep := update s.ata.asleep s.tasks.currentProcess (some call) }
          interruptFlag := false }) := by
  unfold step at ht
  dsimp only at ht
  split_ifs at ht with h
  obtain ⟨ata, hata, ht⟩ := Option.map_eq_some_iff.mp ht
  rw [enterGate_eq] at ht
  obtain ⟨hnone, ⟨hfull, rfl⟩ | ⟨hspace, rfl⟩⟩ := AtaTrace.step_read hata
  · refine ⟨h, hnone, Or.inl ⟨hfull, ?_⟩⟩
    rw [← ht]
    change (if (s.ata.asleep s.tasks.currentProcess).isSome then _ else _) = _
    rw [if_neg (by rw [show s.ata.asleep s.tasks.currentProcess = none from hnone]; decide)]
    rfl
  · refine ⟨h, hnone, Or.inr ⟨hspace, ?_⟩⟩
    rw [← ht]
    change (if (update s.ata.asleep s.tasks.currentProcess _ s.tasks.currentProcess).isSome then _
      else _) = _
    rw [if_pos (by rw [update_self]; rfl)]

theorem step_poll (ht : s.step disk floating (.poll lba sizeOfBytes buffer ok) = some t) :
    s.control = .user ∧ ∃ ata, s.ata.step disk floating
        (.poll ⟨s.tasks.currentProcess, lba, sizeOfBytes, buffer⟩ ok) = some ata ∧
      t = { s with ata := ata }.iretq := by
  unfold step at ht
  dsimp only at ht
  split_ifs at ht with h
  obtain ⟨ata, hata, rfl⟩ := Option.map_eq_some_iff.mp ht
  refine ⟨h, ata, hata, ?_⟩
  rw [enterGate_eq]
  rfl

theorem step_fork (ht : s.step disk floating .fork = some t) :
    s.control = .user ∧ ∃ tasks c, s.tasks.copyProcess s.tasks.currentProcess = some (tasks, c) ∧
      t = iretq { s with
        tasks := tasks
        ata := { s.ata with
          state := update s.ata.state c (s.ata.state s.tasks.currentProcess) } } := by
  unfold step at ht
  dsimp only at ht
  split_ifs at ht with h
  obtain ⟨⟨tasks, c⟩, hcopy, rfl⟩ := Option.map_eq_some_iff.mp ht
  refine ⟨h, tasks, c, hcopy, ?_⟩
  rw [enterGate_eq]
  rfl

theorem step_exit (ht : s.step disk floating .exit = some t) :
    s.control = .user ∧ t = search { s with
      ata := { s.ata with state := update s.ata.state s.tasks.currentProcess .zombie }
      interruptFlag := false
      exited := s.tasks.currentProcess :: s.exited } := by
  unfold step at ht
  dsimp only at ht
  split_ifs at ht with h
  rw [enterGate_eq] at ht
  exact ⟨h, (Option.some.inj ht).symm⟩

theorem step_settle (ht : s.step disk floating (.settle ok) = some t) :
    ∃ d, t = { s with ata := { s.ata with device := d, interrupt := true } } := by
  obtain ⟨ata, hata, rfl⟩ := Option.map_eq_some_iff.mp ht
  obtain ⟨d, rfl⟩ := AtaTrace.step_settle hata
  exact ⟨d, rfl⟩

theorem step_handler (ht : s.step disk floating .handler = some t) : s.interruptFlag = true ∧
    t = { s with ata := { s.ata with toAtaSystem := s.ata.toAtaSystem.ataHandler } } := by
  unfold step at ht
  dsimp only at ht
  split_ifs at ht with h
  obtain ⟨ata, hata, rfl⟩ := Option.map_eq_some_iff.mp ht
  obtain rfl := AtaTrace.step_handler hata
  exact ⟨h, rfl⟩

theorem step_look (ht : s.step disk floating .look = some t) :
    ∃ pl, s.control = .searching pl ∧ t = s.look pl := by
  unfold step at ht
  dsimp only at ht
  split at ht
  · rename_i pl hpl
    exact ⟨pl, hpl, (Option.some.inj ht).symm⟩
  · cases ht

theorem step_resume (ht : s.step disk floating .resume = some t) :
    s.control = .woken ∧ ∃ ata, s.ata.step disk floating (.resume s.tasks.currentProcess) =
      some ata ∧ t = { s with ata := ata }.iretq := by
  unfold step at ht
  dsimp only at ht
  split_ifs at ht with h
  obtain ⟨ata, hata, rfl⟩ := Option.map_eq_some_iff.mp ht
  exact ⟨h, ata, hata, rfl⟩

end Step

/-! ## What every run keeps -/

/-- The current process is one of the ring, a search is at a node of the ring, and interrupts are on
in the processes' own code only. -/
structure Coherent (start : Nat) (s : TaskSystem) : Prop where
  sound : s.tasks.Sound start
  current : s.tasks.currentProcess ∈ s.tasks.created
  node : ∀ pl, s.control = .searching pl →
    pl ∈ s.tasks.processList :: s.tasks.created.map processNode
  flag : s.interruptFlag = true ↔ s.control = .user

section Coherent
variable {disk : Nat → BitVec 8} {floating : Nat → BitVec 16} {s t : TaskSystem} {start pl : Nat}
  {e : Event}

theorem listEntry_processNode (p : Nat) : listEntry (processNode p) = p := rfl

/-- A round of the search finds a process of the ring, or goes on at a node of it. -/
theorem Coherent.look (h : s.Coherent start) (hpl : s.control = .searching pl) :
    (∃ p ∈ s.tasks.created, s.ata.state p = .running ∧ s.look pl = { s with
      tasks := { s.tasks with currentProcess := p }
      control := if (s.ata.asleep p).isSome then .woken else .user
      interruptFlag := if (s.ata.asleep p).isSome then s.interruptFlag else true }) ∨
    ∃ pl' ∈ s.tasks.processList :: s.tasks.created.map processNode,
      s.look pl = { s with control := .searching pl' } := by
  obtain ⟨ps, hcircle, hperm⟩ := h.sound.circle
  have hnodes : (s.tasks.processList :: ps.map processNode).Perm
      (s.tasks.processList :: s.tasks.created.map processNode) := (hperm.map _).cons _
  have hnext := (RingLinks.Ring.prev_next hcircle (hnodes.mem_iff.mpr (h.node pl hpl))).2
  unfold TaskSystem.look
  by_cases hgood : s.tasks.isNext s.ata.state (s.tasks.links.next pl) = true
  · left
    rw [if_pos hgood]
    obtain ⟨hne, hrunning⟩ := Bool.and_eq_true_iff.mp hgood
    obtain hself | hmem := List.mem_cons.mp hnext
    · exact absurd hself (of_decide_eq_true hne)
    · obtain ⟨p, hp, heq⟩ := List.mem_map.mp hmem
      refine ⟨p, hperm.mem_iff.mp hp, ?_, ?_⟩
      · rw [← heq] at hrunning
        exact of_decide_eq_true hrunning
      · rw [← heq, listEntry_processNode]
        by_cases hasleep : (s.ata.asleep p).isSome
        · simp only [hasleep, if_true]
        · simp only [hasleep]
          rfl
  · right
    rw [if_neg hgood]
    exact ⟨_, hnodes.mem_iff.mp hnext, rfl⟩

theorem node_current (h : s.tasks.currentProcess ∈ s.tasks.created) :
    processNode s.tasks.currentProcess ∈ s.tasks.processList :: s.tasks.created.map processNode :=
  List.mem_cons_of_mem _ (List.mem_map_of_mem h)

theorem Coherent.step (hpage : 2 ^ 12 ∣ start) (h0 : 0 < start) (h64 : start < 2 ^ 64)
    (h : s.Coherent start) (hserved : s.Served e) (ht : s.step disk floating e = some t) :
    t.Coherent start := by
  obtain ⟨hsound, hcurrent, hnode, hflag⟩ := h
  have hsearch : ∀ u : TaskSystem, u.tasks = s.tasks → u.interruptFlag = false →
      u.search.Coherent start := by
    intro u hu hoff
    refine ⟨hu ▸ hsound, hu ▸ hcurrent, ?_, ?_⟩
    · intro pl hpl
      obtain rfl := Control.searching.inj hpl
      exact node_current (hu ▸ hcurrent)
    · show u.interruptFlag = true ↔ Control.searching _ = .user
      rw [hoff]
      exact ⟨fun h => (nomatch h), fun h => (nomatch h)⟩
  have hiretq : ∀ u : TaskSystem, u.tasks.Sound start →
      u.tasks.currentProcess ∈ u.tasks.created → u.iretq.Coherent start := by
    intro u hu hc
    exact ⟨hu, hc, fun pl hpl => (nomatch hpl), ⟨fun _ => rfl, fun _ => rfl⟩⟩
  cases e with
  | timer =>
    obtain ⟨-, rfl⟩ := step_timer ht
    exact hsearch _ rfl rfl
  | read lba sizeOfBytes buffer =>
    obtain ⟨-, -, ⟨-, rfl⟩ | ⟨-, rfl⟩⟩ := step_read ht
    · exact hiretq _ hsound hcurrent
    · exact hsearch _ rfl rfl
  | poll lba sizeOfBytes buffer ok =>
    obtain ⟨-, ata, -, rfl⟩ := step_poll ht
    exact hiretq _ hsound hcurrent
  | fork =>
    obtain ⟨-, tasks, c, hcopy, rfl⟩ := step_fork ht
    obtain ⟨u, d, hu, husound, hcreated, -, hsame, -⟩ :=
      hsound.copyProcess hpage h0 h64 hcurrent hserved
    obtain ⟨rfl, rfl⟩ := Prod.mk.inj (Option.some.inj (hcopy.symm.trans hu))
    apply hiretq _ husound
    show tasks.currentProcess ∈ tasks.created
    rw [hsame, hcreated]
    exact List.mem_cons_of_mem _ hcurrent
  | exit =>
    obtain ⟨-, rfl⟩ := step_exit ht
    exact hsearch _ rfl rfl
  | settle ok =>
    obtain ⟨d, rfl⟩ := step_settle ht
    exact ⟨hsound, hcurrent, hnode, hflag⟩
  | handler =>
    obtain ⟨-, rfl⟩ := step_handler ht
    exact ⟨hsound, hcurrent, hnode, hflag⟩
  | look =>
    obtain ⟨pl, hpl, rfl⟩ := step_look ht
    have hoff : s.interruptFlag ≠ true := by
      rw [ne_eq, hflag, hpl]
      exact Control.noConfusion
    obtain ⟨p, hp, -, heq⟩ | ⟨pl', hpl', heq⟩ :=
      Coherent.look (s := s) ⟨hsound, hcurrent, hnode, hflag⟩ hpl
    · rw [heq]
      refine ⟨⟨hsound.heap, hsound.apart, hsound.records, hsound.circle⟩, hp, ?_, ?_⟩
      · intro pl hpl
        change (if (s.ata.asleep p).isSome then Control.woken else .user) = _ at hpl
        split_ifs at hpl
      · by_cases hasleep : (s.ata.asleep p).isSome
        · simp only [hasleep, if_true]
          exact ⟨fun h => absurd h hoff, fun h => (nomatch h)⟩
        · simp only [hasleep]
          exact ⟨fun _ => rfl, fun _ => rfl⟩
    · rw [heq]
      refine ⟨hsound, hcurrent, ?_, ?_⟩
      · intro pl hpl
        obtain rfl := Control.searching.inj hpl
        exact hpl'
      · exact ⟨fun h => absurd h hoff, fun h => (nomatch h)⟩
  | resume =>
    obtain ⟨-, ata, -, rfl⟩ := step_resume ht
    exact hiretq _ hsound hcurrent

/-- Outside of a search the current process is `PROCESS_RUNNING`. -/
theorem Coherent.running_step (hpage : 2 ^ 12 ∣ start) (h0 : 0 < start) (h64 : start < 2 ^ 64)
    (h : s.Coherent start)
    (hruns : (∀ pl, s.control ≠ .searching pl) → s.ata.state s.tasks.currentProcess = .running)
    (hserved : s.Served e) (ht : s.step disk floating e = some t) :
    (∀ pl, t.control ≠ .searching pl) → t.ata.state t.tasks.currentProcess = .running := by
  have huser : s.control = .user → s.ata.state s.tasks.currentProcess = .running := by
    intro hu
    apply hruns
    intro pl hpl
    rw [hu] at hpl
    cases hpl
  intro hno
  cases e with
  | timer =>
    obtain ⟨-, rfl⟩ := step_timer ht
    exact absurd rfl (hno _)
  | read lba sizeOfBytes buffer =>
    obtain ⟨hu, -, ⟨-, rfl⟩ | ⟨-, rfl⟩⟩ := step_read ht
    · exact huser hu
    · exact absurd rfl (hno _)
  | poll lba sizeOfBytes buffer ok =>
    obtain ⟨hu, ata, hata, rfl⟩ := step_poll ht
    show ata.state s.tasks.currentProcess = .running
    rw [(AtaTrace.step_poll_kept hata).1]
    exact huser hu
  | fork =>
    obtain ⟨hu, tasks, c, hcopy, rfl⟩ := step_fork ht
    obtain ⟨v, d, hv, -, -, hfresh, hsame, -⟩ :=
      h.sound.copyProcess hpage h0 h64 h.current hserved
    obtain ⟨rfl, rfl⟩ := Prod.mk.inj (Option.some.inj (hcopy.symm.trans hv))
    show update s.ata.state c _ tasks.currentProcess = .running
    rw [hsame, update_of_ne (ne_of_mem_of_not_mem h.current hfresh)]
    exact huser hu
  | exit =>
    obtain ⟨-, rfl⟩ := step_exit ht
    exact absurd rfl (hno _)
  | settle ok =>
    obtain ⟨d, rfl⟩ := step_settle ht
    exact hruns hno
  | handler =>
    obtain ⟨-, rfl⟩ := step_handler ht
    show update s.ata.state _ .running s.tasks.currentProcess = .running
    rw [update_apply]
    split_ifs
    · rfl
    · exact hruns hno
  | look =>
    obtain ⟨pl, hpl, rfl⟩ := step_look ht
    obtain ⟨p, -, hrunning, heq⟩ | ⟨pl', -, heq⟩ := h.look hpl
    · rw [heq]
      exact hrunning
    · rw [heq] at hno
      exact absurd rfl (hno pl')
  | resume =>
    obtain ⟨hw, ata, hata, rfl⟩ := step_resume ht
    show ata.state s.tasks.currentProcess = .running
    rw [(AtaTrace.step_resume_kept hata).1]
    apply hruns
    intro pl hpl
    rw [hw] at hpl
    cases hpl

theorem boot_coherent {tasks : TaskList} (hsound : tasks.Sound start)
    (hcreated : tasks.created = [tasks.currentProcess]) (body : Nat → AtaRequest)
    (state : Nat → ProcessState) : (boot tasks body state).Coherent start where
  sound := hsound
  current := by
    show tasks.currentProcess ∈ tasks.created
    rw [hcreated]
    exact List.mem_cons_self
  node pl hpl := nomatch hpl
  flag := ⟨fun _ => rfl, fun _ => rfl⟩

end Coherent
end TaskSystem
end Amaterasu
