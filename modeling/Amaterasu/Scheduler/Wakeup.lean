import Amaterasu.Ata.Ledger
import Amaterasu.Scheduler.System

/-! What `ATAHandler` wakes. The entry at `HeadIndex` may be one of an empty queue, or of a request
whose call has returned. -/

namespace Amaterasu
open Function Runs
namespace TaskSystem

/-- `ATAHandler` changes the state of a process only if it sleeps, and waits for the request at the
head of the queue. -/
def WakesWaiter (disk : Nat → BitVec 8) (floating : Nat → BitVec 16) (s : TaskSystem) : Event → Prop
  | .handler => ∀ t ∈ s.step disk floating .handler, ∀ p, t.ata.state p ≠ s.ata.state p →
    0 < s.ata.queue.size ∧ s.ata.state p = .sleep ∧ (s.ata.asleep p).isSome ∧
      s.ata.ticket p = s.ata.tickets s.ata.queue.head
  | _ => True

/-- The processes that have executed `sysExit` are `PROCESS_ZOMBIE`, and no search finds one. -/
def ExitedStay (s : TaskSystem) : Prop :=
  ∀ p ∈ s.exited, s.ata.state p = .zombie ∧ ∀ n pl, s.tasks.findNextTask s.ata.state n pl ≠ some p

/-- At an interrupt the call that queued the request at `HeadIndex` has not returned, or the process
named there is `PROCESS_RUNNING` already. -/
def Owed (s : TaskSystem) : Event → Prop
  | .handler => s.ata.state s.ata.queue.front.process = .running ∨
    0 < s.ata.queue.size ∧ s.ata.tickets s.ata.queue.head ∉ s.ata.returned
  | _ => True

instance : DecidableRel Owed
  | s, .handler => inferInstanceAs (Decidable (s.ata.state s.ata.queue.front.process = .running ∨
    0 < s.ata.queue.size ∧ s.ata.tickets s.ata.queue.head ∉ s.ata.returned))
  | _, .timer => inferInstanceAs (Decidable True)
  | _, .read _ _ _ => inferInstanceAs (Decidable True)
  | _, .poll _ _ _ _ => inferInstanceAs (Decidable True)
  | _, .fork => inferInstanceAs (Decidable True)
  | _, .exit => inferInstanceAs (Decidable True)
  | _, .settle _ => inferInstanceAs (Decidable True)
  | _, .look => inferInstanceAs (Decidable True)
  | _, .resume => inferInstanceAs (Decidable True)

/-- Who sleeps, who has exited, and who is owed a request. -/
structure Wakeful (start : Nat) (s : TaskSystem) : Prop where
  coherent : s.Coherent start
  ledger : s.ata.Ledger
  running : (∀ pl, s.control ≠ .searching pl) → s.ata.state s.tasks.currentProcess = .running
  awake : s.control = .user → s.ata.asleep s.tasks.currentProcess = none
  sleepers : ∀ p, (s.ata.asleep p).isSome → s.ata.state p ≠ .zombie
  exited : ∀ p ∈ s.exited, p ∈ s.tasks.created ∧ s.ata.state p = .zombie

section Wakeup
variable {disk : Nat → BitVec 8} {floating : Nat → BitVec 16} {s t : TaskSystem} {start : Nat}
  {e : Event}

theorem findNextTask_running {tasks : TaskList} {state : Nat → ProcessState} {n pl p : Nat}
    (h : tasks.findNextTask state n pl = some p) : state p = .running := by
  induction n generalizing pl with
  | zero => cases h
  | succ n ih =>
    unfold TaskList.findNextTask at h
    dsimp only at h
    split_ifs at h with hgood
    · obtain rfl := Option.some.inj h
      exact of_decide_eq_true (Bool.and_eq_true_iff.mp hgood).2
    · exact ih h

theorem Wakeful.exitedStay (h : s.Wakeful start) : s.ExitedStay := by
  intro p hp
  have hzombie := (h.exited p hp).2
  refine ⟨hzombie, fun n pl hfind => ?_⟩
  have hrunning := findNextTask_running hfind
  rw [hzombie] at hrunning
  cases hrunning

theorem Wakeful.user (h : s.Wakeful start) (hu : s.control = .user) :
    s.ata.state s.tasks.currentProcess = .running := by
  apply h.running
  intro pl hpl
  rw [hu] at hpl
  cases hpl

/-- An interrupt wakes only the one that waits exactly when that one is owed its request. -/
theorem Wakeful.wakesWaiter_iff (h : s.Wakeful start)
    (ht : s.step disk floating .handler = some t) :
    s.WakesWaiter disk floating .handler ↔ s.Owed .handler := by
  obtain ⟨-, heq⟩ := step_handler ht
  have hstate : t.ata.state = update s.ata.state s.ata.queue.front.process .running := by
    rw [heq]
    rfl
  constructor
  · intro hwakes
    by_cases hrunning : s.ata.state s.ata.queue.front.process = .running
    · exact Or.inl hrunning
    · have hchanged : t.ata.state s.ata.queue.front.process ≠
          s.ata.state s.ata.queue.front.process := by
        rw [hstate, update_self]
        exact Ne.symm hrunning
      obtain ⟨hpos, -, hasleep, hticket⟩ := hwakes t ht _ hchanged
      right
      rw [← hticket]
      exact ⟨hpos, (h.ledger.live _ hasleep).1⟩
  · intro howed u hu p hp
    obtain rfl := Option.some.inj (ht.symm.trans hu)
    have hfront : p = s.ata.queue.front.process := by
      by_contra hne
      rw [hstate, update_of_ne hne] at hp
      exact hp rfl
    rw [hstate, hfront, update_self] at hp
    rw [hfront]
    obtain hrunning | ⟨hpos, hreturned⟩ := howed
    · exact absurd hrunning.symm hp
    · obtain ⟨hasleep, hticket⟩ := h.ledger.head hpos hreturned
      refine ⟨hpos, ?_, hasleep, hticket⟩
      have hzombie := h.sleepers _ hasleep
      cases hsleep : s.ata.state s.ata.queue.front.process with
      | sleep => rfl
      | running => exact absurd hsleep.symm hp
      | zombie => exact absurd hsleep hzombie

/-! ## Runs -/

theorem look_ata (s : TaskSystem) (pl : Nat) : (s.look pl).ata = s.ata := by
  unfold look
  dsimp only
  split_ifs <;> rfl

theorem ledger_step (h : s.ata.Ledger) (ht : s.step disk floating e = some t) : t.ata.Ledger := by
  cases e with
  | timer =>
    obtain ⟨-, rfl⟩ := step_timer ht
    exact h
  | read lba sizeOfBytes buffer =>
    obtain ⟨-, hnone, ⟨-, rfl⟩ | ⟨hspace, rfl⟩⟩ := step_read ht
    · exact h.of_eq rfl rfl rfl rfl rfl rfl
    · exact (h.asks (c := ⟨_, lba, sizeOfBytes, buffer⟩) hspace hnone).of_eq rfl rfl rfl rfl rfl rfl
  | poll lba sizeOfBytes buffer ok =>
    obtain ⟨-, ata, hata, rfl⟩ := step_poll ht
    exact h.step hata
  | fork =>
    obtain ⟨-, tasks, c, -, rfl⟩ := step_fork ht
    exact h.of_eq rfl rfl rfl rfl rfl rfl
  | exit =>
    obtain ⟨-, rfl⟩ := step_exit ht
    exact h.of_eq rfl rfl rfl rfl rfl rfl
  | settle ok =>
    obtain ⟨d, rfl⟩ := step_settle ht
    exact h.of_eq rfl rfl rfl rfl rfl rfl
  | handler =>
    obtain ⟨-, rfl⟩ := step_handler ht
    exact h.of_eq rfl rfl rfl rfl rfl rfl
  | look =>
    obtain ⟨pl, -, rfl⟩ := step_look ht
    rw [look_ata]
    exact h
  | resume =>
    obtain ⟨-, ata, hata, rfl⟩ := step_resume ht
    exact h.step hata

theorem Wakeful.sleepers_step (h : s.Wakeful start) (ht : s.step disk floating e = some t) :
    ∀ p, (t.ata.asleep p).isSome → t.ata.state p ≠ .zombie := by
  intro p hp
  cases e with
  | timer =>
    obtain ⟨-, rfl⟩ := step_timer ht
    exact h.sleepers p hp
  | read lba sizeOfBytes buffer =>
    obtain ⟨-, -, ⟨-, rfl⟩ | ⟨-, rfl⟩⟩ := step_read ht
    · exact h.sleepers p hp
    · change (update s.ata.asleep s.tasks.currentProcess _ p).isSome at hp
      show update s.ata.state s.tasks.currentProcess .sleep p ≠ .zombie
      by_cases hcurrent : p = s.tasks.currentProcess
      · rw [hcurrent, update_self]
        exact ProcessState.noConfusion
      · rw [update_of_ne hcurrent] at hp ⊢
        exact h.sleepers p hp
  | poll lba sizeOfBytes buffer ok =>
    obtain ⟨-, ata, hata, rfl⟩ := step_poll ht
    obtain ⟨hstate, hasleep⟩ := AtaTrace.step_poll_kept hata
    change (ata.asleep p).isSome at hp
    show ata.state p ≠ .zombie
    rw [hasleep] at hp
    rw [hstate]
    exact h.sleepers p hp
  | fork =>
    obtain ⟨hu, tasks, c, -, rfl⟩ := step_fork ht
    show update s.ata.state c (s.ata.state s.tasks.currentProcess) p ≠ .zombie
    rw [update_apply, h.user hu]
    split_ifs
    · exact ProcessState.noConfusion
    · exact h.sleepers p hp
  | exit =>
    obtain ⟨hu, rfl⟩ := step_exit ht
    show update s.ata.state s.tasks.currentProcess .zombie p ≠ .zombie
    have hother : p ≠ s.tasks.currentProcess := by
      rintro rfl
      change (s.ata.asleep s.tasks.currentProcess).isSome at hp
      rw [h.awake hu] at hp
      cases hp
    rw [update_of_ne hother]
    exact h.sleepers p hp
  | settle ok =>
    obtain ⟨d, rfl⟩ := step_settle ht
    exact h.sleepers p hp
  | handler =>
    obtain ⟨-, rfl⟩ := step_handler ht
    show update s.ata.state _ .running p ≠ .zombie
    rw [update_apply]
    split_ifs
    · exact ProcessState.noConfusion
    · exact h.sleepers p hp
  | look =>
    obtain ⟨pl, -, rfl⟩ := step_look ht
    rw [look_ata] at hp ⊢
    exact h.sleepers p hp
  | resume =>
    obtain ⟨-, ata, hata, rfl⟩ := step_resume ht
    obtain ⟨hstate, hasleep⟩ := AtaTrace.step_resume_kept hata
    change (ata.asleep p).isSome at hp
    show ata.state p ≠ .zombie
    rw [hasleep] at hp
    rw [hstate]
    by_cases hcurrent : p = s.tasks.currentProcess
    · rw [hcurrent, update_self] at hp
      cases hp
    · rw [update_of_ne hcurrent] at hp
      exact h.sleepers p hp

theorem boot_wakeful {tasks : TaskList} (hsound : tasks.Sound start)
    (hcreated : tasks.created = [tasks.currentProcess]) (body : Nat → AtaRequest)
    (state : Nat → ProcessState) : (boot tasks body state).Wakeful start where
  coherent := boot_coherent hsound hcreated body state
  ledger := (AtaTrace.ataInit_ledger body).of_eq rfl rfl rfl rfl rfl rfl
  running _ := update_self ..
  awake _ := rfl
  sleepers _ hp := nomatch hp
  exited _ hp := absurd hp List.not_mem_nil

section Step
variable (hpage : 2 ^ 12 ∣ start) (h0 : 0 < start) (h64 : start < 2 ^ 64)
include hpage h0 h64

theorem Wakeful.awake_step (h : s.Wakeful start) (hserved : s.Served e)
    (ht : s.step disk floating e = some t) :
    t.control = .user → t.ata.asleep t.tasks.currentProcess = none := by
  intro hcontrol
  cases e with
  | timer =>
    obtain ⟨-, rfl⟩ := step_timer ht
    cases hcontrol
  | read lba sizeOfBytes buffer =>
    obtain ⟨-, hnone, ⟨-, rfl⟩ | ⟨-, rfl⟩⟩ := step_read ht
    · exact hnone
    · cases hcontrol
  | poll lba sizeOfBytes buffer ok =>
    obtain ⟨hu, ata, hata, rfl⟩ := step_poll ht
    show ata.asleep s.tasks.currentProcess = none
    rw [(AtaTrace.step_poll_kept hata).2]
    exact h.awake hu
  | fork =>
    obtain ⟨hu, tasks, c, hcopy, rfl⟩ := step_fork ht
    obtain ⟨v, d, hv, -, -, -, hsame, -⟩ :=
      h.coherent.sound.copyProcess hpage h0 h64 h.coherent.current hserved
    obtain ⟨rfl, rfl⟩ := Prod.mk.inj (Option.some.inj (hcopy.symm.trans hv))
    show s.ata.asleep tasks.currentProcess = none
    rw [hsame]
    exact h.awake hu
  | exit =>
    obtain ⟨-, rfl⟩ := step_exit ht
    cases hcontrol
  | settle ok =>
    obtain ⟨d, rfl⟩ := step_settle ht
    exact h.awake hcontrol
  | handler =>
    obtain ⟨-, rfl⟩ := step_handler ht
    exact h.awake hcontrol
  | look =>
    obtain ⟨pl, hpl, rfl⟩ := step_look ht
    obtain ⟨p, -, -, heq⟩ | ⟨pl', -, heq⟩ := h.coherent.look hpl
    · rw [heq] at hcontrol ⊢
      change (if (s.ata.asleep p).isSome then Control.woken else .user) = .user at hcontrol
      show s.ata.asleep p = none
      by_contra hsome
      rw [if_pos (Option.isSome_iff_ne_none.mpr hsome)] at hcontrol
      cases hcontrol
    · rw [heq] at hcontrol
      cases hcontrol
  | resume =>
    obtain ⟨-, ata, hata, rfl⟩ := step_resume ht
    show ata.asleep s.tasks.currentProcess = none
    rw [(AtaTrace.step_resume_kept hata).2, update_self]

theorem Wakeful.exited_step (h : s.Wakeful start) (hserved : s.Served e) (howed : s.Owed e)
    (ht : s.step disk floating e = some t) :
    ∀ p ∈ t.exited, p ∈ t.tasks.created ∧ t.ata.state p = .zombie := by
  have hother : s.control = .user → ∀ p ∈ s.exited, p ≠ s.tasks.currentProcess := by
    rintro hu p hp rfl
    have hzombie := (h.exited _ hp).2
    rw [h.user hu] at hzombie
    cases hzombie
  intro p hp
  cases e with
  | timer =>
    obtain ⟨-, rfl⟩ := step_timer ht
    exact h.exited p hp
  | read lba sizeOfBytes buffer =>
    obtain ⟨hu, -, ⟨-, rfl⟩ | ⟨-, rfl⟩⟩ := step_read ht
    · exact h.exited p hp
    · refine ⟨(h.exited p hp).1, ?_⟩
      show update s.ata.state s.tasks.currentProcess .sleep p = .zombie
      rw [update_of_ne (hother hu p hp)]
      exact (h.exited p hp).2
  | poll lba sizeOfBytes buffer ok =>
    obtain ⟨-, ata, hata, rfl⟩ := step_poll ht
    refine ⟨(h.exited p hp).1, ?_⟩
    show ata.state p = .zombie
    rw [(AtaTrace.step_poll_kept hata).1]
    exact (h.exited p hp).2
  | fork =>
    obtain ⟨-, tasks, c, hcopy, rfl⟩ := step_fork ht
    obtain ⟨v, d, hv, -, hcreated, hfresh, -⟩ :=
      h.coherent.sound.copyProcess hpage h0 h64 h.coherent.current hserved
    obtain ⟨rfl, rfl⟩ := Prod.mk.inj (Option.some.inj (hcopy.symm.trans hv))
    obtain ⟨hmem, hzombie⟩ := h.exited p hp
    constructor
    · show p ∈ tasks.created
      rw [hcreated]
      exact List.mem_cons_of_mem _ hmem
    · show update s.ata.state c _ p = .zombie
      rw [update_of_ne (ne_of_mem_of_not_mem hmem hfresh)]
      exact hzombie
  | exit =>
    obtain ⟨-, rfl⟩ := step_exit ht
    show p ∈ s.tasks.created ∧ update s.ata.state s.tasks.currentProcess .zombie p = .zombie
    rcases List.mem_cons.mp hp with rfl | hp
    · exact ⟨h.coherent.current, update_self ..⟩
    · obtain ⟨hmem, hzombie⟩ := h.exited p hp
      rw [update_apply, hzombie, ite_self]
      exact ⟨hmem, rfl⟩
  | settle ok =>
    obtain ⟨d, rfl⟩ := step_settle ht
    exact h.exited p hp
  | handler =>
    have hwakes := (h.wakesWaiter_iff ht).mpr howed
    obtain ⟨-, heq⟩ := step_handler ht
    have hkept : s.exited = t.exited ∧ s.tasks = t.tasks := by
      rw [heq]
      exact ⟨rfl, rfl⟩
    rw [← hkept.1] at hp
    rw [← hkept.2]
    obtain ⟨hmem, hzombie⟩ := h.exited p hp
    refine ⟨hmem, ?_⟩
    by_contra hne
    -- one that is woken sleeps
    have hsleep := (hwakes t ht p (hzombie ▸ hne)).2.1
    rw [hzombie] at hsleep
    cases hsleep
  | look =>
    obtain ⟨pl, hpl, rfl⟩ := step_look ht
    obtain ⟨q, -, -, heq⟩ | ⟨pl', -, heq⟩ := h.coherent.look hpl
    · rw [heq] at hp ⊢
      exact h.exited p hp
    · rw [heq] at hp ⊢
      exact h.exited p hp
  | resume =>
    obtain ⟨-, ata, hata, rfl⟩ := step_resume ht
    refine ⟨(h.exited p hp).1, ?_⟩
    show ata.state p = .zombie
    rw [(AtaTrace.step_resume_kept hata).1]
    exact (h.exited p hp).2

theorem Wakeful.step (h : s.Wakeful start) (hserved : s.Served e) (howed : s.Owed e)
    (ht : s.step disk floating e = some t) : t.Wakeful start where
  coherent := h.coherent.step hpage h0 h64 hserved ht
  ledger := ledger_step h.ledger ht
  running := h.coherent.running_step hpage h0 h64 h.running hserved ht
  awake := h.awake_step hpage h0 h64 hserved ht
  sleepers := h.sleepers_step ht
  exited := h.exited_step hpage h0 h64 hserved howed ht

/-- In every run whose forks get their records, an interrupt wakes only the process that sleeps for
the request at the head of the queue, and those that have exited stay `PROCESS_ZOMBIE` and are never
found, exactly when at each interrupt the call that queued that request has not returned or the
process named there is `PROCESS_RUNNING` already. -/
theorem run_wakes_waiter_iff {processList : Nat} {tasks : TaskList} {events : List Event}
    (hapart : processList + 16 ≤ start ∨ start + kHeapHeapSize ≤ processList)
    (links : RingLinks Nat) (body : Nat → AtaRequest) (state : Nat → ProcessState)
    (hinit : TaskList.processInit links processList (HeapSystem.boot start) = some tasks)
    (hserved : Along (step disk floating) Served (boot tasks body state) events)
    (hr : run (step disk floating) (boot tasks body state) events = some t) :
    Along (step disk floating) (fun s e => s.WakesWaiter disk floating e ∧
        ∀ t ∈ s.step disk floating e, t.ExitedStay) (boot tasks body state) events ↔
      Along (step disk floating) Owed (boot tasks body state) events := by
  obtain ⟨s, hs, hsound, hcreated, -⟩ := TaskList.processInit_sound hpage h0 h64 links hapart
  obtain rfl := Option.some.inj (hinit.symm.trans hs)
  symm
  apply Along.congr (I := Wakeful start) ?_ (boot_wakeful hsound hcreated body state) hserved hr
  intro s e t h hserved ht
  have hstep := fun howed => h.step hpage h0 h64 hserved howed ht
  refine ⟨⟨fun howed => ⟨?_, fun u hu => ?_⟩, fun hboth => ?_⟩, hstep⟩
  · cases e with
    | handler => exact (h.wakesWaiter_iff ht).mpr howed
    | _ => trivial
  · obtain rfl := Option.some.inj (ht.symm.trans hu)
    exact (hstep howed).exitedStay
  · cases e with
    | handler => exact (h.wakesWaiter_iff ht).mp hboth.1
    | _ => trivial

end Step
end Wakeup

/-- A process forks and sleeps in `ATARead`; its child runs until the interrupt, and exits. -/
theorem run_wakes_waiter_two : ∃ tasks t,
    TaskList.processInit ⟨fun _ => 0, fun _ => 0⟩ 0x200000 (HeapSystem.boot 0x100000) = some tasks ∧
    run (step (fun i => BitVec.ofNat 8 i) fun _ => 0)
      (boot tasks (fun _ => ⟨false, 0, 0, false, 0, 0⟩) fun _ => .running)
      [.fork, .read 5 3 0x300000, .look, .settle true, .handler, .exit, .look, .look, .resume] =
        some t ∧
    t.exited = [0x100300] ∧
    Along (step (fun i => BitVec.ofNat 8 i) fun _ => 0)
      (fun s e => s.WakesWaiter (fun i => BitVec.ofNat 8 i) (fun _ => 0) e ∧
        ∀ t ∈ s.step (fun i => BitVec.ofNat 8 i) (fun _ => 0) e, t.ExitedStay)
      (boot tasks (fun _ => ⟨false, 0, 0, false, 0, 0⟩) fun _ => .running)
      [.fork, .read 5 3 0x300000, .look, .settle true, .handler, .exit, .look, .look, .resume] := by
  obtain ⟨tasks, hinit, -⟩ := TaskList.processInit_sound (by decide : 2 ^ 12 ∣ 0x100000) (by decide)
    (by decide) ⟨fun _ => 0, fun _ => 0⟩ (Or.inr (by decide : 0x100000 + kHeapHeapSize ≤ 0x200000))
  have hruns : ∀ tasks ∈ TaskList.processInit ⟨fun _ => 0, fun _ => 0⟩ 0x200000
        (HeapSystem.boot 0x100000),
      (run (step (fun i => BitVec.ofNat 8 i) fun _ => 0)
        (boot tasks (fun _ => ⟨false, 0, 0, false, 0, 0⟩) fun _ => .running)
        [.fork, .read 5 3 0x300000, .look, .settle true, .handler, .exit, .look, .look,
          .resume]).map exited = some [0x100300] ∧
      Along (step (fun i => BitVec.ofNat 8 i) fun _ => 0) Served
        (boot tasks (fun _ => ⟨false, 0, 0, false, 0, 0⟩) fun _ => .running)
        [.fork, .read 5 3 0x300000, .look, .settle true, .handler, .exit, .look, .look,
          .resume] ∧
      Along (step (fun i => BitVec.ofNat 8 i) fun _ => 0) Owed
        (boot tasks (fun _ => ⟨false, 0, 0, false, 0, 0⟩) fun _ => .running)
        [.fork, .read 5 3 0x300000, .look, .settle true, .handler, .exit, .look, .look,
          .resume] := by decide +kernel
  obtain ⟨hend, hserved, howed⟩ := hruns tasks hinit
  obtain ⟨t, ht, hexited⟩ := Option.map_eq_some_iff.mp hend
  exact ⟨tasks, t, hinit, ht, hexited, (run_wakes_waiter_iff (by decide : 2 ^ 12 ∣ 0x100000)
    (by decide) (by decide) (Or.inr (by decide : 0x100000 + kHeapHeapSize ≤ 0x200000)) _ _ _ hinit
    hserved ht).mpr howed⟩

/-- A child reads one sector by polling, in the first cell of the queue, and exits. Its parent polls
nine times. At the last interrupt the queue is empty and `HeadIndex` is back at that cell:
`ATAHandler` makes the child `PROCESS_RUNNING` again, and `FindNextTask` finds it. -/
theorem stale_entry_wakes_zombie : ∃ tasks t,
    TaskList.processInit ⟨fun _ => 0, fun _ => 0⟩ 0x200000 (HeapSystem.boot 0x100000) = some tasks ∧
    run (step (fun i => BitVec.ofNat 8 i) fun _ => 0)
      (boot tasks (fun _ => ⟨false, 0, 0, false, 0, 0⟩) fun _ => .running)
      ([.fork, .timer, .look, .poll 0 512 0x300000 true, .handler, .exit, .look, .look] ++
        (List.replicate 9 [.poll 1 512 0x400000 true, .handler]).flatten) = some t ∧
    t.ata.queue.size = 0 ∧ t.exited = [0x100300] ∧ t.ata.state 0x100300 = .running ∧
    t.tasks.findNextTask t.ata.state 3 (processNode t.tasks.currentProcess) = some 0x100300 ∧
    ¬Along (step (fun i => BitVec.ofNat 8 i) fun _ => 0)
      (fun s e => s.WakesWaiter (fun i => BitVec.ofNat 8 i) (fun _ => 0) e ∧
        ∀ t ∈ s.step (fun i => BitVec.ofNat 8 i) (fun _ => 0) e, t.ExitedStay)
      (boot tasks (fun _ => ⟨false, 0, 0, false, 0, 0⟩) fun _ => .running)
      ([.fork, .timer, .look, .poll 0 512 0x300000 true, .handler, .exit, .look, .look] ++
        (List.replicate 9 [.poll 1 512 0x400000 true, .handler]).flatten) := by
  obtain ⟨tasks, hinit, -⟩ := TaskList.processInit_sound (by decide : 2 ^ 12 ∣ 0x100000) (by decide)
    (by decide) ⟨fun _ => 0, fun _ => 0⟩ (Or.inr (by decide : 0x100000 + kHeapHeapSize ≤ 0x200000))
  have hruns : ∀ tasks ∈ TaskList.processInit ⟨fun _ => 0, fun _ => 0⟩ 0x200000
        (HeapSystem.boot 0x100000),
      (run (step (fun i => BitVec.ofNat 8 i) fun _ => 0)
        (boot tasks (fun _ => ⟨false, 0, 0, false, 0, 0⟩) fun _ => .running)
        ([.fork, .timer, .look, .poll 0 512 0x300000 true, .handler, .exit, .look, .look] ++
          (List.replicate 9 [.poll 1 512 0x400000 true, .handler]).flatten)).map
        (fun t => (t.ata.queue.size, t.exited, t.ata.state 0x100300,
          t.tasks.findNextTask t.ata.state 3 (processNode t.tasks.currentProcess))) =
        some (0, [0x100300], .running, some 0x100300) := by decide +kernel
  obtain ⟨t, ht, hview⟩ := Option.map_eq_some_iff.mp (hruns tasks hinit)
  obtain ⟨hsize, hview⟩ := Prod.mk.inj hview
  obtain ⟨hexited, hview⟩ := Prod.mk.inj hview
  obtain ⟨hstate, hfind⟩ := Prod.mk.inj hview
  refine ⟨tasks, t, hinit, ht, hsize, hexited, hstate, hfind, fun hall => ?_⟩
  have hboot : ExitedStay (boot tasks (fun _ => ⟨false, 0, 0, false, 0, 0⟩) fun _ => .running) :=
    fun p hp => absurd hp List.not_mem_nil
  have hstay := Along.invariant (I := ExitedStay) (fun s e u _ hok hu => hok.2 u hu) hboot hall ht
  have hzombie := (hstay 0x100300 (hexited ▸ List.mem_cons_self)).1
  rw [hstate] at hzombie
  cases hzombie

end TaskSystem
end Amaterasu
