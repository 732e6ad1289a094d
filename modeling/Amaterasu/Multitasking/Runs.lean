import Amaterasu.Multitasking.Fork
import Amaterasu.Multitasking.Turns
import Amaterasu.Process.Exec
import Amaterasu.Process.KernelStack

/-! Runs of the machine from the first process on. Whatever the order of user code, interrupts,
forks and exits, every process sees what it would see on a processor and in a memory of its own. -/

namespace Amaterasu
open Cpu PageWalk Function Runs Machine

section Step
variable {l : Link} {m : PageFrames} {s : Machine} {x : Tasks} {p : Nat}

theorem Represents.runnable_iff (h : Represents l m s x) : s.Runnable p ↔ x.Runnable p := by
  unfold Machine.Runnable Tasks.Runnable
  rw [h.created]
  constructor
  · intro hp
    exact ⟨hp.1, (h.resident p hp.1).state.symm.trans hp.2⟩
  · intro hp
    exact ⟨hp.1, (h.resident p hp.1).state.trans hp.2⟩

theorem Represents.timer (h : Represents l m s x) {turn : Turn}
    (hroom : s.HasRoom l (.timer turn)) :
    ∀ t ∈ s.step l (.timer turn), ∃ y ∈ x.step (.timer turn), Represents l m t y := by
  intro t ht
  have he : Entered (s.kernelStack s.currentProcess) l.timerDepth s.cpu
      (s.enterTimer l turn.junk₁) := saveAllRegisters_entered turn.junk₁ hroom h.top_le
  simp only [Machine.step] at ht
  split_ifs at ht with hrun hnext
  · obtain rfl := Option.some.inj ht
    refine ⟨_, if_pos (h.runnable_iff.mp hrun), ?_⟩
    have htake : x.take turn = x := by
      have hown : ({ x with current := turn.next } : Tasks) = x := by
        rw [hnext, ← h.current]
      unfold Tasks.take
      rw [hown]
      dsimp only
      rw [h.own_inCall]
      exact if_neg Bool.false_ne_true
    rw [htake]
    exact h.back (he.back h.frame turn.junk₃)
  · obtain rfl := Option.some.inj ht
    refine ⟨_, if_pos (h.runnable_iff.mp hrun), ?_⟩
    have hleft : { s.setState s.currentProcess .running with
        inCall := update s.inCall s.currentProcess false } = s := by
      unfold setState
      rw [← h.runnable.2, ← h.idle, update_eq_self, update_eq_self]
    have hown : x.set x.current { x.own with state := .running, inCall := false } = x := by
      have hstate : x.own.state = .running := by
        rw [h.own_eq, ← (h.resident _ h.memCurrent).state, h.runnable.2]
      rw [← hstate, ← h.own_inCall]
      exact x.set_own
    have hdepth : ProcessState.running ≠ .zombie → l.timerDepth = l.depth false := fun _ => rfl
    have hswitch := h.switch he hrun hnext hdepth fun hz => absurd hz (by decide)
    dsimp only at hswitch
    rwa [hleft, hown] at hswitch
  · cases ht

/-- A process that leaves in another state than `PROCESS_RUNNING` cannot be next. -/
theorem Represents.leaves (h : Represents l m s x) {turn : Turn} {state : ProcessState}
    (called : Bool) (hstate : state ≠ .running)
    (hrun : (s.setState s.currentProcess state).Runnable turn.next) :
    s.Runnable turn.next ∧ turn.next ≠ s.currentProcess ∧
      (x.set x.current { x.own with state := state, inCall := called }).Runnable turn.next := by
  have hne : turn.next ≠ s.currentProcess := by
    intro he
    have hself : (s.setState s.currentProcess state).process s.currentProcess =
        { s.process s.currentProcess with state := state } := update_self ..
    have hrunning := hrun.2
    rw [he, hself] at hrunning
    exact hstate hrunning
  have hold : (s.setState s.currentProcess state).process turn.next = s.process turn.next :=
    update_of_ne hne _ _
  have hnext : s.Runnable turn.next := ⟨hrun.1, hold ▸ hrun.2⟩
  have htask : (x.set x.current { x.own with state := state, inCall := called }).task turn.next =
      x.task turn.next := update_of_ne (h.current ▸ hne) _ _
  exact ⟨hnext, hne, (h.runnable_iff.mp hnext).1, htask ▸ (h.runnable_iff.mp hnext).2⟩

theorem Represents.sleep (h : Represents l m s x) {turn : Turn}
    (hroom : s.HasRoom l (.sleep turn)) :
    ∀ t ∈ s.step l (.sleep turn), ∃ y ∈ x.step (.sleep turn), Represents l m t y := by
  intro t ht
  have he : Entered (s.kernelStack s.currentProcess) l.sleepDepth s.cpu
      (s.enterCall l.sleepDepth turn.junk₁) := syscallEnter_entered turn.junk₁ hroom h.top_le
  simp only [Machine.step] at ht
  split_ifs at ht with hrun
  case neg => cases ht
  obtain rfl := Option.some.inj ht
  obtain ⟨hnext, hne, hx⟩ := h.leaves true (by decide) hrun
  exact ⟨_, if_pos hx, h.switch he hnext hne (fun _ => rfl) fun _ => rfl⟩

theorem Represents.exit (h : Represents l m s x) {turn : Turn}
    (hroom : s.HasRoom l (.exit turn)) :
    ∀ t ∈ s.step l (.exit turn), ∃ y ∈ x.step (.exit turn), Represents l m t y := by
  intro t ht
  have he : Entered (s.kernelStack s.currentProcess) l.exitDepth s.cpu
      (s.enterCall l.exitDepth turn.junk₁) := syscallEnter_entered turn.junk₁ hroom h.top_le
  simp only [Machine.step] at ht
  split_ifs at ht with hrun
  case neg => cases ht
  obtain rfl := Option.some.inj ht
  obtain ⟨hnext, hne, hx⟩ := h.leaves false (by decide) hrun
  have hidle : update s.inCall s.currentProcess false = s.inCall := by
    rw [← h.idle, update_eq_self]
  have hown : ({ x.own with state := .zombie, inCall := false } : Task) =
      { x.own with state := .zombie } := by
    rw [← h.own_inCall]
  have hdepth : ProcessState.zombie ≠ .zombie → l.exitDepth = l.depth false := fun hz =>
    absurd rfl hz
  have hswitch := h.switch he hnext hne hdepth fun hz => absurd hz (by decide)
  dsimp only at hswitch
  rw [hidle, hown] at hswitch
  rw [hown] at hx
  exact ⟨_, if_pos hx, hswitch⟩

theorem Represents.fork (h : Represents l m s x) (hm : m.totalPageNumber ≤ 2 ^ 40) {child : Nat}
    {junk₁ junk₂ : State} (hroom : s.HasRoom l (.fork child junk₁ junk₂)) :
    ∀ t ∈ s.step l (.fork child junk₁ junk₂), ∃ y ∈ x.step (.fork child junk₁ junk₂),
      Represents l m t y := by
  intro t ht
  simp only [Machine.step] at ht
  split_ifs at ht with hchild
  case pos => cases ht
  obtain ⟨⟨frames, addresses⟩, halloc, ht⟩ := Option.bind_eq_some_iff.mp ht
  obtain ⟨n, hn, ht⟩ := Option.bind_eq_some_iff.mp ht
  obtain rfl := ForkFrames.ofList_eq hn
  dsimp only at ht
  split_ifs at ht with hzero
  obtain rfl := Option.some.inj ht
  obtain ⟨q, hq⟩ := h.tracks
  have hg := hq.allocateOnes hm 8 halloc hzero
  refine ⟨_, ?_, h.forks hchild hg hzero hroom junk₁ junk₂⟩
  simp only [Tasks.step]
  rw [if_neg (h.created ▸ hchild)]
  rfl

/-- Every step of the machine is one of the processes, each for itself. -/
theorem Represents.step (h : Represents l m s x) (hm : m.totalPageNumber ≤ 2 ^ 40)
    (e : MachineEvent) (hroom : s.HasRoom l e) :
    ∀ t ∈ s.step l e, ∃ y ∈ x.step e, Represents l m t y := by
  cases e with
  | user code => exact h.user code
  | call ret junk => exact h.call hroom
  | exec entryPoint image size junk => exact h.exec hroom
  | fork child junk₁ junk₂ => exact h.fork hm hroom
  | interrupt woken junk => exact h.interrupt hroom
  | timer turn => exact h.timer hroom
  | sleep turn => exact h.sleep hroom
  | exit turn => exact h.exit hroom

theorem Represents.runs (h : Represents l m s x) (hm : m.totalPageNumber ≤ 2 ^ 40)
    {es : List MachineEvent} (hroom : Along (Machine.step l) (HasRoom l) s es) {t : Machine}
    (hr : run (Machine.step l) s es = some t) :
    ∃ y, run Tasks.step x es = some y ∧ Represents l m t y :=
  hroom.simulates (fun _ _ e h hroom => h.step hm e hroom) h hr

end Step
end Amaterasu
