import Amaterasu.Multitasking.Boot

/-! What a process finds when its turn comes again, what a child finds in its first turn, and what
the others can do in between: nothing. -/

namespace Amaterasu
open Cpu PageWalk Function Runs Machine

/-! ## Tasks that do not run -/

/-- The current process is interrupted. -/
def MachineEvent.IsInterrupt : MachineEvent → Prop
  | .timer _ => True
  | .interrupt _ _ => True
  | _ => False

instance : DecidablePred MachineEvent.IsInterrupt
  | .timer _ => inferInstanceAs (Decidable True)
  | .interrupt _ _ => inferInstanceAs (Decidable True)
  | .user _ => inferInstanceAs (Decidable False)
  | .call _ _ => inferInstanceAs (Decidable False)
  | .exec _ _ _ _ => inferInstanceAs (Decidable False)
  | .fork _ _ _ => inferInstanceAs (Decidable False)
  | .sleep _ => inferInstanceAs (Decidable False)
  | .exit _ => inferInstanceAs (Decidable False)

/-- What a step can do. -/
inductive Tasks.Change (x : Tasks) (e : MachineEvent) : Tasks → Prop
  | own (t : Task) (he : ¬e.IsInterrupt) : x.Change e (x.set x.current t)
  | fork (child : Nat) (t t' : Task) (he : ¬e.IsInterrupt) (hchild : child ∉ x.created) :
      x.Change e { (x.set x.current t).set child t' with created := child :: x.created }
  | same : x.Change e x
  | wake (q : Nat) (t : Task) (junk : State) (he : e = .interrupt (some q) junk)
      (hsleep : (x.task q).state = .sleep) : x.Change e (x.set q t)
  | take (turn : Turn) (hrun : x.Runnable turn.next) : x.Change e (x.take turn)
  | leave (turn : Turn) (t : Task) (he : ¬e.IsInterrupt) (ht : t.state ≠ .running)
      (hrun : (x.set x.current t).Runnable turn.next) :
      x.Change e ((x.set x.current t).take turn)

section Tasks
variable {x y : Tasks} {e : MachineEvent} {p : Nat} {turn : Turn} {t : Task}

theorem Tasks.step_change (hy : y ∈ x.step e) : x.Change e y := by
  cases e with
  | user code =>
    obtain rfl := Option.some.inj hy
    exact .own _ id
  | call ret junk =>
    obtain rfl := Option.some.inj hy
    exact .own _ id
  | exec entryPoint image size junk =>
    simp only [Tasks.step] at hy
    split_ifs at hy
    case neg => cases hy
    obtain rfl := Option.some.inj hy
    exact .own _ id
  | fork child junk₁ junk₂ =>
    simp only [Tasks.step] at hy
    split_ifs at hy with hchild
    case pos => cases hy
    obtain rfl := Option.some.inj hy
    exact .fork child _ _ id hchild
  | interrupt woken junk =>
    cases woken with
    | none =>
      obtain rfl := Option.some.inj hy
      exact .same
    | some q =>
      simp only [Tasks.step] at hy
      split_ifs at hy with hq
      case neg => cases hy
      obtain rfl := Option.some.inj hy
      exact .wake q _ junk rfl hq.2
  | timer turn =>
    simp only [Tasks.step] at hy
    split_ifs at hy with hrun
    case neg => cases hy
    obtain rfl := Option.some.inj hy
    exact .take turn hrun
  | sleep turn =>
    simp only [Tasks.step] at hy
    split_ifs at hy with hrun
    case neg => cases hy
    obtain rfl := Option.some.inj hy
    exact .leave turn _ id ProcessState.noConfusion hrun
  | exit turn =>
    simp only [Tasks.step] at hy
    split_ifs at hy with hrun
    case neg => cases hy
    obtain rfl := Option.some.inj hy
    exact .leave turn _ id ProcessState.noConfusion hrun

/-- A turn changes at most the process that it gives the processor to. -/
theorem Tasks.take_task_of_ne (x : Tasks) (turn : Turn) (h : p ≠ turn.next) :
    (x.take turn).task p = x.task p := by
  unfold Tasks.take
  dsimp only
  split_ifs
  · exact update_of_ne h _ _
  · rfl

/-- A process that is not in a system call is taken as it is. -/
theorem Tasks.take_task (x : Tasks) (turn : Turn) (h : (x.task p).inCall = false) :
    (x.take turn).task p = x.task p := by
  let z : Tasks := { x with current := turn.next }
  have htake : x.take turn =
      if z.own.inCall then z.set turn.next { z.own.execute turn.result.code with inCall := false }
      else z := rfl
  rw [htake]
  split_ifs with hcall
  · have hne : p ≠ turn.next := by
      rintro rfl
      exact Bool.false_ne_true (h.symm.trans hcall)
    exact update_of_ne hne _ _
  · rfl

@[simp] theorem Tasks.take_created (x : Tasks) (turn : Turn) :
    (x.take turn).created = x.created := by
  unfold Tasks.take
  dsimp only
  split_ifs <;> rfl

@[simp] theorem Tasks.take_current (x : Tasks) (turn : Turn) :
    (x.take turn).current = turn.next := by
  unfold Tasks.take
  dsimp only
  split_ifs <;> rfl

/-- A step changes at most the task that makes it, the one that it wakes, and the next one, if that
is in a system call. -/
theorem Tasks.step_task (hy : y ∈ x.step e) (hp : p ∈ x.created)
    (h : x.current = p → e.IsInterrupt) (hcall : (x.task p).inCall = false)
    (hawake : (x.task p).state ≠ .sleep) : y.task p = x.task p ∧ p ∈ y.created := by
  have hset : ∀ t, ¬e.IsInterrupt → (x.set x.current t).task p = x.task p := fun t he =>
    update_of_ne (fun hcur => he (h hcur.symm)) _ _
  cases step_change hy with
  | own t he => exact ⟨hset t he, hp⟩
  | fork child t t' he hchild =>
    have hne : p ≠ child := fun e => hchild (e ▸ hp)
    exact ⟨(update_of_ne hne _ _).trans (hset t he), List.mem_cons_of_mem _ hp⟩
  | same => exact ⟨rfl, hp⟩
  | wake q t junk he hsleep =>
    have hne : p ≠ q := fun e => hawake (e ▸ hsleep)
    exact ⟨update_of_ne hne _ _, hp⟩
  | take turn hrun => exact ⟨x.take_task turn hcall, by rwa [take_created]⟩
  | leave turn t he ht hrun =>
    have htake := (x.set x.current t).take_task turn (by rw [hset t he]; exact hcall)
    exact ⟨htake.trans (hset t he), by rwa [take_created]⟩

/-- Who is current after a step was so before, or could run. -/
theorem Tasks.step_current (hy : y ∈ x.step e) :
    y.current = x.current ∨ (x.task y.current).state = .running := by
  cases step_change hy with
  | own t he => exact Or.inl rfl
  | fork child t t' he hchild => exact Or.inl rfl
  | same => exact Or.inl rfl
  | wake q t junk he hsleep => exact Or.inl rfl
  | take turn hrun =>
    rw [take_current]
    exact Or.inr hrun.2
  | leave turn t he ht hrun =>
    rw [take_current]
    -- who leaves in another state is not next
    have hne : turn.next ≠ x.current := by
      intro hnext
      have hself : (x.set x.current t).task turn.next = t := by
        rw [hnext]
        exact update_self ..
      exact ht (hself ▸ hrun.2)
    have hset : (x.set x.current t).task turn.next = x.task turn.next := update_of_ne hne _ _
    exact Or.inr (hset ▸ hrun.2)

end Tasks

/-! ## Runs in which a process does nothing -/

/-- There is room for the event, and it is not `p` that acts. -/
def Machine.Away (l : Link) (p : Nat) (s : Machine) (e : MachineEvent) : Prop :=
  s.HasRoom l e ∧ (s.currentProcess = p → e.IsInterrupt)

instance (l : Link) (p : Nat) : DecidableRel (Away l p) := fun s e =>
  inferInstanceAs (Decidable (s.HasRoom l e ∧ (s.currentProcess = p → e.IsInterrupt)))

section Away
variable {l : Link} {m : PageFrames} {s t u : Machine} {x y : Tasks} {p : Nat} {e : MachineEvent}
  {es : List MachineEvent}

theorem Represents.awake (h : Represents l m t x) (hp : p ∈ t.created)
    (hcall : t.inCall p = false) : (x.task p).inCall = false ∧ (x.task p).state ≠ .sleep := by
  refine ⟨(h.inCall p hp).symm.trans hcall, fun hsleep => ?_⟩
  have hin := h.asleep p hp ((h.resident p hp).state.trans hsleep)
  exact Bool.false_ne_true (hcall.symm.trans hin)

theorem Represents.away (h : Represents l m t x) (hm : m.totalPageNumber ≤ 2 ^ 40)
    (hp : p ∈ t.created) (hcall : t.inCall p = false)
    (haway : Along (Machine.step l) (Away l p) t es)
    (hr : run (Machine.step l) t es = some u) :
    ∃ y, Represents l m u y ∧ y.task p = x.task p ∧ p ∈ u.created := by
  obtain ⟨hcalls, hawake⟩ := h.awake hp hcall
  let R (s : Machine) (y : Tasks) : Prop :=
    Represents l m s y ∧ y.task p = x.task p ∧ p ∈ s.created
  have hstep : ∀ s y e, R s y → Away l p s e → ∀ v ∈ s.step l e, ∃ z ∈ y.step e, R v z := by
    rintro s y e ⟨hs, htask, hmem⟩ hok v hv
    obtain ⟨z, hz, hvz⟩ := hs.step hm e hok.1 v hv
    obtain ⟨hkept, hcreated⟩ := Tasks.step_task hz (hs.created ▸ hmem)
      (fun hcur => hok.2 (hs.current.symm.trans hcur)) (htask ▸ hcalls) (htask ▸ hawake)
    exact ⟨z, hz, hvz, hkept.trans htask, hvz.created ▸ hcreated⟩
  obtain ⟨y, -, hy⟩ := haway.simulates hstep ⟨h, rfl, hp⟩ hr
  exact ⟨y, hy⟩

theorem Represents.load_of_task (h : Represents l m u y) (hp : p ∈ u.created) :
    userLoad u.cpu.mem (u.process p).processMemory.l4PageTableBase = (y.task p).load :=
  (h.resident p hp).userLoad_eq

/-- A store of the first process, and a fork. The child has a turn with a store of its own. -/
def lowFork : List MachineEvent :=
  [.user fun c _ => (c, [(0xfffffffffffffff0, 7)]), .fork 1 zeroState zeroState]

def lowTurns : List MachineEvent :=
  [.timer (lowTurn 1), .user fun c _ => (c, [(0xfffffffffffffff0, 9)]), .timer (lowTurn 0)]

theorem lowFork_reachable {s t : Machine} (hs : lowBoot = some s)
    (ht : run (Machine.step lowLink) s lowFork = some t) : Reachable lowLink lowMap t := by
  obtain ⟨fs, hfs, hboot⟩ := lowBoot_eq hs
  have hroom : ∀ s ∈ lowBoot, Along (Machine.step lowLink) (HasRoom lowLink) s lowFork := by
    decide +kernel
  exact ⟨fs, _, _, _, _, _, s, lowFork, hfs, hboot, hroom s hs, ht⟩

/-- The parent stores again before the child has its first turn. -/
def lowLate : List MachineEvent :=
  [.user fun c _ => (c, [(0xfffffffffffffff0, 9)]), .timer (lowTurn 1)]

/-- The child exits in its first turn, and its parent goes on. -/
def lowExit : List MachineEvent := lowFork ++ [.timer (lowTurn 1)]

def lowAfter : List MachineEvent :=
  [.user fun c _ => (c, [(0xfffffffffffffff0, 9)]), .timer (lowTurn 0)]

end Away
end Amaterasu
