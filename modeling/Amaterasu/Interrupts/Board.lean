import Amaterasu.Descriptors
import Amaterasu.Interrupts.Pic
import Amaterasu.Multitasking.Transparency

/-! The machine with the interrupt controllers. A timer interrupt that changes the process is ended
by the code that the next one goes on with: in `HPETHandler`, in `sleep` or in
`return_from_sys_fork`. -/

namespace Amaterasu
open Cpu Function Runs Machine InterruptController

def hpetInterruptNum : BitVec 8 := 32
def kbcInterruptNum : BitVec 8 := 33
def ataInterruptNum : BitVec 8 := 46

/-- The interrupt that an event begins with, if it is a device's. -/
def MachineEvent.vector : MachineEvent → Option (BitVec 8)
  | .timer _ => some hpetInterruptNum
  | .interrupt woken _ => some (if woken.isSome then ataInterruptNum else kbcInterruptNum)
  | _ => none

namespace Machine

/-- The calls of `SendEndOfInterrupt` from the end of `Schedule` to user mode. -/
def resumeEnds (l : Link) (s : Machine) (entered : State) (t : Turn) : List (BitVec 8) :=
  let r := schedule l.load t.junk₂ (s.process s.currentProcess) (s.process t.next) entered
  if r.2.rip = l.load then
    if s.inCall t.next then [hpetInterruptNum, syscallInterruptNum] else [hpetInterruptNum]
  else if r.2.rip = l.returnFromSysFork then [0x20]
  else []

/-- The calls of `SendEndOfInterrupt` in an event. -/
def ends (l : Link) (s : Machine) : MachineEvent → List (BitVec 8)
  | .user _ => []
  | .call .. | .exec .. | .fork .. => [syscallInterruptNum]
  | .interrupt woken _ => [if woken.isSome then ataInterruptNum else kbcInterruptNum]
  | .timer t =>
    if t.next = s.currentProcess then [hpetInterruptNum]
    else s.resumeEnds l (s.enterTimer l t.junk₁) t
  | .sleep t =>
    let r := s.setState s.currentProcess .sleep
    let r := { r with inCall := update r.inCall s.currentProcess true }
    r.resumeEnds l (s.enterCall l.sleepDepth t.junk₁) t
  | .exit t =>
    let r := s.setState s.currentProcess .zombie
    r.resumeEnds l (s.enterCall l.exitDepth t.junk₁) t

end Machine

structure Board where
  machine : Machine
  pic : Pair

inductive BoardEvent
  | request (a : Line)
  | kernel (e : MachineEvent)

/-- A device asks for its vector. -/
def BoardEvent.ask (interruptNum : BitVec 8) : List BoardEvent :=
  (lineOf interruptNum).toList.map .request

namespace Board

/-- An interrupt comes when the controllers give its vector to the processor. -/
def step (l : Link) (b : Board) : BoardEvent → Option Board
  | .request a => some { b with pic := b.pic.request a }
  | .kernel e =>
    let taken : Option Pair :=
      match e.vector with
      | none => some b.pic
      | some v => (b.pic.acknowledge.filter fun r => r.1 = v).map Prod.snd
    taken.bind fun pic => (b.machine.step l e).map fun m =>
      { machine := m, pic := (b.machine.ends l e).foldl sendEndOfInterrupt pic }

def HasRoom (l : Link) (b : Board) : BoardEvent → Prop
  | .request _ => True
  | .kernel e => b.machine.HasRoom l e

instance (l : Link) : DecidableRel (HasRoom l)
  | _, .request _ => inferInstanceAs (Decidable True)
  | b, .kernel e => inferInstanceAs (Decidable (b.machine.HasRoom l e))

/-- `picInit`, and the calls of `EnableInterruptOnPIC` in `KBCInit`, `HPETInit` and `SyscallInit`.
That in `ATAInit` is commented out. -/
def initialPic (p : Pair) : Pair :=
  [kbcInterruptNum, hpetInterruptNum, syscallInterruptNum].foldl enableInterruptOnPIC (picInit p)

/-- A machine that has been booted with the memory map `m`, after a run. -/
def Reachable (l : Link) (m : PageFrames) (b : Board) : Prop :=
  ∃ fs mem record entryPoint image suspended s p es, FrameSystem.boot m = some fs ∧
    boot fs mem record entryPoint image suspended = some s ∧
    Along (step l) (HasRoom l) ⟨s, initialPic p⟩ es ∧ run (step l) ⟨s, initialPic p⟩ es = some b

end Board

/-! ## Ends of interrupts -/

/-- The lines of the timer and the keyboard. -/
def openLine (a : Line) : Bool := vectorOf a = hpetInterruptNum || vectorOf a = kbcInterruptNum

/-- The two lines are open, and nothing is in service. -/
structure Quiet (p : Pair) (r : Requests) : Prop where
  programmed : Programmed p
  shows : p.Shows r
  serving : r.serving = none
  enabled : r.enabled = openLine

/-- `SendEndOfInterrupt` for the lines. -/
def ended (r : Requests) (n : BitVec 8) : Requests := (lineOf n).elim r r.finish

section Ends
variable {p q : Pair} {r : Requests} {a : Line} {n : BitVec 8} {ns : List (BitVec 8)}

theorem ended_enabled (r : Requests) (n : BitVec 8) :
    (ended r n).enabled = r.enabled ∧ (ended r n).latched = r.latched := by
  unfold ended
  cases lineOf n <;> exact ⟨rfl, rfl⟩

theorem ended_serving_none (h : r.serving = none) (n : BitVec 8) : (ended r n).serving = none := by
  unfold ended
  cases lineOf n with
  | none => exact h
  | some a =>
    show (if r.serving = some a then none else r.serving) = none
    rw [h, ite_self]

/-- Whatever is ended when nothing is served, nothing changes. -/
theorem Quiet.ends (h : Quiet p r) (ns : List (BitVec 8)) :
    ∃ r', Quiet (ns.foldl sendEndOfInterrupt p) r' ∧ r'.latched = r.latched := by
  induction ns generalizing p r with
  | nil => exact ⟨r, h, rfl⟩
  | cons n ns ih =>
    obtain ⟨henabled, hlatched⟩ := ended_enabled r n
    have hnext : Quiet (sendEndOfInterrupt p n) (ended r n) :=
      ⟨h.programmed.sendEndOfInterrupt n, shows_end h.shows n, ended_serving_none h.serving n,
        henabled.trans h.enabled⟩
    obtain ⟨r', hr', hlatched'⟩ := ih hnext
    exact ⟨r', hr', hlatched'.trans hlatched⟩

/-- What is served ends when the end of its own interrupt is among those that are sent. -/
theorem ends_serving (hp : Programmed p) (h : p.Shows r) (hserving : r.serving = some a)
    (henabled : r.enabled = openLine) (hmem : vectorOf a ∈ ns) :
    ∃ r', Quiet (ns.foldl sendEndOfInterrupt p) r' ∧ r'.latched = r.latched := by
  induction ns generalizing p r with
  | nil => cases hmem
  | cons n ns ih =>
    obtain ⟨henabled', hlatched⟩ := ended_enabled r n
    by_cases hn : n = vectorOf a
    · have hended : (ended r n).serving = none := by
        unfold ended
        rw [hn, lineOf_vectorOf]
        exact if_pos hserving
      have hquiet : Quiet (sendEndOfInterrupt p n) (ended r n) :=
        ⟨hp.sendEndOfInterrupt n, shows_end h n, hended, henabled'.trans henabled⟩
      obtain ⟨r', hr', hlatched'⟩ := hquiet.ends ns
      exact ⟨r', hr', hlatched'.trans hlatched⟩
    · have hmem' : vectorOf a ∈ ns := (List.mem_cons.mp hmem).resolve_left (Ne.symm hn)
      have hkept : (ended r n).serving = some a := by
        unfold ended
        cases hline : lineOf n with
        | none => exact hserving
        | some b =>
          have hne : r.serving ≠ some b := by
            rw [hserving]
            intro hab
            exact hn ((lineOf_eq_some_iff.mp hline).trans (congrArg _ (Option.some.inj hab).symm))
          exact (if_neg hne).trans hserving
      obtain ⟨r', hr', hlatched'⟩ := ih (hp.sendEndOfInterrupt n) (shows_end h n) hkept
        (henabled'.trans henabled) hmem'
      exact ⟨r', hr', hlatched'.trans hlatched⟩

theorem find?_open (latched : Line → Bool) :
    lines.find? (fun a => latched a && openLine a) =
      if latched (.master 0) then some (.master 0)
      else if latched (.master 1) then some (.master 1)
      else none := by
  obtain ⟨rest, hlines, hrest⟩ : ∃ rest, lines = Line.master 0 :: Line.master 1 :: rest ∧
      ∀ a ∈ rest, openLine a = false := ⟨lines.drop 2, by decide, by decide⟩
  have hnone : rest.find? (fun a => latched a && openLine a) = none := by
    refine List.find?_eq_none.mpr fun a ha => ?_
    rw [hrest a ha, Bool.and_false]
    exact Bool.false_ne_true
  have h0 : openLine (.master 0) = true := rfl
  have h1 : openLine (.master 1) = true := rfl
  rw [hlines, List.find?_cons, List.find?_cons, hnone, h0, h1, Bool.and_true, Bool.and_true]
  cases latched (.master 0) <;> cases latched (.master 1) <;> rfl

/-- What the processor is given. -/
theorem Quiet.acknowledge (h : Quiet p r) : p.acknowledge.map Prod.fst =
    if r.latched (.master 0) then some hpetInterruptNum
    else if r.latched (.master 1) then some kbcInterruptNum
    else none := by
  have hfind := find?_open r.latched
  have hack := h.shows.acknowledge h.serving
  rw [h.enabled, hfind] at hack
  split_ifs at hack ⊢ with h0 h1
  · rw [hack.1, h.programmed.vector_eq]
    rfl
  · rw [hack.1, h.programmed.vector_eq]
    rfl
  · rw [hack]
    rfl

/-- An interrupt is taken, and the code that is run for it ends it. -/
theorem Quiet.taken (h : Quiet p r) {v : BitVec 8} (hq : p.acknowledge = some (v, q))
    (hmem : v ∈ ns) : ∃ a r', v = vectorOf a ∧ Quiet (ns.foldl sendEndOfInterrupt q) r' ∧
      r'.latched = update r.latched a false := by
  have hack := h.shows.acknowledge h.serving
  cases hline : lines.find? fun a => r.latched a && r.enabled a with
  | none =>
    rw [hline] at hack
    cases hack.symm.trans hq
  | some a =>
    rw [hline] at hack
    obtain ⟨hvector, hshows⟩ := hack
    obtain ⟨rfl, rfl⟩ := Prod.mk.inj (Option.some.inj (hq.symm.trans hvector))
    have htake : r.take.serving = some a ∧ r.take.enabled = r.enabled ∧
        r.take.latched = update r.latched a false := by
      unfold Requests.take
      rw [h.serving, hline]
      exact ⟨rfl, rfl, rfl⟩
    rw [h.programmed.vector_eq] at hmem ⊢
    obtain ⟨r', hr', hlatched⟩ := ends_serving (h.programmed.accept a) hshows htake.1
      (htake.2.1.trans h.enabled) hmem
    exact ⟨a, r', rfl, hr', hlatched.trans htake.2.2⟩

theorem initialPic_quiet (p : Pair) : ∃ r, Quiet (Board.initialPic p) r := by
  let r := [kbcInterruptNum, hpetInterruptNum, syscallInterruptNum].foldl
    (fun r n => (lineOf n).elim r r.enable) noRequests
  have h0 := picInit_programmed p
  have h1 := h0.enableInterruptOnPIC kbcInterruptNum
  have h2 := h1.enableInterruptOnPIC hpetInterruptNum
  have hs1 := shows_enable h0 (picInit_shows p) kbcInterruptNum
  have hs2 := shows_enable h1 hs1 hpetInterruptNum
  have hs3 := shows_enable h2 hs2 syscallInterruptNum
  refine ⟨r, h2.enableInterruptOnPIC syscallInterruptNum, hs3, rfl, ?_⟩
  funext a
  cases a <;> decide +revert

end Ends

/-! ## Runs -/

namespace Board
variable {l : Link} {m : PageFrames} {b c : Board} {x : Tasks} {es : List BoardEvent}

def events (es : List BoardEvent) : List MachineEvent :=
  es.filterMap fun
    | .request _ => none
    | .kernel e => some e

theorem step_kernel {e : MachineEvent} (h : c ∈ b.step l (.kernel e)) :
    c.machine ∈ b.machine.step l e ∧
      ∃ pic, c.pic = (b.machine.ends l e).foldl sendEndOfInterrupt pic ∧
        match e.vector with
        | none => pic = b.pic
        | some v => b.pic.acknowledge = some (v, pic) := by
  obtain ⟨pic, hpic, h⟩ := Option.bind_eq_some_iff.mp h
  obtain ⟨m, hm, rfl⟩ := Option.map_eq_some_iff.mp h
  refine ⟨hm, pic, rfl, ?_⟩
  cases hv : e.vector with
  | none =>
    rw [hv] at hpic
    exact (Option.some.inj hpic).symm
  | some v =>
    rw [hv] at hpic
    obtain ⟨r, hr, rfl⟩ := Option.map_eq_some_iff.mp hpic
    obtain ⟨hack, hr⟩ := Option.filter_eq_some_iff.mp hr
    exact hack.trans (congrArg some (Prod.ext (of_decide_eq_true hr) rfl))

/-- The machine of a board makes the steps of its own. -/
theorem machine_run (hroom : Along (step l) (HasRoom l) b es) (hr : run (step l) b es = some c) :
    Along (Machine.step l) (Machine.HasRoom l) b.machine (events es) ∧
      run (Machine.step l) b.machine (events es) = some c.machine := by
  induction es generalizing b with
  | nil =>
    obtain rfl := Option.some.inj hr
    exact ⟨trivial, rfl⟩
  | cons e es ih =>
    obtain ⟨d, hd, hdc⟩ := run_cons.mp hr
    obtain ⟨halong, hrun⟩ := ih (hroom.2 d hd) hdc
    cases e with
    | request a =>
      obtain rfl := Option.some.inj hd
      exact ⟨halong, hrun⟩
    | kernel e =>
      obtain ⟨hm, -⟩ := step_kernel hd
      refine ⟨⟨hroom.1, fun t ht => ?_⟩, run_cons.mpr ⟨_, hm, hrun⟩⟩
      exact Option.mem_unique ht hm ▸ halong

theorem Reachable.machine (h : Reachable l m b) : Machine.Reachable l m b.machine := by
  obtain ⟨fs, mem, record, entryPoint, image, suspended, s, p, es, hfs, hs, hroom, hr⟩ := h
  obtain ⟨halong, hrun⟩ := machine_run hroom hr
  exact ⟨fs, mem, record, entryPoint, image, suspended, s, _, hfs, hs, halong, hrun⟩

theorem Reachable.step {e : BoardEvent} (h : Reachable l m b) (hok : HasRoom l b e)
    (hc : b.step l e = some c) : Reachable l m c := by
  obtain ⟨fs, mem, record, entryPoint, image, suspended, s, p, es, hfs, hs, hroom, hr⟩ := h
  obtain ⟨halong, hrun⟩ := hroom.concat hr hok hc
  exact ⟨fs, mem, record, entryPoint, image, suspended, s, p, _, hfs, hs, halong, hrun⟩

end Board

section Runs
variable {l : Link} {m : PageFrames} {s : Machine} {b c : Board} {x : Tasks}
  {es : List BoardEvent} {entered : State} {t : Turn}

/-- Wherever the next process goes on, it ends the timer's interrupt. -/
theorem hpet_mem_resumeEnds {mem : ByteMemory} {saved : State} {inCall : Bool} {ctx : Context}
    (hs : 16 ≤ entered.sp) (hparked : Parked l mem (s.process t.next) saved inCall ctx) :
    hpetInterruptNum ∈ s.resumeEnds l entered t := by
  have hroom := hparked.room.1
  obtain ⟨hrip, -⟩ := schedule_spec l.load t.junk₂ (s.process s.currentProcess)
    (s.process t.next) hs (by omega)
  unfold resumeEnds
  dsimp only at hrip ⊢
  rw [hrip]
  cases hparked with
  | suspended hload =>
    rw [if_pos hload]
    split_ifs <;> exact List.mem_cons_self
  | forked hret =>
    rw [hret, if_neg l.distinct, if_pos rfl]
    exact List.mem_singleton_self _

/-- The code that is run for an interrupt sends its end. -/
theorem Represents.vector_mem_ends (h : Represents l m s x) {e : MachineEvent}
    (hroom : s.HasRoom l e) {u : Machine} (hu : u ∈ s.step l e) {v : BitVec 8}
    (hv : e.vector = some v) : v ∈ s.ends l e := by
  cases e with
  | interrupt woken junk =>
    obtain rfl := Option.some.inj hv
    exact List.mem_singleton_self _
  | timer turn =>
    obtain rfl := Option.some.inj hv
    have hends : s.ends l (.timer turn) = if turn.next = s.currentProcess then [hpetInterruptNum]
        else s.resumeEnds l (s.enterTimer l turn.junk₁) turn := rfl
    rw [hends]
    by_cases hnext : turn.next = s.currentProcess
    · rw [if_pos hnext]
      exact List.mem_singleton_self _
    · rw [if_neg hnext]
      have hrun : s.Runnable turn.next := by
        by_contra hrun
        have hnone : s.step l (.timer turn) = none := if_neg hrun
        rw [hnone] at hu
        cases hu
      have he : Entered (s.kernelStack s.currentProcess) l.timerDepth s.cpu
          (s.enterTimer l turn.junk₁) := saveAllRegisters_entered turn.junk₁ hroom h.top_le
      have hsp := he.room
      have hzombie : (s.process turn.next).state ≠ .zombie := by
        rw [hrun.2]
        decide
      exact hpet_mem_resumeEnds (by omega) (h.parked turn.next hrun.1 hnext hzombie)
  | _ => cases hv

/-- What the kernel does leaves the lines quiet, without the request that it has taken. -/
theorem Represents.kernel_quiet (hx : Represents l m b.machine x)
    (hlow : m.totalPageNumber ≤ 5 * 2 ^ 18) {r : Requests} (hquiet : Quiet b.pic r)
    {e : MachineEvent} (hok : b.machine.HasRoom l e) (hc : b.step l (.kernel e) = some c) :
    ∃ y, Represents l m c.machine y ∧ ∃ r', Quiet c.pic r' ∧
      match e.vector with
      | none => r'.latched = r.latched
      | some v => ∃ a, v = vectorOf a ∧ r'.latched = update r.latched a false := by
  obtain ⟨hmachine, pic, hpic, hvector⟩ := Board.step_kernel hc
  obtain ⟨y, -, hy⟩ := hx.step (hlow.trans (by decide)) e hok _ hmachine
  refine ⟨y, hy, ?_⟩
  rw [hpic]
  cases hv : e.vector with
  | none =>
    rw [hv] at hvector
    rw [hvector]
    exact hquiet.ends (b.machine.ends l e)
  | some v =>
    rw [hv] at hvector
    obtain ⟨a, r', ha, hr', hlatched⟩ :=
      hquiet.taken hvector (hx.vector_mem_ends hok hmachine hv)
    exact ⟨r', hr', a, ha, hlatched⟩

theorem Board.Reachable.quiet (hm : m.Mapped) (hlow : m.totalPageNumber ≤ 5 * 2 ^ 18)
    (h : Board.Reachable l m b) : ∃ r, Quiet b.pic r := by
  obtain ⟨fs, mem, record, entryPoint, image, suspended, s, p, es, hfs, hs, hroom, hr⟩ := h
  let I (b : Board) : Prop := (∃ x, Represents l m b.machine x) ∧ ∃ r, Quiet b.pic r
  have hstep : ∀ b e c, I b → Board.HasRoom l b e → Board.step l b e = some c → I c := by
    rintro b e c ⟨⟨x, hx⟩, r, hquiet⟩ hok hc
    cases e with
    | request a =>
      obtain rfl := Option.some.inj hc
      exact ⟨⟨x, hx⟩, r.request a, hquiet.programmed.request a, hquiet.shows.request a,
        hquiet.serving, hquiet.enabled⟩
    | kernel e =>
      obtain ⟨y, hy, r', hr', -⟩ := hx.kernel_quiet hlow hquiet hok hc
      exact ⟨⟨y, hy⟩, r', hr'⟩
  have hboot : Machine.Reachable l m s :=
    ⟨fs, mem, record, entryPoint, image, suspended, s, [], hfs, hs, trivial, rfl⟩
  have hI : I b := Along.invariant (I := I) hstep
    ⟨hboot.represents hm hlow, initialPic_quiet p⟩ hroom hr
  exact hI.2

/-- Between the events nothing is in service, whichever process has gone on. The timer comes before
the keyboard, and the disk's interrupt never comes. -/
theorem board_quiet (hm : m.Mapped) (hlow : m.totalPageNumber ≤ 5 * 2 ^ 18)
    (h : Board.Reachable l m b) : b.pic.master.isr = 0 ∧ b.pic.slave.isr = 0 ∧
      b.pic.acknowledge.map Prod.fst =
        if has b.pic.master.irr 0 then some hpetInterruptNum
        else if has b.pic.master.irr 1 then some kbcInterruptNum
        else none := by
  obtain ⟨r, hr⟩ := h.quiet hm hlow
  obtain ⟨hmaster, hslave⟩ : b.pic.Serves none := hr.serving ▸ hr.shows.serves
  have h0 : has b.pic.master.irr 0 = r.latched (.master 0) :=
    hr.shows.latched (.master 0) (by decide)
  have h1 : has b.pic.master.irr 1 = r.latched (.master 1) :=
    hr.shows.latched (.master 1) (by decide)
  rw [h0, h1]
  exact ⟨hmaster, hslave, hr.acknowledge⟩

def offChip : Chip := ⟨0, 0, 0, 0, 0, false, false, false, .ready⟩

def lowBoard : Option Board := lowBoot.map fun s => ⟨s, Board.initialPic ⟨offChip, offChip⟩⟩

theorem lowBoard_reachable {b₀ : Board} (hb : lowBoard = some b₀)
    (hroom : Along (Board.step lowLink) (Board.HasRoom lowLink) b₀ es)
    (hr : run (Board.step lowLink) b₀ es = some b) : Board.Reachable lowLink lowMap b := by
  obtain ⟨s, hs, rfl⟩ := Option.map_eq_some_iff.mp hb
  obtain ⟨fs, hfs, hboot⟩ := lowBoot_eq hs
  exact ⟨fs, _, _, _, _, _, s, _, es, hfs, hboot, hroom, hr⟩

/-- The first process forks. The keyboard, the timer and the disk ask, and the child has a turn. -/
def boardTurn : List BoardEvent :=
  [.kernel (.fork 1 zeroState zeroState)] ++ BoardEvent.ask kbcInterruptNum ++
    BoardEvent.ask hpetInterruptNum ++ BoardEvent.ask ataInterruptNum ++
    [.kernel (.timer (lowTurn 1))]

theorem boardTurn_reachable : ∃ b, Board.Reachable lowLink lowMap b ∧
    b.machine.currentProcess = 1 ∧ has b.pic.master.irr 0 = false ∧
    has b.pic.master.irr 1 = true := by
  have hsome : (lowBoard.bind fun b => run (Board.step lowLink) b boardTurn).isSome = true := by
    decide +kernel
  have hroom : ∀ b ∈ lowBoard, Along (Board.step lowLink) (Board.HasRoom lowLink) b boardTurn := by
    decide +kernel
  have hafter : ∀ b ∈ lowBoard.bind fun b => run (Board.step lowLink) b boardTurn,
      b.machine.currentProcess = 1 ∧ has b.pic.master.irr 0 = false ∧
        has b.pic.master.irr 1 = true := by decide +kernel
  obtain ⟨b, hb⟩ := Option.isSome_iff_exists.mp hsome
  obtain ⟨b₀, hb₀, hr⟩ := Option.bind_eq_some_iff.mp hb
  exact ⟨b, lowBoard_reachable hb₀ (hroom b₀ hb₀) hr, hafter b hb⟩

theorem board_quiet_turn : ∃ b : Board, b.machine.currentProcess = 1 ∧ b.pic.master.isr = 0 ∧
    b.pic.slave.isr = 0 ∧ b.pic.acknowledge.map Prod.fst = some kbcInterruptNum := by
  obtain ⟨b, hb, hcur, h0, h1⟩ := boardTurn_reachable
  obtain ⟨hmaster, hslave, hack⟩ := board_quiet lowMap_mapped (by decide) hb
  rw [h0, h1] at hack
  exact ⟨b, hcur, hmaster, hslave, hack⟩

/-- Who sleeps stays asleep, unless it is woken. -/
theorem Tasks.step_asleep {x y : Tasks} {e : MachineEvent} {p : Nat} (hy : y ∈ x.step e)
    (hp : p ∈ x.created) (hsleep : (x.task p).state = .sleep) (hcur : x.current ≠ p)
    (hwake : ∀ junk, e ≠ .interrupt (some p) junk) :
    p ∈ y.created ∧ (y.task p).state = .sleep ∧ y.current ≠ p := by
  have hset : ∀ t, (x.set x.current t).task p = x.task p := fun t =>
    update_of_ne (Ne.symm hcur) _ _
  have hturn : ∀ z : Tasks, z.task p = x.task p → ∀ turn, z.Runnable turn.next →
      (z.take turn).task p = x.task p ∧ turn.next ≠ p := by
    intro z hz turn hrun
    have hne : turn.next ≠ p := by
      rintro rfl
      rw [← hz, hrun.2] at hsleep
      cases hsleep
    exact ⟨(z.take_task_of_ne turn (Ne.symm hne)).trans hz, hne⟩
  cases step_change hy with
  | own t he => exact ⟨hp, (hset t).symm ▸ hsleep, hcur⟩
  | fork child t t' he hchild =>
    have hne : p ≠ child := fun e => hchild (e ▸ hp)
    have hkept : ((x.set x.current t).set child t').task p = x.task p :=
      (update_of_ne hne _ _).trans (hset t)
    exact ⟨List.mem_cons_of_mem _ hp, hkept.symm ▸ hsleep, hcur⟩
  | same => exact ⟨hp, hsleep, hcur⟩
  | wake q t junk he hq =>
    have hne : p ≠ q := by
      rintro rfl
      exact hwake junk he
    have hkept : (x.set q t).task p = x.task p := update_of_ne hne _ _
    exact ⟨hp, hkept.symm ▸ hsleep, hcur⟩
  | take turn hrun =>
    obtain ⟨hkept, hne⟩ := hturn x rfl turn hrun
    exact ⟨by rwa [take_created], hkept.symm ▸ hsleep, by rwa [take_current]⟩
  | leave turn t he ht hrun =>
    obtain ⟨hkept, hne⟩ := hturn _ (hset t) turn hrun
    exact ⟨by rwa [take_created], hkept.symm ▸ hsleep, by rwa [take_current]⟩

/-- A process that sleeps until the disk has answered never runs again: `ATAInit` leaves the disk's
line masked. -/
theorem sleeper_starves (hm : m.Mapped) (hlow : m.totalPageNumber ≤ 5 * 2 ^ 18)
    (h : Board.Reachable l m b) {p : Nat} (hp : p ∈ b.machine.created)
    (hsleep : (b.machine.process p).state = .sleep)
    (hroom : Along (Board.step l) (Board.HasRoom l) b es)
    (hr : run (Board.step l) b es = some c) :
    (c.machine.process p).state = .sleep ∧ c.machine.currentProcess ≠ p := by
  obtain ⟨x, hx⟩ := h.machine.represents hm hlow
  let I (b : Board) : Prop := (∃ x, Represents l m b.machine x ∧ p ∈ x.created ∧
    (x.task p).state = .sleep ∧ x.current ≠ p) ∧ Board.Reachable l m b
  have hstep : ∀ b e c, I b → Board.HasRoom l b e → Board.step l b e = some c → I c := by
    rintro b e c ⟨⟨x, hx, hp, hsleep, hcur⟩, hreach⟩ hok hc
    refine ⟨?_, hreach.step hok hc⟩
    cases e with
    | request a =>
      obtain rfl := Option.some.inj hc
      exact ⟨x, hx, hp, hsleep, hcur⟩
    | kernel e =>
      obtain ⟨hmachine, pic, -, hvector⟩ := Board.step_kernel hc
      obtain ⟨y, hy, hcy⟩ := hx.step (hlow.trans (by decide)) e hok _ hmachine
      refine ⟨y, hcy, Tasks.step_asleep hy hp hsleep hcur ?_⟩
      -- the disk's vector is not what the controllers give
      rintro junk rfl
      have hack := (board_quiet hm hlow hreach).2.2
      rw [show b.pic.acknowledge = some (ataInterruptNum, pic) from hvector] at hack
      split_ifs at hack <;> cases hack
  have hcur : x.current ≠ p := by
    intro hcur
    have hrun := hx.runnable.2
    rw [← hx.current, hcur, hsleep] at hrun
    cases hrun
  have hI : I c := Along.invariant (I := I) hstep
    ⟨⟨x, hx, hx.created ▸ hp, (hx.resident p hp).state ▸ hsleep, hcur⟩, h⟩ hroom hr
  obtain ⟨⟨y, hy, hpy, hsleepy, hcury⟩, -⟩ := hI
  exact ⟨(hy.resident p (hy.created ▸ hpy)).state.trans hsleepy, hy.current ▸ hcury⟩

/-- The parent reads from the disk, and the child goes on. -/
def boardSleep : List BoardEvent :=
  [.kernel (.fork 1 zeroState zeroState), .kernel (.sleep (lowTurn 1))]

/-- The disk answers, and the timer asks. -/
def boardAnswer : List BoardEvent :=
  BoardEvent.ask ataInterruptNum ++ BoardEvent.ask hpetInterruptNum ++
    [.kernel (.timer (lowTurn 1))]

theorem sleeper_starves_reader : ∃ b c : Board, (b.machine.process 0).state = .sleep ∧
    run (Board.step lowLink) b boardAnswer = some c ∧ (c.machine.process 0).state = .sleep ∧
    c.machine.currentProcess ≠ 0 := by
  have hsome : (lowBoard.bind fun b => run (Board.step lowLink) b boardSleep).isSome = true := by
    decide +kernel
  have hroom : ∀ b ∈ lowBoard,
      Along (Board.step lowLink) (Board.HasRoom lowLink) b boardSleep := by decide +kernel
  have hafter : ∀ b ∈ lowBoard.bind fun b => run (Board.step lowLink) b boardSleep,
      0 ∈ b.machine.created ∧ (b.machine.process 0).state = .sleep ∧
        Along (Board.step lowLink) (Board.HasRoom lowLink) b boardAnswer ∧
        (run (Board.step lowLink) b boardAnswer).isSome = true := by decide +kernel
  obtain ⟨b, hb⟩ := Option.isSome_iff_exists.mp hsome
  obtain ⟨hmem, hsleep, hrooms, hend⟩ := hafter b hb
  obtain ⟨b₀, hb₀, hr⟩ := Option.bind_eq_some_iff.mp hb
  obtain ⟨c, hc⟩ := Option.isSome_iff_exists.mp hend
  obtain ⟨hstate, hcur⟩ := sleeper_starves lowMap_mapped (by decide)
    (lowBoard_reachable hb₀ (hroom b₀ hb₀) hr) hmem hsleep hrooms hc
  exact ⟨b, c, hsleep, hc, hstate, hcur⟩

end Runs

/-! ## Gates -/

def pageFaultExcpNum : BitVec 8 := 14

/-- The addresses that `start_kernel` has put into the table. -/
structure Handlers where
  default : BitVec 64
  doubleFault : BitVec 64
  generalProtection : BitVec 64
  kbc : BitVec 64
  hpet : BitVec 64
  syscall : BitVec 64
  ata : BitVec 64
  pageFault : BitVec 64

/-- `KBCInit`, `HPETInit`, `SyscallInit`, `ATAInit` and `PagingInit`. -/
def Handlers.deviceCalls (h : Handlers) : List GateCall :=
  [⟨kbcInterruptNum, h.kbc, 1⟩, ⟨hpetInterruptNum, h.hpet, 1⟩, ⟨syscallInterruptNum, h.syscall, 1⟩,
    ⟨ataInterruptNum, h.ata, 1⟩, ⟨pageFaultExcpNum, h.pageFault, 1⟩]

def Handlers.calls (h : Handlers) : List GateCall :=
  idtInitCalls h.default h.doubleFault h.generalProtection ++ h.deviceCalls

section Gates
variable {l : Link} {m : PageFrames} {b : Board} {q : Pair} {h : Handlers} {c : GateCall}
  {v : BitVec 8}

/-- The call for a vector after `idtInit`. -/
def Handlers.device (h : Handlers) (vector : BitVec 8) : Option GateCall :=
  if vector = kbcInterruptNum then some ⟨vector, h.kbc, 1⟩
  else if vector = hpetInterruptNum then some ⟨vector, h.hpet, 1⟩
  else if vector = syscallInterruptNum then some ⟨vector, h.syscall, 1⟩
  else if vector = ataInterruptNum then some ⟨vector, h.ata, 1⟩
  else if vector = pageFaultExcpNum then some ⟨vector, h.pageFault, 1⟩
  else none

theorem getLast?_deviceCalls (h : Handlers) (vector : BitVec 8) :
    (h.deviceCalls.filter fun c => c.interruptNumber = vector).getLast? = h.device vector := by
  unfold Handlers.device
  split_ifs with h1 h2 h3 h4 h5
  · subst h1
    rfl
  · subst h2
    rfl
  · subst h3
    rfl
  · subst h4
    rfl
  · subst h5
    rfl
  · have hnone : h.deviceCalls.filter (fun c => c.interruptNumber = vector) = [] := by
      simp [Handlers.deviceCalls, Ne.symm h1, Ne.symm h2, Ne.symm h3, Ne.symm h4, Ne.symm h5]
    rw [hnone]
    rfl

/-- Of a gate that is set after `idtInit`. -/
theorem device_gate (idt : BitVec 8 → Gate) (hc : h.device v = some c) :
    Gate.LeftBy (idt v) (h.calls.foldl setInterruptDescriptor idt v) v (some c) := by
  have hleft := leftBy_foldl idt h.calls v
  unfold Handlers.calls at hleft ⊢
  rwa [List.filter_append, List.getLast?_append, getLast?_deviceCalls, hc] at hleft

theorem gate_dpl (idt : BitVec 8 → Gate) (h : Handlers) (v : BitVec 8) :
    (h.calls.foldl setInterruptDescriptor idt v).dpl =
      if v = syscallInterruptNum then 3 else 0 := by
  have hleft := leftBy_foldl idt h.calls v
  unfold Handlers.calls at hleft ⊢
  rw [List.filter_append, List.getLast?_append, getLast?_idtInitCalls] at hleft
  -- `idtInit` sets every gate, so there is a last call
  obtain ⟨c, hc⟩ : ∃ c, ((h.deviceCalls.filter fun c => c.interruptNumber = v).getLast?).or
      (if v = generalProtectionFaultExcpNum then some ⟨v, h.generalProtection, 1⟩
        else if v = doubleFaultExcpNum then some ⟨v, h.doubleFault, 1⟩
        else some ⟨v, h.default, 0⟩) = some c := by
    apply Option.isSome_iff_exists.mp
    rw [Option.isSome_or]
    split_ifs <;> simp
  rw [hc] at hleft
  exact hleft.2.2

/-- Once `start_kernel` has enabled interrupts, every vector that the controllers give to the
processor has a present gate to its handler, and of all vectors user code can only use that of
system calls. -/
theorem boot_gates (hm : m.Mapped) (hlow : m.totalPageNumber ≤ 5 * 2 ^ 18)
    (hb : Board.Reachable l m b) (idt : BitVec 8 → Gate) (h : Handlers) :
    let gate := h.calls.foldl setInterruptDescriptor idt
    (∀ v q, b.pic.acknowledge = some (v, q) → (gate v).present = 1 ∧
      (gate v).offset = if v = hpetInterruptNum then h.hpet else h.kbc) ∧
    ∀ v, (gate v).present = 1 ∧ (gate v).dpl = 3 ↔ v = syscallInterruptNum := by
  intro gate
  refine ⟨fun v q hack => ?_, fun v => ?_⟩
  · have hquiet := (board_quiet hm hlow hb).2.2
    rw [hack] at hquiet
    have hv : v = hpetInterruptNum ∨ v = kbcInterruptNum := by
      split_ifs at hquiet
      · exact .inl (Option.some.inj hquiet)
      · exact .inr (Option.some.inj hquiet)
      · cases hquiet
    rcases hv with rfl | rfl
    · obtain ⟨hoffset, hpresent, -⟩ := device_gate idt (h := h) (v := hpetInterruptNum) rfl
      exact ⟨hpresent, hoffset⟩
    · obtain ⟨hoffset, hpresent, -⟩ := device_gate idt (h := h) (v := kbcInterruptNum) rfl
      exact ⟨hpresent, hoffset⟩
  · have hdpl : (gate v).dpl = _ := gate_dpl idt h v
    rw [hdpl]
    constructor
    · rintro ⟨-, hv⟩
      by_contra hne
      rw [if_neg hne] at hv
      exact absurd hv (by decide)
    · rintro rfl
      exact ⟨(device_gate idt (h := h) (v := syscallInterruptNum) rfl).2.1, if_pos rfl⟩

/-- A table that is empty, and handlers with different addresses. -/
def lowHandlers : Handlers := ⟨1, 2, 3, 4, 5, 6, 7, 8⟩

theorem boot_gates_turn : ∃ (b : Board) (v : BitVec 8) (q : Pair),
    b.pic.acknowledge = some (v, q) ∧
      (lowHandlers.calls.foldl setInterruptDescriptor (fun _ => ⟨0, 0⟩) v).present = 1 := by
  obtain ⟨b, hb, -, h0, h1⟩ := boardTurn_reachable
  have hack := (board_quiet lowMap_mapped (by decide) hb).2.2
  rw [h0, h1] at hack
  obtain ⟨⟨v, q⟩, hvq, -⟩ := Option.map_eq_some_iff.mp hack
  obtain ⟨hgate, -⟩ := boot_gates lowMap_mapped (by decide) hb (fun _ => ⟨0, 0⟩) lowHandlers
  exact ⟨b, v, q, hvq, (hgate v q hvq).1⟩

end Gates
end Amaterasu
