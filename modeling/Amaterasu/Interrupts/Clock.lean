import Amaterasu.Interrupts.Board
import Amaterasu.Interrupts.Timer

/-! The machine and the interrupt controllers, with a timer that asks when its registers say so. -/

namespace Amaterasu
open Function Runs Machine InterruptController

/-- A timer interrupt is taken. -/
def BoardEvent.takesTimer : BoardEvent → Bool
  | .kernel (.timer _) => true
  | _ => false

/-- A request on the timer's line, to which nothing else is connected. -/
def BoardEvent.asksTimer : BoardEvent → Bool
  | .request a => vectorOf a = hpetInterruptNum
  | .kernel _ => false

structure Clocked where
  board : Board
  platform : Platform

/-- `tick` is a period of the timer's clock. -/
inductive ClockedEvent
  | tick
  | schedulerStart
  | board (e : BoardEvent)

namespace ClockedEvent

def isTick : ClockedEvent → Bool
  | .tick => true
  | _ => false

def isStart : ClockedEvent → Bool
  | .schedulerStart => true
  | _ => false

def takesTimer : ClockedEvent → Bool
  | .board e => e.takesTimer
  | _ => false

end ClockedEvent

namespace Clocked

def tick (c : Clocked) : Clocked where
  board := if c.platform.device.raises then
      { c.board with
        pic := (lineOf hpetInterruptNum).elim c.board.pic c.board.pic.request }
    else c.board
  platform := { c.platform with device := c.platform.device.tick }

def step (l : Link) (c : Clocked) : ClockedEvent → Option Clocked
  | .tick => some c.tick
  | .schedulerStart => c.platform.schedulerStart.map fun p => { c with platform := p }
  | .board e => if e.asksTimer then none else (c.board.step l e).map fun b => { c with board := b }

def HasRoom (l : Link) (c : Clocked) : ClockedEvent → Prop
  | .board e => c.board.HasRoom l e
  | _ => True

/-- `picInit`, `KBCInit`, the requests that come until `HPETInit` has stopped the counter, and then
the calls of `EnableInterruptOnPIC` in `HPETInit` and `SyscallInit`. -/
def initialPic (p : Pair) (early : List Line) : Pair :=
  [hpetInterruptNum, syscallInterruptNum].foldl enableInterruptOnPIC
    (early.foldl Pair.request (enableInterruptOnPIC (picInit p) kbcInterruptNum))

/-- The machine after `start_kernel`, with `early` requests. -/
def Booted (m : PageFrames) (p : Platform) (rsdtAddress : BitVec 64) (early : List Line)
    (c : Clocked) : Prop :=
  ∃ fs mem record entryPoint image suspended s q, FrameSystem.boot m = some fs ∧
    boot fs mem record entryPoint image suspended = some s ∧
    c = ⟨⟨s, initialPic q early⟩, (p.acpiInit rsdtAddress).hpetInit⟩

/-- What the controllers give to the processor. -/
def given (c : Clocked) : Option (BitVec 8) := c.board.pic.acknowledge.map Prod.fst

end Clocked

/-! ## Histories -/

/-- No timer interrupt is taken. -/
def Untaken (es : List ClockedEvent) : Prop := ∀ e ∈ es, e.takesTimer = false

def ticks (es : List ClockedEvent) : Nat := es.countP ClockedEvent.isTick

/-- A multiple of the period has passed, and no timer interrupt was taken since then. -/
def DueSince (period t : Nat) (es : List ClockedEvent) : Prop :=
  ∃ before after, es = before ++ .tick :: after ∧ period ∣ t + ticks before + 1 ∧ Untaken after

section Histories
variable {period t : Nat} {e : ClockedEvent} {es : List ClockedEvent}

theorem untaken_cons : Untaken (e :: es) ↔ e.takesTimer = false ∧ Untaken es := List.forall_mem_cons

theorem dueSince_cons : DueSince period t (e :: es) ↔
    e.isTick = true ∧ period ∣ t + 1 ∧ Untaken es ∨
      DueSince period (if e.isTick then t + 1 else t) es := by
  have hticks : ∀ before, t + ticks (e :: before) + 1 =
      (if e.isTick then t + 1 else t) + ticks before + 1 := by
    intro before
    unfold ticks
    rw [List.countP_cons]
    split_ifs <;> omega
  constructor
  · rintro ⟨before, after, heq, hdvd, hafter⟩
    cases before with
    | nil =>
      obtain ⟨rfl, rfl⟩ := List.cons.inj heq
      exact Or.inl ⟨rfl, hdvd, hafter⟩
    | cons e' before =>
      obtain ⟨rfl, rfl⟩ := List.cons.inj heq
      exact Or.inr ⟨before, after, rfl, hticks before ▸ hdvd, hafter⟩
  · rintro (⟨htick, hdvd, hafter⟩ | ⟨before, after, rfl, hdvd, hafter⟩)
    · cases e with
      | tick => exact ⟨[], es, rfl, hdvd, hafter⟩
      | _ => cases htick
    · exact ⟨e :: before, after, rfl, (hticks before).symm ▸ hdvd, hafter⟩

end Histories

/-! ## Runs -/

/-- The timer's request waits in the controllers exactly if `due`. -/
def Board.Waits (l : Link) (m : PageFrames) (b : Board) (due : Prop) : Prop :=
  (∃ x, Represents l m b.machine x) ∧
    ∃ r, Quiet b.pic r ∧ ∀ a, vectorOf a = hpetInterruptNum → (r.latched a = true ↔ due)

section Runs
variable {l : Link} {m : PageFrames} {b b' : Board} {c d : Clocked} {due : Prop}
  {es : List ClockedEvent} {period t : Nat}

theorem Board.Waits.request (h : b.Waits l m due) :
    Board.Waits l m { b with pic := (lineOf hpetInterruptNum).elim b.pic b.pic.request } True := by
  obtain ⟨hx, r, hquiet, -⟩ := h
  have hline : lineOf hpetInterruptNum = some (.master 0) := by decide
  have hrequest : Quiet (b.pic.request (.master 0)) (r.request (.master 0)) :=
    ⟨hquiet.programmed.request _, hquiet.shows.request _, hquiet.serving, hquiet.enabled⟩
  rw [hline]
  refine ⟨hx, _, hrequest, fun a ha => iff_true_intro ?_⟩
  obtain rfl : a = .master 0 := vectorOf_injective ha
  have hself : update r.latched (.master 0) true (.master 0) = true := update_self _ _ _
  exact hself

theorem Board.Waits.step (h : b.Waits l m due) (hlow : m.totalPageNumber ≤ 5 * 2 ^ 18)
    {e : BoardEvent} (hok : b.HasRoom l e) (hb : b.step l e = some b')
    (hother : e.asksTimer = false) : b'.Waits l m (due ∧ e.takesTimer = false) := by
  obtain ⟨⟨x, hx⟩, r, hquiet, hdue⟩ := h
  cases e with
  | request a =>
    obtain rfl := Option.some.inj hb
    refine ⟨⟨x, hx⟩, r.request a, ⟨hquiet.programmed.request a, hquiet.shows.request a,
      hquiet.serving, hquiet.enabled⟩, fun a' ha' => ?_⟩
    have hne : a' ≠ a := by
      rintro rfl
      exact absurd ha' (of_decide_eq_false hother)
    have hkept : (r.request a).latched a' = r.latched a' := update_of_ne hne _ _
    rw [hkept, hdue a' ha']
    exact (and_iff_left rfl).symm
  | kernel e =>
    obtain ⟨y, hy, r', hr', hlatched⟩ := hx.kernel_quiet hlow hquiet hok hb
    refine ⟨⟨y, hy⟩, r', hr', fun a ha => ?_⟩
    cases hv : e.vector with
    | none =>
      have hnot : BoardEvent.takesTimer (.kernel e) = false := by
        cases e <;> first | rfl | cases hv
      rw [hv] at hlatched
      rw [hlatched, hdue a ha]
      exact (and_iff_left hnot).symm
    | some v =>
      rw [hv] at hlatched
      obtain ⟨taken, rfl, hlatched⟩ := hlatched
      have htimer : BoardEvent.takesTimer (.kernel e) = false ↔ a ≠ taken := by
        cases e with
        | timer turn =>
          have htaken : a = taken := vectorOf_injective (ha.trans (Option.some.inj hv))
          exact ⟨fun h => Bool.noConfusion h, fun h => absurd htaken h⟩
        | interrupt woken junk =>
          refine ⟨fun _ => ?_, fun _ => rfl⟩
          rintro rfl
          have hvector := Option.some.inj hv
          rw [ha] at hvector
          cases woken <;> cases hvector
        | _ => cases hv
      rw [hlatched]
      by_cases htaken : a = taken
      · rw [htaken, update_self]
        exact ⟨fun h => absurd h Bool.false_ne_true, fun h => absurd htaken (htimer.mp h.2)⟩
      · rw [update_of_ne htaken, hdue a ha]
        exact (and_iff_left (htimer.mpr htaken)).symm

theorem Board.Waits.congr {due' : Prop} (h : b.Waits l m due) (hiff : due ↔ due') :
    b.Waits l m due' := propext hiff ▸ h

theorem Clocked.tick_waits (h : c.board.Waits l m due)
    (hraises : c.platform.device.raises = true ↔ period ∣ t + 1) :
    c.tick.board.Waits l m (due ∨ period ∣ t + 1) := by
  unfold Clocked.tick
  split_ifs with hr
  · exact h.request.congr (iff_of_true trivial (Or.inr (hraises.mp hr)))
  · exact h.congr (or_iff_left (mt hraises.mpr hr)).symm

/-- `P` says what the timer's registers are after `t` periods. -/
theorem Clocked.run_waits {P : Platform → Nat → Prop}
    (hP : ∀ p t, P p t → (p.device.raises = true ↔ period ∣ t + 1) ∧
      P { p with device := p.device.tick } (t + 1))
    (hlow : m.totalPageNumber ≤ 5 * 2 ^ 18) (h : c.board.Waits l m due) (hp : P c.platform t)
    (hroom : Along (step l) (HasRoom l) c es) (hr : run (step l) c es = some d)
    (hstart : ∀ e ∈ es, e.isStart = false) :
    P d.platform (t + ticks es) ∧
      d.board.Waits l m (due ∧ Untaken es ∨ DueSince period t es) := by
  induction es generalizing c t due with
  | nil =>
    obtain rfl := Option.some.inj hr
    have hnone : ¬DueSince period t [] := by
      rintro ⟨before, after, heq, -⟩
      cases before <;> cases heq
    have huntaken : Untaken [] := fun e he => absurd he List.not_mem_nil
    exact ⟨hp, h.congr (by simp only [huntaken, hnone, and_true, or_false])⟩
  | cons e es ih =>
    obtain ⟨c', hc', hcd⟩ := run_cons.mp hr
    obtain ⟨hfirst, hrest⟩ := List.forall_mem_cons.mp hstart
    have hroom' := hroom.2 c' hc'
    cases e with
    | tick =>
      obtain rfl := Option.some.inj hc'
      obtain ⟨hraises, hnext⟩ := hP _ _ hp
      obtain ⟨hp', hwaits⟩ := ih (tick_waits h hraises) hnext hroom' hcd hrest
      have hticks : t + 1 + ticks es = t + ticks (.tick :: es) := by
        unfold ticks
        rw [List.countP_cons_of_pos rfl]
        omega
      refine ⟨hticks ▸ hp', hwaits.congr ?_⟩
      have huntaken : Untaken (.tick :: es) ↔ Untaken es := untaken_cons.trans (and_iff_right rfl)
      have hdue : DueSince period t (.tick :: es) ↔
          period ∣ t + 1 ∧ Untaken es ∨ DueSince period (t + 1) es :=
        dueSince_cons.trans (or_congr_left (and_iff_right rfl))
      rw [huntaken, hdue, or_and_right, or_assoc]
    | schedulerStart => cases hfirst
    | board e =>
      cases hother : e.asksTimer with
      | true =>
        have hnone : step l c (.board e) = none := if_pos hother
        cases hnone.symm.trans hc'
      | false =>
        have hstep : step l c (.board e) = (c.board.step l e).map fun b => { c with board := b } :=
          if_neg (ne_true_of_eq_false hother)
        obtain ⟨b, hb, rfl⟩ := Option.map_eq_some_iff.mp (hstep.symm.trans hc')
        obtain ⟨hp', hwaits⟩ :=
          ih (c := { c with board := b }) (h.step hlow hroom.1 hb hother) hp hroom' hcd hrest
        have hticks : ticks (.board e :: es) = ticks es :=
          List.countP_cons_of_neg Bool.false_ne_true
        have hdue : DueSince period t (.board e :: es) ↔ DueSince period t es :=
          dueSince_cons.trans (or_iff_right fun h => Bool.false_ne_true h.1)
        refine ⟨hticks.symm ▸ hp', hwaits.congr ?_⟩
        rw [untaken_cons, hdue, and_assoc]
        exact Iff.rfl

theorem Clocked.given_iff (h : c.board.Waits l m due) : c.given = some hpetInterruptNum ↔ due := by
  obtain ⟨-, r, hquiet, hdue⟩ := h
  have hack : c.given = _ := hquiet.acknowledge
  rw [← hdue (.master 0) rfl, hack]
  split_ifs with h0 h1
  · exact iff_of_true rfl h0
  · exact iff_of_false (by decide) h0
  · exact iff_of_false not_false h0

/-- Requests leave what is enabled as it is. -/
theorem foldl_request {p : Pair} {r : Requests} (hp : Programmed p) (h : p.Shows r)
    (early : List Line) :
    Programmed (early.foldl Pair.request p) ∧
      (early.foldl Pair.request p).Shows (early.foldl Requests.request r) ∧
      (early.foldl Requests.request r).serving = r.serving ∧
      (early.foldl Requests.request r).enabled = r.enabled ∧
      ∀ a, (early.foldl Requests.request r).latched a = true ↔ r.latched a = true ∨ a ∈ early := by
  induction early generalizing p r with
  | nil => exact ⟨hp, h, rfl, rfl, fun a => (or_iff_left List.not_mem_nil).symm⟩
  | cons b early ih =>
    obtain ⟨hp', h', hserving, henabled, hlatched⟩ := ih (hp.request b) (h.request b)
    refine ⟨hp', h', hserving, henabled, fun a => (hlatched a).trans ?_⟩
    have hfirst : (r.request b).latched a = true ↔ r.latched a = true ∨ a = b := by
      by_cases hab : a = b
      · have hself : update r.latched b true a = true := hab ▸ update_self _ _ _
        exact iff_of_true hself (Or.inr hab)
      · have hkept : (r.request b).latched a = r.latched a := update_of_ne hab _ _
        rw [hkept]
        exact (or_iff_left hab).symm
    rw [hfirst, or_assoc, List.mem_cons]

theorem Clocked.initialPic_quiet (p : Pair) (early : List Line) :
    ∃ r, Quiet (Clocked.initialPic p early) r ∧ ∀ a, r.latched a = true ↔ a ∈ early := by
  have h0 := picInit_programmed p
  obtain ⟨hp, hshows, hserving, henabled, hlatched⟩ := foldl_request
    (h0.enableInterruptOnPIC kbcInterruptNum) (shows_enable h0 (picInit_shows p) kbcInterruptNum)
    early
  generalize hr : early.foldl Requests.request _ = r at hshows hserving henabled hlatched
  have hp' := hp.enableInterruptOnPIC hpetInterruptNum
  have hshows' := shows_enable hp' (shows_enable hp hshows hpetInterruptNum) syscallInterruptNum
  refine ⟨r.enable (.master 0), ⟨hp'.enableInterruptOnPIC syscallInterruptNum, hshows', hserving,
    ?_⟩, fun a => (hlatched a).trans (or_iff_right Bool.false_ne_true)⟩
  have hopen : update r.enabled (.master 0) true = openLine := by
    rw [henabled]
    funext a
    cases a <;> decide +revert
  exact hopen

theorem Clocked.Booted.waits {p : Platform} {rsdtAddress : BitVec 64} {early : List Line}
    (hm : m.Mapped) (hlow : m.totalPageNumber ≤ 5 * 2 ^ 18)
    (h : Clocked.Booted m p rsdtAddress early c) :
    c.board.Waits l m (∃ a ∈ early, vectorOf a = hpetInterruptNum) := by
  obtain ⟨fs, mem, record, entryPoint, image, suspended, s, q, hfs, hs, rfl⟩ := h
  have hboot : Machine.Reachable l m s :=
    ⟨fs, mem, record, entryPoint, image, suspended, s, [], hfs, hs, trivial, rfl⟩
  obtain ⟨r, hquiet, hlatched⟩ := Clocked.initialPic_quiet q early
  refine ⟨hboot.represents hm hlow, r, hquiet, fun a ha => (hlatched a).trans ?_⟩
  exact ⟨fun hmem => ⟨a, hmem, ha⟩,
    fun ⟨b, hmem, hb⟩ => vectorOf_injective (hb.trans ha.symm) ▸ hmem⟩

/-- A counter that stands still leaves the platform as it is. -/
theorem Clocked.halted_run_waits {p : Platform} (hlow : m.totalPageNumber ≤ 5 * 2 ^ 18)
    (h : c.board.Waits l m due) (hhalted : p.Halted) (hp : c.platform = p)
    (hroom : Along (step l) (HasRoom l) c es) (hr : run (step l) c es = some d)
    (hstart : ∀ e ∈ es, e.isStart = false) :
    d.platform = p ∧ d.board.Waits l m (due ∧ Untaken es) := by
  have hP : ∀ q (t : Nat), q = p → (q.device.raises = true ↔ 0 ∣ t + 1) ∧
      { q with device := q.device.tick } = p := by
    rintro q t rfl
    have hraises := EventTimer.Registers.raises_of_not_counts hhalted.counts
    rw [hraises, EventTimer.Registers.tick_of_not_counts hhalted.counts]
    exact ⟨iff_of_false Bool.false_ne_true fun h => absurd (Nat.zero_dvd.mp h) (Nat.succ_ne_zero t),
      rfl⟩
  obtain ⟨hp', hwaits⟩ := run_waits (P := fun q _ => q = p) (t := 0) hP hlow h hp hroom hr hstart
  refine ⟨hp', hwaits.congr (or_iff_left ?_)⟩
  rintro ⟨before, after, -, hdvd, -⟩
  exact absurd (Nat.zero_dvd.mp hdvd) (Nat.succ_ne_zero _)

section Timer
variable {p : Platform} {tables : List (BitVec 64)} {hpetTable rsdtAddress : BitVec 64}
  {early : List Line}

/-- As long as nobody calls `SchedulerStart` the timer does not ask: what is taken is at most one
request from before `HPETInit`. -/
theorem timer_unstarted (hm : m.Mapped) (hlow : m.totalPageNumber ≤ 5 * 2 ^ 18)
    (hfw : (p.acpiInit rsdtAddress).Firmware tables hpetTable)
    (hboot : Clocked.Booted m p rsdtAddress early c)
    (hroom : Along (Clocked.step l) (Clocked.HasRoom l) c es)
    (hr : run (Clocked.step l) c es = some d) (hstart : ∀ e ∈ es, e.isStart = false) :
    d.given = some hpetInterruptNum ↔
      (∃ a ∈ early, vectorOf a = hpetInterruptNum) ∧ Untaken es := by
  have hwaits : c.board.Waits l m _ := hboot.waits hm hlow
  obtain ⟨fs, mem, record, entryPoint, image, suspended, s, q, hfs, hs, rfl⟩ := hboot
  have hhalted := Platform.hpetInit_halted hfw
  exact Clocked.given_iff (Clocked.halted_run_waits hlow hwaits hhalted rfl hroom hr hstart).2

theorem clkPeriod_hpetInit (hfw : (p.acpiInit rsdtAddress).Firmware tables hpetTable) :
    Platform.clkPeriod (p.acpiInit rsdtAddress).hpetInit.device = Platform.clkPeriod p.device := by
  rw [Platform.hpetInit_eq hfw]
  rfl

/-- `SchedulerStart` after `HPETInit`: the timer counts from zero, with five milliseconds between
its requests. -/
theorem schedulerStart_ticking (hfw : (p.acpiInit rsdtAddress).Firmware tables hpetTable)
    (hclk : 1165 ≤ Platform.clkPeriod p.device ∧ Platform.clkPeriod p.device ≤ 5 * 10 ^ 12) :
    ∃ q, (p.acpiInit rsdtAddress).hpetInit.schedulerStart = some q ∧
      q.device.Ticking (5 * 10 ^ 12 / Platform.clkPeriod p.device) 0 := by
  have hclkPeriod := clkPeriod_hpetInit hfw
  have hbits : 2 ^ 32 ≤ 2 ^ (p.acpiInit rsdtAddress).hpetInit.device.timerBits := by
    apply Nat.pow_le_pow_right Nat.two_pos
    unfold EventTimer.Registers.timerBits
    split_ifs <;> decide
  have hcount : 5 * 10 ^ 12 / Platform.clkPeriod p.device < 2 ^ 32 :=
    (Nat.div_le_div_left hclk.1 (by decide)).trans_lt (by decide)
  have hus : schedulerPeriod.toNat * 1000000000 = 5 * 10 ^ 12 := by decide
  have h := @Platform.hpetStartPeriodicTimer_ticking (p.acpiInit rsdtAddress).hpetInit
    schedulerPeriod (Platform.hpetInit_halted hfw)
  rw [hus, hclkPeriod] at h
  have hpos : 0 < Platform.clkPeriod p.device := (Nat.succ_pos _).trans_le hclk.1
  exact h (by decide) hclk.2 hpos (hcount.trans_le hbits)

/-- After `SchedulerStart` the timer's interrupt is given exactly if five milliseconds have passed
another time since it was taken last. -/
theorem timer_started (hm : m.Mapped) (hlow : m.totalPageNumber ≤ 5 * 2 ^ 18)
    (hfw : (p.acpiInit rsdtAddress).Firmware tables hpetTable)
    (hclk : 1165 ≤ Platform.clkPeriod p.device ∧ Platform.clkPeriod p.device ≤ 5 * 10 ^ 12)
    (hboot : Clocked.Booted m p rsdtAddress early c) {es' : List ClockedEvent}
    (hroom : Along (Clocked.step l) (Clocked.HasRoom l) c (es ++ .schedulerStart :: es'))
    (hr : run (Clocked.step l) c (es ++ .schedulerStart :: es') = some d)
    (hstart : ∀ e ∈ es ++ es', e.isStart = false) :
    d.given = some hpetInterruptNum ↔
      (∃ a ∈ early, vectorOf a = hpetInterruptNum) ∧ Untaken (es ++ es') ∨
        DueSince (5 * 10 ^ 12 / Platform.clkPeriod p.device) 0 es' := by
  have hwaits : c.board.Waits l m _ := hboot.waits hm hlow
  obtain ⟨fs, mem, record, entryPoint, image, suspended, s, q₀, hfs, hs, rfl⟩ := hboot
  obtain ⟨c₁, hroom₁, hr₁, hroom₂, hr₂⟩ := hroom.split hr
  obtain ⟨hbefore, hafter⟩ := List.forall_mem_append.mp hstart
  obtain ⟨hplatform, hwaits₁⟩ := Clocked.halted_run_waits hlow hwaits
    (Platform.hpetInit_halted hfw) rfl hroom₁ hr₁ hbefore
  obtain ⟨q, hq, hticking⟩ := schedulerStart_ticking hfw hclk
  obtain ⟨c₂, hc₂, hr₂⟩ := run_cons.mp hr₂
  have hc₂' : c₂ = { c₁ with platform := q } := by
    have hstep : Clocked.step l c₁ .schedulerStart =
        c₁.platform.schedulerStart.map fun p => { c₁ with platform := p } := rfl
    rw [hstep, hplatform, hq] at hc₂
    exact (Option.some.inj hc₂).symm
  subst hc₂'
  generalize 5 * 10 ^ 12 / Platform.clkPeriod p.device = period at hticking ⊢
  have hP : ∀ (q : Platform) t, q.device.Ticking period t →
      (q.device.raises = true ↔ period ∣ t + 1) ∧ q.device.tick.Ticking period (t + 1) :=
    fun q t h => ⟨h.raises_iff, h.tick⟩
  obtain ⟨-, hwaits₂⟩ := Clocked.run_waits (c := { c₁ with platform := q })
    (P := fun q t => q.device.Ticking period t) hP hlow hwaits₁ hticking (hroom₂.2 _ hc₂) hr₂ hafter
  rw [Clocked.given_iff hwaits₂, and_assoc]
  exact or_congr_left (and_congr_right' List.forall_mem_append.symm)

end Timer

theorem Clocked.run_ticks (l : Link) (c : Clocked) (n : Nat) :
    ∃ d, run (step l) c (List.replicate n .tick) = some d ∧
      Along (step l) (HasRoom l) c (List.replicate n .tick) := by
  induction n generalizing c with
  | zero => exact ⟨c, rfl, trivial⟩
  | succ n ih =>
    obtain ⟨d, hd, hroom⟩ := ih c.tick
    rw [List.replicate_succ]
    refine ⟨d, run_cons.mpr ⟨c.tick, rfl, hd⟩, trivial, fun c' hc' => ?_⟩
    obtain rfl := Option.some.inj hc'
    exact hroom

end Runs

/-- An XSDT with two tables, the second of which is the timer's. -/
def timerMemory : ByteMemory :=
  let m : ByteMemory := fun _ => 0
  let m := (m.writeWord 0x118 0x200).writeInt 0x204 52
  let m := (m.writeWord 0x224 0x300).writeWord 0x22c 0x400
  let m := (m.writeInt 0x300 0x50434146).writeInt 0x400 0x54455048
  m.writeWord 0x42c 0xfed00000

/-- A period of the clock is ten nanoseconds, and the firmware has left the counter on. -/
def timerPlatform : Platform where
  memory := timerMemory
  xsdt := 0
  deviceBase := 0xfed00000
  device := ⟨0x009896808086a201, 1, 5, 0x30, 0, 0⟩
  hpetBaseAddress := 0
  hpetCLKPeriod := 0

theorem timerPlatform_firmware : (timerPlatform.acpiInit 0x100).Firmware [0x300, 0x400] 0x400 := by
  refine ⟨⟨by decide, by decide⟩, by decide, by decide, by decide, by decide⟩

theorem timerPlatform_booted (early : List Line) :
    ∃ c, Clocked.Booted lowMap timerPlatform 0x100 early c := by
  have hsome : lowBoot.isSome = true := by decide +kernel
  obtain ⟨s, hs⟩ := Option.isSome_iff_exists.mp hsome
  obtain ⟨fs, hfs, hboot⟩ := lowBoot_eq hs
  exact ⟨_, fs, _, _, _, _, _, s, ⟨offChip, offChip⟩, hfs, hboot, rfl⟩

theorem timer_unstarted_early : ∃ c d,
    Clocked.Booted lowMap timerPlatform 0x100 (lineOf hpetInterruptNum).toList c ∧
    run (Clocked.step lowLink) c (List.replicate 7 .tick) = some d ∧
    d.given = some hpetInterruptNum := by
  obtain ⟨c, hc⟩ := timerPlatform_booted (lineOf hpetInterruptNum).toList
  obtain ⟨d, hr, hroom⟩ := Clocked.run_ticks lowLink c 7
  refine ⟨c, d, hc, hr, (timer_unstarted lowMap_mapped (by decide) timerPlatform_firmware hc hroom
    hr fun e he => ?_).mpr ⟨⟨_, List.mem_singleton_self _, rfl⟩, fun e he => ?_⟩⟩
  · obtain rfl := List.eq_of_mem_replicate he
    rfl
  · obtain rfl := List.eq_of_mem_replicate he
    rfl

/-- Five milliseconds after the start. -/
theorem timer_started_turn : ∃ c d, Clocked.Booted lowMap timerPlatform 0x100 [] c ∧
    run (Clocked.step lowLink) c (.schedulerStart ::
      List.replicate (5 * 10 ^ 12 / Platform.clkPeriod timerPlatform.device) .tick) = some d ∧
    d.given = some hpetInterruptNum := by
  obtain ⟨c, hc⟩ := timerPlatform_booted []
  have hclk : 1165 ≤ Platform.clkPeriod timerPlatform.device ∧
      Platform.clkPeriod timerPlatform.device ≤ 5 * 10 ^ 12 := by decide
  obtain ⟨n, hn⟩ : ∃ n, 5 * 10 ^ 12 / Platform.clkPeriod timerPlatform.device = n + 1 :=
    ⟨499999, by decide⟩
  obtain ⟨q, hq, -⟩ := schedulerStart_ticking timerPlatform_firmware hclk
  have hplatform : c.platform = (timerPlatform.acpiInit 0x100).hpetInit := by
    obtain ⟨fs, mem, record, entryPoint, image, suspended, s, q, hfs, hs, rfl⟩ := hc
    rfl
  have hstep : Clocked.step lowLink c .schedulerStart = some { c with platform := q } := by
    have hmap : Clocked.step lowLink c .schedulerStart =
        c.platform.schedulerStart.map fun p => { c with platform := p } := rfl
    rw [hmap, hplatform, hq]
    rfl
  obtain ⟨d, hd, hroom⟩ := Clocked.run_ticks lowLink { c with platform := q } (n + 1)
  have hr : run (Clocked.step lowLink) c (.schedulerStart :: List.replicate (n + 1) .tick) =
      some d := run_cons.mpr ⟨_, hstep, hd⟩
  have hstart : ∀ e ∈ List.replicate (n + 1) ClockedEvent.tick, e.isStart = false := by
    intro e he
    obtain rfl := List.eq_of_mem_replicate he
    rfl
  have hdue : DueSince (n + 1) 0 (List.replicate (n + 1) .tick) := by
    refine ⟨List.replicate n .tick, [], List.replicate_succ', ?_, fun e he => ?_⟩
    · have htick : ClockedEvent.isTick .tick = true := rfl
      unfold ticks
      rw [List.countP_replicate, if_pos htick, Nat.zero_add]
    · cases he
  have halong : Along (Clocked.step lowLink) (Clocked.HasRoom lowLink) c
      ([] ++ .schedulerStart :: List.replicate (n + 1) .tick) :=
    ⟨trivial, fun c' hc' => Option.mem_unique hstep hc' ▸ hroom⟩
  have hgiven := timer_started lowMap_mapped (by decide) timerPlatform_firmware hclk hc halong hr
    hstart
  rw [hn] at hgiven ⊢
  exact ⟨c, d, hc, hr, hgiven.mpr (Or.inr hdue)⟩

end Amaterasu
