import Amaterasu.Multitasking.Isolation

/-! The change from one process to another, in `Schedule`: the one that leaves is put away on its
kernel stack, and the one that comes goes on where it was put away. -/

namespace Amaterasu
open Cpu PageWalk Function Runs Machine

/-- The machine in `Schedule`, when `cur` has left in a state and has been put away. -/
def Machine.putAway (l : Link) (s : Machine) (e : State) (state : ProcessState) (called : Bool)
    (next : Nat) (junk₂ : State) (u : State) : Machine :=
  { s with
    cpu := (popAllRegisters u).iretq
    process := update s.process s.currentProcess
      (schedule l.load junk₂ { s.process s.currentProcess with state := state }
        (s.process next) e).1
    currentProcess := next
    suspended := update s.suspended s.currentProcess e
    inCall := update (update s.inCall s.currentProcess called) next false }

/-- What the processes are then, if the next one has its registers as it left. -/
def Tasks.putAway (x : Tasks) (state : ProcessState) (called : Bool) (next : Nat) : Tasks :=
  ({ x.set x.current { x.own with state := state, inCall := called } with current := next } :
    Tasks).set next { x.task next with inCall := false }

section Switch
variable {l : Link} {m : PageFrames} {s : Machine} {x : Tasks} {e u : State} {depth next : Nat}
  {state : ProcessState} {called : Bool} {junk₂ : State}

theorem Represents.putAway (h : Represents l m s x)
    (he : Entered (s.kernelStack s.currentProcess) depth s.cpu e) (hnext : s.Runnable next)
    (hne : next ≠ s.currentProcess) (hdepth : state ≠ .zombie → depth = l.depth called)
    (hcalled : state = .sleep → called = true)
    (hu : Leaving (s.kernelStack next) (schedule l.load junk₂
      { s.process s.currentProcess with state := state } (s.process next) e).2 u
      (x.task next).context)
    (hcr3 : u.cr3 = (s.process next).processMemory.l4PageTableBase)
    (hrsp0 : u.rsp0 = (s.process next).threadInfo.ring0rsp)
    (hmem : ∀ y, Outside (s.kernelStack s.currentProcess) y → Outside (s.kernelStack next) y →
      u.mem y = s.cpu.mem y)
    (hparked : ∀ called, depth = l.depth called → Parked l u.mem (schedule l.load junk₂
      { s.process s.currentProcess with state := state } (s.process next) e).1 e called
      s.cpu.toContext) :
    Represents l m (s.putAway l e state called next junk₂ u) (x.putAway state called next) := by
  have hcur := h.memCurrent
  let prev : Process := { s.process s.currentProcess with state := state }
  let r := schedule l.load junk₂ prev (s.process next) e
  let t := s.putAway l e state called next junk₂ u
  let y := x.putAway state called next
  have hqs : ∀ q ∈ [s.currentProcess, next], q ∈ s.created := by
    intro q hq
    rcases List.mem_cons.mp hq with rfl | hq
    · exact hcur
    · rw [List.mem_singleton.mp hq]
      exact hnext.1
  have hsp : 16 ≤ e.sp := by have := he.room; omega
  obtain ⟨-, -, hring, hpm, hstate, hpid⟩ := schedule_prev l.load junk₂ prev (s.process next) hsp
  -- the registers are popped
  have hnextFrame := h.separate.frame hnext.1 (kernelStack_mem_framesOf s _)
  obtain ⟨hcontext, hcr3', hrsp0', hmem'⟩ := hu.returns hnextFrame
  obtain ⟨hpop3, hpop0, hpopMem⟩ := popAllRegisters_iretq u
  have hkeep : ∀ a, (∀ q ∈ [s.currentProcess, next], Outside (s.kernelStack q) a) →
      t.cpu.mem a = s.cpu.mem a := fun a ha =>
    (congrFun hpopMem a).trans (hmem a (ha _ List.mem_cons_self)
      (ha _ (List.mem_cons_of_mem _ List.mem_cons_self)))
  have hprocess : ∀ p ≠ s.currentProcess, t.process p = s.process p := fun p hp =>
    update_of_ne hp _ _
  have hprev : t.process s.currentProcess = r.1 := update_self ..
  have hinCall : ∀ p ≠ next, p ≠ s.currentProcess → t.inCall p = s.inCall p := fun p hp hpc =>
    (update_of_ne hp _ _).trans (update_of_ne hpc _ _)
  have htask : ∀ p ≠ next, p ≠ s.currentProcess → y.task p = x.task p := fun p hp hpc =>
    (update_of_ne hp _ _).trans (update_of_ne (h.current ▸ hpc) _ _)
  have hnextTask : y.task next = { x.task next with inCall := false } := update_self ..
  have hcurTask : y.task s.currentProcess =
      { x.task s.currentProcess with state := state, inCall := called } := by
    refine (update_of_ne hne.symm _ _).trans ?_
    rw [← h.own_eq, ← h.current]
    exact update_self ..
  constructor
  · exact h.created
  · rfl
  · refine ⟨hnext.1, ?_⟩
    show (t.process next).state = _
    rw [hprocess next hne]
    exact hnext.2
  · exact h.tracks
  · refine h.separate.of_memory rfl rfl rfl fun p => ?_
    by_cases hp : p = s.currentProcess
    · subst hp
      exact (congrArg Process.processMemory hprev).trans hpm
    · exact congrArg Process.processMemory (hprocess p hp)
  · intro p hp
    show Resident t.cpu.mem (t.process p) (s.tables p) (y.task p)
    have hres := h.resident_kept hqs hkeep hp
    by_cases hpc : p = s.currentProcess
    · subst hpc
      have hres' := (hres.record hpm hring hpid).setCall called
      rw [hstate] at hres'
      rw [hprev, hcurTask]
      exact hres'
    · rw [hprocess p hpc]
      by_cases hpn : p = next
      · subst hpn
        rw [hnextTask]
        exact hres.setCall false
      · rw [htask p hpn hpc]
        exact hres
  · show t.cpu.cr3 = (t.process next).processMemory.l4PageTableBase
    rw [hprocess next hne]
    exact hpop3.trans hcr3
  · show t.cpu.top.toNat ≤ (t.process next).processMemory.kernelStackPageFrame.toNat + 4096
    unfold State.top
    rw [hprocess next hne, show t.cpu.rsp0 = _ from hpop0.trans hrsp0]
    exact (h.resident next hnext.1).below
  · show t.cpu.toContext = (y.task next).context
    rw [hnextTask]
    exact hcontext
  · intro p hp
    show t.inCall p = (y.task p).inCall
    by_cases hpn : p = next
    · subst hpn
      rw [hnextTask]
      exact update_self ..
    · by_cases hpc : p = s.currentProcess
      · subst hpc
        rw [hcurTask]
        exact (update_of_ne hne.symm _ _).trans (update_self ..)
      · rw [htask p hpn hpc, hinCall p hpn hpc]
        exact h.inCall p hp
  · exact update_self ..
  · intro p hp
    show (t.process p).state = .sleep → t.inCall p = true
    by_cases hpc : p = s.currentProcess
    · subst hpc
      have hcall : t.inCall s.currentProcess = called :=
        (update_of_ne hne.symm _ _).trans (update_self ..)
      rw [hprev, hcall]
      exact fun hsleep => hcalled (hstate.symm.trans hsleep)
    · rw [hprocess p hpc]
      by_cases hpn : p = next
      · subst hpn
        exact fun hsleep => absurd (hnext.2.symm.trans hsleep) (by decide)
      · rw [hinCall p hpn hpc]
        exact h.asleep p hp
  · intro p hp hpn
    show (t.process p).state ≠ _ → Parked l t.cpu.mem (t.process p) (t.suspended p) (t.inCall p)
      (y.task p).context
    by_cases hpc : p = s.currentProcess
    · subst hpc
      have hsuspended : t.suspended s.currentProcess = e := update_self ..
      have hcalled : t.inCall s.currentProcess = called :=
        (update_of_ne hne.symm _ _).trans (update_self ..)
      rw [hprev, hcurTask, hsuspended, hcalled, show t.cpu.mem = u.mem from hpopMem]
      intro hrunning
      have hput := hparked called (hdepth fun hz => hrunning (hstate.trans hz))
      rw [h.context] at hput
      exact hput
    · have hsuspended : t.suspended p = s.suspended p := update_of_ne hpc _ _
      rw [hprocess p hpc, htask p hpn hpc, hinCall p hpn hpc, hsuspended]
      intro hstate
      have hpqs : p ∉ [s.currentProcess, next] := by
        rw [List.mem_cons, List.mem_singleton, not_or]
        exact ⟨hpc, hpn⟩
      exact h.parked_kept hqs hkeep hp hpqs hpc hstate

/-- What a system call stores in the end is not on the kernel stack: the caller might have stored
it as well. -/
theorem finish_eq {k : BitVec 64} {v : State} {c : Context} {p : Process} {f : TableFrames}
    {t : Task} (hu : Leaving k v u c) (hk : IsFrame k)
    (hstack : p.processMemory.kernelStackPageFrame = k) (hframed : Framed p.processMemory f)
    (hres : Resident u.mem p f t) (hcr3 : u.cr3 = p.processMemory.l4PageTableBase)
    (result : CallResult) :
    let w := (popAllRegisters u).iretq
    finish result u = { w with
      toContext := (result.code w.toContext (userLoad w.mem w.cr3)).1
      mem := result.stores.foldl (fun m a => userStore m w.cr3 a.1 a.2) w.mem } := by
  intro w
  have hlt := hk.below
  have hbelow := hu.below
  have hlen : 8 * (interruptStack c).length = 160 := rfl
  let u' : State := { u with
    mem := result.stores.foldl (fun m a => userStore m u.cr3 a.1 a.2) u.mem }
  obtain ⟨-, hout⟩ := hres.stores hframed result.stores
  have htext := hframed.ne.2.1 _ (List.mem_cons_of_mem _ List.mem_cons_self)
  have huser := hframed.ne.2.1 _ List.mem_cons_self
  rw [hstack] at htext huser
  have hwords : Words u'.mem u'.sp (interruptStack c) := by
    apply hu.frame.congr
    intro y h1 h2
    obtain ⟨i, rfl⟩ := Nat.exists_eq_add_of_le (hu.above.trans h1)
    show result.stores.foldl (fun m a => userStore m u.cr3 a.1 a.2) u.mem _ = _
    rw [hcr3]
    exact hout _ (hk.outside (hframed.frame _ textSegmentPageFrame_mem) htext.symm (by omega))
      (hk.outside (hframed.frame _ userStackPageFrame_mem) huser.symm (by omega))
  have hcontext : (syscallLeave result.ret u').toContext = _ :=
    syscallLeave_context hwords (show u.sp + 160 ≤ _ by omega)
  obtain ⟨hcontext', -⟩ := hu.returns hk
  obtain ⟨hcr3', hrsp0', hmem'⟩ := syscallLeave_frame result.ret u'
  obtain ⟨hcr3₂, hrsp0₂, hmem₂⟩ := popAllRegisters_iretq u
  apply State.eq_of
  · rw [hcontext']
    exact hcontext
  · exact hcr3'.trans hcr3₂.symm
  · exact hrsp0'.trans hrsp0₂.symm
  · show (syscallLeave result.ret u').mem =
      result.stores.foldl (fun m a => userStore m w.cr3 a.1 a.2) w.mem
    rw [hmem', hmem₂, hcr3₂]

theorem Represents.take_eq (h : Represents l m s x) {turn : Turn} (hnext : s.Runnable turn.next)
    (hne : turn.next ≠ s.currentProcess) :
    let y := x.putAway state called turn.next
    (x.set x.current { x.own with state := state, inCall := called }).take turn =
      if s.inCall turn.next then y.set turn.next (y.own.execute turn.result.code) else y := by
  intro y
  let z : Tasks := { x.set x.current { x.own with state := state, inCall := called } with
    current := turn.next }
  have hz : z.own = x.task turn.next := update_of_ne (h.current ▸ hne) _ _
  have hy : y.own = { x.task turn.next with inCall := false } := update_self ..
  have htake : (x.set x.current { x.own with state := state, inCall := called }).take turn =
      if z.own.inCall then z.set turn.next { z.own.execute turn.result.code with inCall := false }
      else z := rfl
  rw [htake, hz, hy, ← h.inCall _ hnext.1]
  cases hcall : s.inCall turn.next with
  | false =>
    rw [if_neg Bool.false_ne_true, if_neg Bool.false_ne_true]
    have hsame : ({ x.task turn.next with inCall := false } : Task) = z.own := by
      rw [hz, ← hcall, h.inCall _ hnext.1]
    show z = z.set turn.next { x.task turn.next with inCall := false }
    rw [hsame]
    exact (Tasks.set_own z).symm
  | true =>
    rw [if_pos rfl, if_pos rfl, Task.execute_setCall (x.task turn.next) false]
    show Tasks.mk (update z.task turn.next _) z.created _ =
      Tasks.mk (update (update z.task turn.next _) turn.next _) z.created _
    rw [update_idem]
    rfl

/-- `Schedule` goes on with another process; the current one is left in the state `state`. -/
theorem Represents.switch (h : Represents l m s x)
    (he : Entered (s.kernelStack s.currentProcess) depth s.cpu e) {turn : Turn}
    (hnext : s.Runnable turn.next) (hne : turn.next ≠ s.currentProcess)
    (hdepth : state ≠ .zombie → depth = l.depth called)
    (hcalled : state = .sleep → called = true) :
    let left := s.setState s.currentProcess state
    Represents l m ({ left with inCall := update s.inCall s.currentProcess called }.switch l e turn)
      ((x.set x.current { x.own with state := state, inCall := called }).take turn) := by
  intro left
  let prev : Process := { s.process s.currentProcess with state := state }
  have hcur := h.memCurrent
  have hnextFrame := h.separate.frame hnext.1 (kernelStack_mem_framesOf s _)
  have he' : Entered prev.processMemory.kernelStackPageFrame depth s.cpu e := he
  obtain ⟨u, hgo, hu, hcr3, hrsp0, hmem, hparked⟩ := he'.switch
    (h.separate.frame hcur (kernelStack_mem_framesOf s _)) hnextFrame
    (h.separate.ne hcur hnext.1 hne.symm (kernelStack_mem_framesOf s _)
      (kernelStack_mem_framesOf s _))
    (h.parked turn.next hnext.1 hne (by rw [hnext.2]; decide)) turn.result turn.junk₂ turn.junk₃
  have hput := h.putAway he hnext hne hdepth hcalled hu hcr3 hrsp0 hmem hparked
  let r := s.putAway l e state called turn.next turn.junk₂ u
  have hswitch : { left with inCall := update s.inCall s.currentProcess called }.switch l e turn =
      { r with cpu := leave (s.inCall turn.next) turn.result u } := by
    rw [← hgo]
    simp only [Machine.switch, left, r, Machine.putAway, setState, kernelStack, update_self,
      update_of_ne hne, update_idem]
    rfl
  rw [hswitch]
  rw [h.take_eq hnext hne]
  cases hcall : s.inCall turn.next with
  | false =>
    rw [if_neg Bool.false_ne_true]
    exact hput
  | true =>
    rw [if_pos rfl]
    -- the end of the system call is one more instruction
    have hprocess : r.process turn.next = s.process turn.next := update_of_ne hne _ _
    have hres := hput.resident turn.next hnext.1
    have hmem' : r.cpu.mem = u.mem := (popAllRegisters_iretq u).2.2
    rw [hprocess, hmem'] at hres
    obtain ⟨w, hw, hrep⟩ := hput.user turn.result.code _ rfl
    obtain rfl := Option.some.inj hw
    have hfinish := finish_eq hu hnextFrame rfl (h.separate.framed _ hnext.1) hres hcr3 turn.result
    have hleave : leave true turn.result u = finish turn.result u := rfl
    rw [hleave, hfinish]
    exact hrep

end Switch
end Amaterasu
