import Amaterasu.Ata.Transfer
import Amaterasu.Library.Runs

/-! Interleaved calls of `ATARead`. As long as every call that serves a request serves its own,
the queue holds the calls asleep in their order, and only the first of them can be woken. -/

namespace Amaterasu
open Function Runs

/-- What a call owes its caller when it returns a non-negative value. -/
def AtaOutcome.Faithful (disk : Nat → BitVec 8) (o : AtaOutcome) : Prop :=
  0 ≤ o.result → o.result = o.call.sizeOfBytes ∧ o.stores = o.call.image disk

/-- The device is at the command of the first call, and at rest when there is none. -/
def AtaDevice.Serves (d : AtaDevice) : List AtaCall → Prop
  | [] => d = .idle ∨ ∃ command n, d = .ready command n
  | c :: _ => d = .busy c.request.command ∨ d = .ready c.request.command 0

def AtaDevice.Settled : AtaDevice → Prop
  | .busy _ => False
  | _ => True

instance : DecidablePred AtaDevice.Settled
  | .idle => inferInstanceAs (Decidable True)
  | .busy _ => inferInstanceAs (Decidable False)
  | .ready _ _ => inferInstanceAs (Decidable True)
  | .failed => inferInstanceAs (Decidable True)

instance (c : AtaCall) : Decidable c.Addressable :=
  inferInstanceAs (Decidable (0 < c.sizeOfBytes → c.lba < 2 ^ 28 ∧ c.sizeOfBytes ≤ 131072))

/-- A call is made by a process that is awake. It is refused, or goes on as `f` says. -/
theorem call_cases {σ : Type*} {full : Prop} {sleeper : Option AtaCall} {pushed : Option σ}
    {refused submitted t : σ} {f : σ → Option σ} (hfull : full → pushed = none)
    (hspace : ¬full → pushed = some submitted)
    (ht : (if sleeper.isSome then none else pushed.elim (some refused) f) = some t) :
    sleeper = none ∧ (full ∧ t = refused ∨ ¬full ∧ f submitted = some t) := by
  simp only [Option.isSome_iff_ne_none] at ht
  split_ifs at ht with hnone
  refine ⟨not_not.mp hnone, ?_⟩
  by_cases hf : full
  · rw [hfull hf] at ht
    exact Or.inl ⟨hf, (Option.some.inj ht).symm⟩
  · rw [hspace hf] at ht
    exact Or.inr ⟨hf, ht⟩

namespace AtaSystem

/-- A polling call finds the queue empty, or is bound to return -1; a woken call finds its data
ready; the request that is served fits one command. -/
def Orderly (s : AtaSystem) : Event → Prop
  | .poll c _ => s.queue.size = 0 ∧ c.Addressable ∨
      s.queue.size = ataRequestQueueCapacity ∨ s.device = .failed
  | .resume p => s.device.Settled ∧ ∀ c ∈ s.asleep p, c.Addressable
  | _ => True

instance : DecidableRel Orderly
  | _, .read _ => inferInstanceAs (Decidable True)
  | s, .poll c _ => inferInstanceAs (Decidable (s.queue.size = 0 ∧ c.Addressable ∨
      s.queue.size = ataRequestQueueCapacity ∨ s.device = .failed))
  | _, .settle _ => inferInstanceAs (Decidable True)
  | _, .handler => inferInstanceAs (Decidable True)
  | s, .resume p => inferInstanceAs (Decidable (s.device.Settled ∧ ∀ c ∈ s.asleep p, c.Addressable))

/-- The queue is the calls `cs` in order: the calls asleep, of which at most the first is woken. -/
structure Serving (s : AtaSystem) (cs : List AtaCall) : Prop where
  fits : s.queue.Fits ataRequestQueueCapacity
  queue : s.queue.toList ataRequestQueueCapacity = cs.map AtaCall.request
  asleep : ∀ p c, s.asleep p = some c ↔ c ∈ cs ∧ c.process = p
  woken : ∀ p c, s.asleep p = some c → s.state p = .running → cs.head? = some c
  nodup : (cs.map AtaCall.process).Nodup
  device : s.device.Serves cs

/-- The queue is the calls asleep, whatever the device does. -/
structure Waiting (s : AtaSystem) (cs : List AtaCall) : Prop where
  fits : s.queue.Fits ataRequestQueueCapacity
  queue : s.queue.toList ataRequestQueueCapacity = cs.map AtaCall.request
  asleep : ∀ p c, s.asleep p = some c ↔ c ∈ cs ∧ c.process = p
  woken : ∀ p c, s.asleep p = some c → s.state p = .running → cs.head? = some c
  nodup : (cs.map AtaCall.process).Nodup

/-- The state at the wait; a call that finds the queue empty has sent its own command. -/
def submitted (s : AtaSystem) (c : AtaCall) : AtaSystem :=
  { s with
    queue := s.queue.push ataRequestQueueCapacity c.request
    device := if s.queue.size = 0 then .busy c.request.command else s.device }

/-- After an error nothing is taken from the queue any more, and every call returns -1. -/
def Stuck (s : AtaSystem) : Prop := s.device = .failed ∧ 0 < s.queue.size

section Queue
variable {s t : AtaSystem} {c : AtaCall} {cs : List AtaCall}

theorem ataSendRequest_read {index : Nat} (h : s.queue.body index = c.request) :
    s.ataSendRequest index = { s with device := .busy c.request.command } := by
  unfold ataSendRequest
  rw [h]
  rfl

theorem submit_full (hs : s.queue.size = ataRequestQueueCapacity) : s.submit c = none := by
  unfold submit ataRequestQueuePush
  rw [if_pos hs]

theorem submit_space (hs : s.queue.size ≠ ataRequestQueueCapacity) :
    s.submit c = some (s.submitted c) := by
  unfold submit ataRequestQueuePush submitted
  rw [if_neg hs]
  show some (if s.queue.size + 1 = 1 then ataSendRequest _ _ else _) = _
  by_cases h0 : s.queue.size = 0
  · rw [if_pos h0, if_pos (by omega), ataSendRequest_read (c := c) (update_self ..)]
    rfl
  · rw [if_neg h0, if_neg (by omega)]
    rfl

theorem Serving.waiting (h : s.Serving cs) : s.Waiting cs :=
  ⟨h.fits, h.queue, h.asleep, h.woken, h.nodup⟩

theorem Waiting.serving (h : s.Waiting cs) (hd : s.device.Serves cs) : s.Serving cs :=
  ⟨h.fits, h.queue, h.asleep, h.woken, h.nodup, hd⟩

theorem Waiting.size (h : s.Waiting cs) : s.queue.size = cs.length := by
  rw [← CircularQueue.length_toList _ ataRequestQueueCapacity, h.queue, List.length_map]

theorem Serving.size (h : s.Serving cs) : s.queue.size = cs.length := h.waiting.size

theorem front_pop {q : AtaRequestQueue} (hf : q.Fits ataRequestQueueCapacity)
    (hq : q.toList ataRequestQueueCapacity = (c :: cs).map AtaCall.request) :
    q.front = c.request ∧
      (q.pop ataRequestQueueCapacity).toList ataRequestQueueCapacity = cs.map AtaCall.request := by
  have hpos : 0 < q.size := by
    rw [← CircularQueue.length_toList _ ataRequestQueueCapacity, hq]
    exact Nat.succ_pos _
  rw [CircularQueue.toList_pop hf hpos, List.map_cons] at hq
  exact List.cons.inj hq

section Serve
variable (disk : Nat → BitVec 8) (floating : Nat → BitVec 16)

/-- What a call stores with its own command ready. -/
theorem own_faithful (hd : s.device = .ready c.request.command 0) (ha : c.Addressable) :
    AtaOutcome.Faithful disk
      ⟨c, c.sizeOfBytes, c.request.copy (s.device.word disk floating)⟩ := fun h0 => by
  rw [hd]
  exact ⟨rfl, copy_own_command disk floating h0 ha⟩

/-- A call at the head of the queue, with its own command ready, serves itself. -/
theorem serve_own (hf : s.queue.Fits ataRequestQueueCapacity)
    (hq : s.queue.toList ataRequestQueueCapacity = (c :: cs).map AtaCall.request)
    (hd : s.device = .ready c.request.command 0) (ht : s.serve disk floating c = t) :
    (t.queue.Fits ataRequestQueueCapacity ∧
      t.queue.toList ataRequestQueueCapacity = cs.map AtaCall.request ∧ t.device.Serves cs) ∧
    t.state = s.state ∧ t.asleep = s.asleep ∧
    t.outcomes =
      ⟨c, c.sizeOfBytes, c.request.copy (s.device.word disk floating)⟩ :: s.outcomes := by
  obtain ⟨hfront, hrest⟩ := front_pop hf hq
  let complete (r : AtaRequest) : AtaRequest := { r with isComplete := true }
  let q := (s.queue.modifyFront complete).pop ataRequestQueueCapacity
  have hpos : 0 < s.queue.size := by
    rw [← CircularQueue.length_toList _ ataRequestQueueCapacity, hq]
    exact Nat.succ_pos _
  have hqfits : q.Fits ataRequestQueueCapacity := (hf.modifyFront complete).pop
  have hqlist : q.toList ataRequestQueueCapacity = cs.map AtaCall.request :=
    (CircularQueue.toList_pop_modifyFront hf complete).trans hrest
  have hqsize : q.size = cs.length := by
    rw [← CircularQueue.length_toList _ ataRequestQueueCapacity, hqlist, List.length_map]
  have hpop : ataRequestQueuePop { s.queue with
      body := update s.queue.body s.queue.head (complete c.request) } = q := by
    unfold ataRequestQueuePop
    rw [if_neg hpos.ne', ← hfront]
    rfl
  let u : AtaSystem := { s with queue := q, device := s.device.advance c.request.words }
  have hserve : t = { (if q.size ≥ 1 then u.ataSendRequest q.head else u) with
      outcomes := ⟨c, c.sizeOfBytes, c.request.copy (s.device.word disk floating)⟩ ::
        (if q.size ≥ 1 then u.ataSendRequest q.head else u).outcomes } := by
    have hff : ataRequestQueueFront s.queue = c.request := hfront
    rw [← ht]
    unfold serve
    rw [if_neg (by rw [hd]; simp), hff]
    simp only [u, ← hpop]
    rfl
  cases cs with
  | nil =>
    rw [if_neg (by rw [hqsize]; simp)] at hserve
    rw [hserve]
    have hrest : u.device = .ready c.request.command (0 + c.request.words) := by
      show s.device.advance c.request.words = _
      rw [hd]
      rfl
    exact ⟨⟨hqfits, hqlist, Or.inr ⟨_, _, hrest⟩⟩, rfl, rfl, rfl⟩
  | cons d ds =>
    -- the next call in the queue has its command sent
    have hnext : u.queue.body q.head = d.request := (front_pop hqfits hqlist).1
    rw [if_pos (by rw [hqsize]; simp), ataSendRequest_read hnext] at hserve
    rw [hserve]
    exact ⟨⟨hqfits, hqlist, Or.inl rfl⟩, rfl, rfl, rfl⟩

theorem serve_failed (hd : s.device = .failed) : s.serve disk floating c = s.refuse c := by
  unfold serve
  rw [if_pos hd]
  rfl

theorem ataSendRequest_device (index : Nat) :
    ∃ d, s.ataSendRequest index = { s with device := d } := by
  unfold ataSendRequest
  dsimp only
  split_ifs
  · exact ⟨s.device, rfl⟩
  · exact ⟨_, rfl⟩

/-- Whichever call serves, the front request is filled and popped. -/
theorem serve_front (c : AtaCall) (hd : s.device ≠ .failed) :
    ∃ d stores, s.serve disk floating c = { s with
        queue := ataRequestQueuePop (s.queue.modifyFront ({ · with isComplete := true }))
        device := d
        outcomes := ⟨c, s.queue.front.sizeOfBytes, stores⟩ :: s.outcomes } ∧
      (stores = [] ∨ ∃ f, stores = s.queue.front.copy f) := by
  have hnext : ∀ (q : AtaRequestQueue) (t : AtaSystem), ∃ d,
      (if q.size ≥ 1 then t.ataSendRequest q.head else t) = { t with device := d } := by
    intro q t
    split_ifs
    · exact ataSendRequest_device q.head
    · exact ⟨t.device, rfl⟩
  choose device hdevice using hnext
  unfold serve
  rw [if_neg hd]
  dsimp only
  rw [hdevice]
  refine ⟨_, _, rfl, ?_⟩
  split_ifs
  · exact Or.inl rfl
  · exact Or.inr ⟨_, rfl⟩

theorem serve_pops {q : AtaRequestQueue} (hf : q.Fits ataRequestQueueCapacity) (hpos : 0 < q.size)
    (f : AtaRequest → AtaRequest) :
    (ataRequestQueuePop (q.modifyFront f)).Fits ataRequestQueueCapacity ∧
      (ataRequestQueuePop (q.modifyFront f)).toList ataRequestQueueCapacity =
        (q.toList ataRequestQueueCapacity).tail := by
  have hpop : ataRequestQueuePop (q.modifyFront f) =
    (q.modifyFront f).pop ataRequestQueueCapacity := if_neg hpos.ne'
  rw [hpop, CircularQueue.toList_pop hf hpos]
  exact ⟨(hf.modifyFront f).pop, CircularQueue.toList_pop_modifyFront hf f⟩

end Serve
end Queue

/-! ## What a step can do -/

section Step
variable {disk : Nat → BitVec 8} {floating : Nat → BitVec 16} {s t : AtaSystem} {c : AtaCall}
  {cs : List AtaCall} {ok : Bool} {p : Nat}

theorem step_call {f : AtaSystem → Option AtaSystem}
    (ht : (if (s.asleep c.process).isSome then none
      else match s.submit c with
        | none => some (s.refuse c)
        | some u => f u) = some t) :
    s.asleep c.process = none ∧ (s.queue.size = ataRequestQueueCapacity ∧ t = s.refuse c ∨
      s.queue.size ≠ ataRequestQueueCapacity ∧ f (s.submitted c) = some t) := by
  refine call_cases submit_full submit_space ?_
  rw [← ht]
  cases s.submit c <;> rfl

theorem step_read (ht : s.step disk floating (.read c) = some t) :
    s.asleep c.process = none ∧ (t = s.refuse c ∨ s.queue.size ≠ ataRequestQueueCapacity ∧
      t = { s.submitted c with
        state := update s.state c.process .sleep
        asleep := update s.asleep c.process (some c) }) := by
  unfold step at ht
  obtain ⟨hnone, ⟨-, hrefused⟩ | ⟨hspace, hu⟩⟩ := step_call ht
  · exact ⟨hnone, Or.inl hrefused⟩
  · exact ⟨hnone, Or.inr ⟨hspace, (Option.some.inj hu).symm⟩⟩

theorem step_poll (ht : s.step disk floating (.poll c ok) = some t) :
    s.asleep c.process = none ∧ (t = s.refuse c ∨ s.queue.size ≠ ataRequestQueueCapacity ∧
      ∃ u, (s.submitted c).ataPollingUntilReady ok = some u ∧ t = u.serve disk floating c) := by
  unfold step at ht
  obtain ⟨hnone, ⟨-, hrefused⟩ | ⟨hspace, hserve⟩⟩ := step_call ht
  · exact ⟨hnone, Or.inl hrefused⟩
  · obtain ⟨u, hu, hut⟩ := Option.map_eq_some_iff.mp hserve
    exact ⟨hnone, Or.inr ⟨hspace, u, hu, hut.symm⟩⟩

theorem settle_inv (ht : s.settle ok = some t) : ∃ command, s.device = .busy command ∧
    t = { s with device := if ok then .ready command 0 else .failed, interrupt := true } := by
  unfold settle at ht
  cases hd : s.device with
  | busy command =>
    rw [hd] at ht
    exact ⟨command, rfl, (Option.some.inj ht).symm⟩
  | _ =>
    rw [hd] at ht
    cases ht

/-- What `ATAPollingUntilReady` leaves, of a command in service in particular. -/
theorem polled (ht : s.ataPollingUntilReady ok = some t) :
    (∃ d i, t = { s with device := d, interrupt := i }) ∧
      ∀ command, s.device = .busy command → t.device = if ok then .ready command 0 else .failed := by
  unfold ataPollingUntilReady at ht
  cases hd : s.device with
  | idle =>
    rw [hd] at ht
    cases ht
  | busy command =>
    rw [hd] at ht
    obtain ⟨_, hcommand, rfl⟩ := settle_inv ht
    obtain rfl := AtaDevice.busy.inj (hd.symm.trans hcommand)
    refine ⟨⟨_, _, rfl⟩, fun _ h => ?_⟩
    rw [AtaDevice.busy.inj h]
  | ready command position =>
    rw [hd] at ht
    dsimp only at ht
    split_ifs at ht
    obtain rfl := Option.some.inj ht
    exact ⟨⟨s.device, s.interrupt, rfl⟩, fun _ h => nomatch h⟩
  | failed =>
    rw [hd] at ht
    obtain rfl := Option.some.inj ht
    exact ⟨⟨s.device, s.interrupt, rfl⟩, fun _ h => nomatch h⟩

theorem step_handler (ht : s.step disk floating .handler = some t) : t = s.ataHandler := by
  unfold step at ht
  dsimp only at ht
  split_ifs at ht
  exact (Option.some.inj ht).symm

theorem step_resume (ht : s.step disk floating (.resume p) = some t) :
    ∃ c, s.asleep p = some c ∧ s.state p = .running ∧
      t = { s with asleep := update s.asleep p none }.serve disk floating c := by
  unfold step at ht
  dsimp only at ht
  split at ht
  · rename_i c hc hr
    exact ⟨c, hc, hr, (Option.some.inj ht).symm⟩
  · cases ht

/-! ## The queue of the calls asleep -/

theorem Waiting.submitted (h : s.Waiting cs) (c : AtaCall)
    (hs : s.queue.size ≠ ataRequestQueueCapacity) :
    (s.submitted c).queue.Fits ataRequestQueueCapacity ∧
    (s.submitted c).queue.toList ataRequestQueueCapacity = (cs ++ [c]).map AtaCall.request := by
  have hlt : s.queue.size < ataRequestQueueCapacity := lt_of_le_of_ne h.fits.size hs
  have hlist : (s.submitted c).queue.toList ataRequestQueueCapacity = _ :=
    CircularQueue.toList_push hlt c.request
  refine ⟨h.fits.push hlt _, ?_⟩
  rw [hlist, h.queue, List.map_append]
  rfl

theorem Waiting.read (h : s.Waiting cs) (hs : s.queue.size ≠ ataRequestQueueCapacity)
    (hnone : s.asleep c.process = none) :
    Waiting { s.submitted c with
      state := update s.state c.process .sleep
      asleep := update s.asleep c.process (some c) } (cs ++ [c]) := by
  obtain ⟨hfits, hlist⟩ := h.submitted c hs
  have hnew : ∀ d ∈ cs, d.process ≠ c.process := fun d hd heq => by
    have hsome := (h.asleep c.process d).mpr ⟨hd, heq⟩
    rw [hnone] at hsome
    cases hsome
  refine ⟨hfits, hlist, fun q d => ?_, fun q d hq hr => ?_, ?_⟩
  · show update s.asleep c.process (some c) q = some d ↔ _
    by_cases hq : q = c.process
    · subst hq
      rw [update_self, List.mem_append, List.mem_singleton]
      constructor
      · intro hcd
        obtain rfl := Option.some.inj hcd
        exact ⟨Or.inr rfl, rfl⟩
      · rintro ⟨hd | rfl, hp⟩
        · exact absurd hp (hnew d hd)
        · rfl
    · rw [update_of_ne hq, h.asleep, List.mem_append, List.mem_singleton]
      constructor
      · exact fun ⟨hd, hp⟩ => ⟨Or.inl hd, hp⟩
      · rintro ⟨hd | rfl, hp⟩
        · exact ⟨hd, hp⟩
        · exact absurd hp.symm hq
  · change update s.asleep c.process (some c) q = some d at hq
    change update s.state c.process .sleep q = .running at hr
    by_cases hqc : q = c.process
    · rw [hqc, update_self] at hr
      cases hr
    · rw [update_of_ne hqc] at hq hr
      have hhead := h.woken q d hq hr
      rw [List.head?_append, hhead]
      rfl
  · rw [List.map_append, List.nodup_append]
    refine ⟨h.nodup, List.pairwise_singleton _ _, fun q hq r hr => ?_⟩
    obtain ⟨d, hd, rfl⟩ := List.mem_map.mp hq
    rw [List.mem_singleton.mp hr]
    exact hnew d hd

/-- The interrupt wakes the process of the first call. -/
theorem Waiting.handler (h : s.Waiting cs) : s.ataHandler.Waiting cs := by
  refine ⟨h.fits, h.queue, h.asleep, fun p c hp hr => ?_, h.nodup⟩
  change s.asleep p = some c at hp
  change update s.state (ataRequestQueueFront s.queue).process .running p = .running at hr
  cases cs with
  | nil => exact absurd ((h.asleep p c).mp hp).1 List.not_mem_nil
  | cons d ds =>
    have hfront : ataRequestQueueFront s.queue = d.request := (front_pop h.fits h.queue).1
    rw [hfront] at hr
    change update s.state d.process .running p = .running at hr
    by_cases hpd : p = d.process
    · have hd : s.asleep p = some d := (h.asleep p d).mpr ⟨List.mem_cons_self, hpd.symm⟩
      rw [hp] at hd
      rw [Option.some.inj hd]
      rfl
    · rw [update_of_ne hpd] at hr
      exact h.woken p c hp hr

/-- The first call leaves when it goes on. -/
theorem Waiting.served (h : s.Waiting (c :: cs)) (hp : s.asleep p = some c)
    (hr : s.state p = .running) (hf : t.queue.Fits ataRequestQueueCapacity)
    (hl : t.queue.toList ataRequestQueueCapacity = cs.map AtaCall.request)
    (ha : t.asleep = update s.asleep p none) (hstate : t.state = s.state) : t.Waiting cs := by
  have hcp : c.process = p := ((h.asleep p c).mp hp).2
  obtain ⟨hout, hnodup⟩ := List.nodup_cons.mp h.nodup
  have hother : ∀ d ∈ cs, d.process ≠ p := fun d hd heq =>
    hout (List.mem_map.mpr ⟨d, hd, heq.trans hcp.symm⟩)
  refine ⟨hf, hl, fun q d => ?_, fun q d hq hrq => ?_, hnodup⟩
  · rw [ha]
    by_cases hqp : q = p
    · subst hqp
      rw [update_self]
      exact ⟨fun h => (nomatch h), fun ⟨hd, hq⟩ => absurd hq (hother d hd)⟩
    · rw [update_of_ne hqp, h.asleep, List.mem_cons]
      constructor
      · rintro ⟨rfl | hd, hq⟩
        · exact absurd (hq.symm.trans hcp) hqp
        · exact ⟨hd, hq⟩
      · exact fun ⟨hd, hq⟩ => ⟨Or.inr hd, hq⟩
  · rw [ha] at hq
    rw [hstate] at hrq
    by_cases hqp : q = p
    · rw [hqp, update_self] at hq
      cases hq
    · -- only the first call can be woken, and that was `c`
      rw [update_of_ne hqp] at hq
      obtain rfl : c = d := Option.some.inj (h.woken q d hq hrq)
      exact absurd (((h.asleep q c).mp hq).2.symm.trans hcp) hqp

/-! ## What a step preserves -/

/-- A step adds at most one outcome, and a faithful one. -/
def Extends (disk : Nat → BitVec 8) (s t : AtaSystem) : Prop :=
  t.outcomes = s.outcomes ∨ ∃ o : AtaOutcome, o.Faithful disk ∧ t.outcomes = o :: s.outcomes

theorem extends_refuse : Extends disk s (s.refuse c) :=
  Or.inr ⟨⟨c, -1, []⟩, fun h => absurd (show (0 : Int) ≤ -1 from h) (by decide), rfl⟩

theorem Stuck.submitted (h : s.Stuck) : (s.submitted c).Stuck := by
  refine ⟨?_, Nat.succ_pos _⟩
  show (if s.queue.size = 0 then _ else s.device) = _
  rw [if_neg h.2.ne']
  exact h.1

theorem Stuck.step {e : Event} (h : s.Stuck) (ht : s.step disk floating e = some t) :
    t.Stuck ∧ Extends disk s t := by
  cases e with
  | read c =>
    obtain ⟨-, rfl | ⟨-, rfl⟩⟩ := step_read ht
    · exact ⟨h, extends_refuse⟩
    · exact ⟨h.submitted (c := c), Or.inl rfl⟩
  | poll c ok =>
    obtain ⟨-, rfl | ⟨-, u, hu, rfl⟩⟩ := step_poll ht
    · exact ⟨h, extends_refuse⟩
    · have hs := h.submitted (c := c)
      unfold ataPollingUntilReady at hu
      rw [hs.1] at hu
      obtain rfl := Option.some.inj hu
      rw [serve_failed _ _ hs.1]
      exact ⟨hs, extends_refuse⟩
  | settle ok =>
    obtain ⟨command, hd, -⟩ := settle_inv ht
    rw [h.1] at hd
    cases hd
  | handler =>
    obtain rfl := step_handler ht
    exact ⟨h, Or.inl rfl⟩
  | resume p =>
    obtain ⟨c, -, -, rfl⟩ := step_resume ht
    rw [serve_failed _ _ (s := { s with asleep := update s.asleep p none }) h.1]
    exact ⟨h, extends_refuse⟩

theorem Serving.not_failed (h : s.Serving cs) : s.device ≠ .failed := by
  intro hd
  have hdev := h.device
  rw [hd] at hdev
  cases cs with
  | nil => exact hdev.elim (fun h => nomatch h) fun ⟨_, _, h⟩ => nomatch h
  | cons c cs => exact hdev.elim (fun h => nomatch h) fun h => nomatch h

theorem Serving.refuse (h : s.Serving cs) : (s.refuse c).Serving cs :=
  ⟨h.fits, h.queue, h.asleep, h.woken, h.nodup, h.device⟩

theorem Serving.submitted (h : s.Serving cs) (c : AtaCall) :
    (s.submitted c).device.Serves (cs ++ [c]) := by
  show AtaDevice.Serves (if s.queue.size = 0 then .busy c.request.command else s.device) _
  rw [h.size]
  cases cs with
  | nil => exact Or.inl rfl
  | cons d ds => exact h.device

theorem Serving.read (h : s.Serving cs) (hs : s.queue.size ≠ ataRequestQueueCapacity)
    (hnone : s.asleep c.process = none) :
    Serving { s.submitted c with
      state := update s.state c.process .sleep
      asleep := update s.asleep c.process (some c) } (cs ++ [c]) :=
  (h.waiting.read hs hnone).serving (h.submitted c)

theorem Serving.poll {u : AtaSystem} (h : s.Serving []) (ha : c.Addressable)
    (hu : (s.submitted c).ataPollingUntilReady ok = some u) :
    ((u.serve disk floating c).Stuck ∨ (u.serve disk floating c).Serving []) ∧
      Extends disk s (u.serve disk floating c) := by
  have h0 : s.queue.size = 0 := h.size
  have hfull : s.queue.size ≠ ataRequestQueueCapacity := by
    rw [h0]
    decide
  obtain ⟨hfits, hlist⟩ := h.waiting.submitted c hfull
  have hbusy : (s.submitted c).device = .busy c.request.command := if_pos h0
  unfold ataPollingUntilReady at hu
  rw [hbusy] at hu
  obtain ⟨command, hcommand, hu⟩ := settle_inv hu
  rw [hbusy] at hcommand
  obtain rfl := AtaDevice.busy.inj hcommand
  cases ok with
  | false =>
    rw [hu, serve_failed _ _ rfl]
    exact ⟨Or.inl ⟨rfl, Nat.succ_pos _⟩, extends_refuse⟩
  | true =>
    have hq : u.queue = (s.submitted c).queue := by rw [hu]
    have hd : u.device = .ready c.request.command 0 := by
      rw [hu]
      rfl
    have hkept : u.asleep = s.asleep ∧ u.state = s.state ∧ u.outcomes = s.outcomes := by
      rw [hu]
      exact ⟨rfl, rfl, rfl⟩
    rw [← hq] at hfits hlist
    have hfaithful := own_faithful disk floating hd ha
    obtain ⟨⟨hf, hl, hd⟩, hstate, hasleep, ho⟩ := serve_own disk floating hfits hlist hd rfl
    rw [hkept.1] at hasleep
    rw [hkept.2.1] at hstate
    rw [hkept.2.2] at ho
    refine ⟨Or.inr ⟨hf, hl, ?_, ?_, List.nodup_nil, hd⟩, Or.inr ⟨_, hfaithful, ho⟩⟩
    · rw [hasleep]
      exact h.asleep
    · rw [hasleep, hstate]
      exact h.woken

theorem Serving.settle (h : s.Serving cs) (ht : s.settle ok = some t) :
    t.Stuck ∨ t.Serving cs := by
  obtain ⟨command, hd, rfl⟩ := settle_inv ht
  have hdev := h.device
  rw [hd] at hdev
  cases cs with
  | nil => exact absurd hdev (by simp [AtaDevice.Serves])
  | cons c cs =>
    obtain rfl : command = c.request.command := by
      rcases hdev with heq | heq
      · exact AtaDevice.busy.inj heq
      · cases heq
    cases ok with
    | false => exact Or.inl ⟨rfl, by rw [h.size]; exact Nat.succ_pos _⟩
    | true => exact Or.inr ⟨h.fits, h.queue, h.asleep, h.woken, h.nodup, Or.inr rfl⟩

theorem Serving.resume (h : s.Serving cs) (hp : s.asleep p = some c) (hr : s.state p = .running)
    (hd : s.device.Settled) (ha : c.Addressable) :
    ({ s with asleep := update s.asleep p none }.serve disk floating c).Serving cs.tail ∧
      Extends disk s ({ s with asleep := update s.asleep p none }.serve disk floating c) := by
  obtain ⟨ds, rfl⟩ : ∃ ds, cs = c :: ds := List.head?_eq_some_iff.mp (h.woken p c hp hr)
  have hready : s.device = .ready c.request.command 0 := by
    rcases h.device with hbusy | hready
    · rw [hbusy] at hd
      exact hd.elim
    · exact hready
  obtain ⟨⟨hf, hl, hd⟩, hstate, hasleep, ho⟩ :=
    serve_own (s := { s with asleep := update s.asleep p none }) disk floating h.fits h.queue
      hready rfl
  have hfaithful := own_faithful disk floating hready ha
  have hrest : Waiting ({ s with asleep := update s.asleep p none }.serve disk floating c) ds :=
    h.waiting.served hp hr hf hl hasleep hstate
  exact ⟨hrest.serving hd, Or.inr ⟨_, hfaithful, ho⟩⟩

/-! ## Runs -/

/-- Every call that came back was served faithfully, and those in service are in order. -/
structure Consistent (disk : Nat → BitVec 8) (s : AtaSystem) : Prop where
  outcomes : ∀ o ∈ s.outcomes, o.Faithful disk
  phase : s.Stuck ∨ ∃ cs, s.Serving cs

theorem Extends.faithful (h : Extends disk s t) (hs : ∀ o ∈ s.outcomes, o.Faithful disk) :
    ∀ o ∈ t.outcomes, o.Faithful disk := by
  rcases h with heq | ⟨o, ho, heq⟩
  · rwa [heq]
  · rw [heq]
    exact List.forall_mem_cons.mpr ⟨ho, hs⟩

theorem Serving.step {e : Event} (h : s.Serving cs) (hok : s.Orderly e)
    (ht : s.step disk floating e = some t) :
    (t.Stuck ∨ ∃ ds, t.Serving ds) ∧ Extends disk s t := by
  cases e with
  | read c =>
    obtain ⟨hnone, rfl | ⟨hs, rfl⟩⟩ := step_read ht
    · exact ⟨Or.inr ⟨cs, h.refuse⟩, extends_refuse⟩
    · exact ⟨Or.inr ⟨_, h.read hs hnone⟩, Or.inl rfl⟩
  | poll c ok =>
    obtain ⟨-, rfl | ⟨hs, u, hu, rfl⟩⟩ := step_poll ht
    · exact ⟨Or.inr ⟨cs, h.refuse⟩, extends_refuse⟩
    · rcases hok with ⟨h0, ha⟩ | hfull | hfailed
      · obtain rfl : cs = [] := List.length_eq_zero_iff.mp (h.size.symm.trans h0)
        obtain ⟨hphase, hext⟩ := h.poll ha hu
        exact ⟨hphase.imp_right fun hs => ⟨[], hs⟩, hext⟩
      · exact absurd hfull hs
      · exact absurd hfailed h.not_failed
  | settle ok =>
    obtain ⟨command, hd, heq⟩ := settle_inv ht
    exact ⟨(h.settle ht).imp_right fun hs => ⟨cs, hs⟩, Or.inl (by rw [heq])⟩
  | handler =>
    obtain rfl := step_handler ht
    exact ⟨Or.inr ⟨cs, h.waiting.handler.serving h.device⟩, Or.inl rfl⟩
  | resume p =>
    obtain ⟨c, hp, hr, rfl⟩ := step_resume ht
    obtain ⟨hs, hext⟩ := h.resume hp hr hok.1 (hok.2 c hp)
    exact ⟨Or.inr ⟨_, hs⟩, hext⟩

theorem Consistent.step {e : Event} (h : s.Consistent disk) (hok : s.Orderly e)
    (ht : s.step disk floating e = some t) : t.Consistent disk := by
  rcases h.phase with hstuck | ⟨cs, hs⟩
  · obtain ⟨hphase, hext⟩ := hstuck.step ht
    exact ⟨hext.faithful h.outcomes, Or.inl hphase⟩
  · obtain ⟨hphase, hext⟩ := hs.step hok ht
    exact ⟨hext.faithful h.outcomes, hphase⟩

theorem ataInit_serving (body : Nat → AtaRequest) : (ataInit body).Serving [] where
  fits := ⟨Nat.succ_pos 9, Nat.zero_le 10⟩
  queue := rfl
  asleep _ _ := ⟨fun h => (nomatch h), fun h => (nomatch h.1)⟩
  woken _ _ h := nomatch h
  nodup := List.nodup_nil
  device := Or.inl rfl

theorem ataInit_consistent (body : Nat → AtaRequest) : (ataInit body).Consistent disk :=
  ⟨List.forall_mem_nil _, Or.inr ⟨[], ataInit_serving body⟩⟩

/-- In every interleaving whose calls are served in order, each call that returns a non-negative
value returns its own size and has stored its own data, and only that. -/
theorem run_reads_faithful (body : Nat → AtaRequest) {events : List Event}
    (hok : Along (step disk floating) Orderly (ataInit body) events)
    (hr : run (step disk floating) (ataInit body) events = some t) :
    ∀ o ∈ t.outcomes, o.Faithful disk :=
  (Along.invariant (I := Consistent disk) (fun _ _ _ h hok ht => h.step hok ht)
    (ataInit_consistent body) hok hr).outcomes

end Step

/-- A call of 3 bytes sleeps, a second one queues behind it, and both are served. -/
theorem run_reads_faithful_two : ∃ t,
    run (step (fun i => BitVec.ofNat 8 i) fun _ => 0) (ataInit fun _ => ⟨false, 0, 0, false, 0, 0⟩)
      [.read ⟨1, 5, 3, 0x100000⟩, .read ⟨2, 6, 2, 0x200000⟩, .settle true, .handler, .resume 1,
        .settle true, .handler, .resume 2] = some t ∧
    t.outcomes.map (fun o => (o.call.process, o.result)) = [(2, 2), (1, 3)] ∧
    ∀ o ∈ t.outcomes, o.Faithful fun i => BitVec.ofNat 8 i := by
  have hend : (run (step (fun i => BitVec.ofNat 8 i) fun _ => 0)
      (ataInit fun _ => ⟨false, 0, 0, false, 0, 0⟩) [.read ⟨1, 5, 3, 0x100000⟩,
        .read ⟨2, 6, 2, 0x200000⟩, .settle true, .handler, .resume 1, .settle true, .handler,
        .resume 2]).map (fun t => t.outcomes.map fun o => (o.call.process, o.result)) =
      some [(2, 2), (1, 3)] := by decide +kernel
  obtain ⟨t, ht, hview⟩ := Option.map_eq_some_iff.mp hend
  exact ⟨t, ht, hview, run_reads_faithful _ (by decide +kernel) ht⟩

/-- A polling call of 4 bytes finds a sleeping call of 2 bytes in the queue: it serves that
request, and returns 2. -/
theorem poll_serves_front : ∃ t,
    run (step (fun i => BitVec.ofNat 8 i) fun _ => 0) (ataInit fun _ => ⟨false, 0, 0, false, 0, 0⟩)
      [.read ⟨1, 5, 2, 0x100000⟩, .poll ⟨2, 6, 4, 0x200000⟩ true] = some t ∧
    ¬∀ o ∈ t.outcomes, o.Faithful fun i => BitVec.ofNat 8 i := by
  have hend : (run (step (fun i => BitVec.ofNat 8 i) fun _ => 0)
      (ataInit fun _ => ⟨false, 0, 0, false, 0, 0⟩) [.read ⟨1, 5, 2, 0x100000⟩,
        .poll ⟨2, 6, 4, 0x200000⟩ true]).map (fun t => t.outcomes.map fun o =>
          (o.call.sizeOfBytes, o.result)) = some [(4, 2)] := by decide +kernel
  obtain ⟨t, ht, hview⟩ := Option.map_eq_some_iff.mp hend
  obtain ⟨o, ho, hsize⟩ : ∃ o ∈ t.outcomes, (o.call.sizeOfBytes, o.result) = (4, 2) :=
    List.mem_map.mp (hview ▸ List.mem_singleton_self _)
  obtain ⟨hcall, hresult⟩ := Prod.mk.inj hsize
  refine ⟨t, ht, fun h => ?_⟩
  have hsame := (h o ho (by rw [hresult]; decide)).1
  rw [hcall, hresult] at hsame
  exact absurd hsame (by decide)

end AtaSystem
end Amaterasu
