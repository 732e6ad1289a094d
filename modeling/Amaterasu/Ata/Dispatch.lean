import Amaterasu.Ata.Trace

/-! Which requests reach the device. While no call is left behind by an error or served by another
one, the first request of the queue is the only one in it that was programmed, and a call that
returns takes its request with it. -/

namespace Amaterasu
open Function Runs
namespace AtaTrace

/-- The calls that returned have left the queue; the requests were programmed once each and in their
order; of those in the queue, the first one was. -/
structure Dispatched (s : AtaTrace) : Prop where
  left : ∀ n ∈ s.returned, n ∉ s.queued
  order : s.sent = List.range s.sent.length
  once : ∀ n ∈ s.queued, s.sent.count n = if s.queued.head? = some n then 1 else 0

/-- A polling call finds the queue full, or empty and its command succeeds; a woken call does not
find the device at an error. -/
def InTurn (s : AtaTrace) : AtaSystem.Event → Prop
  | .poll _ ok => s.queue.size = ataRequestQueueCapacity ∨ s.queue.size = 0 ∧ ok = true
  | .resume _ => s.device ≠ .failed
  | _ => True

instance : DecidableRel InTurn
  | _, .read _ => inferInstanceAs (Decidable True)
  | s, .poll _ ok => inferInstanceAs (Decidable (s.queue.size = ataRequestQueueCapacity ∨
      s.queue.size = 0 ∧ ok = true))
  | _, .settle _ => inferInstanceAs (Decidable True)
  | _, .handler => inferInstanceAs (Decidable True)
  | s, .resume _ => inferInstanceAs (Decidable (s.device ≠ .failed))

/-- The calls `cs` made the requests from the `k`-th on, and the first of them is programmed. -/
structure Ticketed (s : AtaTrace) (cs : List AtaCall) (k : Nat) : Prop where
  tickets : (cs.map fun c => s.ticket c.process) = s.queued
  queued : s.queued = List.range' k cs.length
  pushed : s.pushed = k + cs.length
  sent : s.sent = List.range (k + min 1 cs.length)
  returned : ∀ n ∈ s.returned, n < k

section Queue
variable {disk : Nat → BitVec 8} {floating : Nat → BitVec 16} {s t : AtaTrace} {c : AtaCall}
  {cs : List AtaCall} {k : Nat}

theorem queued_submitted (hs : s.queue.size < ataRequestQueueCapacity) :
    (s.submitted c).queued = s.queued ++ [s.pushed] :=
  CircularQueue.toList_push (r := { s.queue with body := s.tickets }) hs s.pushed

theorem queued_length (s : AtaTrace) : s.queued.length = s.queue.size :=
  CircularQueue.length_toList _ _

theorem queued_head (hf : s.queue.Fits ataRequestQueueCapacity) (hpos : 0 < s.queue.size) :
    s.queued.head? = some (s.tickets s.queue.head) := by
  have hghost : CircularQueue.Fits ataRequestQueueCapacity { s.queue with body := s.tickets } :=
    ⟨hf.head, hf.size⟩
  unfold queued
  rw [CircularQueue.toList_pop hghost hpos]
  rfl

theorem queued_pop (hf : s.queue.Fits ataRequestQueueCapacity) (hpos : 0 < s.queue.size)
    (hq : t.queue = s.rest) (ht : t.tickets = s.tickets) : t.queued = s.queued.tail := by
  have hghost : CircularQueue.Fits ataRequestQueueCapacity { s.queue with body := s.tickets } :=
    ⟨hf.head, hf.size⟩
  have hrest : s.rest =
      (s.queue.modifyFront ({ · with isComplete := true })).pop ataRequestQueueCapacity :=
    if_neg hpos.ne'
  unfold queued
  rw [CircularQueue.toList_pop hghost hpos, hq, ht, hrest]
  rfl

theorem Ticketed.dispatched (h : s.Ticketed cs k) : s.Dispatched := by
  refine ⟨?_, ?_, ?_⟩
  · intro n hn hq
    have hlt := h.returned n hn
    rw [h.queued, List.mem_range'_1] at hq
    omega
  · rw [h.sent, List.length_range]
  · intro n hn
    rw [h.queued] at hn ⊢
    rw [h.sent, List.nodup_range.count, List.head?_range']
    rw [List.mem_range'_1] at hn
    have hmin : min 1 cs.length = 1 := by omega
    have hzero : cs.length ≠ 0 := by omega
    simp only [hmin, hzero, if_false, List.mem_range, Option.some.injEq]
    exact if_congr (by omega) rfl rfl

/-! ## The push -/

theorem Ticketed.submitted (h : s.Ticketed cs k) (hw : s.toAtaSystem.Waiting cs)
    (hs : s.queue.size ≠ ataRequestQueueCapacity) (hnone : s.asleep c.process = none) :
    (s.submitted c).Ticketed (cs ++ [c]) k := by
  have hlt : s.queue.size < ataRequestQueueCapacity := lt_of_le_of_ne hw.fits.size hs
  have hlen : (cs ++ [c]).length = cs.length + 1 := List.length_append
  have hnew : ∀ d ∈ cs, d.process ≠ c.process := by
    intro d hd heq
    have hsome := (hw.asleep c.process d).mpr ⟨hd, heq⟩
    rw [hnone] at hsome
    cases hsome
  refine ⟨?_, ?_, ?_, ?_, h.returned⟩
  · rw [queued_submitted hlt, ← h.tickets, List.map_append, List.map_singleton]
    congr 1
    · apply List.map_congr_left
      intro d hd
      exact update_of_ne (hnew d hd) _ _
    · exact congrArg (fun n => [n]) (update_self ..)
  · rw [queued_submitted hlt, h.queued, h.pushed, hlen, List.range'_concat, Nat.one_mul]
  · show s.pushed + 1 = _
    rw [h.pushed, hlen, Nat.add_assoc]
  · show (if s.queue.size = 0 then s.sent ++ [s.pushed] else s.sent) = _
    rw [hw.size, h.sent, h.pushed, hlen, Nat.min_eq_left (Nat.le_add_left 1 _)]
    by_cases h0 : cs.length = 0
    · -- the request is the only one, and is programmed at once
      rw [if_pos h0, h0, List.range_succ]
      rfl
    · rw [if_neg h0, Nat.min_eq_left (Nat.one_le_iff_ne_zero.mpr h0)]

/-! ## The pop -/

theorem rest_queue (hf : s.queue.Fits ataRequestQueueCapacity)
    (hq : s.queue.toList ataRequestQueueCapacity = (c :: cs).map AtaCall.request) :
    s.rest.Fits ataRequestQueueCapacity ∧
      s.rest.toList ataRequestQueueCapacity = cs.map AtaCall.request := by
  have hpos : 0 < s.queue.size := by
    rw [← CircularQueue.length_toList _ ataRequestQueueCapacity, hq]
    exact Nat.succ_pos _
  obtain ⟨hfits, hlist⟩ := AtaSystem.serve_pops hf hpos ({ · with isComplete := true })
  rw [hq] at hlist
  exact ⟨hfits, hlist⟩

/-- The first call is served: it leaves the queue, and the next request is programmed. -/
theorem Ticketed.served (h : s.Ticketed (c :: cs) k)
    (hf : s.queue.Fits ataRequestQueueCapacity)
    (hq : s.queue.toList ataRequestQueueCapacity = (c :: cs).map AtaCall.request)
    (hd : s.device ≠ .failed) : (s.serve disk floating c).Ticketed cs (k + 1) := by
  have hpos : 0 < s.queue.size := by
    rw [← CircularQueue.length_toList _ ataRequestQueueCapacity, hq]
    exact Nat.succ_pos _
  have heq := serve_front disk floating c hd
  have htickets : (s.serve disk floating c).tickets = s.tickets := by rw [heq]
  have hticket : (s.serve disk floating c).ticket = s.ticket := by rw [heq]
  have hqueue : (s.serve disk floating c).queue = s.rest := serve_queue disk floating c hd
  have hpop := queued_pop hf hpos hqueue htickets
  have hall : k :: List.range' (k + 1) cs.length = s.queued := h.queued.symm
  have hrest : (s.serve disk floating c).queued = List.range' (k + 1) cs.length := by
    rw [hpop, ← hall]
    rfl
  have hlist := h.tickets
  rw [← hall, List.map_cons] at hlist
  obtain ⟨hown, hothers⟩ := List.cons.inj hlist
  obtain ⟨hfits, hreads⟩ := rest_queue hf hq
  refine ⟨?_, hrest, ?_, ?_, ?_⟩
  · rw [hticket, hrest, hothers]
  · rw [heq]
    show s.pushed = _
    rw [h.pushed, List.length_cons]
    omega
  · rw [heq]
    show (if s.rest.size ≥ 1 ∧ ¬(s.rest.body s.rest.head).isWrite then _ else _) = _
    have hsize : s.rest.size = cs.length := by
      rw [← CircularQueue.length_toList _ ataRequestQueueCapacity, hreads, List.length_map]
    rw [h.sent, hsize]
    cases cs with
    | nil => rfl
    | cons d ds =>
      -- the next request is a read as well
      have hread : s.rest.front = d.request := (AtaSystem.front_pop hfits hreads).1
      have hwrite : (s.rest.body s.rest.head).isWrite = false := congrArg AtaRequest.isWrite hread
      have hnext : s.tickets s.rest.head = k + 1 := by
        have hhead := queued_head (s := s.serve disk floating c) (by rw [hqueue]; exact hfits)
          (by rw [hqueue, hsize]; exact Nat.succ_pos _)
        rw [hrest, htickets, hqueue] at hhead
        exact (Option.some.inj hhead).symm
      rw [if_pos ⟨Nat.le_add_left _ _, by rw [hwrite]; decide⟩, hnext, List.length_cons,
        List.length_cons, Nat.min_eq_left (Nat.le_add_left _ _),
        Nat.min_eq_left (Nat.le_add_left _ _), List.range_succ (n := k + 1)]
  · rw [heq]
    have hothers : ∀ n ∈ s.returned, n < k + 1 := fun n hn =>
      (h.returned n hn).trans (Nat.lt_succ_self k)
    exact List.forall_mem_cons.mpr ⟨hown.trans_lt (Nat.lt_succ_self k), hothers⟩

/-! ## Steps -/

/-- The calls asleep are those that hold the queue. -/
structure InService (s : AtaTrace) (cs : List AtaCall) (k : Nat) : Prop where
  waiting : s.toAtaSystem.Waiting cs
  ticketed : s.Ticketed cs k

theorem InService.refuse (h : s.InService cs k) : (s.refuse c).InService cs k := by
  obtain ⟨⟨hf, hq, ha, hw, hn⟩, htickets, hqueued, hpushed, hsent, hreturned⟩ := h
  exact ⟨⟨hf, hq, ha, hw, hn⟩, htickets, hqueued, hpushed, hsent, hreturned⟩

/-- A call that finds the device at an error returns and stays in the queue. -/
theorem not_dispatched_of_failed (hd : s.device = .failed) (hc : s.ticket c.process ∈ s.queued) :
    ¬(s.serve disk floating c).Dispatched := by
  rw [serve_failed disk floating c hd]
  intro h
  exact h.left _ List.mem_cons_self hc

section Serve
variable (disk floating)

theorem InService.poll {ok : Bool} {u : AtaSystem} (h : s.InService cs k)
    (hs : s.queue.size ≠ ataRequestQueueCapacity) (hnone : s.asleep c.process = none)
    (hu : (s.submitted c).toAtaSystem.ataPollingUntilReady ok = some u) :
    let t := serve disk floating { s.submitted c with toAtaSystem := u } c
    (s.queue.size = 0 ∧ ok = true → t.InService [] (k + 1)) ∧
      (¬(s.queue.size = 0 ∧ ok = true) → ¬t.Dispatched) := by
  obtain ⟨hfits, hlist⟩ := h.waiting.submitted c hs
  obtain ⟨hkept, hbusy⟩ := AtaSystem.polled hu
  obtain ⟨d, i, rfl⟩ := hkept
  obtain ⟨htickets, hqueued, hpushed, hsent, hreturned⟩ :=
    h.ticketed.submitted h.waiting hs hnone
  have hsize := h.waiting.size
  have hown : (s.submitted c).ticket c.process = s.pushed := update_self ..
  have hlast : (s.submitted c).queued = s.queued ++ [s.pushed] :=
    queued_submitted (lt_of_le_of_ne h.waiting.fits.size hs)
  let v : AtaTrace := { s.submitted c with device := d, interrupt := i }
  intro t
  constructor
  · rintro ⟨h0, rfl⟩
    obtain rfl : cs = [] := List.length_eq_zero_iff.mp (hsize.symm.trans h0)
    have hready : d = .ready c.request.command 0 := hbusy c.request.command (if_pos h0)
    have hd : v.device ≠ .failed := by
      show d ≠ .failed
      rw [hready]
      exact AtaDevice.noConfusion
    have hserved : t.Ticketed [] (k + 1) :=
      Ticketed.served (s := v) ⟨htickets, hqueued, hpushed, hsent, hreturned⟩ hfits hlist hd
    obtain ⟨hasleep, hstate⟩ := serve_kept disk floating c v
    have hqueue : t.queue = v.rest := serve_queue disk floating c hd
    obtain ⟨hfits, hlist⟩ := rest_queue (s := v) hfits hlist
    rw [← hqueue] at hfits hlist
    refine ⟨⟨hfits, hlist, ?_, ?_, List.nodup_nil⟩, hserved⟩
    · rw [hasleep]
      exact h.waiting.asleep
    · rw [hasleep, hstate]
      exact h.waiting.woken
  · intro hturn
    by_cases hd : d = .failed
    · have hmem : v.ticket c.process ∈ v.queued := by
        show (s.submitted c).ticket c.process ∈ (s.submitted c).queued
        rw [hown, hlast]
        exact List.mem_append_right _ List.mem_cons_self
      exact not_dispatched_of_failed hd hmem
    · -- an earlier request is served, and the call's own one stays
      have h0 : s.queue.size ≠ 0 := by
        intro h0
        have hdevice : d = if ok then _ else _ := hbusy c.request.command (if_pos h0)
        have hok : ok ≠ true := fun hok => hturn ⟨h0, hok⟩
        exact hd (hdevice.trans (if_neg hok))
      obtain ⟨n, ns, hold⟩ : ∃ n ns, s.queued = n :: ns := by
        apply List.exists_cons_of_ne_nil
        intro hnil
        rw [← queued_length, hnil] at h0
        exact h0 rfl
      have hpop : t.queued = v.queued.tail := by
        have hpos : 0 < v.queue.size := Nat.succ_pos _
        have hkept : (serve disk floating v c).tickets = v.tickets := by
          rw [serve_front disk floating c hd]
        exact queued_pop hfits hpos (serve_queue disk floating c hd) hkept
      have hreturn : s.pushed ∈ t.returned := by
        show s.pushed ∈ (serve disk floating v c).returned
        rw [serve_front disk floating c hd, ← hown]
        exact List.mem_cons_self
      have hmem : s.pushed ∈ t.queued := by
        have hv : v.queued = s.queued ++ [s.pushed] := hlast
        rw [hpop, hv, hold]
        exact List.mem_append_right _ List.mem_cons_self
      exact fun h => h.left _ hreturn hmem

theorem InService.resume {p : Nat} (h : s.InService cs k) (hp : s.asleep p = some c)
    (hr : s.state p = .running) :
    let t := { s with asleep := update s.asleep p none }.serve disk floating c
    (s.device ≠ .failed → t.InService cs.tail (k + 1)) ∧
      (s.device = .failed → ¬t.Dispatched) := by
  obtain ⟨ds, rfl⟩ : ∃ ds, cs = c :: ds := List.head?_eq_some_iff.mp (h.waiting.woken p c hp hr)
  obtain ⟨htickets, hqueued, hpushed, hsent, hreturned⟩ := h.ticketed
  intro t
  constructor
  · intro hd
    have hserved : t.Ticketed ds (k + 1) :=
      Ticketed.served (s := { s with asleep := update s.asleep p none })
        ⟨htickets, hqueued, hpushed, hsent, hreturned⟩ h.waiting.fits h.waiting.queue hd
    obtain ⟨hasleep, hstate⟩ :=
      serve_kept disk floating c { s with asleep := update s.asleep p none }
    have hqueue : t.queue = s.rest := serve_queue disk floating c
      (s := { s with asleep := update s.asleep p none }) hd
    obtain ⟨hfits, hlist⟩ := rest_queue h.waiting.fits h.waiting.queue
    rw [← hqueue] at hfits hlist
    exact ⟨h.waiting.served hp hr hfits hlist hasleep hstate, hserved⟩
  · intro hd
    have hmem : s.ticket c.process ∈ s.queued := by
      rw [← htickets]
      exact List.mem_cons_self
    exact not_dispatched_of_failed (s := { s with asleep := update s.asleep p none }) hd hmem

end Serve

/-- A step keeps the calls in service, and what is claimed of them, exactly when it is in turn. -/
theorem InService.step {e : AtaSystem.Event} (h : s.InService cs k)
    (ht : s.step disk floating e = some t) :
    (s.InTurn e → ∃ ds j, t.InService ds j) ∧ (¬s.InTurn e → ¬t.Dispatched) := by
  cases e with
  | read c =>
    refine ⟨fun _ => ?_, fun hn => absurd trivial hn⟩
    obtain ⟨hnone, ⟨-, rfl⟩ | ⟨hs, rfl⟩⟩ := step_read ht
    · exact ⟨cs, k, h.refuse⟩
    · obtain ⟨htickets, hqueued, hpushed, hsent, hreturned⟩ :=
        h.ticketed.submitted h.waiting hs hnone
      exact ⟨_, k, h.waiting.read hs hnone, htickets, hqueued, hpushed, hsent, hreturned⟩
  | poll c ok =>
    obtain ⟨hnone, ⟨hfull, rfl⟩ | ⟨hs, u, hu, rfl⟩⟩ := step_poll ht
    · exact ⟨fun _ => ⟨cs, k, h.refuse⟩, fun hn => absurd (Or.inl hfull) hn⟩
    · obtain ⟨hgood, hbad⟩ := h.poll disk floating hs hnone hu
      constructor
      · rintro (hfull | hturn)
        · exact absurd hfull hs
        · exact ⟨[], _, hgood hturn⟩
      · intro hn
        exact hbad fun hturn => hn (Or.inr hturn)
  | settle ok =>
    refine ⟨fun _ => ?_, fun hn => absurd trivial hn⟩
    obtain ⟨d, rfl⟩ := step_settle ht
    obtain ⟨⟨hf, hq, ha, hw, hn⟩, htickets, hqueued, hpushed, hsent, hreturned⟩ := h
    exact ⟨cs, k, ⟨hf, hq, ha, hw, hn⟩, htickets, hqueued, hpushed, hsent, hreturned⟩
  | handler =>
    refine ⟨fun _ => ?_, fun hn => absurd trivial hn⟩
    obtain rfl := step_handler ht
    obtain ⟨htickets, hqueued, hpushed, hsent, hreturned⟩ := h.ticketed
    exact ⟨cs, k, h.waiting.handler, htickets, hqueued, hpushed, hsent, hreturned⟩
  | resume p =>
    obtain ⟨c, hp, hr, rfl⟩ := step_resume ht
    obtain ⟨hgood, hbad⟩ := h.resume disk floating hp hr
    exact ⟨fun hd => ⟨_, _, hgood hd⟩, fun hn => hbad (not_not.mp hn)⟩

theorem ataInit_inService (body : Nat → AtaRequest) : (ataInit body).InService [] 0 where
  waiting := (AtaSystem.ataInit_serving body).waiting
  ticketed := ⟨rfl, rfl, rfl, rfl, fun _ h => absurd h List.not_mem_nil⟩

/-- A run keeps to the rules in every state it reaches exactly when each of its steps is in turn. -/
theorem run_dispatched_iff (body : Nat → AtaRequest) {events : List AtaSystem.Event}
    (hr : run (step disk floating) (ataInit body) events = some t) :
    Along (step disk floating) (fun s e => ∀ t ∈ s.step disk floating e, t.Dispatched)
      (ataInit body) events ↔ Along (step disk floating) InTurn (ataInit body) events := by
  have hinit : ∃ cs k, (ataInit body).InService cs k := ⟨[], 0, ataInit_inService body⟩
  symm
  have hfree : Along (step disk floating) (fun _ _ => True) (ataInit body) events :=
    Along.of_forall (fun _ _ => trivial) _ _
  apply Along.congr (I := fun s => ∃ cs k, s.InService cs k) ?_ hinit hfree hr
  rintro s e t ⟨cs, k, h⟩ - ht
  obtain ⟨hgood, hbad⟩ := h.step ht
  refine ⟨⟨?_, ?_⟩, hgood⟩
  · intro hturn u hu
    obtain rfl : t = u := Option.some.inj (ht.symm.trans hu)
    obtain ⟨ds, j, hnext⟩ := hgood hturn
    exact hnext.ticketed.dispatched
  · intro hall
    by_contra hturn
    exact hbad hturn (hall t ht)

end Queue

/-- Two calls sleep, are served in turn and leave an empty queue. -/
theorem run_dispatched_iff_two : ∃ t,
    run (step (fun i => BitVec.ofNat 8 i) fun _ => 0) (ataInit fun _ => ⟨false, 0, 0, false, 0, 0⟩)
      [.read ⟨1, 5, 3, 0x100000⟩, .read ⟨2, 6, 2, 0x200000⟩, .settle true, .handler, .resume 1,
        .settle true, .handler, .resume 2] = some t ∧
    t.sent = [0, 1] ∧ t.queued = [] ∧
    Along (step (fun i => BitVec.ofNat 8 i) fun _ => 0)
      (fun s e => ∀ t ∈ s.step (fun i => BitVec.ofNat 8 i) (fun _ => 0) e, t.Dispatched)
      (ataInit fun _ => ⟨false, 0, 0, false, 0, 0⟩)
      [.read ⟨1, 5, 3, 0x100000⟩, .read ⟨2, 6, 2, 0x200000⟩, .settle true, .handler, .resume 1,
        .settle true, .handler, .resume 2] := by
  have hend : (run (step (fun i => BitVec.ofNat 8 i) fun _ => 0)
      (ataInit fun _ => ⟨false, 0, 0, false, 0, 0⟩) [.read ⟨1, 5, 3, 0x100000⟩,
        .read ⟨2, 6, 2, 0x200000⟩, .settle true, .handler, .resume 1, .settle true, .handler,
        .resume 2]).map (fun t => (t.sent, t.queued)) = some ([0, 1], []) := by decide +kernel
  obtain ⟨t, ht, hview⟩ := Option.map_eq_some_iff.mp hend
  obtain ⟨hsent, hqueued⟩ := Prod.mk.inj hview
  exact ⟨t, ht, hsent, hqueued, (run_dispatched_iff _ ht).mpr (by decide +kernel)⟩

/-- The device fails the first command: the call returns -1, and its request stays the head of the
queue. -/
theorem error_leaves_request : ∃ t,
    run (step (fun i => BitVec.ofNat 8 i) fun _ => 0) (ataInit fun _ => ⟨false, 0, 0, false, 0, 0⟩)
      [.read ⟨1, 5, 3, 0x100000⟩, .settle false, .handler, .resume 1] = some t ∧
    t.returned = [0] ∧ t.queued = [0] ∧ ¬t.Dispatched := by
  have hend : (run (step (fun i => BitVec.ofNat 8 i) fun _ => 0)
      (ataInit fun _ => ⟨false, 0, 0, false, 0, 0⟩) [.read ⟨1, 5, 3, 0x100000⟩, .settle false,
        .handler, .resume 1]).map (fun t => (t.returned, t.queued)) = some ([0], [0]) := by
    decide +kernel
  obtain ⟨t, ht, hview⟩ := Option.map_eq_some_iff.mp hend
  obtain ⟨hreturned, hqueued⟩ := Prod.mk.inj hview
  refine ⟨t, ht, hreturned, hqueued, ?_⟩
  intro h
  have hleft := h.left 0 (hreturned ▸ List.mem_cons_self)
  rw [hqueued] at hleft
  exact hleft List.mem_cons_self

end AtaTrace
end Amaterasu
