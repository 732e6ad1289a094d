import Amaterasu.Ata.Runs

/-! The steps of `AtaSystem` with their history. The requests are told apart by tickets, in the
order of the pushes; recorded are the tickets that `ATASendRequest` programmed into the device and
those of the calls that returned. -/

namespace Amaterasu
open Function Runs

structure AtaTrace extends AtaSystem where
  pushed : Nat
  -- of the entry in each cell of `queueBody`
  tickets : Nat → Nat
  -- of the last request of each process
  ticket : Nat → Nat
  sent : List Nat
  returned : List Nat

namespace AtaTrace

def ataInit (body : Nat → AtaRequest) : AtaTrace where
  toAtaSystem := AtaSystem.ataInit body
  pushed := 0
  tickets _ := 0
  ticket _ := 0
  sent := []
  returned := []

/-- The tickets of the requests in the queue. -/
def queued (s : AtaTrace) : List Nat :=
  CircularQueue.toList ataRequestQueueCapacity { s.queue with body := s.tickets }

def ataSendRequest (s : AtaTrace) (index : Nat) : AtaTrace :=
  { s with
    toAtaSystem := s.toAtaSystem.ataSendRequest index
    sent := if (s.queue.body index).isWrite then s.sent else s.sent ++ [s.tickets index] }

def submit (s : AtaTrace) (c : AtaCall) : Option AtaTrace :=
  match ataRequestQueuePush s.queue c.request with
  | none => none
  | some (queue, pushedIndex) =>
    let s := { s with
      queue := queue
      pushed := s.pushed + 1
      tickets := update s.tickets pushedIndex s.pushed
      ticket := update s.ticket c.process s.pushed }
    some (if queue.size = 1 then s.ataSendRequest pushedIndex else s)

def refuse (s : AtaTrace) (c : AtaCall) : AtaTrace :=
  { s with toAtaSystem := s.toAtaSystem.refuse c }

section Steps
variable (disk : Nat → BitVec 8) (floating : Nat → BitVec 16)

def serve (s : AtaTrace) (c : AtaCall) : AtaTrace :=
  let request := ataRequestQueueFront s.queue
  let returned := s.ticket c.process :: s.returned
  if s.device = .failed then { s with outcomes := ⟨c, -1, []⟩ :: s.outcomes, returned := returned }
  else
    let stores := if request.isWrite then [] else request.copy (s.device.word disk floating)
    let device := if request.isWrite then s.device else s.device.advance request.words
    let queue := { s.queue with
      body := update s.queue.body s.queue.head { request with isComplete := true } }
    let queue := ataRequestQueuePop queue
    let s := { s with queue := queue, device := device }
    let s := if queue.size ≥ 1 then s.ataSendRequest queue.head else s
    { s with outcomes := ⟨c, request.sizeOfBytes, stores⟩ :: s.outcomes, returned := returned }

def step (s : AtaTrace) : AtaSystem.Event → Option AtaTrace
  | .read c =>
    if (s.asleep c.process).isSome then none
    else match s.submit c with
      | none => some (s.refuse c)
      | some s => some { s with
        state := update s.state c.process .sleep
        asleep := update s.asleep c.process (some c) }
  | .poll c ok =>
    if (s.asleep c.process).isSome then none
    else match s.submit c with
      | none => some (s.refuse c)
      | some s => (s.toAtaSystem.ataPollingUntilReady ok).map fun u =>
        serve disk floating { s with toAtaSystem := u } c
  | .settle ok => (s.toAtaSystem.settle ok).map fun u => { s with toAtaSystem := u }
  | .handler => if s.interrupt then some { s with toAtaSystem := s.toAtaSystem.ataHandler } else none
  | .resume p =>
    match s.asleep p, s.state p with
    | some c, .running => some ({ s with asleep := update s.asleep p none }.serve disk floating c)
    | _, _ => none

end Steps

/-! ## The steps without their history -/

section Erase
variable (disk : Nat → BitVec 8) (floating : Nat → BitVec 16) (s : AtaTrace) (c : AtaCall)

theorem submit_erase : (s.submit c).map toAtaSystem = s.toAtaSystem.submit c := by
  unfold submit AtaSystem.submit
  cases ataRequestQueuePush s.queue c.request with
  | none => rfl
  | some r =>
    dsimp only [Option.map_some]
    split_ifs <;> rfl

theorem serve_erase : (s.serve disk floating c).toAtaSystem =
    s.toAtaSystem.serve disk floating c := by
  unfold serve AtaSystem.serve
  dsimp only
  split_ifs <;> rfl

/-- Without their history the steps are those of the system. -/
theorem step_erase (e : AtaSystem.Event) : (s.step disk floating e).map toAtaSystem =
    s.toAtaSystem.step disk floating e := by
  cases e with
  | read c =>
    unfold step AtaSystem.step
    dsimp only
    rw [← submit_erase]
    split_ifs
    · rfl
    · cases s.submit c <;> rfl
  | poll c ok =>
    unfold step AtaSystem.step
    dsimp only
    rw [← submit_erase]
    split_ifs
    · rfl
    · cases s.submit c with
      | none => rfl
      | some t =>
        simp only [Option.map_some]
        cases t.toAtaSystem.ataPollingUntilReady ok with
        | none => rfl
        | some u => exact congrArg some (serve_erase disk floating _ c)
  | settle ok =>
    unfold step AtaSystem.step
    dsimp only
    cases s.toAtaSystem.settle ok <;> rfl
  | handler =>
    unfold step AtaSystem.step
    dsimp only
    split_ifs <;> rfl
  | resume p =>
    unfold step AtaSystem.step
    dsimp only
    cases s.asleep p with
    | none => rfl
    | some c =>
      cases s.state p with
      | running => exact congrArg some (serve_erase disk floating _ c)
      | sleep => rfl
      | zombie => rfl

end Erase

/-! ## What a step can do -/

/-- The state at the wait. -/
def submitted (s : AtaTrace) (c : AtaCall) : AtaTrace :=
  { s with
    toAtaSystem := s.toAtaSystem.submitted c
    pushed := s.pushed + 1
    tickets := update s.tickets (s.queue.slot ataRequestQueueCapacity s.queue.size) s.pushed
    ticket := update s.ticket c.process s.pushed
    sent := if s.queue.size = 0 then s.sent ++ [s.pushed] else s.sent }

/-- The queue once the front request has been filled. -/
def rest (s : AtaTrace) : AtaRequestQueue :=
  ataRequestQueuePop (s.queue.modifyFront ({ · with isComplete := true }))

section Step
variable {disk : Nat → BitVec 8} {floating : Nat → BitVec 16} {s t : AtaTrace} {c : AtaCall}
  {ok : Bool} {p : Nat}

theorem submit_full (hs : s.queue.size = ataRequestQueueCapacity) : s.submit c = none := by
  unfold submit ataRequestQueuePush
  rw [if_pos hs]

theorem submit_space (hs : s.queue.size ≠ ataRequestQueueCapacity) :
    s.submit c = some (s.submitted c) := by
  have herase := s.submit_erase c
  rw [AtaSystem.submit_space hs] at herase
  unfold submit ataRequestQueuePush at herase ⊢
  rw [if_neg hs] at herase ⊢
  dsimp only [Option.map_some] at herase ⊢
  unfold submitted
  rw [← Option.some.inj herase]
  by_cases h0 : s.queue.size = 0
  · have hone : s.queue.size + 1 = 1 := by omega
    simp only [if_pos h0, if_pos hone]
    unfold ataSendRequest
    simp only [update_self]
    rfl
  · have hone : s.queue.size + 1 ≠ 1 := by omega
    simp only [if_neg h0, if_neg hone]
    rfl

section Serve
variable (disk floating) (c)

theorem serve_failed (hd : s.device = .failed) : s.serve disk floating c =
    { s.refuse c with returned := s.ticket c.process :: s.returned } := by
  unfold serve
  rw [if_pos hd]
  rfl

theorem serve_front (hd : s.device ≠ .failed) : s.serve disk floating c =
    { s with
      toAtaSystem := s.toAtaSystem.serve disk floating c
      sent := if s.rest.size ≥ 1 ∧ ¬(s.rest.body s.rest.head).isWrite then
        s.sent ++ [s.tickets s.rest.head] else s.sent
      returned := s.ticket c.process :: s.returned } := by
  have hnext : ∀ (q : AtaRequestQueue) (u : AtaTrace),
      (if q.size ≥ 1 then u.ataSendRequest q.head else u) =
        { u with
          toAtaSystem := if q.size ≥ 1 then u.toAtaSystem.ataSendRequest q.head else u.toAtaSystem
          sent := if q.size ≥ 1 ∧ ¬(u.queue.body q.head).isWrite then
            u.sent ++ [u.tickets q.head] else u.sent } := by
    intro q u
    unfold ataSendRequest
    by_cases hsize : q.size ≥ 1 <;> by_cases hwrite : (u.queue.body q.head).isWrite <;>
      simp [hsize, hwrite]
  unfold serve AtaSystem.serve
  rw [if_neg hd, if_neg hd]
  dsimp only
  rw [hnext]
  rfl

theorem serve_queue (hd : s.device ≠ .failed) : (s.serve disk floating c).queue = s.rest := by
  obtain ⟨d, stores, heq, -⟩ := AtaSystem.serve_front disk floating c hd
  rw [serve_erase, heq]
  rfl

theorem serve_kept (s : AtaTrace) :
    (s.serve disk floating c).asleep = s.asleep ∧ (s.serve disk floating c).state = s.state := by
  by_cases hd : s.device = .failed
  · rw [serve_failed disk floating c hd]
    exact ⟨rfl, rfl⟩
  · obtain ⟨d, stores, heq, -⟩ := AtaSystem.serve_front disk floating c hd
    rw [serve_erase, heq]
    exact ⟨rfl, rfl⟩

end Serve

/-! Inversion, step by step. -/

theorem step_call {f : AtaTrace → Option AtaTrace}
    (ht : (if (s.asleep c.process).isSome then none
      else match s.submit c with
        | none => some (s.refuse c)
        | some u => f u) = some t) :
    s.asleep c.process = none ∧ (s.queue.size = ataRequestQueueCapacity ∧ t = s.refuse c ∨
      s.queue.size ≠ ataRequestQueueCapacity ∧ f (s.submitted c) = some t) := by
  refine call_cases submit_full submit_space ?_
  rw [← ht]
  cases s.submit c <;> rfl

theorem step_read (ht : s.step disk floating (.read c) = some t) :
    s.asleep c.process = none ∧
      (s.queue.size = ataRequestQueueCapacity ∧ t = s.refuse c ∨
        s.queue.size ≠ ataRequestQueueCapacity ∧
        t = { s.submitted c with
          state := update s.state c.process .sleep
          asleep := update s.asleep c.process (some c) }) := by
  unfold step at ht
  obtain ⟨hnone, hrefused | ⟨hspace, hu⟩⟩ := step_call ht
  · exact ⟨hnone, Or.inl hrefused⟩
  · exact ⟨hnone, Or.inr ⟨hspace, (Option.some.inj hu).symm⟩⟩

theorem step_poll (ht : s.step disk floating (.poll c ok) = some t) :
    s.asleep c.process = none ∧
      (s.queue.size = ataRequestQueueCapacity ∧ t = s.refuse c ∨
        s.queue.size ≠ ataRequestQueueCapacity ∧
        ∃ u, (s.submitted c).toAtaSystem.ataPollingUntilReady ok = some u ∧
          t = serve disk floating { s.submitted c with toAtaSystem := u } c) := by
  unfold step at ht
  obtain ⟨hnone, hrefused | ⟨hspace, hserve⟩⟩ := step_call ht
  · exact ⟨hnone, Or.inl hrefused⟩
  · obtain ⟨u, hu, hut⟩ := Option.map_eq_some_iff.mp hserve
    exact ⟨hnone, Or.inr ⟨hspace, u, hu, hut.symm⟩⟩

theorem step_poll_kept (ht : s.step disk floating (.poll c ok) = some t) :
    t.state = s.state ∧ t.asleep = s.asleep := by
  obtain ⟨-, ⟨-, rfl⟩ | ⟨-, u, hu, rfl⟩⟩ := step_poll ht
  · exact ⟨rfl, rfl⟩
  · obtain ⟨⟨d, i, rfl⟩, -⟩ := AtaSystem.polled hu
    obtain ⟨hasleep, hstate⟩ := serve_kept disk floating c
      { s.submitted c with device := d, interrupt := i }
    exact ⟨hstate, hasleep⟩

theorem step_settle (ht : s.step disk floating (.settle ok) = some t) :
    ∃ d, t = { s with device := d, interrupt := true } := by
  obtain ⟨u, hu, hut⟩ := Option.map_eq_some_iff.mp ht
  obtain ⟨command, -, rfl⟩ := AtaSystem.settle_inv hu
  exact ⟨_, hut.symm⟩

theorem step_handler (ht : s.step disk floating .handler = some t) :
    t = { s with toAtaSystem := s.toAtaSystem.ataHandler } := by
  unfold step at ht
  dsimp only at ht
  split_ifs at ht
  exact (Option.some.inj ht).symm

theorem step_resume (ht : s.step disk floating (.resume p) = some t) :
    ∃ c, s.asleep p = some c ∧ s.state p = .running ∧
      t = { s with asleep := update s.asleep p none }.serve disk floating c := by
  unfold step at ht
  dsimp only at ht
  split at ht
  · rename_i c hc hr
    exact ⟨c, hc, hr, (Option.some.inj ht).symm⟩
  · cases ht

theorem step_resume_kept (ht : s.step disk floating (.resume p) = some t) :
    t.state = s.state ∧ t.asleep = update s.asleep p none := by
  obtain ⟨c, -, -, rfl⟩ := step_resume ht
  obtain ⟨hasleep, hstate⟩ := serve_kept disk floating c { s with asleep := update s.asleep p none }
  exact ⟨hstate, hasleep⟩

end Step

end AtaTrace
end Amaterasu
