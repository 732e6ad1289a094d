import Amaterasu.Ata.Trace

/-! Which process waits for which request, in every run: also when calls fail, or serve a request of
another call. -/

namespace Amaterasu
open Function Runs
namespace AtaTrace

/-- The requests in the queue, as their processes and tickets. -/
def pending (s : AtaTrace) : List (Nat × Nat) :=
  CircularQueue.toList ataRequestQueueCapacity
    { s.queue with body := fun i => ((s.queue.body i).process, s.tickets i) }

/-- A request whose call has not returned is the one that its process is asleep for. -/
structure Ledger (s : AtaTrace) : Prop where
  fits : s.queue.Fits ataRequestQueueCapacity
  own : ∀ p c, s.asleep p = some c → c.process = p
  owed : ∀ r ∈ s.pending, r.2 ∉ s.returned → (s.asleep r.1).isSome ∧ s.ticket r.1 = r.2
  live : ∀ p, (s.asleep p).isSome → s.ticket p ∉ s.returned ∧ s.ticket p < s.pushed
  past : ∀ n ∈ s.returned, n < s.pushed
  distinct : ∀ p q, (s.asleep p).isSome → (s.asleep q).isSome →
    s.ticket p = s.ticket q → p = q

section Queue
variable {disk : Nat → BitVec 8} {floating : Nat → BitVec 16} {s t : AtaTrace} {c : AtaCall}
  {ok : Bool} {p : Nat}

theorem pending_submitted (hs : s.queue.size < ataRequestQueueCapacity) :
    (s.submitted c).pending = s.pending ++ [(c.process, s.pushed)] := by
  have hbody : (fun i => (((s.submitted c).queue.body i).process, (s.submitted c).tickets i)) =
      update (fun i => ((s.queue.body i).process, s.tickets i))
        (s.queue.slot ataRequestQueueCapacity s.queue.size) (c.process, s.pushed) := by
    funext i
    show ((update s.queue.body _ c.request i).process, update s.tickets _ s.pushed i) = _
    by_cases hi : i = s.queue.slot ataRequestQueueCapacity s.queue.size
    · rw [hi, update_self, update_self, update_self]
      rfl
    · rw [update_of_ne hi, update_of_ne hi, update_of_ne hi]
  have hpush := CircularQueue.toList_push
    (r := { s.queue with body := fun i => ((s.queue.body i).process, s.tickets i) }) hs
    (c.process, s.pushed)
  unfold pending
  rw [hbody]
  exact hpush

theorem pending_head (hf : s.queue.Fits ataRequestQueueCapacity) (hpos : 0 < s.queue.size) :
    s.pending.head? = some (s.queue.front.process, s.tickets s.queue.head) := by
  have hghost : CircularQueue.Fits ataRequestQueueCapacity
      { s.queue with body := fun i => ((s.queue.body i).process, s.tickets i) } :=
    ⟨hf.head, hf.size⟩
  unfold pending
  rw [CircularQueue.toList_pop hghost hpos]
  rfl

theorem rest_fits (hf : s.queue.Fits ataRequestQueueCapacity) :
    s.rest.Fits ataRequestQueueCapacity := by
  unfold rest ataRequestQueuePop
  split_ifs
  · exact hf.modifyFront _
  · exact (hf.modifyFront _).pop

theorem pending_serve (disk : Nat → BitVec 8) (floating : Nat → BitVec 16) (c : AtaCall)
    (hf : s.queue.Fits ataRequestQueueCapacity) :
    (s.serve disk floating c).queue.Fits ataRequestQueueCapacity ∧
      ∀ r ∈ (s.serve disk floating c).pending, r ∈ s.pending := by
  by_cases hd : s.device = .failed
  · rw [serve_failed disk floating c hd]
    exact ⟨hf, fun r hr => hr⟩
  have hqueue := serve_queue disk floating c hd
  have htickets : (s.serve disk floating c).tickets = s.tickets := by
    rw [serve_front disk floating c hd]
  rw [hqueue]
  refine ⟨rest_fits hf, fun r hr => ?_⟩
  -- the entry is filled in, for the same process
  have hprocess : ∀ i, (s.rest.body i).process = (s.queue.body i).process := by
    intro i
    have hbody : s.rest.body = update s.queue.body s.queue.head
        { s.queue.front with isComplete := true } := by
      unfold rest ataRequestQueuePop
      split_ifs <;> rfl
    rw [hbody, update_apply]
    split_ifs with hi
    · rw [hi]
      rfl
    · rfl
  unfold pending at hr ⊢
  rw [hqueue, htickets] at hr
  simp only [hprocess] at hr
  by_cases h0 : s.queue.size = 0
  · have hrest : s.rest = s.queue.modifyFront ({ · with isComplete := true }) := if_pos h0
    rw [hrest] at hr
    exact hr
  · have hrest : s.rest = (s.queue.modifyFront ({ · with isComplete := true })).pop
        ataRequestQueueCapacity := if_neg h0
    have hghost : CircularQueue.Fits ataRequestQueueCapacity
        { s.queue with body := fun i => ((s.queue.body i).process, s.tickets i) } :=
      ⟨hf.head, hf.size⟩
    rw [CircularQueue.toList_pop hghost (Nat.pos_of_ne_zero h0)]
    rw [hrest] at hr
    exact List.mem_cons_of_mem _ hr

theorem serve_ghost (disk : Nat → BitVec 8) (floating : Nat → BitVec 16) (c : AtaCall)
    (s : AtaTrace) :
    (s.serve disk floating c).pushed = s.pushed ∧ (s.serve disk floating c).ticket = s.ticket ∧
      (s.serve disk floating c).returned = s.ticket c.process :: s.returned := by
  by_cases hd : s.device = .failed
  · rw [serve_failed disk floating c hd]
    exact ⟨rfl, rfl, rfl⟩
  · rw [serve_front disk floating c hd]
    exact ⟨rfl, rfl, rfl⟩

/-! ## Steps -/

/-- The queue's requests and the calls asleep are all that the ledger is about. -/
theorem Ledger.of_eq (h : s.Ledger) (hqueue : t.queue = s.queue) (htickets : t.tickets = s.tickets)
    (hasleep : t.asleep = s.asleep) (hticket : t.ticket = s.ticket)
    (hreturned : t.returned = s.returned) (hpushed : t.pushed = s.pushed) : t.Ledger := by
  have hpending : t.pending = s.pending := by
    unfold pending
    rw [hqueue, htickets]
  constructor
  · exact hqueue ▸ h.fits
  · exact hasleep ▸ h.own
  · rw [hpending, hreturned, hasleep, hticket]
    exact h.owed
  · rw [hreturned, hasleep, hticket, hpushed]
    exact h.live
  · rw [hreturned, hpushed]
    exact h.past
  · rw [hasleep, hticket]
    exact h.distinct

theorem ataInit_ledger (body : Nat → AtaRequest) : (ataInit body).Ledger where
  fits := ⟨(by decide : 0 < ataRequestQueueCapacity), Nat.zero_le _⟩
  own p c hp := nomatch hp
  owed r hr := absurd hr List.not_mem_nil
  live p hp := nomatch hp
  past n hn := absurd hn List.not_mem_nil
  distinct p q hp := nomatch hp

/-- A call that gets into the queue is owed its return, with a ticket of its own. -/
theorem Ledger.asks (h : s.Ledger) (hs : s.queue.size ≠ ataRequestQueueCapacity)
    (hnone : s.asleep c.process = none) :
    Ledger { s.submitted c with asleep := update s.asleep c.process (some c) } := by
  have hlt : s.queue.size < ataRequestQueueCapacity := lt_of_le_of_ne h.fits.size hs
  have hne : ∀ q, (s.asleep q).isSome → q ≠ c.process := by
    intro q hq heq
    rw [heq, hnone] at hq
    cases hq
  have hticket : ∀ q, q ≠ c.process → (s.submitted c).ticket q = s.ticket q :=
    fun q hq => update_of_ne hq _ _
  have hself : (s.submitted c).ticket c.process = s.pushed := update_self ..
  have hmem : ∀ q, (update s.asleep c.process (some c) q).isSome →
      q = c.process ∨ q ≠ c.process ∧ (s.asleep q).isSome := by
    intro q hq
    by_cases heq : q = c.process
    · exact Or.inl heq
    · rw [update_of_ne heq] at hq
      exact Or.inr ⟨heq, hq⟩
  constructor
  · exact h.fits.push hlt _
  · intro p d hp
    change update s.asleep c.process (some c) p = some d at hp
    by_cases heq : p = c.process
    · rw [heq, update_self] at hp
      rw [heq, Option.some.inj hp]
    · rw [update_of_ne heq] at hp
      exact h.own p d hp
  · intro r hr hreturned
    change (update s.asleep c.process (some c) r.1).isSome ∧ (s.submitted c).ticket r.1 = r.2
    have hr' : r ∈ (s.submitted c).pending := hr
    rw [pending_submitted hlt, List.mem_append, List.mem_singleton] at hr'
    rcases hr' with hr' | rfl
    · obtain ⟨hsome, heq⟩ := h.owed r hr' hreturned
      rw [update_of_ne (hne _ hsome), hticket _ (hne _ hsome)]
      exact ⟨hsome, heq⟩
    · rw [update_self]
      exact ⟨rfl, hself⟩
  · intro p hp
    change (s.submitted c).ticket p ∉ s.returned ∧ (s.submitted c).ticket p < s.pushed + 1
    obtain rfl | ⟨hpc, hsome⟩ := hmem p hp
    · rw [hself]
      exact ⟨fun hn => absurd (h.past _ hn) (lt_irrefl _), Nat.lt_succ_self _⟩
    · rw [hticket p hpc]
      exact ⟨(h.live p hsome).1, Nat.lt_succ_of_lt (h.live p hsome).2⟩
  · exact fun n hn => Nat.lt_succ_of_lt (h.past n hn)
  · intro p q hp hq heq
    change (s.submitted c).ticket p = (s.submitted c).ticket q at heq
    obtain rfl | ⟨hpc, hp⟩ := hmem p hp <;> obtain rfl | ⟨hqc, hq⟩ := hmem q hq
    · rfl
    · -- the ticket of the other one is older
      rw [hself, hticket q hqc] at heq
      exact absurd heq (h.live q hq).2.ne'
    · rw [hself, hticket p hpc] at heq
      exact absurd heq (h.live p hp).2.ne
    · rw [hticket p hpc, hticket q hqc] at heq
      exact h.distinct p q hp hq heq

/-- A call that returns is not owed anything any more, whichever request it has served. -/
theorem Ledger.returns (disk : Nat → BitVec 8) (floating : Nat → BitVec 16) (h : s.Ledger)
    (hp : s.asleep p = some c) :
    Ledger ({ s with asleep := update s.asleep p none }.serve disk floating c) := by
  obtain rfl := h.own p c hp
  have hsome : (s.asleep c.process).isSome := by
    rw [hp]
    rfl
  let u : AtaTrace := { s with asleep := update s.asleep c.process none }
  obtain ⟨hfits, hpending⟩ := pending_serve disk floating c (s := u) h.fits
  obtain ⟨hpushed, hticket, hreturned⟩ := serve_ghost disk floating c u
  obtain ⟨hasleep, -⟩ := serve_kept disk floating c u
  have hother : ∀ q, ((u.serve disk floating c).asleep q).isSome →
      q ≠ c.process ∧ (s.asleep q).isSome := by
    intro q hq
    rw [hasleep] at hq
    change (update s.asleep c.process none q).isSome at hq
    by_cases heq : q = c.process
    · rw [heq, update_self] at hq
      cases hq
    · rw [update_of_ne heq] at hq
      exact ⟨heq, hq⟩
  constructor
  · exact hfits
  · intro q d hq
    obtain ⟨hne, -⟩ := hother q (hq ▸ rfl)
    rw [hasleep] at hq
    exact h.own q d ((update_of_ne hne _ _).symm.trans hq)
  · intro r hr hnot
    rw [hreturned, List.mem_cons, not_or] at hnot
    obtain ⟨hnew, hold⟩ := hnot
    obtain ⟨hasleep', heq⟩ := h.owed r (hpending r hr) hold
    have hne : r.1 ≠ c.process := by
      intro hrc
      apply hnew
      rw [← heq, hrc]
    rw [hasleep, hticket]
    change (update s.asleep c.process none r.1).isSome ∧ s.ticket r.1 = r.2
    rw [update_of_ne hne]
    exact ⟨hasleep', heq⟩
  · intro q hq
    obtain ⟨hne, hq⟩ := hother q hq
    rw [hticket, hreturned, hpushed, List.mem_cons, not_or]
    exact ⟨⟨fun heq => hne (h.distinct q c.process hq hsome heq), (h.live q hq).1⟩,
      (h.live q hq).2⟩
  · intro n hn
    rw [hreturned] at hn
    rw [hpushed]
    rcases List.mem_cons.mp hn with rfl | hn
    · exact (h.live c.process hsome).2
    · exact h.past n hn
  · intro q r hq hr heq
    rw [hticket] at heq
    exact h.distinct q r (hother q hq).2 (hother r hr).2 heq

theorem Ledger.step {e : AtaSystem.Event} (h : s.Ledger)
    (ht : s.step disk floating e = some t) : t.Ledger := by
  cases e with
  | read c =>
    obtain ⟨hnone, ⟨-, rfl⟩ | ⟨hspace, rfl⟩⟩ := step_read ht
    · exact h.of_eq rfl rfl rfl rfl rfl rfl
    · exact (h.asks hspace hnone).of_eq rfl rfl rfl rfl rfl rfl
  | poll c ok =>
    obtain ⟨hnone, ⟨-, rfl⟩ | ⟨hspace, u, hu, rfl⟩⟩ := step_poll ht
    · exact h.of_eq rfl rfl rfl rfl rfl rfl
    obtain ⟨⟨d, i, rfl⟩, -⟩ := AtaSystem.polled hu
    -- a polling call is one that sleeps and goes on at once
    let v : AtaTrace := { s.submitted c with
      asleep := update s.asleep c.process (some c)
      device := d
      interrupt := i }
    have hv : v.Ledger := (h.asks hspace hnone).of_eq rfl rfl rfl rfl rfl rfl
    have hback : update v.asleep c.process none = (s.submitted c).asleep := by
      show update (update s.asleep c.process (some c)) c.process none = s.asleep
      rw [update_idem, ← hnone, update_eq_self]
    have hreturns := hv.returns disk floating (c := c) (update_self ..)
    rw [hback] at hreturns
    exact hreturns
  | settle ok =>
    obtain ⟨d, rfl⟩ := step_settle ht
    exact h.of_eq rfl rfl rfl rfl rfl rfl
  | handler =>
    obtain rfl := step_handler ht
    exact h.of_eq rfl rfl rfl rfl rfl rfl
  | resume p =>
    obtain ⟨c, hp, -, rfl⟩ := step_resume ht
    exact h.returns disk floating hp

/-- A request at the head of the queue that is still owed: its process is asleep for it. -/
theorem Ledger.head (h : s.Ledger) (hpos : 0 < s.queue.size)
    (howed : s.tickets s.queue.head ∉ s.returned) :
    (s.asleep s.queue.front.process).isSome ∧
      s.ticket s.queue.front.process = s.tickets s.queue.head :=
  h.owed _ (List.mem_of_mem_head? (pending_head h.fits hpos)) howed

end Queue
end AtaTrace
end Amaterasu
