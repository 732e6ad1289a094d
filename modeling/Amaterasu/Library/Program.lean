import Mathlib.Logic.Basic

/-! Programs that may stop for good, in the state they have reached, and what relates every state
they reach to the state they start from. -/

namespace Program
universe u
variable {ε σ τ α β : Type u}

/-- The state in which a program ends or stops. -/
def final : EStateM.Result ε σ α → σ
  | .ok _ s => s
  | .error _ s => s

/-- A program on a part of the state. -/
def onPart (get : σ → τ) (set : σ → τ → σ) (x : EStateM ε τ α) : EStateM ε σ α := fun s =>
  match x (get s) with
  | .ok a t => .ok a (set s t)
  | .error e t => .error e (set s t)

/-- However the program ends, `R` relates its start to its end. -/
def Keeps (R : σ → σ → Prop) (x : EStateM ε σ α) : Prop := ∀ s, R s (final (x s))

/-- The program always returns, with a result and an end that `R` relates to its start. -/
def Returns (R : σ → α → σ → Prop) (x : EStateM ε σ α) : Prop := ∀ s, ∃ a t, x s = .ok a t ∧ R s a t

section Bind
variable {x : EStateM ε σ α} {f : α → EStateM ε σ β} {s t : σ} {a : α} {e : ε}

theorem bind_ok (h : x s = .ok a t) : (x >>= f) s = f a t := by
  show EStateM.bind x f s = _
  unfold EStateM.bind
  rw [h]

theorem bind_error (h : x s = .error e t) : (x >>= f) s = .error e t := by
  show EStateM.bind x f s = _
  unfold EStateM.bind
  rw [h]

theorem bind_get (f : σ → EStateM ε σ β) (s : σ) : ((get : EStateM ε σ σ) >>= f) s = f s s := rfl

theorem ok_of_bind {b : β} {u : σ} (h : (x >>= f) s = .ok b u) :
    ∃ a t, x s = .ok a t ∧ f a t = .ok b u := by
  cases hx : x s with
  | ok a t => exact ⟨a, t, rfl, (bind_ok hx).symm.trans h⟩
  | error e t =>
    rw [bind_error hx] at h
    cases h

/-- A sequence ends where its second part does, or where its first part stops. -/
theorem final_bind (x : EStateM ε σ α) (f : α → EStateM ε σ β) (s : σ) :
    (∃ a t, x s = .ok a t ∧ final ((x >>= f) s) = final (f a t)) ∨
      final ((x >>= f) s) = final (x s) := by
  cases h : x s with
  | ok a t =>
    left
    exact ⟨a, t, rfl, congrArg final (bind_ok h)⟩
  | error e t =>
    right
    rw [bind_error h]
    rfl

end Bind

section Keeps
variable {R S : σ → σ → Prop} {x : EStateM ε σ α} {f : α → EStateM ε σ β}

theorem Keeps.imp (h : Keeps R x) (hRS : ∀ s t, R s t → S s t) : Keeps S x := fun s =>
  hRS s _ (h s)

theorem Keeps.pure (hrefl : ∀ s, R s s) (a : α) : Keeps R (pure a : EStateM ε σ α) := hrefl

theorem Keeps.bind (htrans : ∀ s t u, R s t → R t u → R s u) (hx : Keeps R x)
    (hf : ∀ a, Keeps R (f a)) : Keeps R (x >>= f) := by
  intro s
  rcases final_bind x f s with ⟨a, t, hxs, hfinal⟩ | hfinal
  · have hst := hx s
    rw [hxs] at hst
    rw [hfinal]
    exact htrans s t _ hst (hf a t)
  · rw [hfinal]
    exact hx s

theorem Keeps.onPart {get : τ → σ} {set : τ → σ → τ} (hx : Keeps R x)
    (hget : ∀ s t, get (set s t) = t) :
    Keeps (fun s t => R (get s) (get t)) (onPart get set x) := by
  intro s
  have h := hx (get s)
  unfold Program.onPart
  cases hr : x (get s) with
  | ok a t =>
    rw [hr] at h
    show R (get s) (get (set s t))
    rw [hget]
    exact h
  | error e t =>
    rw [hr] at h
    show R (get s) (get (set s t))
    rw [hget]
    exact h

end Keeps

section Returns
variable {R : σ → α → σ → Prop} {S : α → σ → β → σ → Prop} {T : σ → β → σ → Prop}
  {x y : EStateM ε σ α} {f : α → EStateM ε σ β} {c : Prop} [Decidable c]

theorem Returns.pure {a : α} (h : ∀ s, R s a s) : Returns R (pure a : EStateM ε σ α) := fun s =>
  ⟨a, s, rfl, h s⟩

theorem Returns.bind (hx : Returns R x) (hf : ∀ a, Returns (S a) (f a))
    (hT : ∀ s a t b u, R s a t → S a t b u → T s b u) : Returns T (x >>= f) := by
  intro s
  obtain ⟨a, t, hxs, hst⟩ := hx s
  obtain ⟨b, u, hfa, htu⟩ := hf a t
  exact ⟨b, u, (bind_ok hxs).trans hfa, hT s a t b u hst htu⟩

theorem Returns.ite (hx : Returns R x) (hy : Returns R y) : Returns R (if c then x else y) := by
  split
  · exact hx
  · exact hy

end Returns

section RunsWhen
variable {x : EStateM ε σ α} {f : α → EStateM ε σ β} {s : σ} {a : α} {b : β} {c c' : Prop}
  {P Q : σ → Prop}

/-- The program returns `a` in a state with `P` just when `c` holds, and stops for good otherwise. -/
structure RunsWhen (c : Prop) (x : EStateM ε σ α) (s : σ) (a : α) (P : σ → Prop) : Prop where
  runs : c → ∃ t, x s = .ok a t ∧ P t
  stops : ¬c → ∃ e t, x s = .error e t

theorem RunsWhen.pure (h : P s) : RunsWhen True (pure a : EStateM ε σ α) s a P :=
  ⟨fun _ => ⟨s, rfl, h⟩, fun hc => absurd trivial hc⟩

theorem RunsWhen.bind (hx : RunsWhen c x s a P) (hf : ∀ t, P t → RunsWhen c' (f a) t b Q) :
    RunsWhen (c ∧ c') (x >>= f) s b Q := by
  constructor
  · rintro ⟨hc, hc'⟩
    obtain ⟨t, hxs, ht⟩ := hx.runs hc
    obtain ⟨u, hft, hu⟩ := (hf t ht).runs hc'
    exact ⟨u, (bind_ok hxs).trans hft, hu⟩
  · intro hcc'
    by_cases hc : c
    · obtain ⟨t, hxs, ht⟩ := hx.runs hc
      obtain ⟨e, u, hft⟩ := (hf t ht).stops fun hc' => hcc' ⟨hc, hc'⟩
      exact ⟨e, u, (bind_ok hxs).trans hft⟩
    · obtain ⟨e, t, hxs⟩ := hx.stops hc
      exact ⟨e, t, bind_error hxs⟩

theorem RunsWhen.congr (h : RunsWhen c x s a P) (hc : c ↔ c') : RunsWhen c' x s a P :=
  ⟨fun h' => h.runs (hc.mpr h'), fun h' => h.stops fun hcc => h' (hc.mp hcc)⟩

/-- Past the first part of a sequence, its condition is known. -/
theorem RunsWhen.and (h : RunsWhen c x s a P) : RunsWhen c x s a fun t => c ∧ P t := by
  refine ⟨fun hc => ?_, h.stops⟩
  obtain ⟨t, hrun, ht⟩ := h.runs hc
  exact ⟨t, hrun, hc, ht⟩

end RunsWhen
end Program
