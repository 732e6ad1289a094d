import Mathlib.Data.List.Basic

/-! Runs of a partial step function, the runs whose steps all meet a condition,
and the induction that carries an invariant along them. -/

namespace Runs
variable {σ α : Type*} {step : σ → α → Option σ} {ok : σ → α → Prop} {I : σ → Prop}

/-- The state after the requests, when every one of them completes. -/
def run (step : σ → α → Option σ) : σ → List α → Option σ
  | s, [] => some s
  | s, a :: as => (step s a).bind fun t => run step t as

/-- Every step of the run meets `ok` in the state it starts from. -/
def Along (step : σ → α → Option σ) (ok : σ → α → Prop) : σ → List α → Prop
  | _, [] => True
  | s, a :: as => ok s a ∧ ∀ t ∈ step s a, Along step ok t as

instance decidableAlong [DecidableRel ok] : ∀ (s : σ) (as : List α),
    Decidable (Along step ok s as)
  | _, [] => inferInstanceAs (Decidable True)
  | s, a :: as =>
    have (t : σ) : Decidable (Along step ok t as) := decidableAlong t as
    inferInstanceAs (Decidable (ok s a ∧ ∀ t ∈ step s a, Along step ok t as))

theorem run_cons {s t : σ} {a : α} {as : List α} :
    run step s (a :: as) = some t ↔ ∃ u, step s a = some u ∧ run step u as = some t := by
  rw [run, Option.bind_eq_some_iff]

/-- What every step preserves holds after every run. -/
theorem run_invariant (hstep : ∀ s a t, I s → step s a = some t → I t) {s t : σ} {as : List α}
    (hs : I s) (hr : run step s as = some t) : I t := by
  induction as generalizing s with
  | nil => exact Option.some.inj hr ▸ hs
  | cons a as ih =>
    obtain ⟨u, hu, hut⟩ := run_cons.mp hr
    exact ih (hstep s a u hs hu) hut

/-- Conditioned steps that complete and preserve `I` make conditioned runs that do. -/
theorem Along.completes (hstep : ∀ s a, I s → ok s a → ∃ t, step s a = some t ∧ I t) {s : σ}
    {as : List α} (hs : I s) (hok : Along step ok s as) : ∃ t, run step s as = some t ∧ I t := by
  induction as generalizing s with
  | nil => exact ⟨s, rfl, hs⟩
  | cons a as ih =>
    obtain ⟨u, hu, hI⟩ := hstep s a hs hok.1
    obtain ⟨t, ht, hIt⟩ := ih hI (hok.2 u hu)
    exact ⟨t, run_cons.mpr ⟨u, hu, ht⟩, hIt⟩

/-- Along a conditioned run, what the invariant and the condition imply at every step. -/
theorem Along.imp {ok' : σ → α → Prop}
    (hstep : ∀ s a, I s → ok s a → ok' s a ∧ ∀ t ∈ step s a, I t) {s : σ} {as : List α} (hs : I s)
    (hok : Along step ok s as) : Along step ok' s as := by
  induction as generalizing s with
  | nil => trivial
  | cons a as ih =>
    obtain ⟨ha, hI⟩ := hstep s a hs hok.1
    exact ⟨ha, fun t ht => ih (hI t ht) (hok.2 t ht)⟩

/-- Two conditions that agree in the states of `I`, which steps that meet them keep. -/
theorem Along.iff {ok' : σ → α → Prop}
    (hstep : ∀ s a, I s → ((ok s a ↔ ok' s a) ∧ (ok s a → ∀ t ∈ step s a, I t))) {s : σ}
    {as : List α} (hs : I s) : Along step ok s as ↔ Along step ok' s as := by
  constructor
  · intro h
    apply h.imp _ hs
    intro s a hs ha
    exact ⟨(hstep s a hs).1.mp ha, (hstep s a hs).2 ha⟩
  · intro h
    apply h.imp _ hs
    intro s a hs ha
    have hok := (hstep s a hs).1.mpr ha
    exact ⟨hok, (hstep s a hs).2 hok⟩

/-- Two conditions that agree on the steps from `I` that meet `also` agree on such runs. -/
theorem Along.congr {ok' also : σ → α → Prop}
    (hstep : ∀ s a t, I s → also s a → step s a = some t →
      ((ok s a ↔ ok' s a) ∧ (ok s a → I t))) {s t : σ} {as : List α} (hs : I s)
    (hc : Along step also s as) (hr : run step s as = some t) :
    Along step ok s as ↔ Along step ok' s as := by
  induction as generalizing s with
  | nil => exact Iff.rfl
  | cons a as ih =>
    obtain ⟨u, hu, hut⟩ := run_cons.mp hr
    obtain ⟨hiff, hnext⟩ := hstep s a u hs hc.1 hu
    have htail : ok s a → (Along step ok u as ↔ Along step ok' u as) := fun ha =>
      ih (hnext ha) (hc.2 u hu) hut
    unfold Along
    simp only [hu, Option.mem_some_iff, forall_eq']
    constructor
    · intro h
      exact ⟨hiff.mp h.1, (htail h.1).mp h.2⟩
    · intro h
      exact ⟨hiff.mpr h.1, (htail (hiff.mpr h.1)).mpr h.2⟩

theorem Along.of_forall (h : ∀ s a, ok s a) (s : σ) (as : List α) : Along step ok s as := by
  induction as generalizing s with
  | nil => trivial
  | cons a as ih => exact ⟨h s a, fun t _ => ih t⟩

/-- What conditioned steps preserve holds after every conditioned run. -/
theorem Along.invariant (hstep : ∀ s a t, I s → ok s a → step s a = some t → I t) {s t : σ}
    {as : List α} (hs : I s) (hok : Along step ok s as) (hr : run step s as = some t) : I t := by
  induction as generalizing s with
  | nil => exact Option.some.inj hr ▸ hs
  | cons a as ih =>
    obtain ⟨u, hu, hut⟩ := run_cons.mp hr
    exact ih (hstep s a u hs hok.1 hu) (hok.2 u hu) hut

/-- A condition of one system along its runs, from a condition along the runs of another one that
`R` relates to it. -/
theorem Along.simulation {τ : Type*} {step' : τ → α → Option τ} {ok' : τ → α → Prop}
    {R : σ → τ → Prop}
    (hstep : ∀ s x a, R s x → ok' x a → ok s a ∧ ∀ t ∈ step s a, ∃ y ∈ step' x a, R t y)
    {s : σ} {x : τ} {as : List α} (hs : R s x) (hok : Along step' ok' x as) :
    Along step ok s as := by
  induction as generalizing s x with
  | nil => trivial
  | cons a as ih =>
    obtain ⟨ha, hnext⟩ := hstep s x a hs hok.1
    refine ⟨ha, fun t ht => ?_⟩
    obtain ⟨y, hy, hty⟩ := hnext t ht
    exact ih hty (hok.2 y hy)

/-- The steps of one system, followed by those of another one that `R` relates to it. -/
theorem Along.simulates {τ : Type*} {step' : τ → α → Option τ} {R : σ → τ → Prop}
    (hstep : ∀ s x a, R s x → ok s a → ∀ t ∈ step s a, ∃ y ∈ step' x a, R t y) {s t : σ} {x : τ}
    {as : List α} (hs : R s x) (hok : Along step ok s as) (hr : run step s as = some t) :
    ∃ y, run step' x as = some y ∧ R t y := by
  induction as generalizing s x with
  | nil => exact ⟨x, rfl, Option.some.inj hr ▸ hs⟩
  | cons a as ih =>
    obtain ⟨u, hu, hut⟩ := run_cons.mp hr
    obtain ⟨z, hz, huz⟩ := hstep s x a hs hok.1 u hu
    obtain ⟨y, hy, hty⟩ := ih huz (hok.2 u hu) hut
    exact ⟨y, run_cons.mpr ⟨z, hz, hy⟩, hty⟩

/-- One more step. -/
theorem Along.concat {s t u : σ} {a : α} {as : List α} (h : Along step ok s as)
    (hr : run step s as = some t) (ha : ok t a) (hu : step t a = some u) :
    Along step ok s (as ++ [a]) ∧ run step s (as ++ [a]) = some u := by
  induction as generalizing s with
  | nil =>
    obtain rfl := Option.some.inj hr
    exact ⟨⟨ha, fun _ _ => trivial⟩, run_cons.mpr ⟨u, hu, rfl⟩⟩
  | cons b as ih =>
    obtain ⟨v, hv, hvt⟩ := run_cons.mp hr
    obtain ⟨halong, hrun⟩ := ih (h.2 v hv) hvt
    refine ⟨⟨h.1, fun w hw => ?_⟩, run_cons.mpr ⟨v, hv, hrun⟩⟩
    exact Option.mem_unique hv hw ▸ halong

/-- A run in two parts. -/
theorem Along.split {s u : σ} {as bs : List α} (h : Along step ok s (as ++ bs))
    (hr : run step s (as ++ bs) = some u) :
    ∃ t, Along step ok s as ∧ run step s as = some t ∧ Along step ok t bs ∧
      run step t bs = some u := by
  induction as generalizing s with
  | nil => exact ⟨s, trivial, rfl, h, hr⟩
  | cons a as ih =>
    obtain ⟨v, hv, hvu⟩ := run_cons.mp hr
    obtain ⟨t, hok, hst, hrest⟩ := ih (h.2 v hv) hvu
    refine ⟨t, ⟨h.1, fun w hw => ?_⟩, run_cons.mpr ⟨v, hv, hst⟩, hrest⟩
    exact Option.mem_unique hv hw ▸ hok

end Runs
