import Mathlib.Data.List.Basic
import Mathlib.Tactic

/-!
# Runs of a labelled transition relation

A run is a list of labels with the state it leads to. The induction over runs is
done here once: an invariant of the steps holds of every state a run reaches.
-/

namespace Transition
variable {σ ε : Type*}

inductive Run (step : σ → ε → σ → Prop) (s₀ : σ) : List ε → σ → Prop where
  | nil : Run step s₀ [] s₀
  | snoc {es : List ε} {s s' : σ} {e : ε} :
      Run step s₀ es s → step s e s' → Run step s₀ (es ++ [e]) s'

variable {step step' : σ → ε → σ → Prop} {s₀ : σ}

theorem Run.invariant {P : σ → Prop} (h₀ : P s₀)
    (hstep : ∀ s e s', P s → step s e s' → P s') {es : List ε} {s : σ}
    (h : Run step s₀ es s) : P s := by
  induction h with
  | nil => exact h₀
  | snoc _ hs ih => exact hstep _ _ _ ih hs

theorem Run.history {P : List ε → σ → Prop} (h₀ : P [] s₀)
    (hstep : ∀ es s e s', P es s → step s e s' → P (es ++ [e]) s') {es : List ε} {s : σ}
    (h : Run step s₀ es s) : P es s := by
  induction h with
  | nil => exact h₀
  | snoc _ hs ih => exact hstep _ _ _ _ ih hs

theorem Run.cons {es : List ε} {e : ε} {s s' : σ} (hs : step s₀ e s) (h : Run step s es s') :
    Run step s₀ (e :: es) s' := by
  induction h with
  | nil => exact Run.nil.snoc hs
  | snoc _ hs' ih => exact ih.snoc hs'

theorem Run.append {es es' : List ε} {s s' : σ} (h : Run step s₀ es s) (h' : Run step s es' s') :
    Run step s₀ (es ++ es') s' := by
  induction h' with
  | nil => rwa [List.append_nil]
  | snoc _ hs ih =>
    rw [← List.append_assoc]
    exact ih.snoc hs

theorem Run.exists_last {es : List ε} {e : ε} {s : σ} (h : Run step s₀ (es ++ [e]) s) :
    ∃ m, Run step s₀ es m ∧ step m e s := by
  generalize hl : es ++ [e] = l at h
  cases h with
  | nil => simp at hl
  | @snoc es' m _ e' hrun hs =>
    obtain ⟨rfl, he⟩ := List.append_inj' hl rfl
    obtain rfl := List.singleton_inj.mp he
    exact ⟨m, hrun, hs⟩

theorem Run.exists_middle {es es' : List ε} {s : σ} (h : Run step s₀ (es ++ es') s) :
    ∃ m, Run step s₀ es m ∧ Run step m es' s := by
  induction es' using List.reverseRecOn generalizing s with
  | nil =>
    rw [List.append_nil] at h
    exact ⟨s, h, .nil⟩
  | append_singleton es' e ih =>
    rw [← List.append_assoc] at h
    obtain ⟨t, ht, hs⟩ := h.exists_last
    obtain ⟨m, hm, hrest⟩ := ih ht
    exact ⟨m, hm, hrest.snoc hs⟩

theorem Run.eq_of_nil {s : σ} (h : Run step s₀ [] s) : s = s₀ := by
  generalize hl : ([] : List ε) = l at h
  cases h with
  | nil => rfl
  | snoc => simp at hl

theorem Run.exists_first {es : List ε} {e : ε} {s : σ} (h : Run step s₀ (e :: es) s) :
    ∃ m, step s₀ e m ∧ Run step m es s := by
  obtain ⟨m, hfirst, hrest⟩ := @Run.exists_middle _ _ step s₀ [e] es s h
  obtain ⟨m', hnil, hs⟩ := @Run.exists_last _ _ step s₀ [] e m hfirst
  obtain rfl := hnil.eq_of_nil
  exact ⟨m, hs, hrest⟩

theorem Run.unique (hdet : ∀ s e s' s'', step s e s' → step s e s'' → s' = s'') {es : List ε}
    {s s' : σ} (h : Run step s₀ es s) (h' : Run step s₀ es s') : s = s' := by
  induction h generalizing s' with
  | nil =>
    generalize hl : ([] : List ε) = l at h'
    cases h' with
    | nil => rfl
    | snoc => simp at hl
  | snoc _ hs ih =>
    obtain ⟨m, hm, hs'⟩ := h'.exists_last
    obtain rfl := ih hm
    exact hdet _ _ _ _ hs hs'

theorem Run.refine {I : σ → Prop} (h₀ : I s₀)
    (hstep : ∀ s e s', I s → step s e s' → I s' ∧ step' s e s') {es : List ε} {s : σ}
    (h : Run step s₀ es s) : Run step' s₀ es s ∧ I s := by
  induction h with
  | nil => exact ⟨.nil, h₀⟩
  | snoc _ hs ih =>
    obtain ⟨hI, hs'⟩ := hstep _ _ _ ih.2 hs
    exact ⟨ih.1.snoc hs', hI⟩

theorem Run.mono (hsub : ∀ s e s', step s e s' → step' s e s') {es : List ε} {s : σ}
    (h : Run step s₀ es s) : Run step' s₀ es s := by
  induction h with
  | nil => exact .nil
  | snoc _ hs ih => exact ih.snoc (hsub _ _ _ hs)

/-- `step` restricted to the steps that meet `guard`. -/
def Guarded (guard : σ → ε → Prop) (step : σ → ε → σ → Prop) : σ → ε → σ → Prop :=
  fun s e s' => guard s e ∧ step s e s'

/-- `step` restricted to the steps that lead to a state with `P`. -/
def Keeping (P : σ → Prop) (step : σ → ε → σ → Prop) : σ → ε → σ → Prop :=
  fun s e s' => step s e s' ∧ P s'

theorem Run.of_guarded {guard : σ → ε → Prop} {es : List ε} {s : σ}
    (h : Run (Guarded guard step) s₀ es s) : Run step s₀ es s :=
  h.mono fun _ _ _ hs => hs.2

theorem Run.refine_iff {I : σ → Prop} (h₀ : I s₀)
    (hstep : ∀ s e s', I s → (step s e s' ↔ step' s e s') ∧ (step' s e s' → I s'))
    {es : List ε} {s : σ} : Run step s₀ es s ↔ Run step' s₀ es s := by
  constructor
  · intro h
    refine (h.refine h₀ fun s e s' hI hs => ?_).1
    obtain ⟨hiff, hkept⟩ := hstep s e s' hI
    exact ⟨hkept (hiff.mp hs), hiff.mp hs⟩
  · intro h
    refine (h.refine h₀ fun s e s' hI hs => ?_).1
    obtain ⟨hiff, hkept⟩ := hstep s e s' hI
    exact ⟨hkept hs, hiff.mpr hs⟩

theorem Run.guarded_iff {I : σ → Prop} {done : σ → ε → σ → Prop} {guard : σ → ε → Prop}
    (h₀ : I s₀) (hstep : ∀ s e s', I s → step s e s' →
      (done s e s' ↔ guard s e) ∧ (guard s e → I s')) {es : List ε} {s : σ} :
    Run (fun s e s' => step s e s' ∧ done s e s') s₀ es s ↔ Run (Guarded guard step) s₀ es s := by
  refine Run.refine_iff h₀ fun s e s' hI => ⟨?_, fun hs => (hstep s e s' hI hs.2).2 hs.1⟩
  constructor
  · intro hs
    exact ⟨(hstep s e s' hI hs.1).1.mp hs.2, hs.1⟩
  · intro hs
    exact ⟨hs.2, (hstep s e s' hI hs.2).1.mpr hs.1⟩

/-- A run meets the guard in every step, or the first step that does not leads to a state with `D`,
which the steps after it keep. -/
theorem Run.guarded_or {guard : σ → ε → Prop} {D : σ → Prop}
    (hbreak : ∀ es s e s', Run (Guarded guard step) s₀ es s → ¬ guard s e → step s e s' → D s')
    (hkeep : ∀ es s e s', Run step s₀ es s → D s → step s e s' → D s') {es : List ε} {s : σ}
    (h : Run step s₀ es s) : Run (Guarded guard step) s₀ es s ∨ D s := by
  induction h with
  | nil => exact Or.inl .nil
  | @snoc es s s' e hrun hs ih =>
    rcases ih with hg | hd
    · by_cases hguard : guard s e
      · exact Or.inl (hg.snoc ⟨hguard, hs⟩)
      · exact Or.inr (hbreak es s e s' hg hguard hs)
    · exact Or.inr (hkeep es s e s' hrun hd hs)

theorem possible_of_next {φ : Type*} {p : Prop} [Decidable p] {x : Except φ σ} {s' : σ}
    (h : (if p then x.toOption else none) = some s') : p ∧ x = .ok s' := by
  split_ifs at h with hp
  cases x with
  | error f => cases h
  | ok s => exact ⟨hp, congrArg Except.ok (Option.some.inj h)⟩

theorem Run.of_foldlM {next : σ → ε → Option σ}
    (hnext : ∀ s e s', next s e = some s' → step s e s') {es : List ε} {s : σ}
    (h : es.foldlM next s₀ = some s) : Run step s₀ es s := by
  induction es using List.reverseRecOn generalizing s with
  | nil =>
    obtain rfl := Option.some.inj h
    exact .nil
  | append_singleton es e ih =>
    rw [List.foldlM_append] at h
    obtain ⟨s₁, h₁, h₂⟩ := Option.bind_eq_some_iff.mp h
    rw [List.foldlM_cons] at h₂
    simp only [List.foldlM_nil, bind_pure] at h₂
    exact (ih h₁).snoc (hnext _ _ _ h₂)

theorem Run.of_observed {ω : Type*} {next : σ → ε → Option σ}
    (hnext : ∀ s e s', next s e = some s' → step s e s') {es : List ε} {f : σ → ω} {v : ω}
    (h : (es.foldlM next s₀).map f = some v) : ∃ s, Run step s₀ es s ∧ f s = v := by
  obtain ⟨s, hs, hf⟩ := Option.map_eq_some_iff.mp h
  exact ⟨s, .of_foldlM hnext hs, hf⟩

section Rest
variable {α : Type*} [Preorder α] [WellFoundedLT α] {μ : σ → α} {I : σ → Prop}

theorem exists_rest (hstep : ∀ s e s', I s → step s e s' → I s' ∧ μ s' < μ s) {s : σ} (h : I s) :
    ∃ es s', Run step s es s' ∧ ∀ e s'', ¬ step s' e s'' := by
  induction hμ : μ s using WellFoundedLT.induction generalizing s with
  | _ a ih =>
    by_cases hrest : ∀ e s', ¬ step s e s'
    · exact ⟨[], s, .nil, hrest⟩
    · push Not at hrest
      obtain ⟨e, s', hs⟩ := hrest
      obtain ⟨hI, hlt⟩ := hstep s e s' h hs
      obtain ⟨es, s'', hrun, hend⟩ := ih (μ s') (hμ ▸ hlt) hI rfl
      exact ⟨e :: es, s'', hrun.cons hs, hend⟩

theorem no_endless (hstep : ∀ s e s', I s → step s e s' → I s' ∧ μ s' < μ s) {s : σ} (h : I s) :
    ¬ ∃ f : ℕ → σ, f 0 = s ∧ ∀ n, ∃ e, step (f n) e (f (n + 1)) := by
  rintro ⟨f, rfl, hf⟩
  have hI : ∀ n, I (f n) := by
    intro n
    induction n with
    | zero => exact h
    | succ n ih =>
      obtain ⟨e, hs⟩ := hf n
      exact (hstep _ e _ ih hs).1
  obtain ⟨n, hn⟩ := WellFounded.not_rel_apply_succ (r := (· < ·)) (μ ∘ f)
  obtain ⟨e, hs⟩ := hf n
  exact hn (hstep _ e _ (hI n) hs).2

end Rest

end Transition
