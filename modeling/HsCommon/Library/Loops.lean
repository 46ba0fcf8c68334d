import HsCommon.Library.Outcome

/-!
# Loops that are left in the middle

A round of such a loop leaves it with a result or comes back to the head. The
states in which a loop stands at its head do not depend on a budget of rounds;
what the loop gives comes from a round begun in one of them.
-/

namespace Loop
open Outcome
universe u
variable {ε : Type u} {σ ρ : Type u} {round : σ → Except ε (Option ρ × σ)} {s s' t : σ}

def resume (next : σ → Except ε (ρ × σ)) : Option ρ × σ → Except ε (ρ × σ)
  | (some r, s) => .ok (r, s)
  | (none, s) => next s

/-- At most `fuel` rounds; `fault` when they are not enough. -/
def loop (round : σ → Except ε (Option ρ × σ)) (fault : ε) : ℕ → σ → Except ε (ρ × σ)
  | 0, _ => .error fault
  | fuel + 1, s => round s >>= resume (loop round fault fuel)

inductive Head (round : σ → Except ε (Option ρ × σ)) (s₀ : σ) : σ → Prop
  | first : Head round s₀ s₀
  | again {s s' : σ} : Head round s₀ s → round s = .ok (none, s') → Head round s₀ s'

theorem Head.later (hs : round s = .ok (none, s')) (h : Head round s' t) : Head round s t := by
  induction h with
  | first => exact .again .first hs
  | again _ ht ih => exact ih.again ht

theorem head_iff : Head round s t ↔ t = s ∨ ∃ s', round s = .ok (none, s') ∧ Head round s' t := by
  constructor
  · intro h
    induction h with
    | first => exact Or.inl rfl
    | again _ ht ih =>
      rcases ih with rfl | ⟨s', hs, hhead⟩
      · exact Or.inr ⟨_, ht, .first⟩
      · exact Or.inr ⟨s', hs, hhead.again ht⟩
  · intro h
    rcases h with rfl | ⟨s', hs, hhead⟩
    · exact .first
    · exact hhead.later hs

theorem forall_head_again {P : σ → Prop} (hs : round s = .ok (none, s')) :
    (∀ t, Head round s t → P t) ↔ P s ∧ ∀ t, Head round s' t → P t := by
  constructor
  · intro h
    exact ⟨h s .first, fun t ht => h t (ht.later hs)⟩
  · intro h t ht
    rcases head_iff.mp ht with rfl | ⟨s₁, hs₁, ht⟩
    · exact h.1
    · rw [hs] at hs₁
      cases hs₁
      exact h.2 t ht

theorem forall_head_left {P : σ → Prop} {r : ρ} (hs : round s = .ok (some r, s')) :
    (∀ t, Head round s t → P t) ↔ P s := by
  constructor
  · intro h
    exact h s .first
  · intro h t ht
    rcases head_iff.mp ht with rfl | ⟨s₁, hs₁, -⟩
    · exact h
    · rw [hs] at hs₁
      cases hs₁

theorem ends_loop {Q : ρ × σ → Prop} {fault : ε} (fuel : ℕ)
    (hleave : ∀ t, Head round s t → ∀ r t', round t = .ok (some r, t') → Q (r, t')) :
    Ends Q (fun _ => True) (loop round fault fuel s) := by
  induction fuel generalizing s with
  | zero => trivial
  | succ fuel ih =>
    rw [loop]
    cases hround : round s with
    | error e => trivial
    | ok result =>
      obtain ⟨r, s'⟩ := result
      cases r with
      | some r => exact hleave s .first r s' hround
      | none => exact ih fun t ht => hleave t (ht.later hround)

/-- A loop whose rounds all succeed, and that comes back to its head with less to do, is left. -/
theorem loop_left {fault : ε} (μ : σ → ℕ) (hround : ∀ t, Head round s t → ∃ r, round t = .ok r)
    (hless : ∀ t t', Head round s t → round t = .ok (none, t') → μ t' < μ t) {fuel : ℕ}
    (hfuel : μ s < fuel) : ∃ r, loop round fault fuel s = .ok r := by
  induction fuel generalizing s with
  | zero => omega
  | succ fuel ih =>
    obtain ⟨⟨r, s'⟩, hs⟩ := hround s .first
    cases r with
    | some r =>
      rw [loop, hs]
      exact ⟨(r, s'), rfl⟩
    | none =>
      have hlt := hless s s' .first hs
      obtain ⟨r, hr⟩ := ih (fun t ht => hround t (ht.later hs))
        (fun t t' ht => hless t t' (ht.later hs)) (by omega)
      rw [loop, hs]
      exact ⟨r, hr⟩

end Loop
