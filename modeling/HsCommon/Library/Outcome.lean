import Mathlib.Tactic

/-!
# Outcomes of computations that may fail

`Ends P F x` says that the result of `x` has `P` if there is one, and that the
fault has `F` if there is none. The rules follow the shape of the program.
-/

namespace Outcome
universe u v
variable {ε : Type u} {α β : Type v}

def Ends (P : α → Prop) (F : ε → Prop) : Except ε α → Prop
  | .ok a => P a
  | .error f => F f

variable {P : α → Prop} {Q : β → Prop} {F : ε → Prop}

theorem Ends.bind {x : Except ε α} {f : α → Except ε β} (h : Ends P F x)
    (hf : ∀ a, P a → Ends Q F (f a)) : Ends Q F (x >>= f) := by
  cases x with
  | error e => exact h
  | ok a => exact hf a h

theorem Ends.ite {c : Prop} [Decidable c] {x y : Except ε α} (h : c → Ends P F x)
    (h' : ¬ c → Ends P F y) : Ends P F (if c then x else y) := by
  by_cases hc : c
  · rw [if_pos hc]
    exact h hc
  · rw [if_neg hc]
    exact h' hc

theorem Ends.mono {P' : α → Prop} {x : Except ε α} (h : Ends P F x) (hP : ∀ a, P a → P' a) :
    Ends P' F x := by
  cases x with
  | error e => exact h
  | ok a => exact hP a h

theorem Ends.and {P' : α → Prop} {x : Except ε α} (h : Ends P F x) (h' : Ends P' F x) :
    Ends (fun a => P a ∧ P' a) F x := by
  cases x with
  | error e => exact h
  | ok a => exact ⟨h, h'⟩

theorem Ends.of_eq {x : Except ε α} {a : α} (h : x = .ok a) (ha : P a) : Ends P F x := by
  rw [h]
  exact ha

theorem Ends.result {x : Except ε α} (h : Ends P F x) {a : α} (ha : x = .ok a) : P a := by
  rw [ha] at h
  exact h

theorem Ends.fault {x : Except ε α} (h : Ends P F x) {e : ε} (he : x = .error e) : F e := by
  rw [he] at h
  exact h

theorem eq_ok_of_toOption {x : Except ε α} {a : α} (h : x.toOption = some a) : x = .ok a := by
  cases x with
  | error e => cases h
  | ok b => exact congrArg _ (Option.some.inj h)

theorem exists_of_bind {x : Except ε α} {f : α → Except ε β} {b : β} (h : x >>= f = .ok b) :
    ∃ a, x = .ok a ∧ f a = .ok b := by
  cases x with
  | error e => cases h
  | ok a => exact ⟨a, rfl, h⟩

theorem mapM_eq_map {f : α → Except ε β} {g : α → β} {as : List α}
    (h : ∀ a ∈ as, f a = .ok (g a)) : as.mapM f = .ok (as.map g) := by
  induction as with
  | nil => rfl
  | cons a as ih =>
    have hrest := ih fun a' ha' => h a' (List.mem_cons_of_mem _ ha')
    rw [List.mapM_cons, h a List.mem_cons_self, hrest]
    rfl

theorem exists_result {a : α} : (∃ b, (.ok a : Except ε α) = .ok b ∧ P b) ↔ P a := by
  constructor
  · rintro ⟨b, hb, hP⟩
    exact Except.ok.inj hb ▸ hP
  · intro hP
    exact ⟨a, rfl, hP⟩

theorem no_result {e : ε} : ¬ ∃ b, (.error e : Except ε α) = .ok b ∧ P b := by
  rintro ⟨b, hb, -⟩
  cases hb

theorem Ends.foldlM {f : α → β → Except ε α} {bs : List β}
    (hf : ∀ a, ∀ b ∈ bs, P a → Ends P F (f a b)) {a : α} (ha : P a) :
    Ends P F (bs.foldlM f a) := by
  induction bs generalizing a with
  | nil => exact ha
  | cons b bs ih =>
    rw [List.foldlM_cons]
    refine (hf a b List.mem_cons_self ha).bind fun a' ha' => ?_
    exact ih (fun a b hb => hf a b (List.mem_cons_of_mem _ hb)) ha'

theorem foldlM_error {f : α → β → Except ε α} {e : ε} {bs : List β}
    (hf : ∀ a, ∀ b ∈ bs, Ends (fun _ => True) (· = e) (f a b)) {b : β} (hb : b ∈ bs)
    (hbad : ∀ a, f a b = .error e) (a : α) : bs.foldlM f a = .error e := by
  induction bs generalizing a with
  | nil => cases hb
  | cons b' bs ih =>
    rw [List.foldlM_cons]
    rcases List.mem_cons.mp hb with rfl | hlater
    · rw [hbad a]
      rfl
    · have hround := hf a b' List.mem_cons_self
      cases hstep : f a b' with
      | error e' =>
        rw [hround.fault hstep]
        rfl
      | ok a' => exact ih (fun a b hin => hf a b (List.mem_cons_of_mem _ hin)) hlater a'

/-- The computation `x` gives what `y` gives, seen through `r`, and the same faults. -/
def Shows {γ : Type v} (r : α → γ) (x : Except ε α) (y : Except ε γ) : Prop := x.map r = y

theorem Shows.result {γ : Type v} {r : α → γ} {x : Except ε α} {y : Except ε γ} {a : α}
    (h : Shows r x y) (hx : x = .ok a) : y = .ok (r a) := by
  rw [← h, hx]
  rfl

theorem Shows.exists_result {γ : Type v} {r : α → γ} {x : Except ε α} {y : Except ε γ} {c : γ}
    (h : Shows r x y) (hy : y = .ok c) : ∃ a, x = .ok a ∧ r a = c := by
  obtain rfl : x.map r = y := h
  cases x with
  | error e => cases hy
  | ok a => exact ⟨a, rfl, Except.ok.inj hy⟩

theorem Shows.bind {γ δ : Type v} {r : α → γ} {r' : β → δ} {x : Except ε α} {y : Except ε γ}
    {f : α → Except ε β} {g : γ → Except ε δ} (h : Shows r x y)
    (hf : ∀ a, Shows r' (f a) (g (r a))) : Shows r' (x >>= f) (y >>= g) := by
  cases x with
  | error e =>
    obtain rfl : .error e = y := h
    rfl
  | ok a =>
    obtain rfl : .ok (r a) = y := h
    exact hf a

theorem Shows.bind_same {γ δ : Type v} {r : α → γ} {x : Except ε δ} {f : δ → Except ε α}
    {g : δ → Except ε γ} (hf : ∀ a, Shows r (f a) (g a)) : Shows r (x >>= f) (x >>= g) := by
  cases x with
  | error e => rfl
  | ok a => exact hf a

theorem Shows.ite {γ : Type v} {r : α → γ} {c : Prop} [Decidable c] {x x' : Except ε α}
    {y y' : Except ε γ} (h : c → Shows r x y) (h' : ¬ c → Shows r x' y') :
    Shows r (if c then x else x') (if c then y else y') := by
  by_cases hc : c
  · rw [if_pos hc, if_pos hc]
    exact h hc
  · rw [if_neg hc, if_neg hc]
    exact h' hc

theorem Shows.foldlM {γ : Type v} {r : α → γ} {f : α → β → Except ε α} {g : γ → β → Except ε γ}
    (hf : ∀ a b, Shows r (f a b) (g (r a) b)) (bs : List β) (a : α) :
    Shows r (bs.foldlM f a) (bs.foldlM g (r a)) := by
  induction bs generalizing a with
  | nil => rfl
  | cons b bs ih =>
    rw [List.foldlM_cons, List.foldlM_cons]
    exact (hf a b).bind ih

end Outcome
