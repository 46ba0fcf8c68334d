import Mathlib.Data.List.Basic
import Mathlib.Tactic

/-!
# A stack of values on which calls are made

Positions count from 1 at the bottom and from -1 at the top. A protected call takes
a function and its arguments off the stack and puts a given number of results, or
one error value, in their place. A stop is a call that does not come back to its
caller: an error was thrown, the rules of the stack were broken, or the callee runs
for ever.
-/

namespace ValueStack
universe u
variable {V W : Type u}

inductive Stop
  | thrown
  | misuse
  | running
  deriving DecidableEq, Repr

def position (vs : List V) (index : ℤ) : Option ℕ :=
  if 0 < index ∧ index ≤ vs.length then some (index - 1).toNat
  else if index < 0 ∧ -index ≤ vs.length then some (vs.length + index).toNat
  else none

def get (vs : List V) (index : ℤ) : Except Stop V :=
  match (position vs index).bind fun k => vs[k]? with
  | some v => .ok v
  | none => .error .misuse

def replace (vs : List V) (index : ℤ) (v : V) : Except Stop (List V) :=
  match position vs index with
  | some k => .ok (vs.set k v)
  | none => .error .misuse

def pop (vs : List V) (n : ℤ) : Except Stop (List V) :=
  if 0 ≤ n ∧ n ≤ vs.length then .ok (vs.take (vs.length - n.toNat)) else .error .misuse

def adjust (blank : V) (n : ℕ) (vs : List V) : List V := (vs ++ List.replicate n blank).take n

/-- What a callee does: its results or an error value, and the world it leaves; `none` if it
never ends. -/
abbrev Behaviour (V W : Type u) := V → List V → W → Option (Except V (List V) × W)

def protectedCall (blank : V) (call : Behaviour V W) (nargs : ℕ) (nresults : ℤ) (vs : List V)
    (world : W) : Except Stop (Bool × List V × W) :=
  if nresults < 0 then .error .misuse
  else
    match vs.drop (vs.length - (nargs + 1)) with
    | [] => .error .misuse
    | f :: args =>
      if args.length ≠ nargs then .error .misuse
      else
        let base := vs.take (vs.length - (nargs + 1))
        match call f args world with
        | none => .error .running
        | some (.ok rs, w) => .ok (true, base ++ adjust blank nresults.toNat rs, w)
        | some (.error e, w) => .ok (false, base ++ [e], w)

def protectedCallAll (call : Behaviour V W) (vs : List V) (world : W) :
    Except Stop (Bool × List V × W) :=
  match vs.getLast? with
  | none => .error .misuse
  | some f =>
    match call f [] world with
    | none => .error .running
    | some (.ok rs, w) => .ok (true, vs.dropLast ++ rs, w)
    | some (.error e, w) => .ok (false, vs.dropLast ++ [e], w)

variable {base rest vs vs' : List V} {v v' : V}

theorem position_top :
    position (base ++ v :: rest) (-((rest.length + 1 : ℕ) : ℤ)) = some base.length := by
  have hlen : (base ++ v :: rest).length = base.length + (rest.length + 1) := by simp
  rw [position, hlen, if_neg (by omega), if_pos (by omega)]
  congr 1
  omega

theorem position_zero (vs : List V) : position vs 0 = none := by
  rw [position, if_neg (by omega), if_neg (by omega)]

theorem get_top : get (base ++ v :: rest) (-((rest.length + 1 : ℕ) : ℤ)) = .ok v := by
  rw [get, position_top]
  simp

theorem get_zero (vs : List V) : get vs 0 = .error .misuse := by
  rw [get, position_zero]
  rfl

theorem replace_top :
    replace (base ++ v :: rest) (-((rest.length + 1 : ℕ) : ℤ)) v' = .ok (base ++ v' :: rest) := by
  rw [replace, position_top]
  simp

theorem pop_append (base vs : List V) : pop (base ++ vs) (vs.length : ℤ) = .ok base := by
  have hlen : (base ++ vs).length - vs.length = base.length := by simp
  rw [pop, if_pos (by simp), Int.toNat_natCast, hlen, List.take_left]

@[simp] theorem adjust_length (blank : V) (n : ℕ) (vs : List V) :
    (adjust blank n vs).length = n := by
  simp [adjust]

theorem drop_call {base args : List V} {f : V} :
    (base ++ f :: args).drop ((base ++ f :: args).length - (args.length + 1)) = f :: args ∧
      (base ++ f :: args).take ((base ++ f :: args).length - (args.length + 1)) = base := by
  have hlen : (base ++ f :: args).length - (args.length + 1) = base.length := by simp
  rw [hlen]
  exact ⟨List.drop_left, List.take_left⟩

/-- A call that comes back has replaced the function and its arguments, and nothing below. -/
theorem protectedCall_spec {blank f : V} {call : Behaviour V W} {args : List V} {nresults : ℤ}
    {world world' : W} {ok : Bool}
    (h : protectedCall blank call args.length nresults (base ++ f :: args) world =
      .ok (ok, vs', world')) :
    (ok = true ∧ ∃ rs, call f args world = some (.ok rs, world') ∧
        vs' = base ++ adjust blank nresults.toNat rs ∧ 0 ≤ nresults) ∨
      (ok = false ∧ ∃ e, call f args world = some (.error e, world') ∧ vs' = base ++ [e]) := by
  unfold protectedCall at h
  rw [drop_call.1, drop_call.2] at h
  by_cases hn : nresults < 0
  · rw [if_pos hn] at h
    cases h
  · simp only [if_neg hn, ne_eq, not_true_eq_false, if_false] at h
    split at h
    · cases h
    · rename_i rs w hcall
      obtain ⟨rfl, rfl, rfl⟩ : true = ok ∧ _ = vs' ∧ w = world' := by simpa using h
      exact Or.inl ⟨rfl, rs, hcall, rfl, not_lt.mp hn⟩
    · rename_i e w hcall
      obtain ⟨rfl, rfl, rfl⟩ : false = ok ∧ _ = vs' ∧ w = world' := by simpa using h
      exact Or.inr ⟨rfl, e, hcall, rfl⟩

theorem protectedCallAll_spec {f : V} {call : Behaviour V W} {world world' : W} {ok : Bool}
    (h : protectedCallAll call (base ++ [f]) world = .ok (ok, vs', world')) :
    (ok = true ∧ ∃ rs, call f [] world = some (.ok rs, world') ∧ vs' = base ++ rs) ∨
      (ok = false ∧ ∃ e, call f [] world = some (.error e, world') ∧ vs' = base ++ [e]) := by
  simp only [protectedCallAll, List.getLast?_concat, List.dropLast_concat] at h
  split at h
  · cases h
  · rename_i rs w hcall
    obtain ⟨rfl, rfl, rfl⟩ : true = ok ∧ _ = vs' ∧ w = world' := by simpa using h
    exact Or.inl ⟨rfl, rs, hcall, rfl⟩
  · rename_i e w hcall
    obtain ⟨rfl, rfl, rfl⟩ : false = ok ∧ _ = vs' ∧ w = world' := by simpa using h
    exact Or.inr ⟨rfl, e, hcall, rfl⟩

end ValueStack
