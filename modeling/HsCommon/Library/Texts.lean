import Mathlib.Data.List.Basic
import Mathlib.Tactic

/-!
# Finding and cutting out pieces of a text

`find` gives the first occurrence of a pattern at or after an offset, `substr` the piece of a given
length from an offset on. A text is seen from the offset as what stands before it and what is left.
-/

namespace Text
variable {α : Type*}

def substr (s : List α) (offset n : ℕ) : List α := (s.drop offset).take n

theorem substr_append (before piece after : List α) :
    substr (before ++ (piece ++ after)) before.length piece.length = piece := by
  rw [substr, List.drop_left, List.take_left]

theorem substr_length_le (s : List α) (offset n : ℕ) : (substr s offset n).length ≤ n := by
  rw [substr, List.length_take]
  exact min_le_left _ _

variable [DecidableEq α]

def search (pat : List α) : List α → Option ℕ
  | [] => if pat = [] then some 0 else none
  | x :: xs => if pat.isPrefixOf (x :: xs) then some 0 else (search pat xs).map (· + 1)

def find (s pat : List α) (offset : ℕ) : Option ℕ :=
  if offset ≤ s.length then (search pat (s.drop offset)).map (offset + ·) else none

theorem search_nil (s : List α) : search [] s = some 0 := by
  cases s <;> rfl

theorem search_bound {pat s : List α} {r : ℕ} (h : search pat s = some r) :
    r + pat.length ≤ s.length := by
  induction s generalizing r with
  | nil =>
    rw [search] at h
    split_ifs at h with hpat
    obtain rfl := Option.some.inj h
    rw [hpat, List.length_nil]
  | cons x xs ih =>
    rw [search] at h
    split_ifs at h with hpre
    · obtain rfl := Option.some.inj h
      rw [Nat.zero_add]
      exact (List.isPrefixOf_iff_prefix.mp hpre).length_le
    · obtain ⟨r, hr, rfl⟩ := Option.map_eq_some_iff.mp h
      have hle := ih hr
      rw [List.length_cons]
      omega

theorem search_eq_none_iff {pat s : List α} : search pat s = none ↔ ¬ pat <:+: s := by
  induction s with
  | nil =>
    rw [search, List.infix_nil]
    split_ifs with hpat <;> simp [hpat]
  | cons x xs ih =>
    rw [search, List.infix_cons_iff, not_or, ← List.isPrefixOf_iff_prefix]
    split_ifs with hpre <;> simp [hpre, ih]

theorem find_bound {s pat : List α} {offset r : ℕ} (h : find s pat offset = some r) :
    offset ≤ r ∧ r + pat.length ≤ s.length := by
  rw [find] at h
  split_ifs at h with hle
  obtain ⟨r, hr, rfl⟩ := Option.map_eq_some_iff.mp h
  have hbound := search_bound hr
  rw [List.length_drop] at hbound
  omega

theorem find_append (before s pat : List α) :
    find (before ++ s) pat before.length = (search pat s).map (before.length + ·) := by
  rw [find, if_pos (by simp), List.drop_left]

def splitFrom (pat : List α) : ℕ → List α → List (List α)
  | 0, s => [s]
  | fuel + 1, s =>
    match search pat s with
    | none => [s]
    | some r => s.take r :: splitFrom pat fuel (s.drop (r + pat.length))

/-- A pattern that is not empty has no more occurrences than the text has letters. -/
def split (pat s : List α) : List (List α) := splitFrom pat (s.length + 1) s

theorem splitFrom_ne_nil (pat : List α) (fuel : ℕ) (s : List α) : splitFrom pat fuel s ≠ [] := by
  cases fuel with
  | zero => exact List.cons_ne_nil _ _
  | succ fuel =>
    rw [splitFrom]
    cases search pat s with
    | none => exact List.cons_ne_nil _ _
    | some r => exact List.cons_ne_nil _ _

variable {d : α} {piece : List α}

theorem search_cons_ne {x : α} (h : d ≠ x) (xs : List α) :
    search [d] (x :: xs) = (search [d] xs).map (· + 1) := by
  rw [search, if_neg]
  simp [List.isPrefixOf, h]

theorem search_letter (h : d ∉ piece) (after : List α) :
    search [d] (piece ++ d :: after) = some piece.length := by
  induction piece with
  | nil =>
    rw [List.nil_append, search, if_pos (by simp [List.isPrefixOf])]
    rfl
  | cons x xs ih =>
    rw [List.mem_cons, not_or] at h
    rw [List.cons_append, search_cons_ne h.1, ih h.2]
    rfl

theorem search_letter_none (h : d ∉ piece) : search [d] piece = none := by
  induction piece with
  | nil => rfl
  | cons x xs ih =>
    rw [List.mem_cons, not_or] at h
    rw [search_cons_ne h.1, ih h.2]
    rfl

end Text
