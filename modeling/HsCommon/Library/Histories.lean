import Mathlib.Data.List.Basic
import Mathlib.Data.List.DropRight
import Mathlib.Data.List.TakeWhile
import Mathlib.Tactic

/-!
# Histories that grow at the end

Whether something has happened since something else last did, entry by entry.
-/

namespace Histories
variable {α : Type*} {a b x : α} {log : List α}

/-- `b` has happened, and `a` has not after it. -/
def Since (a b : α) (log : List α) : Prop := ∃ before after, log = before ++ b :: after ∧ a ∉ after

theorem snoc_eq_append {before after : List α} (h : log ++ [x] = before ++ b :: after) :
    (log = before ∧ x = b ∧ after = []) ∨
      ∃ rest, log = before ++ b :: rest ∧ after = rest ++ [x] := by
  rcases List.eq_nil_or_concat after with rfl | ⟨rest, y, rfl⟩
  · obtain ⟨hlog, hx⟩ := List.append_inj' h rfl
    exact Or.inl ⟨hlog, List.singleton_inj.mp hx, rfl⟩
  · rw [List.concat_eq_append, ← List.cons_append, ← List.append_assoc] at h
    obtain ⟨hlog, hx⟩ := List.append_inj' h rfl
    obtain rfl := List.singleton_inj.mp hx
    exact Or.inr ⟨rest, hlog, List.concat_eq_append⟩

theorem not_since_nil : ¬ Since a b [] := by
  rintro ⟨before, after, h, -⟩
  cases before <;> cases h

theorem since_snoc (hne : b ≠ a) : Since a b (log ++ [x]) ↔ x = b ∨ x ≠ a ∧ Since a b log := by
  constructor
  · rintro ⟨before, after, h, ha⟩
    obtain ⟨-, hx, -⟩ | ⟨rest, hlog, rfl⟩ := snoc_eq_append h
    · exact Or.inl hx
    · rw [List.mem_append, not_or] at ha
      refine Or.inr ⟨fun hx => ha.2 ?_, before, rest, hlog, ha.1⟩
      rw [hx]
      exact List.mem_cons_self
  · rintro (rfl | ⟨hx, before, after, rfl, ha⟩)
    · exact ⟨log, [], rfl, List.not_mem_nil⟩
    · refine ⟨before, after ++ [x], by simp, ?_⟩
      rw [List.mem_append, not_or, List.mem_singleton]
      exact ⟨ha, fun hax => hx hax.symm⟩

theorem since_append (hne : b ≠ a) {more : List α} (ha : a ∉ more) (hb : b ∉ more) :
    Since a b (log ++ more) ↔ Since a b log := by
  induction more using List.reverseRecOn with
  | nil => rw [List.append_nil]
  | append_singleton more x ih =>
    rw [List.mem_append, not_or, List.mem_singleton] at ha hb
    rw [← List.append_assoc, since_snoc hne, ih ha.1 hb.1]
    constructor
    · rintro (hx | ⟨-, hs⟩)
      · exact absurd hx.symm hb.2
      · exact hs
    · exact fun hs => Or.inr ⟨fun hx => ha.2 hx.symm, hs⟩

theorem not_since_append_cons (hne : b ≠ a) {more : List α} (hb : b ∉ more) :
    ¬ Since a b (log ++ a :: more) := by
  induction more using List.reverseRecOn with
  | nil =>
    rw [since_snoc hne]
    rintro (hab | ⟨haa, -⟩)
    · exact hne hab.symm
    · exact haa rfl
  | append_singleton more x ih =>
    rw [List.mem_append, not_or, List.mem_singleton] at hb
    rw [← List.cons_append, ← List.append_assoc, since_snoc hne]
    rintro (hx | ⟨-, hs⟩)
    · exact hb.2 hx.symm
    · exact ih hb.1 hs

theorem exists_last (h : a ∈ log) : ∃ before after, log = before ++ a :: after ∧ a ∉ after := by
  induction log using List.reverseRecOn with
  | nil => cases h
  | append_singleton log x ih =>
    by_cases hx : x = a
    · exact ⟨log, [], by rw [hx], List.not_mem_nil⟩
    · have hmem := (List.mem_append.mp h).resolve_right fun hm =>
        hx (List.mem_singleton.mp hm).symm
      obtain ⟨before, after, rfl, ha⟩ := ih hmem
      refine ⟨before, after ++ [x], by simp, ?_⟩
      rw [List.mem_append, not_or, List.mem_singleton]
      exact ⟨ha, fun hax => hx hax.symm⟩

/-- The entries on both sides of the end of `past`, back to the last entry with `p` and on to the
next. -/
def period (p : α → Bool) (past future : List α) : List α :=
  past.rtakeWhile (fun x => !p x) ++ future.takeWhile fun x => !p x

variable {p : α → Bool} {past future : List α}

theorem period_snoc_start (hx : p x) : period p (past ++ [x]) [] = [] := by
  rw [period, List.takeWhile_nil, List.append_nil]
  exact List.rtakeWhile_concat_neg _ past x (by simp [hx])

theorem period_snoc_next (hx : p x) : period p past (future ++ [x]) = period p past future := by
  have hend : [x].takeWhile (fun y => !p y) = [] := List.takeWhile_cons_of_neg (by simp [hx])
  rw [period, period, List.takeWhile_append, hend, List.append_nil]
  split_ifs with hall
  · rw [List.takeWhile_eq_self_iff.mpr]
    exact List.takeWhile_eq_self_iff.mp ((List.takeWhile_prefix _).eq_of_length hall)
  · rfl

theorem period_snoc_over (h : ∃ y ∈ future, p y) :
    period p past (future ++ [x]) = period p past future := by
  rw [period, period, List.takeWhile_append, if_neg]
  intro hall
  obtain ⟨y, hy, hpy⟩ := h
  have hself := (List.takeWhile_prefix fun y => !p y).eq_of_length hall
  have hnot := List.takeWhile_eq_self_iff.mp hself y hy
  simp [hpy] at hnot

theorem period_singleton (hx : ¬ p x) : period p past [x] = period p past [] ++ [x] := by
  rw [period, period, List.takeWhile_nil, List.append_nil,
    List.takeWhile_cons_of_pos (by simp [hx]), List.takeWhile_nil]

end Histories
