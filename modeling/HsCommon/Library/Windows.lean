import HsCommon.Library.Cells

/-!
# Windows: the cells between two offsets as a list

A window of a cell array holds a list. The list grows at the end when cells are
written there, or counted there as they are, shrinks at the front when the lower
offset goes up, and stays the same when the cells are moved to the beginning.
-/

namespace Cells
variable {α : Type*}

structure Holds (m : ℕ → α) (lo hi : ℕ) (q : List α) : Prop where
  le : lo ≤ hi
  read : read m lo (hi - lo) = q

variable {m : ℕ → α} {lo hi : ℕ} {q : List α}

theorem holds_read (m : ℕ → α) (h : lo ≤ hi) : Holds m lo hi (Cells.read m lo (hi - lo)) := ⟨h, rfl⟩

theorem holds_nil (m : ℕ → α) (n : ℕ) : Holds m n n [] := ⟨le_rfl, by rw [Nat.sub_self, read_zero]⟩

theorem Holds.length (h : Holds m lo hi q) : q.length = hi - lo := by
  rw [← h.read, read_length]

theorem Holds.eq_nil (h : Holds m lo hi q) (he : lo = hi) : q = [] := by
  rw [← List.length_eq_zero_iff, h.length, he, Nat.sub_self]

theorem Holds.count (h : Holds m lo hi q) (n : ℕ) :
    Holds m lo (hi + n) (q ++ Cells.read m hi n) where
  le := h.le.trans (Nat.le_add_right _ _)
  read := by
    have hle := h.le
    have hlen : hi + n - lo = hi - lo + n := by omega
    rw [hlen, read_add, h.read, Nat.add_sub_cancel' hle]

theorem Holds.write_end (h : Holds m lo hi q) (xs : List α) : Holds (write m hi xs) lo hi q where
  le := h.le
  read := by
    have hle := h.le
    rw [read_write_disjoint m xs (Or.inl (by omega)), h.read]

theorem Holds.append (h : Holds m lo hi q) (xs : List α) :
    Holds (write m hi xs) lo (hi + xs.length) (q ++ xs) := by
  have hcount := (h.write_end xs).count xs.length
  rwa [read_write] at hcount

theorem Holds.drop (h : Holds m lo hi q) {n : ℕ} (hn : n ≤ q.length) :
    Holds m (lo + n) hi (q.drop n) where
  le := by
    have hle := h.le
    rw [h.length] at hn
    omega
  read := by
    rw [← h.read, read_drop]
    congr 1
    omega

theorem Holds.move (h : Holds m lo hi q) : Holds (move m 0 lo (hi - lo)) 0 (hi - lo) q where
  le := Nat.zero_le _
  read := by rw [Nat.sub_zero, read_move, h.read]

theorem Holds.part (h : Holds m lo hi q) {p n : ℕ} (hlo : lo ≤ p) (hhi : p + n ≤ hi) :
    Cells.read m p n <:+: q := by
  have hpart : Cells.read m p n = ((Cells.read m lo (hi - lo)).drop (p - lo)).take n := by
    rw [read_drop, read_take]
    congr 1 <;> omega
  rw [hpart, h.read]
  exact (List.take_prefix n _).isInfix.trans (List.drop_suffix _ q).isInfix

end Cells
