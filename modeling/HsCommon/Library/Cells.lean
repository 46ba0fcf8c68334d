import Mathlib.Data.List.Basic
import Mathlib.Tactic

/-!
# Cell arrays: ranged reads, ranged writes, block moves

A region of memory is a total function from cell addresses to cell contents.
Ranged reads produce lists, ranged writes consume them, and a block move is a
read followed by a write, so overlapping source and destination are allowed.
-/

namespace Cells
variable {α : Type*}

def read (m : ℕ → α) (p n : ℕ) : List α := (List.range n).map fun k => m (p + k)

def write (m : ℕ → α) (p : ℕ) (xs : List α) : ℕ → α :=
  fun i => if p ≤ i then (xs[i - p]?).getD (m i) else m i

def move (m : ℕ → α) (dst src n : ℕ) : ℕ → α := write m dst (read m src n)

@[simp] theorem read_length (m : ℕ → α) (p n : ℕ) : (read m p n).length = n := by
  simp [read]

@[simp] theorem read_zero (m : ℕ → α) (p : ℕ) : read m p 0 = [] := rfl

theorem read_getElem? (m : ℕ → α) (p n k : ℕ) :
    (read m p n)[k]? = if k < n then some (m (p + k)) else none := by
  simp only [read, List.getElem?_map]
  split_ifs with h
  · rw [List.getElem?_range h, Option.map_some]
  · rw [List.getElem?_eq_none (by simpa using h), Option.map_none]

theorem read_getElem (m : ℕ → α) (p n k : ℕ) (h : k < (read m p n).length) :
    (read m p n)[k] = m (p + k) := by
  simp [read]

theorem read_congr {m m' : ℕ → α} {p q n : ℕ} (h : ∀ k < n, m (p + k) = m' (q + k)) :
    read m p n = read m' q n := by
  apply List.map_congr_left
  intro k hk
  exact h k (List.mem_range.mp hk)

theorem read_add (m : ℕ → α) (p a b : ℕ) :
    read m p (a + b) = read m p a ++ read m (p + a) b := by
  apply List.ext_getElem?
  intro k
  by_cases hk : k < a
  · rw [List.getElem?_append_left (by simpa using hk), read_getElem?, read_getElem?,
      if_pos (by omega), if_pos hk]
  · rw [List.getElem?_append_right (by simpa using hk), read_length, read_getElem?, read_getElem?]
    have he : p + a + (k - a) = p + k := by omega
    rw [he]
    by_cases hb : k < a + b
    · rw [if_pos hb, if_pos (by omega)]
    · rw [if_neg hb, if_neg (by omega)]

theorem read_succ (m : ℕ → α) (p n : ℕ) : read m p (n + 1) = read m p n ++ [m (p + n)] := by
  simp [read, List.range_succ]

theorem read_take (m : ℕ → α) (p n k : ℕ) : (read m p n).take k = read m p (min k n) := by
  apply List.ext_getElem?
  intro i
  rw [List.getElem?_take, read_getElem?, read_getElem?]
  split_ifs <;> first | rfl | omega

theorem read_drop (m : ℕ → α) (p n k : ℕ) : (read m p n).drop k = read m (p + k) (n - k) := by
  apply List.ext_getElem?
  intro i
  rw [List.getElem?_drop, read_getElem?, read_getElem?, Nat.add_assoc]
  split_ifs <;> first | rfl | omega

theorem write_of_lt (m : ℕ → α) {p i : ℕ} (xs : List α) (h : i < p) : write m p xs i = m i := by
  simp [write, Nat.not_le.mpr h]

theorem write_of_ge (m : ℕ → α) {p i : ℕ} (xs : List α) (h : p + xs.length ≤ i) :
    write m p xs i = m i := by
  have hn : xs[i - p]? = none := List.getElem?_eq_none (by omega)
  simp [write, hn]

theorem write_inside (m : ℕ → α) (p k : ℕ) (xs : List α) (h : k < xs.length) :
    write m p xs (p + k) = xs[k] := by
  simp [write, h]

theorem read_write (m : ℕ → α) (p : ℕ) (xs : List α) :
    read (write m p xs) p xs.length = xs := by
  apply List.ext_getElem (by simp)
  intro k _ hk
  rw [read_getElem, write_inside m p k xs hk]

theorem read_write_disjoint (m : ℕ → α) {p q n : ℕ} (xs : List α)
    (h : q + n ≤ p ∨ p + xs.length ≤ q) : read (write m p xs) q n = read m q n := by
  apply read_congr
  intro k hk
  rcases h with h | h
  · exact write_of_lt m xs (by omega)
  · exact write_of_ge m xs (by omega)

theorem write_append (m : ℕ → α) (p : ℕ) (xs ys : List α) :
    write m p (xs ++ ys) = write (write m p xs) (p + xs.length) ys := by
  funext i
  rcases lt_or_ge i (p + xs.length) with h | h
  · rw [write_of_lt _ ys h]
    rcases lt_or_ge i p with hp | hp
    · rw [write_of_lt m _ hp, write_of_lt m _ hp]
    · simp only [write, if_pos hp, List.getElem?_append_left (show i - p < xs.length by omega)]
  · have he : i - p - xs.length = i - (p + xs.length) := by omega
    simp only [write, if_pos h, if_pos (show p ≤ i by omega), he,
      List.getElem?_append_right (show xs.length ≤ i - p by omega),
      List.getElem?_eq_none (show xs.length ≤ i - p by omega), Option.getD_none]

@[simp] theorem write_nil (m : ℕ → α) (p : ℕ) : write m p [] = m := by
  funext i
  simp [write]

theorem write_cons (m : ℕ → α) (p : ℕ) (x : α) (xs : List α) :
    write m p (x :: xs) = write (Function.update m p x) (p + 1) xs := by
  have hfirst : write m p [x] = Function.update m p x := by
    funext i
    by_cases hi : i = p
    · rw [hi, Function.update_self]
      exact write_inside m p 0 [x] Nat.one_pos
    · rw [Function.update_of_ne hi]
      rcases Nat.lt_or_gt_of_ne hi with hlt | hlt
      · exact write_of_lt m [x] hlt
      · exact write_of_ge m [x] hlt
  rw [← List.singleton_append, write_append, hfirst]
  rfl

theorem write_read (m : ℕ → α) (p n : ℕ) : write m p (read m p n) = m := by
  funext i
  simp only [write, read_getElem?]
  split_ifs with h1 h2
  · rw [Option.getD_some, Nat.add_sub_cancel' h1]
  · rfl
  · rfl

theorem read_move (m : ℕ → α) (dst src n : ℕ) : read (move m dst src n) dst n = read m src n := by
  have h := read_write m dst (read m src n)
  rwa [read_length] at h

end Cells
