import HsCommon.Astar.Grid
import HsCommon.Library.Outcome

/-!
# Indices and coordinates

`hs_coord2index` and `hs_index2coord` as inverses of each other. The range test
of `hs_index2coord` looks at the upper end only, so a negative index passes it:
the stores to `uint16_t` then wrap, or a zero width divides. The product of width
and height is an `int`, which two `uint16_t` can exceed.
-/

open Outcome

namespace HsCommon.Astar

variable {width height x y : ℕ} {index : ℤ}

structure CoordinatesInverse (width height : ℕ) (index : ℤ) : Prop where
  index_defined : ∃ r, hsIndex2coord index width height = .ok r
  coord_defined : ∀ x y, x < 65536 → y < 65536 → ∃ i, hsCoord2indexInt x y width height = .ok i
  index_of_coord : ∀ x y, hsIndex2coord index width height = .ok (some (x, y)) →
    x < width ∧ y < height ∧ hsCoord2indexInt x y width height = .ok index
  coord_of_index : ∀ x y, x < width → y < height →
    ∃ i, hsCoord2indexInt x y width height = .ok i ∧
      hsIndex2coord i width height = .ok (some (x, y))

theorem int32_eq_ok {z v : ℤ} (h : int32 z = .ok v) : v = z ∧ z ≤ int32Max := by
  unfold int32 at h
  split_ifs at h with hz
  exact ⟨(Except.ok.inj h).symm, hz.2⟩

theorem hsIndex2coord_area {r : Option (ℕ × ℕ)} (h : hsIndex2coord index width height = .ok r) :
    ((width * height : ℕ) : ℤ) ≤ int32Max ∧ (r = none → ((width * height : ℕ) : ℤ) ≤ index) := by
  obtain ⟨area, harea, h⟩ := exists_of_bind h
  obtain ⟨rfl, hmax⟩ := int32_eq_ok harea
  rw [Nat.cast_mul]
  refine ⟨hmax, ?_⟩
  intro hnone
  by_contra hin
  rw [if_neg hin] at h
  by_cases hw : width = 0
  · rw [if_pos hw] at h
    cases h
  · -- past the range test only a pair of coordinates is returned
    rw [if_neg hw] at h
    obtain ⟨row, -, h⟩ := exists_of_bind h
    obtain ⟨rest, -, h⟩ := exists_of_bind h
    rw [hnone] at h
    cases h

theorem hsCoord2indexInt_inside (harea : ((width * height : ℕ) : ℤ) ≤ int32Max)
    (hx : x < width) (hy : y < height) :
    hsCoord2indexInt x y width height = .ok ((y * width + x : ℕ) : ℤ) := by
  have hlt := row_add_lt hx hy
  have hin : ¬ (x ≥ width ∨ y ≥ height) := by omega
  have hrow : int32 ((y : ℤ) * width) = .ok ((y * width : ℕ) : ℤ) := int32_mul (by omega)
  have hsum : int32 (((y * width : ℕ) : ℤ) + x) = .ok ((y * width + x : ℕ) : ℤ) := by
    rw [← Nat.cast_add]
    exact int32_natCast (by omega)
  simp only [hsCoord2indexInt, hin, if_false, hrow, bind, Except.bind]
  exact hsum

theorem hsCoord2indexInt_outside (h : ¬ (x < width ∧ y < height)) :
    hsCoord2indexInt x y width height = .ok (-1) := by
  have hout : x ≥ width ∨ y ≥ height := by omega
  simp only [hsCoord2indexInt, hout, if_true]
  rfl

theorem hsCoord2indexInt_eq (harea : ((width * height : ℕ) : ℤ) ≤ int32Max) (x y : ℕ) :
    hsCoord2indexInt x y width height = .ok (hsCoord2index x y width height) := by
  by_cases h : x < width ∧ y < height
  · rw [hsCoord2indexInt_inside harea h.1 h.2, hsCoord2index, if_neg (by omega)]
  · rw [hsCoord2indexInt_outside h, hsCoord2index, if_pos (by omega)]

theorem CoordinatesInverse.nonneg (h : CoordinatesInverse width height index) : 0 ≤ index := by
  obtain ⟨r, hr⟩ := h.index_defined
  obtain ⟨harea, hnone⟩ := hsIndex2coord_area hr
  cases r with
  | none =>
    have := hnone rfl
    omega
  | some c =>
    obtain ⟨hx, hy, hi⟩ := h.index_of_coord c.1 c.2 hr
    rw [hsCoord2indexInt_inside harea hx hy] at hi
    rw [← Except.ok.inj hi]
    exact Int.natCast_nonneg _

theorem coordinatesInverse_of_nonneg (hw : width < 65536) (hh : height < 65536)
    (harea : ((width * height : ℕ) : ℤ) ≤ int32Max) (h0 : 0 ≤ index) :
    CoordinatesInverse width height index := by
  obtain ⟨n, rfl⟩ := Int.eq_ofNat_of_zero_le h0
  have hcoord : ∀ x y, x < width → y < height →
      ∃ i, hsCoord2indexInt x y width height = .ok i ∧
        hsIndex2coord i width height = .ok (some (x, y)) := fun x y hx hy =>
    ⟨_, hsCoord2indexInt_inside harea hx hy, hsIndex2coord_row_add hw.le hh.le harea hx hy⟩
  have hdefined : ∀ x y, x < 65536 → y < 65536 →
      ∃ i, hsCoord2indexInt x y width height = .ok i := fun x y _ _ =>
    ⟨_, hsCoord2indexInt_eq harea x y⟩
  by_cases hn : n < width * height
  · have hr := hsIndex2coord_natCast hw.le hh.le harea hn
    refine ⟨⟨_, hr⟩, hdefined, ?_, hcoord⟩
    intro x y hxy
    rw [hr] at hxy
    obtain ⟨rfl, rfl⟩ := Prod.mk.inj (Option.some.inj (Except.ok.inj hxy))
    have hx : n % width < width := by
      apply Nat.mod_lt
      apply Nat.pos_of_ne_zero
      rintro rfl
      omega
    have hy : n / width < height := Nat.div_lt_of_lt_mul hn
    refine ⟨hx, hy, ?_⟩
    rw [hsCoord2indexInt_inside harea hx hy, Nat.div_add_mod']
  · have hr := @hsIndex2coord_beyond width height n harea (by omega)
    refine ⟨⟨_, hr⟩, hdefined, ?_, hcoord⟩
    intro x y hxy
    rw [hr] at hxy
    cases hxy

/-- The calls undo each other exactly when the area is an `int` and the index is not negative. -/
theorem coordinatesInverse_iff (hw : width < 65536) (hh : height < 65536) :
    CoordinatesInverse width height index ↔
      ((width * height : ℕ) : ℤ) ≤ int32Max ∧ 0 ≤ index := by
  constructor
  · intro h
    obtain ⟨r, hr⟩ := h.index_defined
    exact ⟨(hsIndex2coord_area hr).1, h.nonneg⟩
  · rintro ⟨harea, h0⟩
    exact coordinatesInverse_of_nonneg hw hh harea h0

theorem coordinatesInverse_small : CoordinatesInverse 2 2 3 ∧ ¬ CoordinatesInverse 0 2 (-1) := by
  constructor
  · exact (coordinatesInverse_iff (by decide) (by decide)).mpr (by decide)
  · intro h
    exact absurd ((coordinatesInverse_iff (by decide) (by decide)).mp h).2 (by decide)

/-- Index -1 of a 2 × 2 grid is accepted, in column 65535. -/
theorem negative_index_accepted :
    ¬ ∀ (width height : ℕ) (index : ℤ), width < 65536 → height < 65536 →
      int32Min ≤ index → index ≤ int32Max → CoordinatesInverse width height index := by
  intro h
  have hinv := h 2 2 (-1) (by decide) (by decide) (by decide) (by decide)
  have hcol := hinv.index_of_coord 65535 0 (by decide)
  exact absurd hcol.1 (by decide)

end HsCommon.Astar
