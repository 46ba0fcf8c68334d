import Mathlib.Analysis.SpecialFunctions.Trigonometric.Basic
import Mathlib.Tactic

/-!
# Local and world coordinates in the plane

The vector a call is given is changed in place, `none` is a null pointer. `Rotate` sets `x` before
it reads it for `y`, and `World2Local` turns back before it scales back.

Turning by an angle and back is then no longer the identity. What the two calls do
is a linear map of the vector, and the vectors it keeps are found from its two rows.
-/

noncomputable section
namespace HsCommon.Hs2d

@[ext]
structure Vector where
  x : ℝ
  y : ℝ

def translate (v : Option Vector) (x y : ℝ) : Option Vector := do
  let v ← v
  return { x := v.x + x, y := v.y + y }

def scale (v : Option Vector) (xp yp sx sy : ℝ) : Option Vector := do
  let v ← v
  let v : Vector := { x := v.x - xp, y := v.y - yp }
  let v : Vector := { x := v.x * sx, y := v.y * sy }
  return { x := v.x + xp, y := v.y + yp }

def rotate (v : Option Vector) (xp yp radian : ℝ) : Option Vector := do
  let v ← v
  let v : Vector := { x := v.x - xp, y := v.y - yp }
  let v : Vector := { v with x := v.x * Real.cos radian - v.y * Real.sin radian }
  -- `x` is the new one here
  let v : Vector := { v with y := v.y * Real.cos radian + v.x * Real.sin radian }
  return { x := v.x + xp, y := v.y + yp }

def scaleLocal (v : Option Vector) (sx sy : ℝ) : Option Vector := scale v 0 0 sx sy

def rotateLocal (v : Option Vector) (radian : ℝ) : Option Vector := rotate v 0 0 radian

def local2World (v : Option Vector) (x y radian sx sy : ℝ) : Option Vector := do
  let v ← rotateLocal v radian
  let v ← scaleLocal (some v) sx sy
  translate (some v) x y

def world2Local (v : Option Vector) (x y radian sx sy : ℝ) : Option Vector := do
  let v ← translate v (-x) (-y)
  let v ← rotateLocal (some v) (-radian)
  scaleLocal (some v) (1 / sx) (1 / sy)

@[simp] theorem translate_some (v : Vector) (x y : ℝ) :
    translate (some v) x y = some ⟨v.x + x, v.y + y⟩ := rfl

@[simp] theorem scaleLocal_some (v : Vector) (sx sy : ℝ) :
    scaleLocal (some v) sx sy = some ⟨v.x * sx, v.y * sy⟩ := by
  simp [scaleLocal, scale]

@[simp] theorem rotateLocal_some (v : Vector) (radian : ℝ) :
    rotateLocal (some v) radian = some ⟨v.x * Real.cos radian - v.y * Real.sin radian,
      v.y * Real.cos radian +
        (v.x * Real.cos radian - v.y * Real.sin radian) * Real.sin radian⟩ := by
  simp [rotateLocal, rotate]

theorem world2Local_local2World (v : Vector) (x y radian sx sy : ℝ) :
    world2Local (local2World (some v) x y radian sx sy) x y radian sx sy =
      let p := (v.x * Real.cos radian - v.y * Real.sin radian) * sx
      let q := (v.y * Real.cos radian +
        (v.x * Real.cos radian - v.y * Real.sin radian) * Real.sin radian) * sy
      let p' := p * Real.cos radian + q * Real.sin radian
      some ⟨p' * (1 / sx), (q * Real.cos radian - p' * Real.sin radian) * (1 / sy)⟩ := by
  simp only [local2World, world2Local, rotateLocal_some, scaleLocal_some, translate_some,
    Option.bind_eq_bind, Option.bind_some, Real.cos_neg, Real.sin_neg, Option.some.injEq,
    Vector.mk.injEq]
  constructor <;> ring

section Fixed
variable {c s x y sx sy : ℝ}

theorem first_row (hcs : s ^ 2 + c ^ 2 = 1) :
    (x * c - y * s) * sx * c + (y * c + (x * c - y * s) * s) * sy * s = sx * x ↔
      s = 0 ∨ sx * (x * s + y * c) = sy * (y * c + x * c * s - y * s ^ 2) := by
  have hrow : (x * c - y * s) * sx * c + (y * c + (x * c - y * s) * s) * sy * s - sx * x =
      s * (sy * (y * c + x * c * s - y * s ^ 2) - sx * (x * s + y * c)) := by
    linear_combination sx * x * hcs
  rw [← sub_eq_zero, hrow, mul_eq_zero, sub_eq_zero, eq_comm (a := sy * _)]

theorem second_row (hcs : s ^ 2 + c ^ 2 = 1) :
    (y * c + (x * c - y * s) * s) * sy * c - sx * x * s = sy * y ↔
      s = 0 ∨ sx * x = sy * (x * c ^ 2 - y * s * (1 + c)) := by
  have hrow : (y * c + (x * c - y * s) * s) * sy * c - sx * x * s - sy * y =
      s * (sy * (x * c ^ 2 - y * s * (1 + c)) - sx * x) := by
    linear_combination sy * y * hcs
  rw [← sub_eq_zero, hrow, mul_eq_zero, sub_eq_zero, eq_comm (a := sy * _)]

theorem kept_direction (hcs : s ^ 2 + c ^ 2 = 1) (hs : s ≠ 0) (hc : c ≠ 0) (hsy : sy ≠ 0)
    (hfirst : sx * (x * s + y * c) = sy * (y * c + x * c * s - y * s ^ 2))
    (hsecond : sx * x = sy * (x * c ^ 2 - y * s * (1 + c))) :
    y * (1 + c) = -(x * s) ∧ (sx - sy) * x = 0 ∧ (sx - sy) * y = 0 := by
  have hy : sx * y = sy * (y + x * s * (1 - c) + y * s ^ 2) := by
    refine mul_right_cancel₀ hc ?_
    linear_combination hfirst - s * hsecond
  have hdirection : y * (1 + c) = -(x * s) := by
    -- eliminating the scales leaves a square
    have hcross : sy * s * (x ^ 2 * (1 - c) + 2 * s * x * y + y ^ 2 * (1 + c)) = 0 := by
      linear_combination y * hsecond - x * hy + sy * x * y * hcs
    have hform : x ^ 2 * (1 - c) + 2 * s * x * y + y ^ 2 * (1 + c) = 0 :=
      (mul_eq_zero.mp hcross).resolve_left (mul_ne_zero hsy hs)
    have hsquare : (y * (1 + c) + x * s) ^ 2 = 0 := by
      linear_combination (1 + c) * hform + x ^ 2 * hcs
    exact eq_neg_of_add_eq_zero_left (pow_eq_zero_iff two_ne_zero |>.mp hsquare)
  refine ⟨hdirection, ?_, ?_⟩
  · linear_combination hsecond - sy * s * hdirection + sy * x * hcs
  · linear_combination hy + sy * (1 - c) * hdirection + sy * y * hcs

theorem rows_iff (hcs : s ^ 2 + c ^ 2 = 1) (hsy : sy ≠ 0) :
    ((x * c - y * s) * sx * c + (y * c + (x * c - y * s) * s) * sy * s = sx * x ∧
        (y * c + (x * c - y * s) * s) * sy * c - sx * x * s = sy * y) ↔
      s = 0 ∨ (x = 0 ∧ y = 0) ∨
        ((c = 0 ∨ sx = sy) ∧ sy * (y * (1 + c)) = -(sx * (x * s))) := by
  rw [first_row hcs, second_row hcs, ← or_and_left]
  by_cases hs : s = 0
  · exact iff_of_true (Or.inl hs) (Or.inl hs)
  simp only [hs, false_or]
  constructor
  · intro ⟨hfirst, hsecond⟩
    obtain rfl | hc := eq_or_ne c 0
    · refine Or.inr ⟨Or.inl rfl, ?_⟩
      linear_combination s * hsecond - sy * y * hcs
    · obtain ⟨hdirection, hx, hy⟩ := kept_direction hcs hs hc hsy hfirst hsecond
      by_cases hscale : sx = sy
      · refine Or.inr ⟨Or.inr hscale, ?_⟩
        rw [hscale]
        linear_combination sy * hdirection
      · have hne := sub_ne_zero.mpr hscale
        exact Or.inl ⟨(mul_eq_zero.mp hx).resolve_left hne, (mul_eq_zero.mp hy).resolve_left hne⟩
  · rintro (⟨rfl, rfl⟩ | ⟨rfl | rfl, hdirection⟩)
    · constructor <;> ring
    · constructor
      · linear_combination hdirection + sy * y * hcs
      · linear_combination s * hdirection - sx * x * hcs
    · constructor
      · linear_combination (1 - c) * hdirection + sx * y * hcs
      · linear_combination s * hdirection - sx * x * hcs

end Fixed

/-- The vectors that `World2Local` brings back. Without a zero sine these are the zero vector,
and a line if the cosine is zero or the scales are equal. -/
theorem world2Local_local2World_eq_iff (v : Vector) (x y radian sx sy : ℝ) (hsx : sx ≠ 0)
    (hsy : sy ≠ 0) :
    world2Local (local2World (some v) x y radian sx sy) x y radian sx sy = some v ↔
      Real.sin radian = 0 ∨ v = ⟨0, 0⟩ ∨
        ((Real.cos radian = 0 ∨ sx = sy) ∧
          sy * (v.y * (1 + Real.cos radian)) = -(sx * (v.x * Real.sin radian))) := by
  rw [world2Local_local2World, Vector.ext_iff, ← rows_iff (Real.sin_sq_add_cos_sq radian) hsy]
  simp only [Option.some.injEq, Vector.ext_iff, mul_one_div]
  rw [div_eq_iff hsx, div_eq_iff hsy, mul_comm v.x sx, mul_comm v.y sy]
  refine and_congr_right fun hfirst => ?_
  rw [hfirst]

theorem world2Local_local2World_unscaled :
    world2Local (local2World (some ⟨3, 4⟩) 1 2 0 2 5) 1 2 0 2 5 = some ⟨3, 4⟩ :=
  (world2Local_local2World_eq_iff ⟨3, 4⟩ 1 2 0 2 5 (by norm_num) (by norm_num)).mpr
    (Or.inl Real.sin_zero)

theorem world2Local_local2World_quarter :
    world2Local (local2World (some ⟨0, 1⟩) 0 0 (Real.pi / 2) 1 1) 0 0 (Real.pi / 2) 1 1 ≠
      some ⟨0, 1⟩ := by
  simp [world2Local_local2World]

end HsCommon.Hs2d

end
