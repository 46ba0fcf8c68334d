import HsCommon.Transform2d

/-!
# Turning by degrees, and turning twice

The calls that take degrees convert them once and then do what the ones that take radians do.
`World2Local2` alone turns back by the degrees as they are. `Rotate` reads the new `x` for `y`, so
the distance to the pivot is kept, and two turns add up to one, for some points and angles only.
-/

noncomputable section
namespace HsCommon.Hs2d

def PI : ℝ := 3.14159

def rotate2 (v : Option Vector) (xp yp angle : ℝ) : Option Vector :=
  let radian := PI * angle / 180
  rotate v xp yp radian

def rotateLocal2 (v : Option Vector) (angle : ℝ) : Option Vector := rotate2 v 0 0 angle

def local2World2 (v : Option Vector) (x y angle sx sy : ℝ) : Option Vector := do
  let v ← rotateLocal2 v angle
  let v ← scaleLocal (some v) sx sy
  translate (some v) x y

def world2Local2 (v : Option Vector) (x y angle sx sy : ℝ) : Option Vector := do
  let v ← translate v (-x) (-y)
  -- the angle is not converted here
  let v ← rotateLocal (some v) (-angle)
  scaleLocal (some v) (1 / sx) (1 / sy)

def world2Camera (v : Option Vector) (x y rotateRadian : ℝ) : Option Vector := do
  let v ← translate v (-x) (-y)
  rotateLocal (some v) (-rotateRadian)

def world2Camera2 (v : Option Vector) (x y rotateAngle : ℝ) : Option Vector := do
  let v ← translate v (-x) (-y)
  rotateLocal2 (some v) (-rotateAngle)

def turnX (p q c s : ℝ) : ℝ := p * c - q * s

def turnY (p q c s : ℝ) : ℝ := q * c + turnX p q c s * s

theorem rotate_some (v : Vector) (xp yp radian : ℝ) :
    rotate (some v) xp yp radian = some
      ⟨turnX (v.x - xp) (v.y - yp) (Real.cos radian) (Real.sin radian) + xp,
        turnY (v.x - xp) (v.y - yp) (Real.cos radian) (Real.sin radian) + yp⟩ := rfl

theorem rotateLocal2_eq (v : Option Vector) (angle : ℝ) :
    rotateLocal2 v angle = rotateLocal v (PI * angle / 180) := rfl

theorem local2World2_eq (v : Option Vector) (x y angle sx sy : ℝ) :
    local2World2 v x y angle sx sy = local2World v x y (PI * angle / 180) sx sy := rfl

theorem world2Camera2_eq (v : Option Vector) (x y angle : ℝ) :
    world2Camera2 v x y angle = world2Camera v x y (PI * angle / 180) := by
  have hneg : PI * -angle / 180 = -(PI * angle / 180) := by ring
  simp only [world2Camera2, world2Camera, rotateLocal2_eq, hneg]

theorem world2Local_some (v : Vector) (x y radian sx sy : ℝ) :
    world2Local (some v) x y radian sx sy =
      let p := v.x - x
      let q := v.y - y
      let p' := p * Real.cos radian + q * Real.sin radian
      some ⟨p' * (1 / sx), (q * Real.cos radian - p' * Real.sin radian) * (1 / sy)⟩ := by
  simp only [world2Local, translate_some, rotateLocal_some, scaleLocal_some, Option.bind_eq_bind,
    Option.bind_some, Real.cos_neg, Real.sin_neg, mul_neg, sub_neg_eq_add, ← sub_eq_add_neg]

theorem world2Local2_eq (v : Option Vector) (x y angle sx sy : ℝ) :
    world2Local2 v x y angle sx sy = world2Local v x y angle sx sy := rfl

section Halves
variable {p q c s k l : ℝ}

theorem turned_back_iff (hcs : s ^ 2 + c ^ 2 = 1) (hl : l ≠ 0) :
    (p * (c * k - s * l) + q * (s * k + c * l) = p * (c * k + s * l) + q * (s * k - c * l) ∧
      q * (c * k - s * l) - (p * (c * k - s * l) + q * (s * k + c * l)) * (s * k + c * l) =
        q * (c * k + s * l) - (p * (c * k + s * l) + q * (s * k - c * l)) * (s * k - c * l)) ↔
      q * c = p * s ∧ ((p = 0 ∧ q = 0) ∨ s ^ 2 + c * k = 0) := by
  constructor
  · intro ⟨hfirst, hsecond⟩
    have hdirection : q * c = p * s := by
      refine mul_left_cancel₀ (mul_ne_zero two_ne_zero hl) ?_
      linear_combination hfirst
    refine ⟨hdirection, ?_⟩
    -- the point is `p * c + q * s` away along half the sum
    have hfactor : (p * c + q * s) * (s ^ 2 + c * k) = 0 := by
      refine mul_left_cancel₀ (mul_ne_zero two_ne_zero hl) ?_
      linear_combination -hsecond - 2 * l * s * (k + c) * hdirection + 2 * l * s * q * hcs
    rcases mul_eq_zero.mp hfactor with hzero | hangles
    · left
      constructor
      · linear_combination c * hzero - s * hdirection - p * hcs
      · linear_combination s * hzero + c * hdirection - q * hcs
    · exact Or.inr hangles
  · rintro ⟨hdirection, ⟨rfl, rfl⟩ | hangles⟩
    · constructor <;> ring
    · constructor
      · linear_combination 2 * l * hdirection
      · linear_combination -(2 * l * (p * c + q * s)) * hangles -
          2 * l * s * (k + c) * hdirection + 2 * l * s * q * hcs

end Halves

structure DegreesAgree (v : Vector) (xp yp x y angle sx sy : ℝ) : Prop where
  rotate : rotate2 (some v) xp yp angle = Hs2d.rotate (some v) xp yp (PI * angle / 180)
  rotateLocal : rotateLocal2 (some v) angle = Hs2d.rotateLocal (some v) (PI * angle / 180)
  local2World : local2World2 (some v) x y angle sx sy =
    Hs2d.local2World (some v) x y (PI * angle / 180) sx sy
  world2Local : world2Local2 (some v) x y angle sx sy =
    Hs2d.world2Local (some v) x y (PI * angle / 180) sx sy
  world2Camera : world2Camera2 (some v) x y angle =
    Hs2d.world2Camera (some v) x y (PI * angle / 180)

/-- Turning back by the one angle and by the other is the same if they differ by full turns, and
otherwise for the origin and, with some angles, along the line in the middle of both. -/
def TurnsBackAlike (p q angle radian : ℝ) : Prop :=
  Real.sin ((angle - radian) / 2) = 0 ∨
    (q * Real.cos ((angle + radian) / 2) = p * Real.sin ((angle + radian) / 2) ∧
      ((p = 0 ∧ q = 0) ∨ Real.sin ((angle + radian) / 2) ^ 2 +
        Real.cos ((angle + radian) / 2) * Real.cos ((angle - radian) / 2) = 0))

def half (a : ℝ) : ℝ := a / 2

theorem world2Local_eq_iff (v : Vector) (x y angle radian : ℝ) {sx sy : ℝ} (hsx : sx ≠ 0)
    (hsy : sy ≠ 0) :
    world2Local (some v) x y angle sx sy = world2Local (some v) x y radian sx sy ↔
      TurnsBackAlike (v.x - x) (v.y - y) angle radian := by
  have hangle : angle = (angle + radian) / 2 + (angle - radian) / 2 := by ring
  have hradian : radian = (angle + radian) / 2 - (angle - radian) / 2 := by ring
  rw [world2Local_some, world2Local_some, TurnsBackAlike]
  generalize (angle + radian) / 2 = m at *
  generalize (angle - radian) / 2 = h at *
  subst hangle
  rw [hradian]
  simp only [Option.some.injEq, Vector.mk.injEq, mul_left_inj' (one_div_ne_zero hsx),
    mul_left_inj' (one_div_ne_zero hsy), Real.cos_add, Real.sin_add, Real.cos_sub, Real.sin_sub]
  by_cases hl : Real.sin h = 0
  · simp [hl]
  · rw [turned_back_iff (Real.sin_sq_add_cos_sq m) hl]
    simp only [hl, false_or]

/-- Four of the pairs agree for every angle. -/
theorem degreesAgree_iff (v : Vector) (xp yp x y angle : ℝ) {sx sy : ℝ} (hsx : sx ≠ 0)
    (hsy : sy ≠ 0) :
    DegreesAgree v xp yp x y angle sx sy ↔
      TurnsBackAlike (v.x - x) (v.y - y) angle (PI * angle / 180) := by
  rw [← world2Local_eq_iff v x y angle _ hsx hsy, ← world2Local2_eq]
  constructor
  · intro h
    exact h.world2Local
  · intro h
    exact ⟨rfl, rfl, local2World2_eq _ x y angle sx sy, h, world2Camera2_eq _ x y angle⟩

theorem degreesAgree_zero :
    (2 : ℝ) ≠ 0 ∧ (5 : ℝ) ≠ 0 ∧ DegreesAgree ⟨3, 4⟩ 0 0 1 2 0 2 5 := by
  have hturn : TurnsBackAlike ((3 : ℝ) - 1) (4 - 2) 0 (PI * 0 / 180) := by
    left
    simp
  have hsx : (2 : ℝ) ≠ 0 := by norm_num
  have hsy : (5 : ℝ) ≠ 0 := by norm_num
  exact ⟨hsx, hsy, (degreesAgree_iff ⟨3, 4⟩ 0 0 1 2 0 hsx hsy).mpr hturn⟩

theorem world2Local2_one_degree : ¬ DegreesAgree ⟨1, 0⟩ 0 0 0 0 1 1 1 := by
  intro h
  have hsame := h.world2Local
  rw [world2Local2_eq, world2Local_some, world2Local_some] at hsame
  simp only [Option.some.injEq, Vector.mk.injEq] at hsame
  have hsmall : Real.cos 1 < Real.cos (PI * 1 / 180) := by
    apply Real.cos_lt_cos_of_nonneg_of_le_pi
    · norm_num [PI]
    · exact one_le_two.trans Real.two_le_pi
    · norm_num [PI]
  have hcos := hsame.1
  norm_num at hcos
  rw [PI] at *
  linarith

def distance (v : Vector) (xp yp : ℝ) : ℝ := Real.sqrt ((v.x - xp) ^ 2 + (v.y - yp) ^ 2)

section Turns
variable {p q c s c' s' : ℝ}

def SameDistance (p q c s : ℝ) : Prop :=
  s = 0 ∨ p * (1 - c) + q * s = 0 ∨ p * s * (1 + c) + q * (2 * c - s ^ 2) = 0

theorem turned_distance_iff (hcs : s ^ 2 + c ^ 2 = 1) :
    turnX p q c s ^ 2 + turnY p q c s ^ 2 = p ^ 2 + q ^ 2 ↔ SameDistance p q c s := by
  have hgrows : turnX p q c s ^ 2 + turnY p q c s ^ 2 - (p ^ 2 + q ^ 2) =
      -(s * ((p * (1 - c) + q * s) * (p * s * (1 + c) + q * (2 * c - s ^ 2)))) := by
    rw [turnY, turnX]
    linear_combination (p ^ 2 + q ^ 2) * hcs
  rw [← sub_eq_zero, hgrows, neg_eq_zero, mul_eq_zero, mul_eq_zero, SameDistance]

def TurnsAdd (p q c s c' s' : ℝ) : Prop :=
  turnX (turnX p q c s) (turnY p q c s) c' s' = turnX p q (c * c' - s * s') (s * c' + c * s') ∧
  turnY (turnX p q c s) (turnY p q c s) c' s' = turnY p q (c * c' - s * s') (s * c' + c * s')

theorem turnX_twice_iff :
    turnX (turnX p q c s) (turnY p q c s) c' s' = turnX p q (c * c' - s * s') (s * c' + c * s') ↔
      s = 0 ∨ s' = 0 ∨ p * (1 - c) + q * s = 0 := by
  have hdiff : turnX (turnX p q c s) (turnY p q c s) c' s' -
      turnX p q (c * c' - s * s') (s * c' + c * s') = s * (s' * (p * (1 - c) + q * s)) := by
    simp only [turnX, turnY]
    ring
  rw [← sub_eq_zero, hdiff, mul_eq_zero, mul_eq_zero]

theorem turnsAdd_first (hcs : c ^ 2 = 1) :
    TurnsAdd p q c 0 c' s' ↔ c = 1 ∨ s' = 0 ∨ p * c' = q * s' := by
  have hdiff : turnY (turnX p q c 0) (turnY p q c 0) c' s' -
      turnY p q (c * c' - 0 * s') (0 * c' + c * s') =
        (c - 1) * (s' * (p * c' - q * s')) := by
    simp only [turnX, turnY]
    linear_combination -(s' * (p * c' - q * s')) * hcs
  rw [TurnsAdd, turnX_twice_iff, ← sub_eq_zero (a := turnY _ _ _ _), hdiff, mul_eq_zero,
    mul_eq_zero, sub_eq_zero, sub_eq_zero]
  exact and_iff_right (Or.inl rfl)

theorem turnsAdd_second (hcs : c' ^ 2 = 1) :
    TurnsAdd p q c s c' 0 ↔ c' = 1 ∨ s = 0 ∨ p * c = q * s := by
  have hdiff : turnY (turnX p q c s) (turnY p q c s) c' 0 -
      turnY p q (c * c' - s * 0) (s * c' + c * 0) = (c' - 1) * (s * (p * c - q * s)) := by
    simp only [turnX, turnY]
    linear_combination -(s * (p * c - q * s)) * hcs
  rw [TurnsAdd, turnX_twice_iff, ← sub_eq_zero (a := turnY _ _ _ _), hdiff, mul_eq_zero,
    mul_eq_zero, sub_eq_zero, sub_eq_zero]
  exact and_iff_right (Or.inr (Or.inl rfl))

theorem turnY_twice_iff (hcs : s ^ 2 + c ^ 2 = 1) (hs : s ≠ 0)
    (hkept : p * (1 - c) + q * s = 0) :
    turnY (turnX p q c s) (turnY p q c s) c' s' = turnY p q (c * c' - s * s') (s * c' + c * s') ↔
      (p * c' + q * s') * (p * c' + q * s' - p) = 0 := by
  obtain ⟨t, rfl⟩ : ∃ t, p = s * t := ⟨p / s, (mul_div_cancel₀ p hs).symm⟩
  have hq : q = -((1 - c) * t) := by
    refine mul_right_cancel₀ hs ?_
    linear_combination hkept
  subst hq
  have hdiff : turnY (turnX (s * t) (-((1 - c) * t)) c s) (turnY (s * t) (-((1 - c) * t)) c s)
      c' s' - turnY (s * t) (-((1 - c) * t)) (c * c' - s * s') (s * c' + c * s') =
        -(t * ((s' - (s * c' + c * s')) * (s' - (s * c' + c * s') + s))) := by
    simp only [turnX, turnY]
    linear_combination -(t * s' * (s' - (s * c' + c * s'))) * hcs
  have hplace : (s * t * c' + -((1 - c) * t) * s') * (s * t * c' + -((1 - c) * t) * s' - s * t) =
      t * (t * ((s' - (s * c' + c * s')) * (s' - (s * c' + c * s') + s))) := by ring
  rw [← sub_eq_zero, hdiff, hplace, neg_eq_zero, mul_eq_zero (a := t), mul_eq_zero (a := t),
    mul_eq_zero (a := t)]
  tauto

/-- The angles and points for which two turns add up. -/
def AddsUp (p q c s c' s' : ℝ) : Prop :=
  (s = 0 ∧ (c = 1 ∨ s' = 0 ∨ p * c' = q * s')) ∨
  (s' = 0 ∧ (c' = 1 ∨ s = 0 ∨ p * c = q * s)) ∨
  (p * (1 - c) + q * s = 0 ∧ (p * c' + q * s') * (p * c' + q * s' - p) = 0)

theorem turnsAdd_iff (hcs : s ^ 2 + c ^ 2 = 1) (hcs' : s' ^ 2 + c' ^ 2 = 1) :
    TurnsAdd p q c s c' s' ↔ AddsUp p q c s c' s' := by
  rw [AddsUp]
  by_cases hs : s = 0
  · subst hs
    rw [turnsAdd_first (by linear_combination hcs)]
    constructor
    · intro h
      exact Or.inl ⟨rfl, h⟩
    · rintro (⟨-, h⟩ | ⟨hs', -⟩ | ⟨hkept, hplace⟩)
      · exact h
      · exact Or.inr (Or.inl hs')
      · -- a half turn keeps `x` on the axis only
        by_cases hc : c = 1
        · exact Or.inl hc
        · have hp : p = 0 := by
            refine (mul_eq_zero.mp ?_).resolve_right (sub_ne_zero.mpr (Ne.symm hc))
            linear_combination hkept
          subst hp
          have hq : q * s' = 0 := by simpa using hplace
          rw [hq, zero_mul]
          exact Or.inr (Or.inr rfl)
  by_cases hs' : s' = 0
  · subst hs'
    rw [turnsAdd_second (by linear_combination hcs')]
    constructor
    · intro h
      exact Or.inr (Or.inl ⟨rfl, h⟩)
    · rintro (⟨h, -⟩ | ⟨-, h⟩ | ⟨hkept, hplace⟩)
      · exact absurd h hs
      · exact h
      · have hc' : c' ≠ 0 := by
          rintro rfl
          norm_num at hcs'
        have hfactor : p * (c' - 1) = 0 ∨ p = 0 := by
          have hp : (p * c') * (p * (c' - 1)) = 0 := by linear_combination hplace
          rcases mul_eq_zero.mp hp with h | h
          · exact Or.inr ((mul_eq_zero.mp h).resolve_right hc')
          · exact Or.inl h
        by_cases hp : p = 0
        · subst hp
          have hq : q * s = 0 := by linear_combination hkept
          rw [hq, zero_mul]
          exact Or.inr (Or.inr rfl)
        · left
          have hone := (mul_eq_zero.mp (hfactor.resolve_right hp)).resolve_left hp
          linear_combination hone
  · rw [TurnsAdd, turnX_twice_iff]
    simp only [hs, hs', false_or, false_and]
    exact and_congr_right fun hkept => turnY_twice_iff hcs hs hkept

end Turns

def KeepsDistance (v : Vector) (xp yp radian : ℝ) : Prop :=
  (rotate (some v) xp yp radian).map (distance · xp yp) = some (distance v xp yp)

theorem keepsDistance_iff (v : Vector) (xp yp radian : ℝ) :
    KeepsDistance v xp yp radian ↔
      SameDistance (v.x - xp) (v.y - yp) (Real.cos radian) (Real.sin radian) := by
  rw [KeepsDistance, rotate_some, Option.map_some, Option.some.injEq, distance, distance,
    Real.sqrt_inj (by positivity) (by positivity)]
  simp only [add_sub_cancel_right]
  exact turned_distance_iff (Real.sin_sq_add_cos_sq radian)

theorem rotate_rotate_iff (v : Vector) (xp yp a b : ℝ) :
    rotate (rotate (some v) xp yp a) xp yp b = rotate (some v) xp yp (a + b) ↔
      AddsUp (v.x - xp) (v.y - yp) (Real.cos a) (Real.sin a) (Real.cos b) (Real.sin b) := by
  rw [rotate_some, rotate_some, rotate_some, Real.cos_add, Real.sin_add, Option.some.injEq,
    Vector.mk.injEq, ← turnsAdd_iff (Real.sin_sq_add_cos_sq a) (Real.sin_sq_add_cos_sq b)]
  simp only [add_sub_cancel_right, add_left_inj]
  exact Iff.rfl

theorem rotate_rigid_iff (v : Vector) (xp yp a b : ℝ) :
    (KeepsDistance v xp yp a ↔
      SameDistance (v.x - xp) (v.y - yp) (Real.cos a) (Real.sin a)) ∧
    (rotate (rotate (some v) xp yp a) xp yp b = rotate (some v) xp yp (a + b) ↔
      AddsUp (v.x - xp) (v.y - yp) (Real.cos a) (Real.sin a) (Real.cos b) (Real.sin b)) :=
  ⟨keepsDistance_iff v xp yp a, rotate_rotate_iff v xp yp a b⟩

theorem rotate_quarter : ¬ KeepsDistance ⟨1, 0⟩ 0 0 (Real.pi / 2) ∧
    rotate (rotate (some ⟨1, 0⟩) 0 0 (Real.pi / 2)) 0 0 (Real.pi / 2) ≠
      rotate (some ⟨1, 0⟩) 0 0 (Real.pi / 2 + Real.pi / 2) := by
  constructor
  · rw [keepsDistance_iff, SameDistance]
    simp
  · rw [Ne, rotate_rotate_iff, AddsUp]
    simp

end HsCommon.Hs2d

end
