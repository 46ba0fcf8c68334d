import HsCommon.Rotations
import HsCommon.Define

/-!
# From the world to the screen

`World2Camera`, `Perspective` and `Viewport` one after the other. The aspect ratio
in `Viewport` cancels, and the whole is an affine map of the point, although the
turn is not a rotation: straight lines stay straight, and what is seen is cut out
by two angles. The turn squares the cosine of its angle, so that it keeps points
apart unless the camera is turned by a quarter.
-/

noncomputable section
namespace HsCommon.Hs2d

def perspective (v : Option Vector) (fov aspect viewDistance : ℝ) : Except Fault Vector :=
  match v with
  | none => .error .nullPointer
  | some v =>
    let r := 1 / Real.tan (half fov)
    .ok { x := v.x * r / viewDistance, y := v.y * r / viewDistance / aspect }

def viewport (v : Option Vector) (x y width height : ℤ) : Except Fault Vector :=
  match v with
  | none => .error .nullPointer
  | some v =>
    let v : Vector := { v with x := (v.x - -1) * (width / (1 - -1)) }
    let aspect : ℝ := height / width
    let v : Vector := { v with y := (v.y * aspect - -aspect) * (height / (aspect - -aspect)) }
    .ok { x := v.x + x, y := v.y + y }

structure View where
  x : ℝ
  y : ℝ
  rotateRadian : ℝ
  fov : ℝ
  aspect : ℝ
  viewDistance : ℝ
  left : ℤ
  top : ℤ
  width : ℤ
  height : ℤ

structure View.Valid (w : View) : Prop where
  tan_pos : 0 < Real.tan (w.fov / 2)
  aspect_pos : 0 < w.aspect
  distance_pos : 0 < w.viewDistance
  width_pos : 0 < w.width
  height_pos : 0 < w.height

def world2Screen (w : View) (v : Option Vector) : Except Fault Vector := do
  let v ← perspective (world2Camera v w.x w.y w.rotateRadian) w.fov w.aspect w.viewDistance
  viewport (some v) w.left w.top w.width w.height

variable {w : View}

def View.cameraX (w : View) (v : Vector) : ℝ :=
  turnX (v.x - w.x) (v.y - w.y) (Real.cos w.rotateRadian) (-Real.sin w.rotateRadian)

def View.cameraY (w : View) (v : Vector) : ℝ :=
  turnY (v.x - w.x) (v.y - w.y) (Real.cos w.rotateRadian) (-Real.sin w.rotateRadian)

def View.reachX (w : View) : ℝ := w.viewDistance * Real.tan (half w.fov)

def View.reachY (w : View) : ℝ := w.reachX * w.aspect

def View.screen (w : View) (v : Vector) : Vector where
  x := w.left + (w.cameraX v / w.reachX + 1) * half w.width
  y := w.top + (w.cameraY v / w.reachY + 1) * half w.height

theorem world2Camera_some (w : View) (v : Vector) :
    world2Camera (some v) w.x w.y w.rotateRadian = some ⟨w.cameraX v, w.cameraY v⟩ := by
  simp only [world2Camera, translate_some, rotateLocal_some, Option.bind_eq_bind,
    Option.bind_some, Real.cos_neg, Real.sin_neg, View.cameraX, View.cameraY, turnX, turnY,
    sub_eq_add_neg]

theorem viewport_some (v : Vector) (x y : ℤ) {width height : ℤ} (hwidth : 0 < width)
    (hheight : 0 < height) : viewport (some v) x y width height =
      .ok ⟨x + (v.x + 1) * (width / 2), y + (v.y + 1) * (height / 2)⟩ := by
  have hw : (width : ℝ) ≠ 0 := Int.cast_ne_zero.mpr hwidth.ne'
  have hh : (height : ℝ) ≠ 0 := Int.cast_ne_zero.mpr hheight.ne'
  simp only [viewport, Except.ok.injEq, Vector.mk.injEq]
  constructor
  · ring
  · field_simp
    ring

theorem world2Screen_some (h : w.Valid) (v : Vector) :
    world2Screen w (some v) = .ok (w.screen v) := by
  have hr := h.tan_pos.ne'
  have hd := h.distance_pos.ne'
  have ha := h.aspect_pos.ne'
  simp only [world2Screen, world2Camera_some, perspective, bind, Except.bind,
    viewport_some _ _ _ h.width_pos h.height_pos, View.screen, View.reachX, View.reachY, half,
    Except.ok.injEq, Vector.mk.injEq]
  constructor
  · field_simp
  · field_simp

theorem View.Valid.reach_pos (h : w.Valid) : 0 < w.reachX ∧ 0 < w.reachY :=
  ⟨mul_pos h.distance_pos h.tan_pos, mul_pos (mul_pos h.distance_pos h.tan_pos) h.aspect_pos⟩

def between (t : ℝ) (v u : Vector) : Vector := ⟨v.x + t * (u.x - v.x), v.y + t * (u.y - v.y)⟩

theorem screen_between (w : View) (t : ℝ) (v u : Vector) :
    w.screen (between t v u) = between t (w.screen v) (w.screen u) := by
  apply Vector.ext
  · simp only [View.screen, View.cameraX, turnX, between]
    ring
  · simp only [View.screen, View.cameraY, turnY, turnX, between]
    ring

theorem screen_eq_iff (h : w.Valid) (v u : Vector) :
    w.screen v = w.screen u ↔ w.cameraX v = w.cameraX u ∧ w.cameraY v = w.cameraY u := by
  have hw : (w.width : ℝ) / 2 ≠ 0 := div_ne_zero (Int.cast_ne_zero.mpr h.width_pos.ne') two_ne_zero
  have hh : (w.height : ℝ) / 2 ≠ 0 :=
    div_ne_zero (Int.cast_ne_zero.mpr h.height_pos.ne') two_ne_zero
  rw [Vector.ext_iff]
  simp only [View.screen, half, add_right_inj, mul_left_inj' hw, mul_left_inj' hh, add_left_inj,
    div_left_inj' h.reach_pos.1.ne', div_left_inj' h.reach_pos.2.ne']

theorem screen_injective_iff (h : w.Valid) :
    Function.Injective w.screen ↔ Real.cos w.rotateRadian ≠ 0 := by
  constructor
  · intro hinj hcos
    -- a quarter turn takes the points beside the camera to one point
    have hsame : w.screen ⟨w.x + 1, w.y⟩ = w.screen ⟨w.x, w.y⟩ := by
      rw [screen_eq_iff h]
      simp [View.cameraX, View.cameraY, turnX, turnY, hcos]
    have hx := congrArg Vector.x (hinj hsame)
    simp at hx
  · intro hcos v u hsame
    obtain ⟨hx, hy⟩ := (screen_eq_iff h v u).mp hsame
    simp only [View.cameraX, View.cameraY, turnX, turnY] at hx hy
    have hq : v.y = u.y := by
      refine mul_right_cancel₀ hcos ?_
      linear_combination hy + Real.sin w.rotateRadian * hx
    have hp : v.x = u.x := by
      refine mul_right_cancel₀ hcos ?_
      linear_combination hx - Real.sin w.rotateRadian * hq
    exact Vector.ext hp hq

def View.Shows (w : View) (p : Vector) : Prop :=
  (w.left ≤ p.x ∧ p.x ≤ w.left + w.width) ∧ w.top ≤ p.y ∧ p.y ≤ w.top + w.height

theorem scaled_inside {a reach l n : ℝ} (hr : 0 < reach) (hn : 0 < n) :
    (l ≤ l + (a / reach + 1) * (n / 2) ∧ l + (a / reach + 1) * (n / 2) ≤ l + n) ↔
      |a| ≤ reach := by
  have hlow : l ≤ l + (a / reach + 1) * (n / 2) ↔ -1 ≤ a / reach := by
    constructor
    · intro hle
      by_contra hlt
      nlinarith
    · intro hle
      nlinarith
  have hhigh : l + (a / reach + 1) * (n / 2) ≤ l + n ↔ a / reach ≤ 1 := by
    constructor
    · intro hle
      by_contra hlt
      nlinarith
    · intro hle
      nlinarith
  rw [hlow, hhigh, ← abs_le, abs_div, abs_of_pos hr, div_le_one hr]

theorem shows_screen_iff (h : w.Valid) (v : Vector) :
    w.Shows (w.screen v) ↔ |w.cameraX v| ≤ w.reachX ∧ |w.cameraY v| ≤ w.reachY := by
  have hw : (0 : ℝ) < w.width := Int.cast_pos.mpr h.width_pos
  have hh : (0 : ℝ) < w.height := Int.cast_pos.mpr h.height_pos
  rw [View.Shows, View.screen, half, half, scaled_inside h.reach_pos.1 hw,
    scaled_inside h.reach_pos.2 hh]

/-- Straight lines stay straight, points stay apart unless the cosine of the turn is zero, and a
point is on the screen exactly if the camera sees it within both reaches. -/
theorem world2Screen_views (w : View) (h : w.Valid) :
    (∀ v u t p q, world2Screen w (some v) = .ok p → world2Screen w (some u) = .ok q →
      world2Screen w (some (between t v u)) = .ok (between t p q)) ∧
    ((∀ v u, world2Screen w (some v) = world2Screen w (some u) → v = u) ↔
      Real.cos w.rotateRadian ≠ 0) ∧
    ∀ v c, world2Camera (some v) w.x w.y w.rotateRadian = some c →
      ∃ p, world2Screen w (some v) = .ok p ∧
        (w.Shows p ↔ |c.x| ≤ w.viewDistance * Real.tan (w.fov / 2) ∧
          |c.y| ≤ w.viewDistance * Real.tan (w.fov / 2) * w.aspect) := by
  refine ⟨fun v u t p q hp hq => ?_, ?_, fun v c hc => ?_⟩
  · rw [world2Screen_some h, Except.ok.injEq] at hp hq
    rw [world2Screen_some h, screen_between, hp, hq]
  · rw [← screen_injective_iff h]
    simp only [world2Screen_some h, Except.ok.injEq]
    rfl
  · rw [world2Camera_some, Option.some.injEq] at hc
    refine ⟨w.screen v, world2Screen_some h v, ?_⟩
    rw [shows_screen_iff h, ← hc]
    rfl

def straightView : View where
  x := 0
  y := 0
  rotateRadian := 0
  fov := half Real.pi
  aspect := 1
  viewDistance := 1
  left := 0
  top := 0
  width := 640
  height := 480

theorem world2Screen_views_straight :
    ∃ p, world2Screen straightView (some ⟨1, 0⟩) = .ok p ∧ straightView.Shows p := by
  have htan : Real.tan (Real.pi / 2 / 2) = 1 := by
    rw [div_div, show (2 : ℝ) * 2 = 4 by norm_num, Real.tan_pi_div_four]
  have hvalid : straightView.Valid := by
    refine ⟨?_, one_pos, one_pos, by decide, by decide⟩
    change 0 < Real.tan (Real.pi / 2 / 2)
    rw [htan]
    exact one_pos
  obtain ⟨p, hp, hshows⟩ := (world2Screen_views straightView hvalid).2.2 ⟨1, 0⟩ ⟨1, 0⟩
    (by simp [world2Camera, straightView])
  refine ⟨p, hp, hshows.mpr ?_⟩
  change |(1 : ℝ)| ≤ 1 * Real.tan (Real.pi / 2 / 2) ∧ |(0 : ℝ)| ≤ 1 * Real.tan (Real.pi / 2 / 2) * 1
  rw [htan]
  norm_num

end HsCommon.Hs2d

end
