import HsCommon.Define

/-!
# The path-finding grid

`t_astar_array` with its index arithmetic and the wall test. Cell coordinates
handed to `is_blocked` are `int16_t` and may leave the grid by one on each side.
Return codes are the source's: `is_blocked` answers 0 when the cell cannot be
entered and -1 when it can. A `Cell` is a column and a row; it is `Free` when it
lies inside the grid and is not a wall.
-/

namespace HsCommon.Astar

def maxArrayWidth : ℕ := 128
def maxArrayHeight : ℕ := 128

def tIndexListSize : ℕ := maxArrayWidth * maxArrayHeight / 4

structure AstarArray where
  arr : ℕ → ℤ
  width : ℕ
  height : ℕ

structure AstarRes where
  indexList : ℕ → ℤ
  count : ℕ

def AstarArray.blank : AstarArray := ⟨fun _ => 0, 0, 0⟩

def AstarRes.blank : AstarRes := ⟨fun _ => 0, 0⟩

def hsCoord2index (x y width height : ℕ) : ℤ :=
  if x ≥ width ∨ y ≥ height then -1 else (y * width + x : ℕ)

/-- `hs_coord2index` with its `int` arithmetic checked. -/
def hsCoord2indexInt (x y width height : ℕ) : Except Fault ℤ := do
  if x ≥ width ∨ y ≥ height then
    return -1
  let row ← int32 (y * width)
  int32 (row + x)

def toU16 (z : ℤ) : ℕ := (z % 65536).toNat

/-- `none` is the return value -1; the output pointers are not NULL. -/
def hsIndex2coord (index : ℤ) (width height : ℕ) : Except Fault (Option (ℕ × ℕ)) := do
  let area ← int32 (width * height)
  if index ≥ area then
    return none
  if width = 0 then
    throw .divByZero
  let toY := toU16 (index.tdiv width)
  let row ← int32 (toY * width)
  let toX := toU16 (← int32 (index - row))
  return some (toX, toY)

def calcHvalue (cx cy ex ey : ℕ) : ℤ := |(cx : ℤ) - ex| + |(cy : ℤ) - ey|

def isBlocked (aa : AstarArray) (cx cy : ℤ) : ℤ :=
  if cy < 0 ∨ cy ≥ aa.height then 0
  else if cx < 0 ∨ cx ≥ aa.width then 0
  else if aa.arr (hsCoord2index cx.toNat cy.toNat aa.width aa.height).toNat = 1 then 0
  else -1

def loadCells (data : ℕ → ℤ) (width height : ℕ) (arr : ℕ → ℤ) : ℕ → ℤ :=
  (List.range width).foldl (fun arr i =>
    (List.range height).foldl (fun arr j =>
      Function.update arr (hsCoord2index i j width height).toNat (data (width * j + i))) arr) arr

abbrev Cell := ℕ × ℕ

def AstarArray.Inside (aa : AstarArray) (c : Cell) : Prop := c.1 < aa.width ∧ c.2 < aa.height

def AstarArray.Free (aa : AstarArray) (c : Cell) : Prop :=
  aa.Inside c ∧ aa.arr (c.2 * aa.width + c.1) ≠ 1

instance (aa : AstarArray) (c : Cell) : Decidable (aa.Inside c) := by
  unfold AstarArray.Inside
  infer_instance

instance (aa : AstarArray) (c : Cell) : Decidable (aa.Free c) := by
  unfold AstarArray.Free
  infer_instance

def AstarArray.indexOf (aa : AstarArray) (c : Cell) : ℤ := (c.2 * aa.width + c.1 : ℕ)

structure AstarArray.Loaded (aa : AstarArray) : Prop where
  width_pos : 0 < aa.width
  height_pos : 0 < aa.height
  width_le : aa.width ≤ 128
  height_le : aa.height ≤ 128

def Adjacent (c d : Cell) : Prop :=
  (c.1 = d.1 ∧ (c.2 = d.2 + 1 ∨ d.2 = c.2 + 1)) ∨ (c.2 = d.2 ∧ (c.1 = d.1 + 1 ∨ d.1 = c.1 + 1))

instance (c d : Cell) : Decidable (Adjacent c d) := by
  unfold Adjacent
  infer_instance

theorem hsCoord2index_inside {aa : AstarArray} {c : Cell} (h : aa.Inside c) :
    hsCoord2index c.1 c.2 aa.width aa.height = aa.indexOf c := by
  obtain ⟨hx, hy⟩ := h
  rw [hsCoord2index, if_neg (by omega)]
  rfl

theorem indexOf_injective {aa : AstarArray} {c d : Cell} (hc : aa.Inside c) (hd : aa.Inside d)
    (h : aa.indexOf c = aa.indexOf d) : c = d := by
  obtain ⟨hcx, -⟩ := hc
  obtain ⟨hdx, -⟩ := hd
  have he : c.2 * aa.width + c.1 = d.2 * aa.width + d.1 := Int.ofNat_inj.mp h
  have hmod : ∀ x y : ℕ, x < aa.width → (y * aa.width + x) % aa.width = x := by
    intro x y hx
    rw [Nat.mul_add_mod_self_right, Nat.mod_eq_of_lt hx]
  have hx : c.1 = d.1 := by
    rw [← hmod c.1 c.2 hcx, ← hmod d.1 d.2 hdx, he]
  have hmul : c.2 * aa.width = d.2 * aa.width := by omega
  exact Prod.ext hx (Nat.eq_of_mul_eq_mul_right (by omega) hmul)

theorem indexOf_lt {aa : AstarArray} {c : Cell} (h : aa.Inside c) :
    c.2 * aa.width + c.1 < aa.width * aa.height := by
  obtain ⟨hx, hy⟩ := h
  calc c.2 * aa.width + c.1 < c.2 * aa.width + aa.width := by omega
    _ = aa.width * (c.2 + 1) := by ring
    _ ≤ aa.width * aa.height := Nat.mul_le_mul_left _ hy

theorem toU16_natCast {n : ℕ} (h : n < 65536) : toU16 n = n := by
  unfold toU16
  omega

theorem area_le {aa : AstarArray} (ha : aa.Loaded) : aa.width * aa.height ≤ 16384 :=
  Nat.mul_le_mul ha.width_le ha.height_le

theorem int32_natCast {n : ℕ} (h : (n : ℤ) ≤ int32Max) : int32 n = .ok (n : ℤ) := by
  have hb : int32Min ≤ (n : ℤ) := by
    simp only [int32Min]
    omega
  rw [int32, if_pos ⟨hb, h⟩]

theorem int32_mul {m n : ℕ} (h : ((m * n : ℕ) : ℤ) ≤ int32Max) :
    int32 (m * n) = .ok ((m * n : ℕ) : ℤ) := by
  rw [← Nat.cast_mul]
  exact int32_natCast h

theorem area_fits {aa : AstarArray} (ha : aa.Loaded) :
    ((aa.width * aa.height : ℕ) : ℤ) ≤ int32Max := by
  have hle := area_le ha
  simp only [int32Max]
  omega

theorem hsIndex2coord_beyond {width height : ℕ} {index : ℤ}
    (harea : ((width * height : ℕ) : ℤ) ≤ int32Max) (h : ((width * height : ℕ) : ℤ) ≤ index) :
    hsIndex2coord index width height = .ok none := by
  simp only [hsIndex2coord, int32_mul harea, bind, Except.bind, ge_iff_le, h, if_true]
  rfl

theorem hsIndex2coord_outside {aa : AstarArray} (ha : aa.Loaded) {index : ℤ}
    (h : ¬ index < ((aa.width * aa.height : ℕ) : ℤ)) :
    hsIndex2coord index aa.width aa.height = .ok none :=
  hsIndex2coord_beyond (area_fits ha) (not_lt.mp h)

theorem hsIndex2coord_natCast {width height n : ℕ} (hw : width ≤ 65536) (hh : height ≤ 65536)
    (harea : ((width * height : ℕ) : ℤ) ≤ int32Max) (hn : n < width * height) :
    hsIndex2coord n width height = .ok (some (n % width, n / width)) := by
  have hw0 : width ≠ 0 := by
    rintro rfl
    omega
  have hmod := Nat.mod_lt n (Nat.pos_of_ne_zero hw0)
  have hdiv : n / width < height := Nat.div_lt_of_lt_mul hn
  have hrow := Nat.div_mul_le_self n width
  have hrest : (n : ℤ) - ((n / width * width : ℕ) : ℤ) = ((n % width : ℕ) : ℤ) := by
    have := Nat.mod_add_div' n width
    omega
  have hy : toU16 ((n : ℤ).tdiv width) = n / width := by
    rw [← Int.ofNat_tdiv]
    exact toU16_natCast (by omega)
  have hx : toU16 ((n % width : ℕ) : ℤ) = n % width := toU16_natCast (by omega)
  have hrow' : int32 (((n / width : ℕ) : ℤ) * width) = .ok ((n / width * width : ℕ) : ℤ) :=
    int32_mul (by omega)
  have hrest' : int32 ((n : ℤ) - ((n / width * width : ℕ) : ℤ)) = .ok ((n % width : ℕ) : ℤ) := by
    rw [hrest]
    exact int32_natCast (by omega)
  have hin : ¬ (n : ℤ) ≥ ((width * height : ℕ) : ℤ) := by omega
  simp only [hsIndex2coord, int32_mul harea, bind, Except.bind, hin, hw0, hy, hrow', hrest', hx,
    if_false]
  rfl

theorem row_add_lt {width height x y : ℕ} (hx : x < width) (hy : y < height) :
    y * width + x < width * height :=
  @indexOf_lt ⟨fun _ => 0, width, height⟩ (x, y) ⟨hx, hy⟩

theorem hsIndex2coord_row_add {width height x y : ℕ} (hw : width ≤ 65536) (hh : height ≤ 65536)
    (harea : ((width * height : ℕ) : ℤ) ≤ int32Max) (hx : x < width) (hy : y < height) :
    hsIndex2coord ((y * width + x : ℕ) : ℤ) width height = .ok (some (x, y)) := by
  have hmod : (y * width + x) % width = x := by
    rw [Nat.mul_add_mod_self_right, Nat.mod_eq_of_lt hx]
  have hdiv : (y * width + x) / width = y := by
    rw [Nat.mul_comm, Nat.mul_add_div (by omega), Nat.div_eq_of_lt hx, Nat.add_zero]
  rw [hsIndex2coord_natCast hw hh harea (row_add_lt hx hy), hmod, hdiv]

theorem hsIndex2coord_indexOf {aa : AstarArray} (ha : aa.Loaded) {c : Cell} (hc : aa.Inside c) :
    hsIndex2coord (aa.indexOf c) aa.width aa.height = .ok (some c) := by
  have hw : aa.width ≤ 65536 := ha.width_le.trans (by decide)
  have hh : aa.height ≤ 65536 := ha.height_le.trans (by decide)
  exact hsIndex2coord_row_add hw hh (area_fits ha) hc.1 hc.2

theorem exists_cell {aa : AstarArray} (ha : aa.Loaded) {index : ℤ} (h0 : 0 ≤ index)
    (h : index < ((aa.width * aa.height : ℕ) : ℤ)) : ∃ c, aa.Inside c ∧ aa.indexOf c = index := by
  obtain ⟨n, rfl⟩ := Int.eq_ofNat_of_zero_le h0
  have hn : n < aa.width * aa.height := by exact_mod_cast h
  refine ⟨(n % aa.width, n / aa.width), ⟨Nat.mod_lt _ ha.width_pos, ?_⟩, ?_⟩
  · exact Nat.div_lt_of_lt_mul hn
  · simp only [AstarArray.indexOf, Nat.mul_comm (n / aa.width), Nat.div_add_mod]

theorem isBlocked_natCast (aa : AstarArray) (c : Cell) :
    isBlocked aa c.1 c.2 = if aa.Free c then -1 else 0 := by
  by_cases hc : aa.Inside c
  · have hi := hsCoord2index_inside hc
    obtain ⟨hx, hy⟩ := id hc
    simp only [isBlocked, Int.toNat_natCast, hi, AstarArray.indexOf, AstarArray.Free, hc, true_and]
    rw [if_neg (by omega), if_neg (by omega)]
    split_ifs <;> simp_all
  · have hf : ¬ aa.Free c := fun h => hc h.1
    rw [if_neg hf]
    unfold AstarArray.Inside at hc
    unfold isBlocked
    by_cases hy : c.2 < aa.height
    · rw [if_neg (by omega), if_pos (by omega)]
    · rw [if_pos (by omega)]

theorem isBlocked_neg (aa : AstarArray) {x y : ℤ} (h : x < 0 ∨ y < 0) : isBlocked aa x y = 0 := by
  unfold isBlocked
  rcases h with h | h
  · by_cases hy : y < 0 ∨ y ≥ aa.height
    · rw [if_pos hy]
    · rw [if_neg hy, if_pos (Or.inl h)]
  · rw [if_pos (Or.inl h)]

theorem loadColumn_apply (data : ℕ → ℤ) {width height : ℕ} {i : ℕ} (hi : i < width) (n : ℕ)
    (hn : n ≤ height) (arr : ℕ → ℤ) {x y : ℕ} (hx : x < width) :
    (List.range n).foldl (fun arr j =>
      Function.update arr (hsCoord2index i j width height).toNat (data (width * j + i))) arr
      (y * width + x) = if x = i ∧ y < n then data (width * y + x) else arr (y * width + x) := by
  induction n with
  | zero => simp
  | succ n ih =>
    rw [List.range_succ, List.foldl_append, List.foldl_cons, List.foldl_nil]
    have hc : (hsCoord2index i n width height).toNat = n * width + i := by
      rw [hsCoord2index, if_neg (by omega), Int.toNat_natCast]
    by_cases he : y * width + x = n * width + i
    · let aa : AstarArray := ⟨arr, width, y + n + 1⟩
      have hcell : ((x, y) : Cell) = (i, n) :=
        @indexOf_injective aa _ _ ⟨hx, by show y < y + n + 1; omega⟩
          ⟨hi, by show n < y + n + 1; omega⟩ (congrArg Nat.cast he)
      obtain ⟨rfl, rfl⟩ := Prod.mk.inj hcell
      rw [hc, Function.update_self, if_pos ⟨rfl, by omega⟩]
    · rw [hc, Function.update_of_ne he, ih (by omega)]
      by_cases hxy : x = i ∧ y < n
      · rw [if_pos hxy, if_pos ⟨hxy.1, by omega⟩]
      · rw [if_neg hxy, if_neg]
        rintro ⟨rfl, hy⟩
        have hyn : y = n := by
          by_contra hne
          exact hxy ⟨rfl, by omega⟩
        exact he (by rw [hyn])

theorem loadCells_apply (data : ℕ → ℤ) {width height : ℕ} (arr : ℕ → ℤ) {x y : ℕ}
    (hx : x < width) (hy : y < height) :
    loadCells data width height arr (y * width + x) = data (width * y + x) := by
  have key : ∀ n ≤ width, (List.range n).foldl (fun arr i =>
      (List.range height).foldl (fun arr j =>
        Function.update arr (hsCoord2index i j width height).toNat (data (width * j + i))) arr) arr
      (y * width + x) = if x < n then data (width * y + x) else arr (y * width + x) := by
    intro n hn
    induction n with
    | zero => simp
    | succ n ih =>
      rw [List.range_succ, List.foldl_append, List.foldl_cons, List.foldl_nil,
        loadColumn_apply data (by omega) height le_rfl _ hx, ih (by omega)]
      split_ifs <;> first | rfl | omega
  rw [loadCells, key width le_rfl, if_pos hx]

end HsCommon.Astar
