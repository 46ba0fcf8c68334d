import HsCommon.Library.LabelSetting

/-!
# Best-first exploration of a graph

The search of `hs_astar.cpp` without its arrays and pointers: a node of the open
or the closed list is a trail, the vertex reached with the vertices behind it.
Each round closes the open trail of least total (cost so far plus estimate), the
one opened last among equals, and opens its successors at the end of the list. A
successor is skipped when it is closed, but the test does not see the vertex that
was closed first, so the start may be opened a second time.

The invariant of the rounds makes the closed trails settled labels and the open
trails frontier labels of a label-setting search, the second start excepted.
-/

namespace HsCommon.Astar
open LabelSetting

variable {V : Type*}

def lastMinStep (total : V → ℕ) (best : Option (ℕ × V)) (x : V × ℕ) : Option (ℕ × V) :=
  match best with
  | none => some (x.2, x.1)
  | some (k, a) => if total a ≥ total x.1 then some (x.2, x.1) else some (k, a)

/-- The position and the value of the least element, the last one among equals. -/
def lastMin (total : V → ℕ) (l : List V) : Option (ℕ × V) :=
  l.zipIdx.foldl (lastMinStep total) none

theorem lastMin_append (total : V → ℕ) (l : List V) (a : V) :
    lastMin total (l ++ [a]) = lastMinStep total (lastMin total l) (a, l.length) := by
  simp [lastMin, List.zipIdx_append]

theorem lastMin_eq_none {total : V → ℕ} {l : List V} : lastMin total l = none ↔ l = [] := by
  constructor
  · intro h
    rcases List.eq_nil_or_concat l with rfl | ⟨m, a, rfl⟩
    · rfl
    · rw [List.concat_eq_append, lastMin_append] at h
      cases hm : lastMin total m with
      | none => simp [hm, lastMinStep] at h
      | some p =>
        simp only [hm, lastMinStep] at h
        split_ifs at h
  · rintro rfl
    rfl

theorem lastMin_spec {total : V → ℕ} {l : List V} {k : ℕ} {a : V}
    (h : lastMin total l = some (k, a)) :
    l[k]? = some a ∧ (∀ x ∈ l, total a ≤ total x) ∧
      ∀ j x, k < j → l[j]? = some x → total a < total x := by
  induction l using List.reverseRecOn generalizing k a with
  | nil => simp [lastMin] at h
  | append_singleton l b ih =>
    rw [lastMin_append] at h
    cases hm : lastMin total l with
    | none =>
      obtain rfl := lastMin_eq_none.mp hm
      simp only [hm, lastMinStep, Option.some.injEq, Prod.mk.injEq] at h
      obtain ⟨rfl, rfl⟩ := h
      refine ⟨rfl, by simp, ?_⟩
      intro j x hj hx
      have hlt := (List.getElem?_eq_some_iff.mp hx).1
      simp only [List.nil_append, List.length_cons, List.length_nil] at hlt hj
      omega
    | some p =>
      obtain ⟨hk, hle, hlt⟩ := ih (k := p.1) (a := p.2) hm
      have hkl := (List.getElem?_eq_some_iff.mp hk).1
      simp only [hm, lastMinStep] at h
      split_ifs at h with hc
      · obtain ⟨rfl, rfl⟩ := Prod.mk.inj (Option.some.inj h)
        refine ⟨by simp, ?_, ?_⟩
        · intro x hx
          rcases List.mem_append.mp hx with hx | hx
          · exact hc.le.trans (hle x hx)
          · obtain rfl := List.mem_singleton.mp hx
            exact le_rfl
        · intro j x hj hx
          have hjl := (List.getElem?_eq_some_iff.mp hx).1
          simp only [List.length_append, List.length_singleton] at hjl
          omega
      · obtain ⟨rfl, rfl⟩ := Prod.mk.inj (Option.some.inj h)
        refine ⟨by rw [List.getElem?_append_left hkl, hk], ?_, ?_⟩
        · intro x hx
          rcases List.mem_append.mp hx with hx | hx
          · exact hle x hx
          · obtain rfl := List.mem_singleton.mp hx
            omega
        · intro j x hj hx
          by_cases hjl : j < l.length
          · rw [List.getElem?_append_left hjl] at hx
            exact hlt j x hj hx
          · rw [List.getElem?_append_right (by omega)] at hx
            have hx0 : j - l.length = 0 := by
              have := (List.getElem?_eq_some_iff.mp hx).1
              simp only [List.length_singleton] at this
              omega
            rw [hx0] at hx
            obtain rfl := Option.some.inj hx
            omega

structure Trail (V : Type*) where
  here : V
  back : List V
  deriving DecidableEq

namespace Trail

def cost (t : Trail V) : ℕ := t.back.length

def cells (t : Trail V) : List V := t.here :: t.back

def extend (t : Trail V) (v : V) : Trail V := ⟨v, t.here :: t.back⟩

def total (estimate : V → ℕ) (t : Trail V) : ℕ := t.cost + estimate t.here

@[simp] theorem extend_here (t : Trail V) (v : V) : (t.extend v).here = v := rfl
@[simp] theorem extend_cost (t : Trail V) (v : V) : (t.extend v).cost = t.cost + 1 := rfl
@[simp] theorem extend_cells (t : Trail V) (v : V) : (t.extend v).cells = v :: t.cells := rfl

end Trail

structure Exploration (V : Type*) where
  opn : List (Trail V)
  cls : List (Trail V)

namespace Exploration

def start (b : V) : Exploration V := ⟨[⟨b, []⟩], []⟩

def size (e : Exploration V) : ℕ := e.opn.length + e.cls.length

/-- The vertices the closed test sees: the trails stand latest first, so the first one closed is
the last of the list. -/
def seen (cls : List (Trail V)) : List V := cls.dropLast.map Trail.here

theorem seen_cons {cls : List (Trail V)} (h : cls ≠ []) (t : Trail V) :
    seen (t :: cls) = t.here :: seen cls := by
  simp only [seen, List.dropLast_cons_of_ne_nil h, List.map_cons]

theorem length_seen (cls : List (Trail V)) : (seen cls).length = cls.length - 1 := by
  simp [seen]

variable [DecidableEq V]

def improve (cur : Trail V) (v : V) (t : Trail V) : Trail V :=
  if t.here = v ∧ t.cost > cur.cost + 1 then cur.extend v else t

def discover (cls : List (Trail V)) (cur : Trail V) (opn : List (Trail V)) (v : V) :
    List (Trail V) :=
  if v ∈ seen cls then opn
  else if v ∈ opn.map Trail.here then opn.map (improve cur v)
  else opn ++ [cur.extend v]

def close (k : ℕ) (cur : Trail V) (e : Exploration V) : Exploration V :=
  ⟨e.opn.eraseIdx k, cur :: e.cls⟩

def expand (next : V → List V) (cur : Trail V) (e : Exploration V) : Exploration V :=
  { e with opn := (next cur.here).foldl (discover e.cls cur) e.opn }

/-- One round; a finished exploration stays as it is. -/
def advance (next : V → List V) (estimate : V → ℕ) (goal : V) (e : Exploration V) :
    Exploration V :=
  match lastMin (Trail.total estimate) e.opn with
  | none => e
  | some (k, cur) => if cur.here = goal then e else expand next cur (close k cur e)

theorem improve_here (cur : Trail V) (v : V) (t : Trail V) : (improve cur v t).here = t.here := by
  simp only [improve]
  split_ifs with h
  · exact h.1.symm
  · rfl

theorem improve_cost_le (cur : Trail V) (v : V) (t : Trail V) :
    (improve cur v t).cost ≤ t.cost := by
  simp only [improve]
  split_ifs with h
  · rw [Trail.extend_cost]
    omega
  · exact le_rfl

theorem map_improve_here (cur : Trail V) (v : V) (opn : List (Trail V)) :
    (opn.map (improve cur v)).map Trail.here = opn.map Trail.here := by
  rw [List.map_map]
  exact List.map_congr_left fun t _ => improve_here cur v t

theorem discover_keeps (cls : List (Trail V)) (cur : Trail V) (opn : List (Trail V)) (v : V)
    {t : Trail V} (ht : t ∈ opn) :
    ∃ t' ∈ discover cls cur opn v, t'.here = t.here ∧ t'.cost ≤ t.cost := by
  simp only [discover]
  split_ifs
  · exact ⟨t, ht, rfl, le_rfl⟩
  · exact ⟨improve cur v t, List.mem_map_of_mem ht, improve_here cur v t,
      improve_cost_le cur v t⟩
  · exact ⟨t, List.mem_append_left _ ht, rfl, le_rfl⟩

theorem discover_covers (cls : List (Trail V)) (cur : Trail V) (opn : List (Trail V)) (v : V) :
    v ∈ seen cls ∨ ∃ t ∈ discover cls cur opn v, t.here = v ∧ t.cost ≤ cur.cost + 1 := by
  by_cases hs : v ∈ seen cls
  · exact Or.inl hs
  · right
    simp only [discover, if_neg hs]
    split_ifs with ho
    · obtain ⟨t, ht, hv⟩ := List.mem_map.mp ho
      refine ⟨improve cur v t, List.mem_map_of_mem ht, by rw [improve_here, hv], ?_⟩
      simp only [improve]
      split_ifs with hc
      · exact le_rfl
      · rw [not_and] at hc
        exact not_lt.mp (hc hv)
    · exact ⟨cur.extend v, List.mem_append_right _ (List.mem_singleton_self _), rfl, le_rfl⟩

theorem discover_origin {cls : List (Trail V)} {cur : Trail V} {opn : List (Trail V)} {v : V}
    {t : Trail V} (ht : t ∈ discover cls cur opn v) : t ∈ opn ∨ t = cur.extend v := by
  simp only [discover] at ht
  split_ifs at ht
  · exact Or.inl ht
  · obtain ⟨u, hu, rfl⟩ := List.mem_map.mp ht
    simp only [improve]
    split_ifs
    · exact Or.inr rfl
    · exact Or.inl hu
  · rcases List.mem_append.mp ht with h | h
    · exact Or.inl h
    · exact Or.inr (List.mem_singleton.mp h)

theorem discover_here (cls : List (Trail V)) (cur : Trail V) (opn : List (Trail V)) (v : V) :
    (discover cls cur opn v).map Trail.here = opn.map Trail.here ∨
    (v ∉ seen cls ∧ v ∉ opn.map Trail.here ∧
      discover cls cur opn v = opn ++ [cur.extend v]) := by
  simp only [discover]
  split_ifs with hs ho
  · exact Or.inl rfl
  · exact Or.inl (map_improve_here cur v opn)
  · exact Or.inr ⟨hs, ho, rfl⟩

theorem discover_nodup {cls : List (Trail V)} {cur : Trail V} {opn : List (Trail V)} {v : V}
    (h : (opn.map Trail.here ++ seen cls).Nodup) :
    ((discover cls cur opn v).map Trail.here ++ seen cls).Nodup := by
  rcases discover_here cls cur opn v with he | ⟨hs, ho, he⟩
  · rwa [he]
  · rw [he, List.map_append, List.append_assoc]
    have hp : (opn.map Trail.here ++ ([cur.extend v].map Trail.here ++ seen cls)).Perm
        (v :: (opn.map Trail.here ++ seen cls)) := List.perm_middle
    rw [hp.nodup_iff, List.nodup_cons]
    exact ⟨fun hm => (List.mem_append.mp hm).elim ho hs, h⟩

theorem discover_length (cls : List (Trail V)) (cur : Trail V) (opn : List (Trail V)) (v : V) :
    opn.length ≤ (discover cls cur opn v).length := by
  simp only [discover]
  split_ifs <;> simp

section Successors
variable (cls : List (Trail V)) (cur : Trail V)

theorem discovers_keeps (vs : List V) (opn : List (Trail V)) {t : Trail V} (ht : t ∈ opn) :
    ∃ t' ∈ vs.foldl (discover cls cur) opn, t'.here = t.here ∧ t'.cost ≤ t.cost := by
  induction vs generalizing opn t with
  | nil => exact ⟨t, ht, rfl, le_rfl⟩
  | cons v vs ih =>
    obtain ⟨t₁, h₁, hh₁, hc₁⟩ := discover_keeps cls cur opn v ht
    obtain ⟨t₂, h₂, hh₂, hc₂⟩ := ih (discover cls cur opn v) h₁
    exact ⟨t₂, h₂, hh₂.trans hh₁, hc₂.trans hc₁⟩

theorem discovers_covers (vs : List V) (opn : List (Trail V)) {v : V} (hv : v ∈ vs) :
    v ∈ seen cls ∨
      ∃ t ∈ vs.foldl (discover cls cur) opn, t.here = v ∧ t.cost ≤ cur.cost + 1 := by
  induction vs generalizing opn with
  | nil => cases hv
  | cons w vs ih =>
    rcases List.mem_cons.mp hv with rfl | hv
    · rcases discover_covers cls cur opn v with hs | ⟨t, ht, hh, hc⟩
      · exact Or.inl hs
      · obtain ⟨t', ht', hh', hc'⟩ := discovers_keeps cls cur vs _ ht
        exact Or.inr ⟨t', ht', hh'.trans hh, hc'.trans hc⟩
    · exact ih (discover cls cur opn w) hv

theorem discovers_origin (vs : List V) (opn : List (Trail V)) {t : Trail V}
    (ht : t ∈ vs.foldl (discover cls cur) opn) : t ∈ opn ∨ ∃ v ∈ vs, t = cur.extend v := by
  induction vs generalizing opn with
  | nil => exact Or.inl ht
  | cons v vs ih =>
    rcases ih _ ht with h | ⟨w, hw, rfl⟩
    · rcases discover_origin h with h | rfl
      · exact Or.inl h
      · exact Or.inr ⟨v, by simp, rfl⟩
    · exact Or.inr ⟨w, by simp [hw], rfl⟩

theorem discovers_nodup (vs : List V) {opn : List (Trail V)}
    (h : (opn.map Trail.here ++ seen cls).Nodup) :
    ((vs.foldl (discover cls cur) opn).map Trail.here ++ seen cls).Nodup := by
  induction vs generalizing opn with
  | nil => exact h
  | cons v vs ih => exact ih (discover_nodup h)

theorem discovers_length (vs : List V) (opn : List (Trail V)) :
    opn.length ≤ (vs.foldl (discover cls cur) opn).length := by
  induction vs generalizing opn with
  | nil => exact le_rfl
  | cons v vs ih => exact (discover_length cls cur opn v).trans (ih _)

end Successors

def Edge (next : V → List V) (u v : V) (k : ℕ) : Prop := v ∈ next u ∧ k = 1

def IsTrail (next : V → List V) (b : V) (t : Trail V) : Prop :=
  ∃ vs, Walk (Edge next) b t.here vs t.cost ∧ t.cells = (b :: vs).reverse

def settled (b : V) (e : Exploration V) : Set (V × ℕ) :=
  {p | ∃ t ∈ e.cls, (t.here = b → t.back = []) ∧ p = (t.here, t.cost)}

def frontier (e : Exploration V) : Set (V × ℕ) := {p | ∃ t ∈ e.opn, p = (t.here, t.cost)}

structure Inv (next : V → List V) (b : V) (e : Exploration V) : Prop where
  walks : ∀ t ∈ e.opn ++ e.cls, IsTrail next b t
  distinct : (e.opn.map Trail.here ++ seen e.cls).Nodup
  phase : e = start b ∨
    (e.cls.getLast? = some ⟨b, []⟩ ∧ ∀ t ∈ e.opn ++ e.cls.dropLast, t.back ≠ [])
  covered : ∀ t ∈ e.cls, ∀ v ∈ next t.here, v ∈ e.opn.map Trail.here ∨ v ∈ seen e.cls
  labels : Labels (Edge next) b (settled b e) (frontier e)

variable {next : V → List V} {estimate : V → ℕ} {b goal : V} {e : Exploration V}

omit [DecidableEq V] in
theorem IsTrail.extend {t : Trail V} (h : IsTrail next b t) {v : V} (hv : v ∈ next t.here) :
    IsTrail next b (t.extend v) := by
  obtain ⟨vs, hw, hc⟩ := h
  refine ⟨vs ++ [v], hw.snoc ⟨hv, rfl⟩, ?_⟩
  rw [Trail.extend_cells, hc]
  simp

omit [DecidableEq V] in
theorem inv_start (next : V → List V) (b : V) : Inv next b (start b) where
  walks t ht := by
    obtain rfl : t = ⟨b, []⟩ := by simpa [start] using ht
    exact ⟨[], .nil, rfl⟩
  distinct := by simp [start, seen]
  phase := Or.inl rfl
  covered := by
    intro t ht
    cases ht
  labels := by
    refine ⟨Or.inr ⟨⟨b, []⟩, by simp [start], rfl⟩, ?_, ?_⟩
    · rintro u a v k ⟨t, ht, -⟩
      cases ht
    · rintro u a vs c ⟨t, ht, -⟩
      cases ht

omit [DecidableEq V] in
theorem Inv.here_mem_seen (hI : Inv next b e) {t : Trail V} (ht : t ∈ e.cls) (hb : t.here ≠ b) :
    t.here ∈ seen e.cls := by
  rcases hI.phase with rfl | ⟨hlast, -⟩
  · cases ht
  · have hne : e.cls ≠ [] := List.ne_nil_of_mem ht
    have hsplit := List.dropLast_append_getLast hne
    rw [List.getLast?_eq_getLast_of_ne_nil hne, Option.some.injEq] at hlast
    rw [← hsplit, List.mem_append, List.mem_singleton] at ht
    rcases ht with ht | rfl
    · exact List.mem_map_of_mem ht
    · exact absurd (by rw [hlast]) hb

omit [DecidableEq V] in
theorem Inv.back_of_goal (hI : Inv next b e) (hgoal : ∀ t ∈ e.cls, t.here ≠ goal) {k : ℕ}
    {cur : Trail V} (hmin : lastMin (Trail.total estimate) e.opn = some (k, cur))
    (hcur : cur.here = goal) (hb : cur.here = b) : cur.back = [] := by
  have hm := List.mem_of_getElem? (lastMin_spec hmin).1
  rcases hI.phase with rfl | ⟨hlast, -⟩
  · rw [start, List.mem_singleton] at hm
    rw [hm]
  · exact absurd (hb.symm.trans hcur) (hgoal _ (List.mem_of_getLast? hlast))

omit [DecidableEq V] in
theorem Inv.least (hI : Inv next b e) (hc : Consistent (Edge next) estimate) {k : ℕ}
    {cur : Trail V} (hmin : lastMin (Trail.total estimate) e.opn = some (k, cur))
    (hb : cur.here = b → cur.back = []) {vs : List V} {c : ℕ}
    (hw : Walk (Edge next) b cur.here vs c) : cur.cost ≤ c := by
  obtain ⟨hk, hle, -⟩ := lastMin_spec hmin
  have hmem : cur ∈ e.opn := List.mem_of_getElem? hk
  by_cases hcb : cur.here = b
  · simp [Trail.cost, hb hcb]
  · apply hI.labels.least_of_min hc (x := cur.here) (a := cur.cost) ?_ ?_ hw
    · rintro a ⟨t, ht, -, heq⟩
      have hh : cur.here = t.here := congrArg Prod.fst heq
      have hs := hI.here_mem_seen ht (hh ▸ hcb)
      exact (List.nodup_append.mp hI.distinct).2.2 _ (List.mem_map_of_mem hmem) _ (hh ▸ hs) rfl
    · rintro y a ⟨t, ht, heq⟩
      obtain ⟨rfl, rfl⟩ := Prod.mk.inj heq
      exact hle t ht

omit [DecidableEq V] in
theorem chosen_perm {k : ℕ} {cur : Trail V}
    (hmin : lastMin (Trail.total estimate) e.opn = some (k, cur)) :
    e.opn.Perm (cur :: e.opn.eraseIdx k) := by
  obtain ⟨hlt, hget⟩ := List.getElem?_eq_some_iff.mp (lastMin_spec hmin).1
  have hperm := List.getElem_cons_eraseIdx_perm hlt
  rw [hget] at hperm
  exact hperm.symm

omit [DecidableEq V] in
theorem closed_ne_nil (hl : e.cls.getLast? = some ⟨b, []⟩) : e.cls ≠ [] := by
  intro hnil
  rw [hnil] at hl
  cases hl

omit [DecidableEq V] in
theorem Inv.close_nodup (hI : Inv next b e) {k : ℕ} {cur : Trail V}
    (hmin : lastMin (Trail.total estimate) e.opn = some (k, cur)) :
    ((e.opn.eraseIdx k).map Trail.here ++ seen (cur :: e.cls)).Nodup := by
  rcases hI.phase with rfl | ⟨hl, -⟩
  · obtain ⟨hlt, -⟩ := List.getElem?_eq_some_iff.mp (lastMin_spec hmin).1
    have hz : k = 0 := by
      simp only [start, List.length_singleton] at hlt
      omega
    subst hz
    simp [start, seen]
  · have hp : ((e.opn.eraseIdx k).map Trail.here ++ cur.here :: seen e.cls).Perm
        (e.opn.map Trail.here ++ seen e.cls) :=
      List.perm_middle.trans (((chosen_perm hmin).symm.map Trail.here).append_right (seen e.cls))
    rw [seen_cons (closed_ne_nil hl)]
    exact hp.nodup_iff.mpr hI.distinct

section Round
variable {k : ℕ} {cur : Trail V}

omit [DecidableEq V] in
theorem Inv.getLast_close (hI : Inv next b e)
    (hmin : lastMin (Trail.total estimate) e.opn = some (k, cur)) :
    (cur :: e.cls).getLast? = some ⟨b, []⟩ := by
  have hmem : cur ∈ e.opn := List.mem_of_getElem? (lastMin_spec hmin).1
  rcases hI.phase with rfl | ⟨hl, -⟩
  · obtain rfl : cur = ⟨b, []⟩ := by simpa [start] using hmem
    rfl
  · rw [List.getLast?_cons_of_ne_nil (closed_ne_nil hl), hl]

theorem expand_origin {t : Trail V} (ht : t ∈ (expand next cur (close k cur e)).opn) :
    t ∈ e.opn.eraseIdx k ∨ ∃ v ∈ next cur.here, t = cur.extend v :=
  discovers_origin _ _ _ _ ht

theorem Inv.expand_walks (hI : Inv next b e)
    (hmin : lastMin (Trail.total estimate) e.opn = some (k, cur)) :
    ∀ t ∈ (expand next cur (close k cur e)).opn ++ (expand next cur (close k cur e)).cls,
      IsTrail next b t := by
  have hmem : cur ∈ e.opn := List.mem_of_getElem? (lastMin_spec hmin).1
  intro t ht
  rcases List.mem_append.mp ht with ht | ht
  · rcases expand_origin ht with h | ⟨v, hv, rfl⟩
    · exact hI.walks t (List.mem_append_left _
        ((chosen_perm hmin).mem_iff.mpr (List.mem_cons_of_mem _ h)))
    · exact (hI.walks cur (List.mem_append_left _ hmem)).extend hv
  · rcases List.mem_cons.mp ht with rfl | h
    · exact hI.walks t (List.mem_append_left _ hmem)
    · exact hI.walks t (List.mem_append_right _ h)

theorem Inv.expand_back (hI : Inv next b e)
    (hmin : lastMin (Trail.total estimate) e.opn = some (k, cur)) :
    ∀ t ∈ (expand next cur (close k cur e)).opn ++ (expand next cur (close k cur e)).cls.dropLast,
      t.back ≠ [] := by
  have hmem : cur ∈ e.opn := List.mem_of_getElem? (lastMin_spec hmin).1
  have hperm := chosen_perm hmin
  intro t ht
  rcases hI.phase with rfl | ⟨hl, hb⟩
  · have hnil : (start b).opn.eraseIdx k = [] := by
      have hlen := hperm.length_eq
      simp only [start, List.length_cons, List.length_nil] at hlen
      exact List.eq_nil_of_length_eq_zero (by simp only [start]; omega)
    rcases List.mem_append.mp ht with ht | ht
    · rcases expand_origin ht with h | ⟨v, -, rfl⟩
      · rw [hnil] at h
        cases h
      · exact List.cons_ne_nil _ _
    · cases ht
  · have hopen : ∀ t ∈ e.opn, t.back ≠ [] := fun t ht => hb t (List.mem_append_left _ ht)
    rcases List.mem_append.mp ht with ht | ht
    · rcases expand_origin ht with h | ⟨v, -, rfl⟩
      · exact hopen t (hperm.mem_iff.mpr (List.mem_cons_of_mem _ h))
      · exact List.cons_ne_nil _ _
    · have hd : (cur :: e.cls).dropLast = cur :: e.cls.dropLast :=
        List.dropLast_cons_of_ne_nil (closed_ne_nil hl)
      change t ∈ (cur :: e.cls).dropLast at ht
      rw [hd] at ht
      rcases List.mem_cons.mp ht with rfl | ht
      · exact hopen t hmem
      · exact hb t (List.mem_append_right _ ht)

theorem Inv.expand_covered (hI : Inv next b e)
    (hmin : lastMin (Trail.total estimate) e.opn = some (k, cur)) :
    ∀ t ∈ (expand next cur (close k cur e)).cls, ∀ v ∈ next t.here,
      v ∈ (expand next cur (close k cur e)).opn.map Trail.here ∨
        v ∈ seen (expand next cur (close k cur e)).cls := by
  intro t ht v hv
  rcases List.mem_cons.mp ht with rfl | hte
  · rcases discovers_covers (t :: e.cls) t (next t.here) (e.opn.eraseIdx k) hv
      with hs | ⟨w, hw, rfl, -⟩
    · exact Or.inr hs
    · exact Or.inl (List.mem_map_of_mem hw)
  · have hs : seen (cur :: e.cls) = cur.here :: seen e.cls :=
      seen_cons (List.ne_nil_of_mem hte) cur
    rcases hI.covered t hte v hv with ho | hsn
    · obtain ⟨w, hw, rfl⟩ := List.mem_map.mp ho
      rcases List.mem_cons.mp ((chosen_perm hmin).mem_iff.mp hw) with rfl | hw
      · exact Or.inr (hs ▸ List.mem_cons_self)
      · obtain ⟨w', hw', hh, -⟩ :=
          discovers_keeps (cur :: e.cls) cur (next cur.here) (e.opn.eraseIdx k) hw
        exact Or.inl (hh ▸ List.mem_map_of_mem hw')
    · exact Or.inr (hs ▸ List.mem_cons_of_mem _ hsn)

theorem Inv.expand_labels (hI : Inv next b e) (hc : Consistent (Edge next) estimate)
    (hmin : lastMin (Trail.total estimate) e.opn = some (k, cur)) :
    Labels (Edge next) b (settled b (expand next cur (close k cur e)))
      (frontier (expand next cur (close k cur e))) := by
  have hroot : (b, 0) ∈ settled b (expand next cur (close k cur e)) :=
    ⟨⟨b, []⟩, List.mem_of_getLast? (hI.getLast_close hmin), fun _ => rfl, rfl⟩
  have hmono : ∀ p, p ∈ settled b e → p ∈ settled b (expand next cur (close k cur e)) := by
    rintro p ⟨t, ht, hb, rfl⟩
    exact ⟨t, List.mem_cons_of_mem _ ht, hb, rfl⟩
  have hcur : ∃ a, (cur.here, a) ∈ settled b (expand next cur (close k cur e)) := by
    by_cases hb : cur.here = b
    · exact ⟨0, hb ▸ hroot⟩
    · exact ⟨cur.cost, cur, List.mem_cons_self, fun h => absurd h hb, rfl⟩
  refine ⟨Or.inl hroot, ?_, ?_⟩
  · -- edges out of settled labels
    rintro u a v j ⟨t, ht, hb, heq⟩ hedge
    obtain ⟨rfl, rfl⟩ := Prod.mk.inj heq
    rcases List.mem_cons.mp ht with rfl | hte
    · rcases discovers_covers (t :: e.cls) t (next t.here) (e.opn.eraseIdx k) hedge.1
        with hs | ⟨w, hw, rfl, hcw⟩
      · obtain ⟨w, hw, rfl⟩ := List.mem_map.mp hs
        by_cases hwb : w.here = b
        · exact Or.inl ⟨0, hwb ▸ hroot⟩
        · exact Or.inl ⟨w.cost, w, List.dropLast_subset _ hw, fun h => absurd h hwb, rfl⟩
      · exact Or.inr ⟨w.cost, by rw [hedge.2]; exact hcw, w, hw, rfl⟩
    · rcases hI.labels.relaxed _ _ v j ⟨t, hte, hb, rfl⟩ hedge with ⟨d, hd⟩ | ⟨d, hd, w, hw, heq⟩
      · exact Or.inl ⟨d, hmono _ hd⟩
      · obtain ⟨rfl, rfl⟩ := Prod.mk.inj heq
        rcases List.mem_cons.mp ((chosen_perm hmin).mem_iff.mp hw) with rfl | hw
        · exact Or.inl hcur
        · obtain ⟨w', hw', hh, hcw⟩ :=
            discovers_keeps (cur :: e.cls) cur (next cur.here) (e.opn.eraseIdx k) hw
          exact Or.inr ⟨w'.cost, hcw.trans hd, w', hw', by rw [hh]⟩
  · -- settled labels are least
    rintro u a vs c ⟨t, ht, hb, heq⟩ hw
    obtain ⟨rfl, rfl⟩ := Prod.mk.inj heq
    rcases List.mem_cons.mp ht with rfl | hte
    · exact hI.least hc hmin hb hw
    · exact hI.labels.least _ _ _ _ ⟨t, hte, hb, rfl⟩ hw

theorem Inv.expand_close (hI : Inv next b e) (hc : Consistent (Edge next) estimate)
    (hmin : lastMin (Trail.total estimate) e.opn = some (k, cur)) :
    Inv next b (expand next cur (close k cur e)) where
  walks := hI.expand_walks hmin
  distinct := discovers_nodup _ _ _ (hI.close_nodup hmin)
  phase := Or.inr ⟨hI.getLast_close hmin, hI.expand_back hmin⟩
  covered := hI.expand_covered hmin
  labels := hI.expand_labels hc hmin

end Round

theorem Inv.advance (hI : Inv next b e) (hc : Consistent (Edge next) estimate) (goal : V) :
    Inv next b (e.advance next estimate goal) := by
  simp only [Exploration.advance]
  split
  · exact hI
  · rename_i k cur hmin
    split_ifs
    · exact hI
    · exact hI.expand_close hc hmin

theorem inv_iterate (hc : Consistent (Edge next) estimate) (b goal : V) (n : ℕ) :
    Inv next b ((advance next estimate goal)^[n] (start b)) := by
  induction n with
  | zero => exact inv_start next b
  | succ n ih =>
    rw [Function.iterate_succ_apply']
    exact ih.advance hc goal

omit [DecidableEq V] in
theorem Inv.exhausted (hI : Inv next b e) (hnil : e.opn = []) {v : V} {vs : List V} {c : ℕ}
    (hw : Walk (Edge next) b v vs c) : ∃ t ∈ e.cls, t.here = v := by
  obtain ⟨a, t, ht, -, heq⟩ := hI.labels.settled_of_walk (t := v)
    (fun y d h => by
      obtain ⟨t, ht, -⟩ := h
      rw [hnil] at ht
      cases ht) hw
  exact ⟨t, ht, (congrArg Prod.fst heq).symm⟩

omit [DecidableEq V] in
theorem Inv.size_le (hI : Inv next b e) (S : Finset V)
    (hS : ∀ t ∈ e.opn ++ e.cls, t.here ∈ S) : e.size ≤ S.card + 1 := by
  have hsub : ∀ v ∈ e.opn.map Trail.here ++ seen e.cls, v ∈ S := by
    intro v hv
    rcases List.mem_append.mp hv with hv | hv
    · obtain ⟨t, ht, rfl⟩ := List.mem_map.mp hv
      exact hS t (List.mem_append_left _ ht)
    · obtain ⟨t, ht, rfl⟩ := List.mem_map.mp hv
      exact hS t (List.mem_append_right _ (List.dropLast_subset _ ht))
  have hlen : (e.opn.map Trail.here ++ seen e.cls).length ≤ S.card := by
    classical
    rw [← List.toFinset_card_of_nodup hI.distinct]
    exact Finset.card_le_card fun v hv => hsub v (List.mem_toFinset.mp hv)
  simp only [List.length_append, List.length_map, length_seen] at hlen
  simp only [size]
  omega

theorem size_le_advance (next : V → List V) (estimate : V → ℕ) (goal : V) (e : Exploration V) :
    e.size ≤ (e.advance next estimate goal).size := by
  simp only [Exploration.advance]
  split
  · exact le_rfl
  · rename_i k cur hmin
    split_ifs
    · exact le_rfl
    · have hlt := (List.getElem?_eq_some_iff.mp (lastMin_spec hmin).1).1
      have hl := discovers_length (cur :: e.cls) cur (next cur.here) (e.opn.eraseIdx k)
      rw [List.length_eraseIdx_of_lt hlt] at hl
      simp only [size, expand, close, List.length_cons]
      omega

end Exploration

end HsCommon.Astar
