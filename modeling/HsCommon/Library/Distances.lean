import HsCommon.Library.LabelSetting

/-!
# Least walks as distances

A least cost is a distance: it is zero from a vertex to itself, obeys the
triangle inequality, is the same both ways where the edges are, and can only
fall when edges are added or made cheaper. A least walk is least between any two
of its vertices.
-/

namespace LabelSetting
variable {V : Type*} {edge edge' : V → V → ℕ → Prop} {a b c x : V} {vs : List V} {m n k : ℕ}

theorem Walk.split (h : Walk edge a c vs k) (hx : x ∈ a :: vs) :
    ∃ ws us m n, Walk edge a x ws m ∧ Walk edge x c us n ∧ vs = ws ++ us ∧ k = m + n := by
  induction h with
  | nil =>
    obtain rfl : x = a := by simpa using hx
    exact ⟨[], [], 0, 0, .nil, .nil, rfl, rfl⟩
  | @snoc u v vs k l hw he ih =>
    by_cases hm : x ∈ a :: vs
    · obtain ⟨ws, us, m, n, hax, hxu, rfl, rfl⟩ := ih hm
      exact ⟨ws, us ++ [v], m, n + l, hax, hxu.snoc he, List.append_assoc _ _ _,
        Nat.add_assoc _ _ _⟩
    · obtain rfl : x = v := by
        simp only [List.mem_cons, List.mem_append, List.mem_nil_iff, or_false] at hx hm
        tauto
      exact ⟨vs ++ [x], [], k + l, 0, hw.snoc he, .nil, (List.append_nil _).symm, rfl⟩

theorem Walk.reverse {P : V → Prop} (hback : ∀ u v k, P u → edge u v k → P v ∧ edge v u k)
    (ha : P a) (h : Walk edge a b vs k) : P b ∧ ∃ ws, Walk edge b a ws k := by
  induction h with
  | nil => exact ⟨ha, [], .nil⟩
  | snoc hw he ih =>
    obtain ⟨hu, ws, hws⟩ := ih
    obtain ⟨hv, he'⟩ := hback _ _ _ hu he
    exact ⟨hv, _, Nat.add_comm _ _ ▸ hws.cons he'⟩

theorem Walk.cheaper (hle : ∀ u v k, edge u v k → ∃ l ≤ k, edge' u v l)
    (h : Walk edge a b vs k) : ∃ l ≤ k, Walk edge' a b vs l := by
  induction h with
  | nil => exact ⟨0, le_rfl, .nil⟩
  | snoc hw he ih =>
    obtain ⟨l, hl, hw'⟩ := ih
    obtain ⟨l', hl', he'⟩ := hle _ _ _ he
    exact ⟨l + l', Nat.add_le_add hl hl', hw'.snoc he'⟩

theorem Walk.within {P : V → Prop} (hedge : ∀ u v k, edge u v k → P v → edge' u v k)
    (h : Walk edge a b vs k) (hvs : ∀ v ∈ vs, P v) : Walk edge' a b vs k := by
  induction h with
  | nil => exact .nil
  | snoc hw he ih =>
    rw [List.forall_mem_append, List.forall_mem_singleton] at hvs
    exact (ih hvs.1).snoc (hedge _ _ _ he hvs.2)

/-- `n` is the cost of the cheapest walks from `a` to `b`. -/
structure Least (edge : V → V → ℕ → Prop) (a b : V) (n : ℕ) : Prop where
  walk : ∃ vs, Walk edge a b vs n
  le : ∀ vs k, Walk edge a b vs k → n ≤ k

theorem Least.unique (h : Least edge a b m) (h' : Least edge a b n) : m = n := by
  obtain ⟨vs, hvs⟩ := h.walk
  obtain ⟨ws, hws⟩ := h'.walk
  exact le_antisymm (h.le ws n hws) (h'.le vs m hvs)

theorem Least.refl (edge : V → V → ℕ → Prop) (a : V) : Least edge a a 0 :=
  ⟨⟨[], .nil⟩, fun _ k _ => Nat.zero_le k⟩

theorem Least.triangle (hab : Least edge a b m) (hbc : Least edge b c n)
    (hac : Least edge a c k) : k ≤ m + n := by
  obtain ⟨vs, hvs⟩ := hab.walk
  obtain ⟨ws, hws⟩ := hbc.walk
  exact hac.le _ _ (hvs.append hws)

theorem Least.through (h : Least edge a c k) (hw : Walk edge a c vs k) (hx : x ∈ a :: vs) :
    ∃ m n, Least edge a x m ∧ Least edge x c n ∧ k = m + n := by
  obtain ⟨ws, us, m, n, hax, hxc, -, rfl⟩ := hw.split hx
  refine ⟨m, n, ⟨⟨ws, hax⟩, ?_⟩, ⟨⟨us, hxc⟩, ?_⟩, rfl⟩
  · intro ws' m' hax'
    have := h.le _ _ (hax'.append hxc)
    omega
  · intro us' n' hxc'
    have := h.le _ _ (hax.append hxc')
    omega

theorem Least.symm {P : V → Prop} (hback : ∀ u v k, P u → edge u v k → P v ∧ edge v u k)
    (ha : P a) (h : Least edge a b n) : Least edge b a n := by
  obtain ⟨vs, hvs⟩ := h.walk
  obtain ⟨hb, ws, hws⟩ := hvs.reverse hback ha
  refine ⟨⟨ws, hws⟩, fun us k hus => ?_⟩
  obtain ⟨-, us', hus'⟩ := hus.reverse hback hb
  exact h.le us' k hus'

theorem Least.cheaper (hle : ∀ u v k, edge u v k → ∃ l ≤ k, edge' u v l)
    (h : Least edge a b m) (h' : Least edge' a b n) : n ≤ m := by
  obtain ⟨vs, hvs⟩ := h.walk
  obtain ⟨l, hl, hvs'⟩ := hvs.cheaper hle
  exact (h'.le vs l hvs').trans hl

end LabelSetting
