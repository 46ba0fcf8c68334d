import Mathlib.Data.List.Basic
import Mathlib.Data.Set.Basic
import Mathlib.Tactic

/-!
# Label-setting search on weighted digraphs

`edge u v k` says that there is an edge from `u` to `v` of cost `k`. A walk
records the vertices after its start, in order, and its total cost. A search
keeps a set of settled labels and a set of frontier labels, a label being a
vertex with the cost of some walk to it. The separation theorem says that a walk
to an unsettled vertex crosses the frontier at a label that is no dearer than
the walk so far; with a consistent estimate, the frontier label of least total
is then optimal. Both best-first search and Dijkstra's algorithm rest on this.
-/

namespace LabelSetting
variable {V : Type*}

/-- `Walk edge s t vs c`: the vertices `vs` after `s` lead to `t` at cost `c`. -/
inductive Walk (edge : V → V → ℕ → Prop) (s : V) : V → List V → ℕ → Prop where
  | nil : Walk edge s s [] 0
  | snoc {u v : V} {vs : List V} {c k : ℕ} :
      Walk edge s u vs c → edge u v k → Walk edge s v (vs ++ [v]) (c + k)

variable {edge : V → V → ℕ → Prop} {s : V}

theorem Walk.append {u v : V} {vs ws : List V} {c d : ℕ}
    (h : Walk edge s u vs c) (h' : Walk edge u v ws d) : Walk edge s v (vs ++ ws) (c + d) := by
  induction h' with
  | nil => simpa using h
  | snoc _ he ih => simpa only [List.append_assoc, Nat.add_assoc] using ih.snoc he

theorem Walk.cons {u v : V} {vs : List V} {k c : ℕ} (he : edge s u k)
    (h : Walk edge u v vs c) : Walk edge s v (u :: vs) (k + c) := by
  simpa using (Walk.nil.snoc he).append h

theorem Walk.exists_first {t : V} {vs : List V} {c : ℕ} (h : Walk edge s t vs c) :
    (vs = [] ∧ t = s) ∨ ∃ v ws k, vs = v :: ws ∧ edge s v k := by
  induction h with
  | nil => exact Or.inl ⟨rfl, rfl⟩
  | @snoc u v vs c k hw he ih =>
    rcases ih with ⟨rfl, rfl⟩ | ⟨v', ws, k', rfl, hfirst⟩
    · exact Or.inr ⟨v, [], k, rfl, he⟩
    · exact Or.inr ⟨v', ws ++ [v], k', rfl, hfirst⟩

theorem Walk.prefix_of_mem {t x : V} {vs : List V} {c : ℕ} (h : Walk edge s t vs c)
    (hx : x ∈ s :: vs) : ∃ ws d, Walk edge s x ws d ∧ d ≤ c ∧ ws <+: vs := by
  induction h with
  | nil =>
    obtain rfl : x = s := by simpa using hx
    exact ⟨[], 0, .nil, le_rfl, List.prefix_rfl⟩
  | @snoc u v vs c k hw he ih =>
    by_cases hm : x ∈ s :: vs
    · obtain ⟨ws, d, hd, hle, hp⟩ := ih hm
      exact ⟨ws, d, hd, by omega, hp.trans (List.prefix_append _ _)⟩
    · have hxv : x = v := by
        simp only [List.mem_cons, List.mem_append, List.mem_nil_iff, or_false] at hx hm
        tauto
      subst hxv
      exact ⟨_, _, hw.snoc he, le_rfl, List.prefix_rfl⟩

theorem Walk.nodup_of_least {t : V} {vs : List V} {c : ℕ}
    (hpos : ∀ u v k, edge u v k → 0 < k) (h : Walk edge s t vs c)
    (hmin : ∀ ws d, Walk edge s t ws d → c ≤ d) : (s :: vs).Nodup := by
  induction h with
  | nil => simp
  | @snoc u v vs c k hw he ih =>
    have hu : (s :: vs).Nodup := by
      apply ih
      intro ws d hd
      have := hmin _ _ (hd.snoc he)
      omega
    have hv : v ∉ s :: vs := by
      intro hm
      obtain ⟨ws, d, hd, hle, -⟩ := hw.prefix_of_mem hm
      have hk := hpos _ _ _ he
      have := hmin _ _ hd
      omega
    have he : s :: (vs ++ [v]) = (s :: vs) ++ [v] := rfl
    rw [he, List.nodup_append]
    refine ⟨hu, by simp, ?_⟩
    intro a ha b hb hab
    obtain rfl : b = v := by simpa using hb
    exact hv (hab ▸ ha)

/-- The bookkeeping of a label-setting search from `s`: the start is labelled,
every edge out of a settled label leads to a settled vertex or to a frontier
label at most that dear, and settled labels are least. -/
structure Labels (edge : V → V → ℕ → Prop) (s : V) (settled frontier : Set (V × ℕ)) : Prop where
  start : (s, 0) ∈ settled ∨ (s, 0) ∈ frontier
  relaxed : ∀ u a v k, (u, a) ∈ settled → edge u v k →
    (∃ b, (v, b) ∈ settled) ∨ ∃ b ≤ a + k, (v, b) ∈ frontier
  least : ∀ u a vs c, (u, a) ∈ settled → Walk edge s u vs c → a ≤ c

variable {settled frontier : Set (V × ℕ)}

theorem Labels.crossing (L : Labels edge s settled frontier) {t : V} {vs : List V} {c : ℕ}
    (h : Walk edge s t vs c) (ht : ∀ a, (t, a) ∉ settled) :
    ∃ y b ws d, (y, b) ∈ frontier ∧ Walk edge y t ws d ∧ b + d ≤ c := by
  induction h with
  | nil =>
    rcases L.start with hs | hs
    · exact absurd hs (ht 0)
    · exact ⟨s, 0, [], 0, hs, .nil, le_rfl⟩
  | @snoc u v vs c k hw he ih =>
    by_cases hu : ∃ a, (u, a) ∈ settled
    · obtain ⟨a, ha⟩ := hu
      have hac := L.least u a vs c ha hw
      rcases L.relaxed u a v k ha he with ⟨b, hb⟩ | ⟨b, hle, hb⟩
      · exact absurd hb (ht b)
      · exact ⟨v, b, [], 0, hb, .nil, by omega⟩
    · obtain ⟨y, b, ws, d, hb, hd, hle⟩ := ih fun a ha => hu ⟨a, ha⟩
      exact ⟨y, b, ws ++ [v], d + k, hb, hd.snoc he, by omega⟩

/-- An estimate of the remaining cost that no edge can beat. -/
def Consistent (edge : V → V → ℕ → Prop) (estimate : V → ℕ) : Prop :=
  ∀ u v k, edge u v k → estimate u ≤ k + estimate v

theorem Consistent.walk {estimate : V → ℕ} (hc : Consistent edge estimate) {t : V}
    {vs : List V} {c : ℕ} (h : Walk edge s t vs c) : estimate s ≤ c + estimate t := by
  induction h with
  | nil => omega
  | snoc _ he ih =>
    have := hc _ _ _ he
    omega

theorem Labels.least_of_min (L : Labels edge s settled frontier) {estimate : V → ℕ}
    (hc : Consistent edge estimate) {x : V} {a : ℕ} (hx : ∀ b, (x, b) ∉ settled)
    (hmin : ∀ y b, (y, b) ∈ frontier → a + estimate x ≤ b + estimate y)
    {vs : List V} {c : ℕ} (h : Walk edge s x vs c) : a ≤ c := by
  obtain ⟨y, b, ws, d, hb, hd, hle⟩ := L.crossing h hx
  have h1 := hmin y b hb
  have h2 := hc.walk hd
  omega

theorem Labels.settled_of_walk (L : Labels edge s settled frontier)
    (hempty : ∀ y b, (y, b) ∉ frontier) {t : V} {vs : List V} {c : ℕ}
    (h : Walk edge s t vs c) : ∃ a, (t, a) ∈ settled := by
  by_contra hn
  obtain ⟨y, b, -, -, hb, -⟩ := L.crossing h fun a ha => hn ⟨a, ha⟩
  exact hempty y b hb

end LabelSetting
