import HsCommon.Dijkstra.GetPath
import HsCommon.Library.Cells
import HsCommon.Library.LabelSetting

/-!
# Settling one node

The caches label the nodes that have been found, a set of which is settled. One
round of the search settles a found node of least label and relaxes its edges to
the nodes that are not settled; this keeps the labels of a label-setting search
without an estimate.
-/

namespace HsCommon.Dijkstra
open LabelSetting

variable {nodeList : DijkstraNodeList} {b x : ℕ} {S : Set ℕ} {caches caches' : ℕ → PathNodeCache}

def DijkstraNodeList.Has (nodeList : DijkstraNodeList) (v : ℕ) : Prop :=
  1 ≤ v ∧ v ≤ nodeList.len

def PathNodeCache.path (c : PathNodeCache) : List ℕ :=
  Cells.read c.shortestPathNodes 0 c.pathNodeNum

def label (caches : ℕ → PathNodeCache) (v : ℕ) : ℕ := (caches (v - 1)).weightsLen.toNat

/-- A path to `v` has been found; the begin node needs none. -/
def Found (b : ℕ) (caches : ℕ → PathNodeCache) (v : ℕ) : Prop :=
  v = b ∨ (caches (v - 1)).pathNodeNum ≠ 0

def settled (caches : ℕ → PathNodeCache) (S : Set ℕ) : Set (ℕ × ℕ) :=
  {p | p.1 ∈ S ∧ p.2 = label caches p.1}

def frontier (nodeList : DijkstraNodeList) (b : ℕ) (caches : ℕ → PathNodeCache) (S : Set ℕ) :
    Set (ℕ × ℕ) :=
  {p | nodeList.Has p.1 ∧ p.1 ∉ S ∧ Found b caches p.1 ∧ p.2 = label caches p.1}

/-- The caches after the nodes of `S` have been settled. -/
structure Settled (nodeList : DijkstraNodeList) (b : ℕ) (S : Set ℕ)
    (caches : ℕ → PathNodeCache) : Prop where
  sub : ∀ v ∈ S, nodeList.Has v
  found : ∀ v ∈ S, Found b caches v
  begin_zero : (caches (b - 1)).pathNodeNum = 0 ∧ (caches (b - 1)).weightsLen = 0
  cache : ∀ v, nodeList.Has v →
    ((caches (v - 1)).pathNodeNum = 0 ∧ (caches (v - 1)).weightsLen = 0) ∨
      (0 < (caches (v - 1)).pathNodeNum ∧ 0 < (caches (v - 1)).weightsLen)
  walk : ∀ v, nodeList.Has v → Found b caches v →
    Walk (NodeEdge nodeList) b v (caches (v - 1)).path (label caches v)
  labels : Labels (NodeEdge nodeList) b (settled caches S) (frontier nodeList b caches S)

theorem settled_start (hb : nodeList.Has b) :
    Settled nodeList b ∅ fun _ => .zero where
  sub := by simp
  found := by simp
  begin_zero := ⟨rfl, rfl⟩
  cache _ _ := Or.inl ⟨rfl, rfl⟩
  walk := by
    rintro v - (rfl | hv)
    · exact Walk.nil
    · exact absurd rfl hv
  labels := by
    refine ⟨Or.inr ⟨hb, by simp, Or.inl rfl, rfl⟩, ?_, ?_⟩
    · rintro u a v k ⟨hu, -⟩
      cases hu
    · rintro u a vs c ⟨hu, -⟩
      cases hu

theorem Settled.weightsLen_nonneg (h : Settled nodeList b S caches) {v : ℕ}
    (hv : nodeList.Has v) : 0 ≤ (caches (v - 1)).weightsLen := by
  rcases h.cache v hv with ⟨-, hz⟩ | ⟨-, hp⟩
  · exact hz.ge
  · exact hp.le

theorem Settled.label_cast (h : Settled nodeList b S caches) {v : ℕ} (hv : nodeList.Has v) :
    ((label caches v : ℕ) : ℤ) = (caches (v - 1)).weightsLen :=
  Int.toNat_of_nonneg (h.weightsLen_nonneg hv)

theorem Settled.weightsLen_pos_iff (h : Settled nodeList b S caches) {v : ℕ}
    (hv : nodeList.Has v) (hb : v ≠ b) : 0 < (caches (v - 1)).weightsLen ↔ Found b caches v := by
  rcases h.cache v hv with ⟨hn, hz⟩ | ⟨hn, hp⟩
  · simp [Found, hn, hz, hb]
  · simp only [hp, true_iff]
    exact Or.inr hn.ne'

theorem NodeEdge.pos {u v k : ℕ} (h : NodeEdge nodeList u v k) : 0 < k := h.2.2.1

theorem least_walk_length {v : ℕ} {vs : List ℕ} {c : ℕ} (hb : nodeList.Has b)
    (hw : Walk (NodeEdge nodeList) b v vs c)
    (hleast : ∀ ws d, Walk (NodeEdge nodeList) b v ws d → c ≤ d) :
    (b :: vs).Nodup ∧ vs.length + 1 ≤ nodeList.len := by
  have hnd := hw.nodup_of_least (fun _ _ _ he => he.pos) hleast
  have hhas : ∀ u ∈ b :: vs, nodeList.Has u := by
    clear hnd hleast
    induction hw with
    | nil => simpa using hb
    | snoc _ he ih =>
      intro u hu
      rw [← List.cons_append, List.mem_append, List.mem_singleton] at hu
      rcases hu with hu | rfl
      · exact ih u hu
      · exact he.2.1
  refine ⟨hnd, ?_⟩
  have hsub : ∀ u ∈ b :: vs, u ∈ List.range' 1 nodeList.len := by
    intro u hu
    have := hhas u hu
    simp only [DijkstraNodeList.Has] at this
    rw [List.mem_range'_1]
    omega
  have hle := (hnd.subperm hsub).length_le
  rwa [List.length_cons, List.length_range'] at hle

def relaxed (nodeList : DijkstraNodeList) (x : ℕ) (c : PathNodeCache) (v : ℕ)
    (cv : PathNodeCache) : PathNodeCache :=
  let weight := (nodeList.nodes (x - 1)).weight (v - 1)
  if weight ≤ 0 then cv
  else if cv.pathNodeNum = 0 ∨ cv.weightsLen > c.weightsLen + weight then
    { shortestPathNodes := Function.update c.shortestPathNodes c.pathNodeNum v
      pathNodeNum := c.pathNodeNum + 1
      weightsLen := c.weightsLen + weight }
  else cv

theorem path_snoc (c : PathNodeCache) (v : ℕ) (w : ℤ) :
    PathNodeCache.path ⟨Function.update c.shortestPathNodes c.pathNodeNum v,
      c.pathNodeNum + 1, w⟩ = c.path ++ [v] := by
  have hread : Cells.read (Function.update c.shortestPathNodes c.pathNodeNum v) 0 c.pathNodeNum =
      c.path := Cells.read_congr fun i hi => Function.update_of_ne (by omega) _ _
  simp only [PathNodeCache.path, Cells.read_succ, Nat.zero_add, Function.update_self]
  rw [hread, PathNodeCache.path]

theorem Settled.least (h : Settled nodeList b S caches) (hxS : x ∉ S)
    (hmin : ∀ v, nodeList.Has v → v ∉ S → Found b caches v → label caches x ≤ label caches v)
    {vs : List ℕ} {c : ℕ} (hw : Walk (NodeEdge nodeList) b x vs c) : label caches x ≤ c := by
  have hzero : Consistent (NodeEdge nodeList) fun _ => 0 := fun _ _ _ _ => Nat.zero_le _
  refine h.labels.least_of_min hzero (x := x) (a := label caches x) ?_ ?_ hw
  · rintro a ⟨ha, -⟩
    exact hxS ha
  · rintro y a ⟨hy, hyS, hyf, ha⟩
    have hle := hmin y hy hyS hyf
    dsimp only at ha
    omega

theorem relaxed_cases (nodeList : DijkstraNodeList) (x : ℕ) (c : PathNodeCache) (v : ℕ)
    (cv : PathNodeCache) :
    (relaxed nodeList x c v cv = cv ∧ ((nodeList.nodes (x - 1)).weight (v - 1) ≤ 0 ∨
      (cv.pathNodeNum ≠ 0 ∧
        cv.weightsLen ≤ c.weightsLen + (nodeList.nodes (x - 1)).weight (v - 1)))) ∨
    (0 < (nodeList.nodes (x - 1)).weight (v - 1) ∧
      (cv.pathNodeNum = 0 ∨
        cv.weightsLen > c.weightsLen + (nodeList.nodes (x - 1)).weight (v - 1)) ∧
      relaxed nodeList x c v cv = ⟨Function.update c.shortestPathNodes c.pathNodeNum v,
        c.pathNodeNum + 1, c.weightsLen + (nodeList.nodes (x - 1)).weight (v - 1)⟩) := by
  simp only [relaxed]
  split_ifs with h1 h2
  · exact Or.inl ⟨rfl, Or.inl h1⟩
  · exact Or.inr ⟨not_le.mp h1, h2, rfl⟩
  · rw [not_or] at h2
    exact Or.inl ⟨rfl, Or.inr ⟨h2.1, not_lt.mp h2.2⟩⟩

structure Relaxed (nodeList : DijkstraNodeList) (x : ℕ) (S : Set ℕ)
    (caches caches' : ℕ → PathNodeCache) : Prop where
  keep : ∀ v, nodeList.Has v → v ∈ insert x S → caches' (v - 1) = caches (v - 1)
  relax : ∀ v, nodeList.Has v → v ∉ insert x S →
    caches' (v - 1) = relaxed nodeList x (caches (x - 1)) v (caches (v - 1))

theorem Relaxed.found (r : Relaxed nodeList x S caches caches') (hbS : b ∈ insert x S) {v : ℕ}
    (hv : nodeList.Has v) (hf : Found b caches v) :
    Found b caches' v ∧ label caches' v ≤ label caches v := by
  by_cases hvS : v ∈ insert x S
  · simp only [Found, label, r.keep v hv hvS]
    exact ⟨hf, le_rfl⟩
  · have hvb : v ≠ b := fun he => hvS (he ▸ hbS)
    have hnum : (caches (v - 1)).pathNodeNum ≠ 0 := hf.resolve_left hvb
    simp only [Found, label, r.relax v hv hvS]
    rcases relaxed_cases nodeList x (caches (x - 1)) v (caches (v - 1)) with
      ⟨he, -⟩ | ⟨-, hor, he⟩
    · rw [he]
      exact ⟨hf, le_rfl⟩
    · rw [he]
      refine ⟨Or.inr (Nat.succ_ne_zero _), ?_⟩
      have hlt := hor.resolve_left hnum
      dsimp only
      omega

theorem Relaxed.edge (r : Relaxed nodeList x S caches caches') (h : Settled nodeList b S caches)
    (hx : nodeList.Has x) {v k : ℕ} (he : NodeEdge nodeList x v k) (hvS : v ∉ insert x S) :
    Found b caches' v ∧ label caches' v ≤ label caches x + k := by
  have hv : nodeList.Has v := he.2.1
  have hw := he.2.2.2
  have hpos := he.pos
  have hxl := h.label_cast hx
  simp only [Found, label, r.relax v hv hvS] at hxl ⊢
  rcases relaxed_cases nodeList x (caches (x - 1)) v (caches (v - 1)) with
    ⟨he, hor⟩ | ⟨-, hor, he⟩
  · rw [he]
    rcases hor with hle | ⟨hnum, hle⟩
    · omega
    · refine ⟨Or.inr hnum, ?_⟩
      omega
  · rw [he]
    refine ⟨Or.inr (Nat.succ_ne_zero _), ?_⟩
    dsimp only
    omega

theorem Relaxed.cache (r : Relaxed nodeList x S caches caches') (h : Settled nodeList b S caches)
    (hx : nodeList.Has x) {v : ℕ} (hv : nodeList.Has v) :
    ((caches' (v - 1)).pathNodeNum = 0 ∧ (caches' (v - 1)).weightsLen = 0) ∨
      (0 < (caches' (v - 1)).pathNodeNum ∧ 0 < (caches' (v - 1)).weightsLen) := by
  by_cases hvS : v ∈ insert x S
  · rw [r.keep v hv hvS]
    exact h.cache v hv
  · rw [r.relax v hv hvS]
    rcases relaxed_cases nodeList x (caches (x - 1)) v (caches (v - 1)) with
      ⟨he, -⟩ | ⟨hpos, -, he⟩
    · rw [he]
      exact h.cache v hv
    · have hnn := h.weightsLen_nonneg hx
      rw [he]
      refine Or.inr ⟨Nat.succ_pos _, ?_⟩
      dsimp only
      omega

theorem Relaxed.walk (r : Relaxed nodeList x S caches caches') (h : Settled nodeList b S caches)
    (hx : nodeList.Has x) (hxf : Found b caches x) {v : ℕ} (hv : nodeList.Has v)
    (hf : Found b caches' v) :
    Walk (NodeEdge nodeList) b v (caches' (v - 1)).path (label caches' v) := by
  by_cases hvS : v ∈ insert x S
  · simp only [Found, label, r.keep v hv hvS] at hf ⊢
    exact h.walk v hv hf
  · simp only [Found, label, r.relax v hv hvS] at hf ⊢
    rcases relaxed_cases nodeList x (caches (x - 1)) v (caches (v - 1)) with
      ⟨he, -⟩ | ⟨hpos, -, he⟩
    · rw [he] at hf ⊢
      exact h.walk v hv hf
    · have hxw := h.walk x hx hxf
      have hnn := h.weightsLen_nonneg hx
      obtain ⟨k, hk⟩ := Int.eq_ofNat_of_zero_le hpos.le
      have hedge : NodeEdge nodeList x v k := ⟨hx, hv, by omega, hk⟩
      rw [he, path_snoc]
      have hlen : ((caches (x - 1)).weightsLen +
          (nodeList.nodes (x - 1)).weight (v - 1)).toNat = label caches x + k := by
        rw [hk, label]
        omega
      dsimp only
      rw [hlen]
      exact hxw.snoc hedge

theorem Settled.settle (h : Settled nodeList b S caches)
    (r : Relaxed nodeList x S caches caches') (hx : nodeList.Has x) (hxS : x ∉ S)
    (hxf : Found b caches x) (hbS : b ∈ insert x S)
    (hmin : ∀ v, nodeList.Has v → v ∉ S → Found b caches v → label caches x ≤ label caches v) :
    Settled nodeList b (insert x S) caches' := by
  have hb : nodeList.Has b := (Set.mem_insert_iff.mp hbS).elim (fun he => he ▸ hx) (h.sub b)
  have hlabel : ∀ v, nodeList.Has v → v ∈ insert x S → label caches' v = label caches v := by
    intro v hv hvS
    rw [label, label, r.keep v hv hvS]
  have hsub : ∀ v ∈ insert x S, nodeList.Has v := by
    intro v hv
    rcases Set.mem_insert_iff.mp hv with rfl | hv
    · exact hx
    · exact h.sub v hv
  have hold : ∀ v ∈ insert x S, Found b caches v := by
    intro v hv
    rcases Set.mem_insert_iff.mp hv with rfl | hv
    · exact hxf
    · exact h.found v hv
  refine ⟨hsub, ?_, ?_, ?_, ?_, ?_, ?_, ?_⟩
  · intro v hv
    exact (r.found hbS (hsub v hv) (hold v hv)).1
  · rw [r.keep b hb hbS]
    exact h.begin_zero
  · exact fun v hv => r.cache h hx hv
  · exact fun v hv hf => r.walk h hx hxf hv hf
  · -- the begin node is settled
    refine Or.inl ⟨hbS, ?_⟩
    rw [hlabel b hb hbS, label, h.begin_zero.2]
    rfl
  · -- edges out of settled nodes
    rintro u a v k ⟨hu, hua⟩ hedge
    dsimp only at hu hua
    rw [hlabel u (hsub u hu) hu] at hua
    subst hua
    by_cases hvS : v ∈ insert x S
    · exact Or.inl ⟨label caches' v, hvS, rfl⟩
    · right
      have hv : nodeList.Has v := hedge.2.1
      rcases Set.mem_insert_iff.mp hu with rfl | hu
      · obtain ⟨hf, hle⟩ := r.edge h hx hedge hvS
        exact ⟨label caches' v, hle, hv, hvS, hf, rfl⟩
      · rcases h.labels.relaxed u (label caches u) v k ⟨hu, rfl⟩ hedge with
          ⟨d, hd, -⟩ | ⟨d, hd, -, -, hf, hdl⟩
        · exact absurd (Set.mem_insert_of_mem x hd) hvS
        · obtain ⟨hf', hle⟩ := r.found hbS hv hf
          dsimp only at hdl
          exact ⟨label caches' v, by omega, hv, hvS, hf', rfl⟩
  · -- settled labels are least
    rintro u a vs c ⟨hu, hua⟩ hw
    dsimp only at hu hua
    rw [hlabel u (hsub u hu) hu] at hua
    subst hua
    rcases Set.mem_insert_iff.mp hu with rfl | hu
    · exact h.least hxS hmin hw
    · exact h.labels.least u (label caches u) vs c ⟨hu, rfl⟩ hw

end HsCommon.Dijkstra
