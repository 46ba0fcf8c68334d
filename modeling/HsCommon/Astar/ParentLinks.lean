import HsCommon.Astar.Refinement

/-!
# Parent links

What `get_result_list` copies are the indices along the parent links of a node. The loop has no
bound of its own. The links of a closed node end because each leads to a closed node of a shorter
trail, whose `g` is smaller.
-/

namespace HsCommon.Astar
open LabelSetting Exploration

/-- The links lead from `p` through the nodes `ps` down to `q`, which has no parent. -/
inductive ParentLinks (nodes : NodePtr → AstarNode) (q : NodePtr) :
    NodePtr → List NodePtr → Prop where
  | last : (nodes q).parent = none → ParentLinks nodes q q [q]
  | link {p p' : NodePtr} {ps : List NodePtr} : (nodes p).parent = some p' →
      (nodes p').g < (nodes p).g → ParentLinks nodes q p' ps → ParentLinks nodes q p (p :: ps)

variable {nodes : NodePtr → AstarNode} {p q : NodePtr} {ps : List NodePtr}

theorem ParentLinks.getLast (h : ParentLinks nodes q p ps) : ps.getLast? = some q := by
  induction h with
  | last _ => rfl
  | link _ _ hlinks ih =>
    cases hlinks with
    | last _ => exact ih
    | link _ _ _ => exact ih

theorem ParentLinks.g_le (h : ParentLinks nodes q p ps) :
    ∀ r ∈ ps, (nodes r).g ≤ (nodes p).g := by
  induction h with
  | last _ =>
    intro r hr
    rw [List.mem_singleton.mp hr]
  | link _ hlt _ ih =>
    intro r hr
    rcases List.mem_cons.mp hr with rfl | hr
    · exact le_rfl
    · exact (ih r hr).trans hlt.le

theorem ParentLinks.nodup (h : ParentLinks nodes q p ps) : ps.Nodup := by
  induction h with
  | last _ => exact List.nodup_singleton q
  | link _ hlt hlinks ih =>
    apply List.nodup_cons.mpr
    refine ⟨?_, ih⟩
    intro hmem
    exact (hlinks.g_le _ hmem).not_gt hlt

theorem ParentLinks.getResultList_eq (h : ParentLinks nodes q p ps) {links i : ℕ}
    (indexList : ℕ → ℤ) (hl : ps.length ≤ links) (hi : i + ps.length ≤ tIndexListSize) :
    getResultList nodes links (some p) i indexList =
      .ok ⟨Cells.write indexList i (ps.map fun r => (nodes r).index), i + ps.length⟩ := by
  induction h generalizing links i indexList with
  | last hp =>
    obtain ⟨links, rfl⟩ : ∃ n, links = n + 1 :=
      Nat.exists_eq_add_of_le' hl
    have hroom : i < tIndexListSize := hi
    rw [getResultList, if_pos hroom, hp, getResultList, List.map_singleton, Cells.write_cons,
      Cells.write_nil, List.length_singleton]
  | @link p p' ps hp _ _ ih =>
    rw [List.length_cons] at hl hi
    obtain ⟨links, rfl⟩ : ∃ n, links = n + 1 :=
      Nat.exists_eq_add_of_le' (by omega)
    have hroom : i < tIndexListSize := by omega
    rw [getResultList, if_pos hroom, hp, ih _ (by omega) (by omega), List.map_cons,
      Cells.write_cons, List.length_cons]
    congr 2
    omega

theorem ParentLinks.length_le (h : ParentLinks nodes q p ps) {links i : ℕ} {indexList : ℕ → ℤ}
    {res : AstarRes} (hrun : getResultList nodes links (some p) i indexList = .ok res) :
    ps.length ≤ links := by
  induction h generalizing links i indexList with
  | last _ =>
    cases links with
    | zero => cases hrun
    | succ links => exact Nat.le_add_left 1 links
  | link hp _ _ ih =>
    cases links with
    | zero => cases hrun
    | succ links =>
      rw [getResultList, hp] at hrun
      split_ifs at hrun
      exact Nat.succ_le_succ (ih hrun)

variable {aa : AstarArray} {d : Cell} {cls : List Slot}

theorem exists_parentLinks (hrep : ∀ x ∈ cls, NodeRep aa d nodes cls x) (cells : List Cell)
    {x : Slot} (hx : x ∈ cls) (hcells : x.2.cells = cells) :
    ∃ (xs : List Slot) (q : NodePtr), (∀ y ∈ xs, y ∈ cls) ∧ (xs.map fun y => y.2.here) = cells ∧
      ParentLinks nodes q x.1 (xs.map Prod.fst) := by
  induction cells generalizing x with
  | nil => cases hcells
  | cons c cs ih =>
    obtain ⟨hc, hback⟩ := List.cons.inj hcells
    rcases (hrep x hx).parent with ⟨hnil, hp⟩ | ⟨u, hu, hb, hp⟩
    · obtain rfl : cs = [] := hback.symm.trans hnil
      refine ⟨[x], x.1, ?_, by rw [List.map_singleton, hc], .last hp⟩
      intro y hy
      exact List.mem_singleton.mp hy ▸ hx
    · obtain ⟨xs, q, hxs, hmap, hlinks⟩ := ih hu (hb.symm.trans hback)
      refine ⟨x :: xs, q, ?_, by rw [List.map_cons, hc, hmap], .link hp ?_ hlinks⟩
      · intro y hy
        rcases List.mem_cons.mp hy with rfl | hy
        · exact hx
        · exact hxs y hy
      · rw [(hrep x hx).g, (hrep u hu).g, Nat.cast_lt, Trail.cost, Trail.cost, hb]
        exact Nat.lt_succ_self _

end HsCommon.Astar
