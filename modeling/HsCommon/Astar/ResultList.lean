import HsCommon.Astar.Reopening

/-!
# The list of a call that returns 0

`get_result_list` starts at the node removed last, for the end cell, and its links lead down to the
begin node. They pass each closed node at most once, and the allocator gives fewer nodes than the
result list has entries.
-/

namespace HsCommon.Astar
open LabelSetting Exploration

/-- What `get_result_list` makes of the nodes `ps` on the links from `p`, the node removed last,
down to `q`. -/
structure Listed (beginIndex endIndex : ℤ) (res : AstarRes) (pt : SearchPoint) (out : Outcome)
    (p q : NodePtr) (ps : List NodePtr) : Prop where
  removedLast : pt.locals.openCloseNodes (pt.locals.closedCurrIndex + 1) = some p
  linked : ParentLinks out.state.nodes q p ps
  first : (out.state.nodes p).index = endIndex
  last : (out.state.nodes q).index = beginIndex
  room : ps.length ≤ tIndexListSize
  returns : ∀ links, ps.length ≤ links →
    getResultList out.state.nodes links (some p) 0 res.indexList = .ok out.res
  written : out.res =
    ⟨Cells.write res.indexList 0 (ps.map fun r => (out.state.nodes r).index), ps.length⟩

variable {aa : AstarArray} {b d : Cell} {base : ℕ} {opn cls : List Slot}

theorem Follows.exists_found {es : List SearchEvent} {pt : SearchPoint}
    (h : Follows aa b d base opn cls es pt) (hfound : pt.found = true) :
    ∃ x rest, cls = x :: rest ∧ x.2.here = d ∧ IsTrail (successors aa) b x.2 := by
  have hstage := h.stage
  rw [hfound] at hstage
  generalize pt.todo = todo at hstage
  cases hstage with
  | @found e k t hhead hmin ht _ he =>
    have hcls : cls.map Prod.snd = t :: e.cls := congrArg Exploration.cls he
    obtain ⟨x, rest, rfl, rfl, -⟩ := List.map_eq_cons_iff.mp hcls
    have hmem := List.mem_of_getElem? (lastMin_spec hmin).1
    exact ⟨x, rest, rfl, ht, hhead.inv.walks _ (List.mem_append_left _ hmem)⟩

theorem Sim.links_length_le {l : SearchLocals} {s : AstarState} (h : Sim aa d base l s opn cls)
    {p q : NodePtr} {xs : List Slot} (hxs : ∀ y ∈ xs, y ∈ cls)
    (hlinks : ParentLinks s.nodes q p (xs.map Prod.fst)) :
    (xs.map Prod.fst).length ≤ tIndexListSize := by
  have hsub : ∀ r ∈ xs.map Prod.fst, r ∈ cls.map Prod.fst := by
    intro r hr
    obtain ⟨y, hy, rfl⟩ := List.mem_map.mp hr
    exact List.mem_map_of_mem (hxs y hy)
  have hfits := h.fits
  calc (xs.map Prod.fst).length ≤ (cls.map Prod.fst).length :=
        (hlinks.nodup.subperm hsub).length_le
    _ = cls.length := List.length_map _
    _ ≤ 4095 := by omega
    _ ≤ tIndexListSize := by decide

theorem Sim.last_index {l : SearchLocals} {s : AstarState} (h : Sim aa d base l s opn cls)
    {p q : NodePtr} {xs : List Slot} (hxs : ∀ y ∈ xs, y ∈ cls) {vs : List Cell}
    (hcells : (xs.map fun y => y.2.here) = (b :: vs).reverse)
    (hlinks : ParentLinks s.nodes q p (xs.map Prod.fst)) :
    (s.nodes q).index = aa.indexOf b := by
  have hlast := hlinks.getLast
  rw [List.getLast?_map, Option.map_eq_some_iff] at hlast
  obtain ⟨y, hy, rfl⟩ := hlast
  have hbegin := congrArg List.getLast? hcells
  rw [List.getLast?_map, hy, List.getLast?_reverse] at hbegin
  have hb : y.2.here = b := Option.some.inj hbegin
  rw [(h.rep y (List.mem_append_right _ (hxs y (List.mem_of_getLast? hy)))).index, hb]

theorem Follows.listed {es : List SearchEvent} {pt : SearchPoint} {out : Outcome} {res : AstarRes}
    {links : ℕ} (h : Follows aa b d base opn cls es pt) (hended : Ended pt out)
    (hfound : pt.found = true) (hlists : Lists pt links res out) :
    ∃ p q ps, Listed (aa.indexOf b) (aa.indexOf d) res pt out p q ps := by
  obtain ⟨x, rest, rfl, hhere, vs, -, hcells⟩ := h.exists_found hfound
  have hrep : ∀ y ∈ x :: rest, NodeRep aa d pt.state.nodes (x :: rest) y :=
    fun y hy => h.sim.rep y (List.mem_append_right _ hy)
  have hx : x ∈ x :: rest := List.mem_cons_self
  have hremoved := h.sim.closedAt 0 (Nat.succ_pos _)
  obtain ⟨xs, q, hxs, hmap, hlinks⟩ := exists_parentLinks hrep _ hx rfl
  have hroom := h.sim.links_length_le hxs hlinks
  have hroom' : 0 + (xs.map Prod.fst).length ≤ tIndexListSize := by rwa [Nat.zero_add]
  rw [Lists, hremoved] at hlists
  have hlen := hlinks.length_le hlists
  have hres := hlinks.getResultList_eq res.indexList hlen hroom'
  have hout := Except.ok.inj (hlists.symm.trans hres)
  rw [Nat.zero_add] at hout
  refine ⟨x.1, q, xs.map Prod.fst, hremoved, ?_, ?_, ?_, hroom, ?_, ?_⟩
  · rw [hended.state]
    exact hlinks
  · rw [hended.state, (hrep x hx).index, hhere]
  · rw [hended.state]
    exact h.sim.last_index hxs (hmap.trans hcells) hlinks
  · intro n hn
    rw [hended.state, hlinks.getResultList_eq res.indexList hn hroom', ← hres]
    exact hlists
  · rw [hended.state]
    exact hout

/-- A call that gets its nodes and returns 0 has copied the links of the node removed last, all the
way down to the begin node, and they fit into the result list. -/
theorem hsAstarFindPath_resultList (data : ℕ → ℤ) (width height : ℕ) (ta : AstarArray)
    (s₀ s : AstarState) (hload : (hsAstarLoadData (some data) width height ta s₀).1 = 0)
    (hs : Reached s) (beginIndex endIndex : ℤ)
    (hb : 0 ≤ beginIndex ∧ beginIndex < ((width * height : ℕ) : ℤ))
    (he : 0 ≤ endIndex ∧ endIndex < ((width * height : ℕ) : ℤ)) (fuel : ℕ)
    (hfuel : width * height + 2 ≤ fuel) (res : AstarRes)
    (halloc : hsAstarFindPath fuel (hsAstarLoadData (some data) width height ta s₀).2.1 beginIndex
      endIndex res s ≠ .error .nullPointer) :
    ∃ out, hsAstarFindPath fuel (hsAstarLoadData (some data) width height ta s₀).2.1 beginIndex
        endIndex res s = .ok out ∧
      (out.code = 0 → ∃ es pt p q ps,
        SearchRun (hsAstarLoadData (some data) width height ta s₀).2.1 beginIndex endIndex s es pt ∧
        Ended pt out ∧ Listed beginIndex endIndex res pt out p q ps) := by
  have h := holds_of_load hload
  generalize (hsAstarLoadData (some data) width height ta s₀).2.1 = aa at h halloc ⊢
  rw [← h.width_eq, ← h.height_eq] at hb he
  obtain ⟨b, hbi, rfl⟩ := exists_cell h.loaded hb.1 hb.2
  obtain ⟨d, hdi, rfl⟩ := exists_cell h.loaded he.1 he.2
  rcases hsAstarFindPath_spec h.loaded hs.ok hbi hdi res fuel with
    ⟨out, n, -, ho, -⟩ | ⟨ho, -⟩ | ⟨-, hshort⟩
  · refine ⟨out, ho, ?_⟩
    intro hcode
    obtain ⟨es, pt, hrun, hended, hlists⟩ := hsAstarFindPath_run ho h.loaded hbi hdi
    obtain ⟨opn, cls, hf⟩ := hrun.follows h.loaded hs.ok hbi hdi
    have hfound : pt.found = true := by
      by_contra hnot
      have hneg := hended.code
      rw [if_neg hnot, hcode] at hneg
      cases hneg
    obtain ⟨p, q, ps, hlisted⟩ := hf.listed hended hfound (hlists hfound)
    exact ⟨es, pt, p, q, ps, hrun, hended, hlisted⟩
  · exact absurd ho halloc
  · rw [h.width_eq, h.height_eq] at hshort
    omega

theorem hsAstarFindPath_resultList_corner :
    let load := hsAstarLoadData (some cornerWall) 2 2 .blank (.start fun _ => .zero)
    ∃ out, hsAstarFindPath 6 load.2.1 0 3 .blank load.2.2 = .ok out ∧ out.code = 0 ∧
      out.res.count = 3 ∧ ∃ es pt p q ps, SearchRun load.2.1 0 3 load.2.2 es pt ∧
        Ended pt out ∧ Listed 0 3 .blank pt out p q ps := by
  intro load
  have hrun : (hsAstarFindPath 6 load.2.1 0 3 .blank load.2.2).map (fun out =>
      (out.code, out.res.count)) = .ok (0, 3) := by
    decide +kernel
  have hnull : hsAstarFindPath 6 load.2.1 0 3 .blank load.2.2 ≠ .error .nullPointer := by
    intro hnull
    rw [hnull] at hrun
    cases hrun
  obtain ⟨out, ho, hlist⟩ := hsAstarFindPath_resultList cornerWall 2 2 .blank
    (.start fun _ => .zero) load.2.2 rfl (.load _ 2 2 _ (.start _)) 0 3 (by decide) (by decide) 6
    (by decide) .blank hnull
  rw [ho] at hrun
  obtain ⟨hcode, hcount⟩ := Prod.mk.inj (Except.ok.inj hrun)
  exact ⟨out, ho, hcode, hcount, hlist hcode⟩

end HsCommon.Astar
