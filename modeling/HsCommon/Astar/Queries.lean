import HsCommon.Astar.Capacity

/-!
# Many queries on one load

All queries draw their nodes from the one allocator, and only a load or a recycle
moves its cursor back. What a query answers does not depend on the stale nodes or
on where the cursor stands. Whether it answers does: each query takes the slots of
the exploration it runs, and 4095 of them are there for all queries together.
-/

namespace HsCommon.Astar
open LabelSetting Exploration

structure Query where
  beginIndex : ℤ
  endIndex : ℤ
  res : AstarRes

def Query.InRange (q : Query) (width height : ℕ) : Prop :=
  (0 ≤ q.beginIndex ∧ q.beginIndex < ((width * height : ℕ) : ℤ)) ∧
    0 ≤ q.endIndex ∧ q.endIndex < ((width * height : ℕ) : ℤ)

def Query.ask (q : Query) (fuel : ℕ) (aa : AstarArray) (s : AstarState) : Except Fault Outcome :=
  hsAstarFindPath fuel aa q.beginIndex q.endIndex q.res s

def askAll (fuel : ℕ) (aa : AstarArray) : List Query → AstarState → Except Fault (List Outcome)
  | [], _ => .ok []
  | q :: qs, s => do
    let out ← q.ask fuel aa s
    let outs ← askAll fuel aa qs out.state
    return out :: outs

/-- What the caller sees: the return code and the result list. -/
def Outcome.answer (out : Outcome) : ℤ × List ℤ :=
  (out.code, Cells.read out.res.indexList 0 out.res.count)

def Query.Answers (q : Query) (fuel : ℕ) (aa : AstarArray) (s : AstarState) (out : Outcome) :
    Prop :=
  ∃ out', q.ask fuel aa s = .ok out' ∧ out.answer = out'.answer

def cellAt (aa : AstarArray) (index : ℤ) : Cell :=
  (index.toNat % aa.width, index.toNat / aa.width)

def finalExploration (aa : AstarArray) (b d : Cell) : Exploration Cell :=
  (round aa d)^[aa.width * aa.height + 2] (start b)

/-- The trails that the best-first exploration from the begin cell holds when it stops. -/
def Query.slots (aa : AstarArray) (q : Query) : ℕ :=
  (finalExploration aa (cellAt aa q.beginIndex) (cellAt aa q.endIndex)).size

variable {aa : AstarArray} {b d : Cell} {s s₀ : AstarState} {res : AstarRes} {fuel : ℕ}

theorem cellAt_indexOf {c : Cell} (hc : aa.Inside c) : cellAt aa (aa.indexOf c) = c := by
  have hx : (c.2 * aa.width + c.1) % aa.width = c.1 := by
    rw [Nat.mul_add_mod_self_right, Nat.mod_eq_of_lt hc.1]
  have hy : (c.2 * aa.width + c.1) / aa.width = c.2 := by
    rw [Nat.mul_comm, Nat.mul_add_div (by have := hc.1; omega), Nat.div_eq_of_lt hc.1,
      Nat.add_zero]
  simp only [cellAt, AstarArray.indexOf, Int.toNat_natCast, hx, hy]

theorem slots_indexOf (hb : aa.Inside b) (hd : aa.Inside d) (res : AstarRes) :
    Query.slots aa ⟨aa.indexOf b, aa.indexOf d, res⟩ = (finalExploration aa b d).size := by
  rw [Query.slots, cellAt_indexOf hb, cellAt_indexOf hd]

theorem exists_completed (ha : aa.Loaded) (hr : Recycled s₀) (hb : aa.Inside b)
    (hd : aa.Inside d) (halloc : AllocsSucceed aa s₀ (aa.indexOf b) (aa.indexOf d))
    (res : AstarRes) : ∃ out, Completed aa d s₀.cursor res (finalExploration aa b d) out := by
  rcases hsAstarFindPath_spec ha hr.ok hb hd res (aa.width * aa.height + 2) with
    ⟨out, n, hn, -, hout⟩ | ⟨ho, -⟩ | ⟨-, hshort⟩
  · have hstop := hout.returned.stop_add (aa.width * aa.height + 2 - n)
    rw [Nat.sub_add_cancel hn.le] at hstop
    rw [finalExploration, hstop]
    exact ⟨out, hout⟩
  · exact absurd ho (halloc _ _)
  · omega

theorem size_le_final (hfix : round aa d (finalExploration aa b d) = finalExploration aa b d)
    (n : ℕ) : ((round aa d)^[n] (start b)).size ≤ (finalExploration aa b d).size := by
  have hle := size_le_iterate aa d ((round aa d)^[n] (start b)) (aa.width * aa.height + 2)
  have hstop : (round aa d)^[n] (finalExploration aa b d) = finalExploration aa b d :=
    Function.iterate_fixed hfix n
  rw [finalExploration] at hstop
  rwa [← Function.iterate_add_apply, Nat.add_comm, Function.iterate_add_apply, hstop] at hle

theorem Returned.eq_final {n : ℕ} {out : Outcome}
    (hfix : round aa d (finalExploration aa b d) = finalExploration aa b d)
    (h : Returned aa d res ((round aa d)^[n] (start b)) out) :
    (round aa d)^[n] (start b) = finalExploration aa b d := by
  rw [← h.stop_add (aa.width * aa.height + 2), Nat.add_comm, Function.iterate_add_apply]
  exact Function.iterate_fixed hfix n

theorem Returned.answer_eq {e : Exploration Cell} {out out' : Outcome}
    (h : Returned aa d res e out) (h' : Returned aa d res e out') : out.answer = out'.answer := by
  have hnone : ∀ {p}, e.opn = [] →
      lastMin (Trail.total (manhattan d)) e.opn ≠ some p := fun hnil hsome => by
    rw [lastMin_eq_none.mpr hnil] at hsome
    cases hsome
  cases h with
  | noPath hcode hres hnil =>
    cases h' with
    | noPath hcode' hres' =>
      rw [Outcome.answer, Outcome.answer, hcode, hcode', hres, hres']
    | found hmin => exact absurd hmin (hnone hnil)
  | found hmin _ hcode _ hread =>
    cases h' with
    | noPath _ _ hnil => exact absurd hmin (hnone hnil)
    | found hmin' _ hcode' _ hread' =>
      obtain ⟨-, rfl⟩ := Prod.mk.inj (Option.some.inj (hmin.symm.trans hmin'))
      rw [Outcome.answer, Outcome.answer, hcode, hcode', hread, hread']

theorem ask_spec (ha : aa.Loaded) (hr : Recycled s₀) (hs : s.Ok) (hi : s.allocData.inited ≠ 0)
    (hb : aa.Inside b) (hd : aa.Inside d)
    (halloc : AllocsSucceed aa s₀ (aa.indexOf b) (aa.indexOf d))
    (hfuel : aa.width * aa.height + 2 ≤ fuel) (res : AstarRes) :
    (s.cursor + (finalExploration aa b d).size ≤ 4095 ∧
      ∃ out, hsAstarFindPath fuel aa (aa.indexOf b) (aa.indexOf d) res s = .ok out ∧
        Completed aa d s.cursor res (finalExploration aa b d) out) ∨
    (4095 < s.cursor + (finalExploration aa b d).size ∧
      hsAstarFindPath fuel aa (aa.indexOf b) (aa.indexOf d) res s = .error .nullPointer) := by
  obtain ⟨out₀, hout₀⟩ := exists_completed ha hr hb hd halloc res
  have hfix := hout₀.returned.stop
  rcases hsAstarFindPath_spec ha hs hb hd res fuel with
    ⟨out, n, -, ho, hout⟩ | ⟨ho, hzero | ⟨n, hn⟩⟩ | ⟨-, hshort⟩
  · rw [hout.returned.eq_final hfix] at hout
    exact Or.inl ⟨hout.room, out, ho, hout⟩
  · exact absurd hzero hi
  · have := size_le_final hfix n
    exact Or.inr ⟨by omega, ho⟩
  · omega

theorem askAll_spec {width height : ℕ} {data : ℕ → ℤ} (h : Holds aa data width height)
    (hr : Recycled s₀) (qs : List Query) (hin : ∀ q ∈ qs, q.InRange width height)
    (halloc : ∀ q ∈ qs, AllocsSucceed aa s₀ q.beginIndex q.endIndex)
    (hfuel : width * height + 2 ≤ fuel) (hs : s.Ok) (hi : s.allocData.inited ≠ 0)
    (hroom : s.cursor ≤ 4095) :
    (s.cursor + (qs.map (Query.slots aa)).sum ≤ 4095 ∧ ∃ outs, askAll fuel aa qs s = .ok outs ∧
      List.Forall₂ (fun q out => q.Answers fuel aa s₀ out) qs outs) ∨
    (4095 < s.cursor + (qs.map (Query.slots aa)).sum ∧
      askAll fuel aa qs s = .error .nullPointer) := by
  induction qs generalizing s with
  | nil => exact Or.inl ⟨hroom, [], rfl, .nil⟩
  | cons q qs ih =>
    obtain ⟨beginIndex, endIndex, res⟩ := q
    have hq := hin _ List.mem_cons_self
    have ha := halloc _ List.mem_cons_self
    simp only [Query.InRange] at hq
    rw [← h.width_eq, ← h.height_eq] at hq
    obtain ⟨b, hb, rfl⟩ := exists_cell h.loaded hq.1.1 hq.1.2
    obtain ⟨d, hd, rfl⟩ := exists_cell h.loaded hq.2.1 hq.2.2
    have hf : aa.width * aa.height + 2 ≤ fuel := by
      rw [h.width_eq, h.height_eq]
      exact hfuel
    have hslots := slots_indexOf hb hd res
    rw [List.map_cons, List.sum_cons, hslots]
    rcases ask_spec h.loaded hr hs hi hb hd ha hf res with
      ⟨hfits, out, ho, hout⟩ | ⟨hover, ho⟩
    · have hrest := ih (s := out.state) (fun q hq => hin q (List.mem_cons_of_mem _ hq))
        (fun q hq => halloc q (List.mem_cons_of_mem _ hq)) hout.ok hout.inited
        (by rw [hout.cursor]; exact hout.room)
      rw [hout.cursor, Nat.add_assoc] at hrest
      -- the same query right after the load ends in the same exploration
      have hanswer : Query.Answers ⟨aa.indexOf b, aa.indexOf d, res⟩ fuel aa s₀ out := by
        rcases ask_spec h.loaded hr hr.ok hr.inited hb hd ha hf res with
          ⟨-, out', ho', hout'⟩ | ⟨-, ho'⟩
        · exact ⟨out', ho', hout.returned.answer_eq hout'.returned⟩
        · exact absurd ho' (ha _ _)
      rcases hrest with ⟨hle, outs, hos, hall⟩ | ⟨hlt, hos⟩
      · refine Or.inl ⟨hle, out :: outs, ?_, .cons hanswer hall⟩
        simp only [askAll, Query.ask, ho, hos, bind, Except.bind, pure, Except.pure]
      · refine Or.inr ⟨hlt, ?_⟩
        simp only [askAll, Query.ask, ho, hos, bind, Except.bind]
    · refine Or.inr ⟨by omega, ?_⟩
      simp only [askAll, Query.ask, ho, bind, Except.bind]

theorem slots_le_demand (hb : aa.Inside b) (d : Cell) :
    (finalExploration aa b d).size ≤ demand (successors aa) b :=
  (inv_rounds aa b d _).size_le_demand (region_finite hb)

theorem slots_eq_demand (ha : aa.Loaded) (hr : Recycled s₀) (hb : aa.Inside b) (hd : aa.Inside d)
    (halloc : AllocsSucceed aa s₀ (aa.indexOf b) (aa.indexOf d))
    (hunreach : d ∉ region (successors aa) b) :
    (finalExploration aa b d).size = demand (successors aa) b := by
  refine le_antisymm (slots_le_demand hb d) ?_
  obtain ⟨out, hout⟩ := exists_completed ha hr hb hd halloc .blank
  have hI := inv_rounds aa b d (aa.width * aa.height + 2)
  cases hout.returned with
  | noPath _ _ hnil _ => exact hI.demand_le_size hnil
  | found hmin hcur _ _ _ _ =>
    have hmem := List.mem_of_getElem? (lastMin_spec hmin).1
    exact absurd (hcur ▸ hI.here_mem_region (List.mem_append_left _ hmem)) hunreach

/-- The queries of a sequence are answered as right after the load exactly if their slots add up
to what the allocator has. A query takes no more slots than the region of its begin cell asks for,
and takes all of them if the end cell cannot be reached. -/
theorem askAll_fresh (data : ℕ → ℤ) (width height : ℕ) (ta : AstarArray) (s₀ : AstarState)
    (hs : Reached s₀) (hload : (hsAstarLoadData (some data) width height ta s₀).1 = 0)
    (qs : List Query) (hin : ∀ q ∈ qs, q.InRange width height)
    (halloc : ∀ q ∈ qs, AllocsSucceed (hsAstarLoadData (some data) width height ta s₀).2.1
      (hsAstarLoadData (some data) width height ta s₀).2.2 q.beginIndex q.endIndex)
    (fuel : ℕ) (hfuel : width * height + 2 ≤ fuel) :
    let aa := (hsAstarLoadData (some data) width height ta s₀).2.1
    let s := (hsAstarLoadData (some data) width height ta s₀).2.2
    ((∃ outs, askAll fuel aa qs s = .ok outs ∧
        List.Forall₂ (fun q out => q.Answers fuel aa s out) qs outs) ↔
      (qs.map (Query.slots aa)).sum ≤ 4095) ∧
    ∀ q ∈ qs, q.slots aa ≤ slotDemand data width height q.beginIndex ∧
      (q.endIndex ∉ indexRegion data width height q.beginIndex →
        q.slots aa = slotDemand data width height q.beginIndex) := by
  intro aa s
  have h : Holds aa data width height := holds_of_load hload
  have hr : Recycled s := recycled_of_load hs hload
  constructor
  · have hspec := askAll_spec h hr qs hin halloc hfuel hr.ok hr.inited
      (hr.cursor.trans_le (by omega))
    rw [hr.cursor, Nat.zero_add] at hspec
    constructor
    · rintro ⟨outs, ho, -⟩
      rcases hspec with ⟨hle, -⟩ | ⟨-, ho'⟩
      · exact hle
      · rw [ho'] at ho
        cases ho
    · intro hle
      rcases hspec with ⟨-, hall⟩ | ⟨hlt, -⟩
      · exact hall
      · omega
  · rintro ⟨beginIndex, endIndex, res⟩ hq
    obtain ⟨hbr, hdr⟩ := hin _ hq
    rw [← h.width_eq, ← h.height_eq] at hbr hdr
    obtain ⟨b, hb, rfl⟩ := exists_cell h.loaded hbr.1 hbr.2
    obtain ⟨d, hd, rfl⟩ := exists_cell h.loaded hdr.1 hdr.2
    rw [slots_indexOf hb hd, h.slotDemand_eq hb]
    refine ⟨slots_le_demand hb d, fun hout => ?_⟩
    refine slots_eq_demand h.loaded hr hb hd (halloc _ hq) fun hmem => ?_
    rw [h.indexRegion_eq hb] at hout
    exact hout ⟨d, hmem, rfl⟩

def singleCell : ℕ → ℤ := fun _ => 0

def queryZero : Query := ⟨0, 0, .blank⟩

theorem queryZero_allocs {ta : AstarArray} {s₀ : AstarState} (hs : Reached s₀)
    (hload : (hsAstarLoadData (some singleCell) 1 1 ta s₀).1 = 0) :
    AllocsSucceed (hsAstarLoadData (some singleCell) 1 1 ta s₀).2.1
      (hsAstarLoadData (some singleCell) 1 1 ta s₀).2.2 0 0 := by
  have h := holds_of_load hload
  have hr := recycled_of_load hs hload
  generalize (hsAstarLoadData (some singleCell) 1 1 ta s₀).2.1 = aa at h ⊢
  have hb : aa.Inside (0, 0) := ⟨h.loaded.width_pos, h.loaded.height_pos⟩
  have hb0 : aa.indexOf (0, 0) = 0 := by simp [AstarArray.indexOf]
  rw [← hb0]
  refine allocsSucceed_of_open h.loaded hr hb hb fun c hc hne => absurd ?_ hne
  have hx := hc.1
  have hy := hc.2
  rw [h.width_eq] at hx
  rw [h.height_eq] at hy
  exact Prod.ext (Nat.lt_one_iff.mp hx) (Nat.lt_one_iff.mp hy)

theorem askAll_fresh_thrice :
    let before := hsAstarLoadData (some singleCell) 2 2 .blank (.start fun _ => .zero)
    ∃ out, hsAstarFindPath 6 before.2.1 0 3 .blank before.2.2 = .ok out ∧
      let load := hsAstarLoadData (some singleCell) 1 1 .blank out.state
      (∃ outs, askAll 3 load.2.1 (List.replicate 3 queryZero) load.2.2 = .ok outs ∧
        List.Forall₂ (fun q out => q.Answers 3 load.2.1 load.2.2 out)
          (List.replicate 3 queryZero) outs) ∧
      queryZero.slots load.2.1 ≤ slotDemand singleCell 1 1 0 := by
  intro before
  have hcall : (hsAstarFindPath 6 before.2.1 0 3 .blank before.2.2).map Outcome.code = .ok 0 := by
    decide +kernel
  obtain ⟨out, ho, -⟩ := exists_ok_of_map hcall
  have hs : Reached out.state :=
    .find (hsAstarLoadData_loaded (s := .start fun _ => .zero) rfl).1 (.load _ 2 2 _ (.start _)) ho
  refine ⟨out, ho, ?_⟩
  intro load
  have hload : load.2.1 = ⟨loadCells singleCell 1 1 AstarArray.blank.arr, 1, 1⟩ := rfl
  have hsum : ((List.replicate 3 queryZero).map (Query.slots load.2.1)).sum ≤ 4095 := by
    rw [hload]
    decide +kernel
  obtain ⟨hfresh, hslots⟩ := askAll_fresh singleCell 1 1 .blank out.state hs rfl
    (List.replicate 3 queryZero)
    (fun q hq => List.eq_of_mem_replicate hq ▸ (by simp [Query.InRange, queryZero]))
    (fun q hq => List.eq_of_mem_replicate hq ▸ queryZero_allocs hs rfl) 3 (by decide)
  exact ⟨hfresh.mpr hsum, (hslots queryZero (List.mem_replicate.mpr ⟨by decide, rfl⟩)).1⟩

/-- Each query from a cell to itself takes one slot for good, so the 4096th fails. -/
theorem queryZero_repeated :
    let load := hsAstarLoadData (some singleCell) 1 1 .blank (.start fun _ => .zero)
    load.1 = 0 ∧ queryZero.InRange 1 1 ∧ AllocsSucceed load.2.1 load.2.2 0 0 ∧
      askAll 3 load.2.1 (List.replicate 4096 queryZero) load.2.2 = .error .nullPointer := by
  intro load
  have hload : load.1 = 0 := rfl
  have hin : queryZero.InRange 1 1 := by simp [Query.InRange, queryZero]
  have halloc := queryZero_allocs (.start _) hload
  have hr : Recycled load.2.2 := recycled_of_load (.start _) hload
  refine ⟨hload, hin, halloc, ?_⟩
  have hspec := @askAll_spec _ _ _ 3 _ _ _ (holds_of_load hload) hr
    (List.replicate 4096 queryZero) (fun q hq => (List.eq_of_mem_replicate hq) ▸ hin)
    (fun q hq => (List.eq_of_mem_replicate hq) ▸ halloc) (by decide) hr.ok hr.inited
    (hr.cursor.trans_le (by omega))
  change load.2.2.cursor + (List.map (Query.slots load.2.1) _).sum ≤ 4095 ∧ _ ∨ _ at hspec
  have hone : 1 ≤ queryZero.slots load.2.1 := size_le_iterate _ _ (start _) _
  rw [List.map_replicate, List.sum_replicate, smul_eq_mul] at hspec
  rcases hspec with ⟨hle, -⟩ | ⟨-, ho⟩
  · omega
  · exact ho

end HsCommon.Astar
