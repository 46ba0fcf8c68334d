import HsCommon.ConfigReader

/-!
# The cells of a line

A cell followed by the delimiter is pushed as it stands. What follows the last delimiter is pushed
up to a newline only, which `getline` has taken off, so joining cells with the delimiter loses the
last one. A delimiter of several letters takes letters off each cell, an empty one is found forever.
-/

namespace HsCommon.HSConfigReader
variable {d : UInt8} {cell before after : List UInt8}

theorem find_delimiter (h : d ∉ cell) (before after : List UInt8) :
    Text.find (before ++ (cell ++ d :: after)) [d] before.length =
      some (before.length + cell.length) := by
  rw [Text.find_append, Text.search_letter h]
  rfl

theorem find_delimiter_none (h : d ∉ cell) (before : List UInt8) :
    Text.find (before ++ cell) [d] before.length = none := by
  rw [Text.find_append, Text.search_letter_none h]
  rfl

theorem lineEnd_bound {windows : Bool} {line : List UInt8} {offset res : ℕ}
    (h : lineEnd windows line offset = some res) : offset ≤ res ∧ res < line.length := by
  rw [lineEnd] at h
  cases hfind : Text.find line [newline] offset with
  | some r =>
    rw [hfind] at h
    obtain rfl := Option.some.inj h
    exact Text.find_bound hfind
  | none =>
    simp only [hfind] at h
    split_ifs at h
    exact Text.find_bound h

theorem pushLast_ne (windows : Bool) (before cell : List UInt8) (row : DataRow) :
    ∃ cells, pushLast windows (before ++ cell) before.length row = row ++ cells ∧
      cells ≠ [cell] := by
  have hnone : row = row ++ [] ∧ ([] : DataRow) ≠ [cell] := ⟨(List.append_nil _).symm, nofun⟩
  rw [pushLast]
  split_ifs with hlen
  · cases hend : lineEnd windows (before ++ cell) before.length with
    | none => exact ⟨[], hnone⟩
    | some res =>
      obtain ⟨hle, hlt⟩ := lineEnd_bound hend
      rw [List.length_append] at hlt
      refine ⟨_, rfl, ?_⟩
      intro hcell
      have hsame := congrArg List.length (List.singleton_inj.mp hcell)
      have hcut : sizeT (res - 1 - before.length + 1) ≤ res - before.length := by
        rw [show (res : ℤ) - 1 - before.length + 1 = (res - before.length : ℕ) by omega]
        exact sizeT_natCast_le _
      have hshort := Text.substr_length_le (before ++ cell) before.length
        (sizeT (res - 1 - before.length + 1))
      omega
  · exact ⟨[], hnone⟩

def cut (before cell : List UInt8) (d : UInt8) (after : List UInt8) : List UInt8 :=
  Text.substr (before ++ (cell ++ d :: after)) before.length
    (sizeT ((before.length + cell.length : ℕ) - [d].length - before.length + 1))

theorem createDataRowFrom_round (windows : Bool) (h : d ∉ cell) (before after : List UInt8)
    (fuel : ℕ) (row : DataRow) :
    createDataRowFrom windows [d] (before ++ (cell ++ d :: after)) (fuel + 1) before.length row =
      if sizeT ((before.length + cell.length : ℕ) - 1) ≥ before.length then
        createDataRowFrom windows [d] ((before ++ cell ++ [d]) ++ after) fuel
          (before ++ cell ++ [d]).length (row ++ [cut before cell d after])
      else .ok (false, row) := by
  have hline : before ++ (cell ++ d :: after) = (before ++ cell ++ [d]) ++ after := by simp
  have hoffset : before.length + cell.length + [d].length = (before ++ cell ++ [d]).length := by
    simp only [List.length_append]
  rw [createDataRowFrom, find_delimiter h]
  dsimp only
  rw [hoffset, ← hline]
  rfl

theorem createDataRowFrom_join (windows : Bool) {fields : List (List UInt8)} (hne : fields ≠ [])
    (hfields : ∀ field ∈ fields, d ∉ field) (before : List UInt8) {fuel : ℕ}
    (hfuel : fields.length ≤ fuel) (row : DataRow) :
    ∃ ok cells, createDataRowFrom windows [d] (before ++ [d].intercalate fields) fuel
        before.length row = .ok (ok, row ++ cells) ∧ ¬ (ok = true ∧ cells = fields) := by
  induction fields generalizing before fuel row with
  | nil => exact absurd rfl hne
  | cons field fields ih =>
    have hfield := hfields field List.mem_cons_self
    rw [List.length_cons] at hfuel
    obtain ⟨fuel, rfl⟩ : ∃ n, fuel = n + 1 := ⟨fuel - 1, by omega⟩
    cases fields with
    | nil =>
      obtain ⟨cells, hpush, hcells⟩ := pushLast_ne windows before field row
      refine ⟨true, cells, ?_, fun h => hcells h.2⟩
      rw [List.intercalate_singleton, createDataRowFrom, find_delimiter_none hfield]
      dsimp only
      rw [hpush]
    | cons next rest =>
      rw [List.intercalate_cons_cons, List.append_assoc, List.singleton_append,
        createDataRowFrom_round windows hfield]
      split_ifs
      · obtain ⟨ok, cells, hcut, hcells⟩ := ih (List.cons_ne_nil _ _)
          (fun f hf => hfields f (List.mem_cons_of_mem _ hf)) (before ++ field ++ [d])
          (Nat.le_of_succ_le_succ hfuel)
          (row ++ [cut before field d ([d].intercalate (next :: rest))])
        refine ⟨ok, cut before field d ([d].intercalate (next :: rest)) :: cells, ?_, ?_⟩
        · rw [hcut, List.append_assoc, List.singleton_append]
        · rintro ⟨hok, hall⟩
          exact hcells ⟨hok, (List.cons.inj hall).2⟩
      · exact ⟨false, [], by rw [List.append_nil], fun h => Bool.false_ne_true h.1⟩

theorem length_le_join (d : UInt8) (fields : List (List UInt8)) :
    fields.length ≤ ([d].intercalate fields).length + 1 := by
  induction fields with
  | nil => exact Nat.zero_le _
  | cons field fields ih =>
    cases fields with
    | nil => exact Nat.succ_le_succ (Nat.zero_le _)
    | cons next rest =>
      rw [List.intercalate_cons_cons, List.length_append, List.length_append, List.length_cons,
        List.length_singleton]
      omega

/-- Cells joined with the delimiter are never all pushed. -/
theorem createDataRow_join (windows : Bool) (d : UInt8) {fields : List (List UInt8)}
    (hne : fields ≠ []) (hfields : ∀ field ∈ fields, d ∉ field) (row : DataRow) :
    ∃ ok cells, createDataRow windows [d] ([d].intercalate fields) row = .ok (ok, row ++ cells) ∧
      ¬ (ok = true ∧ cells = fields) :=
  createDataRowFrom_join windows hne hfields [] (length_le_join d fields) row

theorem createDataRow_join_two :
    ([[97], [98]] : List (List UInt8)) ≠ [] ∧
    ∃ ok cells, createDataRow false [44] ([44].intercalate [[97], [98]]) [] = .ok (ok, cells) ∧
      ¬ (ok = true ∧ cells = [[97], [98]]) :=
  ⟨by decide, createDataRow_join false 44 (by decide) (by decide) []⟩

theorem createDataRow_loses_last :
    ¬ createDataRow false [44] ([44].intercalate [[97], [98]]) [] = .ok (true, [[97], [98]]) := by
  decide

theorem cut_eq (h : before.length + cell.length < 2 ^ 64) (d : UInt8) (after : List UInt8) :
    cut before cell d after = cell := by
  have hlen : sizeT ((before.length + cell.length : ℕ) - [d].length - before.length + 1) =
      cell.length := by
    rw [show ((before.length + cell.length : ℕ) : ℤ) - [d].length - before.length + 1 =
      (cell.length : ℕ) by simp; omega]
    exact sizeT_natCast (by omega)
  rw [cut, hlen, Text.substr_append]

theorem createDataRowFrom_terminated (windows : Bool) {fields : List (List UInt8)}
    (hfields : ∀ field ∈ fields, d ∉ field ∧ field ≠ []) (before : List UInt8) {fuel : ℕ}
    (hfuel : fields.length < fuel)
    (hlen : (before ++ fields.flatMap (· ++ [d])).length < 2 ^ 64) (row : DataRow) :
    createDataRowFrom windows [d] (before ++ fields.flatMap (· ++ [d])) fuel before.length row =
      .ok (true, row ++ fields) := by
  induction fields generalizing before fuel row with
  | nil =>
    obtain ⟨fuel, rfl⟩ : ∃ n, fuel = n + 1 := ⟨fuel - 1, by omega⟩
    have hnone : Text.find (before ++ []) [d] before.length = none :=
      find_delimiter_none List.not_mem_nil before
    rw [List.flatMap_nil, createDataRowFrom, hnone]
    dsimp only
    rw [pushLast, if_neg (by simp), List.append_nil]
  | cons field fields ih =>
    -- the cell is not empty, so the comparison with the offset does not fail
    obtain ⟨hfield, hpos⟩ := hfields field List.mem_cons_self
    rw [List.length_cons] at hfuel
    obtain ⟨fuel, rfl⟩ : ∃ n, fuel = n + 1 := ⟨fuel - 1, by omega⟩
    have hpos := List.length_pos_iff.mpr hpos
    have hline : before ++ (field :: fields).flatMap (· ++ [d]) =
        before ++ (field ++ d :: fields.flatMap (· ++ [d])) := by simp
    have hsame : before ++ (field ++ d :: fields.flatMap (· ++ [d])) =
        (before ++ field ++ [d]) ++ fields.flatMap (· ++ [d]) := by simp
    rw [hline] at hlen ⊢
    have hlt : before.length + field.length < 2 ^ 64 := by
      simp only [List.length_append, List.length_cons] at hlen
      omega
    have hge : sizeT ((before.length + field.length : ℕ) - 1) ≥ before.length := by
      rw [show ((before.length + field.length : ℕ) : ℤ) - 1 =
        (before.length + field.length - 1 : ℕ) by omega, sizeT_natCast (by omega)]
      omega
    rw [createDataRowFrom_round windows hfield, if_pos hge, cut_eq hlt,
      ih (fun f hf => hfields f (List.mem_cons_of_mem _ hf)) _ (by omega) (hsame ▸ hlen),
      List.append_assoc, List.singleton_append]

theorem length_le_terminated (d : UInt8) (fields : List (List UInt8)) :
    fields.length ≤ (fields.flatMap (· ++ [d])).length := by
  induction fields with
  | nil => exact le_rfl
  | cons field fields ih =>
    rw [List.flatMap_cons, List.length_append, List.length_append, List.length_cons,
      List.length_singleton]
    omega

theorem createDataRow_terminated (windows : Bool) {fields : List (List UInt8)}
    (hfields : ∀ field ∈ fields, d ∉ field ∧ field ≠ [])
    (hlen : (fields.flatMap (· ++ [d])).length < 2 ^ 64) (row : DataRow) :
    createDataRow windows [d] (fields.flatMap (· ++ [d])) row = .ok (true, row ++ fields) :=
  createDataRowFrom_terminated windows hfields [] (Nat.lt_succ_of_le (length_le_terminated d _))
    hlen row

/-- The loop takes at most one round more than the line has letters, or it does not end. -/
theorem createDataRow_ends_iff (windows : Bool) (r : HSConfigReader)
    (delimiters line : List UInt8) (row : DataRow) :
    ((∃ rounds ≤ line.length + 1, ∃ out, createDataRowFrom windows
        (r.setDelimiters delimiters).delimiters line rounds 0 row = .ok out) ↔ delimiters ≠ []) ∧
    ∀ rounds, createDataRowFrom windows (r.setDelimiters []).delimiters line rounds 0 row =
      .error .outOfFuel := by
  have hempty : ∀ rounds, createDataRowFrom windows [] line rounds 0 row = .error .outOfFuel :=
    fun rounds => createDataRowFrom_nil windows line rounds row
  constructor
  · constructor
    · rintro ⟨rounds, -, out, hout⟩ rfl
      exact nomatch (hempty rounds).symm.trans hout
    · intro hd
      exact ⟨line.length + 1, le_rfl, createDataRow_returns windows hd line row⟩
  · exact hempty

theorem createDataRow_empty_forever :
    ¬ ∃ rounds out, createDataRowFrom false ((new 1 0 [44]).setDelimiters []).delimiters [97]
      rounds 0 [] = .ok out := by
  rintro ⟨rounds, out, hout⟩
  exact nomatch (createDataRowFrom_nil false [97] rounds []).symm.trans hout

def delimitedFrom (delimiters line : List UInt8) : ℕ → ℕ → List (ℕ × ℕ)
  | 0, _ => []
  | fuel + 1, offset =>
    match Text.find line delimiters offset with
    | none => []
    | some res =>
      if sizeT (res - 1) ≥ offset then
        (offset, res) :: delimitedFrom delimiters line fuel (res + delimiters.length)
      else []

def delimited (delimiters line : List UInt8) : List (ℕ × ℕ) :=
  delimitedFrom delimiters line (line.length + 1) 0

def cutLength (delimiters : List UInt8) (round : ℕ × ℕ) : ℤ :=
  round.2 - delimiters.length - round.1 + 1

def cutOut (delimiters line : List UInt8) (round : ℕ × ℕ) : List UInt8 :=
  Text.substr line round.1 (sizeT (cutLength delimiters round))

def between (line : List UInt8) (round : ℕ × ℕ) : List UInt8 :=
  Text.substr line round.1 (round.2 - round.1)

theorem pushLast_append (windows : Bool) (line : List UInt8) (offset : ℕ) (row : DataRow) :
    ∃ last, pushLast windows line offset row = row ++ last ∧ last.length ≤ 1 := by
  rw [pushLast]
  split_ifs
  · cases lineEnd windows line offset with
    | none => exact ⟨[], (List.append_nil _).symm, Nat.zero_le _⟩
    | some res => exact ⟨_, rfl, le_rfl⟩
  · exact ⟨[], (List.append_nil _).symm, Nat.zero_le _⟩

theorem createDataRowFrom_delimited (windows : Bool) {delimiters line : List UInt8} {fuel : ℕ}
    {offset : ℕ} {row : DataRow} {out : Bool × DataRow}
    (h : createDataRowFrom windows delimiters line fuel offset row = .ok out) :
    ∃ last, out.2 = row ++ (delimitedFrom delimiters line fuel offset).map
      (cutOut delimiters line) ++ last ∧ last.length ≤ 1 := by
  induction fuel generalizing offset row with
  | zero => cases h
  | succ fuel ih =>
    rw [createDataRowFrom] at h
    rw [delimitedFrom]
    cases hfind : Text.find line delimiters offset with
    | none =>
      rw [hfind] at h
      obtain rfl := Except.ok.inj h
      obtain ⟨last, hpush, hlast⟩ := pushLast_append windows line offset row
      exact ⟨last, by rw [List.map_nil, List.append_nil, hpush], hlast⟩
    | some res =>
      rw [hfind] at h
      dsimp only at h ⊢
      split_ifs at h ⊢
      · obtain ⟨last, hrow, hlast⟩ := ih h
        refine ⟨last, ?_, hlast⟩
        rw [hrow, DataRow.pushValue, List.map_cons, List.append_assoc row, List.singleton_append]
        rfl
      · obtain rfl := Except.ok.inj h
        exact ⟨[], by rw [List.map_nil, List.append_nil, List.append_nil], Nat.zero_le _⟩

theorem delimitedFrom_bound {delimiters line : List UInt8} {fuel offset : ℕ} {round : ℕ × ℕ}
    (h : round ∈ delimitedFrom delimiters line fuel offset) :
    round.1 ≤ round.2 ∧ round.2 ≤ line.length := by
  induction fuel generalizing offset with
  | zero => cases h
  | succ fuel ih =>
    rw [delimitedFrom] at h
    cases hfind : Text.find line delimiters offset with
    | none =>
      rw [hfind] at h
      cases h
    | some res =>
      rw [hfind] at h
      dsimp only at h
      split_ifs at h
      · rcases List.mem_cons.mp h with rfl | hlater
        · have hbound := Text.find_bound hfind
          exact ⟨hbound.1, by omega⟩
        · exact ih hlater
      · cases h

theorem delimited_first {delimiters line : List UInt8} {res : ℕ}
    (h : Text.find line delimiters 0 = some res) : (0, res) ∈ delimited delimiters line := by
  rw [delimited, delimitedFrom, h]
  dsimp only
  rw [if_pos (Nat.zero_le _)]
  exact List.mem_cons_self

theorem delimited_none {delimiters line : List UInt8}
    (h : Text.find line delimiters 0 = none) : delimited delimiters line = [] := by
  rw [delimited, delimitedFrom, h]

theorem cutOut_letter {delimiters line : List UInt8} (hd : delimiters.length = 1)
    (hlen : line.length < 2 ^ 64) {round : ℕ × ℕ} (hle : round.1 ≤ round.2)
    (hend : round.2 ≤ line.length) :
    cutOut delimiters line round = between line round ∧ 0 ≤ cutLength delimiters round := by
  have hcut : cutLength delimiters round = (round.2 - round.1 : ℕ) := by
    rw [cutLength, hd]
    omega
  rw [cutOut, hcut, sizeT_natCast (by omega), between]
  exact ⟨rfl, Int.natCast_nonneg _⟩

theorem cutOut_short {delimiters line : List UInt8} (hd : 2 ≤ delimiters.length) {res : ℕ}
    (hend : res ≤ line.length) :
    ¬ (cutOut delimiters line (0, res) = between line (0, res) ∧
      0 ≤ cutLength delimiters (0, res)) := by
  rintro ⟨hsame, hpos⟩
  rw [cutLength] at hpos
  have hcut : cutLength delimiters (0, res) = (res + 1 - delimiters.length : ℕ) := by
    rw [cutLength]
    omega
  have hwhole : (between line (0, res)).length = res := by
    rw [between, Text.substr, List.length_take, List.drop_zero]
    exact min_eq_left hend
  have hshort : (cutOut delimiters line (0, res)).length ≤ res + 1 - delimiters.length := by
    rw [cutOut, hcut]
    exact (Text.substr_length_le _ _ _).trans (sizeT_natCast_le _)
  rw [hsame, hwhole] at hshort
  omega

/-- The cells are pushed as they stand exactly if the delimiter is a single letter or does not
occur. -/
theorem createDataRow_delimited_iff (windows : Bool) {delimiters line : List UInt8}
    (hd : delimiters ≠ []) (hlen : line.length < 2 ^ 64) (row : DataRow) :
    (∃ ok last, createDataRow windows delimiters line row = .ok (ok, row ++
      (delimited delimiters line).map (cutOut delimiters line) ++ last) ∧ last.length ≤ 1) ∧
    ((∀ round ∈ delimited delimiters line,
        cutOut delimiters line round = between line round ∧ 0 ≤ cutLength delimiters round) ↔
      delimiters.length = 1 ∨ Text.find line delimiters 0 = none) := by
  constructor
  · obtain ⟨⟨ok, rows⟩, hout⟩ := createDataRow_returns windows hd line row
    obtain ⟨last, rfl, hlast⟩ := createDataRowFrom_delimited windows hout
    exact ⟨ok, last, hout, hlast⟩
  · have hpos := List.length_pos_iff.mpr hd
    constructor
    · intro hexact
      rw [or_iff_not_imp_left]
      intro hone
      cases hfind : Text.find line delimiters 0 with
      | none => rfl
      | some res =>
        have hbound := Text.find_bound hfind
        exact absurd (hexact _ (delimited_first hfind)) (cutOut_short (by omega) (by omega))
    · rintro (hone | hnone) round hround
      · obtain ⟨hle, hend⟩ := delimitedFrom_bound hround
        exact cutOut_letter hone hlen hle hend
      · rw [delimited_none hnone] at hround
        cases hround

theorem createDataRow_delimited_comma :
    (∃ ok last, createDataRow false [44] [97, 44, 98, 44] [] = .ok (ok, [] ++
      (delimited [44] [97, 44, 98, 44]).map (cutOut [44] [97, 44, 98, 44]) ++ last) ∧
      last.length ≤ 1) ∧
    ∀ round ∈ delimited [44] [97, 44, 98, 44],
      cutOut [44] [97, 44, 98, 44] round = between [97, 44, 98, 44] round ∧
      0 ≤ cutLength [44] round :=
  have h := createDataRow_delimited_iff false (@List.cons_ne_nil UInt8 44 [])
    (show [97, 44, 98, 44].length < 2 ^ 64 by decide) []
  ⟨h.1, h.2.mpr (Or.inl rfl)⟩

/-- Cut at `::`, the first cell of `ab::c` loses a letter, and that of `a:::b` at `:::` is the whole
line, as the length wraps. -/
theorem createDataRow_colons :
    createDataRow false [58, 58] [97, 98, 58, 58, 99] [] = .ok (true, [[97]]) ∧
    createDataRow false [58, 58, 58] [97, 58, 58, 58, 98] [] =
      .ok (true, [[97, 58, 58, 58, 98]]) ∧
    ¬ (∀ round ∈ delimited [58, 58] [97, 98, 58, 58, 99],
      cutOut [58, 58] [97, 98, 58, 58, 99] round = between [97, 98, 58, 58, 99] round ∧
      0 ≤ cutLength [58, 58] round) := by
  decide +kernel

end HsCommon.HSConfigReader
