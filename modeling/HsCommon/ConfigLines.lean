import HsCommon.ConfigRows
import Mathlib.Data.List.Forall2

/-!
# The lines of a file

With a delimiter the reader cuts the line of the header that is numbered by the key row index, and
every line behind the header. It keeps what has been pushed of a line whether or not the line could
be cut to its end, and it never sees a line that no newline ends.
-/

namespace HsCommon.HSConfigReader
variable {windows : Bool} {delimiters line : List UInt8}

theorem getLines_append_newline (content : List UInt8) :
    getLines (content ++ [newline]) = content.splitOn newline := by
  rw [getLines, List.splitOn_append_cons_self, List.splitOn_nil, List.dropLast_concat]

theorem newline_notMem_of_mem_splitOn {content : List UInt8}
    (h : line ∈ content.splitOn newline) : newline ∉ line := by
  induction content generalizing line with
  | nil =>
    obtain rfl := List.mem_singleton.mp h
    exact List.not_mem_nil
  | cons c content ih =>
    rw [List.splitOn_cons_eq_if_modifyHead] at h
    split_ifs at h with hc
    · rcases List.mem_cons.mp h with rfl | h
      · exact List.not_mem_nil
      · exact ih h
    · cases hlines : content.splitOn newline with
      | nil => exact absurd hlines (List.splitOn_ne_nil _ _)
      | cons first rest =>
        rw [hlines, List.modifyHead_cons] at h
        rcases List.mem_cons.mp h with rfl | h
        · rw [List.mem_cons, not_or]
          refine ⟨?_, ih (hlines ▸ List.mem_cons_self)⟩
          rintro rfl
          exact hc (beq_self_eq_true _)
        · exact ih (hlines ▸ List.mem_cons_of_mem _ h)

def cutLine (windows : Bool) (delimiters line : List UInt8) (row : DataRow) : Bool × DataRow :=
  match createDataRow windows delimiters line row with
  | .ok out => out
  | .error _ => (false, row)

theorem createDataRow_eq (windows : Bool) (hd : delimiters ≠ []) (line : List UInt8)
    (row : DataRow) :
    createDataRow windows delimiters line row = .ok (cutLine windows delimiters line row) := by
  obtain ⟨out, hout⟩ := createDataRow_returns windows hd line row
  rw [cutLine, hout]

def headerLine (r : HSConfigReader) (lines : List (List UInt8)) : Option (List UInt8) :=
  if 0 ≤ r.keyRowIndex ∧ r.keyRowIndex < r.headerRows then lines[r.keyRowIndex.toNat]? else none

def dataLines (r : HSConfigReader) (lines : List (List UInt8)) : List (List UInt8) :=
  lines.drop r.headerRows.toNat

def readHeader (windows : Bool) (r : HSConfigReader) (line : Option (List UInt8)) : DataRow :=
  line.elim r.headerRow fun line => (cutLine windows r.delimiters line r.headerRow).2

def readData (windows : Bool) (r : HSConfigReader) (lines : List (List UInt8)) : List DataRow :=
  r.dataRows ++ lines.map fun line => (cutLine windows r.delimiters line []).2

def headerLineFrom (r : HSConfigReader) (count : ℤ) (lines : List (List UInt8)) :
    Option (List UInt8) :=
  if count ≤ r.keyRowIndex then lines[(r.keyRowIndex - count).toNat]? else none

theorem readLines_header {r : HSConfigReader} (hd : r.delimiters ≠ []) {count : ℤ}
    {lines : List (List UInt8)} (hlines : lines.length ≤ (r.headerRows - count).toNat) :
    lines.foldlM (readLine windows) (count, r) = .ok (count + lines.length,
      { r with headerRow := readHeader windows r (headerLineFrom r count lines) }) := by
  induction lines generalizing count r with
  | nil => simp [headerLineFrom, readHeader, pure, Except.pure]
  | cons line lines ih =>
    rw [List.length_cons] at hlines
    have hcount : count < r.headerRows := by omega
    have hnext : count + 1 + (lines.length : ℤ) = count + ((line :: lines).length : ℕ) := by
      rw [List.length_cons]
      omega
    rw [List.foldlM_cons, readLine]
    dsimp only
    rw [if_pos hcount]
    by_cases hkey : count = r.keyRowIndex
    · have hfrom : headerLineFrom r count (line :: lines) = some line := by
        rw [headerLineFrom, if_pos hkey.le, hkey, sub_self]
        rfl
      have hrest : ∀ header, headerLineFrom { r with headerRow := header } (count + 1) lines =
          none := by
        intro header
        exact if_neg (by dsimp only; omega)
      rw [if_pos hkey, createDataRow_eq windows hd, hfrom]
      simp only [bind, Except.bind, pure, Except.pure]
      rw [ih (r := { r with headerRow := (cutLine windows r.delimiters line r.headerRow).2 }) hd
        (by dsimp only; omega), hrest, hnext]
      rfl
    · have hfrom : headerLineFrom r count (line :: lines) =
          headerLineFrom r (count + 1) lines := by
        rw [headerLineFrom, headerLineFrom]
        by_cases hle : count ≤ r.keyRowIndex
        · have hplace : (r.keyRowIndex - count).toNat =
              (r.keyRowIndex - (count + 1)).toNat + 1 := by omega
          rw [if_pos hle, if_pos (by omega), hplace, List.getElem?_cons_succ]
        · rw [if_neg hle, if_neg (by omega)]
      rw [if_neg hkey, hfrom]
      simp only [bind, Except.bind]
      rw [ih hd (by omega), hnext]

theorem readLines_data {r : HSConfigReader} (hd : r.delimiters ≠ []) {count : ℤ}
    {lines : List (List UInt8)} (hcount : lines ≠ [] → r.headerRows ≤ count) :
    lines.foldlM (readLine windows) (count, r) =
      .ok (count, { r with dataRows := readData windows r lines }) := by
  induction lines generalizing r with
  | nil =>
    rw [readData, List.map_nil, List.append_nil]
    rfl
  | cons line lines ih =>
    have hle := hcount (List.cons_ne_nil _ _)
    rw [List.foldlM_cons, readLine]
    dsimp only
    rw [if_neg (by omega), createDataRow_eq windows hd]
    simp only [bind, Except.bind, pure, Except.pure]
    rw [ih (r := { r with dataRows := r.dataRows ++ [(cutLine windows r.delimiters line []).2] })
      hd fun _ => hle]
    simp only [readData, List.map_cons, List.append_assoc, List.singleton_append]

theorem headerLineFrom_zero (r : HSConfigReader) (lines : List (List UInt8)) :
    headerLineFrom r 0 (lines.take r.headerRows.toNat) = headerLine r lines := by
  rw [headerLineFrom, headerLine, sub_zero]
  by_cases hkey : 0 ≤ r.keyRowIndex
  · rw [if_pos hkey]
    split_ifs with hboth
    · exact List.getElem?_take_of_lt (by omega)
    · exact List.getElem?_take_eq_none (by omega)
  · rw [if_neg hkey, if_neg fun h => hkey h.1]

theorem loadConfig_eq {r : HSConfigReader} (hd : r.delimiters ≠ []) (content : List UInt8) :
    r.loadConfig windows (some content) = .ok (true, { r with
      headerRow := readHeader windows r (headerLine r (getLines content))
      dataRows := readData windows r (dataLines r (getLines content)) }) := by
  have hlines := List.take_append_drop r.headerRows.toNat (getLines content)
  generalize hcontent : getLines content = lines at hlines
  have hheader : (lines.take r.headerRows.toNat).length ≤ (r.headerRows - 0).toNat := by
    rw [List.length_take, sub_zero]
    exact min_le_left _ _
  have hcount : lines.drop r.headerRows.toNat ≠ [] →
      r.headerRows ≤ 0 + ((lines.take r.headerRows.toNat).length : ℤ) := by
    intro hdata
    have hlong := List.length_pos_iff.mpr hdata
    rw [List.length_drop] at hlong
    rw [List.length_take]
    omega
  have hread : lines.foldlM (readLine windows) (0, r) =
      .ok (0 + ((lines.take r.headerRows.toNat).length : ℤ), { r with
        headerRow := readHeader windows r (headerLine r lines)
        dataRows := readData windows r (dataLines r lines) }) := by
    rw [← hlines, List.foldlM_append, readLines_header hd hheader, headerLineFrom_zero, hlines]
    exact readLines_data (r := { r with headerRow := readHeader windows r (headerLine r lines) })
      hd hcount
  simp only [loadConfig, hcontent, hread, bind, Except.bind, pure, Except.pure]

def Whole (delimiters line : List UInt8) : Prop :=
  ∀ cell ∈ (Text.split delimiters line).tail.dropLast, cell ≠ []

theorem createDataRowFrom_whole_iff (hlen : line.length < 2 ^ 64) {fuel offset : ℕ}
    (hoffset : 0 < offset) (hle : offset ≤ line.length) {row : DataRow} {out : Bool × DataRow}
    (h : createDataRowFrom windows delimiters line fuel offset row = .ok out) :
    out.1 = true ↔
      ∀ cell ∈ (Text.splitFrom delimiters fuel (line.drop offset)).dropLast, cell ≠ [] := by
  induction fuel generalizing offset row with
  | zero => cases h
  | succ fuel ih =>
    have hfind : Text.find line delimiters offset =
        (Text.search delimiters (line.drop offset)).map (offset + ·) := by
      rw [Text.find, if_pos hle]
    rw [createDataRowFrom, hfind] at h
    rw [Text.splitFrom]
    cases hsearch : Text.search delimiters (line.drop offset) with
    | none =>
      rw [hsearch] at h
      obtain rfl := Except.ok.inj h
      simp
    | some r =>
      have hbound := Text.search_bound hsearch
      rw [List.length_drop] at hbound
      have hres : sizeT ((offset + r : ℕ) - 1) = offset + r - 1 := by
        rw [show ((offset + r : ℕ) : ℤ) - 1 = (offset + r - 1 : ℕ) by omega]
        exact sizeT_natCast (by omega)
      rw [hsearch] at h
      simp only [Option.map_some, hres] at h
      have hempty : (line.drop offset).take r = [] ↔ r = 0 := by
        rw [List.take_eq_nil_iff, List.drop_eq_nil_iff]
        omega
      dsimp only
      rw [List.dropLast_cons_of_ne_nil (Text.splitFrom_ne_nil _ _ _), List.forall_mem_cons, Ne,
        hempty]
      split_ifs at h with hge
      · have hnext : offset + r + delimiters.length ≤ line.length := by omega
        rw [ih (by omega) hnext h, List.drop_drop, ← add_assoc]
        exact (and_iff_right (by omega)).symm
      · -- the delimiter stands where the last one ends
        obtain rfl := Except.ok.inj h
        exact iff_of_false Bool.false_ne_true fun hboth => hboth.1 (by omega)

theorem cutLine_whole_iff (windows : Bool) (hd : delimiters ≠ []) (hlen : line.length < 2 ^ 64)
    (row : DataRow) : (cutLine windows delimiters line row).1 = true ↔ Whole delimiters line := by
  have hpos := List.length_pos_iff.mpr hd
  have hcut := createDataRow_eq windows hd line row
  rw [createDataRow, createDataRowFrom] at hcut
  rw [Whole, Text.split, Text.splitFrom]
  rw [Text.find, if_pos (Nat.zero_le _), List.drop_zero] at hcut
  cases hsearch : Text.search delimiters line with
  | none =>
    rw [hsearch] at hcut
    rw [← Except.ok.inj hcut]
    simp
  | some r =>
    have hbound := Text.search_bound hsearch
    rw [hsearch] at hcut
    simp only [Option.map_some, ge_iff_le, Nat.zero_le, if_true] at hcut
    rw [Nat.zero_add] at hcut
    exact createDataRowFrom_whole_iff hlen (by omega) hbound hcut

/-- The row is what a call that returned true made of the line. -/
def Produced (windows : Bool) (delimiters line : List UInt8) (row : DataRow) : Prop :=
  createDataRow windows delimiters line [] = .ok (true, row)

theorem produced_cutLine_iff (windows : Bool) (hd : delimiters ≠ [])
    (hlen : line.length < 2 ^ 64) :
    Produced windows delimiters line (cutLine windows delimiters line []).2 ↔
      Whole delimiters line := by
  rw [Produced, createDataRow_eq windows hd, Except.ok.injEq, Prod.ext_iff,
    ← cutLine_whole_iff windows hd hlen []]
  exact and_iff_left rfl

theorem mem_of_headerLine {r : HSConfigReader} {lines : List (List UInt8)}
    (h : headerLine r lines = some line) : line ∈ lines := by
  rw [headerLine] at h
  split_ifs at h
  exact List.mem_of_getElem? h

/-- The header is kept whole exactly if there is a header line that can be cut to its end, and the
data rows are exactly if all of their lines can. -/
theorem loadConfig_produced_iff (windows : Bool) (headerRows keyRowIndex : ℤ)
    (hd : delimiters ≠ []) {content : List UInt8}
    (hlen : ∀ line ∈ getLines content, line.length < 2 ^ 64) :
    let fresh := new headerRows keyRowIndex delimiters
    ∃ r, fresh.loadConfig windows (some content) = .ok (true, r) ∧
      ((∃ line, headerLine fresh (getLines content) = some line ∧
          Produced windows delimiters line r.headerRow) ↔
        ∃ line, headerLine fresh (getLines content) = some line ∧ Whole delimiters line) ∧
      (List.Forall₂ (Produced windows delimiters) (dataLines fresh (getLines content)) r.dataRows ↔
        ∀ line ∈ dataLines fresh (getLines content), Whole delimiters line) := by
  intro fresh
  refine ⟨_, loadConfig_eq (r := fresh) hd content, ?_, ?_⟩
  · apply exists_congr
    intro line
    apply and_congr_right
    intro hline
    rw [hline]
    exact produced_cutLine_iff windows hd (hlen line (mem_of_headerLine hline))
  · have hrows : readData windows fresh (dataLines fresh (getLines content)) =
        (dataLines fresh (getLines content)).map fun line =>
          (cutLine windows delimiters line []).2 := rfl
    rw [hrows, List.forall₂_map_right_iff, List.forall₂_same]
    apply forall₂_congr
    intro line hline
    exact produced_cutLine_iff windows hd (hlen line (List.mem_of_mem_drop hline))

theorem loadConfig_produced_small :
    ∃ r, (new 1 0 [44]).loadConfig false
        (some [107, 44, 118, 44, newline, 49, 44, 97, 44, newline]) = .ok (true, r) ∧
      Produced false [44] [107, 44, 118, 44] r.headerRow ∧
      List.Forall₂ (Produced false [44]) [[49, 44, 97, 44]] r.dataRows := by
  have hlines : getLines [107, 44, 118, 44, newline, 49, 44, 97, 44, newline] =
      [[107, 44, 118, 44], [49, 44, 97, 44]] := by decide
  obtain ⟨r, hload, hheader, hdata⟩ := loadConfig_produced_iff false 1 0
    (@List.cons_ne_nil UInt8 44 [])
    (show ∀ line ∈ getLines [107, 44, 118, 44, newline, 49, 44, 97, 44, newline],
      line.length < 2 ^ 64 by decide)
  rw [hlines] at hheader hdata
  have hwhole : ∀ cell ∈ (Text.split [44] [107, 44, 118, 44] : List (List UInt8)).tail.dropLast,
      cell ≠ [] := by decide
  have hwhole' : ∀ cell ∈ (Text.split [44] [49, 44, 97, 44] : List (List UInt8)).tail.dropLast,
      cell ≠ [] := by decide
  obtain ⟨line, hline, hproduced⟩ := hheader.mpr ⟨_, rfl, hwhole⟩
  obtain rfl := Option.some.inj hline
  exact ⟨r, hload, hproduced, hdata.mpr (List.forall_mem_singleton.mpr hwhole')⟩

theorem loadConfig_truncated :
    ¬ ∀ r, (new 1 0 [44]).loadConfig false
        (some [107, 44, 118, 44, newline, 49, 44, 44, newline]) = .ok (true, r) →
      Produced false [44] [107, 44, 118, 44] r.headerRow ∧
      List.Forall₂ (Produced false [44]) [[49, 44, 44]] r.dataRows := by
  intro h
  obtain ⟨-, hrows⟩ := h ⟨1, 0, [44], [[107], [118]], [[[49]]]⟩ (by decide)
  rw [List.forall₂_cons] at hrows
  revert hrows
  unfold Produced
  decide

def HasCells (windows : Bool) (delimiters line : List UInt8) : Prop :=
  delimiters <:+: line ∨ (windows = true ∧ carriageReturn ∈ line)

theorem find_zero_eq_none_iff {pat : List UInt8} :
    Text.find line pat 0 = none ↔ ¬ pat <:+: line := by
  rw [Text.find, if_pos (Nat.zero_le _), List.drop_zero, Option.map_eq_none_iff,
    Text.search_eq_none_iff]

theorem lineEnd_ne_none_iff (hline : newline ∉ line) :
    lineEnd windows line 0 ≠ none ↔ windows = true ∧ carriageReturn ∈ line := by
  have hnewline : Text.find line [newline] 0 = none := by
    rw [find_zero_eq_none_iff, List.singleton_infix_iff]
    exact hline
  rw [lineEnd, hnewline]
  cases windows with
  | false => simp
  | true => simp [find_zero_eq_none_iff, List.singleton_infix_iff]

theorem cutLine_ne_nil_iff (windows : Bool) (hd : delimiters ≠ []) (hline : newline ∉ line) :
    (cutLine windows delimiters line []).2 ≠ [] ↔ HasCells windows delimiters line := by
  have hcut := createDataRow_eq windows hd line []
  rw [createDataRow, createDataRowFrom] at hcut
  rw [HasCells, ← lineEnd_ne_none_iff hline]
  cases hfind : Text.find line delimiters 0 with
  | none =>
    rw [hfind] at hcut
    rw [← Except.ok.inj hcut]
    have hnone := find_zero_eq_none_iff.mp hfind
    dsimp only
    rw [pushLast]
    cases hend : lineEnd windows line 0 with
    | none => simp [hnone]
    | some res =>
      have hpos := (lineEnd_bound hend).2
      rw [if_pos (by omega)]
      simp [DataRow.pushValue]
  | some res =>
    rw [hfind] at hcut
    simp only [ge_iff_le, Nat.zero_le, if_true] at hcut
    obtain ⟨last, hrow, -⟩ := createDataRowFrom_delimited windows hcut
    have hin : delimiters <:+: line := by
      by_contra hnone
      rw [find_zero_eq_none_iff.mpr hnone] at hfind
      cases hfind
    rw [hrow]
    simp [DataRow.pushValue, hin]

def lineCount (content : List UInt8) : ℕ := (content.splitOn newline).length

def lastLine (content : List UInt8) : List UInt8 := (content.splitOn newline).getLastD []

theorem splitOn_eq_append_lastLine (content : List UInt8) :
    content.splitOn newline = getLines content ++ [lastLine content] := by
  have hne := List.splitOn_ne_nil newline content
  rw [getLines, lastLine, List.getLastD_eq_getLast?, List.getLast?_eq_some_getLast hne]
  exact (List.dropLast_append_getLast hne).symm

theorem headerLine_append {r : HSConfigReader} {lines : List (List UInt8)}
    (hlines : (lines ++ [line]).length ≤ r.headerRows) :
    (r.keyRowIndex = lines.length → headerLine r lines = none ∧
      headerLine r (lines ++ [line]) = some line) ∧
    (r.keyRowIndex ≠ lines.length → headerLine r lines = headerLine r (lines ++ [line])) := by
  rw [List.length_append, List.length_singleton] at hlines
  constructor
  · intro hkey
    rw [headerLine, headerLine, if_pos (by omega), if_pos (by omega), hkey, Int.toNat_natCast]
    exact ⟨List.getElem?_eq_none le_rfl, List.getElem?_concat_length⟩
  · intro hkey
    rw [headerLine, headerLine]
    split_ifs with hin
    · obtain hlt | hgt : r.keyRowIndex.toNat < lines.length ∨
          lines.length < r.keyRowIndex.toNat := by omega
      · exact (List.getElem?_append_left hlt).symm
      · rw [List.getElem?_eq_none hgt.le, List.getElem?_eq_none]
        rw [List.length_append, List.length_singleton]
        omega
    · rfl

theorem readHeader_append_iff (windows : Bool) {r : HSConfigReader} (hd : r.delimiters ≠ [])
    (hnew : r.headerRow = []) (hline : newline ∉ line) {lines : List (List UInt8)}
    (hlines : (lines ++ [line]).length ≤ r.headerRows) :
    readHeader windows r (headerLine r lines) =
        readHeader windows r (headerLine r (lines ++ [line])) ↔
      (r.keyRowIndex = lines.length → ¬ HasCells windows r.delimiters line) := by
  obtain ⟨hkeyed, hother⟩ := headerLine_append hlines
  by_cases hkey : r.keyRowIndex = lines.length
  · obtain ⟨hnone, hsome⟩ := hkeyed hkey
    have hcut : readHeader windows r none = readHeader windows r (some line) ↔
        (cutLine windows r.delimiters line []).2 = [] := by
      rw [readHeader, readHeader, Option.elim_none, Option.elim_some, hnew]
      exact eq_comm
    rw [hnone, hsome, imp_iff_right hkey, hcut, ← cutLine_ne_nil_iff windows hd hline, not_not]
  · rw [hother hkey]
    exact iff_of_true rfl fun h => absurd h hkey

theorem readData_of_header (windows : Bool) {r : HSConfigReader} (hnew : r.dataRows = [])
    {lines : List (List UInt8)} (hlines : lines.length ≤ r.headerRows.toNat) :
    readData windows r (dataLines r lines) = [] := by
  have hdrop : dataLines r lines = [] := List.drop_eq_nil_iff.mpr hlines
  rw [readData, hdrop, hnew]
  rfl

theorem readData_append_ne (windows : Bool) {r : HSConfigReader} {lines : List (List UInt8)}
    (hlines : r.headerRows.toNat ≤ lines.length) :
    readData windows r (dataLines r lines) ≠
      readData windows r (dataLines r (lines ++ [line])) := by
  intro hrows
  have hlen := congrArg List.length hrows
  simp only [readData, dataLines, List.length_append, List.length_map, List.length_drop,
    List.length_singleton] at hlen
  omega

/-- A newline at the end changes what is read unless the last line is one of the header and none of
its cells is kept. -/
theorem loadConfig_unterminated_iff (windows : Bool) (headerRows keyRowIndex : ℤ)
    (hd : delimiters ≠ []) (content : List UInt8) :
    let fresh := new headerRows keyRowIndex delimiters
    ∃ r r', fresh.loadConfig windows (some content) = .ok (true, r) ∧
      fresh.loadConfig windows (some (content ++ [newline])) = .ok (true, r') ∧
      ((r.headerRow = r'.headerRow ∧ r.dataRows = r'.dataRows ∧
          r.dataRows.length = lineCount content - headerRows.toNat) ↔
        lineCount content ≤ headerRows ∧
          (keyRowIndex = lineCount content - 1 →
            ¬ HasCells windows delimiters (lastLine content))) := by
  intro fresh
  refine ⟨_, _, loadConfig_eq (r := fresh) hd content, loadConfig_eq (r := fresh) hd _, ?_⟩
  have hlines := splitOn_eq_append_lastLine content
  have hlast : newline ∉ lastLine content :=
    newline_notMem_of_mem_splitOn (hlines ▸ List.mem_append_right _ (List.mem_singleton_self _))
  have hcount : lineCount content = (getLines content ++ [lastLine content]).length := by
    rw [lineCount, hlines]
  have hpos : lineCount content = (getLines content).length + 1 := by
    rw [hcount, List.length_append, List.length_singleton]
  rw [getLines_append_newline, hlines]
  dsimp only
  by_cases hheader : lineCount content ≤ headerRows
  · -- no line is a data line, in either file
    have hrows : readData windows fresh (dataLines fresh (getLines content)) = [] :=
      readData_of_header windows rfl (by dsimp only [fresh, new]; omega)
    have hrows' : readData windows fresh (dataLines fresh (getLines content ++
        [lastLine content])) = [] :=
      readData_of_header windows rfl (by dsimp only [fresh, new]; omega)
    have hnone : ([] : List DataRow).length = lineCount content - headerRows.toNat := by
      rw [List.length_nil]
      omega
    have hkey : keyRowIndex = lineCount content - 1 ↔
        fresh.keyRowIndex = (getLines content).length := by
      dsimp only [fresh, new]
      omega
    rw [hrows, hrows', and_iff_left ⟨rfl, hnone⟩, and_iff_right hheader, hkey]
    exact readHeader_append_iff windows hd rfl hlast (hcount ▸ hheader)
  · -- the last line is a data line, and is kept in one file only
    have hrows := @readData_append_ne (lastLine content) windows fresh (getLines content)
      (by dsimp only [fresh, new]; omega)
    exact iff_of_false (fun h => hrows h.2.1) fun h => hheader h.1

theorem loadConfig_unterminated_header :
    ∃ r r', (new 3 0 [44]).loadConfig false (some [107, 44, newline, 120]) = .ok (true, r) ∧
      (new 3 0 [44]).loadConfig false (some ([107, 44, newline, 120] ++ [newline])) =
        .ok (true, r') ∧ r.headerRow = r'.headerRow ∧ r.dataRows = r'.dataRows := by
  obtain ⟨r, r', hload, hload', hiff⟩ := loadConfig_unterminated_iff false 3 0
    (@List.cons_ne_nil UInt8 44 []) [107, 44, newline, 120]
  have hcount : lineCount [107, 44, newline, 120] = 2 := by decide
  have hkey : (0 : ℤ) ≠ (2 : ℕ) - 1 := by decide
  rw [hcount] at hiff
  obtain ⟨hheader, hrows, -⟩ := hiff.mpr ⟨by decide, fun h => absurd h hkey⟩
  exact ⟨r, r', hload, hload', hheader, hrows⟩

theorem loadConfig_unterminated :
    ¬ ∀ r r', (new 1 0 [44]).loadConfig false (some [107, 44, newline, 49, 44]) = .ok (true, r) →
      (new 1 0 [44]).loadConfig false (some ([107, 44, newline, 49, 44] ++ [newline])) =
        .ok (true, r') → r.headerRow = r'.headerRow ∧ r.dataRows = r'.dataRows := by
  intro h
  obtain ⟨-, hrows⟩ := h ⟨1, 0, [44], [[107]], []⟩ ⟨1, 0, [44], [[107]], [[[49]]]⟩ (by decide)
    (by decide)
  cases hrows

end HsCommon.HSConfigReader
