import HsCommon.ConfigLines
import HsCommon.ConfigValues
import HsCommon.Library.Outcome

/-!
# Files whose rows have cells

In a sound file every row has cells, the indexes lead to rows and to columns that an `unsigned int`
can number, and the values that have been made of a row are those of its cells. Both ways of looking
up then read the same cell and no vector behind its end. The rows a load adds are those of its
lines, so a load leaves a sound file sound unless a line has no cell, and then it reads behind the
end.
-/

namespace HsCommon

namespace HSConfigReader.DataRow

def read (row : DataRow) : DataRow :=
  (List.range row.length).map fun i => row.getD (i % 2 ^ 32) []

@[simp] theorem length_read (row : DataRow) : row.read.length = row.length := by
  rw [read, List.length_map, List.length_range]

theorem getElem?_mod {row : DataRow} {i : ℕ} (hi : i < row.length) :
    row[i % 2 ^ 32]? = row.read[i]? := by
  have hlt : i % 2 ^ 32 < row.length := (Nat.mod_le _ _).trans_lt hi
  rw [read, List.getElem?_map, List.getElem?_range hi, Option.map_some, List.getD_eq_getElem?_getD,
    List.getElem?_eq_getElem hlt]
  rfl

theorem getElem?_read (row : DataRow) {i : ℕ} (hi : i < 2 ^ 32) : row.read[i]? = row[i]? := by
  by_cases hlt : i < row.length
  · rw [← getElem?_mod hlt, Nat.mod_eq_of_lt hi]
  · rw [List.getElem?_eq_none, List.getElem?_eq_none]
    · omega
    · rw [length_read]
      omega

theorem read_eq {row : DataRow} (h : row.length ≤ 2 ^ 32) : row.read = row := by
  apply List.ext_getElem?
  intro i
  by_cases hi : i < 2 ^ 32
  · exact getElem?_read row hi
  · rw [List.getElem?_eq_none, List.getElem?_eq_none]
    · omega
    · rw [length_read]
      omega

theorem findIdx?_read_lt {row : DataRow} {p : List UInt8 → Bool} {i : ℕ}
    (h : row.read.findIdx? p = some i) : i < 2 ^ 32 := by
  obtain ⟨hlt, hp, hfirst⟩ := List.findIdx?_eq_some_iff_getElem.mp h
  by_contra hge
  have hmod := Nat.mod_lt i (show 0 < 2 ^ 32 by decide)
  have hsame : row.read[i % 2 ^ 32]? = row.read[i]? := by
    rw [getElem?_read row hmod, getElem?_mod (by rwa [length_read] at hlt)]
  have hlow : i % 2 ^ 32 < row.read.length := by omega
  rw [List.getElem?_eq_getElem hlow, List.getElem?_eq_getElem hlt, Option.some.injEq] at hsame
  refine hfirst (i % 2 ^ 32) (by omega) ?_
  rw [hsame]
  exact hp

end HSConfigReader.DataRow

namespace HSConfigFile
open Outcome
variable {K Double : Type}

structure Empty (f : HSConfigFile K Double) : Prop where
  header : f.reader.headerRow = []
  rows : f.reader.dataRows = []
  columns : f.header2Index = []
  keys : f.dataKey2Index = []
  data : f.dataKey2Data = []

theorem empty_new (keyField : List UInt8) : (new keyField : HSConfigFile K Double).Empty :=
  ⟨rfl, rfl, rfl, rfl, rfl⟩

theorem empty_clear (f : HSConfigFile K Double) : f.clear.Empty := ⟨rfl, rfl, rfl, rfl, rfl⟩

theorem Empty.reader_clear {f : HSConfigFile K Double} (h : f.Empty) :
    f.reader.clear = f.reader := by
  obtain ⟨⟨_, _, _, header, rows⟩, _, _, _, _⟩ := f
  obtain ⟨hheader, hrows, -, -, -⟩ := h
  dsimp only at hheader hrows
  rw [hheader, hrows, HSConfigReader.clear]

def cellAt (f : HSConfigFile K Double) (data : HSConfigReader.DataRow)
    (field : Option (List UInt8)) : Option (List UInt8) := do
  let name ← field
  let i ← Table.get f.header2Index name
  let cell ← data[i]?
  return cStr cell

theorem cellAt_named {f : HSConfigFile K Double} {name : List UInt8} {i : ℕ}
    (h : Table.get f.header2Index name = some i) (data : HSConfigReader.DataRow) :
    f.cellAt data (some name) = data[i]?.map cStr := by
  simp only [cellAt, h, Option.bind_eq_bind, Option.bind_some]
  cases data[i]? with
  | none => rfl
  | some cell => rfl

theorem cellAt_unnamed {f : HSConfigFile K Double} {name : List UInt8}
    (h : Table.get f.header2Index name = none) (data : HSConfigReader.DataRow) :
    f.cellAt data (some name) = none := by
  simp only [cellAt, h, Option.bind_eq_bind, Option.bind_some, Option.bind_none]

def ValuesOf (values : List (HSValue Double)) (data : HSConfigReader.DataRow) : Prop :=
  values = [] ∨ values.map HSValue.strValue = data.read.map cStr

section keys
variable [DecidableEq K]

def cellOf (f : HSConfigFile K Double) (k : K) (field : Option (List UInt8)) :
    Option (List UInt8) := do
  let i ← Table.get f.dataKey2Index k
  let data ← f.reader.dataRows[i]?
  f.cellAt data field

structure Sound (f : HSConfigFile K Double) : Prop where
  filled : ∀ data ∈ f.reader.dataRows, data ≠ []
  columns : ∀ name i, Table.get f.header2Index name = some i → i < 2 ^ 32
  first : f.header2Index ≠ [] → ∃ name, Table.get f.header2Index name = some 0
  keys : ∀ k i, Table.get f.dataKey2Index k = some i → i < f.reader.dataRows.length
  cached : ∀ k row, Table.get f.dataKey2Data k = some row →
    Table.get f.dataKey2Index k = some row.dataRow
  values : ∀ k row, Table.get f.dataKey2Data k = some row →
    ∀ data, f.reader.dataRows[row.dataRow]? = some data → ValuesOf row.hsValues data

/-- The rows are the same, and what is found of them. -/
structure SameTable (f f' : HSConfigFile K Double) : Prop where
  rows : f'.reader.dataRows = f.reader.dataRows
  header : f'.header2Index = f.header2Index
  index : f'.dataKey2Index = f.dataKey2Index

theorem SameTable.cellOf {f f' : HSConfigFile K Double} (h : SameTable f f') (k : K)
    (field : Option (List UInt8)) : f'.cellOf k field = f.cellOf k field := by
  simp only [HSConfigFile.cellOf, cellAt, h.rows, h.header, h.index]

theorem sound_of_empty {f : HSConfigFile K Double} (h : f.Empty) : f.Sound := by
  obtain ⟨-, hrows, hcolumns, hkeys, hdata⟩ := h
  constructor
  · intro data hin
    rw [hrows] at hin
    cases hin
  · intro name i hget
    rw [hcolumns] at hget
    cases hget
  · intro hne
    exact absurd hcolumns hne
  · intro k i hget
    rw [hkeys] at hget
    cases hget
  · intro k row hget
    rw [hdata] at hget
    cases hget
  · intro k row hget
    rw [hdata] at hget
    cases hget

variable {f : HSConfigFile K Double}

theorem Sound.row (h : f.Sound) {k : K} {i : ℕ} (hget : Table.get f.dataKey2Index k = some i) :
    ∃ data, f.reader.dataRows[i]? = some data ∧ data ≠ [] := by
  have hlt := h.keys k i hget
  exact ⟨_, List.getElem?_eq_getElem hlt, h.filled _ (List.getElem_mem hlt)⟩

theorem Sound.getDataRow (h : f.Sound) (k : K) :
    ∃ row f', f.getDataRow k = .ok (row, f') ∧ f'.Sound ∧ SameTable f f' ∧
      row.map DataRow.dataRow = Table.get f.dataKey2Index k ∧
      Table.get f'.dataKey2Data k = row := by
  cases hdata : Table.get f.dataKey2Data k with
  | some row =>
    refine ⟨some row, f, ?_, h, ⟨rfl, rfl, rfl⟩, ?_, hdata⟩
    · rw [HSConfigFile.getDataRow, hdata]
    · rw [h.cached k row hdata, Option.map_some]
  | none =>
    cases hkey : Table.get f.dataKey2Index k with
    | none =>
      refine ⟨none, f, ?_, h, ⟨rfl, rfl, rfl⟩, rfl, hdata⟩
      simp only [HSConfigFile.getDataRow, hdata, hkey]
    | some i =>
      obtain ⟨data, hrow, -⟩ := h.row hkey
      have hne : f.reader.dataRows ≠ [] := List.ne_nil_of_mem (List.mem_of_getElem? hrow)
      have hread : f.reader.getDataRow i = .ok (some data) := by
        rw [HSConfigReader.getDataRow_eq hne, hrow]
      have hnew : ∀ k' row, Table.get (Table.insert f.dataKey2Data k ⟨i, []⟩) k' = some row →
          Table.get f.dataKey2Data k' = some row ∨ k' = k ∧ row = ⟨i, []⟩ := by
        intro k' row hget
        rw [Table.get_insert] at hget
        cases hold : Table.get f.dataKey2Data k' with
        | some row' =>
          rw [hold, Option.some_or] at hget
          exact Or.inl hget
        | none =>
          rw [hold, Option.none_or] at hget
          split_ifs at hget with hk
          exact Or.inr ⟨hk, (Option.some.inj hget).symm⟩
      refine ⟨some ⟨i, []⟩, { f with dataKey2Data := Table.insert f.dataKey2Data k ⟨i, []⟩ }, ?_,
        ⟨h.filled, h.columns, h.first, h.keys, ?_, ?_⟩, ⟨rfl, rfl, rfl⟩, rfl, ?_⟩
      · simp only [HSConfigFile.getDataRow, hdata, hkey, hread, bind, Except.bind, pure,
          Except.pure]
      · intro k' row hget
        rcases hnew k' row hget with hold | ⟨rfl, rfl⟩
        · exact h.cached k' row hold
        · exact hkey
      · intro k' row hget
        rcases hnew k' row hget with hold | ⟨rfl, rfl⟩
        · exact h.values k' row hold
        · exact fun _ _ => Or.inl rfl
      · rw [Table.get_insert, hdata, Option.none_or, if_pos rfl]

theorem Sound.getValue (h : f.Sound) {row : DataRow Double} {data : HSConfigReader.DataRow}
    (hdata : f.reader.dataRows[row.dataRow]? = some data) (field : Option (List UInt8)) :
    f.getValue row field = .ok (f.cellAt data field) := by
  cases field with
  | none => rfl
  | some name =>
    cases hcolumn : Table.get f.header2Index name with
    | none =>
      simp only [HSConfigFile.getValue, hcolumn, cellAt_unnamed hcolumn]
    | some i =>
      have hne := h.filled data (List.mem_of_getElem? hdata)
      simp only [HSConfigFile.getValue, hcolumn, dataOf, hdata, bind, Except.bind]
      rw [HSConfigReader.DataRow.getFieldByIndex_eq hne,
        Nat.mod_eq_of_lt (h.columns name i hcolumn), cellAt_named hcolumn]

theorem Sound.getData (h : f.Sound) (k : K) (field : Option (List UInt8)) :
    ∃ f', f.getData k field = .ok (f.cellOf k field, f') ∧ f'.Sound ∧ SameTable f f' := by
  obtain ⟨row, f', hrow, hsound, hsame, hplace, -⟩ := h.getDataRow k
  refine ⟨f', ?_, hsound, hsame⟩
  rw [← hsame.cellOf, cellOf, hsame.index, ← hplace, HSConfigFile.getData, hrow]
  cases row with
  | none => rfl
  | some row =>
    obtain ⟨data, hdata, -⟩ := h.row hplace.symm
    rw [← hsame.rows] at hdata
    simp only [bind, Except.bind, hsound.getValue hdata field, Option.map_some, Option.bind_some,
      hdata]
    rfl

omit [DecidableEq K] in
theorem fillValues_eq [Zero Double] {data : HSConfigReader.DataRow} (hne : data ≠ []) :
    (fillValues data : Except Fault (List (HSValue Double))) =
      .ok (data.read.map fun cell => HSValue.new (cStr cell)) := by
  have hcell : ∀ i ∈ List.range data.length, (valueAt data i : Except Fault (HSValue Double)) =
      .ok (HSValue.new (cStr (data.getD (i % 2 ^ 32) []))) := by
    intro i hi
    have hlt : i % 2 ^ 32 < data.length := (Nat.mod_le _ _).trans_lt (List.mem_range.mp hi)
    rw [valueAt, HSConfigReader.DataRow.getFieldByIndex_eq hne, List.getD_eq_getElem?_getD,
      List.getElem?_eq_getElem hlt]
    rfl
  rw [fillValues, HSConfigReader.DataRow.getFieldSize, mapM_eq_map hcell,
    HSConfigReader.DataRow.read, List.map_map]
  rfl

omit [DecidableEq K] in
theorem valuesOf_made [Zero Double] {row : DataRow Double} {data : HSConfigReader.DataRow}
    (hne : data ≠ []) (hvalues : ValuesOf row.hsValues data) :
    ∃ values, valuesOf row data = .ok values ∧
      values.map HSValue.strValue = data.read.map cStr := by
  rw [valuesOf]
  split_ifs with hempty
  · refine ⟨_, fillValues_eq hne, ?_⟩
    rw [List.map_map]
    rfl
  · refine ⟨row.hsValues, rfl, hvalues.resolve_left ?_⟩
    intro hnil
    exact hempty ⟨by rw [hnil, List.length_nil], List.length_pos_iff.mpr hne⟩

theorem Sound.getValueOf [Zero Double] (h : f.Sound) {row : DataRow Double}
    {data : HSConfigReader.DataRow} (hdata : f.reader.dataRows[row.dataRow]? = some data)
    (hvalues : ValuesOf row.hsValues data) (field : Option (List UInt8)) :
    ∃ value values, f.getValueOf row field = .ok (value, { row with hsValues := values }) ∧
      ValuesOf values data ∧ value.map HSValue.strValue = f.cellAt data field ∧
      ∀ v, value = some v → ∃ name i, field = some name ∧
        Table.get f.header2Index name = some i ∧ values[i]? = some v := by
  cases field with
  | none => exact ⟨none, row.hsValues, rfl, hvalues, rfl, fun v hv => by cases hv⟩
  | some name =>
    have hne := h.filled data (List.mem_of_getElem? hdata)
    obtain ⟨values, hmade, hread⟩ := valuesOf_made hne hvalues
    have hmany : values ≠ [] := by
      intro hnil
      have hlen := congrArg List.length hread
      rw [hnil, List.length_map, List.length_map, HSConfigReader.DataRow.length_read] at hlen
      exact hne (List.length_eq_zero_iff.mp hlen.symm)
    simp only [HSConfigFile.getValueOf, dataOf, hdata, bind, Except.bind, hmade]
    cases hcolumn : Table.get f.header2Index name with
    | none =>
      exact ⟨none, values, rfl, Or.inr hread, (cellAt_unnamed hcolumn data).symm,
        fun v hv => by cases hv⟩
    | some i =>
      have hcell : values[i]?.map HSValue.strValue = f.cellAt data (some name) := by
        rw [cellAt_named hcolumn, ← List.getElem?_map, hread, List.getElem?_map,
          HSConfigReader.DataRow.getElem?_read data (h.columns name i hcolumn)]
      simp only [lastIndex_lt_iff hmany]
      cases hvalue : values[i]? with
      | none =>
        rw [hvalue] at hcell
        exact ⟨none, values, rfl, Or.inr hread, hcell, fun v hv => by cases hv⟩
      | some v =>
        rw [hvalue] at hcell
        refine ⟨some v, values, rfl, Or.inr hread, hcell, ?_⟩
        intro v' hv
        exact ⟨name, i, rfl, hcolumn, hvalue.trans hv⟩

theorem Sound.assign (h : f.Sound) {k : K} {row : DataRow Double} {values : List (HSValue Double)}
    (hcached : Table.get f.dataKey2Data k = some row)
    (hmade : ∀ data, f.reader.dataRows[row.dataRow]? = some data → ValuesOf values data) :
    Sound { f with
      dataKey2Data := Table.assign f.dataKey2Data k { row with hsValues := values } } := by
  have hput : ∀ k' r, Table.get (Table.assign f.dataKey2Data k
      { row with hsValues := values }) k' = some r →
      Table.get f.dataKey2Data k' = some r ∨ k' = k ∧ r = { row with hsValues := values } := by
    intro k' r hget
    rw [Table.get_assign] at hget
    split_ifs at hget with hk
    · obtain ⟨_, -, rfl⟩ := Option.map_eq_some_iff.mp hget
      exact Or.inr ⟨hk, rfl⟩
    · exact Or.inl hget
  refine ⟨h.filled, h.columns, h.first, h.keys, ?_, ?_⟩
  · intro k' r hget
    rcases hput k' r hget with hold | ⟨rfl, rfl⟩
    · exact h.cached k' r hold
    · exact h.cached k' row hcached
  · intro k' r hget data hdata
    rcases hput k' r hget with hold | ⟨rfl, rfl⟩
    · exact h.values k' r hold data hdata
    · exact hmade data hdata

theorem Sound.getHSValue [Zero Double] (h : f.Sound) (k : K) (field : Option (List UInt8)) :
    ∃ value f', f.getHSValue k field = .ok (value, f') ∧ f'.Sound ∧ SameTable f f' ∧
      value.map HSValue.strValue = f.cellOf k field ∧
      ∀ v, value = some v → ∃ row name i, Table.get f'.dataKey2Data k = some row ∧
        field = some name ∧ Table.get f'.header2Index name = some i ∧
        row.hsValues[i]? = some v := by
  obtain ⟨row, f', hrow, hsound, hsame, hplace, hcached⟩ := h.getDataRow k
  rw [← hsame.cellOf, cellOf, hsame.index, ← hplace, HSConfigFile.getHSValue, hrow]
  cases row with
  | none => exact ⟨none, f', rfl, hsound, hsame, rfl, fun v hv => by cases hv⟩
  | some row =>
    obtain ⟨data, hdata, -⟩ := h.row hplace.symm
    rw [← hsame.rows] at hdata
    obtain ⟨value, values, hvalue, hmade, hcell, hkept⟩ := hsound.getValueOf hdata
      (hsound.values k row hcached data hdata) field
    have hassign := @Sound.assign K Double _ f' hsound k row values hcached (by
      intro data' hdata'
      obtain rfl := Option.some.inj (hdata.symm.trans hdata')
      exact hmade)
    refine ⟨value, { f' with
      dataKey2Data := Table.assign f'.dataKey2Data k { row with hsValues := values } }, ?_,
      hassign, ⟨hsame.rows, hsame.header, hsame.index⟩, ?_, ?_⟩
    · simp only [bind, Except.bind, hvalue]
      rfl
    · rw [hcell, Option.map_some, Option.bind_eq_bind, Option.bind_some, hdata]
      rfl
    · intro v hv
      obtain ⟨name, i, hfield, hcolumn, hget⟩ := hkept v hv
      refine ⟨{ row with hsValues := values }, name, i, ?_, hfield, hcolumn, hget⟩
      rw [Table.get_assign, if_pos rfl, hcached, Option.map_some]

variable {windows : Bool} {traits : HSKeyTraits K}

def noteColumn (keyField : List UInt8) (s : ℕ × List (List UInt8 × ℕ)) (p : List UInt8 × ℕ) :
    ℕ × List (List UInt8 × ℕ) :=
  (if decide (cStr p.1 = cStr keyField) then p.2 else s.1,
    Table.index (fun c => some (cStr c)) s.2 p)

theorem indexColumns_eq {header seen : HSConfigReader.DataRow} (hlen : seen.length = header.length)
    (hseen : ∀ i (hi : i < seen.length), header[i % 2 ^ 32]?.map cStr = some (cStr seen[i]))
    (keyField : List UInt8) (t : List (List UInt8 × ℕ)) :
    ∃ columns, (List.range header.getFieldSize).foldlM (indexColumn keyField header) (0, t) =
        .ok ((Table.lastIdx (fun c => decide (cStr c = cStr keyField)) seen).getD 0, columns) ∧
      ∀ name, Table.get columns name =
        (Table.get t name).or (seen.findIdx? fun c => cStr c = name) := by
  have hround : ∀ s i (hi : i < seen.length), indexColumn keyField header s i =
      .ok (noteColumn keyField s (seen[i], i)) := by
    intro s i hi
    have hne : header ≠ [] := List.ne_nil_of_length_pos (hlen ▸ Nat.zero_lt_of_lt hi)
    rw [indexColumn, HSConfigReader.DataRow.getFieldByIndex_eq hne, hseen i hi, noteColumn]
    simp [Table.index, bind, Except.bind, pure, Except.pure]
  refine ⟨seen.zipIdx.foldl (Table.index fun c => some (cStr c)) t, ?_, ?_⟩
  · rw [HSConfigReader.DataRow.getFieldSize, ← hlen, Table.foldlM_range hround,
      ← Table.foldl_lastIdx]
    exact congrArg Except.ok (Table.foldl_both
      (fun a (p : List UInt8 × ℕ) => if decide (cStr p.1 = cStr keyField) then p.2 else a)
      (Table.index fun c => some (cStr c)) seen.zipIdx 0 t)
  · intro name
    rw [Table.get_index]
    simp

theorem indexRows_eq {reader : HSConfigReader} (hrows : ∀ row ∈ reader.dataRows, row ≠ [])
    (keyIndex : ℕ) (t : List (K × ℕ)) :
    ∃ keys, (List.range reader.getDataRowsNum).foldlM (indexRow traits reader keyIndex) t =
        .ok keys ∧
      ∀ k, Table.get keys k = (Table.get t k).or (reader.dataRows.findIdx? fun row =>
        (row[keyIndex % 2 ^ 32]?.map fun cell => traits.toKey (cStr cell)) = some k) := by
  have hround : ∀ t i (hi : i < reader.dataRows.length), indexRow traits reader keyIndex t i =
      .ok (Table.index (fun row => row[keyIndex % 2 ^ 32]?.map fun cell => traits.toKey (cStr cell))
        t (reader.dataRows[i], i)) := by
    intro t i hi
    have hne : reader.dataRows ≠ [] := List.ne_nil_of_mem (List.getElem_mem hi)
    have hrow := hrows _ (List.getElem_mem hi)
    rw [indexRow, HSConfigReader.getDataRow_eq hne, List.getElem?_eq_getElem hi]
    simp only [bind, Except.bind, HSConfigReader.DataRow.getFieldByIndex_eq hrow, Table.index]
    cases reader.dataRows[i][keyIndex % 2 ^ 32]? with
    | none => rfl
    | some cell => rfl
  refine ⟨_, Table.foldlM_range hround t, ?_⟩
  intro k
  rw [Table.get_index]
  simp

theorem load_eq {f : HSConfigFile K Double} {file : Option (List UInt8)} {reader : HSConfigReader}
    {keyIndex : ℕ} {columns : List (List UInt8 × ℕ)} {keys : List (K × ℕ)}
    (hread : f.reader.loadConfig windows file = .ok (true, reader))
    (hcolumns : (List.range reader.headerRow.getFieldSize).foldlM
      (indexColumn f.keyField reader.headerRow) (0, f.header2Index) = .ok (keyIndex, columns))
    (hkeys : (List.range reader.getDataRowsNum).foldlM (indexRow traits reader keyIndex)
      f.dataKey2Index = .ok keys) :
    f.load windows traits file =
      .ok (true, { f with reader, header2Index := columns, dataKey2Index := keys }) := by
  simp only [load, hread, bind, Except.bind, if_true, hcolumns, hkeys, pure, Except.pure]

def keyIndexOf (keyField : List UInt8) (header : HSConfigReader.DataRow) : ℕ :=
  (Table.lastIdx (fun c => decide (cStr c = cStr keyField)) header.read).getD 0

def keyAt (traits : HSKeyTraits K) (keyIndex : ℕ) (row : HSConfigReader.DataRow) : Option K :=
  row[keyIndex % 2 ^ 32]?.map fun cell => traits.toKey (cStr cell)

omit [DecidableEq K] in
theorem indexColumns_read (f : HSConfigFile K Double) (header : HSConfigReader.DataRow) :
    ∃ columns, (List.range header.getFieldSize).foldlM (indexColumn f.keyField header)
        (0, f.header2Index) = .ok (keyIndexOf f.keyField header, columns) ∧
      ∀ name, Table.get columns name =
        (Table.get f.header2Index name).or (header.read.findIdx? fun c => cStr c = name) := by
  have hread : ∀ i (hi : i < header.read.length),
      header[i % 2 ^ 32]?.map cStr = some (cStr header.read[i]) := by
    intro i hi
    rw [HSConfigReader.DataRow.getElem?_mod (by rwa [HSConfigReader.DataRow.length_read] at hi),
      List.getElem?_eq_getElem hi]
    rfl
  exact indexColumns_eq (HSConfigReader.DataRow.length_read header) hread f.keyField f.header2Index

theorem load_read {file : Option (List UInt8)} {reader : HSConfigReader}
    (hread : f.reader.loadConfig windows file = .ok (true, reader))
    (hrows : ∀ row ∈ reader.dataRows, row ≠ []) :
    ∃ columns keys, f.load windows traits file = .ok (true,
        { f with reader, header2Index := columns, dataKey2Index := keys }) ∧
      (∀ name, Table.get columns name = (Table.get f.header2Index name).or
        (reader.headerRow.read.findIdx? fun c => cStr c = name)) ∧
      ∀ k, Table.get keys k = (Table.get f.dataKey2Index k).or (reader.dataRows.findIdx? fun row =>
        keyAt traits (keyIndexOf f.keyField reader.headerRow) row = some k) := by
  obtain ⟨columns, hcolumns, hnames⟩ := indexColumns_read f reader.headerRow
  obtain ⟨keys, hkeys, hfirst⟩ := @indexRows_eq K _ traits reader hrows
    (keyIndexOf f.keyField reader.headerRow) f.dataKey2Index
  exact ⟨columns, keys, load_eq hread hcolumns hkeys, hnames, hfirst⟩

theorem Sound.grow (h : f.Sound) {reader : HSConfigReader}
    (hbehind : f.reader.dataRows <+: reader.dataRows) (hrows : ∀ row ∈ reader.dataRows, row ≠ []) :
    Sound { f with reader } := by
  refine ⟨hrows, h.columns, h.first, ?_, h.cached, ?_⟩
  · intro k i hget
    exact (h.keys k i hget).trans_le hbehind.length_le
  · intro k row hget data hdata
    have hlt := h.keys k row.dataRow (h.cached k row hget)
    obtain ⟨more, hmore⟩ := hbehind
    rw [← hmore, List.getElem?_append_left hlt] at hdata
    exact h.values k row hget data hdata

theorem Sound.index (h : f.Sound) {columns : List (List UInt8 × ℕ)} {keys : List (K × ℕ)}
    {p : HSConfigReader.DataRow → K → Bool}
    (hnames : ∀ name, Table.get columns name = (Table.get f.header2Index name).or
      (f.reader.headerRow.read.findIdx? fun c => cStr c = name))
    (hkeys : ∀ k, Table.get keys k = (Table.get f.dataKey2Index k).or
      (f.reader.dataRows.findIdx? fun row => p row k)) :
    Sound { f with header2Index := columns, dataKey2Index := keys } := by
  refine ⟨h.filled, ?_, ?_, ?_, ?_, h.values⟩
  · intro name i hget
    rw [hnames, Option.or_eq_some_iff] at hget
    rcases hget with hold | ⟨-, hnew⟩
    · exact h.columns name i hold
    · exact HSConfigReader.DataRow.findIdx?_read_lt hnew
  · intro hne
    by_cases hold : f.header2Index = []
    · obtain ⟨name, i, hget⟩ := Table.exists_get_of_ne_nil hne
      rw [hnames, hold, Table.get_nil, Option.none_or] at hget
      -- the first column is there, and is the first one of its name
      obtain ⟨hlt, -⟩ := List.findIdx?_eq_some_iff_getElem.mp hget
      obtain ⟨c, rest, hheader⟩ := List.exists_cons_of_length_pos (Nat.zero_lt_of_lt hlt)
      refine ⟨cStr c, ?_⟩
      rw [hnames, hold, hheader, Table.get_nil, Option.none_or, List.findIdx?_cons]
      simp
    · obtain ⟨name, hget⟩ := h.first hold
      exact ⟨name, by rw [hnames, hget, Option.some_or]⟩
  · intro k i hget
    rw [hkeys, Option.or_eq_some_iff] at hget
    rcases hget with hold | ⟨-, hnew⟩
    · exact h.keys k i hold
    · exact (List.findIdx?_eq_some_iff_getElem.mp hnew).1
  · intro k row hget
    rw [hkeys, h.cached k row hget, Option.some_or]

/-- Every data line of the file leaves a row with a cell. -/
def LinesHaveCells (windows : Bool) (f : HSConfigFile K Double) (file : Option (List UInt8)) :
    Prop :=
  ∀ content, file = some content →
    ∀ line ∈ f.reader.dataLines (HSConfigReader.getLines content),
      HSConfigReader.HasCells windows f.reader.delimiters line

theorem newline_notMem_of_mem_dataLines {reader : HSConfigReader} {content line : List UInt8}
    (h : line ∈ reader.dataLines (HSConfigReader.getLines content)) : newline ∉ line :=
  HSConfigReader.newline_notMem_of_mem_splitOn (List.mem_of_mem_dropLast (List.mem_of_mem_drop h))

theorem Sound.loadConfig (h : f.Sound) {file : Option (List UInt8)}
    (hcells : LinesHaveCells windows f file) :
    Ends (fun out => f.reader.dataRows <+: out.2.dataRows ∧ ∀ row ∈ out.2.dataRows, row ≠ [])
      (· = .outOfFuel) (f.reader.loadConfig windows file) := by
  cases file with
  | none => exact ⟨List.prefix_rfl, h.filled⟩
  | some content =>
    by_cases hd : f.reader.delimiters = []
    · have hround : ∀ (s : ℤ × HSConfigReader),
          ∀ line ∈ HSConfigReader.getLines content, s.2 = f.reader →
          Ends (fun s => s.2 = f.reader) (· = .outOfFuel)
            (HSConfigReader.readLine windows s line) := by
        intro ⟨count, r⟩ line _ hr
        obtain rfl : r = f.reader := hr
        have hforever : ∀ row, HSConfigReader.createDataRow windows [] line row =
            .error .outOfFuel := HSConfigReader.createDataRowFrom_nil windows line _
        rw [HSConfigReader.readLine, hd]
        dsimp only
        split_ifs
        · rw [hforever]
          rfl
        · rfl
        · rw [hforever]
          rfl
      refine (Ends.foldlM (P := fun s => s.2 = f.reader) hround rfl).bind ?_
      intro s hs
      change f.reader.dataRows <+: s.2.dataRows ∧ ∀ row ∈ s.2.dataRows, row ≠ []
      rw [hs]
      exact ⟨List.prefix_rfl, h.filled⟩
    · rw [HSConfigReader.loadConfig_eq hd]
      refine ⟨List.prefix_append _ _, ?_⟩
      intro row hrow
      rcases List.mem_append.mp hrow with hold | hnew
      · exact h.filled row hold
      · obtain ⟨line, hline, rfl⟩ := List.mem_map.mp hnew
        exact (HSConfigReader.cutLine_ne_nil_iff windows hd
          (newline_notMem_of_mem_dataLines hline)).mpr (hcells content rfl line hline)

theorem Sound.load (h : f.Sound) {file : Option (List UInt8)}
    (hcells : LinesHaveCells windows f file) :
    Ends (fun out => out.2.Sound) (· = .outOfFuel) (f.load windows traits file) := by
  have hread := h.loadConfig hcells
  cases hc : f.reader.loadConfig windows file with
  | error e =>
    rw [HSConfigFile.load, hc]
    exact hread.fault hc
  | ok out =>
    obtain ⟨opened, reader⟩ := out
    obtain ⟨hbehind, hrows⟩ := hread.result hc
    have hgrown := h.grow hbehind hrows
    cases opened with
    | false =>
      rw [HSConfigFile.load, hc]
      exact hgrown
    | true =>
      obtain ⟨columns, keys, hload, hnames, hkeys⟩ := @load_read K Double _ f windows traits file
        reader hc hrows
      rw [hload]
      exact hgrown.index hnames hkeys

omit [DecidableEq K] in
theorem getFieldByIndex_nil (index : ℕ) :
    HSConfigReader.DataRow.getFieldByIndex [] index = .error .overrun := by
  have hmod := Nat.mod_lt index (show 0 < 2 ^ 32 by decide)
  rw [HSConfigReader.DataRow.getFieldByIndex, lastIndex, if_neg]
  · rfl
  · rw [List.length_nil, if_pos rfl]
    omega

theorem indexRow_eq {reader : HSConfigReader} {i : ℕ} {row : HSConfigReader.DataRow}
    (hrow : reader.dataRows[i]? = some row) (keyIndex : ℕ) (t : List (K × ℕ)) :
    indexRow traits reader keyIndex t i = do
      match ← row.getFieldByIndex keyIndex with
      | none => return t
      | some key => return Table.insert t (traits.toKey key) i := by
  have hne : reader.dataRows ≠ [] := List.ne_nil_of_mem (List.mem_of_getElem? hrow)
  rw [indexRow, HSConfigReader.getDataRow_eq hne, hrow]
  rfl

theorem load_empty_row {file : Option (List UInt8)} {reader : HSConfigReader}
    (hread : f.reader.loadConfig windows file = .ok (true, reader))
    (hempty : [] ∈ reader.dataRows) : f.load windows traits file = .error .overrun := by
  obtain ⟨columns, hcolumns, -⟩ := indexColumns_read f reader.headerRow
  obtain ⟨i, hi, hrow⟩ := List.getElem_of_mem hempty
  have hround : ∀ t, ∀ i ∈ List.range reader.getDataRowsNum, Ends (fun _ => True) (· = .overrun)
      (indexRow traits reader (keyIndexOf f.keyField reader.headerRow) t i) := by
    intro t i hin
    have hlt : i < reader.dataRows.length := List.mem_range.mp hin
    rw [indexRow_eq (List.getElem?_eq_getElem hlt)]
    by_cases hne : reader.dataRows[i] = []
    · rw [hne, getFieldByIndex_nil]
      rfl
    · rw [HSConfigReader.DataRow.getFieldByIndex_eq hne]
      cases reader.dataRows[i][keyIndexOf f.keyField reader.headerRow % 2 ^ 32]? with
      | none => trivial
      | some cell => trivial
  have hbad : ∀ t, indexRow traits reader (keyIndexOf f.keyField reader.headerRow) t i =
      .error .overrun := by
    intro t
    rw [indexRow_eq (List.getElem?_eq_getElem hi), hrow, getFieldByIndex_nil]
    rfl
  have hkeys := foldlM_error hround (List.mem_range.mpr hi) hbad f.dataKey2Index
  simp only [HSConfigFile.load, hread, bind, Except.bind, if_true, hcolumns, hkeys]

theorem load_overrun {file : Option (List UInt8)} (hbad : ¬ LinesHaveCells windows f file) :
    f.load windows traits file = .error .overrun := by
  rw [LinesHaveCells] at hbad
  push Not at hbad
  obtain ⟨content, rfl, line, hline, hcells⟩ := hbad
  have hd : f.reader.delimiters ≠ [] := by
    intro hd
    exact hcells (Or.inl (hd ▸ List.nil_infix))
  have hrow : (HSConfigReader.cutLine windows f.reader.delimiters line []).2 = [] := by
    by_contra hne
    exact hcells ((HSConfigReader.cutLine_ne_nil_iff windows hd
      (newline_notMem_of_mem_dataLines hline)).mp hne)
  refine load_empty_row (HSConfigReader.loadConfig_eq hd content) ?_
  apply List.mem_append_right
  exact List.mem_map.mpr ⟨line, hline, hrow⟩

theorem sound_of_load {f' : HSConfigFile K Double} {file : Option (List UInt8)} {opened : Bool}
    (h : f.Sound) (hload : f.load windows traits file = .ok (opened, f')) : f'.Sound := by
  by_cases hcells : LinesHaveCells windows f file
  · exact (h.load hcells).result hload
  · rw [load_overrun hcells] at hload
    cases hload

end keys
end HSConfigFile
end HsCommon
