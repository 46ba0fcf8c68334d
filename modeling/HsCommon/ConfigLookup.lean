import HsCommon.ConfigSound
import HsCommon.Library.Runs

/-!
# Lookups against the table that was loaded

The table of a file is its header and rows as parsed, with the key field it was loaded under. A file
answers lookups as its table does, whatever has been looked up before, as long as the header has no
more columns than an `unsigned int` can number: the columns are counted by a `size_t` and read by an
`unsigned int`.
-/

namespace HsCommon

structure ConfigTable where
  keyField : List UInt8
  header : List (List UInt8)
  rows : List (List (List UInt8))

namespace ConfigTable
variable {K : Type} [DecidableEq K] (traits : HSKeyTraits K)

/-- The last column named like the key field, or the first column. -/
def keyColumn (t : ConfigTable) : ℕ :=
  (Table.lastIdx (fun column => decide (cStr column = cStr t.keyField)) t.header).getD 0

def column (t : ConfigTable) (name : List UInt8) : Option ℕ :=
  t.header.findIdx? fun column => cStr column = name

def keyOf (t : ConfigTable) (row : List (List UInt8)) : Option K :=
  row[t.keyColumn]?.map fun cell => traits.toKey (cStr cell)

def cell (t : ConfigTable) (row : List (List UInt8)) (field : Option (List UInt8)) :
    Option (List UInt8) := do
  let name ← field
  let i ← t.column name
  let cell ← row[i]?
  return cStr cell

def find (t : ConfigTable) (k : K) (field : Option (List UInt8)) : Option (List UInt8) := do
  let row ← t.rows.find? fun row => t.keyOf traits row = some k
  t.cell row field

def rowKey (t : ConfigTable) (row : HSConfigReader.DataRow) : Option K :=
  HSConfigFile.keyAt traits (HSConfigFile.keyIndexOf t.keyField t.header) row

def named (t : ConfigTable) (name : List UInt8) : Option ℕ :=
  (HSConfigReader.DataRow.read t.header).findIdx? fun c => cStr c = name

end ConfigTable

namespace HSConfigFile
variable {K Double : Type}

def tableOf (windows : Bool) (f : HSConfigFile K Double) (file : Option (List UInt8)) :
    Option ConfigTable :=
  match f.reader.reloadConfig windows file with
  | .ok (true, reader) => some ⟨f.keyField, reader.headerRow, reader.dataRows⟩
  | _ => none

section keys
variable [DecidableEq K] {windows : Bool} {traits : HSKeyTraits K}

structure Tabled (traits : HSKeyTraits K) (t : ConfigTable) (f : HSConfigFile K Double) :
    Prop where
  rows : f.reader.dataRows = t.rows
  columns : ∀ name, Table.get f.header2Index name = t.named name
  keys : ∀ k, Table.get f.dataKey2Index k = t.rows.findIdx? fun row => t.rowKey traits row = some k

variable {t : ConfigTable} {f f' : HSConfigFile K Double}

theorem Tabled.same (h : Tabled traits t f) (hsame : SameTable f f') : Tabled traits t f' := by
  obtain ⟨hrows, hcolumns, hkeys⟩ := h
  refine ⟨?_, ?_, ?_⟩
  · rw [hsame.rows, hrows]
  · rw [hsame.header]
    exact hcolumns
  · rw [hsame.index]
    exact hkeys

theorem load_tabled {windows : Bool} {file : Option (List UInt8)} {opened : Bool} (he : f.Empty)
    (h : f.load windows traits file = .ok (opened, f')) :
    ∀ t, (if opened then f.tableOf windows file else none) = some t → Tabled traits t f' := by
  intro t ht
  split_ifs at ht with hopened
  subst hopened
  have hcells : LinesHaveCells windows f file := by
    by_contra hcells
    rw [load_overrun hcells] at h
    cases h
  have hread := (sound_of_empty he).loadConfig hcells
  cases hc : f.reader.loadConfig windows file with
  | error e =>
    rw [load, hc] at h
    cases h
  | ok out =>
    obtain ⟨opened, reader⟩ := out
    cases opened with
    | false =>
      rw [load, hc] at h
      cases h
    | true =>
      obtain ⟨columns, keys, hload, hnames, hkeys⟩ := @load_read K Double _ f windows traits file
        reader hc (hread.result hc).2
      obtain ⟨-, rfl⟩ := Prod.mk.inj (Except.ok.inj (hload.symm.trans h))
      rw [tableOf, HSConfigReader.reloadConfig, he.reader_clear, hc] at ht
      obtain rfl := Option.some.inj ht
      refine ⟨rfl, ?_, ?_⟩
      · intro name
        rw [hnames, he.columns]
        rfl
      · intro k
        rw [hkeys, he.keys]
        rfl

structure Indexed (traits : HSKeyTraits K) (t : ConfigTable) (f : HSConfigFile K Double) :
    Prop where
  rows : f.reader.dataRows = t.rows
  columns : ∀ name, Table.get f.header2Index name = t.column name
  keys : ∀ k, Table.get f.dataKey2Index k =
    t.rows.findIdx? fun row => t.keyOf traits row = some k
  cached : ∀ k row, Table.get f.dataKey2Data k = some row →
    Table.get f.dataKey2Index k = some row.dataRow
  filled : ∀ row ∈ t.rows, row ≠ []
  narrow : t.header.length ≤ 2 ^ 32

theorem keyColumn_lt {t : ConfigTable} (h : t.header.length ≤ 2 ^ 32) : t.keyColumn < 2 ^ 32 := by
  rw [ConfigTable.keyColumn]
  cases hlast : Table.lastIdx (fun column => decide (cStr column = cStr t.keyField)) t.header with
  | none => exact Nat.two_pow_pos 32
  | some i => exact (Table.lastIdx_lt hlast).trans_le h

theorem Tabled.indexed (h : Tabled traits t f) (hsound : f.Sound)
    (hnarrow : t.header.length ≤ 2 ^ 32) : Indexed traits t f := by
  have hread := HSConfigReader.DataRow.read_eq hnarrow
  have hkey : keyIndexOf t.keyField t.header % 2 ^ 32 = t.keyColumn := by
    rw [keyIndexOf, hread]
    exact Nat.mod_eq_of_lt (keyColumn_lt hnarrow)
  refine ⟨h.rows, ?_, ?_, hsound.cached, h.rows ▸ hsound.filled, hnarrow⟩
  · intro name
    rw [h.columns, ConfigTable.named, hread]
    rfl
  · intro k
    simp only [h.keys, ConfigTable.rowKey, keyAt, hkey]
    rfl

theorem Indexed.same (h : Indexed traits t f) (hsound : f'.Sound) (hsame : SameTable f f') :
    Indexed traits t f' := by
  refine ⟨?_, ?_, ?_, hsound.cached, h.filled, h.narrow⟩
  · rw [hsame.rows, h.rows]
  · rw [hsame.header]
    exact h.columns
  · rw [hsame.index]
    exact h.keys

theorem Indexed.cellOf (h : Indexed traits t f) (k : K) (field : Option (List UInt8)) :
    f.cellOf k field = t.find traits k field := by
  have hcell : ∀ data, f.cellAt data field = t.cell data field := by
    intro data
    simp only [cellAt, ConfigTable.cell, h.columns]
  rw [ConfigTable.find, List.find?_eq_bind_findIdx?_getElem?, ← h.keys, HSConfigFile.cellOf]
  simp only [hcell, h.rows, Option.bind_eq_bind, Option.bind_assoc]

end keys
end HSConfigFile

inductive ConfigEvent (K : Type)
  | load (file : Option (List UInt8))
  | reload (file : Option (List UInt8))
  | clear
  | setKeyField (keyField : Option (List UInt8))
  | setDelimiters (delimiters : List UInt8)
  | setHeaderRows (rows : ℤ)
  | setKeyRowIndex (index : ℤ)
  | getDataRow (k : K)
  | getData (k : K) (field : Option (List UInt8))
  | getHSValue (k : K) (field : Option (List UInt8))

/-- A file object with the table of the last load, while it has been returned true and not been
cleared. -/
structure ConfigRun (K Double : Type) where
  file : HSConfigFile K Double
  loaded : Option ConfigTable

namespace ConfigRun
open Transition Outcome
variable {K Double : Type}

def start (keyField : List UInt8) : ConfigRun K Double := ⟨.new keyField, none⟩

variable [DecidableEq K] [Zero Double] (windows : Bool) (traits : HSKeyTraits K)

def exec (s : ConfigRun K Double) : ConfigEvent K → Except Fault (ConfigRun K Double)
  | .load file => do
    let (opened, f) ← s.file.load windows traits file
    return ⟨f, if opened then s.file.tableOf windows file else none⟩
  | .reload file => do
    let (opened, f) ← s.file.reload windows traits file
    return ⟨f, if opened then s.file.tableOf windows file else none⟩
  | .clear => .ok ⟨s.file.clear, none⟩
  | .setKeyField keyField => .ok { s with file := s.file.setKeyField keyField }
  | .setDelimiters delimiters => .ok { s with file := s.file.setDelimiters delimiters }
  | .setHeaderRows rows => .ok { s with file := s.file.setHeaderRows rows }
  | .setKeyRowIndex index => .ok { s with file := s.file.setKeyRowIndex index }
  | .getDataRow k => do
    let (_, f) ← s.file.getDataRow k
    return { s with file := f }
  | .getData k field => do
    let (_, f) ← s.file.getData k field
    return { s with file := f }
  | .getHSValue k field => do
    let (_, f) ← s.file.getHSValue k field
    return { s with file := f }

def Allowed (s : ConfigRun K Double) : ConfigEvent K → Prop
  | .load file => s.file.Empty ∧
    ∀ t, s.file.tableOf windows file = some t → ∀ row ∈ t.rows, row ≠ []
  | .reload file => ∀ t, s.file.tableOf windows file = some t → ∀ row ∈ t.rows, row ≠ []
  | _ => True

def Narrow (s : ConfigRun K Double) : ConfigEvent K → Prop
  | .load file | .reload file =>
    ∀ t, s.file.tableOf windows file = some t → t.header.length ≤ 2 ^ 32
  | _ => True

def Step (s : ConfigRun K Double) (e : ConfigEvent K) (s' : ConfigRun K Double) : Prop :=
  s.Allowed windows e ∧ s.exec windows traits e = .ok s'

def Indexed (s : ConfigRun K Double) : Prop :=
  ∀ t, s.loaded = some t → HSConfigFile.Indexed traits t s.file

variable {windows traits} {s s' : ConfigRun K Double}

theorem exec_cases (h : s.file.Sound) {e : ConfigEvent K}
    (hs : s.exec windows traits e = .ok s') :
    (∃ f file opened f', (e = .load file ∧ f = s.file ∨ e = .reload file ∧ f = s.file.clear) ∧
      f.load windows traits file = .ok (opened, f') ∧
      s' = ⟨f', if opened then f.tableOf windows file else none⟩) ∨
    s' = ⟨s.file.clear, none⟩ ∨
    (s'.loaded = s.loaded ∧ s'.file.Sound ∧ HSConfigFile.SameTable s.file s'.file) := by
  cases e with
  | load file =>
    obtain ⟨⟨opened, f⟩, hload, hput⟩ := exists_of_bind hs
    exact Or.inl ⟨s.file, file, opened, f, Or.inl ⟨rfl, rfl⟩, hload, (Except.ok.inj hput).symm⟩
  | reload file =>
    obtain ⟨⟨opened, f⟩, hload, hput⟩ := exists_of_bind hs
    exact Or.inl ⟨s.file.clear, file, opened, f, Or.inr ⟨rfl, rfl⟩, hload,
      (Except.ok.inj hput).symm⟩
  | clear => exact Or.inr (Or.inl (Except.ok.inj hs).symm)
  | setKeyField keyField =>
    obtain rfl := Except.ok.inj hs
    exact Or.inr (Or.inr ⟨rfl, { h with }, ⟨rfl, rfl, rfl⟩⟩)
  | setDelimiters delimiters =>
    obtain rfl := Except.ok.inj hs
    exact Or.inr (Or.inr ⟨rfl, { h with }, ⟨rfl, rfl, rfl⟩⟩)
  | setHeaderRows rows =>
    obtain rfl := Except.ok.inj hs
    exact Or.inr (Or.inr ⟨rfl, { h with }, ⟨rfl, rfl, rfl⟩⟩)
  | setKeyRowIndex index =>
    obtain rfl := Except.ok.inj hs
    exact Or.inr (Or.inr ⟨rfl, { h with }, ⟨rfl, rfl, rfl⟩⟩)
  | getDataRow k =>
    obtain ⟨row, f, hget, hsound, hsame, -⟩ := h.getDataRow k
    obtain ⟨out, hout, hput⟩ := exists_of_bind hs
    obtain rfl := Except.ok.inj (hget.symm.trans hout)
    obtain rfl := Except.ok.inj hput
    exact Or.inr (Or.inr ⟨rfl, hsound, hsame⟩)
  | getData k field =>
    obtain ⟨f, hget, hsound, hsame⟩ := h.getData k field
    obtain ⟨out, hout, hput⟩ := exists_of_bind hs
    obtain rfl := Except.ok.inj (hget.symm.trans hout)
    obtain rfl := Except.ok.inj hput
    exact Or.inr (Or.inr ⟨rfl, hsound, hsame⟩)
  | getHSValue k field =>
    obtain ⟨value, f, hget, hsound, hsame, -⟩ := h.getHSValue k field
    obtain ⟨out, hout, hput⟩ := exists_of_bind hs
    obtain rfl := Except.ok.inj (hget.symm.trans hout)
    obtain rfl := Except.ok.inj hput
    exact Or.inr (Or.inr ⟨rfl, hsound, hsame⟩)

theorem sound_exec (h : s.file.Sound) {e : ConfigEvent K}
    (hs : s.exec windows traits e = .ok s') : s'.file.Sound := by
  rcases exec_cases h hs with ⟨f, file, opened, f', hf, hload, rfl⟩ | rfl | ⟨-, hsound, -⟩
  · rcases hf with ⟨-, rfl⟩ | ⟨-, rfl⟩
    · exact HSConfigFile.sound_of_load h hload
    · exact HSConfigFile.sound_of_load
        (HSConfigFile.sound_of_empty (HSConfigFile.empty_clear s.file)) hload
  · exact HSConfigFile.sound_of_empty (HSConfigFile.empty_clear s.file)
  · exact hsound

theorem Indexed.step (hsound : s.file.Sound) (h : s.Indexed traits) {e : ConfigEvent K}
    (hnarrow : s.Narrow windows e) (hs : Step windows traits s e s') : s'.Indexed traits := by
  have hsound' := sound_exec hsound hs.2
  rcases exec_cases hsound hs.2 with
    ⟨f, file, opened, f', hf, hload, rfl⟩ | rfl | ⟨hloaded, -, hsame⟩
  · -- both ways of loading load an empty object
    intro t ht
    have hnew : f.Empty ∧ t.header.length ≤ 2 ^ 32 := by
      have htable : f.tableOf windows file = some t := by
        dsimp only at ht
        split_ifs at ht
        exact ht
      rcases hf with ⟨rfl, rfl⟩ | ⟨rfl, rfl⟩
      · exact ⟨hs.1.1, hnarrow t htable⟩
      · exact ⟨HSConfigFile.empty_clear s.file, hnarrow t htable⟩
    exact (HSConfigFile.load_tabled hnew.1 hload t ht).indexed hsound' hnew.2
  · intro t ht
    cases ht
  · intro t ht
    exact (h t (hloaded ▸ ht)).same hsound' hsame

omit [Zero Double] in
theorem indexed_start (keyField : List UInt8) :
    (start keyField : ConfigRun K Double).Indexed traits := by
  intro t ht
  cases ht

/-- As long as the headers are narrow, a file answers every lookup as the table it has loaded. -/
theorem getData_runs (windows : Bool) (traits : HSKeyTraits K) (keyField : List UInt8)
    {es : List (ConfigEvent K)} {s : ConfigRun K Double}
    (hrun : Run (Guarded (Narrow windows) (Step windows traits)) (start keyField) es s)
    {t : ConfigTable} (hloaded : s.loaded = some t) (k : K) (field : Option (List UInt8)) :
    ∃ f, s.file.getData k field = .ok (t.find traits k field, f) := by
  have hinvariant : s.file.Sound ∧ s.Indexed traits := by
    refine hrun.invariant (P := fun s => s.file.Sound ∧ s.Indexed traits)
      ⟨HSConfigFile.sound_of_empty (HSConfigFile.empty_new keyField), indexed_start keyField⟩ ?_
    intro s e s' h hs
    exact ⟨sound_exec h.1 hs.2.2, h.2.step h.1 hs.1 hs.2⟩
  obtain ⟨f, hget, -⟩ := hinvariant.1.getData k field
  rw [(hinvariant.2 t hloaded).cellOf] at hget
  exact ⟨f, hget⟩

def smallFile : List UInt8 := [107, 44, 118, 44, newline, 49, 44, 97, 44, newline]

theorem getData_runs_small : ∃ (s : ConfigRun Int32 ℕ) (t : ConfigTable) (f : HSConfigFile Int32 ℕ),
    s.loaded = some t ∧
    s.file.getData 1 (some [118]) = .ok (t.find (.int .eight) 1 (some [118]), f) := by
  let t : ConfigTable := ⟨[107], [[107], [118]], [[[49], [97]]]⟩
  let s : ConfigRun Int32 ℕ := ⟨⟨⟨1, 0, [44], [[107], [118]], [[[49], [97]]]⟩, [107],
    [([107], 0), ([118], 1)], [(1, 0)], []⟩, some t⟩
  have htable : HSConfigFile.tableOf false (.new [107] : HSConfigFile Int32 ℕ) (some smallFile) =
    some t := rfl
  have hstep : Step false (.int .eight) (start [107]) (.load (some smallFile)) s := by
    refine ⟨⟨HSConfigFile.empty_new _, ?_⟩, rfl⟩
    intro t' ht'
    obtain rfl := Option.some.inj (htable.symm.trans ht')
    decide
  have hnarrow : Narrow false (start [107] : ConfigRun Int32 ℕ) (.load (some smallFile)) := by
    intro t' ht'
    obtain rfl := Option.some.inj (htable.symm.trans ht')
    decide
  obtain ⟨f, hf⟩ := getData_runs false (.int .eight) [107] (Run.nil.snoc ⟨hnarrow, hstep⟩) rfl 1
    (some [118])
  exact ⟨s, t, f, rfl, hf⟩

def wideHeader (n : ℕ) : List (List UInt8) := List.replicate n [97] ++ [[107]]

def wideFile (n : ℕ) : List UInt8 :=
  (wideHeader n).flatMap (· ++ [44]) ++ newline :: ([120, 44] ++ [newline])

variable {n : ℕ}

theorem mem_wideHeader {column : List UInt8} (h : column ∈ wideHeader n) :
    column = [97] ∨ column = [107] := by
  rcases List.mem_append.mp h with h | h
  · exact Or.inl (List.eq_of_mem_replicate h)
  · exact Or.inr (List.mem_singleton.mp h)

theorem getLines_wideFile (n : ℕ) : HSConfigReader.getLines (wideFile n) =
    [(wideHeader n).flatMap (· ++ [44]), [120, 44]] := by
  have hheader : newline ∉ (wideHeader n).flatMap (· ++ [44]) := by
    intro hmem
    obtain ⟨column, hcolumn, hc⟩ := List.mem_flatMap.mp hmem
    rcases mem_wideHeader hcolumn with rfl | rfl <;> exact absurd hc (by decide)
  have hrow : ([120, 44] ++ [newline]).splitOn newline = [[120, 44], []] := by decide
  rw [HSConfigReader.getLines, wideFile, List.splitOn_append_cons_self_of_not_mem hheader, hrow]
  rfl

theorem length_wideHeader (n : ℕ) : ((wideHeader n).flatMap (· ++ [44])).length = 2 * n + 2 := by
  simp [wideHeader, List.length_flatMap]
  omega

theorem loadConfig_wideFile (hn : n < 2 ^ 62) :
    (HSConfigReader.new 1 0 [44]).loadConfig false (some (wideFile n)) =
      .ok (true, ⟨1, 0, [44], wideHeader n, [[[120]]]⟩) := by
  have hheader : HSConfigReader.createDataRow false [44] ((wideHeader n).flatMap (· ++ [44])) [] =
      .ok (true, wideHeader n) := by
    refine HSConfigReader.createDataRow_terminated false ?_ ?_ []
    · intro column hcolumn
      rcases mem_wideHeader hcolumn with rfl | rfl <;> decide
    · rw [length_wideHeader]
      omega
  have hrow : HSConfigReader.createDataRow false [44] [120, 44] [] = .ok (true, [[120]]) := by
    decide
  rw [HSConfigReader.loadConfig, getLines_wideFile]
  simp [List.foldlM, HSConfigReader.readLine, HSConfigReader.new, hheader, hrow, bind, Except.bind,
    pure, Except.pure]

theorem load_wideFile (hn : n = 2 ^ 32) : ∃ f : HSConfigFile (List UInt8) ℕ,
    (HSConfigFile.new [107]).load false .string (some (wideFile n)) = .ok (true, f) ∧
      f.reader.dataRows = [[[120]]] ∧ Table.get f.header2Index [97] = some 0 ∧
      Table.get f.dataKey2Index [120] = some 0 ∧ f.dataKey2Data = [] := by
  let seen : HSConfigReader.DataRow := List.replicate (n + 1) [97]
  have hlen : seen.length = (wideHeader n).length := by
    simp [seen, wideHeader]
  have hseen : ∀ i (hi : i < seen.length),
      (wideHeader n)[i % 2 ^ 32]?.map cStr = some (cStr seen[i]) := by
    intro i hi
    have hlt : i % 2 ^ 32 < n := by
      rw [hn]
      exact Nat.mod_lt i (Nat.two_pow_pos 32)
    rw [wideHeader, List.getElem?_append_left (by rwa [List.length_replicate]),
      List.getElem?_replicate_of_lt hlt, List.getElem_replicate]
    rfl
  obtain ⟨columns, hcolumns, hnames⟩ := HSConfigFile.indexColumns_eq hlen hseen [107] []
  have hkey : Table.lastIdx (fun c => decide (cStr c = cStr [107])) seen = none := by
    refine Table.lastIdx_eq_none fun c hc => ?_
    rw [List.eq_of_mem_replicate hc]
    decide
  let reader : HSConfigReader := ⟨1, 0, [44], wideHeader n, [[[120]]]⟩
  have hfilled : ∀ row ∈ reader.dataRows, row ≠ [] := by
    intro row hrow
    rw [List.mem_singleton.mp hrow]
    decide
  obtain ⟨keys, hkeys, hfirst⟩ :=
    @HSConfigFile.indexRows_eq _ _ HSKeyTraits.string _ hfilled 0 []
  have hload : (HSConfigReader.new 1 0 [44]).loadConfig false (some (wideFile n)) =
      .ok (true, reader) := loadConfig_wideFile (by omega)
  refine ⟨⟨reader, [107], columns, keys, []⟩, ?_, rfl, ?_, ?_, rfl⟩
  · rw [hkey] at hcolumns
    exact HSConfigFile.load_eq hload hcolumns hkeys
  · rw [hnames, show seen = [97] :: List.replicate n [97] from List.replicate_succ,
      List.findIdx?_cons, if_pos (by decide)]
    rfl
  · rw [hfirst]
    rfl

theorem tableOf_wideFile (hn : n < 2 ^ 62) :
    (HSConfigFile.new [107] : HSConfigFile (List UInt8) ℕ).tableOf false (some (wideFile n)) =
      some ⟨[107], wideHeader n, [[[120]]]⟩ := by
  have hload := loadConfig_wideFile hn
  have hclear : (HSConfigReader.new 1 0 [44]).clear = HSConfigReader.new 1 0 [44] := rfl
  rw [HSConfigFile.tableOf, HSConfigFile.new, HSConfigReader.reloadConfig, hclear, hload]

theorem find_wideFile (hn : 0 < n) (k : List UInt8) (field : Option (List UInt8)) :
    ConfigTable.find .string ⟨[107], wideHeader n, [[[120]]]⟩ k field = none := by
  have hkey : ConfigTable.keyColumn ⟨[107], wideHeader n, [[[120]]]⟩ = n := by
    have hlast := Table.lastIdx_append_singleton (p := fun column =>
      decide (cStr column = cStr [107])) (x := [107]) (by decide) (List.replicate n [97])
    rw [ConfigTable.keyColumn, wideHeader, hlast, List.length_replicate]
    rfl
  have hnone : ConfigTable.keyOf HSKeyTraits.string ⟨[107], wideHeader n, [[[120]]]⟩ [[120]] =
      none := by
    rw [ConfigTable.keyOf, hkey, List.getElem?_eq_none hn]
    rfl
  rw [ConfigTable.find]
  simp [hnone]

theorem wide_header_misread : ¬ ∀ s t,
    Run (Step false .string) (start [107] : ConfigRun (List UInt8) ℕ)
      [.load (some (wideFile (2 ^ 32)))] s → s.loaded = some t →
    ∃ f, s.file.getData [120] (some [97]) = .ok (t.find .string [120] (some [97]), f) := by
  intro hall
  obtain ⟨n, hn⟩ : ∃ n, n = 2 ^ 32 := ⟨_, rfl⟩
  rw [← hn] at hall
  obtain ⟨f, hload, hrows, hcolumn, hkey, hdata⟩ := load_wideFile hn
  have htable := tableOf_wideFile (n := n) (by omega)
  have hexec : exec false .string (start [107]) (.load (some (wideFile n))) =
      .ok (⟨f, some ⟨[107], wideHeader n, [[[120]]]⟩⟩ : ConfigRun (List UInt8) ℕ) := by
    simp only [exec, start, hload, htable, bind, Except.bind, pure, Except.pure, if_true]
  have hstep : Step false .string (start [107] : ConfigRun (List UInt8) ℕ)
      (.load (some (wideFile n))) ⟨f, some ⟨[107], wideHeader n, [[[120]]]⟩⟩ := by
    refine ⟨⟨HSConfigFile.empty_new _, ?_⟩, hexec⟩
    intro t ht row hrow
    obtain rfl := Option.some.inj (htable.symm.trans ht)
    rw [List.mem_singleton.mp hrow]
    decide
  have hfound : f.reader.getDataRow 0 = .ok (some [[120]]) := by
    rw [HSConfigReader.getDataRow, HSConfigReader.getDataRowsNum, hrows]
    rfl
  let g : HSConfigFile (List UInt8) ℕ := { f with dataKey2Data := [([120], ⟨0, []⟩)] }
  have hrow : f.getDataRow [120] = .ok (some ⟨0, []⟩, g) := by
    simp only [HSConfigFile.getDataRow, hdata, Table.get_nil, hkey, hfound, bind, Except.bind]
    rfl
  have hvalue : g.getValue ⟨0, []⟩ (some [97]) = .ok (some [120]) := by
    simp only [HSConfigFile.getValue, show g.header2Index = f.header2Index from rfl, hcolumn,
      HSConfigFile.dataOf, show g.reader.dataRows = [[[120]]] from hrows]
    rfl
  obtain ⟨f', hget⟩ := hall _ _ (Run.nil.snoc hstep) rfl
  rw [find_wideFile (by omega)] at hget
  simp only [HSConfigFile.getData, hrow, bind, Except.bind, hvalue] at hget
  cases hget

end ConfigRun
end HsCommon
