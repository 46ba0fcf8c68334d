import HsCommon.ConfigUse

/-!
# Files that are read as they were written

A line in which the delimiter follows every cell, and a newline behind every line: a table written
like this is read back cell by cell, whatever stands in the other lines of the header. Every cell is
then found under its column and the key of its row, in any order of lookups, and nothing else is.
-/

namespace HsCommon
namespace HSConfigReader
variable {windows : Bool} {d : UInt8} {cells : DataRow} {lines : List (List UInt8)}

def writeLine (d : UInt8) (cells : DataRow) : List UInt8 := cells.flatMap (· ++ [d])

def writeLines (lines : List (List UInt8)) : List UInt8 := lines.flatMap (· ++ [newline])

/-- The cells are not empty, and neither delimiter nor newline nor NUL is in them. -/
structure Writable (d : UInt8) (cells : DataRow) : Prop where
  nonempty : ∀ cell ∈ cells, cell ≠ []
  delimiter : ∀ cell ∈ cells, d ∉ cell
  line : ∀ cell ∈ cells, newline ∉ cell
  nul : ∀ cell ∈ cells, 0 ∉ cell
  length_lt : (writeLine d cells).length < 2 ^ 64

theorem getLines_writeLines (h : ∀ line ∈ lines, newline ∉ line) :
    getLines (writeLines lines) = lines := by
  induction lines with
  | nil => rfl
  | cons line lines ih =>
    have hrest := ih fun l hl => h l (List.mem_cons_of_mem _ hl)
    have hsplit : (writeLines (line :: lines)).splitOn newline =
        line :: (writeLines lines).splitOn newline := by
      rw [writeLines, List.flatMap_cons, List.append_assoc, List.singleton_append]
      exact List.splitOn_append_cons_self_of_not_mem (h line List.mem_cons_self) _
    rw [getLines] at hrest ⊢
    rw [hsplit, List.dropLast_cons_of_ne_nil (List.splitOn_ne_nil _ _), hrest]

theorem Writable.newline_notMem (h : Writable d cells) (hd : d ≠ newline) :
    newline ∉ writeLine d cells := by
  intro hmem
  obtain ⟨cell, hcell, hin⟩ := List.mem_flatMap.mp hmem
  rcases List.mem_append.mp hin with hin | hin
  · exact h.line cell hcell hin
  · exact hd (List.mem_singleton.mp hin).symm

theorem Writable.cutLine (h : Writable d cells) (windows : Bool) :
    (cutLine windows [d] (writeLine d cells) []).2 = cells := by
  have hcut := createDataRow_terminated windows
    (fun cell hcell => ⟨h.delimiter cell hcell, h.nonempty cell hcell⟩) h.length_lt []
  have heq := createDataRow_eq windows (List.cons_ne_nil d []) (writeLine d cells) []
  rw [writeLine, hcut] at heq
  rw [writeLine, ← Except.ok.inj heq, List.nil_append]

def writeTable (d : UInt8) (before after : List (List UInt8)) (header : DataRow)
    (rows : List DataRow) : List UInt8 :=
  writeLines (before ++ writeLine d header :: after ++ rows.map (writeLine d))

theorem loadConfig_writeTable {r : HSConfigReader} (hd : d ≠ newline) (hdelim : r.delimiters = [d])
    (hheader : r.headerRow = []) (hrows : r.dataRows = []) {before after : List (List UInt8)}
    (hkey : r.keyRowIndex = before.length)
    (hcount : r.headerRows = before.length + 1 + after.length)
    (hother : ∀ line ∈ before ++ after, newline ∉ line) {header : DataRow} {rows : List DataRow}
    (hw : Writable d header) (hws : ∀ row ∈ rows, Writable d row) :
    r.loadConfig windows (some (writeTable d before after header rows)) =
      .ok (true, { r with headerRow := header, dataRows := rows }) := by
  have hlines : getLines (writeTable d before after header rows) =
      before ++ writeLine d header :: after ++ rows.map (writeLine d) := by
    refine getLines_writeLines fun line hline => ?_
    simp only [List.mem_append, List.mem_cons, List.mem_map] at hline
    rcases hline with (hline | rfl | hline) | ⟨row, hrow, rfl⟩
    · exact hother line (List.mem_append_left _ hline)
    · exact hw.newline_notMem hd
    · exact hother line (List.mem_append_right _ hline)
    · exact (hws row hrow).newline_notMem hd
  have hhead : headerLine r (before ++ writeLine d header :: after ++ rows.map (writeLine d)) =
      some (writeLine d header) := by
    rw [headerLine, if_pos (by omega), hkey, Int.toNat_natCast, List.append_assoc,
      List.getElem?_append_right le_rfl, Nat.sub_self]
    rfl
  have hdata : dataLines r (before ++ writeLine d header :: after ++ rows.map (writeLine d)) =
      rows.map (writeLine d) := by
    have hlen : r.headerRows.toNat = (before ++ writeLine d header :: after).length := by
      rw [List.length_append, List.length_cons]
      omega
    rw [dataLines, hlen, List.drop_left]
  have hcells : (rows.map (writeLine d)).map (fun line => (cutLine windows [d] line []).2) =
      rows := by
    rw [List.map_map]
    refine (List.map_congr_left fun row hrow => ?_).trans (List.map_id rows)
    exact (hws row hrow).cutLine windows
  rw [loadConfig_eq (by rw [hdelim]; exact List.cons_ne_nil _ _), hlines, hhead, hdata, readHeader,
    readData, Option.elim_some, hdelim, hheader, hrows, hw.cutLine, hcells, List.nil_append]

end HSConfigReader

theorem cStr_of_notMem {s : List UInt8} (h : 0 ∉ s) : cStr s = s := by
  refine List.takeWhile_eq_self_iff.mpr fun c hc => ?_
  rw [decide_eq_true_eq]
  rintro rfl
  exact h hc

namespace ConfigTable
open HSConfigReader
variable {K : Type} [DecidableEq K] {traits : HSKeyTraits K} {t : ConfigTable} {d : UInt8}

/-- A table that can be written: no column has the name of another, no row the key of another. -/
structure Written (traits : HSKeyTraits K) (d : UInt8) (t : ConfigTable) : Prop where
  header : Writable d t.header
  rows : ∀ row ∈ t.rows, Writable d row ∧ row ≠ []
  narrow : t.header.length ≤ 2 ^ 32
  names : t.header.Nodup
  keys : (t.rows.map (t.keyOf traits)).Nodup

omit [DecidableEq K] in
theorem Written.column (h : t.Written traits d) {j : ℕ} {name : List UInt8}
    (hname : t.header[j]? = some name) : t.column name = some j := by
  obtain ⟨hlt, hget⟩ := List.getElem?_eq_some_iff.mp hname
  refine List.findIdx?_eq_some_iff_getElem.mpr ⟨hlt, ?_, fun i hi => ?_⟩
  · rw [cStr_of_notMem (h.header.nul _ (List.getElem_mem hlt))]
    exact decide_eq_true hget
  · have hilt : i < t.header.length := hi.trans hlt
    rw [cStr_of_notMem (h.header.nul _ (List.getElem_mem hilt)), decide_eq_true_eq]
    intro hsame
    exact hi.ne (h.names.getElem_inj_iff.mp (hsame.trans hget.symm))

theorem Written.find_cell (h : t.Written traits d) {row : List (List UInt8)} (hrow : row ∈ t.rows)
    {k : K} (hkey : t.keyOf traits row = some k) {j : ℕ} {name : List UInt8}
    (hname : t.header[j]? = some name) : t.find traits k (some name) = row[j]? := by
  have hfound : t.rows.find? (fun row => t.keyOf traits row = some k) = some row := by
    cases hfind : t.rows.find? fun row => t.keyOf traits row = some k with
    | none =>
      have hno := List.find?_eq_none.mp hfind row hrow
      rw [decide_eq_true_eq] at hno
      exact absurd hkey hno
    | some row' =>
      have hkey' := List.find?_some hfind
      rw [decide_eq_true_eq] at hkey'
      exact congrArg some (List.inj_on_of_nodup_map h.keys (List.mem_of_find?_eq_some hfind) hrow
        (hkey'.trans hkey.symm))
  rw [ConfigTable.find, hfound]
  simp only [ConfigTable.cell, h.column hname, Option.bind_eq_bind, Option.bind_some]
  cases hcell : row[j]? with
  | none => rfl
  | some cell =>
    have hnul := (h.rows row hrow).1.nul cell (List.mem_of_getElem? hcell)
    exact congrArg some (cStr_of_notMem hnul)

theorem Written.find_none (h : t.Written traits d) {k : K} {field : Option (List UInt8)}
    (hno : (∀ row ∈ t.rows, t.keyOf traits row ≠ some k) ∨ ∀ name ∈ t.header, field ≠ some name) :
    t.find traits k field = none := by
  rcases hno with hkey | hname
  · have hfound : t.rows.find? (fun row => t.keyOf traits row = some k) = none := by
      refine List.find?_eq_none.mpr fun row hrow => ?_
      rw [decide_eq_true_eq]
      exact hkey row hrow
    rw [ConfigTable.find, hfound]
    rfl
  · have hcell : ∀ row, t.cell row field = none := by
      intro row
      cases field with
      | none => rfl
      | some name =>
        have hcolumn : t.column name = none := by
          refine List.findIdx?_eq_none_iff.mpr fun c hc => ?_
          rw [cStr_of_notMem (h.header.nul c hc), decide_eq_false_iff_not]
          rintro rfl
          exact hname c hc rfl
        simp only [ConfigTable.cell, hcolumn, Option.bind_eq_bind, Option.bind_some,
          Option.bind_none]
    rw [ConfigTable.find]
    simp only [hcell, Option.bind_eq_bind]
    cases t.rows.find? fun row => t.keyOf traits row = some k <;> rfl

end ConfigTable

inductive ConfigUse (K : Type)
  | lookUp (lookup : ConfigLookup K)
  | read (k : K) (field : Option (List UInt8)) (a : HSAccessor)

namespace HSConfigFile
open Transition Outcome HSConfigReader
variable {K Double Float : Type} [DecidableEq K] {windows : Bool} {traits : HSKeyTraits K}
  {t : ConfigTable} {d : UInt8}

def use [Zero Double] (c : HSConversions Double Float) (f : HSConfigFile K Double) :
    ConfigUse K → Except Fault (HSConfigFile K Double)
  | .lookUp lookup => do
    let (_, f) ← f.lookUp lookup
    return f
  | .read k field a => do
    let (_, f) ← f.readValue c k field a
    return f

def Uses [Zero Double] (c : HSConversions Double Float) (f : HSConfigFile K Double)
    (u : ConfigUse K) (f' : HSConfigFile K Double) : Prop := f.use c u = .ok f'

structure Expects (d : UInt8) (before after : List (List UInt8)) (t : ConfigTable)
    (f : HSConfigFile K Double) : Prop where
  delimiters : f.reader.delimiters = [d]
  keyRowIndex : f.reader.keyRowIndex = before.length
  headerRows : f.reader.headerRows = before.length + 1 + after.length
  keyField : f.keyField = t.keyField

theorem load_written {f : HSConfigFile K Double} (he : f.Empty) (hd : d ≠ newline)
    {before after : List (List UInt8)} (hf : f.Expects d before after t)
    (hother : ∀ line ∈ before ++ after, newline ∉ line) (hw : t.Written traits d) :
    ∃ f', f.load windows traits (some (writeTable d before after t.header t.rows)) =
      .ok (true, f') ∧ f'.Sound ∧ Indexed traits t f' := by
  have hread : f.reader.loadConfig windows (some (writeTable d before after t.header t.rows)) =
      .ok (true, { f.reader with headerRow := t.header, dataRows := t.rows }) :=
    loadConfig_writeTable hd hf.delimiters he.header he.rows hf.keyRowIndex hf.headerRows hother
      hw.header fun row hrow => (hw.rows row hrow).1
  obtain ⟨columns, keys, hload, -, -⟩ :=
    @load_read K Double _ f windows traits _ _ hread fun row hrow => (hw.rows row hrow).2
  have hsound := sound_of_load (sound_of_empty he) hload
  have htable : f.tableOf windows (some (writeTable d before after t.header t.rows)) = some t := by
    rw [tableOf, reloadConfig, he.reader_clear, hread, hf.keyField]
  refine ⟨_, hload, hsound, (load_tabled he hload t ?_).indexed hsound hw.narrow⟩
  rw [if_pos rfl, htable]

theorem Indexed.used [Zero Double] {f f' : HSConfigFile K Double} (hsound : f.Sound)
    (h : Indexed traits t f) (c : HSConversions Double Float) {u : ConfigUse K}
    (hu : Uses c f u f') : f'.Sound ∧ Indexed traits t f' := by
  cases u with
  | lookUp lookup =>
    obtain ⟨answer, f₁, hlook, hsound₁, hsame, -⟩ := hsound.lookUp lookup
    obtain ⟨out, hout, hput⟩ := exists_of_bind hu
    obtain rfl := Except.ok.inj (hlook.symm.trans hout)
    obtain rfl := Except.ok.inj hput
    exact ⟨hsound₁, h.same hsound₁ hsame⟩
  | read k field a =>
    obtain ⟨result, f₁, hread, hsound₁, hsame⟩ := hsound.readValue c k field a
    obtain ⟨out, hout, hput⟩ := exists_of_bind hu
    obtain rfl := Except.ok.inj (hread.symm.trans hout)
    obtain rfl := Except.ok.inj hput
    exact ⟨hsound₁, h.same hsound₁ hsame⟩

def Gives [Zero Double] (f : HSConfigFile K Double) (k : K) (field : Option (List UInt8))
    (text : Option (List UInt8)) : Prop :=
  (∃ f', f.getData k field = .ok (text, f')) ∧
    ∃ value f', f.getHSValue k field = .ok (value, f') ∧ value.map HSValue.strValue = text

theorem Indexed.gives [Zero Double] {f : HSConfigFile K Double} (hsound : f.Sound)
    (h : Indexed traits t f) (k : K) (field : Option (List UInt8)) :
    f.Gives k field (t.find traits k field) := by
  rw [← h.cellOf]
  obtain ⟨f', hget, -⟩ := hsound.getData k field
  obtain ⟨value, f'', hvalue, -, -, htext, -⟩ := hsound.getHSValue k field
  exact ⟨⟨f', hget⟩, value, f'', hvalue, htext⟩

/-- A table that has been written is loaded, and after any lookups and conversions both lookups give
the cell at the row of the key and the column of the field, and NULL for other keys and fields. -/
theorem written_given [Zero Double] {f : HSConfigFile K Double} (he : f.Empty) (hd : d ≠ newline)
    {before after : List (List UInt8)} (hf : f.Expects d before after t)
    (hother : ∀ line ∈ before ++ after, newline ∉ line) (hw : t.Written traits d)
    (c : HSConversions Double Float) :
    ∃ f₁, f.load windows traits (some (writeTable d before after t.header t.rows)) =
        .ok (true, f₁) ∧
      ∀ us f₂, Run (Uses c) f₁ us f₂ →
        (∀ row ∈ t.rows, ∀ k, t.keyOf traits row = some k → ∀ (j : ℕ) name,
          t.header[j]? = some name → f₂.Gives k (some name) row[j]?) ∧
        ∀ k field, ((∀ row ∈ t.rows, t.keyOf traits row ≠ some k) ∨
          ∀ name ∈ t.header, field ≠ some name) → f₂.Gives k field none := by
  obtain ⟨f₁, hload, hsound, hindexed⟩ := load_written he hd hf hother hw
  refine ⟨f₁, hload, ?_⟩
  intro us f₂ hrun
  obtain ⟨hsound₂, hindexed₂⟩ : f₂.Sound ∧ Indexed traits t f₂ :=
    hrun.invariant (P := fun f => f.Sound ∧ Indexed traits t f) ⟨hsound, hindexed⟩
      fun _ _ _ h hu => h.2.used h.1 c hu
  constructor
  · intro row hrow k hkey j name hname
    rw [← hw.find_cell hrow hkey hname]
    exact hindexed₂.gives hsound₂ k (some name)
  · intro k field hno
    rw [← hw.find_none hno]
    exact hindexed₂.gives hsound₂ k field

theorem written_given_small : ∃ f : HSConfigFile Int32 ℤ,
    (((new [107]).setHeaderRows 2).setKeyRowIndex 1).load false (.int .eight)
      (some [35, 10, 107, 44, 118, 44, 10, 49, 44, 97, 44, 10, 50, 44, 98, 44, 10]) =
        .ok (true, f) ∧ f.Gives 2 (some [118]) (some [98]) ∧ f.Gives 3 (some [118]) none := by
  let t : ConfigTable := ⟨[107], [[107], [118]], [[[49], [97]], [[50], [98]]]⟩
  have hw : t.Written (.int .eight) 44 :=
    ⟨⟨by decide, by decide, by decide, by decide, by decide⟩, fun row hrow => by
      fin_cases hrow <;>
        exact ⟨⟨by decide, by decide, by decide, by decide, by decide⟩, by decide⟩,
      by decide, by decide, by decide⟩
  obtain ⟨f, hload, hgives⟩ := @written_given Int32 ℤ ℤ _ false (.int .eight) t 44 _
    (((new [107]).setHeaderRows 2).setKeyRowIndex 1) ⟨rfl, rfl, rfl, rfl, rfl⟩ (by decide) [[35]] []
    ⟨rfl, rfl, rfl, rfl⟩ (by decide) hw ConfigRun.smallConversions
  obtain ⟨hcells, hnone⟩ := hgives [] f .nil
  refine ⟨f, hload, ?_, ?_⟩
  · exact hcells [[50], [98]] (by decide) 2 (by decide) 1 [118] rfl
  · exact hnone 3 (some [118]) (Or.inl (by decide))

end HSConfigFile
end HsCommon
