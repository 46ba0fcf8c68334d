import HsCommon.ConfigUse

/-!
# The column of the keys

Rows are indexed by the last column that is named like the key field, or by the first one if none
is, but a name denotes the first column that has it. The two agree if the key field names one
column.
-/

namespace HsCommon

namespace ConfigTable
variable {K : Type} (traits : HSKeyTraits K) [DecidableEq K]

/-- In each row that is the first one with its key, the cell in the column that the key field
denotes is there and is that key. -/
def KeyNamed (t : ConfigTable) : Prop :=
  ∀ k row, (t.rows.find? fun row => t.rowKey traits row = some k) = some row →
    ∃ i cell, t.named (cStr t.keyField) = some i ∧ row[i]? = some cell ∧
      traits.toKey (cStr cell) = k

theorem keyNamed_of_same_column {t : ConfigTable} (h : t.named (cStr t.keyField) =
    some (HSConfigFile.keyIndexOf t.keyField t.header % 2 ^ 32)) : t.KeyNamed traits := by
  intro k row hfind
  have hkey : t.rowKey traits row = some k := by simpa using List.find?_some hfind
  rw [rowKey, HSConfigFile.keyAt] at hkey
  obtain ⟨cell, hcell, rfl⟩ := Option.map_eq_some_iff.mp hkey
  exact ⟨_, cell, h, hcell, rfl⟩

end ConfigTable

namespace HSConfigFile
variable {K Double : Type} [DecidableEq K] {traits : HSKeyTraits K} {t : ConfigTable}
  {f : HSConfigFile K Double}

theorem Tabled.find?_eq (h : Tabled traits t f) (k : K) :
    (t.rows.find? fun row => t.rowKey traits row = some k) =
      (Table.get f.dataKey2Index k).bind fun i => f.reader.dataRows[i]? := by
  rw [h.keys, h.rows, List.find?_eq_bind_findIdx?_getElem?]

theorem Tabled.cellOf (h : Tabled traits t f) {k : K} {data : HSConfigReader.DataRow}
    (hfind : (t.rows.find? fun row => t.rowKey traits row = some k) = some data)
    (name : List UInt8) :
    f.cellOf k (some name) = (t.named name).bind fun i => data[i]?.map cStr := by
  obtain ⟨i, hindex, hdata⟩ := Option.bind_eq_some_iff.mp ((h.find?_eq k).symm.trans hfind)
  rw [HSConfigFile.cellOf, hindex, Option.bind_eq_bind, Option.bind_some, hdata,
    Option.bind_eq_bind, Option.bind_some]
  cases hcolumn : t.named name with
  | none => exact cellAt_unnamed ((h.columns name).trans hcolumn) data
  | some i => exact cellAt_named ((h.columns name).trans hcolumn) data

theorem Tabled.getData_key (h : Tabled traits t f) (hsound : f.Sound) :
    (∀ k row f', f.getDataRow k = .ok (some row, f') →
      ∃ text f'', f.getData k (some (cStr t.keyField)) = .ok (some text, f'') ∧
        traits.toKey text = k) ↔ t.KeyNamed traits := by
  constructor
  · intro hall k data hfind
    obtain ⟨i, hindex, hdata⟩ := Option.bind_eq_some_iff.mp ((h.find?_eq k).symm.trans hfind)
    obtain ⟨row, f', hrow, -, -, hplace, -⟩ := hsound.getDataRow k
    rw [hindex] at hplace
    obtain ⟨row, rfl, -⟩ := Option.map_eq_some_iff.mp hplace
    obtain ⟨text, f'', hget, hkey⟩ := hall k row f' hrow
    obtain ⟨_, hget', -⟩ := hsound.getData k (some (cStr t.keyField))
    obtain ⟨htext, -⟩ := Prod.mk.inj (Except.ok.inj (hget'.symm.trans hget))
    rw [h.cellOf hfind] at htext
    obtain ⟨j, hcolumn, hread⟩ := Option.bind_eq_some_iff.mp htext
    obtain ⟨cell, hat, rfl⟩ := Option.map_eq_some_iff.mp hread
    exact ⟨j, cell, hcolumn, hat, hkey⟩
  · intro hnamed k row f' hrow
    obtain ⟨row', _, hrow', -, -, hplace, -⟩ := hsound.getDataRow k
    obtain ⟨rfl, -⟩ := Prod.mk.inj (Except.ok.inj (hrow'.symm.trans hrow))
    obtain ⟨data, hdata, -⟩ := hsound.row hplace.symm
    have hfind : (t.rows.find? fun row => t.rowKey traits row = some k) = some data := by
      rw [h.find?_eq, ← hplace]
      exact hdata
    obtain ⟨j, cell, hcolumn, hat, hkey⟩ := hnamed k data hfind
    obtain ⟨f'', hget, -⟩ := hsound.getData k (some (cStr t.keyField))
    rw [h.cellOf hfind, hcolumn, Option.bind_some, hat, Option.map_some] at hget
    exact ⟨cStr cell, f'', hget, hkey⟩

end HSConfigFile

namespace ConfigRun
open Transition Outcome HSConfigFile
variable {K Double Float : Type} [DecidableEq K] [Zero Double] {windows : Bool}
  {traits : HSKeyTraits K} {c : HSConversions Double Float} {s s' : ConfigRun K Double}

def OnEmpty (s : ConfigRun K Double) : ConfigAct K → Prop
  | .call (.load _) => s.file.Empty
  | _ => True

theorem tabled_act (hsound : s.file.Sound) (h : ∀ t, s.loaded = some t → Tabled traits t s.file)
    {a : ConfigAct K} (hempty : s.OnEmpty a) (hs : Acts windows traits c s a s') :
    ∀ t, s'.loaded = some t → Tabled traits t s'.file := by
  cases a with
  | read k field a =>
    obtain ⟨⟨result, f⟩, hread, hput⟩ := exists_of_bind hs
    obtain rfl := Except.ok.inj hput
    obtain ⟨result', f', hread', -, hsame⟩ := hsound.readValue c k field a
    obtain ⟨-, rfl⟩ := Prod.mk.inj (Except.ok.inj (hread'.symm.trans hread))
    exact fun t ht => (h t ht).same hsame
  | call e =>
    rcases exec_cases hsound hs with
      ⟨f, file, opened, f', hf, hload, rfl⟩ | rfl | ⟨hloaded, -, hsame⟩
    · -- both ways of loading load an empty object
      have hnew : f.Empty := by
        rcases hf with ⟨rfl, rfl⟩ | ⟨rfl, rfl⟩
        · exact hempty
        · exact empty_clear s.file
      exact load_tabled hnew hload
    · intro t ht
      cases ht
    · intro t ht
      exact (h t (hloaded ▸ ht)).same hsame

/-- In every state with a table loaded the key field gives back the key of every row exactly if it
denotes a column with the keys. -/
theorem getData_key_iff {keyField : List UInt8} {as : List (ConfigAct K)}
    (hrun : Run (Guarded OnEmpty (Acts windows traits c)) (start keyField) as s) {t : ConfigTable}
    (hloaded : s.loaded = some t) :
    (∀ k row f, s.file.getDataRow k = .ok (some row, f) →
      ∃ text f', s.file.getData k (some (cStr t.keyField)) = .ok (some text, f') ∧
        traits.toKey text = k) ↔ t.KeyNamed traits := by
  have hinvariant : s.file.Sound ∧ ∀ t, s.loaded = some t → Tabled traits t s.file := by
    refine hrun.invariant (P := fun s => s.file.Sound ∧
      ∀ t, s.loaded = some t → Tabled traits t s.file) ?_ ?_
    · refine ⟨sound_of_empty (empty_new keyField), ?_⟩
      intro t ht
      cases ht
    · intro s a s' h hs
      exact ⟨sound_act h.1 hs.2, tabled_act h.1 h.2 hs.1 hs.2⟩
  exact (hinvariant.2 t hloaded).getData_key hinvariant.1

theorem getData_key_small :
    (⟨[107], [[107], [118]], [[[49], [97]]]⟩ : ConfigTable).KeyNamed (.int .eight) ∧
    ∀ k row f, smallRead.file.getDataRow k = .ok (some row, f) →
      ∃ text f', smallRead.file.getData k (some [107]) = .ok (some text, f') ∧
        atoi .eight text = k := by
  have hload : Acts false (.int .eight) smallConversions (start [107])
      (.call (.load (some smallFile))) smallLoaded := rfl
  have hread : Acts false (.int .eight) smallConversions smallLoaded
      (.read 1 (some [118]) .asInt) smallRead := rfl
  have hrun : Run (Guarded OnEmpty (Acts false (.int .eight) smallConversions)) (start [107])
      [.call (.load (some smallFile)), .read 1 (some [118]) .asInt] smallRead :=
    (Run.nil.snoc ⟨empty_new [107], hload⟩).snoc ⟨trivial, hread⟩
  have hnamed := @ConfigTable.keyNamed_of_same_column Int32 (.int .eight) _
    ⟨[107], [[107], [118]], [[[49], [97]]]⟩ (by decide)
  exact ⟨hnamed, (getData_key_iff hrun rfl).mpr hnamed⟩

/-- The header `k,k,` and the row `1,2,`: it is found by 2, and its key field is 1. -/
theorem getData_key_repeated :
    ¬ ∀ s : ConfigRun Int32 ℤ, Acts false (.int .eight) smallConversions (start [107])
        (.call (.load (some [107, 44, 107, 44, newline, 49, 44, 50, 44, newline]))) s →
      ∀ k row f, s.file.getDataRow k = .ok (some row, f) →
        ∃ text f', s.file.getData k (some [107]) = .ok (some text, f') ∧
          atoi .eight text = k := by
  intro h
  let f : HSConfigFile Int32 ℤ := ⟨⟨1, 0, [44], [[107], [107]], [[[49], [50]]]⟩, [107],
    [([107], 0)], [(2, 0)], []⟩
  have hrow : f.getDataRow 2 = .ok (some ⟨0, []⟩, { f with dataKey2Data := [(2, ⟨0, []⟩)] }) := rfl
  obtain ⟨text, f', hget, hkey⟩ :=
    h ⟨f, some ⟨[107], [[107], [107]], [[[49], [50]]]⟩⟩ rfl 2 _ _ hrow
  have hone : f.getData 2 (some [107]) =
      .ok (some [49], { f with dataKey2Data := [(2, ⟨0, []⟩)] }) := rfl
  obtain ⟨htext, -⟩ := Prod.mk.inj (Except.ok.inj (hone.symm.trans hget))
  obtain rfl := Option.some.inj htext
  revert hkey
  decide

end ConfigRun
end HsCommon
