import HsCommon.ConfigLookup
import Mathlib.Data.List.TakeWhile

/-!
# Files in use

A file may be loaded again and again, looked up in between, and its values read as what they are
asked for. It stays sound as long as no vector has been read behind its end, so what holds of sound
files holds in every state.
-/

namespace HsCommon
namespace HSConfigFile
open Outcome
variable {K Double Float : Type} [DecidableEq K]

def putValue (f : HSConfigFile K Double) (key : K) (field : Option (List UInt8))
    (v : HSValue Double) : HSConfigFile K Double :=
  match Table.get f.dataKey2Data key, field.bind (Table.get f.header2Index) with
  | some row, some i =>
    let row := { row with hsValues := row.hsValues.set i v }
    { f with dataKey2Data := Table.assign f.dataKey2Data key row }
  | _, _ => f

section values
variable [Zero Double]

def readValue (c : HSConversions Double Float) (f : HSConfigFile K Double) (key : K)
    (field : Option (List UInt8)) (a : HSAccessor) :
    Except Fault (Option (HSResult Double Float) × HSConfigFile K Double) := do
  let (value, f) ← f.getHSValue key field
  match value with
  | none => return (none, f)
  | some v =>
    let (result, v) := a.call c v
    return (some result, f.putValue key field v)

variable {f : HSConfigFile K Double}

omit [Zero Double] in
theorem Sound.putValue (h : f.Sound) {k : K} {field : Option (List UInt8)} {v : HSValue Double}
    (hv : ∀ row name i old, Table.get f.dataKey2Data k = some row → field = some name →
      Table.get f.header2Index name = some i → row.hsValues[i]? = some old →
      v.strValue = old.strValue) :
    (f.putValue k field v).Sound ∧ SameTable f (f.putValue k field v) := by
  rw [HSConfigFile.putValue]
  cases hrow : Table.get f.dataKey2Data k with
  | none => exact ⟨h, ⟨rfl, rfl, rfl⟩⟩
  | some row =>
    cases hplace : field.bind (Table.get f.header2Index) with
    | none => exact ⟨h, ⟨rfl, rfl, rfl⟩⟩
    | some i =>
      obtain ⟨name, hfield, hcolumn⟩ := Option.bind_eq_some_iff.mp hplace
      refine ⟨h.assign hrow ?_, ⟨rfl, rfl, rfl⟩⟩
      intro data hdata
      rcases h.values k row hrow data hdata with hnone | hmade
      · rw [hnone, List.set_nil]
        exact Or.inl rfl
      · right
        rw [List.map_set, ← hmade]
        cases hold : row.hsValues[i]? with
        | none =>
          apply List.set_eq_of_length_le
          rw [List.length_map]
          exact List.getElem?_eq_none_iff.mp hold
        | some old =>
          obtain ⟨hlt, hget⟩ := List.getElem?_eq_some_iff.mp hold
          have hlt' : i < (row.hsValues.map HSValue.strValue).length := by rwa [List.length_map]
          have hsame : v.strValue = (row.hsValues.map HSValue.strValue)[i] := by
            rw [List.getElem_map, hget]
            exact hv row name i old hrow hfield hcolumn hold
          rw [hsame, List.set_getElem_self]

theorem Sound.readValue (h : f.Sound) (c : HSConversions Double Float) (k : K)
    (field : Option (List UInt8)) (a : HSAccessor) :
    ∃ result f', f.readValue c k field a = .ok (result, f') ∧ f'.Sound ∧ SameTable f f' := by
  obtain ⟨value, f', hget, hsound, hsame, -, hkept⟩ := h.getHSValue k field
  cases value with
  | none =>
    refine ⟨none, f', ?_, hsound, hsame⟩
    simp only [HSConfigFile.readValue, hget, bind, Except.bind, pure, Except.pure]
  | some v =>
    obtain ⟨row, name, i, hrow, hfield, hcolumn, hplace⟩ := hkept v rfl
    have hput := @Sound.putValue K Double _ f' hsound k field (a.call c v).2 (by
      intro row' name' i' old hrow' hfield' hcolumn' hold
      obtain rfl := Option.some.inj (hrow.symm.trans hrow')
      obtain rfl := Option.some.inj (hfield.symm.trans hfield')
      obtain rfl := Option.some.inj (hcolumn.symm.trans hcolumn')
      obtain rfl := Option.some.inj (hplace.symm.trans hold)
      rw [HSAccessor.call_eq, HSAccessor.after_strValue])
    refine ⟨some (a.call c v).1, f'.putValue k field (a.call c v).2, ?_, hput.1, ?_⟩
    · simp only [HSConfigFile.readValue, hget, bind, Except.bind, pure, Except.pure]
    · exact ⟨hput.2.rows.trans hsame.rows, hput.2.header.trans hsame.header,
        hput.2.index.trans hsame.index⟩

end values
end HSConfigFile

inductive ConfigLookup (K : Type)
  | getData (k : K) (field : Option (List UInt8))
  | getHSValue (k : K) (field : Option (List UInt8))

inductive ConfigAnswer (Double : Type)
  | data (text : Option (List UInt8))
  | value (value : Option (HSValue Double))
  deriving DecidableEq, Repr

namespace HSConfigFile
variable {K Double : Type} [DecidableEq K] [Zero Double]

def lookUp (f : HSConfigFile K Double) :
    ConfigLookup K → Except Fault (ConfigAnswer Double × HSConfigFile K Double)
  | .getData k field => do
    let (text, f) ← f.getData k field
    return (.data text, f)
  | .getHSValue k field => do
    let (value, f) ← f.getHSValue k field
    return (.value value, f)

def lookUps (f : HSConfigFile K Double) :
    List (ConfigLookup K) → Except Fault (List (ConfigAnswer Double))
  | [] => .ok []
  | lookup :: lookups => do
    let (answer, f) ← f.lookUp lookup
    let answers ← f.lookUps lookups
    return answer :: answers

def nullAnswer : ConfigLookup K → ConfigAnswer Double
  | .getData _ _ => .data none
  | .getHSValue _ _ => .value none

variable {f : HSConfigFile K Double}

theorem Sound.lookUp (h : f.Sound) (lookup : ConfigLookup K) :
    ∃ answer f', f.lookUp lookup = .ok (answer, f') ∧ f'.Sound ∧ SameTable f f' ∧
      ((∀ k field, f.cellOf k field = none) → answer = nullAnswer lookup) := by
  cases lookup with
  | getData k field =>
    obtain ⟨f', hget, hsound, hsame⟩ := h.getData k field
    refine ⟨.data (f.cellOf k field), f', ?_, hsound, hsame, fun hnone => ?_⟩
    · rw [HSConfigFile.lookUp, hget]
      rfl
    · rw [hnone, nullAnswer]
  | getHSValue k field =>
    obtain ⟨value, f', hget, hsound, hsame, htext, -⟩ := h.getHSValue k field
    refine ⟨.value value, f', ?_, hsound, hsame, fun hnone => ?_⟩
    · rw [HSConfigFile.lookUp, hget]
      rfl
    · rw [hnone, Option.map_eq_none_iff] at htext
      rw [htext, nullAnswer]

theorem Sound.lookUps (h : f.Sound) (lookups : List (ConfigLookup K)) :
    ∃ answers, f.lookUps lookups = .ok answers ∧
      ((∀ k field, f.cellOf k field = none) → answers = lookups.map nullAnswer) := by
  induction lookups generalizing f with
  | nil => exact ⟨[], rfl, fun _ => rfl⟩
  | cons lookup lookups ih =>
    obtain ⟨answer, f', hfirst, hsound, hsame, hnull⟩ := h.lookUp lookup
    obtain ⟨answers, hrest, hnulls⟩ := ih hsound
    refine ⟨answer :: answers, ?_, fun hnone => ?_⟩
    · rw [HSConfigFile.lookUps, hfirst]
      simp only [bind, Except.bind, hrest, pure, Except.pure]
    · have hnone' : ∀ k field, f'.cellOf k field = none := by
        intro k field
        rw [hsame.cellOf, hnone]
      rw [hnull hnone, hnulls hnone', List.map_cons]

def loadThen (windows : Bool) (traits : HSKeyTraits K) (f : HSConfigFile K Double)
    (file : Option (List UInt8)) (lookups : List (ConfigLookup K)) :
    Except Fault (Bool × List (ConfigAnswer Double)) := do
  let (opened, f) ← f.load windows traits file
  let answers ← f.lookUps lookups
  return (opened, answers)

omit [Zero Double] in
theorem load_false {windows : Bool} {traits : HSKeyTraits K} {f' : HSConfigFile K Double}
    {file : Option (List UInt8)} (h : f.load windows traits file = .ok (false, f')) : f' = f := by
  cases file with
  | none => exact (Prod.mk.inj (Except.ok.inj h)).2.symm
  | some content =>
    obtain ⟨⟨opened, reader⟩, hread, hload⟩ := Outcome.exists_of_bind h
    obtain ⟨⟨count, r⟩, -, hput⟩ := Outcome.exists_of_bind hread
    obtain ⟨rfl, rfl⟩ := Prod.mk.inj (Except.ok.inj hput)
    obtain ⟨⟨keyIndex, columns⟩, -, hload⟩ := Outcome.exists_of_bind hload
    obtain ⟨keys, -, hload⟩ := Outcome.exists_of_bind hload
    cases hload

omit [Zero Double] in
theorem Sound.exists_cell (h : f.Sound) (hkeys : f.dataKey2Index ≠ [])
    (hcolumns : f.header2Index ≠ []) : ∃ k field cell, f.cellOf k field = some cell := by
  obtain ⟨k, i, hkey⟩ := Table.exists_get_of_ne_nil hkeys
  obtain ⟨name, hcolumn⟩ := h.first hcolumns
  obtain ⟨data, hdata, hne⟩ := h.row hkey
  obtain ⟨cell, rest, rfl⟩ := List.exists_cons_of_ne_nil hne
  refine ⟨k, some name, cStr cell, ?_⟩
  rw [cellOf, hkey, Option.bind_eq_bind, Option.bind_some, hdata]
  exact cellAt_named hcolumn (cell :: rest)

omit [Zero Double] in
theorem cellOf_eq_none (h : f.dataKey2Index = [] ∨ f.header2Index = []) (k : K)
    (field : Option (List UInt8)) : f.cellOf k field = none := by
  rcases h with hkeys | hcolumns
  · rw [cellOf, hkeys]
    rfl
  · rw [cellOf]
    cases Table.get f.dataKey2Index k with
    | none => rfl
    | some i =>
      cases hdata : f.reader.dataRows[i]? with
      | none => simp [hdata]
      | some data =>
        simp only [Option.bind_eq_bind, Option.bind_some, hdata]
        cases field with
        | none => rfl
        | some name => exact cellAt_unnamed (by rw [hcolumns, Table.get_nil]) data

end HSConfigFile

inductive ConfigAct (K : Type)
  | call (e : ConfigEvent K)
  | read (k : K) (field : Option (List UInt8)) (a : HSAccessor)

namespace ConfigRun
open Transition Outcome HSConfigFile
variable {K Double Float : Type} [DecidableEq K] [Zero Double]

section steps
variable (windows : Bool) (traits : HSKeyTraits K) (c : HSConversions Double Float)

def act (s : ConfigRun K Double) : ConfigAct K → Except Fault (ConfigRun K Double)
  | .call e => s.exec windows traits e
  | .read k field a => do
    let (_, f) ← s.file.readValue c k field a
    return { s with file := f }

def Acts (s : ConfigRun K Double) (a : ConfigAct K) (s' : ConfigRun K Double) : Prop :=
  s.act windows traits c a = .ok s'

end steps

variable {windows : Bool} {traits : HSKeyTraits K} {c : HSConversions Double Float}
  {s s' : ConfigRun K Double}

theorem sound_act (h : s.file.Sound) {a : ConfigAct K} (hs : Acts windows traits c s a s') :
    s'.file.Sound := by
  cases a with
  | read k field a =>
    obtain ⟨⟨result, f⟩, hread, hput⟩ := exists_of_bind hs
    obtain rfl := Except.ok.inj hput
    obtain ⟨result', f', hread', hf', -⟩ := h.readValue c k field a
    obtain ⟨-, rfl⟩ := Prod.mk.inj (Except.ok.inj (hread'.symm.trans hread))
    exact hf'
  | call e => exact sound_exec h hs

theorem sound_run {keyField : List UInt8} {as : List (ConfigAct K)}
    (hrun : Run (Acts windows traits c) (start keyField) as s) : s.file.Sound :=
  hrun.invariant (P := fun s => s.file.Sound) (sound_of_empty (empty_new keyField))
    fun _ _ _ h hs => sound_act h hs

theorem cStr_cStr (s : List UInt8) : cStr (cStr s) = cStr s := List.takeWhile_idem

omit [Zero Double] in
theorem cellOf_cStr (f : HSConfigFile K Double) (k : K) (field : Option (List UInt8)) :
    (f.cellOf k field).map cStr = f.cellOf k field := by
  cases hcell : f.cellOf k field with
  | none => rfl
  | some text =>
    obtain ⟨i, -, hdata⟩ := Option.bind_eq_some_iff.mp hcell
    obtain ⟨data, -, hfield⟩ := Option.bind_eq_some_iff.mp hdata
    obtain ⟨name, -, hcolumn⟩ := Option.bind_eq_some_iff.mp hfield
    obtain ⟨j, -, hread⟩ := Option.bind_eq_some_iff.mp hcolumn
    obtain ⟨cell, -, htext⟩ := Option.bind_eq_some_iff.mp hread
    obtain rfl := Option.some.inj htext
    rw [Option.map_some, cStr_cStr]

/-- In every state `GetHSValue` gives the value whose text `GetData` gives, and NULL with it. -/
theorem getHSValue_getData {keyField : List UInt8} {as : List (ConfigAct K)}
    (hrun : Run (Acts windows traits c) (start keyField) as s) (k : K)
    (field : Option (List UInt8)) :
    ∃ value f text f', s.file.getHSValue k field = .ok (value, f) ∧
      s.file.getData k field = .ok (text, f') ∧ (value = none ↔ text = none) ∧
      ∀ v, value = some v → text = some v.asCString := by
  have hsound := sound_run hrun
  obtain ⟨value, f, hget, -, -, htext, -⟩ := hsound.getHSValue k field
  obtain ⟨f', hdata, -⟩ := hsound.getData k field
  refine ⟨value, f, s.file.cellOf k field, f', hget, hdata, ?_, ?_⟩
  · rw [← htext, Option.map_eq_none_iff]
  · rintro v rfl
    rw [← cellOf_cStr, ← htext]
    rfl

def smallConversions : HSConversions ℤ ℤ :=
  HSValue.libraryConversions .eight HSValue.decimalValue id

def smallLoaded : ConfigRun Int32 ℤ :=
  ⟨⟨⟨1, 0, [44], [[107], [118]], [[[49], [97]]]⟩, [107], [([107], 0), ([118], 1)], [(1, 0)], []⟩,
    some ⟨[107], [[107], [118]], [[[49], [97]]]⟩⟩

def smallRead : ConfigRun Int32 ℤ :=
  { smallLoaded with file := { smallLoaded.file with
      dataKey2Data := [(1, ⟨0, [.new [49], { HSValue.new [97] with seted := true }]⟩)] } }

theorem run_small : Run (Acts false (.int .eight) smallConversions) (start [107])
    [.call (.load (some smallFile)), .read 1 (some [118]) .asInt] smallRead := by
  have hload : Acts false (.int .eight) smallConversions (start [107])
      (.call (.load (some smallFile))) smallLoaded := rfl
  have hread : Acts false (.int .eight) smallConversions smallLoaded
      (.read 1 (some [118]) .asInt) smallRead := rfl
  exact (Run.nil.snoc hload).snoc hread

theorem getHSValue_getData_small :
    ∃ (v : HSValue ℤ) (f f' : HSConfigFile Int32 ℤ),
      smallRead.file.getHSValue 1 (some [118]) = .ok (some v, f) ∧
      smallRead.file.getData 1 (some [118]) = .ok (some v.asCString, f') := by
  obtain ⟨value, f, text, f', hget, hdata, -, htext⟩ :=
    getHSValue_getData run_small 1 (some [118])
  obtain ⟨v, rfl⟩ : ∃ v, value = some v := by
    refine ⟨{ HSValue.new [97] with seted := true }, ?_⟩
    have hvalue : smallRead.file.getHSValue 1 (some [118]) =
        .ok (some { HSValue.new [97] with seted := true }, smallRead.file) := rfl
    exact (Prod.mk.inj (Except.ok.inj (hget.symm.trans hvalue))).1
  rw [htext v rfl] at hdata
  exact ⟨v, f, f', hget, hdata⟩

/-- Loading a file and looking up reads no vector behind its end exactly if every data line has a
cell. -/
theorem loadThen_safe_iff {keyField : List UInt8} {as : List (ConfigAct K)}
    (hrun : Run (Acts windows traits c) (start keyField) as s) (file : Option (List UInt8)) :
    (∀ lookups, s.file.loadThen windows traits file lookups ≠ .error .overrun) ↔
      LinesHaveCells windows s.file file := by
  have hsound := sound_run hrun
  constructor
  · intro h
    by_contra hcells
    apply h []
    rw [loadThen, load_overrun hcells]
    rfl
  · intro hcells lookups
    have hload := @Sound.load K Double _ s.file windows traits hsound file hcells
    cases hc : s.file.load windows traits file with
    | error e =>
      rw [loadThen, hc, hload.fault hc]
      intro h
      cases h
    | ok out =>
      obtain ⟨opened, f⟩ := out
      obtain ⟨answers, hanswers, -⟩ := (hload.result hc).lookUps lookups
      rw [loadThen, hc]
      simp only [bind, Except.bind, hanswers]
      intro h
      cases h

theorem loadThen_safe_small :
    LinesHaveCells false smallRead.file (some smallFile) ∧
    ∀ lookups, smallRead.file.loadThen false (.int .eight) (some smallFile) lookups ≠
      .error .overrun := by
  have hcells : LinesHaveCells false smallRead.file (some smallFile) := by
    intro content hcontent line hline
    obtain rfl := Option.some.inj hcontent
    have hlines : smallRead.file.reader.dataLines (HSConfigReader.getLines smallFile) =
        [[49, 44, 97, 44]] := by decide
    rw [hlines, List.mem_singleton] at hline
    subst hline
    exact Or.inl ⟨[49], [97, 44], rfl⟩
  exact ⟨hcells, (loadThen_safe_iff run_small (some smallFile)).mpr hcells⟩

theorem loadThen_blank_line :
    ¬ ∀ lookups : List (ConfigLookup Int32),
      (start [107] : ConfigRun Int32 ℤ).file.loadThen false (.int .eight)
        (some [107, 44, newline, newline]) lookups ≠ .error .overrun := by
  intro h
  exact h [] rfl

/-- A reload that cannot open the file loses nothing exactly if there was nothing to be found. -/
theorem reload_false_iff {keyField : List UInt8} {as : List (ConfigAct K)}
    (hrun : Run (Acts windows traits c) (start keyField) as s) {file : Option (List UInt8)}
    {f : HSConfigFile K Double} (hreload : s.file.reload windows traits file = .ok (false, f)) :
    (∀ lookups, f.lookUps lookups = s.file.lookUps lookups) ↔
      s.file.dataKey2Index = [] ∨ s.file.header2Index = [] := by
  have hsound := sound_run hrun
  obtain rfl := load_false hreload
  have hcleared := @sound_of_empty K Double _ s.file.clear (empty_clear s.file)
  have hnone : ∀ k field, s.file.clear.cellOf k field = none := cellOf_eq_none (Or.inl rfl)
  constructor
  · intro h
    by_contra hfull
    rw [not_or] at hfull
    obtain ⟨k, field, cell, hcell⟩ := hsound.exists_cell hfull.1 hfull.2
    have hsame := h [.getData k field]
    obtain ⟨_, hget, -⟩ := hsound.getData k field
    obtain ⟨_, hget', -⟩ := hcleared.getData k field
    rw [hnone] at hget'
    rw [hcell] at hget
    simp only [lookUps, lookUp, hget, hget', bind, Except.bind, pure, Except.pure] at hsame
    cases hsame
  · intro hempty lookups
    obtain ⟨answers, hanswers, hnull⟩ := hsound.lookUps lookups
    obtain ⟨answers', hanswers', hnull'⟩ := hcleared.lookUps lookups
    rw [hanswers, hanswers', hnull (cellOf_eq_none hempty), hnull' hnone]

theorem reload_false_noRows :
    ∃ s : ConfigRun Int32 ℤ, Run (Acts false (.int .eight) smallConversions) (start [107])
        [.call (.load (some smallFile)), .read 1 (some [118]) .asInt,
          .call (.reload (some [107, 44, 118, 44, newline]))] s ∧
      s.file.header2Index = [([107], 0), ([118], 1)] ∧
      s.file.reload false (.int .eight) none = .ok (false, s.file.clear) ∧
      ∀ lookups, s.file.clear.lookUps lookups = s.file.lookUps lookups := by
  have hact : (smallRead.act false (.int .eight) smallConversions
      (.call (.reload (some [107, 44, 118, 44, newline])))).map
      (fun s => (s.file.header2Index, s.file.dataKey2Index)) =
        .ok ([([107], 0), ([118], 1)], []) := rfl
  obtain ⟨s, hs, hkeys⟩ := exists_ok_of_map hact
  obtain ⟨hheader, hnone⟩ := Prod.mk.inj hkeys
  have hrun := run_small.snoc hs
  have hreload : s.file.reload false (.int .eight) none = .ok (false, s.file.clear) := rfl
  exact ⟨s, hrun, hheader, hreload, (reload_false_iff hrun hreload).mpr (Or.inl hnone)⟩

theorem reload_false_small :
    ¬ ∀ f, smallRead.file.reload false (.int .eight) none = .ok (false, f) →
      ∀ lookups, f.lookUps lookups = smallRead.file.lookUps lookups := by
  intro h
  have hsame := h smallRead.file.clear rfl [.getData 1 (some [118])]
  have hgone : smallRead.file.clear.lookUps [.getData 1 (some [118])] = .ok [.data none] := rfl
  have hthere : smallRead.file.lookUps [.getData 1 (some [118])] = .ok [.data (some [97])] := rfl
  rw [hgone, hthere] at hsame
  cases hsame

end ConfigRun
end HsCommon
