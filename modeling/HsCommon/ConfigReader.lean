import HsCommon.Define
import HsCommon.Library.Texts

/-!
# HSConfigReader.h, the reader

A file is read line by line into a header row and data rows, each line cut at the delimiters. The
offsets of `CreateDataRow` are `size_t` and what is subtracted from them wraps, as does `size() - 1`
of an empty row.
-/

namespace HsCommon

def newline : UInt8 := 10
def carriageReturn : UInt8 := 13

/-- What `c_str()` shows of a string: the part before its first NUL. -/
def cStr (s : List UInt8) : List UInt8 := s.takeWhile (· ≠ 0)

def lastIndex (size : ℕ) : ℕ := if size = 0 then 2 ^ 64 - 1 else size - 1

theorem lastIndex_lt_iff {α : Type*} {xs : List α} (h : xs ≠ []) (index : ℕ) :
    index > lastIndex xs.length ↔ xs[index]? = none := by
  have hpos := List.length_pos_iff.mpr h
  rw [lastIndex, if_neg hpos.ne', List.getElem?_eq_none_iff]
  omega

namespace HSConfigReader

abbrev DataRow := List (List UInt8)

namespace DataRow

def getFieldSize (row : DataRow) : ℕ := row.length

/-- The index is an `unsigned int`. -/
def getFieldByIndex (row : DataRow) (index : ℕ) : Except Fault (Option (List UInt8)) :=
  if index % 2 ^ 32 > lastIndex row.length then .ok none
  else
    match row[index % 2 ^ 32]? with
    | some key => .ok (some (cStr key))
    | none => .error .overrun

def pushValue (row : DataRow) (value : List UInt8) : DataRow := row ++ [value]

theorem getFieldByIndex_eq {row : DataRow} (h : row ≠ []) (index : ℕ) :
    row.getFieldByIndex index = .ok (row[index % 2 ^ 32]?.map cStr) := by
  rw [getFieldByIndex]
  simp only [lastIndex_lt_iff h]
  cases row[index % 2 ^ 32]? with
  | none => rfl
  | some key => rfl

end DataRow

def lineEnd (windows : Bool) (line : List UInt8) (offset : ℕ) : Option ℕ :=
  match Text.find line [newline] offset with
  | some res => some res
  | none => if windows then Text.find line [carriageReturn] offset else none

def pushLast (windows : Bool) (line : List UInt8) (offset : ℕ) (row : DataRow) : DataRow :=
  if line.length > offset then
    match lineEnd windows line offset with
    | some res => row.pushValue (Text.substr line offset (sizeT (res - 1 - offset + 1)))
    | none => row
  else row

def createDataRowFrom (windows : Bool) (delimiters line : List UInt8) :
    ℕ → ℕ → DataRow → Except Fault (Bool × DataRow)
  | 0, _, _ => .error .outOfFuel
  | fuel + 1, offset, row =>
    match Text.find line delimiters offset with
    | none => .ok (true, pushLast windows line offset row)
    | some res =>
      -- at the start of the line `res - 1` wraps, and an empty cell passes
      if sizeT (res - 1) ≥ offset then
        let cell := Text.substr line offset (sizeT (res - delimiters.length - offset + 1))
        createDataRowFrom windows delimiters line fuel (res + delimiters.length)
          (row.pushValue cell)
      else .ok (false, row)

/-- With a delimiter the loop has ended after this many rounds, without one it does not end. -/
def createDataRow (windows : Bool) (delimiters line : List UInt8) (row : DataRow) :
    Except Fault (Bool × DataRow) :=
  createDataRowFrom windows delimiters line (line.length + 1) 0 row

theorem createDataRowFrom_returns (windows : Bool) {delimiters line : List UInt8}
    (hd : delimiters ≠ []) {fuel offset : ℕ} (hfuel : line.length - offset < fuel)
    (row : DataRow) :
    ∃ out, createDataRowFrom windows delimiters line fuel offset row = .ok out := by
  induction fuel generalizing offset row with
  | zero => omega
  | succ fuel ih =>
    rw [createDataRowFrom]
    cases hfind : Text.find line delimiters offset with
    | none => exact ⟨_, rfl⟩
    | some res =>
      have hpos := List.length_pos_iff.mpr hd
      have hbound := Text.find_bound hfind
      dsimp only
      split_ifs
      · exact ih (by omega) _
      · exact ⟨_, rfl⟩

theorem createDataRow_returns (windows : Bool) {delimiters : List UInt8} (hd : delimiters ≠ [])
    (line : List UInt8) (row : DataRow) :
    ∃ out, createDataRow windows delimiters line row = .ok out :=
  createDataRowFrom_returns windows hd (by omega) row

theorem createDataRowFrom_nil (windows : Bool) (line : List UInt8) (fuel : ℕ) (row : DataRow) :
    createDataRowFrom windows [] line fuel 0 row = .error .outOfFuel := by
  induction fuel generalizing row with
  | zero => rfl
  | succ fuel ih =>
    have hfind : Text.find line [] 0 = some 0 := by
      rw [Text.find, if_pos (Nat.zero_le _), List.drop_zero, Text.search_nil]
      rfl
    rw [createDataRowFrom, hfind]
    dsimp only
    rw [if_pos (Nat.zero_le _)]
    exact ih _

end HSConfigReader

structure HSConfigReader where
  headerRows : ℤ
  keyRowIndex : ℤ
  delimiters : List UInt8
  headerRow : HSConfigReader.DataRow
  dataRows : List HSConfigReader.DataRow
  deriving DecidableEq, Repr

namespace HSConfigReader

def new (headerRows keyRowIndex : ℤ) (delimiters : List UInt8) : HSConfigReader :=
  ⟨headerRows, keyRowIndex, delimiters, [], []⟩

def setDelimiters (r : HSConfigReader) (delimiters : List UInt8) : HSConfigReader :=
  { r with delimiters }

def setHeaderRows (r : HSConfigReader) (rows : ℤ) : HSConfigReader := { r with headerRows := rows }

def setKeyRowIndex (r : HSConfigReader) (index : ℤ) : HSConfigReader :=
  { r with keyRowIndex := index }

/-- The lines `getline` gets before it meets the end of the file. What stands after the last newline
meets it. -/
def getLines (content : List UInt8) : List (List UInt8) := (content.splitOn newline).dropLast

def readLine (windows : Bool) (s : ℤ × HSConfigReader) (line : List UInt8) :
    Except Fault (ℤ × HSConfigReader) :=
  let (count, r) := s
  if count < r.headerRows then
    if count = r.keyRowIndex then do
      let (_, header) ← createDataRow windows r.delimiters line r.headerRow
      return (count + 1, { r with headerRow := header })
    else .ok (count + 1, r)
  else do
    let (_, row) ← createDataRow windows r.delimiters line []
    return (count, { r with dataRows := r.dataRows ++ [row] })

def loadConfig (windows : Bool) (r : HSConfigReader) (file : Option (List UInt8)) :
    Except Fault (Bool × HSConfigReader) :=
  match file with
  | none => .ok (false, r)
  | some content => do
    let (_, r) ← (getLines content).foldlM (readLine windows) (0, r)
    return (true, r)

def clear (r : HSConfigReader) : HSConfigReader := { r with headerRow := [], dataRows := [] }

def reloadConfig (windows : Bool) (r : HSConfigReader) (file : Option (List UInt8)) :
    Except Fault (Bool × HSConfigReader) :=
  r.clear.loadConfig windows file

def getDataRowsNum (r : HSConfigReader) : ℕ := r.dataRows.length

def getDataRow (r : HSConfigReader) (index : ℕ) : Except Fault (Option DataRow) :=
  if index > lastIndex r.getDataRowsNum then .ok none
  else
    match r.dataRows[index]? with
    | some row => .ok (some row)
    | none => .error .overrun

theorem getDataRow_eq {r : HSConfigReader} (h : r.dataRows ≠ []) (index : ℕ) :
    r.getDataRow index = .ok r.dataRows[index]? := by
  rw [getDataRow, getDataRowsNum]
  simp only [lastIndex_lt_iff h]
  cases r.dataRows[index]? with
  | none => rfl
  | some row => rfl

end HSConfigReader
end HsCommon
