import HsCommon.ConfigReader
import HsCommon.PacketWorker
import HsCommon.Library.Tables

/-!
# HSConfigReader.h, values and files

A file holds a reader, an index of its columns and one of its rows, and the rows that have been
asked for. A row is found by the value its cell in the key column converts to.
-/

namespace HsCommon

def isSpace (c : UInt8) : Bool := c = 32 || (9 ≤ c && c ≤ 13)

def isDigit (c : UInt8) : Bool := 48 ≤ c && c ≤ 57

def readDecimal (s : List UInt8) : Bool × ℕ :=
  let s := s.dropWhile isSpace
  let digits := if s.head? = some 45 ∨ s.head? = some 43 then s.tail else s
  (s.head? = some 45, (digits.takeWhile isDigit).foldl (fun n c => 10 * n + (c.toNat - 48)) 0)

/-- A number that does not fit a `long` becomes the closest one that does. -/
def strtol (w : ULongWidth) (s : List UInt8) : ℤ :=
  let (negative, n) := readDecimal s
  let bound : ℤ := 2 ^ (8 * w.size - 1)
  max (-bound) (min (bound - 1) (if negative then -n else n))

def strtoul (w : ULongWidth) (s : List UInt8) : ℕ :=
  let (negative, n) := readDecimal s
  let bound := 2 ^ (8 * w.size)
  if n ≥ bound then bound - 1 else if negative then (bound - n) % bound else n

def atoi (w : ULongWidth) (s : List UInt8) : Int32 := Int32.ofInt (strtol w s)

structure HSKeyTraits (K : Type) where
  toKey : List UInt8 → K

def HSKeyTraits.int (w : ULongWidth) : HSKeyTraits Int32 := ⟨atoi w⟩
def HSKeyTraits.uint (w : ULongWidth) : HSKeyTraits UInt32 := ⟨fun s => .ofNat (strtoul w s)⟩
def HSKeyTraits.string : HSKeyTraits (List UInt8) := ⟨id⟩

structure UnionValue (Double : Type) where
  intValue : ℤ
  doubleValue : Double
  longValue : ℤ
  longlongValue : ℤ
  deriving DecidableEq, Repr

structure HSValue (Double : Type) where
  seted : Bool
  unionValue : UnionValue Double
  strValue : List UInt8
  deriving DecidableEq, Repr

def HSValue.new {Double : Type} [Zero Double] (value : List UInt8) : HSValue Double :=
  ⟨false, ⟨0, 0, 0, 0⟩, value⟩

structure HSConfigFile.DataRow (Double : Type) where
  dataRow : ℕ
  hsValues : List (HSValue Double)
  deriving DecidableEq, Repr

structure HSConfigFile (K Double : Type) where
  reader : HSConfigReader
  keyField : List UInt8
  header2Index : List (List UInt8 × ℕ)
  dataKey2Index : List (K × ℕ)
  dataKey2Data : List (K × HSConfigFile.DataRow Double)
  deriving Repr

namespace HSConfigFile
variable {K Double : Type}

def new (keyField : List UInt8) : HSConfigFile K Double := ⟨.new 1 0 [44], keyField, [], [], []⟩

def clear (f : HSConfigFile K Double) : HSConfigFile K Double :=
  { f with reader := f.reader.clear, header2Index := [], dataKey2Index := [], dataKey2Data := [] }

/-- `none` is the NULL pointer, which leaves the key field. -/
def setKeyField (f : HSConfigFile K Double) (keyField : Option (List UInt8)) :
    HSConfigFile K Double :=
  { f with keyField := keyField.getD f.keyField }

def setDelimiters (f : HSConfigFile K Double) (delimiters : List UInt8) : HSConfigFile K Double :=
  { f with reader := f.reader.setDelimiters delimiters }

def setHeaderRows (f : HSConfigFile K Double) (rows : ℤ) : HSConfigFile K Double :=
  { f with reader := f.reader.setHeaderRows rows }

def setKeyRowIndex (f : HSConfigFile K Double) (index : ℤ) : HSConfigFile K Double :=
  { f with reader := f.reader.setKeyRowIndex index }

def indexColumn (keyField : List UInt8) (header : HSConfigReader.DataRow)
    (s : ℕ × List (List UInt8 × ℕ)) (i : ℕ) : Except Fault (ℕ × List (List UInt8 × ℕ)) := do
  -- `i` is a `size_t` and is narrowed by the call
  match ← header.getFieldByIndex i with
  | none => return s
  | some field => return (if field = cStr keyField then i else s.1, Table.insert s.2 field i)

section keys
variable [DecidableEq K] (windows : Bool) (traits : HSKeyTraits K)

def indexRow (reader : HSConfigReader) (keyIndex : ℕ) (t : List (K × ℕ)) (i : ℕ) :
    Except Fault (List (K × ℕ)) := do
  match ← reader.getDataRow i with
  | none => return t
  | some row =>
    match ← row.getFieldByIndex keyIndex with
    | none => return t
    | some key => return Table.insert t (traits.toKey key) i

def load (f : HSConfigFile K Double) (file : Option (List UInt8)) :
    Except Fault (Bool × HSConfigFile K Double) := do
  let (opened, reader) ← f.reader.loadConfig windows file
  if opened then
    let header := reader.headerRow
    let (keyIndex, header2Index) ←
      (List.range header.getFieldSize).foldlM (indexColumn f.keyField header) (0, f.header2Index)
    let dataKey2Index ← (List.range reader.getDataRowsNum).foldlM
      (indexRow traits reader keyIndex) f.dataKey2Index
    return (true, { f with reader, header2Index, dataKey2Index })
  else return (false, { f with reader })

def reload (f : HSConfigFile K Double) (file : Option (List UInt8)) :
    Except Fault (Bool × HSConfigFile K Double) := f.clear.load windows traits file

def getDataRow (f : HSConfigFile K Double) (key : K) :
    Except Fault (Option (DataRow Double) × HSConfigFile K Double) :=
  match Table.get f.dataKey2Data key with
  | some row => .ok (some row, f)
  | none =>
    match Table.get f.dataKey2Index key with
    | none => .ok (none, f)
    | some i => do
      match ← f.reader.getDataRow i with
      | none => return (none, f)
      | some _ =>
        let row := ⟨i, []⟩
        return (some row, { f with dataKey2Data := Table.insert f.dataKey2Data key row })

end keys

/-- The reader's row. A place where it has none is one it has cleared. -/
def dataOf (f : HSConfigFile K Double) (row : DataRow Double) :
    Except Fault HSConfigReader.DataRow :=
  match f.reader.dataRows[row.dataRow]? with
  | some data => .ok data
  | none => .error .overrun

def getValue (f : HSConfigFile K Double) (row : DataRow Double) (field : Option (List UInt8)) :
    Except Fault (Option (List UInt8)) :=
  match field with
  | none => .ok none
  | some field =>
    match Table.get f.header2Index field with
    | none => .ok none
    | some i => do
      let data ← f.dataOf row
      data.getFieldByIndex i

def valueAt [Zero Double] (data : HSConfigReader.DataRow) (i : ℕ) :
    Except Fault (HSValue Double) := do
  match ← data.getFieldByIndex i with
  | none => throw .nullPointer
  | some value => return HSValue.new value

def fillValues [Zero Double] (data : HSConfigReader.DataRow) :
    Except Fault (List (HSValue Double)) := (List.range data.getFieldSize).mapM (valueAt data)

def valuesOf [Zero Double] (row : DataRow Double) (data : HSConfigReader.DataRow) :
    Except Fault (List (HSValue Double)) :=
  if row.hsValues.length = 0 ∧ data.getFieldSize > 0 then fillValues data else .ok row.hsValues

def getValueOf [Zero Double] (f : HSConfigFile K Double) (row : DataRow Double)
    (field : Option (List UInt8)) : Except Fault (Option (HSValue Double) × DataRow Double) :=
  match field with
  | none => .ok (none, row)
  | some field => do
    let data ← f.dataOf row
    let hsValues ← valuesOf row data
    let row := { row with hsValues }
    match Table.get f.header2Index field with
    | none => return (none, row)
    | some i =>
      if i > lastIndex hsValues.length then return (none, row)
      else
        match hsValues[i]? with
        | some value => return (some value, row)
        | none => throw .overrun

variable [DecidableEq K]

def getData (f : HSConfigFile K Double) (key : K) (field : Option (List UInt8)) :
    Except Fault (Option (List UInt8) × HSConfigFile K Double) := do
  let (row, f) ← f.getDataRow key
  match row with
  | none => return (none, f)
  | some row => do
    let value ← f.getValue row field
    return (value, f)

def getHSValue [Zero Double] (f : HSConfigFile K Double) (key : K) (field : Option (List UInt8)) :
    Except Fault (Option (HSValue Double) × HSConfigFile K Double) := do
  let (row, f) ← f.getDataRow key
  match row with
  | none => return (none, f)
  | some row => do
    let (value, row) ← f.getValueOf row field
    return (value, { f with dataKey2Data := Table.assign f.dataKey2Data key row })

end HSConfigFile
end HsCommon
