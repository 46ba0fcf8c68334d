import HsCommon.Define
import HsCommon.Library.Cells

/-!
# hs_buffer.h

A buffer is a block of memory with two offsets into it; `none` is the NULL
pointer. Offsets are `size_t`: their sums and differences wrap. The receive
buffer adds the offset up to which its bytes have been used, the send buffer the
offset up to which they have been sent; both go back to the start of the block
when the offset meets the end of the data.
-/

namespace HsCommon

structure HSBuffer where
  buffer : Option (ℕ → UInt8)
  length : ℕ
  inOffset : ℕ
  outOffset : ℕ

namespace HSBuffer

/-- `mem` is what the new block happens to contain. For length 0 no block is made and the pointer
is never set. -/
def new (len : ℕ) (mem : ℕ → UInt8) : HSBuffer := ⟨if len = 0 then none else some mem, len, 0, 0⟩

def setLength (b : HSBuffer) (len : ℕ) (mem : ℕ → UInt8) : HSBuffer :=
  if len ≠ 0 ∧ b.length ≠ 0 ∧ len ≠ b.length then { b with buffer := some mem, length := len }
  else b

def clear (b : HSBuffer) (clearMemory : Bool) : HSBuffer :=
  if clearMemory then ⟨none, 0, 0, 0⟩ else { b with inOffset := 0, outOffset := 0 }

/-- The bytes from `p` on; a NULL buffer has none to read. -/
def bytes (b : HSBuffer) (p n : ℕ) : List UInt8 := Cells.read (b.buffer.getD fun _ => 0) p n

def put (b : HSBuffer) (p : ℕ) (xs : List UInt8) : HSBuffer :=
  { b with buffer := b.buffer.map fun m => Cells.write m p xs }

/-- `DataIn(size_t)`: the data is already in place. -/
def dataIn (b : HSBuffer) (dataLen : ℕ) : Bool × HSBuffer :=
  if sizeAdd b.inOffset dataLen > b.length then (false, b)
  else (true, { b with inOffset := sizeAdd b.inOffset dataLen })

/-- `DataIn(const char*, size_t)` -/
def dataInFrom (b : HSBuffer) (data : List UInt8) : Except Fault (Bool × HSBuffer) :=
  if sizeAdd b.inOffset data.length > b.length then .ok (false, b)
  else if b.buffer.isNone ∧ data ≠ [] then .error .nullPointer
  else if b.inOffset + data.length > b.length then .error .overrun
  else .ok (true, { b.put b.inOffset data with inOffset := sizeAdd b.inOffset data.length })

def dataOut (b : HSBuffer) (outDataLen : ℕ) : Bool × HSBuffer :=
  if sizeSub b.inOffset b.outOffset < outDataLen then (false, b)
  else (true, { b with outOffset := sizeAdd b.outOffset outDataLen })

/-- `DataOut(char*, size_t)`, with the bytes copied out. -/
def dataOutTo (b : HSBuffer) (outDataLen : ℕ) : Except Fault (Option (List UInt8) × HSBuffer) :=
  if sizeSub b.inOffset b.outOffset < outDataLen then .ok (none, b)
  else if b.buffer.isNone ∧ outDataLen ≠ 0 then .error .nullPointer
  else if b.outOffset + outDataLen > b.length then .error .overrun
  else .ok (some (b.bytes b.outOffset outDataLen),
    { b with outOffset := sizeAdd b.outOffset outDataLen })

def getLeftInSize (b : HSBuffer) : ℕ := sizeSub b.length b.inOffset

theorem setLength_inOffset (b : HSBuffer) (len : ℕ) (mem : ℕ → UInt8) :
    (b.setLength len mem).inOffset = b.inOffset := by
  rw [setLength]
  split_ifs <;> rfl

theorem setLength_pos {b : HSBuffer} (h : 0 < b.length) {len : ℕ} {mem : ℕ → UInt8} :
    0 < (b.setLength len mem).length := by
  rw [setLength]
  split_ifs with hc
  · exact Nat.pos_of_ne_zero hc.1
  · exact h

theorem bytes_length (b : HSBuffer) (p n : ℕ) : (b.bytes p n).length = n := Cells.read_length _ _ _

theorem bytes_add (b : HSBuffer) (p m n : ℕ) :
    b.bytes p (m + n) = b.bytes p m ++ b.bytes (p + m) n := Cells.read_add _ _ _ _

theorem bytes_take (b : HSBuffer) (p : ℕ) {k n : ℕ} (h : k ≤ n) :
    (b.bytes p n).take k = b.bytes p k := by
  rw [bytes, Cells.read_take, min_eq_left h, bytes]

theorem dataIn_eq {b : HSBuffer} {n : ℕ} (h : b.inOffset + n ≤ b.length) (hl : b.length < 2 ^ 64) :
    b.dataIn n = (true, { b with inOffset := b.inOffset + n }) := by
  have hs : sizeAdd b.inOffset n = b.inOffset + n := sizeAdd_eq (by omega)
  rw [dataIn, hs, if_neg (by omega)]

theorem dataIn_length (b : HSBuffer) (n : ℕ) : (b.dataIn n).2.length = b.length := by
  rw [dataIn]
  split_ifs <;> rfl

theorem getLeftInSize_eq {b : HSBuffer} (h : b.inOffset ≤ b.length) (hl : b.length < 2 ^ 64) :
    b.getLeftInSize = b.length - b.inOffset := sizeSub_eq h hl

theorem bytes_put {b : HSBuffer} (hb : b.buffer.isSome) (p : ℕ) (xs : List UInt8) :
    (b.put p xs).bytes p xs.length = xs := by
  obtain ⟨m, hm⟩ := Option.isSome_iff_exists.mp hb
  simp only [put, bytes, hm, Option.map_some, Option.getD_some]
  exact Cells.read_write m p xs

theorem put_nil (b : HSBuffer) (p : ℕ) : b.put p [] = b := by
  have hsame : ∀ m : ℕ → UInt8, Cells.write m p [] = m := fun m => funext fun i => by
    simp [Cells.write]
  simp only [put, hsame, Option.map_id']

theorem bytes_put_before (b : HSBuffer) {p q n : ℕ} (xs : List UInt8) (h : q + n ≤ p) :
    (b.put p xs).bytes q n = b.bytes q n := by
  simp only [put, bytes]
  cases b.buffer with
  | none => rfl
  | some m => exact Cells.read_write_disjoint m xs (Or.inl h)

theorem bytes_put_append {b : HSBuffer} (hb : b.buffer.isSome) {p q n : ℕ} (xs : List UInt8)
    (h : q + n = p) : (b.put p xs).bytes q (n + xs.length) = b.bytes q n ++ xs := by
  rw [bytes_add, bytes_put_before b xs h.le, h, bytes_put hb]

structure Fits (b : HSBuffer) : Prop where
  some : 0 < b.length → b.buffer.isSome
  in_le : b.inOffset ≤ b.length
  length_lt : b.length < 2 ^ 64

theorem fits_new {len : ℕ} (hlen : len < 2 ^ 64) (mem : ℕ → UInt8) : (new len mem).Fits where
  some h := by
    have hne : len ≠ 0 := h.ne'
    simp [new, hne]
  in_le := Nat.zero_le _
  length_lt := hlen

end HSBuffer

structure HSRecvBuffer extends HSBuffer where
  inUsedOffset : ℕ
  usedOutReset : Bool

namespace HSRecvBuffer

def new (len : ℕ) (mem : ℕ → UInt8) : HSRecvBuffer := ⟨.new len mem, 0, true⟩

def clear (b : HSRecvBuffer) (clearMemory : Bool) : HSRecvBuffer :=
  ⟨b.toHSBuffer.clear clearMemory, 0, true⟩

def canUse (b : HSRecvBuffer) (len : ℕ) : Bool := !(sizeSub b.inOffset b.inUsedOffset < len)

def dataUse (b : HSRecvBuffer) (len : ℕ) (check : Bool) : Bool × HSRecvBuffer :=
  if check && !b.canUse len then (false, b)
  else
    let used := sizeAdd b.inUsedOffset len
    if used = b.inOffset ∧ b.usedOutReset then (true, { b with inOffset := 0, inUsedOffset := 0 })
    else (true, { b with inUsedOffset := used })

def moveUnuseData2Begin (b : HSRecvBuffer) : HSRecvBuffer :=
  if b.inUsedOffset < b.inOffset then
    { b with
      buffer := b.buffer.map fun m => Cells.move m 0 b.inUsedOffset (b.inOffset - b.inUsedOffset)
      inOffset := b.inOffset - b.inUsedOffset
      inUsedOffset := 0 }
  else b

def setUsedOutReset (b : HSRecvBuffer) (reset : Bool) : HSRecvBuffer :=
  { b with usedOutReset := reset }

def getUsedSize (b : HSRecvBuffer) : ℕ := b.inUsedOffset

def getCanUseSize (b : HSRecvBuffer) : ℕ := sizeSub b.inOffset b.inUsedOffset

def unread (b : HSRecvBuffer) : List UInt8 := b.bytes b.inUsedOffset (b.inOffset - b.inUsedOffset)

/-- The offsets are in order and a used-up buffer starts over. -/
structure Ok (b : HSRecvBuffer) : Prop where
  some : b.buffer.isSome
  used_le : b.inUsedOffset ≤ b.inOffset
  in_le : b.inOffset ≤ b.length
  length_lt : b.length < 2 ^ 64
  reset : b.usedOutReset = true

theorem new_ok {len : ℕ} (mem : ℕ → UInt8) (h : 0 < len) (hl : len < 2 ^ 64) :
    (new len mem).Ok where
  some := by simp [new, HSBuffer.new, h.ne']
  used_le := le_rfl
  in_le := Nat.zero_le _
  length_lt := hl
  reset := rfl

variable {b : HSRecvBuffer}

theorem Ok.getCanUseSize_eq (h : b.Ok) : b.getCanUseSize = b.unread.length := by
  rw [unread, HSBuffer.bytes_length]
  exact sizeSub_eq h.used_le (lt_of_le_of_lt h.in_le h.length_lt)

theorem unread_length (b : HSRecvBuffer) : b.unread.length = b.inOffset - b.inUsedOffset :=
  HSBuffer.bytes_length _ _ _

theorem Ok.arrive (h : b.Ok) (xs : List UInt8) (hx : xs.length ≤ b.length - b.inOffset) :
    let b' : HSRecvBuffer :=
      { b with toHSBuffer := ((b.toHSBuffer.put b.inOffset xs).dataIn xs.length).2 }
    b'.Ok ∧ b'.unread = b.unread ++ xs ∧ b'.length = b.length ∧
      b'.inUsedOffset = b.inUsedOffset ∧ b'.inOffset = b.inOffset + xs.length := by
  have hin := h.in_le
  have hused := h.used_le
  have hd := HSBuffer.dataIn_eq (b := b.toHSBuffer.put b.inOffset xs) (n := xs.length)
    (by simp only [HSBuffer.put]; omega) h.length_lt
  intro b'
  have hb' : b' = { b with toHSBuffer :=
      { b.toHSBuffer.put b.inOffset xs with inOffset := b.inOffset + xs.length } } := by
    simp only [b', hd]
    rfl
  rw [hb']
  refine ⟨⟨?_, ?_, ?_, h.length_lt, h.reset⟩, ?_, rfl, rfl, rfl⟩
  · simpa [HSBuffer.put] using h.some
  · dsimp only
    omega
  · simp only [HSBuffer.put]
    omega
  · have hlen : b.inOffset + xs.length - b.inUsedOffset =
        b.inOffset - b.inUsedOffset + xs.length := by omega
    simp only [unread, hlen]
    exact HSBuffer.bytes_put_append h.some xs (by omega)

theorem Ok.dataUse (h : b.Ok) {n : ℕ} (hn : n ≤ b.unread.length) :
    (b.dataUse n false).2.Ok ∧ (b.dataUse n false).2.unread = b.unread.drop n ∧
      (b.dataUse n false).2.length = b.length ∧
      (b.unread.drop n = [] → (b.dataUse n false).2.inOffset = 0) ∧
      (b.unread.drop n ≠ [] → (b.dataUse n false).2.inOffset = b.inOffset) := by
  have hin := h.in_le
  have hused := h.used_le
  have hlt := h.length_lt
  rw [unread_length] at hn
  have hs : sizeAdd b.inUsedOffset n = b.inUsedOffset + n := sizeAdd_eq (by omega)
  simp only [HSRecvBuffer.dataUse, Bool.false_and, Bool.false_eq_true, if_false, hs, h.reset,
    and_true]
  by_cases he : b.inUsedOffset + n = b.inOffset
  · rw [if_pos he]
    have hall : b.unread.drop n = [] := by
      rw [List.drop_eq_nil_iff, unread_length]
      omega
    refine ⟨⟨h.some, le_rfl, Nat.zero_le _, hlt, rfl⟩, ?_, rfl, fun _ => rfl,
      fun hne => absurd hall hne⟩
    rw [hall]
    rfl
  · rw [if_neg he]
    refine ⟨⟨h.some, ?_, hin, hlt, rfl⟩, ?_, rfl, fun hall => ?_, fun _ => rfl⟩
    · dsimp only
      omega
    · simp only [unread, HSBuffer.bytes, Cells.read_drop]
      congr 1
      omega
    · rw [List.drop_eq_nil_iff, unread_length] at hall
      omega

theorem Ok.moveUnuseData2Begin (h : b.Ok) :
    b.moveUnuseData2Begin.Ok ∧ b.moveUnuseData2Begin.unread = b.unread ∧
      b.moveUnuseData2Begin.length = b.length ∧
      (b.unread ≠ [] → b.moveUnuseData2Begin.inOffset = b.unread.length) ∧
      (b.unread = [] → b.moveUnuseData2Begin.inOffset = b.inOffset) := by
  have hin := h.in_le
  obtain ⟨m, hm⟩ := Option.isSome_iff_exists.mp h.some
  rw [HSRecvBuffer.moveUnuseData2Begin]
  by_cases hlt : b.inUsedOffset < b.inOffset
  · rw [if_pos hlt]
    refine ⟨⟨by simp [hm], Nat.zero_le _, by dsimp only; omega, h.length_lt, h.reset⟩, ?_, rfl, ?_,
      ?_⟩
    · simp only [unread, HSBuffer.bytes, hm, Option.map_some, Option.getD_some, Nat.sub_zero]
      exact Cells.read_move m 0 b.inUsedOffset _
    · intro _
      rw [unread_length]
    · intro hnil
      rw [← List.length_eq_zero_iff, unread_length] at hnil
      omega
  · rw [if_neg hlt]
    refine ⟨h, rfl, rfl, fun hne => absurd ?_ hne, fun _ => rfl⟩
    rw [← List.length_eq_zero_iff, unread_length]
    omega

theorem Ok.setLength (h : b.Ok) (hempty : b.inOffset = 0) {len : ℕ} (hpos : 0 < len)
    (hl : len < 2 ^ 64) (mem : ℕ → UInt8) :
    let b' : HSRecvBuffer := { b with toHSBuffer := b.toHSBuffer.setLength len mem }
    b'.Ok ∧ b'.unread = [] ∧ (0 < b.length → b'.length = len) := by
  have hused := h.used_le
  have hnil : ∀ b' : HSRecvBuffer, b'.inOffset = 0 → b'.unread = [] := by
    intro b' hb'
    rw [← List.length_eq_zero_iff, unread_length, hb', Nat.zero_sub]
  simp only [HSBuffer.setLength]
  split_ifs with hc
  · exact ⟨⟨rfl, hused, by dsimp only; omega, hl, h.reset⟩, hnil _ hempty, fun _ => rfl⟩
  · exact ⟨h, hnil _ hempty, fun hb => by omega⟩

theorem unread_length_le (b : HSRecvBuffer) : b.unread.length ≤ b.inOffset := by
  rw [unread_length]
  omega

end HSRecvBuffer

structure HSSendBuffer extends HSBuffer where
  sentOffset : ℕ
  sentOutReset : Bool

namespace HSSendBuffer

def new (len : ℕ) (mem : ℕ → UInt8) : HSSendBuffer := ⟨.new len mem, 0, true⟩

def clear (b : HSSendBuffer) (clearMemory : Bool) : HSSendBuffer :=
  ⟨b.toHSBuffer.clear clearMemory, 0, true⟩

def getCanSendSize (b : HSSendBuffer) : Except Fault ℕ :=
  if b.inOffset ≥ b.sentOffset then .ok (sizeSub b.inOffset b.sentOffset) else .error .assertFailed

def setSentOutReset (b : HSSendBuffer) (reset : Bool) : HSSendBuffer :=
  { b with sentOutReset := reset }

def canSend (b : HSSendBuffer) (length : ℕ) : Except Fault Bool := do
  let canSendSize ← b.getCanSendSize
  return !(length > canSendSize)

def sent (b : HSSendBuffer) (length : ℕ) : HSSendBuffer :=
  let sentOffset := sizeAdd b.sentOffset length
  if b.sentOutReset ∧ sentOffset = b.inOffset then { b with inOffset := 0, sentOffset := 0 }
  else { b with sentOffset := sentOffset }

/-- `Sent(length, true)` -/
def sentChecked (b : HSSendBuffer) (length : ℕ) : Except Fault (Bool × HSSendBuffer) := do
  let fits ← b.canSend length
  if !fits then return (false, b)
  else return (true, b.sent length)

def unsent (b : HSSendBuffer) : List UInt8 := b.bytes b.sentOffset (b.inOffset - b.sentOffset)

structure Ok (b : HSSendBuffer) : Prop where
  some : 0 < b.length → b.buffer.isSome
  sent_le : b.sentOffset ≤ b.inOffset
  in_le : b.inOffset ≤ b.length
  length_lt : b.length < 2 ^ 64
  reset : b.sentOutReset = true

theorem new_ok {len : ℕ} (mem : ℕ → UInt8) (hl : len < 2 ^ 64) : (new len mem).Ok where
  some h := by
    have hne : len ≠ 0 := h.ne'
    simp [new, HSBuffer.new, hne]
  sent_le := le_rfl
  in_le := Nat.zero_le _
  length_lt := hl
  reset := rfl

variable {b : HSSendBuffer}

theorem Ok.fits (h : b.Ok) : b.Fits := ⟨h.some, h.in_le, h.length_lt⟩

theorem unsent_length (b : HSSendBuffer) : b.unsent.length = b.inOffset - b.sentOffset :=
  HSBuffer.bytes_length _ _ _

theorem Ok.getCanSendSize_eq (h : b.Ok) : b.getCanSendSize = .ok b.unsent.length := by
  rw [getCanSendSize, if_pos h.sent_le, unsent_length,
    sizeSub_eq h.sent_le (lt_of_le_of_lt h.in_le h.length_lt)]

theorem Ok.setLength (h : b.Ok) (hempty : b.inOffset = 0) {len : ℕ} (hl : len < 2 ^ 64)
    (mem : ℕ → UInt8) :
    let b' : HSSendBuffer := { b with toHSBuffer := b.toHSBuffer.setLength len mem }
    b'.Ok ∧ b'.inOffset = 0 := by
  have hsent := h.sent_le
  simp only [HSBuffer.setLength]
  split_ifs
  · refine ⟨⟨fun _ => rfl, hsent, ?_, hl, h.reset⟩, hempty⟩
    dsimp only
    omega
  · exact ⟨h, hempty⟩

theorem Ok.clear (h : b.Ok) : (b.clear false).Ok where
  some := h.some
  sent_le := le_rfl
  in_le := Nat.zero_le _
  length_lt := h.length_lt
  reset := rfl

theorem Ok.sent (h : b.Ok) {n : ℕ} (hn : n ≤ b.unsent.length) :
    (b.sent n).Ok ∧ (b.sent n).unsent = b.unsent.drop n := by
  have hsent := h.sent_le
  have hin := h.in_le
  have hlt := h.length_lt
  rw [unsent_length] at hn
  have hs : sizeAdd b.sentOffset n = b.sentOffset + n := sizeAdd_eq (by omega)
  simp only [HSSendBuffer.sent, hs, h.reset, true_and]
  by_cases he : b.sentOffset + n = b.inOffset
  · rw [if_pos he]
    refine ⟨⟨h.some, le_rfl, Nat.zero_le _, hlt, rfl⟩, ?_⟩
    have hall : b.unsent.drop n = [] := by
      rw [List.drop_eq_nil_iff, unsent_length]
      omega
    rw [hall]
    rfl
  · rw [if_neg he]
    refine ⟨⟨h.some, ?_, hin, hlt, rfl⟩, ?_⟩
    · dsimp only
      omega
    · simp only [unsent, HSBuffer.bytes, Cells.read_drop]
      congr 1
      omega

theorem sent_length (b : HSSendBuffer) (n : ℕ) : (b.sent n).length = b.length := by
  rw [sent]
  split_ifs <;> rfl

theorem Ok.put_end (h : b.Ok) {xs : List UInt8} (hne : xs ≠ [])
    (hx : xs.length ≤ b.length - b.inOffset) :
    (b.put b.inOffset xs).bytes b.inOffset xs.length = xs ∧
      (b.put b.inOffset xs).dataIn xs.length =
        (true, { b.put b.inOffset xs with inOffset := b.inOffset + xs.length }) := by
  have hin := h.in_le
  have hpos := List.length_pos_iff.mpr hne
  refine ⟨HSBuffer.bytes_put (h.some (by omega)) _ _, HSBuffer.dataIn_eq ?_ h.length_lt⟩
  simp only [HSBuffer.put]
  omega

theorem Ok.append (h : b.Ok) {xs : List UInt8} (hne : xs ≠ [])
    (hx : xs.length ≤ b.length - b.inOffset) :
    let b' : HSSendBuffer :=
      { b with toHSBuffer := ((b.toHSBuffer.put b.inOffset xs).dataIn xs.length).2 }
    b'.Ok ∧ b'.unsent = b.unsent ++ xs ∧ b'.sentOffset = b.sentOffset ∧
      b'.inOffset = b.inOffset + xs.length := by
  have hin := h.in_le
  have hsent := h.sent_le
  have hpos := List.length_pos_iff.mpr hne
  intro b'
  have hb' : b' = { b with toHSBuffer :=
      { b.toHSBuffer.put b.inOffset xs with inOffset := b.inOffset + xs.length } } := by
    simp only [b', (h.put_end hne hx).2]
  rw [hb']
  refine ⟨⟨?_, ?_, ?_, h.length_lt, h.reset⟩, ?_, rfl, rfl⟩
  · simpa [HSBuffer.put] using h.some
  · dsimp only
    omega
  · simp only [HSBuffer.put]
    omega
  · have hlen : b.inOffset + xs.length - b.sentOffset =
        b.inOffset - b.sentOffset + xs.length := by omega
    simp only [unsent, hlen]
    exact HSBuffer.bytes_put_append (h.some (by omega)) xs (by omega)

end HSSendBuffer

end HsCommon
