import HsCommon.Buffer
import HsCommon.Library.Framing

/-!
# hs_packetworker.cpp

A packet is the length of the user data and the identify number, both as 32-bit
big-endian numbers, and the user data. The place for the identify number is as
wide as an `unsigned long`, so with 8-byte longs the sources skip four bytes that
they never write. The sums of sizes are `size_t` and wrap; when a wrapped sum
passes the checks, the copy runs past the output area.
-/

namespace HsCommon

inductive ULongWidth
  | four
  | eight
  deriving DecidableEq, Repr

namespace ULongWidth

def size : ULongWidth → ℕ
  | four => 4
  | eight => 8

def header (w : ULongWidth) : ℕ := hsNetPacketHeaderLength + w.size

theorem header_pos (w : ULongWidth) : 8 ≤ w.header ∧ w.header ≤ 12 := by
  cases w <;> decide

theorem header_eq (w : ULongWidth) : w.header = 4 + w.size := rfl

theorem add_header_lt (w : ULongWidth) {n : ℕ} (h : n < 2 ^ 63) : n + w.header < 2 ^ 64 := by
  have := w.header_pos
  omega

theorem four_le_size (w : ULongWidth) : 4 ≤ w.size := by
  cases w <;> decide

end ULongWidth

def be32 (n : ℕ) : List UInt8 :=
  [UInt8.ofNat (n / 2 ^ 24), UInt8.ofNat (n / 2 ^ 16), UInt8.ofNat (n / 2 ^ 8), UInt8.ofNat n]

def readBe32 (m : ℕ → UInt8) (p : ℕ) : ℕ :=
  (m p).toNat * 2 ^ 24 + (m (p + 1)).toNat * 2 ^ 16 + (m (p + 2)).toNat * 2 ^ 8 + (m (p + 3)).toNat

inductive Decoded
  | error
  | incomplete
  | complete (userDataOffset userDataSize : ℕ)
  deriving DecidableEq, Repr

def decodePacket (w : ULongWidth) (packetData : Option (ℕ → UInt8)) (p size : ℕ) : Decoded :=
  match packetData with
  | none => .error
  | some m =>
    if size < w.header then .incomplete
    else
      let pl := readBe32 m p
      if pl > hsNetPacketMaxSize - w.header then .error
      else if readBe32 m (p + hsNetPacketHeaderLength) ≠ hsNetPacketIdentifyNumber then .error
      else if size < pl + w.header then .incomplete
      else .complete w.header pl

/-- Bytes of an object in memory, which is smaller than half the address space. -/
abbrev Payload := {bytes : List UInt8 // bytes.length < 2 ^ 63}

inductive Encoded
  | tooLong
  | noRoom
  | done (outData : ℕ → UInt8) (encodeSize : ℕ)

/-- The output area of `outDataSize` bytes is at address `p` of the memory. -/
def encodePacket (w : ULongWidth) (userData : List UInt8) (outData : Option (ℕ → UInt8))
    (p outDataSize : ℕ) : Except Fault Encoded :=
  let size := sizeAdd userData.length w.header
  if size > hsNetPacketMaxSize then .ok .tooLong
  else if size > outDataSize then .ok .noRoom
  else
    match outData with
    | none => .error .nullPointer
    | some m =>
      if userData.length + w.header > outDataSize then .error .overrun
      else
        let m := Cells.write m p (be32 userData.length)
        let m := Cells.write m (p + hsNetPacketHeaderLength) (be32 hsNetPacketIdentifyNumber)
        let m := Cells.write m (p + w.header) userData
        .ok (.done m size)

def encoding (w : ULongWidth) (userData skipped : List UInt8) : List UInt8 :=
  be32 userData.length ++ be32 hsNetPacketIdentifyNumber ++ skipped.take (w.size - 4) ++ userData

structure IsEncoding (w : ULongWidth) (userData x : List UInt8) : Prop where
  fits : userData.length + w.header ≤ hsNetPacketMaxSize
  eq : ∃ skipped, w.size - 4 ≤ skipped.length ∧ x = encoding w userData skipped

theorem be32_length (n : ℕ) : (be32 n).length = 4 := rfl

theorem encoding_length (w : ULongWidth) (userData : List UInt8) {skipped : List UInt8}
    (h : w.size - 4 ≤ skipped.length) :
    (encoding w userData skipped).length = w.header + userData.length := by
  have h4 := w.four_le_size
  simp only [encoding, List.length_append, be32_length, List.length_take, w.header_eq]
  omega

theorem IsEncoding.length {w : ULongWidth} {userData x : List UInt8} (h : IsEncoding w userData x) :
    x.length = w.header + userData.length := by
  obtain ⟨skipped, hs, rfl⟩ := h.eq
  exact encoding_length w userData hs

theorem encodePacket_eq {w : ULongWidth} {userData : List UInt8} {m : ℕ → UInt8} {p room : ℕ}
    (hlen : userData.length + w.header < 2 ^ 64) :
    encodePacket w userData (some m) p room =
      if userData.length + w.header > hsNetPacketMaxSize then .ok .tooLong
      else if userData.length + w.header > room then .ok .noRoom
      else .ok (.done (Cells.write m p (encoding w userData (Cells.read m (p + 8) 4)))
        (userData.length + w.header)) := by
  simp only [encodePacket, sizeAdd_eq hlen]
  split_ifs with h1 h2
  · rfl
  · rfl
  · have hskip : (Cells.read m (p + 8) 4).take (w.size - 4) =
        Cells.read m (p + 8) (w.size - 4) := by
      rw [Cells.read_take]
      congr 1
      cases w <;> rfl
    -- the skipped bytes are written with what they hold
    have hread : Cells.read (Cells.write (Cells.write m p (be32 userData.length)) (p + 4)
        (be32 hsNetPacketIdentifyNumber)) (p + 8) (w.size - 4) =
        Cells.read m (p + 8) (w.size - 4) := by
      rw [Cells.read_write_disjoint _ _ (Or.inr (by rw [be32_length])),
        Cells.read_write_disjoint _ _ (Or.inr (by rw [be32_length]; omega))]
    have hat : p + w.header = p + 8 + (w.size - 4) := by
      have := w.four_le_size
      rw [w.header_eq]
      omega
    rw [encoding, hskip, Cells.write_append, Cells.write_append, Cells.write_append]
    simp only [List.length_append, be32_length, Cells.read_length, hsNetPacketHeaderLength]
    rw [← hread, Cells.write_read, hat, Nat.add_assoc p 8]

theorem isEncoding_encoding {w : ULongWidth} {userData : List UInt8} {skipped : List UInt8}
    (hfits : userData.length + w.header ≤ hsNetPacketMaxSize) (hs : w.size - 4 ≤ skipped.length) :
    IsEncoding w userData (encoding w userData skipped) := ⟨hfits, skipped, hs, rfl⟩

theorem IsEncoding.ne_nil {w : ULongWidth} {userData x : List UInt8} (h : IsEncoding w userData x) :
    x ≠ [] := by
  intro he
  have hlen := h.length
  have := w.header_pos
  rw [he, List.length_nil] at hlen
  omega

theorem encodePacket_fits {w : ULongWidth} {b : HSBuffer} (h : b.Fits) {userData : List UInt8}
    (hsum : userData.length + w.header < 2 ^ 64) :
    (encodePacket w userData b.buffer b.inOffset b.getLeftInSize = .ok .tooLong ∧
      hsNetPacketMaxSize < userData.length + w.header) ∨
    (encodePacket w userData b.buffer b.inOffset b.getLeftInSize = .ok .noRoom ∧
      userData.length + w.header ≤ hsNetPacketMaxSize ∧
      b.length - b.inOffset < userData.length + w.header) ∨
    ∃ m x, encodePacket w userData b.buffer b.inOffset b.getLeftInSize = .ok (.done m x.length) ∧
      IsEncoding w userData x ∧ x.length ≤ b.length - b.inOffset ∧
      { b with buffer := some m } = b.put b.inOffset x := by
  have hh := w.header_pos
  have hleft : b.getLeftInSize = b.length - b.inOffset :=
    HSBuffer.getLeftInSize_eq h.in_le h.length_lt
  by_cases hlong : userData.length + w.header > hsNetPacketMaxSize
  · refine Or.inl ⟨?_, hlong⟩
    simp only [encodePacket, sizeAdd_eq hsum, if_pos hlong]
  by_cases hroom : userData.length + w.header > b.getLeftInSize
  · refine Or.inr (Or.inl ⟨?_, not_lt.mp hlong, hleft ▸ hroom⟩)
    simp only [encodePacket, sizeAdd_eq hsum, if_neg hlong, if_pos hroom]
  -- there is room, so there is a block
  obtain ⟨m, hm⟩ := Option.isSome_iff_exists.mp (h.some (by omega))
  have hskip : w.size - 4 ≤ (Cells.read m (b.inOffset + 8) 4).length := by
    rw [Cells.read_length]
    cases w <;> decide
  have henc := isEncoding_encoding (not_lt.mp hlong) hskip
  refine Or.inr (Or.inr ⟨Cells.write m b.inOffset (encoding w userData
    (Cells.read m (b.inOffset + 8) 4)), _, ?_, henc, ?_, ?_⟩)
  · rw [hm, encodePacket_eq hsum, if_neg hlong, if_neg hroom, henc.length, Nat.add_comm w.header]
  · rw [henc.length, ← hleft, Nat.add_comm]
    exact not_lt.mp hroom
  · simp only [HSBuffer.put, hm, Option.map_some]

theorem encodePacket_noRoom {w : ULongWidth} {userData : List UInt8} {outData : Option (ℕ → UInt8)}
    {p outDataSize : ℕ} (hshort : sizeAdd userData.length w.header ≤ hsNetPacketMaxSize)
    (hroom : outDataSize < userData.length + w.header) :
    encodePacket w userData outData p outDataSize = .ok .noRoom ∨
      ∃ f, encodePacket w userData outData p outDataSize = .error f := by
  have hlong : ¬ sizeAdd userData.length w.header > hsNetPacketMaxSize := not_lt.mpr hshort
  simp only [encodePacket, if_neg hlong]
  by_cases hchecked : sizeAdd userData.length w.header > outDataSize
  · exact Or.inl (if_pos hchecked)
  · rw [if_neg hchecked]
    refine Or.inr ?_
    cases outData with
    | none => exact ⟨_, rfl⟩
    | some m => exact ⟨_, if_pos hroom⟩

variable {w : ULongWidth} {m m' : ℕ → UInt8} {p q n : ℕ}

theorem readBe32_congr (h : ∀ k < 4, m (p + k) = m' (q + k)) : readBe32 m p = readBe32 m' q := by
  have h0 := h 0 (by omega)
  rw [Nat.add_zero, Nat.add_zero] at h0
  simp only [readBe32, h0, h 1 (by omega), h 2 (by omega), h 3 (by omega)]

theorem decodePacket_congr (h : ∀ k < n, m (p + k) = m' (q + k)) :
    decodePacket w (some m) p n = decodePacket w (some m') q n := by
  simp only [decodePacket]
  by_cases hn : n < w.header
  · rw [if_pos hn, if_pos hn]
  · have h8 := w.header_pos
    have hpl : readBe32 m p = readBe32 m' q := readBe32_congr fun k hk => h k (by omega)
    have hid : readBe32 m (p + hsNetPacketHeaderLength) =
        readBe32 m' (q + hsNetPacketHeaderLength) := by
      refine readBe32_congr fun k hk => ?_
      rw [Nat.add_assoc, Nat.add_assoc]
      exact h _ (by simp only [hsNetPacketHeaderLength]; omega)
    rw [if_neg hn, if_neg hn, hpl, hid]

theorem decodePacket_complete {offset size : ℕ}
    (h : decodePacket w (some m) p n = .complete offset size) :
    offset = w.header ∧ w.header + size ≤ n ∧ w.header + size ≤ hsNetPacketMaxSize := by
  have hh := w.header_pos
  simp only [decodePacket] at h
  split_ifs at h with h1 h2 h3 h4
  obtain ⟨rfl, rfl⟩ := Decoded.complete.inj h
  simp only [hsNetPacketMaxSize] at h2 ⊢
  exact ⟨trivial, by omega, by omega⟩

theorem decodePacket_mono {n' : ℕ} (hn : n ≤ n')
    (h : decodePacket w (some m) p n ≠ .incomplete) :
    decodePacket w (some m) p n' = decodePacket w (some m) p n := by
  simp only [decodePacket] at h ⊢
  split_ifs at h ⊢ <;> first | rfl | omega | exact absurd rfl h

theorem incomplete_lt (h : decodePacket w (some m) p n = .incomplete) : n < hsNetPacketMaxSize := by
  have hh := w.header_pos
  simp only [decodePacket] at h
  split_ifs at h with h1 h2 h3 h4
  · simp only [hsNetPacketMaxSize]
    omega
  · simp only [hsNetPacketMaxSize] at h2 ⊢
    omega

def decodeBytes (w : ULongWidth) (s : List UInt8) : Framing.Result (List UInt8) :=
  match decodePacket w (some fun i => s.getD i 0) 0 s.length with
  | .error => .rejected
  | .incomplete => .incomplete
  | .complete offset size => .frame ((s.drop offset).take size) (offset + size)

theorem decodePacket_read (m : ℕ → UInt8) (p n : ℕ) :
    decodePacket w (some m) p n =
      decodePacket w (some fun i => (Cells.read m p n).getD i 0) 0 (Cells.read m p n).length := by
  rw [Cells.read_length]
  refine decodePacket_congr fun k hk => ?_
  rw [Nat.zero_add, List.getD_eq_getElem?_getD, Cells.read_getElem?, if_pos hk, Option.getD_some]

theorem decodePacket_append (s r : List UInt8)
    (h : decodePacket w (some fun i => s.getD i 0) 0 s.length ≠ .incomplete) :
    decodePacket w (some fun i => (s ++ r).getD i 0) 0 (s ++ r).length =
      decodePacket w (some fun i => s.getD i 0) 0 s.length := by
  have hagree : decodePacket w (some fun i => (s ++ r).getD i 0) 0 s.length =
      decodePacket w (some fun i => s.getD i 0) 0 s.length := by
    refine decodePacket_congr fun k hk => ?_
    simp only [List.getD_eq_getElem?_getD]
    rw [List.getElem?_append_left (by omega)]
  rw [← hagree] at h ⊢
  exact decodePacket_mono (by rw [List.length_append]; omega) h

theorem incremental_decodeBytes (w : ULongWidth) : Framing.Incremental (decodeBytes w) where
  frame_le s v n h := by
    simp only [decodeBytes] at h
    split at h
    · cases h
    · cases h
    · rename_i offset size he
      obtain ⟨rfl, hle, -⟩ := decodePacket_complete he
      have := w.header_pos
      cases h
      omega
  frame_append s v n r h := by
    simp only [decodeBytes] at h ⊢
    split at h
    · cases h
    · cases h
    · rename_i offset size he
      rw [decodePacket_append s r (by rw [he]; exact fun hc => by cases hc), he]
      obtain ⟨rfl, hle, -⟩ := decodePacket_complete he
      cases h
      dsimp only
      rw [List.drop_append_of_le_length (by omega), List.take_append_of_le_length (by
        rw [List.length_drop]
        omega)]
  rejected_append s r h := by
    simp only [decodeBytes] at h ⊢
    split at h
    · rename_i he
      rw [decodePacket_append s r (by rw [he]; exact fun hc => by cases hc), he]
    · cases h
    · cases h

theorem decodeBytes_incomplete {u : List UInt8} (h : decodeBytes w u = .incomplete) :
    decodePacket w (some fun i => u.getD i 0) 0 u.length = .incomplete := by
  simp only [decodeBytes] at h
  split at h
  · cases h
  · assumption
  · cases h

theorem decodeBytes_rejected {u : List UInt8} (h : decodeBytes w u = .rejected) :
    decodePacket w (some fun i => u.getD i 0) 0 u.length = .error := by
  simp only [decodeBytes] at h
  split at h
  · assumption
  · cases h
  · cases h

theorem decodeBytes_frame {u v : List UInt8} {n : ℕ} (h : decodeBytes w u = .frame v n) :
    ∃ size, decodePacket w (some fun i => u.getD i 0) 0 u.length = .complete w.header size ∧
      v = (u.drop w.header).take size ∧ n = w.header + size ∧ w.header + size ≤ u.length := by
  simp only [decodeBytes] at h
  split at h
  · cases h
  · cases h
  · rename_i offset size he
    obtain ⟨rfl, hle, -⟩ := decodePacket_complete he
    cases h
    exact ⟨size, he, rfl, rfl, hle⟩

theorem decodeBytes_nil (w : ULongWidth) : decodeBytes w [] = .incomplete := by
  cases w <;> rfl

def HSRecvBuffer.decode (w : ULongWidth) (b : HSRecvBuffer) : Except Fault Decoded :=
  if b.getCanUseSize ≥ w.header ∧ b.inUsedOffset + 8 > b.length then .error .overrun
  else .ok (decodePacket w b.buffer b.inUsedOffset b.getCanUseSize)

theorem HSRecvBuffer.decode_eq {b : HSRecvBuffer} (h : b.Ok) :
    b.decode w = .ok (decodePacket w (some fun i => b.unread.getD i 0) 0 b.unread.length) := by
  have hin := h.in_le
  have hw := w.header_pos
  have hlen := b.unread_length
  obtain ⟨m, hm⟩ := Option.isSome_iff_exists.mp h.some
  have hread : b.unread = Cells.read m b.inUsedOffset b.unread.length := by
    rw [hlen, HSRecvBuffer.unread, HSBuffer.bytes, hm, Option.getD_some]
  rw [HSRecvBuffer.decode, h.getCanUseSize_eq, if_neg (by omega), hm, decodePacket_read, ← hread]

theorem HSRecvBuffer.Ok.round {b : HSRecvBuffer} (h : b.Ok) {v : List UInt8} {n : ℕ}
    (hframe : decodeBytes w b.unread = .frame v n) :
    ∃ size, b.decode w = .ok (.complete w.header size) ∧
      let b₁ := (b.dataUse w.header false).2
      let b₂ := (b₁.dataUse size false).2
      b₁.bytes b₁.inUsedOffset size = v ∧ b₂.Ok ∧ b₂.unread = b.unread.drop n ∧
        b₂.length = b.length ∧ (b₂.unread = [] → b₂.inOffset = 0) ∧
        (b₂.unread ≠ [] → b₂.inOffset = b.inOffset) := by
  obtain ⟨size, hdec, rfl, rfl, hle⟩ := decodeBytes_frame hframe
  have hw := w.header_pos
  obtain ⟨h₁, hun₁, hlen₁, -, hin₁⟩ := h.dataUse (n := w.header) (by omega)
  have hsize : size ≤ (b.dataUse w.header false).2.unread.length := by
    rw [hun₁, List.length_drop]
    omega
  obtain ⟨h₂, hun₂, hlen₂, hzero₂, hin₂⟩ := h₁.dataUse hsize
  refine ⟨size, ?_, ?_, h₂, ?_, hlen₂.trans hlen₁, fun hnil => hzero₂ (hun₂ ▸ hnil),
    fun hne => ?_⟩
  · rw [HSRecvBuffer.decode_eq h, hdec]
  · rw [← hun₁, HSRecvBuffer.unread, HSBuffer.bytes_take]
    rwa [← HSRecvBuffer.unread_length]
  · rw [hun₂, hun₁, List.drop_drop]
  · rw [hun₂] at hne
    rw [hin₂ hne, hin₁ fun hnil => hne (by rw [hun₁, hnil, List.drop_nil])]

theorem readBe32_be32 {k : ℕ} (hk : k < 2 ^ 32) (h : ∀ i < 4, (be32 k)[i]? = some (m (p + i))) :
    readBe32 m p = k := by
  have h0 := h 0 (by omega)
  have h1 := h 1 (by omega)
  have h2 := h 2 (by omega)
  have h3 := h 3 (by omega)
  simp only [be32, List.getElem?_cons_zero, List.getElem?_cons_succ, Option.some.injEq,
    Nat.add_zero] at h0 h1 h2 h3
  simp only [readBe32, ← h0, ← h1, ← h2, ← h3, UInt8.toNat_ofNat']
  omega

theorem IsEncoding.decodePacket_eq {userData x : List UInt8} (h : IsEncoding w userData x)
    (hm : ∀ k < x.length, x[k]? = some (m (p + k))) (n : ℕ) :
    decodePacket w (some m) p n =
      if n < x.length then .incomplete else .complete w.header userData.length := by
  have hh := w.header_pos
  have hfits := h.fits
  have hlen := h.length
  obtain ⟨skipped, hs, rfl⟩ := h.eq
  simp only [hsNetPacketMaxSize] at hfits
  have hpl : readBe32 m p = userData.length := by
    refine readBe32_be32 (by omega) fun i hi => ?_
    rw [← hm i (by omega), encoding, List.append_assoc, List.append_assoc,
      List.getElem?_append_left (by rw [be32_length]; exact hi)]
  have hid : readBe32 m (p + hsNetPacketHeaderLength) = hsNetPacketIdentifyNumber := by
    refine readBe32_be32 (by decide) fun i hi => ?_
    rw [hsNetPacketHeaderLength, Nat.add_assoc, ← hm (4 + i) (by omega), encoding,
      List.append_assoc, List.append_assoc, List.getElem?_append_right (by rw [be32_length]; omega),
      List.getElem?_append_left (by rw [be32_length, be32_length]; omega), be32_length,
      Nat.add_sub_cancel_left]
  simp only [decodePacket, hpl, hid, hlen]
  rw [if_neg (show ¬ userData.length > hsNetPacketMaxSize - w.header by
    simp only [hsNetPacketMaxSize]; omega), if_neg (not_not.mpr rfl)]
  split_ifs <;> first | rfl | omega

theorem IsEncoding.decodes {userData x : List UInt8} (h : IsEncoding w userData x) :
    Framing.Decodes (decodeBytes w) ⟨x, userData⟩ where
  whole := by
    have hx : ∀ k < x.length, x[k]? = some ((fun i => x.getD i 0) (0 + k)) := by
      intro k hk
      dsimp only
      rw [Nat.zero_add, List.getD_eq_getElem?_getD, List.getElem?_eq_getElem hk, Option.getD_some]
    have hdec := @IsEncoding.decodePacket_eq w (fun i => x.getD i 0) 0 userData x h hx x.length
    rw [if_neg (lt_irrefl _)] at hdec
    simp only [decodeBytes, hdec]
    obtain ⟨skipped, hs, rfl⟩ := h.eq
    have hlen := encoding_length w [] hs
    have hdrop : (encoding w userData skipped).drop w.header = userData := by
      rw [encoding, List.drop_left']
      simp only [List.length_append, be32_length, List.length_take, w.header_eq]
      have := w.four_le_size
      omega
    rw [hdrop, List.take_length, encoding_length w userData hs]
  part s hs hlt := by
    have hx : ∀ k < s.length, x.getD (0 + k) 0 = s.getD (0 + k) 0 := by
      intro k hk
      obtain ⟨t, rfl⟩ := hs
      simp only [List.getD_eq_getElem?_getD]
      rw [List.getElem?_append_left (by omega)]
    have hfull : ∀ k < x.length, x[k]? = some ((fun i => x.getD i 0) (0 + k)) := by
      intro k hk
      dsimp only
      rw [Nat.zero_add, List.getD_eq_getElem?_getD, List.getElem?_eq_getElem hk, Option.getD_some]
    have hdec := @IsEncoding.decodePacket_eq w (fun i => x.getD i 0) 0 userData x h hfull s.length
    have hsame : decodePacket w (some fun i => x.getD i 0) 0 s.length =
        decodePacket w (some fun i => s.getD i 0) 0 s.length := decodePacket_congr hx
    rw [if_pos hlt, hsame] at hdec
    simp only [decodeBytes, hdec]

theorem sizeAdd_wrapped {a b : ℕ} (ha : a < 2 ^ 64) (hb : b < 2 ^ 64) (h : 2 ^ 64 ≤ a + b) :
    sizeAdd a b = a + b - 2 ^ 64 := by
  unfold sizeAdd
  omega

theorem encodePacket_checks (w : ULongWidth) (userData : List UInt8) (outData : Option (ℕ → UInt8))
    (p outDataSize : ℕ) :
    (encodePacket w userData outData p outDataSize ≠ .ok .tooLong ∧
        encodePacket w userData outData p outDataSize ≠ .ok .noRoom) ↔
      sizeAdd userData.length w.header ≤ hsNetPacketMaxSize ∧
        sizeAdd userData.length w.header ≤ outDataSize := by
  simp only [encodePacket]
  by_cases hlong : sizeAdd userData.length w.header > hsNetPacketMaxSize
  · rw [if_pos hlong]
    exact ⟨fun h => absurd rfl h.1, fun h => absurd h.1 (not_le.mpr hlong)⟩
  · rw [if_neg hlong]
    by_cases hroom : sizeAdd userData.length w.header > outDataSize
    · rw [if_pos hroom]
      exact ⟨fun h => absurd rfl h.2, fun h => absurd h.2 (not_le.mpr hroom)⟩
    · rw [if_neg hroom]
      refine iff_of_true ?_ ⟨not_lt.mp hlong, not_lt.mp hroom⟩
      cases outData with
      | none => simp
      | some m =>
        dsimp only
        split_ifs <;> simp

/-- The checks admit no more than there is room for just when the sums do not wrap, or the wrapped
sum is refused. `EncodePacket` has passed its checks when it returns neither -1 nor 0, `DataIn` with
the data when it does not return false; they copy then. -/
theorem lengthChecks_exact_iff (w : ULongWidth) {userData data : List UInt8}
    {outData : Option (ℕ → UInt8)} {p outDataSize dataLen : ℕ} {b : HSBuffer}
    (hsize : userData.length < 2 ^ 64) (hin : b.inOffset ≤ b.length) (hlength : b.length < 2 ^ 64)
    (hdata : data.length < 2 ^ 64) (hlen : dataLen < 2 ^ 64) :
    ((encodePacket w userData outData p outDataSize ≠ .ok .tooLong ∧
        encodePacket w userData outData p outDataSize ≠ .ok .noRoom →
        userData.length + w.header ≤ hsNetPacketMaxSize ∧
          userData.length + w.header ≤ outDataSize) ↔
      userData.length + w.header < 2 ^ 64 ∨
        outDataSize < userData.length + w.header - 2 ^ 64) ∧
    ((b.dataInFrom data ≠ .ok (false, b) → data.length ≤ b.length - b.inOffset) ↔
      b.inOffset + data.length < 2 ^ 64) ∧
    (((b.dataIn dataLen).1 = true → dataLen ≤ b.length - b.inOffset) ↔
      b.inOffset + dataLen < 2 ^ 64) := by
  have hheader := w.header_pos
  have hmax : hsNetPacketMaxSize = 8192 := rfl
  refine ⟨?_, ?_, ?_⟩
  · rw [encodePacket_checks]
    by_cases hwrap : userData.length + w.header < 2 ^ 64
    · rw [sizeAdd_eq hwrap]
      exact iff_of_true id (Or.inl hwrap)
    · rw [sizeAdd_wrapped hsize (by omega) (not_lt.mp hwrap)]
      omega
  · by_cases hwrap : b.inOffset + data.length < 2 ^ 64
    · refine iff_of_true (fun hpassed => ?_) hwrap
      by_contra hover
      rw [HSBuffer.dataInFrom, sizeAdd_eq hwrap, if_pos (by omega)] at hpassed
      exact hpassed rfl
    · refine iff_of_false (fun hexact => ?_) hwrap
      have hsum := sizeAdd_wrapped (by omega) hdata (not_lt.mp hwrap)
      have hpassed : b.dataInFrom data ≠ .ok (false, b) := by
        rw [HSBuffer.dataInFrom, hsum, if_neg (by omega)]
        split_ifs with hnull hover
        · simp
        · simp
        · omega
      have hle := hexact hpassed
      omega
  · by_cases hwrap : b.inOffset + dataLen < 2 ^ 64
    · refine iff_of_true (fun hpassed => ?_) hwrap
      by_contra hover
      rw [HSBuffer.dataIn, sizeAdd_eq hwrap, if_pos (by omega)] at hpassed
      cases hpassed
    · refine iff_of_false (fun hexact => ?_) hwrap
      have hsum := sizeAdd_wrapped (by omega) hlen (not_lt.mp hwrap)
      have hpassed : (b.dataIn dataLen).1 = true := by
        rw [HSBuffer.dataIn, hsum, if_neg (by omega)]
      have hle := hexact hpassed
      omega

theorem lengthChecks_exact_half :
    ((HSBuffer.new 4 fun _ => 0).dataInFrom [1, 2] ≠ .ok (false, HSBuffer.new 4 fun _ => 0) →
      2 ≤ 4 - 0) ∧
    (((HSBuffer.new 4 fun _ => 0).dataIn 4).1 = true → 4 ≤ 4 - 0) := by
  have hchecks := @lengthChecks_exact_iff .eight [1] [1, 2] none 0 0 4 (HSBuffer.new 4 fun _ => 0)
    (by decide) (by decide) (by decide) (by decide) (by decide)
  exact ⟨hchecks.2.1.mpr (by decide), hchecks.2.2.mpr (by decide)⟩

theorem dataIn_wraps :
    let b := ((HSBuffer.new 4 fun _ => 0).dataIn 2).2
    b.inOffset = 2 ∧ b.length = 4 ∧ (b.dataIn (2 ^ 64 - 1)).1 = true ∧
      (b.dataIn (2 ^ 64 - 1)).2.inOffset = 1 ∧ ¬ 2 ^ 64 - 1 ≤ b.length - b.inOffset := by
  decide

end HsCommon
