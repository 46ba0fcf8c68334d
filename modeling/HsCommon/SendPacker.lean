import HsCommon.ClientConnector

/-!
# Writing and sending a packet

`HSSendDataPacker::Write` puts the whole packet at the end of the data or changes
nothing. `Send` then offers the unsent bytes to the socket and reports a failure of
either step with -1, so after -1 the packet may be in the buffer or not.
-/

namespace HsCommon.HSClientConnector

variable {w : ULongWidth} {results : ℕ → ℤ} {c : HSClientConnector} {data x : List UInt8}

def Fits (w : ULongWidth) (data : List UInt8) (b : HSBuffer) : Prop :=
  data.length + w.header ≤ hsNetPacketMaxSize ∧ data.length + w.header ≤ b.length - b.inOffset

def queued (x : List UInt8) (c : HSClientConnector) : HSClientConnector :=
  { c with
    sendBuffer := { c.sendBuffer with toHSBuffer :=
      ((c.sendBuffer.put c.sendBuffer.inOffset x).dataIn x.length).2 }
    written := c.written ++ [x]
    tags := Cells.write c.tags c.sendBuffer.inOffset
      (List.range' c.written.flatten.length x.length) }

theorem queued_buffer (hb : c.sendBuffer.Fits)
    (hx : x.length ≤ c.sendBuffer.length - c.sendBuffer.inOffset) :
    (c.sendBuffer.put c.sendBuffer.inOffset x).dataIn x.length =
      (true, { c.sendBuffer.put c.sendBuffer.inOffset x with
        inOffset := c.sendBuffer.inOffset + x.length }) := by
  have hin := hb.in_le
  refine HSBuffer.dataIn_eq ?_ hb.length_lt
  simp only [HSBuffer.put]
  omega

theorem write_fits (hp : c.packer = true) (hb : c.sendBuffer.Fits)
    (hsum : data.length + w.header < 2 ^ 64) :
    (∃ r, c.write w data = .ok (r, c) ∧ (r = 0 ∨ r = -1) ∧ ¬ Fits w data c.sendBuffer.toHSBuffer) ∨
    ∃ x, c.write w data = .ok (1, c.queued x) ∧ IsEncoding w data x ∧
      x.length ≤ c.sendBuffer.length - c.sendBuffer.inOffset := by
  have hpacker : ¬ ((!c.packer) = true) := by simp [hp]
  rcases encodePacket_fits (w := w) hb hsum with
    ⟨he, hlong⟩ | ⟨he, -, hroom⟩ | ⟨m, x, he, henc, hx, hput⟩
  · refine Or.inl ⟨-1, ?_, Or.inr rfl, fun hfits => absurd hfits.1 (not_le.mpr hlong)⟩
    rw [write, if_neg hpacker, he]
    rfl
  · refine Or.inl ⟨0, ?_, Or.inl rfl, fun hfits => absurd hfits.2 (not_le.mpr hroom)⟩
    rw [write, if_neg hpacker, he]
    rfl
  · refine Or.inr ⟨x, ?_, henc, hx⟩
    have hsome : c.sendBuffer.buffer.isSome := by
      have hpos := List.length_pos_iff.mpr henc.ne_nil
      exact hb.some (by omega)
    have hbytes := HSBuffer.bytes_put hsome c.sendBuffer.inOffset x
    rw [write, if_neg hpacker, he]
    simp only [bind, Except.bind, hput, queued_buffer hb hx, Bool.not_true, Bool.false_eq_true,
      if_false, queued]
    simp only [HSBuffer.put] at hbytes ⊢
    rw [hbytes]
    rfl

theorem fits_of_encoding {b : HSBuffer} (henc : IsEncoding w data x)
    (hx : x.length ≤ b.length - b.inOffset) : Fits w data b := by
  rw [henc.length, Nat.add_comm] at hx
  exact ⟨henc.fits, hx⟩

/-- `Write` returns 1 just when the packet fits. Then the bytes before the old end of the data are
as they were, and from there to the new end stands the packet. Otherwise nothing has changed. -/
theorem write_returns (w : ULongWidth) (hp : c.packer = true) (hb : c.sendBuffer.Fits)
    (hlen : data.length < 2 ^ 64 - 1 - w.header) :
    ∃ r c', c.write w data = .ok (r, c') ∧
      (r = 1 ↔ data.length + w.header ≤ hsNetPacketMaxSize ∧
        data.length + w.header ≤ c.sendBuffer.length - c.sendBuffer.inOffset) ∧
      (r = 1 → ∃ x, IsEncoding w data x ∧
        c'.sendBuffer.inOffset = c.sendBuffer.inOffset + x.length ∧
        c'.sendBuffer.bytes c.sendBuffer.inOffset x.length = x ∧
        c'.sendBuffer.bytes 0 c.sendBuffer.inOffset =
          c.sendBuffer.bytes 0 c.sendBuffer.inOffset) ∧
      (r ≠ 1 → (r = 0 ∨ r = -1) ∧ c'.sendBuffer = c.sendBuffer) := by
  have hsum : data.length + w.header < 2 ^ 64 := by omega
  rcases write_fits hp hb hsum with ⟨r, hw, hr, hfits⟩ | ⟨x, hw, henc, hx⟩
  · have hne : r ≠ 1 := by omega
    exact ⟨r, c, hw, iff_of_false hne hfits, fun h => absurd h hne, fun _ => ⟨hr, rfl⟩⟩
  · refine ⟨1, c.queued x, hw, iff_of_true rfl (fits_of_encoding henc hx), fun _ => ?_,
      fun h => absurd rfl h⟩
    have hsome : c.sendBuffer.buffer.isSome := by
      have hpos := List.length_pos_iff.mpr henc.ne_nil
      exact hb.some (by omega)
    have hbuffer : (c.queued x).sendBuffer.toHSBuffer =
        { c.sendBuffer.put c.sendBuffer.inOffset x with
          inOffset := c.sendBuffer.inOffset + x.length } := by
      simp only [queued, queued_buffer hb hx]
    refine ⟨x, henc, ?_, ?_, ?_⟩
    · rw [hbuffer]
    · rw [hbuffer]
      exact HSBuffer.bytes_put hsome _ x
    · rw [hbuffer]
      exact HSBuffer.bytes_put_before c.sendBuffer.toHSBuffer x (by omega)

theorem write_returns_short :
    ∃ r c', (initialized 8192 64 1 (fun _ => 0) (fun _ => 0)).write .eight [7] = .ok (r, c') ∧
      r = 1 := by
  obtain ⟨r, c', hw, hiff, -⟩ := @write_returns
    (initialized 8192 64 1 (fun _ => 0) (fun _ => 0)) [7] .eight rfl
    ⟨fun _ => rfl, by decide, by decide⟩ (by decide)
  exact ⟨r, c', hw, hiff.mpr (by decide)⟩

end HsCommon.HSClientConnector
