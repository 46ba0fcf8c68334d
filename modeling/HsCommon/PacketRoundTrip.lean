import HsCommon.PacketWorker

/-!
# Encoding and decoding of one packet

With longs of either width a packet decodes to the data it was made from, and a
truncated packet waits for the rest. With 4-byte longs the decoder accepts nothing
but encodings. With 8-byte longs four bytes of the header keep what was in the
output area before, and builds of different widths disagree about where the user
data begins.
-/

namespace HsCommon

variable {w w' : ULongWidth} {m out : ℕ → UInt8} {p q n room : ℕ} {userData : List UInt8}

def BytesAt (m : ℕ → UInt8) (p : ℕ) (bytes : List UInt8) : Prop :=
  Cells.read m p bytes.length = bytes

def skippedBytes (w : ULongWidth) (m : ℕ → UInt8) (p : ℕ) : List UInt8 :=
  Cells.read m (p + 8) (w.size - 4)

theorem skippedBytes_length (w : ULongWidth) (m : ℕ → UInt8) (p : ℕ) :
    (skippedBytes w m p).length = w.size - 4 := Cells.read_length _ _ _

theorem BytesAt.getElem? {bytes : List UInt8} (h : BytesAt m p bytes) :
    ∀ k < bytes.length, bytes[k]? = some (m (p + k)) := by
  intro k hk
  have hread := Cells.read_getElem? m p bytes.length k
  rw [h, if_pos hk] at hread
  exact hread

theorem BytesAt.left {xs ys : List UInt8} (h : BytesAt m p (xs ++ ys)) : BytesAt m p xs := by
  have hread := congrArg (List.take xs.length) h
  rw [Cells.read_take, List.take_left, List.length_append, min_eq_left (Nat.le_add_right _ _)]
    at hread
  exact hread

theorem BytesAt.right {xs ys : List UInt8} (h : BytesAt m p (xs ++ ys)) :
    BytesAt m (p + xs.length) ys := by
  have hread := congrArg (List.drop xs.length) h
  rw [Cells.read_drop, List.drop_left, List.length_append, Nat.add_sub_cancel_left] at hread
  exact hread

theorem encoding_skipped (w : ULongWidth) (userData : List UInt8) (m : ℕ → UInt8) (p : ℕ) :
    encoding w userData (Cells.read m (p + 8) 4) =
      be32 userData.length ++ be32 hsNetPacketIdentifyNumber ++ skippedBytes w m p ++ userData := by
  have hskip : (Cells.read m (p + 8) 4).take (w.size - 4) = skippedBytes w m p := by
    rw [Cells.read_take, skippedBytes]
    congr 1
    cases w <;> rfl
  rw [encoding, hskip]

theorem encodePacket_done (hroom : room < 2 ^ 64) {encodeSize : ℕ}
    (h : encodePacket w userData (some m) p room = .ok (.done out encodeSize)) :
    userData.length + w.header ≤ hsNetPacketMaxSize ∧ encodeSize = w.header + userData.length ∧
      BytesAt out p (be32 userData.length ++ be32 hsNetPacketIdentifyNumber ++
        skippedBytes w m p ++ userData) := by
  have hsum : userData.length + w.header < 2 ^ 64 := by
    simp only [encodePacket] at h
    split_ifs at h with h1 h2 h3
    · cases h
    · cases h
    · omega
  rw [encodePacket_eq hsum] at h
  split_ifs at h with h1 h2
  · cases h
  · cases h
  · cases h
    refine ⟨not_lt.mp h1, Nat.add_comm _ _, ?_⟩
    rw [← encoding_skipped]
    exact Cells.read_write m p _

theorem isEncoding_skipped (hfits : userData.length + w.header ≤ hsNetPacketMaxSize) :
    IsEncoding w userData (be32 userData.length ++ be32 hsNetPacketIdentifyNumber ++
      skippedBytes w m p ++ userData) := by
  rw [← encoding_skipped]
  refine isEncoding_encoding hfits ?_
  rw [Cells.read_length]
  cases w <;> decide

theorem header_length (w : ULongWidth) (userData : List UInt8) (m : ℕ → UInt8) (p : ℕ) :
    (be32 userData.length ++ be32 hsNetPacketIdentifyNumber ++ skippedBytes w m p).length =
      w.header := by
  have h4 := w.four_le_size
  simp only [List.length_append, be32_length, skippedBytes_length, w.header_eq]
  omega

theorem packet_length (w : ULongWidth) (userData : List UInt8) (m : ℕ → UInt8) (p : ℕ) :
    (be32 userData.length ++ be32 hsNetPacketIdentifyNumber ++ skippedBytes w m p ++
      userData).length = w.header + userData.length := by
  rw [List.length_append, header_length]

theorem IsEncoding.decodePacket_append {x r : List UInt8} (h : IsEncoding w userData x)
    (hm : BytesAt m q (x ++ r)) :
    decodePacket w (some m) q (x ++ r).length = .complete w.header userData.length := by
  rw [h.decodePacket_eq hm.left.getElem?, if_neg]
  rw [List.length_append]
  omega

theorem IsEncoding.decodePacket_prefix {x s : List UInt8} (h : IsEncoding w userData x)
    (hs : s <+: x) (hne : s ≠ x) (hm : BytesAt m q s) :
    decodePacket w (some m) q s.length = .incomplete := by
  obtain ⟨t, rfl⟩ := hs
  have ht : t ≠ [] := fun hnil => hne (by rw [hnil, List.append_nil])
  -- the rest of the packet put after `s` does not change what is decoded
  have hwhole : BytesAt (Cells.write m (q + s.length) t) q (s ++ t) := by
    rw [BytesAt, List.length_append, Cells.read_add, Cells.read_write,
      Cells.read_write_disjoint m t (Or.inl le_rfl)]
    exact congrArg (· ++ t) hm
  have hsame : decodePacket w (some m) q s.length =
      decodePacket w (some (Cells.write m (q + s.length) t)) q s.length :=
    decodePacket_congr fun k hk => (Cells.write_of_lt m t (by omega)).symm
  rw [hsame, h.decodePacket_eq hwhole.getElem?, if_pos]
  rw [List.length_append]
  have := List.length_pos_iff.mpr ht
  omega

theorem be32_readBe32 (m : ℕ → UInt8) (p : ℕ) : be32 (readBe32 m p) = Cells.read m p 4 := by
  have h0 := (m p).toNat_lt
  have h1 := (m (p + 1)).toNat_lt
  have h2 := (m (p + 2)).toNat_lt
  have h3 := (m (p + 3)).toNat_lt
  have hread : Cells.read m p 4 = [m p, m (p + 1), m (p + 2), m (p + 3)] := rfl
  rw [hread, be32]
  simp only [List.cons.injEq, and_true, ← UInt8.toNat_inj, UInt8.toNat_ofNat', readBe32]
  omega

theorem decodePacket_four_bytes {offset size : ℕ}
    (h : decodePacket .four (some m) p n = .complete offset size) :
    Cells.read m p (offset + size) = be32 size ++ be32 hsNetPacketIdentifyNumber ++
      Cells.read m (p + offset) size := by
  obtain ⟨rfl, -, -⟩ := decodePacket_complete h
  simp only [decodePacket] at h
  split_ifs at h with h1 h2 h3 h4
  obtain ⟨-, rfl⟩ := Decoded.complete.inj h
  have hid : readBe32 m (p + 4) = hsNetPacketIdentifyNumber := not_not.mp h3
  rw [← hid, be32_readBe32, be32_readBe32, ← Cells.read_add, Cells.read_add m p]
  rfl

/-- What the encoder accepts is what the decoder finds at the front of its input, and a part of the
packet is no packet. With 4-byte longs what the decoder finds is what the encoder makes of it. -/
theorem packet_roundTrip (w : ULongWidth) :
    (∀ (userData : List UInt8) (m out : ℕ → UInt8) (p room encodeSize : ℕ), room < 2 ^ 64 →
      encodePacket w userData (some m) p room = .ok (.done out encodeSize) →
      (∀ (m' : ℕ → UInt8) (q : ℕ) (r : List UInt8),
        BytesAt m' q (Cells.read out p encodeSize ++ r) →
        ∃ offset size,
          decodePacket w (some m') q (Cells.read out p encodeSize ++ r).length =
            .complete offset size ∧
          Cells.read m' (q + offset) size = userData) ∧
      ∀ (m' : ℕ → UInt8) (q : ℕ) (s : List UInt8), s <+: Cells.read out p encodeSize →
        s ≠ Cells.read out p encodeSize → BytesAt m' q s →
        decodePacket w (some m') q s.length = .incomplete) ∧
    (w = .four → ∀ (m m' : ℕ → UInt8) (p q n room offset size : ℕ),
      decodePacket w (some m) p n = .complete offset size → offset + size ≤ room →
      ∃ out, encodePacket w (Cells.read m (p + offset) size) (some m') q room =
          .ok (.done out (offset + size)) ∧
        Cells.read out q (offset + size) = Cells.read m p (offset + size)) := by
  refine ⟨fun userData m out p room encodeSize hroom h => ?_, ?_⟩
  · obtain ⟨hfits, hsize, hbytes⟩ := encodePacket_done hroom h
    have henc := @isEncoding_skipped w m p userData hfits
    have hread : Cells.read out p encodeSize = be32 userData.length ++
        be32 hsNetPacketIdentifyNumber ++ skippedBytes w m p ++ userData := by
      rw [hsize, ← packet_length w userData m p]
      exact hbytes
    rw [hread]
    refine ⟨fun m' q r hm => ⟨_, _, henc.decodePacket_append hm, ?_⟩,
      fun m' q s hs hne hm => henc.decodePacket_prefix hs hne hm⟩
    have hdata := hm.left.right
    rw [header_length] at hdata
    exact hdata
  · rintro rfl m m' p q n room offset size h hroom
    have hbytes := decodePacket_four_bytes h
    obtain ⟨rfl, -, hfits⟩ := decodePacket_complete h
    have hlen : (Cells.read m (p + ULongWidth.header .four) size).length = size :=
      Cells.read_length _ _ _
    simp only [hsNetPacketMaxSize] at hfits
    rw [encodePacket_eq (by rw [hlen]; omega), hlen,
      if_neg (by simp only [hsNetPacketMaxSize]; omega), if_neg (by omega), Nat.add_comm size]
    refine ⟨_, rfl, ?_⟩
    have hwrite := Cells.read_write m' q (encoding .four
      (Cells.read m (p + ULongWidth.header .four) size) (Cells.read m' (q + 8) 4))
    rw [encoding_length .four _ (Nat.zero_le _), hlen] at hwrite
    rw [hwrite, hbytes, encoding, hlen]
    simp [ULongWidth.size]

def Recovers (w : ULongWidth) (m : ℕ → UInt8) (p n : ℕ) (userData : List UInt8) : Prop :=
  ∃ offset size, decodePacket w (some m) p n = .complete offset size ∧
    Cells.read m (p + offset) size = userData

theorem encoded_eq_iff {w₁ w₂ : ULongWidth} {s₁ s₂ : List UInt8} (h₁ : s₁.length = w₁.size - 4)
    (h₂ : s₂.length = w₂.size - 4) :
    be32 userData.length ++ be32 hsNetPacketIdentifyNumber ++ s₁ ++ userData =
        be32 userData.length ++ be32 hsNetPacketIdentifyNumber ++ s₂ ++ userData ↔
      w₁ = w₂ ∧ s₁ = s₂ := by
  rw [List.append_left_inj, List.append_right_inj]
  refine ⟨fun hs => ⟨?_, hs⟩, fun hs => hs.2⟩
  rw [hs, h₂] at h₁
  cases w₁ <;> cases w₂ <;> first | rfl | cases h₁

theorem recovers_eight_four {s : List UInt8} (hs : s.length = 4)
    (hfits : userData.length + ULongWidth.header .eight ≤ hsNetPacketMaxSize)
    (h : BytesAt m p (be32 userData.length ++ be32 hsNetPacketIdentifyNumber ++ s ++ userData)) :
    Recovers .four m p (12 + userData.length) userData ↔
      (s ++ userData).take userData.length = userData := by
  have hlen : ((s ++ userData).take userData.length).length = userData.length := by
    rw [List.length_take, List.length_append]
    omega
  have henc : IsEncoding .four ((s ++ userData).take userData.length)
      (be32 userData.length ++ be32 hsNetPacketIdentifyNumber ++
        (s ++ userData).take userData.length) := by
    refine ⟨?_, [], Nat.zero_le _, ?_⟩
    · rw [hlen]
      exact le_trans (Nat.add_le_add_left (by decide) _) hfits
    · rw [encoding, hlen, List.take_nil, List.append_nil]
  have hsplit : be32 userData.length ++ be32 hsNetPacketIdentifyNumber ++ s ++ userData =
      be32 userData.length ++ be32 hsNetPacketIdentifyNumber ++
        (s ++ userData).take userData.length ++ (s ++ userData).drop userData.length := by
    simp only [List.append_assoc, List.take_append_drop]
  have hsize : (be32 userData.length ++ be32 hsNetPacketIdentifyNumber ++ s ++ userData).length =
      12 + userData.length := by
    simp only [List.length_append, be32_length, hs]
  rw [hsplit] at h hsize
  have hdec := henc.decodePacket_append h
  have hdata := h.left.right
  rw [hsize, hlen] at hdec
  rw [BytesAt, hlen] at hdata
  constructor
  · rintro ⟨offset, size, hcomplete, hread⟩
    rw [hdec] at hcomplete
    cases hcomplete
    exact hdata.symm.trans hread
  · intro htake
    refine ⟨_, _, hdec, ?_⟩
    exact hdata.trans htake

theorem not_recovers_four_eight (m : ℕ → UInt8) (p : ℕ) (userData : List UInt8) :
    ¬ Recovers .eight m p (8 + userData.length) userData := by
  rintro ⟨offset, size, hcomplete, hread⟩
  obtain ⟨rfl, hle, -⟩ := decodePacket_complete hcomplete
  have hsize := congrArg List.length hread
  rw [Cells.read_length] at hsize
  have hheader : ULongWidth.header .eight = 12 := rfl
  omega

theorem IsEncoding.recovers {x : List UInt8} (h : IsEncoding w userData x) (hm : BytesAt m p x)
    (hdata : Cells.read m (p + w.header) userData.length = userData) :
    Recovers w m p x.length userData := by
  have hdec := h.decodePacket_eq hm.getElem? x.length
  rw [if_neg (lt_irrefl _)] at hdec
  exact ⟨_, _, hdec, hdata⟩

/-- Two packets made from the same data are equal exactly if the builds have longs of one width and
the skipped bytes agree. A build recovers the data from its own packets, and by chance from those of
a build with longer longs. -/
theorem encodePacket_wire {w₁ w₂ : ULongWidth} {m₁ m₂ out₁ out₂ : ℕ → UInt8}
    {p₁ p₂ room₁ room₂ size₁ size₂ : ℕ} (hroom₁ : room₁ < 2 ^ 64) (hroom₂ : room₂ < 2 ^ 64)
    (h₁ : encodePacket w₁ userData (some m₁) p₁ room₁ = .ok (.done out₁ size₁))
    (h₂ : encodePacket w₂ userData (some m₂) p₂ room₂ = .ok (.done out₂ size₂)) :
    (Cells.read out₁ p₁ size₁ = Cells.read out₂ p₂ size₂ ↔
      w₁ = w₂ ∧ skippedBytes w₁ m₁ p₁ = skippedBytes w₂ m₂ p₂) ∧
    ∀ w, Recovers w out₁ p₁ size₁ userData ↔
      w = w₁ ∨ w = .four ∧ w₁ = .eight ∧
        (skippedBytes w₁ m₁ p₁ ++ userData).take userData.length = userData := by
  obtain ⟨hfits₁, rfl, hbytes₁⟩ := encodePacket_done hroom₁ h₁
  obtain ⟨-, rfl, hbytes₂⟩ := encodePacket_done hroom₂ h₂
  have henc₁ := @isEncoding_skipped w₁ m₁ p₁ userData hfits₁
  have hown : Recovers w₁ out₁ p₁ (w₁.header + userData.length) userData := by
    rw [← henc₁.length]
    refine henc₁.recovers hbytes₁ ?_
    have hdata := hbytes₁.right
    rw [header_length] at hdata
    exact hdata
  constructor
  · rw [← packet_length w₁ userData m₁ p₁, ← packet_length w₂ userData m₂ p₂, hbytes₁, hbytes₂]
    exact encoded_eq_iff (skippedBytes_length _ _ _) (skippedBytes_length _ _ _)
  · intro w
    cases w with
    | four =>
      cases w₁ with
      | four => exact ⟨fun _ => Or.inl rfl, fun _ => hown⟩
      | eight =>
        refine (recovers_eight_four (skippedBytes_length _ _ _) hfits₁ hbytes₁).trans ?_
        exact ⟨fun htake => Or.inr ⟨rfl, rfl, htake⟩, fun h => h.elim (fun h => by cases h) (·.2.2)⟩
    | eight =>
      cases w₁ with
      | four =>
        refine ⟨fun h => absurd h (not_recovers_four_eight _ _ _), fun h => ?_⟩
        rcases h with h | ⟨h, -⟩ <;> cases h
      | eight => exact ⟨fun _ => Or.inl rfl, fun _ => hown⟩

theorem encodePacket_wire_sameArea :
    ∃ out, encodePacket .eight [1] (some fun _ => 0) 0 64 = .ok (.done out 13) ∧
      Recovers .eight out 0 13 [1] ∧ ¬ Recovers .four out 0 13 [1] := by
  obtain ⟨out, hout⟩ : ∃ out, encodePacket .eight [1] (some fun _ => 0) 0 64 = .ok (.done out 13) :=
    ⟨_, rfl⟩
  obtain ⟨-, hrec⟩ := encodePacket_wire (by decide) (by decide) hout hout
  refine ⟨out, hout, (hrec .eight).mpr (Or.inl rfl), fun h => ?_⟩
  rcases (hrec .four).mp h with h | ⟨-, -, h⟩
  · cases h
  · exact absurd h (by decide)

theorem encodePacket_staleBytes :
    ∃ out₁ out₂, encodePacket .eight [1] (some fun _ => 0) 0 64 = .ok (.done out₁ 13) ∧
      encodePacket .eight [1] (some fun _ => 2) 0 64 = .ok (.done out₂ 13) ∧
      Cells.read out₁ 0 13 ≠ Cells.read out₂ 0 13 ∧ ¬ Recovers .four out₁ 0 13 [1] := by
  obtain ⟨out₁, h₁, hdec, hfirst⟩ : ∃ out,
      encodePacket .eight [1] (some fun _ => 0) 0 64 = .ok (.done out 13) ∧
      decodePacket .four (some out) 0 13 = .complete 8 1 ∧
      Cells.read out 8 5 = [0, 0, 0, 0, 1] := ⟨_, rfl, by decide +kernel, by decide +kernel⟩
  obtain ⟨out₂, h₂, hsecond⟩ : ∃ out,
      encodePacket .eight [1] (some fun _ => 2) 0 64 = .ok (.done out 13) ∧
      Cells.read out 8 5 = [2, 2, 2, 2, 1] := ⟨_, rfl, by decide +kernel⟩
  refine ⟨out₁, out₂, h₁, h₂, fun hsame => ?_, ?_⟩
  · rw [Cells.read_add out₁ 0 8 5, Cells.read_add out₂ 0 8 5, hfirst, hsecond] at hsame
    exact absurd (List.append_inj_right' hsame rfl) (by decide)
  · rintro ⟨offset, size, hcomplete, hread⟩
    rw [hdec] at hcomplete
    cases hcomplete
    rw [Cells.read_add out₁ 8 1 4, hread] at hfirst
    exact absurd (List.cons.inj hfirst).1 (by decide)

end HsCommon
