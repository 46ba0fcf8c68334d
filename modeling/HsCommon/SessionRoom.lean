import HsCommon.SessionRead
import HsCommon.SessionHandlers

/-!
# Room for the next read

The limit from which on `handle_read` moves unused bytes to the start of the buffer
is a function-local static: the session that first has an incomplete packet sets it
for the process. A session whose buffer is at least as long as the limit always has
room for its next read. A shorter buffer can fill up and is then never compacted:
its next read asks for zero bytes, and the completion of such a read ends the
reading.
-/

namespace HsCommon.HSSession
open Transition Outcome Framing

variable {w : ULongWidth} {s : HSSession} {L : ℕ}

structure Held (L : ℕ) (b : HSRecvBuffer) : Prop where
  length_eq : b.length = L
  reset : b.usedOutReset = true
  in_le : b.inOffset ≤ L
  used : b.inUsedOffset < b.inOffset ∨
    b.inOffset = 0 ∧ b.inUsedOffset ≤ L + hsNetPacketMaxSize

variable {b b' : HSRecvBuffer}

theorem Held.received (h : Held L b) (hr : Received b b') : Held L b' := by
  rcases hr with rfl | ⟨⟨hin, hused⟩, hlen, hreset⟩
  · exact h
  · exact ⟨hlen.trans h.length_eq, hreset, by omega, Or.inr ⟨hin, by omega⟩⟩

theorem Held.dataUse (hL : L < 2 ^ 63) (h : Held L b) {n : ℕ}
    (hn : b.inUsedOffset + n ≤ b.inOffset ∨
      b.inOffset = 0 ∧ b.inUsedOffset + n ≤ L + hsNetPacketMaxSize) :
    Held L (b.dataUse n false).2 ∧
      ((b.dataUse n false).2.inOffset = 0 ∧ (b.dataUse n false).2.inUsedOffset = 0 ∨
        (b.dataUse n false).2.inOffset = b.inOffset ∧
          (b.dataUse n false).2.inUsedOffset = b.inUsedOffset + n) ∧
      ((b.dataUse n false).2.inOffset = (b.dataUse n false).2.inUsedOffset →
        (b.dataUse n false).2.inOffset = 0) := by
  have hle := h.in_le
  have hmax : hsNetPacketMaxSize = 8192 := rfl
  have hadd : sizeAdd b.inUsedOffset n = b.inUsedOffset + n := sizeAdd_eq (by omega)
  simp only [HSRecvBuffer.dataUse, Bool.false_and, Bool.false_eq_true, if_false, h.reset, and_true,
    hadd]
  split_ifs with he
  · exact ⟨⟨h.length_eq, rfl, Nat.zero_le _, Or.inr ⟨rfl, Nat.zero_le _⟩⟩, Or.inl ⟨rfl, rfl⟩,
      fun _ => rfl⟩
  · refine ⟨⟨h.length_eq, rfl, hle, ?_⟩, Or.inr ⟨rfl, rfl⟩, fun heq => absurd heq.symm he⟩
    dsimp only
    omega

theorem Held.decodeLoop (hL : L < 2 ^ 63) (fuel : ℕ) (h : Held L s.recvBuffer) :
    Ends (fun r => Held L r.2.recvBuffer ∧
        (r.1 = .waiting → r.2.recvBuffer.getCanUseSize < hsNetPacketMaxSize) ∧
        (r.1 ≠ .waiting → r.2.recvBuffer.inOffset = 0 ∧ r.2.recvBuffer.inUsedOffset = 0))
      (fun _ => True) (decodeLoop w fuel s) := by
  induction fuel generalizing s with
  | zero => trivial
  | succ fuel ih =>
    rw [HSSession.decodeLoop, HSRecvBuffer.decode]
    split_ifs with hover
    · trivial
    · cases hm : s.recvBuffer.buffer with
      | none => exact ⟨h.received (received_clear _), fun he => (by cases he), fun _ => ⟨rfl, rfl⟩⟩
      | some mem =>
        cases hdec : decodePacket w (some mem) s.recvBuffer.inUsedOffset
          s.recvBuffer.getCanUseSize with
        | error =>
          exact ⟨h.received (received_clear _), fun he => (by cases he), fun _ => ⟨rfl, rfl⟩⟩
        | incomplete => exact ⟨h, fun _ => incomplete_lt hdec, fun he => absurd rfl he⟩
        | complete nextOffset outSize =>
          obtain ⟨rfl, hle, hfits⟩ := decodePacket_complete hdec
          have hlen := h.length_eq
          have hin := h.in_le
          have hhead := w.header_pos
          have hmax : hsNetPacketMaxSize = 8192 := rfl
          have hroom : s.recvBuffer.inUsedOffset + (w.header + outSize) ≤
              s.recvBuffer.inOffset ∨ s.recvBuffer.inOffset = 0 ∧
              s.recvBuffer.inUsedOffset + (w.header + outSize) ≤ L + hsNetPacketMaxSize := by
            rcases h.used with hlt | ⟨hzero, -⟩
            · have hsize : s.recvBuffer.getCanUseSize =
                  s.recvBuffer.inOffset - s.recvBuffer.inUsedOffset :=
                sizeSub_eq hlt.le (by omega)
              exact Or.inl (by omega)
            · -- the decoder has looked at the first eight bytes
              exact Or.inr ⟨hzero, by omega⟩
          obtain ⟨h₁, hafter, -⟩ := h.dataUse hL (n := w.header) (by omega)
          refine (call_around _ _).bind ?_
          rintro s₁ ⟨-, hrecv, -⟩
          have hroom₂ : s₁.recvBuffer.inUsedOffset + outSize ≤ s₁.recvBuffer.inOffset ∨
              s₁.recvBuffer.inOffset = 0 ∧
              s₁.recvBuffer.inUsedOffset + outSize ≤ L + hsNetPacketMaxSize := by
            rcases hrecv with hsame | ⟨⟨hzero, hused⟩, -⟩
            · rw [hsame]
              dsimp only
              omega
            · omega
          obtain ⟨h₃, hcut, hend⟩ := (h₁.received hrecv).dataUse hL hroom₂
          dsimp only
          split_ifs with heq
          · refine ⟨h₃, fun he => (by cases he), fun _ => ⟨hend heq, ?_⟩⟩
            exact heq.symm.trans (hend heq)
          · exact ih h₃

/-- Between events no more is used than has come in. The outstanding read, if there is one, has room
and ends within the buffer wherever the data ends now. -/
structure Roomy (L : ℕ) (s : HSSession) : Prop where
  held : Held L s.recvBuffer
  used_le : s.recvBuffer.inUsedOffset ≤ s.recvBuffer.inOffset
  reads : s.reads = [] ∨
    ∃ op, s.reads = [op] ∧ 1 ≤ op.size ∧ s.recvBuffer.inOffset + op.size ≤ L

theorem Roomy.received (h : Roomy L s) {s' : HSSession} (hr : Received s.recvBuffer s'.recvBuffer)
    (hreads : s'.reads = s.reads) : Roomy L s' := by
  have hle := h.used_le
  refine ⟨h.held.received hr, ?_, ?_⟩
  · rcases hr with hsame | ⟨⟨hzero, hused⟩, -⟩
    · rwa [hsame]
    · omega
  · rw [hreads]
    refine h.reads.imp id ?_
    rintro ⟨op, hop, hsize, hroom⟩
    refine ⟨op, hop, hsize, ?_⟩
    rcases hr with hsame | ⟨⟨hzero, -⟩, -⟩
    · rwa [hsame]
    · omega

theorem Held.start (hL : L < 2 ^ 63) (h : Held L s.recvBuffer)
    (hused : s.recvBuffer.inUsedOffset ≤ s.recvBuffer.inOffset)
    (hlt : s.recvBuffer.inOffset < L) (hreads : s.reads = []) : Roomy L s.start := by
  have hlen := h.length_eq
  have hleft : s.recvBuffer.getLeftInSize = L - s.recvBuffer.inOffset := by
    rw [HSBuffer.getLeftInSize_eq (by omega) (by omega), hlen]
  refine ⟨h, hused, Or.inr ⟨⟨s.recvBuffer.inOffset, s.recvBuffer.getLeftInSize⟩, ?_, ?_, ?_⟩⟩
  · simp only [HSSession.start, hreads, List.nil_append]
  · dsimp only
    omega
  · change s.recvBuffer.inOffset + s.recvBuffer.getLeftInSize ≤ L
    omega

theorem Held.compacted (hL : hsNetPacketMaxSize ≤ L) (hL' : L < 2 ^ 63) (h : Held L s.recvBuffer)
    (hwait : s.recvBuffer.getCanUseSize < hsNetPacketMaxSize) {limit : ℕ} (hlimit : limit ≤ L) :
    Held L (s.compacted limit).recvBuffer ∧
      (s.compacted limit).recvBuffer.inUsedOffset ≤ (s.compacted limit).recvBuffer.inOffset ∧
      (s.compacted limit).recvBuffer.inOffset < L := by
  have hmax : hsNetPacketMaxSize = 8192 := rfl
  have hin := h.in_le
  rw [HSRecvBuffer.getCanUseSize, sizeSub] at hwait
  rw [HSSession.compacted]
  split_ifs with hge
  · rw [HSRecvBuffer.moveUnuseData2Begin]
    split_ifs with hlt
    · refine ⟨⟨h.length_eq, h.reset, ?_, Or.inl ?_⟩, Nat.zero_le _, ?_⟩ <;> dsimp only <;> omega
    · rcases h.used with hused | ⟨hzero, hused⟩
      · exact absurd hused hlt
      · dsimp only
        exact ⟨h, by omega, by omega⟩
  · refine ⟨h, ?_, by omega⟩
    rcases h.used with hused | ⟨hzero, hused⟩ <;> omega

theorem Held.afterLoop {e : LoopEnd} (hL : hsNetPacketMaxSize ≤ L) (hL' : L < 2 ^ 63)
    (h : Held L s.recvBuffer)
    (hwait : e = .waiting → s.recvBuffer.getCanUseSize < hsNetPacketMaxSize)
    (hzero : e ≠ .waiting → s.recvBuffer.inOffset = 0 ∧ s.recvBuffer.inUsedOffset = 0)
    (hreads : s.reads = []) {m : Option ℕ} (hm : m.getD (L - hsNetPacketMaxSize) ≤ L) :
    Roomy L (afterLoop m (e, s)).2 ∧ ((afterLoop m (e, s)).1 = m ∨
      (afterLoop m (e, s)).1 = some (m.getD (L - hsNetPacketMaxSize))) := by
  have hmax : hsNetPacketMaxSize = 8192 := rfl
  cases e with
  | rejected =>
    obtain ⟨hin, hused⟩ := hzero (by simp)
    exact ⟨⟨h, hused.le.trans (Nat.zero_le _), Or.inl hreads⟩, Or.inl rfl⟩
  | emptied =>
    obtain ⟨hin, hused⟩ := hzero (by simp)
    exact ⟨h.start hL' (by omega) (by omega) hreads, Or.inl rfl⟩
  | waiting =>
    have hlen : s.recvBuffer.length = L := h.length_eq
    have hlimit : sizeSub s.recvBuffer.length hsNetPacketMaxSize = L - hsNetPacketMaxSize := by
      rw [hlen]
      exact sizeSub_eq hL (by omega)
    obtain ⟨hheld, hused, hlt⟩ := Held.compacted hL hL' h (hwait rfl) hm
    obtain ⟨-, hr, -⟩ := beside_compacted s (m.getD (L - hsNetPacketMaxSize))
    rw [HSSession.afterLoop, hlimit]
    exact ⟨hheld.start hL' hused hlt (hr.trans hreads), Or.inr rfl⟩

theorem Roomy.completed (hL : hsNetPacketMaxSize ≤ L) (hL' : L < 2 ^ 63) (h : Roomy L s)
    (hreads : s.reads = []) {m : Option ℕ} (hm : m.getD (L - hsNetPacketMaxSize) ≤ L) {fuel n : ℕ}
    (hn : s.recvBuffer.inOffset + n ≤ L) :
    Ends (fun r => Roomy L r.2 ∧ (r.1 = m ∨ r.1 = some (m.getD (L - hsNetPacketMaxSize))))
      (fun _ => True) (s.handleRead w fuel m (.success n)) := by
  by_cases hzero : n = 0
  · subst hzero
    exact ⟨h, Or.inl rfl⟩
  · rw [handleRead_ne_zero hzero]
    have hlen := h.held.length_eq
    have hused := h.used_le
    have hin := HSBuffer.dataIn_eq (b := s.recvBuffer.toHSBuffer) (n := n) (by omega) (by omega)
    rw [hin]
    let s₁ : HSSession := { s with recvBuffer := { s.recvBuffer with
      toHSBuffer := { s.recvBuffer.toHSBuffer with inOffset := s.recvBuffer.inOffset + n } } }
    have h₁ : Held L s₁.recvBuffer := ⟨hlen, h.held.reset, hn, Or.inl (by simp only [s₁]; omega)⟩
    have hloop := (h₁.decodeLoop hL' fuel).and (decodeLoop_around (w := w) fuel s₁)
    change Ends _ _ ((HSSession.decodeLoop w fuel s₁).map (HSSession.afterLoop m))
    cases hres : HSSession.decodeLoop w fuel s₁ with
    | error f => trivial
    | ok r =>
      obtain ⟨⟨hheld, hwait, hdone⟩, haround, -⟩ := hloop.result hres
      exact hheld.afterLoop hL hL' hwait hdone (haround.reads.trans hreads) hm

theorem Roomy.exec (hL : hsNetPacketMaxSize ≤ L) (hL' : L < 2 ^ 63) (h : Roomy L s)
    {m : Option ℕ} (hm : m.getD (L - hsNetPacketMaxSize) ≤ L) {e : SessionEvent}
    (hposs : s.Possible e) {fuel : ℕ} :
    Ends (fun r => Roomy L r.2 ∧ (r.1 = m ∨ r.1 = some (m.getD (L - hsNetPacketMaxSize))))
      (fun _ => True) (s.exec w fuel m e) := by
  cases e with
  | send data =>
    refine (send_sendSide s data.val).bind fun r hr => ?_
    exact ⟨h.received (Or.inl hr.recvBuffer) hr.reads, Or.inl rfl⟩
  | writeDone k result =>
    simp only [HSSession.exec]
    split
    · exact ⟨h, Or.inl rfl⟩
    · rename_i op hop
      have h₁ : Roomy L ({ s with writes := s.writes.eraseIdx k }.accept op result) := by
        cases result <;> exact ⟨h.held, h.used_le, h.reads⟩
      refine (writeResult_cases _ result).bind ?_
      intro s' hs'
      obtain ⟨hside, hdrop⟩ := hs'
      refine ⟨?_, Or.inl rfl⟩
      by_cases hf : Fails result
      · exact h₁.received (hdrop hf).received (hdrop hf).reads
      · exact h₁.received (Or.inl (hside hf).recvBuffer) (hside hf).reads
  | readDone k result =>
    simp only [HSSession.exec]
    split
    · exact ⟨h, Or.inl rfl⟩
    · rename_i op hop
      -- it is the only read
      obtain ⟨hreads, hsize, hroom⟩ : s.reads.eraseIdx k = [] ∧ 1 ≤ op.size ∧
          s.recvBuffer.inOffset + op.size ≤ L := by
        rcases h.reads with hnil | ⟨op', hone, hsize, hroom⟩
        · rw [hnil] at hop
          cases hop
        · obtain ⟨rfl, hreads⟩ := only_read hone hop
          exact ⟨hreads, hsize, hroom⟩
      cases result with
      | success chunk =>
        obtain ⟨op', hop', hfit⟩ := hposs
        obtain rfl : op = op' := Option.some.inj (hop.symm.trans hop')
        have h₁ : Roomy L ({ s with reads := s.reads.eraseIdx k }.deliver op (.success chunk)) :=
          ⟨⟨h.held.length_eq, h.held.reset, h.held.in_le, h.held.used⟩, h.used_le, Or.inl hreads⟩
        refine h₁.completed hL hL' hreads hm ?_
        change s.recvBuffer.inOffset + chunk.length ≤ L
        omega
      | failure v =>
        have h₁ : Roomy L { s with reads := s.reads.eraseIdx k } :=
          ⟨h.held, h.used_le, Or.inl hreads⟩
        refine (handleRead_failure fuel m _ v).mono ?_
        intro r hr
        obtain ⟨hstatic, hagain, hdrop⟩ := hr
        refine ⟨?_, Or.inl hstatic⟩
        by_cases hv : handleError v = 0
        · rw [hagain hv]
          have hlt : s.recvBuffer.inOffset < L := by omega
          exact h.held.start hL' h.used_le hlt hreads
        · exact h₁.received (hdrop hv).received (hdrop hv).reads

theorem exists_cut (w : ULongWidth) {n : ℕ} (hn : 0 < n) :
    ∃ (fs : List (Frame UInt8 (List UInt8))) (chunk r : List UInt8) (vs : List (List UInt8)),
      (∀ f ∈ fs, IsEncoding w f.value f.symbols) ∧ chunk <+: stream fs ∧ chunk.length = n ∧
      Drains (decodeBytes w) chunk vs (some r) ∧ r ≠ [] := by
  have hhead := w.header_pos
  have hskip : w.size - 4 ≤ (List.replicate 4 (0 : UInt8)).length := by cases w <;> decide
  have hmax : w.header + 1 ≤ hsNetPacketMaxSize := by cases w <;> decide
  have hempty : IsEncoding w [] (encoding w [] (List.replicate 4 0)) :=
    isEncoding_encoding (by rw [List.length_nil]; omega) hskip
  have hbyte : IsEncoding w [0] (encoding w [0] (List.replicate 4 0)) :=
    isEncoding_encoding (by rw [List.length_singleton]; omega) hskip
  have hlen := hempty.length
  have hlen' := hbyte.length
  rw [List.length_nil] at hlen
  rw [List.length_singleton] at hlen'
  generalize encoding w [] (List.replicate 4 0) = x at hempty hlen
  generalize encoding w [0] (List.replicate 4 0) = y at hbyte hlen'
  let q := (n - 1) / w.header
  let r := (n - 1) % w.header + 1
  have hr : r ≤ w.header := Nat.mod_lt _ (by omega)
  have hq : q * w.header + r = n := by
    have hdiv := Nat.div_add_mod' (n - 1) w.header
    calc q * w.header + r = q * w.header + (n - 1) % w.header + 1 := (Nat.add_assoc _ _ _).symm
      _ = n - 1 + 1 := by rw [hdiv]
      _ = n := Nat.sub_add_cancel hn
  let fs : List (Frame UInt8 (List UInt8)) := List.replicate q ⟨x, []⟩
  have hfs : ∀ f ∈ fs, IsEncoding w f.value f.symbols := by
    intro f hf
    obtain rfl := List.eq_of_mem_replicate hf
    exact hempty
  have htake : (y.take r).length = r := by
    rw [List.length_take]
    omega
  refine ⟨fs ++ [⟨y, [0]⟩], stream fs ++ y.take r, y.take r, fs.map Frame.value, ?_, ?_, ?_, ?_, ?_⟩
  · intro f hf
    rcases List.mem_append.mp hf with hf | hf
    · exact hfs f hf
    · obtain rfl := List.mem_singleton.mp hf
      exact hbyte
  · have hstream : stream (fs ++ [⟨y, [0]⟩]) = stream fs ++ y := by
      simp [stream]
    rw [hstream]
    exact (List.prefix_append_right_inj _).mpr (List.take_prefix r y)
  · have hfull : (stream fs).length = q * w.header := by
      simp only [stream, fs, List.flatMap_replicate, List.length_flatten, List.map_replicate,
        List.sum_replicate, smul_eq_mul, hlen, Nat.add_zero]
    rw [List.length_append, hfull, htake, hq]
  · refine drains_stream (incremental_decodeBytes w) (fun f hf => (hfs f hf).decodes) ?_
    exact hbyte.decodes.part _ (List.take_prefix r y) (by dsimp only; omega)
  · rw [← List.length_pos_iff, htake]
    exact Nat.succ_pos _

theorem exec_cut (hL : hsNetPacketMaxSize ≤ L) (hL' : L < 2 ^ 64) {sendLen fuel : ℕ}
    (hsend : sendLen < 2 ^ 64) (hfuel : L < fuel) (recvMem sendMem : ℕ → UInt8) (m : Option ℕ)
    {chunk r : List UInt8} (hne : chunk ≠ []) (hfit : chunk.length ≤ L) {vs : List (List UInt8)}
    (hd : Drains (decodeBytes w) chunk vs (some r)) (hr : r ≠ []) :
    let s := (opened L sendLen recvMem sendMem (some fun _ => [])).start
    s.Possible (.readDone 0 (.success chunk)) ∧
    ∃ s', s.exec w fuel m (.readDone 0 (.success chunk)) =
        .ok (some (m.getD (L - hsNetPacketMaxSize)), s') ∧
      (chunk.length = L → L < m.getD (L - hsNetPacketMaxSize) →
        ∃ op ∈ s'.reads, op.size = 0) := by
  intro s
  have hpos : 0 < L := lt_of_lt_of_le (by decide) hL
  have hs := @streamed_opened w L (fun _ => []) sendLen hpos hL' hsend recvMem sendMem
  have hleft : s.recvBuffer.getLeftInSize = L - 0 :=
    HSBuffer.getLeftInSize_eq (Nat.zero_le _) hL'
  have hreads : s.reads = [⟨0, s.recvBuffer.getLeftInSize⟩] := hs.reads
  have hidle : Reading L (fun _ => []) { s with reads := [] } :=
    hs.reading.of_recv rfl rfl (hs.reading.send.frame rfl rfl rfl rfl rfl)
  have hcalm : Calm fun _ => [] := fun _ h => by cases h
  obtain ⟨m', s', -, hr', -, hsome, -⟩ := hidle.completed hcalm hL hne (by exact hfit) m
    (by exact hd) hfuel ⟨0, s.recvBuffer.getLeftInSize⟩ rfl
  obtain ⟨hexec, hread, -, -, hcut, -⟩ := hsome r rfl
  obtain ⟨rfl, hin⟩ := hcut hr
  refine ⟨⟨_, by rw [hreads]; rfl, ?_⟩, s'.start, ?_, fun hfull hlt => ?_⟩
  · rw [hleft]
    exact hfit
  · have herase : s.reads.eraseIdx 0 = [] := by rw [hreads, List.eraseIdx_cons_zero]
    have hget : s.reads[0]? = some ⟨0, s.recvBuffer.getLeftInSize⟩ := by rw [hreads]; rfl
    simp only [HSSession.exec, hget, herase]
    exact hexec
  · have hin' : s'.recvBuffer.inOffset = L := by
      rw [hin ?_]
      · exact (Nat.zero_add _).trans hfull
      · exact lt_of_eq_of_lt ((Nat.zero_add _).trans hfull) hlt
    refine ⟨⟨s'.recvBuffer.inOffset, s'.recvBuffer.getLeftInSize⟩, ?_, ?_⟩
    · simp only [start, List.mem_append, List.mem_singleton, or_true]
    · dsimp only
      rw [HSBuffer.getLeftInSize_eq hread.recv.in_le hread.recv.length_lt, hread.length_eq, hin',
        Nat.sub_self]

namespace Process
variable {ι : Type*}

def mixed (L sendLen : ι → ℕ) (recvMem sendMem : ι → ℕ → UInt8) (handler : ι → EventHandler) :
    Process ι :=
  ⟨none, fun i =>
    (opened (L i) (sendLen i) (recvMem i) (sendMem i) (some (handler i))).start⟩

def ReadsHaveRoom (p : Process ι) : Prop := ∀ i, ∀ op ∈ (p.sessions i).reads, 1 ≤ op.size

def StaticFits (p : Process ι) (e : ι × SessionEvent) : Prop :=
  ∀ k ∈ p.maxReadLength, k ≤ (p.sessions e.1).recvBuffer.length

variable {fuel : ℕ} {L sendLen : ι → ℕ} {recvMem sendMem : ι → ℕ → UInt8}
  {handler : ι → EventHandler} {p p' : Process ι} {e : ι × SessionEvent}

structure AllRoomy (L : ι → ℕ) (p : Process ι) : Prop where
  sessions : ∀ i, Roomy (L i) (p.sessions i)
  maxReadLength : ∀ k ∈ p.maxReadLength, ∃ i, k = L i - hsNetPacketMaxSize

theorem allRoomy_mixed (hL : ∀ i, hsNetPacketMaxSize ≤ L i) (hL' : ∀ i, L i < 2 ^ 63) :
    AllRoomy L (mixed L sendLen recvMem sendMem handler) := by
  refine ⟨fun i => ?_, fun k hk => by cases hk⟩
  have hpos : 0 < L i := lt_of_lt_of_le (by decide) (hL i)
  have hheld : Held (L i) (HSRecvBuffer.new (L i) (recvMem i)) :=
    ⟨rfl, rfl, Nat.zero_le _, Or.inr ⟨rfl, Nat.zero_le _⟩⟩
  exact Held.start (s := opened (L i) (sendLen i) (recvMem i) (sendMem i) (some (handler i)))
    (hL' i) hheld le_rfl hpos rfl

theorem AllRoomy.readsHaveRoom (h : AllRoomy L p) : ReadsHaveRoom p := by
  intro i op hop
  rcases (h.sessions i).reads with hnil | ⟨op', hone, hsize, -⟩
  · rw [hnil] at hop
    cases hop
  · rw [hone] at hop
    obtain rfl := List.mem_singleton.mp hop
    exact hsize

variable [DecidableEq ι]

theorem AllRoomy.step (h : AllRoomy L p) (hL : ∀ i, hsNetPacketMaxSize ≤ L i)
    (hL' : ∀ i, L i < 2 ^ 63) (hfits : StaticFits p e) (hs : Step w fuel p e p') :
    AllRoomy L p' := by
  obtain ⟨hposs, m, s, hexec, rfl⟩ := hs
  have hm : p.maxReadLength.getD (L e.1 - hsNetPacketMaxSize) ≤ L e.1 := by
    cases hstatic : p.maxReadLength with
    | none =>
      rw [Option.getD_none]
      exact Nat.sub_le _ _
    | some k =>
      rw [Option.getD_some]
      exact (hfits k hstatic).trans_eq (h.sessions e.1).held.length_eq
  obtain ⟨hroomy, hstatic⟩ :=
    ((h.sessions e.1).exec (hL e.1) (hL' e.1) hm hposs).result hexec
  refine ⟨fun i => ?_, fun k hk => ?_⟩
  · by_cases hi : i = e.1
    · subst hi
      dsimp only
      rw [Function.update_self]
      exact hroomy
    · dsimp only
      rw [Function.update_of_ne hi]
      exact h.sessions i
  · dsimp only at hstatic hk
    rcases hstatic with rfl | rfl
    · exact h.maxReadLength k hk
    · cases hold : p.maxReadLength with
      | none =>
        rw [hold, Option.getD_none] at hk
        exact ⟨e.1, (Option.some.inj hk).symm⟩
      | some k' =>
        rw [hold, Option.getD_some] at hk
        exact Option.some.inj hk ▸ h.maxReadLength k' hold

theorem exists_zeroRead (w : ULongWidth) (hL : ∀ i, hsNetPacketMaxSize ≤ L i)
    (hL' : ∀ i, L i < 2 ^ 63) (hsend : ∀ i, sendLen i < 2 ^ 64) (hfuel : ∀ i, L i < fuel)
    (recvMem sendMem : ι → ℕ → UInt8) {i j : ι} (hij : L j + hsNetPacketMaxSize < L i) :
    ∃ (fs : ι → List (Frame UInt8 (List UInt8))) (es : List (ι × SessionEvent)) (p : Process ι),
      (∀ k, ∀ f ∈ fs k, IsEncoding w f.value f.symbols) ∧
      (∀ k, received k es <+: stream (fs k)) ∧
      Run (Step w fuel) (mixed L sendLen recvMem sendMem fun _ _ => []) es p ∧
      ∃ op ∈ (p.sessions j).reads, op.size = 0 := by
  have hne : j ≠ i := by
    rintro rfl
    omega
  have hposi : 0 < L i := lt_of_lt_of_le (by decide) (hL i)
  have hposj : 0 < L j := lt_of_lt_of_le (by decide) (hL j)
  have hlti : L i < 2 ^ 64 := (hL' i).trans (by norm_num)
  have hltj : L j < 2 ^ 64 := (hL' j).trans (by norm_num)
  obtain ⟨fs₁, c₁, r₁, vs₁, henc₁, hpre₁, hlen₁, hd₁, hr₁⟩ := exists_cut w one_pos
  obtain ⟨fs₂, c₂, r₂, vs₂, henc₂, hpre₂, hlen₂, hd₂, hr₂⟩ := exists_cut w hposj
  obtain ⟨hposs₁, s₁, hexec₁, -⟩ := exec_cut (hL i) hlti (hsend i) (hfuel i) (recvMem i)
    (sendMem i) none (List.length_pos_iff.mp (by omega)) (by omega) hd₁ hr₁
  obtain ⟨hposs₂, s₂, hexec₂, hfull⟩ := exec_cut (hL j) hltj (hsend j) (hfuel j) (recvMem j)
    (sendMem j) (some (L i - hsNetPacketMaxSize)) (List.length_pos_iff.mp (by omega)) (by omega)
    hd₂ hr₂
  rw [Option.getD_some] at hexec₂ hfull
  rw [Option.getD_none] at hexec₁
  let p₀ : Process ι := mixed L sendLen recvMem sendMem fun _ _ => []
  let p₁ : Process ι := ⟨some (L i - hsNetPacketMaxSize), Function.update p₀.sessions i s₁⟩
  have hother : p₁.sessions j = p₀.sessions j := Function.update_of_ne hne _ _
  let p₂ : Process ι := ⟨some (L i - hsNetPacketMaxSize), Function.update p₁.sessions j s₂⟩
  have hstep₁ : Step w fuel p₀ (i, .readDone 0 (.success c₁)) p₁ := ⟨hposs₁, _, s₁, hexec₁, rfl⟩
  have hstep₂ : Step w fuel p₁ (j, .readDone 0 (.success c₂)) p₂ := by
    rw [Step, hother]
    exact ⟨hposs₂, _, s₂, hexec₂, rfl⟩
  refine ⟨fun k => if k = i then fs₁ else fs₂, _, p₂, fun k => ?_, fun k => ?_,
    (Run.nil.snoc hstep₁).snoc hstep₂, ?_⟩
  · dsimp only
    split_ifs
    · exact henc₁
    · exact henc₂
  · by_cases hi : k = i
    · subst hi
      simpa [received, bytesOf, hne] using hpre₁
    · by_cases hj : k = j
      · subst hj
        simpa [received, bytesOf, hi, Ne.symm hi] using hpre₂
      · simp [received, Ne.symm hi, Ne.symm hj]
  · rw [show p₂.sessions j = s₂ from Function.update_self _ _ _]
    exact hfull hlen₂ (by omega)

/-- No read asks for zero bytes in any run, as long as the static fits the sessions that go on
reading. It fits them in every run exactly if no buffer is longer than another by more than the
largest packet. -/
theorem reads_have_room (hL : ∀ i, hsNetPacketMaxSize ≤ L i) (hL' : ∀ i, L i < 2 ^ 63)
    (hsend : ∀ i, sendLen i < 2 ^ 64) (hfuel : ∀ i, L i < fuel) :
    (∀ (recvMem sendMem : ι → ℕ → UInt8) (handler : ι → EventHandler)
        (es : List (ι × SessionEvent)) (p : Process ι),
      Run (Guarded StaticFits (Step w fuel)) (mixed L sendLen recvMem sendMem handler) es p →
        ReadsHaveRoom p) ∧
    ((∀ (recvMem sendMem : ι → ℕ → UInt8) (handler : ι → EventHandler)
        (fs : ι → List (Frame UInt8 (List UInt8))) (es : List (ι × SessionEvent)) (p : Process ι),
      (∀ i, ∀ f ∈ fs i, IsEncoding w f.value f.symbols) →
      (∀ i, received i es <+: stream (fs i)) →
      Run (Step w fuel) (mixed L sendLen recvMem sendMem handler) es p → ReadsHaveRoom p) ↔
      ∀ i j, L i ≤ L j + hsNetPacketMaxSize) := by
  refine ⟨fun recvMem sendMem handler es p h => ?_, fun h i j => ?_, fun hclose => ?_⟩
  · have hall : AllRoomy L p := h.invariant (allRoomy_mixed hL hL')
      fun p e p' hp ⟨hfits, hs⟩ => hp.step hL hL' hfits hs
    exact hall.readsHaveRoom
  · by_contra hlt
    obtain ⟨fs, es, p, hfs, hpre, hrun, op, hop, hzero⟩ := exists_zeroRead w hL hL' hsend hfuel
      (fun _ _ => 0) (fun _ _ => 0) (i := i) (j := j) (by omega)
    have hroom := h _ _ _ fs es p hfs hpre hrun j op hop
    omega
  · intro recvMem sendMem handler fs es p _ _ h
    have hall : AllRoomy L p := by
      refine h.invariant (allRoomy_mixed hL hL') fun p e p' hp hs => hp.step hL hL' ?_ hs
      intro k hk
      obtain ⟨i, hi⟩ := hp.maxReadLength k hk
      have hlen : (p.sessions e.1).recvBuffer.length = L e.1 := (hp.sessions e.1).held.length_eq
      have hle := hclose i e.1
      rw [hi, hlen]
      omega
    exact hall.readsHaveRoom

def defaultSize : Bool → ℕ
  | true => serverSessionDataBufferDefaultSize
  | false => clientSessionDataBufferDefaultSize

theorem defaultSize_bounds (server : Bool) :
    hsNetPacketMaxSize ≤ defaultSize server ∧ defaultSize server < 2 ^ 20 := by
  cases server <;> norm_num [defaultSize, serverSessionDataBufferDefaultSize,
    clientSessionDataBufferDefaultSize, hsNetPacketMaxSize]

theorem reads_have_room_default :
    ∃ (e : SessionEvent) (p : Process Bool), Run (Guarded StaticFits (Step .eight (2 ^ 20)))
      (mixed defaultSize (fun _ => 64) (fun _ _ => 0) (fun _ _ => 0) fun _ _ => []) [(true, e)] p ∧
      ReadsHaveRoom p := by
  obtain ⟨hmin, hmax⟩ := defaultSize_bounds true
  obtain ⟨fs, c, r, vs, -, -, hlen, hd, hr⟩ := exists_cut .eight one_pos
  have hfit : c.length ≤ defaultSize true := hlen.trans_le (le_trans (by decide) hmin)
  have hsend : 64 < 2 ^ 64 := by norm_num
  obtain ⟨hposs, s, hexec, -⟩ := exec_cut hmin (hmax.trans (by norm_num)) hsend hmax (fun _ => 0)
    (fun _ => 0) none (List.length_pos_iff.mp (by omega)) hfit hd hr
  rw [Option.getD_none] at hexec
  let p₀ := mixed defaultSize (fun _ => 64) (fun _ _ => 0) (fun _ _ => 0) fun _ _ => []
  let p₁ : Process Bool :=
    ⟨some (defaultSize true - hsNetPacketMaxSize), Function.update p₀.sessions true s⟩
  have hstep : Guarded StaticFits (Step .eight (2 ^ 20)) p₀
      (true, .readDone 0 (.success c)) p₁ := by
    refine ⟨fun k hk => ?_, hposs, _, s, hexec, rfl⟩
    cases hk
  refine ⟨_, p₁, Run.nil.snoc hstep, ?_⟩
  exact (reads_have_room (fun i => (defaultSize_bounds i).1)
    (fun i => (defaultSize_bounds i).2.trans (by norm_num)) (fun _ => hsend)
    (fun i => (defaultSize_bounds i).2)).1 _ _ _ _ _ (Run.nil.snoc hstep)

theorem mixed_zeroRead :
    ∃ (fs : Bool → List (Frame UInt8 (List UInt8))) (es : List (Bool × SessionEvent))
      (p : Process Bool),
      (∀ i, ∀ f ∈ fs i, IsEncoding .eight f.value f.symbols) ∧
      (∀ i, received i es <+: stream (fs i)) ∧
      Run (Step .eight (2 ^ 20))
        (mixed defaultSize (fun _ => 64) (fun _ _ => 0) (fun _ _ => 0) fun _ _ => []) es p ∧
      ¬ ReadsHaveRoom p := by
  have hlong : defaultSize false + hsNetPacketMaxSize < defaultSize true := by
    norm_num [defaultSize, serverSessionDataBufferDefaultSize, clientSessionDataBufferDefaultSize,
      hsNetPacketMaxSize]
  obtain ⟨fs, es, p, hfs, hpre, hrun, op, hop, hzero⟩ :=
    exists_zeroRead .eight (fun i => (defaultSize_bounds i).1)
      (fun i => (defaultSize_bounds i).2.trans (by norm_num))
      (fun _ => (by norm_num : (64 : ℕ) < 2 ^ 64)) (fun i => (defaultSize_bounds i).2)
      (fun _ _ => 0) (fun _ _ => 0) hlong
  refine ⟨fs, es, p, hfs, hpre, hrun, fun hroom => ?_⟩
  have := hroom false op hop
  omega

end Process

end HsCommon.HSSession
