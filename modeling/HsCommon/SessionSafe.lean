import HsCommon.SessionLoop

/-!
# Events that end well

A session of any size, with a handler that sends and clears as it likes as long as
the first call in which it clears is for an empty packet. An event ends in the
assertion of `GetCanSendSize` when it is the completion of a write that reports
more than is unsent, and in every other case without a fault: the decode loop
comes to its end, and nothing is read or written beyond the buffers.
-/

namespace HsCommon.HSSession
open Transition Outcome Framing Loop

variable {w : ULongWidth} {fuel L length : ℕ} {s s' : HSSession} {m : Option ℕ}

theorem Looping.round_ok (h : Looping L s) : ∃ r, s.loopRound w = .ok r := by
  cases hdec : decodeBytes w s.recvBuffer.unread with
  | rejected => exact ⟨_, loopRound_rejected h.recv hdec⟩
  | incomplete => exact ⟨_, loopRound_incomplete h.recv hdec⟩
  | frame v n =>
    obtain ⟨s', -, -, -, hround, -, -⟩ := loopRound_frame h.send h.recv hdec
    exact ⟨_, hround⟩

theorem Looping.round_shrinks (h : Looping L s) (h' : Looping L s')
    (hround : s.loopRound w = .ok (none, s')) :
    s'.recvBuffer.unread.length < s.recvBuffer.unread.length := by
  cases hdec : decodeBytes w s.recvBuffer.unread with
  | rejected =>
    rw [loopRound_rejected h.recv hdec] at hround
    cases hround
  | incomplete =>
    rw [loopRound_incomplete h.recv hdec] at hround
    cases hround
  | frame v n =>
    obtain ⟨s₁, -, -, -, hround₁, hkeep, hclear⟩ := loopRound_frame h.send h.recv hdec
    rw [hround₁] at hround
    obtain ⟨hnone, rfl⟩ := Prod.mk.inj (Except.ok.inj hround)
    have hne : s₁.recvBuffer.inOffset ≠ s₁.recvBuffer.getUsedSize := by
      intro hend
      rw [if_pos hend] at hnone
      cases hnone
    by_cases hc : ClearsIn s.eventHandler (s.calls ++ [.onReceive v])
    · have hempty := hclear hc
      split_ifs at hempty
      · exact absurd hempty.2.2 hne
      · exact absurd h'.recv.used_le (not_le.mpr hempty)
    · obtain ⟨-, -, hun⟩ := hkeep hc
      have hle := (incremental_decodeBytes w).frame_le _ _ _ hdec
      rw [hun, List.length_drop]
      omega

theorem decodeLoop_left {vs : List (List UInt8)} {o : Option (List UInt8)} (h : Looping L s)
    (hd : Drains (decodeBytes w) s.recvBuffer.unread vs o)
    (hcond : ClearsWhenEmpty s.eventHandler s.calls vs) (hfuel : L < fuel) :
    ∃ r, decodeLoop w fuel s = .ok r := by
  have hheads : ∀ t, Head (loopRound w) s t → Looping L t :=
    (heads_iff (fun _ ht => ht) (fun _ ht => ht.recv.used_le) hd h rfl).mpr hcond
  have hle := s.recvBuffer.unread_length_le
  have hin := h.recv.in_le
  have hlen := h.length_eq
  rw [decodeLoop_eq]
  exact loop_left (fun t => t.recvBuffer.unread.length) (fun t ht => (hheads t ht).round_ok)
    (fun t t' ht hround => (hheads t ht).round_shrinks (hheads t' (ht.again hround)) hround)
    (by omega)

theorem Buffered.call (h : Buffered s) (c : Call) : ∃ s', s.call w c = .ok s' := by
  obtain ⟨s', hs', -⟩ := call_recvBuffer (w := w) h c
  exact ⟨s', hs'⟩

theorem Buffered.send_ok (h : Buffered s) (data : Payload) : ∃ r, s.send w data.val = .ok r := by
  rcases send_cases (w := w) h data.property with hs | hs | ⟨x, -, -, hs⟩
  · exact ⟨_, hs⟩
  · exact ⟨_, hs⟩
  · exact ⟨_, hs⟩

theorem Buffered.writeResult_ok (h : Buffered s) (result : Completion ℕ)
    (hfit : ∀ n, result = .success n → s.sendBuffer.sentOffset + n ≤ s.sendBuffer.inOffset) :
    ∃ s', s.writeResult w result = .ok s' := by
  cases result with
  | success n =>
    rcases Nat.eq_zero_or_pos n with rfl | hpos
    · exact ⟨s, rfl⟩
    · have hn : n ≤ s.sendBuffer.unsent.length := by
        have := hfit n rfl
        rw [HSSendBuffer.unsent_length]
        omega
      exact ⟨_, writeResult_success h hpos hn⟩
  | failure v =>
    by_cases hv : v = 10035
    · rw [hv]
      exact ⟨_, writeResult_wouldBlock h⟩
    · obtain ⟨s₁, hs₁⟩ := h.call (w := w) .onDisconnect
      have herr : handleError v ≠ 0 := by simp [handleError, hv]
      simp only [HSSession.writeResult, if_neg herr, hs₁]
      exact ⟨_, rfl⟩

theorem Steady.exec_ok (hL : L < 2 ^ 64) (hfuel : L < fuel) (h : Steady L s) (hb : Buffered s)
    {e : SessionEvent} (hposs : s.Possible e) (hcond : ClearsSafely w s e) (hfit : Fits s e) :
    ∃ r, s.exec w fuel m e = .ok r := by
  cases e with
  | send data =>
    obtain ⟨r, hr⟩ := hb.send_ok (w := w) data
    simp only [HSSession.exec, hr]
    exact ⟨_, rfl⟩
  | writeDone k result =>
    cases hop : s.writes[k]? with
    | none =>
      simp only [HSSession.exec, hop]
      exact ⟨_, rfl⟩
    | some op =>
      have hb₁ : Buffered ({ s with writes := s.writes.eraseIdx k }.accept op result) := by
        cases result <;> exact hb
      obtain ⟨s₁, hs₁⟩ := hb₁.writeResult_ok (w := w) result (by rintro n rfl; exact hfit)
      simp only [HSSession.exec, hop, hs₁]
      exact ⟨_, rfl⟩
  | readDone k result =>
    cases hop : s.reads[k]? with
    | none =>
      simp only [HSSession.exec, hop]
      exact ⟨_, rfl⟩
    | some op =>
      cases result with
      | success chunk =>
        obtain ⟨op', hop', hroom⟩ := hposs
        obtain rfl : op = op' := Option.some.inj (hop.symm.trans hop')
        by_cases hne : chunk = []
        · subst hne
          simp only [HSSession.exec, hop]
          exact ⟨_, rfl⟩
        · obtain ⟨vs, o, hd⟩ := exists_drains (incremental_decodeBytes w)
            (s.atLoop k op chunk).recvBuffer.unread
          obtain ⟨r, hr⟩ := decodeLoop_left (atLoop_looping hL h hb hop hroom hne).1 hd
            (hcond k chunk op vs o rfl hne hop hd) hfuel
          rw [exec_readDone hop hne, hr]
          exact ⟨_, rfl⟩
      | failure v =>
        simp only [HSSession.exec, hop, deliver, Completion.count, HSSession.handleRead]
        split_ifs
        · exact ⟨_, rfl⟩
        · obtain ⟨s₁, hs₁⟩ :=
            @Buffered.call w { s with reads := s.reads.eraseIdx k } hb .onDisconnect
          rw [hs₁]
          exact ⟨_, rfl⟩

theorem Bounded.step (h : Bounded length s) (hlen : length < 2 ^ 63) {e : SessionEvent}
    (hs : Step w fuel s e s') : Bounded length s' := by
  obtain ⟨hposs, m, m', hexec⟩ := hs
  by_cases hfit : Fits s e
  · exact (h.exec hfit).result hexec
  · rw [h.exec_assertFailed hlen hposs hfit] at hexec
    cases hexec

/-- In every run in which the handler clears safely, the next such event ends without a fault if it
does not report more than is unsent, and with the failed assertion if it does. -/
theorem events_end {recvLen sendLen : ℕ} (hrecv : recvLen < 2 ^ 64) (hsend : sendLen < 2 ^ 63)
    (hfuel : recvLen < fuel) (recvMem sendMem : ℕ → UInt8) (handler : Option EventHandler)
    (es : List SessionEvent) (s : HSSession)
    (h : Run (Guarded (ClearsSafely w) (Step w fuel))
      (opened recvLen sendLen recvMem sendMem handler).start es s)
    (m : Option ℕ) (e : SessionEvent) (hposs : s.Possible e) (hcond : ClearsSafely w s e) :
    (Fits s e ∧ ∃ m' s', s.exec w fuel m e = .ok (m', s')) ∨
      (¬ Fits s e ∧ s.exec w fuel m e = .error .assertFailed) := by
  have h₀ : Steady recvLen (opened recvLen sendLen recvMem sendMem handler).start := by
    refine Steady.start hrecv ⟨fun hpos => ?_, le_rfl, Nat.zero_le _, rfl, rfl, Or.inl rfl⟩ rfl
    exact (HSRecvBuffer.new_ok recvMem hpos hrecv).some
  have hb₀ : Bounded sendLen (opened recvLen sendLen recvMem sendMem handler).start :=
    bounded_opened (by omega) recvMem sendMem handler
  have hboth : Steady recvLen s ∧ Bounded sendLen s := by
    refine Run.invariant (P := fun s => Steady recvLen s ∧ Bounded sendLen s) ⟨h₀, hb₀⟩ ?_ h
    intro s e s' hs hstep
    obtain ⟨hcond, hposs, m, m', hexec⟩ := hstep
    exact ⟨(hs.1.exec hrecv hs.2.buffer hposs hcond).result hexec,
      hs.2.step hsend ⟨hposs, m, m', hexec⟩⟩
  by_cases hfit : Fits s e
  · obtain ⟨⟨m', s'⟩, hr⟩ := hboth.1.exec_ok hrecv hfuel hboth.2.buffer hposs hcond hfit
    exact Or.inl ⟨hfit, m', s', hr⟩
  · exact Or.inr ⟨hfit, hboth.2.exec_assertFailed hsend hposs hfit⟩

theorem clearsSafely_send (s : HSSession) (data : Payload) : ClearsSafely w s (.send data) :=
  fun _ _ _ _ _ he => nomatch he

theorem clearsSafely_writeDone (s : HSSession) (k : ℕ) (r : Completion ℕ) :
    ClearsSafely w s (.writeDone k r) :=
  fun _ _ _ _ _ he => nomatch he

def oneByte : Payload := ⟨[42], by decide⟩

theorem events_end_sent :
    ∃ s m' s', Run (Step .eight 65) (opened 64 64 (fun _ => 0) (fun _ => 0) none).start
        [.send oneByte] s ∧
      s.exec .eight 65 none (.writeDone 0 (.success 13)) = .ok (m', s') := by
  let s₀ := (opened 64 64 (fun _ => 0) (fun _ => 0) none).start
  obtain ⟨⟨m, s⟩, hexec, hs⟩ := @exists_ok_of_map _ _
    (fun r : Option ℕ × HSSession => (decide (r.2.Possible (.writeDone 0 (.success 13))),
      decide (r.2.sendBuffer.sentOffset + 13 ≤ r.2.sendBuffer.inOffset)))
    (s₀.exec .eight 65 none (.send oneByte)) (true, true) (by decide +kernel)
  obtain ⟨hposs, hfit⟩ := Prod.mk.inj hs
  have hstep : Step .eight 65 s₀ (.send oneByte) s := ⟨trivial, none, m, hexec⟩
  have hend := @events_end .eight 65 64 64 (by decide) (by decide) (by decide) (fun _ => 0)
    (fun _ => 0) none _ s (.snoc .nil ⟨clearsSafely_send s₀ _, hstep⟩) none
    (.writeDone 0 (.success 13)) (of_decide_eq_true hposs) (clearsSafely_writeDone s _ _)
  rcases hend with ⟨-, m', s', hok⟩ | ⟨hnot, -⟩
  · exact ⟨s, m', s', .snoc .nil hstep, hok⟩
  · exact absurd (of_decide_eq_true hfit) hnot

end HsCommon.HSSession
