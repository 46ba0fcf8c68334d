import HsCommon.ConnectorRuns

/-!
# Sending again after a failure

`Send` reports -1 when the packet does not fit the send buffer, which has not
changed then, and also when the socket refuses the bytes. In the second case the
packet stays in the buffer: the next tick sends it, and a caller that tries again
puts it there a second time.
-/

namespace HsCommon.HSClientConnector
open Transition

variable {w : ULongWidth} {results : ℕ → ℤ} {c c' : HSClientConnector} {data x : List UInt8}

def answer (results : ℕ → ℤ) (more : ℕ) (c : HSClientConnector) : ℤ :=
  toInt (min (results c.sends) ((c.sendBuffer.unsent.length + more : ℕ) : ℤ))

def offeredAll (results : ℕ → ℤ) (x : List UInt8) (c : HSClientConnector) : HSClientConnector :=
  ((c.queued x).sendDirectly results c.sendBuffer.sentOffset
    (c.sendBuffer.unsent.length + x.length)).2

structure Sendable (c : HSClientConnector) : Prop where
  sock : 0 < c.sock
  buffer : c.packer = true → c.sendBuffer.Ok
  closed : c.packer = false → c.state = .notInitialized

theorem Sound.sendable (h : Sound results c) : Sendable c :=
  ⟨h.sock, fun hp => (h.loaded hp).buffer, h.closed⟩

theorem Sendable.packer (h : Sendable c) (hstate : c.state ≠ .notInitialized) :
    c.packer = true := by
  by_contra hp
  exact hstate (h.closed (Bool.eq_false_iff.mpr hp))

theorem write_detached (hp : c.packer = false) : c.write w data = .ok (-1, c) := by
  rw [write, if_pos (by simp [hp])]

theorem processSend_eq {n : ℕ} (hp : c.packer = true)
    (hsize : c.sendBuffer.getCanSendSize = .ok n) (hne : n ≠ 0) :
    c.processSend results =
      .ok (if (c.sendDirectly results c.sendBuffer.sentOffset n).1 < 0 then -1 else 1,
        (c.sendDirectly results c.sendBuffer.sentOffset n).2) := by
  have hpacker : ¬ ((!c.packer) = true) := by simp [hp]
  rw [processSend, if_neg hpacker, hsize]
  simp only [bind, Except.bind, if_neg hne]
  split_ifs <;> rfl

theorem send_cases (hp : c.packer = true) (hb : c.sendBuffer.Ok) (data : Payload) :
    (c.send w results data.val = .ok (-1, c) ∧ ¬ Fits w data.val c.sendBuffer.toHSBuffer) ∨
    ∃ x, IsEncoding w data.val x ∧ x.length ≤ c.sendBuffer.length - c.sendBuffer.inOffset ∧
      c.send w results data.val =
        .ok (if c.answer results x.length < 0 then -1 else 1, c.offeredAll results x) := by
  rcases write_fits hp hb.fits (w.add_header_lt data.property) with
    ⟨r, hw, hr, hfits⟩ | ⟨x, hw, henc, hx⟩
  · have hle : r ≤ 0 := by omega
    refine Or.inl ⟨?_, hfits⟩
    simp only [send, hw, bind, Except.bind, if_pos hle]
    rfl
  · obtain ⟨hok, hun, -, -⟩ := hb.append henc.ne_nil hx
    have hpos := List.length_pos_iff.mpr henc.ne_nil
    have hsize : (c.queued x).sendBuffer.getCanSendSize =
        .ok (c.sendBuffer.unsent.length + x.length) := by
      rw [← List.length_append, ← hun]
      exact hok.getCanSendSize_eq
    have hprocess : (c.queued x).processSend results =
        .ok (if c.answer results x.length < 0 then -1 else 1, c.offeredAll results x) :=
      processSend_eq hp hsize (by omega)
    have hone : ¬ ((1 : ℤ) ≤ 0) := by decide
    refine Or.inr ⟨x, henc, hx, ?_⟩
    simp only [send, hw, hprocess, bind, Except.bind, if_neg hone]
    by_cases hneg : c.answer results x.length < 0
    · simp only [if_pos hneg]
      rfl
    · simp only [if_neg hneg]
      rfl

theorem offeredAll_unsent (hb : c.sendBuffer.Ok) (hne : x ≠ [])
    (hx : x.length ≤ c.sendBuffer.length - c.sendBuffer.inOffset) :
    (c.offeredAll results x).sendBuffer.Ok ∧
      (c.offeredAll results x).sendBuffer.unsent = c.sendBuffer.unsent ++ x := by
  obtain ⟨hok, hun, -, -⟩ := hb.append hne hx
  exact ⟨hok, hun⟩

theorem send_returns (hb : c.packer = true → c.sendBuffer.Ok) (data : Payload) :
    ∃ r c', c.send w results data.val = .ok (r, c') ∧
      (c' = c ∨ c'.sendBuffer.Ok ∧ ∃ x, c' = c.offeredAll results x) := by
  by_cases hp : c.packer = true
  · rcases @send_cases w results c hp (hb hp) data with ⟨hs, -⟩ | ⟨x, henc, hx, hs⟩
    · exact ⟨-1, c, hs, Or.inl rfl⟩
    · exact ⟨_, _, hs, Or.inr ⟨(offeredAll_unsent (hb hp) henc.ne_nil hx).1, x, rfl⟩⟩
  · refine ⟨-1, c, ?_, Or.inl rfl⟩
    simp only [send, write_detached (Bool.eq_false_iff.mpr hp)]
    rfl

theorem Sendable.send (h : Sendable c) (data : Payload) :
    ∃ r c', c.send w results data.val = .ok (r, c') ∧ Sendable c' := by
  obtain ⟨r, c', hs, rfl | ⟨hok, x, rfl⟩⟩ := @send_returns w results c h.buffer data
  · exact ⟨r, c', hs, h⟩
  · exact ⟨r, _, hs, h.sock, fun _ => hok, h.closed⟩

theorem Sendable.close (h : Sendable c) : Sendable c.close := by
  rw [HSClientConnector.close, if_neg (not_le.mpr h.sock)]
  exact ⟨h.sock, fun hp => (by cases hp), fun _ => rfl⟩

theorem Sendable.runAction (h : Sendable c) {a : ClientAction}
    (ha : c.runAction w results a = .ok c') : Sendable c' := by
  cases a with
  | send data =>
    obtain ⟨r, c₁, hs, h₁⟩ := @Sendable.send w results c h data
    rw [HSClientConnector.runAction, hs] at ha
    cases ha
    exact h₁
  | disconnect =>
    cases ha
    exact h
  | close =>
    cases ha
    exact h.close

/-- The states between the steps of a run and those in which a handler called by one of them finds
the connector. When it is called, and between its calls, the bytes received and the calls so far
may be any. -/
inductive Reachable (w : ULongWidth) (results : ℕ → ℤ) (fuel : ℕ) (handler : Option DataHandler)
    (c₀ : HSClientConnector) : HSClientConnector → Prop
  | run {es : List ConnectorEvent} {c : HSClientConnector} :
      Run (Step w results fuel handler) c₀ es c → Reachable w results fuel handler c₀ c
  | called {c : HSClientConnector} (calls : List ClientCall) (recvBuffer : HSRecvBuffer)
      (received : List UInt8) :
      Reachable w results fuel handler c₀ c → c.state ≠ .notInitialized →
      Reachable w results fuel handler c₀
        { c with
          state := .connected, calls := calls, recvBuffer := recvBuffer, received := received }
  | acted {c c' : HSClientConnector} {a : ClientAction} :
      Reachable w results fuel handler c₀ c → c.runAction w results a = .ok c' →
      Reachable w results fuel handler c₀ c'

theorem Reachable.sendable {fuel : ℕ} {handler : Option DataHandler} {c₀ : HSClientConnector}
    (h₀ : Sound results c₀) (h : Reachable w results fuel handler c₀ c) : Sendable c := by
  induction h with
  | run hrun => exact (h₀.of_run hrun).sendable
  | called _ _ _ _ hstate ih =>
    have hp := ih.packer hstate
    exact ⟨ih.sock, fun _ => ih.buffer hp, fun hc => absurd (hp.symm.trans hc) (by decide)⟩
  | acted _ ha ih => exact ih.runAction ha

/-- The send buffer holds the bytes it held before, and sending the data again puts at most one
packet after these. -/
def NothingLeft (w : ULongWidth) (results : ℕ → ℤ) (data : List UInt8)
    (c c' : HSClientConnector) : Prop :=
  c'.sendBuffer.unsent = c.sendBuffer.unsent ∧
    ∀ r c'', c'.send w results data = .ok (r, c'') →
      c''.sendBuffer.unsent = c.sendBuffer.unsent ∨
        ∃ x, IsEncoding w data x ∧ c''.sendBuffer.unsent = c.sendBuffer.unsent ++ x

theorem send_cases_unsent (hp : c.packer = true) (hb : c.sendBuffer.Ok) (data : Payload) {r : ℤ}
    (h : c.send w results data.val = .ok (r, c')) :
    c'.sendBuffer.unsent = c.sendBuffer.unsent ∨
      ∃ x, IsEncoding w data.val x ∧ c'.sendBuffer.unsent = c.sendBuffer.unsent ++ x := by
  rcases send_cases hp hb data with ⟨hs, -⟩ | ⟨x, henc, hx, hs⟩
  · rw [hs] at h
    cases h
    exact Or.inl rfl
  · rw [hs] at h
    cases h
    exact Or.inr ⟨x, henc, (offeredAll_unsent hb henc.ne_nil hx).2⟩

/-- A result of -1 leaves nothing behind just when the packet does not fit or the socket answers
without an error. -/
theorem send_nothingLeft_iff {recvLen sendLen : ℕ} (hlen : sendLen < 2 ^ 64) {sock : ℤ}
    (hsock : 0 < sock) {recvMem sendMem : ℕ → UInt8} {fuel : ℕ} {handler : Option DataHandler}
    (h : Reachable w results fuel handler (initialized recvLen sendLen sock recvMem sendMem) c)
    (hconn : c.state = .connected) (data : Payload) :
    ∃ r c', c.send w results data.val = .ok (r, c') ∧
      ((r = -1 → NothingLeft w results data.val c c') ↔
        (¬ Fits w data.val c.sendBuffer.toHSBuffer ∨
          0 ≤ c.answer results (w.header + data.val.length))) := by
  have hsound : Sound results (initialized recvLen sendLen sock recvMem sendMem) :=
    sound_initialized results hlen hsock recvMem sendMem
  have hs := h.sendable hsound
  have hp := hs.packer (by rw [hconn]; decide)
  have hb := hs.buffer hp
  rcases send_cases hp hb data with ⟨hsend, hfits⟩ | ⟨x, henc, hx, hsend⟩
  · refine ⟨-1, c, hsend, iff_of_true (fun _ => ⟨rfl, fun r c'' hagain => ?_⟩) (Or.inl hfits)⟩
    exact send_cases_unsent hp hb data hagain
  · have hfits := fits_of_encoding henc hx
    have hun := (@offeredAll_unsent results c x hb henc.ne_nil hx).2
    rw [henc.length] at hsend
    refine ⟨_, _, hsend, ?_⟩
    by_cases hneg : c.answer results (w.header + data.val.length) < 0
    · rw [if_pos hneg]
      refine iff_of_false (fun hleft => ?_) (not_or.mpr ⟨not_not.mpr hfits, not_le.mpr hneg⟩)
      have hsame := (hleft rfl).1
      rw [hun] at hsame
      exact henc.ne_nil (List.append_right_eq_self.mp hsame)
    · rw [if_neg hneg]
      exact iff_of_true (fun hone => absurd hone (by decide)) (Or.inr (not_lt.mp hneg))

theorem send_nothingLeft_taken :
    ∃ c r c', c.send .eight (fun _ => 13) [1] = .ok (r, c') ∧
      (r = -1 → NothingLeft .eight (fun _ => 13) [1] c c') := by
  obtain ⟨c, hrun, hc⟩ := @Run.of_observed _ _ (Step .eight (fun _ => 13) 0 (some fun _ => []))
    (initialized 8192 64 1 (fun _ => 0) (fun _ => 0)) _ _ (fun _ _ _ => step_of_next)
    [.connect 0 false] (fun c => (c.state, c.answer (fun _ => 13) 13)) (.connected, 13)
    (by decide +kernel)
  obtain ⟨hconn, hanswer⟩ := Prod.mk.inj hc
  obtain ⟨r, c', hs, hiff⟩ := send_nothingLeft_iff (by decide) (by decide) (.run hrun) hconn
    ⟨[1], by decide⟩
  have htaken : 0 ≤ c.answer (fun _ => 13) 13 := by
    rw [hanswer]
    decide
  exact ⟨c, r, c', hs, hiff.mpr (Or.inr htaken)⟩

/-- The socket has an error once. `Send` returns -1 with the packet in the buffer, and sending it
again succeeds: the socket takes the packet twice. -/
theorem send_twice :
    ∃ c c' c'' : HSClientConnector,
      Run (Step .eight (fun k => if k = 0 then -1 else 26) 0 (some fun _ => []))
        (initialized 8192 64 1 (fun _ => 0) (fun _ => 0)) [.connect 0 false] c ∧
      c.state = .connected ∧
      c.send .eight (fun k => if k = 0 then -1 else 26) [1] = .ok (-1, c') ∧
      c'.sendBuffer.unsent ≠ c.sendBuffer.unsent ∧
      c'.send .eight (fun k => if k = 0 then -1 else 26) [1] = .ok (1, c'') ∧
      c''.accepted.map Prod.fst =
        encoding .eight [1] [0, 0, 0, 0] ++ encoding .eight [1] [0, 0, 0, 0] := by
  obtain ⟨c, hrun, hc⟩ := @Run.of_observed _ _
    (Step .eight (fun k => if k = 0 then -1 else 26) 0 (some fun _ => []))
    (initialized 8192 64 1 (fun _ => 0) (fun _ => 0)) _ _ (fun _ _ _ => step_of_next)
    [.connect 0 false]
    (fun c => ((c.state, c.sendBuffer.unsent.length),
      (c.send .eight (fun k => if k = 0 then -1 else 26) [1]) >>= fun r =>
        (r.2.send .eight (fun k => if k = 0 then -1 else 26) [1]).map fun q =>
          ((r.1, r.2.sendBuffer.unsent.length), (q.1, q.2.accepted.map Prod.fst))))
    ((.connected, 0), .ok ((-1, 13), (1,
      encoding .eight [1] [0, 0, 0, 0] ++ encoding .eight [1] [0, 0, 0, 0])))
    (by decide +kernel)
  simp only [Prod.mk.injEq] at hc
  obtain ⟨⟨hconn, hempty⟩, hsends⟩ := hc
  obtain ⟨⟨r, c'⟩, hsend, hagain⟩ := Outcome.exists_of_bind hsends
  obtain ⟨⟨q, c''⟩, hagain, hboth⟩ := exists_ok_of_map hagain
  simp only [Prod.mk.injEq] at hboth
  obtain ⟨⟨rfl, hun⟩, rfl, htaken⟩ := hboth
  refine ⟨c, c', c'', hrun, hconn, hsend, fun hsame => ?_, hagain, htaken⟩
  have hlength := congrArg List.length hsame
  omega

end HsCommon.HSClientConnector
