import HsCommon.ConnectorSends

/-!
# What the code of a connector does to its logs

A packet is put into the send buffer, or all that the buffer holds is offered to
the socket: nothing else changes what has been written, what has been taken or how
often the socket was called. So a property that these two do not break, and that
depends on the logs and an attached send buffer only, holds over every run.
-/

namespace HsCommon.HSClientConnector
open Transition Outcome

variable {w : ULongWidth} {results : ℕ → ℤ} {c c' : HSClientConnector}
  {P : HSClientConnector → Prop} {fuel : ℕ}

structure SameLogs (c c' : HSClientConnector) : Prop where
  written : c'.written = c.written
  accepted : c'.accepted = c.accepted
  sends : c'.sends = c.sends
  attached : c'.packer = true → c.packer = true ∧ c'.sendBuffer = c.sendBuffer

def offered (results : ℕ → ℤ) (c : HSClientConnector) : HSClientConnector :=
  { c with
    sends := c.sends + 1
    accepted := c.accepted ++
      c.written.flatten.zipIdx.take (min (results c.sends) c.written.flatten.length).toNat }

structure LogSide (w : ULongWidth) (results : ℕ → ℤ) (P : HSClientConnector → Prop) : Prop where
  frame : ∀ c c', P c → SameLogs c c' → P c'
  queued : ∀ (c : HSClientConnector) (data x : List UInt8), P c → c.packer = true → Loaded c →
    IsEncoding w data x → x.length ≤ c.sendBuffer.length - c.sendBuffer.inOffset → P (c.queued x)
  offered : ∀ c : HSClientConnector, P c → c.written.flatten ≠ [] → P (c.offered results)

structure Kept (results : ℕ → ℤ) (P : HSClientConnector → Prop) (c : HSClientConnector) :
    Prop where
  sound : Sound results c
  logs : P c

theorem LogSide.close (hP : LogSide w results P) (h : Kept results P c) :
    Kept results P c.close := by
  refine ⟨h.sound.close, hP.frame c _ h.logs ?_⟩
  rw [HSClientConnector.close, if_neg (not_le.mpr h.sound.sock)]
  exact ⟨rfl, rfl, rfl, fun hp => by cases hp⟩

theorem LogSide.write (hP : LogSide w results P) (h : Kept results P c) (data : Payload) :
    ∃ r c', c.write w data.val = .ok (r, c') ∧ Kept results P c' := by
  obtain ⟨r, c', hw, hs⟩ := h.sound.write (w := w) data
  refine ⟨r, c', hw, hs, ?_⟩
  by_cases hp : c.packer = true
  · have hl := h.sound.loaded hp
    rcases write_fits hp hl.buffer.fits (w.add_header_lt data.property) with
      ⟨r', hw', -⟩ | ⟨x, hw', henc, hx⟩
    · rw [hw] at hw'
      cases hw'
      exact h.logs
    · rw [hw] at hw'
      cases hw'
      exact hP.queued c data.val x h.logs hp hl henc hx
  · rw [write_detached (Bool.eq_false_iff.mpr hp)] at hw
    cases hw
    exact h.logs

theorem LogSide.processSend (hP : LogSide w results P) (h : Kept results P c) :
    ∃ r c', c.processSend results = .ok (r, c') ∧ Kept results P c' := by
  obtain ⟨r, c', hw, hs⟩ := h.sound.processSend
  refine ⟨r, c', hw, hs, ?_⟩
  by_cases hp : c.packer = true
  · have hl := h.sound.loaded hp
    have hlength : c.sendBuffer.unsent.length = c.written.flatten.length := by rw [hl.unsent]
    by_cases hnil : c.written.flatten = []
    · have hsize := hl.buffer.getCanSendSize_eq
      rw [hlength, hnil] at hsize
      simp only [HSClientConnector.processSend, hp, hsize, bind, Except.bind] at hw
      cases hw
      exact h.logs
    · have hpos := List.length_pos_iff.mpr hnil
      have hle : (min (results c.sends) (c.written.flatten.length : ℤ)).toNat ≤
          c.sendBuffer.inOffset := by
        rw [hl.inOffset_eq]
        omega
      have hall : (c.sendDirectly results c.sendBuffer.sentOffset
          c.sendBuffer.unsent.length).2 = c.offered results := by
        simp only [sendDirectly, hl.sent, hlength, hl.offered hle, HSClientConnector.offered]
      rw [processSend_eq hp hl.buffer.getCanSendSize_eq (by omega)] at hw
      cases hw
      rw [hall]
      exact hP.offered c h.logs hnil
  · rw [HSClientConnector.processSend, if_pos (by simp [hp])] at hw
    cases hw
    exact h.logs

theorem LogSide.send (hP : LogSide w results P) (h : Kept results P c) (data : Payload)
    (F : Fault → Prop) : Ends (fun r => Kept results P r.2) F (c.send w results data.val) := by
  obtain ⟨r, c₁, hw, h₁⟩ := hP.write h data
  simp only [HSClientConnector.send, hw, bind, Except.bind]
  split_ifs
  · exact h₁
  · obtain ⟨r', c₂, hs, h₂⟩ := hP.processSend h₁
    rw [hs]
    dsimp only
    split_ifs
    · exact h₂
    · exact h₂

theorem LogSide.call (hP : LogSide w results P) (h : Kept results P c) (handler : DataHandler)
    {e : ClientCall} (he : ∀ data, e ≠ .onReceive data) (F : Fault → Prop) :
    Ends (Kept results P) F (c.call w results handler e) := by
  have hstart : Sound results { c with calls := c.calls ++ [e] } :=
    (h.sound.call (w := w) (fun _ => []) he F).result rfl
  refine Ends.foldlM ?_ ⟨hstart, hP.frame c _ h.logs ⟨rfl, rfl, rfl, fun hp => ⟨hp, rfl⟩⟩⟩
  intro c₁ a _ h₁
  cases a with
  | send data => exact (hP.send h₁ data F).bind fun r hr => hr
  | disconnect => exact h₁
  | close => exact hP.close h₁

theorem LogSide.setState (hP : LogSide w results P) (h : Kept results P c)
    (hopen : c.packer = true) (state : ConnectorState) :
    Kept results P { c with state := state } :=
  ⟨h.sound.setState hopen state, hP.frame c _ h.logs ⟨rfl, rfl, rfl, fun hp => ⟨hp, rfl⟩⟩⟩

theorem LogSide.connect (hP : LogSide w results P) (h : Kept results P c) (handler : DataHandler)
    {res : ℤ} {wouldBlock : Bool} (hposs : c.Possible (.connect res wouldBlock))
    (F : Fault → Prop) :
    Ends (fun r => Kept results P r.2) F
      (c.connect w results (some handler) res wouldBlock) := by
  by_cases hp : c.packer = true
  · simp only [HSClientConnector.connect]
    split_ifs
    · exact h
    · exact h
    · exact hP.setState h hp .connecting
    · exact (hP.call (hP.setState h hp .connected) handler (by simp) F).bind fun c₁ h₁ => h₁
    · exact h
  · obtain ⟨rfl, rfl⟩ := hposs (h.sound.closed (Bool.eq_false_iff.mpr hp))
    simp only [HSClientConnector.connect, Bool.not_false, if_true]
    split_ifs <;> exact h

theorem LogSide.closeAndTell (hP : LogSide w results P) (h : Kept results P c)
    (handler : DataHandler) (res : ℤ) (F : Fault → Prop) :
    Ends (fun r => Kept results P r.2) F (c.closeAndTell w results handler res) :=
  (hP.call (hP.close h) handler (by simp) F).bind fun c₁ h₁ => h₁

theorem LogSide.tickSend (hP : LogSide w results P) (h : Kept results P c)
    (handler : DataHandler) (res : ℤ) (F : Fault → Prop) :
    Ends (fun r => Kept results P r.2) F (c.tickSend w results handler res) := by
  obtain ⟨r, c₁, hs, h₁⟩ := hP.processSend h
  simp only [HSClientConnector.tickSend, hs, bind, Except.bind]
  split_ifs
  · exact hP.closeAndTell h₁ handler res F
  · exact h₁

theorem LogSide.recv (hP : LogSide w results P) (h : Kept results P c) (bytes : List UInt8) :
    Kept results P (c.recv bytes).2 :=
  ⟨(h.sound.recv bytes).2, hP.frame c _ h.logs ⟨rfl, rfl, rfl, fun hp => ⟨hp, rfl⟩⟩⟩

theorem LogSide.tick (hP : LogSide w results P) (h : Kept results P c) (handler : DataHandler)
    (poll : Poll) (F : Fault → Prop) :
    Ends (fun r => Kept results P r.2) F (c.tick w results fuel (some handler) poll) := by
  simp only [HSClientConnector.tick]
  split_ifs with hstate hconn
  · exact h
  · exact h
  · exact h
  · have hp : c.packer = true := by
      by_contra hp
      rw [h.sound.closed (Bool.eq_false_iff.mpr hp)] at hconn
      cases hconn
    exact (hP.call (hP.setState h hp .connected) handler (by simp) F).bind fun c₁ h₁ => h₁
  · exact h
  · exact hP.closeAndTell h handler _ F
  · cases poll.recv with
    | none => exact hP.closeAndTell h handler _ F
    | some bytes =>
      have hzero : toInt (c.recv bytes).1 = 0 := by
        rw [(h.sound.recv bytes).1]
        decide
      dsimp only
      rw [hzero, if_neg (lt_irrefl 0), if_neg (lt_irrefl 0)]
      exact hP.tickSend (hP.recv h bytes) handler 0 F
  · exact hP.tickSend h handler _ F

theorem LogSide.exec (hP : LogSide w results P) (h : Kept results P c) {handler : DataHandler}
    {e : ConnectorEvent} (hposs : c.Possible e) (F : Fault → Prop) :
    Ends (Kept results P) F (c.exec w results fuel (some handler) e) := by
  cases e with
  | connect res wouldBlock => exact (hP.connect h handler hposs F).bind fun r hr => hr
  | send data => exact (hP.send h data F).bind fun r hr => hr
  | tick poll => exact (hP.tick h handler poll F).bind fun r hr => hr
  | disconnect => exact h
  | close => exact hP.close h

theorem LogSide.run (hP : LogSide w results P) {c₀ : HSClientConnector} (h₀ : Kept results P c₀)
    {handler : DataHandler} {es : List ConnectorEvent}
    (h : Run (Step w results fuel (some handler)) c₀ es c) : Kept results P c := by
  refine h.invariant h₀ ?_
  rintro c e c' hc ⟨hposs, hexec⟩
  exact (hP.exec hc hposs fun _ => True).result hexec

def Takes (w : ULongWidth) (data : List UInt8) (c : HSClientConnector) : Prop :=
  c.packer = true ∧ Fits w data c.sendBuffer.toHSBuffer

def Filled (c₀ c : HSClientConnector) : Prop :=
  c.packer = true → c₀.packer = true ∧ c.sendBuffer.length = c₀.sendBuffer.length ∧
    c₀.sendBuffer.inOffset ≤ c.sendBuffer.inOffset

theorem logSide_filled (w : ULongWidth) (results : ℕ → ℤ) (c₀ : HSClientConnector) :
    LogSide w results (Filled c₀) where
  frame c c' h hsame hp := by
    obtain ⟨hopen, hbuf⟩ := hsame.attached hp
    rw [hbuf]
    exact h hopen
  queued c data x h hp hl henc hx _ := by
    obtain ⟨hopen, hlen, hin⟩ := h hp
    have hbuffer := queued_buffer hl.buffer.fits hx
    refine ⟨hopen, ?_, ?_⟩
    · simp only [HSClientConnector.queued, hbuffer]
      exact hlen
    · simp only [HSClientConnector.queued, hbuffer]
      exact hin.trans (Nat.le_add_right _ _)
  offered c h _ := h

def Within (n : ℕ) (c : HSClientConnector) : Prop :=
  c.written.flatten.length ≤ n ∧ (c.packer = true → c.sendBuffer.length = n)

theorem logSide_within (w : ULongWidth) (results : ℕ → ℤ) (n : ℕ) :
    LogSide w results (Within n) where
  frame c c' h hsame := by
    refine ⟨hsame.written ▸ h.1, fun hp => ?_⟩
    obtain ⟨hopen, hbuf⟩ := hsame.attached hp
    rw [hbuf]
    exact h.2 hopen
  queued c data x h hp hl henc hx := by
    have hin := hl.inOffset_eq
    have hlen := h.2 hp
    have hle := h.1
    refine ⟨?_, fun _ => ?_⟩
    · simp only [HSClientConnector.queued, List.flatten_append, List.flatten_singleton,
        List.length_append]
      omega
    · simp only [HSClientConnector.queued, queued_buffer hl.buffer.fits hx]
      exact hlen
  offered c h _ := h

theorem within_initialized {recvLen sendLen : ℕ} (hsend : 0 < sendLen) {sock : ℤ}
    (hsock : 0 < sock) (recvMem sendMem : ℕ → UInt8) :
    Within sendLen (initialized recvLen sendLen sock recvMem sendMem) := by
  rw [initialized_eq hsock]
  refine ⟨Nat.zero_le _, fun _ => ?_⟩
  change (HSBuffer.setLength _ sendLen sendMem).length = sendLen
  rw [HSBuffer.setLength]
  split_ifs with hc
  · rfl
  · by_contra hne
    exact hc ⟨hsend.ne', (by decide : sessionDataBufferDefaultSize ≠ 0), Ne.symm hne⟩

theorem send_refused (h : Sound results c) {data : Payload} (ht : ¬ Takes w data.val c) :
    c.send w results data.val = .ok (-1, c) := by
  by_cases hp : c.packer = true
  · rcases send_cases hp (h.loaded hp).buffer data with ⟨hs, -⟩ | ⟨x, henc, hx, -⟩
    · exact hs
    · exact absurd ⟨hp, fits_of_encoding henc hx⟩ ht
  · simp only [HSClientConnector.send, write_detached (Bool.eq_false_iff.mpr hp)]
    rfl

theorem Filled.takes {c₀ : HSClientConnector} (h : Filled c₀ c) {data data' : List UInt8}
    (hle : data.length ≤ data'.length) (ht : Takes w data' c) : Takes w data c₀ := by
  obtain ⟨hp, hmax, hroom⟩ := ht
  obtain ⟨hopen, hlen, hin⟩ := h hp
  refine ⟨hopen, ?_, ?_⟩
  · omega
  · omega

/-- The send buffer is never emptied: the packets of a connection are within the length `Init` was
told, and when a packet has not fitted once, `Send` answers -1 to all that are as long. -/
theorem send_exhausts {recvLen sendLen : ℕ} (hsend : 0 < sendLen) (hlen : sendLen < 2 ^ 64)
    {sock : ℤ} (hsock : 0 < sock) {recvMem sendMem : ℕ → UInt8} {handler : DataHandler}
    {es es' : List ConnectorEvent}
    (h : Run (Step w results fuel (some handler))
      (initialized recvLen sendLen sock recvMem sendMem) es c)
    (h' : Run (Step w results fuel (some handler)) c es' c') :
    c'.written.flatten.length ≤ sendLen ∧
      ∀ data data' : Payload, ¬ Takes w data.val c → data.val.length ≤ data'.val.length →
        c'.send w results data'.val = .ok (-1, c') := by
  have hsound : Sound results (initialized recvLen sendLen sock recvMem sendMem) :=
    sound_initialized results hlen hsock recvMem sendMem
  have hwithin := (logSide_within w results sendLen).run
    ⟨hsound, within_initialized hsend hsock recvMem sendMem⟩ (h.append h')
  refine ⟨hwithin.logs.1, ?_⟩
  intro data data' ht hle
  have hfilled : Kept results (Filled c) c' := by
    refine (logSide_filled w results c).run ⟨hsound.of_run h, ?_⟩ h'
    exact fun hp => ⟨hp, rfl, le_rfl⟩
  exact send_refused hwithin.sound fun ht' => ht (hfilled.logs.takes hle ht')

theorem send_exhausts_second :
    ∃ c' : HSClientConnector, c'.written.flatten.length = 13 ∧
      c'.send .eight (fun _ => 13) [2] = .ok (-1, c') := by
  obtain ⟨c, hrun, hc⟩ := @Run.of_observed _ _ (Step .eight (fun _ => 13) 0 (some fun _ => []))
    (initialized 8192 20 1 (fun _ => 0) (fun _ => 0)) _ _ (fun _ _ _ => step_of_next)
    [.connect 0 false, .send ⟨[1], by decide⟩]
    (fun c => ((c.sendBuffer.length, c.sendBuffer.inOffset),
      (c.exec .eight (fun _ => 13) 0 (some fun _ => []) (.tick ⟨0, false, false, some []⟩)).map
        fun c' => c'.written.flatten.length)) ((20, 13), .ok 13) (by decide +kernel)
  obtain ⟨hbuf, htick⟩ := Prod.mk.inj hc
  obtain ⟨hlen, hin⟩ := Prod.mk.inj hbuf
  obtain ⟨c', hexec, hwritten⟩ := exists_ok_of_map htick
  have hfull : ¬ Takes .eight [2] c := by
    rintro ⟨-, -, hroom⟩
    rw [hlen, hin] at hroom
    exact absurd hroom (by decide)
  have h' : Run (Step .eight (fun _ => 13) 0 (some fun _ => [])) c
      ([] ++ [.tick ⟨0, false, false, some []⟩]) c' := .snoc .nil ⟨trivial, hexec⟩
  obtain ⟨-, hrefused⟩ := send_exhausts (by decide) (by decide) (by decide) hrun h'
  exact ⟨c', hwritten, hrefused ⟨[2], by decide⟩ ⟨[2], by decide⟩ hfull le_rfl⟩

end HsCommon.HSClientConnector
