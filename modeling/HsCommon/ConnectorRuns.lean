import HsCommon.ConnectorTold
import HsCommon.SendPacker

/-!
# Runs of a connector

`HSSendDataPacker::Process` never calls `Sent`: every call of `send` on the socket
offers the stream of packets from its first byte. And `Tick` tells `recv` to use
the place of the unread bytes instead of the free tail. There are none at first,
so `recv` is never given room and nothing is ever received.
-/

namespace HsCommon.HSClientConnector
open Transition Outcome Framing

variable {w : ULongWidth} {results : ℕ → ℤ} {c : HSClientConnector}

def taking (results : ℕ → ℤ) (k : ℕ) : ℕ := (List.range k).countP fun i => 0 < results i

theorem taking_succ (results : ℕ → ℤ) (k : ℕ) :
    taking results (k + 1) = taking results k + if 0 < results k then 1 else 0 := by
  simp only [taking, List.range_succ, List.countP_append, List.countP_singleton, decide_eq_true_eq]

/-- The first byte of the stream has been taken once in each call that took bytes. After one such
call the bytes taken are a front part of the stream. -/
structure Ledger (results : ℕ → ℤ) (k : ℕ) (bytes : List UInt8) (accepted : List (UInt8 × ℕ)) :
    Prop where
  firsts : accepted.countP (·.2 = 0) = taking results k
  none : taking results k = 0 → accepted = []
  once : taking results k = 1 → accepted <+: bytes.zipIdx

theorem countP_zipIdx_le (bytes : List UInt8) : bytes.zipIdx.countP (·.2 = 0) ≤ 1 := by
  cases bytes with
  | nil => exact Nat.zero_le 1
  | cons b bytes =>
    have hrest : (bytes.zipIdx 1).countP (·.2 = 0) = 0 := by
      refine List.countP_eq_zero.mpr fun p hp => ?_
      have := List.le_snd_of_mem_zipIdx hp
      simp only [decide_eq_true_eq]
      omega
    rw [List.zipIdx_cons, List.countP_cons, hrest]
    simp

theorem Ledger.prefix_iff {k : ℕ} {bytes : List UInt8} {accepted : List (UInt8 × ℕ)}
    (h : Ledger results k bytes accepted) :
    accepted <+: bytes.zipIdx ↔ taking results k ≤ 1 := by
  constructor
  · intro hpre
    calc taking results k = accepted.countP (·.2 = 0) := h.firsts.symm
      _ ≤ bytes.zipIdx.countP (·.2 = 0) := hpre.sublist.countP_le
      _ ≤ 1 := countP_zipIdx_le bytes
  · intro hle
    rcases Nat.lt_or_ge (taking results k) 1 with hlt | hge
    · rw [h.none (by omega)]
      exact List.nil_prefix
    · exact h.once (by omega)

theorem Ledger.write {k : ℕ} {bytes : List UInt8} {accepted : List (UInt8 × ℕ)}
    (h : Ledger results k bytes accepted) (x : List UInt8) :
    Ledger results k (bytes ++ x) accepted where
  firsts := h.firsts
  none := h.none
  once hk := by
    rw [List.zipIdx_append]
    exact (h.once hk).trans (List.prefix_append _ _)

theorem Ledger.send {k : ℕ} {bytes : List UInt8} {accepted : List (UInt8 × ℕ)}
    (h : Ledger results k bytes accepted) (hne : bytes ≠ []) :
    Ledger results (k + 1) bytes
      (accepted ++ bytes.zipIdx.take (min (results k) bytes.length).toNat) := by
  have hlen := List.length_pos_iff.mpr hne
  rcases lt_or_ge 0 (results k) with hpos | hneg
  · have hsucc : taking results (k + 1) = taking results k + 1 := by
      rw [taking_succ, if_pos hpos]
    have hfirst :
        (bytes.zipIdx.take (min (results k) bytes.length).toNat).countP (·.2 = 0) = 1 := by
      obtain ⟨n, hn⟩ : ∃ n, (min (results k) (bytes.length : ℤ)).toNat = n + 1 :=
        Nat.exists_eq_succ_of_ne_zero (by omega)
      refine le_antisymm ?_ ?_
      · exact (List.take_sublist _ _).countP_le.trans (countP_zipIdx_le bytes)
      · cases bytes with
        | nil => exact absurd rfl hne
        | cons b bytes =>
          rw [hn, List.zipIdx_cons, List.take_succ_cons, List.countP_cons]
          simp
    refine ⟨?_, fun hz => by omega, fun hone => ?_⟩
    · rw [List.countP_append, h.firsts, hfirst, hsucc]
    · rw [h.none (by omega), List.nil_append]
      exact List.take_prefix _ _
  · have hsame : taking results (k + 1) = taking results k := by
      rw [taking_succ, if_neg (not_lt.mpr hneg), Nat.add_zero]
    have hzero : (min (results k) (bytes.length : ℤ)).toNat = 0 := by omega
    rw [hzero, List.take_zero, List.append_nil]
    exact ⟨hsame ▸ h.firsts, hsame ▸ h.none, hsame ▸ h.once⟩

structure Loaded (c : HSClientConnector) : Prop where
  buffer : c.sendBuffer.Ok
  sent : c.sendBuffer.sentOffset = 0
  unsent : c.sendBuffer.unsent = c.written.flatten
  tags : Cells.read c.tags 0 c.sendBuffer.inOffset = List.range c.sendBuffer.inOffset

structure Sound (results : ℕ → ℤ) (c : HSClientConnector) : Prop where
  sock : 0 < c.sock
  loaded : c.packer = true → Loaded c
  closed : c.packer = false → c.state = .notInitialized
  room : c.packer = true → 0 < c.recvBuffer.length
  empty : c.recvBuffer.inOffset = 0 ∧ c.recvBuffer.inUsedOffset = 0
  received : c.received = []
  calls : ∀ data, .onReceive data ∉ c.calls
  ledger : Ledger results c.sends c.written.flatten c.accepted

theorem Loaded.inOffset_eq (h : Loaded c) : c.sendBuffer.inOffset = c.written.flatten.length := by
  rw [← h.unsent, HSSendBuffer.unsent_length, h.sent, Nat.sub_zero]

theorem loaded_of_empty (hok : c.sendBuffer.Ok) (hin : c.sendBuffer.inOffset = 0)
    (hw : c.written = []) : Loaded c := by
  have hsent := hok.sent_le
  refine ⟨hok, by omega, ?_, ?_⟩
  · rw [hw, List.flatten_nil, ← List.length_eq_zero_iff, HSSendBuffer.unsent_length, hin,
      Nat.zero_sub]
  · rw [hin, Cells.read_zero, List.range_zero]

theorem Loaded.offered (h : Loaded c) {n : ℕ} (hn : n ≤ c.sendBuffer.inOffset) :
    (c.sendBuffer.bytes 0 n).zip (Cells.read c.tags 0 n) = c.written.flatten.zipIdx.take n := by
  have hbytes : c.sendBuffer.bytes 0 n = c.written.flatten.take n := by
    rw [← h.unsent, HSSendBuffer.unsent, h.sent, Nat.sub_zero, HSBuffer.bytes_take _ _ hn]
  have htags : Cells.read c.tags 0 n = (List.range c.written.flatten.length).take n := by
    rw [← h.inOffset_eq, ← h.tags, Cells.read_take, min_eq_left hn]
  rw [hbytes, htags, List.zipIdx_eq_zip_range', ← List.range_eq_range']
  exact List.take_zipWith.symm

theorem Sound.close (h : Sound results c) : Sound results c.close := by
  rw [HSClientConnector.close, if_neg (not_le.mpr h.sock)]
  exact ⟨h.sock, fun hp => (by cases hp), fun _ => rfl, fun hp => (by cases hp), ⟨rfl, rfl⟩,
    h.received, h.calls, h.ledger⟩

theorem Loaded.queued (h : Loaded c) {x : List UInt8} (hne : x ≠ [])
    (hx : x.length ≤ c.sendBuffer.length - c.sendBuffer.inOffset) : Loaded (c.queued x) := by
  obtain ⟨hok, hun, hoff, hin'⟩ := h.buffer.append hne hx
  refine ⟨hok, hoff.trans h.sent, ?_, ?_⟩
  · simp only [HSClientConnector.queued, List.flatten_append, List.flatten_singleton]
    rw [hun, h.unsent]
  · have hnew := Cells.read_write c.tags c.sendBuffer.inOffset
      (List.range' c.written.flatten.length x.length)
    rw [List.length_range'] at hnew
    simp only [HSClientConnector.queued]
    rw [hin', Cells.read_add, Nat.zero_add, Cells.read_write_disjoint _ _ (Or.inl (by omega)),
      h.tags, hnew, ← h.inOffset_eq, List.range_eq_range', List.range_eq_range']
    exact (congrArg _ (by rw [Nat.zero_add])).trans List.range'_append_1

theorem Sound.write (h : Sound results c) (data : Payload) :
    ∃ r c', c.write w data.val = .ok (r, c') ∧ Sound results c' := by
  by_cases hp : c.packer = true
  swap
  · refine ⟨-1, c, ?_, h⟩
    rw [HSClientConnector.write, if_pos (by simp [hp])]
  have hl := h.loaded hp
  rcases write_fits hp hl.buffer.fits (w.add_header_lt data.property) with
    ⟨r, hw, -⟩ | ⟨x, hw, henc, hx⟩
  · exact ⟨r, c, hw, h⟩
  · refine ⟨1, c.queued x, hw, h.sock, fun _ => hl.queued henc.ne_nil hx, h.closed, h.room,
      h.empty, h.received, h.calls, ?_⟩
    simp only [HSClientConnector.queued, List.flatten_append, List.flatten_singleton]
    exact h.ledger.write x

theorem Sound.processSend (h : Sound results c) :
    ∃ r c', c.processSend results = .ok (r, c') ∧ Sound results c' := by
  rw [HSClientConnector.processSend]
  by_cases hp : c.packer = true
  swap
  · exact ⟨-1, c, by rw [if_pos (by simp [hp])], h⟩
  have hl := h.loaded hp
  rw [if_neg (by simp [hp]), hl.buffer.getCanSendSize_eq]
  simp only [bind, Except.bind]
  have hsize : c.sendBuffer.unsent.length = c.written.flatten.length := by rw [hl.unsent]
  by_cases hnil : c.sendBuffer.unsent.length = 0
  · exact ⟨0, c, by rw [if_pos hnil]; rfl, h⟩
  · rw [if_neg hnil]
    have hle : (min (results c.sends) (c.written.flatten.length : ℤ)).toNat ≤
        c.sendBuffer.inOffset := by
      rw [hl.inOffset_eq]
      omega
    have hne : c.written.flatten ≠ [] := by
      rw [← hl.unsent]
      exact fun hc => hnil (List.length_eq_zero_iff.mpr hc)
    have hs : Sound results
        (c.sendDirectly results c.sendBuffer.sentOffset c.sendBuffer.unsent.length).2 := by
      refine ⟨h.sock, fun _ => ⟨hl.buffer, hl.sent, hl.unsent, hl.tags⟩, h.closed, h.room, h.empty,
        h.received, h.calls, ?_⟩
      simp only [sendDirectly, hl.sent, hsize, hl.offered hle]
      exact h.ledger.send hne
    split_ifs
    · exact ⟨-1, _, rfl, hs⟩
    · exact ⟨1, _, rfl, hs⟩

theorem Sound.send (h : Sound results c) (data : Payload) :
    ∃ r c', c.send w results data.val = .ok (r, c') ∧ Sound results c' := by
  obtain ⟨r, c₁, hw, h₁⟩ := h.write (w := w) data
  simp only [HSClientConnector.send, hw, bind, Except.bind]
  split_ifs
  · exact ⟨-1, c₁, rfl, h₁⟩
  · obtain ⟨r', c₂, hs, h₂⟩ := h₁.processSend
    rw [hs]
    dsimp only
    split_ifs
    · exact ⟨-1, c₂, rfl, h₂⟩
    · exact ⟨1, c₂, rfl, h₂⟩

theorem Sound.call (h : Sound results c) (handler : DataHandler) {e : ClientCall}
    (he : ∀ data, e ≠ .onReceive data) (F : Fault → Prop) :
    Ends (Sound results) F (c.call w results handler e) := by
  refine Ends.foldlM (P := Sound results) ?_ ?_
  · intro c₁ a _ h₁
    cases a with
    | send data =>
      obtain ⟨r, c₂, hs, h₂⟩ := h₁.send (w := w) data
      rw [runAction, hs]
      exact h₂
    | disconnect => exact h₁
    | close => exact h₁.close
  · refine ⟨h.sock, fun hp => ?_, h.closed, h.room, h.empty, h.received, fun data hd => ?_,
      h.ledger⟩
    · obtain ⟨hok, hsent, hun, htags⟩ := h.loaded hp
      exact ⟨hok, hsent, hun, htags⟩
    · rcases List.mem_append.mp hd with hd | hd
      · exact h.calls data hd
      · exact he data (List.mem_singleton.mp hd).symm

theorem Sound.setState (h : Sound results c) (hopen : c.packer = true) (state : ConnectorState) :
    Sound results { c with state := state } := by
  obtain ⟨hok, hsent, hun, htags⟩ := h.loaded hopen
  exact ⟨h.sock, fun _ => ⟨hok, hsent, hun, htags⟩, fun hp => (by rw [hopen] at hp; cases hp),
    h.room, h.empty, h.received, h.calls, h.ledger⟩

theorem Sound.connect (h : Sound results c) (handler : Option DataHandler) {res : ℤ}
    {wouldBlock : Bool} (hposs : c.Possible (.connect res wouldBlock)) :
    Ends (fun r => Sound results r.2) (fun _ => True)
      (c.connect w results handler res wouldBlock) := by
  by_cases hp : c.packer = true
  · simp only [HSClientConnector.connect]
    split_ifs
    · exact h
    · exact h
    · exact h.setState hp .connecting
    · cases handler with
      | none => trivial
      | some handler =>
        exact ((h.setState hp .connected).call handler (by simp) _).bind fun c₁ h₁ => h₁
    · exact h
  · obtain ⟨rfl, rfl⟩ := hposs (h.closed (Bool.eq_false_iff.mpr hp))
    simp only [HSClientConnector.connect, Bool.not_false, if_true]
    split_ifs <;> exact h

theorem Sound.closeAndTell (h : Sound results c) (handler : DataHandler) (res : ℤ)
    (F : Fault → Prop) :
    Ends (fun r => Sound results r.2) F (c.closeAndTell w results handler res) :=
  (h.close.call handler (by simp) F).bind fun c₁ h₁ => h₁

theorem Sound.tickSend (h : Sound results c) (handler : DataHandler) (res : ℤ) (F : Fault → Prop) :
    Ends (fun r => Sound results r.2) F (c.tickSend w results handler res) := by
  obtain ⟨r, c₁, hs, h₁⟩ := h.processSend
  simp only [HSClientConnector.tickSend, hs, bind, Except.bind]
  split_ifs
  · exact h₁.closeAndTell handler res F
  · exact h₁

theorem Sound.recv (h : Sound results c) (bytes : List UInt8) :
    (c.recv bytes).1 = 0 ∧ Sound results (c.recv bytes).2 := by
  rw [Idle.recv h.empty bytes]
  exact ⟨rfl, h⟩

theorem Sound.tick (h : Sound results c) (fuel : ℕ) (handler : Option DataHandler) (poll : Poll)
    (F : Fault → Prop) :
    Ends (fun r => Sound results r.2) F (c.tick w results fuel handler poll) := by
  cases handler with
  | none =>
    simp only [HSClientConnector.tick]
    split_ifs <;> exact h
  | some handler =>
    simp only [HSClientConnector.tick]
    split_ifs with hstate hconn
    · exact h
    · exact h
    · exact h
    · have hp : c.packer = true := by
        by_contra hp
        rw [h.closed (Bool.eq_false_iff.mpr hp)] at hconn
        cases hconn
      exact ((h.setState hp .connected).call handler (by simp) F).bind fun c₁ h₁ => h₁
    · exact h
    · exact h.closeAndTell handler _ F
    · cases poll.recv with
      | none => exact h.closeAndTell handler _ F
      | some bytes =>
        have hzero : toInt (c.recv bytes).1 = 0 := by
          rw [(h.recv bytes).1]
          decide
        dsimp only
        rw [hzero, if_neg (lt_irrefl 0), if_neg (lt_irrefl 0)]
        exact (h.recv bytes).2.tickSend handler 0 F
    · exact h.tickSend handler _ F

theorem Sound.exec (h : Sound results c) {fuel : ℕ} {handler : Option DataHandler}
    {e : ConnectorEvent} (hposs : c.Possible e) :
    Ends (Sound results) (fun _ => True) (c.exec w results fuel handler e) := by
  cases e with
  | connect res wouldBlock => exact (h.connect handler hposs).bind fun r hr => hr
  | send data =>
    obtain ⟨r, c₁, hs, h₁⟩ := h.send (w := w) data
    simp only [HSClientConnector.exec, hs]
    exact h₁
  | tick poll => exact (h.tick fuel handler poll _).bind fun r hr => hr
  | disconnect => exact h
  | close => exact h.close

theorem sound_initialized (results : ℕ → ℤ) {recvLen sendLen : ℕ} (hlen : sendLen < 2 ^ 64)
    {sock : ℤ} (hsock : 0 < sock) (recvMem sendMem : ℕ → UInt8) :
    Sound results (initialized recvLen sendLen sock recvMem sendMem) := by
  have hnew : (HSSendBuffer.new sessionDataBufferDefaultSize sendMem).Ok :=
    HSSendBuffer.new_ok sendMem (by decide)
  obtain ⟨hok, hin⟩ := hnew.setLength rfl hlen sendMem
  rw [initialized_eq hsock]
  exact ⟨hsock, fun _ => loaded_of_empty hok hin rfl, fun hp => (by cases hp),
    fun _ => HSBuffer.setLength_pos (by decide : 0 < 1024),
    ⟨HSBuffer.setLength_inOffset _ _ _, rfl⟩,
    rfl, fun data hd => (by cases hd), ⟨rfl, fun _ => rfl, fun _ => List.nil_prefix⟩⟩

theorem Sound.of_run {fuel : ℕ} {handler : Option DataHandler} {c₀ : HSClientConnector}
    (h₀ : Sound results c₀) {es : List ConnectorEvent}
    (h : Run (Step w results fuel handler) c₀ es c) :
    Sound results c := by
  refine Run.invariant h₀ ?_ h
  rintro c e c' hc ⟨hposs, hexec⟩
  exact (hc.exec hposs).result hexec

/-- The bytes the socket took are a front part of the stream of packets, each taken once, just when
at most one of the calls of `send` on the socket so far took any. -/
theorem accepted_prefix_iff {recvLen sendLen : ℕ} (hlen : sendLen < 2 ^ 64) {sock : ℤ}
    (hsock : 0 < sock) {recvMem sendMem : ℕ → UInt8} {fuel : ℕ} {handler : Option DataHandler}
    {es : List ConnectorEvent}
    (h : Run (Step w results fuel handler) (initialized recvLen sendLen sock recvMem sendMem)
      es c) :
    c.accepted <+: c.written.flatten.zipIdx ↔
      (List.range c.sends).countP (fun i => 0 < results i) ≤ 1 :=
  ((sound_initialized results hlen hsock recvMem sendMem).of_run h).ledger.prefix_iff

theorem accepted_prefix_iff_once :
    ∃ c : HSClientConnector, c.accepted <+: c.written.flatten.zipIdx ∧ c.accepted.length = 13 := by
  obtain ⟨c, hrun, hc⟩ := @Run.of_observed _ _
    (Step .eight (fun k => if k = 0 then 13 else 0) 0 none)
    (initialized 8192 64 1 (fun _ => 0) (fun _ => 0)) _ _ (fun _ _ _ => step_of_next)
    [.connect 1 false, .send ⟨[1], by decide⟩, .send ⟨[2], by decide⟩]
    (fun c => (c.accepted.length, c.sends)) (13, 2) (by decide +kernel)
  obtain ⟨hlength, hsends⟩ := Prod.mk.inj hc
  refine ⟨c, (accepted_prefix_iff (by decide) (by decide) hrun).mpr ?_, hlength⟩
  rw [hsends]
  decide

theorem tick_sendsAgain :
    ∃ c : HSClientConnector, Run (Step .eight (fun _ => 13) 0 (some fun _ => []))
      (initialized 8192 64 1 (fun _ => 0) (fun _ => 0))
      [.connect 0 false, .send ⟨[1], by decide⟩, .tick ⟨0, false, false, some []⟩] c ∧
      c.written.flatten.length = 13 ∧ ¬ c.accepted <+: c.written.flatten.zipIdx := by
  obtain ⟨c, hrun, hc⟩ := @Run.of_observed _ _ (Step .eight (fun _ => 13) 0 (some fun _ => []))
    (initialized 8192 64 1 (fun _ => 0) (fun _ => 0)) _ _ (fun _ _ _ => step_of_next)
    [.connect 0 false, .send ⟨[1], by decide⟩, .tick ⟨0, false, false, some []⟩]
    (fun c => (c.accepted.length, c.written.flatten.length)) (26, 13) (by decide +kernel)
  obtain ⟨haccepted, hwritten⟩ := Prod.mk.inj hc
  refine ⟨c, hrun, hwritten, fun hpre => ?_⟩
  have hle := hpre.length_le
  rw [List.length_zipIdx, haccepted, hwritten] at hle
  omega

def Peer (stream : List UInt8) (c : HSClientConnector) (e : ConnectorEvent) : Prop :=
  ∀ poll, e = .tick poll → c.state = .connected →
    ∃ n, poll.recv = some ((stream.take n).drop c.received.length) ∧
      poll.select = if (stream.take n).drop c.received.length = [] then 0 else 1

def Offered (c : HSClientConnector) (e : ConnectorEvent) : Prop :=
  ∀ poll bytes, e = .tick poll → c.state = .connected → poll.recv = some bytes → bytes ≠ [] →
    c.recvBuffer.inOffset < c.recvBuffer.length →
      c.recvArea.1 = c.recvBuffer.inOffset ∧ 0 < c.recvArea.2

def Quiet (c : HSClientConnector) (e : ConnectorEvent) : Prop :=
  ∀ poll bytes, e = .tick poll → c.state = .connected → poll.recv = some bytes → bytes = []

def payload : ClientCall → Option (List UInt8)
  | .onReceive data => some data
  | _ => none

def Delivered (fs : List (Frame UInt8 (List UInt8))) (c : HSClientConnector) : Prop :=
  c.calls.filterMap payload = completed fs c.received.length

theorem Sound.delivered (h : Sound results c) {fs : List (Frame UInt8 (List UInt8))}
    (hfs : ∀ f ∈ fs, IsEncoding w f.value f.symbols) : Delivered fs c := by
  have hnone : c.calls.filterMap payload = [] := by
    refine List.filterMap_eq_nil_iff.mpr fun e he => ?_
    cases e with
    | onReceive data => exact absurd he (h.calls data)
    | _ => rfl
  rw [Delivered, hnone, h.received, List.length_nil,
    completed_zero fun f hf => (hfs f hf).ne_nil]

theorem Sound.offered_iff (h : Sound results c) {e : ConnectorEvent} : Offered c e ↔ Quiet c e := by
  constructor
  · intro hoff poll bytes he hconn hrecv
    by_contra hne
    have hp : c.packer = true := by
      by_contra hp
      rw [h.closed (Bool.eq_false_iff.mpr hp)] at hconn
      cases hconn
    have hroom := h.room hp
    have hsize := (hoff poll bytes he hconn hrecv hne (by rw [h.empty.1]; exact hroom)).2
    rw [Idle.recvArea_eq h.empty] at hsize
    exact lt_irrefl 0 hsize
  · intro hquiet poll bytes he hconn hrecv hne
    exact absurd (hquiet poll bytes he hconn hrecv) hne

/-- The runs in which the packets are delivered and `recv` is offered the free tail are the runs in
which no tick in the connected state finds bytes to read. -/
theorem delivered_runs {recvLen sendLen : ℕ} (hlen : sendLen < 2 ^ 64) {sock : ℤ} (hsock : 0 < sock)
    {recvMem sendMem : ℕ → UInt8} {fs : List (Frame UInt8 (List UInt8))}
    (hfs : ∀ f ∈ fs, IsEncoding w f.value f.symbols) {fuel : ℕ} {handler : Option DataHandler}
    {es : List ConnectorEvent} :
    Run (Keeping (Delivered fs)
        (Guarded (fun c e => Peer (stream fs) c e ∧ Offered c e) (Step w results fuel handler)))
        (initialized recvLen sendLen sock recvMem sendMem) es c ↔
      Run (Guarded (fun c e => Peer (stream fs) c e ∧ Quiet c e) (Step w results fuel handler))
        (initialized recvLen sendLen sock recvMem sendMem) es c := by
  have h₀ := @sound_initialized results recvLen _ hlen _ hsock recvMem sendMem
  refine Run.refine_iff h₀ ?_
  intro c e c' hc
  constructor
  · constructor
    · intro hs
      obtain ⟨⟨⟨hpeer, hoff⟩, hstep⟩, -⟩ := hs
      exact ⟨⟨hpeer, hc.offered_iff.mp hoff⟩, hstep⟩
    · intro hs
      obtain ⟨⟨hpeer, hquiet⟩, hstep⟩ := hs
      have hc' := (hc.exec hstep.1).result hstep.2
      exact ⟨⟨⟨hpeer, hc.offered_iff.mpr hquiet⟩, hstep⟩, hc'.delivered hfs⟩
  · intro hs
    exact (hc.exec hs.2.1).result hs.2.2

theorem delivered_runs_idle :
    ∃ c : HSClientConnector, Run (Keeping (Delivered [⟨encoding .eight [1] [0, 0, 0, 0], [1]⟩])
      (Guarded
          (fun c e => Peer (stream [⟨encoding .eight [1] [0, 0, 0, 0], [1]⟩]) c e ∧ Offered c e)
        (Step .eight (fun _ => 0) 0 (some fun _ => []))))
      (initialized 8192 64 1 (fun _ => 0) (fun _ => 0))
      ([] ++ [.connect 0 false] ++ [.tick ⟨0, false, false, some []⟩]) c := by
  obtain ⟨c₁, hconnect, htick⟩ :=
    @exists_ok_of_map _ _
      (fun c => (c.exec .eight (fun _ => 0) 0 (some fun _ => [])
        (.tick ⟨0, false, false, some []⟩)).map fun _ => ())
      ((initialized 8192 64 1 (fun _ => 0) (fun _ => 0)).exec .eight (fun _ => 0) 0
        (some fun _ => []) (.connect 0 false)) (.ok ()) (by decide +kernel)
  obtain ⟨c₂, htick, -⟩ := exists_ok_of_map htick
  have hpackets : ∀ f ∈ [(⟨encoding .eight [1] [0, 0, 0, 0], [1]⟩ : Frame UInt8 (List UInt8))],
      IsEncoding .eight f.value f.symbols := by
    intro f hf
    obtain rfl := List.mem_singleton.mp hf
    exact isEncoding_encoding (by decide) (by decide)
  have hpeer : Peer (stream [⟨encoding .eight [1] [0, 0, 0, 0], [1]⟩]) c₁
      (.tick ⟨0, false, false, some []⟩) := by
    rintro poll he -
    cases he
    exact ⟨0, by simp, by simp⟩
  have hquiet : Quiet c₁ (.tick ⟨0, false, false, some []⟩) := by
    rintro poll bytes he - hrecv
    cases he
    exact (Option.some.inj hrecv).symm
  refine ⟨c₂, (delivered_runs (by decide) (by decide) hpackets).mpr (.snoc (.snoc .nil ?_)
    ⟨⟨hpeer, hquiet⟩, trivial, htick⟩)⟩
  exact ⟨⟨by rintro poll ⟨⟩, by rintro poll bytes ⟨⟩⟩, by decide, hconnect⟩

theorem tick_offersNoRoom :
    ∃ c c' : HSClientConnector,
      Run (Step .eight (fun _ => 0) 0 (some fun _ => []))
        (initialized 8192 64 1 (fun _ => 0) (fun _ => 0)) [.connect 0 false] c ∧
      Peer (encoding .eight [1] [0, 0, 0, 0]) c
        (.tick ⟨1, false, false, some (encoding .eight [1] [0, 0, 0, 0])⟩) ∧
      Step .eight (fun _ => 0) 0 (some fun _ => []) c
        (.tick ⟨1, false, false, some (encoding .eight [1] [0, 0, 0, 0])⟩) c' ∧
      ¬ Offered c (.tick ⟨1, false, false, some (encoding .eight [1] [0, 0, 0, 0])⟩) ∧
      c'.received = [] := by
  obtain ⟨c, hrun, hc⟩ := @Run.of_observed _ _ (Step .eight (fun _ => 0) 0 (some fun _ => []))
    (initialized 8192 64 1 (fun _ => 0) (fun _ => 0)) _ _ (fun _ _ _ => step_of_next)
    [.connect 0 false]
    (fun c => ((c.state, c.received, c.recvArea.2, c.recvBuffer.inOffset, c.recvBuffer.length),
      (c.exec .eight (fun _ => 0) 0 (some fun _ => [])
        (.tick ⟨1, false, false, some (encoding .eight [1] [0, 0, 0, 0])⟩)).map
          fun c => c.received))
    ((.connected, [], 0, 0, 8192), .ok []) (by decide +kernel)
  obtain ⟨hstate, hexec⟩ := Prod.mk.inj hc
  simp only [Prod.mk.injEq] at hstate
  obtain ⟨hconn, hrecv, harea, hin, hlen⟩ := hstate
  obtain ⟨c', hexec, hnone⟩ := exists_ok_of_map hexec
  refine ⟨c, c', hrun, ?_, ⟨trivial, hexec⟩, fun hoff => ?_, hnone⟩
  · rintro poll he -
    cases he
    exact ⟨13, by rw [hrecv]; decide, by rw [hrecv]; decide⟩
  · have hsize := (hoff _ _ rfl hconn rfl (by decide) (by rw [hin, hlen]; decide)).2
    rw [harea] at hsize
    exact lt_irrefl 0 hsize

end HsCommon.HSClientConnector
