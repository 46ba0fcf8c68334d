import HsCommon.ConnectorSockets

/-!
# The buffers after an Init

`SetLength` keeps a buffer of length 0 as it is, and `Clear` sets the length to 0. Once a `Close`
has cleared the buffers no `Init` allocates them again, but it still returns true. `SetLength`
also keeps the offsets, so a shorter buffer may end before the data it is said to hold.
-/

namespace HsCommon.SocketUser
open Transition Outcome

variable {p : Platform} {w : ULongWidth} {results : ℕ → ℤ} {fuel : ℕ}
  {handler : Option DataHandler} {s s' : SocketUser}

structure HoldsLength (b : HSBuffer) (len : ℕ) : Prop where
  buffer : b.buffer.isSome
  length : b.length = len
  inOffset : b.inOffset ≤ len
  outOffset : b.outOffset ≤ len

structure Allocated (s : SocketUser) (recvBuffLen sendBuffLen : ℕ) : Prop where
  recv : HoldsLength s.recvBuffer.toHSBuffer recvBuffLen
  used : s.recvBuffer.inUsedOffset ≤ recvBuffLen
  send : HoldsLength s.sendBuffer.toHSBuffer sendBuffLen
  sent : s.sendBuffer.sentOffset ≤ sendBuffLen

def Closed (s : SocketUser) : Prop := ∃ sock, .close sock ∈ s.log

/-- What holds of either buffer: it has memory while it has a length, and it has one until a `Close`
clears it. -/
structure Lasts (s : SocketUser) (b : HSBuffer) : Prop where
  outOffset : b.outOffset = 0
  memory : b.length ≠ 0 → b.buffer.isSome
  length : b.length ≠ 0 ↔ ¬ s.Closed

structure Buffers (s : SocketUser) : Prop where
  idle : s.Idle
  sent : s.sendBuffer.sentOffset = 0
  recv : s.Lasts s.recvBuffer.toHSBuffer
  send : s.Lasts s.sendBuffer.toHSBuffer

theorem buffers_new (recvMem sendMem : ℕ → UInt8) : (new recvMem sendMem).Buffers := by
  have hopen : ¬ (new recvMem sendMem).Closed := fun ⟨_, hc⟩ => by cases hc
  have hrecv : (1024 : ℕ) ≠ 0 := by decide
  have hsend : sessionDataBufferDefaultSize ≠ 0 := by decide
  exact ⟨⟨rfl, rfl⟩, rfl, ⟨rfl, fun _ => rfl, iff_of_true hrecv hopen⟩,
    ⟨rfl, fun _ => rfl, iff_of_true hsend hopen⟩⟩

theorem Lasts.congr {b : HSBuffer} (h : s.Lasts b) (hclosed : s'.Closed ↔ s.Closed) :
    s'.Lasts b :=
  ⟨h.outOffset, h.memory, h.length.trans hclosed.not.symm⟩

theorem Lasts.setLength {b : HSBuffer} (h : s.Lasts b) (hclosed : s'.Closed ↔ s.Closed) (len : ℕ)
    (mem : ℕ → UInt8) : s'.Lasts (b.setLength len mem) := by
  rw [HSBuffer.setLength]
  split_ifs with hnew
  · exact ⟨h.outOffset, fun _ => rfl,
      iff_of_true hnew.1 ((h.congr hclosed).length.mp hnew.2.1)⟩
  · exact h.congr hclosed

theorem Lasts.dataIn {b : HSBuffer} (h : s.Lasts b) (hclosed : s'.Closed ↔ s.Closed)
    (outData : ℕ → UInt8) (n : ℕ) : s'.Lasts ({ b with buffer := some outData }.dataIn n).2 := by
  rw [HSBuffer.dataIn]
  split_ifs
  · exact ⟨h.outOffset, fun _ => rfl, (h.congr hclosed).length⟩
  · exact ⟨h.outOffset, fun _ => rfl, (h.congr hclosed).length⟩

theorem Buffers.of_same (h : s.Buffers) (hrecv : s'.recvBuffer = s.recvBuffer)
    (hsend : s'.sendBuffer = s.sendBuffer) (hclosed : s'.Closed ↔ s.Closed) : s'.Buffers := by
  refine ⟨?_, ?_, ?_, ?_⟩
  · rw [HSClientConnector.Idle, hrecv]
    exact h.idle
  · rw [hsend]
    exact h.sent
  · rw [hrecv]
    exact h.recv.congr hclosed
  · rw [hsend]
    exact h.send.congr hclosed

theorem closed_record (s : SocketUser) {calls : List SocketCall}
    (h : ∀ sock, .close sock ∉ calls) : (s.record calls).Closed ↔ s.Closed := by
  constructor
  · rintro ⟨sock, hc⟩
    exact ⟨sock, (List.mem_append.mp hc).resolve_right (h sock)⟩
  · rintro ⟨sock, hc⟩
    exact ⟨sock, List.mem_append_left _ hc⟩

theorem closed_init (s : SocketUser) (recvBuffLen sendBuffLen : ℕ) (r : InitResult) :
    (initialized recvBuffLen sendBuffLen r s).Closed ↔ s.Closed :=
  closed_record s (by simp)

theorem Buffers.init (h : s.Buffers) (recvBuffLen sendBuffLen : ℕ) (r : InitResult) :
    (s.init p recvBuffLen sendBuffLen r).2.Buffers := by
  obtain he | he | he | he := init_cases p recvBuffLen sendBuffLen r s <;> rw [he]
  · exact h.of_same rfl rfl (closed_record s (by simp))
  · exact h.of_same rfl rfl (closed_record s (by simp))
  · exact h.of_same rfl rfl (closed_record s (by simp))
  · have hclosed := closed_init s recvBuffLen sendBuffLen r
    refine ⟨⟨?_, h.idle.2⟩, h.sent, h.recv.setLength hclosed _ _, h.send.setLength hclosed _ _⟩
    exact (HSBuffer.setLength_inOffset _ _ _).trans h.idle.1

theorem Buffers.close (h : s.Buffers) : (s.close p).Buffers := by
  rw [SocketUser.close]
  split_ifs with hsock
  · exact h
  all_goals
    have hcleared : s.toHSClientConnector.close = { s.toHSClientConnector with
        sendBuffer := s.sendBuffer.clear true
        packer := false
        recvBuffer := s.recvBuffer.clear true
        unpacker := false
        state := .notInitialized } := if_neg hsock
    rw [hcleared]
    have hlasts : ∀ s' : SocketUser, s'.Closed → s'.Lasts ⟨none, 0, 0, 0⟩ := fun s' hc =>
      ⟨rfl, fun h0 => absurd rfl h0, iff_of_false (fun h0 => h0 rfl) fun hn => hn hc⟩
    refine ⟨⟨rfl, rfl⟩, rfl, hlasts _ ⟨s.sock, ?_⟩, hlasts _ ⟨s.sock, ?_⟩⟩ <;> simp

theorem buffers_kept : Kept p w results Buffers := by
  intro s s' h hpiece
  cases hpiece with
  | init recvBuffLen sendBuffLen r => exact h.init recvBuffLen sendBuffLen r
  | on f => exact h.of_same rfl rfl (closed_record s (by simp))
  | dial state => exact h.of_same rfl rfl (closed_record s (by simp))
  | connected hconn => exact h.of_same rfl rfl Iff.rfl
  | tell e => exact h.of_same rfl rfl Iff.rfl
  | write data hw =>
    obtain rfl | ⟨outData, outSize, written, tags, rfl⟩ := HSClientConnector.write_cases hw
    · exact h
    · refine ⟨h.idle, h.sent, h.recv.congr Iff.rfl, h.send.dataIn ?_ outData outSize⟩
      exact Iff.rfl
  | sendDirectly offset len => exact h.of_same rfl rfl (closed_record s (by simp))
  | close => exact h.close
  | destroyed => exact h.of_same rfl rfl Iff.rfl

theorem Buffers.of_run {recvMem sendMem : ℕ → UInt8} {es : List SocketEvent}
    (h : Run (Step p w results fuel handler) (new recvMem sendMem) es s) : s.Buffers := by
  refine Run.invariant (buffers_new recvMem sendMem) ?_ h
  rintro s e s' hs ⟨-, hexec⟩
  exact (buffers_kept.exec (fun _ h => h.idle) hs e).result hexec

theorem Lasts.holdsLength_iff {b : HSBuffer} (h : s.Lasts b) {len : ℕ} (hlen : 0 < len)
    (mem : ℕ → UInt8) :
    HoldsLength (b.setLength len mem) len ↔ ¬ s.Closed ∧ b.inOffset ≤ len := by
  rw [← h.length]
  constructor
  · intro hholds
    have hin := hholds.inOffset
    rw [HSBuffer.setLength_inOffset] at hin
    refine ⟨fun h0 => ?_, hin⟩
    have hlength := hholds.length
    rw [HSBuffer.setLength, if_neg (fun hnew => hnew.2.1 h0), h0] at hlength
    omega
  · rintro ⟨h0, hin⟩
    have hout : b.outOffset ≤ len := by
      rw [h.outOffset]
      exact Nat.zero_le _
    rw [HSBuffer.setLength]
    split_ifs with hnew
    · exact ⟨rfl, rfl, hin, hout⟩
    · have hsame : b.length = len := by
        by_contra hne
        exact hnew ⟨hlen.ne', h0, fun heq => hne heq.symm⟩
      exact ⟨h.memory h0, hsame, hin, hout⟩

/-- An `Init` leaves buffers of the lengths asked for just when no descriptor has been closed
before, and what the send buffer holds fits the length. -/
theorem init_allocated_iff {recvMem sendMem : ℕ → UInt8} {es : List SocketEvent}
    (h : Run (Step p w results fuel handler) (new recvMem sendMem) es s)
    {recvBuffLen sendBuffLen : ℕ} (hrecv : 0 < recvBuffLen) (hsend : 0 < sendBuffLen)
    {r : InitResult} (hinit : s.init p recvBuffLen sendBuffLen r = (true, s')) :
    s'.Allocated recvBuffLen sendBuffLen ↔
      (∀ sock, .close sock ∉ s.log) ∧ s.sendBuffer.inOffset ≤ sendBuffLen := by
  have hs := Buffers.of_run h
  obtain rfl : initialized recvBuffLen sendBuffLen r s = s' := by
    obtain he | he | he | he := init_cases p recvBuffLen sendBuffLen r s
    · cases he.symm.trans hinit
    · cases he.symm.trans hinit
    · cases he.symm.trans hinit
    · exact (Prod.mk.inj (he.symm.trans hinit)).2
  have hopen : (∀ sock, .close sock ∉ s.log) ↔ ¬ s.Closed := not_exists.symm
  rw [hopen]
  constructor
  · intro ha
    exact (hs.send.holdsLength_iff hsend r.sendMem).mp ha.send
  · rintro ⟨hnot, hin⟩
    refine ⟨(hs.recv.holdsLength_iff hrecv r.recvMem).mpr ⟨hnot, ?_⟩, ?_,
      (hs.send.holdsLength_iff hsend r.sendMem).mpr ⟨hnot, hin⟩, ?_⟩
    · rw [hs.idle.1]
      exact Nat.zero_le _
    · exact hs.idle.2.trans_le (Nat.zero_le _)
    · exact hs.sent.trans_le (Nat.zero_le _)

theorem init_allocated_third :
    ∃ s s' : SocketUser, Run (Step .win64 .four (fun _ => 0) 0 none) (new (fun _ => 0) fun _ => 0)
        [.init 8192 16384 ⟨true, -1, true, fun _ => 0, fun _ => 0⟩,
          .init 8192 16384 ⟨true, 5, true, fun _ => 0, fun _ => 0⟩,
          .act (.send ⟨[1], by decide⟩)] s ∧
      s.init .win64 64 32 ⟨true, 6, true, fun _ => 0, fun _ => 0⟩ = (true, s') ∧
      s'.Allocated 64 32 := by
  obtain ⟨s, hrun, hs⟩ := @Run.of_observed _ _ (Step .win64 .four (fun _ => 0) 0 none)
    (new (fun _ => 0) fun _ => 0) _ _ (fun _ _ _ => step_of_next)
    [.init 8192 16384 ⟨true, -1, true, fun _ => 0, fun _ => 0⟩,
      .init 8192 16384 ⟨true, 5, true, fun _ => 0, fun _ => 0⟩, .act (.send ⟨[1], by decide⟩)]
    (fun s => (s.log.all fun c => c matches .init | .socket _ | .initialized | .on .. | .cleanup,
      s.sendBuffer.inOffset, (s.init .win64 64 32 ⟨true, 6, true, fun _ => 0, fun _ => 0⟩).1))
    (true, 9, true) (by decide +kernel)
  obtain ⟨hlog, hs⟩ := Prod.mk.inj hs
  obtain ⟨hin, hinit⟩ := Prod.mk.inj hs
  have hinit' := Prod.ext hinit (rfl : _ = (s.init .win64 64 32 _).2)
  refine ⟨s, _, hrun, hinit', (init_allocated_iff hrun (by decide) (by decide) hinit').mpr
    ⟨fun sock hc => ?_, ?_⟩⟩
  · cases List.all_eq_true.mp hlog _ hc
  · rw [hin]
    decide

/-- The second `Init` returns true, but there is no buffer to receive into. -/
theorem init_afterClose :
    ∃ s s' : SocketUser, Run (Step .win64 .four (fun _ => 0) 0 none) (new (fun _ => 0) fun _ => 0)
        [.init 8192 16384 ⟨true, 5, true, fun _ => 0, fun _ => 0⟩, .act .close] s ∧
      s.init .win64 8192 16384 ⟨true, 6, true, fun _ => 0, fun _ => 0⟩ = (true, s') ∧
      ¬ s'.Allocated 8192 16384 := by
  obtain ⟨s, hrun, hs⟩ := @Run.of_observed _ _ (Step .win64 .four (fun _ => 0) 0 none)
    (new (fun _ => 0) fun _ => 0) _ _ (fun _ _ _ => step_of_next)
    [.init 8192 16384 ⟨true, 5, true, fun _ => 0, fun _ => 0⟩, .act .close]
    (fun s => ((s.init .win64 8192 16384 ⟨true, 6, true, fun _ => 0, fun _ => 0⟩).1,
      (s.init .win64 8192 16384 ⟨true, 6, true, fun _ => 0, fun _ => 0⟩).2.recvBuffer.length))
    (true, 0) (by decide +kernel)
  obtain ⟨hinit, hlength⟩ := Prod.mk.inj hs
  refine ⟨s, (s.init .win64 8192 16384 ⟨true, 6, true, fun _ => 0, fun _ => 0⟩).2, hrun,
    Prod.ext hinit rfl, fun ha => ?_⟩
  have hasked := ha.recv.length
  rw [hlength] at hasked
  cases hasked

end HsCommon.SocketUser
