import HsCommon.ConnectorTypestate

/-!
# Lost connections

A `Tick` that fails closes the connector and tells the handler. A `recv` that returns 0, because
the peer has closed its side, is no failure: the tick goes on to send, and only an error
there shows that the connection is lost.

`Close` does nothing if `sock_` is not above 0. An `Init` that fails can leave such a
descriptor with the connector still connected, and then every tick that fails tells the handler.
-/

namespace HsCommon

namespace ClientCall

def isConnect : ClientCall → Bool
  | onConnect _ => true
  | _ => false

def isDisconnect : ClientCall → Bool
  | onDisconnect _ => true
  | _ => false

end ClientCall

namespace SocketUser
open Transition Outcome Histories ClientCall
open HSClientConnector (NeverCloses SendFails TickFails Told)

variable {p : Platform} {w : ULongWidth} {results : ℕ → ℤ} {fuel : ℕ} {handler : DataHandler}
  {s s' : SocketUser}

/-- The connection has been lost when `Tick` polls the socket. -/
inductive Lost (p : Platform) (w : ULongWidth) (results : ℕ → ℤ) (fuel : ℕ) (handler : DataHandler)
    (s : SocketUser) (poll : Poll) : Prop
  | select : poll.select < 0 → Lost p w results fuel handler s poll
  | recv : 0 < poll.select → poll.recv = none → Lost p w results fuel handler s poll
  | rejected {bytes : List UInt8} {r : ℤ} {s' : SocketUser} :
      0 < poll.select → poll.recv = some bytes →
      (s.recv bytes).2.processRecv p w results fuel handler (toInt (s.recv bytes).1).toNat =
        .ok (r, s') →
      r < 0 → Lost p w results fuel handler s poll
  | peerClosed : 0 < poll.select → poll.recv = some [] → Lost p w results fuel handler s poll

/-- A tick that fails has a descriptor to close. -/
def Shuts (results : ℕ → ℤ) (s : SocketUser) : SocketEvent → Prop
  | .act (.tick poll) => s.state = .connected →
      ∀ res, TickFails results poll s.toHSClientConnector res → 0 < s.sock
  | _ => True

theorem fails_lost {poll : Poll} (hidle : s.Idle) (h : Lost p w results fuel handler s poll)
    (hsend : 0 < poll.select → poll.recv = some [] → SendFails results s.toHSClientConnector) :
    ∃ res, TickFails results poll s.toHSClientConnector res := by
  cases h with
  | select hneg => exact ⟨poll.select, Or.inl ⟨hneg, rfl⟩⟩
  | recv hpos hrecv => exact ⟨-1, Or.inr (Or.inl ⟨hpos, hrecv, rfl⟩)⟩
  | @rejected bytes r s' hpos hrecv hproc hneg =>
    -- nothing is received, so nothing is unpacked
    have hzero : (toInt ((0 : ℕ) : ℤ)).toNat = 0 := by decide
    rw [recv_idle hidle bytes, hzero] at hproc
    cases hproc
    exact absurd hneg (lt_irrefl 0)
  | peerClosed hpos hrecv =>
    refine ⟨0, Or.inr (Or.inr ⟨hpos.le, fun _ => ?_, hsend hpos hrecv, rfl⟩)⟩
    rw [hrecv]
    exact Option.some_ne_none _

theorem not_fails_peerClosed {poll : Poll} (hpos : 0 < poll.select) (hrecv : poll.recv = some [])
    (hsend : ¬ SendFails results s.toHSClientConnector) (res : ℤ) :
    ¬ TickFails results poll s.toHSClientConnector res := by
  rintro (⟨hneg, -⟩ | ⟨-, hnone, -⟩ | ⟨-, -, hfails, -⟩)
  · omega
  · rw [hrecv] at hnone
    cases hnone
  · exact hsend hfails

theorem exec_cases (hidle : s.Idle) (hh : NeverCloses handler) {e : SocketEvent}
    (h : s.exec p w results fuel (some handler) e = .ok s') :
    (s'.calls = s.calls ∧ (s'.state = .connected → s.state = .connected)) ∨
    (∃ res, s'.calls = s.calls ++ [.onConnect res]) ∨
    (∃ poll res, e = .act (.tick poll) ∧ s.state = .connected ∧
      TickFails results poll s.toHSClientConnector res ∧
      Told res s.toHSClientConnector s'.toHSClientConnector) := by
  cases e with
  | init recvBuffLen sendBuffLen r =>
    obtain rfl := Except.ok.inj h
    obtain he | he | he | he := init_cases p recvBuffLen sendBuffLen r s <;> rw [he]
    · exact Or.inl ⟨rfl, id⟩
    · exact Or.inl ⟨rfl, id⟩
    · exact Or.inl ⟨rfl, id⟩
    · exact Or.inl ⟨rfl, fun hc => (by cases hc)⟩
  | destroy =>
    obtain rfl := Except.ok.inj h
    have hclosed := s.close_forget (p := p)
    refine Or.inl ⟨?_, fun hc => ?_⟩
    · exact (congrArg HSClientConnector.calls hclosed).trans (HSClientConnector.calls_close _)
    · exact HSClientConnector.state_close ((congrArg HSClientConnector.state hclosed).symm.trans hc)
  | act e =>
    have hexec := (act_forget (some handler) e s).result h
    rcases HSClientConnector.exec_cases hidle hh hexec with hsame | hcalls | htick
    · exact Or.inl hsame
    · exact Or.inr (Or.inl hcalls)
    · obtain ⟨poll, res, rfl, hconn, hfails, htold⟩ := htick
      exact Or.inr (Or.inr ⟨poll, res, rfl, hconn, hfails, htold⟩)

def ToldOnce (past : List ClientCall) (s : SocketUser) : Prop :=
  ∃ future, s.calls = past ++ future ∧ (period isConnect past future).countP isDisconnect = 1

structure Untold (s : SocketUser) : Prop where
  buffers : s.Buffers
  untold : s.state = .connected → (period isConnect s.calls []).countP isDisconnect = 0

structure Over (past : List ClientCall) (s : SocketUser) : Prop where
  buffers : s.Buffers
  told : ∃ future, s.calls = past ++ future ∧
    (period isConnect past future).countP isDisconnect = 1 ∧
    (s.state = .connected → ∃ e ∈ future, e.isConnect)

theorem Untold.step (hh : NeverCloses handler) (h : Untold s) {e : SocketEvent}
    (hs : Guarded (Shuts results) (Step p w results fuel (some handler)) s e s') : Untold s' := by
  obtain ⟨hshuts, -, hexec⟩ := hs
  refine ⟨(buffers_kept.exec (fun _ hb => hb.idle) h.buffers e).result hexec, fun hconn => ?_⟩
  rcases exec_cases h.buffers.idle hh hexec with
    ⟨hcalls, hstate⟩ | ⟨res, hcalls⟩ | ⟨poll, res, rfl, hs, hfails, htold⟩
  · rw [hcalls]
    exact h.untold (hstate hconn)
  · rw [hcalls, period_snoc_start (by rfl)]
    rfl
  · rw [htold.state, if_pos (hshuts hs res hfails)] at hconn
    cases hconn

theorem Over.step (hh : NeverCloses handler) {past : List ClientCall} (h : Over past s)
    {e : SocketEvent} (hs : Step p w results fuel (some handler) s e s') : Over past s' := by
  refine ⟨(buffers_kept.exec (fun _ hb => hb.idle) h.buffers e).result hs.2, ?_⟩
  obtain ⟨future, hpast, honce, hnext⟩ := h.told
  rcases exec_cases h.buffers.idle hh hs.2 with
    ⟨hcalls, hstate⟩ | ⟨res, hcalls⟩ | ⟨poll, res, rfl, hconn, -, htold⟩
  · exact ⟨future, hcalls.trans hpast, honce, fun hc => hnext (hstate hc)⟩
  · refine ⟨future ++ [.onConnect res], ?_, ?_, fun _ => ⟨.onConnect res, by simp, rfl⟩⟩
    · rw [hcalls, hpast, List.append_assoc]
    · rwa [period_snoc_next (by rfl)]
  · -- a connector that is connected again has told the handler so
    have hover := hnext hconn
    refine ⟨future ++ [.onDisconnect res], ?_, ?_, fun _ => ?_⟩
    · rw [htold.calls, hpast, List.append_assoc]
    · rwa [period_snoc_over hover]
    · obtain ⟨e, he, hconnect⟩ := hover
      exact ⟨e, List.mem_append_left _ he, hconnect⟩

theorem Untold.over (h : Untold s) (hconn : s.state = .connected) (hb : s'.Buffers)
    (hsock : 0 < s.sock) {res : ℤ}
    (htold : Told res s.toHSClientConnector s'.toHSClientConnector) : Over s.calls s' := by
  refine ⟨hb, [.onDisconnect res], htold.calls, ?_, fun hc => ?_⟩
  · rw [period_singleton (by simp [isConnect]), List.countP_append, h.untold hconn]
    rfl
  · rw [htold.state, if_pos hsock] at hc
    cases hc

theorem Over.toldOnce {past : List ClientCall} (h : Over past s) : ToldOnce past s := by
  obtain ⟨future, hpast, honce, -⟩ := h.told
  exact ⟨future, hpast, honce⟩

/-- A lost connection is closed in the tick that finds it lost and reported once in all, just when
the descriptor is above 0, and the peer has not closed its side or sending fails as well. -/
theorem lost_toldOnce_iff (hh : NeverCloses handler) {recvMem sendMem : ℕ → UInt8}
    {es : List SocketEvent}
    (h : Run (Guarded (Shuts results) (Step p w results fuel (some handler)))
      (new recvMem sendMem) es s)
    (hlive : s.destroyed = false) (hconn : s.state = .connected) {poll : Poll}
    (hlost : Lost p w results fuel handler s poll) :
    (∃ s', Step p w results fuel (some handler) s (.act (.tick poll)) s' ∧
        s'.state ≠ .connected ∧
        ∀ es' s'', Run (Step p w results fuel (some handler)) s' es' s'' →
          ToldOnce s.calls s'') ↔
      0 < s.sock ∧ (0 < poll.select → poll.recv = some [] →
        SendFails results s.toHSClientConnector) := by
  have hu : Untold s := by
    refine h.invariant (P := Untold) ⟨buffers_new recvMem sendMem, fun hc => (by cases hc)⟩ ?_
    intro s e s' hs hstep
    exact hs.step hh hstep
  have hidle := hu.buffers.idle
  constructor
  · rintro ⟨s', ⟨-, hexec⟩, hleft, -⟩
    obtain ⟨⟨r, s₁⟩, htick, hs₁⟩ := exists_of_bind hexec
    obtain rfl : s₁ = s' := Except.ok.inj hs₁
    have hticked := (tick_forget (some handler) poll s).result htick
    rcases HSClientConnector.connected_cases hidle hh hconn hticked with
      ⟨res, hfails, htold⟩ | ⟨-, hsame⟩
    · constructor
      · by_contra hsock
        rw [htold.state, if_neg hsock] at hleft
        exact hleft hconn
      · intro hpos hrecv
        by_contra hsend
        exact not_fails_peerClosed hpos hrecv hsend res hfails
    · exact absurd (hsame.state.trans hconn) hleft
  · rintro ⟨hsock, hsend⟩
    obtain ⟨res₀, hfails₀⟩ := fails_lost hidle hlost hsend
    obtain ⟨r, c', hticked⟩ := @HSClientConnector.tick_returns w results fuel handler
      s.toHSClientConnector hidle hh hconn hsock poll res₀ hfails₀
    obtain ⟨⟨r₁, s'⟩, htick, hforget⟩ := (tick_forget (p := p) (some handler) poll s).exists_result
      hticked
    obtain ⟨rfl, rfl⟩ := Prod.mk.inj hforget
    have hstep : Step p w results fuel (some handler) s (.act (.tick poll)) s' := by
      refine ⟨hlive, ?_⟩
      rw [exec, act, htick]
      rfl
    have hb := (buffers_kept.exec (fun _ hb => hb.idle) hu.buffers _).result hstep.2
    rcases HSClientConnector.connected_cases hidle hh hconn hticked with
      ⟨res, -, htold⟩ | ⟨hnone, -⟩
    · refine ⟨s', hstep, fun hc => ?_, fun es' s'' hrun => Over.toldOnce ?_⟩
      · rw [htold.state, if_pos hsock] at hc
        cases hc
      · refine hrun.invariant (hu.over hconn hb hsock htold) ?_
        intro s e s' hs hstep
        exact hs.step hh hstep
    · exact absurd hfails₀ (hnone res₀)

theorem lost_toldOnce_selectError :
    ∃ s s' : SocketUser,
      Run (Step .posix .eight (fun _ => 0) 0 (some fun _ => [])) (new (fun _ => 0) fun _ => 0)
        ([] ++ [.init 8192 64 ⟨true, 5, true, fun _ => 0, fun _ => 0⟩] ++
          [.act (.connect 0 false)]) s ∧
      Step .posix .eight (fun _ => 0) 0 (some fun _ => []) s
        (.act (.tick ⟨-1, false, false, some []⟩)) s' ∧
      s'.state ≠ .connected ∧ ToldOnce s.calls s' := by
  obtain ⟨s, hconnect, hs⟩ :=
    @exists_ok_of_map _ _ (fun s => (s.destroyed, s.state, s.sock))
      (((new (fun _ => 0) fun _ => 0).init .posix 8192 64
        ⟨true, 5, true, fun _ => 0, fun _ => 0⟩).2.exec .posix .eight (fun _ => 0) 0
          (some fun _ => []) (.act (.connect 0 false))) (false, .connected, 5) (by decide +kernel)
  simp only [Prod.mk.injEq] at hs
  obtain ⟨hlive, hconn, hsock⟩ := hs
  have hrun : Run (Guarded (Shuts fun _ => 0)
      (Step .posix .eight (fun _ => 0) 0 (some fun _ => []))) (new (fun _ => 0) fun _ => 0)
      ([] ++ [.init 8192 64 ⟨true, 5, true, fun _ => 0, fun _ => 0⟩] ++
        [.act (.connect 0 false)]) s :=
    .snoc (.snoc .nil ⟨trivial, rfl, rfl⟩) ⟨trivial, rfl, hconnect⟩
  have hpos : 0 < s.sock := by
    rw [hsock]
    decide
  have hlost : Lost .posix .eight (fun _ => 0) 0 (fun _ => []) s ⟨-1, false, false, some []⟩ :=
    .select (by decide)
  obtain ⟨s', hstep, hleft, htold⟩ := (lost_toldOnce_iff (fun _ => List.not_mem_nil) hrun hlive
    hconn hlost).mpr ⟨hpos, fun hselect => absurd hselect (by decide)⟩
  exact ⟨s, s', hrun.of_guarded, hstep, hleft, htold [] s' .nil⟩

theorem peerClosed_unnoticed :
    ∃ s s' : SocketUser,
      Run (Step .posix .eight (fun _ => 0) 0 (some fun _ => [])) (new (fun _ => 0) fun _ => 0)
        [.init 8192 64 ⟨true, 5, true, fun _ => 0, fun _ => 0⟩, .act (.connect 0 false)] s ∧
      s.state = .connected ∧
      Lost .posix .eight (fun _ => 0) 0 (fun _ => []) s ⟨1, false, false, some []⟩ ∧
      Step .posix .eight (fun _ => 0) 0 (some fun _ => []) s
        (.act (.tick ⟨1, false, false, some []⟩)) s' ∧
      s'.state = .connected ∧ s'.calls = [.onConnect 0] := by
  obtain ⟨s, hrun, hs⟩ := @Run.of_observed _ _
    (Step .posix .eight (fun _ => 0) 0 (some fun _ => [])) (new (fun _ => 0) fun _ => 0) _ _
    (fun _ _ _ => step_of_next)
    [.init 8192 64 ⟨true, 5, true, fun _ => 0, fun _ => 0⟩, .act (.connect 0 false)]
    (fun s => ((s.destroyed, s.state),
      (s.exec .posix .eight (fun _ => 0) 0 (some fun _ => [])
        (.act (.tick ⟨1, false, false, some []⟩))).map fun s => (s.state, s.calls)))
    ((false, .connected), .ok (.connected, [.onConnect 0])) (by decide +kernel)
  simp only [Prod.mk.injEq] at hs
  obtain ⟨⟨hlive, hconn⟩, htick⟩ := hs
  obtain ⟨s', hexec, hs'⟩ := exists_ok_of_map htick
  obtain ⟨hstay, hcalls⟩ := Prod.mk.inj hs'
  exact ⟨s, s', hrun, hconn, .peerClosed (by decide) rfl, ⟨hlive, hexec⟩, hstay, hcalls⟩

end SocketUser

end HsCommon
