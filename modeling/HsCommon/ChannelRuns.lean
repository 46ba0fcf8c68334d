import HsCommon.Channel

/-!
# Runs of a channel

Nothing cancels the wait of the connect timer when a connect succeeds, and
`handle_timeout` does not ask why it is called: when the wait completes, the channel
takes the connection for a failed one. An accept is started again only from the
handler of the accept before it, so none is outstanding when the session that was
accepted is cleared later. And the session of a failed connect is handed to the
acceptor with its socket open.
-/

namespace HsCommon.ChannelProcess
open Transition Outcome

variable {w : ULongWidth} {fuel : ℕ} {recvMem sendMem : ℕ → ℕ → UInt8} {c c' : ChannelProcess}

theorem Own.done (h : Own c) {e : ServiceEvent} {p : IoService} {succeeded : Bool}
    (hd : IoService.Done w fuel recvMem sendMem c.toIoService e p) :
    Own { c with toIoService := p, succeeded := succeeded } := by
  cases hd with
  | @accepted k u op s hop hs =>
    obtain ⟨-, -, h'⟩ := @Own.restarted recvMem sendMem _ h _ (List.mem_of_getElem? hop)
      ({ c.toIoService with accepts := c.accepts.eraseIdx k }.put op.session
        (c.readCloses op.session) s) rfl rfl (fun op hop => List.mem_of_mem_eraseIdx hop) rfl rfl
    exact h'.of_same rfl rfl rfl rfl rfl (fun op hop => hop) (fun op hop => hop) fun op hop => hop
  | @refused k v op hop =>
    obtain ⟨-, -, h'⟩ := @Own.restarted recvMem sendMem _ h _ (List.mem_of_getElem? hop)
      { c.toIoService with accepts := c.accepts.eraseIdx k } rfl rfl
      (fun op hop => List.mem_of_mem_eraseIdx hop) rfl rfl
    exact h'.of_same rfl rfl rfl rfl rfl (fun op hop => hop) (fun op hop => hop) fun op hop => hop
  | connected hop hs =>
    exact h.of_same rfl rfl rfl rfl rfl (fun op hop => hop)
      (fun op hop => List.mem_of_mem_eraseIdx hop) fun op hop => hop
  | failed hop =>
    exact h.of_same rfl rfl rfl rfl rfl (fun op hop => hop)
      (fun op hop => List.mem_of_mem_eraseIdx hop) fun op hop => hop
  | waited hop =>
    exact h.of_same rfl rfl rfl rfl rfl (fun op hop => hop) (fun op hop => hop)
      fun op hop => List.mem_of_mem_eraseIdx hop
  | session hi hposs hs =>
    exact h.of_same rfl rfl rfl rfl rfl (fun op hop => hop) (fun op hop => hop) fun op hop => hop

theorem step_done {e : ServiceEvent} (hs : Step w fuel recvMem sendMem c (.done e) c') :
    ∃ p, IoService.Done w fuel recvMem sendMem c.toIoService e p ∧
      c' = { c with toIoService := p, succeeded := c.succeeds e } := by
  obtain ⟨⟨hdone, hposs⟩, hexec⟩ := hs
  simp only [exec] at hexec
  cases hp : c.toIoService.exec w fuel recvMem sendMem e with
  | error f =>
    rw [hp] at hexec
    cases hexec
  | ok p =>
    rw [hp] at hexec
    exact ⟨p, IoService.done_of_exec hdone hposs hp, (Except.ok.inj hexec).symm⟩

theorem Own.step (h : Own c) {e : ChannelEvent} (hs : Step w fuel recvMem sendMem c e c') :
    Own c' := by
  cases e with
  | listen =>
    rw [← Except.ok.inj hs.2]
    exact h.listen
  | connect =>
    obtain rfl | ⟨i, s, count, -, hgiven, rfl⟩ := connect_cases hs.2
    · exact h
    · exact h.dialing hgiven
  | poll =>
    rw [← Except.ok.inj hs.2]
    obtain ⟨-, -, hc⟩ | ⟨-, hc⟩ := poll_cases c recvMem sendMem
    · rw [hc]
      exact h.listen
    · rw [hc]
      exact h
  | done e =>
    obtain ⟨p, hd, rfl⟩ := step_done hs
    exact h.done hd

def Settled (c : ChannelProcess) : Prop := c.succeeded = true → c.isConnectedFailed = false

def Trusted (c : ChannelProcess) (e : ChannelEvent) (c' : ChannelProcess) : Prop :=
  Settled c' ∧ (e = .poll → c.succeeded = true → c' = c)

/-- No wait of the timer completes and no earlier connect fails after the success of the connect
started last, and none has between its start and its success. -/
def Undisturbed (c : ChannelProcess) : ChannelEvent → Prop
  | .done (.waitDone _) => c.succeeded = false
  | .done (.connectDone _ (.failure _)) => c.succeeded = false
  | .done (.connectDone k (.success _)) => c.IsLatest k → c.isConnectedFailed = false
  | _ => True

theorem isConnectedFailed_congr (hconnector : c'.channel.connector = c.channel.connector)
    (hfailed : c'.connectedFailed = c.connectedFailed) :
    c'.isConnectedFailed = c.isConnectedFailed := by
  simp only [isConnectedFailed, hconnector, hfailed]

theorem Settled.of_same (h : Settled c) (hsucceeded : c'.succeeded = c.succeeded)
    (hconnector : c'.channel.connector = c.channel.connector)
    (hfailed : c'.connectedFailed = c.connectedFailed) : Settled c' := by
  intro hs
  rw [isConnectedFailed_congr hconnector hfailed]
  exact h (hsucceeded ▸ hs)

theorem start_connectedFailed {a : HSAcceptor} (hid : a.sessionId ≠ 0) (p : IoService) :
    (a.start recvMem sendMem p).connectedFailed = p.connectedFailed := by
  obtain ⟨i, -, -, hp⟩ | ⟨i, s, count, -, hp⟩ := HSAcceptor.start_local recvMem sendMem p hid <;>
    rw [hp]

theorem Own.listen_settled (h : Own c) (hsettled : Settled c) :
    Settled (c.listen recvMem sendMem) := by
  obtain ⟨-, hc⟩ | ⟨a, -, ha, hc⟩ := h.listen_cases recvMem sendMem
  · rw [hc]
    exact hsettled
  · rw [hc]
    exact hsettled.of_same rfl rfl (start_connectedFailed ha.nonzero _)

theorem handleTimeout_failed {k : ℕ} (hconnector : c.channel.connector = some k) (p : IoService)
    (succeeded : Bool) :
    isConnectedFailed { c with
      toIoService := HSConnector.handleTimeout k p, succeeded := succeeded } = true := by
  simp only [isConnectedFailed, hconnector, HSConnector.handleTimeout, Function.update_self]

theorem Own.done_settled (h : Own c) (hsettled : Settled c) {e : ServiceEvent} {p : IoService}
    (hd : IoService.Done w fuel recvMem sendMem c.toIoService e p) :
    Settled { c with toIoService := p, succeeded := c.succeeds e } ↔ Undisturbed c (.done e) := by
  cases hd with
  | accepted hop hs =>
    refine iff_of_true (hsettled.of_same rfl rfl ?_) trivial
    exact start_connectedFailed (h.acceptor _ (h.accepts _ (List.mem_of_getElem? hop)).1).nonzero _
  | refused hop =>
    refine iff_of_true (hsettled.of_same rfl rfl ?_) trivial
    exact start_connectedFailed (h.acceptor _ (h.accepts _ (List.mem_of_getElem? hop)).1).nonzero _
  | @connected k u op s hop hs =>
    simp only [Settled, Undisturbed, succeeds, Bool.or_eq_true, decide_eq_true_eq]
    constructor
    · intro hall hlatest
      exact hall (Or.inr hlatest)
    · intro hnot hs
      rcases hs with hs | hlatest
      · exact hsettled hs
      · exact hnot hlatest
  | failed hop =>
    have hconnector := (h.connects _ (List.mem_of_getElem? hop)).1
    simp only [Settled, Undisturbed, handleTimeout_failed hconnector, succeeds]
    simp
  | waited hop =>
    have hconnector := h.waits _ (List.mem_of_getElem? hop)
    simp only [Settled, Undisturbed, handleTimeout_failed hconnector, succeeds]
    simp
  | session hi hposs hs => exact iff_of_true (hsettled.of_same rfl rfl rfl) trivial

theorem Own.trusted_iff (h : Own c) (hsettled : Settled c) {e : ChannelEvent}
    (hs : Step w fuel recvMem sendMem c e c') : Trusted c e c' ↔ Undisturbed c e := by
  cases e with
  | listen =>
    obtain rfl := Except.ok.inj hs.2
    exact iff_of_true ⟨h.listen_settled hsettled, fun he => by cases he⟩ trivial
  | connect =>
    refine iff_of_true ⟨?_, fun he => by cases he⟩ trivial
    obtain rfl | ⟨i, s, count, -, hgiven, rfl⟩ := connect_cases hs.2
    · exact hsettled
    · intro hnot
      cases hnot
  | poll =>
    obtain rfl := Except.ok.inj hs.2
    refine iff_of_true ?_ trivial
    obtain ⟨-, hfailed, hc⟩ | ⟨-, hc⟩ := poll_cases c recvMem sendMem
    · rw [hc]
      refine ⟨h.listen_settled hsettled, fun _ hsucceeded => ?_⟩
      rw [hsettled hsucceeded] at hfailed
      cases hfailed
    · rw [hc]
      exact ⟨hsettled, fun _ _ => rfl⟩
  | done e =>
    obtain ⟨p, hd, rfl⟩ := step_done hs
    rw [← h.done_settled hsettled hd]
    exact and_iff_left fun he => by cases he

theorem settled_init (eventHandler : Option EventHandler) (sessionId : ℕ) :
    Settled (init eventHandler sessionId) := fun hs => by cases hs

/-- The runs in which a connection is never taken for a failed one are the runs that are never
disturbed. -/
theorem connection_trusted (w : ULongWidth) (fuel : ℕ) (recvMem sendMem : ℕ → ℕ → UInt8)
    (eventHandler : Option EventHandler) (sessionId : ℕ) (es : List ChannelEvent)
    (c : ChannelProcess) :
    Run (fun c e c' => Step w fuel recvMem sendMem c e c' ∧ Trusted c e c')
        (init eventHandler sessionId) es c ↔
      Run (Guarded Undisturbed (Step w fuel recvMem sendMem)) (init eventHandler sessionId)
        es c := by
  have h₀ := And.intro (own_init eventHandler sessionId) (settled_init eventHandler sessionId)
  refine Run.guarded_iff (I := fun c => Own c ∧ Settled c) h₀ ?_
  intro c e c' hc hs
  obtain ⟨hown, hsettled⟩ := hc
  have hiff := hown.trusted_iff hsettled hs
  exact ⟨hiff, fun hnot => ⟨hown.step hs, (hiff.mpr hnot).1⟩⟩

theorem timeout_disconnects :
    ∃ c₁ c₂ c₃, Run (Step .eight 0 (fun _ _ => 0) fun _ _ => 0) (init (some fun _ => []) 1)
        [.connect, .done (.connectDone 0 (.success ()))] c₁ ∧
      Step .eight 0 (fun _ _ => 0) (fun _ _ => 0) c₁ (.done (.waitDone 0)) c₂ ∧
      Step .eight 0 (fun _ _ => 0) (fun _ _ => 0) c₂ .poll c₃ ∧
      c₁.succeeded = true ∧ c₁.isConnectedFailed = false ∧ c₂.isConnectedFailed = true ∧
      c₃.channel.state = .listening ∧
      ¬ Trusted c₁ (.done (.waitDone 0)) c₂ := by
  obtain ⟨c₁, hrun, hc⟩ := @run_of_foldlM .eight 0 (fun _ _ => 0) (fun _ _ => 0)
    ((Bool × Bool) × Option ((Bool × Bool) × Option ChannelState)) (init (some fun _ => []) 1)
    [.connect, .done (.connectDone 0 (.success ()))]
    (fun (c : ChannelProcess) => ((c.succeeded, c.isConnectedFailed),
      (next .eight 0 (fun _ _ => 0) (fun _ _ => 0) c (.done (.waitDone 0))).map
        fun (c : ChannelProcess) => ((c.succeeded, c.isConnectedFailed),
          (next .eight 0 (fun _ _ => 0) (fun _ _ => 0) c .poll).map
            fun (c : ChannelProcess) => c.channel.state)))
    ((true, false), some ((true, true), some .listening)) (by decide +kernel)
  obtain ⟨hconnected, hc⟩ := Prod.mk.inj hc
  obtain ⟨hsucceeded, hfailed⟩ := Prod.mk.inj hconnected
  obtain ⟨c₂, hwait, hc⟩ := Option.map_eq_some_iff.mp hc
  obtain ⟨hwaited, hc⟩ := Prod.mk.inj hc
  obtain ⟨hsucceeded₂, hfailed₂⟩ := Prod.mk.inj hwaited
  obtain ⟨c₃, hpoll, hstate⟩ := Option.map_eq_some_iff.mp hc
  refine ⟨c₁, c₂, c₃, hrun, step_of_next _ _ _ _ hwait, step_of_next _ _ _ _ hpoll, hsucceeded,
    hfailed, hfailed₂, hstate, fun htrusted => ?_⟩
  rw [htrusted.1 hsucceeded₂] at hfailed₂
  cases hfailed₂

def Occupied (p : IoService) (sid : ℕ) : Prop :=
  ∃ i, p.localSessions sid = some i ∧ (p.sessions i).isConnected = true

def ConnectStarted (recvMem sendMem : ℕ → ℕ → UInt8) (connector sid : ℕ) (p p' : IoService) :
    Prop :=
  ∃ i s count, Given recvMem sendMem p sid i s count ∧ s.isConnected = false ∧
    p'.localSessions sid = some i ∧ p'.connects = p.connects ++ [⟨connector, i, s.closes + 1⟩]

theorem connect_occupied {p : IoService} {sid : ℕ} (h : Occupied p sid) (connector : ℕ)
    (eventHandler : Option EventHandler) :
    HSConnector.connect recvMem sendMem connector sid eventHandler p = .error .nullPointer := by
  obtain ⟨i, hlocal, hconn⟩ := h
  simp only [HSConnector.connect, HSSessionMgr.newLocalSession, hlocal, hconn, if_true]

theorem connect_free {p : IoService} {sid : ℕ} (h : ¬ Occupied p sid) (connector : ℕ)
    (eventHandler : Option EventHandler) :
    ∃ p', HSConnector.connect recvMem sendMem connector sid eventHandler p = .ok p' ∧
      ConnectStarted recvMem sendMem connector sid p p' := by
  have hok : ∃ p', HSConnector.connect recvMem sendMem connector sid eventHandler p = .ok p' := by
    rw [HSConnector.connect, HSSessionMgr.newLocalSession]
    cases hlocal : p.localSessions sid with
    | none =>
      dsimp only [HSSessionMgr.newSession]
      split_ifs
      · exact ⟨_, rfl⟩
      · exact ⟨_, rfl⟩
    | some i =>
      have hconn : ¬ (p.sessions i).isConnected = true := fun hconn => h ⟨i, hlocal, hconn⟩
      dsimp only
      rw [if_neg hconn]
      dsimp only
      rw [if_neg hconn]
      exact ⟨_, rfl⟩
  obtain ⟨p', hp'⟩ := hok
  obtain ⟨i, s, count, hgiven, rfl⟩ := HSConnector.connect_local recvMem sendMem p hp'
  exact ⟨_, hp', i, s, count, hgiven, hgiven.not_connected, Function.update_self _ _ _, rfl⟩

/-- A connector starts a connect exactly if the session of the id is not connected, and uses a NULL
pointer otherwise; so does the channel, if it gets that far. -/
theorem connect_starts_iff (recvMem sendMem : ℕ → ℕ → UInt8) :
    (∀ connector sid eventHandler p,
      ((∃ p', HSConnector.connect recvMem sendMem connector sid eventHandler p = .ok p' ∧
        (p' = p ∨ ConnectStarted recvMem sendMem connector sid p p')) ↔ ¬ Occupied p sid) ∧
      (HSConnector.connect recvMem sendMem connector sid eventHandler p = .error .nullPointer ↔
        Occupied p sid)) ∧
    ∀ c : ChannelProcess,
      ((∃ c', c.connect recvMem sendMem = .ok c' ∧ (c' = c ∨ ConnectStarted recvMem sendMem
        (c.channel.connector.getD 0) c.channel.sessionId c.toIoService c'.toIoService)) ↔
          ¬ (c.Ready ∧ Occupied c.toIoService c.channel.sessionId)) ∧
      (c.connect recvMem sendMem = .error .nullPointer ↔
        c.Ready ∧ Occupied c.toIoService c.channel.sessionId) := by
  constructor
  · intro connector sid eventHandler p
    by_cases h : Occupied p sid
    · rw [connect_occupied h]
      simp [h]
    · obtain ⟨p', hp', hstarted⟩ :=
        @connect_free recvMem sendMem p sid h connector eventHandler
      rw [hp']
      simp [h, hstarted]
  · intro c
    rw [connect]
    by_cases hready : c.Ready
    · rw [if_neg (not_not.mpr hready)]
      by_cases h : Occupied c.toIoService c.channel.sessionId
      · dsimp only
        rw [connect_occupied h]
        simp [hready, h, bind, Except.bind]
      · obtain ⟨p', hp', hstarted⟩ := @connect_free recvMem sendMem c.toIoService
          c.channel.sessionId h (c.channel.connector.getD 0) c.channel.eventHandler
        dsimp only
        rw [hp']
        simp [h, hstarted, bind, Except.bind, pure, Except.pure]
    · rw [if_pos hready]
      simp [hready]

theorem connect_twice_null :
    ∃ c, Run (Step .eight 0 (fun _ _ => 0) fun _ _ => 0) (init (some fun _ => []) 1)
        [.connect, .done (.connectDone 0 (.success ()))] c ∧
      c.connect (fun _ _ => 0) (fun _ _ => 0) = .error .nullPointer := by
  obtain ⟨c, hrun, hc⟩ := @run_of_foldlM .eight 0 (fun _ _ => 0) (fun _ _ => 0)
    (Except Fault Unit) (init (some fun _ => []) 1)
    [.connect, .done (.connectDone 0 (.success ()))]
    (fun (c : ChannelProcess) => (c.connect (fun _ _ => 0) fun _ _ => 0).map fun _ => ())
    (.error .nullPointer) (by decide +kernel)
  exact ⟨c, hrun, error_of_map hc⟩

end HsCommon.ChannelProcess
