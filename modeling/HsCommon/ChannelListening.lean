import HsCommon.ChannelRuns
import HsCommon.SessionSocket

/-!
# Channels that listen

The accept loop of a channel ends when its session is connected: the manager has no
session for the next accept then, and nothing starts the loop again when the session
is cleared. And nothing closes the socket of a session whose connect has failed
before the acceptor is given it.
-/

namespace HsCommon
open Transition Outcome

variable {w : ULongWidth} {fuel : ℕ} {recvMem sendMem : ℕ → ℕ → UInt8}

namespace ChannelProcess
variable {c c' : ChannelProcess}

def SessionConnected (c : ChannelProcess) : Prop :=
  ∃ i, c.localSessions c.channel.sessionId = some i ∧ (c.sessions i).isConnected = true

/-- A channel that listens is connected, or an accept is outstanding. -/
def Reconnectable (c : ChannelProcess) : Prop :=
  c.channel.state = .listening → c.SessionConnected ∨ c.accepts ≠ []

/-- The session is not disconnected while the channel listens with no accept outstanding. -/
def Attended (w : ULongWidth) (c : ChannelProcess) : ChannelEvent → Prop
  | .done (.session i e) => c.channel.state = .listening → c.accepts = [] →
      ¬ (c.sessions i).Disconnects w e
  | _ => True

theorem start_reconnectable {a : HSAcceptor} (ha : Accepting c a) {p : IoService} :
    (∃ i, (a.start recvMem sendMem p).localSessions c.channel.sessionId = some i ∧
        ((a.start recvMem sendMem p).sessions i).isConnected = true) ∨
      (a.start recvMem sendMem p).accepts ≠ [] := by
  rw [← ha.sessionId]
  obtain ⟨i, hi, hconn, hp⟩ | ⟨i, s, count, -, hp⟩ :=
    HSAcceptor.start_local recvMem sendMem p ha.nonzero
  · rw [hp]
    exact Or.inl ⟨i, hi, hconn⟩
  · rw [hp]
    exact Or.inr (List.append_ne_nil_of_right_ne_nil _ (List.cons_ne_nil _ _))

theorem Own.listen_reconnectable (h : Own c) (hrec : Reconnectable c) :
    Reconnectable (c.listen recvMem sendMem) := by
  obtain ⟨-, hc⟩ | ⟨a, -, ha, hc⟩ := h.listen_cases recvMem sendMem
  · rw [hc]
    exact hrec
  · rw [hc]
    exact fun _ => start_reconnectable ha

theorem connected_isConnected {s s' : HSSession} (h : s.connected w = .ok s') :
    s'.isConnected = true := (HSSession.connected_socket h).1

theorem Own.done_reconnectable (h : Own c) (hrec : Reconnectable c) {e : ServiceEvent}
    {p : IoService} {succeeded : Bool}
    (hd : IoService.Done w fuel recvMem sendMem c.toIoService e p) :
    Reconnectable { c with toIoService := p, succeeded := succeeded } ↔
      Attended w c (.done e) := by
  cases hd with
  | accepted hop hs =>
    have ha := h.acceptor _ (h.accepts _ (List.mem_of_getElem? hop)).1
    exact iff_of_true (fun _ => start_reconnectable ha) trivial
  | refused hop =>
    have ha := h.acceptor _ (h.accepts _ (List.mem_of_getElem? hop)).1
    exact iff_of_true (fun _ => start_reconnectable ha) trivial
  | @connected k u op s hop hs =>
    refine iff_of_true (fun _ => Or.inl ⟨op.session, ?_, ?_⟩) trivial
    · exact (h.connects _ (List.mem_of_getElem? hop)).2
    · simp only [IoService.put, Function.update_self]
      exact connected_isConnected hs
  | failed hop => exact iff_of_true hrec trivial
  | waited hop => exact iff_of_true hrec trivial
  | @session i e m s hi hposs hs =>
    have hlocal := h.only i hi
    have hself : SessionConnected { c with
        toIoService := { c.toIoService.put i (e.readsLeft (c.readCloses i)) s with
          maxReadLength := m }
        succeeded := succeeded } ↔ s.isConnected = true := by
      simp only [SessionConnected, IoService.put, hlocal, Option.some.injEq, exists_eq_left',
        Function.update_self]
    simp only [Reconnectable, hself, Attended]
    constructor
    · intro hall hlisten hnil
      have hconn : (c.sessions i).isConnected = true := by
        obtain ⟨j, hj, hconn⟩ := (hrec hlisten).resolve_right (not_not.mpr hnil)
        rwa [Option.some.inj (hlocal.symm.trans hj)]
      exact (HSSession.disconnects_iff hconn hposs hs).mp
        ((hall hlisten).resolve_right (not_not.mpr hnil))
    · intro hnot hlisten
      by_cases hnil : c.accepts = []
      · obtain ⟨j, hj, hconn⟩ := (hrec hlisten).resolve_right (not_not.mpr hnil)
        rw [← Option.some.inj (hlocal.symm.trans hj)] at hconn
        exact Or.inl ((HSSession.disconnects_iff hconn hposs hs).mpr (hnot hlisten hnil))
      · exact Or.inr hnil

theorem Own.reconnectable_iff (h : Own c) (hrec : Reconnectable c) {e : ChannelEvent}
    (hs : Step w fuel recvMem sendMem c e c') : Reconnectable c' ↔ Attended w c e := by
  cases e with
  | listen =>
    rw [← Except.ok.inj hs.2]
    exact iff_of_true (h.listen_reconnectable hrec) trivial
  | connect =>
    refine iff_of_true ?_ trivial
    obtain rfl | ⟨i, s, count, -, -, rfl⟩ := connect_cases hs.2
    · exact hrec
    · intro hlisten
      cases hlisten
  | poll =>
    rw [← Except.ok.inj hs.2]
    refine iff_of_true ?_ trivial
    obtain ⟨-, -, hc⟩ | ⟨-, hc⟩ := poll_cases c recvMem sendMem
    · rw [hc]
      exact h.listen_reconnectable hrec
    · rw [hc]
      exact hrec
  | done e =>
    obtain ⟨p, hd, rfl⟩ := step_done hs
    exact h.done_reconnectable hrec hd

theorem reconnectable_init (eventHandler : Option EventHandler) (sessionId : ℕ) :
    Reconnectable (init eventHandler sessionId) := fun hlisten => by cases hlisten

/-- A channel that listens can be connected to in all states of a run exactly if in the run the
session is never disconnected while no accept is outstanding. -/
theorem reconnectable_runs (w : ULongWidth) (fuel : ℕ) (recvMem sendMem : ℕ → ℕ → UInt8)
    (eventHandler : Option EventHandler) (sessionId : ℕ) (es : List ChannelEvent)
    (c : ChannelProcess) :
    Run (Keeping Reconnectable (Step w fuel recvMem sendMem)) (init eventHandler sessionId) es c ↔
      Run (Guarded (Attended w) (Step w fuel recvMem sendMem)) (init eventHandler sessionId)
        es c := by
  have h₀ := And.intro (own_init eventHandler sessionId)
    (reconnectable_init eventHandler sessionId)
  refine Run.guarded_iff (I := fun c => Own c ∧ Reconnectable c) h₀ ?_
  intro c e c' hc hs
  obtain ⟨hown, hrec⟩ := hc
  have hiff := hown.reconnectable_iff hrec hs
  exact ⟨hiff, fun hattended => ⟨hown.step hs, hiff.mpr hattended⟩⟩

theorem disconnected_unreachable :
    ∃ c, Run (Step .eight 0 (fun _ _ => 0) fun _ _ => 0) (init (some fun _ => []) 1)
        [.listen, .done (.acceptDone 0 (.success ())),
          .done (.session 0 (.readDone 0 (.failure 10054)))] c ∧
      c.channel.state = .listening ∧ ¬ Reconnectable c := by
  obtain ⟨c, hrun, hc⟩ := @run_of_foldlM .eight 0 (fun _ _ => 0) (fun _ _ => 0)
    (ChannelState × Option ℕ × Bool × ℕ) (init (some fun _ => []) 1)
    [.listen, .done (.acceptDone 0 (.success ())),
      .done (.session 0 (.readDone 0 (.failure 10054)))]
    (fun (c : ChannelProcess) => (c.channel.state, c.localSessions c.channel.sessionId,
      (c.sessions 0).isConnected, c.accepts.length)) (.listening, some 0, false, 0)
    (by decide +kernel)
  obtain ⟨hlisten, hc⟩ := Prod.mk.inj hc
  obtain ⟨hlocal, hc⟩ := Prod.mk.inj hc
  obtain ⟨hlost, hnil⟩ := Prod.mk.inj hc
  refine ⟨c, hrun, hlisten, fun hrec => ?_⟩
  obtain ⟨i, hi, hconn⟩ :=
    (hrec hlisten).resolve_right (not_not.mpr (List.length_eq_zero_iff.mp hnil))
  obtain rfl := Option.some.inj (hlocal.symm.trans hi)
  rw [hlost] at hconn
  cases hconn

def Dialed (c : ChannelProcess) : Prop :=
  ∃ i, c.localSessions c.channel.sessionId = some i ∧ (c.sessions i).isConnected = false ∧
    c.connectorOf i ≠ none ∧ (c.sessions i).closes = c.reusedCloses i

def acceptsLeft (c : ChannelProcess) : ChannelEvent → List AcceptOp
  | .done (.acceptDone k _) => c.accepts.eraseIdx k
  | _ => c.accepts

def OnClosed (c : ChannelProcess) (e : ChannelEvent) (c' : ChannelProcess) : Prop :=
  ∀ op, c'.accepts = c.acceptsLeft e ++ [op] → (c'.sessions op.session).socketOpen = false

/-- The channel does not listen, fall back to listening or start an accept again after an error as
long as its session is dialed. -/
def HungUp (c : ChannelProcess) : ChannelEvent → Prop
  | .listen => ¬ Dialed c
  | .poll => c.channel.state = .connecting → c.isConnectedFailed = true → ¬ Dialed c
  | .done (.acceptDone _ (.failure _)) => ¬ Dialed c
  | _ => True

structure Tracked (c : ChannelProcess) : Prop where
  ready : ∀ i, c.localSessions c.channel.sessionId = some i → c.Ready
  reused_le : ∀ i, c.localSessions c.channel.sessionId = some i →
    c.reusedCloses i ≤ (c.sessions i).closes
  open_iff : ∀ i, c.localSessions c.channel.sessionId = some i →
    (c.sessions i).isConnected = false →
      ((c.sessions i).socketOpen = true ↔
        c.connectorOf i ≠ none ∧ (c.sessions i).closes = c.reusedCloses i)

theorem tracked_init (eventHandler : Option EventHandler) (sessionId : ℕ) :
    Tracked (init eventHandler sessionId) where
  ready i hi := by cases hi
  reused_le i hi := by cases hi
  open_iff i hi := by cases hi

theorem not_dialed_of_connected {i : ℕ} (hlocal : c.localSessions c.channel.sessionId = some i)
    (hconn : (c.sessions i).isConnected = true) : ¬ Dialed c := by
  rintro ⟨j, hj, hnot, -⟩
  rw [← Option.some.inj (hlocal.symm.trans hj), hconn] at hnot
  cases hnot

theorem ne_append_singleton {α : Type} {xs ys : List α} (h : xs = ys) (y : α) : xs ≠ ys ++ [y] := by
  intro heq
  have hlen := congrArg List.length (h.symm.trans heq)
  simp at hlen

theorem Tracked.start (h : Tracked c) (hready : c.Ready) {a : HSAcceptor} (ha : Accepting c a) :
    let c' := c.accepting a (a.start recvMem sendMem c.toIoService)
    ((∀ op, c'.accepts = c.accepts ++ [op] → (c'.sessions op.session).socketOpen = false) ↔
      ¬ Dialed c) ∧ (¬ Dialed c → Tracked c') := by
  intro c'
  obtain ⟨i, hi, hconn, hp⟩ | ⟨i, s, count, hgiven, hp⟩ :=
    HSAcceptor.start_local recvMem sendMem c.toIoService ha.nonzero
  · have hnot := not_dialed_of_connected (ha.sessionId ▸ hi) hconn
    refine ⟨iff_of_true (fun op hop => ?_) hnot, fun _ => ?_⟩
    · exact absurd hop (ne_append_singleton (by simp only [c', accepting, hp]) op)
    · simp only [c', accepting, hp]
      exact ⟨h.ready, h.reused_le, h.open_iff⟩
  · rw [ha.sessionId] at hgiven
    have hopen : s.socketOpen = false ↔ ¬ Dialed c := by
      cases hgiven with
      | made hnone =>
        refine iff_of_true rfl ?_
        rintro ⟨j, hj, -⟩
        rw [hnone] at hj
        cases hj
      | kept hi hconn =>
        rw [← not_iff_not, Bool.not_eq_false, not_not, h.open_iff i hi hconn]
        constructor
        · intro hdial
          exact ⟨i, hi, hconn, hdial⟩
        · rintro ⟨j, hj, -, hdial⟩
          rwa [← Option.some.inj (hi.symm.trans hj)] at hdial
    have hlocal : c'.localSessions c'.channel.sessionId = some i := by
      simp only [c', accepting, hp, ha.sessionId, Function.update_self]
    have hself : c'.sessions i = s := by
      simp only [c', accepting, hp, Function.update_self]
    refine ⟨?_, fun hnot => ?_⟩
    · rw [← hopen]
      constructor
      · intro hall
        have hs := hall ⟨a, i, s.closes⟩ (by simp only [c', accepting, hp])
        rwa [hself] at hs
      · intro hs op hop
        have hop' : c.accepts ++ [(⟨a, i, s.closes⟩ : AcceptOp)] = c.accepts ++ [op] := by
          rw [← hop]
          simp only [c', accepting, hp]
        obtain rfl := List.singleton_injective (List.append_cancel_left hop')
        exact hself ▸ hs
    · have hreused : c'.reusedCloses i = s.closes := by
        simp only [c', accepting, hp, Function.update_self]
      have hnone : c'.connectorOf i = none := by
        simp only [c', accepting, hp, Function.update_self]
      refine ⟨fun j hj => hready, fun j hj => ?_, fun j hj hconn => ?_⟩
      · rw [← Option.some.inj (hlocal.symm.trans hj), hself, hreused]
      · rw [← Option.some.inj (hlocal.symm.trans hj), hself, hnone, hopen.mpr hnot]
        simp

theorem Tracked.put (htracked : Tracked c) {p : IoService} {i : ℕ} {s : HSSession}
    (hlocal : p.localSessions = c.localSessions)
    (hsessions : p.sessions = Function.update c.sessions i s)
    (hreused : p.reusedCloses = c.reusedCloses) (hconnectorOf : p.connectorOf = c.connectorOf)
    (hi : c.localSessions c.channel.sessionId = some i)
    (hs : s.isConnected = true ∧ (c.sessions i).closes ≤ s.closes ∨
      HSSession.SameSocket (c.sessions i) s ∨ HSSession.Shut (c.sessions i) s) :
    Tracked { c with toIoService := p } := by
  have hone : ∀ j, p.localSessions c.channel.sessionId = some j → j = i := by
    intro j hj
    rw [hlocal, hi] at hj
    exact (Option.some.inj hj).symm
  have hself : p.sessions i = s := by rw [hsessions, Function.update_self]
  have hle := htracked.reused_le i hi
  refine ⟨fun j hj => htracked.ready i hi, fun j hj => ?_, fun j hj => ?_⟩ <;> dsimp only
  · rw [hone j hj, hself, hreused]
    obtain hs | hs | hs := hs
    · exact hle.trans hs.2
    · exact hs.closes ▸ hle
    · exact hle.trans hs.closes.le
  · rw [hone j hj, hself, hreused, hconnectorOf]
    intro hconn
    obtain hs | hs | hs := hs
    · rw [hs.1] at hconn
      cases hconn
    · rw [hs.socketOpen, hs.closes]
      exact htracked.open_iff i hi (hs.isConnected ▸ hconn)
    · have hlt := hs.closes
      refine iff_of_false (by rw [hs.socketOpen]; decide) fun hdial => ?_
      omega

theorem acceptedBy_socket {s s' : HSSession} {eventHandler : Option EventHandler} {closes : ℕ}
    (h : s.acceptedBy w eventHandler closes = .ok s') :
    s'.isConnected = true ∧ s.closes ≤ s'.closes := by
  rw [HSSession.acceptedBy] at h
  cases hconn : ({ s with
      socketOpen := s.socketOpen || s.closes = closes
      eventHandler := eventHandler } : HSSession).connected w with
  | error f =>
    rw [hconn] at h
    cases h
  | ok s₁ =>
    rw [hconn] at h
    obtain rfl := Except.ok.inj h
    obtain ⟨hconn', hle⟩ := HSSession.connected_socket hconn
    exact ⟨hconn', hle⟩

theorem Own.done_tracked (h : Own c) (htracked : Tracked c) {e : ServiceEvent} {p : IoService}
    {succeeded : Bool} (hd : IoService.Done w fuel recvMem sendMem c.toIoService e p) :
    let c' : ChannelProcess := { c with toIoService := p, succeeded := succeeded }
    (OnClosed c (.done e) c' ↔ HungUp c (.done e)) ∧ (HungUp c (.done e) → Tracked c') := by
  intro c'
  have hkept : p.accepts = c.accepts → (∀ k r, e ≠ .acceptDone k r) → OnClosed c (.done e) c' := by
    intro haccepts hne op hop
    refine absurd hop (ne_append_singleton ?_ op)
    cases e with
    | acceptDone k r => exact absurd rfl (hne k r)
    | _ => exact haccepts
  cases hd with
  | @accepted k u op s hop hs =>
    have hmem := List.mem_of_getElem? hop
    have hlocal := (h.accepts op hmem).2
    have hput := htracked.put (i := op.session) (s := s)
      (p := { c.toIoService with accepts := c.accepts.eraseIdx k }.put op.session
        (c.readCloses op.session) s) rfl rfl rfl rfl hlocal (Or.inl (acceptedBy_socket hs))
    obtain ⟨-, ha, -⟩ := @Own.restarted recvMem sendMem _ h _ hmem
      ({ c.toIoService with accepts := c.accepts.eraseIdx k }.put op.session
        (c.readCloses op.session) s) rfl rfl (fun op hop => List.mem_of_mem_eraseIdx hop) rfl rfl
    have hconn : (Function.update c.sessions op.session s op.session).isConnected = true := by
      rw [Function.update_self]
      exact (acceptedBy_socket hs).1
    have hnot : ¬ Dialed { c with toIoService :=
        ({ c.toIoService with accepts := c.accepts.eraseIdx k }.put op.session
          (c.readCloses op.session) s) } := not_dialed_of_connected hlocal hconn
    obtain ⟨hclosed, hafter⟩ :=
      @Tracked.start recvMem sendMem _ hput (htracked.ready _ hlocal) _ ha
    exact ⟨iff_of_true (hclosed.mpr hnot) trivial, fun _ => ⟨(hafter hnot).ready,
      (hafter hnot).reused_le, (hafter hnot).open_iff⟩⟩
  | @refused k v op hop =>
    have hmem := List.mem_of_getElem? hop
    have hlocal := (h.accepts op hmem).2
    obtain ⟨-, ha, -⟩ := @Own.restarted recvMem sendMem _ h _ hmem
      { c.toIoService with accepts := c.accepts.eraseIdx k } rfl rfl
      (fun op hop => List.mem_of_mem_eraseIdx hop) rfl rfl
    have htracked₁ : Tracked { c with toIoService :=
        { c.toIoService with accepts := c.accepts.eraseIdx k } } :=
      ⟨htracked.ready, htracked.reused_le, htracked.open_iff⟩
    obtain ⟨hclosed, hafter⟩ :=
      @Tracked.start recvMem sendMem _ htracked₁ (htracked.ready _ hlocal) _ ha
    exact ⟨hclosed, fun hnot => ⟨(hafter hnot).ready, (hafter hnot).reused_le,
      (hafter hnot).open_iff⟩⟩
  | @connected k u op s hop hs =>
    have hput := htracked.put (i := op.session) (s := s)
      (p := { c.toIoService with connects := c.connects.eraseIdx k }.put op.session
        (c.readCloses op.session) s) rfl rfl rfl rfl
      (h.connects op (List.mem_of_getElem? hop)).2 (Or.inl (HSSession.connected_socket hs))
    exact ⟨iff_of_true (hkept rfl (by simp)) trivial, fun _ => ⟨hput.ready, hput.reused_le,
      hput.open_iff⟩⟩
  | failed hop =>
    exact ⟨iff_of_true (hkept rfl (by simp)) trivial, fun _ => ⟨htracked.ready, htracked.reused_le,
      htracked.open_iff⟩⟩
  | waited hop =>
    exact ⟨iff_of_true (hkept rfl (by simp)) trivial, fun _ => ⟨htracked.ready, htracked.reused_le,
      htracked.open_iff⟩⟩
  | @session i e m s hi hposs hs =>
    have hput := htracked.put (i := i) (s := s)
      (p := { c.toIoService.put i (e.readsLeft (c.readCloses i)) s with maxReadLength := m })
      rfl rfl rfl rfl (h.only i hi) (Or.inr (HSSession.exec_socket hs))
    exact ⟨iff_of_true (hkept rfl (by simp)) trivial, fun _ => ⟨hput.ready, hput.reused_le,
      hput.open_iff⟩⟩

theorem tracked_dialing (hready : c.Ready) (i : ℕ) (s : HSSession) (count : ℕ) :
    Tracked (c.dialing i s count) := by
  have hself : (c.dialing i s count).localSessions (c.dialing i s count).channel.sessionId =
      some i := Function.update_self _ _ _
  refine ⟨fun j hj => hready, fun j hj => ?_, fun j hj hconn => ?_⟩
  · obtain rfl := Option.some.inj (hself.symm.trans hj)
    simp only [dialing, Function.update_self, HSSession.clear, le_refl]
  · obtain rfl := Option.some.inj (hself.symm.trans hj)
    simp only [dialing, Function.update_self, HSSession.clear]
    simp

theorem Own.listen_tracked (h : Own c) (htracked : Tracked c) :
    ((∀ op, (c.listen recvMem sendMem).accepts = c.accepts ++ [op] →
        ((c.listen recvMem sendMem).sessions op.session).socketOpen = false) ↔ ¬ Dialed c) ∧
      (¬ Dialed c → Tracked (c.listen recvMem sendMem)) := by
  obtain ⟨hready, hc⟩ | ⟨a, hready, ha, hc⟩ := h.listen_cases recvMem sendMem
  · rw [hc]
    refine ⟨iff_of_true (fun op hop => absurd hop (ne_append_singleton rfl op)) ?_,
      fun _ => htracked⟩
    rintro ⟨i, hi, -⟩
    exact hready (htracked.ready i hi)
  · rw [hc]
    exact htracked.start hready ha

theorem Own.onClosed_iff (h : Own c) (htracked : Tracked c) {e : ChannelEvent}
    (hs : Step w fuel recvMem sendMem c e c') :
    (OnClosed c e c' ↔ HungUp c e) ∧ (HungUp c e → Tracked c') := by
  cases e with
  | listen =>
    rw [← Except.ok.inj hs.2]
    exact h.listen_tracked htracked
  | connect =>
    obtain rfl | ⟨i, s, count, hready, -, rfl⟩ := connect_cases hs.2
    · exact ⟨iff_of_true (fun op hop => absurd hop (ne_append_singleton rfl op)) trivial,
        fun _ => htracked⟩
    · exact ⟨iff_of_true (fun op hop => absurd hop (ne_append_singleton rfl op)) trivial,
        fun _ => tracked_dialing hready i s count⟩
  | poll =>
    rw [← Except.ok.inj hs.2]
    obtain ⟨hstate, hfailed, hc⟩ | ⟨hfall, hc⟩ := poll_cases c recvMem sendMem
    · obtain ⟨hclosed, hafter⟩ := @Own.listen_tracked recvMem sendMem _ h htracked
      rw [hc]
      refine ⟨hclosed.trans ⟨fun hnot _ _ => hnot, fun hhung => hhung hstate hfailed⟩,
        fun hhung => hafter (hhung hstate hfailed)⟩
    · rw [hc]
      refine ⟨iff_of_true (fun op hop => absurd hop (ne_append_singleton rfl op)) ?_,
        fun _ => htracked⟩
      exact fun hstate hfailed => absurd ⟨hstate, hfailed⟩ hfall
  | done e =>
    obtain ⟨p, hd, rfl⟩ := step_done hs
    exact h.done_tracked htracked hd

/-- In the runs in which the channel hangs up before it listens, and in no others, every accept is
started with a closed socket. -/
theorem accepts_closed (w : ULongWidth) (fuel : ℕ) (recvMem sendMem : ℕ → ℕ → UInt8)
    (eventHandler : Option EventHandler) (sessionId : ℕ) (es : List ChannelEvent)
    (c : ChannelProcess) :
    Run (fun c e c' => Step w fuel recvMem sendMem c e c' ∧ OnClosed c e c')
        (init eventHandler sessionId) es c ↔
      Run (Guarded HungUp (Step w fuel recvMem sendMem)) (init eventHandler sessionId) es c := by
  have h₀ := And.intro (own_init eventHandler sessionId) (tracked_init eventHandler sessionId)
  refine Run.guarded_iff (I := fun c => Own c ∧ Tracked c) h₀ ?_
  intro c e c' hc hs
  obtain ⟨hown, htracked⟩ := hc
  obtain ⟨hiff, hafter⟩ := hown.onClosed_iff htracked hs
  exact ⟨hiff, fun hhung => ⟨hown.step hs, hafter hhung⟩⟩

theorem fallback_open :
    ∃ c c', Run (Step .eight 0 (fun _ _ => 0) fun _ _ => 0) (init (some fun _ => []) 1)
        [.connect, .done (.connectDone 0 (.failure 10061))] c ∧
      Step .eight 0 (fun _ _ => 0) (fun _ _ => 0) c .poll c' ∧ ¬ OnClosed c .poll c' := by
  obtain ⟨c, hrun, hc⟩ := @run_of_foldlM .eight 0 (fun _ _ => 0) (fun _ _ => 0)
    (ℕ × Option (ℕ × Option ℕ × Bool)) (init (some fun _ => []) 1)
    [.connect, .done (.connectDone 0 (.failure 10061))]
    (fun (c : ChannelProcess) => (c.accepts.length,
      (next .eight 0 (fun _ _ => 0) (fun _ _ => 0) c .poll).map fun (c : ChannelProcess) =>
        (c.accepts.length, c.accepts[0]?.map AcceptOp.session, (c.sessions 0).socketOpen)))
    (0, some (1, some 0, true)) (by decide +kernel)
  obtain ⟨hnil, hc⟩ := Prod.mk.inj hc
  obtain ⟨c', hpoll, hc⟩ := Option.map_eq_some_iff.mp hc
  obtain ⟨hone, hc⟩ := Prod.mk.inj hc
  obtain ⟨hsession, hopen⟩ := Prod.mk.inj hc
  refine ⟨c, c', hrun, step_of_next _ _ _ _ hpoll, fun hclosed => ?_⟩
  obtain ⟨op, hop⟩ := List.length_eq_one_iff.mp hone
  have hleft : c.acceptsLeft .poll = [] := List.length_eq_zero_iff.mp hnil
  have hclosed' := hclosed op (by rw [hop, hleft, List.nil_append])
  rw [hop] at hsession
  have hzero : op.session = 0 := Option.some.inj hsession
  rw [hzero, hopen] at hclosed'
  cases hclosed'

end ChannelProcess

end HsCommon
