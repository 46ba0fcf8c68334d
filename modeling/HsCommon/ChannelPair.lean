import HsCommon.ChannelListening

/-!
# Two servers with a channel each

Each server connects to the other and listens once that has failed. A connect is
evaluated at some time between its start and its completion: it succeeds if the
other server has an accept outstanding then, which the connection takes. The calls of
`connect` and `poll`, the evaluations and the completions of both servers come in any
order.

Both may find that the other does not listen yet, and then both listen: a channel
that listens does not connect again.
-/

namespace HsCommon
open Transition Outcome ChannelProcess

variable {w : ULongWidth} {fuel : ℕ} {recvMem sendMem : ℕ → ℕ → UInt8}

/-- `verdict` has the results of the connects evaluated, by the closes of the socket before them;
`arrived` counts the connections for which no accept has completed yet. -/
structure Peer extends ChannelProcess where
  verdict : ℕ → Option Bool
  arrived : ℕ

abbrev Peers := Bool → Peer

inductive PeersEvent
  | act (side : Bool) (e : ChannelEvent)
  | evaluate (side : Bool) (k : ℕ)

namespace Peer

def init (eventHandler : Option EventHandler) (sessionId : ℕ) : Peer where
  toChannelProcess := .init eventHandler sessionId
  verdict _ := none
  arrived := 0

def AcceptOutstanding (p : Peer) : Prop := p.arrived < p.accepts.length

instance (p : Peer) : Decidable p.AcceptOutstanding :=
  inferInstanceAs (Decidable (p.arrived < p.accepts.length))

def verdictOf (p : Peer) (k : ℕ) : Option Bool :=
  match p.connects[k]? with
  | none => none
  | some op => p.verdict op.closes

def Allows (p : Peer) : ChannelEvent → Prop
  | .connect | .poll | .done (.waitDone _) | .done (.acceptDone _ (.failure _)) => True
  | .done (.acceptDone _ (.success _)) => 0 < p.arrived
  | .done (.connectDone k (.success _)) => p.verdictOf k = some true
  | .done (.connectDone k (.failure _)) => p.verdictOf k = some false
  | .listen | .done (.session ..) | .done (.listen _) | .done (.connect ..) => False

instance (p : Peer) : DecidablePred p.Allows
  | .connect | .poll | .done (.waitDone _) | .done (.acceptDone _ (.failure _)) => isTrue trivial
  | .done (.acceptDone _ (.success _)) => inferInstanceAs (Decidable (0 < p.arrived))
  | .done (.connectDone k (.success _)) =>
    inferInstanceAs (Decidable (p.verdictOf k = some true))
  | .done (.connectDone k (.failure _)) =>
    inferInstanceAs (Decidable (p.verdictOf k = some false))
  | .listen | .done (.session ..) | .done (.listen _) | .done (.connect ..) => isFalse id

def arrivedLeft (p : Peer) : ChannelEvent → ℕ
  | .done (.acceptDone _ (.success _)) => p.arrived - 1
  | _ => p.arrived

end Peer

namespace Peers

def init (eventHandler : Bool → Option EventHandler) (sessionId : Bool → ℕ) : Peers :=
  fun side => .init (eventHandler side) (sessionId side)

def Possible (s : Peers) : PeersEvent → Prop
  | .act side e => (s side).Allows e ∧ (s side).toChannelProcess.Possible e
  | .evaluate side k => k < (s side).connects.length ∧ (s side).verdictOf k = none

instance (s : Peers) : DecidablePred s.Possible
  | .act side e =>
    inferInstanceAs (Decidable ((s side).Allows e ∧ (s side).toChannelProcess.Possible e))
  | .evaluate side k =>
    inferInstanceAs (Decidable (k < (s side).connects.length ∧ (s side).verdictOf k = none))

def evaluate (s : Peers) (side : Bool) (k : ℕ) : Peers :=
  match (s side).connects[k]? with
  | none => s
  | some op =>
    let taken : Bool := (s !side).AcceptOutstanding
    let s := Function.update s side { s side with
      verdict := Function.update (s side).verdict op.closes (some taken) }
    Function.update s (!side) { s !side with
      arrived := (s !side).arrived + if taken then 1 else 0 }

section Exec
variable (w : ULongWidth) (fuel : ℕ) (recvMem sendMem : ℕ → ℕ → UInt8)

def exec (s : Peers) : PeersEvent → Except Fault Peers
  | .act side e => do
    let c ← (s side).toChannelProcess.exec w fuel recvMem sendMem e
    return Function.update s side { s side with
      toChannelProcess := c
      arrived := (s side).arrivedLeft e }
  | .evaluate side k => .ok (s.evaluate side k)

def Step (s : Peers) (e : PeersEvent) (s' : Peers) : Prop :=
  s.Possible e ∧ s.exec w fuel recvMem sendMem e = .ok s'

def next (s : Peers) (e : PeersEvent) : Option Peers :=
  if s.Possible e then (s.exec w fuel recvMem sendMem e).toOption else none

theorem step_of_next {s s' : Peers} {e : PeersEvent}
    (h : next w fuel recvMem sendMem s e = some s') : Step w fuel recvMem sendMem s e s' :=
  possible_of_next h

end Exec

end Peers

namespace ChannelProcess
variable {c c' : ChannelProcess}

/-- The channel listens, its session is not connected, and it has no connect outstanding. -/
structure Waiting (c : ChannelProcess) : Prop where
  listening : c.channel.state = .listening
  unconnected : ¬ c.SessionConnected
  connects : c.connects = []

structure Sane (c : ChannelProcess) : Prop where
  own : Own c
  ready : c.channel.state = .connecting → c.Ready

def Settles (c : ChannelProcess) : ChannelEvent → Prop
  | .poll => c.channel.state = .connecting ∧ c.isConnectedFailed = true ∧ ¬ c.SessionConnected ∧
      c.connects = []
  | .done (.connectDone _ (.failure _)) => c.channel.state = .listening ∧ ¬ c.SessionConnected ∧
      c.connects.length = 1
  | _ => False

theorem start_sessionConnected {a : HSAcceptor} (ha : Accepting c a) :
    (c.accepting a (a.start recvMem sendMem c.toIoService)).SessionConnected ↔
      c.SessionConnected := by
  obtain ⟨i, -, -, hp⟩ | ⟨i, s, count, hgiven, hp⟩ :=
    HSAcceptor.start_local recvMem sendMem c.toIoService ha.nonzero
  · rw [hp]
    rfl
  · rw [ha.sessionId] at hgiven hp
    refine iff_of_false ?_ ?_
    · rintro ⟨j, hj, hconn⟩
      simp only [accepting, hp, Function.update_self, Option.some.injEq] at hj hconn
      rw [← hj, Function.update_self, hgiven.not_connected] at hconn
      cases hconn
    · rintro ⟨j, hj, hconn⟩
      cases hgiven with
      | kept hi hnot =>
        rw [← Option.some.inj (hi.symm.trans hj), hnot] at hconn
        cases hconn
      | made hnone =>
        rw [hnone] at hj
        cases hj

theorem start_connects {a : HSAcceptor} (hid : a.sessionId ≠ 0) (p : IoService) :
    (a.start recvMem sendMem p).connects = p.connects := by
  obtain ⟨i, -, -, hp⟩ | ⟨i, s, count, -, hp⟩ := HSAcceptor.start_local recvMem sendMem p hid <;>
    rw [hp]

theorem Sane.listen_ready (h : Sane c) :
    (c.listen recvMem sendMem).channel.state = .connecting →
      (c.listen recvMem sendMem).Ready := by
  obtain ⟨-, hc⟩ | ⟨a, -, -, hc⟩ := h.own.listen_cases recvMem sendMem
  · rw [hc]
    exact h.ready
  · rw [hc]
    intro hstate
    cases hstate

theorem Sane.step (h : Sane c) {e : ChannelEvent} (hs : Step w fuel recvMem sendMem c e c') :
    Sane c' := by
  refine ⟨h.own.step hs, ?_⟩
  cases e with
  | listen =>
    rw [← Except.ok.inj hs.2]
    exact h.listen_ready
  | connect =>
    obtain rfl | ⟨i, s, count, hready, -, rfl⟩ := connect_cases hs.2
    · exact h.ready
    · exact fun _ => hready
  | poll =>
    rw [← Except.ok.inj hs.2]
    obtain ⟨-, -, hc⟩ | ⟨-, hc⟩ := poll_cases c recvMem sendMem
    · rw [hc]
      exact h.listen_ready
    · rw [hc]
      exact h.ready
  | done e =>
    obtain ⟨p, hd, rfl⟩ := step_done hs
    exact h.ready

theorem Own.done_waiting (h : Own c) {e : ServiceEvent} {p : IoService} {succeeded : Bool}
    (hsession : ∀ i e', e ≠ .session i e')
    (hd : IoService.Done w fuel recvMem sendMem c.toIoService e p) :
    Waiting { c with toIoService := p, succeeded := succeeded } →
      Waiting c ∨ Settles c (.done e) := by
  cases hd with
  | @accepted k u op s hop hs =>
    have hmem := List.mem_of_getElem? hop
    have hlocal := (h.accepts op hmem).2
    obtain ⟨-, ha, -⟩ := @Own.restarted recvMem sendMem _ h _ hmem
      ({ c.toIoService with accepts := c.accepts.eraseIdx k }.put op.session
        (c.readCloses op.session) s) rfl rfl (fun op hop => List.mem_of_mem_eraseIdx hop) rfl rfl
    intro hwait
    refine absurd ((@start_sessionConnected recvMem sendMem _ _ ha).mpr ?_) hwait.unconnected
    refine ⟨op.session, hlocal, ?_⟩
    simp only [IoService.put, Function.update_self]
    exact (acceptedBy_socket hs).1
  | @refused k v op hop =>
    have hmem := List.mem_of_getElem? hop
    obtain ⟨-, ha, -⟩ := @Own.restarted recvMem sendMem _ h _ hmem
      { c.toIoService with accepts := c.accepts.eraseIdx k } rfl rfl
      (fun op hop => List.mem_of_mem_eraseIdx hop) rfl rfl
    intro hwait
    have hconn := @start_sessionConnected recvMem sendMem _ _ ha
    refine Or.inl ⟨hwait.listening, fun hc => hwait.unconnected (hconn.mpr hc), ?_⟩
    exact (@start_connects recvMem sendMem _ ha.nonzero
      { c.toIoService with accepts := c.accepts.eraseIdx k }).symm.trans hwait.connects
  | @connected k u op s hop hs =>
    intro hwait
    refine absurd ⟨op.session, (h.connects op (List.mem_of_getElem? hop)).2, ?_⟩ hwait.unconnected
    simp only [IoService.put, Function.update_self]
    exact connected_isConnected hs
  | @failed k v op hop =>
    intro hwait
    have hlt := (List.getElem?_eq_some_iff.mp hop).1
    have hnil := congrArg List.length hwait.connects
    simp only [HSConnector.handleTimeout, List.length_eraseIdx, if_pos hlt, List.length_nil] at hnil
    exact Or.inr ⟨hwait.listening, hwait.unconnected, by omega⟩
  | waited hop => exact fun hwait => Or.inl ⟨hwait.listening, hwait.unconnected, hwait.connects⟩
  | session hi hposs hs => exact absurd rfl (hsession _ _)

theorem Own.listen_waiting (h : Own c) (hready : c.Ready) :
    Waiting (c.listen recvMem sendMem) ↔ ¬ c.SessionConnected ∧ c.connects = [] := by
  obtain ⟨hnot, -⟩ | ⟨a, -, ha, hc⟩ := h.listen_cases recvMem sendMem
  · exact absurd hready hnot
  · have hconn := @start_sessionConnected recvMem sendMem _ _ ha
    have hconnects := @start_connects recvMem sendMem _ ha.nonzero c.toIoService
    rw [hc]
    constructor
    · intro hwait
      exact ⟨fun hsc => hwait.unconnected (hconn.mpr hsc), hconnects.symm.trans hwait.connects⟩
    · intro hidle
      exact ⟨rfl, fun hsc => hidle.1 (hconn.mp hsc), hconnects.trans hidle.2⟩

theorem Sane.waiting (h : Sane c) {e : ChannelEvent} (hlisten : e ≠ .listen)
    (hsession : ∀ i e', e ≠ .done (.session i e')) (hs : Step w fuel recvMem sendMem c e c')
    (hwait : Waiting c') : Waiting c ∨ Settles c e := by
  cases e with
  | listen => exact absurd rfl hlisten
  | connect =>
    obtain rfl | ⟨i, s, count, -, -, rfl⟩ := connect_cases hs.2
    · exact Or.inl hwait
    · cases hwait.listening
  | poll =>
    rw [← Except.ok.inj hs.2] at hwait
    obtain ⟨hstate, hfailed, hc⟩ | ⟨-, hc⟩ := poll_cases c recvMem sendMem
    · rw [hc, h.own.listen_waiting (h.ready hstate)] at hwait
      exact Or.inr ⟨hstate, hfailed, hwait⟩
    · exact Or.inl (hc ▸ hwait)
  | done e =>
    obtain ⟨p, hd, rfl⟩ := step_done hs
    exact h.own.done_waiting (fun i e' he => hsession i e' (congrArg _ he)) hd hwait

theorem Sane.waiting_of_settles (h : Sane c) {e : ChannelEvent}
    (hs : Step w fuel recvMem sendMem c e c') (hsettles : Settles c e) : Waiting c' := by
  cases e with
  | listen => exact hsettles.elim
  | connect => exact hsettles.elim
  | poll =>
    obtain ⟨hstate, hfailed, hidle⟩ := hsettles
    rw [← Except.ok.inj hs.2]
    obtain ⟨-, -, hc⟩ | ⟨hfall, -⟩ := poll_cases c recvMem sendMem
    · rw [hc]
      exact (h.own.listen_waiting (h.ready hstate)).mpr hidle
    · exact absurd ⟨hstate, hfailed⟩ hfall
  | done e =>
    obtain ⟨p, hd, rfl⟩ := step_done hs
    cases hd with
    | @failed k v op hop =>
      obtain ⟨hlistening, hunconnected, hone⟩ := hsettles
      have hlt := (List.getElem?_eq_some_iff.mp hop).1
      refine ⟨hlistening, hunconnected, List.length_eq_zero_iff.mp ?_⟩
      simp only [HSConnector.handleTimeout, List.length_eraseIdx, if_pos hlt]
      omega
    | _ => exact hsettles.elim

end ChannelProcess

namespace Peers
variable {s s' : Peers}

def Stuck (s : Peers) : Prop := ∀ side, Waiting (s side).toChannelProcess

/-- No channel comes to wait, by falling back or because its last connect fails, while the other
one waits. -/
def Staggered (s : Peers) : PeersEvent → Prop
  | .act side e => Waiting (s !side).toChannelProcess → ¬ Settles (s side).toChannelProcess e
  | .evaluate .. => True

theorem forall_side {P : Bool → Prop} (side : Bool) : (∀ b, P b) ↔ P side ∧ P !side := by
  cases side
  · exact Bool.forall_bool
  · exact Bool.forall_bool.trans and_comm

theorem evaluate_channel (s : Peers) (side : Bool) (k : ℕ) (b : Bool) :
    (s.evaluate side k b).toChannelProcess = (s b).toChannelProcess := by
  have hupdate : ∀ (t : Peers) (b' : Bool) (p : Peer),
      p.toChannelProcess = (s b').toChannelProcess →
      (∀ b, (t b).toChannelProcess = (s b).toChannelProcess) →
      ∀ b, (Function.update t b' p b).toChannelProcess = (s b).toChannelProcess := by
    intro t b' p hp ht b
    by_cases hb : b = b'
    · rw [hb, Function.update_self, hp]
    · rw [Function.update_of_ne hb, ht]
  cases hop : (s side).connects[k]? with
  | none => simp only [evaluate, hop]
  | some op =>
    simp only [evaluate, hop]
    have hside := hupdate s side { s side with
      verdict := Function.update (s side).verdict op.closes
        (some (decide (s !side).AcceptOutstanding)) } rfl fun _ => rfl
    refine hupdate _ _ _ ?_ hside b
    exact hside _

theorem step_act {side : Bool} {e : ChannelEvent}
    (hs : Step w fuel recvMem sendMem s (.act side e) s') :
    ChannelProcess.Step w fuel recvMem sendMem (s side).toChannelProcess e
        (s' side).toChannelProcess ∧ s' (!side) = s (!side) ∧ (s side).Allows e := by
  obtain ⟨⟨hallows, hposs⟩, hexec⟩ := hs
  simp only [exec] at hexec
  cases hc : (s side).toChannelProcess.exec w fuel recvMem sendMem e with
  | error f =>
    rw [hc] at hexec
    cases hexec
  | ok c =>
    rw [hc] at hexec
    rw [← Except.ok.inj hexec]
    refine ⟨⟨hposs, ?_⟩, Function.update_of_ne (by simp) _ _, hallows⟩
    rw [Function.update_self]
    exact hc

theorem sane_step (h : ∀ side, Sane (s side).toChannelProcess) {e : PeersEvent}
    (hs : Step w fuel recvMem sendMem s e s') : ∀ side, Sane (s' side).toChannelProcess := by
  cases e with
  | act side e =>
    obtain ⟨hstep, hother, -⟩ := step_act hs
    refine (forall_side side).mpr ⟨(h side).step hstep, ?_⟩
    rw [hother]
    exact h !side
  | evaluate side k =>
    intro b
    rw [← Except.ok.inj hs.2, evaluate_channel]
    exact h b

theorem stuck_iff (h : ∀ side, Sane (s side).toChannelProcess) (hnot : ¬ Stuck s) {e : PeersEvent}
    (hs : Step w fuel recvMem sendMem s e s') : ¬ Stuck s' ↔ Staggered s e := by
  cases e with
  | act side e =>
    obtain ⟨hstep, hother, hallows⟩ := step_act hs
    have hlisten : e ≠ .listen := by
      rintro rfl
      exact hallows
    have hsession : ∀ i e', e ≠ .done (.session i e') := by
      rintro i e' rfl
      exact hallows
    rw [Stuck, forall_side side, hother]
    constructor
    · intro hstuck hwait hsettles
      exact hstuck ⟨(h side).waiting_of_settles hstep hsettles, hwait⟩
    · intro hstaggered hstuck
      obtain ⟨hwait, hwait'⟩ := hstuck
      rcases (h side).waiting hlisten hsession hstep hwait with hbefore | hsettles
      · exact hnot ((forall_side side).mpr ⟨hbefore, hwait'⟩)
      · exact hstaggered hwait' hsettles
  | evaluate side k =>
    refine iff_of_true (fun hstuck => hnot fun b => ?_) trivial
    have hb := hstuck b
    rwa [← Except.ok.inj hs.2, evaluate_channel] at hb

theorem sane_init (eventHandler : Bool → Option EventHandler) (sessionId : Bool → ℕ)
    (side : Bool) : Sane (init eventHandler sessionId side).toChannelProcess :=
  ⟨own_init _ _, fun hstate => by cases hstate⟩

theorem not_stuck_init (eventHandler : Bool → Option EventHandler) (sessionId : Bool → ℕ) :
    ¬ Stuck (init eventHandler sessionId) := by
  intro hstuck
  cases (hstuck true).listening

/-- The runs in which the two servers never wait for each other are the staggered runs. -/
theorem never_stuck (w : ULongWidth) (fuel : ℕ) (recvMem sendMem : ℕ → ℕ → UInt8)
    (eventHandler : Bool → Option EventHandler) (sessionId : Bool → ℕ) (es : List PeersEvent)
    (s : Peers) :
    Run (Keeping (fun s => ¬ Stuck s) (Step w fuel recvMem sendMem)) (init eventHandler sessionId)
        es s ↔
      Run (Guarded Staggered (Step w fuel recvMem sendMem)) (init eventHandler sessionId) es s := by
  have h₀ := And.intro (sane_init eventHandler sessionId) (not_stuck_init eventHandler sessionId)
  refine Run.guarded_iff (I := fun s => (∀ side, Sane (s side).toChannelProcess) ∧ ¬ Stuck s) h₀ ?_
  intro s e s' hI hs
  obtain ⟨hsane, hnot⟩ := hI
  have hiff := stuck_iff hsane hnot hs
  exact ⟨hiff, fun hstaggered => ⟨sane_step hsane hs, hiff.mpr hstaggered⟩⟩

def bothStart : List PeersEvent :=
  [.act false .connect, .act true .connect, .evaluate false 0, .evaluate true 0,
    .act false (.done (.connectDone 0 (.failure 10061))),
    .act true (.done (.connectDone 0 (.failure 10061))), .act false .poll, .act true .poll]

theorem bothStart_stuck :
    ∃ s, Run (Step .eight 0 (fun _ _ => 0) fun _ _ => 0)
      (init (fun _ => some fun _ => []) fun _ => 1) bothStart s ∧ Stuck s := by
  obtain ⟨s, hrun, hs⟩ := @Run.of_observed _ _ (Step .eight 0 (fun _ _ => 0) fun _ _ => 0)
    (init (fun _ => some fun _ => []) fun _ => 1) _ _
    (fun _ _ _ => step_of_next .eight 0 (fun _ _ => 0) fun _ _ => 0) bothStart
    (fun s => [false, true].map fun side => ((s side).channel.state,
      (s side).localSessions (s side).channel.sessionId, ((s side).sessions 0).isConnected,
      (s side).connects.length))
    [(.listening, some 0, false, 0), (.listening, some 0, false, 0)] (by decide +kernel)
  refine ⟨s, hrun, ?_⟩
  have hwaiting : ∀ side, ((s side).channel.state,
      (s side).localSessions (s side).channel.sessionId, ((s side).sessions 0).isConnected,
      (s side).connects.length) = (ChannelState.listening, some 0, false, 0) := by
    obtain ⟨hfalse, hrest⟩ := List.cons.inj hs
    obtain ⟨htrue, -⟩ := List.cons.inj hrest
    exact Bool.forall_bool.mpr ⟨hfalse, htrue⟩
  intro side
  have hside := hwaiting side
  simp only [Prod.mk.injEq] at hside
  obtain ⟨hlisten, hlocal, hlost, hnil⟩ := hside
  refine ⟨hlisten, ?_, List.length_eq_zero_iff.mp hnil⟩
  rintro ⟨i, hi, hconn⟩
  rw [← Option.some.inj (hlocal.symm.trans hi), hlost] at hconn
  cases hconn

end Peers

end HsCommon
