import HsCommon.ServiceRuns

/-!
# hs_channel.h

A channel connects to its peer, and listens in place of that once the connect has
failed. It does both with the session the manager keeps under the id of the
channel. `poll` hands over to the io_service, which runs the handlers that are
ready: here each completion is an event of its own, in any order with the calls of
`poll`. A wait of the connect timer completes on time or because it is cancelled.

`latest` tells the connect started last from earlier ones, by the closes of the
socket before it, and `succeeded` whether its handler has run without an error.
-/

namespace HsCommon
open Transition Outcome

/-- `state_` 0, 1 and 2. -/
inductive ChannelState
  | initial
  | connecting
  | listening
  deriving DecidableEq

structure HSChannel where
  acceptor : Option HSAcceptor
  connector : Option ℕ
  eventHandler : Option EventHandler
  sessionId : ℕ
  state : ChannelState

/-- A process with one channel, whose connector is the connector 0 of the process. -/
structure ChannelProcess extends IoService where
  channel : HSChannel
  latest : Option ℕ
  succeeded : Bool

namespace ChannelProcess

def init (eventHandler : Option EventHandler) (sessionId : ℕ) : ChannelProcess where
  toIoService := .init
  channel := ⟨none, none, eventHandler, sessionId, .initial⟩
  latest := none
  succeeded := false

def Ready (c : ChannelProcess) : Prop :=
  ¬ (c.channel.sessionId = 0 ∨ c.channel.eventHandler.isNone)

instance (c : ChannelProcess) : Decidable c.Ready :=
  inferInstanceAs (Decidable (¬ (c.channel.sessionId = 0 ∨ c.channel.eventHandler.isNone)))

section Calls
variable (recvMem sendMem : ℕ → ℕ → UInt8)

def listen (c : ChannelProcess) : ChannelProcess :=
  if ¬ c.Ready then c
  else
    let acceptor := c.channel.acceptor.getD ⟨c.channel.sessionId, c.channel.eventHandler⟩
    { c with
      toIoService := acceptor.start recvMem sendMem c.toIoService
      channel := { c.channel with acceptor := some acceptor, state := .listening } }

def connect (c : ChannelProcess) : Except Fault ChannelProcess :=
  if ¬ c.Ready then .ok c
  else do
    let connector := c.channel.connector.getD 0
    let p ← HSConnector.connect recvMem sendMem connector c.channel.sessionId
      c.channel.eventHandler c.toIoService
    return {
      toIoService := p
      channel := { c.channel with connector := some connector, state := .connecting }
      latest := p.connects.getLast?.map ConnectOp.closes
      succeeded := false }

def handleConnectFailed (c : ChannelProcess) : ChannelProcess := c.listen recvMem sendMem

def isConnectedFailed (c : ChannelProcess) : Bool :=
  match c.channel.connector with
  | none => false
  | some k => c.connectedFailed k

def poll (c : ChannelProcess) : ChannelProcess :=
  if c.channel.state = .connecting ∧ c.channel.connector.isSome then
    if c.isConnectedFailed then c.handleConnectFailed recvMem sendMem else c
  else c

end Calls

end ChannelProcess

inductive ChannelEvent
  | listen
  | connect
  | poll
  | done (e : ServiceEvent)

def ServiceEvent.IsDone : ServiceEvent → Prop
  | .listen _ | .connect .. => False
  | .acceptDone .. | .connectDone .. | .waitDone _ | .session .. => True

instance : DecidablePred ServiceEvent.IsDone
  | .listen _ | .connect .. => isFalse id
  | .acceptDone .. | .connectDone .. | .waitDone _ | .session .. => isTrue trivial

namespace ChannelProcess

def IsLatest (c : ChannelProcess) (k : ℕ) : Prop :=
  c.latest.isSome ∧ c.connects[k]?.map ConnectOp.closes = c.latest

instance (c : ChannelProcess) : DecidablePred c.IsLatest :=
  fun k => inferInstanceAs
    (Decidable (c.latest.isSome ∧ c.connects[k]?.map ConnectOp.closes = c.latest))

def Possible (c : ChannelProcess) : ChannelEvent → Prop
  | .listen | .connect | .poll => True
  | .done e => e.IsDone ∧ c.toIoService.Possible e

instance (c : ChannelProcess) : DecidablePred c.Possible
  | .listen | .connect | .poll => isTrue trivial
  | .done e => inferInstanceAs (Decidable (e.IsDone ∧ c.toIoService.Possible e))

def succeeds (c : ChannelProcess) : ServiceEvent → Bool
  | .connectDone k (.success _) => c.succeeded || c.IsLatest k
  | _ => c.succeeded

section Exec
variable (w : ULongWidth) (fuel : ℕ) (recvMem sendMem : ℕ → ℕ → UInt8)

def exec (c : ChannelProcess) : ChannelEvent → Except Fault ChannelProcess
  | .listen => .ok (c.listen recvMem sendMem)
  | .connect => c.connect recvMem sendMem
  | .poll => .ok (c.poll recvMem sendMem)
  | .done e => do
    let p ← c.toIoService.exec w fuel recvMem sendMem e
    return { c with toIoService := p, succeeded := c.succeeds e }

def Step (c : ChannelProcess) (e : ChannelEvent) (c' : ChannelProcess) : Prop :=
  c.Possible e ∧ c.exec w fuel recvMem sendMem e = .ok c'

def next (c : ChannelProcess) (e : ChannelEvent) : Option ChannelProcess :=
  if c.Possible e then (c.exec w fuel recvMem sendMem e).toOption else none

theorem step_of_next {c c' : ChannelProcess} {e : ChannelEvent}
    (h : next w fuel recvMem sendMem c e = some c') : Step w fuel recvMem sendMem c e c' :=
  possible_of_next h

theorem run_of_foldlM {α : Type*} {c₀ : ChannelProcess} {es : List ChannelEvent}
    {f : ChannelProcess → α} {v : α}
    (h : (es.foldlM (next w fuel recvMem sendMem) c₀).map f = some v) :
    ∃ c, Run (Step w fuel recvMem sendMem) c₀ es c ∧ f c = v :=
  Run.of_observed (fun _ _ _ => step_of_next w fuel recvMem sendMem) h

end Exec

end ChannelProcess

namespace IoService

inductive Done (w : ULongWidth) (fuel : ℕ) (recvMem sendMem : ℕ → ℕ → UInt8) (p : IoService) :
    ServiceEvent → IoService → Prop
  | accepted {k : ℕ} {u : Unit} {op : AcceptOp} {s : HSSession} : p.accepts[k]? = some op →
      (p.sessions op.session).acceptedBy w op.acceptor.eventHandler op.closes = .ok s →
      Done w fuel recvMem sendMem p (.acceptDone k (.success u))
        (op.acceptor.start recvMem sendMem
          ({ p with accepts := p.accepts.eraseIdx k }.put op.session (p.readCloses op.session) s))
  | refused {k : ℕ} {v : ℤ} {op : AcceptOp} : p.accepts[k]? = some op →
      Done w fuel recvMem sendMem p (.acceptDone k (.failure v))
        (op.acceptor.start recvMem sendMem { p with accepts := p.accepts.eraseIdx k })
  | connected {k : ℕ} {u : Unit} {op : ConnectOp} {s : HSSession} : p.connects[k]? = some op →
      (p.sessions op.session).connected w = .ok s →
      Done w fuel recvMem sendMem p (.connectDone k (.success u))
        ({ p with connects := p.connects.eraseIdx k }.put op.session (p.readCloses op.session) s)
  | failed {k : ℕ} {v : ℤ} {op : ConnectOp} : p.connects[k]? = some op →
      Done w fuel recvMem sendMem p (.connectDone k (.failure v))
        (HSConnector.handleTimeout op.connector { p with connects := p.connects.eraseIdx k })
  | waited {k : ℕ} {op : ConnectOp} : p.waits[k]? = some op →
      Done w fuel recvMem sendMem p (.waitDone k)
        (HSConnector.handleTimeout op.connector { p with waits := p.waits.eraseIdx k })
  | session {i : ℕ} {e : SessionEvent} {m : Option ℕ} {s : HSSession} : i < p.count →
      (p.sessions i).Possible e → (p.sessions i).exec w fuel p.maxReadLength e = .ok (m, s) →
      Done w fuel recvMem sendMem p (.session i e)
        { p.put i (e.readsLeft (p.readCloses i)) s with maxReadLength := m }

variable {w : ULongWidth} {fuel : ℕ} {recvMem sendMem : ℕ → ℕ → UInt8} {p p' : IoService}

theorem done_of_exec {e : ServiceEvent} (hdone : e.IsDone) (hposs : p.Possible e)
    (hexec : p.exec w fuel recvMem sendMem e = .ok p') : Done w fuel recvMem sendMem p e p' := by
  cases e with
  | listen a => exact hdone.elim
  | connect connector sessionId eventHandler => exact hdone.elim
  | acceptDone k result =>
    have hop : p.accepts[k]? = some p.accepts[k] := List.getElem?_eq_getElem hposs
    simp only [exec, hop] at hexec
    cases result with
    | failure v =>
      rw [← Except.ok.inj hexec]
      exact .refused hop
    | success u =>
      simp only [HSAcceptor.handleAccept] at hexec
      cases hs : (p.sessions p.accepts[k].session).acceptedBy w p.accepts[k].acceptor.eventHandler
          p.accepts[k].closes with
      | error f =>
        rw [hs] at hexec
        cases hexec
      | ok s =>
        rw [hs] at hexec
        rw [← Except.ok.inj hexec]
        exact .accepted hop hs
  | connectDone k result =>
    have hop : p.connects[k]? = some p.connects[k] := List.getElem?_eq_getElem hposs
    simp only [exec, hop] at hexec
    cases result with
    | failure v =>
      rw [← Except.ok.inj hexec]
      exact .failed hop
    | success u =>
      simp only [HSConnector.handleConnect] at hexec
      cases hs : (p.sessions p.connects[k].session).connected w with
      | error f =>
        rw [hs] at hexec
        cases hexec
      | ok s =>
        rw [hs] at hexec
        rw [← Except.ok.inj hexec]
        exact .connected hop hs
  | waitDone k =>
    have hop : p.waits[k]? = some p.waits[k] := List.getElem?_eq_getElem hposs
    simp only [exec, hop] at hexec
    rw [← Except.ok.inj hexec]
    exact .waited hop
  | session i e =>
    simp only [exec] at hexec
    cases hs : (p.sessions i).exec w fuel p.maxReadLength e with
    | error f =>
      rw [hs] at hexec
      cases hexec
    | ok r =>
      rw [hs] at hexec
      rw [← Except.ok.inj hexec]
      exact .session hposs.1 hposs.2 hs

end IoService

namespace ChannelProcess
variable {w : ULongWidth} {fuel : ℕ} {recvMem sendMem : ℕ → ℕ → UInt8} {c c' : ChannelProcess}

structure Accepting (c : ChannelProcess) (a : HSAcceptor) : Prop where
  sessionId : a.sessionId = c.channel.sessionId
  nonzero : a.sessionId ≠ 0
  same : ∀ a', c.channel.acceptor = some a' → a' = a

def accepting (c : ChannelProcess) (a : HSAcceptor) (p : IoService) : ChannelProcess :=
  { c with
    toIoService := p
    channel := { c.channel with acceptor := some a, state := .listening } }

/-- All operations outstanding are those of the channel, and there is no other session than its
own. -/
structure Own (c : ChannelProcess) : Prop where
  acceptor : ∀ a, c.channel.acceptor = some a → Accepting c a
  accepts : ∀ op ∈ c.accepts, c.channel.acceptor = some op.acceptor ∧
    c.localSessions c.channel.sessionId = some op.session
  connects : ∀ op ∈ c.connects, c.channel.connector = some op.connector ∧
    c.localSessions c.channel.sessionId = some op.session
  waits : ∀ op ∈ c.waits, c.channel.connector = some op.connector
  only : ∀ i < c.count, c.localSessions c.channel.sessionId = some i

theorem own_init (eventHandler : Option EventHandler) (sessionId : ℕ) :
    Own (init eventHandler sessionId) where
  acceptor a ha := by cases ha
  accepts op hop := by cases hop
  connects op hop := by cases hop
  waits op hop := by cases hop
  only i hi := by cases hi

theorem Own.listen_cases (h : Own c) (recvMem sendMem : ℕ → ℕ → UInt8) :
    ¬ c.Ready ∧ c.listen recvMem sendMem = c ∨ ∃ a, c.Ready ∧ Accepting c a ∧
      c.listen recvMem sendMem = c.accepting a (a.start recvMem sendMem c.toIoService) := by
  rw [listen]
  split_ifs with hready
  · refine Or.inr ⟨_, hready, ?_, rfl⟩
    cases ha : c.channel.acceptor with
    | some a => exact h.acceptor a ha
    | none =>
      exact ⟨rfl, fun hid => hready (Or.inl hid), fun a' ha' => by rw [ha] at ha'; cases ha'⟩
  · exact Or.inl ⟨hready, rfl⟩

theorem isSome_of_failed (h : c.isConnectedFailed = true) : c.channel.connector.isSome := by
  rw [isConnectedFailed] at h
  cases hk : c.channel.connector with
  | none =>
    rw [hk] at h
    cases h
  | some k => rfl

theorem poll_cases (c : ChannelProcess) (recvMem sendMem : ℕ → ℕ → UInt8) :
    c.channel.state = .connecting ∧ c.isConnectedFailed = true ∧
      c.poll recvMem sendMem = c.listen recvMem sendMem ∨
    ¬ (c.channel.state = .connecting ∧ c.isConnectedFailed = true) ∧
      c.poll recvMem sendMem = c := by
  rw [poll]
  by_cases hfall : c.channel.state = .connecting ∧ c.isConnectedFailed = true
  · rw [if_pos ⟨hfall.1, isSome_of_failed hfall.2⟩, if_pos hfall.2]
    exact Or.inl ⟨hfall.1, hfall.2, rfl⟩
  · refine Or.inr ⟨hfall, ?_⟩
    split_ifs with hstate hfailed
    · exact absurd ⟨hstate.1, hfailed⟩ hfall
    · rfl
    · rfl

theorem Own.given (h : Own c) {i count : ℕ} {s : HSSession}
    (hgiven : Given recvMem sendMem c.toIoService c.channel.sessionId i s count) :
    (∀ j, c.localSessions c.channel.sessionId = some j → i = j) ∧ ∀ j < count, j = i := by
  cases hgiven with
  | kept hi hconn =>
    have hsame : ∀ j, c.localSessions c.channel.sessionId = some j → i = j :=
      fun j hj => Option.some.inj (hi.symm.trans hj)
    exact ⟨hsame, fun j hj => (hsame j (h.only j hj)).symm⟩
  | made hnone =>
    have hzero : c.count = 0 := by
      by_contra hne
      rw [h.only 0 (Nat.pos_of_ne_zero hne)] at hnone
      cases hnone
    refine ⟨fun j hj => ?_, fun j hj => by omega⟩
    rw [hj] at hnone
    cases hnone

theorem Own.start (h : Own c) {a : HSAcceptor} (ha : Accepting c a) :
    Own (c.accepting a (a.start recvMem sendMem c.toIoService)) := by
  have hacceptor : ∀ a', some a = some a' →
      Accepting (c.accepting a (a.start recvMem sendMem c.toIoService)) a' := by
    intro a' ha'
    obtain rfl := Option.some.inj ha'
    exact ⟨ha.sessionId, ha.nonzero, fun b hb => (Option.some.inj hb).symm⟩
  have hold : ∀ op ∈ c.accepts, some a = some op.acceptor :=
    fun op hop => congrArg some (ha.same _ (h.accepts op hop).1).symm
  obtain ⟨i, -, -, hp⟩ | ⟨i, s, count, hgiven, hp⟩ :=
    HSAcceptor.start_local recvMem sendMem c.toIoService ha.nonzero
  · rw [hp] at hacceptor ⊢
    exact ⟨hacceptor, fun op hop => ⟨hold op hop, (h.accepts op hop).2⟩, h.connects, h.waits,
      h.only⟩
  · rw [ha.sessionId] at hgiven
    obtain ⟨hsame, honly⟩ := h.given hgiven
    have hself : Function.update c.localSessions a.sessionId (some i) c.channel.sessionId =
        some i := by
      rw [ha.sessionId, Function.update_self]
    rw [hp] at hacceptor ⊢
    refine ⟨hacceptor, fun op hop => ?_, fun op hop => ?_, h.waits, fun j hj => ?_⟩
    · rcases List.mem_append.mp hop with hop' | hop'
      · rw [← hsame _ (h.accepts op hop').2]
        exact ⟨hold op hop', hself⟩
      · obtain rfl := List.mem_singleton.mp hop'
        exact ⟨rfl, hself⟩
    · rw [← hsame _ (h.connects op hop).2]
      exact ⟨(h.connects op hop).1, hself⟩
    · rw [honly j hj]
      exact hself

def dialing (c : ChannelProcess) (i : ℕ) (s : HSSession) (count : ℕ) : ChannelProcess where
  toIoService := { c.toIoService with
    sessions := Function.update c.sessions i
      { s.clear with socketOpen := true, eventHandler := c.channel.eventHandler }
    count := count
    localSessions := Function.update c.localSessions c.channel.sessionId (some i)
    connectedFailed := Function.update c.connectedFailed (c.channel.connector.getD 0) false
    connects := c.connects ++ [⟨c.channel.connector.getD 0, i, s.closes + 1⟩]
    waits := c.waits ++ [⟨c.channel.connector.getD 0, i, s.closes + 1⟩]
    reusedCloses := Function.update c.reusedCloses i (s.closes + 1)
    connectorOf := Function.update c.connectorOf i (some (c.channel.connector.getD 0)) }
  channel := { c.channel with
    connector := some (c.channel.connector.getD 0)
    state := .connecting }
  latest := some (s.closes + 1)
  succeeded := false

theorem connect_cases (h : c.connect recvMem sendMem = .ok c') :
    c' = c ∨ ∃ i s count, c.Ready ∧
      Given recvMem sendMem c.toIoService c.channel.sessionId i s count ∧
        c' = c.dialing i s count := by
  rw [connect] at h
  split_ifs at h with hready
  swap
  · exact Or.inl (Except.ok.inj h).symm
  · dsimp only at h
    cases hp : HSConnector.connect recvMem sendMem (c.channel.connector.getD 0)
        c.channel.sessionId c.channel.eventHandler c.toIoService with
    | error f =>
      rw [hp] at h
      cases h
    | ok p =>
      obtain ⟨i, s, count, hgiven, rfl⟩ :=
        HSConnector.connect_local recvMem sendMem c.toIoService hp
      rw [hp] at h
      refine Or.inr ⟨i, s, count, hready, hgiven, (Except.ok.inj h).symm.trans ?_⟩
      simp only [List.getLast?_concat, Option.map_some, dialing]

theorem Own.dialing (h : Own c) {i count : ℕ} {s : HSSession}
    (hgiven : Given recvMem sendMem c.toIoService c.channel.sessionId i s count) :
    Own (c.dialing i s count) := by
  obtain ⟨hsame, honly⟩ := h.given hgiven
  have hself : (c.dialing i s count).localSessions (c.dialing i s count).channel.sessionId =
      some i := Function.update_self _ _ _
  have hold : ∀ k, c.channel.connector = some k → (c.dialing i s count).channel.connector =
      some k := by
    intro k hk
    simp only [ChannelProcess.dialing, hk, Option.getD_some]
  refine ⟨fun a ha => ?_, fun op hop => ?_, fun op hop => ?_, fun op hop => ?_, fun j hj => ?_⟩
  · exact ⟨(h.acceptor a ha).sessionId, (h.acceptor a ha).nonzero, (h.acceptor a ha).same⟩
  · rw [hself, hsame _ (h.accepts op hop).2]
    exact ⟨(h.accepts op hop).1, rfl⟩
  · rcases List.mem_append.mp hop with hop' | hop'
    · rw [hself, hsame _ (h.connects op hop').2]
      exact ⟨hold _ (h.connects op hop').1, rfl⟩
    · obtain rfl := List.mem_singleton.mp hop'
      exact ⟨rfl, hself⟩
  · rcases List.mem_append.mp hop with hop' | hop'
    · exact hold _ (h.waits op hop')
    · obtain rfl := List.mem_singleton.mp hop'
      rfl
  · rw [hself, honly j hj]

theorem Own.of_same (h : Own c) (hacceptor : c'.channel.acceptor = c.channel.acceptor)
    (hconnector : c'.channel.connector = c.channel.connector)
    (hid : c'.channel.sessionId = c.channel.sessionId)
    (hlocal : c'.localSessions = c.localSessions) (hcount : c'.count = c.count)
    (haccepts : ∀ op ∈ c'.accepts, op ∈ c.accepts)
    (hconnects : ∀ op ∈ c'.connects, op ∈ c.connects)
    (hwaits : ∀ op ∈ c'.waits, op ∈ c.waits) : Own c' := by
  refine ⟨fun a ha => ?_, fun op hop => ?_, fun op hop => ?_, fun op hop => ?_, fun i hi => ?_⟩
  · have ha' := h.acceptor a (hacceptor ▸ ha)
    exact ⟨ha'.sessionId.trans hid.symm, ha'.nonzero, fun b hb => ha'.same b (hacceptor ▸ hb)⟩
  · rw [hacceptor, hlocal, hid]
    exact h.accepts op (haccepts op hop)
  · rw [hconnector, hlocal, hid]
    exact h.connects op (hconnects op hop)
  · rw [hconnector]
    exact h.waits op (hwaits op hop)
  · rw [hlocal, hid]
    exact h.only i (hcount ▸ hi)

theorem Own.listen (h : Own c) : Own (c.listen recvMem sendMem) := by
  obtain ⟨-, hc⟩ | ⟨a, -, ha, hc⟩ := h.listen_cases recvMem sendMem
  · rw [hc]
    exact h
  · rw [hc]
    exact h.start ha

theorem Own.restarted (h : Own c) {op : AcceptOp} (hop : op ∈ c.accepts) {p : IoService}
    (hlocal : p.localSessions = c.localSessions) (hcount : p.count = c.count)
    (haccepts : ∀ op ∈ p.accepts, op ∈ c.accepts) (hconnects : p.connects = c.connects)
    (hwaits : p.waits = c.waits) :
    Own { c with toIoService := p } ∧ Accepting { c with toIoService := p } op.acceptor ∧
      Own { c with toIoService := op.acceptor.start recvMem sendMem p } := by
  have hacceptor := (h.accepts op hop).1
  have ha := h.acceptor _ hacceptor
  have h₁ : Own { c with toIoService := p } := h.of_same rfl rfl rfl hlocal hcount haccepts
    (fun op hop => hconnects ▸ hop) fun op hop => hwaits ▸ hop
  have ha₁ : Accepting { c with toIoService := p } op.acceptor :=
    ⟨ha.sessionId, ha.nonzero, ha.same⟩
  have h₂ := @Own.start recvMem sendMem _ h₁ _ ha₁
  exact ⟨h₁, ha₁, h₂.of_same hacceptor rfl rfl rfl rfl (fun op hop => hop) (fun op hop => hop)
    fun op hop => hop⟩

end ChannelProcess

end HsCommon
