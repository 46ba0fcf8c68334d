import HsCommon.Session

/-!
# hs_sessionmgr.cpp, hs_acceptor.h, hs_connector.h

Session objects are numbered in the order they are made. The manager finds the
local ones by their id, and hands one out again as long as it is not connected.
Acceptors and connectors have operations of their own pending: accepts, connects,
and the waits of the connect timers, which end on time or when the timer is
cancelled.

`readCloses` has for each outstanding read the closes of the socket before it was
started, as the other operations have themselves; `reusedCloses` and `connectorOf`
tell when and by which connector a session was last handed out.
-/

namespace HsCommon

/-- `HSAcceptor::handle_accept` up to the next `start` of the acceptor. The accepted connection is
lost if the socket has been closed since the accept was started. -/
def HSSession.acceptedBy (w : ULongWidth) (eventHandler : Option EventHandler) (closes : ℕ)
    (s : HSSession) : Except Fault HSSession := do
  let s ← { s with
    socketOpen := s.socketOpen || s.closes = closes
    eventHandler := eventHandler }.connected w
  return s.start

structure HSSessionMgr where
  sessions : ℕ → HSSession
  count : ℕ
  localSessions : ℕ → Option ℕ

namespace HSSessionMgr

/-- `recvMem k` and `sendMem k` are what the blocks of the `k`-th session happen to contain. -/
def newSession (recvMem sendMem : ℕ → ℕ → UInt8) (recvBuffSize sendBuffSize : ℕ)
    (m : HSSessionMgr) : ℕ × HSSessionMgr :=
  (m.count, { m with
    sessions := Function.update m.sessions m.count
      (.new recvBuffSize sendBuffSize (recvMem m.count) (sendMem m.count))
    count := m.count + 1 })

def newLocalSession (recvMem sendMem : ℕ → ℕ → UInt8) (sid recvBuffSize sendBuffSize : ℕ)
    (m : HSSessionMgr) : Option ℕ × HSSessionMgr :=
  match m.localSessions sid with
  | some i => if (m.sessions i).isConnected then (none, m) else (some i, m)
  | none =>
    let (i, m) := m.newSession recvMem sendMem recvBuffSize sendBuffSize
    (some i, { m with localSessions := Function.update m.localSessions sid (some i) })

end HSSessionMgr

/-- `sessionId` 0 asks for a new session at every accept. -/
structure HSAcceptor where
  sessionId : ℕ
  eventHandler : Option EventHandler

structure AcceptOp where
  acceptor : HSAcceptor
  session : ℕ
  closes : ℕ

structure ConnectOp where
  connector : ℕ
  session : ℕ
  closes : ℕ

structure IoService extends HSSessionMgr where
  maxReadLength : Option ℕ
  connectedFailed : ℕ → Bool
  accepts : List AcceptOp
  connects : List ConnectOp
  waits : List ConnectOp
  readCloses : ℕ → List ℕ
  reusedCloses : ℕ → ℕ
  connectorOf : ℕ → Option ℕ

namespace IoService

def init : IoService where
  sessions _ := .new 0 0 (fun _ => 0) fun _ => 0
  count := 0
  localSessions _ := none
  maxReadLength := none
  connectedFailed _ := false
  accepts := []
  connects := []
  waits := []
  readCloses _ := []
  reusedCloses _ := 0
  connectorOf _ := none

/-- Session `i` becomes `s`; reads it has beyond those in `old` are new. -/
def put (i : ℕ) (old : List ℕ) (s : HSSession) (p : IoService) : IoService :=
  { p with
    sessions := Function.update p.sessions i s
    readCloses := Function.update p.readCloses i
      (old ++ List.replicate (s.reads.length - old.length) s.closes) }

end IoService

def HSAcceptor.start (recvMem sendMem : ℕ → ℕ → UInt8) (a : HSAcceptor) (p : IoService) :
    IoService :=
  let (session, m) :=
    if a.sessionId = 0 then
      let (i, m) := p.newSession recvMem sendMem clientSessionDataBufferDefaultSize
        clientSessionDataBufferDefaultSize
      (some i, m)
    else
      p.newLocalSession recvMem sendMem a.sessionId serverSessionDataBufferDefaultSize
        serverSessionDataBufferDefaultSize
  match session with
  | none => p
  | some i =>
    { p with
      toHSSessionMgr := m
      accepts := p.accepts ++ [⟨a, i, (m.sessions i).closes⟩]
      reusedCloses := Function.update p.reusedCloses i (m.sessions i).closes
      connectorOf := Function.update p.connectorOf i none }

def HSAcceptor.handleAccept (w : ULongWidth) (recvMem sendMem : ℕ → ℕ → UInt8) (op : AcceptOp)
    (result : Completion Unit) (p : IoService) : Except Fault IoService := do
  match result with
  | .success _ =>
    let s ← (p.sessions op.session).acceptedBy w op.acceptor.eventHandler op.closes
    return op.acceptor.start recvMem sendMem (p.put op.session (p.readCloses op.session) s)
  | .failure _ => return op.acceptor.start recvMem sendMem p

namespace HSConnector

def connect (recvMem sendMem : ℕ → ℕ → UInt8) (connector sessionId : ℕ)
    (eventHandler : Option EventHandler) (p : IoService) : Except Fault IoService :=
  match p.newLocalSession recvMem sendMem sessionId serverSessionDataBufferDefaultSize
      serverSessionDataBufferDefaultSize with
  | (none, _) => .error .nullPointer
  | (some i, m) =>
    if (m.sessions i).isConnected then .ok { p with toHSSessionMgr := m }
    else
      let s := (m.sessions i).clear
      .ok { p with
        sessions := Function.update m.sessions i
          { s with socketOpen := true, eventHandler := eventHandler }
        count := m.count
        localSessions := m.localSessions
        connectedFailed := Function.update p.connectedFailed connector false
        connects := p.connects ++ [⟨connector, i, s.closes⟩]
        waits := p.waits ++ [⟨connector, i, s.closes⟩]
        reusedCloses := Function.update p.reusedCloses i s.closes
        connectorOf := Function.update p.connectorOf i (some connector) }

def handleTimeout (connector : ℕ) (p : IoService) : IoService :=
  { p with connectedFailed := Function.update p.connectedFailed connector true }

def handleConnect (w : ULongWidth) (op : ConnectOp) (result : Completion Unit) (p : IoService) :
    Except Fault IoService :=
  match result with
  | .success _ => do
    let s ← (p.sessions op.session).connected w
    return p.put op.session (p.readCloses op.session) s
  | .failure _ => .ok (handleTimeout op.connector p)

end HSConnector

section Cases
variable (recvMem sendMem : ℕ → ℕ → UInt8) (p : IoService)

inductive Given (sid : ℕ) : ℕ → HSSession → ℕ → Prop
  | kept {i : ℕ} : p.localSessions sid = some i → (p.sessions i).isConnected = false →
      Given sid i (p.sessions i) p.count
  | made : p.localSessions sid = none →
      Given sid p.count (.new serverSessionDataBufferDefaultSize serverSessionDataBufferDefaultSize
        (recvMem p.count) (sendMem p.count)) (p.count + 1)

variable {recvMem sendMem p} in
theorem Given.not_connected {sid i count : ℕ} {s : HSSession}
    (h : Given recvMem sendMem p sid i s count) : s.isConnected = false := by
  cases h with
  | kept _ hconn => exact hconn
  | made _ => rfl

theorem HSAcceptor.start_local {a : HSAcceptor} (hid : a.sessionId ≠ 0) :
    (∃ i, p.localSessions a.sessionId = some i ∧ (p.sessions i).isConnected = true ∧
      a.start recvMem sendMem p = p) ∨
    ∃ i s count, Given recvMem sendMem p a.sessionId i s count ∧
      a.start recvMem sendMem p = { p with
        sessions := Function.update p.sessions i s
        count := count
        localSessions := Function.update p.localSessions a.sessionId (some i)
        accepts := p.accepts ++ [⟨a, i, s.closes⟩]
        reusedCloses := Function.update p.reusedCloses i s.closes
        connectorOf := Function.update p.connectorOf i none } := by
  cases hlocal : p.localSessions a.sessionId with
  | none =>
    refine Or.inr ⟨_, _, _, .made hlocal, ?_⟩
    simp only [start, if_neg hid, HSSessionMgr.newLocalSession, hlocal, HSSessionMgr.newSession,
      Function.update_self]
  | some i =>
    cases hconn : (p.sessions i).isConnected with
    | true =>
      refine Or.inl ⟨i, rfl, hconn, ?_⟩
      simp only [start, if_neg hid, HSSessionMgr.newLocalSession, hlocal, hconn, if_true]
    | false =>
      have hsame : Function.update p.localSessions a.sessionId (some i) = p.localSessions := by
        rw [← hlocal, Function.update_eq_self]
      refine Or.inr ⟨_, _, _, .kept hlocal hconn, ?_⟩
      simp only [start, if_neg hid, HSSessionMgr.newLocalSession, hlocal, hconn,
        Bool.false_eq_true, if_false, hsame, Function.update_eq_self]

theorem HSConnector.connect_local {connector sid : ℕ} {eventHandler : Option EventHandler}
    {p' : IoService}
    (h : connect recvMem sendMem connector sid eventHandler p = .ok p') :
    ∃ i s count, Given recvMem sendMem p sid i s count ∧
      p' = { p with
        sessions := Function.update p.sessions i
          { s.clear with socketOpen := true, eventHandler := eventHandler }
        count := count
        localSessions := Function.update p.localSessions sid (some i)
        connectedFailed := Function.update p.connectedFailed connector false
        connects := p.connects ++ [⟨connector, i, s.closes + 1⟩]
        waits := p.waits ++ [⟨connector, i, s.closes + 1⟩]
        reusedCloses := Function.update p.reusedCloses i (s.closes + 1)
        connectorOf := Function.update p.connectorOf i (some connector) } := by
  cases hlocal : p.localSessions sid with
  | none =>
    refine ⟨_, _, _, .made hlocal, ?_⟩
    simp only [connect, HSSessionMgr.newLocalSession, hlocal, HSSessionMgr.newSession,
      Function.update_self, Function.update_idem] at h
    exact (Except.ok.inj h).symm
  | some i =>
    cases hconn : (p.sessions i).isConnected with
    | true =>
      simp only [connect, HSSessionMgr.newLocalSession, hlocal, hconn, if_true] at h
      cases h
    | false =>
      refine ⟨_, _, _, .kept hlocal hconn, ?_⟩
      simp only [connect, HSSessionMgr.newLocalSession, hlocal, hconn, Bool.false_eq_true,
        if_false] at h
      rw [← hlocal, Function.update_eq_self]
      exact (Except.ok.inj h).symm

theorem handedOut_id {localSessions : ℕ → Option ℕ} {sessionId sid i j : ℕ}
    (h : Function.update localSessions sessionId (some i) sid = some j) :
    localSessions sid = some j ∨ j = i := by
  by_cases hsid : sid = sessionId
  · rw [hsid, Function.update_self] at h
    exact Or.inr (Option.some.inj h).symm
  · rw [Function.update_of_ne hsid] at h
    exact Or.inl h

theorem HSAcceptor.start_cases (a : HSAcceptor) :
    (∃ i, a.sessionId ≠ 0 ∧ p.localSessions a.sessionId = some i ∧
      (p.sessions i).isConnected = true ∧ a.start recvMem sendMem p = p) ∨
    (∃ i, a.sessionId ≠ 0 ∧ p.localSessions a.sessionId = some i ∧
      (p.sessions i).isConnected = false ∧
      a.start recvMem sendMem p = { p with
        accepts := p.accepts ++ [⟨a, i, (p.sessions i).closes⟩]
        reusedCloses := Function.update p.reusedCloses i (p.sessions i).closes
        connectorOf := Function.update p.connectorOf i none }) ∨
    ∃ len localSessions, (a.sessionId = 0 ∨ p.localSessions a.sessionId = none) ∧
      (∀ sid i, localSessions sid = some i → p.localSessions sid = some i ∨ i = p.count) ∧
      a.start recvMem sendMem p = { p with
        sessions := Function.update p.sessions p.count
          (.new len len (recvMem p.count) (sendMem p.count))
        count := p.count + 1
        localSessions := localSessions
        accepts := p.accepts ++ [⟨a, p.count, 0⟩]
        reusedCloses := Function.update p.reusedCloses p.count 0
        connectorOf := Function.update p.connectorOf p.count none } := by
  have hnew : ∀ len, (Function.update p.sessions p.count
      (.new len len (recvMem p.count) (sendMem p.count)) p.count).closes = 0 := by
    intro len
    rw [Function.update_self]
    rfl
  by_cases hid : a.sessionId = 0
  · refine Or.inr (Or.inr ⟨clientSessionDataBufferDefaultSize, p.localSessions, Or.inl hid,
      fun sid i hi => Or.inl hi, ?_⟩)
    simp only [start, if_pos hid, HSSessionMgr.newSession, hnew]
  · obtain ⟨i, hlocal, hconn, hp⟩ | ⟨i, s, count, hgiven, hp⟩ :=
      start_local recvMem sendMem p hid
    · exact Or.inl ⟨i, hid, hlocal, hconn, hp⟩
    · cases hgiven with
      | kept hlocal hconn =>
        refine Or.inr (Or.inl ⟨i, hid, hlocal, hconn, ?_⟩)
        rw [← hlocal, Function.update_eq_self, Function.update_eq_self] at hp
        exact hp
      | made hnone =>
        exact Or.inr (Or.inr ⟨_, _, Or.inr hnone, fun sid i hi => handedOut_id hi, hp⟩)

theorem HSConnector.connect_cases {connector sessionId : ℕ} {eventHandler : Option EventHandler}
    {p' : IoService}
    (h : connect recvMem sendMem connector sessionId eventHandler p = .ok p') :
    ∃ i s count localSessions, s.isConnected = false ∧
      (p.localSessions sessionId = some i ∧ s = p.sessions i ∧ count = p.count ∨
        i = p.count ∧ s.reads = [] ∧ s.writes = [] ∧ s.closes = 0 ∧ count = p.count + 1) ∧
      (∀ sid j, localSessions sid = some j → p.localSessions sid = some j ∨ j = i) ∧
      p' = { p with
        sessions := Function.update p.sessions i
          { s.clear with socketOpen := true, eventHandler := eventHandler }
        count := count
        localSessions := localSessions
        connectedFailed := Function.update p.connectedFailed connector false
        connects := p.connects ++ [⟨connector, i, s.closes + 1⟩]
        waits := p.waits ++ [⟨connector, i, s.closes + 1⟩]
        reusedCloses := Function.update p.reusedCloses i (s.closes + 1)
        connectorOf := Function.update p.connectorOf i (some connector) } := by
  obtain ⟨i, s, count, hgiven, rfl⟩ := connect_local recvMem sendMem p h
  refine ⟨i, s, count, Function.update p.localSessions sessionId (some i), hgiven.not_connected,
    ?_, fun sid j hj => handedOut_id hj, rfl⟩
  cases hgiven with
  | kept hlocal _ => exact Or.inl ⟨hlocal, rfl, rfl⟩
  | made _ => exact Or.inr ⟨rfl, rfl, rfl, rfl, rfl⟩

end Cases

inductive ServiceEvent
  | listen (acceptor : HSAcceptor)
  | connect (connector sessionId : ℕ) (eventHandler : Option EventHandler)
  | acceptDone (k : ℕ) (result : Completion Unit)
  | connectDone (k : ℕ) (result : Completion Unit)
  | waitDone (k : ℕ)
  | session (i : ℕ) (e : SessionEvent)

def SessionEvent.readsLeft {α : Type} (xs : List α) : SessionEvent → List α
  | .readDone k _ => xs.eraseIdx k
  | .send _ | .writeDone .. => xs

namespace IoService

def Possible (p : IoService) : ServiceEvent → Prop
  | .listen _ | .connect .. => True
  | .acceptDone k _ => k < p.accepts.length
  | .connectDone k _ => k < p.connects.length
  | .waitDone k => k < p.waits.length
  | .session i e => i < p.count ∧ (p.sessions i).Possible e

instance (p : IoService) : DecidablePred p.Possible
  | .listen _ | .connect .. => isTrue trivial
  | .acceptDone k _ => inferInstanceAs (Decidable (k < p.accepts.length))
  | .connectDone k _ => inferInstanceAs (Decidable (k < p.connects.length))
  | .waitDone k => inferInstanceAs (Decidable (k < p.waits.length))
  | .session i e => inferInstanceAs (Decidable (i < p.count ∧ (p.sessions i).Possible e))

def exec (w : ULongWidth) (fuel : ℕ) (recvMem sendMem : ℕ → ℕ → UInt8) (p : IoService) :
    ServiceEvent → Except Fault IoService
  | .listen a => .ok (a.start recvMem sendMem p)
  | .connect connector sessionId eventHandler =>
    HSConnector.connect recvMem sendMem connector sessionId eventHandler p
  | .acceptDone k result =>
    match p.accepts[k]? with
    | none => .ok p
    | some op =>
      HSAcceptor.handleAccept w recvMem sendMem op result
        { p with accepts := p.accepts.eraseIdx k }
  | .connectDone k result =>
    match p.connects[k]? with
    | none => .ok p
    | some op => HSConnector.handleConnect w op result { p with connects := p.connects.eraseIdx k }
  | .waitDone k =>
    match p.waits[k]? with
    | none => .ok p
    | some op => .ok (HSConnector.handleTimeout op.connector { p with waits := p.waits.eraseIdx k })
  | .session i e => do
    let (m, s) ← (p.sessions i).exec w fuel p.maxReadLength e
    return { p.put i (e.readsLeft (p.readCloses i)) s with maxReadLength := m }

def Step (w : ULongWidth) (fuel : ℕ) (recvMem sendMem : ℕ → ℕ → UInt8) (p : IoService)
    (e : ServiceEvent) (p' : IoService) : Prop :=
  p.Possible e ∧ p.exec w fuel recvMem sendMem e = .ok p'

section Computed
variable (w : ULongWidth) (fuel : ℕ) (recvMem sendMem : ℕ → ℕ → UInt8)

def next (p : IoService) (e : ServiceEvent) : Option IoService :=
  if p.Possible e then
    match p.exec w fuel recvMem sendMem e with
    | .ok p' => some p'
    | .error _ => none
  else none

theorem step_of_next {p p' : IoService} {e : ServiceEvent}
    (h : next w fuel recvMem sendMem p e = some p') : Step w fuel recvMem sendMem p e p' := by
  rw [next] at h
  split_ifs at h with hposs
  split at h
  · rename_i p₁ hexec
    exact ⟨hposs, hexec.trans (congrArg _ (Option.some.inj h))⟩
  · cases h

theorem run_of_foldlM {α : Type*} {p₀ : IoService} {es : List ServiceEvent} {f : IoService → α}
    {v : α} (h : (es.foldlM (next w fuel recvMem sendMem) p₀).map f = some v) :
    ∃ p, Transition.Run (Step w fuel recvMem sendMem) p₀ es p ∧ f p = v :=
  Transition.Run.of_observed (fun _ _ _ => step_of_next w fuel recvMem sendMem) h

end Computed

end IoService

end HsCommon
