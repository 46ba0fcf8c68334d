import HsCommon.ConnectorTold

/-!
# The socket calls of a connector

The functions of `HSClientConnector` again, with the calls they make on sockets. `Close` leaves the
descriptor in `sock_`, the destructor closes whatever `sock_` holds. `HS_SOCKET` is unsigned on
Windows, so there the result of a failed `socket` passes the test of `Close`.

Without the calls these are the functions in `ClientConnector`, so what is proved of a step of the
connector holds here as well. For the calls a step is taken apart into what it does piece by piece.
-/

namespace HsCommon

inductive Platform
  | posix
  | win32
  | win64
  deriving DecidableEq

/-- What `sock_` holds after `socket` has failed. -/
def Platform.socketError : Platform → ℤ
  | posix => -1
  | win32 => 2 ^ 32 - 1
  | win64 => 2 ^ 64 - 1

def Platform.cleans : Platform → Bool
  | posix => false
  | _ => true

inductive SocketFunction
  | ioctlsocket
  | connect
  | select
  | recv
  | send
  | shutdown
  deriving DecidableEq

inductive SocketCall
  | init
  | socket (sock : ℤ)
  | initialized
  | on (f : SocketFunction) (sock : ℤ)
  | close (sock : ℤ)
  | cleanup
  deriving DecidableEq

/-- What the system answers to an `Init`: whether `WSAStartup` and `ioctlsocket` succeed, the result
of `socket`, and the memory of new buffers. -/
structure InitResult where
  startup : Bool
  sock : ℤ
  nonBlocking : Bool
  recvMem : ℕ → UInt8
  sendMem : ℕ → UInt8

structure SocketUser extends HSClientConnector where
  log : List SocketCall
  destroyed : Bool

namespace SocketUser

def new (recvMem sendMem : ℕ → UInt8) : SocketUser :=
  { HSClientConnector.new recvMem sendMem with log := [], destroyed := false }

def record (s : SocketUser) (calls : List SocketCall) : SocketUser :=
  { s with log := s.log ++ calls }

@[simp] theorem record_connector (s : SocketUser) (calls : List SocketCall) :
    (s.record calls).toHSClientConnector = s.toHSClientConnector := rfl

def init (p : Platform) (recvBuffLen sendBuffLen : ℕ) (r : InitResult) (s : SocketUser) :
    Bool × SocketUser :=
  let s := s.record [.init]
  if !r.startup then (false, s)
  else
    let s := { s with sock := r.sock }
    if r.sock = p.socketError then (false, s)
    else
      let s := s.record [.socket r.sock, .on .ioctlsocket r.sock]
      if !r.nonBlocking then (false, s)
      else (true, { s.record [.initialized] with
        sendBuffer := { s.sendBuffer with
          toHSBuffer := s.sendBuffer.setLength sendBuffLen r.sendMem }
        packer := true
        recvBuffer := { s.recvBuffer with
          toHSBuffer := s.recvBuffer.setLength recvBuffLen r.recvMem }
        unpacker := true
        state := .unconnect })

def close (p : Platform) (s : SocketUser) : SocketUser :=
  if s.sock ≤ 0 then s
  else { s with
    toHSClientConnector := s.toHSClientConnector.close
    log := s.log ++ ([.on .shutdown s.sock, .close s.sock] ++
      if p.cleans then [.cleanup] else []) }

def disconnect (s : SocketUser) : SocketUser :=
  if s.sock ≤ 0 then s else s.record [.on .shutdown s.sock]

def destroy (p : Platform) (s : SocketUser) : SocketUser := { s.close p with destroyed := true }

section Calls
variable (p : Platform) (w : ULongWidth) (results : ℕ → ℤ)

def sendDirectly (offset len : ℕ) (s : SocketUser) : ℤ × SocketUser :=
  let (sent, c) := s.toHSClientConnector.sendDirectly results offset len
  (sent, { s.record [.on .send s.sock] with toHSClientConnector := c })

def processSend (s : SocketUser) : Except Fault (ℤ × SocketUser) :=
  if !s.packer then .ok (-1, s)
  else do
    let size ← s.sendBuffer.getCanSendSize
    if size = 0 then return (0, s)
    else
      let (sent, s) := s.sendDirectly results s.sendBuffer.sentOffset size
      if sent < 0 then return (-1, s)
      else return (1, s)

def send (data : List UInt8) (s : SocketUser) : Except Fault (ℤ × SocketUser) := do
  let (res, c) ← s.toHSClientConnector.write w data
  let s : SocketUser := { s with toHSClientConnector := c }
  if res ≤ 0 then return (-1, s)
  else
    let (res, s) ← s.processSend results
    if res < 0 then return (-1, s)
    else return (1, s)

def runAction (s : SocketUser) : ClientAction → Except Fault SocketUser
  | .send data => do
    let (_, s) ← s.send w results data.val
    return s
  | .disconnect => return s.disconnect
  | .close => return s.close p

def call (handler : DataHandler) (e : ClientCall) (s : SocketUser) : Except Fault SocketUser :=
  let s : SocketUser := { s with calls := s.calls ++ [e] }
  (handler s.calls).foldlM (runAction p w results) s

def unpackLoop (handler : DataHandler) : ℕ → SocketUser → Except Fault (Option Bool × SocketUser)
  | 0, _ => .error .outOfFuel
  | fuel + 1, s => do
    match ← s.recvBuffer.decode w with
    | .incomplete => return (some true, s)
    | .error => return (none, s.close p)
    | .complete nextOffset outSize =>
      let s : SocketUser := { s with recvBuffer := (s.recvBuffer.dataUse nextOffset false).2 }
      let s ← s.call p w results handler
        (.onReceive (s.recvBuffer.bytes s.recvBuffer.inUsedOffset outSize))
      if !s.unpacker then .error .nullPointer
      else
        let s : SocketUser := { s with recvBuffer := (s.recvBuffer.dataUse outSize false).2 }
        if s.recvBuffer.inOffset = s.recvBuffer.getUsedSize then return (some false, s)
        else unpackLoop handler fuel s

def processRecv (fuel : ℕ) (handler : DataHandler) (bytesTransferred : ℕ) (s : SocketUser) :
    Except Fault (ℤ × SocketUser) :=
  if bytesTransferred = 0 then .ok (0, s)
  else if !s.unpacker then .error .nullPointer
  else do
    let s : SocketUser := { s with recvBuffer :=
      { s.recvBuffer with toHSBuffer := (s.recvBuffer.dataIn bytesTransferred).2 } }
    match ← unpackLoop p w results handler fuel s with
    | (none, s) => return (-1, s)
    | (some false, s) => return (0, s)
    | (some true, s) =>
      if s.recvBuffer.getLeftInSize ≤ hsNetPacketMaxSize / 8 then
        return (0, { s with recvBuffer := s.recvBuffer.moveUnuseData2Begin })
      else return (0, s)

def recv (bytes : List UInt8) (s : SocketUser) : ℕ × SocketUser :=
  let (n, c) := s.toHSClientConnector.recv bytes
  (n, { s with toHSClientConnector := c })

def connect (handler : Option DataHandler) (res : ℤ) (wouldBlock : Bool) (s : SocketUser) :
    Except Fault (Bool × SocketUser) :=
  if s.sock = 0 then .ok (false, s)
  else
    let s := s.record [.on .connect s.sock]
    if res = -1 then
      if !wouldBlock then .ok (false, s) else .ok (true, { s with state := .connecting })
    else if res = 0 then
      match handler with
      | none => .error .nullPointer
      | some handler => do
        let s : SocketUser := { s with state := .connected }
        let s ← s.call p w results handler (.onConnect res)
        return (true, s)
    else .ok (true, s)

def closeAndTell (handler : DataHandler) (res : ℤ) (s : SocketUser) :
    Except Fault (ℤ × SocketUser) := do
  let s ← (s.close p).call p w results handler (.onDisconnect res)
  return (0, s)

def tickSend (handler : DataHandler) (res : ℤ) (s : SocketUser) :
    Except Fault (ℤ × SocketUser) := do
  let (sent, s) ← s.processSend results
  if sent < 0 then s.closeAndTell p w results handler res
  else return (0, s)

def tick (fuel : ℕ) (handler : Option DataHandler) (poll : Poll) (s : SocketUser) :
    Except Fault (ℤ × SocketUser) :=
  if s.state ≠ .connecting ∧ s.state ≠ .connected then .ok (0, s)
  else
    match handler with
    | none => .ok (-1, s)
    | some handler =>
      let s := s.record [.on .select s.sock]
      if s.state = .connecting then
        if poll.select < 0 then .ok (if poll.wouldBlock then 0 else -1, s)
        else if poll.select > 0 ∧ poll.isSet then do
          let s : SocketUser := { s with state := .connected }
          let s ← s.call p w results handler (.onConnect poll.select)
          return (1, s)
        else .ok (0, s)
      else if poll.select < 0 then s.closeAndTell p w results handler poll.select
      else if poll.select > 0 then
        let s := s.record [.on .recv s.sock]
        match poll.recv with
        | none => s.closeAndTell p w results handler (-1)
        | some bytes => do
          let (n, s) := s.recv bytes
          let res := toInt n
          if res < 0 then s.closeAndTell p w results handler res
          else if res > 0 then
            let (r, s) ← s.processRecv p w results fuel handler res.toNat
            if r < 0 then s.closeAndTell p w results handler res
            else s.tickSend p w results handler res
          else s.tickSend p w results handler res
      else s.tickSend p w results handler poll.select

end Calls

end SocketUser

inductive SocketEvent
  | init (recvBuffLen sendBuffLen : ℕ) (r : InitResult)
  | act (e : ConnectorEvent)
  | destroy

namespace SocketUser

section Exec
variable (p : Platform) (w : ULongWidth) (results : ℕ → ℤ) (fuel : ℕ) (handler : Option DataHandler)

def act (s : SocketUser) : ConnectorEvent → Except Fault SocketUser
  | .connect res wouldBlock => do
    let (_, s) ← s.connect p w results handler res wouldBlock
    return s
  | .send data => do
    let (_, s) ← s.send w results data.val
    return s
  | .tick poll => do
    let (_, s) ← s.tick p w results fuel handler poll
    return s
  | .disconnect => return s.disconnect
  | .close => return s.close p

def exec (s : SocketUser) : SocketEvent → Except Fault SocketUser
  | .init recvBuffLen sendBuffLen r => return (s.init p recvBuffLen sendBuffLen r).2
  | .act e => s.act p w results fuel handler e
  | .destroy => return s.destroy p

def Step (s : SocketUser) (e : SocketEvent) (s' : SocketUser) : Prop :=
  s.destroyed = false ∧ s.exec p w results fuel handler e = .ok s'

def next (s : SocketUser) (e : SocketEvent) : Option SocketUser :=
  if s.destroyed = false then (s.exec p w results fuel handler e).toOption else none

variable {p w results fuel handler}

theorem step_of_next {s s' : SocketUser} {e : SocketEvent}
    (h : s.next p w results fuel handler e = some s') :
    Step p w results fuel handler s e s' := Transition.possible_of_next h

end Exec

section Forget
open Outcome

variable {p : Platform} {w : ULongWidth} {results : ℕ → ℤ} {fuel : ℕ}

def forget {α : Type} (r : α × SocketUser) : α × HSClientConnector := (r.1, r.2.toHSClientConnector)

theorem close_forget (s : SocketUser) :
    (s.close p).toHSClientConnector = s.toHSClientConnector.close := by
  rw [close]
  split_ifs with h
  · rw [HSClientConnector.close, if_pos h]
  all_goals rfl

theorem disconnect_forget (s : SocketUser) :
    s.disconnect.toHSClientConnector = s.toHSClientConnector.disconnect := by
  rw [disconnect]
  split_ifs <;> rfl

theorem processSend_forget (s : SocketUser) :
    Shows forget (s.processSend results) (s.toHSClientConnector.processSend results) := by
  refine Shows.ite (fun _ => rfl) fun _ => Shows.bind_same fun size => ?_
  exact Shows.ite (fun _ => rfl) fun _ => Shows.ite (fun _ => rfl) fun _ => rfl

theorem send_forget (data : List UInt8) (s : SocketUser) :
    Shows forget (s.send w results data) (s.toHSClientConnector.send w results data) := by
  refine Shows.bind_same fun r => Shows.ite (fun _ => rfl) fun _ => ?_
  refine Shows.bind (processSend_forget { s with toHSClientConnector := r.2 }) fun r => ?_
  exact Shows.ite (fun _ => rfl) fun _ => rfl

theorem runAction_forget (s : SocketUser) (a : ClientAction) :
    Shows toHSClientConnector (s.runAction p w results a)
      (s.toHSClientConnector.runAction w results a) := by
  cases a with
  | send data => exact Shows.bind (send_forget data.val s) fun _ => rfl
  | disconnect => exact congrArg Except.ok s.disconnect_forget
  | close => exact congrArg Except.ok s.close_forget

theorem call_forget (handler : DataHandler) (e : ClientCall) (s : SocketUser) :
    Shows toHSClientConnector (s.call p w results handler e)
      (s.toHSClientConnector.call w results handler e) :=
  Shows.foldlM runAction_forget (handler (s.calls ++ [e]))
    ({ s with calls := s.calls ++ [e] } : SocketUser)

theorem unpackLoop_forget (handler : DataHandler) (s : SocketUser) :
    Shows forget (s.unpackLoop p w results handler fuel)
      (s.toHSClientConnector.unpackLoop w results handler fuel) := by
  induction fuel generalizing s with
  | zero => rfl
  | succ fuel ih =>
    rw [unpackLoop, HSClientConnector.unpackLoop]
    refine Shows.bind_same fun d => ?_
    cases d with
    | incomplete => rfl
    | error => exact congrArg (fun c => Except.ok (none, c)) s.close_forget
    | complete nextOffset outSize =>
      refine Shows.bind (call_forget handler _ _) fun s => Shows.ite (fun _ => rfl) fun _ => ?_
      exact Shows.ite (fun _ => rfl) fun _ => ih _

theorem processRecv_forget (handler : DataHandler) (n : ℕ) (s : SocketUser) :
    Shows forget (s.processRecv p w results fuel handler n)
      (s.toHSClientConnector.processRecv w results fuel handler n) := by
  refine Shows.ite (fun _ => rfl) fun _ => Shows.ite (fun _ => rfl) fun _ => ?_
  refine Shows.bind (unpackLoop_forget handler _) fun r => ?_
  obtain ⟨b, s⟩ := r
  cases b with
  | none => rfl
  | some b =>
    cases b with
    | false => rfl
    | true => exact Shows.ite (fun _ => rfl) fun _ => rfl

theorem connect_forget (handler : Option DataHandler) (res : ℤ) (wouldBlock : Bool)
    (s : SocketUser) :
    Shows forget (s.connect p w results handler res wouldBlock)
      (s.toHSClientConnector.connect w results handler res wouldBlock) := by
  refine Shows.ite (fun _ => rfl) fun _ => Shows.ite (fun _ => ?_) fun _ => ?_
  · exact Shows.ite (fun _ => rfl) fun _ => rfl
  · refine Shows.ite (fun _ => ?_) fun _ => rfl
    cases handler with
    | none => rfl
    | some handler => exact Shows.bind (call_forget handler _ _) fun _ => rfl

theorem closeAndTell_forget (handler : DataHandler) (res : ℤ) (s : SocketUser) :
    Shows forget (s.closeAndTell p w results handler res)
      (s.toHSClientConnector.closeAndTell w results handler res) := by
  rw [closeAndTell, HSClientConnector.closeAndTell, ← s.close_forget (p := p)]
  exact Shows.bind (call_forget handler _ _) fun _ => rfl

theorem tickSend_forget (handler : DataHandler) (res : ℤ) (s : SocketUser) :
    Shows forget (s.tickSend p w results handler res)
      (s.toHSClientConnector.tickSend w results handler res) := by
  refine Shows.bind (processSend_forget s) fun r => ?_
  exact Shows.ite (fun _ => closeAndTell_forget handler res r.2) fun _ => rfl

theorem tick_forget (handler : Option DataHandler) (poll : Poll) (s : SocketUser) :
    Shows forget (s.tick p w results fuel handler poll)
      (s.toHSClientConnector.tick w results fuel handler poll) := by
  refine Shows.ite (fun _ => rfl) fun _ => ?_
  cases handler with
  | none => rfl
  | some handler =>
    refine Shows.ite (fun _ => Shows.ite (fun _ => rfl) fun _ => ?_) fun _ => ?_
    · refine Shows.ite (fun _ => ?_) fun _ => rfl
      exact Shows.bind (call_forget handler _ _) fun _ => rfl
    refine Shows.ite (fun _ => closeAndTell_forget handler _ _) fun _ => ?_
    refine Shows.ite (fun _ => ?_) fun _ => tickSend_forget handler _ _
    cases poll.recv with
    | none => exact closeAndTell_forget handler _ _
    | some bytes =>
      refine Shows.ite (fun _ => closeAndTell_forget handler _ _) fun _ => ?_
      refine Shows.ite (fun _ => ?_) fun _ => tickSend_forget handler _ _
      refine Shows.bind (processRecv_forget handler _ _) fun r => ?_
      exact Shows.ite (fun _ => closeAndTell_forget handler _ r.2) fun _ =>
        tickSend_forget handler _ r.2

theorem act_forget (handler : Option DataHandler) (e : ConnectorEvent) (s : SocketUser) :
    Shows toHSClientConnector (s.act p w results fuel handler e)
      (s.toHSClientConnector.exec w results fuel handler e) := by
  cases e with
  | connect res wouldBlock => exact Shows.bind (connect_forget handler _ _ s) fun _ => rfl
  | send data => exact Shows.bind (send_forget data.val s) fun _ => rfl
  | tick poll => exact Shows.bind (tick_forget handler poll s) fun _ => rfl
  | disconnect => exact congrArg Except.ok s.disconnect_forget
  | close => exact congrArg Except.ok s.close_forget

end Forget

section Pieces
open Outcome

variable {p : Platform} {w : ULongWidth} {results : ℕ → ℤ} {s : SocketUser}

/-- What a function does to the connector at a time. -/
inductive Piece (p : Platform) (w : ULongWidth) (results : ℕ → ℤ) (s : SocketUser) :
    SocketUser → Prop
  | init (recvBuffLen sendBuffLen : ℕ) (r : InitResult) :
      Piece p w results s (s.init p recvBuffLen sendBuffLen r).2
  | on (f : SocketFunction) : Piece p w results s (s.record [.on f s.sock])
  | dial (state : ConnectorState) :
      Piece p w results s { s.record [.on .connect s.sock] with state := state }
  | connected (h : s.state = .connecting) : Piece p w results s { s with state := .connected }
  | tell (e : ClientCall) : Piece p w results s { s with calls := s.calls ++ [e] }
  | write (data : List UInt8) {r : ℤ} {c : HSClientConnector}
      (h : s.toHSClientConnector.write w data = .ok (r, c)) :
      Piece p w results s { s with toHSClientConnector := c }
  | sendDirectly (offset len : ℕ) : Piece p w results s (s.sendDirectly results offset len).2
  | close : Piece p w results s (s.close p)
  | destroyed : Piece p w results s { s with destroyed := true }

def initialized (recvBuffLen sendBuffLen : ℕ) (r : InitResult) (s : SocketUser) : SocketUser :=
  { s.record [.init, .socket r.sock, .on .ioctlsocket r.sock, .initialized] with
    sock := r.sock
    sendBuffer := { s.sendBuffer with toHSBuffer := s.sendBuffer.setLength sendBuffLen r.sendMem }
    packer := true
    recvBuffer := { s.recvBuffer with toHSBuffer := s.recvBuffer.setLength recvBuffLen r.recvMem }
    unpacker := true
    state := .unconnect }

theorem init_cases (p : Platform) (recvBuffLen sendBuffLen : ℕ) (r : InitResult) (s : SocketUser) :
    s.init p recvBuffLen sendBuffLen r = (false, s.record [.init]) ∨
    s.init p recvBuffLen sendBuffLen r = (false, { s.record [.init] with sock := r.sock }) ∨
    s.init p recvBuffLen sendBuffLen r = (false,
      { s.record [.init, .socket r.sock, .on .ioctlsocket r.sock] with sock := r.sock }) ∨
    s.init p recvBuffLen sendBuffLen r = (true, initialized recvBuffLen sendBuffLen r s) := by
  rw [init]
  split_ifs
  · exact Or.inl rfl
  · exact Or.inr (Or.inl rfl)
  · refine Or.inr (Or.inr (Or.inl ?_))
    simp only [record, List.append_assoc]
    rfl
  · refine Or.inr (Or.inr (Or.inr ?_))
    simp only [initialized, record, List.append_assoc]
    rfl

theorem recv_idle (h : s.Idle) (bytes : List UInt8) : s.recv bytes = (0, s) := by
  rw [SocketUser.recv, h.recv bytes]

def Kept (p : Platform) (w : ULongWidth) (results : ℕ → ℤ) (P : SocketUser → Prop) : Prop :=
  ∀ s s', P s → Piece p w results s s' → P s'

variable {P : SocketUser → Prop} {F : Fault → Prop}

theorem Kept.disconnect (hP : Kept p w results P) (h : P s) : P s.disconnect := by
  rw [SocketUser.disconnect]
  split_ifs
  · exact h
  · exact hP _ _ h (.on .shutdown)

theorem Kept.processSend (hP : Kept p w results P) (h : P s) :
    Ends (fun r => P r.2) (fun _ => True) (s.processSend results) := by
  refine Ends.ite (fun _ => h) fun _ => Ends.bind (P := fun _ => True) ?_ fun size _ => ?_
  · cases s.sendBuffer.getCanSendSize <;> trivial
  · have hsent := hP _ _ h (.sendDirectly s.sendBuffer.sentOffset size)
    exact Ends.ite (fun _ => h) fun _ => Ends.ite (fun _ => hsent) fun _ => hsent

theorem Kept.send (hP : Kept p w results P) (h : P s) (data : List UInt8) :
    Ends (fun r => P r.2) (fun _ => True) (s.send w results data) := by
  rw [SocketUser.send]
  cases hw : s.toHSClientConnector.write w data with
  | error f => trivial
  | ok r =>
    have hwritten := hP _ _ h (.write data hw)
    refine Ends.ite (fun _ => hwritten) fun _ => (hP.processSend hwritten).bind fun r hr => ?_
    exact Ends.ite (fun _ => hr) fun _ => hr

theorem Kept.runAction (hP : Kept p w results P) (h : P s) (a : ClientAction) :
    Ends P (fun _ => True) (s.runAction p w results a) := by
  cases a with
  | send data => exact (hP.send h data.val).bind fun _ hr => hr
  | disconnect => exact hP.disconnect h
  | close => exact hP _ _ h .close

theorem Kept.actions (hP : Kept p w results P) (h : P s) (as : List ClientAction) :
    Ends P (fun _ => True) (as.foldlM (SocketUser.runAction p w results) s) :=
  Ends.foldlM (fun _ a _ hs => hP.runAction hs a) h

theorem Kept.call (hP : Kept p w results P) (h : P s) (handler : DataHandler) (e : ClientCall) :
    Ends P (fun _ => True) (s.call p w results handler e) :=
  hP.actions (hP _ _ h (.tell e)) (handler (s.calls ++ [e]))

theorem Kept.connect (hP : Kept p w results P) (h : P s) (handler : Option DataHandler) (res : ℤ)
    (wouldBlock : Bool) :
    Ends (fun r => P r.2) (fun _ => True) (s.connect p w results handler res wouldBlock) := by
  have hcalled := hP _ _ h (.on .connect)
  refine Ends.ite (fun _ => h) fun _ => Ends.ite (fun _ => ?_) fun _ => ?_
  · exact Ends.ite (fun _ => hcalled) fun _ => hP _ _ h (.dial .connecting)
  · refine Ends.ite (fun _ => ?_) fun _ => hcalled
    cases handler with
    | none => trivial
    | some handler =>
      exact (hP.call (hP _ _ h (.dial .connected)) handler _).bind fun _ hs => hs

theorem Kept.closeAndTell (hP : Kept p w results P) (h : P s) (handler : DataHandler) (res : ℤ) :
    Ends (fun r => P r.2) (fun _ => True) (s.closeAndTell p w results handler res) :=
  (hP.call (hP _ _ h .close) handler _).bind fun _ hs => hs

theorem Kept.tickSend (hP : Kept p w results P) (h : P s) (handler : DataHandler) (res : ℤ) :
    Ends (fun r => P r.2) (fun _ => True) (s.tickSend p w results handler res) := by
  refine (hP.processSend h).bind fun r hr => ?_
  exact Ends.ite (fun _ => hP.closeAndTell hr handler res) fun _ => hr

theorem Kept.tick (hP : Kept p w results P) (hidle : ∀ s, P s → s.Idle) (h : P s) (fuel : ℕ)
    (handler : Option DataHandler) (poll : Poll) :
    Ends (fun r => P r.2) (fun _ => True) (s.tick p w results fuel handler poll) := by
  refine Ends.ite (fun _ => h) fun _ => ?_
  cases handler with
  | none => exact h
  | some handler =>
    have hselected := hP _ _ h (.on .select)
    refine Ends.ite (fun hconn => Ends.ite (fun _ => hselected) fun _ => ?_) fun _ => ?_
    · refine Ends.ite (fun _ => ?_) fun _ => hselected
      exact (hP.call (hP _ _ hselected (.connected hconn)) handler _).bind fun _ hs => hs
    refine Ends.ite (fun _ => hP.closeAndTell hselected handler _) fun _ => ?_
    refine Ends.ite (fun _ => ?_) fun _ => hP.tickSend hselected handler _
    have hread := hP _ _ hselected (.on .recv)
    cases poll.recv with
    | none => exact hP.closeAndTell hread handler _
    | some bytes =>
      -- `recv` gives no bytes, so there is nothing to unpack
      have hzero : toInt ((0 : ℕ) : ℤ) = 0 := by decide
      rw [record_connector] at hread
      dsimp only [record_connector]
      rw [recv_idle (hidle _ hread) bytes, hzero, if_neg (lt_irrefl 0), if_neg (lt_irrefl 0)]
      exact hP.tickSend hread handler 0

theorem Kept.exec (hP : Kept p w results P) (hidle : ∀ s, P s → s.Idle) (h : P s) {fuel : ℕ}
    {handler : Option DataHandler} (e : SocketEvent) :
    Ends P (fun _ => True) (s.exec p w results fuel handler e) := by
  cases e with
  | init recvBuffLen sendBuffLen r => exact hP _ _ h (.init recvBuffLen sendBuffLen r)
  | destroy => exact hP _ _ (hP _ _ h .close) .destroyed
  | act e =>
    cases e with
    | connect res wouldBlock =>
      exact (hP.connect h handler res wouldBlock).bind fun r hr => hr
    | send data => exact (hP.send h data.val).bind fun r hr => hr
    | tick poll => exact (hP.tick hidle h fuel handler poll).bind fun r hr => hr
    | disconnect => exact hP.disconnect h
    | close => exact hP _ _ h .close

end Pieces

end SocketUser

end HsCommon
