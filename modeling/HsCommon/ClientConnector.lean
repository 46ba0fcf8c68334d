import HsCommon.PacketWorker
import HsCommon.Library.Runs

/-!
# hs_client_connector.h, hs_client_connector.cpp

A connector polls its socket: `Tick` reads what has arrived, hands the packets to
the handler and sends what is unsent. The results of the calls of `send` on the
socket are a sequence, a negative number being an error and another number the
bytes it would take. The results of `select` and `recv` come with each tick. A
handler may send, disconnect and close from inside its calls, depending on all
calls so far.

`written` are the packets put into the send buffer. `tags` says of each cell of
that buffer which byte of the stream of packets it holds, `accepted` are the bytes
the socket took with their places in that stream, and `received` those it gave.
-/

namespace HsCommon

inductive ConnectorState
  | notInitialized
  | unconnect
  | connecting
  | connected
  deriving DecidableEq

inductive ClientCall
  | onConnect (res : ℤ)
  | onReceive (data : List UInt8)
  | onDisconnect (res : ℤ)
  deriving DecidableEq

inductive ClientAction
  | send (data : Payload)
  | disconnect
  | close

/-- What a handler does in a call, given all calls up to and including it. -/
abbrev DataHandler := List ClientCall → List ClientAction

/-- The results of the system calls of a tick. `recv` are the bytes to be read, or an error. -/
structure Poll where
  select : ℤ
  wouldBlock : Bool
  isSet : Bool
  recv : Option (List UInt8)

/-- The packer and the unpacker have their buffers, or NULL. -/
structure HSClientConnector where
  sock : ℤ
  sendBuffer : HSSendBuffer
  packer : Bool
  recvBuffer : HSRecvBuffer
  unpacker : Bool
  state : ConnectorState
  calls : List ClientCall
  sends : ℕ
  written : List (List UInt8)
  tags : ℕ → ℕ
  accepted : List (UInt8 × ℕ)
  received : List UInt8

def toInt (n : ℤ) : ℤ := (n + 2 ^ 31) % 2 ^ 32 - 2 ^ 31

namespace HSClientConnector

def new (recvMem sendMem : ℕ → UInt8) : HSClientConnector :=
  { sock := 0
    sendBuffer := .new sessionDataBufferDefaultSize sendMem
    packer := false
    recvBuffer := .new 1024 recvMem
    unpacker := false
    state := .notInitialized
    calls := []
    sends := 0
    written := []
    tags := fun _ => 0
    accepted := []
    received := [] }

/-- `sock` is what `socket` returns; the other system calls succeed or not. -/
def init (recvBuffLen sendBuffLen : ℕ) (startup : Bool) (sock : ℤ) (nonBlocking : Bool)
    (recvMem sendMem : ℕ → UInt8) (c : HSClientConnector) : Bool × HSClientConnector :=
  if !startup then (false, c)
  else
    let c := { c with sock := sock }
    if sock = -1 then (false, c)
    else if !nonBlocking then (false, c)
    else (true, { c with
      sendBuffer := { c.sendBuffer with
        toHSBuffer := c.sendBuffer.setLength sendBuffLen sendMem }
      packer := true
      recvBuffer := { c.recvBuffer with
        toHSBuffer := c.recvBuffer.setLength recvBuffLen recvMem }
      unpacker := true
      state := .unconnect })

def close (c : HSClientConnector) : HSClientConnector :=
  if c.sock ≤ 0 then c
  else { c with
    sendBuffer := c.sendBuffer.clear true
    packer := false
    recvBuffer := c.recvBuffer.clear true
    unpacker := false
    state := .notInitialized }

def disconnect (c : HSClientConnector) : HSClientConnector := c

section Calls
variable (w : ULongWidth) (results : ℕ → ℤ)

def sendDirectly (offset len : ℕ) (c : HSClientConnector) : ℤ × HSClientConnector :=
  let sent := min (results c.sends) len
  (toInt sent, { c with
    sends := c.sends + 1
    accepted := c.accepted ++
      (c.sendBuffer.bytes offset sent.toNat).zip (Cells.read c.tags offset sent.toNat) })

def write (data : List UInt8) (c : HSClientConnector) : Except Fault (ℤ × HSClientConnector) :=
  if !c.packer then .ok (-1, c)
  else do
    match ← encodePacket w data c.sendBuffer.buffer c.sendBuffer.inOffset
        c.sendBuffer.getLeftInSize with
    | .tooLong => return (-1, c)
    | .noRoom => return (0, c)
    | .done outData outSize =>
      let b := { c.sendBuffer.toHSBuffer with buffer := some outData }
      let c := { c with
        sendBuffer := { c.sendBuffer with toHSBuffer := (b.dataIn outSize).2 } }
      if !(b.dataIn outSize).1 then return (-1, c)
      else return (1, { c with
        written := c.written ++ [b.bytes b.inOffset outSize]
        tags := Cells.write c.tags b.inOffset (List.range' c.written.flatten.length outSize) })

def processSend (c : HSClientConnector) : Except Fault (ℤ × HSClientConnector) :=
  if !c.packer then .ok (-1, c)
  else do
    let size ← c.sendBuffer.getCanSendSize
    if size = 0 then return (0, c)
    else
      let (sent, c) := c.sendDirectly results c.sendBuffer.sentOffset size
      if sent < 0 then return (-1, c)
      else return (1, c)

def send (data : List UInt8) (c : HSClientConnector) : Except Fault (ℤ × HSClientConnector) := do
  let (res, c) ← c.write w data
  if res ≤ 0 then return (-1, c)
  else
    let (res, c) ← c.processSend results
    if res < 0 then return (-1, c)
    else return (1, c)

def runAction (c : HSClientConnector) : ClientAction → Except Fault HSClientConnector
  | .send data => do
    let (_, c) ← c.send w results data.val
    return c
  | .disconnect => return c.disconnect
  | .close => return c.close

def call (handler : DataHandler) (e : ClientCall) (c : HSClientConnector) :
    Except Fault HSClientConnector :=
  let c := { c with calls := c.calls ++ [e] }
  (handler c.calls).foldlM (runAction w results) c

/-- The loop of `HSRecvDataUnpacker::Process`: true after an incomplete packet, false when all data
has been used, and no result after a bad packet. The handler may close the connector, which takes
the buffer from the unpacker. -/
def unpackLoop (handler : DataHandler) :
    ℕ → HSClientConnector → Except Fault (Option Bool × HSClientConnector)
  | 0, _ => .error .outOfFuel
  | fuel + 1, c => do
    match ← c.recvBuffer.decode w with
    | .incomplete => return (some true, c)
    | .error => return (none, c.close)
    | .complete nextOffset outSize =>
      let c := { c with recvBuffer := (c.recvBuffer.dataUse nextOffset false).2 }
      let c ← c.call w results handler
        (.onReceive (c.recvBuffer.bytes c.recvBuffer.inUsedOffset outSize))
      if !c.unpacker then .error .nullPointer
      else
        let c := { c with recvBuffer := (c.recvBuffer.dataUse outSize false).2 }
        if c.recvBuffer.inOffset = c.recvBuffer.getUsedSize then return (some false, c)
        else unpackLoop handler fuel c

def processRecv (fuel : ℕ) (handler : DataHandler) (bytesTransferred : ℕ)
    (c : HSClientConnector) : Except Fault (ℤ × HSClientConnector) :=
  if bytesTransferred = 0 then .ok (0, c)
  else if !c.unpacker then .error .nullPointer
  else do
    let c := { c with recvBuffer :=
      { c.recvBuffer with toHSBuffer := (c.recvBuffer.dataIn bytesTransferred).2 } }
    match ← unpackLoop w results handler fuel c with
    | (none, c) => return (-1, c)
    | (some false, c) => return (0, c)
    | (some true, c) =>
      if c.recvBuffer.getLeftInSize ≤ hsNetPacketMaxSize / 8 then
        return (0, { c with recvBuffer := c.recvBuffer.moveUnuseData2Begin })
      else return (0, c)

/-- Where `Tick` tells `recv` to put the bytes, and how many of them at most. -/
def recvArea (c : HSClientConnector) : ℕ × ℕ :=
  (c.recvBuffer.inUsedOffset, c.recvBuffer.getCanUseSize)

def recv (bytes : List UInt8) (c : HSClientConnector) : ℕ × HSClientConnector :=
  let got := bytes.take c.recvArea.2
  (got.length, { c with
    recvBuffer := { c.recvBuffer with toHSBuffer := c.recvBuffer.put c.recvArea.1 got }
    received := c.received ++ got })

def connect (handler : Option DataHandler) (res : ℤ) (wouldBlock : Bool) (c : HSClientConnector) :
    Except Fault (Bool × HSClientConnector) :=
  if c.sock = 0 then .ok (false, c)
  else if res = -1 then
    if !wouldBlock then .ok (false, c) else .ok (true, { c with state := .connecting })
  else if res = 0 then
    match handler with
    | none => .error .nullPointer
    | some handler => do
      let c ← { c with state := .connected }.call w results handler (.onConnect res)
      return (true, c)
  else .ok (true, c)

def closeAndTell (handler : DataHandler) (res : ℤ) (c : HSClientConnector) :
    Except Fault (ℤ × HSClientConnector) := do
  let c ← c.close.call w results handler (.onDisconnect res)
  return (0, c)

def tickSend (handler : DataHandler) (res : ℤ) (c : HSClientConnector) :
    Except Fault (ℤ × HSClientConnector) := do
  let (sent, c) ← c.processSend results
  if sent < 0 then c.closeAndTell w results handler res
  else return (0, c)

def tick (fuel : ℕ) (handler : Option DataHandler) (poll : Poll) (c : HSClientConnector) :
    Except Fault (ℤ × HSClientConnector) :=
  if c.state ≠ .connecting ∧ c.state ≠ .connected then .ok (0, c)
  else
    match handler with
    | none => .ok (-1, c)
    | some handler =>
      if c.state = .connecting then
        if poll.select < 0 then .ok (if poll.wouldBlock then 0 else -1, c)
        else if poll.select > 0 ∧ poll.isSet then do
          let c ← { c with state := .connected }.call w results handler (.onConnect poll.select)
          return (1, c)
        else .ok (0, c)
      else if poll.select < 0 then c.closeAndTell w results handler poll.select
      else if poll.select > 0 then
        match poll.recv with
        | none => c.closeAndTell w results handler (-1)
        | some bytes => do
          let (n, c) := c.recv bytes
          let res := toInt n
          if res < 0 then c.closeAndTell w results handler res
          else if res > 0 then
            let (r, c) ← c.processRecv w results fuel handler res.toNat
            if r < 0 then c.closeAndTell w results handler res
            else c.tickSend w results handler res
          else c.tickSend w results handler res
      else c.tickSend w results handler poll.select

end Calls

end HSClientConnector

inductive ConnectorEvent
  | connect (res : ℤ) (wouldBlock : Bool)
  | send (data : Payload)
  | tick (poll : Poll)
  | disconnect
  | close

namespace HSClientConnector

def exec (w : ULongWidth) (results : ℕ → ℤ) (fuel : ℕ) (handler : Option DataHandler)
    (c : HSClientConnector) : ConnectorEvent → Except Fault HSClientConnector
  | .connect res wouldBlock => do
    let (_, c) ← c.connect w results handler res wouldBlock
    return c
  | .send data => do
    let (_, c) ← c.send w results data.val
    return c
  | .tick poll => do
    let (_, c) ← c.tick w results fuel handler poll
    return c
  | .disconnect => return c.disconnect
  | .close => return c.close

def Possible (c : HSClientConnector) : ConnectorEvent → Prop
  | .connect res wouldBlock => c.state = .notInitialized → res = -1 ∧ wouldBlock = false
  | _ => True

def Step (w : ULongWidth) (results : ℕ → ℤ) (fuel : ℕ) (handler : Option DataHandler)
    (c : HSClientConnector) (e : ConnectorEvent) (c' : HSClientConnector) : Prop :=
  c.Possible e ∧ c.exec w results fuel handler e = .ok c'

instance (c : HSClientConnector) : DecidablePred c.Possible
  | .connect res wouldBlock =>
    inferInstanceAs (Decidable (c.state = .notInitialized → res = -1 ∧ wouldBlock = false))
  | .send _ | .tick _ | .disconnect | .close => isTrue trivial

def next (w : ULongWidth) (results : ℕ → ℤ) (fuel : ℕ) (handler : Option DataHandler)
    (c : HSClientConnector) (e : ConnectorEvent) : Option HSClientConnector :=
  if c.Possible e then (c.exec w results fuel handler e).toOption else none

theorem step_of_next {w : ULongWidth} {results : ℕ → ℤ} {fuel : ℕ} {handler : Option DataHandler}
    {c c' : HSClientConnector} {e : ConnectorEvent}
    (h : c.next w results fuel handler e = some c') :
    Step w results fuel handler c e c' := Transition.possible_of_next h

def initialized (recvBuffLen sendBuffLen : ℕ) (sock : ℤ) (recvMem sendMem : ℕ → UInt8) :
    HSClientConnector :=
  ((new recvMem sendMem).init recvBuffLen sendBuffLen true sock true recvMem sendMem).2

theorem initialized_eq {recvLen sendLen : ℕ} {sock : ℤ} (hsock : 0 < sock)
    (recvMem sendMem : ℕ → UInt8) :
    initialized recvLen sendLen sock recvMem sendMem =
      { new recvMem sendMem with
        sock := sock
        sendBuffer := { (new recvMem sendMem).sendBuffer with
          toHSBuffer := (new recvMem sendMem).sendBuffer.setLength sendLen sendMem }
        packer := true
        recvBuffer := { (new recvMem sendMem).recvBuffer with
          toHSBuffer := (new recvMem sendMem).recvBuffer.setLength recvLen recvMem }
        unpacker := true
        state := .unconnect } := by
  have hne : sock ≠ -1 := by omega
  simp only [initialized, init, Bool.not_true, Bool.false_eq_true, if_false, if_neg hne]

end HSClientConnector

end HsCommon
