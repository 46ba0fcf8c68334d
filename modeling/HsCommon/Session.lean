import HsCommon.PacketWorker
import HsCommon.Library.Runs

/-!
# hs_session.cpp

A session with the asynchronous operations it has started on its socket. An
operation is outstanding until its completion handler runs; a read puts the bytes
of its completion where it was told to when it was started. An event handler may
call `send` and `clear` from inside its calls, depending on all calls so far.

`max_read_length` of `handle_read` is a function-local static: one for all
sessions of a process, set when the statement is first reached. The budget `fuel`
bounds the rounds of the decode loop. `calls`, `appended` and `accepted` record
what the handler was told, what `send` put into the send buffer, and what the
socket took from it.
-/

namespace HsCommon

inductive Call
  | onConnect
  | onReceive (data : List UInt8)
  | onDisconnect
  deriving DecidableEq

inductive Action
  | send (data : Payload)
  | clear

/-- What an event handler does in a call, given all calls up to and including it. -/
abbrev EventHandler := List Call → List Action

structure ReadOp where
  offset : ℕ
  size : ℕ

/-- `offered` are the bytes in the range when the write was started, `closes` counts the closes of
the socket before that. -/
structure WriteOp where
  offset : ℕ
  offered : List UInt8
  closes : ℕ

structure HSSession where
  socketOpen : Bool
  closes : ℕ
  recvBuffer : HSRecvBuffer
  sendBuffer : HSSendBuffer
  handleSending : Bool
  eventHandler : Option EventHandler
  isConnected : Bool
  reads : List ReadOp
  writes : List WriteOp
  calls : List Call
  appended : List (List UInt8)
  accepted : List UInt8

inductive Completion (α : Type)
  | success (a : α)
  | failure (errorValue : ℤ)

namespace HSSession

def new (recvBuffSize sendBuffSize : ℕ) (recvMem sendMem : ℕ → UInt8) : HSSession :=
  { socketOpen := false
    closes := 0
    recvBuffer := .new recvBuffSize recvMem
    sendBuffer := .new sendBuffSize sendMem
    handleSending := false
    eventHandler := none
    isConnected := false
    reads := []
    writes := []
    calls := []
    appended := []
    accepted := [] }

def opened (recvBuffSize sendBuffSize : ℕ) (recvMem sendMem : ℕ → UInt8)
    (eventHandler : Option EventHandler) : HSSession :=
  { new recvBuffSize sendBuffSize recvMem sendMem with
    socketOpen := true
    eventHandler := eventHandler
    isConnected := true }

def clear (s : HSSession) : HSSession :=
  { s with
    socketOpen := false
    closes := s.closes + 1
    recvBuffer := s.recvBuffer.clear false
    sendBuffer := s.sendBuffer.clear false
    handleSending := false
    isConnected := false }

def start (s : HSSession) : HSSession :=
  { s with reads := s.reads ++ [⟨s.recvBuffer.inOffset, s.recvBuffer.getLeftInSize⟩] }

def handleWrite (s : HSSession) : Except Fault HSSession := do
  let canSend ← s.sendBuffer.getCanSendSize
  if canSend = 0 then return s
  else if s.handleSending then return s
  else
    return { s with
      writes := s.writes ++
        [⟨s.sendBuffer.sentOffset, s.sendBuffer.bytes s.sendBuffer.sentOffset canSend, s.closes⟩]
      handleSending := true }

def countEncoded (outData : ℕ → UInt8) (outSize : ℕ) (s : HSSession) : HSSession :=
  let b := { s.sendBuffer.toHSBuffer with buffer := some outData }
  { s with
    sendBuffer := { s.sendBuffer with toHSBuffer := (b.dataIn outSize).2 }
    appended := if (b.dataIn outSize).1 then s.appended ++ [b.bytes b.inOffset outSize]
      else s.appended }

def send (w : ULongWidth) (data : List UInt8) (s : HSSession) :
    Except Fault (Bool × HSSession) := do
  match ← encodePacket w data s.sendBuffer.buffer s.sendBuffer.inOffset
      s.sendBuffer.getLeftInSize with
  | .tooLong => return (false, s)
  | .noRoom => return (true, ← s.handleWrite)
  | .done outData outSize => return (true, ← (s.countEncoded outData outSize).handleWrite)

def runAction (w : ULongWidth) (s : HSSession) : Action → Except Fault HSSession
  | .send data => do
    let (_, s) ← s.send w data.val
    return s
  | .clear => return s.clear

def call (w : ULongWidth) (c : Call) (s : HSSession) : Except Fault HSSession :=
  match s.eventHandler with
  | none => .ok s
  | some handler =>
    let s := { s with calls := s.calls ++ [c] }
    (handler s.calls).foldlM (runAction w) s

def connected (w : ULongWidth) (s : HSSession) : Except Fault HSSession := do
  let s ← s.call w .onConnect
  return { s with isConnected := true }

def handleError (errorValue : ℤ) : ℤ := if errorValue = 10035 then 0 else -1

def writeResult (w : ULongWidth) (result : Completion ℕ) (s : HSSession) :
    Except Fault HSSession :=
  match result with
  | .success bytesTransferred =>
    -- the early return leaves the flag set
    if bytesTransferred = 0 then .ok s
    else do
      let s := { s with sendBuffer := s.sendBuffer.sent bytesTransferred }
      let canSend ← s.sendBuffer.getCanSendSize
      let s ← if canSend > 0 then s.handleWrite else .ok s
      return { s with handleSending := false }
  | .failure errorValue => do
    let s ← if handleError errorValue = 0 then s.handleWrite
      else do
        let s ← s.call w .onDisconnect
        return s.clear
    return { s with handleSending := false }

inductive LoopEnd
  | waiting
  | emptied
  | rejected

def decodeLoop (w : ULongWidth) : ℕ → HSSession → Except Fault (LoopEnd × HSSession)
  | 0, _ => .error .outOfFuel
  | fuel + 1, s => do
    match ← s.recvBuffer.decode w with
    | .incomplete => return (.waiting, s)
    | .error => return (.rejected, s.clear)
    | .complete nextOffset outSize =>
      let s := { s with recvBuffer := (s.recvBuffer.dataUse nextOffset false).2 }
      let s ← s.call w (.onReceive (s.recvBuffer.bytes s.recvBuffer.inUsedOffset outSize))
      let s := { s with recvBuffer := (s.recvBuffer.dataUse outSize false).2 }
      if s.recvBuffer.inOffset = s.recvBuffer.getUsedSize then return (.emptied, s)
      else decodeLoop w fuel s

/-- The first component is the static `max_read_length`. -/
def handleRead (w : ULongWidth) (fuel : ℕ) (maxReadLength : Option ℕ) (result : Completion ℕ)
    (s : HSSession) : Except Fault (Option ℕ × HSSession) :=
  match result with
  | .success bytesTransferred =>
    if bytesTransferred = 0 then .ok (maxReadLength, s)
    else do
      let s := { s with recvBuffer :=
        { s.recvBuffer with toHSBuffer := (s.recvBuffer.dataIn bytesTransferred).2 } }
      match ← decodeLoop w fuel s with
      | (.rejected, s) => return (maxReadLength, s)
      | (.emptied, s) => return (maxReadLength, s.start)
      | (.waiting, s) =>
        let limit := maxReadLength.getD (sizeSub s.recvBuffer.length hsNetPacketMaxSize)
        let s := if s.recvBuffer.inOffset ≥ limit then
            { s with recvBuffer := s.recvBuffer.moveUnuseData2Begin }
          else s
        return (some limit, s.start)
  | .failure errorValue =>
    if handleError errorValue = 0 then .ok (maxReadLength, s.start)
    else do
      let s ← s.call w .onDisconnect
      return (maxReadLength, s.clear)

end HSSession

/-- `k` picks the outstanding operation that completes. A read completes with the bytes received,
a write with their number. -/
inductive SessionEvent
  | send (data : Payload)
  | readDone (k : ℕ) (result : Completion (List UInt8))
  | writeDone (k : ℕ) (result : Completion ℕ)

namespace HSSession

def deliver (op : ReadOp) (result : Completion (List UInt8)) (s : HSSession) : HSSession :=
  match result with
  | .success chunk =>
    { s with recvBuffer :=
      { s.recvBuffer with toHSBuffer := s.recvBuffer.put op.offset chunk } }
  | .failure _ => s

def accept (op : WriteOp) (result : Completion ℕ) (s : HSSession) : HSSession :=
  match result with
  | .success n => { s with accepted := s.accepted ++ op.offered.take n }
  | .failure _ => s

def Completion.count : Completion (List UInt8) → Completion ℕ
  | .success chunk => .success chunk.length
  | .failure errorValue => .failure errorValue

/-- Completions belong to outstanding operations and stay within what these offered. -/
def Possible (s : HSSession) : SessionEvent → Prop
  | .send _ => True
  | .readDone k (.success chunk) => ∃ op ∈ s.reads[k]?, chunk.length ≤ op.size
  | .readDone k (.failure _) => k < s.reads.length
  | .writeDone k (.success n) => ∃ op ∈ s.writes[k]?, n ≤ op.offered.length
  | .writeDone k (.failure _) => k < s.writes.length

instance (s : HSSession) : DecidablePred s.Possible
  | .send _ => isTrue trivial
  | .readDone k (.success chunk) =>
    inferInstanceAs (Decidable (∃ op ∈ s.reads[k]?, chunk.length ≤ op.size))
  | .readDone k (.failure _) => inferInstanceAs (Decidable (k < s.reads.length))
  | .writeDone k (.success n) =>
    inferInstanceAs (Decidable (∃ op ∈ s.writes[k]?, n ≤ op.offered.length))
  | .writeDone k (.failure _) => inferInstanceAs (Decidable (k < s.writes.length))

def exec (w : ULongWidth) (fuel : ℕ) (maxReadLength : Option ℕ) (s : HSSession) :
    SessionEvent → Except Fault (Option ℕ × HSSession)
  | .send data => do
    let (_, s) ← s.send w data.val
    return (maxReadLength, s)
  | .readDone k result =>
    match s.reads[k]? with
    | none => .ok (maxReadLength, s)
    | some op =>
      ({ s with reads := s.reads.eraseIdx k }.deliver op result).handleRead w fuel maxReadLength
        (Completion.count result)
  | .writeDone k result =>
    match s.writes[k]? with
    | none => .ok (maxReadLength, s)
    | some op => do
      let s ← ({ s with writes := s.writes.eraseIdx k }.accept op result).writeResult w result
      return (maxReadLength, s)

def Step (w : ULongWidth) (fuel : ℕ) (s : HSSession) (e : SessionEvent) (s' : HSSession) : Prop :=
  s.Possible e ∧ ∃ m m', s.exec w fuel m e = .ok (m', s')

section Computed
variable {w : ULongWidth} {fuel : ℕ} (guard : HSSession → SessionEvent → Prop)
  [∀ s e, Decidable (guard s e)]

def next (w : ULongWidth) (fuel : ℕ) (s : HSSession) (e : SessionEvent) : Option HSSession :=
  if s.Possible e ∧ guard s e then
    match s.exec w fuel none e with
    | .ok (_, s') => some s'
    | .error _ => none
  else none

theorem step_of_next {s s' : HSSession} {e : SessionEvent} (h : next guard w fuel s e = some s') :
    Transition.Guarded guard (Step w fuel) s e s' := by
  rw [next] at h
  split_ifs at h with hc
  split at h
  · rename_i m' s₁ hexec
    cases h
    exact ⟨hc.2, hc.1, none, m', hexec⟩
  · cases h

theorem run_of_foldlM {α : Type*} {s₀ : HSSession} {es : List SessionEvent} {f : HSSession → α}
    {v : α} (h : (es.foldlM (next guard w fuel) s₀).map f = some v) :
    ∃ s, Transition.Run (Transition.Guarded guard (Step w fuel)) s₀ es s ∧ f s = v :=
  Transition.Run.of_observed (fun _ _ _ => step_of_next guard) h

end Computed

end HSSession

end HsCommon
