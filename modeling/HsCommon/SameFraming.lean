import HsCommon.SessionRead
import HsCommon.ConnectorUnpack

/-!
# One framing, two loops

`HSSession::handle_read` and `HSRecvDataUnpacker::Process` drain the bytes they are
given by the same decoder. They move what is left to the start of the buffer at
different times, which changes where it is but not what it is. Both are machines
that read the frames of a stream, well formed or not, however it is cut.
-/

namespace HsCommon
open Framing

variable {w : ULongWidth} {L fuel : ℕ}

namespace HSClientConnector

def passive : DataHandler := fun _ => []

theorem handles_passive (w : ULongWidth) (results : ℕ → ℤ) :
    Handles w results passive fun _ => True where
  frame c b calls h := h
  actions c h := ⟨c, rfl, trivial, rfl, rfl, fun hc => (by cases hc.2), fun _ => ⟨rfl, rfl⟩⟩

theorem not_closes_passive (calls : List ClientCall) (vs : List (List UInt8)) :
    ¬ Closes passive calls vs := by
  induction vs generalizing calls with
  | nil => exact id
  | cons v vs ih => exact not_or.mpr ⟨List.not_mem_nil, ih _⟩

def reader (w : ULongWidth) (results : ℕ → ℤ) (fuel : ℕ) :
    Reader (ℤ × HSClientConnector) UInt8 Fault where
  isOpen s := decide (0 ≤ s.1)
  room s := s.2.recvBuffer.getLeftInSize
  read s chunk := (s.2.arrived chunk).processRecv w results fuel passive chunk.length

def Waits (L : ℕ) (s : ℤ × HSClientConnector) (vs : List (List UInt8)) (r : List UInt8) : Prop :=
  s.1 = 0 ∧ Receiving L s.2 ∧ s.2.recvBuffer.unread = r ∧ s.2.calls = vs.map .onReceive

def Closed (s : ℤ × HSClientConnector) (vs : List (List UInt8)) : Prop :=
  s.1 = -1 ∧ s.2.calls = vs.map .onReceive

theorem reader_implements (w : ULongWidth) (results : ℕ → ℤ) (hfuel : L < fuel) :
    (reader w results fuel).Implements (decodeBytes w) (Waits L) Closed where
  isOpen s vs r h := by
    simp only [reader, h.1]
    decide
  closed s vs h := by
    simp only [reader, h.1]
    decide
  reads s vs r chunk ws o h hne hroom hd := by
    obtain ⟨code, c⟩ := s
    obtain ⟨-, hr, hun, hcalls⟩ := h
    subst hun
    have hleft := HSBuffer.getLeftInSize_eq hr.recv.in_le hr.recv.length_lt
    obtain ⟨code', c', hproc, hcalls', hsome, hnone⟩ :=
      (hr.processRecv (handles_passive w results) trivial hne (hleft ▸ hroom) hd hfuel).2
        fun hc => not_closes_passive _ _ hc.2
    have hall : c'.calls = (vs ++ ws).map .onReceive := by
      rw [hcalls', List.map_append, ← hcalls]
    refine ⟨(code', c'), hproc, fun r' hr' => ?_, fun ho => ⟨(hnone ho).1, hall⟩⟩
    obtain ⟨hcode, hrecv, -, hun'⟩ := hsome r' hr'
    exact ⟨hcode, hrecv, hun', hall⟩

theorem waits_initialized (sendLen : ℕ) {sock : ℤ} (hL : 0 < L) (hL' : L < 2 ^ 64)
    (hsock : 0 < sock) (recvMem sendMem : ℕ → UInt8) :
    Waits L (0, initialized L sendLen sock recvMem sendMem) [] [] := by
  have hnew : (HSRecvBuffer.new 1024 recvMem).Ok :=
    HSRecvBuffer.new_ok recvMem (by decide) (by decide)
  obtain ⟨hok, hun, hlen⟩ := hnew.setLength rfl hL hL' recvMem
  rw [initialized_eq hsock]
  exact ⟨rfl, ⟨hok, hlen (by decide : 0 < 1024), rfl⟩, hun, rfl⟩

end HSClientConnector

namespace HSSession

def passive : EventHandler := fun _ => []

theorem calm_passive : Calm passive := fun _ h => by cases h

def reader (w : ULongWidth) (fuel : ℕ) : Reader (Option ℕ × HSSession) UInt8 Fault where
  isOpen s := decide (s.2.closes = 0)
  room s := s.2.recvBuffer.getLeftInSize
  read s chunk := s.2.exec w fuel s.1 (.readDone 0 (.success chunk))

structure Waits (L : ℕ) (s : Option ℕ × HSSession) (vs : List (List UInt8)) (r : List UInt8) :
    Prop where
  reading : Reading L passive s.2
  reads : s.2.reads = [⟨s.2.recvBuffer.inOffset, s.2.recvBuffer.getLeftInSize⟩]
  closes : s.2.closes = 0
  unread : s.2.recvBuffer.unread = r
  calls : s.2.calls = vs.map .onReceive

def Closed (s : Option ℕ × HSSession) (vs : List (List UInt8)) : Prop :=
  s.2.closes = 1 ∧ s.2.calls = vs.map .onReceive

theorem reader_implements (w : ULongWidth) (hL : hsNetPacketMaxSize ≤ L) (hfuel : L < fuel) :
    (reader w fuel).Implements (decodeBytes w) (Waits L) Closed where
  isOpen s vs r h := by
    simp only [reader, h.closes, decide_true]
  closed s vs h := by
    simp only [reader, h.1, one_ne_zero, decide_false]
  reads s vs r chunk ws o h hne hroom hd := by
    obtain ⟨m, s⟩ := s
    obtain ⟨hr, hreads, hcloses, rfl, hcalls⟩ := h
    have hidle : Reading L passive { s with reads := [] } :=
      hr.of_recv rfl rfl (hr.send.frame rfl rfl rfl rfl rfl)
    have hleft := HSBuffer.getLeftInSize_eq hr.recv.in_le hr.recv.length_lt
    obtain ⟨m', s', hcalls', hreads', -, hsome, hnone⟩ := hidle.completed calm_passive hL hne
      (hleft ▸ hroom) m hd hfuel ⟨s.recvBuffer.inOffset, s.recvBuffer.getLeftInSize⟩ rfl
    have hexec : (reader w fuel).read (m, s) chunk = ({ s with reads := [] }.deliver
        ⟨s.recvBuffer.inOffset, s.recvBuffer.getLeftInSize⟩ (.success chunk)).handleRead w fuel m
        (.success chunk.length) := by
      have hget : s.reads[0]? = some ⟨s.recvBuffer.inOffset, s.recvBuffer.getLeftInSize⟩ := by
        rw [hreads, List.getElem?_cons_zero]
      have herase : s.reads.eraseIdx 0 = [] := by rw [hreads, List.eraseIdx_cons_zero]
      simp only [reader, exec, hget, herase]
      rfl
    have hall : s'.calls = (vs ++ ws).map .onReceive := by
      rw [hcalls', List.map_append]
      exact congrArg (· ++ ws.map Call.onReceive) hcalls
    cases o with
    | none =>
      obtain ⟨hread, hcl⟩ := hnone rfl
      refine ⟨(m', s'), hexec.trans hread, fun r' hr' => (by cases hr'), fun _ => ⟨?_, hall⟩⟩
      rw [hcl, hcloses]
    | some r' =>
      obtain ⟨hread, hr', hun, -, -, hcl⟩ := hsome r' rfl
      refine ⟨(m', s'.start), hexec.trans hread, fun r₁ hr₁ => ?_, fun ho => (by cases ho)⟩
      obtain rfl := Option.some.inj hr₁
      refine ⟨hr'.of_recv rfl rfl (hr'.send.frame rfl rfl rfl rfl rfl), ?_, hcl.trans hcloses, hun,
        hall⟩
      simp only [start, hreads', List.nil_append]

end HSSession

/-- For every byte string there is one sequence of payloads and one verdict, the unconsumed rest or
a rejection, that both loops come to, however the bytes are cut into pieces that fit. -/
theorem same_framing (w : ULongWidth) (bytes : List UInt8) :
    ∃ (payloads : List (List UInt8)) (verdict : Option (List UInt8)),
      (∀ (L fuel sendLen : ℕ) (m : Option ℕ) (recvMem sendMem : ℕ → UInt8)
          (cs : List (List UInt8)), hsNetPacketMaxSize ≤ L → L < 2 ^ 64 → L < fuel →
        sendLen < 2 ^ 64 → (∀ c ∈ cs, c ≠ []) → cs.flatten = bytes →
        let fed := (HSSession.reader w fuel).feed cs
          (m, (HSSession.opened L sendLen recvMem sendMem (some HSSession.passive)).start)
        fed = .ok none ∨ ∃ s, fed = .ok (some s) ∧ s.2.calls = payloads.map .onReceive ∧
          (if s.2.closes = 0 then some s.2.recvBuffer.unread else none) = verdict) ∧
      ∀ (L fuel sendLen : ℕ) (sock : ℤ) (results : ℕ → ℤ) (recvMem sendMem : ℕ → UInt8)
          (cs : List (List UInt8)), hsNetPacketMaxSize ≤ L → L < 2 ^ 64 → L < fuel →
        0 < sock → (∀ c ∈ cs, c ≠ []) → cs.flatten = bytes →
        let fed := (HSClientConnector.reader w results fuel).feed cs
          (0, HSClientConnector.initialized L sendLen sock recvMem sendMem)
        fed = .ok none ∨ ∃ c, fed = .ok (some c) ∧ c.2.calls = payloads.map .onReceive ∧
          (if 0 ≤ c.1 then some c.2.recvBuffer.unread else none) = verdict := by
  obtain ⟨payloads, verdict, hd⟩ := exists_drains (incremental_decodeBytes w) bytes
  refine ⟨payloads, verdict, ?_, ?_⟩
  · rintro L fuel sendLen m recvMem sendMem cs hL hL' hfuel hsend hcs rfl
    have hpos : 0 < L := lt_of_lt_of_le (by decide) hL
    have hwait : HSSession.Waits L
        (m, (HSSession.opened L sendLen recvMem sendMem (some HSSession.passive)).start) [] [] :=
      have hs := @HSSession.streamed_opened w L HSSession.passive sendLen hpos hL' hsend recvMem
        sendMem
      ⟨hs.reading, hs.reads, hs.closes, rfl, rfl⟩
    rcases (HSSession.reader_implements w hL hfuel).feed (incremental_decodeBytes w) hcs hwait
      (decodeBytes_nil w) hd with hfed | ⟨s, hfed, hsome, hnone⟩
    · exact Or.inl hfed
    · refine Or.inr ⟨s, hfed, ?_⟩
      cases verdict with
      | none =>
        obtain ⟨hcl, hcalls⟩ := hnone rfl
        exact ⟨hcalls, by rw [hcl, if_neg one_ne_zero]⟩
      | some r =>
        obtain ⟨-, -, hcl, hun, hcalls⟩ := hsome r rfl
        exact ⟨hcalls, by rw [hcl, if_pos rfl, hun]⟩
  · rintro L fuel sendLen sock results recvMem sendMem cs hL hL' hfuel hsock hcs rfl
    have hpos : 0 < L := lt_of_lt_of_le (by decide) hL
    rcases (HSClientConnector.reader_implements w results hfuel).feed (incremental_decodeBytes w)
      hcs (HSClientConnector.waits_initialized sendLen hpos hL' hsock recvMem sendMem)
      (decodeBytes_nil w) hd with hfed | ⟨c, hfed, hsome, hnone⟩
    · exact Or.inl hfed
    · refine Or.inr ⟨c, hfed, ?_⟩
      cases verdict with
      | none =>
        obtain ⟨hcode, hcalls⟩ := hnone rfl
        exact ⟨hcalls, by rw [hcode]; rfl⟩
      | some r =>
        obtain ⟨hcode, -, hun, hcalls⟩ := hsome r rfl
        exact ⟨hcalls, by rw [hcode, if_pos le_rfl, hun]⟩

end HsCommon
