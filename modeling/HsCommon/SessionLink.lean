import HsCommon.SessionLog
import HsCommon.SessionManager
import HsCommon.SessionRead

/-!
# Two sessions on one connection

The session of an acceptor and that of a connector at the two ends of one
connection, each in a process of its own. The bytes a socket takes travel in order
and arrive in pieces of any size. Sends, completions and arrivals come in any order
at both ends, and the handlers may send from inside their calls.

The acceptor starts the first read of its session, the connector does not. So what
the connector's side sends arrives, and what the other side answers stays on the
way.
-/

namespace HsCommon
open Transition Outcome Framing

def HSSession.dialedBy (w : ULongWidth) (eventHandler : Option EventHandler) (s : HSSession) :
    Except Fault HSSession :=
  { s.clear with socketOpen := true, eventHandler := eventHandler }.connected w

/-- The session of the connector is at `false`, that of the acceptor at `true`. `wire side` has the
bytes that the socket of `side` has taken and the other side has not received. -/
structure Link where
  maxReadLength : Bool → Option ℕ
  sessions : Bool → HSSession
  wire : Bool → List UInt8

namespace HSSession

def takenWith (s : HSSession) : SessionEvent → List UInt8
  | .writeDone k (.success n) =>
    match s.writes[k]? with
    | none => []
    | some op => op.offered.take n
  | _ => []

end HSSession

namespace Link
open HSSession

def connected (sessions : Bool → HSSession) : Link := ⟨fun _ => none, sessions, fun _ => []⟩

/-- Reads complete with bytes that are on the way, writes with a number of bytes that is not 0, and
both when the socket would block. -/
def Allows (l : Link) (side : Bool) : SessionEvent → Prop
  | .readDone _ (.success chunk) => chunk ≠ [] ∧ chunk <+: l.wire !side
  | .readDone _ (.failure errorValue) => errorValue = 10035
  | e => WriteEvent e ∧ NonZero e

def carried (l : Link) (side : Bool) : SessionEvent → Bool → List UInt8
  | .readDone _ (.success chunk) =>
    Function.update l.wire (!side) ((l.wire !side).drop chunk.length)
  | e => Function.update l.wire side (l.wire side ++ (l.sessions side).takenWith e)

def exec (w : ULongWidth) (fuel : ℕ) (l : Link) (side : Bool) (e : SessionEvent) :
    Except Fault Link := do
  let (m, s) ← (l.sessions side).exec w fuel (l.maxReadLength side) e
  return ⟨Function.update l.maxReadLength side m, Function.update l.sessions side s,
    l.carried side e⟩

def Possible (l : Link) (e : Bool × SessionEvent) : Prop :=
  (l.sessions e.1).Possible e.2 ∧ l.Allows e.1 e.2

def Step (w : ULongWidth) (fuel : ℕ) (l : Link) (e : Bool × SessionEvent) (l' : Link) : Prop :=
  l.Possible e ∧ l.exec w fuel e.1 e.2 = .ok l'

instance (l : Link) (side : Bool) : DecidablePred (l.Allows side)
  | .readDone _ (.success chunk) =>
    inferInstanceAs (Decidable (chunk ≠ [] ∧ chunk <+: l.wire !side))
  | .readDone _ (.failure errorValue) => inferInstanceAs (Decidable (errorValue = 10035))
  | .send data =>
    inferInstanceAs (Decidable (WriteEvent (.send data) ∧ NonZero (.send data)))
  | .writeDone k r =>
    inferInstanceAs (Decidable (WriteEvent (.writeDone k r) ∧ NonZero (.writeDone k r)))

instance (l : Link) : DecidablePred l.Possible :=
  fun e => inferInstanceAs (Decidable ((l.sessions e.1).Possible e.2 ∧ l.Allows e.1 e.2))

def next (w : ULongWidth) (fuel : ℕ) (l : Link) (e : Bool × SessionEvent) : Option Link :=
  if l.Possible e then (l.exec w fuel e.1 e.2).toOption else none

theorem run_of_foldlM {w : ULongWidth} {fuel : ℕ} {α : Type*} {l₀ : Link}
    {es : List (Bool × SessionEvent)} {f : Link → α} {v : α}
    (h : (es.foldlM (next w fuel) l₀).map f = some v) :
    ∃ l, Run (Step w fuel) l₀ es l ∧ f l = v :=
  Run.of_observed (fun _ _ _ => possible_of_next) h

end Link

namespace HSSession
variable {w : ULongWidth} {s s' : HSSession} {L : ℕ} {handler : EventHandler}

theorem WriteStep.packed {e : SessionEvent} (hs : WriteStep w s e s') (h : Packed w s) :
    Packed w s' := by
  cases hs with
  | queued data x hx _ =>
    obtain ⟨datas, henc⟩ := h
    refine ⟨datas ++ [data.val], ?_⟩
    rw [offer_appended]
    exact List.rel_append henc (.cons hx .nil)
  | noRoom data =>
    obtain ⟨datas, henc⟩ := h
    exact ⟨datas, by rwa [offer_appended]⟩
  | _ => exact h

theorem offer_accepted (s : HSSession) : s.offer.accepted = s.accepted := by
  rw [offer]
  split_ifs <;> rfl

theorem WriteStep.accepted {e : SessionEvent} (hs : WriteStep w s e s') (hposs : s.Possible e) :
    s'.accepted = s.accepted ++ s.takenWith e := by
  cases hs with
  | refused data => exact (List.append_nil _).symm
  | noRoom data => exact (offer_accepted s).trans (List.append_nil _).symm
  | queued data x _ _ => exact (offer_accepted _).trans (List.append_nil _).symm
  | taken k op n hw _ _ =>
    obtain ⟨op', hop', -⟩ := hposs
    have hop : s.writes[k]? = some op' := hop'
    have hsame : op' = op := by
      rw [hw] at hop
      exact List.mem_singleton.mp (List.mem_of_getElem? hop)
    simp only [takenWith, hop, hsame]
    rfl
  | empty k op hw =>
    obtain ⟨op', hop', -⟩ := hposs
    have hop : s.writes[k]? = some op' := hop'
    simp only [takenWith, hop, List.take_zero]
    exact (List.append_nil _).symm
  | wouldBlock k op hw => exact (List.append_nil _).symm

structure Hearing (w : ULongWidth) (L : ℕ) (handler : EventHandler) (bytes : List UInt8)
    (s : HSSession) : Prop where
  reading : Reading L handler s
  room : s.recvBuffer.inOffset < L
  reads : s.reads = [⟨s.recvBuffer.inOffset, s.recvBuffer.getLeftInSize⟩]
  closes : s.closes = 0
  drained : ∃ vs, Drains (decodeBytes w) bytes vs (some s.recvBuffer.unread) ∧
    s.calls = .onConnect :: vs.map .onReceive

theorem Hearing.beside {bytes : List UInt8} (h : Hearing w L handler bytes s) (hside : Beside s s')
    (hord : Orderly s') : Hearing w L handler bytes s' := by
  have hrecv := hside.recvBuffer
  refine ⟨h.reading.of_recv hrecv hside.eventHandler hord, by rw [hrecv]; exact h.room, ?_,
    hside.closes.trans h.closes, ?_⟩
  · rw [hside.reads, hrecv]
    exact h.reads
  · rw [hrecv, hside.calls]
    exact h.drained

theorem Hearing.possible_read {bytes : List UInt8} (h : Hearing w L handler bytes s)
    {chunk : List UInt8} {k : ℕ} (hposs : s.Possible (.readDone k (.success chunk))) :
    s.reads[k]? = some ⟨s.recvBuffer.inOffset, s.recvBuffer.getLeftInSize⟩ ∧
      s.reads.eraseIdx k = [] ∧
      chunk.length ≤ s.recvBuffer.length - s.recvBuffer.inOffset := by
  obtain ⟨op, hop, hfit⟩ := hposs
  have hop' : s.reads[k]? = some op := hop
  obtain ⟨rfl, herase⟩ := only_read h.reads hop'
  refine ⟨hop', herase, ?_⟩
  rwa [← HSBuffer.getLeftInSize_eq h.reading.recv.in_le h.reading.recv.length_lt]

theorem Hearing.received {bytes : List UInt8} (h : Hearing w L handler bytes s)
    (hcalm : Calm handler) (hL : hsNetPacketMaxSize ≤ L) {fuel : ℕ} (hfuel : L < fuel)
    {chunk : List UInt8} (hne : chunk ≠ []) {k : ℕ}
    (hposs : s.Possible (.readDone k (.success chunk))) {vs : List (List UInt8)} {r : List UInt8}
    (hd : Drains (decodeBytes w) (bytes ++ chunk) vs (some r)) {m : Option ℕ}
    (hm : ∀ n ∈ m, n = L - hsNetPacketMaxSize) :
    ∃ m' s', s.exec w fuel m (.readDone k (.success chunk)) = .ok (m', s') ∧
      (∀ n ∈ m', n = L - hsNetPacketMaxSize) ∧ Hearing w L handler (bytes ++ chunk) s' := by
  obtain ⟨us, hus, hcalls⟩ := h.drained
  obtain ⟨hop, herase, hfit⟩ := h.possible_read hposs
  have hidle : Reading L handler { s with reads := [] } :=
    h.reading.of_recv rfl rfl (h.reading.send.frame rfl rfl rfl rfl rfl)
  obtain ⟨ws, rfl, hws⟩ := hus.split (incremental_decodeBytes w) rfl hd
  obtain ⟨m', s', hc, hr, hm', hsome, -⟩ := hidle.completed hcalm hL hne hfit m hws hfuel
    ⟨s.recvBuffer.inOffset, s.recvBuffer.getLeftInSize⟩ rfl
  obtain ⟨hexec, hread, hun, hroom, -, hcl⟩ := hsome r rfl
  have hlimit : m.getD (L - hsNetPacketMaxSize) = L - hsNetPacketMaxSize := by
    cases m with
    | none => exact Option.getD_none
    | some n =>
      rw [Option.getD_some]
      exact hm n rfl
  rw [hlimit] at hm' hroom
  refine ⟨m', s'.start, ?_, ?_, ?_⟩
  · simp only [HSSession.exec, hop, herase]
    exact hexec
  · rcases hm' with rfl | rfl
    · exact hm
    · intro n hn
      exact (Option.some.inj hn).symm
  · refine ⟨hread.of_recv rfl rfl (hread.send.frame rfl rfl rfl rfl rfl),
      hroom (Nat.sub_le _ _), ?_, hcl.trans h.closes, us ++ ws, ?_, ?_⟩
    · simp only [start, hr, List.nil_append]
    · change Drains _ _ _ (some s'.recvBuffer.unread)
      rw [hun]
      exact hd
    · change s'.calls = _
      rw [hc, List.map_append, ← List.cons_append, ← hcalls]

theorem Hearing.blocked {bytes : List UInt8} (h : Hearing w L handler bytes s) {k : ℕ}
    (hposs : s.Possible (.readDone k (.failure 10035))) (fuel : ℕ) (m : Option ℕ) :
    s.exec w fuel m (.readDone k (.failure 10035)) = .ok (m, s) := by
  have hk : k < s.reads.length := hposs
  have hget : s.reads[k]? = some s.reads[k] := List.getElem?_eq_getElem hk
  obtain ⟨-, herase⟩ := only_read h.reads hget
  have hsame : ({ s with reads := [] } : HSSession).start = s := by
    rw [start, List.nil_append, ← h.reads]
  simp only [HSSession.exec, hget, herase, deliver, Completion.count, handleRead, handleError,
    if_true, hsame]

theorem Orderly.connected {handler : EventHandler} (h : Orderly s) (hcalm : Calm handler)
    (hh : s.eventHandler = some handler) (hs : s.connected w = .ok s') :
    Orderly s' ∧ Beside { s with calls := s.calls ++ [.onConnect] } s' := by
  obtain ⟨s₁, hcall, hord, hside⟩ := h.call hcalm hh w .onConnect
  rw [HSSession.connected, hcall] at hs
  obtain rfl := Except.ok.inj hs
  exact ⟨hord.frame rfl rfl rfl rfl rfl, hside.recvBuffer, hside.reads, hside.calls,
    hside.eventHandler, hside.closes⟩

theorem LogSide.connected {P : HSSession → Prop} (hP : LogSide w P) (h : P s)
    (hs : s.connected w = .ok s') : P s' := by
  have hends : Ends P (fun _ => True) (s.connected w) := by
    rw [HSSession.connected]
    exact (hP.call h _).bind fun s₁ h₁ => hP.frame s₁ _ h₁ rfl rfl
  exact hends.result hs

theorem orderly_accepted {recvLen sendLen : ℕ} (hlen : sendLen < 2 ^ 64)
    (recvMem sendMem : ℕ → UInt8) (eventHandler : Option EventHandler) (socketOpen : Bool) :
    Orderly { new recvLen sendLen recvMem sendMem with
      socketOpen := socketOpen, eventHandler := eventHandler } :=
  ⟨HSSendBuffer.new_ok sendMem hlen, Or.inl ⟨rfl, rfl⟩, rfl⟩

theorem hearing_accepted {sendLen : ℕ} (hcalm : Calm handler) (hL : 0 < L) (hL' : L < 2 ^ 64)
    (hsend : sendLen < 2 ^ 64) {recvMem sendMem : ℕ → UInt8} {closes : ℕ}
    (hs : (new L sendLen recvMem sendMem).acceptedBy w (some handler) closes = .ok s') :
    Hearing w L handler [] s' ∧ Packed w s' ∧ s'.accepted = [] := by
  obtain ⟨s₁, hconn, hs₁⟩ := exists_of_bind hs
  obtain rfl := Except.ok.inj hs₁
  obtain ⟨hord, hside⟩ := (orderly_accepted hsend recvMem sendMem (some handler) _).connected
    hcalm rfl hconn
  have hlogged : Logged w [] s₁ :=
    (logSide_logged w []).connected ⟨⟨[], .nil⟩, rfl⟩ hconn
  have hrecv : s₁.recvBuffer = .new L recvMem := hside.recvBuffer
  have hreading : Reading L handler s₁ := by
    refine ⟨?_, ?_, ?_, hord, hside.eventHandler⟩
    · rw [hrecv]
      exact HSRecvBuffer.new_ok recvMem hL hL'
    · rw [hrecv]
      rfl
    · rw [hrecv]
      exact fun _ => rfl
  refine ⟨⟨hreading.of_recv rfl rfl (hord.frame rfl rfl rfl rfl rfl), ?_, ?_, hside.closes, [], ?_,
    hside.calls⟩, hlogged⟩
  · change s₁.recvBuffer.inOffset < L
    rw [hrecv]
    exact hL
  · rw [start, hside.reads]
    rfl
  · change Drains _ _ _ (some s₁.recvBuffer.unread)
    rw [hrecv]
    exact .incomplete (decodeBytes_nil w)

theorem dialed_start {recvLen sendLen : ℕ} (hcalm : Calm handler) (hsend : sendLen < 2 ^ 64)
    {recvMem sendMem : ℕ → UInt8}
    (hs : (new recvLen sendLen recvMem sendMem).dialedBy w (some handler) = .ok s') :
    Orderly s' ∧ s'.reads = [] ∧ s'.calls = [.onConnect] ∧ s'.closes = 1 ∧ Packed w s' ∧
      s'.accepted = [] := by
  have hcleared : Orderly { (new recvLen sendLen recvMem sendMem).clear with
      socketOpen := true, eventHandler := some handler } :=
    ⟨(HSSendBuffer.new_ok sendMem hsend).clear, Or.inl ⟨rfl, rfl⟩, rfl⟩
  obtain ⟨hord, hside⟩ := hcleared.connected hcalm rfl hs
  have hlogged : Logged w [] s' := (logSide_logged w []).connected ⟨⟨[], .nil⟩, rfl⟩ hs
  exact ⟨hord, hside.reads, hside.calls, hside.closes, hlogged⟩

end HSSession

namespace Link
open HSSession

variable {w : ULongWidth} {fuel L : ℕ} {handler : EventHandler} {l l' : Link}

/-- The connector's side is in order and has heard nothing; the acceptor's side has heard all that
the other's socket took and that is not on the way. -/
structure Linked (w : ULongWidth) (L : ℕ) (handler : EventHandler) (l : Link) : Prop where
  orderly : Orderly (l.sessions false)
  reads : (l.sessions false).reads = []
  calls : (l.sessions false).calls = [.onConnect]
  closes : (l.sessions false).closes = 1
  packed : Packed w (l.sessions false)
  limit : ∀ n ∈ l.maxReadLength true, n = L - hsNetPacketMaxSize
  hearing : ∃ bytes, (l.sessions false).accepted = bytes ++ l.wire false ∧
    Hearing w L handler bytes (l.sessions true)
  answers : l.wire true = (l.sessions true).accepted ∧ Packed w (l.sessions true)

theorem Linked.no_read (h : Linked w L handler l) (k : ℕ) (r : Completion (List UInt8)) :
    ¬ (l.sessions false).Possible (.readDone k r) := by
  have hnil := h.reads
  intro hposs
  cases r with
  | success chunk =>
    obtain ⟨op, hop, -⟩ := hposs
    rw [hnil] at hop
    cases hop
  | failure v =>
    have hk : k < (l.sessions false).reads.length := hposs
    rw [hnil] at hk
    exact absurd hk (Nat.not_lt_zero k)

theorem exec_write {side : Bool} {e : SessionEvent} {s : HSSession} (he : WriteEvent e)
    (hall : ∀ m, (l.sessions side).exec w fuel m e = .ok (m, s)) :
    l.exec w fuel side e = .ok ⟨l.maxReadLength, Function.update l.sessions side s,
      Function.update l.wire side (l.wire side ++ (l.sessions side).takenWith e)⟩ := by
  rw [Link.exec, hall]
  have hcarried : l.carried side e =
      Function.update l.wire side (l.wire side ++ (l.sessions side).takenWith e) := by
    cases e with
    | readDone k r => exact absurd he id
    | send data => rfl
    | writeDone k r => rfl
  simp only [hcarried, bind, Except.bind, Function.update_eq_self]
  rfl

theorem Linked.write_false (h : Linked w L handler l) {e : SessionEvent} {s : HSSession}
    (hs : WriteStep w (l.sessions false) e s) (hnz : NonZero e)
    (hposs : (l.sessions false).Possible e) :
    Linked w L handler ⟨l.maxReadLength, Function.update l.sessions false s,
      Function.update l.wire false (l.wire false ++ (l.sessions false).takenWith e)⟩ := by
  have hside := hs.beside
  obtain ⟨bytes, hbytes, hhear⟩ := h.hearing
  constructor
  · exact h.orderly.step hs hnz
  · exact hside.reads.trans h.reads
  · exact hside.calls.trans h.calls
  · exact hside.closes.trans h.closes
  · exact hs.packed h.packed
  · exact h.limit
  · refine ⟨bytes, ?_, hhear⟩
    change s.accepted = bytes ++ (l.wire false ++ (l.sessions false).takenWith e)
    rw [hs.accepted hposs, hbytes, List.append_assoc]
  · exact h.answers

theorem Linked.write_true (h : Linked w L handler l) {e : SessionEvent} {s : HSSession}
    (hs : WriteStep w (l.sessions true) e s) (hnz : NonZero e)
    (hposs : (l.sessions true).Possible e) :
    Linked w L handler ⟨l.maxReadLength, Function.update l.sessions true s,
      Function.update l.wire true (l.wire true ++ (l.sessions true).takenWith e)⟩ := by
  obtain ⟨bytes, hbytes, hhear⟩ := h.hearing
  constructor
  · exact h.orderly
  · exact h.reads
  · exact h.calls
  · exact h.closes
  · exact h.packed
  · exact h.limit
  · exact ⟨bytes, hbytes, hhear.beside hs.beside (hhear.reading.send.step hs hnz)⟩
  · change l.wire true ++ (l.sessions true).takenWith e = s.accepted ∧ Packed w s
    rw [hs.accepted hposs, h.answers.1]
    exact ⟨rfl, hs.packed h.answers.2⟩

theorem Linked.drains (h : Linked w L handler l) {bytes : List UInt8}
    (hpre : bytes <+: (l.sessions false).accepted) :
    ∃ datas got r, List.Forall₂ (IsEncoding w) datas (l.sessions false).appended ∧
      Drains (decodeBytes w) bytes got (some r) ∧ got <+: datas ∧
      (bytes = (l.sessions false).appended.flatten → got = datas) := by
  obtain ⟨datas, henc⟩ := h.packed
  have hlog : (l.sessions false).accepted <+: (l.sessions false).appended.flatten :=
    ⟨_, h.orderly.log⟩
  obtain ⟨got, r, hd, hgot, hall⟩ := drains_packets (incremental_decodeBytes w)
    (decodeBytes_nil w) (fun v x (hx : IsEncoding w v x) => hx.decodes) henc (hpre.trans hlog)
  exact ⟨datas, got, r, henc, hd, hgot, hall⟩

theorem Linked.arrival (h : Linked w L handler l) (hcalm : Calm handler)
    (hL : hsNetPacketMaxSize ≤ L) (hfuel : L < fuel) {k : ℕ} {chunk : List UInt8}
    (hposs : l.Possible (true, .readDone k (.success chunk))) :
    ∃ l', l.exec w fuel true (.readDone k (.success chunk)) = .ok l' ∧ Linked w L handler l' := by
  obtain ⟨hposs, hne, hchunk⟩ := hposs
  obtain ⟨bytes, hbytes, hhear⟩ := h.hearing
  have hwire : l.wire false = chunk ++ (l.wire false).drop chunk.length :=
    (List.prefix_iff_eq_append.mp hchunk).symm
  have hpre : bytes ++ chunk <+: (l.sessions false).accepted := by
    rw [hbytes]
    exact (List.prefix_append_right_inj bytes).mpr hchunk
  obtain ⟨datas, got, r, -, hd, -⟩ := h.drains hpre
  obtain ⟨m, s, hexec, hm, hhear'⟩ := hhear.received hcalm hL hfuel hne hposs hd h.limit
  have hlogged : Logged w (l.sessions true).accepted s :=
    ((logSide_logged w _).readDone ⟨h.answers.2, rfl⟩ _ k _).result hexec
  refine ⟨_, by rw [Link.exec, hexec]; rfl, ?_⟩
  constructor
  · exact h.orderly
  · exact h.reads
  · exact h.calls
  · exact h.closes
  · exact h.packed
  · dsimp only
    rw [Function.update_self]
    exact hm
  · refine ⟨bytes ++ chunk, ?_, hhear'⟩
    change (l.sessions false).accepted = (bytes ++ chunk) ++ (l.wire false).drop chunk.length
    rw [List.append_assoc, ← hwire, hbytes]
  · change l.wire true = s.accepted ∧ Packed w s
    rw [hlogged.2]
    exact ⟨h.answers.1, hlogged.1⟩

theorem Linked.step (h : Linked w L handler l) (hcalm : Calm handler)
    (hL : hsNetPacketMaxSize ≤ L) (hfuel : L < fuel) {e : Bool × SessionEvent}
    (hposs : l.Possible e) :
    ∃ l', l.exec w fuel e.1 e.2 = .ok l' ∧ Linked w L handler l' := by
  obtain ⟨side, e⟩ := e
  have hwrite : WriteEvent e → NonZero e →
      ∃ l', l.exec w fuel side e = .ok l' ∧ Linked w L handler l' := by
    intro he hnz
    cases side with
    | false =>
      obtain ⟨s, hs, hall⟩ := h.orderly.exec he hposs.1 w fuel
      exact ⟨_, exec_write he hall, h.write_false hs hnz hposs.1⟩
    | true =>
      obtain ⟨bytes, -, hhear⟩ := h.hearing
      obtain ⟨s, hs, hall⟩ := hhear.reading.send.exec he hposs.1 w fuel
      exact ⟨_, exec_write he hall, h.write_true hs hnz hposs.1⟩
  cases e with
  | send data => exact hwrite hposs.2.1 hposs.2.2
  | writeDone k r => exact hwrite hposs.2.1 hposs.2.2
  | readDone k r =>
    cases side with
    | false => exact absurd hposs.1 (h.no_read k r)
    | true =>
      cases r with
      | success chunk => exact h.arrival hcalm hL hfuel hposs
      | failure v =>
        obtain ⟨hposs, rfl⟩ : (l.sessions true).Possible (.readDone k (.failure v)) ∧ v = 10035 :=
          hposs
        obtain ⟨bytes, -, hhear⟩ := h.hearing
        refine ⟨l, ?_, h⟩
        rw [Link.exec, hhear.blocked hposs]
        have hsame : l.carried true (.readDone k (.failure 10035)) = l.wire := by
          simp only [carried, takenWith, List.append_nil, Function.update_eq_self]
        simp only [hsame, bind, Except.bind, Function.update_eq_self]
        rfl

structure Opened (w : ULongWidth) (L : ℕ) (handler : Bool → EventHandler)
    (sessions : Bool → HSSession) : Prop where
  calm : ∀ side, Calm (handler side)
  dialed : ∃ recvLen sendLen recvMem sendMem, sendLen < 2 ^ 64 ∧
    (new recvLen sendLen recvMem sendMem).dialedBy w (some (handler false)) =
      .ok (sessions false)
  accepted : ∃ sendLen recvMem sendMem, sendLen < 2 ^ 64 ∧
    (new L sendLen recvMem sendMem).acceptedBy w (some (handler true)) 0 = .ok (sessions true)

theorem linked_connected {handler : Bool → EventHandler} {sessions : Bool → HSSession}
    (h : Opened w L handler sessions) (hL : 0 < L) (hL' : L < 2 ^ 64) :
    Linked w L (handler true) (connected sessions) := by
  obtain ⟨_, _, _, _, hsend, hdial⟩ := h.dialed
  obtain ⟨hord, hreads, hcalls, hcloses, hpacked, hnone⟩ := dialed_start (h.calm false) hsend hdial
  obtain ⟨_, _, _, hsend', haccept⟩ := h.accepted
  obtain ⟨hhear, hpacked', hnone'⟩ := hearing_accepted (h.calm true) hL hL' hsend' haccept
  refine ⟨hord, hreads, hcalls, hcloses, hpacked, ?_, ⟨[], hnone, hhear⟩, hnone'.symm, hpacked'⟩
  intro n hn
  cases hn

theorem Linked.run {handler : Bool → EventHandler} {sessions : Bool → HSSession}
    (ho : Opened w L handler sessions) (hL : hsNetPacketMaxSize ≤ L) (hL' : L < 2 ^ 64)
    (hfuel : L < fuel) {es : List (Bool × SessionEvent)}
    (h : Run (Step w fuel) (connected sessions) es l) : Linked w L (handler true) l := by
  have hpos : 0 < L := lt_of_lt_of_le (by decide) hL
  refine h.invariant (P := Linked w L (handler true)) (linked_connected ho hpos hL') ?_
  intro l₁ e l₂ hl₁ hs
  obtain ⟨l', hexec, hl'⟩ := hl₁.step (ho.calm true) hL hfuel hs.1
  rw [hs.2] at hexec
  obtain rfl := Except.ok.inj hexec
  exact hl'

def Delivered (w : ULongWidth) (l : Link) : Prop :=
  ∃ datas got, List.Forall₂ (IsEncoding w) datas (l.sessions false).appended ∧ got <+: datas ∧
    (l.sessions true).calls = .onConnect :: got.map .onReceive ∧
    (l.wire false = [] → (l.sessions false).sendBuffer.unsent = [] → got = datas)

theorem Linked.delivered (h : Linked w L handler l) : Delivered w l := by
  obtain ⟨bytes, hbytes, hhear⟩ := h.hearing
  obtain ⟨vs, hvs, hcalls⟩ := hhear.drained
  obtain ⟨datas, got, r, henc, hd, hpre, hall⟩ := h.drains ⟨l.wire false, hbytes.symm⟩
  obtain ⟨rfl, -⟩ := hvs.unique hd
  refine ⟨datas, vs, henc, hpre, hcalls, ?_⟩
  intro hwire hunsent
  apply hall
  rw [← h.orderly.log, hbytes, hwire, hunsent, List.append_nil, List.append_nil]

/-- Whatever the order of the events at the two ends: the acceptor's handler is given the packets of
the connector's side in order, none twice and none left out, the connector's handler hears nothing
after `onConnect`, neither end closes a socket after `connect` has, and no fault is in reach. -/
theorem link_delivers {handler : Bool → EventHandler} {sessions : Bool → HSSession}
    (ho : Opened w L handler sessions) (hL : hsNetPacketMaxSize ≤ L) (hL' : L < 2 ^ 64)
    (hfuel : L < fuel) {es : List (Bool × SessionEvent)}
    (h : Run (Step w fuel) (connected sessions) es l) :
    Delivered w l ∧ (l.sessions false).calls = [.onConnect] ∧
      l.wire true = (l.sessions true).accepted ∧
      (l.sessions false).closes = 1 ∧ (l.sessions true).closes = 0 ∧
      ∀ e, l.Possible e → ∃ l', Step w fuel l e l' := by
  have hlinked := Linked.run ho hL hL' hfuel h
  obtain ⟨bytes, -, hhear⟩ := hlinked.hearing
  refine ⟨hlinked.delivered, hlinked.calls, hlinked.answers.1, hlinked.closes, hhear.closes, ?_⟩
  intro e hposs
  obtain ⟨l', hexec, -⟩ := hlinked.step (ho.calm true) hL hfuel hposs
  exact ⟨l', hposs, hexec⟩

def passive : Bool → HSSession
  | false =>
    { (new 64 64 (fun _ => 0) (fun _ => 0)).clear with
      socketOpen := true, eventHandler := some fun _ => [], calls := [.onConnect]
      isConnected := true }
  | true =>
    { new 8192 64 (fun _ => 0) (fun _ => 0) with
      socketOpen := true, eventHandler := some fun _ => [], calls := [.onConnect]
      isConnected := true, reads := [⟨0, 8192⟩] }

theorem opened_passive : Opened .eight 8192 (fun _ _ => []) passive := by
  have hcalm : Calm fun _ => [] := fun _ h => by cases h
  exact ⟨fun _ => hcalm, ⟨64, 64, fun _ => 0, fun _ => 0, by decide, rfl⟩,
    ⟨64, fun _ => 0, fun _ => 0, by decide, rfl⟩⟩

theorem link_delivers_twoPieces :
    ∃ l, Delivered .eight l ∧ (l.sessions true).calls = [.onConnect, .onReceive [7]] := by
  obtain ⟨l, hrun, hl⟩ := @run_of_foldlM .eight 8193 _ (connected passive)
    [(false, .send ⟨[7], by decide⟩), (false, .writeDone 0 (.success 13)),
      (true, .readDone 0 (.success [0, 0, 0, 1, 14])),
      (true, .readDone 0 (.success [220, 186, 152, 0, 0, 0, 0, 7]))]
    (fun l => (l.sessions true).calls) [.onConnect, .onReceive [7]] (by decide +kernel)
  exact ⟨l, (link_delivers opened_passive (by decide) (by decide) (by decide) hrun).1, hl⟩

def Progress : SessionEvent → Prop
  | .readDone _ (.success _) | .writeDone _ (.success _) => True
  | _ => False

def AtRest (l : Link) : Prop := ∀ side e, Progress e → ¬ l.Possible (side, e)

def pending (l : Link) : ℕ ×ₗ ℕ :=
  toLex (2 * (l.sessions false).sendBuffer.unsent.length + (l.wire false).length,
    (l.sessions true).sendBuffer.unsent.length)

theorem arrival_lt {k : ℕ} {chunk : List UInt8}
    (hposs : l.Possible (true, .readDone k (.success chunk)))
    (hexec : l.exec w fuel true (.readDone k (.success chunk)) = .ok l') :
    pending l' < pending l := by
  obtain ⟨-, hne, hchunk⟩ := hposs
  obtain ⟨r, -, hres⟩ := exists_of_bind hexec
  obtain rfl := Except.ok.inj hres
  refine Prod.Lex.toLex_lt_toLex.mpr (Or.inl ?_)
  change 2 * (l.sessions false).sendBuffer.unsent.length +
    ((l.wire false).drop chunk.length).length < _
  have hpos := List.length_pos_iff.mpr hne
  have hle : chunk.length ≤ (l.wire false).length := hchunk.length_le
  rw [List.length_drop]
  dsimp only
  omega

theorem moved {s s' : HSSession} (h : Orderly s) {k n : ℕ}
    (hs : WriteStep w s (.writeDone k (.success n)) s') (hn : 0 < n)
    (hposs : s.Possible (.writeDone k (.success n))) :
    s'.sendBuffer.unsent.length + n = s.sendBuffer.unsent.length ∧
      (s.takenWith (.writeDone k (.success n))).length = n := by
  have hacc := hs.accepted hposs
  cases hs with
  | taken _ op _ hw _ hle =>
    obtain ⟨-, hun⟩ := h.taken hw hle
    have hpre := (h.outstanding hw).2.length_le
    have htaken : s.takenWith (.writeDone k (.success n)) = op.offered.take n :=
      (List.append_cancel_left hacc).symm
    rw [hun, htaken, List.length_drop, List.length_take]
    omega
  | empty _ op hw => exact absurd hn (lt_irrefl 0)

theorem Linked.taken_lt (h : Linked w L handler l) {side : Bool} {k n : ℕ}
    (hposs : l.Possible (side, .writeDone k (.success n)))
    (hexec : l.exec w fuel side (.writeDone k (.success n)) = .ok l') :
    pending l' < pending l := by
  have he : WriteEvent (.writeDone k (.success n)) := hposs.2.1
  have hn : 0 < n := hposs.2.2
  cases side with
  | false =>
    obtain ⟨s, hs, hall⟩ := h.orderly.exec he hposs.1 w fuel
    obtain ⟨hun, htaken⟩ := moved h.orderly hs hn hposs.1
    rw [exec_write he hall] at hexec
    obtain rfl := Except.ok.inj hexec
    refine Prod.Lex.toLex_lt_toLex.mpr (Or.inl ?_)
    change 2 * s.sendBuffer.unsent.length + (l.wire false ++
      (l.sessions false).takenWith (.writeDone k (.success n))).length < _
    rw [List.length_append, htaken]
    dsimp only
    omega
  | true =>
    obtain ⟨bytes, -, hhear⟩ := h.hearing
    have hord := hhear.reading.send
    obtain ⟨s, hs, hall⟩ := hord.exec he hposs.1 w fuel
    obtain ⟨hun, -⟩ := moved hord hs hn hposs.1
    rw [exec_write he hall] at hexec
    obtain rfl := Except.ok.inj hexec
    refine Prod.Lex.toLex_lt_toLex.mpr (Or.inr ⟨rfl, ?_⟩)
    change s.sendBuffer.unsent.length < _
    dsimp only
    omega

theorem Linked.progress (h : Linked w L handler l) (hcalm : Calm handler)
    (hL : hsNetPacketMaxSize ≤ L) (hfuel : L < fuel) {e : Bool × SessionEvent}
    (hs : Guarded (fun _ e => Progress e.2) (Step w fuel) l e l') :
    Linked w L handler l' ∧ pending l' < pending l := by
  obtain ⟨hp, hposs, hexec⟩ := hs
  obtain ⟨l₁, hexec₁, hl₁⟩ := h.step hcalm hL hfuel hposs
  rw [hexec] at hexec₁
  obtain rfl := Except.ok.inj hexec₁
  refine ⟨hl₁, ?_⟩
  obtain ⟨side, e⟩ := e
  cases e with
  | send data => exact absurd hp id
  | writeDone k r =>
    cases r with
    | failure v => exact absurd hp id
    | success n => exact h.taken_lt hposs hexec
  | readDone k r =>
    cases side with
    | false => exact absurd hposs.1 (h.no_read k r)
    | true =>
      cases r with
      | failure v => exact absurd hp id
      | success chunk => exact arrival_lt hposs hexec

theorem Linked.atRest (h : Linked w L handler l) (hrest : AtRest l) :
    l.wire false = [] ∧ (l.sessions false).writes = [] := by
  constructor
  · cases hwire : l.wire false with
    | nil => rfl
    | cons b bs =>
      obtain ⟨bytes, -, hhear⟩ := h.hearing
      have hleft : 1 ≤ (l.sessions true).recvBuffer.getLeftInSize := by
        have hroom := hhear.room
        have hlen := hhear.reading.length_eq
        rw [HSBuffer.getLeftInSize_eq hhear.reading.recv.in_le hhear.reading.recv.length_lt]
        omega
      have hposs : (l.sessions true).Possible (.readDone 0 (.success [b])) := by
        refine ⟨⟨(l.sessions true).recvBuffer.inOffset,
          (l.sessions true).recvBuffer.getLeftInSize⟩, ?_, hleft⟩
        rw [hhear.reads]
        rfl
      have hpre : [b] <+: l.wire false := by
        rw [hwire]
        exact List.prefix_append [b] bs
      exact absurd ⟨hposs, List.cons_ne_nil _ _, hpre⟩
        (hrest true (.readDone 0 (.success [b])) trivial)
  · rcases h.orderly.ops with ⟨hw, -⟩ | ⟨op, hw, -, -, hne, -⟩
    · exact hw
    · have hposs : (l.sessions false).Possible (.writeDone 0 (.success 1)) := by
        refine ⟨op, ?_, List.length_pos_iff.mpr hne⟩
        rw [hw]
        rfl
      exact absurd ⟨hposs, trivial, Nat.one_pos⟩
        (hrest false (.writeDone 0 (.success 1)) trivial)

/-- From every state of a link the completions come to rest, in whatever order they are. At rest the
acceptor's handler has been given all that was appended, unless the connector's side sleeps on
unsent bytes. -/
theorem link_settles {handler : Bool → EventHandler} {sessions : Bool → HSSession}
    (ho : Opened w L handler sessions) (hL : hsNetPacketMaxSize ≤ L) (hL' : L < 2 ^ 64)
    (hfuel : L < fuel) {es : List (Bool × SessionEvent)}
    (h : Run (Step w fuel) (connected sessions) es l) :
    (∃ es' l', Run (Guarded (fun _ e => Progress e.2) (Step w fuel)) l es' l' ∧ AtRest l') ∧
    (¬ ∃ f : ℕ → Link, f 0 = l ∧
      ∀ n, ∃ e, Guarded (fun _ e => Progress e.2) (Step w fuel) (f n) e (f (n + 1))) ∧
    (AtRest l → Awake (l.sessions false) →
      ∃ datas, List.Forall₂ (IsEncoding w) datas (l.sessions false).appended ∧
        (l.sessions true).calls = .onConnect :: datas.map .onReceive) := by
  have hlinked := Linked.run ho hL hL' hfuel h
  have hstep : ∀ l e l', Linked w L (handler true) l →
      Guarded (fun _ e => Progress e.2) (Step w fuel) l e l' →
        Linked w L (handler true) l' ∧ pending l' < pending l :=
    fun _ _ _ hl hs => hl.progress (ho.calm true) hL hfuel hs
  refine ⟨?_, no_endless hstep hlinked, ?_⟩
  · obtain ⟨es', l', hrun, hend⟩ := exists_rest hstep hlinked
    refine ⟨es', l', hrun, ?_⟩
    intro side e hp hposs
    have hl' : Linked w L (handler true) l' :=
      hrun.invariant hlinked fun l₁ e l₂ hl₁ hs => (hstep l₁ e l₂ hl₁ hs).1
    obtain ⟨l'', hexec, -⟩ := hl'.step (ho.calm true) hL hfuel hposs
    exact hend (side, e) l'' ⟨hp, hposs, hexec⟩
  · intro hrest hawake
    obtain ⟨hwire, hwrites⟩ := hlinked.atRest hrest
    have hunsent : (l.sessions false).sendBuffer.unsent = [] :=
      (hlinked.orderly.awake_iff.mp hawake).resolve_right fun hne => hne hwrites
    obtain ⟨datas, got, henc, -, hcalls, hall⟩ := hlinked.delivered
    exact ⟨datas, henc, by rw [hcalls, hall hwire hunsent]⟩

theorem link_settles_sent :
    ∃ l es' l', (l.sessions false).sendBuffer.unsent.length = 13 ∧
      Run (Guarded (fun _ e => Progress e.2) (Step .eight 8193)) l es' l' ∧ AtRest l' := by
  obtain ⟨l, hrun, hl⟩ := @run_of_foldlM .eight 8193 _ (connected passive)
    [(false, .send ⟨[7], by decide⟩)] (fun l => (l.sessions false).sendBuffer.unsent.length) 13
    (by decide +kernel)
  obtain ⟨⟨es', l', hrest⟩, -⟩ :=
    link_settles opened_passive (by decide) (by decide) (by decide) hrun
  exact ⟨l, es', l', hl, hrest⟩

end Link

end HsCommon
