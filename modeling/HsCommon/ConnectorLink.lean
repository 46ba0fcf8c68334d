import HsCommon.ConnectorLog
import HsCommon.Disconnects
import HsCommon.SessionLink
import HsCommon.SessionSafe

/-!
# A connector that sends to an accepted session

A client's `HSClientConnector` on one end of a connection and a server's accepted
session on the other. The connector offers its whole send buffer again in every
call of `send` on the socket, so with a socket that takes all bytes or none the
session's handler is given, for each call that took bytes, all packets from the
first one on.

What the session sends is not followed: the connector's `recv` has no room and gives
nothing, whatever has arrived.
-/

namespace HsCommon.HSSession

structure Left (s s' : HSSession) : Prop where
  calls : s.eventHandler.isSome → s'.calls = s.calls ++ [.onDisconnect]
  closes : s.closes < s'.closes
  isConnected : s'.isConnected = false

theorem Dropped.left {s s₁ s' : HSSession} (h : Dropped s₁ s')
    (hh : s₁.eventHandler = s.eventHandler) (hcalls : s₁.calls = s.calls)
    (hcloses : s₁.closes = s.closes) : Left s s' where
  calls hsome := hcalls ▸ h.calls (hh ▸ hsome)
  closes := hcloses ▸ h.closes
  isConnected := h.isConnected

theorem Buffered.exec_closing {w : ULongWidth} {fuel : ℕ} {s : HSSession} (h : Buffered s)
    {e : SessionEvent} (he : Closing e) (hposs : s.Possible e) (m : Option ℕ) :
    ∃ s', s.exec w fuel m e = .ok (m, s') ∧ Left s s' := by
  cases e with
  | send data => exact he.elim
  | readDone k result =>
    cases result with
    | success chunk => exact he.elim
    | failure v =>
      have hop := List.getElem?_eq_getElem hposs
      obtain ⟨s₁, hs₁⟩ :=
        @Buffered.call w { s with reads := s.reads.eraseIdx k } h .onDisconnect
      have hd := (drop_dropped { s with reads := s.reads.eraseIdx k }).result hs₁
      refine ⟨s₁.clear, ?_, hd.left rfl rfl rfl⟩
      simp only [HSSession.exec, hop, deliver, Completion.count, handleRead]
      rw [if_neg he, hs₁]
      rfl
  | writeDone k result =>
    cases result with
    | success n => exact he.elim
    | failure v =>
      have hop := List.getElem?_eq_getElem hposs
      obtain ⟨s₁, hs₁⟩ :=
        @Buffered.call w { s with writes := s.writes.eraseIdx k } h .onDisconnect
      have hd := (drop_dropped { s with writes := s.writes.eraseIdx k }).result hs₁
      refine ⟨s₁.clear, ?_, hd.left rfl rfl rfl⟩
      simp only [HSSession.exec, hop, accept, HSSession.writeResult]
      rw [if_neg he, hs₁]
      rfl

end HsCommon.HSSession

namespace HsCommon.HSClientConnector
open Transition

variable {w : ULongWidth} {results : ℕ → ℤ} {c : HSClientConnector} {n : ℕ}

/-- The socket takes all of at most `n` bytes, or nothing. -/
def Whole (n : ℕ) (results : ℕ → ℤ) : Prop := ∀ k, results k ≤ 0 ∨ (n : ℤ) ≤ results k

/-- In the calls that took bytes the first `k` packets were taken, for each `k` of `ks`. -/
structure Resent (w : ULongWidth) (results : ℕ → ℤ) (datas : List (List UInt8)) (ks : List ℕ)
    (c : HSClientConnector) : Prop where
  packets : List.Forall₂ (IsEncoding w) datas c.written
  mono : ks.Pairwise (· ≤ ·)
  bounds : ∀ k ∈ ks, 0 < k ∧ k ≤ datas.length
  count : ks.length = taking results c.sends
  taken : c.accepted.map Prod.fst = (ks.flatMap fun k => c.written.take k).flatten

theorem Resent.queued {datas : List (List UInt8)} {ks : List ℕ} (h : Resent w results datas ks c)
    {data x : List UInt8} (hx : IsEncoding w data x) :
    Resent w results (datas ++ [data]) ks (c.queued x) := by
  have hlen := h.packets.length_eq
  refine ⟨List.rel_append h.packets (.cons hx .nil), h.mono, ?_, h.count, ?_⟩
  · intro k hk
    obtain ⟨hpos, hle⟩ := h.bounds k hk
    rw [List.length_append]
    exact ⟨hpos, hle.trans (Nat.le_add_right _ _)⟩
  · have hsame : (ks.flatMap fun k => (c.written ++ [x]).take k) =
        ks.flatMap fun k => c.written.take k := by
      refine List.flatMap_congr fun k hk => ?_
      exact List.take_append_of_le_length (hlen ▸ (h.bounds k hk).2)
    change c.accepted.map Prod.fst = (ks.flatMap fun k => (c.written ++ [x]).take k).flatten
    rw [hsame, h.taken]

theorem Resent.offered {datas : List (List UInt8)} {ks : List ℕ} (h : Resent w results datas ks c)
    (hwhole : Whole n results) (hn : c.written.flatten.length ≤ n) (hne : c.written.flatten ≠ []) :
    ∃ ks', Resent w results datas ks' (c.offered results) := by
  have hlen := h.packets.length_eq
  have hpos := List.length_pos_iff.mpr hne
  have hsucc := taking_succ results c.sends
  rcases hwhole c.sends with hnone | hall
  · have hzero : (min (results c.sends) (c.written.flatten.length : ℤ)).toNat = 0 := by omega
    refine ⟨ks, h.packets, h.mono, h.bounds, ?_, ?_⟩
    · change ks.length = taking results (c.sends + 1)
      rw [hsucc, if_neg (not_lt.mpr hnone), h.count, Nat.add_zero]
    · simp only [HSClientConnector.offered, hzero, List.take_zero, List.append_nil]
      exact h.taken
  · have hfull : (min (results c.sends) (c.written.flatten.length : ℤ)).toNat =
        c.written.flatten.length := by omega
    have htakes : 0 < results c.sends := by omega
    refine ⟨ks ++ [c.written.length], h.packets, ?_, ?_, ?_, ?_⟩
    · refine List.pairwise_append.mpr ⟨h.mono, List.pairwise_singleton _ _, ?_⟩
      intro k hk m hm
      obtain rfl := List.mem_singleton.mp hm
      exact hlen ▸ (h.bounds k hk).2
    · intro k hk
      rcases List.mem_append.mp hk with hk | hk
      · exact h.bounds k hk
      · obtain rfl := List.mem_singleton.mp hk
        refine ⟨List.length_pos_iff.mpr fun hnil => hne ?_, hlen.ge⟩
        rw [hnil, List.flatten_nil]
    · change (ks ++ [c.written.length]).length = taking results (c.sends + 1)
      rw [hsucc, if_pos htakes, List.length_append, h.count, List.length_singleton]
    · have hbytes : (c.written.flatten.zipIdx.take c.written.flatten.length).map Prod.fst =
          c.written.flatten := by
        rw [List.take_of_length_le (List.length_zipIdx).le, List.zipIdx_map_fst]
      simp only [HSClientConnector.offered, hfull, List.map_append, hbytes, List.flatMap_append,
        List.flatten_append, List.flatMap_singleton, List.take_length]
      rw [h.taken]

def Resends (w : ULongWidth) (results : ℕ → ℤ) (n : ℕ) (c : HSClientConnector) : Prop :=
  Within n c ∧ ∃ datas ks, Resent w results datas ks c

theorem logSide_resends (w : ULongWidth) (hwhole : Whole n results) :
    LogSide w results (Resends w results n) where
  frame c c' h hsame := by
    obtain ⟨hwithin, datas, ks, hr⟩ := h
    refine ⟨(logSide_within w results n).frame c c' hwithin hsame, datas, ks, ?_⟩
    obtain ⟨hpackets, hmono, hbounds, hcount, htaken⟩ := hr
    exact ⟨hsame.written ▸ hpackets, hmono, hbounds, hsame.sends ▸ hcount,
      by rw [hsame.accepted, hsame.written, htaken]⟩
  queued c data x h hp hl henc hx := by
    obtain ⟨hwithin, datas, ks, hr⟩ := h
    exact ⟨(logSide_within w results n).queued c data x hwithin hp hl henc hx, datas ++ [data], ks,
      hr.queued henc⟩
  offered c h hne := by
    obtain ⟨hwithin, datas, ks, hr⟩ := h
    obtain ⟨ks', hr'⟩ := hr.offered hwhole hwithin.1 hne
    exact ⟨(logSide_within w results n).offered c hwithin hne, datas, ks', hr'⟩

theorem logSide_accepted (w : ULongWidth) (results : ℕ → ℤ) (xs : List (UInt8 × ℕ)) :
    LogSide w results fun c => xs <+: c.accepted where
  frame _ _ h hsame := hsame.accepted ▸ h
  queued _ _ _ h _ _ _ _ := h
  offered _ h _ := h.trans (List.prefix_append _ _)

end HsCommon.HSClientConnector

namespace HsCommon
open Transition Outcome Framing

/-- `wire` has the bytes that the connector's socket has taken and the session has not received. -/
structure ClientLink where
  client : HSClientConnector
  maxReadLength : Option ℕ
  server : HSSession
  wire : List UInt8

inductive ClientLinkEvent
  | client (e : ConnectorEvent)
  | server (e : SessionEvent)

namespace ClientLink
open HSSession HSClientConnector

/-- Reads complete with bytes that are on the way, writes with a number of bytes that is not 0, and
both with any error. -/
def Allows (l : ClientLink) : SessionEvent → Prop
  | .readDone _ (.success chunk) => chunk ≠ [] ∧ chunk <+: l.wire
  | e => NonZero e

def Possible (l : ClientLink) : ClientLinkEvent → Prop
  | .client e => l.client.Possible e
  | .server e => l.server.Possible e ∧ l.Allows e

def left (l : ClientLink) : SessionEvent → List UInt8
  | .readDone _ (.success chunk) => l.wire.drop chunk.length
  | _ => l.wire

def exec (w : ULongWidth) (results : ℕ → ℤ) (fuel : ℕ) (handler : DataHandler) (l : ClientLink) :
    ClientLinkEvent → Except Fault ClientLink
  | .client e => do
    let c ← l.client.exec w results fuel (some handler) e
    return { l with
      client := c
      wire := l.wire ++ (c.accepted.drop l.client.accepted.length).map Prod.fst }
  | .server e => do
    let (m, s) ← l.server.exec w fuel l.maxReadLength e
    return { l with maxReadLength := m, server := s, wire := l.left e }

def Step (w : ULongWidth) (results : ℕ → ℤ) (fuel : ℕ) (handler : DataHandler) (l : ClientLink)
    (e : ClientLinkEvent) (l' : ClientLink) : Prop :=
  l.Possible e ∧ l.exec w results fuel handler e = .ok l'

/-- An operation of the session ends with an error on which it is closed, as its read does once the
connector has closed the connection. -/
def Breaks : ClientLinkEvent → Prop
  | .client _ => False
  | .server e => Closing e

instance (l : ClientLink) : DecidablePred l.Allows
  | .readDone _ (.success chunk) => inferInstanceAs (Decidable (chunk ≠ [] ∧ chunk <+: l.wire))
  | .readDone k (.failure v) => inferInstanceAs (Decidable (NonZero (.readDone k (.failure v))))
  | .send data => inferInstanceAs (Decidable (NonZero (.send data)))
  | .writeDone k r => inferInstanceAs (Decidable (NonZero (.writeDone k r)))

instance : DecidablePred Breaks
  | .client _ => isFalse id
  | .server e => inferInstanceAs (Decidable (Closing e))

instance (l : ClientLink) : DecidablePred l.Possible
  | .client e => inferInstanceAs (Decidable (l.client.Possible e))
  | .server e => inferInstanceAs (Decidable (l.server.Possible e ∧ l.Allows e))

def next (w : ULongWidth) (results : ℕ → ℤ) (fuel : ℕ) (handler : DataHandler) (l : ClientLink)
    (e : ClientLinkEvent) : Option ClientLink :=
  if ¬ Breaks e ∧ l.Possible e then (l.exec w results fuel handler e).toOption else none

variable {w : ULongWidth} {results : ℕ → ℤ} {fuel L n : ℕ} {dataHandler : DataHandler}
  {handler : EventHandler} {l l' : ClientLink}

theorem step_of_next {e : ClientLinkEvent} (h : l.next w results fuel dataHandler e = some l') :
    Guarded (fun _ e => ¬ Breaks e) (Step w results fuel dataHandler) l e l' := by
  obtain ⟨⟨hgoes, hposs⟩, hexec⟩ := possible_of_next h
  exact ⟨hgoes, hposs, hexec⟩

structure Heard (w : ULongWidth) (results : ℕ → ℤ) (n L : ℕ) (handler : EventHandler)
    (l : ClientLink) : Prop where
  client : Kept results (Resends w results n) l.client
  limit : ∀ k ∈ l.maxReadLength, k = L - hsNetPacketMaxSize
  hearing : ∃ bytes, l.client.accepted.map Prod.fst = bytes ++ l.wire ∧
    Hearing w L handler bytes l.server

theorem packets_taken {c : HSClientConnector} {datas : List (List UInt8)} {ks : List ℕ}
    (h : Resent w results datas ks c) :
    List.Forall₂ (IsEncoding w) (ks.flatMap fun k => datas.take k)
      (ks.flatMap fun k => c.written.take k) := by
  refine List.rel_flatMap (List.forall₂_same.mpr fun _ _ => rfl) ?_
  rintro k _ rfl
  exact List.forall₂_take k h.packets

theorem Heard.drains (h : Heard w results n L handler l) {bytes : List UInt8}
    (hpre : bytes <+: l.client.accepted.map Prod.fst) :
    ∃ datas ks got r, Resent w results datas ks l.client ∧
      Drains (decodeBytes w) bytes got (some r) ∧ got <+: (ks.flatMap fun k => datas.take k) ∧
      (bytes = l.client.accepted.map Prod.fst → got = ks.flatMap fun k => datas.take k) := by
  obtain ⟨-, datas, ks, hr⟩ := h.client.logs
  rw [hr.taken] at hpre ⊢
  obtain ⟨got, r, hd, hgot, hall⟩ := drains_packets (incremental_decodeBytes w)
    (decodeBytes_nil w) (fun v x (hx : IsEncoding w v x) => hx.decodes) (packets_taken hr) hpre
  exact ⟨datas, ks, got, r, hr, hd, hgot, hall⟩

theorem Heard.client_step (h : Heard w results n L handler l) (hwhole : Whole n results)
    {e : ConnectorEvent} (hposs : l.client.Possible e) :
    ∃ l', l.exec w results fuel dataHandler (.client e) = .ok l' ∧
      Heard w results n L handler l' := by
  have hends : Ends (Kept results (Resends w results n)) (fun _ => False)
      (l.client.exec w results fuel (some dataHandler) e) :=
    (logSide_resends w hwhole).exec h.client hposs _
  have hmore : Ends (Kept results fun c => l.client.accepted <+: c.accepted) (fun _ => True)
      (l.client.exec w results fuel (some dataHandler) e) :=
    (logSide_accepted w results _).exec ⟨h.client.sound, List.prefix_rfl⟩ hposs _
  cases hexec : l.client.exec w results fuel (some dataHandler) e with
  | error f => exact (hends.fault hexec).elim
  | ok c =>
    obtain ⟨t, ht⟩ := (hmore.result hexec).logs
    obtain ⟨bytes, hbytes, hhear⟩ := h.hearing
    refine ⟨{ l with
      client := c
      wire := l.wire ++ (c.accepted.drop l.client.accepted.length).map Prod.fst }, ?_,
      hends.result hexec, h.limit, bytes, ?_, hhear⟩
    · rw [ClientLink.exec, hexec]
      rfl
    · dsimp only
      rw [← ht, List.drop_left, List.map_append, hbytes, List.append_assoc]

theorem Heard.server_write (h : Heard w results n L handler l) {e : SessionEvent}
    (he : WriteEvent e) (hnz : NonZero e) (hposs : l.server.Possible e) :
    ∃ l', l.exec w results fuel dataHandler (.server e) = .ok l' ∧
      Heard w results n L handler l' := by
  obtain ⟨bytes, hbytes, hhear⟩ := h.hearing
  obtain ⟨s, hs, hall⟩ := hhear.reading.send.exec he hposs w fuel
  refine ⟨{ l with server := s }, ?_, h.client, h.limit, bytes, hbytes,
    hhear.beside hs.beside (hhear.reading.send.step hs hnz)⟩
  rw [ClientLink.exec, hall]
  cases e with
  | readDone k r => exact he.elim
  | send data => rfl
  | writeDone k r => rfl

theorem Heard.arrival (h : Heard w results n L handler l) (hcalm : Calm handler)
    (hL : hsNetPacketMaxSize ≤ L) (hfuel : L < fuel) {k : ℕ} {chunk : List UInt8}
    (hposs : l.Possible (.server (.readDone k (.success chunk)))) :
    ∃ l', l.exec w results fuel dataHandler (.server (.readDone k (.success chunk))) = .ok l' ∧
      Heard w results n L handler l' := by
  obtain ⟨hposs, hne, hchunk⟩ := hposs
  obtain ⟨bytes, hbytes, hhear⟩ := h.hearing
  have hwire : l.wire = chunk ++ l.wire.drop chunk.length :=
    (List.prefix_iff_eq_append.mp hchunk).symm
  have hpre : bytes ++ chunk <+: l.client.accepted.map Prod.fst := by
    rw [hbytes]
    exact (List.prefix_append_right_inj bytes).mpr hchunk
  obtain ⟨-, -, got, r, -, hd, -⟩ := h.drains hpre
  obtain ⟨m, s, hexec, hm, hhear'⟩ := hhear.received hcalm hL hfuel hne hposs hd h.limit
  refine ⟨{ l with maxReadLength := m, server := s, wire := l.wire.drop chunk.length }, ?_,
    h.client, hm, bytes ++ chunk, ?_, hhear'⟩
  · rw [ClientLink.exec, hexec]
    rfl
  · dsimp only
    rw [List.append_assoc, ← hwire, hbytes]

theorem wouldBlock_of_goes {v : ℤ} (h : ¬ handleError v ≠ 0) : v = 10035 := by
  by_contra hv
  exact h (by simp [handleError, hv])

theorem Heard.step (h : Heard w results n L handler l) (hwhole : Whole n results)
    (hcalm : Calm handler) (hL : hsNetPacketMaxSize ≤ L) (hfuel : L < fuel) {e : ClientLinkEvent}
    (hposs : l.Possible e) (hgoes : ¬ Breaks e) :
    ∃ l', l.exec w results fuel dataHandler e = .ok l' ∧ Heard w results n L handler l' := by
  cases e with
  | client e => exact h.client_step hwhole hposs
  | server e =>
    cases e with
    | send data => exact h.server_write trivial hposs.2 hposs.1
    | writeDone k r =>
      cases r with
      | success n => exact h.server_write trivial hposs.2 hposs.1
      | failure v => exact h.server_write (wouldBlock_of_goes hgoes) hposs.2 hposs.1
    | readDone k r =>
      cases r with
      | success chunk => exact h.arrival hcalm hL hfuel hposs
      | failure v =>
        obtain rfl : v = 10035 := wouldBlock_of_goes hgoes
        obtain ⟨bytes, -, hhear⟩ := h.hearing
        refine ⟨l, ?_, h⟩
        rw [ClientLink.exec, hhear.blocked hposs.1]
        rfl

theorem Heard.breaks (h : Heard w results n L handler l) {e : ClientLinkEvent}
    (hposs : l.Possible e) (hb : Breaks e) :
    ∃ l', l.exec w results fuel dataHandler e = .ok l' ∧ Left l.server l'.server := by
  obtain ⟨bytes, -, hhear⟩ := h.hearing
  cases e with
  | client e => exact hb.elim
  | server e =>
    obtain ⟨s, hexec, hleft⟩ :=
      Buffered.exec_closing hhear.reading.send.buffer hb hposs.1 l.maxReadLength
    refine ⟨{ l with server := s, wire := l.left e }, ?_, hleft⟩
    rw [ClientLink.exec, hexec]
    rfl

structure Opened (w : ULongWidth) (results : ℕ → ℤ) (fuel n L : ℕ) (dataHandler : DataHandler)
    (handler : EventHandler) (l : ClientLink) : Prop where
  dialed : ∃ recvLen sock recvMem sendMem es, 0 < sock ∧
    Run (HSClientConnector.Step w results fuel (some dataHandler))
      (initialized recvLen n sock recvMem sendMem) es l.client ∧ l.client.state = .connected
  accepted : ∃ sendLen recvMem sendMem, sendLen < 2 ^ 64 ∧
    (HSSession.new L sendLen recvMem sendMem).acceptedBy w (some handler) 0 = .ok l.server
  limit : l.maxReadLength = none
  wire : l.wire = l.client.accepted.map Prod.fst

theorem heard_opened (ho : Opened w results fuel n L dataHandler handler l) (hn : 0 < n)
    (hn' : n < 2 ^ 64) (hwhole : Whole n results) (hcalm : Calm handler) (hL : 0 < L)
    (hL' : L < 2 ^ 64) : Heard w results n L handler l := by
  obtain ⟨recvLen, sock, recvMem, sendMem, es, hsock, hrun, -⟩ := ho.dialed
  obtain ⟨sendLen, recvMem', sendMem', hsend, haccept⟩ := ho.accepted
  obtain ⟨hhear, -, -⟩ := hearing_accepted hcalm hL hL' hsend haccept
  have hstart : Kept results (Resends w results n)
      (initialized recvLen n sock recvMem sendMem) := by
    refine ⟨sound_initialized results hn' hsock recvMem sendMem,
      within_initialized hn hsock recvMem sendMem, [], [], ?_⟩
    rw [initialized_eq hsock]
    exact ⟨.nil, .nil, fun k hk => (by cases hk), rfl, rfl⟩
  refine ⟨(logSide_resends w hwhole).run hstart hrun, ?_, [], ?_, hhear⟩
  · rw [ho.limit]
    intro k hk
    cases hk
  · rw [ho.wire, List.nil_append]

/-- What the session's handler has been told: for each call that took bytes the packets that the
connector had then, from the first one on, and all of this when no byte is on the way. -/
def Repeated (w : ULongWidth) (results : ℕ → ℤ) (l : ClientLink) : Prop :=
  ∃ datas ks got, Resent w results datas ks l.client ∧
    got <+: (ks.flatMap fun k => datas.take k) ∧
    l.server.calls = .onConnect :: got.map .onReceive ∧
    (l.wire = [] → got = ks.flatMap fun k => datas.take k)

theorem Heard.repeated (h : Heard w results n L handler l) : Repeated w results l := by
  obtain ⟨bytes, hbytes, hhear⟩ := h.hearing
  obtain ⟨vs, hvs, hcalls⟩ := hhear.drained
  obtain ⟨datas, ks, got, r, hr, hd, hpre, hall⟩ := h.drains ⟨l.wire, hbytes.symm⟩
  obtain ⟨rfl, -⟩ := hvs.unique hd
  refine ⟨datas, ks, vs, hr, hpre, hcalls, ?_⟩
  intro hwire
  apply hall
  rw [hbytes, hwire, List.append_nil]

/-- Whatever the order of the events and whatever the connector's handler does: a connector whose
socket takes all or nothing sends every packet again with each later one and with each tick, the
session takes all of them for good, the connector hears nothing, and no fault is in reach. The
first operation of the session that breaks the connection tells its handler once. -/
theorem client_link_repeats (ho : Opened w results fuel n L dataHandler handler l) (hn : 0 < n)
    (hn' : n < 2 ^ 64) (hwhole : Whole n results) (hcalm : Calm handler)
    (hL : hsNetPacketMaxSize ≤ L) (hL' : L < 2 ^ 64) (hfuel : L < fuel)
    {es : List ClientLinkEvent}
    (h : Run (Guarded (fun _ e => ¬ Breaks e) (Step w results fuel dataHandler)) l es l') :
    Repeated w results l' ∧ (∀ data, .onReceive data ∉ l'.client.calls) ∧
      l'.server.closes = 0 ∧
      ∀ e, l'.Possible e → ∃ l'', Step w results fuel dataHandler l' e l'' ∧
        (Breaks e → l''.server.calls = l'.server.calls ++ [.onDisconnect] ∧
          0 < l''.server.closes ∧ l''.server.isConnected = false) := by
  have hpos : 0 < L := lt_of_lt_of_le (by decide) hL
  have hheard : Heard w results n L handler l' := by
    refine h.invariant (heard_opened ho hn hn' hwhole hcalm hpos hL') ?_
    rintro l₁ e l₂ h₁ ⟨hgoes, hposs, hexec⟩
    obtain ⟨l₃, hexec', h₃⟩ : ∃ l₃, l₁.exec w results fuel dataHandler e = .ok l₃ ∧
        Heard w results n L handler l₃ := h₁.step hwhole hcalm hL hfuel hposs hgoes
    rw [hexec] at hexec'
    obtain rfl := Except.ok.inj hexec'
    exact h₃
  obtain ⟨bytes, -, hhear⟩ := hheard.hearing
  refine ⟨hheard.repeated, hheard.client.sound.calls, hhear.closes, ?_⟩
  intro e hposs
  by_cases hb : Breaks e
  · obtain ⟨l'', hexec, hleft⟩ := hheard.breaks hposs hb
    have hsome : l'.server.eventHandler.isSome := hhear.reading.eventHandler ▸ rfl
    exact ⟨l'', ⟨hposs, hexec⟩, fun _ =>
      ⟨hleft.calls hsome, Nat.zero_lt_of_lt hleft.closes, hleft.isConnected⟩⟩
  · obtain ⟨l'', hexec, -⟩ := hheard.step hwhole hcalm hL hfuel hposs hb
    exact ⟨l'', ⟨hposs, hexec⟩, fun hbreaks => absurd hbreaks hb⟩

theorem client_link_repeats_first :
    ∃ l, Repeated .eight (fun _ => 64) l ∧ l.server.calls =
      [.onConnect, .onReceive [1], .onReceive [1], .onReceive [2]] ∧ l.server.closes = 0 := by
  let client : HSClientConnector :=
    { initialized 8192 64 1 (fun _ => 0) (fun _ => 0) with
      state := .connected, calls := [.onConnect 0] }
  let start : ClientLink := ⟨client, none, Link.passive true, []⟩
  have hdial : Run (HSClientConnector.Step .eight (fun _ => 64) 8193 (some fun _ => []))
      (initialized 8192 64 1 (fun _ => 0) (fun _ => 0)) ([] ++ [.connect 0 false]) client :=
    .snoc .nil ⟨by decide, rfl⟩
  have hcalm : Calm fun _ => [] := fun _ h => by cases h
  have ho : Opened .eight (fun _ => 64) 8193 64 8192 (fun _ => []) (fun _ => []) start :=
    ⟨⟨8192, 1, fun _ => 0, fun _ => 0, _, by decide, hdial, rfl⟩,
      ⟨64, fun _ => 0, fun _ => 0, by decide, rfl⟩, rfl, rfl⟩
  let first := encoding .eight [1] [0, 0, 0, 0]
  let second := encoding .eight [2] [0, 0, 0, 0]
  obtain ⟨l, hrun, hl⟩ := @Run.of_observed _ _
    (Guarded (fun _ e => ¬ Breaks e) (Step .eight (fun _ => 64) 8193 fun _ => [])) start _ _
    (fun _ _ _ => step_of_next)
    [.client (.send ⟨[1], by decide⟩), .client (.send ⟨[2], by decide⟩),
      .server (.readDone 0 (.success (first ++ first))),
      .server (.readDone 0 (.success second)), .client .close]
    (fun l => l.server.calls) [.onConnect, .onReceive [1], .onReceive [1], .onReceive [2]]
    (by decide +kernel)
  have hwhole : Whole 64 fun _ => 64 := fun _ => Or.inr le_rfl
  obtain ⟨hrepeated, -, hopen, -⟩ := client_link_repeats ho (by decide) (by decide) hwhole hcalm
    (by decide) (by decide) (by decide) hrun
  exact ⟨l, hrepeated, hl, hopen⟩

end ClientLink

end HsCommon
