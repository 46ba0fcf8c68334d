import HsCommon.SessionLink
import HsCommon.SessionRoom

/-!
# hs_server.h

A server and its clients. The acceptor of an `HSClientServer` has the session id 0,
so each accept is given a session of its own. Each client is a connector's session
in a process of its own; it can send as soon as its connect has succeeded, also
while the server has not run the handler of the accept.

The sessions of the server share nothing but the static limit of `handle_read`. So
a connection on which something else happens than what the client sends, bytes of
another origin or an error, is lost for its own session only.
-/

namespace HsCommon
open Transition Outcome

structure HSClientServer where
  eventHandler : Option EventHandler
  acceptor : Option HSAcceptor

namespace HSClientServer

def new : HSClientServer := ⟨none, none⟩

def setEventhandler (eventHandler : Option EventHandler) (c : HSClientServer) : HSClientServer :=
  { c with eventHandler := eventHandler }

def start (recvMem sendMem : ℕ → ℕ → UInt8) (c : HSClientServer) (p : IoService) :
    HSClientServer × IoService :=
  let acceptor : HSAcceptor := ⟨0, c.eventHandler⟩
  ({ c with acceptor := some acceptor }, acceptor.start recvMem sendMem p)

end HSClientServer

structure Dial where
  recvLen : ℕ
  sendLen : ℕ
  recvMem : ℕ → UInt8
  sendMem : ℕ → UInt8
  handler : EventHandler
  calm : HSSession.Calm handler
  sendLen_lt : sendLen < 2 ^ 64

def Dial.session (w : ULongWidth) (d : Dial) : Except Fault HSSession :=
  (HSSession.new d.recvLen d.sendLen d.recvMem d.sendMem).dialedBy w (some d.handler)

/-- Clients are numbered in the order of their connects. `waiting` has those that no accept has
taken yet, `sessionOf` the server's sessions of the others, and `lost` those whose connection has
had an event of another origin at the server. -/
structure ServerNet where
  service : IoService
  clients : ℕ → HSSession
  dials : ℕ
  limits : ℕ → Option ℕ
  wire : ℕ → Bool → List UInt8
  waiting : List ℕ
  sessionOf : ℕ → Option ℕ
  lost : ℕ → Bool

inductive NetEvent
  | dial (d : Dial)
  | accepted (k c : ℕ)
  | refused (k : ℕ) (errorValue : ℤ)
  | along (c : ℕ) (side : Bool) (e : SessionEvent)
  | beyond (c : ℕ) (e : SessionEvent)

namespace ServerNet
open HSSession Link

def connection (n : ServerNet) (c : ℕ) : Link where
  maxReadLength
    | false => n.limits c
    | true => n.service.maxReadLength
  sessions
    | false => n.clients c
    | true => n.service.sessions ((n.sessionOf c).getD 0)
  wire := n.wire c

def Possible (n : ServerNet) : NetEvent → Prop
  | .dial _ => True
  | .accepted k c => k < n.service.accepts.length ∧ c ∈ n.waiting
  | .refused k _ => k < n.service.accepts.length
  | .along c side e => c < n.dials ∧ n.lost c = false ∧
      (side = true → (n.sessionOf c).isSome) ∧ (n.connection c).Possible (side, e)
  | .beyond c e => ∃ i ∈ n.sessionOf c, i < n.service.count ∧ (n.service.sessions i).Possible e

instance (n : ServerNet) : DecidablePred n.Possible
  | .dial _ => isTrue trivial
  | .accepted k c => inferInstanceAs (Decidable (k < n.service.accepts.length ∧ c ∈ n.waiting))
  | .refused k _ => inferInstanceAs (Decidable (k < n.service.accepts.length))
  | .along c side e =>
    inferInstanceAs (Decidable (c < n.dials ∧ n.lost c = false ∧
      (side = true → (n.sessionOf c).isSome) ∧ (n.connection c).Possible (side, e)))
  | .beyond c e =>
    inferInstanceAs (Decidable (∃ i ∈ n.sessionOf c, i < n.service.count ∧
      (n.service.sessions i).Possible e))

section Exec
variable (w : ULongWidth) (fuel : ℕ) (recvMem sendMem : ℕ → ℕ → UInt8)

def start (handler : EventHandler) : ServerNet where
  service := ((HSClientServer.new.setEventhandler (some handler)).start recvMem sendMem .init).2
  clients _ := .new 0 0 (fun _ => 0) fun _ => 0
  dials := 0
  limits _ := none
  wire _ _ := []
  waiting := []
  sessionOf _ := none
  lost _ := false

def exec (n : ServerNet) : NetEvent → Except Fault ServerNet
  | .dial d => do
    let s ← d.session w
    return { n with
      clients := Function.update n.clients n.dials s
      dials := n.dials + 1
      wire := Function.update n.wire n.dials fun _ => []
      waiting := n.waiting ++ [n.dials] }
  | .accepted k c => do
    let p ← n.service.exec w fuel recvMem sendMem (.acceptDone k (.success ()))
    return { n with
      service := p
      waiting := n.waiting.erase c
      sessionOf := Function.update n.sessionOf c (n.service.accepts[k]?.map AcceptOp.session) }
  | .refused k errorValue => do
    let p ← n.service.exec w fuel recvMem sendMem (.acceptDone k (.failure errorValue))
    return { n with service := p }
  | .along c false e => do
    let (m, s) ← (n.clients c).exec w fuel (n.limits c) e
    return { n with
      clients := Function.update n.clients c s
      limits := Function.update n.limits c m
      wire := Function.update n.wire c ((n.connection c).carried false e) }
  | .along c true e => do
    let p ← n.service.exec w fuel recvMem sendMem (.session ((n.sessionOf c).getD 0) e)
    return { n with
      service := p
      wire := Function.update n.wire c ((n.connection c).carried true e) }
  | .beyond c e => do
    let p ← n.service.exec w fuel recvMem sendMem (.session ((n.sessionOf c).getD 0) e)
    return { n with service := p, lost := Function.update n.lost c true }

def Step (n : ServerNet) (e : NetEvent) (n' : ServerNet) : Prop :=
  n.Possible e ∧ n.exec w fuel recvMem sendMem e = .ok n'

def next (n : ServerNet) (e : NetEvent) : Option ServerNet :=
  if n.Possible e then (n.exec w fuel recvMem sendMem e).toOption else none

theorem run_of_foldlM {α : Type*} {n₀ : ServerNet} {es : List NetEvent} {f : ServerNet → α} {v : α}
    (h : (es.foldlM (next w fuel recvMem sendMem) n₀).map f = some v) :
    ∃ n, Run (Step w fuel recvMem sendMem) n₀ es n ∧ f n = v :=
  Run.of_observed (fun _ _ _ => possible_of_next) h

end Exec

end ServerNet

section Parts
variable {w : ULongWidth} {fuel L : ℕ} {handler : EventHandler}

theorem HSAcceptor.start_new (recvMem sendMem : ℕ → ℕ → UInt8) (eventHandler : Option EventHandler)
    (p : IoService) :
    HSAcceptor.start recvMem sendMem ⟨0, eventHandler⟩ p = { p with
      sessions := Function.update p.sessions p.count
        (.new clientSessionDataBufferDefaultSize clientSessionDataBufferDefaultSize
          (recvMem p.count) (sendMem p.count))
      count := p.count + 1
      accepts := p.accepts ++ [⟨⟨0, eventHandler⟩, p.count, 0⟩]
      reusedCloses := Function.update p.reusedCloses p.count 0
      connectorOf := Function.update p.connectorOf p.count none } := by
  simp only [HSAcceptor.start, if_true, HSSessionMgr.newSession, Function.update_self]
  rfl

namespace HSSession
variable {s : HSSession}

theorem exists_accepted (hcalm : Calm handler) {recvLen sendLen : ℕ} (hsend : sendLen < 2 ^ 64)
    (recvMem sendMem : ℕ → UInt8) (closes : ℕ) :
    ∃ s', (new recvLen sendLen recvMem sendMem).acceptedBy w (some handler) closes = .ok s' := by
  let s : HSSession := { new recvLen sendLen recvMem sendMem with
    socketOpen := (new recvLen sendLen recvMem sendMem).socketOpen ||
      (new recvLen sendLen recvMem sendMem).closes = closes
    eventHandler := some handler }
  have hord : Orderly s := orderly_accepted hsend recvMem sendMem (some handler) _
  obtain ⟨s₁, hcall, -, -⟩ := hord.call hcalm rfl w .onConnect
  refine ⟨{ s₁ with isConnected := true }.start, ?_⟩
  change (HSSession.connected w s >>= fun t => .ok t.start) = _
  rw [HSSession.connected, hcall]
  rfl

theorem exists_dialed (w : ULongWidth) (d : Dial) : ∃ s', d.session w = .ok s' := by
  have hord : Orderly { (new d.recvLen d.sendLen d.recvMem d.sendMem).clear with
      socketOpen := true, eventHandler := some d.handler } :=
    ⟨(HSSendBuffer.new_ok d.sendMem d.sendLen_lt).clear, Or.inl ⟨rfl, rfl⟩, rfl⟩
  obtain ⟨s₁, hcall, -, -⟩ := hord.call d.calm rfl w .onConnect
  refine ⟨{ s₁ with isConnected := true }, ?_⟩
  rw [Dial.session, dialedBy, HSSession.connected, hcall]
  rfl

theorem Hearing.roomy {bytes : List UInt8} (h : Hearing w L handler bytes s) : Roomy L s := by
  have hok := h.reading.recv
  have hlen := h.reading.length_eq
  have hused := hok.used_le
  have hroom := h.room
  have hleft : s.recvBuffer.getLeftInSize = L - s.recvBuffer.inOffset := by
    rw [HSBuffer.getLeftInSize_eq hok.in_le hok.length_lt, hlen]
  refine ⟨⟨hlen, hok.reset, hroom.le, ?_⟩, hused, Or.inr ⟨_, h.reads, ?_, ?_⟩⟩
  · by_cases heq : s.recvBuffer.inUsedOffset = s.recvBuffer.inOffset
    · have hnil : s.recvBuffer.unread = [] := by
        rw [← List.length_eq_zero_iff, HSRecvBuffer.unread_length, heq, Nat.sub_self]
      have hzero := h.reading.empty hnil
      exact Or.inr ⟨hzero, by omega⟩
    · exact Or.inl (by omega)
  · dsimp only
    omega
  · dsimp only
    omega

end HSSession

namespace Link
open HSSession
variable {l l' : Link}

theorem exec_eq_ok {side : Bool} {e : SessionEvent} (h : l.exec w fuel side e = .ok l') :
    ∃ m s, (l.sessions side).exec w fuel (l.maxReadLength side) e = .ok (m, s) ∧
      l' = ⟨Function.update l.maxReadLength side m, Function.update l.sessions side s,
        l.carried side e⟩ := by
  obtain ⟨⟨m, s⟩, hexec, hres⟩ := exists_of_bind h
  exact ⟨m, s, hexec, (Except.ok.inj hres).symm⟩

theorem Linked.of_limit (h : Linked w L handler l) (hsessions : l'.sessions = l.sessions)
    (hwire : l'.wire = l.wire) (hlimit : ∀ n ∈ l'.maxReadLength true, n = L - hsNetPacketMaxSize) :
    Linked w L handler l' := by
  obtain ⟨m, sessions, wire⟩ := l
  obtain ⟨m', sessions', wire'⟩ := l'
  obtain rfl : sessions' = sessions := hsessions
  obtain rfl : wire' = wire := hwire
  exact ⟨h.orderly, h.reads, h.calls, h.closes, h.packed, hlimit, h.hearing, h.answers⟩

structure Calling (w : ULongWidth) (l : Link) : Prop where
  orderly : Orderly (l.sessions false)
  reads : (l.sessions false).reads = []
  calls : (l.sessions false).calls = [.onConnect]
  closes : (l.sessions false).closes = 1
  packed : Packed w (l.sessions false)
  sent : (l.sessions false).accepted = l.wire false
  quiet : l.wire true = []

theorem Calling.of_same (h : Calling w l) (hsession : l'.sessions false = l.sessions false)
    (hwire : l'.wire = l.wire) : Calling w l' := by
  constructor
  · exact hsession ▸ h.orderly
  · exact hsession ▸ h.reads
  · exact hsession ▸ h.calls
  · exact hsession ▸ h.closes
  · exact hsession ▸ h.packed
  · rw [hsession, hwire]
    exact h.sent
  · rw [hwire]
    exact h.quiet

theorem Calling.step (h : Calling w l) {e : SessionEvent} (hposs : l.Possible (false, e)) :
    ∃ l', l.exec w fuel false e = .ok l' ∧ Calling w l' := by
  have hwrite : WriteEvent e → NonZero e → ∃ l', l.exec w fuel false e = .ok l' ∧ Calling w l' := by
    intro he hnz
    obtain ⟨s, hs, hall⟩ := h.orderly.exec he hposs.1 w fuel
    have hside := hs.beside
    refine ⟨_, exec_write he hall, ?_⟩
    constructor
    · exact h.orderly.step hs hnz
    · exact hside.reads.trans h.reads
    · exact hside.calls.trans h.calls
    · exact hside.closes.trans h.closes
    · exact hs.packed h.packed
    · change s.accepted = l.wire false ++ (l.sessions false).takenWith e
      rw [hs.accepted hposs.1, h.sent]
    · exact h.quiet
  cases e with
  | send data => exact hwrite hposs.2.1 hposs.2.2
  | writeDone k r => exact hwrite hposs.2.1 hposs.2.2
  | readDone k r =>
    have hnil := h.reads
    cases r with
    | success chunk =>
      obtain ⟨op, hop, -⟩ := hposs.1
      rw [hnil] at hop
      cases hop
    | failure v =>
      have hk : k < (l.sessions false).reads.length := hposs.1
      rw [hnil] at hk
      exact absurd hk (Nat.not_lt_zero k)

theorem Calling.accepted (h : Calling w l) (hsession : l'.sessions false = l.sessions false)
    (hwire : l'.wire = l.wire) (hhear : Hearing w L handler [] (l'.sessions true))
    (hlogged : Packed w (l'.sessions true) ∧ (l'.sessions true).accepted = [])
    (hlimit : ∀ n ∈ l'.maxReadLength true, n = L - hsNetPacketMaxSize) :
    Linked w L handler l' := by
  have h' := h.of_same hsession hwire
  refine ⟨h'.orderly, h'.reads, h'.calls, h'.closes, h'.packed, hlimit, ⟨[], h'.sent, hhear⟩, ?_,
    hlogged.1⟩
  rw [hlogged.2]
  exact h'.quiet

theorem calling_dialed {d : Dial} {s : HSSession} (hs : d.session w = .ok s)
    (hsession : l.sessions false = s) (hwire : l.wire = fun _ => []) : Calling w l := by
  obtain ⟨hord, hreads, hcalls, hcloses, hpacked, hnone⟩ := dialed_start d.calm d.sendLen_lt hs
  rw [← hsession] at hord hreads hcalls hcloses hpacked hnone
  exact ⟨hord, hreads, hcalls, hcloses, hpacked, by rw [hnone, hwire], by rw [hwire]⟩

end Link

namespace ServerNet
open HSSession Link
variable {recvMem sendMem : ℕ → ℕ → UInt8} {n n' : ServerNet} {c : ℕ}

theorem connection_congr (hclient : n'.clients c = n.clients c)
    (hsession : n'.service.sessions ((n'.sessionOf c).getD 0) =
      n.service.sessions ((n.sessionOf c).getD 0)) :
    (n'.connection c).sessions = (n.connection c).sessions := by
  funext side
  cases side with
  | false => exact hclient
  | true => exact hsession

/-- Every session of the server but the last has been accepted or refused. The last waits for its
accept and is as it was made; no two clients have the same. -/
structure Serving (w : ULongWidth) (recvMem sendMem : ℕ → ℕ → UInt8) (handler : EventHandler)
    (n : ServerNet) : Prop where
  accept : ∃ i, n.service.count = i + 1 ∧ n.service.accepts = [⟨⟨0, some handler⟩, i, 0⟩] ∧
    n.service.sessions i = .new clientSessionDataBufferDefaultSize
      clientSessionDataBufferDefaultSize (recvMem i) (sendMem i)
  limit : ∀ m ∈ n.service.maxReadLength,
    m = clientSessionDataBufferDefaultSize - hsNetPacketMaxSize
  known : ∀ c i, n.sessionOf c = some i → c < n.dials ∧ i + 1 < n.service.count
  apart : ∀ c c' i, n.sessionOf c = some i → n.sessionOf c' = some i → c = c'
  nodup : n.waiting.Nodup
  waiting : ∀ c, c ∈ n.waiting ↔ c < n.dials ∧ n.sessionOf c = none
  calling : ∀ c ∈ n.waiting, Calling w (n.connection c)
  linked : ∀ c, (n.sessionOf c).isSome → n.lost c = false →
    Linked w clientSessionDataBufferDefaultSize handler (n.connection c)
  roomy : ∀ c i, n.sessionOf c = some i → n.lost c = true →
    Roomy clientSessionDataBufferDefaultSize (n.service.sessions i)

theorem serving_start (w : ULongWidth) (recvMem sendMem : ℕ → ℕ → UInt8) (handler : EventHandler) :
    Serving w recvMem sendMem handler (start recvMem sendMem handler) := by
  have hservice : (start recvMem sendMem handler).service =
      HSAcceptor.start recvMem sendMem ⟨0, some handler⟩ .init := rfl
  rw [HSAcceptor.start_new] at hservice
  constructor
  · refine ⟨0, ?_⟩
    rw [hservice]
    exact ⟨rfl, rfl, Function.update_self 0 _ IoService.init.sessions⟩
  · rw [hservice]
    intro m hm
    cases hm
  · intro c i hi
    cases hi
  · intro c c' i hi
    cases hi
  · exact List.nodup_nil
  · intro c
    exact ⟨fun hc => absurd hc List.not_mem_nil, fun hc => absurd hc.1 (Nat.not_lt_zero c)⟩
  · intro c hc
    exact absurd hc List.not_mem_nil
  · intro c hc
    cases hc
  · intro c i hi
    cases hi

theorem Serving.dialed (h : Serving w recvMem sendMem handler n) {d : Dial} {s : HSSession}
    (hs : d.session w = .ok s) :
    Serving w recvMem sendMem handler { n with
      clients := Function.update n.clients n.dials s
      dials := n.dials + 1
      wire := Function.update n.wire n.dials fun _ => []
      waiting := n.waiting ++ [n.dials] } := by
  have hfresh : n.sessionOf n.dials = none := by
    cases hi : n.sessionOf n.dials with
    | none => rfl
    | some i => exact absurd (h.known _ i hi).1 (lt_irrefl _)
  have hnew : n.dials ∉ n.waiting := fun hc => lt_irrefl _ ((h.waiting _).mp hc).1
  constructor
  · exact h.accept
  · exact h.limit
  · intro c i hi
    obtain ⟨hc, hcount⟩ := h.known c i hi
    exact ⟨Nat.lt_succ_of_lt hc, hcount⟩
  · exact h.apart
  · exact h.nodup.append (List.nodup_singleton _) (List.disjoint_singleton.mpr hnew)
  · intro c
    dsimp only
    rw [List.mem_append, List.mem_singleton, h.waiting]
    constructor
    · rintro (⟨hc, hnone⟩ | rfl)
      · exact ⟨Nat.lt_succ_of_lt hc, hnone⟩
      · exact ⟨Nat.lt_succ_self _, hfresh⟩
    · rintro ⟨hc, hnone⟩
      rcases Nat.lt_succ_iff_lt_or_eq.mp hc with hlt | rfl
      · exact Or.inl ⟨hlt, hnone⟩
      · exact Or.inr rfl
  · intro c hc
    rcases List.mem_append.mp hc with hold | hlast
    · have hne : c ≠ n.dials := fun heq => hnew (heq ▸ hold)
      exact (h.calling c hold).of_same (Function.update_of_ne hne _ _)
        (Function.update_of_ne hne _ _)
    · obtain rfl := List.mem_singleton.mp hlast
      exact calling_dialed hs (Function.update_self _ _ _) (Function.update_self _ _ _)
  · intro c hc hlost
    have hne : c ≠ n.dials := by
      rintro rfl
      dsimp only at hc
      rw [hfresh] at hc
      cases hc
    exact (h.linked c hc hlost).of_limit
      (connection_congr (Function.update_of_ne hne _ _) rfl) (Function.update_of_ne hne _ _) h.limit
  · exact h.roomy

theorem restarted {q : IoService} (haccepts : q.accepts = []) :
    let p := HSAcceptor.start recvMem sendMem ⟨0, some handler⟩ q
    p.count = q.count + 1 ∧ p.maxReadLength = q.maxReadLength ∧
      p.accepts = [⟨⟨0, some handler⟩, q.count, 0⟩] ∧
      p.sessions q.count = .new clientSessionDataBufferDefaultSize
        clientSessionDataBufferDefaultSize (recvMem q.count) (sendMem q.count) ∧
      ∀ j < q.count, p.sessions j = q.sessions j := by
  intro p
  have hp : p = _ := HSAcceptor.start_new recvMem sendMem (some handler) q
  rw [hp]
  refine ⟨rfl, rfl, by rw [haccepts]; rfl, Function.update_self _ _ _, ?_⟩
  intro j hj
  exact Function.update_of_ne hj.ne _ _

theorem Serving.only_accept (h : Serving w recvMem sendMem handler n) {k : ℕ}
    (hk : k < n.service.accepts.length) :
    ∃ i, n.service.count = i + 1 ∧ n.service.accepts[k]? = some ⟨⟨0, some handler⟩, i, 0⟩ ∧
      n.service.accepts.eraseIdx k = [] ∧ n.service.sessions i =
        .new clientSessionDataBufferDefaultSize clientSessionDataBufferDefaultSize (recvMem i)
          (sendMem i) := by
  obtain ⟨i, hcount, haccepts, hsession⟩ := h.accept
  rw [haccepts] at hk ⊢
  obtain rfl : k = 0 := Nat.lt_one_iff.mp hk
  exact ⟨i, hcount, rfl, rfl, hsession⟩

theorem Serving.refused (h : Serving w recvMem sendMem handler n) {k : ℕ}
    (hk : k < n.service.accepts.length) (errorValue : ℤ) :
    ∃ n', n.exec w fuel recvMem sendMem (.refused k errorValue) = .ok n' ∧
      Serving w recvMem sendMem handler n' := by
  obtain ⟨i, hcount, hop, hrest, -⟩ := h.only_accept hk
  let q : IoService := { n.service with accepts := n.service.accepts.eraseIdx k }
  obtain ⟨hcount', hlimit', haccepts', hnew', hold'⟩ := @restarted handler recvMem sendMem q hrest
  refine ⟨{ n with service := HSAcceptor.start recvMem sendMem ⟨0, some handler⟩ q }, ?_, ?_⟩
  · simp only [exec, IoService.exec, hop]
    rfl
  have hkept : ∀ c j, n.sessionOf c = some j →
      (HSAcceptor.start recvMem sendMem ⟨0, some handler⟩ q).sessions j = n.service.sessions j :=
    fun c j hj => hold' j (Nat.lt_of_succ_lt (h.known c j hj).2)
  constructor
  · exact ⟨_, hcount', haccepts', hnew'⟩
  · rw [hlimit']
    exact h.limit
  · intro c j hj
    obtain ⟨hc, hlt⟩ := h.known c j hj
    exact ⟨hc, hlt.trans (hcount' ▸ Nat.lt_succ_self _)⟩
  · exact h.apart
  · exact h.nodup
  · exact h.waiting
  · intro c hc
    exact (h.calling c hc).of_same rfl rfl
  · intro c hc hlost
    obtain ⟨j, hj⟩ := Option.isSome_iff_exists.mp hc
    have hj' : n.sessionOf c = some j := hj
    refine (h.linked c hc hlost).of_limit (connection_congr rfl ?_) rfl ?_
    · dsimp only
      rw [hj', Option.getD_some]
      exact hkept c j hj
    · change ∀ m ∈ (HSAcceptor.start recvMem sendMem ⟨0, some handler⟩ q).maxReadLength, _
      rw [hlimit']
      exact h.limit
  · intro c j hj hlost
    dsimp only
    rw [hkept c j hj]
    exact h.roomy c j hj hlost

structure Taken (recvMem sendMem : ℕ → ℕ → UInt8) (handler : EventHandler) (p p' : IoService)
    (i : ℕ) (s : HSSession) : Prop where
  last : p.count = i + 1
  count : p'.count = p.count + 1
  limit : p'.maxReadLength = p.maxReadLength
  accepts : p'.accepts = [⟨⟨0, some handler⟩, p.count, 0⟩]
  fresh : p'.sessions p.count = .new clientSessionDataBufferDefaultSize
    clientSessionDataBufferDefaultSize (recvMem p.count) (sendMem p.count)
  taken : p'.sessions i = s
  kept : ∀ j < i, p'.sessions j = p.sessions j

theorem Serving.exec_accepted (h : Serving w recvMem sendMem handler n) (hcalm : Calm handler)
    {k : ℕ} (hk : k < n.service.accepts.length) (c : ℕ) :
    ∃ i s p, Taken recvMem sendMem handler n.service p i s ∧
      (HSSession.new clientSessionDataBufferDefaultSize clientSessionDataBufferDefaultSize
        (recvMem i) (sendMem i)).acceptedBy w (some handler) 0 = .ok s ∧
      n.exec w fuel recvMem sendMem (.accepted k c) = .ok { n with
        service := p
        waiting := n.waiting.erase c
        sessionOf := Function.update n.sessionOf c (some i) } := by
  obtain ⟨i, hcount, hop, hrest, hsession⟩ := h.only_accept hk
  obtain ⟨s, hs⟩ := @exists_accepted w handler hcalm clientSessionDataBufferDefaultSize
    clientSessionDataBufferDefaultSize (by decide) (recvMem i) (sendMem i) 0
  let q : IoService := { n.service with accepts := n.service.accepts.eraseIdx k }.put i
    (n.service.readCloses i) s
  obtain ⟨hcount', hlimit', haccepts', hnew', hold'⟩ := @restarted handler recvMem sendMem q hrest
  have hput : q.sessions i = s := Function.update_self _ _ _
  have hqcount : q.count = i + 1 := hcount
  refine ⟨i, s, HSAcceptor.start recvMem sendMem ⟨0, some handler⟩ q, ?_, hs, ?_⟩
  · refine ⟨hcount, hcount', hlimit', haccepts', hnew', ?_, ?_⟩
    · rw [hold' i (by omega), hput]
    · intro j hj
      rw [hold' j (by omega)]
      exact Function.update_of_ne (by omega) _ _
  · have hs' : (n.service.sessions i).acceptedBy w (some handler) 0 = .ok s := by rw [hsession, hs]
    simp only [exec, IoService.exec, hop, HSAcceptor.handleAccept, hs']
    rfl

theorem given_cases {sessionOf : ℕ → Option ℕ} {c c' i j : ℕ}
    (h : Function.update sessionOf c (some i) c' = some j) :
    c' = c ∧ j = i ∨ c' ≠ c ∧ sessionOf c' = some j := by
  by_cases heq : c' = c
  · rw [heq, Function.update_self] at h
    exact Or.inl ⟨heq, (Option.some.inj h).symm⟩
  · rw [Function.update_of_ne heq] at h
    exact Or.inr ⟨heq, h⟩

theorem Serving.given_apart (h : Serving w recvMem sendMem handler n) {i : ℕ}
    (hlast : n.service.count = i + 1) {c₁ c₂ j : ℕ}
    (h₁ : Function.update n.sessionOf c (some i) c₁ = some j)
    (h₂ : Function.update n.sessionOf c (some i) c₂ = some j) : c₁ = c₂ := by
  -- the session given last is nobody else's
  have hfresh : ∀ c', n.sessionOf c' ≠ some i := fun c' hc' => by
    have hlt := (h.known c' i hc').2
    omega
  rcases given_cases h₁ with ⟨rfl, rfl⟩ | ⟨-, hold₁⟩
  · rcases given_cases h₂ with ⟨rfl, -⟩ | ⟨-, hold₂⟩
    · rfl
    · exact absurd hold₂ (hfresh c₂)
  · rcases given_cases h₂ with ⟨-, rfl⟩ | ⟨-, hold₂⟩
    · exact absurd hold₁ (hfresh c₁)
    · exact h.apart c₁ c₂ j hold₁ hold₂

theorem Serving.given_waiting (h : Serving w recvMem sendMem handler n) (c c' i : ℕ) :
    c' ∈ n.waiting.erase c ↔
      c' < n.dials ∧ Function.update n.sessionOf c (some i) c' = none := by
  rw [h.nodup.mem_erase_iff, h.waiting]
  by_cases heq : c' = c
  · rw [heq, Function.update_self]
    simp
  · rw [Function.update_of_ne heq]
    exact ⟨fun hw => hw.2, fun hw => ⟨heq, hw⟩⟩

theorem Serving.accepted (h : Serving w recvMem sendMem handler n) (hcalm : Calm handler) {k : ℕ}
    (hk : k < n.service.accepts.length) (hc : c ∈ n.waiting) :
    ∃ n', n.exec w fuel recvMem sendMem (.accepted k c) = .ok n' ∧
      Serving w recvMem sendMem handler n' := by
  obtain ⟨i, s, p, hp, hs, hexec⟩ :=
    @Serving.exec_accepted w fuel handler recvMem sendMem n h hcalm k hk c
  refine ⟨_, hexec, ?_⟩
  obtain ⟨hhear, hlogged⟩ := hearing_accepted hcalm (by decide) (by decide) (by decide) hs
  have hlast := hp.last
  have hcount := hp.count
  have hlimit : ∀ m ∈ p.maxReadLength,
      m = clientSessionDataBufferDefaultSize - hsNetPacketMaxSize := by
    rw [hp.limit]
    exact h.limit
  have hkept : ∀ c' j, n.sessionOf c' = some j → p.sessions j = n.service.sessions j := by
    intro c' j hj
    have hlt := (h.known c' j hj).2
    exact hp.kept j (by omega)
  constructor
  · exact ⟨_, hcount, hp.accepts, hp.fresh⟩
  · exact hlimit
  · intro c' j hj
    dsimp only
    rcases given_cases hj with ⟨rfl, rfl⟩ | ⟨-, hj⟩
    · exact ⟨((h.waiting c').mp hc).1, by omega⟩
    · obtain ⟨hlt, hj⟩ := h.known c' j hj
      exact ⟨hlt, by omega⟩
  · exact fun c₁ c₂ j => h.given_apart hlast
  · exact h.nodup.erase c
  · exact fun c' => h.given_waiting c c' i
  · intro c' hc'
    exact (h.calling c' (List.mem_of_mem_erase hc')).of_same rfl rfl
  · intro c' hc' hlost
    obtain ⟨j, hj⟩ := Option.isSome_iff_exists.mp hc'
    rcases given_cases hj with ⟨rfl, rfl⟩ | ⟨hne, hj⟩
    · refine (h.calling c' hc).accepted rfl rfl ?_ ?_ hlimit
      all_goals
        simp only [connection, Function.update_self, Option.getD_some, hp.taken]
        assumption
    · have hlinked := h.linked c' (Option.isSome_iff_exists.mpr ⟨j, hj⟩) hlost
      refine hlinked.of_limit (connection_congr rfl ?_) rfl hlimit
      dsimp only
      rw [Function.update_of_ne hne, hj, Option.getD_some]
      exact hkept c' j hj
  · intro c' j hj hlost
    dsimp only
    rcases given_cases hj with ⟨-, rfl⟩ | ⟨-, hj⟩
    · rw [hp.taken]
      exact hhear.roomy
    · rw [hkept c' j hj]
      exact h.roomy c' j hj hlost

theorem Serving.put (h : Serving w recvMem sendMem handler n) {i : ℕ} (hi : n.sessionOf c = some i)
    (old : List ℕ) {s : HSSession} {m : Option ℕ}
    (hm : ∀ k ∈ m, k = clientSessionDataBufferDefaultSize - hsNetPacketMaxSize)
    {x : Bool → List UInt8} {b : Bool} {n' : ServerNet}
    (hn' : n' = { n with
      service := { n.service.put i old s with maxReadLength := m }
      wire := Function.update n.wire c x
      lost := Function.update n.lost c b })
    (hlinked : b = false →
      Linked w clientSessionDataBufferDefaultSize handler (n'.connection c))
    (hroomy : b = true → Roomy clientSessionDataBufferDefaultSize s) :
    Serving w recvMem sendMem handler n' := by
  subst hn'
  have hkept : ∀ j ≠ i, (n.service.put i old s).sessions j = n.service.sessions j :=
    fun j hne => Function.update_of_ne hne _ _
  have hlost : ∀ c' ≠ c, Function.update n.lost c b c' = n.lost c' :=
    fun c' hne => Function.update_of_ne hne _ _
  have hwire : ∀ c' ≠ c, Function.update n.wire c x c' = n.wire c' :=
    fun c' hne => Function.update_of_ne hne _ _
  constructor
  · obtain ⟨j, hcount, haccepts, hnew⟩ := h.accept
    have hlt := (h.known c i hi).2
    exact ⟨j, hcount, haccepts, (hkept j (by omega)).trans hnew⟩
  · exact hm
  · exact h.known
  · exact h.apart
  · exact h.nodup
  · exact h.waiting
  · intro c' hc'
    have hne : c' ≠ c := by
      rintro rfl
      rw [((h.waiting c').mp hc').2] at hi
      cases hi
    exact (h.calling c' hc').of_same rfl (hwire c' hne)
  · intro c' hc' hb
    by_cases heq : c' = c
    · subst heq
      dsimp only at hb
      rw [Function.update_self] at hb
      exact hlinked hb
    · obtain ⟨j, hj⟩ := Option.isSome_iff_exists.mp hc'
      have hj' : n.sessionOf c' = some j := hj
      dsimp only at hb
      rw [hlost c' heq] at hb
      refine (h.linked c' hc' hb).of_limit (connection_congr rfl ?_) (hwire c' heq) hm
      dsimp only
      rw [hj', Option.getD_some]
      exact hkept j fun hij => heq (h.apart c' c i (hij ▸ hj') hi)
  · intro c' j hj hb
    dsimp only at hb hj ⊢
    by_cases heq : c' = c
    · rw [heq, Function.update_self] at hb
      obtain rfl : i = j := Option.some.inj (hi.symm.trans (heq ▸ hj))
      change Roomy _ (Function.update n.service.sessions i s i)
      rw [Function.update_self]
      exact hroomy hb
    · rw [hlost c' heq] at hb
      rw [hkept j fun hij => heq (h.apart c' c i (hij ▸ hj) hi)]
      exact h.roomy c' j hj hb

theorem connection_server {i : ℕ} (hi : n.sessionOf c = some i) (old : List ℕ) (s : HSSession)
    (m : Option ℕ) (x : Bool → List UInt8) (lost : ℕ → Bool) :
    connection { n with
        service := { n.service.put i old s with maxReadLength := m }
        wire := Function.update n.wire c x
        lost := lost } c =
      ⟨Function.update (n.connection c).maxReadLength true m,
        Function.update (n.connection c).sessions true s, x⟩ := by
  simp only [connection, Link.mk.injEq]
  refine ⟨funext fun side => ?_, funext fun side => ?_, Function.update_self _ _ _⟩
  · cases side <;> rfl
  · cases side with
    | false => rfl
    | true =>
      dsimp only
      rw [hi, Option.getD_some, Function.update_self]
      exact Function.update_self _ _ _

theorem connection_client (n : ServerNet) (c : ℕ) (s : HSSession) (m : Option ℕ)
    (x : Bool → List UInt8) :
    connection { n with
        clients := Function.update n.clients c s
        limits := Function.update n.limits c m
        wire := Function.update n.wire c x } c =
      ⟨Function.update (n.connection c).maxReadLength false m,
        Function.update (n.connection c).sessions false s, x⟩ := by
  simp only [connection, Link.mk.injEq]
  refine ⟨funext fun side => ?_, funext fun side => ?_, Function.update_self _ _ _⟩
  · cases side with
    | false => exact Function.update_self _ _ _
    | true => rfl
  · cases side with
    | false => exact Function.update_self _ _ _
    | true => rfl

theorem Serving.client_put (h : Serving w recvMem sendMem handler n) {s : HSSession}
    {m : Option ℕ} {x : Bool → List UInt8} {n' : ServerNet}
    (hn' : n' = { n with
      clients := Function.update n.clients c s
      limits := Function.update n.limits c m
      wire := Function.update n.wire c x })
    (hcalling : c ∈ n.waiting → Calling w (n'.connection c))
    (hlinked : (n.sessionOf c).isSome →
      Linked w clientSessionDataBufferDefaultSize handler (n'.connection c)) :
    Serving w recvMem sendMem handler n' := by
  subst hn'
  have hclient : ∀ c' ≠ c, Function.update n.clients c s c' = n.clients c' :=
    fun c' hne => Function.update_of_ne hne _ _
  have hwire : ∀ c' ≠ c, Function.update n.wire c x c' = n.wire c' :=
    fun c' hne => Function.update_of_ne hne _ _
  constructor
  · exact h.accept
  · exact h.limit
  · exact h.known
  · exact h.apart
  · exact h.nodup
  · exact h.waiting
  · intro c' hc'
    by_cases heq : c' = c
    · subst heq
      exact hcalling hc'
    · exact (h.calling c' hc').of_same (hclient c' heq) (hwire c' heq)
  · intro c' hc' hlost
    by_cases heq : c' = c
    · subst heq
      exact hlinked hc'
    · exact (h.linked c' hc' hlost).of_limit (connection_congr (hclient c' heq) rfl)
        (hwire c' heq) h.limit
  · exact h.roomy

theorem Serving.along_client (h : Serving w recvMem sendMem handler n) (hcalm : Calm handler)
    (hfuel : clientSessionDataBufferDefaultSize < fuel) {e : SessionEvent}
    (hposs : n.Possible (.along c false e)) :
    ∃ n', n.exec w fuel recvMem sendMem (.along c false e) = .ok n' ∧
      Serving w recvMem sendMem handler n' := by
  obtain ⟨hc, hlost, -, hposs⟩ := hposs
  cases hi : n.sessionOf c with
  | none =>
    have hwait : c ∈ n.waiting := (h.waiting c).mpr ⟨hc, hi⟩
    obtain ⟨l', hexec, hl'⟩ := (h.calling c hwait).step hposs
    obtain ⟨m, s, hs, rfl⟩ := exec_eq_ok hexec
    have hs' : (n.clients c).exec w fuel (n.limits c) e = .ok (m, s) := hs
    refine ⟨_, by rw [exec, hs']; rfl, h.client_put rfl (fun _ => ?_) fun hsome => ?_⟩
    · rw [connection_client]
      exact hl'
    · rw [hi] at hsome
      cases hsome
  | some i =>
    have hsome : (n.sessionOf c).isSome := by rw [hi]; rfl
    obtain ⟨l', hexec, hl'⟩ := (h.linked c hsome hlost).step hcalm (by decide) hfuel hposs
    obtain ⟨m, s, hs, rfl⟩ := exec_eq_ok hexec
    have hs' : (n.clients c).exec w fuel (n.limits c) e = .ok (m, s) := hs
    refine ⟨_, by rw [exec, hs']; rfl, h.client_put rfl (fun hwait => ?_) fun _ => ?_⟩
    · rw [((h.waiting c).mp hwait).2] at hi
      cases hi
    · rw [connection_client]
      exact hl'

theorem Serving.along_server (h : Serving w recvMem sendMem handler n) (hcalm : Calm handler)
    (hfuel : clientSessionDataBufferDefaultSize < fuel) {e : SessionEvent}
    (hposs : n.Possible (.along c true e)) :
    ∃ n', n.exec w fuel recvMem sendMem (.along c true e) = .ok n' ∧
      Serving w recvMem sendMem handler n' := by
  obtain ⟨hc, hlost, hsome, hposs⟩ := hposs
  obtain ⟨i, hi⟩ := Option.isSome_iff_exists.mp (hsome rfl)
  obtain ⟨l', hexec, hl'⟩ := (h.linked c (hsome rfl) hlost).step hcalm (by decide) hfuel hposs
  obtain ⟨m, s, hs, rfl⟩ := exec_eq_ok hexec
  have hs' : (n.service.sessions i).exec w fuel n.service.maxReadLength e = .ok (m, s) := by
    have hsame : (n.connection c).sessions true = n.service.sessions i := by
      simp only [connection, hi, Option.getD_some]
    rw [← hsame]
    exact hs
  have hm : ∀ k ∈ m, k = clientSessionDataBufferDefaultSize - hsNetPacketMaxSize := by
    have hlimit := hl'.limit
    dsimp only at hlimit
    rwa [Function.update_self] at hlimit
  have hstill : Function.update n.lost c false = n.lost := by
    rw [← hlost, Function.update_eq_self]
  refine ⟨_, by rw [exec, hi, Option.getD_some, IoService.exec, hs']; rfl, ?_⟩
  refine h.put hi _ hm (by rw [hstill]) (fun _ => ?_) fun hb => Bool.noConfusion hb
  rw [connection_server hi]
  exact hl'

theorem Serving.beyond (h : Serving w recvMem sendMem handler n) {e : SessionEvent}
    (hs : Step w fuel recvMem sendMem n (.beyond c e) n') :
    Serving w recvMem sendMem handler n' := by
  obtain ⟨⟨i, hi, -, hposs⟩, hexec⟩ := hs
  have hi' : n.sessionOf c = some i := hi
  have hroomy : Roomy clientSessionDataBufferDefaultSize (n.service.sessions i) := by
    cases hlost : n.lost c with
    | true => exact h.roomy c i hi' hlost
    | false =>
      obtain ⟨bytes, -, hhear⟩ := (h.linked c (by rw [hi']; rfl) hlost).hearing
      simp only [connection, hi', Option.getD_some] at hhear
      exact hhear.roomy
  rw [exec, hi', Option.getD_some, IoService.exec] at hexec
  obtain ⟨p, hp, hn'⟩ := exists_of_bind hexec
  obtain ⟨⟨m, s⟩, hs, hp'⟩ := exists_of_bind hp
  obtain rfl := Except.ok.inj hp'
  have hstatic : n.service.maxReadLength.getD
      (clientSessionDataBufferDefaultSize - hsNetPacketMaxSize) =
        clientSessionDataBufferDefaultSize - hsNetPacketMaxSize := by
    cases hm : n.service.maxReadLength with
    | none => rfl
    | some k => exact h.limit k hm
  obtain ⟨hroomy', hm⟩ := (hroomy.exec (by decide) (by decide)
    (hstatic.trans_le (Nat.sub_le _ _)) hposs).result hs
  rw [hstatic] at hm
  have hkeep : Function.update n.wire c (n.wire c) = n.wire := Function.update_eq_self _ _
  refine h.put hi' (e.readsLeft (n.service.readCloses i)) ?_
    (by rw [hkeep]; exact (Except.ok.inj hn').symm) (fun hb => Bool.noConfusion hb)
    fun _ => hroomy'
  intro k hk
  rcases hm with hm | hm
  · exact h.limit k (hm ▸ hk)
  · exact Option.some.inj ((hm.symm.trans hk).symm)

/-- Everything a client and the server do to each other, and the accepts. -/
def Regular : NetEvent → Prop
  | .beyond .. => False
  | _ => True

theorem Serving.regular (h : Serving w recvMem sendMem handler n) (hcalm : Calm handler)
    (hfuel : clientSessionDataBufferDefaultSize < fuel) {e : NetEvent} (he : Regular e)
    (hposs : n.Possible e) :
    ∃ n', n.exec w fuel recvMem sendMem e = .ok n' ∧ Serving w recvMem sendMem handler n' := by
  cases e with
  | dial d =>
    obtain ⟨s, hs⟩ := exists_dialed w d
    exact ⟨_, by rw [exec, hs]; rfl, h.dialed hs⟩
  | accepted k c => exact h.accepted hcalm hposs.1 hposs.2
  | refused k errorValue => exact h.refused hposs errorValue
  | along c side e =>
    cases side with
    | false => exact h.along_client hcalm hfuel hposs
    | true => exact h.along_server hcalm hfuel hposs
  | beyond c e => exact he.elim

theorem Serving.run (hcalm : Calm handler) (hfuel : clientSessionDataBufferDefaultSize < fuel)
    {es : List NetEvent}
    (h : Run (Step w fuel recvMem sendMem) (start recvMem sendMem handler) es n) :
    Serving w recvMem sendMem handler n := by
  refine h.invariant (serving_start w recvMem sendMem handler) ?_
  intro n₁ e n₂ hn₁ hs
  by_cases he : Regular e
  · obtain ⟨n', hexec, hn'⟩ := hn₁.regular hcalm hfuel he hs.1
    rw [hs.2] at hexec
    obtain rfl := Except.ok.inj hexec
    exact hn'
  · cases e with
    | beyond c e => exact hn₁.beyond hs
    | _ => exact absurd trivial he

def OneAccept (handler : EventHandler) (n : ServerNet) : Prop :=
  ∃ i, n.service.accepts = [⟨⟨0, some handler⟩, i, 0⟩] ∧ (n.service.sessions i).calls = [] ∧
    ∀ c, n.sessionOf c ≠ some i

/-- In every run of a server with any number of clients, each accept is on a session of its own and
another is always outstanding; the handler of a client's session is given what this client has sent
and nothing else, whatever happens on the connections of the others; what a client sends before its
accept is not lost; and no fault is in reach unless by an event of another origin. -/
theorem server_serves (hcalm : Calm handler) (hfuel : clientSessionDataBufferDefaultSize < fuel)
    {es : List NetEvent}
    (h : Run (Step w fuel recvMem sendMem) (start recvMem sendMem handler) es n) :
    OneAccept handler n ∧
      (∀ c c' i, n.sessionOf c = some i → n.sessionOf c' = some i → c = c') ∧
      (∀ c i, n.sessionOf c = some i → n.lost c = false →
        Delivered w (n.connection c) ∧ (n.service.sessions i).closes = 0) ∧
      (∀ c ∈ n.waiting, n.wire c false = (n.clients c).accepted) ∧
      ∀ e, Regular e → n.Possible e → ∃ n', Step w fuel recvMem sendMem n e n' := by
  have hserving := Serving.run hcalm hfuel h
  refine ⟨?_, hserving.apart, ?_, fun c hc => (hserving.calling c hc).sent.symm, ?_⟩
  · obtain ⟨i, hcount, haccepts, hnew⟩ := hserving.accept
    refine ⟨i, haccepts, by rw [hnew]; rfl, fun c hc => ?_⟩
    have hlt := (hserving.known c i hc).2
    omega
  · intro c i hi hlost
    have hlinked := hserving.linked c (by rw [hi]; rfl) hlost
    obtain ⟨bytes, -, hhear⟩ := hlinked.hearing
    simp only [connection, hi, Option.getD_some] at hhear
    exact ⟨hlinked.delivered, hhear.closes⟩
  · intro e he hposs
    obtain ⟨n', hexec, -⟩ := hserving.regular hcalm hfuel he hposs
    exact ⟨n', hposs, hexec⟩

def passiveDial : Dial where
  recvLen := 64
  sendLen := 64
  recvMem _ := 0
  sendMem _ := 0
  handler _ := []
  calm _ h := by cases h
  sendLen_lt := by decide

theorem server_serves_twoClients :
    ∃ n, OneAccept (fun _ => []) n ∧ n.sessionOf 0 = some 1 ∧ Delivered .eight (n.connection 0) ∧
      (n.service.sessions 1).calls = [.onConnect, .onReceive [7]] ∧
      (n.service.sessions 0).calls = [.onConnect, .onDisconnect] := by
  obtain ⟨n, hrun, hn⟩ := @run_of_foldlM .eight 32769 (fun _ _ => 0) (fun _ _ => 0) _
    (start (fun _ _ => 0) (fun _ _ => 0) fun _ => [])
    [.dial passiveDial, .dial passiveDial, .along 0 false (.send ⟨[7], by decide⟩),
      .along 0 false (.writeDone 0 (.success 13)), .accepted 0 1, .accepted 0 0,
      .beyond 1 (.readDone 0 (.failure 10054)),
      .along 0 true (.readDone 0 (.success [0, 0, 0, 1, 14, 220, 186, 152, 0, 0, 0, 0, 7]))]
    (fun n => (n.sessionOf 0, n.lost 0, (n.service.sessions 1).calls,
      (n.service.sessions 0).calls))
    (some 1, false, [.onConnect, .onReceive [7]], [.onConnect, .onDisconnect])
    (by decide +kernel)
  simp only [Prod.mk.injEq] at hn
  obtain ⟨hsession, hlost, hfirst, hsecond⟩ := hn
  have hcalm : Calm fun _ => [] := fun _ h => by cases h
  obtain ⟨haccept, -, hserved, -⟩ := server_serves hcalm (by decide) hrun
  exact ⟨n, haccept, hsession, (hserved 0 1 hsession hlost).1, hfirst, hsecond⟩

end ServerNet
end Parts

end HsCommon
