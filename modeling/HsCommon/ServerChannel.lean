import HsCommon.Library.Runs

/-!
# hs_server_channel.cpp

The two classes over a socket that is polled with `select`, as built for Windows. What the socket
calls return comes with the event, and `log` has the calls made.

`hs_connector::poll` asks `select` for an empty set, so that a connect that did not succeed at once
never succeeds: a poll that finds anything closes the descriptor and stays connecting.
`hs_server_channel::accept` tests two states with an or that no state fails.
-/

namespace HsCommon
open Transition

abbrev FdSet := List ℕ

inductive SockCall
  | startup
  | socket
  | ioctlsocket (sock : ℕ)
  | connect (sock : ℕ) (ip : String) (port : UInt16)
  | select (sock : ℕ) (readfds writefds : FdSet) (timeout : ℕ × ℕ)
  | send (sock : ℕ) (data : List UInt8)
  | shutdown (sock : ℕ)
  | closesocket (sock : ℕ)
  | cleanup
  deriving DecidableEq

def SockCall.closes : SockCall → Bool
  | .closesocket _ => true
  | _ => false

inductive HsConnectorState
  | closed
  | connecting
  | connected
  deriving DecidableEq

structure HsConnector where
  sock : ℕ
  ip : String
  port : UInt16
  timeout : ℕ × ℕ
  state : HsConnectorState
  log : List SockCall

namespace HsConnector

def new : HsConnector := ⟨0, "", 0, (0, 0), .closed, []⟩

def wouldBlock : ℤ := 10035

def socketError : ℤ := -1

def init (ip : String) (port : UInt16) (c : HsConnector) : HsConnector :=
  { c with ip := ip, port := port, log := c.log ++ [.ioctlsocket c.sock] }

def close (c : HsConnector) : HsConnector :=
  { c with log := c.log ++ [.closesocket c.sock], state := .closed }

def connect (ms : ℕ) (res lastError : ℤ) (c : HsConnector) : Bool × HsConnector :=
  let c := { c with log := c.log ++ [SockCall.connect c.sock c.ip c.port] }
  if res = 0 then
    (true, { c with state := .connected })
  else if res = socketError then
    if lastError = wouldBlock then (true, { c with state := .connecting })
    else (false, c.close)
  else
    (true, { c with timeout := (ms / 1000, ms - ms / 1000 * 1000) })

def disconnect (c : HsConnector) : HsConnector :=
  { c with log := c.log ++ [.shutdown c.sock, .closesocket c.sock] }

def pollSet : FdSet := []

/-- `ready` is what `select` leaves in the set. -/
def poll (res : ℤ) (ready : FdSet) (c : HsConnector) : ℤ × HsConnector :=
  if c.state ≠ .connecting then (0, c)
  else
    let c := { c with log := c.log ++ [.select (c.sock + 1) [] pollSet c.timeout] }
    if res < 0 then (-1, { c with log := c.log ++ [.closesocket c.sock] })
    else if res = 0 then (0, c)
    else if c.sock ∉ ready then (-1, { c with log := c.log ++ [.closesocket c.sock] })
    else (1, { c with state := .connected })

inductive Event
  | init (ip : String) (port : UInt16)
  | connect (ms : ℕ) (res lastError : ℤ)
  | poll (res : ℤ) (ready : FdSet)
  | disconnect
  | close

/-- What the sockets promise: `connect` returns 0 or an error, and `select` only takes descriptors
out of the set. -/
def Possible : Event → Prop
  | .connect _ res _ => res = 0 ∨ res = socketError
  | .poll _ ready => ready ⊆ pollSet
  | _ => True

def apply (c : HsConnector) : Event → HsConnector
  | .init ip port => c.init ip port
  | .connect ms res lastError => (c.connect ms res lastError).2
  | .poll res ready => (c.poll res ready).2
  | .disconnect => c.disconnect
  | .close => c.close

def Step (c : HsConnector) (e : Event) (c' : HsConnector) : Prop :=
  Possible e ∧ c' = c.apply e

def closings (c : HsConnector) : ℕ := c.log.countP fun call => call = .closesocket c.sock

def Event.stirs : Event → Bool
  | .poll res _ => res ≠ 0
  | _ => false

def Event.polls : Event → Bool
  | .poll _ _ => true
  | _ => false

variable {c c' : HsConnector} {e : Event} {es : List Event}

theorem poll_of_possible {res : ℤ} {ready : FdSet} (h : ready ⊆ pollSet) (c : HsConnector) :
    (c.poll res ready).1 ≠ 1 ∧ (c.poll res ready).2.state = c.state ∧
      (c.poll res ready).2.timeout = c.timeout ∧
      (c.state = .connecting →
        (c.poll res ready).2.closings = c.closings + if res ≠ 0 then 1 else 0) := by
  have hnot : c.sock ∉ ready := fun hmem => by cases h hmem
  simp only [poll, closings]
  split_ifs with hstate hneg hzero <;> simp_all

structure Waiting (es : List Event) (c : HsConnector) : Prop where
  timeout : c.timeout = (0, 0)
  connected : c.state = .connected → ∃ ms lastError, .connect ms 0 lastError ∈ es

theorem Waiting.step (h : Waiting es c) (hs : Step c e c') : Waiting (es ++ [e]) c' := by
  obtain ⟨hposs, rfl⟩ := hs
  have hbefore : c.state = .connected → ∃ ms lastError, .connect ms 0 lastError ∈ es ++ [e] := by
    intro hc
    obtain ⟨ms, lastError, hmem⟩ := h.connected hc
    exact ⟨ms, lastError, List.mem_append_left _ hmem⟩
  cases e with
  | init ip port => exact ⟨h.timeout, hbefore⟩
  | disconnect => exact ⟨h.timeout, hbefore⟩
  | close => exact ⟨h.timeout, fun hc => by cases hc⟩
  | poll res ready =>
    obtain ⟨-, hstate, htimeout, -⟩ := @poll_of_possible res ready hposs c
    exact ⟨htimeout.trans h.timeout, fun hc => hbefore (hstate.symm.trans hc)⟩
  | connect ms res lastError =>
    have hlast : .connect ms res lastError ∈ es ++ [.connect ms res lastError] := by simp
    simp only [apply, connect]
    rcases hposs with rfl | rfl
    · exact ⟨h.timeout, fun _ => ⟨ms, lastError, hlast⟩⟩
    · rw [if_neg (by decide), if_pos rfl]
      split_ifs
      · exact ⟨h.timeout, fun hc => by cases hc⟩
      · exact ⟨h.timeout, fun hc => by cases hc⟩

theorem polls_run {later : List Event} (hpolls : ∀ e ∈ later, e.polls = true)
    (h : Run Step c later c') (hc : c.state = .connecting) :
    c'.state = .connecting ∧ c'.closings = c.closings + later.countP Event.stirs := by
  induction h with
  | nil => exact ⟨hc, rfl⟩
  | @snoc later c₁ c₂ e _ hs ih =>
    rw [List.forall_mem_append, List.forall_mem_singleton] at hpolls
    obtain ⟨hstate, hcount⟩ := ih hpolls.1
    obtain ⟨hposs, rfl⟩ := hs
    cases e with
    | poll res ready =>
      obtain ⟨-, hsame, -, hclosings⟩ := @poll_of_possible res ready hposs c₁
      refine ⟨hsame.trans hstate, ?_⟩
      rw [List.countP_append, List.countP_singleton]
      change (c₁.poll res ready).2.closings = _
      rw [hclosings hstate, hcount, Nat.add_assoc]
      simp only [Event.stirs, decide_eq_true_eq]
    | init | connect | disconnect | close => cases hpolls.2

/-- A connector is connected only if a connect succeeded at once, and polls while it is connecting
change nothing but close its descriptor whenever something stirs. -/
theorem never_connected_by_poll (es : List Event) (c : HsConnector) (h : Run Step new es c) :
    c.timeout = (0, 0) ∧
    (c.state = .connected → ∃ ms lastError, .connect ms 0 lastError ∈ es) ∧
    (∀ res ready, Possible (.poll res ready) → (c.poll res ready).1 ≠ 1) ∧
    ∀ later c', (∀ e ∈ later, e.polls = true) → Run Step c later c' → c.state = .connecting →
      c'.state = .connecting ∧ c'.closings = c.closings + later.countP Event.stirs := by
  have hwaiting : Waiting es c :=
    Run.history (P := Waiting) ⟨rfl, fun hc => by cases hc⟩ (fun _ _ _ _ h hs => h.step hs) h
  refine ⟨hwaiting.timeout, hwaiting.connected, fun res ready hposs => ?_, ?_⟩
  · exact (poll_of_possible hposs c).1
  · exact fun later c' hpolls hrun hc => polls_run hpolls hrun hc

theorem never_connected_by_poll_twice :
    ∃ c c', Run Step new [.init "10.0.0.1" 80, .connect 500 socketError wouldBlock] c ∧
      Run Step c [.poll 1 [], .poll (-1) []] c' ∧ c'.state = .connecting ∧
      c'.closings = c.closings + 2 := by
  let c := (new.apply (.init "10.0.0.1" 80)).apply (.connect 500 socketError wouldBlock)
  have hrun : Run Step new [.init "10.0.0.1" 80, .connect 500 socketError wouldBlock] c :=
    .snoc (.snoc .nil ⟨trivial, rfl⟩) ⟨Or.inr rfl, rfl⟩
  have hpolls : Run Step c [.poll 1 [], .poll (-1) []]
      ((c.apply (.poll 1 [])).apply (.poll (-1) [])) :=
    .snoc (.snoc .nil ⟨List.Subset.refl _, rfl⟩) ⟨List.Subset.refl _, rfl⟩
  obtain ⟨-, -, -, hlater⟩ := never_connected_by_poll _ c hrun
  obtain ⟨hstate, hcount⟩ := hlater _ _ (by decide) hpolls rfl
  exact ⟨c, _, hrun, hpolls, hstate, hcount⟩

end HsConnector

inductive HsServerChannelState
  | idle
  | connecting
  | connected
  | accepting
  | accepted
  | closed
  deriving DecidableEq

structure HsServerChannel where
  sock : ℕ
  ip : String
  port : UInt16
  state : HsServerChannelState
  log : List SockCall

namespace HsServerChannel

def new : HsServerChannel := ⟨0, "", 0, .idle, []⟩

def invalidSocket : ℕ := 2 ^ 64 - 1

def htons (port : UInt16) : UInt16 := port <<< 8 ||| port >>> 8

def init (ip : String) (port : UInt16) (sock : ℕ) (c : HsServerChannel) : HsServerChannel :=
  let c := { c with ip := ip, port := port, sock := sock, log := c.log ++ [.startup, .socket] }
  if sock = invalidSocket then c
  else { c with log := c.log ++ [SockCall.ioctlsocket sock] }

def close (c : HsServerChannel) : HsServerChannel :=
  if c.state = .idle ∨ c.state = .closed then c
  else { c with log := c.log ++ [.cleanup, .closesocket c.sock], state := .closed }

def connect (res : ℤ) (c : HsServerChannel) : Bool × HsServerChannel :=
  let c := { c with log := c.log ++ [SockCall.connect c.sock c.ip (htons c.port)] }
  if res < 0 then (true, { c with state := .connecting })
  else (true, c)

def accept (c : HsServerChannel) : Bool × HsServerChannel :=
  if c.state ≠ .idle ∨ c.state ≠ .closed then (false, c)
  else (true, { c with state := .accepting })

def disconnect (c : HsServerChannel) : HsServerChannel := c

def send (data : List UInt8) (c : HsServerChannel) : Bool × HsServerChannel :=
  (true, { c with log := c.log ++ [SockCall.send c.sock data] })

def poll (c : HsServerChannel) : Bool × HsServerChannel :=
  if c.state = .idle ∨ c.state = .closed then (true, c)
  else (true, { c with log := c.log ++ [SockCall.select (c.sock + 1) [c.sock] [] (0, 0)] })

inductive Event
  | init (ip : String) (port : UInt16) (sock : ℕ)
  | close
  | connect (res : ℤ)
  | accept
  | disconnect
  | send (data : List UInt8)
  | poll

def apply (c : HsServerChannel) : Event → HsServerChannel
  | .init ip port sock => c.init ip port sock
  | .close => c.close
  | .connect res => (c.connect res).2
  | .accept => c.accept.2
  | .disconnect => c.disconnect
  | .send data => (c.send data).2
  | .poll => c.poll.2

def Step (c : HsServerChannel) (e : Event) (c' : HsServerChannel) : Prop := c' = c.apply e

def Event.fails : Event → Bool
  | .connect res => res < 0
  | _ => false

def Event.inits : Event → Bool
  | .init _ _ _ => true
  | _ => false

variable {c c' : HsServerChannel} {e : Event} {es : List Event}

theorem accept_refused (c : HsServerChannel) : c.accept = (false, c) := by
  have hor : c.state ≠ .idle ∨ c.state ≠ .closed := by
    by_cases h : c.state = .idle
    · exact Or.inr (by rw [h]; decide)
    · exact Or.inl h
  rw [accept, if_pos hor]

structure Counted (es : List Event) (c : HsServerChannel) : Prop where
  states : c.state = .idle ∨ c.state = .connecting ∨ c.state = .closed
  startups : c.log.count .startup = es.countP Event.inits
  closes : c.log.countP SockCall.closes = c.log.count .cleanup
  cleanups : c.log.count .cleanup ≤ es.countP Event.fails
  pending : c.state = .connecting → c.log.count .cleanup < es.countP Event.fails

theorem fails_append (es : List Event) (e : Event) :
    (es ++ [e]).countP Event.fails = es.countP Event.fails + e.fails.toNat := by
  rw [List.countP_append, List.countP_singleton]
  cases e.fails <;> rfl

theorem inits_append (es : List Event) (e : Event) :
    (es ++ [e]).countP Event.inits = es.countP Event.inits + e.inits.toNat := by
  rw [List.countP_append, List.countP_singleton]
  cases e.inits <;> rfl

theorem Counted.extend (h : Counted es c) {calls : List SockCall} (hstate : c'.state = c.state)
    (hlog : c'.log = c.log ++ calls) (hfails : e.fails = false)
    (hstart : calls.count .startup = e.inits.toNat) (hclean : SockCall.cleanup ∉ calls)
    (hcloses : ∀ call ∈ calls, call.closes = false) : Counted (es ++ [e]) c' := by
  have hnone : calls.countP SockCall.closes = 0 :=
    List.countP_eq_zero.mpr fun call hmem => by simp [hcloses call hmem]
  have hcleanups : c'.log.count .cleanup = c.log.count .cleanup := by
    rw [hlog, List.count_append, List.count_eq_zero_of_not_mem hclean, Nat.add_zero]
  have hfailed : (es ++ [e]).countP Event.fails = es.countP Event.fails := by
    rw [fails_append, hfails, Bool.toNat_false, Nat.add_zero]
  refine ⟨hstate ▸ h.states, ?_, ?_, ?_, fun hc => ?_⟩
  · rw [hlog, List.count_append, inits_append, hstart, h.startups]
  · rw [hcleanups, hlog, List.countP_append, hnone, Nat.add_zero, h.closes]
  · rw [hcleanups, hfailed]
    exact h.cleanups
  · rw [hcleanups, hfailed]
    exact h.pending (hstate.symm.trans hc)

theorem Counted.keep (h : Counted es c) (hfails : e.fails = false) (hinits : e.inits = false) :
    Counted (es ++ [e]) c :=
  h.extend rfl (List.append_nil _).symm hfails (by rw [hinits]; rfl) (by simp) (by simp)

theorem Counted.failed (h : Counted es c) {res : ℤ} (hres : res < 0) :
    Counted (es ++ [.connect res]) (c.connect res).2 := by
  have hfails : (es ++ [Event.connect res]).countP Event.fails = es.countP Event.fails + 1 := by
    rw [fails_append, Event.fails, decide_eq_true hres, Bool.toNat_true]
  have hinits : (es ++ [Event.connect res]).countP Event.inits = es.countP Event.inits :=
    inits_append es _
  rw [connect, if_pos hres]
  refine ⟨Or.inr (Or.inl rfl), ?_, ?_, ?_, fun _ => ?_⟩
  · simpa [hinits] using h.startups
  · simpa [SockCall.closes] using h.closes
  · simpa [hfails] using h.cleanups.trans (Nat.le_succ _)
  · simpa [hfails] using Nat.lt_succ_of_le h.cleanups

theorem Counted.closed (h : Counted es c) (hconn : c.state = .connecting) :
    Counted (es ++ [.close]) c.close := by
  have hidle : ¬ (c.state = .idle ∨ c.state = .closed) := by simp [hconn]
  have hfails : (es ++ [Event.close]).countP Event.fails = es.countP Event.fails :=
    fails_append es _
  have hinits : (es ++ [Event.close]).countP Event.inits = es.countP Event.inits :=
    inits_append es _
  rw [close, if_neg hidle]
  refine ⟨Or.inr (Or.inr rfl), ?_, ?_, ?_, fun hc => by cases hc⟩
  · simpa [hinits] using h.startups
  · simpa [SockCall.closes] using h.closes
  · simpa [hfails] using h.pending hconn

theorem Counted.step (h : Counted es c) (hs : Step c e c') : Counted (es ++ [e]) c' := by
  obtain rfl := hs
  cases e with
  | disconnect => exact h.keep rfl rfl
  | accept =>
    rw [apply, accept_refused]
    exact h.keep rfl rfl
  | send data => exact h.extend rfl rfl rfl rfl (by simp) (by simp [SockCall.closes])
  | poll =>
    simp only [apply, poll]
    split_ifs
    · exact h.keep rfl rfl
    · exact h.extend rfl rfl rfl rfl (by simp) (by simp [SockCall.closes])
  | init ip port sock =>
    simp only [apply, init]
    split_ifs
    · exact h.extend rfl rfl rfl rfl (by simp) (by simp [SockCall.closes])
    · exact h.extend rfl (List.append_assoc _ _ _) rfl rfl (by simp) (by simp [SockCall.closes])
  | connect res =>
    by_cases hres : res < 0
    · exact h.failed hres
    · simp only [apply, connect, if_neg hres]
      exact h.extend rfl rfl (decide_eq_false hres) rfl (by simp) (by simp [SockCall.closes])
  | close =>
    by_cases hidle : c.state = .idle ∨ c.state = .closed
    · rw [apply, close, if_pos hidle]
      exact h.keep rfl rfl
    · -- what is not idle or closed is connecting, so that a connect that failed is left to count
      rw [not_or] at hidle
      exact h.closed ((h.states.resolve_left hidle.1).resolve_right hidle.2)

/-- A channel never accepts nor connects. Its sockets are closed once for each cleanup, and there
are at most as many of these as connects that failed, however often it is started. -/
theorem closes_only_failed (es : List Event) (c : HsServerChannel) (h : Run Step new es c) :
    (c.state = .idle ∨ c.state = .connecting ∨ c.state = .closed) ∧
    c.accept = (false, c) ∧
    c.log.count .startup = es.countP Event.inits ∧
    c.log.countP SockCall.closes = c.log.count .cleanup ∧
    c.log.count .cleanup ≤ es.countP Event.fails := by
  have hcounted : Counted es c := by
    refine Run.history (P := Counted) ?_ (fun _ _ _ _ h hs => h.step hs) h
    exact ⟨Or.inl rfl, rfl, rfl, Nat.le_refl _, fun hc => by cases hc⟩
  exact ⟨hcounted.states, accept_refused c, hcounted.startups, hcounted.closes, hcounted.cleanups⟩

theorem closes_only_failed_first :
    ∃ c, Run Step new [.init "10.0.0.1" 80 5, .connect 0, .close, .connect (-1), .close] c ∧
      c.log.count .cleanup ≤ 1 := by
  refine ⟨_, .snoc (.snoc (.snoc (.snoc (.snoc .nil rfl) rfl) rfl) rfl) rfl, ?_⟩
  exact (closes_only_failed _ _
    (.snoc (.snoc (.snoc (.snoc (.snoc .nil rfl) rfl) rfl) rfl) rfl)).2.2.2.2

end HsServerChannel

end HsCommon
