import HsCommon.ClientConnector
import HsCommon.Library.Outcome

/-!
# What a connector tells its handler

A connector that has received nothing gives `recv` no room, so nothing is ever unpacked. A
connected `Tick` then fails in `select`, in `recv` or in `send`, or it changes no more than its
buffer. When it fails it closes the connector, if `sock_` is above 0, and tells the handler.
-/

namespace HsCommon.HSClientConnector
open Outcome

variable {w : ULongWidth} {results : ℕ → ℤ} {fuel : ℕ} {handler : DataHandler}
  {c c' : HSClientConnector}

def NeverCloses (handler : DataHandler) : Prop := ∀ calls, .close ∉ handler calls

def Idle (c : HSClientConnector) : Prop :=
  c.recvBuffer.inOffset = 0 ∧ c.recvBuffer.inUsedOffset = 0

def SendFails (results : ℕ → ℤ) (c : HSClientConnector) : Prop :=
  c.packer = false ∨ ∃ size, c.sendBuffer.getCanSendSize = .ok size ∧ size ≠ 0 ∧
    (c.sendDirectly results c.sendBuffer.sentOffset size).1 < 0

/-- A `Tick` of a connected connector fails, and has `res` when it does. -/
def TickFails (results : ℕ → ℤ) (poll : Poll) (c : HSClientConnector) (res : ℤ) : Prop :=
  (poll.select < 0 ∧ res = poll.select) ∨
  (0 < poll.select ∧ poll.recv = none ∧ res = -1) ∨
  (0 ≤ poll.select ∧ (0 < poll.select → poll.recv ≠ none) ∧ SendFails results c ∧ res = 0)

theorem Idle.recvArea_eq (h : c.Idle) : c.recvArea = (0, 0) := by
  rw [HSClientConnector.recvArea, HSRecvBuffer.getCanUseSize, h.1, h.2]
  rfl

theorem Idle.recv (h : c.Idle) (bytes : List UInt8) : c.recv bytes = (0, c) := by
  simp only [HSClientConnector.recv, h.recvArea_eq, List.take_zero, List.length_nil,
    List.append_nil, HSBuffer.put_nil]

theorem write_cases {data : List UInt8} {r : ℤ} (h : c.write w data = .ok (r, c')) :
    c' = c ∨ ∃ outData outSize written tags,
      c' = { c with
        sendBuffer := { c.sendBuffer with
          toHSBuffer := ({ c.sendBuffer.toHSBuffer with buffer := some outData }.dataIn outSize).2 }
        written := written
        tags := tags } := by
  rw [HSClientConnector.write] at h
  split_ifs at h
  · obtain ⟨-, rfl⟩ := Prod.mk.inj (Except.ok.inj h)
    exact Or.inl rfl
  · obtain ⟨d, -, h⟩ := exists_of_bind h
    cases d with
    | tooLong =>
      obtain ⟨-, rfl⟩ := Prod.mk.inj (Except.ok.inj h)
      exact Or.inl rfl
    | noRoom =>
      obtain ⟨-, rfl⟩ := Prod.mk.inj (Except.ok.inj h)
      exact Or.inl rfl
    | done outData outSize =>
      dsimp only at h
      split_ifs at h
      · obtain ⟨-, rfl⟩ := Prod.mk.inj (Except.ok.inj h)
        exact Or.inr ⟨outData, outSize, c.written, c.tags, rfl⟩
      · obtain ⟨-, rfl⟩ := Prod.mk.inj (Except.ok.inj h)
        exact Or.inr ⟨outData, outSize, _, _, rfl⟩

structure Unchanged (c c' : HSClientConnector) : Prop where
  sock : c'.sock = c.sock
  packer : c'.packer = c.packer
  state : c'.state = c.state
  calls : c'.calls = c.calls

theorem Unchanged.refl (c : HSClientConnector) : Unchanged c c := ⟨rfl, rfl, rfl, rfl⟩

theorem Unchanged.trans {c'' : HSClientConnector} (h : Unchanged c c') (h' : Unchanged c' c'') :
    Unchanged c c'' :=
  ⟨h'.sock.trans h.sock, h'.packer.trans h.packer, h'.state.trans h.state, h'.calls.trans h.calls⟩

theorem processSend_cases {r : ℤ} (h : c.processSend results = .ok (r, c')) :
    (r < 0 ↔ SendFails results c) ∧ Unchanged c c' := by
  rw [HSClientConnector.processSend] at h
  cases hp : c.packer with
  | false =>
    rw [hp] at h
    obtain ⟨rfl, rfl⟩ := Prod.mk.inj (Except.ok.inj h)
    exact ⟨iff_of_true (by decide) (Or.inl hp), .refl c⟩
  | true =>
    rw [hp, if_neg (by decide)] at h
    obtain ⟨size, hsize, h⟩ := exists_of_bind h
    dsimp only at h
    have hfails : SendFails results c ↔ size ≠ 0 ∧
        (c.sendDirectly results c.sendBuffer.sentOffset size).1 < 0 := by
      constructor
      · rintro (hf | ⟨size', hs', hfail⟩)
        · rw [hp] at hf
          cases hf
        · rwa [Except.ok.inj (hsize.symm.trans hs')]
      · exact fun hfail => Or.inr ⟨size, hsize, hfail⟩
    rw [hfails]
    split_ifs at h with hzero hneg
    · obtain ⟨rfl, rfl⟩ := Prod.mk.inj (Except.ok.inj h)
      exact ⟨iff_of_false (by decide) fun hf => hf.1 hzero, .refl c⟩
    · obtain ⟨rfl, rfl⟩ := Prod.mk.inj (Except.ok.inj h)
      exact ⟨iff_of_true (by decide) ⟨hzero, hneg⟩, rfl, rfl, rfl, rfl⟩
    · obtain ⟨rfl, rfl⟩ := Prod.mk.inj (Except.ok.inj h)
      exact ⟨iff_of_false (by decide) fun hf => hneg hf.2, rfl, rfl, rfl, rfl⟩

theorem unchanged_send (data : List UInt8) (c : HSClientConnector) :
    Ends (fun r => Unchanged c r.2) (fun _ => True) (c.send w results data) := by
  rw [HSClientConnector.send]
  cases hw : c.write w data with
  | error f => trivial
  | ok r =>
    obtain ⟨n, c₁⟩ := r
    have hwritten : Unchanged c c₁ := by
      obtain rfl | ⟨outData, outSize, written, tags, rfl⟩ := write_cases hw
      · exact .refl _
      · exact ⟨rfl, rfl, rfl, rfl⟩
    refine Ends.ite (fun _ => hwritten) fun _ => ?_
    cases hps : c₁.processSend results with
    | error f => trivial
    | ok q =>
      have hsent := hwritten.trans (processSend_cases hps).2
      exact Ends.ite (fun _ => hsent) fun _ => hsent

theorem unchanged_actions {as : List ClientAction} (has : .close ∉ as) (c : HSClientConnector) :
    Ends (Unchanged c) (fun _ => True) (as.foldlM (runAction w results) c) := by
  refine Ends.foldlM (P := Unchanged c) ?_ (.refl c)
  intro c₁ a ha h₁
  cases a with
  | send data => exact (unchanged_send data.val c₁).bind fun r hr => h₁.trans hr
  | disconnect => exact h₁
  | close => exact absurd ha has

theorem unchanged_call (hh : NeverCloses handler) (e : ClientCall) (c : HSClientConnector) :
    Ends (Unchanged { c with calls := c.calls ++ [e] }) (fun _ => True)
      (c.call w results handler e) :=
  unchanged_actions (hh _) _

theorem actions_detached {as : List ClientAction} (has : .close ∉ as) (hp : c.packer = false) :
    as.foldlM (runAction w results) c = .ok c := by
  induction as with
  | nil => rfl
  | cons a as ih =>
    have hrest := ih fun hc => has (List.mem_cons_of_mem _ hc)
    rw [List.foldlM_cons]
    cases a with
    | send data =>
      have hwrite : c.write w data.val = .ok (-1, c) := if_pos (by simp [hp])
      have hsend : c.runAction w results (.send data) = .ok c := by
        simp only [runAction, HSClientConnector.send, hwrite]
        rfl
      rw [hsend]
      exact hrest
    | disconnect => exact hrest
    | close => exact absurd List.mem_cons_self has

/-- The connector is closed, if its descriptor is above 0, and the handler told. -/
structure Told (res : ℤ) (c c' : HSClientConnector) : Prop where
  calls : c'.calls = c.calls ++ [.onDisconnect res]
  state : c'.state = if 0 < c.sock then .notInitialized else c.state

theorem Unchanged.told {c₁ : HSClientConnector} {res : ℤ} (h : Unchanged c c₁)
    (h' : Told res c₁ c') : Told res c c' :=
  ⟨h.calls ▸ h'.calls, h.sock ▸ h.state ▸ h'.state⟩

theorem calls_close (c : HSClientConnector) : c.close.calls = c.calls := by
  rw [HSClientConnector.close]
  split_ifs <;> rfl

theorem told_closeAndTell (hh : NeverCloses handler) {res r : ℤ}
    (h : c.closeAndTell w results handler res = .ok (r, c')) : Told res c c' := by
  obtain ⟨c₁, hcall, hc₁⟩ := exists_of_bind h
  obtain ⟨-, rfl⟩ := Prod.mk.inj (Except.ok.inj hc₁)
  have hsame := (unchanged_call hh _ _).result hcall
  refine ⟨?_, ?_⟩
  · rw [hsame.calls, calls_close]
  · rw [hsame.state]
    by_cases hsock : c.sock ≤ 0
    · rw [HSClientConnector.close, if_pos hsock, if_neg (not_lt.mpr hsock)]
    · rw [HSClientConnector.close, if_neg hsock, if_pos (not_le.mp hsock)]

theorem closeAndTell_returns (hh : NeverCloses handler) (hsock : 0 < c.sock) (res : ℤ) :
    ∃ c', c.closeAndTell w results handler res = .ok (0, c') := by
  have hpacker : c.close.packer = false := by
    rw [HSClientConnector.close, if_neg (not_le.mpr hsock)]
  have hcall : c.close.call w results handler (.onDisconnect res) =
      .ok { c.close with calls := c.close.calls ++ [.onDisconnect res] } :=
    actions_detached (hh _) hpacker
  exact ⟨_, by rw [HSClientConnector.closeAndTell, hcall]; rfl⟩

theorem tickSend_cases (hh : NeverCloses handler) {res r : ℤ}
    (h : c.tickSend w results handler res = .ok (r, c')) :
    (SendFails results c → Told res c c') ∧ (¬ SendFails results c → Unchanged c c') := by
  obtain ⟨⟨n, c₁⟩, hps, hrest⟩ := exists_of_bind h
  obtain ⟨hfails, hsame⟩ := processSend_cases hps
  rw [← hfails]
  dsimp only at hrest
  split_ifs at hrest with hn
  · exact ⟨fun _ => hsame.told (told_closeAndTell hh hrest), fun hpos => absurd hn hpos⟩
  · obtain ⟨-, rfl⟩ := Prod.mk.inj (Except.ok.inj hrest)
    exact ⟨fun hneg => absurd hneg hn, fun _ => hsame⟩

theorem tickSend_returns (hh : NeverCloses handler) (hsock : 0 < c.sock)
    (hfails : SendFails results c) (res : ℤ) :
    ∃ r c', c.tickSend w results handler res = .ok (r, c') := by
  have hsent : ∃ q, c.processSend results = .ok q := by
    rcases hfails with hp | ⟨size, hsize, -, -⟩
    · exact ⟨(-1, c), if_pos (by simp [hp])⟩
    · rw [HSClientConnector.processSend, hsize]
      simp only [bind, Except.bind]
      split_ifs <;> exact ⟨_, rfl⟩
  obtain ⟨⟨n, c₁⟩, hps⟩ := hsent
  obtain ⟨hneg, hsame⟩ := processSend_cases hps
  obtain ⟨c', hc'⟩ := @closeAndTell_returns w results handler c₁ hh (hsame.sock ▸ hsock) res
  refine ⟨0, c', ?_⟩
  rw [HSClientConnector.tickSend, hps]
  simp only [bind, Except.bind, if_pos (hneg.mpr hfails)]
  exact hc'

theorem Idle.tick_eq (hidle : c.Idle) (hstate : c.state = .connected) (handler : DataHandler)
    (poll : Poll) :
    c.tick w results fuel (some handler) poll =
      if poll.select < 0 then c.closeAndTell w results handler poll.select
      else if 0 < poll.select ∧ poll.recv = none then c.closeAndTell w results handler (-1)
      else c.tickSend w results handler 0 := by
  have hopen : ¬ (c.state ≠ .connecting ∧ c.state ≠ .connected) := fun hne => hne.2 hstate
  have hconn : ¬ c.state = .connecting := by
    rw [hstate]
    decide
  have hzero : toInt ((0 : ℕ) : ℤ) = 0 := by decide
  rw [HSClientConnector.tick, if_neg hopen]
  dsimp only
  rw [if_neg hconn]
  by_cases hneg : poll.select < 0
  · rw [if_pos hneg, if_pos hneg]
  rw [if_neg hneg, if_neg hneg]
  by_cases hpos : 0 < poll.select
  · rw [if_pos hpos]
    cases poll.recv with
    | none => rw [if_pos ⟨hpos, rfl⟩]
    | some bytes =>
      rw [if_neg fun hnone => by cases hnone.2]
      dsimp only
      rw [hidle.recv bytes, hzero, if_neg (lt_irrefl 0), if_neg (lt_irrefl 0)]
  · rw [if_neg hpos, if_neg fun hnone => hpos hnone.1, show poll.select = 0 by omega]

theorem connected_cases (hidle : c.Idle) (hh : NeverCloses handler) (hstate : c.state = .connected)
    {poll : Poll} {r : ℤ} (h : c.tick w results fuel (some handler) poll = .ok (r, c')) :
    (∃ res, TickFails results poll c res ∧ Told res c c') ∨
      ((∀ res, ¬ TickFails results poll c res) ∧ Unchanged c c') := by
  rw [hidle.tick_eq hstate] at h
  split_ifs at h with hneg hnone
  · exact Or.inl ⟨_, Or.inl ⟨hneg, rfl⟩, told_closeAndTell hh h⟩
  · exact Or.inl ⟨-1, Or.inr (Or.inl ⟨hnone.1, hnone.2, rfl⟩), told_closeAndTell hh h⟩
  · obtain ⟨htold, hquiet⟩ := tickSend_cases hh h
    by_cases hfails : SendFails results c
    · refine Or.inl ⟨0, Or.inr (Or.inr ⟨not_lt.mp hneg, fun hpos hrecv => ?_, hfails, rfl⟩),
        htold hfails⟩
      exact hnone ⟨hpos, hrecv⟩
    · refine Or.inr ⟨fun res => ?_, hquiet hfails⟩
      rintro (⟨hn, -⟩ | ⟨hpos, hrecv, -⟩ | ⟨-, -, hf, -⟩)
      · exact hneg hn
      · exact hnone ⟨hpos, hrecv⟩
      · exact hfails hf

theorem tick_returns (hidle : c.Idle) (hh : NeverCloses handler) (hstate : c.state = .connected)
    (hsock : 0 < c.sock) {poll : Poll} {res : ℤ} (hfails : TickFails results poll c res) :
    ∃ r c', c.tick w results fuel (some handler) poll = .ok (r, c') := by
  rw [hidle.tick_eq hstate]
  rcases hfails with ⟨hneg, -⟩ | ⟨hpos, hnone, -⟩ | ⟨hnonneg, hrecv, hsend, -⟩
  · rw [if_pos hneg]
    exact ⟨0, closeAndTell_returns hh hsock poll.select⟩
  · rw [if_neg hpos.not_gt, if_pos ⟨hpos, hnone⟩]
    exact ⟨0, closeAndTell_returns hh hsock (-1)⟩
  · rw [if_neg (not_lt.mpr hnonneg), if_neg fun hnone => hrecv hnone.1 hnone.2]
    exact tickSend_returns hh hsock hsend 0

theorem state_close (h : c.close.state = .connected) : c.state = .connected := by
  rw [HSClientConnector.close] at h
  split_ifs at h
  exact h

theorem connect_cases (hh : NeverCloses handler) {res : ℤ} {wouldBlock r : Bool}
    (h : c.connect w results (some handler) res wouldBlock = .ok (r, c')) :
    (c'.calls = c.calls ∧ (c'.state = .connected → c.state = .connected)) ∨
      c'.calls = c.calls ++ [.onConnect res] := by
  rw [HSClientConnector.connect] at h
  split_ifs at h
  · obtain ⟨-, rfl⟩ := Prod.mk.inj (Except.ok.inj h)
    exact Or.inl ⟨rfl, id⟩
  · obtain ⟨-, rfl⟩ := Prod.mk.inj (Except.ok.inj h)
    exact Or.inl ⟨rfl, id⟩
  · obtain ⟨-, rfl⟩ := Prod.mk.inj (Except.ok.inj h)
    exact Or.inl ⟨rfl, fun hc => (by cases hc)⟩
  · obtain ⟨c₁, hcall, hc₁⟩ := exists_of_bind h
    obtain ⟨-, rfl⟩ := Prod.mk.inj (Except.ok.inj hc₁)
    exact Or.inr ((unchanged_call hh _ _).result hcall).calls
  · obtain ⟨-, rfl⟩ := Prod.mk.inj (Except.ok.inj h)
    exact Or.inl ⟨rfl, id⟩

theorem tick_cases (hidle : c.Idle) (hh : NeverCloses handler) {poll : Poll} {r : ℤ}
    (h : c.tick w results fuel (some handler) poll = .ok (r, c')) :
    (c'.calls = c.calls ∧ (c'.state = .connected → c.state = .connected)) ∨
    (∃ res, c'.calls = c.calls ++ [.onConnect res]) ∨
    (c.state = .connected ∧ ∃ res, TickFails results poll c res ∧ Told res c c') := by
  by_cases hconn : c.state = .connected
  · rcases connected_cases hidle hh hconn h with ⟨res, hfails, htold⟩ | ⟨-, hsame⟩
    · exact Or.inr (Or.inr ⟨hconn, res, hfails, htold⟩)
    · exact Or.inl ⟨hsame.calls, fun _ => hconn⟩
  · rw [HSClientConnector.tick] at h
    by_cases hconnecting : c.state = .connecting
    · rw [if_neg fun hne => hne.1 hconnecting] at h
      dsimp only at h
      rw [if_pos hconnecting] at h
      split_ifs at h
      · obtain ⟨-, rfl⟩ := Prod.mk.inj (Except.ok.inj h)
        exact Or.inl ⟨rfl, id⟩
      · obtain ⟨-, rfl⟩ := Prod.mk.inj (Except.ok.inj h)
        exact Or.inl ⟨rfl, id⟩
      · obtain ⟨c₁, hcall, hc₁⟩ := exists_of_bind h
        obtain ⟨-, rfl⟩ := Prod.mk.inj (Except.ok.inj hc₁)
        exact Or.inr (Or.inl ⟨_, ((unchanged_call hh _ _).result hcall).calls⟩)
      · obtain ⟨-, rfl⟩ := Prod.mk.inj (Except.ok.inj h)
        exact Or.inl ⟨rfl, id⟩
    · rw [if_pos ⟨hconnecting, hconn⟩] at h
      obtain ⟨-, rfl⟩ := Prod.mk.inj (Except.ok.inj h)
      exact Or.inl ⟨rfl, id⟩

theorem exec_cases (hidle : c.Idle) (hh : NeverCloses handler) {e : ConnectorEvent}
    (h : c.exec w results fuel (some handler) e = .ok c') :
    (c'.calls = c.calls ∧ (c'.state = .connected → c.state = .connected)) ∨
    (∃ res, c'.calls = c.calls ++ [.onConnect res]) ∨
    (∃ poll res, e = .tick poll ∧ c.state = .connected ∧ TickFails results poll c res ∧
      Told res c c') := by
  cases e with
  | connect res wouldBlock =>
    obtain ⟨q, hconnect, hq⟩ := exists_of_bind h
    obtain rfl := Except.ok.inj hq
    rcases connect_cases hh hconnect with hsame | hcalls
    · exact Or.inl hsame
    · exact Or.inr (Or.inl ⟨res, hcalls⟩)
  | send data =>
    obtain ⟨q, hsend, hq⟩ := exists_of_bind h
    obtain rfl := Except.ok.inj hq
    have hsame := (unchanged_send data.val c).result hsend
    exact Or.inl ⟨hsame.calls, fun hc => hsame.state ▸ hc⟩
  | tick poll =>
    obtain ⟨q, htick, hq⟩ := exists_of_bind h
    obtain rfl := Except.ok.inj hq
    rcases tick_cases hidle hh htick with hsame | hconnect | ⟨hconn, res, hfails, htold⟩
    · exact Or.inl hsame
    · exact Or.inr (Or.inl hconnect)
    · exact Or.inr (Or.inr ⟨poll, res, rfl, hconn, hfails, htold⟩)
  | disconnect =>
    obtain rfl := Except.ok.inj h
    exact Or.inl ⟨rfl, id⟩
  | close =>
    obtain rfl := Except.ok.inj h
    exact Or.inl ⟨calls_close c, state_close⟩

end HsCommon.HSClientConnector
