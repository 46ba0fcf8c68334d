import HsCommon.ConnectorCloses
import HsCommon.ConnectorInit

/-!
# Runs with proper socket calls

A connector makes proper calls as long as it is not closed, disconnected or connected
when its descriptor has been closed already. A `Tick` that fails to receive or to send closes it
before it tells the handler, so there the handler may do neither.
-/

namespace HsCommon.SocketUser
open Transition Outcome Histories SocketCall
open HSClientConnector (SendFails TickFails write_cases)

variable {p : Platform} {w : ULongWidth} {results : ℕ → ℤ} {fuel : ℕ} {s s' : SocketUser}

/-- Actions in an order that uses the descriptor only while it is usable, and closes it at most
once. -/
def Orderly (usable closable : Prop) : List ClientAction → Prop
  | [] => True
  | .send _ :: as => Orderly usable closable as
  | .disconnect :: as => usable ∧ Orderly usable closable as
  | .close :: as => closable ∧ Orderly False False as

/-- `Close` and `Disconnect` do nothing if `sock_` is not above 0. -/
def Permits (s : SocketUser) (as : List ClientAction) : Prop :=
  s.sock ≤ 0 ∨ Orderly s.Usable s.Closable as

/-- What a call needs in order to make proper socket calls only. -/
def Allowed (results : ℕ → ℤ) (handler : Option DataHandler) (s : SocketUser) : SocketEvent → Prop
  | .init .. | .act (.send _) => True
  | .destroy | .act .close => s.Permits [.close]
  | .act .disconnect => s.Permits [.disconnect]
  | .act (.connect res _) => s.sock = 0 ∨ (s.Usable ∧ (res = 0 → ∀ h ∈ handler,
      s.Permits (h (s.calls ++ [.onConnect res]))))
  | .act (.tick poll) => ∀ h ∈ handler,
      (s.state = .connecting → 0 < poll.select → poll.isSet = true →
        s.Permits (h (s.calls ++ [.onConnect poll.select]))) ∧
      (s.state = .connected → ∀ res, TickFails results poll s.toHSClientConnector res →
        s.Permits (.close :: h (s.calls ++ [.onDisconnect res])))

theorem SameDescriptor.permits (h : SameDescriptor s s') (as : List ClientAction) :
    s'.Permits as ↔ s.Permits as := by
  rw [Permits, Permits, h.sock, propext h.usable, propext h.closable]

theorem Tracked.close_proper_iff (h : s.Tracked p) (hs : Proper s.log) :
    Proper (s.close p).log ↔ s.Permits [.close] := by
  rw [h.closed_proper_iff hs, Permits, Orderly, Orderly, and_true]

theorem disconnect_proper_iff (hs : Proper s.log) :
    Proper s.disconnect.log ↔ s.Permits [.disconnect] := by
  rw [SocketUser.disconnect, Permits, Orderly, Orderly, and_true]
  by_cases hsock : s.sock ≤ 0
  · rw [if_pos hsock]
    exact iff_of_true hs (Or.inl hsock)
  · rw [if_neg hsock, or_iff_right hsock]
    exact on_proper_iff hs .shutdown rfl

theorem prefix_kept (log : List SocketCall) :
    Kept p w results fun s => log <+: s.log := by
  intro s s' h hpiece
  cases hpiece with
  | init recvBuffLen sendBuffLen r =>
    obtain he | he | he | he := init_cases p recvBuffLen sendBuffLen r s <;> rw [he] <;>
      exact h.trans (List.prefix_append _ _)
  | on f => exact h.trans (List.prefix_append _ _)
  | dial state => exact h.trans (List.prefix_append _ _)
  | sendDirectly offset len => exact h.trans (List.prefix_append _ _)
  | close =>
    rw [SocketUser.close]
    split_ifs
    · exact h
    all_goals exact h.trans (List.prefix_append _ _)
  | _ => exact h

theorem Proper.of_prefix {log log' : List SocketCall} (h : log <+: log') (hp : Proper log') :
    Proper log := by
  obtain ⟨more, rfl⟩ := h
  exact hp.of_append

structure Sends (s s' : SocketUser) : Prop where
  same : SameDescriptor s s'
  proper : Proper s'.log
  calls : s'.calls = s.calls

theorem processSend_fails {r : ℤ} (hsend : s.processSend results = .ok (r, s')) :
    r < 0 ↔ SendFails results s.toHSClientConnector :=
  (HSClientConnector.processSend_cases ((processSend_forget s).result hsend)).1

theorem processSend_calls {r : ℤ} (hsend : s.processSend results = .ok (r, s')) :
    s' = s ∨ s.packer = true ∧
      ∃ size, s' = (s.sendDirectly results s.sendBuffer.sentOffset size).2 := by
  rw [SocketUser.processSend] at hsend
  cases hp : s.packer with
  | false =>
    rw [hp] at hsend
    obtain ⟨-, rfl⟩ := Prod.mk.inj (Except.ok.inj hsend)
    exact Or.inl rfl
  | true =>
    rw [hp, if_neg (by decide)] at hsend
    obtain ⟨size, -, hsend⟩ := exists_of_bind hsend
    dsimp only at hsend
    split_ifs at hsend
    · obtain ⟨-, rfl⟩ := Prod.mk.inj (Except.ok.inj hsend)
      exact Or.inl rfl
    all_goals
      obtain ⟨-, rfl⟩ := Prod.mk.inj (Except.ok.inj hsend)
      exact Or.inr ⟨rfl, size, rfl⟩

theorem Tracked.processSend (h : s.Tracked p) (hs : Proper s.log) {r : ℤ}
    (hsend : s.processSend results = .ok (r, s')) :
    Sends s s' ∧ (r < 0 ↔ SendFails results s.toHSClientConnector) := by
  have hfails := processSend_fails hsend
  obtain rfl | ⟨hp, size, rfl⟩ := processSend_calls hsend
  · exact ⟨⟨.refl _, hs, rfl⟩, hfails⟩
  · refine ⟨⟨sameDescriptor_on .send rfl rfl, ?_, rfl⟩, hfails⟩
    exact (on_proper_iff hs .send rfl).mpr (h.usable hs (Or.inl hp))

theorem Tracked.send (h : s.Tracked p) (hs : Proper s.log) {data : List UInt8} {r : ℤ}
    (hsend : s.send w results data = .ok (r, s')) : Sends s s' := by
  rw [SocketUser.send] at hsend
  obtain ⟨⟨n, c⟩, hw, hsend⟩ := exists_of_bind hsend
  have hwritten : Sends s { s with toHSClientConnector := c } := by
    obtain rfl | ⟨outData, outSize, written, tags, rfl⟩ := write_cases hw
    · exact ⟨.refl s, hs, rfl⟩
    · exact ⟨sameDescriptor_log rfl rfl, hs, rfl⟩
  have htracked := @tracked_kept p w results s _ h (.write data hw)
  dsimp only at hsend
  split_ifs at hsend with hn
  · obtain ⟨-, rfl⟩ := Prod.mk.inj (Except.ok.inj hsend)
    exact hwritten
  · obtain ⟨⟨m, s₁⟩, hps, hsend⟩ := exists_of_bind hsend
    have hsent := (htracked.processSend hwritten.proper hps).1
    have hsame : s₁ = s' := by
      dsimp only at hsend
      split_ifs at hsend <;> exact (Prod.mk.inj (Except.ok.inj hsend)).2
    rw [← hsame]
    exact ⟨hwritten.same.trans hsent.same, hsent.proper, hsent.calls.trans hwritten.calls⟩

theorem Tracked.actions_proper_iff (h : s.Tracked p) (hs : Proper s.log) {as : List ClientAction}
    (hrun : as.foldlM (runAction p w results) s = .ok s') : Proper s'.log ↔ s.Permits as := by
  induction as generalizing s with
  | nil =>
    obtain rfl := Except.ok.inj hrun
    exact iff_of_true hs (Or.inr trivial)
  | cons a as ih =>
    rw [List.foldlM_cons] at hrun
    obtain ⟨s₁, ha, hrun⟩ := exists_of_bind hrun
    have h₁ := (tracked_kept.runAction h a).result ha
    have hpre : s₁.log <+: s'.log :=
      ((prefix_kept s₁.log).actions List.prefix_rfl as).result hrun
    cases a with
    | send data =>
      obtain ⟨r, hsend, hr⟩ := exists_of_bind ha
      obtain rfl := Except.ok.inj hr
      have hsent := h.send hs hsend
      exact (ih h₁ hsent.proper hrun).trans (hsent.same.permits as)
    | disconnect =>
      obtain rfl := Except.ok.inj ha
      have hproper := @disconnect_proper_iff s hs
      by_cases hsock : s.sock ≤ 0
      · have hp := hproper.mpr (Or.inl hsock)
        have hsock' : s.disconnect.sock ≤ 0 := by rwa [SocketUser.disconnect, if_pos hsock]
        exact iff_of_true ((ih h₁ hp hrun).mpr (Or.inl hsock')) (Or.inl hsock)
      · have hsame : SameDescriptor s s.disconnect := by
          rw [SocketUser.disconnect, if_neg hsock]
          exact sameDescriptor_on .shutdown rfl rfl
        constructor
        · intro hp
          have hp₁ := Proper.of_prefix hpre hp
          have huse := (hproper.mp hp₁).resolve_left hsock
          have hrest := (hsame.permits as).mp ((ih h₁ hp₁ hrun).mp hp)
          exact Or.inr ⟨huse.1, hrest.resolve_left hsock⟩
        · intro hp
          obtain ⟨huse, hrest⟩ := hp.resolve_left hsock
          have hp₁ := hproper.mpr (Or.inr ⟨huse, trivial⟩)
          exact (ih h₁ hp₁ hrun).mpr ((hsame.permits as).mpr (Or.inr hrest))
    | close =>
      obtain rfl := Except.ok.inj ha
      have hproper := h.close_proper_iff hs
      by_cases hsock : s.sock ≤ 0
      · have hp := hproper.mpr (Or.inl hsock)
        have hsock' : (s.close p).sock ≤ 0 := by rwa [SocketUser.close, if_pos hsock]
        exact iff_of_true ((ih h₁ hp hrun).mpr (Or.inl hsock')) (Or.inl hsock)
      · -- nothing more may be done with the descriptor
        have hpermits : (s.close p).Permits as ↔ Orderly False False as := by
          have hunusable := @close_unusable p s hsock
          have hunclosable : ¬ (s.close p).Closable := fun hc => hunusable hc.usable
          rw [Permits, (close_of_pos hsock).1, or_iff_right hsock, eq_false hunusable,
            eq_false hunclosable]
        constructor
        · intro hp
          have hp₁ := Proper.of_prefix hpre hp
          have huse := (hproper.mp hp₁).resolve_left hsock
          exact Or.inr ⟨huse.1, hpermits.mp ((ih h₁ hp₁ hrun).mp hp)⟩
        · intro hp
          obtain ⟨huse, hrest⟩ := hp.resolve_left hsock
          have hp₁ := hproper.mpr (Or.inr ⟨huse, trivial⟩)
          exact (ih h₁ hp₁ hrun).mpr (hpermits.mpr hrest)

theorem permits_calls (s : SocketUser) (calls : List ClientCall) (as : List ClientAction) :
    ({ s with calls := calls } : SocketUser).Permits as ↔ s.Permits as := by
  have hsame : SameDescriptor s { s with calls := calls } := sameDescriptor_log rfl rfl
  exact hsame.permits as

theorem Tracked.call_proper_iff (h : s.Tracked p) (hs : Proper s.log) {hd : DataHandler}
    {e : ClientCall} (hcall : s.call p w results hd e = .ok s') :
    Proper s'.log ↔ s.Permits (hd (s.calls ++ [e])) := by
  have htold := @tracked_kept p w results s _ h (.tell e)
  exact (htold.actions_proper_iff hs hcall).trans (permits_calls s _ _)

theorem close_calls (s : SocketUser) (calls : List ClientCall) :
    ({ s with calls := calls } : SocketUser).close p = { s.close p with calls := calls } := by
  simp only [SocketUser.close, HSClientConnector.close]
  split_ifs <;> rfl

theorem calls_close (s : SocketUser) : (s.close p).calls = s.calls := by
  simp only [SocketUser.close, HSClientConnector.close]
  split_ifs <;> rfl

theorem Tracked.closeAndTell_proper_iff (h : s.Tracked p) (hs : Proper s.log) {hd : DataHandler}
    {res : ℤ} {r : ℤ} (htell : s.closeAndTell p w results hd res = .ok (r, s')) :
    Proper s'.log ↔ s.Permits (.close :: hd (s.calls ++ [.onDisconnect res])) := by
  rw [SocketUser.closeAndTell] at htell
  obtain ⟨s₁, hcall, hs₁⟩ := exists_of_bind htell
  obtain ⟨-, rfl⟩ := Prod.mk.inj (Except.ok.inj hs₁)
  -- as if the handler closed first
  have hrun : (ClientAction.close :: hd (s.calls ++ [.onDisconnect res])).foldlM
      (runAction p w results)
      ({ s with calls := s.calls ++ [.onDisconnect res] } : SocketUser) = .ok s₁ := by
    rw [SocketUser.call, calls_close] at hcall
    rw [List.foldlM_cons, runAction, close_calls]
    exact hcall
  have htold := @tracked_kept p w results s _ h (.tell (.onDisconnect res))
  exact (htold.actions_proper_iff hs hrun).trans (permits_calls s _ _)

theorem Tracked.on_call_proper_iff {s₁ : SocketUser} (h₁ : s₁.Tracked p) (hs : Proper s.log)
    {f : SocketFunction} (hsock : s₁.sock = s.sock) (hlog : s₁.log = s.log ++ [.on f s.sock])
    (hcalls : s₁.calls = s.calls) {hd : DataHandler} {e : ClientCall}
    (hcall : s₁.call p w results hd e = .ok s') :
    Proper s'.log ↔ s.Usable ∧ s.Permits (hd (s.calls ++ [e])) := by
  have hproper := on_proper_iff hs f hlog
  have hsame := sameDescriptor_on f hsock hlog
  have hpre : s₁.log <+: s'.log := ((prefix_kept s₁.log).call List.prefix_rfl hd e).result hcall
  have hiff := fun hs₁ : Proper s₁.log => h₁.call_proper_iff hs₁ hcall
  rw [hcalls, hsame.permits] at hiff
  constructor
  · intro hp
    have hp₁ := Proper.of_prefix hpre hp
    exact ⟨hproper.mp hp₁, (hiff hp₁).mp hp⟩
  · rintro ⟨huse, hpermits⟩
    exact (hiff (hproper.mpr huse)).mpr hpermits

theorem Tracked.connect_proper_iff (h : s.Tracked p) (hs : Proper s.log)
    {handler : Option DataHandler} {res : ℤ} {wouldBlock : Bool} {r : Bool}
    (hconnect : s.connect p w results handler res wouldBlock = .ok (r, s')) :
    Proper s'.log ↔ s.sock = 0 ∨ (s.Usable ∧ (res = 0 → ∀ hd ∈ handler,
      s.Permits (hd (s.calls ++ [.onConnect res])))) := by
  rw [SocketUser.connect] at hconnect
  by_cases hsock : s.sock = 0
  · rw [if_pos hsock] at hconnect
    obtain ⟨-, rfl⟩ := Prod.mk.inj (Except.ok.inj hconnect)
    exact iff_of_true hs (Or.inl hsock)
  rw [if_neg hsock] at hconnect
  rw [or_iff_right hsock]
  dsimp only at hconnect
  by_cases hzero : res = 0
  · subst hzero
    rw [if_neg (by decide), if_pos rfl] at hconnect
    cases handler with
    | none => cases hconnect
    | some hd =>
      have hdialed := @tracked_kept p w results s _ h (.dial .connected)
      obtain ⟨s₁, hcall, hs₁⟩ := exists_of_bind hconnect
      obtain ⟨-, rfl⟩ := Prod.mk.inj (Except.ok.inj hs₁)
      rw [hdialed.on_call_proper_iff hs (f := .connect) rfl rfl rfl hcall]
      simp
  · have hlog : s'.log = s.log ++ [.on .connect s.sock] := by
      split_ifs at hconnect <;> exact (Prod.mk.inj (Except.ok.inj hconnect)).2 ▸ rfl
    rw [on_proper_iff hs .connect hlog]
    exact (and_iff_left fun h0 => absurd h0 hzero).symm

theorem Tracked.tickSend_proper_iff (h : s.Tracked p) (hs : Proper s.log) {hd : DataHandler}
    {res : ℤ} {r : ℤ} (htick : s.tickSend p w results hd res = .ok (r, s')) :
    Proper s'.log ↔ (SendFails results s.toHSClientConnector →
      s.Permits (.close :: hd (s.calls ++ [.onDisconnect res]))) := by
  rw [SocketUser.tickSend] at htick
  obtain ⟨⟨n, s₁⟩, hps, htick⟩ := exists_of_bind htick
  have h₁ := ((@tracked_kept p w results).processSend h).result hps
  obtain ⟨hsent, hfails⟩ := h.processSend hs hps
  rw [← hfails]
  dsimp only at htick
  split_ifs at htick with hn
  · rw [h₁.closeAndTell_proper_iff hsent.proper htick, hsent.calls, hsent.same.permits]
    exact ⟨fun hp _ => hp, fun hp => hp hn⟩
  · obtain ⟨-, rfl⟩ := Prod.mk.inj (Except.ok.inj htick)
    exact iff_of_true hsent.proper fun hneg => absurd hneg hn

theorem Tracked.on (h : s.Tracked p) (f : SocketFunction) : (s.record [.on f s.sock]).Tracked p :=
  h.of_on f rfl rfl rfl rfl

theorem Tracked.sends_proper_iff {s₁ : SocketUser} (h₁ : s₁.Tracked p) (hs₁ : Proper s₁.log)
    (hsame : SameDescriptor s s₁) (hc : s₁.toHSClientConnector = s.toHSClientConnector)
    {hd : DataHandler} {r : ℤ} (htick : s₁.tickSend p w results hd 0 = .ok (r, s')) :
    Proper s'.log ↔ ∀ res, SendFails results s.toHSClientConnector ∧ res = 0 →
      s.Permits (.close :: hd (s.calls ++ [.onDisconnect res])) := by
  rw [h₁.tickSend_proper_iff hs₁ htick, hsame.permits, hc]
  constructor
  · rintro hp res ⟨hfails, rfl⟩
    exact hp hfails
  · exact fun hp hfails => hp 0 ⟨hfails, rfl⟩

theorem tick_idle (hidle : s.Idle) (hstate : s.state = .connected) (hd : DataHandler)
    (poll : Poll) :
    s.tick p w results fuel (some hd) poll =
      if poll.select < 0 then
        (s.record [.on .select s.sock]).closeAndTell p w results hd poll.select
      else if 0 < poll.select then
        if poll.recv = none then
          ((s.record [.on .select s.sock]).record [.on .recv s.sock]).closeAndTell p w results hd
            (-1)
        else ((s.record [.on .select s.sock]).record [.on .recv s.sock]).tickSend p w results hd 0
      else (s.record [.on .select s.sock]).tickSend p w results hd 0 := by
  have hopen : ¬ (s.state ≠ .connecting ∧ s.state ≠ .connected) := fun hne => hne.2 hstate
  have hconn : ¬ (s.record [.on .select s.sock]).state = .connecting := by
    rw [record_connector, hstate]
    decide
  rw [SocketUser.tick, if_neg hopen]
  dsimp only
  rw [if_neg hconn]
  split_ifs with hneg hpos hnone
  · rfl
  · rw [hnone]
    rfl
  · obtain ⟨bytes, hrecv⟩ := Option.ne_none_iff_exists'.mp hnone
    have hzero : toInt ((0 : ℕ) : ℤ) = 0 := by decide
    have hread : SocketUser.recv bytes
        ((s.record [.on .select s.sock]).record [.on .recv s.sock]) = (0, _) :=
      recv_idle (s := (s.record [.on .select s.sock]).record [.on .recv s.sock]) hidle bytes
    rw [hrecv]
    dsimp only
    rw [record_connector, hread, hzero, if_neg (lt_irrefl 0), if_neg (lt_irrefl 0)]
  · have hzero : poll.select = 0 := by omega
    rw [hzero]

theorem Tracked.connected_proper_iff (h : s.Tracked p) (hidle : s.Idle) (hs : Proper s.log)
    (huse : s.Usable) (hstate : s.state = .connected) {hd : DataHandler} {poll : Poll} {r : ℤ}
    (htick : s.tick p w results fuel (some hd) poll = .ok (r, s')) :
    Proper s'.log ↔ ∀ res, TickFails results poll s.toHSClientConnector res →
      s.Permits (.close :: hd (s.calls ++ [.onDisconnect res])) := by
  have hselected := on_proper hs huse .select
  have hsame : SameDescriptor s (s.record [.on .select s.sock]) := sameDescriptor_on .select rfl rfl
  have hread := on_proper hselected (hsame.usable.mpr huse) .recv
  have hsame' := hsame.trans (@sameDescriptor_on _
    ((s.record [.on .select s.sock]).record [.on .recv s.sock]) .recv rfl rfl)
  have hread' := (h.on .select).on .recv
  have hone : ∀ res₀, (∀ res, TickFails results poll s.toHSClientConnector res ↔ res = res₀) →
      (s.Permits (.close :: hd (s.calls ++ [.onDisconnect res₀])) ↔
        ∀ res, TickFails results poll s.toHSClientConnector res →
          s.Permits (.close :: hd (s.calls ++ [.onDisconnect res]))) := by
    intro res₀ hfails
    exact ⟨fun hp res hf => (hfails res).mp hf ▸ hp, fun hp => hp res₀ ((hfails res₀).mpr rfl)⟩
  rw [tick_idle hidle hstate] at htick
  split_ifs at htick with hneg hpos hnone
  · rw [(h.on .select).closeAndTell_proper_iff hselected htick, hsame.permits]
    refine hone poll.select fun res => ?_
    simp only [TickFails, hneg, true_and, not_lt.mpr hneg.le, not_le.mpr hneg, false_and, or_false]
  · rw [hread'.closeAndTell_proper_iff hread htick]
    refine (hsame'.permits _).trans (hone (-1) fun res => ?_)
    simp only [TickFails, hpos, hpos.not_gt, hnone, false_and, false_or, true_and, ne_eq,
      not_true, imp_false, and_false, or_false]
  · rw [hread'.sends_proper_iff hread hsame' rfl htick]
    refine forall_congr' fun res => imp_congr_left ?_
    simp only [TickFails, hpos, hpos.not_gt, hpos.le, hnone, ne_eq, not_false_iff,
      false_and, and_false, true_and, false_or, implies_true]
  · have hzero : poll.select = 0 := by omega
    rw [(h.on .select).sends_proper_iff hselected hsame rfl htick]
    refine forall_congr' fun res => imp_congr_left ?_
    simp only [TickFails, hzero, lt_irrefl, false_and, false_or, le_refl, true_and, false_implies]

theorem Tracked.connecting_proper_iff (h : s.Tracked p) (hs : Proper s.log) (huse : s.Usable)
    (hstate : s.state = .connecting) {hd : DataHandler} {poll : Poll} {r : ℤ}
    (htick : s.tick p w results fuel (some hd) poll = .ok (r, s')) :
    Proper s'.log ↔ (0 < poll.select → poll.isSet = true →
      s.Permits (hd (s.calls ++ [.onConnect poll.select]))) := by
  have hselected := on_proper hs huse .select
  rw [SocketUser.tick, if_neg fun hne => hne.1 hstate] at htick
  dsimp only at htick
  rw [if_pos (show (s.record [.on .select s.sock]).state = .connecting from hstate)] at htick
  by_cases hcalls : 0 < poll.select ∧ poll.isSet = true
  · rw [if_neg hcalls.1.not_gt, if_pos hcalls] at htick
    have hconnected := @tracked_kept p w results _ _ (h.on .select) (.connected hstate)
    obtain ⟨s₁, hcall, hs₁⟩ := exists_of_bind htick
    obtain ⟨-, rfl⟩ := Prod.mk.inj (Except.ok.inj hs₁)
    rw [hconnected.on_call_proper_iff hs (f := .select) rfl rfl rfl hcall]
    exact ⟨fun hp _ _ => hp.2, fun hp => ⟨huse, hp hcalls.1 hcalls.2⟩⟩
  · have hlog : s'.log = (s.record [.on .select s.sock]).log := by
      rw [if_neg hcalls] at htick
      split_ifs at htick <;> exact (Prod.mk.inj (Except.ok.inj htick)).2 ▸ rfl
    rw [hlog]
    exact iff_of_true hselected fun hpos hset => absurd ⟨hpos, hset⟩ hcalls

theorem Tracked.tick_proper_iff (h : s.Tracked p) (hidle : s.Idle) (hs : Proper s.log)
    {handler : Option DataHandler} {poll : Poll} {r : ℤ}
    (htick : s.tick p w results fuel handler poll = .ok (r, s')) :
    Proper s'.log ↔ ∀ hd ∈ handler,
      (s.state = .connecting → 0 < poll.select → poll.isSet = true →
        s.Permits (hd (s.calls ++ [.onConnect poll.select]))) ∧
      (s.state = .connected → ∀ res, TickFails results poll s.toHSClientConnector res →
        s.Permits (.close :: hd (s.calls ++ [.onDisconnect res]))) := by
  by_cases hstate : s.state ≠ .connecting ∧ s.state ≠ .connected
  · simp only [SocketUser.tick, if_pos hstate] at htick
    obtain ⟨-, rfl⟩ := Prod.mk.inj (Except.ok.inj htick)
    exact iff_of_true hs fun hd _ =>
      ⟨fun hc => absurd hc hstate.1, fun hc => absurd hc hstate.2⟩
  cases handler with
  | none =>
    simp only [SocketUser.tick, if_neg hstate] at htick
    obtain ⟨-, rfl⟩ := Prod.mk.inj (Except.ok.inj htick)
    exact iff_of_true hs fun hd hmem => by cases hmem
  | some hd =>
    have hopen : s.state = .connecting ∨ s.state = .connected := by
      by_contra hne
      exact hstate (not_or.mp hne)
    have huse := h.usable hs (Or.inr hopen)
    simp only [Option.mem_some_iff, forall_eq']
    rcases hopen with hconn | hconn
    · have hother : s.state = .connected → False := fun hc => by
        rw [hconn] at hc
        cases hc
      rw [h.connecting_proper_iff hs huse hconn htick]
      exact ⟨fun hp => ⟨fun _ => hp, fun hc => (hother hc).elim⟩, fun hp => hp.1 hconn⟩
    · have hother : s.state = .connecting → False := fun hc => by
        rw [hconn] at hc
        cases hc
      rw [h.connected_proper_iff hidle hs huse hconn htick]
      exact ⟨fun hp => ⟨fun hc => (hother hc).elim, fun _ => hp⟩, fun hp => hp.2 hconn⟩

theorem init_proper (hs : Proper s.log) (recvBuffLen sendBuffLen : ℕ) (r : InitResult) :
    Proper (s.init p recvBuffLen sendBuffLen r).2.log := by
  have hobtained : Proper (s.log ++ [SocketCall.init, SocketCall.socket r.sock]) :=
    proper_append hs _ (by simp [isClose])
  have hcontrolled := (proper_snoc (c := .on .ioctlsocket r.sock)).mpr
    ⟨hobtained, not_since_append_cons (by simp) (by simp)⟩
  obtain he | he | he | he := init_cases p recvBuffLen sendBuffLen r s <;> rw [he]
  · exact proper_append hs _ (by simp [isClose])
  · exact proper_append hs _ (by simp [isClose])
  · rw [List.append_assoc] at hcontrolled
    exact hcontrolled
  · have hreturned := proper_append hcontrolled [.initialized] (by simp [isClose])
    rw [List.append_assoc, List.append_assoc] at hreturned
    exact hreturned

theorem Tracked.exec_proper_iff (h : s.Tracked p) (hidle : s.Idle) (hs : Proper s.log)
    {handler : Option DataHandler} {e : SocketEvent}
    (hexec : s.exec p w results fuel handler e = .ok s') :
    Proper s'.log ↔ s.Allowed results handler e := by
  cases e with
  | init recvBuffLen sendBuffLen r =>
    obtain rfl := Except.ok.inj hexec
    exact iff_of_true (init_proper hs recvBuffLen sendBuffLen r) trivial
  | destroy =>
    obtain rfl := Except.ok.inj hexec
    exact h.close_proper_iff hs
  | act e =>
    cases e with
    | connect res wouldBlock =>
      obtain ⟨r, hc, hr⟩ := exists_of_bind hexec
      obtain rfl := Except.ok.inj hr
      exact h.connect_proper_iff hs hc
    | send data =>
      obtain ⟨r, hc, hr⟩ := exists_of_bind hexec
      obtain rfl := Except.ok.inj hr
      exact iff_of_true (h.send hs hc).proper trivial
    | tick poll =>
      obtain ⟨r, hc, hr⟩ := exists_of_bind hexec
      obtain rfl := Except.ok.inj hr
      exact h.tick_proper_iff hidle hs hc
    | disconnect =>
      obtain rfl := Except.ok.inj hexec
      exact disconnect_proper_iff hs
    | close =>
      obtain rfl := Except.ok.inj hexec
      exact h.close_proper_iff hs

theorem tracked_new (recvMem sendMem : ℕ → UInt8) : (new recvMem sendMem).Tracked p where
  cleanups := by split_ifs <;> rfl
  usable _ _ := not_since_nil

/-- The runs with proper socket calls are the runs in which every call is allowed. -/
theorem proper_runs (p : Platform) (w : ULongWidth) (results : ℕ → ℤ) (fuel : ℕ)
    (handler : Option DataHandler) (recvMem sendMem : ℕ → UInt8) (es : List SocketEvent)
    (s : SocketUser) :
    Run (Keeping (fun s => Proper s.log) (Step p w results fuel handler)) (new recvMem sendMem)
        es s ↔
      Run (Guarded (Allowed results handler) (Step p w results fuel handler)) (new recvMem sendMem)
        es s := by
  have h₀ : ((new recvMem sendMem).Buffers ∧ (new recvMem sendMem).Tracked p) ∧
      Proper (new recvMem sendMem).log :=
    ⟨⟨buffers_new recvMem sendMem, tracked_new recvMem sendMem⟩, proper_nil⟩
  have hkept : Kept p w results fun s => s.Buffers ∧ s.Tracked p := fun s s' h hpiece =>
    ⟨buffers_kept s s' h.1 hpiece, tracked_kept s s' h.2 hpiece⟩
  refine Run.guarded_iff (I := fun s => (s.Buffers ∧ s.Tracked p) ∧ Proper s.log) h₀ ?_
  intro s e s' hI hstep
  obtain ⟨htracked, hs⟩ := hI
  have hiff := htracked.2.exec_proper_iff htracked.1.idle hs hstep.2
  have htracked' := (hkept.exec (fun _ h => h.1.idle) htracked e).result hstep.2
  exact ⟨hiff, fun hallowed => ⟨htracked', hiff.mpr hallowed⟩⟩

theorem destroy_closesAgain :
    ∃ s : SocketUser, Run (Step .win64 .four (fun _ => 0) 0 none) (new (fun _ => 0) fun _ => 0)
        [.init 8192 16384 ⟨true, 5, true, fun _ => 0, fun _ => 0⟩, .act .close, .destroy] s ∧
      ¬ Proper s.log := by
  obtain ⟨s, hrun, hs⟩ := @Run.of_observed _ _ (Step .win64 .four (fun _ => 0) 0 none)
    (new (fun _ => 0) fun _ => 0) _ _ (fun _ _ _ => step_of_next)
    [.init 8192 16384 ⟨true, 5, true, fun _ => 0, fun _ => 0⟩, .act .close, .destroy]
    (fun s => s.log)
    [.init, .socket 5, .on .ioctlsocket 5, .initialized, .on .shutdown 5, .close 5, .cleanup,
      .on .shutdown 5, .close 5, .cleanup] (by decide +kernel)
  refine ⟨s, hrun, fun hproper => ?_⟩
  have hcount := hproper.once [.init] 5
    [.on .ioctlsocket 5, .initialized, .on .shutdown 5, .close 5, .cleanup, .on .shutdown 5,
      .close 5, .cleanup] [] (by rw [hs]; rfl) (by decide)
  exact absurd hcount (by decide)

end HsCommon.SocketUser
