import HsCommon.Rearmed

/-!
# What runs of the sessions keep

Sizes fit `size_t` whatever the completions report, and the objects that operations
refer to have been made.
-/

namespace HsCommon
open Transition Outcome

variable {w : ULongWidth} {fuel : ℕ}

namespace HSSession
variable {s s' : HSSession}

structure Sized (s : HSSession) : Prop where
  sentOffset : s.sendBuffer.sentOffset < 2 ^ 64
  offered : ∀ op ∈ s.writes, op.offered.length < 2 ^ 64

theorem Sized.of_same (h : Sized s) (hb : s'.sendBuffer.sentOffset = s.sendBuffer.sentOffset)
    (hw : s'.writes = s.writes) : Sized s' := ⟨hb ▸ h.sentOffset, hw ▸ h.offered⟩

theorem Sized.handleWrite (h : Sized s) :
    Ends (fun s' => Sized s' ∧ s'.sendBuffer = s.sendBuffer) (fun _ => True) s.handleWrite := by
  rw [HSSession.handleWrite]
  refine Ends.bind (P := (· < 2 ^ 64)) ?_ fun canSend hlt => ?_
  · rw [HSSendBuffer.getCanSendSize]
    split_ifs
    · exact Nat.mod_lt _ (by norm_num)
    · trivial
  · split_ifs
    · exact ⟨h, rfl⟩
    · exact ⟨h, rfl⟩
    · refine ⟨⟨h.sentOffset, fun op hop => ?_⟩, rfl⟩
      rcases List.mem_append.mp hop with hop | hop
      · exact h.offered op hop
      · obtain rfl := List.mem_singleton.mp hop
        dsimp only
        rwa [HSBuffer.bytes_length]

theorem sized_stable (w : ULongWidth) : Stable w (fun _ => True) Sized where
  frame s s' h hb hw _ _ := h.of_same (by rw [hb]) hw
  send s data h := by
    rw [send]
    refine Ends.bind (P := fun _ => True) ?_ fun encoded _ => ?_
    · cases encodePacket w data.val s.sendBuffer.buffer s.sendBuffer.inOffset
        s.sendBuffer.getLeftInSize <;> trivial
    · cases encoded with
      | tooLong => exact h
      | noRoom => exact h.handleWrite.bind fun s' hs' => hs'.1
      | done outData outSize =>
        have h₁ : Sized (s.countEncoded outData outSize) := h.of_same rfl rfl
        exact h₁.handleWrite.bind fun s' hs' => hs'.1
  clear s h := ⟨by simp only [clear, HSSendBuffer.clear]; norm_num, h.offered⟩

theorem sent_lt {b : HSSendBuffer} (n : ℕ) : (b.sent n).sentOffset < 2 ^ 64 := by
  rw [HSSendBuffer.sent]
  split_ifs
  · norm_num
  · exact Nat.mod_lt _ (by norm_num)

theorem Sized.writeResult_success (h : Sized s) {n : ℕ} (hn : n ≠ 0) :
    Ends (fun s' => Sized s' ∧ s'.sendBuffer = s.sendBuffer.sent n) (fun _ => True)
      (s.writeResult w (.success n)) := by
  have h₁ : Sized { s with sendBuffer := s.sendBuffer.sent n } := ⟨sent_lt n, h.offered⟩
  simp only [HSSession.writeResult, if_neg hn]
  refine Ends.bind (P := fun _ => True) ?_ fun canSend _ => ?_
  · rw [HSSendBuffer.getCanSendSize]
    split_ifs <;> trivial
  · split_ifs
    · refine h₁.handleWrite.bind fun s' hs' => ?_
      exact ⟨hs'.1.of_same rfl rfl, hs'.2⟩
    · exact ⟨h₁.of_same rfl rfl, rfl⟩

theorem Sized.writeResult (h : Sized s) (result : Completion ℕ) :
    Ends Sized (fun _ => True) (s.writeResult w result) := by
  cases result with
  | success n =>
    by_cases hn : n = 0
    · rw [HSSession.writeResult, if_pos hn]
      exact h
    · exact (h.writeResult_success hn).mono fun s' hs' => hs'.1
  | failure v =>
    by_cases hv : v = 10035
    · have herr : handleError v = 0 := if_pos hv
      simp only [HSSession.writeResult, if_pos herr]
      refine h.handleWrite.bind fun s' hs' => ?_
      exact hs'.1.of_same rfl rfl
    · exact (sized_stable w).writeResult_failure h hv

theorem Sized.exec (h : Sized s) (m : Option ℕ) (e : SessionEvent) :
    Ends (fun r => Sized r.2) (fun _ => True) (s.exec w fuel m e) := by
  cases e with
  | send data => exact (sized_stable w).exec (fun _ _ => trivial) h (by simp)
  | readDone k result => exact (sized_stable w).exec (fun _ _ => trivial) h (by simp)
  | writeDone k result =>
    simp only [HSSession.exec]
    split
    · exact h
    · rename_i op hop
      have h₁ : Sized ({ s with writes := s.writes.eraseIdx k }.accept op result) := by
        cases result <;>
          exact ⟨h.sentOffset, fun op hop => h.offered op (List.mem_of_mem_eraseIdx hop)⟩
      refine (h₁.writeResult result).bind fun s' hs' => ?_
      exact hs'

end HSSession

namespace IoService
variable {recvMem sendMem : ℕ → ℕ → UInt8} {p p' : IoService} {i : ℕ}

/-- Objects in use have been made. -/
structure Made (p : IoService) : Prop where
  localSessions : ∀ sid i, p.localSessions sid = some i → i < p.count
  accepts : ∀ op ∈ p.accepts, op.session < p.count
  sized : ∀ i, (p.sessions i).Sized

theorem Made.start (h : Made p) (a : HSAcceptor) :
    Made (a.start recvMem sendMem p) ∧
      ∀ i < p.count, (a.start recvMem sendMem p).sessions i = p.sessions i := by
  obtain ⟨i, -, -, -, hp⟩ | ⟨i, -, hlocal, -, hp⟩ | ⟨len, localSessions, -, hlocal, hp⟩ :=
    HSAcceptor.start_cases recvMem sendMem p a
  · rw [hp]
    exact ⟨h, fun _ _ => rfl⟩
  · rw [hp]
    refine ⟨⟨h.localSessions, fun op hop => ?_, h.sized⟩, fun _ _ => rfl⟩
    rcases List.mem_append.mp hop with hop | hop
    · exact h.accepts op hop
    · obtain rfl := List.mem_singleton.mp hop
      exact h.localSessions _ i hlocal
  · rw [hp]
    refine ⟨⟨fun sid i hi => ?_, fun op hop => ?_, fun i => ?_⟩, fun i hi => ?_⟩
    · rcases hlocal sid i hi with hi | rfl
      · exact (h.localSessions sid i hi).trans (Nat.lt_succ_self _)
      · exact Nat.lt_succ_self _
    · rcases List.mem_append.mp hop with hop | hop
      · exact (h.accepts op hop).trans (Nat.lt_succ_self _)
      · obtain rfl := List.mem_singleton.mp hop
        exact Nat.lt_succ_self _
    · dsimp only
      by_cases hi : i = p.count
      · rw [hi, Function.update_self]
        exact ⟨(by norm_num : 0 < 2 ^ 64), fun op hop => by cases hop⟩
      · rw [Function.update_of_ne hi]
        exact h.sized i
    · exact Function.update_of_ne (by omega) _ _

theorem Made.put (h : Made p) {s : HSSession} (hs : s.Sized) (i : ℕ) (old : List ℕ) :
    Made (p.put i old s) := by
  refine ⟨h.localSessions, h.accepts, fun j => ?_⟩
  simp only [IoService.put]
  by_cases hj : j = i
  · rw [hj, Function.update_self]
    exact hs
  · rw [Function.update_of_ne hj]
    exact h.sized j

theorem connected_sized {s : HSSession} (h : s.Sized) :
    Ends HSSession.Sized (fun _ => True) (s.connected w) := by
  rw [HSSession.connected]
  refine ((HSSession.sized_stable w).call h _).bind fun s' hs' => ?_
  exact hs'.of_same rfl rfl

theorem acceptedBy_sized {s : HSSession} (h : s.Sized) (eventHandler : Option EventHandler)
    (closes : ℕ) :
    Ends HSSession.Sized (fun _ => True) (s.acceptedBy w eventHandler closes) := by
  rw [HSSession.acceptedBy]
  have h₁ : ({ s with
      socketOpen := s.socketOpen || s.closes = closes
      eventHandler := eventHandler } : HSSession).Sized := h.of_same rfl rfl
  refine (connected_sized h₁).bind fun s' hs' => ?_
  exact hs'.of_same rfl rfl

theorem Made.exec (h : Made p) (e : ServiceEvent) :
    Ends Made (fun _ => True) (p.exec w fuel recvMem sendMem e) := by
  cases e with
  | listen a => exact (h.start a).1
  | connect connector sessionId eventHandler =>
    cases hexec : p.exec w fuel recvMem sendMem (.connect connector sessionId eventHandler) with
    | error f => trivial
    | ok p' =>
      obtain ⟨i, s, count, localSessions, -, hs, hlocal, rfl⟩ :=
        HSConnector.connect_cases recvMem sendMem p hexec
      have hcount : p.count ≤ count ∧ i < count ∧ ∀ op ∈ s.writes, op.offered.length < 2 ^ 64 := by
        rcases hs with ⟨hi, rfl, rfl⟩ | ⟨rfl, -, hw, -, rfl⟩
        · exact ⟨le_rfl, h.localSessions _ i hi, (h.sized i).offered⟩
        · exact ⟨Nat.le_succ _, Nat.lt_succ_self _, fun op hop => by rw [hw] at hop; cases hop⟩
      obtain ⟨hle, hi, hoff⟩ := hcount
      refine ⟨fun sid j hj => ?_, fun op hop => (h.accepts op hop).trans_le hle, fun j => ?_⟩
      · rcases hlocal sid j hj with hj | rfl
        · exact (h.localSessions sid j hj).trans_le hle
        · exact hi
      · dsimp only
        by_cases hj : j = i
        · rw [hj, Function.update_self]
          exact ⟨by simp only [HSSession.clear, HSSendBuffer.clear]; norm_num, hoff⟩
        · rw [Function.update_of_ne hj]
          exact h.sized j
  | acceptDone k result =>
    simp only [IoService.exec]
    split
    · exact h
    · rename_i op hop
      have h₁ : Made { p with accepts := p.accepts.eraseIdx k } :=
        ⟨h.localSessions, fun op hop => h.accepts op (List.mem_of_mem_eraseIdx hop), h.sized⟩
      cases result with
      | failure v => exact (h₁.start _).1
      | success u =>
        refine (acceptedBy_sized (h.sized _) _ _).bind fun s hs => ?_
        exact ((h₁.put hs _ _).start _).1
  | connectDone k result =>
    simp only [IoService.exec]
    split
    · exact h
    · rename_i op hop
      have h₁ : Made { p with connects := p.connects.eraseIdx k } :=
        ⟨h.localSessions, h.accepts, h.sized⟩
      cases result with
      | failure v => exact ⟨h.localSessions, h.accepts, h.sized⟩
      | success u =>
        refine (connected_sized (h.sized _)).bind fun s hs => ?_
        exact h₁.put hs _ _
  | waitDone k =>
    simp only [IoService.exec]
    split
    · exact h
    · exact ⟨h.localSessions, h.accepts, h.sized⟩
  | session i e =>
    refine ((h.sized i).exec _ e).bind fun r hr => ?_
    obtain ⟨hlocal, haccepts, hsized⟩ := h.put hr i (e.readsLeft (p.readCloses i))
    exact ⟨hlocal, haccepts, hsized⟩

theorem made_init : Made init where
  localSessions sid i h := by cases h
  accepts op hop := by cases hop
  sized i := ⟨(by norm_num : 0 < 2 ^ 64), fun op hop => by cases hop⟩

end IoService

end HsCommon
