import HsCommon.SessionHandlers
import HsCommon.SessionManager

/-!
# Connected sessions read

An accepted session is told that it is connected and starts its first read; the
handler of a completed read starts the next one or clears the session. But
`handle_connect` starts no read, and `handle_read` returns early when it has got no
bytes.
-/

namespace HsCommon
open Transition Outcome

variable {w : ULongWidth} {fuel : ℕ}

namespace HSSession

def Armed (s : HSSession) : Prop := s.isConnected = true → s.reads ≠ []

variable {s s' : HSSession}

theorem Armed.of_same (h : Armed s) (hconn : s'.isConnected = true → s.isConnected = true)
    (hreads : s'.reads = s.reads) : Armed s' := by
  intro hc
  rw [hreads]
  exact h (hconn hc)

theorem armed_of_not {s : HSSession} (h : s.isConnected = false) : Armed s := by
  intro hc
  rw [h] at hc
  cases hc

theorem armed_of_append {reads : List ReadOp} {op : ReadOp} (h : s.reads = reads ++ [op]) :
    Armed s := by
  intro _
  rw [h]
  exact List.append_ne_nil_of_right_ne_nil _ (List.cons_ne_nil _ _)

theorem acceptedBy_reads (eventHandler : Option EventHandler) (closes : ℕ) (s : HSSession) :
    Ends (fun s' => ∃ op, s'.reads = s.reads ++ [op]) (fun _ => True)
      (s.acceptedBy w eventHandler closes) := by
  rw [acceptedBy]
  refine (connected_around _).bind ?_
  intro s' hs'
  obtain ⟨-, hreads, -⟩ := hs'
  exact start_reads s' hreads

def Empty : SessionEvent → Prop
  | .readDone _ (.success chunk) => chunk = []
  | _ => False

theorem Armed.writeDone (h : Armed s) (result : Completion ℕ) :
    Ends Armed (fun _ => True) (s.writeResult w result) := by
  refine (writeResult_cases s result).mono ?_
  intro s' hs'
  obtain ⟨hside, hdrop⟩ := hs'
  by_cases hf : Fails result
  · exact armed_of_not (hdrop hf).isConnected
  · exact h.of_same (fun hc => (hside hf).isConnected ▸ hc) (hside hf).reads

theorem armed_handleRead (s : HSSession) (m : Option ℕ) {result : Completion ℕ}
    (hne : ∀ n, result = .success n → n ≠ 0) :
    Ends (fun r => Armed r.2) (fun _ => True) (s.handleRead w fuel m result) := by
  cases result with
  | success n =>
    refine (handleRead_success_around fuel m s (hne n rfl)).mono ?_
    intro r hr
    obtain ⟨-, -, hr⟩ := hr
    obtain ⟨op, hop, -⟩ | ⟨-, -, hconn⟩ := hr
    · exact armed_of_append hop
    · exact armed_of_not hconn
  | failure v =>
    refine (handleRead_failure fuel m s v).mono ?_
    intro r hr
    obtain ⟨-, hagain, hdrop⟩ := hr
    by_cases hv : handleError v = 0
    · obtain ⟨op, hop⟩ := start_reads s rfl
      rw [hagain hv]
      exact armed_of_append hop
    · exact armed_of_not (hdrop hv).isConnected

theorem Armed.exec (h : Armed s) {e : SessionEvent} (hposs : s.Possible e) (hne : ¬ Empty e)
    (m : Option ℕ) :
    Ends (fun r => Armed r.2) (fun _ => True) (s.exec w fuel m e) := by
  cases e with
  | send data =>
    refine (send_sendSide s data.val).bind fun r hr => ?_
    exact h.of_same (fun hc => hr.isConnected ▸ hc) hr.reads
  | writeDone k result =>
    simp only [HSSession.exec]
    split
    · exact h
    · rename_i op hop
      have h₁ : Armed ({ s with writes := s.writes.eraseIdx k }.accept op result) := by
        cases result <;> exact h.of_same id rfl
      refine (h₁.writeDone result).bind fun s' hs' => ?_
      exact hs'
  | readDone k result =>
    simp only [HSSession.exec]
    split
    · exact h
    · refine armed_handleRead _ m fun n hn => ?_
      cases result with
      | failure v => cases hn
      | success chunk =>
        obtain rfl : chunk.length = n := Completion.success.inj hn
        exact List.length_pos_iff.mpr hne |>.ne'

theorem exec_empty {k : ℕ} (hposs : s.Possible (.readDone k (.success []))) (m : Option ℕ) :
    ∃ s', s.exec w fuel m (.readDone k (.success [])) = .ok (m, s') ∧
      s'.isConnected = s.isConnected ∧ s'.reads = s.reads.eraseIdx k := by
  obtain ⟨op, hop, -⟩ := hposs
  have hop' : s.reads[k]? = some op := hop
  simp only [HSSession.exec, hop']
  exact ⟨_, rfl, rfl, rfl⟩

end HSSession

namespace IoService

variable {recvMem sendMem : ℕ → ℕ → UInt8} {p p' : IoService}

def Armed (p : IoService) : Prop := ∀ i, (p.sessions i).Armed

/-- No connection is made on a session without an outstanding read, and a read without bytes is not
the last one of a connected session. -/
def Rearming (p : IoService) : ServiceEvent → Prop
  | .connectDone k (.success _) => ∀ op ∈ p.connects[k]?, (p.sessions op.session).reads ≠ []
  | .session i (.readDone k (.success chunk)) =>
    chunk = [] → (p.sessions i).isConnected = true → (p.sessions i).reads.eraseIdx k ≠ []
  | _ => True

theorem Armed.update (h : Armed p) {i : ℕ} {s : HSSession} (hs : s.Armed)
    (hp : p'.sessions = Function.update p.sessions i s) : Armed p' := by
  intro j
  rw [hp]
  by_cases hj : j = i
  · rw [hj, Function.update_self]
    exact hs
  · rw [Function.update_of_ne hj]
    exact h j

theorem Armed.start (h : Armed p) (a : HSAcceptor) : Armed (a.start recvMem sendMem p) := by
  obtain ⟨i, -, -, -, hp⟩ | ⟨i, -, -, -, hp⟩ | ⟨len, localSessions, -, -, hp⟩ :=
    HSAcceptor.start_cases recvMem sendMem p a
  · rw [hp]
    exact h
  · rw [hp]
    exact h
  · rw [hp]
    exact h.update (HSSession.armed_of_not rfl) rfl

theorem Armed.handleAccept (h : Armed p) (op : AcceptOp) (result : Completion Unit)
    (hexec : HSAcceptor.handleAccept w recvMem sendMem op result p = .ok p') : Armed p' := by
  cases result with
  | failure v =>
    rw [← Except.ok.inj hexec]
    exact h.start op.acceptor
  | success u =>
    have hends : Ends Armed (fun _ => True)
        (HSAcceptor.handleAccept w recvMem sendMem op (.success u) p) := by
      refine (HSSession.acceptedBy_reads _ _ _).bind ?_
      intro s hs
      obtain ⟨rop, hrop⟩ := hs
      exact Armed.start (h.update (HSSession.armed_of_append hrop) rfl) op.acceptor
    exact hends.result hexec

theorem Armed.handleConnect (h : Armed p) {op : ConnectOp} {u : Unit}
    (hexec : HSConnector.handleConnect w op (.success u) p = .ok p') :
    Armed p' ↔ (p.sessions op.session).reads ≠ [] := by
  have hends : Ends (fun p' => Armed p' ↔ (p.sessions op.session).reads ≠ []) (fun _ => True)
      (HSConnector.handleConnect w op (.success u) p) := by
    refine (HSSession.connected_around _).bind ?_
    intro s hs
    obtain ⟨hconn, hreads, -⟩ := hs
    constructor
    · intro hall
      have hs := hall op.session
      simp only [put, Function.update_self] at hs
      exact hreads ▸ hs hconn
    · intro hne
      refine h.update (s := s) (fun _ => ?_) rfl
      rwa [hreads]
  exact hends.result hexec

theorem Armed.session (h : Armed p) {i : ℕ} {e : SessionEvent}
    (hs : Step w fuel recvMem sendMem p (.session i e) p') :
    Armed p' ↔ Rearming p (.session i e) := by
  obtain ⟨⟨-, hposs⟩, hexec⟩ := hs
  by_cases hempty : HSSession.Empty e
  · obtain ⟨k, rfl⟩ : ∃ k, e = .readDone k (.success []) := by
      cases e with
      | send data => exact hempty.elim
      | writeDone k result => exact hempty.elim
      | readDone k result =>
        cases result with
        | failure v => exact hempty.elim
        | success chunk =>
          obtain rfl : chunk = [] := hempty
          exact ⟨k, rfl⟩
    obtain ⟨s', hs', hconn, hreads⟩ :=
      @HSSession.exec_empty w fuel (p.sessions i) k hposs p.maxReadLength
    simp only [exec, hs'] at hexec
    obtain rfl := Except.ok.inj hexec
    constructor
    · intro hall _ hc
      have hi := hall i
      simp only [put, Function.update_self] at hi
      exact hreads ▸ hi (hconn.trans hc)
    · intro hre
      refine h.update (s := s') (fun hc => ?_) rfl
      rw [hreads]
      exact hre rfl (hconn ▸ hc)
  · have hends : Ends Armed (fun _ => True)
        (p.exec w fuel recvMem sendMem (.session i e)) := by
      refine ((h i).exec hposs hempty _).bind fun r hr => ?_
      exact h.update hr rfl
    refine iff_of_true (hends.result hexec) ?_
    cases e with
    | send data => trivial
    | writeDone k result => trivial
    | readDone k result =>
      cases result with
      | failure v => trivial
      | success chunk => exact fun hnil => absurd hnil hempty

theorem Armed.step (h : Armed p) {e : ServiceEvent} (hs : Step w fuel recvMem sendMem p e p') :
    Armed p' ↔ Rearming p e := by
  cases e with
  | session i e => exact h.session hs
  | listen a =>
    refine iff_of_true ?_ trivial
    rw [← Except.ok.inj hs.2]
    exact h.start a
  | connect connector sessionId eventHandler =>
    obtain ⟨i, s, count, localSessions, -, -, -, rfl⟩ :=
      HSConnector.connect_cases recvMem sendMem p hs.2
    exact iff_of_true (h.update (i := i) (HSSession.armed_of_not rfl) rfl) trivial
  | acceptDone k result =>
    obtain ⟨hposs, hexec⟩ := hs
    simp only [exec, List.getElem?_eq_getElem hposs] at hexec
    have h₁ : Armed { p with accepts := p.accepts.eraseIdx k } := h
    exact iff_of_true (h₁.handleAccept _ result hexec) trivial
  | connectDone k result =>
    obtain ⟨hposs, hexec⟩ := hs
    have hop : p.connects[k]? = some p.connects[k] := List.getElem?_eq_getElem hposs
    simp only [exec, hop] at hexec
    have h₁ : Armed { p with connects := p.connects.eraseIdx k } := h
    cases result with
    | failure v =>
      rw [← Except.ok.inj hexec]
      exact iff_of_true h₁ trivial
    | success u =>
      rw [h₁.handleConnect hexec, Rearming, hop]
      simp
  | waitDone k =>
    obtain ⟨hposs, hexec⟩ := hs
    simp only [exec, List.getElem?_eq_getElem hposs] at hexec
    rw [← Except.ok.inj hexec]
    exact iff_of_true h trivial

theorem armed_init : Armed init := fun _ hc => by cases hc

/-- Connected sessions have a read outstanding in all states of a run exactly if all steps of the
run meet the condition. -/
theorem armed_runs (w : ULongWidth) (fuel : ℕ) (recvMem sendMem : ℕ → ℕ → UInt8)
    (es : List ServiceEvent) (p : IoService) :
    Run (Keeping Armed (Step w fuel recvMem sendMem)) init es p ↔
      Run (Guarded Rearming (Step w fuel recvMem sendMem)) init es p := by
  constructor
  · intro h
    refine (h.refine armed_init ?_).1
    intro p e p' hp ⟨hs, hp'⟩
    exact ⟨hp', (hp.step hs).mp hp', hs⟩
  · intro h
    refine (h.refine armed_init ?_).1
    intro p e p' hp ⟨hre, hs⟩
    have hp' := (hp.step hs).mpr hre
    exact ⟨hp', hs, hp'⟩

theorem connected_unarmed :
    ∃ p, Run (Step .eight 0 (fun _ _ => 0) fun _ _ => 0) init
      [.connect 0 1 (some fun _ => []), .connectDone 0 (.success ())] p ∧ ¬ Armed p := by
  obtain ⟨p, hrun, hp⟩ := @run_of_foldlM .eight 0 (fun _ _ => 0) (fun _ _ => 0) _ init
    [.connect 0 1 (some fun _ => []), .connectDone 0 (.success ())]
    (fun p => ((p.sessions 0).isConnected, (p.sessions 0).reads.length)) (true, 0)
    (by decide +kernel)
  obtain ⟨hconn, hreads⟩ := Prod.mk.inj hp
  exact ⟨p, hrun, fun hall => hall 0 hconn (List.length_eq_zero_iff.mp hreads)⟩

end IoService

end HsCommon
