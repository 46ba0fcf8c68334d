import HsCommon.ServiceRuns

/-!
# Old completions on a reused session

The manager hands out the same session object again while operations that were
started before may still be outstanding, and their handlers act on whatever
connection the object stands for by then. All they do is visible in the session, in
the accepts pending on it, and in the flag of the connector that uses it.
-/

namespace HsCommon
open Transition Outcome

variable {w : ULongWidth} {fuel : ℕ}

namespace HSSession
variable {s s' : HSSession}

structure Same (s s' : HSSession) : Prop where
  socketOpen : s'.socketOpen = s.socketOpen
  closes : s'.closes = s.closes
  recvBuffer : s'.recvBuffer = s.recvBuffer
  sendBuffer : s'.sendBuffer = s.sendBuffer
  handleSending : s'.handleSending = s.handleSending
  eventHandler : s'.eventHandler = s.eventHandler
  isConnected : s'.isConnected = s.isConnected
  reads : s'.reads = s.reads
  writes : s'.writes = s.writes
  calls : s'.calls = s.calls
  appended : s'.appended = s.appended

theorem Same.refl (s : HSSession) : Same s s :=
  ⟨rfl, rfl, rfl, rfl, rfl, rfl, rfl, rfl, rfl, rfl, rfl⟩

theorem sent_ne {b : HSSendBuffer} {n : ℕ} (hb : b.sentOffset < 2 ^ 64) (hn : n ≠ 0)
    (hlt : n < 2 ^ 64) : b.sent n ≠ b := by
  intro heq
  have hsent := congrArg HSSendBuffer.sentOffset heq
  have hin := congrArg (fun b => b.inOffset) heq
  rw [HSSendBuffer.sent, sizeAdd] at hsent hin
  split_ifs at hsent hin with hc <;> dsimp only at hsent hin
  · omega
  · have hmod := Nat.mod_eq_of_lt hb
    omega

theorem readDone_same {k : ℕ} {result : Completion (List UInt8)}
    (hposs : s.Possible (.readDone k result)) (m : Option ℕ) :
    (∃ m' s', s.exec w fuel m (.readDone k result) = .ok (m', s') ∧
      Same { s with reads := s.reads.eraseIdx k } s') ↔ result = .success [] := by
  cases result with
  | success chunk =>
    obtain ⟨op, hop, -⟩ := hposs
    have hop' : s.reads[k]? = some op := hop
    simp only [HSSession.exec, hop', Completion.success.injEq]
    constructor
    · rintro ⟨m', s', hexec, hsame⟩
      by_contra hne
      have hlen : chunk.length ≠ 0 := fun hz => hne (List.length_eq_zero_iff.mp hz)
      obtain ⟨-, -, hread | hclear⟩ :=
        (handleRead_success_around fuel m _ hlen).result hexec
      · obtain ⟨op', hreads, -⟩ := hread
        have hlen := congrArg List.length (hreads.symm.trans hsame.reads)
        simp [deliver] at hlen
      · exact absurd hclear.2.1 hsame.closes.not_gt
    · rintro rfl
      refine ⟨m, _, rfl, ?_⟩
      simp only [deliver, HSBuffer.put_nil]
      exact .refl _
  | failure v =>
    have hop : s.reads[k]? = some s.reads[k] := List.getElem?_eq_getElem hposs
    simp only [HSSession.exec, hop, reduceCtorEq, iff_false]
    rintro ⟨m', s', hexec, hsame⟩
    obtain ⟨-, hagain, hdrop⟩ := (handleRead_failure fuel m _ v).result hexec
    by_cases hv : handleError v = 0
    · have hreads := (congrArg HSSession.reads (hagain hv)).symm.trans hsame.reads
      simp [start, deliver] at hreads
    · exact absurd (hdrop hv).closes hsame.closes.not_gt

def WriteIdle (s : HSSession) : Completion ℕ → Prop
  | .success n => n = 0
  | .failure v => handleError v = 0 ∧ s.handleSending = false ∧
      s.sendBuffer.getCanSendSize = .ok 0

theorem writeResult_same (h : Sized s) {result : Completion ℕ}
    (hsize : ∀ n, result = .success n → n < 2 ^ 64) :
    (∃ s', s.writeResult w result = .ok s' ∧ Same s s') ↔ WriteIdle s result := by
  cases result with
  | success n =>
    rw [WriteIdle]
    constructor
    · rintro ⟨s', hexec, hsame⟩
      by_contra hn
      have hsent := ((h.writeResult_success hn).result hexec).2
      have hb := hsent.symm.trans hsame.sendBuffer
      exact sent_ne h.sentOffset hn (hsize n rfl) hb
    · rintro rfl
      exact ⟨s, rfl, .refl s⟩
  | failure v =>
    rw [WriteIdle]
    by_cases hv : handleError v = 0
    · have heq : s.writeResult w (.failure v) = s.handleWrite.map
          fun s' => { s' with handleSending := false } := by
        simp only [HSSession.writeResult, if_pos hv]
        cases s.handleWrite <;> rfl
      rw [heq, handleWrite]
      cases hcan : s.sendBuffer.getCanSendSize with
      | error f =>
        refine iff_of_false ?_ (by simp)
        rintro ⟨s', hexec, -⟩
        cases hexec
      | ok canSend =>
        by_cases hzero : canSend = 0
        · subst hzero
          constructor
          · rintro ⟨s', hexec, hsame⟩
            obtain rfl := Except.ok.inj hexec
            exact ⟨hv, hsame.handleSending.symm, rfl⟩
          · rintro ⟨-, hidle, -⟩
            exact ⟨_, rfl, rfl, rfl, rfl, rfl, hidle.symm, rfl, rfl, rfl, rfl, rfl, rfl⟩
        · refine iff_of_false ?_ fun hall => hzero (Except.ok.inj hall.2.2)
          rintro ⟨s', hexec, hsame⟩
          have hidle := hsame.handleSending
          have hwrites := hsame.writes
          simp only [bind, Except.bind, if_neg hzero] at hexec
          split_ifs at hexec with hsend
          · obtain rfl := Except.ok.inj hexec
            rw [hsend] at hidle
            cases hidle
          · obtain rfl := Except.ok.inj hexec
            simp at hwrites
    · refine iff_of_false ?_ fun hall => hv hall.1
      rintro ⟨s', hexec, hsame⟩
      have hdrop := ((writeResult_cases s _).result hexec).2 hv
      exact absurd hdrop.closes hsame.closes.not_gt

theorem writeDone_same (h : Sized s) {k : ℕ} {result : Completion ℕ}
    (hposs : s.Possible (.writeDone k result)) (m : Option ℕ) :
    (∃ m' s', s.exec w fuel m (.writeDone k result) = .ok (m', s') ∧
      Same { s with writes := s.writes.eraseIdx k } s') ↔ WriteIdle s result := by
  obtain ⟨op, hop, hsize⟩ : ∃ op, s.writes[k]? = some op ∧
      ∀ n, result = .success n → n < 2 ^ 64 := by
    cases result with
    | success n =>
      obtain ⟨op, hop, hn⟩ := hposs
      refine ⟨op, hop, fun n' hn' => ?_⟩
      rw [← Completion.success.inj hn']
      exact lt_of_le_of_lt hn (h.offered op (List.mem_of_getElem? hop))
    | failure v => exact ⟨_, List.getElem?_eq_getElem hposs, fun n hn => by cases hn⟩
  let s₁ := { s with writes := s.writes.eraseIdx k }.accept op result
  have h₁ : Sized s₁ := by
    cases result <;> exact ⟨h.sentOffset, fun op hop => h.offered op (List.mem_of_mem_eraseIdx hop)⟩
  have hidle : WriteIdle s₁ result ↔ WriteIdle s result := by
    cases result <;> exact Iff.rfl
  have hsame : ∀ s', Same s₁ s' ↔ Same { s with writes := s.writes.eraseIdx k } s' := by
    intro s'
    cases result <;>
      exact ⟨fun h => ⟨h.1, h.2, h.3, h.4, h.5, h.6, h.7, h.8, h.9, h.10, h.11⟩,
        fun h => ⟨h.1, h.2, h.3, h.4, h.5, h.6, h.7, h.8, h.9, h.10, h.11⟩⟩
  rw [← hidle, ← writeResult_same (w := w) h₁ hsize]
  simp only [HSSession.exec, hop]
  constructor
  · rintro ⟨m', s', hexec, hs'⟩
    cases hres : s₁.writeResult w result with
    | error f =>
      simp only [s₁] at hres
      simp only [hres] at hexec
      cases hexec
    | ok s'' =>
      simp only [s₁] at hres
      simp only [hres] at hexec
      cases hexec
      exact ⟨s', rfl, (hsame s').mpr hs'⟩
  · rintro ⟨s', hexec, hs'⟩
    refine ⟨m, s', ?_, (hsame s').mp hs'⟩
    simp only [s₁] at hexec
    rw [hexec]
    rfl

theorem connected_same :
    (∃ s', s.connected w = .ok s' ∧ Same s s') ↔ s.eventHandler = none ∧ s.isConnected = true := by
  constructor
  · rintro ⟨s', hexec, hsame⟩
    obtain ⟨hconn, -, hcalls⟩ := (connected_around s).result hexec
    constructor
    · cases hh : s.eventHandler with
      | none => rfl
      | some handler =>
        rw [hh] at hcalls
        have hmore := (hcalls rfl).symm.trans hsame.calls
        simp at hmore
    · exact hsame.isConnected.symm.trans hconn
  · rintro ⟨hnone, hconn⟩
    refine ⟨{ s with isConnected := true }, ?_, rfl, rfl, rfl, rfl, rfl, rfl, hconn.symm, rfl, rfl,
      rfl, rfl⟩
    have hcall : s.call w .onConnect = .ok s := by rw [call, hnone]
    rw [connected, hcall]
    rfl
end HSSession

namespace IoService
variable {recvMem sendMem : ℕ → ℕ → UInt8} {p p' : IoService} {i : ℕ}

/-- The event completes an operation of session `i` from before a close, and the session was handed
out again after that close. -/
def Old (p : IoService) (i : ℕ) : ServiceEvent → Prop
  | .acceptDone k _ => ∃ op ∈ p.accepts[k]?, op.session = i ∧ op.closes < p.reusedCloses i
  | .connectDone k _ => ∃ op ∈ p.connects[k]?, op.session = i ∧ op.closes < p.reusedCloses i
  | .waitDone k => ∃ op ∈ p.waits[k]?, op.session = i ∧ op.closes < p.reusedCloses i
  | .session j (.readDone k _) => j = i ∧ ∃ closes ∈ (p.readCloses i)[k]?, closes < p.reusedCloses i
  | .session j (.writeDone k _) =>
    j = i ∧ ∃ op ∈ (p.sessions i).writes[k]?, op.closes < p.reusedCloses i
  | .listen _ | .connect .. | .session _ (.send _) => False

def finish (p : IoService) : ServiceEvent → IoService
  | .acceptDone k _ => { p with accepts := p.accepts.eraseIdx k }
  | .connectDone k _ => { p with connects := p.connects.eraseIdx k }
  | .waitDone k => { p with waits := p.waits.eraseIdx k }
  | .session i (.readDone k _) =>
    { p with
      sessions := Function.update p.sessions i
        { p.sessions i with reads := (p.sessions i).reads.eraseIdx k } }
  | .session i (.writeDone k _) =>
    { p with
      sessions := Function.update p.sessions i
        { p.sessions i with writes := (p.sessions i).writes.eraseIdx k } }
  | .listen _ | .connect .. | .session _ (.send _) => p

structure Untouched (i : ℕ) (p p' : IoService) : Prop where
  session : (p.sessions i).Same (p'.sessions i)
  accepts : p'.accepts.filter (·.session = i) = p.accepts.filter (·.session = i)
  connects : p'.connects = p.connects
  connectedFailed : ∀ c, p.connectorOf i = some c → p'.connectedFailed c = p.connectedFailed c

/-- What an old completion has to be to leave the connection alone. -/
def Harmless (p : IoService) (i : ℕ) : ServiceEvent → Prop
  | .acceptDone _ (.success _) => False
  -- the acceptor does not get the session again
  | .acceptDone k (.failure _) => ∀ op ∈ p.accepts[k]?, op.acceptor.sessionId ≠ 0 →
      p.localSessions op.acceptor.sessionId = some i → (p.sessions i).isConnected = true
  | .connectDone _ (.success _) =>
    (p.sessions i).eventHandler = none ∧ (p.sessions i).isConnected = true
  | .connectDone k (.failure _) => ∀ op ∈ p.connects[k]?,
      p.connectorOf i = some op.connector → p.connectedFailed op.connector = true
  | .waitDone k => ∀ op ∈ p.waits[k]?,
      p.connectorOf i = some op.connector → p.connectedFailed op.connector = true
  | .session _ (.readDone _ result) => result = .success []
  | .session _ (.writeDone _ result) => (p.sessions i).WriteIdle result
  | .listen _ | .connect .. | .session _ (.send _) => True

theorem Made.acceptFailed (recvMem sendMem : ℕ → ℕ → UInt8) (h : Made p) {k : ℕ}
    {op : AcceptOp} (hop : p.accepts[k]? = some op) :
    Untouched op.session { p with accepts := p.accepts.eraseIdx k }
        (op.acceptor.start recvMem sendMem { p with accepts := p.accepts.eraseIdx k }) ↔
      (op.acceptor.sessionId ≠ 0 → p.localSessions op.acceptor.sessionId = some op.session →
        (p.sessions op.session).isConnected = true) := by
  have hlt := h.accepts op (List.mem_of_getElem? hop)
  obtain ⟨j, hid, hlocal, hconn, hp⟩ | ⟨j, hid, hlocal, hconn, hp⟩ |
      ⟨len, localSessions, hnone, -, hp⟩ := HSAcceptor.start_cases recvMem sendMem
    { p with accepts := p.accepts.eraseIdx k } op.acceptor
  · rw [hp]
    refine iff_of_true ⟨.refl _, rfl, rfl, fun _ _ => rfl⟩ fun _ hi => ?_
    obtain rfl : j = op.session := Option.some.inj (hlocal.symm.trans hi)
    exact hconn
  · rw [hp]
    by_cases hj : j = op.session
    · refine iff_of_false (fun hu => ?_) fun hall => ?_
      · have hlen := congrArg List.length hu.accepts
        simp [List.filter_append, hj] at hlen
      · rw [hj] at hlocal hconn
        have hfalse := hconn.symm.trans (hall hid hlocal)
        cases hfalse
    · refine iff_of_true ⟨.refl _, ?_, rfl, fun _ _ => rfl⟩ fun _ hi => ?_
      · simp [List.filter_append, hj]
      · exact absurd (Option.some.inj (hlocal.symm.trans hi)) hj
  · rw [hp]
    have hne : op.session ≠ p.count := hlt.ne
    refine iff_of_true ⟨?_, ?_, rfl, fun _ _ => rfl⟩ fun hid hi => ?_
    · dsimp only
      rw [Function.update_of_ne hne]
      exact .refl _
    · simp [List.filter_append, Ne.symm hne]
    · rcases hnone with hzero | hnone
      · exact absurd hzero hid
      · have hnone' : p.localSessions op.acceptor.sessionId = none := hnone
        rw [hnone'] at hi
        cases hi

theorem untouched_handleTimeout (p : IoService) (i connector : ℕ) :
    Untouched i p (HSConnector.handleTimeout connector p) ↔
      (p.connectorOf i = some connector → p.connectedFailed connector = true) := by
  constructor
  · intro hu hc
    have hflag := hu.connectedFailed connector hc
    rw [HSConnector.handleTimeout] at hflag
    dsimp only at hflag
    rwa [Function.update_self, eq_comm] at hflag
  · intro hflag
    refine ⟨.refl _, rfl, rfl, fun c hc => ?_⟩
    rw [HSConnector.handleTimeout]
    dsimp only
    by_cases hcc : c = connector
    · rw [hcc, Function.update_self]
      exact (hflag (hcc ▸ hc)).symm
    · rw [Function.update_of_ne hcc]

theorem untouched_session {e : SessionEvent} {s : HSSession}
    (hfinish : (p.finish (.session i e)).sessions i = s)
    (hrest : p.finish (.session i e) =
      { p with sessions := (p.finish (.session i e)).sessions }) :
    (∃ p', p.exec w fuel recvMem sendMem (.session i e) = .ok p' ∧
        Untouched i (p.finish (.session i e)) p') ↔
      ∃ m s', (p.sessions i).exec w fuel p.maxReadLength e = .ok (m, s') ∧ s.Same s' := by
  simp only [IoService.exec]
  cases hexec : (p.sessions i).exec w fuel p.maxReadLength e with
  | error f =>
    refine iff_of_false ?_ ?_
    · rintro ⟨p', hp', -⟩
      cases hp'
    · rintro ⟨m, s', hs', -⟩
      cases hs'
  | ok r =>
    obtain ⟨m, s'⟩ := r
    constructor
    · rintro ⟨p', hp', hu⟩
      obtain rfl := Except.ok.inj hp'
      have hsame := hu.session
      simp only [IoService.put, Function.update_self, hfinish] at hsame
      exact ⟨m, s', rfl, hsame⟩
    · rintro ⟨m', s'', hs'', hsame⟩
      obtain ⟨rfl, rfl⟩ := Prod.mk.inj (Except.ok.inj hs'')
      refine ⟨_, rfl, ?_, ?_, ?_, fun c _ => ?_⟩
      · simp only [IoService.put, Function.update_self, hfinish]
        exact hsame
      · rw [hrest]
        rfl
      · rw [hrest]
        rfl
      · rw [hrest]
        rfl

theorem untouched_put {old : List ℕ} {s : HSSession} :
    Untouched i p (p.put i old s) ↔ (p.sessions i).Same s := by
  constructor
  · intro hu
    have hsame := hu.session
    simp only [IoService.put, Function.update_self] at hsame
    exact hsame
  · intro hsame
    refine ⟨?_, rfl, rfl, fun _ _ => rfl⟩
    simp only [IoService.put, Function.update_self]
    exact hsame

theorem Made.accepted_reads (h : Made p) {k : ℕ} {op : AcceptOp} (hop : p.accepts[k]? = some op)
    {u : Unit} : Ends (fun p' => ∃ rop, (p'.sessions op.session).reads =
        (p.sessions op.session).reads ++ [rop]) (fun _ => True)
      (HSAcceptor.handleAccept w recvMem sendMem op (.success u)
        { p with accepts := p.accepts.eraseIdx k }) := by
  have h₁ : Made { p with accepts := p.accepts.eraseIdx k } :=
    ⟨h.localSessions, fun op hop => h.accepts op (List.mem_of_mem_eraseIdx hop), h.sized⟩
  refine ((HSSession.acceptedBy_reads _ _ _).and
    (acceptedBy_sized (h.sized op.session) _ _)).bind ?_
  intro s hs
  obtain ⟨⟨rop, hrop⟩, hs⟩ := hs
  refine ⟨rop, ?_⟩
  rw [((h₁.put hs _ _).start op.acceptor).2 op.session
    (h.accepts op (List.mem_of_getElem? hop))]
  simp only [IoService.put, Function.update_self]
  exact hrop

theorem Made.old_completion (h : Made p) {e : ServiceEvent} (hposs : p.Possible e)
    (hold : Old p i e) :
    (∃ p', p.exec w fuel recvMem sendMem e = .ok p' ∧ Untouched i (p.finish e) p') ↔
      Harmless p i e := by
  cases e with
  | listen a => exact hold.elim
  | connect connector sessionId eventHandler => exact hold.elim
  | acceptDone k result =>
    obtain ⟨op, hop, rfl, -⟩ := hold
    have hop' : p.accepts[k]? = some op := hop
    simp only [IoService.exec, hop', finish]
    cases result with
    | failure v =>
      simp only [Harmless, hop', Option.mem_some_iff, forall_eq']
      exact exists_result.trans (h.acceptFailed recvMem sendMem hop')
    | success u =>
      refine iff_of_false ?_ id
      rintro ⟨p', hp', hu⟩
      obtain ⟨rop, hrop⟩ := (h.accepted_reads hop').result hp'
      have hlen := congrArg List.length (hrop.symm.trans hu.session.reads)
      simp at hlen
  | connectDone k result =>
    obtain ⟨op, hop, rfl, -⟩ := hold
    have hop' : p.connects[k]? = some op := hop
    simp only [IoService.exec, hop', finish]
    cases result with
    | failure v =>
      simp only [Harmless, hop', Option.mem_some_iff, forall_eq']
      exact exists_result.trans (untouched_handleTimeout
        { p with connects := p.connects.eraseIdx k } op.session op.connector)
    | success u =>
      rw [Harmless, ← HSSession.connected_same (w := w)]
      simp only [HSConnector.handleConnect]
      cases hexec : (p.sessions op.session).connected w with
      | error f => exact iff_of_false no_result no_result
      | ok s => exact exists_result.trans (untouched_put.trans exists_result.symm)
  | waitDone k =>
    obtain ⟨op, hop, rfl, -⟩ := hold
    have hop' : p.waits[k]? = some op := hop
    simp only [IoService.exec, hop', finish]
    simp only [Harmless, hop', Option.mem_some_iff, forall_eq']
    exact exists_result.trans (untouched_handleTimeout { p with waits := p.waits.eraseIdx k }
      op.session op.connector)
  | session j e =>
    cases e with
    | send data => exact hold.elim
    | readDone k result =>
      obtain ⟨rfl, -⟩ := hold
      have hfinish := Function.update_self j
        { p.sessions j with reads := (p.sessions j).reads.eraseIdx k } p.sessions
      refine (untouched_session (e := .readDone k result) hfinish rfl).trans ?_
      exact HSSession.readDone_same hposs.2 _
    | writeDone k result =>
      obtain ⟨rfl, -⟩ := hold
      have hfinish := Function.update_self j
        { p.sessions j with writes := (p.sessions j).writes.eraseIdx k } p.sessions
      refine (untouched_session (e := .writeDone k result) hfinish rfl).trans ?_
      exact HSSession.writeDone_same (h.sized j) hposs.2 _

/-- In the runs in which every old completion is harmless, and in no others, no completion of an
operation from before the clear touches a later connection. In any state a run reaches, an old
completion leaves the later connection alone exactly if it is harmless. -/
theorem reuse_untouched (w : ULongWidth) (fuel : ℕ) (recvMem sendMem : ℕ → ℕ → UInt8)
    (es : List ServiceEvent) (p : IoService) :
    (Run (fun p e p' => Step w fuel recvMem sendMem p e p' ∧
        ∀ i, Old p i e → Untouched i (p.finish e) p') init es p ↔
      Run (Guarded (fun p e => ∀ i, Old p i e → Harmless p i e) (Step w fuel recvMem sendMem))
        init es p) ∧
    (Run (Step w fuel recvMem sendMem) init es p → ∀ e i, p.Possible e → Old p i e →
      ((∃ p', p.exec w fuel recvMem sendMem e = .ok p' ∧ Untouched i (p.finish e) p') ↔
        Harmless p i e)) := by
  have hmade : ∀ p e p', Made p → Step w fuel recvMem sendMem p e p' → Made p' :=
    fun p e p' hp hs => (hp.exec e).result hs.2
  refine ⟨⟨fun h => (h.refine made_init ?_).1, fun h => (h.refine made_init ?_).1⟩,
    fun h e i hposs hold => ?_⟩
  · intro p e p' hp ⟨hs, hun⟩
    refine ⟨hmade p e p' hp hs, fun i hold => ?_, hs⟩
    exact (hp.old_completion hs.1 hold).mp ⟨p', hs.2, hun i hold⟩
  · intro p e p' hp ⟨hharm, hs⟩
    refine ⟨hmade p e p' hp hs, hs, fun i hold => ?_⟩
    obtain ⟨p₁, hp₁, hun⟩ := (hp.old_completion hs.1 hold).mpr (hharm i hold)
    obtain rfl : p' = p₁ := Except.ok.inj (hs.2.symm.trans hp₁)
    exact hun
  · exact (h.invariant made_init hmade).old_completion hposs hold

def reconnection : List ServiceEvent :=
  [.listen ⟨1, some fun _ => []⟩, .acceptDone 0 (.success ()), .session 0 (.send ⟨[1], by decide⟩),
    .session 0 (.readDone 0 (.failure 10054)), .connect 0 1 (some fun _ => []),
    .connectDone 0 (.success ())]

def abortedWrite : ServiceEvent := .session 0 (.writeDone 0 (.failure 995))

theorem oldWrite_disconnects :
    ∃ p p', Run (Step .eight 0 (fun _ _ => 0) fun _ _ => 0) init reconnection p ∧
      Old p 0 abortedWrite ∧ Step .eight 0 (fun _ _ => 0) (fun _ _ => 0) p abortedWrite p' ∧
      (p.sessions 0).isConnected = true ∧ (p'.sessions 0).isConnected = false ∧
      (p'.sessions 0).calls = (p.sessions 0).calls ++ [.onDisconnect] := by
  obtain ⟨p, hrun, hp⟩ := @run_of_foldlM .eight 0 (fun _ _ => 0) (fun _ _ => 0)
    (Option ℕ × ℕ × Bool × Option (Bool × Bool)) init reconnection
    (fun (p : IoService) => ((p.sessions 0).writes[0]?.map WriteOp.closes, p.reusedCloses 0,
      (p.sessions 0).isConnected,
      (next .eight 0 (fun _ _ => 0) (fun _ _ => 0) p abortedWrite).map fun (p' : IoService) =>
        ((p'.sessions 0).isConnected,
          decide ((p'.sessions 0).calls = (p.sessions 0).calls ++ [Call.onDisconnect]))))
    (some 0, 2, true, some (false, true)) (by decide +kernel)
  obtain ⟨hop, hp⟩ := Prod.mk.inj hp
  obtain ⟨hreused, hp⟩ := Prod.mk.inj hp
  obtain ⟨hconn, hp⟩ := Prod.mk.inj hp
  obtain ⟨op, hop, hcloses⟩ := Option.map_eq_some_iff.mp hop
  obtain ⟨p', hnext, hp'⟩ := Option.map_eq_some_iff.mp hp
  obtain ⟨hconn', hcalls⟩ := Prod.mk.inj hp'
  refine ⟨p, p', hrun, ⟨rfl, op, hop, ?_⟩, step_of_next _ _ _ _ hnext, hconn, hconn',
    of_decide_eq_true hcalls⟩
  rw [hcloses, hreused]
  norm_num

end IoService

end HsCommon
