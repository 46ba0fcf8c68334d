import HsCommon.SessionWrite
import HsCommon.Library.Outcome

/-!
# The read path of a session

The receive buffer holds the bytes received and not yet used, wherever the
offsets stand. The decode loop drains them: it hands every packet that is complete
to the handler and leaves the front part of the next. What is left is shorter than
the largest packet, so after the compaction there is room for the next read.
-/

namespace HsCommon.HSSession
open Transition Outcome Framing

variable {w : ULongWidth} {s : HSSession}

def Calm (handler : EventHandler) : Prop := ∀ calls, Action.clear ∉ handler calls

structure Beside (s s' : HSSession) : Prop where
  recvBuffer : s'.recvBuffer = s.recvBuffer
  reads : s'.reads = s.reads
  calls : s'.calls = s.calls
  eventHandler : s'.eventHandler = s.eventHandler
  closes : s'.closes = s.closes

theorem Beside.refl (s : HSSession) : Beside s s := ⟨rfl, rfl, rfl, rfl, rfl⟩

theorem Beside.trans {s s₁ s₂ : HSSession} (h : Beside s s₁) (h' : Beside s₁ s₂) : Beside s s₂ :=
  ⟨h'.recvBuffer.trans h.recvBuffer, h'.reads.trans h.reads, h'.calls.trans h.calls,
    h'.eventHandler.trans h.eventHandler, h'.closes.trans h.closes⟩

theorem beside_offer (s : HSSession) : Beside s s.offer := by
  rw [offer]
  split_ifs
  · exact .refl s
  · exact ⟨rfl, rfl, rfl, rfl, rfl⟩

theorem beside_enqueue (s : HSSession) (x : List UInt8) : Beside s (s.enqueue x) :=
  ⟨rfl, rfl, rfl, rfl, rfl⟩

theorem WriteStep.beside {e : SessionEvent} {s' : HSSession} (h : WriteStep w s e s') :
    Beside s s' := by
  cases h with
  | refused data => exact .refl s
  | noRoom data => exact beside_offer s
  | queued data x _ _ => exact (beside_enqueue s x).trans (beside_offer _)
  | _ => exact ⟨rfl, rfl, rfl, rfl, rfl⟩

theorem Orderly.send (h : Orderly s) (data : Payload) :
    ∃ ok s', s.send w data.val = .ok (ok, s') ∧ Orderly s' ∧ Beside s s' := by
  rcases send_cases (w := w) h.buffer data.property with hs | hs | ⟨x, henc, hfit, hs⟩
  · exact ⟨_, _, hs, h, .refl s⟩
  · exact ⟨_, _, hs, h.offer, beside_offer s⟩
  · exact ⟨_, _, hs, (h.enqueue henc.ne_nil hfit).offer,
      (beside_enqueue s x).trans (beside_offer _)⟩

theorem Orderly.call {handler : EventHandler} (h : Orderly s) (hcalm : Calm handler)
    (hh : s.eventHandler = some handler) (w : ULongWidth) (c : Call) :
    ∃ s', s.call w c = .ok s' ∧ Orderly s' ∧ Beside { s with calls := s.calls ++ [c] } s' := by
  have hends : Ends (fun s' => Orderly s' ∧ Beside { s with calls := s.calls ++ [c] } s')
      (fun _ => False) (s.call w c) := by
    simp only [HSSession.call, hh]
    refine Ends.foldlM ?_ ⟨h.frame rfl rfl rfl rfl rfl, .refl _⟩
    rintro s₁ a ha ⟨hord, hside⟩
    cases a with
    | clear => exact absurd ha (hcalm _)
    | send data =>
      obtain ⟨ok, s₂, hs, hord', hside'⟩ := hord.send (w := w) data
      simp only [runAction, hs]
      exact ⟨hord', hside.trans hside'⟩
  cases hres : s.call w c with
  | error f => exact absurd (hends.fault hres) id
  | ok s' => exact ⟨s', rfl, hends.result hres⟩

theorem only_read {op op' : ReadOp} {k : ℕ} (hone : s.reads = [op'])
    (hop : s.reads[k]? = some op) : op' = op ∧ s.reads.eraseIdx k = [] := by
  rw [hone] at hop ⊢
  obtain ⟨hk, hop⟩ := List.getElem?_eq_some_iff.mp hop
  obtain rfl : k = 0 := by simpa using hk
  exact ⟨hop, rfl⟩

structure Reading (L : ℕ) (handler : EventHandler) (s : HSSession) : Prop where
  recv : s.recvBuffer.Ok
  length_eq : s.recvBuffer.length = L
  empty : s.recvBuffer.unread = [] → s.recvBuffer.inOffset = 0
  send : Orderly s
  eventHandler : s.eventHandler = some handler

variable {L : ℕ} {handler : EventHandler}

theorem Reading.of_recv (h : Reading L handler s) {s' : HSSession}
    (hrecv : s'.recvBuffer = s.recvBuffer) (hh : s'.eventHandler = s.eventHandler)
    (hsend : Orderly s') : Reading L handler s' :=
  ⟨hrecv ▸ h.recv, hrecv ▸ h.length_eq, hrecv ▸ h.empty, hsend, hh.trans h.eventHandler⟩

def used (s : HSSession) (n : ℕ) : HSSession :=
  { s with recvBuffer := (s.recvBuffer.dataUse n false).2 }

theorem Reading.round (hcalm : Calm handler) (h : Reading L handler s) {v : List UInt8} {n : ℕ}
    (hframe : decodeBytes w s.recvBuffer.unread = .frame v n) :
    ∃ s', Reading L handler s' ∧ s'.recvBuffer.unread = s.recvBuffer.unread.drop n ∧
      (s'.recvBuffer.unread ≠ [] → s'.recvBuffer.inOffset = s.recvBuffer.inOffset) ∧
      s'.calls = s.calls ++ [.onReceive v] ∧ s'.reads = s.reads ∧ s'.closes = s.closes ∧
      ∀ fuel, HSSession.decodeLoop w (fuel + 1) s =
        if s'.recvBuffer.inOffset = s'.recvBuffer.getUsedSize then .ok (.emptied, s')
        else HSSession.decodeLoop w fuel s' := by
  obtain ⟨size, hdec, hdata, hok, hun, hlen, hzero, hin⟩ := h.recv.round hframe
  have hused : Orderly (s.used w.header) := h.send.frame rfl rfl rfl rfl rfl
  obtain ⟨s₂, hcall, hord, hside⟩ := hused.call hcalm h.eventHandler w (.onReceive v)
  have hrecv : s₂.recvBuffer = (s.used w.header).recvBuffer := hside.recvBuffer
  have hrecv₃ : (s₂.used size).recvBuffer =
      ((s.recvBuffer.dataUse w.header false).2.dataUse size false).2 := by
    rw [used, hrecv]
    rfl
  refine ⟨s₂.used size, ⟨?_, ?_, ?_, ?_, ?_⟩, ?_, ?_, hside.calls, hside.reads, hside.closes,
    fun fuel => ?_⟩
  · rwa [hrecv₃]
  · rw [hrecv₃]
    exact hlen.trans h.length_eq
  · rwa [hrecv₃]
  · exact hord.frame rfl rfl rfl rfl rfl
  · exact hside.eventHandler.trans h.eventHandler
  · rwa [hrecv₃]
  · rwa [hrecv₃]
  · rw [HSSession.decodeLoop, hdec]
    change (HSSession.call w (.onReceive ((s.used w.header).recvBuffer.bytes
      (s.used w.header).recvBuffer.inUsedOffset size)) (s.used w.header) >>= _) = _
    rw [show (s.used w.header).recvBuffer.bytes (s.used w.header).recvBuffer.inUsedOffset size = v
      from hdata, hcall]
    rfl

theorem Reading.decodeLoop (hcalm : Calm handler) {u : List UInt8} {vs : List (List UInt8)}
    {o : Option (List UInt8)} (hd : Drains (decodeBytes w) u vs o) (h : Reading L handler s)
    (hu : s.recvBuffer.unread = u) {fuel : ℕ} (hfuel : u.length < fuel) :
    ∃ e s', decodeLoop w fuel s = .ok (e, s') ∧ s'.calls = s.calls ++ vs.map .onReceive ∧
      s'.reads = s.reads ∧
      (∀ r, o = some r → e ≠ .rejected ∧ (e = .emptied → r = []) ∧ Reading L handler s' ∧
        s'.recvBuffer.unread = r ∧ (r ≠ [] → s'.recvBuffer.inOffset = s.recvBuffer.inOffset) ∧
        s'.closes = s.closes) ∧
      (o = none → e = .rejected ∧ s'.closes = s.closes + 1) := by
  induction hd generalizing s fuel with
  | @rejected u hrej =>
    obtain ⟨fuel, rfl⟩ := Nat.exists_eq_succ_of_ne_zero (by omega : fuel ≠ 0)
    refine ⟨.rejected, s.clear, ?_, by simp [clear], rfl, fun r hr => (by cases hr),
      fun _ => ⟨rfl, rfl⟩⟩
    rw [HSSession.decodeLoop, HSRecvBuffer.decode_eq h.recv, hu, decodeBytes_rejected hrej]
    rfl
  | @incomplete u hinc =>
    obtain ⟨fuel, rfl⟩ := Nat.exists_eq_succ_of_ne_zero (by omega : fuel ≠ 0)
    refine ⟨.waiting, s, ?_, by simp, rfl, fun r hr => ?_, fun ho => (by cases ho)⟩
    · rw [HSSession.decodeLoop, HSRecvBuffer.decode_eq h.recv, hu, decodeBytes_incomplete hinc]
      rfl
    · obtain rfl := Option.some.inj hr
      exact ⟨by simp, by simp, h, hu, fun _ => rfl, rfl⟩
  | @frame u v n vs o hframe hrest ih =>
    obtain ⟨fuel, rfl⟩ := Nat.exists_eq_succ_of_ne_zero (by omega : fuel ≠ 0)
    obtain ⟨hpos, hle⟩ := (incremental_decodeBytes w).frame_le u v n hframe
    subst hu
    obtain ⟨s₁, h₁, hun₁, hin₁, hcalls, hreads, hcloses, hround⟩ := h.round hcalm hframe
    rw [hround fuel]
    by_cases hend : s₁.recvBuffer.inOffset = s₁.recvBuffer.getUsedSize
    · have hnil : s₁.recvBuffer.unread = [] := by
        rw [← List.length_eq_zero_iff, HSRecvBuffer.unread_length, hend]
        exact Nat.sub_self _
      rw [← hun₁, hnil] at hrest
      obtain ⟨rfl, rfl⟩ := hrest.unique (.incomplete (decodeBytes_nil w))
      refine ⟨.emptied, s₁, if_pos hend, hcalls, hreads, fun r hr => ?_, fun ho => (by cases ho)⟩
      obtain rfl := Option.some.inj hr
      exact ⟨by simp, fun _ => rfl, h₁, hnil, fun hne => absurd rfl hne, hcloses⟩
    · have hshort : (s.recvBuffer.unread.drop n).length < fuel := by
        rw [List.length_drop]
        omega
      obtain ⟨e, s', hloop, hc, hr, hsome, hnone⟩ := ih h₁ hun₁ hshort
      refine ⟨e, s', by rw [if_neg hend, hloop], ?_, hr.trans hreads, fun r ho => ?_, fun ho => ?_⟩
      · rw [hc, hcalls, List.map_cons, List.append_assoc]
        rfl
      · obtain ⟨hne, hemp, hread, hun, hin, hcl⟩ := hsome r ho
        refine ⟨hne, hemp, hread, hun, fun hr => ?_, hcl.trans hcloses⟩
        rw [hin hr]
        refine hin₁ fun hnil => hr ?_
        rw [← hun₁, hnil] at hrest
        obtain ⟨-, rfl⟩ := hrest.unique (.incomplete (decodeBytes_nil w))
        exact (Option.some.inj ho).symm
      · obtain ⟨he, hcl⟩ := hnone ho
        exact ⟨he, by rw [hcl, hcloses]⟩

def compacted (s : HSSession) (limit : ℕ) : HSSession :=
  if s.recvBuffer.inOffset ≥ limit then
    { s with recvBuffer := s.recvBuffer.moveUnuseData2Begin }
  else s

theorem beside_compacted (s : HSSession) (limit : ℕ) :
    (s.compacted limit).calls = s.calls ∧ (s.compacted limit).reads = s.reads ∧
      (s.compacted limit).closes = s.closes := by
  rw [compacted]
  split_ifs <;> exact ⟨rfl, rfl, rfl⟩

theorem Reading.compacted (hL : hsNetPacketMaxSize ≤ L) (h : Reading L handler s)
    (hinc : decodeBytes w s.recvBuffer.unread = .incomplete) (limit : ℕ) :
    Reading L handler (s.compacted limit) ∧
      (s.compacted limit).recvBuffer.unread = s.recvBuffer.unread ∧
      (limit ≤ L → (s.compacted limit).recvBuffer.inOffset < L) := by
  have hshort := incomplete_lt (decodeBytes_incomplete hinc)
  have hmax : 0 < hsNetPacketMaxSize := by decide
  rw [HSSession.compacted]
  split_ifs with hlimit
  · obtain ⟨hok, hun, hlen, hmoved, hsame⟩ := h.recv.moveUnuseData2Begin
    refine ⟨⟨hok, hlen.trans h.length_eq, fun hnil => ?_, h.send.frame rfl rfl rfl rfl rfl,
      h.eventHandler⟩, hun, fun _ => ?_⟩
    · have hnil' : s.recvBuffer.unread = [] := hun ▸ hnil
      exact (hsame hnil').trans (h.empty hnil')
    · by_cases hnil : s.recvBuffer.unread = []
      · calc s.recvBuffer.moveUnuseData2Begin.inOffset = 0 := (hsame hnil).trans (h.empty hnil)
          _ < L := by omega
      · calc s.recvBuffer.moveUnuseData2Begin.inOffset = s.recvBuffer.unread.length := hmoved hnil
          _ < L := by omega
  · exact ⟨h, rfl, fun hle => by omega⟩

def arrived (s : HSSession) (chunk : List UInt8) : HSSession :=
  { s with recvBuffer := { s.recvBuffer with toHSBuffer :=
    ((s.recvBuffer.put s.recvBuffer.inOffset chunk).dataIn chunk.length).2 } }

theorem Reading.arrived (h : Reading L handler s) {chunk : List UInt8} (hne : chunk ≠ [])
    (hfit : chunk.length ≤ s.recvBuffer.length - s.recvBuffer.inOffset) :
    Reading L handler (s.arrived chunk) ∧
      (s.arrived chunk).recvBuffer.unread = s.recvBuffer.unread ++ chunk ∧
      (s.arrived chunk).recvBuffer.inOffset = s.recvBuffer.inOffset + chunk.length := by
  obtain ⟨hok, hun, hlen, -, hin⟩ := h.recv.arrive chunk hfit
  refine ⟨⟨hok, hlen.trans h.length_eq, fun hnil => ?_, h.send.frame rfl rfl rfl rfl rfl,
    h.eventHandler⟩, hun, hin⟩
  exact absurd (hun ▸ hnil) (List.append_ne_nil_of_right_ne_nil _ hne)

def afterLoop (m : Option ℕ) : LoopEnd × HSSession → Option ℕ × HSSession
  | (.rejected, s) => (m, s)
  | (.emptied, s) => (m, s.start)
  | (.waiting, s) =>
    (some (m.getD (sizeSub s.recvBuffer.length hsNetPacketMaxSize)),
      (s.compacted (m.getD (sizeSub s.recvBuffer.length hsNetPacketMaxSize))).start)

theorem handleRead_ne_zero {n : ℕ} (hn : n ≠ 0) (s : HSSession) (m : Option ℕ) (fuel : ℕ) :
    s.handleRead w fuel m (.success n) = (HSSession.decodeLoop w fuel
      { s with recvBuffer := { s.recvBuffer with toHSBuffer := (s.recvBuffer.dataIn n).2 } }).map
      (afterLoop m) := by
  simp only [HSSession.handleRead, if_neg hn]
  cases HSSession.decodeLoop w fuel
    { s with recvBuffer := { s.recvBuffer with toHSBuffer := (s.recvBuffer.dataIn n).2 } } with
  | error f => rfl
  | ok r =>
    obtain ⟨e, s'⟩ := r
    cases e <;> rfl

theorem handleRead_success {chunk : List UInt8} (hne : chunk ≠ []) (m : Option ℕ) (op : ReadOp)
    (hop : op.offset = s.recvBuffer.inOffset) (fuel : ℕ) :
    (s.deliver op (.success chunk)).handleRead w fuel m (.success chunk.length) =
      (HSSession.decodeLoop w fuel (s.arrived chunk)).map (afterLoop m) := by
  rw [handleRead_ne_zero (List.length_pos_iff.mpr hne).ne']
  simp only [deliver, hop, HSSession.arrived]

theorem Reading.completed (hcalm : Calm handler) (hL : hsNetPacketMaxSize ≤ L)
    (h : Reading L handler s) {chunk : List UInt8} (hne : chunk ≠ [])
    (hfit : chunk.length ≤ s.recvBuffer.length - s.recvBuffer.inOffset) (m : Option ℕ)
    {vs : List (List UInt8)} {o : Option (List UInt8)}
    (hd : Drains (decodeBytes w) (s.recvBuffer.unread ++ chunk) vs o) {fuel : ℕ}
    (hfuel : L < fuel) (op : ReadOp) (hop : op.offset = s.recvBuffer.inOffset) :
    ∃ m' s', s'.calls = s.calls ++ vs.map .onReceive ∧ s'.reads = s.reads ∧
      (m' = m ∨ m' = some (m.getD (L - hsNetPacketMaxSize))) ∧
      (∀ r, o = some r →
        (s.deliver op (.success chunk)).handleRead w fuel m (.success chunk.length) =
          .ok (m', s'.start) ∧ Reading L handler s' ∧ s'.recvBuffer.unread = r ∧
        (m.getD (L - hsNetPacketMaxSize) ≤ L → s'.recvBuffer.inOffset < L) ∧
        (r ≠ [] → m' = some (m.getD (L - hsNetPacketMaxSize)) ∧
          (s.recvBuffer.inOffset + chunk.length < m.getD (L - hsNetPacketMaxSize) →
            s'.recvBuffer.inOffset = s.recvBuffer.inOffset + chunk.length)) ∧
        s'.closes = s.closes) ∧
      (o = none →
        (s.deliver op (.success chunk)).handleRead w fuel m (.success chunk.length) =
          .ok (m', s') ∧ s'.closes = s.closes + 1) := by
  obtain ⟨harr, hun, harrin⟩ := h.arrived hne hfit
  have hlen : (s.recvBuffer.unread ++ chunk).length < fuel := by
    have hle := (s.arrived chunk).recvBuffer.unread_length_le
    have hin := harr.recv.in_le
    rw [harr.length_eq] at hin
    rw [hun] at hle
    omega
  obtain ⟨e, s₁, hloop, hcalls, hreads, hsome, hnone⟩ := harr.decodeLoop hcalm hd hun hlen
  rw [handleRead_success hne m op hop fuel, hloop, Except.map]
  cases o with
  | none =>
    obtain ⟨rfl, hcl⟩ := hnone rfl
    exact ⟨m, s₁, hcalls, hreads, Or.inl rfl, fun r hr => (by cases hr), fun _ => ⟨rfl, hcl⟩⟩
  | some r =>
    obtain ⟨hrej, hemp, hr₁, hun₁, hin₁, hcl⟩ := hsome r rfl
    cases e with
    | rejected => exact absurd rfl hrej
    | emptied =>
      obtain rfl := hemp rfl
      refine ⟨m, s₁, hcalls, hreads, Or.inl rfl, fun r' hr' => ?_, fun ho => (by cases ho)⟩
      obtain rfl := Option.some.inj hr'
      refine ⟨rfl, hr₁, hun₁, fun _ => ?_, fun hne => absurd rfl hne, hcl⟩
      rw [hr₁.empty hun₁]
      exact lt_of_lt_of_le (by decide) hL
    | waiting =>
      have hlimit : sizeSub s₁.recvBuffer.length hsNetPacketMaxSize = L - hsNetPacketMaxSize := by
        rw [hr₁.length_eq]
        exact sizeSub_eq hL (hr₁.length_eq ▸ hr₁.recv.length_lt)
      have hinc : decodeBytes w s₁.recvBuffer.unread = .incomplete := by
        rw [hun₁]
        exact hd.rest_incomplete rfl
      obtain ⟨hcomp, hsame, hroom⟩ := hr₁.compacted hL hinc (m.getD (L - hsNetPacketMaxSize))
      obtain ⟨hc, hr, hcl'⟩ := beside_compacted s₁ (m.getD (L - hsNetPacketMaxSize))
      rw [afterLoop, hlimit]
      refine ⟨_, _, hc.trans hcalls, hr.trans hreads, Or.inr rfl, fun r' hr' => ?_,
        fun ho => (by cases ho)⟩
      obtain rfl := Option.some.inj hr'
      refine ⟨rfl, hcomp, hsame.trans hun₁, hroom, fun hne => ⟨rfl, fun hlt => ?_⟩,
        hcl'.trans hcl⟩
      rw [HSSession.compacted, if_neg (by rw [hin₁ hne, harrin]; omega), hin₁ hne, harrin]

def Streaming : SessionEvent → Prop
  | .readDone _ (.success chunk) => chunk ≠ []
  | e => WriteEvent e ∧ NonZero e

def bytesOf : SessionEvent → List UInt8
  | .readDone _ (.success chunk) => chunk
  | _ => []

/-- A session that has received `bytes`: it waits for the next read, which has room, and its handler
has been given the packets read off `bytes`. -/
structure Streamed (w : ULongWidth) (L : ℕ) (handler : EventHandler) (bytes : List UInt8)
    (s : HSSession) : Prop where
  reading : Reading L handler s
  room : s.recvBuffer.inOffset < L
  reads : s.reads = [⟨s.recvBuffer.inOffset, s.recvBuffer.getLeftInSize⟩]
  closes : s.closes = 0
  drained : ∃ vs, Drains (decodeBytes w) bytes vs (some s.recvBuffer.unread) ∧
    s.calls = vs.map .onReceive

theorem streamed_opened {sendLen : ℕ} (hL : 0 < L) (hL' : L < 2 ^ 64) (hsend : sendLen < 2 ^ 64)
    (recvMem sendMem : ℕ → UInt8) :
    Streamed w L handler [] (opened L sendLen recvMem sendMem (some handler)).start where
  reading := by
    have hord := @orderly_opened L _ hsend recvMem sendMem (some handler)
    exact ⟨HSRecvBuffer.new_ok recvMem hL hL', rfl, fun _ => rfl, hord.frame rfl rfl rfl rfl rfl,
      rfl⟩
  room := hL
  reads := rfl
  closes := rfl
  drained := ⟨[], .incomplete (decodeBytes_nil w), rfl⟩

theorem Streamed.step {bytes : List UInt8} (h : Streamed w L handler bytes s)
    (hcalm : Calm handler) (hL : hsNetPacketMaxSize ≤ L) {fuel : ℕ} (hfuel : L < fuel)
    {e : SessionEvent} (he : Streaming e) (hposs : s.Possible e) {vs : List (List UInt8)}
    {r : List UInt8} (hd : Drains (decodeBytes w) (bytes ++ bytesOf e) vs (some r)) {m : Option ℕ}
    (hm : ∀ k ∈ m, k = L - hsNetPacketMaxSize) :
    ∃ m' s', s.exec w fuel m e = .ok (m', s') ∧ (∀ k ∈ m', k = L - hsNetPacketMaxSize) ∧
      Streamed w L handler (bytes ++ bytesOf e) s' := by
  obtain ⟨us, hus, hcalls⟩ := h.drained
  -- what does not come from the peer is settled by the write path
  have hwrite : WriteEvent e → NonZero e → bytesOf e = [] → ∃ m' s',
      s.exec w fuel m e = .ok (m', s') ∧ (∀ k ∈ m', k = L - hsNetPacketMaxSize) ∧
        Streamed w L handler (bytes ++ bytesOf e) s' := by
    intro hwe hnz hnone
    obtain ⟨s', hs', hall⟩ := h.reading.send.exec hwe hposs w fuel
    have hside := hs'.beside
    have hrecv := hside.recvBuffer
    refine ⟨m, s', hall m, hm, h.reading.of_recv hrecv hside.eventHandler
      (h.reading.send.step hs' hnz), by rw [hrecv]; exact h.room, ?_,
      hside.closes.trans h.closes, ?_⟩
    · rw [hside.reads, hrecv]
      exact h.reads
    · rw [hnone, List.append_nil, hrecv, hside.calls]
      exact ⟨us, hus, hcalls⟩
  cases e with
  | send data => exact hwrite he.1 he.2 rfl
  | writeDone k result => exact hwrite he.1 he.2 rfl
  | readDone k result =>
    cases result with
    | failure v => exact absurd he.1 id
    | success chunk =>
      obtain ⟨op, hop, hfit⟩ := hposs
      have hop' : s.reads[k]? = some op := hop
      obtain ⟨rfl, herase⟩ := only_read h.reads hop'
      have hidle : Reading L handler { s with reads := [] } :=
        h.reading.of_recv rfl rfl (h.reading.send.frame rfl rfl rfl rfl rfl)
      have hleft : s.recvBuffer.getLeftInSize = s.recvBuffer.length - s.recvBuffer.inOffset :=
        HSBuffer.getLeftInSize_eq h.reading.recv.in_le h.reading.recv.length_lt
      obtain ⟨ws, rfl, hws⟩ := hus.split (incremental_decodeBytes w) rfl hd
      obtain ⟨m', s', hc, hr, hm', hsome, -⟩ := hidle.completed hcalm hL he (hleft ▸ hfit) m hws
        hfuel ⟨s.recvBuffer.inOffset, s.recvBuffer.getLeftInSize⟩ rfl
      obtain ⟨hexec, hread, hun, hroom, -, hcl⟩ := hsome r rfl
      have hlimit : m.getD (L - hsNetPacketMaxSize) = L - hsNetPacketMaxSize := by
        cases m with
        | none => exact Option.getD_none
        | some k =>
          rw [Option.getD_some]
          exact hm k rfl
      rw [hlimit] at hm' hroom
      refine ⟨m', s'.start, ?_, ?_, ?_⟩
      · simp only [HSSession.exec, hop', herase]
        exact hexec
      · rcases hm' with rfl | rfl
        · exact hm
        · intro k hk
          exact (Option.some.inj hk).symm
      · refine ⟨hread.of_recv rfl rfl (hread.send.frame rfl rfl rfl rfl rfl),
          hroom (Nat.sub_le _ _), ?_, hcl.trans h.closes, us ++ ws, ?_, ?_⟩
        · simp only [start, hr, List.nil_append]
        · change Drains _ _ _ (some s'.recvBuffer.unread)
          rw [hun]
          exact hd
        · change s'.calls = _
          rw [hc, List.map_append, ← hcalls]

theorem drains_received {fs : List (Frame UInt8 (List UInt8))}
    (hfs : ∀ f ∈ fs, IsEncoding w f.value f.symbols) {bytes : List UInt8}
    (hpre : bytes <+: stream fs) :
    ∃ r, Drains (decodeBytes w) bytes (completed fs bytes.length) (some r) :=
  drains_prefix (incremental_decodeBytes w) (decodeBytes_nil w)
    (fun f hf => (hfs f hf).decodes) hpre

structure Process (ι : Type*) where
  maxReadLength : Option ℕ
  sessions : ι → HSSession

namespace Process
variable {ι : Type*} [DecidableEq ι]

def started (L : ℕ) (sendLen : ι → ℕ) (recvMem sendMem : ι → ℕ → UInt8)
    (handler : ι → EventHandler) : Process ι :=
  ⟨none, fun i => (opened L (sendLen i) (recvMem i) (sendMem i) (some (handler i))).start⟩

def Step (w : ULongWidth) (fuel : ℕ) (p : Process ι) (e : ι × SessionEvent) (p' : Process ι) :
    Prop :=
  (p.sessions e.1).Possible e.2 ∧ ∃ m s,
    (p.sessions e.1).exec w fuel p.maxReadLength e.2 = .ok (m, s) ∧
      p' = ⟨m, Function.update p.sessions e.1 s⟩

def received (i : ι) (es : List (ι × SessionEvent)) : List UInt8 :=
  es.flatMap fun e => if e.1 = i then bytesOf e.2 else []

theorem received_concat (i : ι) (es : List (ι × SessionEvent)) (e : ι × SessionEvent) :
    received i (es ++ [e]) = received i es ++ if e.1 = i then bytesOf e.2 else [] := by
  simp [received]

structure Served (w : ULongWidth) (L : ℕ) (handler : ι → EventHandler)
    (es : List (ι × SessionEvent)) (p : Process ι) : Prop where
  sessions : ∀ i, Streamed w L (handler i) (received i es) (p.sessions i)
  maxReadLength : ∀ k ∈ p.maxReadLength, k = L - hsNetPacketMaxSize

section Streams
variable {w : ULongWidth} {fuel L : ℕ} {handler : ι → EventHandler}
  {fs : ι → List (Frame UInt8 (List UInt8))}

theorem Served.step {es : List (ι × SessionEvent)} {p : Process ι} (h : Served w L handler es p)
    (hcalm : ∀ i, Calm (handler i)) (hL : hsNetPacketMaxSize ≤ L) (hfuel : L < fuel)
    (hfs : ∀ i, ∀ f ∈ fs i, IsEncoding w f.value f.symbols) {e : ι × SessionEvent}
    (he : Streaming e.2) (hposs : (p.sessions e.1).Possible e.2)
    (hpre : received e.1 (es ++ [e]) <+: stream (fs e.1)) :
    ∃ m s, (p.sessions e.1).exec w fuel p.maxReadLength e.2 = .ok (m, s) ∧
      Served w L handler (es ++ [e]) ⟨m, Function.update p.sessions e.1 s⟩ := by
  obtain ⟨r, hd⟩ := drains_received (hfs e.1) hpre
  rw [received_concat, if_pos rfl] at hd
  obtain ⟨m, s, hexec, hm, hs⟩ :=
    (h.sessions e.1).step (hcalm e.1) hL hfuel he hposs hd h.maxReadLength
  refine ⟨m, s, hexec, fun i => ?_, hm⟩
  dsimp only
  rw [received_concat]
  by_cases hi : e.1 = i
  · subst hi
    rw [if_pos rfl, Function.update_self]
    exact hs
  · rw [if_neg hi, List.append_nil, Function.update_of_ne (Ne.symm hi)]
    exact h.sessions i

/-- Sessions whose receive buffers have one length, at least that of the largest packet, and whose
handlers do not clear them: however the streams of packets are cut into reads, no stream is
rejected, each handler is given the payloads completed so far, and there is room for the next
read. -/
theorem streams_served (hL : hsNetPacketMaxSize ≤ L) (hL' : L < 2 ^ 64) (hfuel : L < fuel)
    {sendLen : ι → ℕ} (hsend : ∀ i, sendLen i < 2 ^ 64) {recvMem sendMem : ι → ℕ → UInt8}
    (hcalm : ∀ i, Calm (handler i)) (hfs : ∀ i, ∀ f ∈ fs i, IsEncoding w f.value f.symbols)
    {es : List (ι × SessionEvent)} {p : Process ι}
    (h : Run (Guarded (fun _ e => Streaming e.2) (Step w fuel))
      (started L sendLen recvMem sendMem handler) es p)
    (hpre : ∀ i, received i es <+: stream (fs i)) :
    (∀ i, (p.sessions i).closes = 0 ∧
      (p.sessions i).calls = (completed (fs i) (received i es).length).map .onReceive ∧
      1 ≤ (p.sessions i).recvBuffer.getLeftInSize ∧
      (p.sessions i).reads = [⟨(p.sessions i).recvBuffer.inOffset,
        (p.sessions i).recvBuffer.getLeftInSize⟩]) ∧
    ∀ e : ι × SessionEvent, Streaming e.2 → (p.sessions e.1).Possible e.2 →
      received e.1 (es ++ [e]) <+: stream (fs e.1) → ∃ p', Step w fuel p e p' := by
  have hserved : Served w L handler es p := by
    refine Run.history (P := fun es p => (∀ i, received i es <+: stream (fs i)) →
      Served w L handler es p) (fun _ => ⟨fun i => ?_, ?_⟩) ?_ h hpre
    · exact streamed_opened (lt_of_lt_of_le (by decide) hL) hL' (hsend i) _ _
    · intro k hk
      cases hk
    · rintro es p e p' ih ⟨he, hposs, m, s, hexec, rfl⟩ hpre
      have hpre' : ∀ i, received i es <+: stream (fs i) := by
        intro i
        have hmore := hpre i
        rw [received_concat] at hmore
        exact (List.prefix_append _ _).trans hmore
      obtain ⟨m', s', hexec', hs'⟩ :=
        (ih hpre').step hcalm hL hfuel hfs he hposs (hpre e.1)
      rw [hexec] at hexec'
      cases hexec'
      exact hs'
  refine ⟨fun i => ?_, fun e he hposs hnext => ?_⟩
  · obtain ⟨hread, hroom, hreads, hcloses, vs, hvs, hcalls⟩ := hserved.sessions i
    obtain ⟨r, hd⟩ := drains_received (hfs i) (hpre i)
    obtain ⟨rfl, -⟩ := hvs.unique hd
    refine ⟨hcloses, hcalls, ?_, hreads⟩
    rw [HSBuffer.getLeftInSize_eq hread.recv.in_le hread.recv.length_lt, hread.length_eq]
    omega
  · obtain ⟨m, s, hexec, -⟩ := hserved.step hcalm hL hfuel hfs he hposs hnext
    exact ⟨_, hposs, m, s, hexec, rfl⟩

theorem streams_served_twoPackets :
    ∃ s : HSSession, s.calls = [.onReceive [7]] ∧ 1 ≤ s.recvBuffer.getLeftInSize := by
  let first := encoding .eight [7] [1, 2, 3, 4]
  let second := encoding .eight [] [5, 6, 7, 8]
  let packets : List (Frame UInt8 (List UInt8)) := [⟨first, [7]⟩, ⟨second, []⟩]
  have hpackets : ∀ i : Unit, ∀ f ∈ (fun _ => packets) i, IsEncoding .eight f.value f.symbols := by
    intro i f hf
    simp only [packets, List.mem_cons, List.not_mem_nil, or_false] at hf
    rcases hf with rfl | rfl
    · exact isEncoding_encoding (by decide) (by decide)
    · exact isEncoding_encoding (by decide) (by decide)
  let p₀ : Process Unit := started 8192 (fun _ => 64) (fun _ _ => 0) (fun _ _ => 0) (fun _ _ => [])
  let e : SessionEvent := .readDone 0 (.success (first ++ second.take 5))
  have hne : first ++ second.take 5 ≠ [] := by decide
  obtain ⟨⟨m, s⟩, hexec, -⟩ : ∃ r, (p₀.sessions ()).exec .eight 8193 none e = .ok r ∧ () = () :=
    exists_ok_of_map (by decide +kernel)
  have hrun : Run (Guarded (fun _ e => Streaming e.2) (Step .eight 8193)) p₀ ([] ++ [((), e)])
      ⟨m, Function.update p₀.sessions () s⟩ :=
    .snoc .nil ⟨hne, by decide, m, s, hexec, rfl⟩
  have hcalm : ∀ _ : Unit, Calm fun _ => [] := fun _ _ h => by cases h
  obtain ⟨hstate, -⟩ :=
    streams_served (by decide) (by decide) (by decide) (fun _ => by decide) hcalm
    hpackets hrun
    (fun _ => ⟨second.drop 5, rfl⟩)
  exact ⟨s, (hstate ()).2.1, (hstate ()).2.2.1⟩

end Streams

end Process

end HsCommon.HSSession
