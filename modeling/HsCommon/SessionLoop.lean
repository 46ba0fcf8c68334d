import HsCommon.SessionRead
import HsCommon.SessionSend
import HsCommon.Library.Loops

/-!
# The decode loop when handlers clear

The event handler is called in the middle of a round, between the two calls of
`DataUse`. When it clears the session there, the second one counts the data of the
packet in the emptied buffer: the used offset is then beyond the end of the data
and the next round decodes with a size that has wrapped. Only an empty packet does
no harm.
-/

namespace HsCommon.HSSession
open Transition Outcome Framing Loop

variable {w : ULongWidth} {fuel : ℕ} {s s' : HSSession}

def loopRound (w : ULongWidth) (s : HSSession) : Except Fault (Option LoopEnd × HSSession) := do
  match ← s.recvBuffer.decode w with
  | .incomplete => return (some .waiting, s)
  | .error => return (some .rejected, s.clear)
  | .complete nextOffset outSize =>
    let s := { s with recvBuffer := (s.recvBuffer.dataUse nextOffset false).2 }
    let s ← s.call w (.onReceive (s.recvBuffer.bytes s.recvBuffer.inUsedOffset outSize))
    let s := { s with recvBuffer := (s.recvBuffer.dataUse outSize false).2 }
    return (if s.recvBuffer.inOffset = s.recvBuffer.getUsedSize then some .emptied else none, s)

theorem decodeLoop_eq (fuel : ℕ) (s : HSSession) :
    decodeLoop w fuel s = loop (loopRound w) .outOfFuel fuel s := by
  induction fuel generalizing s with
  | zero => rfl
  | succ fuel ih =>
    rw [decodeLoop, loop, loopRound]
    cases s.recvBuffer.decode w with
    | error f => rfl
    | ok decoded =>
      cases decoded with
      | incomplete => rfl
      | error => rfl
      | complete nextOffset outSize =>
        simp only [bind, Except.bind]
        cases (call w (.onReceive ((s.recvBuffer.dataUse nextOffset false).2.bytes
            (s.recvBuffer.dataUse nextOffset false).2.inUsedOffset outSize))
          { s with recvBuffer := (s.recvBuffer.dataUse nextOffset false).2 }) with
        | error f => rfl
        | ok s₁ =>
          dsimp only
          split_ifs
          · rfl
          · exact ih _

theorem runAction_send (h : Buffered s) (data : Payload) :
    ∃ s', runAction w s (.send data) = .ok s' ∧ Buffered s' ∧ s'.recvBuffer = s.recvBuffer := by
  rcases send_cases (w := w) h data.property with hs | hs | ⟨x, henc, hfit, hs⟩
  · exact ⟨s, by simp only [runAction, hs]; rfl, h, rfl⟩
  · exact ⟨s.offer, by simp only [runAction, hs]; rfl, buffered_kept.offer s h,
      (beside_offer s).recvBuffer⟩
  · refine ⟨(s.enqueue x).offer, by simp only [runAction, hs]; rfl,
      buffered_kept.offer _ (buffered_kept.enqueue s x h henc.ne_nil hfit), ?_⟩
    exact (beside_offer _).recvBuffer

theorem actions_recvBuffer (h : Buffered s) (as : List Action) :
    ∃ s', as.foldlM (runAction w) s = .ok s' ∧ Buffered s' ∧
      (.clear ∈ as → s'.recvBuffer = s.recvBuffer.clear false) ∧
      (.clear ∉ as → s'.recvBuffer = s.recvBuffer) := by
  induction as generalizing s with
  | nil => exact ⟨s, rfl, h, fun hc => (by cases hc), fun _ => rfl⟩
  | cons a as ih =>
    cases a with
    | send data =>
      obtain ⟨s₁, hs₁, h₁, hrecv₁⟩ := runAction_send (w := w) h data
      obtain ⟨s₂, hs₂, h₂, hclear, hkeep⟩ := ih h₁
      refine ⟨s₂, ?_, h₂, fun hc => ?_, fun hc => ?_⟩
      · rw [List.foldlM_cons, hs₁]
        exact hs₂
      · rw [hclear (by simpa using hc), hrecv₁]
      · rw [hkeep (fun hmem => hc (List.mem_cons_of_mem _ hmem)), hrecv₁]
    | clear =>
      obtain ⟨s₂, hs₂, h₂, hclear, hkeep⟩ := ih (buffered_kept.clear s h)
      refine ⟨s₂, hs₂, h₂, fun _ => ?_, fun hc => absurd List.mem_cons_self hc⟩
      by_cases hc : .clear ∈ as
      · rw [hclear hc]
        rfl
      · rw [hkeep hc]
        rfl

def ClearsIn (handler : Option EventHandler) (calls : List Call) : Prop :=
  ∃ h ∈ handler, .clear ∈ h calls

theorem call_recvBuffer (h : Buffered s) (c : Call) :
    ∃ s', s.call w c = .ok s' ∧ Buffered s' ∧
      (ClearsIn s.eventHandler (s.calls ++ [c]) → s'.recvBuffer = s.recvBuffer.clear false) ∧
      (¬ ClearsIn s.eventHandler (s.calls ++ [c]) → s'.recvBuffer = s.recvBuffer) := by
  cases hh : s.eventHandler with
  | none =>
    refine ⟨s, ?_, h, ?_, fun _ => rfl⟩
    · simp only [HSSession.call, hh]
    · intro hc
      obtain ⟨handler, hmem, -⟩ := hc
      cases hmem
  | some handler =>
    have h₁ : Buffered { s with calls := s.calls ++ [c] } := h
    obtain ⟨s', hs', hb, hclear, hkeep⟩ := actions_recvBuffer (w := w) h₁ (handler (s.calls ++ [c]))
    refine ⟨s', ?_, hb, fun hc => ?_, fun hc => hkeep fun hmem => hc ⟨handler, rfl, hmem⟩⟩
    · simp only [HSSession.call, hh]
      rw [← hh]
      exact hs'
    · obtain ⟨_, hmem, hc⟩ := hc
      cases hmem
      exact hclear hc

theorem clear_ok {b : HSRecvBuffer} (h : b.Ok) :
    (b.clear false).Ok ∧ (b.clear false).unread = [] ∧ (b.clear false).length = b.length :=
  ⟨⟨h.some, le_rfl, Nat.zero_le _, h.length_lt, rfl⟩, rfl, rfl⟩

theorem dataUse_clear {b : HSRecvBuffer} {n : ℕ} (hn : 0 < n) (hlt : n < 2 ^ 64) :
    ((b.clear false).dataUse n false).2.inOffset = 0 ∧
      ((b.clear false).dataUse n false).2.inUsedOffset = n := by
  have hadd : sizeAdd 0 n = n := by
    rw [sizeAdd_eq (by omega), Nat.zero_add]
  have hne : ¬ (n = 0 ∧ True) := by omega
  simp only [HSRecvBuffer.dataUse, HSRecvBuffer.clear, HSBuffer.clear, Bool.false_and,
    Bool.false_eq_true, if_false, hadd, if_neg hne, and_self]

theorem loopRound_frame (hb : Buffered s) (h : s.recvBuffer.Ok) {v : List UInt8} {n : ℕ}
    (hframe : decodeBytes w s.recvBuffer.unread = .frame v n) :
    ∃ s', Buffered s' ∧ s'.eventHandler = s.eventHandler ∧
      (s.eventHandler.isSome → s'.calls = s.calls ++ [.onReceive v]) ∧
      s.loopRound w = .ok (if s'.recvBuffer.inOffset = s'.recvBuffer.getUsedSize then some .emptied
        else none, s') ∧
      (¬ ClearsIn s.eventHandler (s.calls ++ [.onReceive v]) →
        s'.recvBuffer.Ok ∧ s'.recvBuffer.length = s.recvBuffer.length ∧
          s'.recvBuffer.unread = s.recvBuffer.unread.drop n) ∧
      (ClearsIn s.eventHandler (s.calls ++ [.onReceive v]) →
        if v = [] then s'.recvBuffer.Ok ∧ s'.recvBuffer.length = s.recvBuffer.length ∧
          s'.recvBuffer.inOffset = s'.recvBuffer.getUsedSize
        else s'.recvBuffer.inOffset < s'.recvBuffer.inUsedOffset) := by
  obtain ⟨size, hdec, hdata, hok, hun, hlen, -⟩ := h.round hframe
  have hbound : w.header ≤ s.recvBuffer.unread.length ∧ v.length < 2 ^ 64 := by
    obtain ⟨k, -, hv, -, hle⟩ := decodeBytes_frame hframe
    have := s.recvBuffer.unread_length_le
    have := h.in_le
    have := h.length_lt
    rw [hv, List.length_take]
    omega
  obtain ⟨hhead, hshort⟩ := hbound
  have hsize : v.length = size := by
    rw [← hdata, HSBuffer.bytes_length]
  let b₁ : HSRecvBuffer := (s.recvBuffer.dataUse w.header false).2
  obtain ⟨s₁, hcall, hb₁, hclear, hkeep⟩ :=
    @call_recvBuffer w { s with recvBuffer := b₁ } hb (.onReceive v)
  obtain ⟨haround, -, hcalls, -⟩ := (call_around _ _).result hcall
  have hround : s.loopRound w =
      .ok (if (s₁.used size).recvBuffer.inOffset = (s₁.used size).recvBuffer.getUsedSize then
        some .emptied else none, s₁.used size) := by
    rw [loopRound, hdec]
    simp only [bind, Except.bind, hdata]
    rw [hcall]
    rfl
  refine ⟨s₁.used size, hb₁, haround.eventHandler, hcalls, hround, ?_, ?_⟩
  · intro hc
    rw [used, hkeep hc]
    exact ⟨hok, hlen, hun⟩
  · intro hc
    have hlength := (h.dataUse (n := w.header) hhead).2.2.1
    have h₁ := (h.dataUse (n := w.header) hhead).1
    rw [used, hclear hc]
    split_ifs with hv
    · -- nothing is left to be counted
      have hzero : size = 0 := by
        rw [← hsize, hv, List.length_nil]
      obtain ⟨hclearOk, hnil, hclearLen⟩ := clear_ok h₁
      obtain ⟨hok', hun', hlen', hin', -⟩ := hclearOk.dataUse (n := size) (by omega)
      rw [hnil, List.drop_nil] at hin'
      have hle := hok'.used_le
      rw [hin' rfl] at hle
      exact ⟨hok', hlen'.trans (hclearLen.trans hlength),
        (hin' rfl).trans (Nat.le_zero.mp hle).symm⟩
    · have hpos := List.length_pos_iff.mpr hv
      obtain ⟨hin', hused'⟩ := @dataUse_clear b₁ size (by omega) (by omega)
      dsimp only
      rw [hin', hused']
      omega

def ClearsWhenEmpty (handler : Option EventHandler) : List Call → List (List UInt8) → Prop
  | _, [] => True
  | calls, v :: vs =>
    (ClearsIn handler (calls ++ [.onReceive v]) → v = []) ∧
      (¬ ClearsIn handler (calls ++ [.onReceive v]) →
        ClearsWhenEmpty handler (calls ++ [.onReceive v]) vs)

def InOrder (b : HSRecvBuffer) : Prop :=
  b.inUsedOffset ≤ b.inOffset ∧ b.inOffset ≤ b.length ∧
    b.getCanUseSize = b.inOffset - b.inUsedOffset

theorem inOrder_of_ok {b : HSRecvBuffer} (h : b.Ok) : InOrder b :=
  ⟨h.used_le, h.in_le, h.getCanUseSize_eq.trans b.unread_length⟩

theorem clearsWhenEmpty_none (calls : List Call) (vs : List (List UInt8)) :
    ClearsWhenEmpty none calls vs := by
  have hnone : ∀ cs, ¬ ClearsIn none cs := by
    intro cs hc
    obtain ⟨handler, hmem, -⟩ := hc
    cases hmem
  induction vs generalizing calls with
  | nil => trivial
  | cons v vs ih => exact ⟨fun hc => absurd hc (hnone _), fun _ => ih _⟩

theorem clearsWhenEmpty_called (hh : s'.eventHandler = s.eventHandler) {c : Call}
    (hcalls : s.eventHandler.isSome → s'.calls = s.calls ++ [c]) (vs : List (List UInt8)) :
    ClearsWhenEmpty s'.eventHandler s'.calls vs ↔
      ClearsWhenEmpty s.eventHandler (s.calls ++ [c]) vs := by
  rw [hh]
  cases h : s.eventHandler with
  | none => exact iff_of_true (clearsWhenEmpty_none _ _) (clearsWhenEmpty_none _ _)
  | some handler => rw [hcalls (by rw [h]; rfl)]

structure Looping (L : ℕ) (s : HSSession) : Prop where
  send : Buffered s
  recv : s.recvBuffer.Ok
  length_eq : s.recvBuffer.length = L

theorem loopRound_rejected (h : s.recvBuffer.Ok)
    (hrej : decodeBytes w s.recvBuffer.unread = .rejected) :
    s.loopRound w = .ok (some .rejected, s.clear) := by
  rw [loopRound, HSRecvBuffer.decode_eq h, decodeBytes_rejected hrej]
  rfl

theorem loopRound_incomplete (h : s.recvBuffer.Ok)
    (hinc : decodeBytes w s.recvBuffer.unread = .incomplete) :
    s.loopRound w = .ok (some .waiting, s) := by
  rw [loopRound, HSRecvBuffer.decode_eq h, decodeBytes_incomplete hinc]
  rfl

theorem heads_iff {L : ℕ} {P : HSSession → Prop} (hweak : ∀ t, Looping L t → P t)
    (hstrong : ∀ t, P t → t.recvBuffer.inUsedOffset ≤ t.recvBuffer.inOffset) {u : List UInt8}
    {vs : List (List UInt8)} {o : Option (List UInt8)} (hd : Drains (decodeBytes w) u vs o)
    (h : Looping L s) (hu : s.recvBuffer.unread = u) :
    (∀ t, Head (loopRound w) s t → P t) ↔ ClearsWhenEmpty s.eventHandler s.calls vs := by
  induction hd generalizing s with
  | rejected hrej =>
    subst hu
    rw [forall_head_left (loopRound_rejected h.recv hrej)]
    exact iff_of_true (hweak s h) trivial
  | incomplete hinc =>
    subst hu
    rw [forall_head_left (loopRound_incomplete h.recv hinc)]
    exact iff_of_true (hweak s h) trivial
  | @frame u v n vs o hframe hrest ih =>
    subst hu
    obtain ⟨s', hb', hh, hcalls, hround, hkeep, hclear⟩ := loopRound_frame h.send h.recv hframe
    have hsame := clearsWhenEmpty_called hh hcalls vs
    by_cases hc : ClearsIn s.eventHandler (s.calls ++ [.onReceive v])
    · have hempty := hclear hc
      split_ifs at hempty with hv
      · obtain ⟨-, -, hend⟩ := hempty
        rw [if_pos hend] at hround
        rw [forall_head_left hround]
        exact iff_of_true (hweak s h) ⟨fun _ => hv, fun hnot => absurd hc hnot⟩
      · -- the next round would decode beyond the data
        have hne : ¬ s'.recvBuffer.inOffset = s'.recvBuffer.getUsedSize := hempty.ne
        rw [if_neg hne] at hround
        refine iff_of_false (fun hall => ?_) fun hcond => hv (hcond.1 hc)
        exact absurd (hstrong s' (hall s' (.again .first hround))) (not_le.mpr hempty)
    · obtain ⟨hok, hlen, hun⟩ := hkeep hc
      have hlater : ClearsWhenEmpty s.eventHandler s.calls (v :: vs) ↔
          ClearsWhenEmpty s'.eventHandler s'.calls vs := by
        rw [hsame]
        exact ⟨fun hcond => hcond.2 hc, fun hcond => ⟨fun hc' => absurd hc' hc, fun _ => hcond⟩⟩
      rw [hlater]
      split_ifs at hround with hend
      · have hnil : s'.recvBuffer.unread = [] := by
          rw [← List.length_eq_zero_iff, HSRecvBuffer.unread_length, hend]
          exact Nat.sub_self _
        rw [← hun, hnil] at hrest
        obtain ⟨rfl, -⟩ := hrest.unique (.incomplete (decodeBytes_nil w))
        rw [forall_head_left hround]
        exact iff_of_true (hweak s h) trivial
      · rw [forall_head_again hround, ih ⟨hb', hok, hlen.trans h.length_eq⟩ hun]
        exact and_iff_right (hweak s h)

theorem loopRound_left {L : ℕ} (h : Looping L s) {e : LoopEnd}
    (hround : s.loopRound w = .ok (some e, s')) :
    s'.recvBuffer.Ok ∧ s'.recvBuffer.length = L := by
  cases hdec : decodeBytes w s.recvBuffer.unread with
  | rejected =>
    rw [loopRound_rejected h.recv hdec] at hround
    cases hround
    obtain ⟨hok, -, hlen⟩ := clear_ok h.recv
    exact ⟨hok, hlen.trans h.length_eq⟩
  | incomplete =>
    rw [loopRound_incomplete h.recv hdec] at hround
    cases hround
    exact ⟨h.recv, h.length_eq⟩
  | frame v n =>
    obtain ⟨s₁, -, -, -, hround₁, hkeep, hclear⟩ := loopRound_frame h.send h.recv hdec
    rw [hround₁] at hround
    by_cases hc : ClearsIn s.eventHandler (s.calls ++ [.onReceive v])
    · have hempty := hclear hc
      split_ifs at hempty with hv
      · obtain ⟨-, rfl⟩ := Prod.mk.inj (Except.ok.inj hround)
        exact ⟨hempty.1, hempty.2.1.trans h.length_eq⟩
      · have hne : ¬ s₁.recvBuffer.inOffset = s₁.recvBuffer.getUsedSize := hempty.ne
        rw [if_neg hne] at hround
        cases hround
    · obtain ⟨hok, hlen, -⟩ := hkeep hc
      obtain ⟨-, rfl⟩ := Prod.mk.inj (Except.ok.inj hround)
      exact ⟨hok, hlen.trans h.length_eq⟩

theorem decodeLoop_ok {L : ℕ} {u : List UInt8} {vs : List (List UInt8)} {o : Option (List UInt8)}
    (hd : Drains (decodeBytes w) u vs o) (h : Looping L s) (hu : s.recvBuffer.unread = u)
    (hcond : ClearsWhenEmpty s.eventHandler s.calls vs) (fuel : ℕ) :
    Ends (fun r => r.2.recvBuffer.Ok ∧ r.2.recvBuffer.length = L) (fun _ => True)
      (decodeLoop w fuel s) := by
  have hheads : ∀ t, Head (loopRound w) s t → Looping L t :=
    (heads_iff (fun _ ht => ht) (fun _ ht => ht.recv.used_le) hd h hu).mpr hcond
  rw [decodeLoop_eq]
  exact ends_loop fuel fun t ht e t' hround => loopRound_left (hheads t ht) hround

/-- Between events the offsets are in order, and the outstanding read ends within the buffer
wherever the data ends now. -/
structure Steady (L : ℕ) (s : HSSession) : Prop where
  some : 0 < L → s.recvBuffer.buffer.isSome
  used_le : s.recvBuffer.inUsedOffset ≤ s.recvBuffer.inOffset
  in_le : s.recvBuffer.inOffset ≤ L
  length_eq : s.recvBuffer.length = L
  reset : s.recvBuffer.usedOutReset = true
  reads : s.reads = [] ∨ ∃ op, s.reads = [op] ∧ s.recvBuffer.inOffset + op.size ≤ L

variable {L : ℕ}

theorem steady_of_ok (h : s.recvBuffer.Ok) (hlen : s.recvBuffer.length = L)
    (hreads : s.reads = []) : Steady L s :=
  ⟨fun _ => h.some, h.used_le, hlen ▸ h.in_le, hlen, h.reset, Or.inl hreads⟩

theorem Steady.frame (h : Steady L s) (hrecv : s'.recvBuffer = s.recvBuffer)
    (hreads : s'.reads = s.reads) : Steady L s' := by
  obtain ⟨hsome, hused, hin, hlen, hreset, hops⟩ := h
  exact ⟨hrecv ▸ hsome, hrecv ▸ hused, hrecv ▸ hin, hrecv ▸ hlen, hrecv ▸ hreset, by
    rw [hrecv, hreads]
    exact hops⟩

theorem Steady.clear (h : Steady L s) : Steady L s.clear := by
  refine ⟨h.some, le_rfl, Nat.zero_le _, h.length_eq, rfl, h.reads.imp id ?_⟩
  intro hop
  obtain ⟨op, hone, hroom⟩ := hop
  exact ⟨op, hone, by change 0 + op.size ≤ L; omega⟩

theorem Steady.start (hL : L < 2 ^ 64) (h : Steady L s) (hreads : s.reads = []) :
    Steady L s.start := by
  have hin := h.in_le
  have hlen := h.length_eq
  have hleft : s.recvBuffer.getLeftInSize = L - s.recvBuffer.inOffset := by
    rw [HSBuffer.getLeftInSize_eq (by omega) (by omega), hlen]
  refine ⟨h.some, h.used_le, hin, hlen, h.reset, Or.inr ⟨⟨s.recvBuffer.inOffset,
    s.recvBuffer.getLeftInSize⟩, ?_, ?_⟩⟩
  · simp only [HSSession.start, hreads, List.nil_append]
  · change s.recvBuffer.inOffset + s.recvBuffer.getLeftInSize ≤ L
    omega

theorem Steady.call (h : Steady L s) (c : Call) :
    Ends (Steady L) (fun _ => True) (s.call w c) := by
  rw [HSSession.call]
  split
  · exact h
  · refine Ends.foldlM ?_ (h.frame rfl rfl)
    intro s₁ a _ h₁
    cases a with
    | send data =>
      exact (send_sendSide s₁ data.val).bind fun r hr => h₁.frame hr.recvBuffer hr.reads
    | clear => exact h₁.clear

theorem Steady.writeResult (h : Steady L s) (result : Completion ℕ) :
    Ends (Steady L) (fun _ => True) (s.writeResult w result) := by
  by_cases hf : Fails result
  · cases result with
    | success n => exact hf.elim
    | failure v =>
      have herr : handleError v ≠ 0 := hf
      simp only [HSSession.writeResult, if_neg herr]
      exact (h.call _).bind fun s₁ h₁ => h₁.clear.frame rfl rfl
  · refine (writeResult_cases s result).mono fun s₁ hs₁ => ?_
    have hside := hs₁.1 hf
    exact h.frame hside.recvBuffer hside.reads

theorem Steady.compacted (h : Steady L s) (limit : ℕ) (hok : s.recvBuffer.Ok)
    (hreads : s.reads = []) : Steady L (s.compacted limit) := by
  rw [HSSession.compacted]
  split_ifs
  · obtain ⟨hok', -, hlen', -⟩ := hok.moveUnuseData2Begin
    exact steady_of_ok hok' (hlen'.trans h.length_eq) hreads
  · exact h

theorem steady_afterLoop (hL : L < 2 ^ 64) {e : LoopEnd} {m : Option ℕ} (hok : s.recvBuffer.Ok)
    (hlen : s.recvBuffer.length = L) (hreads : s.reads = []) :
    Steady L (afterLoop m (e, s)).2 := by
  have h := steady_of_ok hok hlen hreads
  cases e with
  | rejected => exact h
  | emptied => exact h.start hL hreads
  | waiting =>
    rw [afterLoop]
    refine (h.compacted _ hok hreads).start hL ?_
    exact (beside_compacted s _).2.1.trans hreads

def atLoop (s : HSSession) (k : ℕ) (op : ReadOp) (chunk : List UInt8) : HSSession :=
  { s with
    reads := s.reads.eraseIdx k
    recvBuffer := { s.recvBuffer with
      toHSBuffer := ((s.recvBuffer.put op.offset chunk).dataIn chunk.length).2 } }

theorem exec_readDone {k : ℕ} {op : ReadOp} {chunk : List UInt8} (hop : s.reads[k]? = some op)
    (hne : chunk ≠ []) (fuel : ℕ) (m : Option ℕ) :
    s.exec w fuel m (.readDone k (.success chunk)) =
      (decodeLoop w fuel (s.atLoop k op chunk)).map (afterLoop m) := by
  simp only [exec, hop, Completion.count, deliver]
  rw [handleRead_ne_zero (List.length_pos_iff.mpr hne).ne']
  rfl

theorem Steady.only (h : Steady L s) {k : ℕ} {op : ReadOp} (hop : op ∈ s.reads[k]?) :
    s.reads.eraseIdx k = [] ∧ s.recvBuffer.inOffset + op.size ≤ L := by
  rcases h.reads with hnil | ⟨op', hone, hroom⟩
  · rw [hnil] at hop
    cases hop
  · obtain ⟨rfl, hreads⟩ := only_read hone hop
    exact ⟨hreads, hroom⟩

theorem atLoop_looping (hL : L < 2 ^ 64) (h : Steady L s) (hb : Buffered s) {k : ℕ} {op : ReadOp}
    {chunk : List UInt8} (hop : s.reads[k]? = some op) (hfit : chunk.length ≤ op.size)
    (hne : chunk ≠ []) : Looping L (s.atLoop k op chunk) ∧ (s.atLoop k op chunk).reads = [] := by
  have hused := h.used_le
  have hlen := h.length_eq
  have hpos := List.length_pos_iff.mpr hne
  obtain ⟨hreads, hroom⟩ := h.only hop
  have hin := @HSBuffer.dataIn_eq (s.recvBuffer.put op.offset chunk) chunk.length
    (by simp only [HSBuffer.put]; omega) (by simp only [HSBuffer.put]; omega)
  have hsome : (s.recvBuffer.put op.offset chunk).buffer.isSome := by
    simpa [HSBuffer.put] using h.some (by omega)
  refine ⟨⟨hb, ?_, ?_⟩, hreads⟩
  · simp only [HSSession.atLoop, hin]
    refine ⟨hsome, ?_, ?_, ?_, h.reset⟩ <;> simp only [HSBuffer.put] <;> omega
  · simp only [HSSession.atLoop, hin]
    exact hlen

def LoopInOrder (w : ULongWidth) (s : HSSession) (e : SessionEvent) : Prop :=
  ∀ k chunk op, e = .readDone k (.success chunk) → chunk ≠ [] → s.reads[k]? = some op →
    ∀ t, Head (loopRound w) (s.atLoop k op chunk) t → InOrder t.recvBuffer

/-- Of the packets complete now, the first one in whose call the handler clears is empty. -/
def ClearsSafely (w : ULongWidth) (s : HSSession) (e : SessionEvent) : Prop :=
  ∀ k chunk op vs o, e = .readDone k (.success chunk) → chunk ≠ [] → s.reads[k]? = some op →
    Drains (decodeBytes w) (s.atLoop k op chunk).recvBuffer.unread vs o →
      ClearsWhenEmpty s.eventHandler s.calls vs

theorem loopInOrder_iff (hL : L < 2 ^ 64) (h : Steady L s) (hb : Buffered s) {e : SessionEvent}
    (hposs : s.Possible e) : LoopInOrder w s e ↔ ClearsSafely w s e := by
  have hiff : ∀ k chunk op vs o, e = .readDone k (.success chunk) → chunk ≠ [] →
      s.reads[k]? = some op →
      Drains (decodeBytes w) (s.atLoop k op chunk).recvBuffer.unread vs o →
      ((∀ t, Head (loopRound w) (s.atLoop k op chunk) t → InOrder t.recvBuffer) ↔
        ClearsWhenEmpty s.eventHandler s.calls vs) := by
    intro k chunk op vs o he hne hop hd
    subst he
    obtain ⟨op', hop', hfit⟩ := hposs
    obtain rfl : op = op' := Option.some.inj (hop.symm.trans hop')
    have hlooping := (atLoop_looping hL h hb hop hfit hne).1
    exact heads_iff (fun _ ht => inOrder_of_ok ht.recv) (fun _ ht => ht.1) hd hlooping rfl
  constructor
  · intro hall k chunk op vs o he hne hop hd
    exact (hiff k chunk op vs o he hne hop hd).mp (hall k chunk op he hne hop)
  · intro hcond k chunk op he hne hop
    obtain ⟨vs, o, hd⟩ := exists_drains (incremental_decodeBytes w)
      (s.atLoop k op chunk).recvBuffer.unread
    exact (hiff k chunk op vs o he hne hop hd).mpr (hcond k chunk op vs o he hne hop hd)

theorem Steady.exec (hL : L < 2 ^ 64) (h : Steady L s) (hb : Buffered s) {m : Option ℕ}
    {e : SessionEvent} (hposs : s.Possible e) (hcond : ClearsSafely w s e) :
    Ends (fun r => Steady L r.2) (fun _ => True) (s.exec w fuel m e) := by
  cases e with
  | send data =>
    exact (send_sendSide s data.val).bind fun r hr => h.frame hr.recvBuffer hr.reads
  | writeDone k result =>
    simp only [HSSession.exec]
    split
    · exact h
    · refine Ends.bind (Steady.writeResult ?_ result) fun s' hs' => hs'
      cases result <;> exact h.frame rfl rfl
  | readDone k result =>
    cases hop : s.reads[k]? with
    | none =>
      simp only [HSSession.exec, hop]
      exact h
    | some op =>
      have hreads := (h.only hop).1
      have h₁ : Steady L { s with reads := s.reads.eraseIdx k } :=
        ⟨h.some, h.used_le, h.in_le, h.length_eq, h.reset, Or.inl hreads⟩
      cases result with
      | success chunk =>
        obtain ⟨op', hop', hfit⟩ := hposs
        obtain rfl : op = op' := Option.some.inj (hop.symm.trans hop')
        by_cases hne : chunk = []
        · subst hne
          simp only [HSSession.exec, hop, deliver, HSBuffer.put_nil]
          exact h₁
        · obtain ⟨hlooping, hreads⟩ := atLoop_looping hL h hb hop hfit hne
          obtain ⟨vs, o, hd⟩ := exists_drains (incremental_decodeBytes w)
            (s.atLoop k op chunk).recvBuffer.unread
          have hok := decodeLoop_ok hd hlooping rfl (hcond k chunk op vs o rfl hne hop hd) fuel
          have hloop := hok.and
            ((decodeLoop_around (w := w) fuel (s.atLoop k op chunk)).mono fun r hr => hr.1.reads)
          rw [exec_readDone hop hne]
          cases hres : decodeLoop w fuel (s.atLoop k op chunk) with
          | error f => trivial
          | ok r =>
            obtain ⟨⟨hok, hlen⟩, hsame⟩ := hloop.result hres
            exact steady_afterLoop hL hok hlen (hsame.trans hreads)
      | failure v =>
        simp only [HSSession.exec, hop, deliver, Completion.count, HSSession.handleRead]
        split_ifs
        · exact h₁.start hL hreads
        · exact (h₁.call _).bind fun s₁ hs₁ => hs₁.clear

/-- In the runs in which a handler that clears does so first for an empty packet, the offsets are in
order at every head of every loop, and the next loop keeps this up just when it does so too. -/
theorem loops_inOrder_iff {recvLen sendLen : ℕ} (hrecv : recvLen < 2 ^ 64)
    (hsend : sendLen < 2 ^ 64) {recvMem sendMem : ℕ → UInt8} {handler : Option EventHandler}
    {es : List SessionEvent}
    (h : Run (Guarded (ClearsSafely w) (Step w fuel))
      (opened recvLen sendLen recvMem sendMem handler).start es s) {e : SessionEvent}
    (hposs : s.Possible e) : LoopInOrder w s e ↔ ClearsSafely w s e := by
  have h₀ : Steady recvLen (opened recvLen sendLen recvMem sendMem handler).start := by
    refine Steady.start hrecv ⟨fun hpos => ?_, le_rfl, Nat.zero_le _, rfl, rfl, Or.inl rfl⟩ rfl
    exact (HSRecvBuffer.new_ok recvMem hpos hrecv).some
  have hb₀ : Buffered (opened recvLen sendLen recvMem sendMem handler).start :=
    HSSendBuffer.new_ok sendMem hsend
  have hboth : Steady recvLen s ∧ Buffered s := by
    refine Run.invariant (P := fun s => Steady recvLen s ∧ Buffered s) ⟨h₀, hb₀⟩ ?_ h
    intro s e s' hs hstep
    obtain ⟨hcond, hposs, m, m', hexec⟩ := hstep
    exact ⟨(hs.1.exec hrecv hs.2 hposs hcond).result hexec, (hs.2.exec e).result hexec⟩
  exact loopInOrder_iff hrecv hboth.1 hboth.2 hposs

theorem loops_inOrder_empty :
    LoopInOrder .eight (opened 8192 64 (fun _ => 0) (fun _ => 0) (some fun _ => [.clear])).start
      (.readDone 0 (.success (encoding .eight [] [0, 0, 0, 0]))) := by
  refine (@loops_inOrder_iff .eight 0 _ 8192 64 (by decide) (by decide) _ _ _ _ .nil _
    (by decide)).mpr ?_
  intro k chunk op vs o he hne hop hd
  cases he
  cases hop
  have henc : IsEncoding .eight [] (encoding .eight [] [0, 0, 0, 0]) :=
    isEncoding_encoding (by decide) (by decide)
  have hone : Drains (decodeBytes .eight) (encoding .eight [] [0, 0, 0, 0]) [[]] (some []) :=
    .frame henc.decodes.whole (.incomplete (decodeBytes_nil _))
  obtain ⟨rfl, -⟩ := hone.unique hd
  exact ⟨fun _ => rfl, fun _ => trivial⟩

/-- The handler clears in the call for a packet of one byte. The next round decodes with a size of
2^64 - 1. -/
theorem clear_wraps :
    ∃ s t : HSSession,
      Run (Step .eight 0)
        (opened 8192 64 (fun _ => 0) (fun _ => 0) (some fun _ => [.clear])).start [] s ∧
      s.Possible (.readDone 0 (.success (encoding .eight [1] [0, 0, 0, 0]))) ∧
      Head (loopRound .eight) (s.atLoop 0 ⟨0, 8192⟩ (encoding .eight [1] [0, 0, 0, 0])) t ∧
      t.recvBuffer.inOffset = 0 ∧ t.recvBuffer.getCanUseSize = 2 ^ 64 - 1 ∧
      ¬ LoopInOrder .eight s (.readDone 0 (.success (encoding .eight [1] [0, 0, 0, 0]))) := by
  obtain ⟨⟨r, t⟩, hround, ht⟩ := @exists_ok_of_map _ _
    (fun r => (r.1.isNone, r.2.recvBuffer.inOffset, r.2.recvBuffer.inUsedOffset,
      r.2.recvBuffer.getCanUseSize))
    (loopRound .eight
      ((opened 8192 64 (fun _ => 0) (fun _ => 0) (some fun _ => [.clear])).start.atLoop 0 ⟨0, 8192⟩
        (encoding .eight [1] [0, 0, 0, 0]))) (true, 0, 1, 2 ^ 64 - 1) (by decide +kernel)
  simp only [Prod.mk.injEq, Option.isNone_iff_eq_none] at ht
  obtain ⟨rfl, hin, hused, hsize⟩ := ht
  refine ⟨_, t, .nil, by decide, .again .first hround, hin, hsize, fun hall => ?_⟩
  have hle := (hall 0 _ ⟨0, 8192⟩ rfl (by decide) rfl t (.again .first hround)).1
  omega

end HsCommon.HSSession
