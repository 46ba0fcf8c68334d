import HsCommon.SessionWrite
import HsCommon.SessionHandlers

/-!
# Completions after clear

`clear` empties the send buffer while a write may be outstanding, and the
completion of that write still counts its bytes as sent. The assertion of
`GetCanSendSize` fails just when the completion reports more bytes than are
unsent. It cannot fail as long as the completions that come late report an error
that closes the session once more.
-/

namespace HsCommon.HSSession
open Transition Outcome

variable {w : ULongWidth} {s : HSSession} {P : HSSession → Prop} {F : Fault → Prop}

structure Kept (P : HSSession → Prop) : Prop where
  buffer : ∀ s, P s → s.sendBuffer.Ok
  frame : ∀ s s' : HSSession, P s → s'.sendBuffer = s.sendBuffer → s'.writes = s.writes →
    s'.handleSending = s.handleSending → s'.closes = s.closes → P s'
  enqueue : ∀ s x, P s → x ≠ [] → x.length ≤ s.sendBuffer.length - s.sendBuffer.inOffset →
    P (s.enqueue x)
  offer : ∀ s, P s → P s.offer
  clear : ∀ s, P s → P s.clear

theorem Kept.send (hP : Kept P) (h : P s) (data : Payload) :
    Ends (fun r => P r.2) F (s.send w data.val) := by
  rcases send_cases (w := w) (hP.buffer s h) data.property with hs | hs | ⟨x, henc, hfit, hs⟩
  · exact Ends.of_eq hs h
  · exact Ends.of_eq hs (hP.offer s h)
  · exact Ends.of_eq hs (hP.offer _ (hP.enqueue s x h henc.ne_nil hfit))

theorem Kept.stable (hP : Kept P) : Stable w F P :=
  ⟨hP.frame, fun _ data h => hP.send h data, hP.clear⟩

/-- A completion reports no more bytes than are unsent. -/
def Fits (s : HSSession) : SessionEvent → Prop
  | .writeDone _ (.success n) => s.sendBuffer.sentOffset + n ≤ s.sendBuffer.inOffset
  | _ => True

structure Bounded (length : ℕ) (s : HSSession) : Prop where
  buffer : s.sendBuffer.Ok
  length_eq : s.sendBuffer.length = length
  offered_le : ∀ op ∈ s.writes, op.offered.length ≤ length

theorem unsent_length_le (h : s.sendBuffer.Ok) :
    s.sendBuffer.unsent.length ≤ s.sendBuffer.length := by
  have := h.in_le
  rw [HSSendBuffer.unsent_length]
  omega

theorem bounded_kept (length : ℕ) : Kept (Bounded length) where
  buffer s h := h.buffer
  frame s s' h hb hw _ _ := ⟨hb ▸ h.buffer, hb ▸ h.length_eq, hw ▸ h.offered_le⟩
  enqueue s x h hx hfit := by
    obtain ⟨hok, -⟩ := enqueue_ok h.buffer hx hfit
    refine ⟨hok, ?_, h.offered_le⟩
    rw [← h.length_eq]
    exact HSBuffer.dataIn_length _ _
  offer s h := by
    refine ⟨by rw [offer_sendBuffer]; exact h.buffer,
      by rw [offer_sendBuffer]; exact h.length_eq, ?_⟩
    rw [HSSession.offer]
    split_ifs
    · exact h.offered_le
    · intro op hop
      rcases List.mem_append.mp hop with hop | hop
      · exact h.offered_le op hop
      · obtain rfl := List.mem_singleton.mp hop
        exact h.length_eq ▸ unsent_length_le h.buffer
  clear s h := ⟨h.buffer.clear, h.length_eq, h.offered_le⟩

theorem bounded_opened {recvLen sendLen : ℕ} (hlen : sendLen < 2 ^ 64)
    (recvMem sendMem : ℕ → UInt8) (handler : Option EventHandler) :
    Bounded sendLen (opened recvLen sendLen recvMem sendMem handler).start :=
  ⟨HSSendBuffer.new_ok sendMem hlen, rfl, fun _ hop => by cases hop⟩

theorem Bounded.completed {length : ℕ} (h : Bounded length s) (k : ℕ) (op : WriteOp)
    (r : Completion ℕ) : Bounded length ({ s with writes := s.writes.eraseIdx k }.accept op r) := by
  have hle : ∀ op ∈ s.writes.eraseIdx k, op.offered.length ≤ length :=
    fun op hop => h.offered_le op (List.mem_of_mem_eraseIdx hop)
  cases r <;> exact ⟨h.buffer, h.length_eq, hle⟩

theorem Bounded.exec {length fuel : ℕ} {m : Option ℕ} (h : Bounded length s) {e : SessionEvent}
    (hfit : Fits s e) :
    Ends (fun r => Bounded length r.2) (· ≠ Fault.assertFailed) (s.exec w fuel m e) := by
  cases e with
  | send data => exact (bounded_kept length).stable.exec (fun _ hf => hf) h (by simp)
  | readDone k r => exact (bounded_kept length).stable.exec (fun _ hf => hf) h (by simp)
  | writeDone k r =>
    simp only [HSSession.exec]
    split
    · exact h
    · rename_i op hop
      have h₁ := h.completed k op r
      refine Ends.bind (P := Bounded length) ?_ fun s' hs' => hs'
      cases r with
      | success n =>
        rcases Nat.eq_zero_or_pos n with rfl | hpos
        · exact h₁
        · have hn : n ≤ s.sendBuffer.unsent.length := by
            have hs : s.sendBuffer.sentOffset + n ≤ s.sendBuffer.inOffset := hfit
            rw [HSSendBuffer.unsent_length]
            omega
          refine Ends.of_eq (writeResult_success h₁.buffer hpos hn) ?_
          have hsent : Bounded length { ({ s with writes := s.writes.eraseIdx k }.accept op
              (.success n)) with sendBuffer := s.sendBuffer.sent n } :=
            ⟨(h.buffer.sent hn).1, (HSSendBuffer.sent_length _ _).trans h.length_eq, h₁.offered_le⟩
          obtain ⟨hok, hlen, hle⟩ := (bounded_kept length).offer _ hsent
          exact ⟨hok, hlen, hle⟩
      | failure v =>
        by_cases hv : v = 10035
        · rw [hv]
          refine Ends.of_eq (writeResult_wouldBlock h₁.buffer) ?_
          obtain ⟨hok, hlen, hle⟩ := (bounded_kept length).offer _ h₁
          exact ⟨hok, hlen, hle⟩
        · exact (bounded_kept length).stable.writeResult_failure h₁ hv

theorem Bounded.exec_assertFailed {length fuel : ℕ} {m : Option ℕ} (h : Bounded length s)
    (hlen : length < 2 ^ 63) {e : SessionEvent} (hposs : s.Possible e) (hfit : ¬ Fits s e) :
    s.exec w fuel m e = .error .assertFailed := by
  cases e with
  | send data => exact absurd trivial hfit
  | readDone k r => exact absurd trivial hfit
  | writeDone k r =>
    cases r with
    | failure v => exact absurd trivial hfit
    | success n =>
      obtain ⟨op, hop, hn⟩ := hposs
      have hop' : s.writes[k]? = some op := hop
      have hbound := h.offered_le op (List.mem_of_getElem? hop')
      have hle := h.buffer.sent_le
      have hin := h.buffer.in_le
      have hleq := h.length_eq
      have hlate : ¬ s.sendBuffer.sentOffset + n ≤ s.sendBuffer.inOffset := hfit
      have hadd : sizeAdd s.sendBuffer.sentOffset n = s.sendBuffer.sentOffset + n :=
        sizeAdd_eq (by omega)
      have hsent : (s.sendBuffer.sent n).getCanSendSize = .error .assertFailed := by
        rw [HSSendBuffer.sent, hadd, if_neg (by omega), HSSendBuffer.getCanSendSize]
        exact if_neg hlate
      have hpos : n ≠ 0 := by omega
      simp only [HSSession.exec, hop', writeResult, if_neg hpos]
      rw [accept]
      dsimp only
      rw [hsent]
      rfl

def LateFails (s : HSSession) : SessionEvent → Prop
  | .writeDone k (.success _) => ∀ op ∈ s.writes[k]?, op.closes = s.closes
  | .writeDone k (.failure v) => ∀ op ∈ s.writes[k]?, op.closes = s.closes ∨ v ≠ 10035
  | _ => True

instance (s : HSSession) : DecidablePred (LateFails s)
  | .writeDone k (.success _) =>
    inferInstanceAs (Decidable (∀ op ∈ s.writes[k]?, op.closes = s.closes))
  | .writeDone k (.failure v) =>
    inferInstanceAs (Decidable (∀ op ∈ s.writes[k]?, op.closes = s.closes ∨ v ≠ 10035))
  | .send _ | .readDone _ _ => isTrue trivial

structure Tracked (s : HSSession) : Prop where
  buffer : s.sendBuffer.Ok
  ops : ∃ old, (∀ op ∈ old, op.closes < s.closes) ∧
    (s.writes = old ∨ ∃ op, s.writes = old ++ [op] ∧ op.closes = s.closes ∧
      s.handleSending = true ∧ op.offered.length ≤ s.sendBuffer.unsent.length)

theorem tracked_kept : Kept Tracked where
  buffer s h := h.buffer
  frame s s' h hb hw hf hc := by
    obtain ⟨hok, hops⟩ := h
    exact ⟨hb ▸ hok, by rwa [hb, hw, hf, hc]⟩
  enqueue s x h hx hfit := by
    obtain ⟨hok, hun, -⟩ := enqueue_ok h.buffer hx hfit
    obtain ⟨old, hold, hidle | ⟨op, hw, hcl, hf, hle⟩⟩ := h.ops
    · exact ⟨hok, old, hold, Or.inl hidle⟩
    · refine ⟨hok, old, hold, Or.inr ⟨op, hw, hcl, hf, ?_⟩⟩
      rw [hun, List.length_append]
      omega
  offer s h := by
    rw [HSSession.offer]
    split_ifs with hc
    · exact h
    · obtain ⟨old, hold, hw | ⟨op, -, -, hf, -⟩⟩ := h.ops
      · refine ⟨h.buffer, old, hold, Or.inr ⟨⟨s.sendBuffer.sentOffset, s.sendBuffer.unsent,
          s.closes⟩, ?_, rfl, rfl, le_rfl⟩⟩
        dsimp only
        rw [hw]
      · exact absurd (Or.inl hf) hc
  clear s h := by
    obtain ⟨old, hold, hw⟩ := h.ops
    refine ⟨h.buffer.clear, s.writes, fun op hop => ?_, Or.inl rfl⟩
    have hlt : op.closes ≤ s.closes := by
      rcases hw with hw | ⟨op', hw, hcl, -⟩
      · exact (hold op (hw ▸ hop)).le
      · rw [hw, List.mem_append, List.mem_singleton] at hop
        rcases hop with hop | rfl
        · exact (hold op hop).le
        · exact hcl.le
    exact Nat.lt_succ_of_le hlt

theorem Tracked.completed (h : Tracked s) {k : ℕ} {op : WriteOp} (hop : s.writes[k]? = some op) :
    (op.closes < s.closes ∧ Tracked { s with writes := s.writes.eraseIdx k }) ∨
      (op.closes = s.closes ∧ s.handleSending = true ∧
        op.offered.length ≤ s.sendBuffer.unsent.length ∧
        ∀ op ∈ s.writes.eraseIdx k, op.closes < s.closes) := by
  obtain ⟨old, hold, hw | ⟨cur, hw, hcl, hf, hle⟩⟩ := h.ops
  · left
    rw [hw] at hop ⊢
    exact ⟨hold op (List.mem_of_getElem? hop), h.buffer, old.eraseIdx k,
      fun o ho => hold o (List.mem_of_mem_eraseIdx ho), Or.inl rfl⟩
  · rw [hw] at hop ⊢
    by_cases hk : k < old.length
    · left
      rw [List.getElem?_append_left hk] at hop
      rw [List.eraseIdx_append_of_lt_length hk]
      exact ⟨hold op (List.mem_of_getElem? hop), h.buffer, old.eraseIdx k,
        fun o ho => hold o (List.mem_of_mem_eraseIdx ho), Or.inr ⟨cur, rfl, hcl, hf, hle⟩⟩
    · right
      have hklt := (List.getElem?_eq_some_iff.mp hop).1
      rw [List.length_append, List.length_singleton] at hklt
      obtain rfl : k = old.length := by omega
      rw [List.getElem?_concat_length] at hop
      obtain rfl := Option.some.inj hop
      rw [List.eraseIdx_append_of_length_le le_rfl, Nat.sub_self, List.eraseIdx_cons_zero,
        List.append_nil]
      exact ⟨hcl, hf, hle, hold⟩

theorem Tracked.fits (h : Tracked s) {e : SessionEvent} (hposs : s.Possible e)
    (hlate : LateFails s e) : Fits s e := by
  cases e with
  | send data => trivial
  | readDone k r => trivial
  | writeDone k r =>
    cases r with
    | failure v => trivial
    | success n =>
      obtain ⟨op, hop, hn⟩ := hposs
      have hcur := hlate op hop
      rcases h.completed hop with ⟨hlt, -⟩ | ⟨-, -, hle, -⟩
      · omega
      · have hsent := h.buffer.sent_le
        rw [HSSendBuffer.unsent_length] at hle
        change s.sendBuffer.sentOffset + n ≤ s.sendBuffer.inOffset
        omega

theorem Tracked.exec {fuel : ℕ} {m : Option ℕ} (h : Tracked s) {e : SessionEvent}
    (hposs : s.Possible e) (hlate : LateFails s e) :
    Ends (fun r => Tracked r.2) (· ≠ Fault.assertFailed) (s.exec w fuel m e) := by
  cases e with
  | send data => exact tracked_kept.stable.exec (fun _ hf => hf) h (by simp)
  | readDone k r => exact tracked_kept.stable.exec (fun _ hf => hf) h (by simp)
  | writeDone k r =>
    simp only [HSSession.exec]
    split
    · exact h
    · rename_i op hop
      refine Ends.bind (P := Tracked) ?_ fun s' hs' => hs'
      cases r with
      | success n =>
        obtain ⟨op', hop', hn⟩ := hposs
        obtain rfl : op = op' := Option.some.inj (hop.symm.trans hop')
        have hcur := hlate op hop
        obtain ⟨hlt, -⟩ | ⟨-, hf, hle, hold⟩ := h.completed hop
        · omega
        · rcases Nat.eq_zero_or_pos n with rfl | hpos
          · exact ⟨h.buffer, _, hold, Or.inl rfl⟩
          · have hres := @writeResult_success_sending w
              ({ s with writes := s.writes.eraseIdx k }.accept op (.success n)) h.buffer hf n hpos
              (hn.trans hle)
            exact Ends.of_eq hres ⟨(h.buffer.sent (hn.trans hle)).1, _, hold, Or.inl rfl⟩
      | failure v =>
        obtain ⟨hlt, hkept⟩ | ⟨hcur, hf, -, hold⟩ := h.completed hop
        · have hv : v ≠ 10035 := by
            rcases hlate op hop with hcur | hv
            · omega
            · exact hv
          exact tracked_kept.stable.writeResult_failure hkept hv
        · have hidle : Tracked { s with writes := s.writes.eraseIdx k } :=
            ⟨h.buffer, _, hold, Or.inl rfl⟩
          by_cases hv : v = 10035
          · rw [hv]
            have hres := @writeResult_wouldBlock_sending w
              { s with writes := s.writes.eraseIdx k } h.buffer hf
            exact Ends.of_eq hres ⟨h.buffer, _, hold, Or.inl rfl⟩
          · exact tracked_kept.stable.writeResult_failure hidle hv

/-- In runs whose completions fit, the offsets are in order and the assertion holds; it fails in
the first completion that does not fit. Late completions fit when they close the session again. -/
theorem sendOffsets_ordered {fuel recvLen sendLen : ℕ} (hlen : sendLen < 2 ^ 64)
    (recvMem sendMem : ℕ → UInt8) (handler : Option EventHandler) :
    (∀ es s, Run (Guarded Fits (Step w fuel))
        (opened recvLen sendLen recvMem sendMem handler).start es s →
      s.sendBuffer.sentOffset ≤ s.sendBuffer.inOffset ∧
      s.sendBuffer.inOffset ≤ s.sendBuffer.length ∧
      ∀ e m, s.Possible e →
        (Fits s e → s.exec w fuel m e ≠ .error .assertFailed) ∧
        (¬ Fits s e → sendLen < 2 ^ 63 → s.exec w fuel m e = .error .assertFailed)) ∧
    ∀ es s, Run (Guarded LateFails (Step w fuel))
        (opened recvLen sendLen recvMem sendMem handler).start es s →
      Run (Guarded Fits (Step w fuel)) (opened recvLen sendLen recvMem sendMem handler).start
        es s := by
  constructor
  · intro es s h
    have hb : Bounded sendLen s := by
      refine Run.invariant (bounded_opened hlen recvMem sendMem handler) ?_ h
      rintro s e s' hb ⟨hfit, -, m, m', hexec⟩
      exact (hb.exec hfit).result hexec
    refine ⟨hb.buffer.sent_le, hb.buffer.in_le, fun e m hposs => ⟨fun hfit herr => ?_, ?_⟩⟩
    · exact (hb.exec hfit).fault herr rfl
    · exact fun hfit hlt => hb.exec_assertFailed hlt hposs hfit
  · intro es s h
    refine (Run.refine (I := Tracked) ?_ ?_ h).1
    · exact ⟨HSSendBuffer.new_ok sendMem hlen, [], fun _ hop => (by cases hop), Or.inl rfl⟩
    · rintro s e s' ht ⟨hlate, hstep⟩
      obtain ⟨hposs, m, m', hexec⟩ := hstep
      exact ⟨(ht.exec hposs hlate).result hexec, ht.fits hposs hlate, hposs, m, m', hexec⟩

theorem sendOffsets_ordered_aborted :
    ∃ s : HSSession, s.sendBuffer.sentOffset ≤ s.sendBuffer.inOffset ∧ s.closes = 2 := by
  obtain ⟨s, hrun, hs⟩ := @run_of_foldlM .eight 0 LateFails _ _
    (opened 64 64 (fun _ => 0) (fun _ => 0) none).start
    [.send ⟨[1], by decide⟩, .readDone 0 (.failure 10054), .writeDone 0 (.failure 995)]
    (fun s => s.closes) 2 (by decide +kernel)
  obtain ⟨hfits, hlate⟩ := @sendOffsets_ordered .eight 0 64 64
    (by decide) (fun _ => 0) (fun _ => 0) none
  exact ⟨s, (hfits _ s (hlate _ s hrun)).1, hs⟩

theorem lateCompletion_assertFailed :
    ∃ s : HSSession, Run (Step .eight 0) (opened 64 64 (fun _ => 0) (fun _ => 0) none).start
      [.send ⟨[1], by decide⟩, .readDone 0 (.failure 10054)] s ∧
      s.Possible (.writeDone 0 (.success 13)) ∧
      s.exec .eight 0 none (.writeDone 0 (.success 13)) = .error .assertFailed := by
  obtain ⟨s, hrun, hs⟩ := @run_of_foldlM .eight 0 (fun _ _ => True) _ _
    (opened 64 64 (fun _ => 0) (fun _ => 0) none).start
    [.send ⟨[1], by decide⟩, .readDone 0 (.failure 10054)]
    (fun s => (decide (s.Possible (.writeDone 0 (.success 13))),
      (s.exec .eight 0 none (.writeDone 0 (.success 13))).map fun _ => ()))
    (true, .error .assertFailed) (by decide +kernel)
  obtain ⟨hposs, hexec⟩ := Prod.mk.inj hs
  exact ⟨s, hrun.of_guarded, of_decide_eq_true hposs, error_of_map hexec⟩

end HsCommon.HSSession
