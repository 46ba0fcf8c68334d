import HsCommon.SessionClear

/-!
# What send reports

`send` returns false for data that is too long and true for any other. True is
also the answer when the send buffer has no room: the packet was to be put off and
tried again, but nobody keeps it.
-/

namespace HsCommon.HSSession
open Transition Outcome

variable {w : ULongWidth} {fuel : ℕ} {s s' s₀ : HSSession} {data : List UInt8}

def Buffered (s : HSSession) : Prop := s.sendBuffer.Ok

theorem buffered_kept : Kept Buffered where
  buffer s h := h
  frame s s' h hb _ _ _ := by
    rw [Buffered, hb]
    exact h
  enqueue s x h hx hfit := (enqueue_ok h hx hfit).1
  offer s h := by
    rw [Buffered, offer_sendBuffer]
    exact h
  clear s h := HSSendBuffer.Ok.clear h

theorem sent_ok {b : HSSendBuffer} (h : b.Ok) {n size : ℕ}
    (hsize : (b.sent n).getCanSendSize = .ok size) : (b.sent n).Ok := by
  have hsent : (b.sent n).sentOffset ≤ (b.sent n).inOffset := by
    by_contra hlt
    rw [HSSendBuffer.getCanSendSize, if_neg hlt] at hsize
    cases hsize
  have hin := h.in_le
  simp only [HSSendBuffer.sent] at hsent ⊢
  split_ifs at hsent ⊢
  · exact ⟨h.some, le_rfl, Nat.zero_le _, h.length_lt, h.reset⟩
  · exact ⟨h.some, hsent, hin, h.length_lt, h.reset⟩

theorem Buffered.writeResult (h : Buffered s) (result : Completion ℕ) :
    Ends Buffered (fun _ => True) (s.writeResult w result) := by
  cases result with
  | success n =>
    simp only [HSSession.writeResult]
    refine Ends.ite (fun _ => h) fun _ => ?_
    cases hsize : (s.sendBuffer.sent n).getCanSendSize with
    | error f => trivial
    | ok size =>
      have hok : Buffered { s with sendBuffer := s.sendBuffer.sent n } := sent_ok h hsize
      simp only [bind, Except.bind, handleWrite_eq hok]
      split_ifs
      · exact buffered_kept.offer _ hok
      · exact hok
  | failure v =>
    by_cases hv : v = 10035
    · rw [hv, writeResult_wouldBlock h]
      exact buffered_kept.offer s h
    · exact buffered_kept.stable.writeResult_failure h hv

theorem Buffered.exec (h : Buffered s) {m : Option ℕ} (e : SessionEvent) :
    Ends (fun r => Buffered r.2) (fun _ => True) (s.exec w fuel m e) := by
  cases e with
  | send data => exact buffered_kept.stable.exec (fun _ _ => trivial) h (by simp)
  | readDone k r => exact buffered_kept.stable.exec (fun _ _ => trivial) h (by simp)
  | writeDone k r =>
    simp only [HSSession.exec]
    split
    · exact h
    · rename_i op hop
      refine Ends.bind (P := Buffered) (Buffered.writeResult ?_ r) fun s' hs' => hs'
      cases r <;> exact h

/-- The states between the events of a run and those in which an event handler called by one of
them finds the session. When it is called, everything but the send buffer may be as it likes. -/
inductive Reachable (w : ULongWidth) (fuel : ℕ) (s₀ : HSSession) : HSSession → Prop
  | run {es : List SessionEvent} {s : HSSession} :
      Run (Step w fuel) s₀ es s → Reachable w fuel s₀ s
  | called {s s' : HSSession} :
      Reachable w fuel s₀ s → s'.sendBuffer = s.sendBuffer → Reachable w fuel s₀ s'
  | acted {s s' : HSSession} {a : Action} :
      Reachable w fuel s₀ s → runAction w s a = .ok s' → Reachable w fuel s₀ s'

theorem Reachable.buffered (h₀ : Buffered s₀) (h : Reachable w fuel s₀ s) : Buffered s := by
  induction h with
  | run hrun =>
    refine Run.invariant h₀ ?_ hrun
    intro s e s' hs hstep
    obtain ⟨-, m, m', hexec⟩ := hstep
    exact (hs.exec e).result hexec
  | called _ hsame ih =>
    rw [Buffered, hsame]
    exact ih
  | @acted s s' a _ ha ih =>
    have hends : Ends Buffered (fun _ => True) (HSSession.runAction w s a) :=
      buffered_kept.stable.runAction ih a
    exact hends.result ha

/-- `send` returns true just when the whole packet has been put after the unsent bytes, and when it
returns false these are as they were. -/
def Reports (w : ULongWidth) (data : List UInt8) (s : HSSession) : Prop :=
  ∃ r s', s.send w data = .ok (r, s') ∧
    (r = true ↔ ∃ x, IsEncoding w data x ∧
      s'.sendBuffer.unsent = s.sendBuffer.unsent ++ x) ∧
    (r = false → s'.sendBuffer.unsent = s.sendBuffer.unsent)

theorem not_appended (h : s'.sendBuffer = s.sendBuffer) :
    ¬ ∃ x, IsEncoding w data x ∧ s'.sendBuffer.unsent = s.sendBuffer.unsent ++ x := by
  rintro ⟨x, henc, hun⟩
  rw [h] at hun
  exact henc.ne_nil (List.append_right_eq_self.mp hun.symm)

theorem reports_tooLong (hlong : hsNetPacketMaxSize < sizeAdd data.length w.header) :
    Reports w data s := by
  have hs : s.send w data = .ok (false, s) := by
    simp only [send, encodePacket, if_pos hlong]
    rfl
  exact ⟨false, s, hs, iff_of_false (by decide) (not_appended rfl), fun _ => rfl⟩

theorem not_reports_noRoom (hb : Buffered s)
    (hshort : sizeAdd data.length w.header ≤ hsNetPacketMaxSize)
    (hroom : s.sendBuffer.length - s.sendBuffer.inOffset < data.length + w.header) :
    ¬ Reports w data s := by
  rw [← HSBuffer.getLeftInSize_eq hb.in_le hb.length_lt] at hroom
  intro hreports
  obtain ⟨r, s', hs, hiff, -⟩ := hreports
  have hcases :=
    @encodePacket_noRoom w data s.sendBuffer.buffer s.sendBuffer.inOffset _ hshort hroom
  rcases hcases with he | ⟨f, he⟩
  · simp only [send, he, bind, Except.bind, handleWrite_eq hb] at hs
    cases hs
    exact not_appended (offer_sendBuffer s) (hiff.mp rfl)
  · simp only [send, he] at hs
    cases hs

theorem reports_appended (hb : Buffered s)
    (hshort : sizeAdd data.length w.header ≤ hsNetPacketMaxSize)
    (hfit : data.length + w.header ≤ s.sendBuffer.length - s.sendBuffer.inOffset) :
    Reports w data s := by
  have hlt := hb.length_lt
  have hsum : data.length + w.header < 2 ^ 64 := by omega
  rw [sizeAdd_eq hsum] at hshort
  rcases send_fits hb hsum with ⟨-, hlong⟩ | ⟨-, -, hroom⟩ | ⟨x, henc, hx, hs⟩
  · omega
  · omega
  · refine ⟨true, _, hs, iff_of_true rfl ⟨x, henc, ?_⟩, fun hr => by cases hr⟩
    rw [offer_sendBuffer]
    exact (enqueue_ok hb henc.ne_nil hx).2.1

/-- The answer is right just when the packet is too long for any buffer, or fits the free tail of
this one. -/
theorem send_reports_iff {recvLen sendLen : ℕ} (hlen : sendLen < 2 ^ 64)
    {recvMem sendMem : ℕ → UInt8} {handler : Option EventHandler}
    (h : Reachable w fuel (opened recvLen sendLen recvMem sendMem handler).start s)
    (data : List UInt8) :
    Reports w data s ↔
      hsNetPacketMaxSize < sizeAdd data.length w.header ∨
        data.length + w.header ≤ s.sendBuffer.length - s.sendBuffer.inOffset := by
  have h₀ : Buffered (opened recvLen sendLen recvMem sendMem handler).start :=
    HSSendBuffer.new_ok sendMem hlen
  have hb := h.buffered h₀
  by_cases hlong : hsNetPacketMaxSize < sizeAdd data.length w.header
  · exact iff_of_true (reports_tooLong hlong) (Or.inl hlong)
  · have hshort := not_lt.mp hlong
    by_cases hfit : data.length + w.header ≤ s.sendBuffer.length - s.sendBuffer.inOffset
    · exact iff_of_true (reports_appended hb hshort hfit) (Or.inr hfit)
    · exact iff_of_false (not_reports_noRoom hb hshort (not_le.mp hfit)) (not_or.mpr ⟨hlong, hfit⟩)

theorem send_reports_third :
    ∃ s : HSSession, Run (Step .eight 0) (opened 64 64 (fun _ => 0) (fun _ => 0) none).start
        [.send ⟨[1], by decide⟩, .send ⟨[2], by decide⟩, .writeDone 0 (.success 13)] s ∧
      Reports .eight [3] s := by
  obtain ⟨s, hrun, hs⟩ := @run_of_foldlM .eight 0 (fun _ _ => True) _ _
    (opened 64 64 (fun _ => 0) (fun _ => 0) none).start
    [.send ⟨[1], by decide⟩, .send ⟨[2], by decide⟩, .writeDone 0 (.success 13)]
    (fun s => s.sendBuffer.length - s.sendBuffer.inOffset) 38 (by decide +kernel)
  refine ⟨s, hrun.of_guarded, (@send_reports_iff .eight 0 s 64 64 (by decide) _ _ none
    (.run hrun.of_guarded) [3]).mpr (Or.inr ?_)⟩
  rw [hs]
  decide

theorem send_loses :
    ∃ s s' : HSSession,
      Run (Step .eight 0) (opened 64 64 (fun _ => 0) (fun _ => 0) none).start
        [.send ⟨List.replicate 52 1, by decide⟩] s ∧
      s.send .eight [2] = .ok (true, s') ∧ s'.sendBuffer.unsent = s.sendBuffer.unsent ∧
      ¬ Reports .eight [2] s := by
  obtain ⟨s, hrun, hs⟩ := @run_of_foldlM .eight 0 (fun _ _ => True) _ _
    (opened 64 64 (fun _ => 0) (fun _ => 0) none).start
    [.send ⟨List.replicate 52 1, by decide⟩]
    (fun s => ((s.sendBuffer.length - s.sendBuffer.inOffset, s.sendBuffer.unsent),
      (s.send .eight [2]).map fun r => (r.1, r.2.sendBuffer.unsent)))
    ((0, encoding .eight (List.replicate 52 1) [0, 0, 0, 0]),
      .ok (true, encoding .eight (List.replicate 52 1) [0, 0, 0, 0])) (by decide +kernel)
  simp only [Prod.mk.injEq] at hs
  obtain ⟨⟨hroom, hun⟩, hsend⟩ := hs
  obtain ⟨⟨r, s'⟩, hsend, hsame⟩ := exists_ok_of_map hsend
  obtain ⟨rfl, hsame⟩ := Prod.mk.inj hsame
  refine ⟨s, s', hrun.of_guarded, hsend, hsame.trans hun.symm, ?_⟩
  intro hreports
  obtain ⟨r, s₁, hs₁, hiff, -⟩ := hreports
  rw [hsend] at hs₁
  cases hs₁
  obtain ⟨x, henc, hx⟩ := hiff.mp rfl
  rw [hsame, ← hun] at hx
  exact henc.ne_nil (List.append_right_eq_self.mp hx.symm)

end HsCommon.HSSession
