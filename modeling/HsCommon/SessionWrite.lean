import HsCommon.Session

/-!
# The write path of a session

`handle_write` offers all unsent bytes to the socket unless a write is under way.
As long as nothing clears the session, the flag `handle_sending_` tells whether a
write is outstanding, what was offered stays in place while it is, and the socket
takes the appended packets in order. But `write_result` calls `handle_write` while
the flag is still set, so the bytes that a completion leaves over stay where they
are until the next `send`. And a completion that is delivered after `clear` counts
bytes that the buffer no longer holds.
-/

namespace HsCommon.HSSession
open Transition

variable {w : ULongWidth} {s : HSSession}

def offer (s : HSSession) : HSSession :=
  if s.handleSending = true ∨ s.sendBuffer.unsent = [] then s
  else
    { s with
      writes := s.writes ++ [⟨s.sendBuffer.sentOffset, s.sendBuffer.unsent, s.closes⟩]
      handleSending := true }

def enqueue (s : HSSession) (x : List UInt8) : HSSession :=
  { s with
    sendBuffer := { s.sendBuffer with toHSBuffer :=
      ((s.sendBuffer.put s.sendBuffer.inOffset x).dataIn x.length).2 }
    appended := s.appended ++ [x] }

theorem offer_sendBuffer (s : HSSession) : s.offer.sendBuffer = s.sendBuffer := by
  rw [offer]
  split_ifs <;> rfl

theorem offer_of_sending (h : s.handleSending = true) : s.offer = s := if_pos (Or.inl h)

theorem handleWrite_eq (h : s.sendBuffer.Ok) : s.handleWrite = .ok s.offer := by
  have hlen := s.sendBuffer.unsent_length
  simp only [handleWrite, offer, h.getCanSendSize_eq, bind, Except.bind, List.length_eq_zero_iff]
  by_cases hu : s.sendBuffer.unsent = []
  · rw [if_pos hu, if_pos (Or.inr hu)]
    rfl
  · rw [if_neg hu]
    by_cases hf : s.handleSending = true
    · rw [if_pos hf, if_pos (Or.inl hf)]
      rfl
    · rw [if_neg hf, if_neg (not_or.mpr ⟨hf, hu⟩), hlen]
      rfl

theorem enqueue_ok (h : s.sendBuffer.Ok) {x : List UInt8} (hx : x ≠ [])
    (hfit : x.length ≤ s.sendBuffer.length - s.sendBuffer.inOffset) :
    (s.enqueue x).sendBuffer.Ok ∧
      (s.enqueue x).sendBuffer.unsent = s.sendBuffer.unsent ++ x ∧
      (s.enqueue x).sendBuffer.sentOffset = s.sendBuffer.sentOffset := by
  obtain ⟨hok, hun, hoff, -⟩ := h.append hx hfit
  exact ⟨hok, hun, hoff⟩

theorem send_fits (h : s.sendBuffer.Ok) {data : List UInt8}
    (hsum : data.length + w.header < 2 ^ 64) :
    (s.send w data = .ok (false, s) ∧ hsNetPacketMaxSize < data.length + w.header) ∨
    (s.send w data = .ok (true, s.offer) ∧ data.length + w.header ≤ hsNetPacketMaxSize ∧
      s.sendBuffer.length - s.sendBuffer.inOffset < data.length + w.header) ∨
    ∃ x, IsEncoding w data x ∧ x.length ≤ s.sendBuffer.length - s.sendBuffer.inOffset ∧
      s.send w data = .ok (true, (s.enqueue x).offer) := by
  rcases encodePacket_fits h.fits hsum with
    ⟨he, hlong⟩ | ⟨he, hshort, hroom⟩ | ⟨m, x, he, henc, hfit, hput⟩
  · refine Or.inl ⟨?_, hlong⟩
    simp only [send, he]
    rfl
  · refine Or.inr (Or.inl ⟨?_, hshort, hroom⟩)
    simp only [send, he, bind, Except.bind, handleWrite_eq h]
    rfl
  · refine Or.inr (Or.inr ⟨x, henc, hfit, ?_⟩)
    have hok := (enqueue_ok h henc.ne_nil hfit).1
    obtain ⟨hbytes, hcount⟩ := h.put_end henc.ne_nil hfit
    have hs : s.countEncoded m x.length = s.enqueue x := by
      simp only [countEncoded, enqueue]
      rw [hput, hcount, if_pos rfl]
      congr 3
    simp only [send, he, bind, Except.bind, hs, handleWrite_eq hok]
    rfl

theorem send_cases (h : s.sendBuffer.Ok) {data : List UInt8} (hdata : data.length < 2 ^ 63) :
    s.send w data = .ok (false, s) ∨ s.send w data = .ok (true, s.offer) ∨
      ∃ x, IsEncoding w data x ∧ x.length ≤ s.sendBuffer.length - s.sendBuffer.inOffset ∧
        s.send w data = .ok (true, (s.enqueue x).offer) :=
  (send_fits h (w.add_header_lt hdata)).imp And.left (Or.imp_left And.left)

theorem writeResult_success (h : s.sendBuffer.Ok) {n : ℕ} (hpos : 0 < n)
    (hn : n ≤ s.sendBuffer.unsent.length) :
    s.writeResult w (.success n) = .ok
      { ({ s with sendBuffer := s.sendBuffer.sent n } : HSSession).offer with
        handleSending := false } := by
  obtain ⟨hok, -⟩ := h.sent hn
  have hwrite := @handleWrite_eq { s with sendBuffer := s.sendBuffer.sent n } hok
  simp only [writeResult, if_neg hpos.ne', hok.getCanSendSize_eq, bind, Except.bind]
  by_cases hu : (s.sendBuffer.sent n).unsent.length > 0
  · rw [if_pos hu, hwrite]
    rfl
  · have hnil : (s.sendBuffer.sent n).unsent = [] := List.length_eq_zero_iff.mp (by omega)
    rw [if_neg hu, offer, if_pos (Or.inr hnil)]
    rfl

theorem writeResult_wouldBlock (h : s.sendBuffer.Ok) :
    s.writeResult w (.failure 10035) = .ok { s.offer with handleSending := false } := by
  simp only [writeResult, handleError, if_true, handleWrite_eq h, bind, Except.bind]
  rfl

theorem writeResult_success_sending (h : s.sendBuffer.Ok) (hf : s.handleSending = true) {n : ℕ}
    (hpos : 0 < n) (hn : n ≤ s.sendBuffer.unsent.length) :
    s.writeResult w (.success n) =
      .ok { s with sendBuffer := s.sendBuffer.sent n, handleSending := false } := by
  have hsame := @offer_of_sending { s with sendBuffer := s.sendBuffer.sent n } hf
  rw [writeResult_success h hpos hn, hsame]

theorem writeResult_wouldBlock_sending (h : s.sendBuffer.Ok) (hf : s.handleSending = true) :
    s.writeResult w (.failure 10035) = .ok { s with handleSending := false } := by
  rw [writeResult_wouldBlock h, offer_of_sending hf]

def WriteEvent : SessionEvent → Prop
  | .send _ => True
  | .writeDone _ (.success _) => True
  | .writeDone _ (.failure errorValue) => errorValue = 10035
  | .readDone _ _ => False

instance : DecidablePred WriteEvent
  | .send _ => isTrue trivial
  | .writeDone _ (.success _) => isTrue trivial
  | .writeDone _ (.failure errorValue) => inferInstanceAs (Decidable (errorValue = 10035))
  | .readDone _ _ => isFalse id

def NonZero : SessionEvent → Prop
  | .writeDone _ (.success n) => 0 < n
  | _ => True

instance : DecidablePred NonZero
  | .writeDone _ (.success n) => inferInstanceAs (Decidable (0 < n))
  | .writeDone _ (.failure _) | .send _ | .readDone _ _ => isTrue trivial

/-- The flag says whether a write is outstanding; it has been offered a front part of the unsent
bytes. What the socket has taken and what is unsent are the appended packets. -/
structure Orderly (s : HSSession) : Prop where
  buffer : s.sendBuffer.Ok
  ops : (s.writes = [] ∧ s.handleSending = false) ∨
    ∃ op, s.writes = [op] ∧ s.handleSending = true ∧ op.offset = s.sendBuffer.sentOffset ∧
      op.offered ≠ [] ∧ op.offered <+: s.sendBuffer.unsent
  log : s.accepted ++ s.sendBuffer.unsent = s.appended.flatten

theorem orderly_opened {recvLen sendLen : ℕ} (hlen : sendLen < 2 ^ 64) (recvMem sendMem : ℕ → UInt8)
    (handler : Option EventHandler) :
    Orderly (opened recvLen sendLen recvMem sendMem handler) :=
  ⟨HSSendBuffer.new_ok sendMem hlen, Or.inl ⟨rfl, rfl⟩, rfl⟩

theorem Orderly.frame (h : Orderly s) {s' : HSSession} (hb : s'.sendBuffer = s.sendBuffer)
    (hw : s'.writes = s.writes) (hf : s'.handleSending = s.handleSending)
    (happ : s'.appended = s.appended) (hacc : s'.accepted = s.accepted) : Orderly s' where
  buffer := by
    rw [hb]
    exact h.buffer
  ops := by
    rw [hw, hf, hb]
    exact h.ops
  log := by
    rw [hacc, hb, happ]
    exact h.log

theorem Orderly.offer (h : Orderly s) : Orderly s.offer := by
  rw [HSSession.offer]
  split_ifs with hc
  · exact h
  · rw [not_or] at hc
    refine ⟨h.buffer, Or.inr ⟨⟨s.sendBuffer.sentOffset, s.sendBuffer.unsent, s.closes⟩, ?_, rfl,
      rfl, hc.2, List.prefix_rfl⟩, h.log⟩
    rcases h.ops with ⟨hw, -⟩ | ⟨-, -, hf, -⟩
    · simp only [hw, List.nil_append]
    · exact absurd hf hc.1

theorem Orderly.enqueue (h : Orderly s) {x : List UInt8} (hx : x ≠ [])
    (hfit : x.length ≤ s.sendBuffer.length - s.sendBuffer.inOffset) : Orderly (s.enqueue x) := by
  obtain ⟨hok, hun, hoff⟩ := enqueue_ok h.buffer hx hfit
  refine ⟨hok, ?_, ?_⟩
  · rcases h.ops with hidle | ⟨op, hw, hf, ho, hne, hpre⟩
    · exact Or.inl hidle
    · refine Or.inr ⟨op, hw, hf, ho.trans hoff.symm, hne, ?_⟩
      rw [hun]
      exact hpre.trans (List.prefix_append _ _)
  · rw [hun]
    change s.accepted ++ (s.sendBuffer.unsent ++ x) = (s.appended ++ [x]).flatten
    rw [← List.append_assoc, h.log, List.flatten_append]
    simp

theorem Orderly.outstanding (h : Orderly s) {op : WriteOp} (hw : s.writes = [op]) :
    op.offered ≠ [] ∧ op.offered <+: s.sendBuffer.unsent := by
  rcases h.ops with ⟨hnil, -⟩ | ⟨op', hw', -, -, hne, hpre⟩
  · rw [hnil] at hw
    cases hw
  · rw [hw] at hw'
    obtain rfl := List.singleton_inj.mp hw'
    exact ⟨hne, hpre⟩

def taken (s : HSSession) (op : WriteOp) (n : ℕ) : HSSession :=
  { s with
    writes := []
    accepted := s.accepted ++ op.offered.take n
    sendBuffer := s.sendBuffer.sent n
    handleSending := false }

theorem Orderly.taken (h : Orderly s) {op : WriteOp} {n : ℕ} (hw : s.writes = [op])
    (hn : n ≤ op.offered.length) :
    Orderly (s.taken op n) ∧ (s.taken op n).sendBuffer.unsent = s.sendBuffer.unsent.drop n := by
  have hpre := (h.outstanding hw).2
  obtain ⟨hok, hun⟩ := h.buffer.sent (hn.trans hpre.length_le)
  refine ⟨⟨hok, Or.inl ⟨rfl, rfl⟩, ?_⟩, hun⟩
  have htake : op.offered.take n = s.sendBuffer.unsent.take n := by
    obtain ⟨t, ht⟩ := hpre
    rw [← ht, List.take_append_of_le_length hn]
  change (s.accepted ++ op.offered.take n) ++ (s.sendBuffer.sent n).unsent = s.appended.flatten
  rw [htake, hun, List.append_assoc, List.take_append_drop]
  exact h.log

inductive WriteStep (w : ULongWidth) (s : HSSession) : SessionEvent → HSSession → Prop
  | refused (data : Payload) : WriteStep w s (.send data) s
  | noRoom (data : Payload) : WriteStep w s (.send data) s.offer
  | queued (data : Payload) (x : List UInt8) : IsEncoding w data.val x →
      x.length ≤ s.sendBuffer.length - s.sendBuffer.inOffset →
      WriteStep w s (.send data) (s.enqueue x).offer
  | taken (k : ℕ) (op : WriteOp) (n : ℕ) : s.writes = [op] → 0 < n → n ≤ op.offered.length →
      WriteStep w s (.writeDone k (.success n)) (s.taken op n)
  | empty (k : ℕ) (op : WriteOp) : s.writes = [op] →
      WriteStep w s (.writeDone k (.success 0)) { s with writes := [] }
  | wouldBlock (k : ℕ) (op : WriteOp) : s.writes = [op] →
      WriteStep w s (.writeDone k (.failure 10035)) { s with writes := [], handleSending := false }

theorem Orderly.exec (h : Orderly s) {e : SessionEvent} (he : WriteEvent e) (hposs : s.Possible e)
    (w : ULongWidth) (fuel : ℕ) :
    ∃ s', WriteStep w s e s' ∧ ∀ m, s.exec w fuel m e = .ok (m, s') := by
  cases e with
  | readDone k r => exact absurd he id
  | send data =>
    rcases send_cases (w := w) h.buffer data.property with hs | hs | ⟨x, henc, hfit, hs⟩
    · refine ⟨_, .refused data, fun m => ?_⟩
      simp only [HSSession.exec, hs]
      rfl
    · refine ⟨_, .noRoom data, fun m => ?_⟩
      simp only [HSSession.exec, hs]
      rfl
    · refine ⟨_, .queued data x henc hfit, fun m => ?_⟩
      simp only [HSSession.exec, hs]
      rfl
  | writeDone k r =>
    have hk : k < s.writes.length := by
      cases r with
      | success n =>
        obtain ⟨op, hop, -⟩ := hposs
        exact (List.getElem?_eq_some_iff.mp hop).1
      | failure v => exact hposs
    rcases h.ops with ⟨hnil, -⟩ | ⟨op, hw, hf, -, -, hpre⟩
    · rw [hnil] at hk
      exact absurd hk (Nat.not_lt_zero k)
    obtain rfl : k = 0 := by
      rw [hw, List.length_singleton] at hk
      omega
    have hop : s.writes[0]? = some op := by rw [hw, List.getElem?_cons_zero]
    have herase : s.writes.eraseIdx 0 = [] := by rw [hw, List.eraseIdx_cons_zero]
    cases r with
    | success n =>
      obtain ⟨op', hop', hle⟩ := hposs
      obtain rfl : op = op' := Option.some.inj (hop.symm.trans hop')
      rcases Nat.eq_zero_or_pos n with rfl | hpos
      · refine ⟨_, .empty 0 op hw, fun m => ?_⟩
        simp only [HSSession.exec, hop, herase, accept, writeResult, if_true, List.take_zero,
          List.append_nil]
        rfl
      · have hn := hle.trans hpre.length_le
        have hres := @writeResult_success_sending w ({ s with writes := [] }.accept op (.success n))
          h.buffer hf n hpos hn
        refine ⟨_, .taken 0 op n hw hpos hle, fun m => ?_⟩
        simp only [HSSession.exec, hop, herase, hres]
        rfl
    | failure v =>
      obtain rfl : v = 10035 := he
      have hres := @writeResult_wouldBlock_sending w { s with writes := [] } h.buffer hf
      refine ⟨_, .wouldBlock 0 op hw, fun m => ?_⟩
      simp only [HSSession.exec, hop, herase, accept, hres]
      rfl

theorem Orderly.writeStep (h : Orderly s) {fuel : ℕ} {e : SessionEvent} {s' : HSSession}
    (hstep : Step w fuel s e s') (he : WriteEvent e) : WriteStep w s e s' := by
  obtain ⟨hposs, m, m', hexec⟩ := hstep
  obtain ⟨s₁, hs₁, hall⟩ := h.exec he hposs w fuel
  rw [hall m] at hexec
  cases hexec
  exact hs₁

theorem Orderly.step (h : Orderly s) {e : SessionEvent} {s' : HSSession}
    (hstep : WriteStep w s e s') (he : NonZero e) : Orderly s' := by
  cases hstep with
  | refused data => exact h
  | noRoom data => exact h.offer
  | queued data x henc hfit => exact (h.enqueue henc.ne_nil hfit).offer
  | taken k op n hw _ hn => exact (h.taken hw hn).1
  | empty k op _ => exact absurd he (lt_irrefl 0)
  | wouldBlock k op _ => exact ⟨h.buffer, Or.inl ⟨rfl, rfl⟩, h.log⟩

def payload : SessionEvent → Option (List UInt8)
  | .send data => some data.val
  | _ => none

def Appends (w : ULongWidth) (es : List SessionEvent) (s : HSSession) : Prop :=
  ∃ datas, datas.Sublist (es.filterMap payload) ∧ List.Forall₂ (IsEncoding w) datas s.appended

theorem offer_appended (s : HSSession) : s.offer.appended = s.appended := by
  rw [offer]
  split_ifs <;> rfl

theorem Appends.step {es : List SessionEvent} (h : Appends w es s) {e : SessionEvent}
    {s' : HSSession} (hstep : WriteStep w s e s') : Appends w (es ++ [e]) s' := by
  obtain ⟨datas, hsub, henc⟩ := h
  have hmore : datas.Sublist ((es ++ [e]).filterMap payload) := by
    rw [List.filterMap_append]
    exact hsub.trans (List.sublist_append_left _ _)
  cases hstep with
  | queued data x hx _ =>
    refine ⟨datas ++ [data.val], ?_, ?_⟩
    · rw [List.filterMap_append]
      exact hsub.append (List.Sublist.refl _)
    · rw [offer_appended]
      exact List.rel_append henc (List.Forall₂.cons hx .nil)
  | noRoom data => exact ⟨datas, hmore, by rwa [offer_appended]⟩
  | _ => exact ⟨datas, hmore, henc⟩

/-- In runs of sends and completions that take some bytes or would block: no fault is in reach, at
most one write is outstanding, the range offered to it keeps its bytes, and the socket takes a
prefix of the appended packets, which are encodings of payloads in the order of the calls. -/
theorem writes_in_order {fuel recvLen sendLen : ℕ} (hlen : sendLen < 2 ^ 64)
    {recvMem sendMem : ℕ → UInt8} {handler : Option EventHandler} {es : List SessionEvent}
    (h : Run (Guarded (fun _ e => WriteEvent e ∧ NonZero e) (Step w fuel))
      (opened recvLen sendLen recvMem sendMem handler) es s) :
    (∀ e, WriteEvent e → s.Possible e → ∃ s', Step w fuel s e s') ∧ s.writes.length ≤ 1 ∧
      (∀ op ∈ s.writes, s.sendBuffer.bytes op.offset op.offered.length = op.offered) ∧
      (∃ datas, datas.Sublist (es.filterMap payload) ∧
        List.Forall₂ (IsEncoding w) datas s.appended) ∧
      s.accepted <+: s.appended.flatten := by
  have hinv : Orderly s ∧ Appends w es s := by
    refine Run.history (P := fun es s => Orderly s ∧ Appends w es s)
      ⟨orderly_opened hlen _ _ _, [], List.nil_sublist _, .nil⟩ ?_ h
    rintro es s e s' ⟨hord, happ⟩ ⟨⟨he, hpos⟩, hstep⟩
    have hcase := hord.writeStep hstep he
    exact ⟨hord.step hcase hpos, happ.step hcase⟩
  obtain ⟨hord, happ⟩ := hinv
  refine ⟨fun e he hposs => ?_, ?_, ?_, happ, ⟨s.sendBuffer.unsent, hord.log⟩⟩
  · obtain ⟨s', -, hall⟩ := hord.exec he hposs w fuel
    exact ⟨s', hposs, none, none, hall none⟩
  · rcases hord.ops with ⟨hw, -⟩ | ⟨op, hw, -⟩ <;> rw [hw] <;> simp
  · intro op hop
    rcases hord.ops with ⟨hw, -⟩ | ⟨op', hw, -, hoff, -, hpre⟩
    · rw [hw] at hop
      cases hop
    · rw [hw] at hop
      obtain rfl := List.mem_singleton.mp hop
      have hle := hpre.length_le
      rw [HSSendBuffer.unsent_length] at hle
      calc s.sendBuffer.bytes op.offset op.offered.length
          = s.sendBuffer.unsent.take op.offered.length := by
            rw [hoff, HSSendBuffer.unsent, HSBuffer.bytes_take _ _ hle]
        _ = op.offered := (List.prefix_iff_eq_take.mp hpre).symm

theorem writes_in_order_partial :
    ∃ s : HSSession,
      (∀ op ∈ s.writes, s.sendBuffer.bytes op.offset op.offered.length = op.offered) ∧
      s.accepted <+: s.appended.flatten ∧ s.accepted.length = 37 ∧ s.writes.length = 1 := by
  obtain ⟨s, hrun, hs⟩ := @run_of_foldlM .eight 0 (fun _ e => WriteEvent e ∧ NonZero e) _ _
    (opened 64 64 (fun _ => 0) (fun _ => 0) none)
    [.send ⟨[1], by decide⟩, .send ⟨[2, 3], by decide⟩, .writeDone 0 (.success 2),
      .send ⟨[4], by decide⟩, .writeDone 0 (.success 35), .send ⟨[5], by decide⟩]
    (fun s => (s.accepted.length, s.writes.length)) (37, 1) (by decide +kernel)
  obtain ⟨-, -, hrange, -, hpre⟩ := writes_in_order (by decide) hrun
  exact ⟨s, hrange, hpre, congrArg Prod.fst hs, congrArg Prod.snd hs⟩

def Awake (s : HSSession) : Prop := s.sendBuffer.getCanSendSize = .ok 0 ∨ s.writes ≠ []

def Full (s : HSSession) : SessionEvent → Prop
  | .writeDone _ (.success n) => s.sendBuffer.getCanSendSize = .ok n
  | .writeDone _ (.failure _) => False
  | _ => True

instance (s : HSSession) : DecidablePred (Full s)
  | .writeDone _ (.success n) => inferInstanceAs (Decidable (s.sendBuffer.getCanSendSize = .ok n))
  | .writeDone _ (.failure _) => isFalse id
  | .send _ | .readDone _ _ => isTrue trivial

theorem Orderly.awake_iff (h : Orderly s) : Awake s ↔ s.sendBuffer.unsent = [] ∨ s.writes ≠ [] := by
  rw [Awake, h.buffer.getCanSendSize_eq, Except.ok.injEq, List.length_eq_zero_iff]

theorem Orderly.full_iff (h : Orderly s) {k n : ℕ} :
    Full s (.writeDone k (.success n)) ↔ n = s.sendBuffer.unsent.length := by
  rw [Full, h.buffer.getCanSendSize_eq, Except.ok.injEq, eq_comm]

theorem Orderly.awake_offer (h : Orderly s) : Awake s.offer := by
  rw [h.offer.awake_iff, offer_sendBuffer, HSSession.offer]
  split_ifs with hc
  · rcases hc with hf | hu
    · rcases h.ops with ⟨-, hidle⟩ | ⟨op, hw, -⟩
      · rw [hidle] at hf
        cases hf
      · exact Or.inr (by rw [hw]; exact List.cons_ne_nil _ _)
    · exact Or.inl hu
  · exact Or.inr (List.append_ne_nil_of_right_ne_nil _ (List.cons_ne_nil _ _))

theorem Orderly.unsent_ne_nil (h : Orderly s) {op : WriteOp} (hw : s.writes = [op]) :
    s.sendBuffer.unsent ≠ [] :=
  (h.outstanding hw).2.ne_nil (h.outstanding hw).1

theorem Orderly.awake_step (h : Orderly s) (ha : Awake s) {e : SessionEvent} {s' : HSSession}
    (hstep : WriteStep w s e s') : Awake s' ↔ Full s e := by
  cases hstep with
  | refused data => exact ⟨fun _ => trivial, fun _ => ha⟩
  | noRoom data => exact ⟨fun _ => trivial, fun _ => h.awake_offer⟩
  | queued data x henc hfit =>
    exact ⟨fun _ => trivial, fun _ => (h.enqueue henc.ne_nil hfit).awake_offer⟩
  | taken k op n hw hpos hn =>
    obtain ⟨hord, hun⟩ := h.taken hw hn
    have hle := hn.trans (h.outstanding hw).2.length_le
    rw [hord.awake_iff, h.full_iff, hun, List.drop_eq_nil_iff]
    constructor
    · rintro (hall | hne)
      · omega
      · exact absurd rfl hne
    · intro hall
      exact Or.inl hall.ge
  | empty k op hw =>
    have hne := List.length_pos_iff.mpr (h.unsent_ne_nil hw)
    rw [h.full_iff, Awake, h.buffer.getCanSendSize_eq, Except.ok.injEq]
    constructor
    · rintro (hnil | hne)
      · exact hnil.symm
      · exact absurd rfl hne
    · intro hall
      exact Or.inl hall.symm
  | wouldBlock k op hw =>
    have hne := h.unsent_ne_nil hw
    rw [Awake, h.buffer.getCanSendSize_eq, Except.ok.injEq, List.length_eq_zero_iff]
    constructor
    · rintro (hnil | hne')
      · exact hne hnil
      · exact hne' rfl
    · exact False.elim

theorem Orderly.nonZero (h : Orderly s) {e : SessionEvent} {s' : HSSession}
    (hstep : WriteStep w s e s') (hfull : Full s e) : NonZero e := by
  cases hstep with
  | taken k op n _ hpos _ => exact hpos
  | empty k op hw =>
    rw [h.full_iff] at hfull
    exact absurd (List.length_eq_zero_iff.mp hfull.symm) (h.unsent_ne_nil hw)
  | _ => trivial

/-- The runs of sends and completions in which no wakeup is lost are the runs in which each
completion takes all bytes that are unsent by then. -/
theorem awake_runs {fuel recvLen sendLen : ℕ} (hlen : sendLen < 2 ^ 64)
    {recvMem sendMem : ℕ → UInt8} {handler : Option EventHandler} {es : List SessionEvent}
    {s : HSSession} :
    Run (Keeping Awake (Guarded (fun _ e => WriteEvent e) (Step w fuel)))
        (opened recvLen sendLen recvMem sendMem handler) es s ↔
      Run (Guarded (fun s e => WriteEvent e ∧ Full s e) (Step w fuel))
        (opened recvLen sendLen recvMem sendMem handler) es s := by
  have h₀ : Orderly (opened recvLen sendLen recvMem sendMem handler) ∧
      Awake (opened recvLen sendLen recvMem sendMem handler) :=
    ⟨orderly_opened hlen _ _ _, (orderly_opened hlen _ _ _).awake_iff.mpr (Or.inl rfl)⟩
  refine Run.refine_iff (I := fun s => Orderly s ∧ Awake s) h₀ ?_
  intro s e s' hI
  obtain ⟨hord, ha⟩ := hI
  constructor
  · constructor
    · intro hs
      obtain ⟨⟨he, hstep⟩, ha'⟩ := hs
      exact ⟨⟨he, (hord.awake_step ha (hord.writeStep hstep he)).mp ha'⟩, hstep⟩
    · intro hs
      obtain ⟨⟨he, hfull⟩, hstep⟩ := hs
      exact ⟨⟨he, hstep⟩, (hord.awake_step ha (hord.writeStep hstep he)).mpr hfull⟩
  · intro hs
    obtain ⟨⟨he, hfull⟩, hstep⟩ := hs
    have hcase := hord.writeStep hstep he
    exact ⟨hord.step hcase (hord.nonZero hcase hfull), (hord.awake_step ha hcase).mpr hfull⟩

theorem awake_runs_full :
    ∃ s : HSSession, Run (Keeping Awake (Guarded (fun _ e => WriteEvent e) (Step .eight 0)))
      (opened 64 64 (fun _ => 0) (fun _ => 0) none)
      [.send ⟨[1], by decide⟩, .writeDone 0 (.success 13), .send ⟨[2, 3], by decide⟩] s ∧
        s.writes.length = 1 := by
  obtain ⟨s, hrun, hs⟩ := @run_of_foldlM .eight 0 (fun s e => WriteEvent e ∧ Full s e) _ _
    (opened 64 64 (fun _ => 0) (fun _ => 0) none)
    [.send ⟨[1], by decide⟩, .writeDone 0 (.success 13), .send ⟨[2, 3], by decide⟩]
    (fun s => s.writes.length) 1 (by decide +kernel)
  exact ⟨s, (awake_runs (by decide)).mpr hrun, hs⟩

theorem partialWrite_asleep :
    ∃ s : HSSession, Run (Guarded (fun _ e => WriteEvent e) (Step .eight 0))
      (opened 64 64 (fun _ => 0) (fun _ => 0) none)
      [.send ⟨[1], by decide⟩, .writeDone 0 (.success 5)] s ∧ ¬ Awake s := by
  obtain ⟨s, hrun, hs⟩ := @run_of_foldlM .eight 0 (fun _ e => WriteEvent e) _ _
    (opened 64 64 (fun _ => 0) (fun _ => 0) none)
    [.send ⟨[1], by decide⟩, .writeDone 0 (.success 5)]
    (fun s => (s.sendBuffer.getCanSendSize, s.writes.length)) (.ok 8, 0) (by decide +kernel)
  obtain ⟨hsize, hops⟩ := Prod.mk.inj hs
  refine ⟨s, hrun, ?_⟩
  rintro (hnone | hne)
  · rw [hsize] at hnone
    cases hnone
  · exact hne (List.length_eq_zero_iff.mp hops)

end HsCommon.HSSession
