import HsCommon.Buffer
import HsCommon.Library.Windows
import HsCommon.Library.Runs
import HsCommon.Library.Outcome

/-!
# The buffers as queues of bytes

Through its own operations either buffer is a queue: `DataIn` appends, `DataUse` and
`Sent` drop from the front, and neither the flag that says whether a used-up buffer
starts over nor the move to the beginning shows.
-/

namespace HsCommon
open Transition Outcome

inductive BufferOp
  | dataIn (dataLen : ℕ)
  | dataInFrom (data : List UInt8)
  | dataOut (outDataLen : ℕ)
  | dataOutTo (outDataLen : ℕ)

inductive RecvOp
  | base (op : BufferOp)
  | dataUse (len : ℕ) (check : Bool)
  | moveUnuseData2Begin
  | setUsedOutReset (reset : Bool)
  | clear

inductive SendOp
  | base (op : BufferOp)
  | sent (length : ℕ) (check : Bool)
  | setSentOutReset (reset : Bool)
  | clear

/-- `none` is the return value false; with true come the bytes copied out, if any. -/
abbrev Answer := Option (List UInt8)

def answer (ok : Bool) : Answer := if ok then some [] else none

def HSBuffer.exec (b : HSBuffer) : BufferOp → Except Fault (Answer × HSBuffer)
  | .dataIn dataLen => .ok (answer (b.dataIn dataLen).1, (b.dataIn dataLen).2)
  | .dataInFrom data => do
    let (ok, b) ← b.dataInFrom data
    return (answer ok, b)
  | .dataOut outDataLen => .ok (answer (b.dataOut outDataLen).1, (b.dataOut outDataLen).2)
  | .dataOutTo outDataLen => b.dataOutTo outDataLen

def HSRecvBuffer.exec (b : HSRecvBuffer) : RecvOp → Except Fault (Answer × HSRecvBuffer)
  | .base op => do
    let (a, base) ← b.toHSBuffer.exec op
    return (a, { b with toHSBuffer := base })
  | .dataUse len check => .ok (answer (b.dataUse len check).1, (b.dataUse len check).2)
  | .moveUnuseData2Begin => .ok (answer true, b.moveUnuseData2Begin)
  | .setUsedOutReset reset => .ok (answer true, b.setUsedOutReset reset)
  | .clear => .ok (answer true, b.clear false)

def HSSendBuffer.exec (b : HSSendBuffer) : SendOp → Except Fault (Answer × HSSendBuffer)
  | .base op => do
    let (a, base) ← b.toHSBuffer.exec op
    return (a, { b with toHSBuffer := base })
  | .sent length false => .ok (answer true, b.sent length)
  | .sent length true => do
    let (ok, b) ← b.sentChecked length
    return (answer ok, b)
  | .setSentOutReset reset => .ok (answer true, b.setSentOutReset reset)
  | .clear => .ok (answer true, b.clear false)

def noted {β ω : Type} (exec : β → ω → Except Fault (Answer × β))
    (note : β → ω → Answer → List UInt8 → List UInt8) (s : β × List UInt8) (op : ω) :
    Except Fault (β × List UInt8) := do
  let (a, b) ← exec s.1 op
  return (b, note s.1 op a s.2)

theorem noted_eq {β ω : Type} {exec : β → ω → Except Fault (Answer × β)}
    {note : β → ω → Answer → List UInt8 → List UInt8} {s : β × List UInt8} {op : ω} {a : Answer}
    {b : β} (h : exec s.1 op = .ok (a, b)) : noted exec note s op = .ok (b, note s.1 op a s.2) := by
  rw [noted, h]
  rfl

theorem noted_run {β ω : Type} {exec : β → ω → Except Fault (Answer × β)}
    {note : β → ω → Answer → List UInt8 → List UInt8} {can : β × List UInt8 → ω → Prop}
    {I : β → List UInt8 → Prop}
    (hexec : ∀ b q op, I b q → can (b, q) op →
      ∃ a b', exec b op = .ok (a, b') ∧ I b' (note b op a q))
    {s₀ s : β × List UInt8} (h₀ : I s₀.1 s₀.2) {ops : List ω}
    (h : Run (Guarded can fun s op s' => noted exec note s op = .ok s') s₀ ops s) : I s.1 s.2 := by
  refine Run.invariant (P := fun s => I s.1 s.2) h₀ ?_ h
  intro s op s' hs hstep
  obtain ⟨hcan, hnoted⟩ := hstep
  obtain ⟨a, b', hop, hkept⟩ := hexec s.1 s.2 op hs hcan
  rw [noted_eq hop] at hnoted
  cases hnoted
  exact hkept

def BufferOp.onQueue (a : Answer) (q : List UInt8) : BufferOp → List UInt8
  | .dataInFrom data => if a.isSome then q ++ data else q
  | _ => q

def RecvOp.onQueue (a : Answer) (q : List UInt8) : RecvOp → List UInt8
  | .base op => op.onQueue a q
  | .dataUse len _ => q.drop len
  | .clear => []
  | _ => q

def SendOp.onQueue (a : Answer) (q : List UInt8) : SendOp → List UInt8
  | .base op => op.onQueue a q
  | .sent length _ => q.drop length
  | .clear => []
  | _ => q

def HSBuffer.Takes (b : HSBuffer) : BufferOp → Prop
  | .dataInFrom data => b.inOffset + data.length < 2 ^ 64
  | _ => False

instance (b : HSBuffer) : DecidablePred b.Takes
  | .dataInFrom data => inferInstanceAs (Decidable (b.inOffset + data.length < 2 ^ 64))
  | .dataIn _ | .dataOut _ | .dataOutTo _ => isFalse id

namespace HSBuffer
variable {b : HSBuffer}

def cells (b : HSBuffer) : ℕ → UInt8 := b.buffer.getD fun _ => 0

theorem Fits.rewind (h : b.Fits) {n k : ℕ} (hn : n ≤ b.inOffset) :
    Fits { b with inOffset := n, outOffset := k } :=
  ⟨h.some, hn.trans h.in_le, h.length_lt⟩

theorem put_cells (h : b.Fits) {xs : List UInt8} (hx : b.inOffset + xs.length ≤ b.length) :
    (b.put b.inOffset xs).cells = Cells.write b.cells b.inOffset xs := by
  cases hb : b.buffer with
  | some m => simp only [put, cells, hb, Option.map_some, Option.getD_some]
  | none =>
    have hzero : ¬ 0 < b.length := by
      intro hpos
      have hsome := h.some hpos
      rw [hb] at hsome
      cases hsome
    obtain rfl : xs = [] := List.length_eq_zero_iff.mp (by omega)
    have hsame : Cells.write b.cells b.inOffset [] = b.cells := Cells.write_read b.cells _ 0
    rw [put_nil, hsame]

theorem Fits.put_end (h : b.Fits) {start : ℕ} {q data : List UInt8}
    (hq : Cells.Holds b.cells start b.inOffset q) (hfit : b.inOffset + data.length ≤ b.length) :
    Fits { b.put b.inOffset data with inOffset := b.inOffset + data.length } ∧
      Cells.Holds (b.put b.inOffset data).cells start (b.inOffset + data.length) (q ++ data) := by
  refine ⟨⟨fun hpos => ?_, hfit, h.length_lt⟩, ?_⟩
  · have hsome := h.some hpos
    simpa [put] using hsome
  · rw [put_cells h hfit]
    exact hq.append data

theorem Fits.dataInFrom_eq (h : b.Fits) {data : List UInt8}
    (hwrap : b.inOffset + data.length < 2 ^ 64) :
    b.dataInFrom data =
      if b.inOffset + data.length ≤ b.length then
        .ok (true, { b.put b.inOffset data with inOffset := b.inOffset + data.length })
      else .ok (false, b) := by
  rw [dataInFrom, sizeAdd_eq hwrap]
  by_cases hfit : b.inOffset + data.length ≤ b.length
  · have hnull : ¬ (b.buffer.isNone ∧ data ≠ []) := by
      intro hn
      have hpos := List.length_pos_iff.mpr hn.2
      have hsome := h.some (by omega)
      rw [Option.isNone_iff_eq_none.mp hn.1] at hsome
      cases hsome
    rw [if_neg (by omega), if_neg hnull, if_neg (by omega), if_pos hfit]
  · rw [if_pos (by omega), if_neg hfit]

theorem Fits.exec (h : b.Fits) {start : ℕ} {q : List UInt8}
    (hq : Cells.Holds b.cells start b.inOffset q) {op : BufferOp} (hop : b.Takes op) :
    ∃ a b', b.exec op = .ok (a, b') ∧ b'.Fits ∧
      Cells.Holds b'.cells start b'.inOffset (op.onQueue a q) ∧ (a = none → b' = b) := by
  cases op with
  | dataInFrom data =>
    have hin := h.dataInFrom_eq hop
    by_cases hfit : b.inOffset + data.length ≤ b.length
    · rw [if_pos hfit] at hin
      obtain ⟨hfits, hholds⟩ := h.put_end hq hfit
      refine ⟨Option.some [], _, ?_, hfits, hholds, fun hnone => by cases hnone⟩
      simp only [HSBuffer.exec, hin]
      rfl
    · rw [if_neg hfit] at hin
      refine ⟨none, b, ?_, h, hq, fun _ => rfl⟩
      simp only [HSBuffer.exec, hin]
      rfl
  | dataIn dataLen => exact absurd hop id
  | dataOut outDataLen => exact absurd hop id
  | dataOutTo outDataLen => exact absurd hop id

end HSBuffer

namespace HSRecvBuffer
variable {b : HSRecvBuffer} {q : List UInt8}

/-- The bytes between the offsets are the queue. -/
structure Queued (b : HSRecvBuffer) (q : List UInt8) : Prop where
  fits : b.Fits
  holds : Cells.Holds b.cells b.inUsedOffset b.inOffset q

def Queueing (s : HSRecvBuffer × List UInt8) : RecvOp → Prop
  | .base op => s.1.Takes op
  | .dataUse len _ => s.1.inUsedOffset + len ≤ s.1.inOffset
  | _ => True

instance (s : HSRecvBuffer × List UInt8) : DecidablePred (Queueing s)
  | .base op => inferInstanceAs (Decidable (s.1.Takes op))
  | .dataUse len _ => inferInstanceAs (Decidable (s.1.inUsedOffset + len ≤ s.1.inOffset))
  | .moveUnuseData2Begin | .setUsedOutReset _ | .clear => isTrue trivial

def onQueue (s : HSRecvBuffer × List UInt8) (op : RecvOp) :
    Except Fault (HSRecvBuffer × List UInt8) :=
  noted exec (fun _ op a q => op.onQueue a q) s op

theorem Queued.unread (h : b.Queued q) : b.unread = q := h.holds.read

theorem Queued.getCanUseSize (h : b.Queued q) : b.getCanUseSize = q.length := by
  have hin := h.fits.in_le
  rw [h.holds.length]
  exact sizeSub_eq h.holds.le (lt_of_le_of_lt hin h.fits.length_lt)

theorem Queued.dataUse (h : b.Queued q) {len : ℕ} (hlen : len ≤ q.length) (check : Bool) :
    (b.dataUse len check).1 = true ∧ (b.dataUse len check).2.Queued (q.drop len) := by
  have hin := h.fits.in_le
  have hle := h.holds.le
  have hlt := h.fits.length_lt
  have hcan : b.canUse len = true := by
    have hsize := h.getCanUseSize
    rw [HSRecvBuffer.getCanUseSize] at hsize
    simp only [canUse, hsize, Bool.not_eq_true', decide_eq_false_iff_not]
    omega
  have hq := h.holds.length
  have hadd : sizeAdd b.inUsedOffset len = b.inUsedOffset + len := sizeAdd_eq (by omega)
  have hdrop := h.holds.drop hlen
  simp only [HSRecvBuffer.dataUse, hcan, Bool.not_true, Bool.and_false, Bool.false_eq_true,
    if_false, hadd]
  by_cases hend : b.inUsedOffset + len = b.inOffset ∧ b.usedOutReset = true
  · rw [if_pos hend]
    refine ⟨rfl, h.fits.rewind (Nat.zero_le _), ?_⟩
    rw [hdrop.eq_nil hend.1]
    exact Cells.holds_nil _ 0
  · rw [if_neg hend]
    exact ⟨rfl, h.fits, hdrop⟩

theorem Queued.moveUnuseData2Begin (h : b.Queued q) : b.moveUnuseData2Begin.Queued q := by
  rw [HSRecvBuffer.moveUnuseData2Begin]
  by_cases hlt : b.inUsedOffset < b.inOffset
  · rw [if_pos hlt]
    have hin := h.fits.in_le
    obtain ⟨m, hm⟩ := Option.isSome_iff_exists.mp (h.fits.some (by omega))
    refine ⟨⟨fun _ => by simp [hm], by dsimp only; omega, h.fits.length_lt⟩, ?_⟩
    have hmove := h.holds.move
    simp only [HSBuffer.cells, hm, Option.getD_some, Option.map_some] at hmove ⊢
    exact hmove
  · rw [if_neg hlt]
    exact h

theorem Queued.exec (h : b.Queued q) {op : RecvOp} (hop : Queueing (b, q) op) :
    ∃ a b', b.exec op = .ok (a, b') ∧ b'.Queued (op.onQueue a q) ∧ (a = none → b' = b) := by
  cases op with
  | dataUse len check =>
    have hlen : len ≤ q.length := by
      have hsum : b.inUsedOffset + len ≤ b.inOffset := hop
      rw [h.holds.length]
      omega
    obtain ⟨hok, hq⟩ := h.dataUse hlen check
    refine ⟨_, _, rfl, hq, fun hnone => ?_⟩
    rw [hok] at hnone
    cases hnone
  | moveUnuseData2Begin => exact ⟨_, _, rfl, h.moveUnuseData2Begin, fun hnone => by cases hnone⟩
  | setUsedOutReset reset => exact ⟨_, _, rfl, ⟨h.fits, h.holds⟩, fun hnone => by cases hnone⟩
  | clear =>
    exact ⟨_, _, rfl, ⟨h.fits.rewind (Nat.zero_le _), Cells.holds_nil _ 0⟩,
      fun hnone => by cases hnone⟩
  | base op =>
    obtain ⟨a, b', hexec, hfits, hholds, hsame⟩ := h.fits.exec h.holds hop
    refine ⟨a, { b with toHSBuffer := b' }, ?_, ⟨hfits, hholds⟩, fun hnone => by rw [hsame hnone]⟩
    simp only [HSRecvBuffer.exec, hexec]
    rfl

theorem queued_new {len : ℕ} (hlen : len < 2 ^ 64) (mem : ℕ → UInt8) : (new len mem).Queued [] :=
  ⟨HSBuffer.fits_new hlen mem, Cells.holds_nil _ 0⟩

theorem Queued.of_run {len : ℕ} (hlen : len < 2 ^ 64) {mem : ℕ → UInt8} {ops : List RecvOp}
    {s : HSRecvBuffer × List UInt8}
    (h : Run (Guarded Queueing fun s op s' => onQueue s op = .ok s') (new len mem, []) ops s) :
    s.1.Queued s.2 := by
  refine noted_run (fun b q op hq hop => ?_) (queued_new hlen mem) h
  obtain ⟨a, b', hexec, hq', -⟩ := hq.exec hop
  exact ⟨a, b', hexec, hq'⟩

end HSRecvBuffer

namespace HSSendBuffer
variable {b : HSSendBuffer} {q : List UInt8}

structure Queued (b : HSSendBuffer) (q : List UInt8) : Prop where
  fits : b.Fits
  holds : Cells.Holds b.cells b.sentOffset b.inOffset q

def Queueing (s : HSSendBuffer × List UInt8) : SendOp → Prop
  | .base op => s.1.Takes op
  | .sent length _ => s.1.sentOffset + length ≤ s.1.inOffset
  | _ => True

instance (s : HSSendBuffer × List UInt8) : DecidablePred (Queueing s)
  | .base op => inferInstanceAs (Decidable (s.1.Takes op))
  | .sent length _ => inferInstanceAs (Decidable (s.1.sentOffset + length ≤ s.1.inOffset))
  | .setSentOutReset _ | .clear => isTrue trivial

def onQueue (s : HSSendBuffer × List UInt8) (op : SendOp) :
    Except Fault (HSSendBuffer × List UInt8) :=
  noted exec (fun _ op a q => op.onQueue a q) s op

theorem Queued.unsent (h : b.Queued q) : b.unsent = q := h.holds.read

theorem Queued.canSend (h : b.Queued q) (length : ℕ) :
    b.canSend length = .ok (decide (length ≤ q.length)) := by
  have hin := h.fits.in_le
  have hle := h.holds.le
  have hsize : b.getCanSendSize = .ok q.length := by
    rw [getCanSendSize, if_pos hle, h.holds.length,
      sizeSub_eq hle (lt_of_le_of_lt hin h.fits.length_lt)]
  rw [HSSendBuffer.canSend, hsize]
  simp only [bind, Except.bind, pure, Except.pure, gt_iff_lt, ← not_le, decide_not, Bool.not_not]

theorem Queued.sent (h : b.Queued q) {length : ℕ} (hlen : length ≤ q.length) :
    (b.sent length).Queued (q.drop length) := by
  have hin := h.fits.in_le
  have hle := h.holds.le
  have hlt := h.fits.length_lt
  have hq := h.holds.length
  have hadd : sizeAdd b.sentOffset length = b.sentOffset + length := sizeAdd_eq (by omega)
  have hdrop := h.holds.drop hlen
  simp only [HSSendBuffer.sent, hadd]
  by_cases hend : b.sentOutReset = true ∧ b.sentOffset + length = b.inOffset
  · rw [if_pos hend]
    refine ⟨h.fits.rewind (Nat.zero_le _), ?_⟩
    rw [hdrop.eq_nil hend.2]
    exact Cells.holds_nil _ 0
  · rw [if_neg hend]
    exact ⟨h.fits, hdrop⟩

theorem Queued.sentChecked (h : b.Queued q) {length : ℕ} (hlen : length ≤ q.length) :
    b.sentChecked length = .ok (true, b.sent length) := by
  rw [HSSendBuffer.sentChecked, h.canSend, decide_eq_true hlen]
  rfl

theorem Queued.exec (h : b.Queued q) {op : SendOp} (hop : Queueing (b, q) op) :
    ∃ a b', b.exec op = .ok (a, b') ∧ b'.Queued (op.onQueue a q) ∧ (a = none → b' = b) := by
  cases op with
  | sent length check =>
    have hlen : length ≤ q.length := by
      have hsum : b.sentOffset + length ≤ b.inOffset := hop
      rw [h.holds.length]
      omega
    refine ⟨some [], b.sent length, ?_, h.sent hlen, fun hnone => by cases hnone⟩
    cases check with
    | false => rfl
    | true =>
      simp only [HSSendBuffer.exec, h.sentChecked hlen]
      rfl
  | setSentOutReset reset => exact ⟨_, _, rfl, ⟨h.fits, h.holds⟩, fun hnone => by cases hnone⟩
  | clear =>
    exact ⟨_, _, rfl, ⟨h.fits.rewind (Nat.zero_le _), Cells.holds_nil _ 0⟩,
      fun hnone => by cases hnone⟩
  | base op =>
    obtain ⟨a, b', hexec, hfits, hholds, hsame⟩ := h.fits.exec h.holds hop
    refine ⟨a, { b with toHSBuffer := b' }, ?_, ⟨hfits, hholds⟩, fun hnone => by rw [hsame hnone]⟩
    simp only [HSSendBuffer.exec, hexec]
    rfl

theorem queued_new {len : ℕ} (hlen : len < 2 ^ 64) (mem : ℕ → UInt8) : (new len mem).Queued [] :=
  ⟨HSBuffer.fits_new hlen mem, Cells.holds_nil _ 0⟩

theorem Queued.of_run {len : ℕ} (hlen : len < 2 ^ 64) {mem : ℕ → UInt8} {ops : List SendOp}
    {s : HSSendBuffer × List UInt8}
    (h : Run (Guarded Queueing fun s op s' => onQueue s op = .ok s') (new len mem, []) ops s) :
    s.1.Queued s.2 := by
  refine noted_run (fun b q op hq hop => ?_) (queued_new hlen mem) h
  obtain ⟨a, b', hexec, hq', -⟩ := hq.exec hop
  exact ⟨a, b', hexec, hq'⟩

end HSSendBuffer

/-- In every run of queue operations on a new buffer the offsets are in order and the bytes between
them are the queue. No operation faults, and data that is refused changes nothing. -/
theorem buffers_queue {len : ℕ} (hlen : len < 2 ^ 64) (mem : ℕ → UInt8) :
    (∀ ops s, Run (Guarded HSRecvBuffer.Queueing fun s op s' => HSRecvBuffer.onQueue s op = .ok s')
        (HSRecvBuffer.new len mem, []) ops s →
      s.1.inUsedOffset ≤ s.1.inOffset ∧ s.1.inOffset ≤ s.1.length ∧ s.1.unread = s.2 ∧
      ∀ op, HSRecvBuffer.Queueing s op →
        ∃ a b', s.1.exec op = .ok (a, b') ∧ (a = none → b' = s.1)) ∧
    (∀ ops s, Run (Guarded HSSendBuffer.Queueing fun s op s' => HSSendBuffer.onQueue s op = .ok s')
        (HSSendBuffer.new len mem, []) ops s →
      s.1.sentOffset ≤ s.1.inOffset ∧ s.1.inOffset ≤ s.1.length ∧ s.1.unsent = s.2 ∧
      ∀ op, HSSendBuffer.Queueing s op →
        ∃ a b', s.1.exec op = .ok (a, b') ∧ (a = none → b' = s.1)) := by
  constructor
  · intro ops s h
    have hq := HSRecvBuffer.Queued.of_run hlen h
    refine ⟨hq.holds.le, hq.fits.in_le, hq.unread, fun op hop => ?_⟩
    obtain ⟨a, b', hexec, -, hsame⟩ := hq.exec hop
    exact ⟨a, b', hexec, hsame⟩
  · intro ops s h
    have hq := HSSendBuffer.Queued.of_run hlen h
    refine ⟨hq.holds.le, hq.fits.in_le, hq.unsent, fun op hop => ?_⟩
    obtain ⟨a, b', hexec, -, hsame⟩ := hq.exec hop
    exact ⟨a, b', hexec, hsame⟩

theorem buffers_queue_moved :
    ∃ s : HSRecvBuffer × List UInt8, s.1.unread = s.2 ∧ s.2 = [2, 3, 4] ∧ s.1.inOffset = 3 := by
  obtain ⟨s, hrun, hs⟩ := @Run.of_observed _ _
    (Guarded HSRecvBuffer.Queueing fun s op s' => HSRecvBuffer.onQueue s op = .ok s')
    (HSRecvBuffer.new 4 fun _ => 0, []) _
    (fun s op => if HSRecvBuffer.Queueing s op then (HSRecvBuffer.onQueue s op).toOption else none)
    (fun _ _ _ => possible_of_next)
    [.base (.dataInFrom [1, 2, 3]), .dataUse 1 true, .base (.dataInFrom [4, 5]),
      .moveUnuseData2Begin, .base (.dataInFrom [4])]
    (fun s => (s.2, s.1.inOffset)) ([2, 3, 4], 3) (by decide +kernel)
  obtain ⟨hqueue, hin⟩ := Prod.mk.inj hs
  obtain ⟨-, -, hunread, -⟩ := (buffers_queue (by decide) _).1 _ s hrun
  exact ⟨s, hunread, hqueue, hin⟩

end HsCommon
