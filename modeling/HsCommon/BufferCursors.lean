import HsCommon.BufferQueue

/-!
# The second reader of a buffer

The base class has an offset of its own for reading, of which the derived classes
know nothing. They take the end of the data back without it: when all data is used
up, and when the unused data is moved to the beginning. A reader that has gone
further then stands behind the end of the data, and the size that `DataOut` checks
against wraps.
-/

namespace HsCommon
open Transition

def BufferOp.entered (b : HSBuffer) (a : Answer) (xs : List UInt8) : BufferOp → List UInt8
  | .dataIn dataLen => if a.isSome then xs ++ b.bytes b.inOffset dataLen else xs
  | .dataInFrom data => if a.isSome then xs ++ data else xs
  | _ => xs

def RecvOp.entered (b : HSBuffer) (a : Answer) (xs : List UInt8) : RecvOp → List UInt8
  | .base op => op.entered b a xs
  | _ => xs

def SendOp.entered (b : HSBuffer) (a : Answer) (xs : List UInt8) : SendOp → List UInt8
  | .base op => op.entered b a xs
  | _ => xs

def RecvOp.Checked : RecvOp → Prop
  | .dataUse _ check => check = true
  | _ => True

def SendOp.Checked : SendOp → Prop
  | .sent _ check => check = true
  | _ => True

instance : DecidablePred RecvOp.Checked
  | .dataUse _ check => inferInstanceAs (Decidable (check = true))
  | .base _ | .moveUnuseData2Begin | .setUsedOutReset _ | .clear => isTrue trivial

namespace HSBuffer
variable {b b' : HSBuffer} {xs : List UInt8}

structure Ordered (b : HSBuffer) : Prop where
  out_le : b.outOffset ≤ b.inOffset
  in_le : b.inOffset ≤ b.length

structure Entered (b : HSBuffer) (xs : List UInt8) : Prop where
  fits : b.Fits
  out_le : b.outOffset ≤ b.inOffset
  bytes : (Cells.read b.cells 0 b.inOffset).Sublist xs

def Delivers (b : HSBuffer) (xs : List UInt8) : Prop :=
  sizeSub b.inOffset b.outOffset = b.inOffset - b.outOffset ∧
    ∀ n, ∃ a b', b.dataOutTo n = .ok (a, b') ∧ ∀ ys ∈ a, ys.length = n ∧ ys.Sublist xs

def Spares (b : HSBuffer) : BufferOp → Prop
  | .dataIn dataLen => sizeAdd b.inOffset dataLen ≤ b.length →
      b.outOffset ≤ sizeAdd b.inOffset dataLen
  | _ => True

instance (b : HSBuffer) : DecidablePred b.Spares
  | .dataIn dataLen => inferInstanceAs (Decidable (sizeAdd b.inOffset dataLen ≤ b.length →
      b.outOffset ≤ sizeAdd b.inOffset dataLen))
  | .dataInFrom _ | .dataOut _ | .dataOutTo _ => isTrue trivial

theorem Entered.ordered (h : b.Entered xs) : b.Ordered := ⟨h.out_le, h.fits.in_le⟩

theorem entered_new {len : ℕ} (hlen : len < 2 ^ 64) (mem : ℕ → UInt8) : (new len mem).Entered [] :=
  ⟨fits_new hlen mem, le_rfl, by simp [new]⟩

theorem Entered.sizeSub_eq (h : b.Entered xs) :
    sizeSub b.inOffset b.outOffset = b.inOffset - b.outOffset :=
  HsCommon.sizeSub_eq h.out_le (lt_of_le_of_lt h.fits.in_le h.fits.length_lt)

theorem Entered.not_null (h : b.Entered xs) {n : ℕ} (hn : b.outOffset + n ≤ b.inOffset) :
    ¬ (b.buffer.isNone ∧ n ≠ 0) := by
  intro hnull
  have hin := h.fits.in_le
  have hsome := h.fits.some (by omega)
  rw [Option.isNone_iff_eq_none.mp hnull.1] at hsome
  cases hsome

theorem Entered.dataOutTo_eq (h : b.Entered xs) (n : ℕ) :
    b.dataOutTo n = if b.outOffset + n ≤ b.inOffset then
        .ok (some (b.bytes b.outOffset n), { b with outOffset := b.outOffset + n })
      else .ok (none, b) := by
  have hout := h.out_le
  have hin := h.fits.in_le
  have hlt := h.fits.length_lt
  rw [dataOutTo, h.sizeSub_eq]
  by_cases hn : b.outOffset + n ≤ b.inOffset
  · have hadd : sizeAdd b.outOffset n = b.outOffset + n := sizeAdd_eq (by omega)
    rw [if_neg (by omega), if_neg (h.not_null hn), if_neg (by omega), if_pos hn, hadd]
  · rw [if_pos (by omega), if_neg hn]

theorem Entered.dataOut_eq (h : b.Entered xs) (n : ℕ) :
    b.dataOut n = if b.outOffset + n ≤ b.inOffset then
        (true, { b with outOffset := b.outOffset + n })
      else (false, b) := by
  have hout := h.out_le
  have hin := h.fits.in_le
  have hlt := h.fits.length_lt
  rw [dataOut, h.sizeSub_eq]
  by_cases hn : b.outOffset + n ≤ b.inOffset
  · have hadd : sizeAdd b.outOffset n = b.outOffset + n := sizeAdd_eq (by omega)
    rw [if_neg (by omega), if_pos hn, hadd]
  · rw [if_pos (by omega), if_neg hn]

theorem Entered.delivers (h : b.Entered xs) : b.Delivers xs := by
  refine ⟨h.sizeSub_eq, fun n => ?_⟩
  rw [h.dataOutTo_eq]
  by_cases hn : b.outOffset + n ≤ b.inOffset
  · rw [if_pos hn]
    refine ⟨_, _, rfl, fun ys hys => ?_⟩
    obtain rfl := Option.some.inj hys
    have hdata := Cells.holds_read b.cells (Nat.zero_le b.inOffset)
    rw [Nat.sub_zero] at hdata
    exact ⟨b.bytes_length _ _, (hdata.part (Nat.zero_le _) hn).sublist.trans h.bytes⟩
  · rw [if_neg hn]
    exact ⟨_, _, rfl, fun ys hys => by cases hys⟩

theorem Entered.advance (h : b.Entered xs) {n : ℕ} (hn : n ≤ b.inOffset) :
    Entered { b with outOffset := n } xs :=
  ⟨⟨h.fits.some, h.fits.in_le, h.fits.length_lt⟩, hn, h.bytes⟩

theorem Entered.rewind (h : b.Entered xs) : Entered { b with inOffset := 0, outOffset := 0 } xs :=
  ⟨h.fits.rewind (Nat.zero_le _), le_rfl, List.nil_sublist xs⟩

theorem Entered.dataIn (h : b.Entered xs) (n : ℕ) :
    ((b.dataIn n).2.Ordered ↔ b.Spares (.dataIn n)) ∧ (b.Spares (.dataIn n) →
      (b.dataIn n).2.Entered ((BufferOp.dataIn n).entered b (answer (b.dataIn n).1) xs)) := by
  rw [HSBuffer.dataIn]
  split_ifs with hfull
  · have hnot : ¬ sizeAdd b.inOffset n ≤ b.length := not_le.mpr hfull
    exact ⟨iff_of_true h.ordered fun hle => absurd hle hnot, fun _ => h⟩
  · have hle : sizeAdd b.inOffset n ≤ b.length := not_lt.mp hfull
    refine ⟨⟨fun hord _ => hord.out_le, fun hs => ⟨hs hle, hle⟩⟩, fun hs => ?_⟩
    refine ⟨⟨h.fits.some, hle, h.fits.length_lt⟩, hs hle, ?_⟩
    -- the data and the bytes behind it; a wrapped sum leaves a front part of them
    have hprefix : Cells.read b.cells 0 (sizeAdd b.inOffset n) <+:
        Cells.read b.cells 0 b.inOffset ++ b.bytes b.inOffset n := by
      have hall := Cells.read_add b.cells 0 b.inOffset n
      rw [Nat.zero_add] at hall
      have htake := Cells.read_take b.cells 0 (b.inOffset + n) (sizeAdd b.inOffset n)
      have hsum : sizeAdd b.inOffset n ≤ b.inOffset + n := Nat.mod_le _ _
      rw [min_eq_left hsum, hall] at htake
      rw [← htake]
      exact List.take_prefix _ _
    exact hprefix.sublist.trans (h.bytes.append_right _)

theorem Entered.dataInFrom (h : b.Entered xs) {data : List UInt8}
    (hfit : b.inOffset + data.length ≤ b.length) :
    Entered { b.put b.inOffset data with inOffset := b.inOffset + data.length } (xs ++ data) := by
  obtain ⟨hfits, hholds⟩ :=
    h.fits.put_end (Cells.holds_read b.cells (Nat.zero_le b.inOffset)) hfit
  refine ⟨hfits, h.out_le.trans (Nat.le_add_right _ _), ?_⟩
  have hread := hholds.read
  rw [Nat.sub_zero, Nat.sub_zero] at hread
  change (Cells.read (b.put b.inOffset data).cells 0 (b.inOffset + data.length)).Sublist _
  rw [hread]
  exact h.bytes.append_right data

theorem Entered.startOver (h : b.Entered xs) :
    (Ordered { b with inOffset := 0 } ↔ b.outOffset = 0) ∧
      (b.outOffset = 0 → Entered { b with inOffset := 0 } xs) := by
  have hzero : b.outOffset = 0 → Entered { b with inOffset := 0 } xs := by
    intro hout
    exact ⟨⟨h.fits.some, Nat.zero_le _, h.fits.length_lt⟩, hout.le, List.nil_sublist xs⟩
  exact ⟨⟨fun hord => Nat.le_zero.mp hord.out_le, fun hout => (hzero hout).ordered⟩, hzero⟩

theorem Entered.startOver_if (h : b.Entered xs) {p q : Prop} (hp : p) (hq : q) :
    (Ordered { b with inOffset := 0 } ↔ (p → q → b.outOffset = 0)) ∧
      ((p → q → b.outOffset = 0) → Entered { b with inOffset := 0 } xs) := by
  obtain ⟨hiff, hentered⟩ := h.startOver
  exact ⟨hiff.trans ⟨fun hout _ _ => hout, fun hs => hs hp hq⟩, fun hs => hentered (hs hp hq)⟩

theorem Entered.exec (h : b.Entered xs) {op : BufferOp} {a : Answer}
    (hexec : b.exec op = .ok (a, b')) :
    (b'.Ordered ↔ b.Spares op) ∧ (b.Spares op → b'.Entered (op.entered b a xs)) := by
  have hkept : b'.Entered (op.entered b a xs) → b.Spares op →
      (b'.Ordered ↔ b.Spares op) ∧ (b.Spares op → b'.Entered (op.entered b a xs)) :=
    fun he hs => ⟨iff_of_true he.ordered hs, fun _ => he⟩
  cases op with
  | dataIn n =>
    cases hexec
    exact h.dataIn n
  | dataInFrom data =>
    refine hkept ?_ trivial
    by_cases hfit : b.inOffset + data.length ≤ b.length
    · have hlt := h.fits.length_lt
      have hwrap : b.inOffset + data.length < 2 ^ 64 := by omega
      have hin := h.fits.dataInFrom_eq hwrap
      rw [if_pos hfit] at hin
      simp only [HSBuffer.exec, hin] at hexec
      cases hexec
      exact h.dataInFrom hfit
    · -- refused, or a fault
      simp only [HSBuffer.exec, HSBuffer.dataInFrom] at hexec
      split_ifs at hexec
      · cases hexec
        exact h
      all_goals cases hexec
      omega
  | dataOut n =>
    refine hkept ?_ trivial
    simp only [HSBuffer.exec, h.dataOut_eq] at hexec
    split_ifs at hexec with hn
    · cases hexec
      exact h.advance hn
    · cases hexec
      exact h
  | dataOutTo n =>
    refine hkept ?_ trivial
    simp only [HSBuffer.exec, h.dataOutTo_eq] at hexec
    split_ifs at hexec with hn
    · cases hexec
      exact h.advance hn
    · cases hexec
      exact h

end HSBuffer

namespace HSRecvBuffer
variable {b b' : HSRecvBuffer} {xs : List UInt8}

def onEntered (s : HSRecvBuffer × List UInt8) (op : RecvOp) :
    Except Fault (HSRecvBuffer × List UInt8) :=
  noted exec (fun b op a xs => op.entered b.toHSBuffer a xs) s op

def CheckedStep (s : HSRecvBuffer × List UInt8) (op : RecvOp) (s' : HSRecvBuffer × List UInt8) :
    Prop := op.Checked ∧ onEntered s op = .ok s'

/-- When the end of the data is taken back, the reader is not left behind it. -/
def Spares (b : HSRecvBuffer) : RecvOp → Prop
  | .base op => b.toHSBuffer.Spares op
  | .dataUse len _ => b.canUse len = true → sizeAdd b.inUsedOffset len = b.inOffset →
      b.usedOutReset = true → b.outOffset = 0
  | .moveUnuseData2Begin => b.inUsedOffset < b.inOffset →
      b.outOffset ≤ b.inOffset - b.inUsedOffset
  | _ => True

instance (b : HSRecvBuffer) : DecidablePred b.Spares
  | .base op => inferInstanceAs (Decidable (b.toHSBuffer.Spares op))
  | .dataUse len _ => inferInstanceAs (Decidable (b.canUse len = true →
      sizeAdd b.inUsedOffset len = b.inOffset → b.usedOutReset = true → b.outOffset = 0))
  | .moveUnuseData2Begin => inferInstanceAs (Decidable (b.inUsedOffset < b.inOffset →
      b.outOffset ≤ b.inOffset - b.inUsedOffset))
  | .setUsedOutReset _ | .clear => isTrue trivial

theorem dataUse_spares (h : b.Entered xs) (len : ℕ) :
    ((b.dataUse len true).2.Ordered ↔ b.Spares (.dataUse len true)) ∧
      (b.Spares (.dataUse len true) → (b.dataUse len true).2.Entered xs) := by
  simp only [dataUse, Spares, Bool.true_and, Bool.not_eq_true']
  by_cases hcan : b.canUse len = true
  · simp only [hcan, Bool.true_eq_false, if_false, forall_const]
    by_cases hend : sizeAdd b.inUsedOffset len = b.inOffset ∧ b.usedOutReset = true
    · rw [if_pos hend]
      exact h.startOver_if hend.1 hend.2
    · rw [if_neg hend]
      exact ⟨iff_of_true h.ordered fun hused hreset => absurd ⟨hused, hreset⟩ hend, fun _ => h⟩
  · rw [if_pos (Bool.eq_false_iff.mpr hcan)]
    exact ⟨iff_of_true h.ordered fun hc => absurd hc hcan, fun _ => h⟩

theorem move_spares (h : b.Entered xs) :
    (b.moveUnuseData2Begin.Ordered ↔ b.Spares .moveUnuseData2Begin) ∧
      (b.Spares .moveUnuseData2Begin → b.moveUnuseData2Begin.Entered xs) := by
  simp only [moveUnuseData2Begin, Spares]
  by_cases hlt : b.inUsedOffset < b.inOffset
  · have hin := h.fits.in_le
    obtain ⟨m, hm⟩ := Option.isSome_iff_exists.mp (h.fits.some (by omega))
    rw [if_pos hlt]
    refine ⟨⟨fun hord _ => hord.out_le, fun hs => ⟨hs hlt, ?_⟩⟩, fun hs => ?_⟩
    · dsimp only
      omega
    · refine ⟨⟨fun _ => by simp [hm], by dsimp only; omega, h.fits.length_lt⟩, hs hlt, ?_⟩
      have hmove := ((Cells.holds_read b.cells hlt.le).move).read
      have hpart : Cells.read b.cells b.inUsedOffset (b.inOffset - b.inUsedOffset) =
          (Cells.read b.cells 0 b.inOffset).drop b.inUsedOffset := by
        rw [Cells.read_drop, Nat.zero_add]
      simp only [HSBuffer.cells, hm, Option.getD_some, Option.map_some, Nat.sub_zero]
        at hmove hpart ⊢
      rw [hmove, hpart]
      have hbytes := h.bytes
      simp only [HSBuffer.cells, hm, Option.getD_some] at hbytes
      exact (List.drop_sublist _ _).trans hbytes
  · rw [if_neg hlt]
    exact ⟨iff_of_true h.ordered fun hc => absurd hc hlt, fun _ => h⟩

theorem exec_spares (h : b.Entered xs) {op : RecvOp} (hop : op.Checked) {a : Answer}
    (hexec : b.exec op = .ok (a, b')) :
    (b'.Ordered ↔ b.Spares op) ∧
      (b.Spares op → b'.Entered (op.entered b.toHSBuffer a xs)) := by
  cases op with
  | base op =>
    simp only [HSRecvBuffer.exec] at hexec
    obtain ⟨r, hbase, hres⟩ := Outcome.exists_of_bind hexec
    cases hres
    exact h.exec hbase
  | dataUse len check =>
    obtain rfl : check = true := hop
    cases hexec
    exact dataUse_spares h len
  | moveUnuseData2Begin =>
    cases hexec
    exact move_spares h
  | setUsedOutReset reset =>
    cases hexec
    exact ⟨iff_of_true h.ordered trivial, fun _ => h⟩
  | clear =>
    cases hexec
    exact ⟨iff_of_true h.rewind.ordered trivial, fun _ => h.rewind⟩

theorem CheckedStep.spares {s s' : HSRecvBuffer × List UInt8} {op : RecvOp}
    (hs : CheckedStep s op s') (h : s.1.Entered s.2) :
    (s'.1.Ordered ↔ s.1.Spares op) ∧ (s.1.Spares op → s'.1.Entered s'.2) := by
  obtain ⟨r, hexec, hres⟩ := Outcome.exists_of_bind hs.2
  cases hres
  exact exec_spares h hs.1 hexec

end HSRecvBuffer

namespace HSSendBuffer
variable {b b' : HSSendBuffer} {xs : List UInt8}

def onEntered (s : HSSendBuffer × List UInt8) (op : SendOp) :
    Except Fault (HSSendBuffer × List UInt8) :=
  noted exec (fun b op a xs => op.entered b.toHSBuffer a xs) s op

def CheckedStep (s : HSSendBuffer × List UInt8) (op : SendOp) (s' : HSSendBuffer × List UInt8) :
    Prop := op.Checked ∧ onEntered s op = .ok s'

def Spares (b : HSSendBuffer) : SendOp → Prop
  | .base op => b.toHSBuffer.Spares op
  | .sent length _ => b.canSend length = .ok true → b.sentOutReset = true →
      sizeAdd b.sentOffset length = b.inOffset → b.outOffset = 0
  | _ => True

theorem sentChecked_spares (h : b.Entered xs) {length : ℕ} {ok : Bool}
    (hsent : b.sentChecked length = .ok (ok, b')) :
    (b'.Ordered ↔ b.Spares (.sent length true)) ∧
      (b.Spares (.sent length true) → b'.Entered xs) := by
  simp only [sentChecked] at hsent
  obtain ⟨fits, hcan, hres⟩ := Outcome.exists_of_bind hsent
  simp only [Spares, hcan, Except.ok.injEq]
  cases fits with
  | false =>
    obtain ⟨-, rfl⟩ := Prod.mk.inj (Except.ok.inj hres)
    exact ⟨iff_of_true h.ordered fun hc => (by cases hc), fun _ => h⟩
  | true =>
    obtain ⟨-, rfl⟩ := Prod.mk.inj (Except.ok.inj hres)
    simp only [sent, forall_const]
    by_cases hend : b.sentOutReset = true ∧ sizeAdd b.sentOffset length = b.inOffset
    · rw [if_pos hend]
      exact h.startOver_if hend.1 hend.2
    · rw [if_neg hend]
      exact ⟨iff_of_true h.ordered fun hreset hall => absurd ⟨hreset, hall⟩ hend, fun _ => h⟩

theorem exec_spares (h : b.Entered xs) {op : SendOp} (hop : op.Checked) {a : Answer}
    (hexec : b.exec op = .ok (a, b')) :
    (b'.Ordered ↔ b.Spares op) ∧
      (b.Spares op → b'.Entered (op.entered b.toHSBuffer a xs)) := by
  cases op with
  | base op =>
    simp only [HSSendBuffer.exec] at hexec
    obtain ⟨r, hbase, hres⟩ := Outcome.exists_of_bind hexec
    cases hres
    exact h.exec hbase
  | sent length check =>
    obtain rfl : check = true := hop
    obtain ⟨r, hsent, hres⟩ := Outcome.exists_of_bind hexec
    cases hres
    exact sentChecked_spares h hsent
  | setSentOutReset reset =>
    cases hexec
    exact ⟨iff_of_true h.ordered trivial, fun _ => h⟩
  | clear =>
    cases hexec
    exact ⟨iff_of_true h.rewind.ordered trivial, fun _ => h.rewind⟩

theorem CheckedStep.spares {s s' : HSSendBuffer × List UInt8} {op : SendOp}
    (hs : CheckedStep s op s') (h : s.1.Entered s.2) :
    (s'.1.Ordered ↔ s.1.Spares op) ∧ (s.1.Spares op → s'.1.Entered s'.2) := by
  obtain ⟨r, hexec, hres⟩ := Outcome.exists_of_bind hs.2
  cases hres
  exact exec_spares h hs.1 hexec

end HSSendBuffer

theorem ordered_runs {β ω : Type} {buffer : β → HSBuffer} {spares : β → ω → Prop}
    {step : β × List UInt8 → ω → β × List UInt8 → Prop}
    (hstep : ∀ s op s', step s op s' → (buffer s.1).Entered s.2 →
      ((buffer s'.1).Ordered ↔ spares s.1 op) ∧ (spares s.1 op → (buffer s'.1).Entered s'.2))
    {s₀ : β × List UInt8} (h₀ : (buffer s₀.1).Entered s₀.2) (ops : List ω)
    (s : β × List UInt8) :
    (Run (Keeping (fun s => (buffer s.1).Ordered) step) s₀ ops s ↔
      Run (Guarded (fun s op => spares s.1 op) step) s₀ ops s) ∧
    (Run (Guarded (fun s op => spares s.1 op) step) s₀ ops s →
      (buffer s.1).Ordered ∧ (buffer s.1).Delivers s.2) := by
  refine ⟨?_, fun h => ?_⟩
  · exact Run.guarded_iff (I := fun s => (buffer s.1).Entered s.2) h₀
      fun s op s' hI hs => hstep s op s' hs hI
  · have hentered : (buffer s.1).Entered s.2 :=
      Run.invariant (P := fun s => (buffer s.1).Entered s.2) h₀
        (fun s op s' hI hs => (hstep s op s' hs.2 hI).2 hs.1) h
    exact ⟨hentered.ordered, hentered.delivers⟩

/-- The runs that keep the offsets in order are the runs that spare the second reader. In these its
size never wraps, and it reads only bytes that have entered. -/
theorem cursors_ordered {len : ℕ} (hlen : len < 2 ^ 64) (mem : ℕ → UInt8) :
    (∀ ops s,
      (Run (Keeping (fun s => s.1.Ordered) HSRecvBuffer.CheckedStep)
          (HSRecvBuffer.new len mem, []) ops s ↔
        Run (Guarded (fun s op => s.1.Spares op) HSRecvBuffer.CheckedStep)
          (HSRecvBuffer.new len mem, []) ops s) ∧
      (Run (Guarded (fun s op => s.1.Spares op) HSRecvBuffer.CheckedStep)
          (HSRecvBuffer.new len mem, []) ops s → s.1.Ordered ∧ s.1.Delivers s.2)) ∧
    (∀ ops s,
      (Run (Keeping (fun s => s.1.Ordered) HSSendBuffer.CheckedStep)
          (HSSendBuffer.new len mem, []) ops s ↔
        Run (Guarded (fun s op => s.1.Spares op) HSSendBuffer.CheckedStep)
          (HSSendBuffer.new len mem, []) ops s) ∧
      (Run (Guarded (fun s op => s.1.Spares op) HSSendBuffer.CheckedStep)
          (HSSendBuffer.new len mem, []) ops s → s.1.Ordered ∧ s.1.Delivers s.2)) := by
  have h₀ := HSBuffer.entered_new hlen mem
  constructor
  · exact @ordered_runs _ _ HSRecvBuffer.toHSBuffer HSRecvBuffer.Spares _
      (fun s op s' hs h => hs.spares h) _ h₀
  · exact @ordered_runs _ _ HSSendBuffer.toHSBuffer HSSendBuffer.Spares _
      (fun s op s' hs h => hs.spares h) _ h₀

theorem cursors_ordered_copied :
    ∃ s : HSRecvBuffer × List UInt8, s.1.Ordered ∧ s.2 = [1, 2, 3] ∧ s.1.outOffset = 1 := by
  obtain ⟨s, hrun, hs⟩ := @Run.of_observed _ _
    (Guarded (fun s op => s.1.Spares op) HSRecvBuffer.CheckedStep)
    (HSRecvBuffer.new 4 fun _ => 0, []) _
    (fun s op => if s.1.Spares op ∧ op.Checked then (HSRecvBuffer.onEntered s op).toOption
      else none)
    (fun _ _ _ h => ⟨(possible_of_next h).1.1, (possible_of_next h).1.2, (possible_of_next h).2⟩)
    [.base (.dataInFrom [1, 2, 3]), .dataUse 1 true, .base (.dataOutTo 1), .moveUnuseData2Begin]
    (fun s => (s.2, s.1.outOffset)) ([1, 2, 3], 1) (by decide +kernel)
  obtain ⟨hentered, hout⟩ := Prod.mk.inj hs
  exact ⟨s, (((cursors_ordered (by decide) _).1 _ s).2 hrun).1, hentered, hout⟩

/-- All three bytes are used up after one of them was read: the reader stands behind the end of the
data, and the next `DataOut` copies out a byte that was never put in. -/
theorem dataUse_behind :
    ∃ s : HSRecvBuffer × List UInt8,
      Run HSRecvBuffer.CheckedStep (HSRecvBuffer.new 4 fun _ => 9, [])
        [.base (.dataInFrom [1, 2, 3]), .base (.dataOut 1), .dataUse 3 true] s ∧
      ¬ s.1.Ordered ∧ s.2 = [1, 2, 3] ∧
      (s.1.dataOutTo 3).map Prod.fst = .ok (some [2, 3, 9]) := by
  obtain ⟨s, hrun, hs⟩ := @Run.of_observed _ _ HSRecvBuffer.CheckedStep
    (HSRecvBuffer.new 4 fun _ => 9, []) _
    (fun s op => if op.Checked then (HSRecvBuffer.onEntered s op).toOption else none)
    (fun _ _ _ => possible_of_next)
    [.base (.dataInFrom [1, 2, 3]), .base (.dataOut 1), .dataUse 3 true]
    (fun s => (s.1.inOffset, s.1.outOffset, s.2, (s.1.dataOutTo 3).map Prod.fst))
    (0, 1, [1, 2, 3], .ok (some [2, 3, 9])) (by decide +kernel)
  obtain ⟨hin, hout, hentered, hcopied⟩ : s.1.inOffset = 0 ∧ s.1.outOffset = 1 ∧
      s.2 = [1, 2, 3] ∧ (s.1.dataOutTo 3).map Prod.fst = .ok (some [2, 3, 9]) := by
    simpa only [Prod.mk.injEq] using hs
  refine ⟨s, hrun, fun hord => ?_, hentered, hcopied⟩
  have hle := hord.out_le
  omega

end HsCommon
