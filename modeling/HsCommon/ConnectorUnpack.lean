import HsCommon.ConnectorSends

/-!
# The unpacker while handlers act

`HSRecvDataUnpacker::Process` hands each packet to the handler and goes on with its
buffer. A handler may send and disconnect there. When it closes the connector, the
buffer is taken from the unpacker, which then uses the NULL pointer.
-/

namespace HsCommon.HSClientConnector
open Framing

variable {w : ULongWidth} {results : ℕ → ℤ} {handler : DataHandler} {L fuel : ℕ}
  {c c' c₁ : HSClientConnector} {I : HSClientConnector → Prop}

def Closes (handler : DataHandler) : List ClientCall → List (List UInt8) → Prop
  | _, [] => False
  | calls, v :: vs =>
    .close ∈ handler (calls ++ [.onReceive v]) ∨ Closes handler (calls ++ [.onReceive v]) vs

structure Leaves (closing : Prop) (c c' : HSClientConnector) : Prop where
  sock : c'.sock = c.sock
  calls : c'.calls = c.calls
  closed : closing → c'.unpacker = false
  kept : ¬ closing → c'.unpacker = c.unpacker ∧ c'.recvBuffer = c.recvBuffer

structure Handles (w : ULongWidth) (results : ℕ → ℤ) (handler : DataHandler)
    (I : HSClientConnector → Prop) : Prop where
  frame : ∀ c b calls, I c → I { c with recvBuffer := b, calls := calls }
  actions : ∀ c, I c → ∃ c', (handler c.calls).foldlM (runAction w results) c = .ok c' ∧ I c' ∧
    Leaves (0 < c.sock ∧ .close ∈ handler c.calls) c c'

def SendOk (c : HSClientConnector) : Prop := c.sendBuffer.Ok

theorem close_eq (h : 0 < c.sock) : c.close = { c with
    sendBuffer := c.sendBuffer.clear true
    packer := false
    recvBuffer := c.recvBuffer.clear true
    unpacker := false
    state := .notInitialized } := by
  rw [close, if_neg (not_le.mpr h)]

theorem close_unopened (h : ¬ 0 < c.sock) : c.close = c := by
  rw [close, if_pos (not_lt.mp h)]

theorem SendOk.close (h : SendOk c) : SendOk c.close := by
  by_cases hsock : 0 < c.sock
  · rw [close_eq hsock]
    exact ⟨fun hlen => absurd hlen (lt_irrefl 0), le_rfl, le_rfl, Nat.two_pow_pos 64, rfl⟩
  · rw [close_unopened hsock]
    exact h

theorem SendOk.send (h : SendOk c) (data : Payload) :
    ∃ r c', c.send w results data.val = .ok (r, c') ∧ SendOk c' ∧ Leaves False c c' ∧
      c'.state = c.state := by
  obtain ⟨r, c', hs, rfl | ⟨hok, x, rfl⟩⟩ := @send_returns w results c (fun _ => h) data
  · exact ⟨r, c', hs, h, ⟨rfl, rfl, False.elim, fun _ => ⟨rfl, rfl⟩⟩, rfl⟩
  · exact ⟨r, _, hs, hok, ⟨rfl, rfl, False.elim, fun _ => ⟨rfl, rfl⟩⟩, rfl⟩

theorem SendOk.actions (h : SendOk c) (as : List ClientAction) :
    ∃ c', as.foldlM (runAction w results) c = .ok c' ∧ SendOk c' ∧
      Leaves (0 < c.sock ∧ .close ∈ as) c c' ∧ (c.unpacker = false → c'.unpacker = false) := by
  induction as generalizing c with
  | nil =>
    exact ⟨c, rfl, h, ⟨rfl, rfl, fun hc => (by cases hc.2), fun _ => ⟨rfl, rfl⟩⟩, id⟩
  | cons a as ih =>
    cases a with
    | send data =>
      obtain ⟨r, c₁, hs, h₁, hside, -⟩ := @SendOk.send w results c h data
      obtain ⟨c₂, hs₂, h₂, hleaves, hlost⟩ := ih h₁
      obtain ⟨hunpacker, hrecv⟩ := hside.kept id
      rw [hside.sock] at hleaves
      refine ⟨c₂, ?_, h₂, ⟨hleaves.sock.trans hside.sock, hleaves.calls.trans hside.calls,
        fun hc => hleaves.closed ⟨hc.1, by simpa using hc.2⟩, fun hc => ?_⟩,
        fun hu => hlost (hunpacker.trans hu)⟩
      · rw [List.foldlM_cons, runAction, hs]
        exact hs₂
      · obtain ⟨hu, hr⟩ := hleaves.kept fun hc' => hc ⟨hc'.1, List.mem_cons_of_mem _ hc'.2⟩
        exact ⟨hu.trans hunpacker, hr.trans hrecv⟩
    | disconnect =>
      obtain ⟨c₂, hs₂, h₂, hleaves, hlost⟩ := ih h
      exact ⟨c₂, hs₂, h₂, ⟨hleaves.sock, hleaves.calls,
        fun hc => hleaves.closed ⟨hc.1, by simpa using hc.2⟩,
        fun hc => hleaves.kept fun hc' => hc ⟨hc'.1, List.mem_cons_of_mem _ hc'.2⟩⟩, hlost⟩
    | close =>
      obtain ⟨c₂, hs₂, h₂, hleaves, hlost⟩ := ih h.close
      by_cases hsock : 0 < c.sock
      · rw [close_eq hsock] at hleaves hlost
        exact ⟨c₂, hs₂, h₂, ⟨hleaves.sock, hleaves.calls, fun _ => hlost rfl,
          fun hc => absurd ⟨hsock, List.mem_cons_self⟩ hc⟩, fun _ => hlost rfl⟩
      · rw [close_unopened hsock] at hleaves hlost
        exact ⟨c₂, hs₂, h₂, ⟨hleaves.sock, hleaves.calls, fun hc => absurd hc.1 hsock,
          fun _ => hleaves.kept fun hc => hsock hc.1⟩, hlost⟩

theorem handles_sendOk (w : ULongWidth) (results : ℕ → ℤ) (handler : DataHandler) :
    Handles w results handler SendOk where
  frame c b calls h := h
  actions c h := by
    obtain ⟨c', hs, h', hleaves, -⟩ := @SendOk.actions w results c h (handler c.calls)
    exact ⟨c', hs, h', hleaves⟩

structure Receiving (L : ℕ) (c : HSClientConnector) : Prop where
  recv : c.recvBuffer.Ok
  length_eq : c.recvBuffer.length = L
  unpacker : c.unpacker = true

theorem Receiving.round (hI : Handles w results handler I) (h : Receiving L c) (hi : I c)
    {v : List UInt8} {n : ℕ} (hframe : decodeBytes w c.recvBuffer.unread = .frame v n) :
    (0 < c.sock ∧ .close ∈ handler (c.calls ++ [.onReceive v]) →
      ∀ fuel, unpackLoop w results handler (fuel + 1) c = .error .nullPointer) ∧
    (¬ (0 < c.sock ∧ .close ∈ handler (c.calls ++ [.onReceive v])) →
      ∃ c₁, Receiving L c₁ ∧ I c₁ ∧ c₁.calls = c.calls ++ [.onReceive v] ∧ c₁.sock = c.sock ∧
        c₁.recvBuffer.unread = c.recvBuffer.unread.drop n ∧
        ∀ fuel, unpackLoop w results handler (fuel + 1) c =
          if c₁.recvBuffer.inOffset = c₁.recvBuffer.getUsedSize then .ok (some false, c₁)
          else unpackLoop w results handler fuel c₁) := by
  obtain ⟨size, hdec, hdata, hok, hun, hlen, -, -⟩ := h.recv.round hframe
  obtain ⟨c₂, hactions, hi₂, hleaves⟩ := hI.actions { c with
    recvBuffer := (c.recvBuffer.dataUse w.header false).2
    calls := c.calls ++ [.onReceive v] } (hI.frame c _ _ hi)
  have hround : ∀ fuel, unpackLoop w results handler (fuel + 1) c =
      if (!c₂.unpacker) = true then .error .nullPointer
      else if (c₂.recvBuffer.dataUse size false).2.inOffset =
          (c₂.recvBuffer.dataUse size false).2.getUsedSize then
        .ok (some false, { c₂ with recvBuffer := (c₂.recvBuffer.dataUse size false).2 })
      else unpackLoop w results handler fuel
        { c₂ with recvBuffer := (c₂.recvBuffer.dataUse size false).2 } := by
    intro fuel
    rw [unpackLoop, hdec]
    simp only [bind, Except.bind, call, hdata]
    rw [hactions]
    rfl
  constructor
  · intro hclose fuel
    rw [hround fuel, hleaves.closed hclose]
    rfl
  · intro hclose
    obtain ⟨hunpacker, hrecv⟩ := hleaves.kept hclose
    have hkept : ¬ ((!c₂.unpacker) = true) := by
      rw [hunpacker]
      simp [h.unpacker]
    have hused : (c₂.recvBuffer.dataUse size false).2 =
        ((c.recvBuffer.dataUse w.header false).2.dataUse size false).2 := by rw [hrecv]
    refine ⟨{ c₂ with recvBuffer := (c₂.recvBuffer.dataUse size false).2 }, ⟨?_, ?_, ?_⟩,
      hI.frame c₂ _ c₂.calls hi₂, hleaves.calls, hleaves.sock, ?_, fun fuel => ?_⟩
    · rw [hused]
      exact hok
    · rw [hused]
      exact hlen.trans h.length_eq
    · exact hunpacker.trans h.unpacker
    · rw [hused]
      exact hun
    · rw [hround fuel, if_neg hkept]

theorem Receiving.unpackLoop (hI : Handles w results handler I) {u : List UInt8}
    {vs : List (List UInt8)} {o : Option (List UInt8)} (hd : Drains (decodeBytes w) u vs o)
    (h : Receiving L c) (hi : I c) (hu : c.recvBuffer.unread = u) (hfuel : u.length < fuel) :
    (0 < c.sock ∧ Closes handler c.calls vs →
      unpackLoop w results handler fuel c = .error .nullPointer) ∧
    (¬ (0 < c.sock ∧ Closes handler c.calls vs) →
      ∃ e c', unpackLoop w results handler fuel c = .ok (e, c') ∧
        c'.calls = c.calls ++ vs.map .onReceive ∧
        (∀ r, o = some r → e ≠ none ∧ Receiving L c' ∧ I c' ∧ c'.recvBuffer.unread = r) ∧
        (o = none → e = none ∧ ∃ c₁, Receiving L c₁ ∧ I c₁ ∧ c' = c₁.close)) := by
  induction hd generalizing c fuel with
  | rejected hrej =>
    subst hu
    obtain ⟨fuel, rfl⟩ := Nat.exists_eq_succ_of_ne_zero (by omega : fuel ≠ 0)
    refine ⟨fun hc => hc.2.elim, fun _ => ⟨none, c.close, ?_, ?_, fun r hr => (by cases hr),
      fun _ => ⟨rfl, c, h, hi, rfl⟩⟩⟩
    · rw [HSClientConnector.unpackLoop, HSRecvBuffer.decode_eq h.recv, decodeBytes_rejected hrej]
      rfl
    · rw [close]
      split_ifs <;> simp
  | incomplete hinc =>
    subst hu
    obtain ⟨fuel, rfl⟩ := Nat.exists_eq_succ_of_ne_zero (by omega : fuel ≠ 0)
    refine ⟨fun hc => hc.2.elim, fun _ => ⟨some true, c, ?_, by simp, fun r hr => ?_,
      fun ho => (by cases ho)⟩⟩
    · rw [HSClientConnector.unpackLoop, HSRecvBuffer.decode_eq h.recv, decodeBytes_incomplete hinc]
      rfl
    · obtain rfl := Option.some.inj hr
      exact ⟨by simp, h, hi, rfl⟩
  | @frame u v n vs o hframe hrest ih =>
    subst hu
    obtain ⟨fuel, rfl⟩ := Nat.exists_eq_succ_of_ne_zero (by omega : fuel ≠ 0)
    obtain ⟨hpos, hle⟩ := (incremental_decodeBytes w).frame_le _ v n hframe
    obtain ⟨hclosing, hkeeping⟩ := h.round hI hi hframe
    by_cases hnow : 0 < c.sock ∧ .close ∈ handler (c.calls ++ [.onReceive v])
    · refine ⟨fun _ => hclosing hnow fuel, fun hc => absurd ⟨hnow.1, Or.inl hnow.2⟩ hc⟩
    · obtain ⟨c₁, h₁, hi₁, hcalls₁, hsock₁, hun₁, hround⟩ := hkeeping hnow
      have hlater : 0 < c.sock ∧ Closes handler c.calls (v :: vs) ↔
          0 < c₁.sock ∧ Closes handler c₁.calls vs := by
        rw [hsock₁, hcalls₁]
        refine and_congr_right fun hsock => or_iff_right fun hc => hnow ⟨hsock, hc⟩
      rw [hlater, hround fuel]
      by_cases hend : c₁.recvBuffer.inOffset = c₁.recvBuffer.getUsedSize
      · have hnil : c₁.recvBuffer.unread = [] := by
          rw [← List.length_eq_zero_iff, HSRecvBuffer.unread_length, hend]
          exact Nat.sub_self _
        rw [← hun₁, hnil] at hrest
        obtain ⟨rfl, rfl⟩ := hrest.unique (.incomplete (decodeBytes_nil w))
        refine ⟨fun hc => hc.2.elim, fun _ => ⟨some false, c₁, if_pos hend, hcalls₁,
          fun r hr => ?_, fun ho => (by cases ho)⟩⟩
        obtain rfl := Option.some.inj hr
        exact ⟨by simp, h₁, hi₁, hnil⟩
      · have hshort : (c.recvBuffer.unread.drop n).length < fuel := by
          rw [List.length_drop]
          omega
        rw [if_neg hend]
        obtain ⟨hfails, hgives⟩ := ih h₁ hi₁ hun₁ hshort
        refine ⟨hfails, fun hc => ?_⟩
        obtain ⟨e, c', hloop, hcalls, hsome, hnone⟩ := hgives hc
        refine ⟨e, c', hloop, ?_, hsome, hnone⟩
        rw [hcalls, hcalls₁, List.map_cons]
        exact List.append_assoc _ _ _

def arrived (c : HSClientConnector) (chunk : List UInt8) : HSClientConnector :=
  { c with recvBuffer :=
    { c.recvBuffer with toHSBuffer := c.recvBuffer.put c.recvBuffer.inOffset chunk } }

def afterUnpack : Option Bool × HSClientConnector → ℤ × HSClientConnector
  | (none, c) => (-1, c)
  | (some false, c) => (0, c)
  | (some true, c) =>
    (0, if c.recvBuffer.getLeftInSize ≤ hsNetPacketMaxSize / 8 then
      { c with recvBuffer := c.recvBuffer.moveUnuseData2Begin } else c)

theorem processRecv_eq (hunpacker : c.unpacker = true) {chunk : List UInt8} (hne : chunk ≠ []) :
    (c.arrived chunk).processRecv w results fuel handler chunk.length =
      (unpackLoop w results handler fuel { c with recvBuffer := { c.recvBuffer with
        toHSBuffer :=
          ((c.recvBuffer.put c.recvBuffer.inOffset chunk).dataIn chunk.length).2 } }).map
      afterUnpack := by
  have hpos : chunk.length ≠ 0 := (List.length_pos_iff.mpr hne).ne'
  have hkept : ¬ ((!(c.arrived chunk).unpacker) = true) := by simp [arrived, hunpacker]
  rw [processRecv, if_neg hpos, if_neg hkept]
  simp only [arrived]
  cases unpackLoop w results handler fuel { c with recvBuffer := { c.recvBuffer with
      toHSBuffer := ((c.recvBuffer.put c.recvBuffer.inOffset chunk).dataIn chunk.length).2 } } with
  | error f => rfl
  | ok r =>
    obtain ⟨e, c'⟩ := r
    rcases e with - | - | -
    · rfl
    · rfl
    · simp only [bind, Except.bind, Except.map, afterUnpack]
      split_ifs <;> rfl

theorem Receiving.processRecv (hI : Handles w results handler I) (h : Receiving L c) (hi : I c)
    {chunk : List UInt8} (hne : chunk ≠ [])
    (hfit : chunk.length ≤ c.recvBuffer.length - c.recvBuffer.inOffset) {vs : List (List UInt8)}
    {o : Option (List UInt8)} (hd : Drains (decodeBytes w) (c.recvBuffer.unread ++ chunk) vs o)
    (hfuel : L < fuel) :
    (0 < c.sock ∧ Closes handler c.calls vs →
      (c.arrived chunk).processRecv w results fuel handler chunk.length = .error .nullPointer) ∧
    (¬ (0 < c.sock ∧ Closes handler c.calls vs) →
      ∃ code c', (c.arrived chunk).processRecv w results fuel handler chunk.length =
          .ok (code, c') ∧
        c'.calls = c.calls ++ vs.map .onReceive ∧
        (∀ r, o = some r → code = 0 ∧ Receiving L c' ∧ I c' ∧ c'.recvBuffer.unread = r) ∧
        (o = none → code = -1 ∧ ∃ c₁, Receiving L c₁ ∧ I c₁ ∧ c' = c₁.close)) := by
  obtain ⟨hok, hun, hlen, -, -⟩ := h.recv.arrive chunk hfit
  let c₁ : HSClientConnector := { c with recvBuffer := { c.recvBuffer with
    toHSBuffer := ((c.recvBuffer.put c.recvBuffer.inOffset chunk).dataIn chunk.length).2 } }
  have h₁ : Receiving L c₁ := ⟨hok, hlen.trans h.length_eq, h.unpacker⟩
  have hun₁ : c₁.recvBuffer.unread = c.recvBuffer.unread ++ chunk := hun
  have hshort : (c.recvBuffer.unread ++ chunk).length < fuel := by
    have hle := c₁.recvBuffer.unread_length_le
    have hin := h₁.recv.in_le
    rw [h₁.length_eq] at hin
    rw [hun₁] at hle
    omega
  obtain ⟨hfails, hgives⟩ := h₁.unpackLoop hI hd (hI.frame c _ c.calls hi) hun₁ hshort
  rw [processRecv_eq h.unpacker hne]
  refine ⟨fun hc => ?_, fun hc => ?_⟩
  · rw [hfails hc]
    rfl
  · obtain ⟨e, c', hloop, hcalls, hsome, hnone⟩ := hgives hc
    rw [hloop]
    refine ⟨(afterUnpack (e, c')).1, (afterUnpack (e, c')).2, rfl, ?_, fun r hr => ?_,
      fun ho => ?_⟩
    · rw [← hcalls]
      rcases e with - | - | -
      · rfl
      · rfl
      · dsimp only [afterUnpack]
        split_ifs <;> rfl
    · obtain ⟨he, hr', hi', hun'⟩ := hsome r hr
      rcases e with - | - | -
      · exact absurd rfl he
      · exact ⟨rfl, hr', hi', hun'⟩
      · obtain ⟨hmok, hmun, hmlen, -, -⟩ := hr'.recv.moveUnuseData2Begin
        refine ⟨rfl, ?_⟩
        dsimp only [afterUnpack]
        split_ifs
        · exact ⟨⟨hmok, hmlen.trans hr'.length_eq, hr'.unpacker⟩, hI.frame c' _ c'.calls hi',
            hmun.trans hun'⟩
        · exact ⟨hr', hi', hun'⟩
    · obtain ⟨rfl, hclosed⟩ := hnone ho
      exact ⟨rfl, hclosed⟩

/-- The connectors that come about by `Init`, by calls of `Process` on bytes that fit the free tail,
and by sends, disconnects and closes in between. A closed connector may be initialized again. -/
inductive Fed (w : ULongWidth) (results : ℕ → ℤ) (handler : DataHandler) :
    HSClientConnector → Prop
  | new (recvMem sendMem : ℕ → UInt8) : Fed w results handler (new recvMem sendMem)
  | init {c : HSClientConnector} {recvLen sendLen : ℕ} (startup : Bool) (sock : ℤ)
      (nonBlocking : Bool) (recvMem sendMem : ℕ → UInt8) :
      Fed w results handler c → c.unpacker = false → recvLen < 2 ^ 64 → sendLen < 2 ^ 64 →
      Fed w results handler (c.init recvLen sendLen startup sock nonBlocking recvMem sendMem).2
  | process {c c' : HSClientConnector} {chunk : List UInt8} {fuel : ℕ} {code : ℤ} :
      Fed w results handler c → c.unpacker = true →
      chunk.length ≤ c.recvBuffer.length - c.recvBuffer.inOffset → c.recvBuffer.length < fuel →
      (c.arrived chunk).processRecv w results fuel handler chunk.length = .ok (code, c') →
      Fed w results handler c'
  | acted {c c' : HSClientConnector} {a : ClientAction} :
      Fed w results handler c → c.runAction w results a = .ok c' → Fed w results handler c'

structure Alive (c : HSClientConnector) : Prop where
  send : SendOk c
  recv : 0 < c.recvBuffer.length → c.recvBuffer.Ok
  empty : c.unpacker = false →
    c.packer = false ∧ c.recvBuffer.inOffset = 0 ∧ c.sendBuffer.inOffset = 0

theorem alive_of_receiving (h : Receiving L c) (hs : SendOk c) : Alive c :=
  ⟨hs, fun _ => h.recv, fun hu => absurd (h.unpacker.symm.trans hu) (by decide)⟩

theorem Alive.close (h : Alive c) : Alive c.close := by
  by_cases hsock : 0 < c.sock
  · have hs := SendOk.close h.send
    rw [close_eq hsock] at hs ⊢
    exact ⟨hs, fun hlen => absurd hlen (lt_irrefl 0), fun _ => ⟨rfl, rfl, rfl⟩⟩
  · rw [close_unopened hsock]
    exact h

theorem setLength_ok {b : HSRecvBuffer} (h : 0 < b.length → b.Ok) (hin : b.inOffset = 0) {len : ℕ}
    (hlen : len < 2 ^ 64) (mem : ℕ → UInt8)
    (hpos : 0 < (b.toHSBuffer.setLength len mem).length) :
    HSRecvBuffer.Ok { b with toHSBuffer := b.toHSBuffer.setLength len mem } := by
  by_cases hzero : len = 0
  · have hsame : b.toHSBuffer.setLength len mem = b.toHSBuffer := if_neg fun hc => hc.1 hzero
    rw [hsame] at hpos ⊢
    exact h hpos
  · by_cases hb : b.length = 0
    · have hsame : b.toHSBuffer.setLength len mem = b.toHSBuffer := if_neg fun hc => hc.2.1 hb
      rw [hsame] at hpos ⊢
      exact h hpos
    · exact ((h (Nat.pos_of_ne_zero hb)).setLength hin (Nat.pos_of_ne_zero hzero) hlen mem).1

theorem Alive.init (h : Alive c) (hu : c.unpacker = false) {recvLen sendLen : ℕ}
    (hrecv : recvLen < 2 ^ 64) (hsend : sendLen < 2 ^ 64) (startup : Bool) (sock : ℤ)
    (nonBlocking : Bool) (recvMem sendMem : ℕ → UInt8) :
    Alive (c.init recvLen sendLen startup sock nonBlocking recvMem sendMem).2 := by
  obtain ⟨-, hrecvIn, hsendIn⟩ := h.empty hu
  have hsock : Alive { c with sock := sock } := ⟨h.send, h.recv, h.empty⟩
  simp only [HSClientConnector.init]
  split_ifs
  · exact h
  · exact hsock
  · exact hsock
  · refine ⟨(HSSendBuffer.Ok.setLength h.send hsendIn hsend sendMem).1, fun hpos => ?_,
      fun hc => (by cases hc)⟩
    exact setLength_ok h.recv hrecvIn hrecv recvMem hpos

theorem Alive.acted (h : Alive c) {a : ClientAction} (ha : c.runAction w results a = .ok c') :
    Alive c' := by
  cases a with
  | send data =>
    obtain ⟨r, c₁, hs, h₁, hleaves, -⟩ := @SendOk.send w results c h.send data
    have hc : c₁ = c' := by
      rw [runAction, hs] at ha
      exact Except.ok.inj ha
    subst hc
    obtain ⟨hunpacker, hrecv⟩ := hleaves.kept id
    refine ⟨h₁, hrecv ▸ h.recv, fun hu => ?_⟩
    have hempty := h.empty (hunpacker.symm.trans hu)
    -- nothing is written without a packer
    have hsame : c₁ = c := by
      simp only [HSClientConnector.send, write_detached hempty.1] at hs
      cases hs
      rfl
    rw [hsame]
    exact hempty
  | disconnect =>
    cases ha
    exact h
  | close =>
    cases ha
    exact h.close

theorem Alive.receiving (h : Alive c) (hu : c.unpacker = true) (hpos : 0 < c.recvBuffer.length) :
    Receiving c.recvBuffer.length c := ⟨h.recv hpos, rfl, hu⟩

theorem Alive.process (h : Alive c) (hu : c.unpacker = true) {chunk : List UInt8}
    (hfit : chunk.length ≤ c.recvBuffer.length - c.recvBuffer.inOffset)
    (hfuel : c.recvBuffer.length < fuel) {vs : List (List UInt8)} {o : Option (List UInt8)}
    (hd : Drains (decodeBytes w) (c.recvBuffer.unread ++ chunk) vs o) :
    (chunk ≠ [] ∧ 0 < c.sock ∧ Closes handler c.calls vs →
      (c.arrived chunk).processRecv w results fuel handler chunk.length = .error .nullPointer) ∧
    (¬ (chunk ≠ [] ∧ 0 < c.sock ∧ Closes handler c.calls vs) →
      ∃ code c', (c.arrived chunk).processRecv w results fuel handler chunk.length =
        .ok (code, c') ∧ Alive c') := by
  by_cases hne : chunk = []
  · subst hne
    refine ⟨fun hc => absurd rfl hc.1, fun _ => ⟨0, c, ?_, h⟩⟩
    rw [processRecv, arrived, HSBuffer.put_nil]
    exact if_pos rfl
  · have hpos : 0 < c.recvBuffer.length := by
      have := List.length_pos_iff.mpr hne
      omega
    obtain ⟨hfails, hgives⟩ := (h.receiving hu hpos).processRecv
      (handles_sendOk w results handler) h.send hne hfit hd hfuel
    refine ⟨fun hc => hfails hc.2, fun hc => ?_⟩
    obtain ⟨code, c', hproc, -, hsome, hnone⟩ := hgives fun hc' => hc ⟨hne, hc'⟩
    refine ⟨code, c', hproc, ?_⟩
    cases o with
    | some r =>
      obtain ⟨-, hr, hs, -⟩ := hsome r rfl
      exact alive_of_receiving hr hs
    | none =>
      obtain ⟨-, c₁, hr, hs, rfl⟩ := hnone rfl
      exact (alive_of_receiving hr hs).close

theorem Fed.alive (h : Fed w results handler c) : Alive c := by
  induction h with
  | new recvMem sendMem =>
    exact ⟨HSSendBuffer.new_ok sendMem (by decide),
      fun _ => HSRecvBuffer.new_ok recvMem (by decide) (by decide), fun _ => ⟨rfl, rfl, rfl⟩⟩
  | init startup sock nonBlocking recvMem sendMem _ hu hrecv hsend ih =>
    exact ih.init hu hrecv hsend startup sock nonBlocking recvMem sendMem
  | @process c c' chunk fuel code _ hu hfit hfuel hproc ih =>
    obtain ⟨vs, o, hd⟩ := exists_drains (incremental_decodeBytes w) (c.recvBuffer.unread ++ chunk)
    obtain ⟨hfails, hgives⟩ :=
      @Alive.process w results handler fuel c ih hu chunk hfit hfuel vs o hd
    by_cases hc : chunk ≠ [] ∧ 0 < c.sock ∧ Closes handler c.calls vs
    · rw [hfails hc] at hproc
      cases hproc
    · obtain ⟨code', c₁, hproc', h₁⟩ := hgives hc
      rw [hproc'] at hproc
      cases hproc
      exact h₁
  | acted _ ha ih => exact ih.acted ha

/-- Nothing is done through a NULL pointer just when the handler closes in no call for a packet that
is complete now, or `Close` has no effect. -/
theorem process_notNull_iff (h : Fed w results handler c) (hinit : c.unpacker = true)
    {chunk : List UInt8} (hfit : chunk.length ≤ c.recvBuffer.length - c.recvBuffer.inOffset)
    (hfuel : c.recvBuffer.length < fuel) {vs : List (List UInt8)} {o : Option (List UInt8)}
    (hd : Drains (decodeBytes w) (c.recvBuffer.unread ++ chunk) vs o) :
    ((c.arrived chunk).processRecv w results fuel handler chunk.length ≠ .error .nullPointer ↔
      ¬ (chunk ≠ [] ∧ 0 < c.sock ∧ Closes handler c.calls vs)) ∧
    (¬ (chunk ≠ [] ∧ 0 < c.sock ∧ Closes handler c.calls vs) →
      ∃ code c', (c.arrived chunk).processRecv w results fuel handler chunk.length =
        .ok (code, c')) := by
  obtain ⟨hfails, hgives⟩ := @Alive.process w results handler fuel c h.alive hinit chunk hfit
    hfuel vs o hd
  refine ⟨⟨fun hne hc => hne (hfails hc), fun hc hnull => ?_⟩, fun hc => ?_⟩
  · obtain ⟨code, c', hproc, -⟩ := hgives hc
    rw [hproc] at hnull
    cases hnull
  · obtain ⟨code, c', hproc, -⟩ := hgives hc
    exact ⟨code, c', hproc⟩

theorem fed_initialized (handler : DataHandler) {recvLen sendLen : ℕ} (hrecv : recvLen < 2 ^ 64)
    (hsend : sendLen < 2 ^ 64) (sock : ℤ) (recvMem sendMem : ℕ → UInt8) :
    Fed w results handler (initialized recvLen sendLen sock recvMem sendMem) :=
  .init true sock true recvMem sendMem (.new recvMem sendMem) rfl hrecv hsend

theorem process_notNull_disconnects :
    ∃ code c', ((initialized 8192 64 1 (fun _ => 0) (fun _ => 0)).arrived
        (encoding .eight [1] [0, 0, 0, 0])).processRecv .eight (fun _ => 0) 8193
        (fun _ => [.send ⟨[2], by decide⟩, .disconnect])
        (encoding .eight [1] [0, 0, 0, 0]).length = .ok (code, c') := by
  have henc : IsEncoding .eight [1] (encoding .eight [1] [0, 0, 0, 0]) :=
    isEncoding_encoding (by decide) (by decide)
  have hone : Drains (decodeBytes .eight) (encoding .eight [1] [0, 0, 0, 0]) [[1]] (some []) :=
    .frame henc.decodes.whole (.incomplete (decodeBytes_nil _))
  refine (process_notNull_iff (fed_initialized _ (by decide) (by decide) 1 (fun _ => 0) fun _ => 0)
    rfl (by decide) (by decide) hone).2 fun hc => ?_
  rcases hc.2.2 with hclose | hlater
  · simp at hclose
  · exact hlater

theorem process_null :
    Fed .eight (fun _ => 0) (fun _ => [.close])
        (initialized 8192 64 1 (fun _ => 0) (fun _ => 0)) ∧
      (initialized 8192 64 1 (fun _ => 0) (fun _ => 0)).unpacker = true ∧
      ((initialized 8192 64 1 (fun _ => 0) (fun _ => 0)).arrived
        (encoding .eight [1] [0, 0, 0, 0])).processRecv .eight (fun _ => 0) 8193
        (fun _ => [.close]) (encoding .eight [1] [0, 0, 0, 0]).length = .error .nullPointer := by
  refine ⟨fed_initialized _ (by decide) (by decide) 1 _ _, rfl, ?_⟩
  exact error_of_map (f := fun _ => ()) (by decide +kernel)

end HsCommon.HSClientConnector
