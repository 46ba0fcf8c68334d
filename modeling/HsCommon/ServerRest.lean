import HsCommon.ClientServer
import Mathlib.Algebra.Order.BigOperators.Group.Finset

/-!
# A server comes to rest

When no client connects or sends any more, the accepts and the bytes on all connections come to an
end, in whatever order they are. A handler may answer each packet with any number of packets, so
that what is left to do at the server is bounded only after what is left to arrive: the measure has
the two as a pair, with the sums over all clients and over all sessions.
-/

namespace HsCommon.ServerNet
open Transition Outcome HSSession Link

variable {w : ULongWidth} {fuel : ℕ} {handler : EventHandler} {recvMem sendMem : ℕ → ℕ → UInt8}
  {n n' : ServerNet} {c : ℕ}

def Progress : NetEvent → Prop
  | .accepted _ _ => True
  | .along _ _ e => Link.Progress e
  | .dial _ | .refused _ _ | .beyond _ _ => False

theorem Progress.regular {e : NetEvent} (he : Progress e) : Regular e := by
  cases e with
  | beyond c e => exact absurd he id
  | _ => trivial

def AtRest (n : ServerNet) : Prop := ∀ e, Progress e → ¬ n.Possible e

def toArrive (n : ServerNet) (c : ℕ) : ℕ :=
  2 * (n.clients c).sendBuffer.unsent.length + (n.wire c false).length

def toAnswer (n : ServerNet) (i : ℕ) : ℕ := (n.service.sessions i).sendBuffer.unsent.length

def pending (n : ServerNet) : ℕ ×ₗ ℕ :=
  toLex ((∑ c ∈ Finset.range n.dials, n.toArrive c) + n.waiting.length,
    ∑ i ∈ Finset.range n.service.count, n.toAnswer i)

theorem sum_lt_of_one {f g : ℕ → ℕ} {m k : ℕ} (hk : k < m) (hlt : f k < g k)
    (hother : ∀ j ≠ k, f j = g j) :
    ∑ j ∈ Finset.range m, f j < ∑ j ∈ Finset.range m, g j := by
  refine Finset.sum_lt_sum (fun j _ => ?_) ⟨k, Finset.mem_range.mpr hk, hlt⟩
  by_cases heq : j = k
  · rw [heq]
    exact hlt.le
  · exact (hother j heq).le

theorem accepted_lt {k : ℕ} (hc : c ∈ n.waiting)
    (hexec : n.exec w fuel recvMem sendMem (.accepted k c) = .ok n') : pending n' < pending n := by
  obtain ⟨p, -, hres⟩ := exists_of_bind hexec
  obtain rfl := Except.ok.inj hres
  refine Prod.Lex.toLex_lt_toLex.mpr (Or.inl ?_)
  dsimp only
  rw [List.length_erase_of_mem hc]
  have hpos := List.length_pos_of_mem hc
  exact Nat.add_lt_add_left (Nat.sub_lt hpos Nat.one_pos) _

theorem Serving.client (h : Serving w recvMem sendMem handler n) (hc : c < n.dials)
    (hlost : n.lost c = false) : Orderly (n.clients c) ∧ (n.clients c).reads = [] := by
  cases hi : n.sessionOf c with
  | none =>
    have hcalling := h.calling c ((h.waiting c).mpr ⟨hc, hi⟩)
    exact ⟨hcalling.orderly, hcalling.reads⟩
  | some i =>
    have hlinked := h.linked c (by rw [hi]; rfl) hlost
    exact ⟨hlinked.orderly, hlinked.reads⟩

theorem Serving.client_lt (h : Serving w recvMem sendMem handler n) {e : SessionEvent}
    (he : Link.Progress e) (hposs : n.Possible (.along c false e))
    (hexec : n.exec w fuel recvMem sendMem (.along c false e) = .ok n') :
    pending n' < pending n := by
  obtain ⟨hc, hlost, -, hposs, hallows⟩ := hposs
  obtain ⟨hord, hreads⟩ := h.client hc hlost
  cases e with
  | send data => exact absurd he id
  | readDone k r =>
    cases r with
    | failure v => exact absurd he id
    | success chunk =>
      obtain ⟨op, hop, -⟩ := hposs
      change (n.clients c).reads[k]? = some op at hop
      rw [hreads] at hop
      cases hop
  | writeDone k r =>
    cases r with
    | failure v => exact absurd he id
    | success m =>
      have hm : 0 < m := hallows.2
      obtain ⟨s, hs, hall⟩ := hord.exec hallows.1 hposs w fuel
      obtain ⟨hunsent, htaken⟩ := moved hord hs hm hposs
      rw [exec, hall] at hexec
      obtain rfl := Except.ok.inj hexec
      have hwire : (n.connection c).carried false (.writeDone k (.success m)) false =
          n.wire c false ++ (n.clients c).takenWith (.writeDone k (.success m)) := rfl
      refine Prod.Lex.toLex_lt_toLex.mpr (Or.inl ?_)
      refine Nat.add_lt_add_right (sum_lt_of_one hc ?_ fun j hj => ?_) _
      · simp only [toArrive, Function.update_self, hwire, List.length_append, htaken]
        omega
      · simp only [toArrive, Function.update_of_ne hj]

theorem Serving.server_lt (h : Serving w recvMem sendMem handler n) {e : SessionEvent}
    (he : Link.Progress e) (hposs : n.Possible (.along c true e))
    (hexec : n.exec w fuel recvMem sendMem (.along c true e) = .ok n') :
    pending n' < pending n := by
  obtain ⟨hc, hlost, hsome, hposs, hallows⟩ := hposs
  obtain ⟨i, hi⟩ := Option.isSome_iff_exists.mp (hsome rfl)
  have hserver : (n.connection c).sessions true = n.service.sessions i := by
    simp only [connection, hi, Option.getD_some]
  cases e with
  | send data => exact absurd he id
  | readDone k r =>
    cases r with
    | failure v => exact absurd he id
    | success chunk =>
      obtain ⟨hne, hchunk⟩ := hallows
      obtain ⟨p, -, hres⟩ := exists_of_bind hexec
      obtain rfl := Except.ok.inj hres
      have hwire : (n.connection c).carried true (.readDone k (.success chunk)) false =
          (n.wire c false).drop chunk.length := rfl
      have hpos : 0 < chunk.length := List.length_pos_iff.mpr hne
      have hle : chunk.length ≤ (n.wire c false).length := hchunk.length_le
      refine Prod.Lex.toLex_lt_toLex.mpr (Or.inl ?_)
      refine Nat.add_lt_add_right (sum_lt_of_one hc ?_ fun j hj => ?_) _
      · simp only [toArrive, Function.update_self, hwire, List.length_drop]
        omega
      · simp only [toArrive, Function.update_of_ne hj]
  | writeDone k r =>
    cases r with
    | failure v => exact absurd he id
    | success m =>
      have hm : 0 < m := hallows.2
      obtain ⟨bytes, -, hhear⟩ := (h.linked c (hsome rfl) hlost).hearing
      have hord : Orderly (n.service.sessions i) := hserver ▸ hhear.reading.send
      rw [hserver] at hposs
      obtain ⟨s, hs, hall⟩ := hord.exec hallows.1 hposs w fuel
      obtain ⟨hunsent, -⟩ := moved hord hs hm hposs
      rw [exec, hi, Option.getD_some, IoService.exec, hall] at hexec
      obtain rfl := Except.ok.inj hexec
      have hwire : (n.connection c).carried true (.writeDone k (.success m)) false =
          n.wire c false := rfl
      refine Prod.Lex.toLex_lt_toLex.mpr (Or.inr ⟨?_, ?_⟩)
      · refine congrArg (fun m : ℕ => m + n.waiting.length) (Finset.sum_congr rfl fun j _ => ?_)
        by_cases hj : j = c
        · subst hj
          simp only [toArrive, Function.update_self, hwire]
        · simp only [toArrive, Function.update_of_ne hj]
      · refine sum_lt_of_one (Nat.lt_of_succ_lt (h.known c i hi).2) ?_ fun j hj => ?_
        · simp only [toAnswer, IoService.put, Function.update_self]
          omega
        · simp only [toAnswer, IoService.put, Function.update_of_ne hj]

theorem Serving.progress (h : Serving w recvMem sendMem handler n) (hcalm : Calm handler)
    (hfuel : clientSessionDataBufferDefaultSize < fuel) {e : NetEvent}
    (hs : Guarded (fun _ e => Progress e) (Step w fuel recvMem sendMem) n e n') :
    Serving w recvMem sendMem handler n' ∧ pending n' < pending n := by
  obtain ⟨hp, hposs, hexec⟩ := hs
  obtain ⟨n₁, hexec₁, hn₁⟩ := h.regular hcalm hfuel hp.regular hposs
  rw [hexec] at hexec₁
  obtain rfl := Except.ok.inj hexec₁
  refine ⟨hn₁, ?_⟩
  cases e with
  | dial d => exact absurd hp id
  | refused k v => exact absurd hp id
  | beyond c e => exact absurd hp id
  | accepted k c => exact accepted_lt hposs.2 hexec
  | along c side e =>
    cases side with
    | false => exact h.client_lt hp hposs hexec
    | true => exact h.server_lt hp hposs hexec

theorem Serving.none_waiting (h : Serving w recvMem sendMem handler n) (hrest : AtRest n) :
    n.waiting = [] := by
  obtain ⟨i, -, haccepts, -⟩ := h.accept
  refine List.eq_nil_iff_forall_not_mem.mpr fun c hc => ?_
  refine hrest (.accepted 0 c) trivial ⟨?_, hc⟩
  rw [haccepts]
  exact Nat.one_pos

theorem Serving.heard (h : Serving w recvMem sendMem handler n) (hrest : AtRest n) {i : ℕ}
    (hi : n.sessionOf c = some i) (hlost : n.lost c = false) (hawake : Awake (n.clients c)) :
    ∃ datas, List.Forall₂ (IsEncoding w) datas (n.clients c).appended ∧
      (n.service.sessions i).calls = .onConnect :: datas.map .onReceive := by
  have hsome : (n.sessionOf c).isSome := by rw [hi]; rfl
  have hlinked := h.linked c hsome hlost
  have hlink : Link.AtRest (n.connection c) := fun side e he hposs =>
    hrest (.along c side e) he ⟨(h.known c i hi).1, hlost, fun _ => hsome, hposs⟩
  obtain ⟨hwire, hwrites⟩ := hlinked.atRest hlink
  have hunsent : (n.clients c).sendBuffer.unsent = [] :=
    (hlinked.orderly.awake_iff.mp hawake).resolve_right fun hne => hne hwrites
  obtain ⟨datas, got, henc, -, hcalls, hall⟩ := hlinked.delivered
  obtain rfl := hall hwire hunsent
  have hserver : (n.connection c).sessions true = n.service.sessions i := by
    simp only [connection, hi, Option.getD_some]
  exact ⟨got, henc, hserver ▸ hcalls⟩

/-- From every state of a server the accepts and the bytes on its connections come to rest, in
whatever order they are. At rest every client has been accepted, and the handler of its session has
been given all that was appended at its end, unless it sleeps on unsent bytes or the connection had
an event of another origin. -/
theorem server_settles (hcalm : Calm handler) (hfuel : clientSessionDataBufferDefaultSize < fuel)
    {es : List NetEvent}
    (h : Run (Step w fuel recvMem sendMem) (start recvMem sendMem handler) es n) :
    (∃ es' n', Run (Guarded (fun _ e => Progress e) (Step w fuel recvMem sendMem)) n es' n' ∧
      AtRest n') ∧
    (¬ ∃ f : ℕ → ServerNet, f 0 = n ∧ ∀ k, ∃ e,
      Guarded (fun _ e => Progress e) (Step w fuel recvMem sendMem) (f k) e (f (k + 1))) ∧
    (AtRest n → ∀ c < n.dials, ∃ i, n.sessionOf c = some i ∧
      (n.lost c = false → Awake (n.clients c) →
        ∃ datas, List.Forall₂ (IsEncoding w) datas (n.clients c).appended ∧
          (n.service.sessions i).calls = .onConnect :: datas.map .onReceive)) := by
  have hserving := Serving.run hcalm hfuel h
  have hstep : ∀ n e n', Serving w recvMem sendMem handler n →
      Guarded (fun _ e => Progress e) (Step w fuel recvMem sendMem) n e n' →
        Serving w recvMem sendMem handler n' ∧ pending n' < pending n :=
    fun _ _ _ hn hs => hn.progress hcalm hfuel hs
  refine ⟨?_, no_endless hstep hserving, ?_⟩
  · obtain ⟨es', n', hrun, hend⟩ := exists_rest hstep hserving
    refine ⟨es', n', hrun, fun e hp hposs => ?_⟩
    have hn' : Serving w recvMem sendMem handler n' :=
      hrun.invariant hserving fun n₁ e n₂ hn₁ hs => (hstep n₁ e n₂ hn₁ hs).1
    obtain ⟨n'', hexec, -⟩ := hn'.regular hcalm hfuel hp.regular hposs
    exact hend e n'' ⟨hp, hposs, hexec⟩
  · intro hrest c hc
    cases hi : n.sessionOf c with
    | none =>
      have hwait := (hserving.waiting c).mpr ⟨hc, hi⟩
      rw [hserving.none_waiting hrest] at hwait
      exact absurd hwait List.not_mem_nil
    | some i => exact ⟨i, rfl, fun hlost hawake => hserving.heard hrest hi hlost hawake⟩

theorem server_settles_twoClients :
    ∃ n es' n', n.waiting = [0] ∧ (n.clients 0).sendBuffer.unsent.length = 13 ∧
      Run (Guarded (fun _ e => Progress e)
        (Step .eight 32769 (fun _ _ => 0) fun _ _ => 0)) n es' n' ∧ AtRest n' := by
  obtain ⟨n, hrun, hn⟩ := @run_of_foldlM .eight 32769 (fun _ _ => 0) (fun _ _ => 0) _
    (start (fun _ _ => 0) (fun _ _ => 0) fun _ => [])
    [.dial passiveDial, .dial passiveDial, .along 0 false (.send ⟨[7], by decide⟩),
      .accepted 0 1]
    (fun n => (n.waiting, (n.clients 0).sendBuffer.unsent.length)) ([0], 13) (by decide +kernel)
  obtain ⟨hwaiting, hunsent⟩ := Prod.mk.inj hn
  have hcalm : Calm fun _ => [] := fun _ h => by cases h
  obtain ⟨⟨es', n', hrest, hend⟩, -, -⟩ := server_settles hcalm (by decide) hrun
  exact ⟨n, es', n', hwaiting, hunsent, hrest, hend⟩

end HsCommon.ServerNet
