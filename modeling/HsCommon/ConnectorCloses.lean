import HsCommon.ConnectorSockets
import HsCommon.Library.Histories

/-!
# Closing a connector

The socket calls of a connector are checked one by one against those before them. A connector that
has been closed keeps the descriptor, so its destructor closes it again, and so does a second
`Close`. `Disconnect` and `Connect` use it as well.
-/

namespace HsCommon
open Histories

namespace SocketCall

def isClose : SocketCall → Bool
  | close _ => true
  | _ => false

def Uses (sock : ℤ) : SocketCall → Prop
  | on _ sock' => sock' = sock
  | close sock' => sock' = sock
  | _ => False

/-- A descriptor is closed at most once between two times it is obtained, there are no more closes
than `Init`s that have returned true, and no descriptor is used between a close and the next
`Init`. -/
structure Proper (log : List SocketCall) : Prop where
  once : ∀ before sock during after, log = before ++ .socket sock :: (during ++ after) →
    .socket sock ∉ during → during.count (.close sock) ≤ 1
  closes : ∀ past, past <+: log → past.countP isClose ≤ past.count .initialized
  cleanups : ∀ past, past <+: log → past.count .cleanup ≤ past.count .initialized
  unused : ∀ before sock during c after,
    log = before ++ .close sock :: (during ++ c :: after) → c.Uses sock → .init ∈ during

def Fine (log : List SocketCall) : SocketCall → Prop
  | on _ sock => ¬ Since .init (.close sock) log
  | close sock => ¬ Since .init (.close sock) log ∧
      (.socket sock ∈ log → ¬ Since (.socket sock) (.close sock) log) ∧
      log.countP isClose < log.count .initialized
  | cleanup => log.count .cleanup < log.count .initialized
  | init | socket _ | initialized => True

variable {log : List SocketCall} {c : SocketCall}

theorem proper_nil : Proper [] where
  once before _ _ _ h := by cases before <;> cases h
  closes past h := by rw [List.prefix_nil.mp h]; rfl
  cleanups past h := by rw [List.prefix_nil.mp h]; rfl
  unused before _ _ _ _ h := by cases before <;> cases h

theorem Proper.of_append {more : List SocketCall} (h : Proper (log ++ more)) : Proper log where
  once before sock during after hlog :=
    h.once before sock during (after ++ more) (by rw [hlog]; simp)
  closes past hpast := h.closes past (hpast.trans (List.prefix_append _ _))
  cleanups past hpast := h.cleanups past (hpast.trans (List.prefix_append _ _))
  unused before sock during c after hlog :=
    h.unused before sock during c (after ++ more) (by rw [hlog]; simp)

theorem Proper.not_since {sock : ℤ} (h : Proper (log ++ [c])) (hc : c.Uses sock) :
    ¬ Since .init (.close sock) log := by
  rintro ⟨before, during, rfl, hinit⟩
  exact hinit (h.unused before sock during c [] (by simp) hc)

theorem Proper.fine (h : Proper (log ++ [c])) : Fine log c := by
  cases c with
  | on f sock => exact h.not_since rfl
  | close sock =>
    refine ⟨h.not_since rfl, fun hmem hsince => ?_, ?_⟩
    · obtain ⟨before, during, rfl, hlast⟩ := exists_last hmem
      have hclosed : .close sock ∈ during := by
        by_contra hnot
        exact not_since_append_cons (by simp) hnot hsince
      have hcount := h.once before sock (during ++ [.close sock]) [] (by simp)
        (by simpa using hlast)
      rw [List.count_append, List.count_singleton_self] at hcount
      have := List.count_pos_iff.mpr hclosed
      omega
    · have hle := h.closes _ List.prefix_rfl
      rw [List.countP_append, List.count_append] at hle
      exact hle
  | cleanup =>
    have hle := h.cleanups _ List.prefix_rfl
    rw [List.count_append, List.count_append] at hle
    exact hle
  | _ => trivial

theorem Proper.snoc (h : Proper log) (hc : Fine log c) : Proper (log ++ [c]) where
  once before sock during after hlog hsocket := by
    obtain ⟨-, -, hnil⟩ | ⟨rest, rfl, hrest⟩ := snoc_eq_append hlog
    · rw [(List.append_eq_nil_iff.mp hnil).1]
      exact Nat.zero_le _
    rcases List.eq_nil_or_concat after with rfl | ⟨after, y, rfl⟩
    · rw [List.append_nil] at hrest
      rw [hrest, List.mem_append, not_or] at hsocket
      rw [hrest, List.count_append]
      by_cases hclose : c = .close sock
      · subst hclose
        have hnot : .close sock ∉ rest := fun hmem => by
          obtain ⟨before', after', rfl⟩ := List.append_of_mem hmem
          refine hc.2.1 (List.mem_append_right _ List.mem_cons_self)
            ⟨before ++ .socket sock :: before', after', by simp, fun hm => ?_⟩
          exact hsocket.1 (List.mem_append_right _ (List.mem_cons_of_mem _ hm))
        rw [List.count_eq_zero_of_not_mem hnot, List.count_singleton_self]
      · have hold := h.once before sock rest [] (by simp) hsocket.1
        rwa [List.count_singleton, if_neg (by simpa using hclose)]
    · rw [List.concat_eq_append, ← List.append_assoc] at hrest
      obtain ⟨rfl, -⟩ := List.append_inj' hrest rfl
      exact h.once before sock during after rfl hsocket
  closes past hpast := by
    rcases List.prefix_concat_iff.mp hpast with rfl | hpast
    · have hle := h.closes log List.prefix_rfl
      cases c with
      | close sock =>
        rw [List.countP_append, List.count_append]
        exact hc.2.2
      | _ =>
        rw [List.countP_append, List.count_append]
        exact Nat.le_add_right_of_le hle
    · exact h.closes past hpast
  cleanups past hpast := by
    rcases List.prefix_concat_iff.mp hpast with rfl | hpast
    · have hle := h.cleanups log List.prefix_rfl
      rw [List.count_append, List.count_append]
      cases c with
      | cleanup => exact hc
      | _ => exact Nat.le_add_right_of_le hle
    · exact h.cleanups past hpast
  unused before sock during c' after hlog hused := by
    rw [← List.cons_append, ← List.append_assoc] at hlog
    obtain ⟨rfl, rfl, -⟩ | ⟨rest, hlog, -⟩ := snoc_eq_append hlog
    · by_contra hinit
      have hsince : Since .init (.close sock) (before ++ .close sock :: during) :=
        ⟨before, during, rfl, hinit⟩
      cases c with
      | on f sock' =>
        obtain rfl : sock' = sock := hused
        exact hc hsince
      | close sock' =>
        obtain rfl : sock' = sock := hused
        exact hc.1 hsince
      | _ => exact hused
    · exact h.unused before sock during c' rest (by rw [hlog]; simp) hused

theorem proper_snoc : Proper (log ++ [c]) ↔ Proper log ∧ Fine log c :=
  ⟨fun h => ⟨h.of_append, h.fine⟩, fun h => h.1.snoc h.2⟩

theorem proper_append (h : Proper log) (calls : List SocketCall)
    (hcalls : ∀ c ∈ calls, c.isClose = false ∧ c ≠ .cleanup ∧ ∀ f sock, c ≠ .on f sock) :
    Proper (log ++ calls) := by
  induction calls using List.reverseRecOn with
  | nil => rwa [List.append_nil]
  | append_singleton calls c ih =>
    rw [← List.append_assoc, proper_snoc]
    refine ⟨ih fun c hc => hcalls c (List.mem_append_left _ hc), ?_⟩
    obtain ⟨hclose, hcleanup, hon⟩ := hcalls c (List.mem_append_right _ List.mem_cons_self)
    cases c with
    | on f sock => exact absurd rfl (hon f sock)
    | close sock => cases hclose
    | cleanup => exact absurd rfl hcleanup
    | _ => trivial

end SocketCall

namespace SocketUser
open Transition Outcome SocketCall

variable {p : Platform} {w : ULongWidth} {results : ℕ → ℤ} {fuel : ℕ}
  {handler : Option DataHandler} {s s' : SocketUser}

def Usable (s : SocketUser) : Prop := ¬ Since .init (.close s.sock) s.log

structure Closable (s : SocketUser) : Prop where
  usable : s.Usable
  unclosed : .socket s.sock ∈ s.log → ¬ Since (.socket s.sock) (.close s.sock) s.log
  unpaid : s.log.countP isClose < s.log.count .initialized

structure SameDescriptor (s s' : SocketUser) : Prop where
  sock : s'.sock = s.sock
  usable : s'.Usable ↔ s.Usable
  closable : s'.Closable ↔ s.Closable

theorem SameDescriptor.refl (s : SocketUser) : SameDescriptor s s := ⟨rfl, Iff.rfl, Iff.rfl⟩

theorem SameDescriptor.trans {s'' : SocketUser} (h : SameDescriptor s s')
    (h' : SameDescriptor s' s'') : SameDescriptor s s'' :=
  ⟨h'.sock.trans h.sock, h'.usable.trans h.usable, h'.closable.trans h.closable⟩

theorem sameDescriptor_on (f : SocketFunction) (hsock : s'.sock = s.sock)
    (hlog : s'.log = s.log ++ [.on f s.sock]) : SameDescriptor s s' := by
  have husable : s'.Usable ↔ s.Usable := by
    rw [Usable, Usable, hsock, hlog, since_append (by simp) (by simp) (by simp)]
  refine ⟨hsock, husable, ?_⟩
  constructor
  · rintro ⟨hu, hc, hn⟩
    rw [hsock, hlog, since_append (by simp) (by simp) (by simp)] at hc
    rw [hlog, List.countP_append, List.count_append] at hn
    exact ⟨husable.mp hu, fun hm => hc (List.mem_append_left _ hm), hn⟩
  · rintro ⟨hu, hc, hn⟩
    refine ⟨husable.mpr hu, ?_, ?_⟩
    · rw [hsock, hlog, since_append (by simp) (by simp) (by simp)]
      intro hm
      rcases List.mem_append.mp hm with hm | hm
      · exact hc hm
      · exact absurd (List.mem_singleton.mp hm) (by simp)
    · rw [hlog, List.countP_append, List.count_append]
      exact hn

theorem sameDescriptor_log (hsock : s'.sock = s.sock) (hlog : s'.log = s.log) :
    SameDescriptor s s' := by
  have husable : s'.Usable ↔ s.Usable := by rw [Usable, Usable, hsock, hlog]
  refine ⟨hsock, husable, fun h => ⟨husable.mp h.usable, ?_, ?_⟩,
    fun h => ⟨husable.mpr h.usable, ?_, ?_⟩⟩
  · exact hsock ▸ hlog ▸ h.unclosed
  · exact hlog ▸ h.unpaid
  · rw [hsock, hlog]
    exact h.unclosed
  · rw [hlog]
    exact h.unpaid

theorem on_proper_iff (hs : Proper s.log) (f : SocketFunction)
    (hlog : s'.log = s.log ++ [.on f s.sock]) : Proper s'.log ↔ s.Usable := by
  rw [hlog, proper_snoc]
  exact and_iff_right hs

theorem on_proper (hs : Proper s.log) (huse : s.Usable) (f : SocketFunction) :
    Proper (s.record [.on f s.sock]).log :=
  proper_snoc.mpr ⟨hs, huse⟩

theorem closable_iff : s.Closable ↔ Fine s.log (.close s.sock) :=
  ⟨fun h => ⟨h.usable, h.unclosed, h.unpaid⟩, fun h => ⟨h.1, h.2.1, h.2.2⟩⟩

/-- What holds in every state. The packer loses its buffer when the connector is closed, so a packer
with a buffer sends to a usable descriptor unless a call before has been improper. -/
structure Tracked (p : Platform) (s : SocketUser) : Prop where
  cleanups : s.log.count .cleanup = if p.cleans then s.log.countP isClose else 0
  usable : Proper s.log → s.packer = true ∨ s.state = .connecting ∨ s.state = .connected → s.Usable

theorem Tracked.closed_proper_iff (h : s.Tracked p) (hs : Proper s.log) :
    Proper (s.close p).log ↔ s.sock ≤ 0 ∨ s.Closable := by
  rw [SocketUser.close]
  by_cases hsock : s.sock ≤ 0
  · rw [if_pos hsock]
    exact iff_of_true hs (Or.inl hsock)
  rw [if_neg hsock, or_iff_right hsock]
  have hdown := @sameDescriptor_on s (s.record [.on .shutdown s.sock]) .shutdown rfl rfl
  have hfine := (@closable_iff (s.record [.on .shutdown s.sock])).symm.trans hdown.closable
  have hclosed : Proper (s.log ++ [SocketCall.on .shutdown s.sock, SocketCall.close s.sock]) ↔
      s.Closable := by
    rw [List.append_cons, proper_snoc]
    refine (and_congr_right fun _ => hfine).trans (and_iff_right_of_imp ?_)
    exact fun hc => on_proper hs hc.usable .shutdown
  cases hp : p.cleans with
  | false => simpa [hp] using hclosed
  | true =>
    have hpaid : s.Closable →
        Fine (s.log ++ [SocketCall.on .shutdown s.sock, SocketCall.close s.sock])
          SocketCall.cleanup := by
      intro hc
      have hcleanups := h.cleanups
      rw [hp, if_pos rfl] at hcleanups
      simp only [Fine, List.count_append, hcleanups]
      exact hc.unpaid
    rw [if_pos rfl, ← List.append_assoc, proper_snoc, hclosed]
    exact and_iff_left_of_imp hpaid

theorem close_of_pos (hsock : ¬ s.sock ≤ 0) :
    (s.close p).sock = s.sock ∧ (s.close p).packer = false ∧
      (s.close p).state = .notInitialized ∧ (s.close p).calls = s.calls ∧
      (s.close p).log = s.log ++ ([.on .shutdown s.sock, .close s.sock] ++
        if p.cleans then [.cleanup] else []) := by
  rw [SocketUser.close, if_neg hsock, HSClientConnector.close, if_neg hsock]
  exact ⟨rfl, rfl, rfl, rfl, rfl⟩

theorem close_unusable (hsock : ¬ s.sock ≤ 0) : ¬ (s.close p).Usable := by
  obtain ⟨hsame, -, -, -, hlog⟩ := @close_of_pos p s hsock
  rw [Usable, hsame, hlog, not_not]
  refine ⟨s.log ++ [.on .shutdown s.sock], if p.cleans then [.cleanup] else [], by simp, ?_⟩
  split_ifs <;> simp

theorem usable_of_init {more : List SocketCall} (hlog : s'.log = s.log ++ .init :: more)
    (hmore : .close s'.sock ∉ more) : s'.Usable := by
  rw [Usable, hlog]
  exact not_since_append_cons (by simp) hmore

theorem Tracked.of_calls (h : s.Tracked p) (calls : List SocketCall)
    (hlog : s'.log = s.log ++ calls) (hcalls : ∀ c ∈ calls, c.isClose = false ∧ c ≠ .cleanup)
    (husable : Proper s'.log → s'.packer = true ∨ s'.state = .connecting ∨ s'.state = .connected →
      s'.Usable) : s'.Tracked p := by
  have hcleanup : calls.count .cleanup = 0 := List.count_eq_zero.mpr fun hc => (hcalls _ hc).2 rfl
  have hclose : calls.countP isClose = 0 := List.countP_eq_zero.mpr fun c hc => by
    rw [(hcalls c hc).1]
    exact Bool.false_ne_true
  refine ⟨?_, husable⟩
  rw [hlog, List.count_append, List.countP_append, hcleanup, hclose]
  exact h.cleanups

theorem Tracked.of_on (h : s.Tracked p) (f : SocketFunction) (hsock : s'.sock = s.sock)
    (hlog : s'.log = s.log ++ [.on f s.sock]) (hpacker : s'.packer = s.packer)
    (hstate : s'.state = s.state) : s'.Tracked p := by
  refine h.of_calls [.on f s.sock] hlog (by simp [isClose]) fun hs hopen => ?_
  rw [hpacker, hstate] at hopen
  rw [hlog] at hs
  exact (sameDescriptor_on f hsock hlog).usable.mpr (h.usable hs.of_append hopen)

theorem Tracked.of_log (h : s.Tracked p) (hsock : s'.sock = s.sock) (hlog : s'.log = s.log)
    (hpacker : s'.packer = s.packer) (hstate : s'.state = s.state) : s'.Tracked p := by
  refine h.of_calls [] (by rw [hlog, List.append_nil]) (by simp) fun hs hopen => ?_
  rw [hpacker, hstate] at hopen
  rw [hlog] at hs
  exact (sameDescriptor_log hsock hlog).usable.mpr (h.usable hs hopen)

theorem Tracked.init (h : s.Tracked p) (recvBuffLen sendBuffLen : ℕ) (r : InitResult) :
    (s.init p recvBuffLen sendBuffLen r).2.Tracked p := by
  obtain he | he | he | he := init_cases p recvBuffLen sendBuffLen r s <;> rw [he]
  · exact h.of_calls [.init] rfl (by simp [isClose]) fun _ _ => usable_of_init rfl (by simp)
  · exact h.of_calls [.init] rfl (by simp [isClose]) fun _ _ => usable_of_init rfl (by simp)
  · exact h.of_calls [.init, .socket r.sock, .on .ioctlsocket r.sock] rfl
      (by simp [isClose]) fun _ _ => usable_of_init rfl (by simp)
  · exact h.of_calls
      [.init, .socket r.sock, .on .ioctlsocket r.sock, .initialized] rfl
      (by simp [isClose]) fun _ _ => usable_of_init rfl (by simp)

theorem Tracked.close (h : s.Tracked p) : (s.close p).Tracked p := by
  by_cases hsock : s.sock ≤ 0
  · rwa [SocketUser.close, if_pos hsock]
  obtain ⟨-, hpacker, hstate, -, hlog⟩ := @close_of_pos p s hsock
  refine ⟨?_, fun _ hopen => ?_⟩
  · have hcleanups := h.cleanups
    rw [hlog]
    cases hp : p.cleans with
    | false =>
      rw [hp] at hcleanups
      simpa using hcleanups
    | true =>
      rw [hp, if_pos rfl] at hcleanups
      simp only [if_true, List.count_append, List.countP_append, hcleanups]
      rfl
  · rw [hpacker, hstate] at hopen
    simp at hopen

theorem tracked_kept : Kept p w results (Tracked p) := by
  intro s s' h hpiece
  cases hpiece with
  | init recvBuffLen sendBuffLen r => exact h.init recvBuffLen sendBuffLen r
  | on f => exact h.of_on f rfl rfl rfl rfl
  | dial state =>
    refine h.of_calls [.on .connect s.sock] rfl (by simp [isClose]) fun hs _ => ?_
    exact (@sameDescriptor_on s { s.record [.on .connect s.sock] with state := state } .connect
      rfl rfl).usable.mpr (proper_snoc.mp hs).2
  | connected hconn =>
    refine h.of_calls [] (List.append_nil _).symm (by simp) fun hs _ => ?_
    exact h.usable hs (Or.inr (Or.inl hconn))
  | tell e => exact h.of_log rfl rfl rfl rfl
  | write data hw =>
    obtain rfl | ⟨outData, outSize, written, tags, rfl⟩ := HSClientConnector.write_cases hw
    · exact h
    · exact h.of_log rfl rfl rfl rfl
  | sendDirectly offset len => exact h.of_on .send rfl rfl rfl rfl
  | close => exact h.close
  | destroyed => exact h.of_log rfl rfl rfl rfl

end SocketUser

end HsCommon
