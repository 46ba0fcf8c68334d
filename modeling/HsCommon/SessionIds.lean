import HsCommon.SessionManager
import HsCommon.Library.Runs

/-!
# The ids of `HSSessionMgr::new_session`

New sessions are numbered with a 32-bit counter, which starts over after 2^32 of them. The map they
are entered into keeps the entry it has, so a session whose number is still taken by an older one is
returned to the caller and cannot be found.
-/

namespace HsCommon
open Transition

structure HSSessionIds extends HSSessionMgr where
  sessionsById : ℕ → Option ℕ
  currId : ℕ
  ids : ℕ → ℕ

namespace HSSessionIds

def init : HSSessionIds where
  sessions _ := .new 0 0 (fun _ => 0) fun _ => 0
  count := 0
  localSessions _ := none
  sessionsById _ := none
  currId := 0
  ids _ := 0

def insert (entries : ℕ → Option ℕ) (id i : ℕ) : ℕ → Option ℕ :=
  match entries id with
  | some _ => entries
  | none => Function.update entries id (some i)

def nextId (m : HSSessionIds) : ℕ := (m.currId + 1) % 2 ^ 32

def newSession (recvMem sendMem : ℕ → ℕ → UInt8) (recvBuffSize sendBuffSize : ℕ)
    (m : HSSessionIds) : ℕ × HSSessionIds :=
  let id := m.nextId
  let (newSession, mgr) :=
    m.toHSSessionMgr.newSession recvMem sendMem recvBuffSize sendBuffSize
  (newSession, {
    toHSSessionMgr := mgr
    sessionsById := insert m.sessionsById id newSession
    currId := id
    ids := Function.update m.ids newSession id })

def getSession (id : ℕ) (m : HSSessionIds) : Option ℕ := m.sessionsById id

def removeSession (id : ℕ) (m : HSSessionIds) : Bool × HSSessionIds :=
  if m.sessionsById id = none then (false, m)
  else (true, { m with sessionsById := Function.update m.sessionsById id none })

end HSSessionIds

inductive ManagerCall
  | newSession (recvBuffSize sendBuffSize : ℕ)
  | removeSession (id : ℕ)

/-- The sessions that have been returned, without those whose id has been removed since. -/
structure LiveSessions extends HSSessionIds where
  live : List ℕ

namespace LiveSessions

def init : LiveSessions := ⟨.init, []⟩

def exec (recvMem sendMem : ℕ → ℕ → UInt8) (s : LiveSessions) : ManagerCall → LiveSessions
  | .newSession recvBuffSize sendBuffSize =>
    let (i, m) := s.toHSSessionIds.newSession recvMem sendMem recvBuffSize sendBuffSize
    ⟨m, s.live ++ [i]⟩
  | .removeSession id =>
    ⟨(s.toHSSessionIds.removeSession id).2, s.live.filter (s.ids · ≠ id)⟩

def Step (recvMem sendMem : ℕ → ℕ → UInt8) (s : LiveSessions) (call : ManagerCall)
    (s' : LiveSessions) : Prop :=
  s' = s.exec recvMem sendMem call

/-- Every live session is the one that is found under its id, which no other one has, and is thus
reached through the manager. -/
def Findable (s : LiveSessions) : Prop :=
  (∀ i ∈ s.live, s.getSession (s.ids i) = some i) ∧
    (∀ i ∈ s.live, ∀ j ∈ s.live, s.ids i = s.ids j → i = j) ∧
    ∀ i ∈ s.live, ∃ id, s.getSession id = some i

def NextFree (s : LiveSessions) : ManagerCall → Prop
  | .newSession .. => s.getSession s.nextId = none
  | .removeSession _ => True

structure Known (s : LiveSessions) : Prop where
  entries : ∀ id i, s.sessionsById id = some i → i < s.count
  live : ∀ i ∈ s.live, i < s.count
  found : ∀ i ∈ s.live, s.getSession (s.ids i) = some i

theorem findable_of_found {s : LiveSessions}
    (h : ∀ i ∈ s.live, s.getSession (s.ids i) = some i) : s.Findable := by
  refine ⟨h, ?_, fun i hi => ⟨s.ids i, h i hi⟩⟩
  intro i hi j hj hids
  exact Option.some.inj ((h i hi).symm.trans (hids ▸ h j hj))

theorem known_init : init.Known where
  entries _ _ h := nomatch h
  live _ h := nomatch h
  found _ h := nomatch h

variable {recvMem sendMem : ℕ → ℕ → UInt8} {s : LiveSessions} {recvBuffSize sendBuffSize : ℕ}

theorem insert_free {entries : ℕ → Option ℕ} {id : ℕ} (h : entries id = none) (i : ℕ) :
    HSSessionIds.insert entries id i = Function.update entries id (some i) := by
  rw [HSSessionIds.insert, h]

theorem insert_taken {entries : ℕ → Option ℕ} {id k : ℕ} (h : entries id = some k) (i : ℕ) :
    HSSessionIds.insert entries id i = entries := by
  rw [HSSessionIds.insert, h]

theorem Known.newSession (h : s.Known) (hfree : s.getSession s.nextId = none) :
    (s.exec recvMem sendMem (.newSession recvBuffSize sendBuffSize)).Known where
  entries id i hi := by
    have hi : Function.update s.sessionsById s.nextId (some s.count) id = some i :=
      (congrFun (insert_free hfree s.count) id).symm.trans hi
    show i < s.count + 1
    rcases handedOut_id hi with hold | rfl
    · exact (h.entries id i hold).trans (Nat.lt_succ_self _)
    · exact Nat.lt_succ_self _
  live i hi := by
    show i < s.count + 1
    rcases List.mem_append.mp hi with hold | hnew
    · exact (h.live i hold).trans (Nat.lt_succ_self _)
    · rw [List.mem_singleton.mp hnew]
      exact Nat.lt_succ_self _
  found i hi := by
    show HSSessionIds.insert s.sessionsById s.nextId s.count
      (Function.update s.ids s.count s.nextId i) = some i
    rw [insert_free hfree]
    rcases List.mem_append.mp hi with hold | hnew
    · have hfound : s.sessionsById (s.ids i) = some i := h.found i hold
      have hother : s.ids i ≠ s.nextId := by
        intro hsame
        rw [hsame] at hfound
        exact nomatch hfree.symm.trans hfound
      rw [Function.update_of_ne (h.live i hold).ne, Function.update_of_ne hother, hfound]
    · rw [List.mem_singleton.mp hnew]
      show Function.update s.sessionsById s.nextId (some s.count)
        (Function.update s.ids s.count s.nextId s.count) = some s.count
      rw [Function.update_self, Function.update_self]

theorem Known.newSession_taken (h : s.Known) (htaken : s.getSession s.nextId ≠ none) :
    ¬ (s.exec recvMem sendMem (.newSession recvBuffSize sendBuffSize)).Findable := by
  rintro ⟨hfound, -, -⟩
  obtain ⟨k, hk⟩ := Option.ne_none_iff_exists'.mp htaken
  have hnew : HSSessionIds.insert s.sessionsById s.nextId s.count
      (Function.update s.ids s.count s.nextId s.count) = some s.count :=
    hfound s.count (List.mem_append_right _ List.mem_cons_self)
  rw [Function.update_self, insert_taken hk] at hnew
  exact (h.entries _ _ hk).ne (Option.some.inj (hk.symm.trans hnew))

theorem removeSession_eq (id : ℕ) (m : HSSessionIds) :
    (m.removeSession id).2 =
      { m with sessionsById := Function.update m.sessionsById id none } := by
  rw [HSSessionIds.removeSession]
  split_ifs with hnone
  · rw [← hnone, Function.update_eq_self]
  · rfl

theorem exec_removeSession (s : LiveSessions) (id : ℕ) :
    s.exec recvMem sendMem (.removeSession id) = ⟨{ s.toHSSessionIds with
      sessionsById := Function.update s.sessionsById id none },
      s.live.filter (s.ids · ≠ id)⟩ := by
  rw [exec, removeSession_eq]

theorem Known.removeSession (h : s.Known) (id : ℕ) :
    (s.exec recvMem sendMem (.removeSession id)).Known := by
  rw [exec_removeSession]
  constructor
  · intro id' i hi
    by_cases hid : id' = id
    · rw [hid] at hi
      exact nomatch (Function.update_self _ _ s.sessionsById).symm.trans hi
    · exact h.entries id' i ((Function.update_of_ne hid _ s.sessionsById).symm.trans hi)
  · intro i hi
    exact h.live i (List.mem_filter.mp hi).1
  · intro i hi
    obtain ⟨hlive, hids⟩ := List.mem_filter.mp hi
    exact (Function.update_of_ne (of_decide_eq_true hids) _ s.sessionsById).trans
      (h.found i hlive)

theorem Step.findable_iff (h : s.Known) {call : ManagerCall} {s' : LiveSessions}
    (hs : Step recvMem sendMem s call s') :
    (s'.Findable ↔ s.NextFree call) ∧ (s.NextFree call → s'.Known) := by
  obtain rfl := hs
  cases call with
  | newSession recvBuffSize sendBuffSize =>
    constructor
    · constructor
      · intro hfindable
        by_contra htaken
        exact h.newSession_taken htaken hfindable
      · intro hfree
        exact findable_of_found (h.newSession hfree).found
    · exact h.newSession
  | removeSession id =>
    have hknown := @Known.removeSession recvMem sendMem s h id
    exact ⟨iff_of_true (findable_of_found hknown.found) trivial, fun _ => hknown⟩

/-- The runs in which every live session can be found are those in which the counter always comes to
a number that is free. -/
theorem findable_runs (recvMem sendMem : ℕ → ℕ → UInt8) (calls : List ManagerCall)
    (s : LiveSessions) :
    Run (Keeping Findable (Step recvMem sendMem)) init calls s ↔
      Run (Guarded NextFree (Step recvMem sendMem)) init calls s := by
  apply Run.guarded_iff (I := Known)
  · exact known_init
  · intro s call s' hknown hs
    exact hs.findable_iff hknown

structure Waiting (s : LiveSessions) : Prop where
  live : 0 ∈ s.live
  id : s.ids 0 = 1
  alone : s.sessionsById = Function.update (fun _ => none) 1 (some 0)
  made : 0 < s.count

theorem Waiting.makeAndRemove (h : s.Waiting) (hnext : s.nextId ≠ 1) :
    ∃ calls s', Run (Step recvMem sendMem) s calls s' ∧ s'.Waiting ∧ s'.currId = s.nextId := by
  have hfree : s.sessionsById s.nextId = none := by
    rw [h.alone, Function.update_of_ne hnext]
  let made := s.exec recvMem sendMem (.newSession 0 0)
  let removed := made.exec recvMem sendMem (.removeSession s.nextId)
  have hremoved : removed = ⟨{ made.toHSSessionIds with
      sessionsById := Function.update made.sessionsById s.nextId none },
      made.live.filter (made.ids · ≠ s.nextId)⟩ := exec_removeSession made s.nextId
  have hid : made.ids 0 = 1 := (Function.update_of_ne h.made.ne _ s.ids).trans h.id
  refine ⟨[.newSession 0 0, .removeSession s.nextId], removed, (Run.nil.snoc rfl).snoc rfl, ?_, ?_⟩
  · rw [hremoved]
    constructor
    · apply List.mem_filter.mpr
      exact ⟨List.mem_append_left _ h.live, decide_eq_true (hid ▸ hnext.symm)⟩
    · exact hid
    · show Function.update (HSSessionIds.insert s.sessionsById s.nextId s.count) s.nextId none = _
      have hkept : Function.update s.sessionsById s.nextId none = s.sessionsById :=
        hfree ▸ Function.update_eq_self _ _
      rw [insert_free hfree, Function.update_idem, hkept]
      exact h.alone
    · exact Nat.succ_pos _
  · rw [hremoved]
    rfl

theorem Waiting.advance (h : s.Waiting) (hcurr : s.currId = 1) {n : ℕ} (hn : n < 2 ^ 32) :
    ∃ calls s', Run (Step recvMem sendMem) s calls s' ∧ s'.Waiting ∧
      s'.currId = (1 + n) % 2 ^ 32 := by
  induction n with
  | zero => exact ⟨[], s, .nil, h, hcurr⟩
  | succ n ih =>
    obtain ⟨calls, s₁, hrun, hwaiting, hcurr₁⟩ := ih (by omega)
    have hnext : s₁.nextId = (1 + (n + 1)) % 2 ^ 32 := by
      rw [HSSessionIds.nextId, hcurr₁, Nat.mod_add_mod, Nat.add_assoc]
    obtain ⟨calls', s₂, hrun', hwaiting', hcurr₂⟩ :=
      @makeAndRemove recvMem sendMem s₁ hwaiting (by omega)
    exact ⟨calls ++ calls', s₂, hrun.append hrun', hwaiting', hcurr₂.trans hnext⟩

theorem session_lost :
    ∃ calls s i, Run (Step (fun _ _ => 0) fun _ _ => 0) init calls s ∧ 0 ∈ s.live ∧ i ∈ s.live ∧
      i ≠ 0 ∧ s.ids i = s.ids 0 ∧ s.getSession (s.ids i) = some 0 ∧ ¬ s.Findable := by
  have hfirst : (init.exec (fun _ _ => 0) (fun _ _ => 0) (.newSession 0 0)).Waiting :=
    ⟨List.mem_cons_self, rfl, rfl, Nat.one_pos⟩
  obtain ⟨calls, s, hrun, hwaiting, hcurr⟩ := @Waiting.advance (fun _ _ => 0)
    (fun _ _ => 0) _ hfirst rfl (2 ^ 32 - 1) (by decide)
  have hnext : s.nextId = 1 := by
    rw [HSSessionIds.nextId, hcurr]
    norm_num
  have htaken : s.sessionsById 1 = some 0 := by
    rw [hwaiting.alone, Function.update_self]
  let s' := s.exec (fun _ _ => 0) (fun _ _ => 0) (.newSession 0 0)
  have hids : s'.ids s.count = 1 := (Function.update_self _ _ _).trans hnext
  have hid : s'.ids 0 = 1 := (Function.update_of_ne hwaiting.made.ne _ _).trans hwaiting.id
  have hfound : s'.sessionsById 1 = some 0 := by
    show HSSessionIds.insert s.sessionsById s.nextId s.count 1 = some 0
    rw [hnext, insert_taken htaken, htaken]
  have hlive : s.count ∈ s'.live := List.mem_append_right _ List.mem_cons_self
  refine ⟨_, s', s.count, ((Run.nil.snoc rfl).append hrun).snoc rfl,
    List.mem_append_left _ hwaiting.live, hlive, hwaiting.made.ne', hids.trans hid.symm, ?_, ?_⟩
  · exact (congrArg s'.sessionsById hids).trans hfound
  · rintro ⟨-, hdistinct, -⟩
    exact hwaiting.made.ne' (hdistinct _ hlive 0 (List.mem_append_left _ hwaiting.live)
      (hids.trans hid.symm))

end LiveSessions
end HsCommon
