import Mathlib.Data.Finset.Card
import HsCommon.Odbc

/-!
# Connect and Disconnect of hs_odbc.cpp

The ODBC library is a parameter. Its calls act on a state of its own, of which only the handles that
are allocated are seen, and `SqlRules` has what it documents about these. Any allocation, connect
or disconnect may fail.

`Disconnect` frees the handle of the connection and that of the environment before it closes the
connection, so that the first call after a connection was made frees neither.
-/

namespace HsCommon
open Transition

def SqlReturn.succeeded (ret : SqlReturn) : Bool := ret = .success ∨ ret = .successWithInfo

structure SqlHandles where
  envs : Finset ℕ
  dbcs : Finset ℕ
  stmts : Finset ℕ
  envOf : ℕ → ℕ
  dbcOf : ℕ → ℕ
  connected : Finset ℕ

namespace SqlHandles

def none : SqlHandles := ⟨∅, ∅, ∅, fun _ => 0, fun _ => 0, ∅⟩

def addEnv (env : ℕ) (m : SqlHandles) : SqlHandles := { m with envs := insert env m.envs }

def addDbc (env dbc : ℕ) (m : SqlHandles) : SqlHandles :=
  { m with dbcs := insert dbc m.dbcs, envOf := Function.update m.envOf dbc env }

def addStmt (dbc stmt : ℕ) (m : SqlHandles) : SqlHandles :=
  { m with stmts := insert stmt m.stmts, dbcOf := Function.update m.dbcOf stmt dbc }

def opened (dbc : ℕ) (m : SqlHandles) : SqlHandles :=
  { m with connected := insert dbc m.connected }

def closed (dbc : ℕ) (m : SqlHandles) : SqlHandles :=
  { m with
    connected := m.connected.erase dbc
    stmts := m.stmts.filter fun stmt => m.dbcOf stmt ≠ dbc }

structure Sound (m : SqlHandles) : Prop where
  known : ∀ dbc ∈ m.dbcs, m.envOf dbc ∈ m.envs
  connected : m.connected ⊆ m.dbcs
  stmts : ∀ stmt ∈ m.stmts, m.dbcOf stmt ∈ m.connected
  nonzero : 0 ∉ m.envs ∧ 0 ∉ m.dbcs

variable {m m' : SqlHandles} {env dbc : ℕ}

structure GotEnv (env : ℕ) (m m' : SqlHandles) : Prop where
  sound : m'.Sound
  dbcs : m'.dbcs = m.dbcs
  connected : m'.connected = m.connected
  unused : ∀ dbc ∈ m'.dbcs, m'.envOf dbc ≠ env
  mem : env ∈ m'.envs ↔ env ≠ 0
  card : m'.envs.card = m.envs.card + (decide (env ≠ 0)).toNat

structure GotDbc (env dbc : ℕ) (m m' : SqlHandles) : Prop where
  sound : m'.Sound
  envs : m'.envs = m.envs
  connected : m'.connected = m.connected
  idle : dbc ∉ m.connected
  current : dbc ∈ m'.dbcs → m'.envOf dbc = env
  own : ∀ d ∈ m'.dbcs, m'.envOf d = env → d = dbc
  mem : dbc ∈ m'.dbcs ↔ dbc ≠ 0
  card : m'.dbcs.card = m.dbcs.card + (decide (dbc ≠ 0)).toNat

theorem Sound.allocEnv (h : m.Sound)
    (hstep : env = 0 ∧ m' = m ∨ env ≠ 0 ∧ env ∉ m.envs ∧ m' = m.addEnv env) :
    GotEnv env m m' := by
  obtain ⟨hknown, hconnected, hstmts, hzero⟩ := h
  rcases hstep with ⟨rfl, rfl⟩ | ⟨hne, hnew, rfl⟩
  · refine ⟨⟨hknown, hconnected, hstmts, hzero⟩, rfl, rfl, fun dbc hdbc heq => ?_,
      iff_of_false hzero.1 fun hne => hne rfl, rfl⟩
    exact hzero.1 (heq ▸ hknown dbc hdbc)
  · refine ⟨⟨fun dbc hdbc => Finset.mem_insert_of_mem (hknown dbc hdbc), hconnected, hstmts, ?_,
      hzero.2⟩, rfl, rfl, fun dbc hdbc heq => ?_,
      iff_of_true (Finset.mem_insert_self _ _) hne, ?_⟩
    · exact fun hmem => (Finset.mem_insert.mp hmem).elim (fun heq => hne heq.symm) hzero.1
    · exact hnew (heq ▸ hknown dbc hdbc)
    · rw [decide_eq_true hne]
      exact Finset.card_insert_of_notMem hnew

theorem Sound.allocDbc (h : m.Sound) (hnone : ∀ dbc ∈ m.dbcs, m.envOf dbc ≠ env)
    (hstep : dbc = 0 ∧ m' = m ∨
      env ∈ m.envs ∧ dbc ≠ 0 ∧ dbc ∉ m.dbcs ∧ m' = m.addDbc env dbc) :
    GotDbc env dbc m m' := by
  obtain ⟨hknown, hconnected, hstmts, hzero⟩ := h
  rcases hstep with ⟨rfl, rfl⟩ | ⟨henv, hne, hnew, rfl⟩
  · refine ⟨⟨hknown, hconnected, hstmts, hzero⟩, rfl, rfl, fun hc => hzero.2 (hconnected hc),
      fun hmem => absurd hmem hzero.2, fun d hd heq => absurd heq (hnone d hd),
      iff_of_false hzero.2 fun hne => hne rfl, rfl⟩
  · have hold : ∀ d ∈ m.dbcs, (m.addDbc env dbc).envOf d = m.envOf d := fun d hd =>
      Function.update_of_ne (ne_of_mem_of_not_mem hd hnew) _ _
    have hself : (m.addDbc env dbc).envOf dbc = env := Function.update_self _ _ _
    refine ⟨⟨fun d hd => ?_, fun d hd => Finset.mem_insert_of_mem (hconnected hd), hstmts,
      hzero.1, fun hmem => ?_⟩, rfl, rfl, fun hc => hnew (hconnected hc), fun _ => hself,
      fun d hd heq => ?_, iff_of_true (Finset.mem_insert_self _ _) hne, ?_⟩
    · rcases Finset.mem_insert.mp hd with rfl | hd
      · rw [hself]
        exact henv
      · rw [hold d hd]
        exact hknown d hd
    · exact (Finset.mem_insert.mp hmem).elim (fun heq => hne heq.symm) hzero.2
    · rcases Finset.mem_insert.mp hd with rfl | hd
      · rfl
      · exact absurd (hold d hd ▸ heq) (hnone d hd)
    · rw [decide_eq_true hne]
      exact Finset.card_insert_of_notMem hnew

theorem Sound.opened (h : m.Sound) (hdbc : dbc ∈ m.dbcs) : (m.opened dbc).Sound where
  known := h.known
  connected := Finset.insert_subset hdbc h.connected
  stmts stmt hstmt := Finset.mem_insert_of_mem (h.stmts stmt hstmt)
  nonzero := h.nonzero

theorem Sound.closed (h : m.Sound) (dbc : ℕ) : (m.closed dbc).Sound where
  known := h.known
  connected := (Finset.erase_subset _ _).trans h.connected
  stmts stmt hstmt := by
    obtain ⟨hmem, hne⟩ := Finset.mem_filter.mp hstmt
    exact Finset.mem_erase.mpr ⟨hne, h.stmts stmt hmem⟩
  nonzero := h.nonzero

end SqlHandles

/-- The calls of the library. An allocation is given what the variable for the handle holds and
gives what it holds then, where 0 is the null handle. -/
structure SqlLibrary (σ : Type) where
  allocEnv : ℕ → σ → ℕ × σ
  setEnvAttr : ℕ → σ → σ
  allocDbc : ℕ → ℕ → σ → ℕ × σ
  setConnectAttr : ℕ → σ → σ
  connect : ℕ → σ → SqlReturn × σ
  allocStmt : ℕ → ℕ → σ → ℕ × σ
  setAsyncEnable : ℕ → σ → SqlReturn × σ
  closeCursor : ℕ → σ → σ
  freeDbc : ℕ → σ → σ
  freeEnv : ℕ → σ → σ
  disconnect : ℕ → σ → σ

/-- What is documented of the calls. A connection handle is freed only while it is not connected,
an environment only when no connection handle of it is left, and closing a connection frees the
statements on it. A call that fails changes no handle. -/
structure SqlRules {σ : Type} (L : SqlLibrary σ) (handles : σ → SqlHandles) : Prop where
  allocEnv : ∀ old m h m', L.allocEnv old m = (h, m') → h = 0 ∧ handles m' = handles m ∨
    h ≠ 0 ∧ h ∉ (handles m).envs ∧ handles m' = (handles m).addEnv h
  setEnvAttr : ∀ env m, handles (L.setEnvAttr env m) = handles m
  allocDbc : ∀ env old m h m', L.allocDbc env old m = (h, m') →
    (env ∈ (handles m).envs → h = 0) ∧ handles m' = handles m ∨
    env ∈ (handles m).envs ∧ h ≠ 0 ∧ h ∉ (handles m).dbcs ∧
      handles m' = (handles m).addDbc env h
  setConnectAttr : ∀ dbc m, handles (L.setConnectAttr dbc m) = handles m
  connect : ∀ dbc m ret m', L.connect dbc m = (ret, m') →
    ret.succeeded = false ∧ handles m' = handles m ∨
    ret.succeeded = true ∧ dbc ∈ (handles m).dbcs ∧ dbc ∉ (handles m).connected ∧
      handles m' = (handles m).opened dbc
  allocStmt : ∀ dbc old m h m', L.allocStmt dbc old m = (h, m') → handles m' = handles m ∨
    dbc ∈ (handles m).connected ∧ h ∉ (handles m).stmts ∧ handles m' = (handles m).addStmt dbc h
  setAsyncEnable : ∀ stmt m, handles (L.setAsyncEnable stmt m).2 = handles m
  closeCursor : ∀ stmt m, handles (L.closeCursor stmt m) = handles m
  freeDbc : ∀ dbc m, handles (L.freeDbc dbc m) =
    if dbc ∈ (handles m).connected then handles m
    else { handles m with dbcs := (handles m).dbcs.erase dbc }
  freeEnv : ∀ env m, handles (L.freeEnv env m) =
    if ∃ dbc ∈ (handles m).dbcs, (handles m).envOf dbc = env then handles m
    else { handles m with envs := (handles m).envs.erase env }
  disconnect : ∀ dbc m, handles (L.disconnect dbc m) = handles m ∨
    handles (L.disconnect dbc m) = (handles m).closed dbc

structure OdbcConnection (σ : Type) where
  henv : ℕ
  hdbc : ℕ
  hstmt : ℕ → ℕ
  driver : σ

structure ConnectResult where
  env : Bool
  dbc : Bool
  made : Bool
  deriving DecidableEq

namespace OdbcConnection
variable {σ : Type} (L : SqlLibrary σ) (handles : σ → SqlHandles)

def new (m : σ) : OdbcConnection σ := ⟨0, 0, fun _ => 0, m⟩

def allocStatements : List ℕ → OdbcConnection σ → Bool × OdbcConnection σ
  | [], s => (true, s)
  | i :: is, s =>
    let (hstmt, m) := L.allocStmt s.hdbc (s.hstmt i) s.driver
    let (ret, m) := L.setAsyncEnable hstmt m
    let s := { s with hstmt := Function.update s.hstmt i hstmt, driver := m }
    if ret.succeeded then allocStatements is s else (false, s)

def connect (s : OdbcConnection σ) : Bool × OdbcConnection σ :=
  let (henv, m) := L.allocEnv s.henv s.driver
  let m := L.setEnvAttr henv m
  let (hdbc, m) := L.allocDbc henv s.hdbc m
  let m := L.setConnectAttr hdbc m
  let (ret, m) := L.connect hdbc m
  let s := { s with henv := henv, hdbc := hdbc, driver := m }
  if ret.succeeded then allocStatements L (List.range HSODBC.handleCount) s else (false, s)

def disconnect (s : OdbcConnection σ) : OdbcConnection σ :=
  let m := (List.range HSODBC.handleCount).foldl (fun m i => L.closeCursor (s.hstmt i) m) s.driver
  let m := L.freeDbc s.hdbc m
  let m := L.freeEnv s.henv m
  { s with driver := L.disconnect s.hdbc m }

def isOpen (s : OdbcConnection σ) : Bool := s.hdbc ∈ (handles s.driver).connected

/-- `connect` has what the call got, `disconnect` whether the connection is closed after it. -/
inductive Event
  | connect (r : ConnectResult)
  | disconnect (closed : Bool)
  deriving DecidableEq

def Step (s : OdbcConnection σ) : Event → OdbcConnection σ → Prop
  | .connect r, s' => s' = (s.connect L).2 ∧ r = ⟨s'.henv ≠ 0, s'.hdbc ≠ 0, s'.isOpen handles⟩
  | .disconnect closed, s' => s' = s.disconnect L ∧ closed = !s'.isOpen handles

/-- A call of `Connect` that gets no environment does not keep the connection handle of an earlier
one. -/
def GetsBoth : Event → Prop
  | .connect r => r.dbc = true → r.env = true
  | .disconnect _ => True

def next (s : OdbcConnection σ) : Event → Option (OdbcConnection σ)
  | .connect r =>
    let s' := (s.connect L).2
    if r = ⟨s'.henv ≠ 0, s'.hdbc ≠ 0, s'.isOpen handles⟩ ∧ (r.dbc = true → r.env = true) then
      some s'
    else none
  | .disconnect closed =>
    let s' := s.disconnect L
    if closed = !s'.isOpen handles then some s' else none

theorem step_of_next {s s' : OdbcConnection σ} {e : Event} (h : s.next L handles e = some s') :
    Guarded (fun _ e => GetsBoth e) (Step L handles) s e s' := by
  cases e with
  | connect r =>
    obtain ⟨⟨hr, hboth⟩, hs⟩ := Option.ite_none_right_eq_some.mp h
    obtain rfl := Option.some.inj hs
    exact ⟨hboth, rfl, hr⟩
  | disconnect closed =>
    obtain ⟨hclosed, hs⟩ := Option.ite_none_right_eq_some.mp h
    obtain rfl := Option.some.inj hs
    exact ⟨trivial, rfl, hclosed⟩

def disconnects : List Event → List Bool
  | [] => []
  | .connect _ :: _ => []
  | .disconnect closed :: es => closed :: disconnects es

/-- The handles are freed by the first call of `Disconnect` that finds the connection closed. -/
def frees : Bool → List Bool → Bool
  | _, [] => false
  | false, _ :: _ => true
  | true, closed :: cs => frees (!closed) cs

def closes (made : Bool) (cs : List Bool) : Bool := made && cs.any id

/-- The calls of `Connect` that add something which the calls of `Disconnect` after it leave. -/
def leftBy (adds : ConnectResult → Bool) (goes : Bool → List Bool → Bool) : List Event → ℕ
  | [] => 0
  | .disconnect _ :: es => leftBy adds goes es
  | .connect r :: es => (adds r && !goes r.made (disconnects es)).toNat + leftBy adds goes es

variable {L handles} {s s' : OdbcConnection σ} {e : Event} {es : List Event}

structure Owned (handles : σ → SqlHandles) (s : OdbcConnection σ) : Prop where
  sound : (handles s.driver).Sound
  current : s.hdbc ∈ (handles s.driver).dbcs → (handles s.driver).envOf s.hdbc = s.henv
  own : ∀ dbc ∈ (handles s.driver).dbcs, (handles s.driver).envOf dbc = s.henv → dbc = s.hdbc

theorem owned_new {m : σ} (hnew : handles m = .none) : Owned handles (new m) := by
  refine ⟨⟨?_, ?_, ?_, ?_⟩, ?_, ?_⟩ <;> simp [new, hnew, SqlHandles.none]

theorem handles_closeCursors (rules : SqlRules L handles) (is : List ℕ) (hstmt : ℕ → ℕ) (m : σ) :
    handles (is.foldl (fun m i => L.closeCursor (hstmt i) m) m) = handles m := by
  induction is generalizing m with
  | nil => rfl
  | cons i is ih => exact (ih _).trans (rules.closeCursor _ _)

theorem disconnect_open (rules : SqlRules L handles) (h : Owned handles s)
    (hc : s.hdbc ∈ (handles s.driver).connected) :
    handles (s.disconnect L).driver = handles s.driver ∨
      handles (s.disconnect L).driver = (handles s.driver).closed s.hdbc := by
  have hmem : s.hdbc ∈ (handles s.driver).dbcs := h.sound.connected hc
  have henv : ∃ dbc ∈ (handles s.driver).dbcs, (handles s.driver).envOf dbc = s.henv :=
    ⟨s.hdbc, hmem, h.current hmem⟩
  have hcursors := handles_closeCursors rules (List.range HSODBC.handleCount) s.hstmt s.driver
  have hdbc := (rules.freeDbc s.hdbc _).trans (if_pos (by rwa [hcursors]))
  rw [hcursors] at hdbc
  have hkept := (rules.freeEnv s.henv _).trans (if_pos (by rwa [hdbc]))
  rw [hdbc] at hkept
  exact hkept ▸ rules.disconnect s.hdbc _

theorem Owned.stmts_kept (h : Owned handles s) (hc : s.hdbc ∉ (handles s.driver).connected) :
    (handles s.driver).stmts.filter (fun stmt => (handles s.driver).dbcOf stmt ≠ s.hdbc) =
      (handles s.driver).stmts := by
  refine Finset.filter_true_of_mem fun stmt hstmt heq => hc ?_
  rw [← heq]
  exact h.sound.stmts stmt hstmt

theorem disconnect_idle (rules : SqlRules L handles) (h : Owned handles s)
    (hc : s.hdbc ∉ (handles s.driver).connected) :
    handles (s.disconnect L).driver = { handles s.driver with
      dbcs := (handles s.driver).dbcs.erase s.hdbc
      envs := (handles s.driver).envs.erase s.henv } := by
  have hnone : ¬ ∃ dbc ∈ (handles s.driver).dbcs.erase s.hdbc,
      (handles s.driver).envOf dbc = s.henv := by
    rintro ⟨dbc, hmem, henv⟩
    obtain ⟨hne, hdbc⟩ := Finset.mem_erase.mp hmem
    exact hne (h.own dbc hdbc henv)
  have hcursors := handles_closeCursors rules (List.range HSODBC.handleCount) s.hstmt s.driver
  have hdbc := (rules.freeDbc s.hdbc _).trans (if_neg (by rwa [hcursors]))
  rw [hcursors] at hdbc
  have hfreed := (rules.freeEnv s.henv _).trans (if_neg (by rwa [hdbc]))
  rw [hdbc] at hfreed
  rcases rules.disconnect s.hdbc (L.freeEnv s.henv (L.freeDbc s.hdbc
    ((List.range HSODBC.handleCount).foldl (fun m i => L.closeCursor (s.hstmt i) m) s.driver)))
    with hlast | hlast
  · exact hlast.trans hfreed
  · refine hlast.trans ?_
    rw [hfreed]
    simp only [SqlHandles.closed, h.stmts_kept hc, Finset.erase_eq_of_notMem hc]

theorem Owned.disconnect (rules : SqlRules L handles) (h : Owned handles s) :
    Owned handles (s.disconnect L) := by
  by_cases hc : s.hdbc ∈ (handles s.driver).connected
  · rcases disconnect_open rules h hc with hsame | hclosed
    · constructor <;> rw [hsame]
      exacts [h.sound, h.current, h.own]
    · constructor <;> rw [hclosed]
      exacts [h.sound.closed _, h.current, h.own]
  · constructor <;> rw [disconnect_idle rules h hc]
    · refine ⟨fun dbc hdbc => ?_, fun dbc hdbc => ?_, h.sound.stmts, fun hz => ?_, fun hz => ?_⟩
      · obtain ⟨hne, hmem⟩ := Finset.mem_erase.mp hdbc
        exact Finset.mem_erase.mpr
          ⟨fun henv => hne (h.own dbc hmem henv), h.sound.known dbc hmem⟩
      · exact Finset.mem_erase.mpr ⟨fun heq => hc (heq ▸ hdbc), h.sound.connected hdbc⟩
      · exact h.sound.nonzero.1 (Finset.mem_of_mem_erase hz)
      · exact h.sound.nonzero.2 (Finset.mem_of_mem_erase hz)
    · exact fun hmem => absurd rfl (Finset.mem_erase.mp hmem).1
    · exact fun dbc hdbc => h.own dbc (Finset.mem_of_mem_erase hdbc)

structure Stated (handles : σ → SqlHandles) (s s' : OdbcConnection σ) : Prop where
  henv : s'.henv = s.henv
  hdbc : s'.hdbc = s.hdbc
  envs : (handles s'.driver).envs = (handles s.driver).envs
  dbcs : (handles s'.driver).dbcs = (handles s.driver).dbcs
  envOf : (handles s'.driver).envOf = (handles s.driver).envOf
  connected : (handles s'.driver).connected = (handles s.driver).connected
  stmts : (∀ stmt ∈ (handles s.driver).stmts,
      (handles s.driver).dbcOf stmt ∈ (handles s.driver).connected) →
    ∀ stmt ∈ (handles s'.driver).stmts,
      (handles s'.driver).dbcOf stmt ∈ (handles s.driver).connected

theorem stated_allocStatement (rules : SqlRules L handles) {i hstmt : ℕ} {m : σ}
    (hp : L.allocStmt s.hdbc (s.hstmt i) s.driver = (hstmt, m)) :
    Stated handles s { s with
      hstmt := Function.update s.hstmt i hstmt, driver := (L.setAsyncEnable hstmt m).2 } := by
  have hasync := rules.setAsyncEnable hstmt m
  rcases rules.allocStmt _ _ _ _ _ hp with hnone | ⟨hc, -, hnew⟩
  · have hsame := hasync.trans hnone
    refine ⟨rfl, rfl, congrArg _ hsame, congrArg _ hsame, congrArg _ hsame, congrArg _ hsame, ?_⟩
    rw [hsame]
    exact id
  · have hadded := hasync.trans hnew
    refine ⟨rfl, rfl, (congrArg SqlHandles.envs hadded).trans rfl,
      (congrArg SqlHandles.dbcs hadded).trans rfl, (congrArg SqlHandles.envOf hadded).trans rfl,
      (congrArg SqlHandles.connected hadded).trans rfl, ?_⟩
    rw [hadded]
    intro hstmts stmt hmem
    simp only [SqlHandles.addStmt]
    rcases eq_or_ne stmt hstmt with rfl | hne
    · rwa [Function.update_self]
    · rw [Function.update_of_ne hne]
      exact hstmts stmt (Finset.mem_of_mem_insert_of_ne hmem hne)

theorem Stated.trans {s'' : OdbcConnection σ} (h : Stated handles s s')
    (h' : Stated handles s' s'') : Stated handles s s'' where
  henv := h'.henv.trans h.henv
  hdbc := h'.hdbc.trans h.hdbc
  envs := h'.envs.trans h.envs
  dbcs := h'.dbcs.trans h.dbcs
  envOf := h'.envOf.trans h.envOf
  connected := h'.connected.trans h.connected
  stmts hstmts := h.connected ▸ h'.stmts (h.connected ▸ h.stmts hstmts)

theorem stated_allocStatements (rules : SqlRules L handles) (is : List ℕ) (s : OdbcConnection σ) :
    Stated handles s (allocStatements L is s).2 := by
  induction is generalizing s with
  | nil => exact ⟨rfl, rfl, rfl, rfl, rfl, rfl, id⟩
  | cons i is ih =>
    obtain ⟨hstmt, m, hp⟩ : ∃ hstmt m, L.allocStmt s.hdbc (s.hstmt i) s.driver = (hstmt, m) :=
      ⟨_, _, rfl⟩
    have hone := stated_allocStatement rules hp
    simp only [allocStatements, hp]
    split_ifs
    · exact hone.trans (ih _)
    · exact hone

theorem Owned.stated (h : Owned handles s) (hs : Stated handles s s') : Owned handles s' := by
  refine ⟨⟨?_, ?_, ?_, ?_⟩, ?_, ?_⟩
  · rw [hs.dbcs, hs.envOf, hs.envs]
    exact h.sound.known
  · rw [hs.connected, hs.dbcs]
    exact h.sound.connected
  · rw [hs.connected]
    exact hs.stmts h.sound.stmts
  · rw [hs.envs, hs.dbcs]
    exact h.sound.nonzero
  · rw [hs.hdbc, hs.dbcs, hs.envOf, hs.henv]
    exact h.current
  · rw [hs.hdbc, hs.dbcs, hs.envOf, hs.henv]
    exact h.own

def dialed (L : SqlLibrary σ) (s : OdbcConnection σ) : SqlReturn × OdbcConnection σ :=
  let env := L.allocEnv s.henv s.driver
  let dbc := L.allocDbc env.1 s.hdbc (L.setEnvAttr env.1 env.2)
  let ret := L.connect dbc.1 (L.setConnectAttr dbc.1 dbc.2)
  (ret.1, { s with henv := env.1, hdbc := dbc.1, driver := ret.2 })

theorem connect_stated (rules : SqlRules L handles) (s : OdbcConnection σ) :
    Stated handles (dialed L s).2 (s.connect L).2 := by
  have hspec : s.connect L = if (dialed L s).1.succeeded then
      allocStatements L (List.range HSODBC.handleCount) (dialed L s).2
      else (false, (dialed L s).2) := rfl
  rw [hspec]
  split_ifs
  · exact stated_allocStatements rules _ _
  · exact ⟨rfl, rfl, rfl, rfl, rfl, rfl, id⟩

structure Connects (handles : σ → SqlHandles) (s t : OdbcConnection σ) : Prop where
  owned : Owned handles t
  env : t.henv ∈ (handles t.driver).envs ↔ t.henv ≠ 0
  envs : (handles t.driver).envs.card =
    (handles s.driver).envs.card + (decide (t.henv ≠ 0)).toNat
  dbc : t.hdbc ∈ (handles t.driver).dbcs ↔ t.hdbc ≠ 0
  dbcs : (handles t.driver).dbcs.card =
    (handles s.driver).dbcs.card + (decide (t.hdbc ≠ 0)).toNat
  connected : (handles t.driver).connected.card =
    (handles s.driver).connected.card + (t.isOpen handles).toNat

theorem dialed_connects (rules : SqlRules L handles) (h : Owned handles s)
    (hboth : (dialed L s).2.hdbc ≠ 0 → (dialed L s).2.henv ≠ 0) :
    Connects handles s (dialed L s).2 := by
  obtain ⟨henv, m₁, hallocEnv⟩ : ∃ henv m₁, L.allocEnv s.henv s.driver = (henv, m₁) :=
    ⟨_, _, rfl⟩
  obtain ⟨hdbc, m₂, hallocDbc⟩ :
      ∃ hdbc m₂, L.allocDbc henv s.hdbc (L.setEnvAttr henv m₁) = (hdbc, m₂) := ⟨_, _, rfl⟩
  obtain ⟨ret, m₃, hconnect⟩ :
      ∃ ret m₃, L.connect hdbc (L.setConnectAttr hdbc m₂) = (ret, m₃) := ⟨_, _, rfl⟩
  have ht : (dialed L s).2 = { s with henv := henv, hdbc := hdbc, driver := m₃ } := by
    simp only [dialed, hallocEnv, hallocDbc, hconnect]
  rw [ht] at hboth ⊢
  have hgotEnv := h.sound.allocEnv (rules.allocEnv _ _ _ _ hallocEnv)
  have hdbcStep := rules.allocDbc _ _ _ _ _ hallocDbc
  rw [rules.setEnvAttr] at hdbcStep
  have hgotDbc : SqlHandles.GotDbc henv hdbc (handles m₁) (handles m₂) := by
    refine hgotEnv.sound.allocDbc hgotEnv.unused (hdbcStep.imp_left fun hfailed => ⟨?_, hfailed.2⟩)
    by_contra hne
    exact hne (hfailed.1 (hgotEnv.mem.mpr (hboth hne)))
  have hopen := rules.connect _ _ _ _ hconnect
  rw [rules.setConnectAttr] at hopen
  have hidle : (handles m₂).connected = (handles s.driver).connected :=
    hgotDbc.connected.trans hgotEnv.connected
  have hnew : hdbc ∉ (handles m₂).connected := hgotDbc.connected ▸ hgotDbc.idle
  obtain ⟨connected, hlast, hsound, hcard⟩ : ∃ connected,
      handles m₃ = { handles m₂ with connected := connected } ∧ (handles m₃).Sound ∧
        connected.card =
          (handles s.driver).connected.card + (decide (hdbc ∈ connected)).toNat := by
    rcases hopen with ⟨-, hsame⟩ | ⟨-, hmem, -, hopened⟩
    · refine ⟨_, hsame, hsame ▸ hgotDbc.sound, ?_⟩
      rw [decide_eq_false hnew, hidle]
      rfl
    · refine ⟨_, hopened, hopened ▸ hgotDbc.sound.opened hmem, ?_⟩
      rw [decide_eq_true (Finset.mem_insert_self _ _), ← hidle]
      exact Finset.card_insert_of_notMem hnew
  constructor
  · refine ⟨hsound, ?_, ?_⟩ <;> dsimp only <;> rw [hlast]
    exacts [hgotDbc.current, hgotDbc.own]
  · simp only [hlast, hgotDbc.envs]
    exact hgotEnv.mem
  · simp only [hlast, hgotDbc.envs]
    exact hgotEnv.card
  · simp only [hlast]
    exact hgotDbc.mem
  · simp only [hlast, ← hgotEnv.dbcs]
    exact hgotDbc.card
  · simp only [isOpen, hlast]
    exact hcard

theorem connect_spec (rules : SqlRules L handles) (h : Owned handles s) {r : ConnectResult}
    (hs : Step L handles s (.connect r) s') (hboth : GetsBoth (.connect r)) :
    Owned handles s' ∧ r.made = s'.isOpen handles ∧
      ((handles s'.driver).envs.card = (handles s.driver).envs.card + r.env.toNat ∧
        decide (s'.henv ∈ (handles s'.driver).envs) = r.env) ∧
      ((handles s'.driver).dbcs.card = (handles s.driver).dbcs.card + r.dbc.toNat ∧
        decide (s'.hdbc ∈ (handles s'.driver).dbcs) = r.dbc) ∧
      (handles s'.driver).connected.card = (handles s.driver).connected.card + r.made.toNat := by
  obtain ⟨rfl, rfl⟩ := hs
  have hstated := connect_stated rules s
  have hopen : (s.connect L).2.isOpen handles = (dialed L s).2.isOpen handles := by
    simp only [isOpen, hstated.hdbc, hstated.connected]
  have hboth' : (dialed L s).2.hdbc ≠ 0 → (dialed L s).2.henv ≠ 0 := by
    simpa [GetsBoth, hstated.hdbc, hstated.henv] using hboth
  have hc := dialed_connects rules h hboth'
  rw [hopen, hstated.envs, hstated.dbcs, hstated.connected, hstated.henv, hstated.hdbc]
  exact ⟨hc.owned.stated hstated, rfl, ⟨hc.envs, by simp only [hc.env]⟩,
    ⟨hc.dbcs, by simp only [hc.dbc]⟩, hc.connected⟩

theorem counted_run (rules : SqlRules L handles) (count : OdbcConnection σ → ℕ)
    (held : OdbcConnection σ → Bool) (adds : ConnectResult → Bool)
    (goes : Bool → List Bool → Bool) (hnil : ∀ made, goes made [] = false)
    (hdisconnect : ∀ s, Owned handles s → ∀ cs,
      count (s.disconnect L) + (held s && goes (s.isOpen handles)
          ((!(s.disconnect L).isOpen handles) :: cs)).toNat =
        count s + (held (s.disconnect L) && goes ((s.disconnect L).isOpen handles) cs).toNat)
    (hconnect : ∀ s r s', Owned handles s → Step L handles s (.connect r) s' →
      GetsBoth (.connect r) → count s' = count s + (adds r).toNat ∧ held s' = adds r)
    (h : Owned handles s) (hrun : Run (Guarded (fun _ e => GetsBoth e) (Step L handles)) s es s') :
    count s' + (held s && goes (s.isOpen handles) (disconnects es)).toNat =
      count s + leftBy adds goes es := by
  induction es generalizing s with
  | nil =>
    obtain rfl := hrun.eq_of_nil
    rw [disconnects, hnil, Bool.and_false]
    rfl
  | cons e es ih =>
    obtain ⟨t, ⟨hboth, hstep⟩, hrest⟩ := hrun.exists_first
    cases e with
    | disconnect closed =>
      obtain ⟨rfl, rfl⟩ := hstep
      have hlater := ih (h.disconnect rules) hrest
      have hnow := hdisconnect s h (disconnects es)
      rw [disconnects, leftBy]
      omega
    | connect r =>
      obtain ⟨hown, hmade, -⟩ := connect_spec rules h hstep hboth
      obtain ⟨hcount, hheld⟩ := hconnect s r t h hstep hboth
      have hlater := ih hown hrest
      rw [hheld, ← hmade, hcount] at hlater
      rw [disconnects, leftBy, hnil, Bool.and_false]
      -- the call adds something that goes, that stays, or nothing
      cases hadds : adds r <;> cases hgoes : goes r.made (disconnects es) <;>
        simp [hadds, hgoes] at hlater ⊢ <;> omega

theorem disconnect_frees (rules : SqlRules L handles) (h : Owned handles s)
    (count : SqlHandles → ℕ) (held : SqlHandles → Bool)
    (hclosed : ∀ m dbc, count (m.closed dbc) = count m ∧ held (m.closed dbc) = held m)
    (hfreed : let m : SqlHandles := { handles s.driver with
        dbcs := (handles s.driver).dbcs.erase s.hdbc
        envs := (handles s.driver).envs.erase s.henv }
      count m + (held (handles s.driver)).toNat = count (handles s.driver) ∧ held m = false)
    (cs : List Bool) :
    count (handles (s.disconnect L).driver) + (held (handles s.driver) && frees (s.isOpen handles)
        ((!(s.disconnect L).isOpen handles) :: cs)).toNat =
      count (handles s.driver) + (held (handles (s.disconnect L).driver) &&
        frees ((s.disconnect L).isOpen handles) cs).toNat := by
  by_cases hc : s.hdbc ∈ (handles s.driver).connected
  · have hopen : s.isOpen handles = true := decide_eq_true hc
    rw [hopen, frees, Bool.not_not]
    rcases disconnect_open rules h hc with hsame | hshut
    · rw [hsame]
    · rw [hshut, (hclosed _ _).1, (hclosed _ _).2]
  · have hshut : s.isOpen handles = false := decide_eq_false hc
    rw [hshut, frees, disconnect_idle rules h hc, hfreed.2, Bool.and_true, Bool.false_and]
    exact hfreed.1

theorem disconnect_closes (rules : SqlRules L handles) (h : Owned handles s) (cs : List Bool) :
    (handles (s.disconnect L).driver).connected.card + (s.isOpen handles &&
        closes (s.isOpen handles) ((!(s.disconnect L).isOpen handles) :: cs)).toNat =
      (handles s.driver).connected.card + ((s.disconnect L).isOpen handles &&
        closes ((s.disconnect L).isOpen handles) cs).toNat := by
  have hhdbc : (s.disconnect L).hdbc = s.hdbc := rfl
  by_cases hc : s.hdbc ∈ (handles s.driver).connected
  · have hopen : s.isOpen handles = true := decide_eq_true hc
    rcases disconnect_open rules h hc with hsame | hshut
    · have hopen' : (s.disconnect L).isOpen handles = true := by
        rw [isOpen, hhdbc, hsame]
        exact decide_eq_true hc
      rw [hopen, hopen', hsame]
      rfl
    · have hclosed : (s.disconnect L).isOpen handles = false := by
        rw [isOpen, hhdbc, hshut]
        exact decide_eq_false (Finset.notMem_erase _ _)
      rw [hopen, hclosed, hshut]
      exact Finset.card_erase_add_one hc
  · have hidle : s.isOpen handles = false := decide_eq_false hc
    have hidle' : (s.disconnect L).isOpen handles = false := by
      rw [isOpen, hhdbc, disconnect_idle rules h hc]
      exact decide_eq_false hc
    rw [hidle, hidle', disconnect_idle rules h hc]
    rfl

theorem Owned.run (rules : SqlRules L handles) (h : Owned handles s)
    (hrun : Run (Guarded (fun _ e => GetsBoth e) (Step L handles)) s es s') : Owned handles s' := by
  refine hrun.invariant (P := Owned handles) h fun t e t' ht hstep => ?_
  obtain ⟨hboth, hs⟩ := hstep
  cases e with
  | connect r => exact (connect_spec rules ht hs hboth).1
  | disconnect closed =>
    obtain ⟨rfl, -⟩ := hs
    exact ht.disconnect rules

theorem erase_held (dbcs : Finset ℕ) (dbc : ℕ) :
    (dbcs.erase dbc).card + (decide (dbc ∈ dbcs)).toNat = dbcs.card := by
  by_cases hmem : dbc ∈ dbcs
  · rw [decide_eq_true hmem]
    exact Finset.card_erase_add_one hmem
  · rw [decide_eq_false hmem, Finset.erase_eq_of_notMem hmem]
    rfl

/-- The handles that are allocated are those of the calls of `Connect` after which no call of
`Disconnect` found the connection closed. A connection is closed by the first call of `Disconnect`
that can, so its handles are freed by the next one at the earliest. -/
theorem handles_held (rules : SqlRules L handles) {m : σ} (hnew : handles m = .none)
    (es : List Event) (s : OdbcConnection σ)
    (h : Run (Guarded (fun _ e => GetsBoth e) (Step L handles)) (new m) es s) :
    (handles s.driver).dbcs.card = leftBy ConnectResult.dbc frees es ∧
    (handles s.driver).envs.card = leftBy ConnectResult.env frees es ∧
    (handles s.driver).connected.card = leftBy ConnectResult.made closes es ∧
    ∀ stmt ∈ (handles s.driver).stmts,
      (handles s.driver).dbcOf stmt ∈ (handles s.driver).connected := by
  have h₀ := owned_new hnew
  have hnil : ∀ made, frees made [] = false := fun made => by cases made <;> rfl
  have hdbcs := counted_run rules (fun s => (handles s.driver).dbcs.card)
    (fun s => decide (s.hdbc ∈ (handles s.driver).dbcs)) ConnectResult.dbc frees hnil
    (fun s hs => disconnect_frees rules hs (fun m => m.dbcs.card)
      (fun m => decide (s.hdbc ∈ m.dbcs)) (fun _ _ => ⟨rfl, rfl⟩)
      ⟨erase_held _ s.hdbc, decide_eq_false (Finset.notMem_erase _ _)⟩)
    (fun s r s' hs hstep hboth => (connect_spec rules hs hstep hboth).2.2.2.1) h₀ h
  have henvs := counted_run rules (fun s => (handles s.driver).envs.card)
    (fun s => decide (s.henv ∈ (handles s.driver).envs)) ConnectResult.env frees hnil
    (fun s hs => disconnect_frees rules hs (fun m => m.envs.card)
      (fun m => decide (s.henv ∈ m.envs)) (fun _ _ => ⟨rfl, rfl⟩)
      ⟨erase_held _ s.henv, decide_eq_false (Finset.notMem_erase _ _)⟩)
    (fun s r s' hs hstep hboth => (connect_spec rules hs hstep hboth).2.2.1) h₀ h
  have hconnected := counted_run rules (fun s => (handles s.driver).connected.card)
    (fun s => s.isOpen handles) ConnectResult.made closes (fun made => Bool.and_false made)
    (fun s hs => disconnect_closes rules hs)
    (fun s r s' hs hstep hboth => by
      obtain ⟨-, hmade, -, -, hcard⟩ := connect_spec rules hs hstep hboth
      exact ⟨hcard, hmade.symm⟩) h₀ h
  simp only [isOpen, hnew, new, SqlHandles.none, Finset.notMem_empty, decide_false,
    Bool.false_and, Bool.toNat_false, Finset.card_empty, Nat.zero_add, Nat.add_zero]
    at hdbcs henvs hconnected
  exact ⟨hdbcs, henvs, hconnected, (h₀.run rules h).sound.stmts⟩

end OdbcConnection

structure SqlDriver where
  handles : SqlHandles
  answers : List SqlReturn

namespace SqlDriver

def fresh (hs : Finset ℕ) : ℕ := hs.sup id + 1

theorem fresh_notMem (hs : Finset ℕ) : fresh hs ∉ hs := fun hmem =>
  Nat.not_succ_le_self _ (Finset.le_sup (f := id) hmem)

def library : SqlLibrary SqlDriver where
  allocEnv _ m := (fresh m.handles.envs,
    { m with handles := m.handles.addEnv (fresh m.handles.envs) })
  setEnvAttr _ m := m
  allocDbc env old m :=
    if env ∈ m.handles.envs then (fresh m.handles.dbcs,
      { m with handles := m.handles.addDbc env (fresh m.handles.dbcs) })
    else (old, m)
  setConnectAttr _ m := m
  connect dbc m :=
    let ret := m.answers.headD .error
    if ret.succeeded ∧ dbc ∈ m.handles.dbcs ∧ dbc ∉ m.handles.connected then
      (ret, ⟨m.handles.opened dbc, m.answers.tail⟩)
    else (.error, { m with answers := m.answers.tail })
  allocStmt dbc old m :=
    if dbc ∈ m.handles.connected then (fresh m.handles.stmts,
      { m with handles := m.handles.addStmt dbc (fresh m.handles.stmts) })
    else (old, m)
  setAsyncEnable _ m := (.success, m)
  closeCursor _ m := m
  freeDbc dbc m :=
    if dbc ∈ m.handles.connected then m
    else { m with handles := { m.handles with dbcs := m.handles.dbcs.erase dbc } }
  freeEnv env m :=
    if ∃ dbc ∈ m.handles.dbcs, m.handles.envOf dbc = env then m
    else { m with handles := { m.handles with envs := m.handles.envs.erase env } }
  disconnect dbc m := { m with handles := m.handles.closed dbc }

theorem library_rules : SqlRules library handles where
  allocEnv old m h m' hp := by
    obtain ⟨rfl, rfl⟩ := Prod.mk.inj hp
    exact Or.inr ⟨Nat.succ_ne_zero _, fresh_notMem _, rfl⟩
  setEnvAttr _ _ := rfl
  allocDbc env old m h m' hp := by
    simp only [library] at hp
    split_ifs at hp with henv
    · obtain ⟨rfl, rfl⟩ := Prod.mk.inj hp
      exact Or.inr ⟨henv, Nat.succ_ne_zero _, fresh_notMem _, rfl⟩
    · obtain ⟨rfl, rfl⟩ := Prod.mk.inj hp
      exact Or.inl ⟨fun hmem => absurd hmem henv, rfl⟩
  setConnectAttr _ _ := rfl
  connect dbc m ret m' hp := by
    simp only [library] at hp
    split_ifs at hp with hok
    · obtain ⟨rfl, rfl⟩ := Prod.mk.inj hp
      exact Or.inr ⟨hok.1, hok.2.1, hok.2.2, rfl⟩
    · obtain ⟨rfl, rfl⟩ := Prod.mk.inj hp
      exact Or.inl ⟨rfl, rfl⟩
  allocStmt dbc old m h m' hp := by
    simp only [library] at hp
    split_ifs at hp with hc
    · obtain ⟨rfl, rfl⟩ := Prod.mk.inj hp
      exact Or.inr ⟨hc, fresh_notMem _, rfl⟩
    · obtain ⟨rfl, rfl⟩ := Prod.mk.inj hp
      exact Or.inl rfl
  setAsyncEnable _ _ := rfl
  closeCursor _ _ := rfl
  freeDbc dbc m := by
    simp only [library]
    split_ifs <;> rfl
  freeEnv env m := by
    simp only [library]
    split_ifs <;> rfl
  disconnect _ _ := Or.inr rfl

end SqlDriver

namespace OdbcConnection

theorem handles_held_thrice :
    ∃ s : OdbcConnection SqlDriver, s.driver.handles.dbcs.card = 1 ∧
      s.driver.handles.envs.card = 1 ∧ s.driver.handles.connected.card = 0 := by
  let es : List Event := [.connect ⟨true, true, true⟩, .disconnect true,
    .connect ⟨true, true, true⟩, .disconnect true, .disconnect true,
    .connect ⟨true, true, false⟩, .disconnect true]
  obtain ⟨s, hrun, -⟩ := @Run.of_observed _ _
    (Guarded (fun _ e => GetsBoth e) (Step SqlDriver.library SqlDriver.handles))
    (new ⟨.none, [.success, .successWithInfo, .error]⟩) _
    (fun s e => s.next SqlDriver.library SqlDriver.handles e) (fun _ _ _ => step_of_next _ _)
    es (fun _ => ()) () (by decide +kernel)
  obtain ⟨hdbcs, henvs, hconnected, -⟩ := handles_held SqlDriver.library_rules rfl es s hrun
  exact ⟨s, hdbcs.trans (by decide), henvs.trans (by decide), hconnected.trans (by decide)⟩

end OdbcConnection

end HsCommon
