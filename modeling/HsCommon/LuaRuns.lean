import HsCommon.MyLuaWrapper
import HsCommon.Library.Runs

/-!
# Scripts on the Lua stack

`LoadFile`, `DoFile` and `DoString` leave on the stack what the Lua library puts
there, a chunk, results or an error message, and nothing of the wrapper takes it
off again or runs a chunk that was loaded. The tests of `LoadFile` and `DoString`
are `!status != 0`, so these two report a success as the failure it is not.

A string behind the signature makes a call of `call_va` one of the other
`call_va`, which takes it for the signature and does nothing.
-/

namespace HsCommon
open ValueStack Outcome Transition

structure LuaLibrary (V W S : Type) where
  loadFile : Option S → W → Except Stop (ℤ × V × W)
  loadString : S → W → Except Stop (ℤ × V × W)

inductive WrapperCall (V W D S P : Type)
  | init (opened : Option (LuaState V W))
  | close
  | loadFile (script : Option S)
  | doFile (script : Option S)
  | doString (buffer : S)
  | callVa (func : Option S) (sig : List Char) (vl : List (VaArg D S P))

def WrapperCall.closes {V W D S P : Type} : WrapperCall V W D S P → Bool
  | .close => true
  | _ => false

structure Performed (V W S : Type) where
  returned : Bool
  wrapper : MyLuaWrapper V W
  printed : List (String × List (PrintfArg S))

namespace MyLuaWrapper
variable {V W D S P : Type} (L : LuaApi V W D S) (lib : LuaLibrary V W S)

def init (opened : Option (LuaState V W)) (m : MyLuaWrapper V W) :
    Except Stop (Performed V W S) :=
  match m.pState, opened with
  | some _, _ => .ok ⟨true, m, []⟩
  | none, none => .error .misuse
  | none, some s => .ok ⟨true, ⟨some s⟩, []⟩

def close (_ : MyLuaWrapper V W) : MyLuaWrapper V W := ⟨none⟩

def luaLoad (load : W → Except Stop (ℤ × V × W)) (s : LuaState V W) :
    Except Stop (ℤ × LuaState V W) := do
  let (status, v, world) ← load s.world
  return (status, ⟨s.stack ++ [v], world⟩)

def luaDo (load : W → Except Stop (ℤ × V × W)) (s : LuaState V W) :
    Except Stop (ℤ × LuaState V W) := do
  let (status, s) ← luaLoad load s
  if status ≠ 0 then
    return (1, s)
  else
    let (ok, stack, world) ← protectedCallAll L.call s.stack s.world
    return (if ok then 0 else 1, ⟨stack, world⟩)

def loadFile (script : Option S) (m : MyLuaWrapper V W) : Except Stop (Performed V W S) :=
  match m.pState with
  | none => .ok ⟨false, m, []⟩
  | some s => do
    let (status, s) ← luaLoad (lib.loadFile script) s
    -- `!status != 0`
    if status = 0 then
      return ⟨false, ⟨some s⟩, [("MyLuaWrapper::LoadFile(\"%s\") Failed!", [.text script])]⟩
    else
      return ⟨true, ⟨some s⟩, []⟩

def doFile (script : Option S) (m : MyLuaWrapper V W) : Except Stop (Performed V W S) :=
  match m.pState with
  | none => .ok ⟨false, m, []⟩
  | some s => do
    let (status, s) ← luaDo L (lib.loadFile script) s
    if status ≠ 0 then
      return ⟨false, ⟨some s⟩, [("MyLuaWrapper::DoFile(\"%s\") Failed!", [.text script])]⟩
    else
      return ⟨true, ⟨some s⟩, []⟩

def doString (buffer : S) (m : MyLuaWrapper V W) : Except Stop (Performed V W S) :=
  match m.pState with
  | none => .ok ⟨false, m, []⟩
  | some s => do
    let (status, s) ← luaDo L (lib.loadString buffer) s
    -- `!status != 0`
    if status = 0 then
      return ⟨false, ⟨some s⟩,
        [("MyLuaWrapper::DoString(\"%s\") Failed!", [.text (some buffer)])]⟩
    else
      return ⟨true, ⟨some s⟩, []⟩

def callVaOverloaded (m : MyLuaWrapper V W) (func : Option S) (sig : List Char)
    (vl : List (VaArg D S P)) : Except Stop (CallVa V W D S P) :=
  match vl with
  | .charPtr _ :: _ => .ok ⟨true, m, [], []⟩
  | vl => callVa L m func sig vl

def perform (m : MyLuaWrapper V W) : WrapperCall V W D S P → Except Stop (Performed V W S)
  | .init opened => m.init opened
  | .close => .ok ⟨true, m.close, []⟩
  | .loadFile script => m.loadFile lib script
  | .doFile script => m.doFile L lib script
  | .doString buffer => m.doString L lib buffer
  | .callVa func sig vl => do
    let r ← callVaOverloaded L m func sig vl
    return ⟨r.returned, r.wrapper, r.printed⟩

abbrev Answer (V W D S P : Type) := WrapperCall V W D S P × Bool

def Step (m : MyLuaWrapper V W) (e : Answer V W D S P) (m' : MyLuaWrapper V W) : Prop :=
  ∃ r, perform L lib m e.1 = .ok r ∧ r.returned = e.2 ∧ r.wrapper = m'

inductive Ran (L : LuaApi V W D S) (load : W → Except Stop (ℤ × V × W)) : Bool → List V → Prop where
  | unloaded {w w' : W} {status : ℤ} {v : V} : load w = .ok (status, v, w') → status ≠ 0 →
      Ran L load false [v]
  | failed {w w' w'' : W} {f e : V} : load w = .ok (0, f, w') →
      L.call f [] w' = some (.error e, w'') → Ran L load false [e]
  | results {w w' w'' : W} {f : V} {rs : List V} : load w = .ok (0, f, w') →
      L.call f [] w' = some (.ok rs, w'') → Ran L load true rs

/-- What a call that is answered so leaves on the stack of an open state. -/
inductive Leaves (L : LuaApi V W D S) (lib : LuaLibrary V W S) :
    Answer V W D S P → List V → Prop where
  | init {opened : Option (LuaState V W)} : Leaves L lib (.init opened, true) []
  | loaded {script : Option S} {w w' : W} {f : V} : lib.loadFile script w = .ok (0, f, w') →
      Leaves L lib (.loadFile script, false) [f]
  | unloaded {script : Option S} {w w' : W} {status : ℤ} {v : V} :
      lib.loadFile script w = .ok (status, v, w') → status ≠ 0 →
      Leaves L lib (.loadFile script, true) [v]
  | doFile {script : Option S} {ok : Bool} {vs : List V} : Ran L (lib.loadFile script) ok vs →
      Leaves L lib (.doFile script, ok) vs
  | doString {buffer : S} {ok : Bool} {vs : List V} : Ran L (lib.loadString buffer) ok vs →
      Leaves L lib (.doString buffer, !ok) vs
  | callVa {func : Option S} {sig : List Char} {vl : List (VaArg D S P)} {returned : Bool} :
      Leaves L lib (.callVa func sig vl, returned) []

variable {L} {lib} {m m' : MyLuaWrapper V W} {s s' : LuaState V W}

theorem luaLoad_ok {load : W → Except Stop (ℤ × V × W)} {status : ℤ}
    (h : luaLoad load s = .ok (status, s')) :
    ∃ v, load s.world = .ok (status, v, s'.world) ∧ s'.stack = s.stack ++ [v] := by
  obtain ⟨⟨status', v, world⟩, hload, h⟩ := exists_of_bind h
  obtain ⟨rfl, rfl⟩ := Prod.mk.inj (Except.ok.inj h)
  exact ⟨v, hload, rfl⟩

theorem luaDo_ok {load : W → Except Stop (ℤ × V × W)} {status : ℤ}
    (h : luaDo L load s = .ok (status, s')) :
    ∃ vs, Ran L load (decide (status = 0)) vs ∧ s'.stack = s.stack ++ vs := by
  obtain ⟨⟨status', s₁⟩, hload, h⟩ := exists_of_bind h
  obtain ⟨v, hv, hstack⟩ := luaLoad_ok hload
  dsimp only at h
  by_cases hz : status' ≠ 0
  · rw [if_pos hz] at h
    obtain ⟨rfl, rfl⟩ := Prod.mk.inj (Except.ok.inj h)
    exact ⟨[v], .unloaded hv hz, hstack⟩
  · rw [if_neg hz] at h
    obtain rfl := not_not.mp hz
    obtain ⟨⟨ok, stack, world⟩, hcall, h⟩ := exists_of_bind h
    obtain ⟨rfl, rfl⟩ := Prod.mk.inj (Except.ok.inj h)
    rw [hstack] at hcall
    rcases protectedCallAll_spec hcall with ⟨rfl, rs, hrs, rfl⟩ | ⟨rfl, e, he, rfl⟩
    · exact ⟨rs, .results hv hrs, rfl⟩
    · exact ⟨[e], .failed hv he, rfl⟩

theorem readResults_open {n nres : ℤ} {sig : List Char} {vl : List (VaArg D S P)}
    {writes : List (P × Stored D S)} {r : CallVa V W D S P}
    (h : readResults L n sig nres vl s writes = .ok r) : r.wrapper.pState.isSome := by
  have hfinish : ∀ {s : LuaState V W} {ok writes printed},
      finish n s ok writes printed = .ok r → r.wrapper.pState.isSome := by
    intro s ok writes printed hr
    obtain ⟨stack, -, hr⟩ := exists_of_bind hr
    obtain rfl := Except.ok.inj hr
    rfl
  induction sig generalizing nres vl s writes with
  | nil => exact hfinish h
  | cons letter sig ih =>
    rw [readResults] at h
    split at h
    · exact hfinish h
    · obtain ⟨v, -, h⟩ := exists_of_bind h
      split_ifs at h
      · split at h
        · cases h
        · split at h
          · cases h
          · obtain ⟨stack, -, h⟩ := exists_of_bind h
            exact ih h
      · exact hfinish h

theorem callVa_stays {func : Option S} {sig : List Char} {vl : List (VaArg D S P)}
    {r : CallVa V W D S P} (h : callVa L m func sig vl = .ok r) (hs : m.pState = some s) :
    ∃ s', r.wrapper.pState = some s' ∧ s'.stack = s.stack := by
  cases func with
  | none =>
    unfold callVa at h
    obtain rfl := Except.ok.inj h
    exact ⟨s, hs, rfl⟩
  | some name =>
    simp only [callVa, hs] at h
    obtain ⟨called, hcalled, h⟩ := exists_of_bind h
    obtain ⟨-, -, values, hstack, hlen⟩ := pushAndCall_spec hcalled
    by_cases hok : called.ok = true
    · rw [if_pos hok] at h hlen
      rw [← hlen] at h
      obtain ⟨hstay, -⟩ := @readResults_spec V W D S P L s.stack [] values _ _ _ _ _ hstack h
      obtain ⟨s', hs'⟩ := Option.isSome_iff_exists.mp (readResults_open h)
      refine ⟨s', hs', ?_⟩
      rwa [MyLuaWrapper.stack, hs'] at hstay
    · rw [if_neg hok] at h hlen
      obtain ⟨error, -, h⟩ := exists_of_bind h
      rw [← hlen] at h
      have hstay := (finish_spec hstack h).1
      obtain ⟨stack, -, h⟩ := exists_of_bind h
      obtain rfl := Except.ok.inj h
      exact ⟨_, rfl, hstay⟩

theorem callVaOverloaded_stays {func : Option S} {sig : List Char} {vl : List (VaArg D S P)}
    {r : CallVa V W D S P} (h : callVaOverloaded L m func sig vl = .ok r)
    (hs : m.pState = some s) : ∃ s', r.wrapper.pState = some s' ∧ s'.stack = s.stack := by
  unfold callVaOverloaded at h
  split at h
  · obtain rfl := Except.ok.inj h
    exact ⟨s, hs, rfl⟩
  · exact callVa_stays h hs

theorem step_leaves {e : Answer V W D S P} (h : Step L lib m e m') (hs : m.pState = some s)
    (hopen : e.1.closes = false) :
    ∃ s' vs, m'.pState = some s' ∧ Leaves L lib e vs ∧ s'.stack = s.stack ++ vs := by
  obtain ⟨call, returned⟩ := e
  obtain ⟨r, hr, hreturned, rfl⟩ := h
  dsimp only at hr hreturned hopen
  subst hreturned
  cases call with
  | close => cases hopen
  | init opened =>
    simp only [perform, MyLuaWrapper.init, hs] at hr
    obtain rfl := Except.ok.inj hr
    exact ⟨s, [], hs, .init, (List.append_nil _).symm⟩
  | loadFile script =>
    simp only [perform, MyLuaWrapper.loadFile, hs] at hr
    obtain ⟨⟨status, s'⟩, hload, hr⟩ := exists_of_bind hr
    obtain ⟨v, hv, hstack⟩ := luaLoad_ok hload
    dsimp only at hr
    split_ifs at hr with hz
    · subst hz
      obtain rfl := Except.ok.inj hr
      exact ⟨s', [v], rfl, .loaded hv, hstack⟩
    · obtain rfl := Except.ok.inj hr
      exact ⟨s', [v], rfl, .unloaded hv hz, hstack⟩
  | doFile script =>
    simp only [perform, MyLuaWrapper.doFile, hs] at hr
    obtain ⟨⟨status, s'⟩, hdo, hr⟩ := exists_of_bind hr
    obtain ⟨vs, hran, hstack⟩ := luaDo_ok hdo
    dsimp only at hr
    split_ifs at hr with hz
    · obtain rfl := Except.ok.inj hr
      rw [decide_eq_false hz] at hran
      exact ⟨s', vs, rfl, .doFile hran, hstack⟩
    · obtain rfl := Except.ok.inj hr
      rw [decide_eq_true (not_not.mp hz)] at hran
      exact ⟨s', vs, rfl, .doFile hran, hstack⟩
  | doString buffer =>
    simp only [perform, MyLuaWrapper.doString, hs] at hr
    obtain ⟨⟨status, s'⟩, hdo, hr⟩ := exists_of_bind hr
    obtain ⟨vs, hran, hstack⟩ := luaDo_ok hdo
    dsimp only at hr
    split_ifs at hr with hz
    · obtain rfl := Except.ok.inj hr
      rw [decide_eq_true hz] at hran
      exact ⟨s', vs, rfl, .doString hran, hstack⟩
    · obtain rfl := Except.ok.inj hr
      rw [decide_eq_false hz] at hran
      exact ⟨s', vs, rfl, .doString hran, hstack⟩
  | callVa func sig vl =>
    obtain ⟨r', hr', hr⟩ := exists_of_bind hr
    obtain rfl := Except.ok.inj hr
    obtain ⟨s', hs', hstack⟩ := callVaOverloaded_stays hr' hs
    exact ⟨s', [], hs', .callVa, by rw [hstack, List.append_nil]⟩

def keepsOne : Answer V W D S P → Bool
  | (.loadFile _, _) => true
  | (.doFile _, returned) => !returned
  | (.doString _, returned) => returned
  | _ => false

theorem Leaves.keepsOne {e : Answer V W D S P} {vs : List V} (h : Leaves L lib e vs)
    (hone : keepsOne e = true) : vs.length = 1 := by
  cases h with
  | loaded _ => rfl
  | unloaded _ _ => rfl
  | doFile hran =>
    cases hran with
    | unloaded _ _ => rfl
    | failed _ _ => rfl
    | results _ _ => cases hone
  | doString hran =>
    cases hran with
    | unloaded _ _ => rfl
    | failed _ _ => rfl
    | results _ _ => cases hone
  | init => cases hone
  | callVa => cases hone

/-- Between `Init` and `Close` the stack only grows: what each call has left lies on what was there,
in the order of the calls, and at least one value for each `LoadFile` and for each script that
failed. -/
theorem run_leaves (L : LuaApi V W D S) (lib : LuaLibrary V W S) (m m' : MyLuaWrapper V W)
    (es : List (Answer V W D S P)) (s : LuaState V W) (hs : m.pState = some s)
    (hopen : ∀ e ∈ es, e.1.closes = false) (h : Run (Step L lib) m es m') :
    ∃ s' left, m'.pState = some s' ∧ List.Forall₂ (Leaves L lib) es left ∧
      s'.stack = s.stack ++ left.flatten ∧
      s.stack.length + es.countP keepsOne ≤ s'.stack.length := by
  induction h with
  | nil => exact ⟨s, [], hs, .nil, (List.append_nil _).symm, le_rfl⟩
  | @snoc es m₁ m₂ e hrun hstep ih =>
    rw [List.forall_mem_append, List.forall_mem_singleton] at hopen
    obtain ⟨s₁, left, hs₁, hall, hstack, hcount⟩ := ih hopen.1
    obtain ⟨s₂, vs, hs₂, hleaves, hstack'⟩ := step_leaves hstep hs₁ hopen.2
    refine ⟨s₂, left ++ [vs], hs₂, List.rel_append hall (.cons hleaves .nil), ?_, ?_⟩
    · rw [hstack', hstack, List.flatten_append, List.flatten_singleton, List.append_assoc]
    · rw [hstack', List.length_append, List.countP_append, List.countP_singleton]
      split_ifs with hone
      · have := hleaves.keepsOne hone
        omega
      · omega

def addingLibrary : LuaLibrary AddingValue Unit String where
  loadFile _ w := .ok (0, .add, w)
  loadString _ w := .ok (0, .add, w)

theorem run_leaves_adding :
    ∃ m' s', Run (Step (P := ℕ) addingApi addingLibrary) ⟨some ⟨[], ()⟩⟩
        [(.loadFile (some "a.lua"), false), (.doString "add()", true)] m' ∧
      m'.pState = some s' ∧ 2 ≤ s'.stack.length := by
  have hrun : Run (Step (P := ℕ) addingApi addingLibrary) ⟨some ⟨[], ()⟩⟩
      [(.loadFile (some "a.lua"), false), (.doString "add()", true)]
      ⟨some ⟨[.add, .text "number expected"], ()⟩⟩ :=
    (Run.nil.snoc ⟨_, rfl, rfl, rfl⟩).snoc ⟨_, rfl, rfl, rfl⟩
  obtain ⟨s', left, hs', -, -, hcount⟩ := run_leaves addingApi addingLibrary _ _ _ ⟨[], ()⟩ rfl
    (by simp [WrapperCall.closes]) hrun
  exact ⟨_, s', hrun, hs', hcount⟩

end MyLuaWrapper

end HsCommon
