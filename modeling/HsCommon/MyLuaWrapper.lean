import HsCommon.Define
import HsCommon.Library.Outcome
import HsCommon.Library.ValueStack

/-!
# Calls into Lua

`MyLuaWrapper::call_va` over a stack machine. Two loops follow the letters of the
signature: those before '>' push arguments, those behind it read the results from
the top of the stack at an index that moves towards it. Whatever the called function
does, a call that comes back leaves the stack as it found it.
-/

namespace HsCommon
open ValueStack Outcome

/-- The values of the machine and its calls that the wrapper uses: `toText` is what a conversion
to a string leaves in the slot, with the string. -/
structure LuaApi (V W D S : Type) where
  nil : V
  number : D → V
  integer : ℤ → V
  text : S → V
  isNumber : V → Bool
  toNumber : V → D
  toInteger : V → ℤ
  isString : V → Bool
  toText : V → V × Option S
  global : S → W → Except Stop (V × W)
  canGrow : ℕ → Bool
  call : Behaviour V W

structure LuaState (V W : Type) where
  stack : List V
  world : W

structure MyLuaWrapper (V W : Type) where
  pState : Option (LuaState V W)

def MyLuaWrapper.stack {V W : Type} (m : MyLuaWrapper V W) : List V :=
  (m.pState.map LuaState.stack).getD []

inductive VaArg (D S P : Type)
  | double (v : D)
  | int (v : ℤ)
  | unsignedInt (v : ℕ)
  | charPtr (v : Option S)
  | doublePtr (p : P)
  | intPtr (p : P)
  | charPtrPtr (p : P)

inductive Stored (D S : Type)
  | double (v : D)
  | int (v : ℤ)
  | charPtr (v : Option S)

inductive PrintfArg (S : Type)
  | text (v : Option S)
  | char (v : Char)

structure CallVa (V W D S P : Type) where
  returned : Bool
  wrapper : MyLuaWrapper V W
  writes : List (P × Stored D S)
  printed : List (String × List (PrintfArg S))

namespace MyLuaWrapper
variable {V W D S P : Type} (L : LuaApi V W D S)

def argumentLetters : List Char := ['d', 'i', 'u', 's']

def argument : Char → VaArg D S P → Option V
  | 'd', .double v => some (L.number v)
  | 'i', .int v => some (L.integer v)
  | 'u', .unsignedInt v => some (L.integer v)
  | 's', .charPtr none => some L.nil
  | 's', .charPtr (some v) => some (L.text v)
  | _, _ => none

structure Pushed (V W D S P : Type) where
  narg : ℕ
  sig : List Char
  vl : List (VaArg D S P)
  state : LuaState V W

def pushArguments : List Char → List (VaArg D S P) → ℕ → LuaState V W →
    Except Stop (Pushed V W D S P)
  | [], vl, narg, s => .ok ⟨narg, [], vl, s⟩
  | letter :: sig, vl, narg, s =>
    if letter = '>' then .ok ⟨narg, sig, vl, s⟩
    else if letter ∉ argumentLetters then .error .thrown
    else
      match vl with
      | [] => .error .misuse
      | a :: vl =>
        match argument L letter a with
        | none => .error .misuse
        | some v =>
          let s := { s with stack := s.stack ++ [v] }
          if (narg + 1 : ℤ) > int32Max then .error .misuse
          else if L.canGrow s.stack.length then pushArguments sig vl (narg + 1) s
          else .error .thrown

def resultCount (sig : List Char) : ℤ := Int.bmod sig.length (2 ^ 32)

structure Called (V W D S P : Type) where
  ok : Bool
  sig : List Char
  vl : List (VaArg D S P)
  state : LuaState V W

def pushAndCall (s : LuaState V W) (func : S) (sig : List Char) (vl : List (VaArg D S P)) :
    Except Stop (Called V W D S P) := do
  let (f, world) ← L.global func s.world
  let pushed ← pushArguments L sig vl 0 ⟨s.stack ++ [f], world⟩
  let (ok, stack, world) ← protectedCall L.nil L.call pushed.narg (resultCount pushed.sig)
    pushed.state.stack pushed.state.world
  return ⟨ok, pushed.sig, pushed.vl, ⟨stack, world⟩⟩

/-- The case of a result letter: its test, what it leaves in the slot with what it stores, and
the pointer it takes. -/
structure ResultCase (V D S P : Type) where
  test : V → Bool
  load : V → V × Stored D S
  pointer : VaArg D S P → Option P

def resultCase : Char → Option (ResultCase V D S P)
  | 'd' => some
      { test := L.isNumber
        load := fun v => (v, .double (L.toNumber v))
        pointer := fun | .doublePtr p => some p | _ => none }
  | 'i' => some
      { test := L.isNumber
        load := fun v => (v, .int (Int.bmod (L.toInteger v) (2 ^ 32)))
        pointer := fun | .intPtr p => some p | _ => none }
  | 's' => some
      { test := L.isString
        load := fun v => ((L.toText v).1, .charPtr (L.toText v).2)
        pointer := fun | .charPtrPtr p => some p | _ => none }
  | _ => none

def finish (n : ℤ) (s : LuaState V W) (returned : Bool) (writes : List (P × Stored D S))
    (printed : List (String × List (PrintfArg S))) : Except Stop (CallVa V W D S P) := do
  let stack ← pop s.stack n
  return ⟨returned, ⟨some { s with stack := stack }⟩, writes, printed⟩

def readResults (n : ℤ) : List Char → ℤ → List (VaArg D S P) → LuaState V W →
    List (P × Stored D S) → Except Stop (CallVa V W D S P)
  | [], _, _, s, writes => finish n s true writes []
  | letter :: sig, nres, vl, s, writes =>
    match resultCase L letter with
    | none => finish n s false writes [("Invalid option (%c)", [.char letter])]
    | some c => do
      let v ← get s.stack nres
      if c.test v then
        match vl with
        | [] => .error .misuse
        | a :: vl =>
          match c.pointer a with
          | none => .error .misuse
          | some p =>
            let stack ← replace s.stack nres (c.load v).1
            readResults n sig (nres + 1) vl { s with stack := stack }
              (writes ++ [(p, (c.load v).2)])
      else finish n s false writes [("wrong result type", [])]

def callVa (m : MyLuaWrapper V W) (func : Option S) (sig : List Char) (vl : List (VaArg D S P)) :
    Except Stop (CallVa V W D S P) :=
  match func, m.pState with
  | none, _ => .ok ⟨false, m, [], []⟩
  | some _, none => .ok ⟨false, m, [], []⟩
  | some func, some s => do
    let called ← pushAndCall L s func sig vl
    if called.ok then
      let n := resultCount called.sig
      readResults L n called.sig (-n) called.vl called.state []
    else
      let error ← get called.state.stack (-1)
      finish 1 called.state false []
        [("error running function '%s': %s", [.text (some func), .text (L.toText error).2])]

variable {L}

theorem pushArguments_spec {sig : List Char} {vl : List (VaArg D S P)} {narg : ℕ}
    {s : LuaState V W} {pushed : Pushed V W D S P}
    (h : pushArguments L sig vl narg s = .ok pushed) :
    pushed.sig = (sig.dropWhile (· ≠ '>')).tail ∧
      pushed.vl = vl.drop (sig.takeWhile (· ≠ '>')).length ∧
      ∃ args, pushed.state.stack = s.stack ++ args ∧ pushed.narg = narg + args.length := by
  induction sig generalizing vl narg s with
  | nil =>
    obtain rfl := Except.ok.inj h
    exact ⟨rfl, rfl, [], (List.append_nil _).symm, rfl⟩
  | cons letter sig ih =>
    unfold pushArguments at h
    by_cases hend : letter = '>'
    · rw [if_pos hend] at h
      obtain rfl := Except.ok.inj h
      simp [hend]
    · rw [if_neg hend] at h
      by_cases hletter : letter ∉ argumentLetters
      · rw [if_pos hletter] at h
        cases h
      rw [if_neg hletter] at h
      split at h
      · cases h
      rename_i a vl
      split at h
      · cases h
      rename_i v hv
      dsimp only at h
      split_ifs at h
      obtain ⟨hsig, hvl, args, hstack, hnarg⟩ := ih h
      refine ⟨?_, ?_, v :: args, ?_, ?_⟩
      · simpa [hend] using hsig
      · simpa [hend] using hvl
      · simpa using hstack
      · rw [hnarg, List.length_cons]
        omega

theorem pushAndCall_spec {s : LuaState V W} {func : S} {sig : List Char}
    {vl : List (VaArg D S P)} {called : Called V W D S P}
    (h : pushAndCall L s func sig vl = .ok called) :
    called.sig = (sig.dropWhile (· ≠ '>')).tail ∧
      called.vl = vl.drop (sig.takeWhile (· ≠ '>')).length ∧
      ∃ values, called.state.stack = s.stack ++ values ∧
        (values.length : ℤ) = if called.ok then resultCount called.sig else 1 := by
  obtain ⟨⟨f, world⟩, -, h⟩ := exists_of_bind h
  obtain ⟨pushed, hpushed, h⟩ := exists_of_bind h
  obtain ⟨⟨ok, stack, world'⟩, hcall, h⟩ := exists_of_bind h
  obtain rfl := Except.ok.inj h
  obtain ⟨hsig, hvl, args, hstack, hnarg⟩ := pushArguments_spec hpushed
  refine ⟨hsig, hvl, ?_⟩
  rw [hstack, List.append_assoc, List.singleton_append, hnarg, Nat.zero_add] at hcall
  rcases protectedCall_spec hcall with ⟨rfl, rs, -, hresults, hn⟩ | ⟨rfl, e, -, herror⟩
  · refine ⟨_, hresults, ?_⟩
    rw [adjust_length, Int.toNat_of_nonneg hn, if_pos rfl]
  · exact ⟨[e], herror, rfl⟩

/-- Each write goes to the pointer at its own place and holds the value at that place, read by the
letter there. -/
def Received (L : LuaApi V W D S) (letters : List Char) (vl : List (VaArg D S P))
    (results : List V) (writes : List (P × Stored D S)) : Prop :=
  ∀ (k : ℕ) (p : P) (x : Stored D S), writes[k]? = some (p, x) →
    ∃ letter c a v, letters[k]? = some letter ∧ resultCase L letter = some c ∧
      vl[k]? = some a ∧ c.pointer a = some p ∧
      results[k]? = some v ∧ c.test v = true ∧ x = (c.load v).2

theorem received_nil (letters : List Char) (vl : List (VaArg D S P)) (results : List V) :
    Received L letters vl results [] := by
  intro k p x h
  cases h

theorem Received.cons {letters : List Char} {vl : List (VaArg D S P)} {results : List V}
    {writes : List (P × Stored D S)} (h : Received L letters vl results writes) {letter : Char}
    {c : ResultCase V D S P} {a : VaArg D S P} {p : P} {v : V}
    (hc : resultCase L letter = some c) (hp : c.pointer a = some p) (hv : c.test v = true) :
    Received L (letter :: letters) (a :: vl) (v :: results) ((p, (c.load v).2) :: writes) := by
  intro k p' x hk
  cases k with
  | zero =>
    obtain ⟨rfl, rfl⟩ := Prod.mk.inj (Option.some.inj hk)
    exact ⟨letter, c, a, v, rfl, hc, rfl, hp, rfl, hv, rfl⟩
  | succ k => exact h k p' x hk

theorem finish_spec {base values : List V} {s : LuaState V W} {returned : Bool}
    {writes : List (P × Stored D S)} {printed : List (String × List (PrintfArg S))}
    {r : CallVa V W D S P}
    (hs : s.stack = base ++ values)
    (h : finish values.length s returned writes printed = .ok r) :
    r.wrapper.stack = base ∧ r.writes = writes := by
  rw [finish, hs, pop_append] at h
  obtain rfl := Except.ok.inj h
  exact ⟨rfl, rfl⟩

theorem readResults_spec {base done rest : List V} {sig : List Char} {vl : List (VaArg D S P)}
    {s : LuaState V W} {writes : List (P × Stored D S)} {r : CallVa V W D S P}
    (hs : s.stack = base ++ (done ++ rest))
    (h : readResults L ((done ++ rest).length : ℕ) sig (-(rest.length : ℤ)) vl s writes =
      .ok r) :
    r.wrapper.stack = base ∧
      ∃ more, r.writes = writes ++ more ∧ Received L sig vl rest more := by
  induction sig generalizing done rest vl s writes with
  | nil =>
    obtain ⟨hbase, hwrites⟩ := finish_spec hs h
    exact ⟨hbase, [], hwrites.trans (List.append_nil _).symm, received_nil _ _ _⟩
  | cons letter sig ih =>
    have hstop : ∀ {returned printed}, finish ((done ++ rest).length : ℕ) s returned writes
        printed = .ok r → r.wrapper.stack = base ∧
          ∃ more, r.writes = writes ++ more ∧ Received L (letter :: sig) vl rest more := by
      intro returned printed hr
      obtain ⟨hbase, hwrites⟩ := finish_spec hs hr
      exact ⟨hbase, [], hwrites.trans (List.append_nil _).symm, received_nil _ _ _⟩
    rw [readResults] at h
    cases hc : resultCase L letter with
    | none =>
      rw [hc] at h
      exact hstop h
    | some c =>
      rw [hc] at h
      obtain ⟨v, hv, h⟩ := exists_of_bind h
      cases rest with
      | nil =>
        -- more letters than results: the index has reached 0
        rw [List.length_nil, Nat.cast_zero, neg_zero, get_zero] at hv
        cases hv
      | cons v' rest =>
        rw [hs, ← List.append_assoc, List.length_cons, get_top] at hv
        obtain rfl := Except.ok.inj hv
        split_ifs at h with htest
        · split at h
          · cases h
          · rename_i a vl
            split at h
            · cases h
            · rename_i p hp
              obtain ⟨stack, hstack, h⟩ := exists_of_bind h
              rw [hs, ← List.append_assoc, List.length_cons, replace_top] at hstack
              obtain rfl := Except.ok.inj hstack
              have hlen : (done ++ v' :: rest).length =
                  (done ++ [(c.load v').1] ++ rest).length := by simp
              have hnext : -(((v' :: rest).length : ℕ) : ℤ) + 1 = -(rest.length : ℤ) := by
                rw [List.length_cons]
                omega
              rw [hlen, hnext] at h
              have hslots : base ++ done ++ (c.load v').1 :: rest =
                  base ++ (done ++ [(c.load v').1] ++ rest) := by simp
              obtain ⟨hbase, more, hwrites, hreceived⟩ := ih hslots h
              refine ⟨hbase, (p, (c.load v').2) :: more, ?_, hreceived.cons hc hp htest⟩
              rw [hwrites, List.append_assoc, List.singleton_append]
        · exact hstop h

/-- A call that comes back leaves the stack it found, and each write received the result at the
place of its letter behind '>'. -/
theorem callVa_spec (L : LuaApi V W D S) (m : MyLuaWrapper V W) (func : Option S)
    (sig : List Char) (vl : List (VaArg D S P)) {r : CallVa V W D S P}
    (h : callVa L m func sig vl = .ok r) :
    r.wrapper.stack = m.stack ∧
      (r.writes = [] ∨ ∃ s name called results, m.pState = some s ∧ func = some name ∧
        pushAndCall L s name sig vl = .ok called ∧ called.ok = true ∧
        called.state.stack = m.stack ++ results ∧
        Received L (sig.dropWhile (· ≠ '>')).tail (vl.drop (sig.takeWhile (· ≠ '>')).length)
          results r.writes) := by
  unfold callVa at h
  split at h
  · obtain rfl := Except.ok.inj h
    exact ⟨rfl, Or.inl rfl⟩
  · obtain rfl := Except.ok.inj h
    exact ⟨rfl, Or.inl rfl⟩
  · rename_i name s hs
    have hbase : m.stack = s.stack := by rw [MyLuaWrapper.stack, hs]; rfl
    obtain ⟨called, hcalled, h⟩ := exists_of_bind h
    obtain ⟨hsig, hvl, values, hstack, hlen⟩ := pushAndCall_spec hcalled
    rw [hbase]
    by_cases hok : called.ok = true
    · rw [if_pos hok] at h hlen
      rw [← hlen] at h
      obtain ⟨hstay, more, hwrites, hreceived⟩ := @readResults_spec V W D S P L s.stack []
        values _ _ _ _ _ hstack h
      refine ⟨hstay, Or.inr ⟨s, name, called, values, hs, rfl, hcalled, hok, hstack, ?_⟩⟩
      rwa [hwrites, List.nil_append, ← hsig, ← hvl]
    · rw [if_neg hok] at h hlen
      obtain ⟨error, -, h⟩ := exists_of_bind h
      rw [← hlen] at h
      obtain ⟨hstay, hwrites⟩ := finish_spec hstack h
      exact ⟨hstay, Or.inl hwrites⟩

inductive AddingValue
  | nil
  | number (v : ℤ)
  | text (v : String)
  | add

def addingApi : LuaApi AddingValue Unit ℤ String where
  nil := .nil
  number := .number
  integer := .number
  text := .text
  isNumber := fun | .number _ => true | _ => false
  toNumber := fun | .number v => v | _ => 0
  toInteger := fun | .number v => v | _ => 0
  isString := fun | .number _ | .text _ => true | _ => false
  toText := fun
    | .number v => (.text (toString v), some (toString v))
    | .text v => (.text v, some v)
    | v => (v, none)
  global := fun name world => .ok (if name = "add" then .add else .nil, world)
  canGrow := fun height => height < 8000
  call := fun
    | .add, [.number a, .number b], world => some (.ok [.number (a + b)], world)
    | .add, _, world => some (.error (.text "number expected"), world)
    | _, _, world => some (.error (.text "attempt to call a value"), world)

theorem callVa_add :
    ∃ r, callVa addingApi ⟨some ⟨[.text "below"], ()⟩⟩ (some "add") ['d', 'i', '>', 'i']
        [.double 1, .int 2, .intPtr 7] = .ok r ∧
      r.returned = true ∧ r.writes = [(7, .int 3)] ∧ r.wrapper.stack = [.text "below"] := by
  have hcall : callVa addingApi ⟨some ⟨[.text "below"], ()⟩⟩ (some "add") ['d', 'i', '>', 'i']
      [.double 1, .int 2, .intPtr 7] =
      .ok ⟨true, ⟨some ⟨[.text "below"], ()⟩⟩, [(7, .int 3)], []⟩ := rfl
  exact ⟨_, hcall, rfl, rfl, (callVa_spec _ _ _ _ _ hcall).1⟩

end MyLuaWrapper

end HsCommon
