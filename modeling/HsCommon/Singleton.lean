import HsCommon.Define
import HsCommon.Library.Runs

/-!
# The singleton base class

`Singleton<T>` keeps one pointer for each class `T`. `DestroyInstance` deletes the
object before it resets the pointer, and the destructor of the base class calls
`DestroyInstance` again. A budget bounds the depth of these calls. What the
constructor and the destructor of `T` do themselves is a parameter.
-/

namespace HsCommon
open Transition

/-- `made` numbers the objects; `destroyed` has an entry for each run of the destructor. -/
structure SingletonState (σ : Type*) where
  pInstance : Option ℕ
  made : ℕ
  destroyed : List ℕ
  world : σ

structure SingletonClass (σ : Type*) where
  construct : ℕ → σ → σ
  destruct : ℕ → σ → σ

inductive SingletonCall
  | callInstance
  | callDestroyInstance
  deriving DecidableEq

namespace SingletonState
open SingletonCall

variable {σ : Type*} (T : SingletonClass σ)

def blank (world : σ) : SingletonState σ := ⟨none, 0, [], world⟩

def newObject (s : SingletonState σ) : SingletonState σ :=
  { s with made := s.made + 1, world := T.construct (s.made + 1) s.world }

def instancePtr (s : SingletonState σ) : ℕ × SingletonState σ :=
  match s.pInstance with
  | some p => (p, s)
  | none => (s.made + 1, { newObject T s with pInstance := some (s.made + 1) })

def runDestructor (p : ℕ) (s : SingletonState σ) : SingletonState σ :=
  { s with destroyed := p :: s.destroyed, world := T.destruct p s.world }

def destroyInstance : ℕ → SingletonState σ → Except (Fault × SingletonState σ) (SingletonState σ)
  | 0, s => .error (.outOfFuel, s)
  | fuel + 1, s =>
    match s.pInstance with
    | none => .ok s
    | some p => do
      -- `delete` runs the destructor of `T` and then the one of the base class
      let s ← destroyInstance fuel (runDestructor T p s)
      return { s with pInstance := none }

variable {T} {s s' : SingletonState σ}

theorem instancePtr_some {p : ℕ} (h : s.pInstance = some p) : instancePtr T s = (p, s) := by
  unfold instancePtr
  rw [h]

theorem instancePtr_none (h : s.pInstance = none) :
    instancePtr T s = (s.made + 1, { newObject T s with pInstance := some (s.made + 1) }) := by
  unfold instancePtr
  rw [h]

theorem instancePtr_pInstance (s : SingletonState σ) :
    (instancePtr T s).2.pInstance = some (instancePtr T s).1 := by
  cases hp : s.pInstance with
  | none => rw [instancePtr_none hp]
  | some p => rw [instancePtr_some hp, hp]

theorem destroyInstance_none (h : s.pInstance = none) (fuel : ℕ) :
    destroyInstance T (fuel + 1) s = .ok s := by
  rw [destroyInstance, h]

def destructed (T : SingletonClass σ) (p : ℕ) : ℕ → SingletonState σ → SingletonState σ
  | 0, s => s
  | n + 1, s => destructed T p n (runDestructor T p s)

theorem destroyInstance_some (fuel : ℕ) {p : ℕ} (h : s.pInstance = some p) :
    destroyInstance T fuel s = .error (.outOfFuel, destructed T p fuel s) := by
  induction fuel generalizing s with
  | zero => rfl
  | succ fuel ih =>
    have hdeleted : (runDestructor T p s).pInstance = some p := h
    rw [destroyInstance, h]
    simp only [ih hdeleted]
    rfl

theorem destroyInstance_result {fuel : ℕ} (h : destroyInstance T fuel s = .ok s') :
    s.pInstance = none ∧ s' = s := by
  cases hp : s.pInstance with
  | some p =>
    rw [destroyInstance_some fuel hp] at h
    cases h
  | none =>
    cases fuel with
    | zero => cases h
    | succ fuel =>
      rw [destroyInstance_none hp] at h
      exact ⟨rfl, (Except.ok.inj h).symm⟩

def CallStep (T : SingletonClass σ) (s : SingletonState σ) : SingletonCall → SingletonState σ → Prop
  | callInstance, s' => s' = (instancePtr T s).2
  | callDestroyInstance, s' => ∃ fuel, destroyInstance T fuel s = .ok s'

/-- `DestroyInstance` returns, has destroyed the instance once and left none, and the next
`Instance` makes an object. -/
def DestroysOnce (T : SingletonClass σ) (s : SingletonState σ) : Prop :=
  ∃ s', CallStep T s callDestroyInstance s' ∧
    s'.destroyed = s.pInstance.toList ++ s.destroyed ∧ s'.pInstance = none ∧
    (instancePtr T s').1 = s'.made + 1 ∧ (instancePtr T s').2.made = s'.made + 1

def EachDestroysOnce (T : SingletonClass σ) (world : σ) (calls : List SingletonCall) : Prop :=
  ∀ before after s, calls = before ++ callDestroyInstance :: after →
    Run (CallStep T) (blank world) before s → DestroysOnce T s

theorem DestroysOnce.pInstance (h : DestroysOnce T s) : s.pInstance = none := by
  obtain ⟨s', ⟨fuel, hs'⟩, -⟩ := h
  exact (destroyInstance_result hs').1

theorem destroysOnce_of_none (h : s.pInstance = none) : DestroysOnce T s := by
  refine ⟨s, ⟨1, destroyInstance_none h 0⟩, ?_, h, ?_, ?_⟩
  · rw [h]
    rfl
  · rw [instancePtr_none h]
  · rw [instancePtr_none h]
    rfl

theorem run_none {calls : List SingletonCall} {s₀ : SingletonState σ}
    (h : Run (CallStep T) s₀ calls s) (h₀ : s₀.pInstance = none)
    (hcalls : callInstance ∉ calls) : s = s₀ := by
  induction h with
  | nil => rfl
  | @snoc calls s s' call hrun hstep ih =>
    obtain rfl := ih fun hin => hcalls (List.mem_append_left _ hin)
    cases call with
    | callInstance => exact absurd (List.mem_append_right _ List.mem_cons_self) hcalls
    | callDestroyInstance =>
      obtain ⟨fuel, hs'⟩ := hstep
      exact (destroyInstance_result hs').2

theorem exists_run_none {calls : List SingletonCall} (h : s.pInstance = none)
    (hcalls : callInstance ∉ calls) : Run (CallStep T) s calls s := by
  induction calls with
  | nil => exact .nil
  | cons call calls ih =>
    cases call with
    | callInstance => exact absurd List.mem_cons_self hcalls
    | callDestroyInstance =>
      apply Run.cons _ (ih fun hin => hcalls (List.mem_cons_of_mem _ hin))
      exact ⟨1, destroyInstance_none h 0⟩

theorem exists_run_some {calls : List SingletonCall} {p : ℕ} (h : s.pInstance = some p)
    (hcalls : callDestroyInstance ∉ calls) : Run (CallStep T) s calls s := by
  induction calls with
  | nil => exact .nil
  | cons call calls ih =>
    cases call with
    | callDestroyInstance => exact absurd List.mem_cons_self hcalls
    | callInstance =>
      apply Run.cons _ (ih fun hin => hcalls (List.mem_cons_of_mem _ hin))
      exact (congrArg Prod.snd (instancePtr_some h)).symm

/-- Every `DestroyInstance` does its work exactly when none of them has work to do. -/
theorem eachDestroysOnce_iff (T : SingletonClass σ) (world : σ) (calls : List SingletonCall) :
    EachDestroysOnce T world calls ↔
      ∀ before after, calls = before ++ callDestroyInstance :: after → callInstance ∉ before := by
  constructor
  · intro h before after hcalls hin
    -- the first `Instance`, and the first `DestroyInstance` behind it
    obtain ⟨early, late, rfl, hearly⟩ := List.eq_append_cons_of_mem hin
    have hlater : callDestroyInstance ∈ late ++ callDestroyInstance :: after :=
      List.mem_append_right _ List.mem_cons_self
    obtain ⟨middle, rest, hsplit, hmiddle⟩ := List.eq_append_cons_of_mem hlater
    have hnone : Run (CallStep T) (blank world) early (blank world) :=
      exists_run_none rfl hearly
    have hptr := @instancePtr_pInstance σ T (blank world)
    have hsome := @exists_run_some σ T _ _ _ hptr hmiddle
    have hfirst : CallStep T (blank world) callInstance (instancePtr T (blank world)).2 := rfl
    have hrun := hnone.append (Run.cons hfirst hsome)
    have hcalls' : calls = (early ++ callInstance :: middle) ++ callDestroyInstance :: rest := by
      simpa only [List.append_assoc, List.cons_append, hsplit] using hcalls
    have hlast := (h _ rest _ hcalls' hrun).pInstance
    rw [instancePtr_pInstance] at hlast
    cases hlast
  · intro h before after s hcalls hrun
    obtain rfl := run_none hrun rfl (h before after hcalls)
    exact destroysOnce_of_none rfl

theorem destroy_diverges :
    ¬ ∀ (T : SingletonClass ℕ) (world : ℕ) (calls : List SingletonCall),
      EachDestroysOnce T world calls := by
  intro h
  have hrun : Run (CallStep ⟨fun _ => id, fun _ => Nat.succ⟩) (blank 0) [callInstance]
      ⟨some 1, 1, [], 0⟩ := Run.nil.snoc rfl
  have hnone := (h ⟨fun _ => id, fun _ => Nat.succ⟩ 0 [callInstance, callDestroyInstance]
    [callInstance] [] _ rfl hrun).pInstance
  cases hnone

end SingletonState

end HsCommon
