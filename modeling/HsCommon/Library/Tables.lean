import Mathlib.Data.List.Basic
import Mathlib.Tactic

/-!
# Tables whose entries are kept

`insert` leaves a key that is there as it is, so a list put into a table entry by entry is found by
the first entry of each key. Entries numbered by their place give an index of the list.
-/

namespace Table
variable {κ ν α β ε : Type*}

section entries
variable [DecidableEq κ]

def get (t : List (κ × ν)) (k : κ) : Option ν := t.lookup k

def insert (t : List (κ × ν)) (k : κ) (v : ν) : List (κ × ν) :=
  if (get t k).isSome then t else t ++ [(k, v)]

def assign (t : List (κ × ν)) (k : κ) (v : ν) : List (κ × ν) :=
  t.map fun p => if p.1 = k then (k, v) else p

@[simp] theorem get_nil (k : κ) : get ([] : List (κ × ν)) k = none := rfl

theorem get_cons (k k' : κ) (v : ν) (t : List (κ × ν)) :
    get ((k, v) :: t) k' = if k' = k then some v else get t k' := by
  rw [get, List.lookup_cons]
  by_cases h : k' = k
  · rw [beq_iff_eq.mpr h, if_pos h]
  · rw [beq_false_of_ne h, if_neg h, get]

theorem get_append (t t' : List (κ × ν)) (k : κ) : get (t ++ t') k = (get t k).or (get t' k) :=
  List.lookup_append

theorem get_insert (t : List (κ × ν)) (k k' : κ) (v : ν) :
    get (insert t k v) k' = (get t k').or (if k' = k then some v else none) := by
  rw [insert]
  split_ifs with hin hk hk
  · obtain ⟨w, hw⟩ := Option.isSome_iff_exists.mp hin
    rw [hk, hw, Option.some_or]
  · rw [Option.or_none]
  · rw [get_append, get_cons, if_pos hk]
  · rw [get_append, get_cons, if_neg hk, get_nil]

theorem get_assign (t : List (κ × ν)) (k k' : κ) (v : ν) :
    get (assign t k v) k' = if k' = k then (get t k').map fun _ => v else get t k' := by
  induction t with
  | nil =>
    split_ifs <;> rfl
  | cons p t ih =>
    obtain ⟨k₁, v₁⟩ := p
    rw [assign, List.map_cons]
    dsimp only
    rw [get_cons]
    by_cases h₁ : k₁ = k
    · rw [if_pos h₁, get_cons, h₁, ← assign, ih]
      split_ifs <;> rfl
    · rw [if_neg h₁, get_cons, ← assign, ih]
      split_ifs with h₂ h₃ h₃
      · exact absurd (h₂.symm.trans h₃) h₁
      · rfl
      · rfl
      · rfl

theorem exists_get_of_ne_nil {t : List (κ × ν)} (h : t ≠ []) : ∃ k v, get t k = some v := by
  obtain ⟨p, t, rfl⟩ := List.exists_cons_of_ne_nil h
  exact ⟨p.1, p.2, by rw [get_cons, if_pos rfl]⟩

def index (key : α → Option κ) (t : List (κ × ℕ)) (p : α × ℕ) : List (κ × ℕ) :=
  match key p.1 with
  | some k => insert t k p.2
  | none => t

theorem get_index (key : α → Option κ) (xs : List α) (n : ℕ) (t : List (κ × ℕ)) (k : κ) :
    get ((xs.zipIdx n).foldl (index key) t) k =
      (get t k).or ((xs.findIdx? fun x => key x = some k).map (· + n)) := by
  induction xs generalizing n t with
  | nil =>
    rw [List.zipIdx_nil, List.foldl_nil, List.findIdx?_nil, Option.map_none, Option.or_none]
  | cons x xs ih =>
    rw [List.zipIdx_cons, List.foldl_cons, ih, List.findIdx?_cons, index]
    have hnext : (xs.findIdx? fun x => key x = some k).map (· + (n + 1)) =
        ((xs.findIdx? fun x => key x = some k).map (· + 1)).map (· + n) := by
      rw [Option.map_map]
      congr 1
      funext i
      simp only [Function.comp_apply]
      omega
    cases hx : key x with
    | none => simp [hnext]
    | some k₁ =>
      dsimp only
      rw [get_insert]
      by_cases hk : k = k₁
      · subst hk
        simp
      · have hne : ¬ some k₁ = some k := fun h => hk (Option.some.inj h).symm
        simp [hk, hne, hnext]

end entries

/-- The last place of an element with `p`. -/
def lastIdx (p : α → Bool) (xs : List α) : Option ℕ :=
  ((xs.zipIdx.filter fun q => p q.1).getLast?).map Prod.snd

theorem foldl_lastIdx (p : α → Bool) (xs : List α) (a : ℕ) :
    xs.zipIdx.foldl (fun a q => if p q.1 then q.2 else a) a = (lastIdx p xs).getD a := by
  induction xs using List.reverseRecOn generalizing a with
  | nil => rfl
  | append_singleton xs x ih =>
    rw [List.zipIdx_append, List.foldl_append, ih, lastIdx, lastIdx, List.zipIdx_append,
      List.filter_append, List.zipIdx_singleton, List.foldl_cons, List.foldl_nil]
    by_cases hx : p x
    · simp [hx]
    · simp [hx]

theorem lastIdx_lt {p : α → Bool} {xs : List α} {i : ℕ} (h : lastIdx p xs = some i) :
    i < xs.length := by
  obtain ⟨q, hq, rfl⟩ := Option.map_eq_some_iff.mp h
  have hmem := List.mem_of_mem_filter (List.mem_of_getLast? hq)
  exact List.snd_lt_of_mem_zipIdx hmem

theorem lastIdx_eq_none {p : α → Bool} {xs : List α} (h : ∀ x ∈ xs, p x = false) :
    lastIdx p xs = none := by
  have hnone : xs.zipIdx.filter (fun q => p q.1) = [] := by
    rw [List.filter_eq_nil_iff]
    intro q hq
    rw [h q.1 (List.fst_mem_of_mem_zipIdx hq)]
    exact Bool.false_ne_true
  rw [lastIdx, hnone]
  rfl

theorem lastIdx_append_singleton {p : α → Bool} {x : α} (h : p x) (xs : List α) :
    lastIdx p (xs ++ [x]) = some xs.length := by
  rw [lastIdx, List.zipIdx_append, List.filter_append]
  simp [h]

theorem foldl_both {γ : Type*} (g : β → α → β) (h : γ → α → γ) (xs : List α) (b : β) (c : γ) :
    xs.foldl (fun s x => (g s.1 x, h s.2 x)) (b, c) = (xs.foldl g b, xs.foldl h c) := by
  induction xs generalizing b c with
  | nil => rfl
  | cons x xs ih =>
    rw [List.foldl_cons, ih]
    rfl

theorem foldlM_range {f : β → ℕ → Except ε β} {g : β → α × ℕ → β} {xs : List α}
    (h : ∀ b i (hi : i < xs.length), f b i = .ok (g b (xs[i], i))) (b : β) :
    (List.range xs.length).foldlM f b = .ok (xs.zipIdx.foldl g b) := by
  induction xs using List.reverseRecOn generalizing b with
  | nil => rfl
  | append_singleton xs x ih =>
    have hbefore : ∀ b i (hi : i < xs.length), f b i = .ok (g b (xs[i], i)) := fun b i hi => by
      rw [h b i (by rw [List.length_append]; omega), List.getElem_append_left hi]
    have hlast := h (xs.zipIdx.foldl g b) xs.length (by simp)
    rw [List.getElem_append_right le_rfl] at hlast
    simp only [Nat.sub_self, List.getElem_cons_zero] at hlast
    rw [List.length_append, List.length_singleton, List.range_succ, List.foldlM_append,
      ih hbefore, List.zipIdx_append, List.foldl_append, List.zipIdx_singleton, Nat.zero_add]
    simp only [List.foldl_cons, List.foldl_nil, List.foldlM_cons, List.foldlM_nil]
    change (f (xs.zipIdx.foldl g b) xs.length >>= pure) = _
    rw [hlast]
    rfl

end Table
