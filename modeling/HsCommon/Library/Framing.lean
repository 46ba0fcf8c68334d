import Mathlib.Data.List.Basic
import Mathlib.Tactic

/-!
# Framed streams

A decoder looks at the front of a symbol string and finds a frame there, rejects
the string, or asks for more symbols. It is incremental when more symbols change
neither a frame found nor a rejection. Draining a string reads frames off its front
until the decoder asks for more. How a stream is cut into pieces does not matter
to an incremental decoder, and a prefix of a stream of frames drains to exactly
the frames that are complete in it.
-/

namespace Framing
variable {α β : Type*}

inductive Result (β : Type*) where
  | rejected
  | incomplete
  | frame (value : β) (length : ℕ)

structure Incremental (decode : List α → Result β) : Prop where
  frame_le : ∀ s v n, decode s = .frame v n → 0 < n ∧ n ≤ s.length
  frame_append : ∀ s v n r, decode s = .frame v n → decode (s ++ r) = .frame v n
  rejected_append : ∀ s r, decode s = .rejected → decode (s ++ r) = .rejected

/-- `Drains decode s vs o`: the frames read off `s` carry `vs`, and `o` is what is left, or `none`
after a rejection. -/
inductive Drains (decode : List α → Result β) : List α → List β → Option (List α) → Prop where
  | incomplete {s : List α} : decode s = .incomplete → Drains decode s [] (some s)
  | rejected {s : List α} : decode s = .rejected → Drains decode s [] none
  | frame {s : List α} {v : β} {n : ℕ} {vs : List β} {o : Option (List α)} :
      decode s = .frame v n → Drains decode (s.drop n) vs o → Drains decode s (v :: vs) o

variable {decode : List α → Result β}

theorem Drains.unique {s : List α} {vs ws : List β} {o o' : Option (List α)}
    (h : Drains decode s vs o) (h' : Drains decode s ws o') : vs = ws ∧ o = o' := by
  induction h generalizing ws o' with
  | incomplete hs =>
    cases h' with
    | incomplete _ => exact ⟨rfl, rfl⟩
    | rejected hs' => rw [hs] at hs'; cases hs'
    | frame hs' _ => rw [hs] at hs'; cases hs'
  | rejected hs =>
    cases h' with
    | incomplete hs' => rw [hs] at hs'; cases hs'
    | rejected _ => exact ⟨rfl, rfl⟩
    | frame hs' _ => rw [hs] at hs'; cases hs'
  | frame hs _ ih =>
    cases h' with
    | incomplete hs' => rw [hs] at hs'; cases hs'
    | rejected hs' => rw [hs] at hs'; cases hs'
    | frame hs' h' =>
      rw [hs] at hs'
      cases hs'
      obtain ⟨rfl, rfl⟩ := ih h'
      exact ⟨rfl, rfl⟩

theorem Drains.rest_incomplete {s r : List α} {vs : List β} {o : Option (List α)}
    (h : Drains decode s vs o) (ho : o = some r) : decode r = .incomplete := by
  induction h with
  | incomplete hs =>
    cases ho
    exact hs
  | rejected _ => cases ho
  | frame _ _ ih => exact ih ho

theorem Drains.split (hd : Incremental decode) {s t r : List α} {vs us : List β}
    {o o' : Option (List α)} (h : Drains decode s vs o) (ho : o = some r)
    (h' : Drains decode (s ++ t) us o') : ∃ ws, us = vs ++ ws ∧ Drains decode (r ++ t) ws o' := by
  induction h generalizing us with
  | incomplete _ =>
    cases ho
    exact ⟨us, rfl, h'⟩
  | rejected _ => cases ho
  | @frame s v n vs o hs _ ih =>
    have hlonger := hd.frame_append s v n t hs
    cases h' with
    | incomplete hs' => rw [hlonger] at hs'; cases hs'
    | rejected hs' => rw [hlonger] at hs'; cases hs'
    | frame hs' h' =>
      rw [hlonger] at hs'
      cases hs'
      rw [List.drop_append_of_le_length (hd.frame_le s v n hs).2] at h'
      obtain ⟨ws, rfl, hws⟩ := ih ho h'
      exact ⟨ws, rfl, hws⟩

theorem Drains.rejected_append (hd : Incremental decode) {s t : List α} {vs : List β}
    {o : Option (List α)} (h : Drains decode s vs o) (ho : o = none) :
    Drains decode (s ++ t) vs none := by
  induction h with
  | incomplete _ => cases ho
  | rejected hs => exact .rejected (hd.rejected_append _ _ hs)
  | @frame s v n vs o hs _ ih =>
    have hrest := ih ho
    rw [← List.drop_append_of_le_length (hd.frame_le s v n hs).2] at hrest
    exact .frame (hd.frame_append _ _ _ t hs) hrest

theorem exists_drains (hd : Incremental decode) (s : List α) : ∃ vs o, Drains decode s vs o := by
  induction hn : s.length using Nat.strong_induction_on generalizing s with
  | _ n ih =>
    subst hn
    cases hs : decode s with
    | rejected => exact ⟨[], none, .rejected hs⟩
    | incomplete => exact ⟨[], some s, .incomplete hs⟩
    | frame v k =>
      obtain ⟨hpos, hle⟩ := hd.frame_le s v k hs
      obtain ⟨vs, o, hrest⟩ := ih _ (by rw [List.length_drop]; omega) (s.drop k) rfl
      exact ⟨v :: vs, o, .frame hs hrest⟩

structure Reader (σ α ε : Type*) where
  isOpen : σ → Bool
  room : σ → ℕ
  read : σ → List α → Except ε σ

def Reader.feed {σ ε : Type*} (R : Reader σ α ε) : List (List α) → σ → Except ε (Option σ)
  | [], s => .ok (some s)
  | c :: cs, s =>
    if !R.isOpen s then .ok (some s)
    else if c.length ≤ R.room s then
      match R.read s c with
      | .ok s' => R.feed cs s'
      | .error e => .error e
    else .ok none

/-- The machine reads the frames: `Waits s vs r` says that it has handed out `vs` and holds the
incomplete rest `r`, `Closed s vs` that it has handed out `vs` and then closed. -/
structure Reader.Implements {σ ε : Type*} (R : Reader σ α ε) (decode : List α → Result β)
    (Waits : σ → List β → List α → Prop) (Closed : σ → List β → Prop) : Prop where
  isOpen : ∀ s vs r, Waits s vs r → R.isOpen s = true
  closed : ∀ s vs, Closed s vs → R.isOpen s = false
  reads : ∀ s vs r c ws o, Waits s vs r → c ≠ [] → c.length ≤ R.room s →
    Drains decode (r ++ c) ws o → ∃ s', R.read s c = .ok s' ∧
      (∀ r', o = some r' → Waits s' (vs ++ ws) r') ∧ (o = none → Closed s' (vs ++ ws))

/-- However the stream is cut, the machine hands out what the whole stream drains to. -/
theorem Reader.Implements.feed {σ ε : Type*} {R : Reader σ α ε}
    {Waits : σ → List β → List α → Prop} {Closed : σ → List β → Prop}
    (h : R.Implements decode Waits Closed) (hd : Incremental decode) {cs : List (List α)}
    (hcs : ∀ c ∈ cs, c ≠ []) {s : σ} {vs : List β} {r : List α} (hs : Waits s vs r)
    (hr : decode r = .incomplete) {ws : List β} {o : Option (List α)}
    (hws : Drains decode (r ++ cs.flatten) ws o) :
    R.feed cs s = .ok none ∨ ∃ s', R.feed cs s = .ok (some s') ∧
      (∀ r', o = some r' → Waits s' (vs ++ ws) r') ∧ (o = none → Closed s' (vs ++ ws)) := by
  induction cs generalizing s vs r ws with
  | nil =>
    rw [List.flatten_nil, List.append_nil] at hws
    obtain ⟨rfl, rfl⟩ := hws.unique (.incomplete hr)
    refine Or.inr ⟨s, rfl, fun r' hr' => ?_, fun ho => by cases ho⟩
    obtain rfl := Option.some.inj hr'
    rwa [List.append_nil]
  | cons c cs ih =>
    rw [Reader.feed, h.isOpen s vs r hs]
    by_cases hroom : c.length ≤ R.room s
    · obtain ⟨us, o₁, hus⟩ := exists_drains hd (r ++ c)
      obtain ⟨s', hread, hwait, hclosed⟩ :=
        h.reads s vs r c us o₁ hs (hcs c List.mem_cons_self) hroom hus
      rw [List.flatten_cons, ← List.append_assoc] at hws
      simp only [Bool.not_true, Bool.false_eq_true, if_false, if_pos hroom, hread]
      cases o₁ with
      | some r₁ =>
        obtain ⟨ws, rfl, hrest⟩ := hus.split hd rfl hws
        rw [← List.append_assoc]
        exact ih (fun d hd' => hcs d (List.mem_cons_of_mem _ hd')) (hwait r₁ rfl)
          (hus.rest_incomplete rfl) hrest
      | none =>
        obtain ⟨rfl, rfl⟩ := hws.unique (hus.rejected_append hd rfl)
        refine Or.inr ⟨s', ?_, fun r' hr' => (by cases hr'), fun _ => hclosed rfl⟩
        cases cs with
        | nil => rfl
        | cons d ds =>
          rw [Reader.feed, h.closed s' _ (hclosed rfl)]
          rfl
    · left
      simp only [Bool.not_true, Bool.false_eq_true, if_false, if_neg hroom]

structure Frame (α β : Type*) where
  symbols : List α
  value : β

def stream (fs : List (Frame α β)) : List α := fs.flatMap Frame.symbols

def completed : List (Frame α β) → ℕ → List β
  | [], _ => []
  | f :: fs, n =>
    if f.symbols.length ≤ n then f.value :: completed fs (n - f.symbols.length) else []

structure Decodes (decode : List α → Result β) (f : Frame α β) : Prop where
  whole : decode f.symbols = .frame f.value f.symbols.length
  part : ∀ s, s <+: f.symbols → s.length < f.symbols.length → decode s = .incomplete

theorem completed_zero {fs : List (Frame α β)} (h : ∀ f ∈ fs, f.symbols ≠ []) :
    completed fs 0 = [] := by
  cases fs with
  | nil => rfl
  | cons f fs =>
    have := List.length_pos_iff.mpr (h f List.mem_cons_self)
    rw [completed, if_neg (by omega)]

theorem drains_stream (hd : Incremental decode) {fs : List (Frame α β)}
    (hf : ∀ f ∈ fs, Decodes decode f) {r : List α} (hr : decode r = .incomplete) :
    Drains decode (stream fs ++ r) (fs.map Frame.value) (some r) := by
  induction fs with
  | nil => exact .incomplete hr
  | cons f fs ih =>
    have hwhole := (hf f List.mem_cons_self).whole
    have hrest := ih fun g hg => hf g (List.mem_cons_of_mem _ hg)
    rw [stream, List.flatMap_cons, List.append_assoc]
    refine .frame (hd.frame_append _ _ _ _ hwhole) ?_
    rwa [List.drop_left]

theorem drains_prefix (hd : Incremental decode) (hnil : decode [] = .incomplete)
    {fs : List (Frame α β)} (hf : ∀ f ∈ fs, Decodes decode f) {s : List α}
    (hs : s <+: stream fs) : ∃ r, Drains decode s (completed fs s.length) (some r) := by
  induction fs generalizing s with
  | nil =>
    obtain rfl : s = [] := List.prefix_nil.mp hs
    exact ⟨[], .incomplete hnil⟩
  | cons f fs ih =>
    have hdec := hf f List.mem_cons_self
    have hstream : stream (f :: fs) = f.symbols ++ stream fs := by
      simp [stream]
    rw [hstream] at hs
    rw [completed]
    by_cases hlen : f.symbols.length ≤ s.length
    · have hfs : f.symbols <+: s := List.prefix_of_prefix_length_le (List.prefix_append _ _) hs hlen
      obtain ⟨t, rfl⟩ := hfs
      have ht : t <+: stream fs := (List.prefix_append_right_inj _).mp hs
      obtain ⟨r, hr⟩ := ih (fun g hg => hf g (List.mem_cons_of_mem _ hg)) ht
      refine ⟨r, ?_⟩
      have hsub : (f.symbols ++ t).length - f.symbols.length = t.length := by
        rw [List.length_append]
        omega
      rw [if_pos hlen, hsub]
      refine .frame (hd.frame_append _ _ _ t hdec.whole) ?_
      rwa [List.drop_left]
    · rw [if_neg hlen]
      have hpre : s <+: f.symbols :=
        List.prefix_of_prefix_length_le hs (List.prefix_append _ _) (by omega)
      exact ⟨s, .incomplete (hdec.part s hpre (by omega))⟩

theorem drains_packets (hd : Incremental decode) (hnil : decode [] = .incomplete)
    {encodes : β → List α → Prop} (henc : ∀ v x, encodes v x → Decodes decode ⟨x, v⟩)
    {vs : List β} {xs : List (List α)} (h : List.Forall₂ encodes vs xs) {s : List α}
    (hs : s <+: xs.flatten) :
    ∃ ws r, Drains decode s ws (some r) ∧ ws <+: vs ∧ (s = xs.flatten → ws = vs) := by
  induction h generalizing s with
  | nil =>
    obtain rfl : s = [] := List.prefix_nil.mp hs
    exact ⟨[], [], .incomplete hnil, List.prefix_rfl, fun _ => rfl⟩
  | @cons v x vs xs hvx _ ih =>
    have hdec := henc v x hvx
    rw [List.flatten_cons] at hs ⊢
    by_cases hlen : x.length ≤ s.length
    · obtain ⟨t, rfl⟩ := List.prefix_of_prefix_length_le (List.prefix_append _ _) hs hlen
      obtain ⟨ws, r, hws, hpre, hall⟩ := ih ((List.prefix_append_right_inj _).mp hs)
      refine ⟨v :: ws, r, .frame (hd.frame_append _ _ _ t hdec.whole) ?_, ?_, ?_⟩
      · rwa [List.drop_left]
      · exact (List.prefix_append_right_inj [v]).mpr hpre
      · intro heq
        rw [hall (List.append_cancel_left heq)]
    · have hpre : s <+: x :=
        List.prefix_of_prefix_length_le hs (List.prefix_append _ _) (by omega)
      refine ⟨[], s, .incomplete (hdec.part s hpre (by simpa using hlen)), List.nil_prefix, ?_⟩
      intro heq
      rw [heq, List.length_append] at hlen
      omega

end Framing
