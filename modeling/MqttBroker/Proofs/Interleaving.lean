import Mathlib.Data.List.Infix
import MqttBroker.Proofs.Table

/-!
Calls that take two steps on something shared. Any number of them may be under way at once, and
between the two steps of a call the others may take theirs. A run is an order in which the steps
are taken.
-/

namespace MqttBroker

/-- A kind of calls. The first step says what is left for the second, if there is to be one. -/
structure TwoStep (σ κ τ : Type) where
  first : σ → κ → σ × Option τ
  second : σ → τ → σ

/-- What is shared, and the calls on it. These are numbered from one on as they are begun. -/
structure Shared (σ τ : Type) where
  value : σ
  begun : Nat := 0
  /-- What is left for the calls that are between their two steps. -/
  between : Table Nat τ := []

def Shared.Numbered {σ τ : Type} (s : Shared σ τ) : Prop :=
  ∀ number left, s.between.get? number = some left → 0 < number ∧ number ≤ s.begun

namespace TwoStep

inductive Stroke (κ : Type)
  | call (c : κ)
  | finish (number : Nat)
deriving DecidableEq

variable {σ κ τ : Type} (p : TwoStep σ κ τ)

def alone (value : σ) (c : κ) : σ :=
  match p.first value c with
  | (value, none) => value
  | (value, some left) => p.second value left

def step (s : Shared σ τ) : Stroke κ → Shared σ τ
  | .call c =>
    let (value, left) := p.first s.value c
    { value, begun := s.begun + 1
      between := match left with
        | none => s.between
        | some left => s.between.insert (s.begun + 1) left }
  | .finish number =>
    match s.between.get? number with
    | none => s
    | some left => { s with value := p.second s.value left, between := s.between.erase number }

def run (s : Shared σ τ) (strokes : List (Stroke κ)) : Shared σ τ := strokes.foldl p.step s

def countCalls (strokes : List (Stroke κ)) : Nat :=
  strokes.countP fun
    | .call _ => true
    | .finish _ => false

/-- Every call of a run comes at a point where it may. -/
def Allows (may : σ → κ → Prop) (s : Shared σ τ) (strokes : List (Stroke κ)) : Prop :=
  ∀ before c, before ++ [.call c] <+: strokes → may (p.run s before).value c

variable {p} {s : Shared σ τ}

theorem run_concat (s : Shared σ τ) (strokes : List (Stroke κ)) (x : Stroke κ) :
    p.run s (strokes ++ [x]) = p.step (p.run s strokes) x :=
  List.foldl_concat ..

theorem countCalls_concat (strokes : List (Stroke κ)) (x : Stroke κ) :
    countCalls (strokes ++ [x]) = countCalls strokes + countCalls [x] :=
  List.countP_append ..

theorem Allows.before {may : σ → κ → Prop} {strokes : List (Stroke κ)} {x : Stroke κ}
    (allows : p.Allows may s (strokes ++ [x])) : p.Allows may s strokes :=
  fun before c inside => allows before c (inside.trans (List.prefix_append ..))

theorem Allows.last {may : σ → κ → Prop} {strokes : List (Stroke κ)} {c : κ}
    (allows : p.Allows may s (strokes ++ [.call c])) : may (p.run s strokes).value c :=
  allows strokes c (List.prefix_refl _)

theorem allows_nil (may : σ → κ → Prop) (s : Shared σ τ) : p.Allows may s [] := by
  intro before c inside
  simp at inside

theorem allows_cons {may : σ → κ → Prop} {x : Stroke κ} {strokes : List (Stroke κ)} :
    p.Allows may s (x :: strokes) ↔
      (∀ c, x = .call c → may s.value c) ∧ p.Allows may (p.step s x) strokes := by
  constructor
  · intro allows
    refine ⟨fun c same => ?_, fun before c inside => ?_⟩
    · exact allows [] c (by simp [same])
    · exact allows (x :: before) c (List.cons_prefix_cons.mpr ⟨rfl, inside⟩)
  · rintro ⟨first, rest⟩ before c inside
    cases before with
    | nil => exact first c (List.cons_prefix_cons.mp inside).1.symm
    | cons y before =>
        obtain ⟨rfl, later⟩ := List.cons_prefix_cons.mp inside
        exact rest before c later

/-! Steps -/

theorem step_finish {number : Nat} {left : τ} (found : s.between.get? number = some left) :
    p.step s (.finish number) =
      { s with value := p.second s.value left, between := s.between.erase number } := by
  simp only [step, found]

theorem step_finish_none {number : Nat} (absent : s.between.get? number = none) :
    p.step s (.finish number) = s := by
  simp only [step, absent]

theorem run_begun (s : Shared σ τ) (strokes : List (Stroke κ)) :
    (p.run s strokes).begun = s.begun + countCalls strokes := by
  induction strokes using List.reverseRecOn with
  | nil => rfl
  | append_singleton strokes x ih =>
      rw [run_concat, countCalls_concat, ← Nat.add_assoc, ← ih]
      cases x with
      | call c => rfl
      | finish number =>
          simp only [step]
          split <;> rfl

theorem numbered_empty (value : σ) : ({ value } : Shared σ τ).Numbered := by
  intro number left found
  cases found

theorem get?_unnumbered (numbered : s.Numbered) {number : Nat}
    (outside : number = 0 ∨ s.begun < number) : s.between.get? number = none := by
  by_contra used
  obtain ⟨left, found⟩ := Option.ne_none_iff_exists'.mp used
  have := numbered number left found
  omega

theorem get?_call (numbered : s.Numbered) (c : κ) (number : Nat) :
    (p.step s (.call c)).between.get? number =
      if number = s.begun + 1 then (p.first s.value c).2 else s.between.get? number := by
  have unused : s.between.get? (s.begun + 1) = none :=
    get?_unnumbered numbered (Or.inr (Nat.lt_succ_self _))
  simp only [step]
  cases (p.first s.value c).2 with
  | none =>
      by_cases new : number = s.begun + 1
      · simp [new, unused]
      · simp [new]
  | some left => exact Table.get?_insert ..

theorem call_keeps (numbered : s.Numbered) (c : κ) {number : Nat} {left : τ}
    (found : s.between.get? number = some left) :
    (p.step s (.call c)).between.get? number = some left := by
  have old := (numbered number left found).2
  rw [get?_call numbered, if_neg (by omega), found]

theorem numbered_step (numbered : s.Numbered) (x : Stroke κ) : (p.step s x).Numbered := by
  cases x with
  | call c =>
      intro number left found
      rw [get?_call numbered] at found
      change 0 < number ∧ number ≤ s.begun + 1
      by_cases new : number = s.begun + 1
      · omega
      · rw [if_neg new] at found
        have := numbered number left found
        omega
  | finish number =>
      cases held : s.between.get? number with
      | none =>
          rw [step_finish_none held]
          exact numbered
      | some left =>
          rw [step_finish held]
          intro other later found
          exact numbered other later (Table.get?_erase_eq_some_iff.mp found).2

/-- Whoever takes both steps at once does what the call does alone. -/
theorem run_alone (numbered : s.Numbered) (c : κ) :
    (p.run s [.call c, .finish (s.begun + 1)]).value = p.alone s.value c := by
  have here := get?_call (p := p) numbered c (s.begun + 1)
  rw [if_pos rfl] at here
  change (p.step (p.step s (.call c)) (.finish (s.begun + 1))).value = _
  unfold alone
  split
  · rename_i value done
    rw [done] at here
    rw [step_finish_none here]
    simp only [step, done]
  · rename_i value left begun
    rw [begun] at here
    rw [step_finish here]
    simp only [step, begun]

end TwoStep

end MqttBroker
