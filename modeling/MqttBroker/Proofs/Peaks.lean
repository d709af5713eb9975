import Mathlib.Order.Bounds.Basic
import MqttBroker.Gauge
import MqttBroker.Proofs.Interleaving

/-!
The peak of a gauge that many use at once. A call moves the current value in one step and lifts the
peak in another, so for a while the peak can be less than a value that the gauge has had, even one
that is gone again. Whenever no call is between its steps, the peak is the highest of these values.
-/

namespace MqttBroker.Gauge

open TwoStep

inductive Call
  | add (n : Int)
  | subtract (n : Int)
  | set (n : Int)
deriving DecidableEq

/-- The amount is not negative, and the sum or the difference is a word. -/
def Fits (g : Gauge) : Call → Prop
  | .add n => 0 ≤ n ∧ SignedWord.inRange (g.current + n) = true
  | .subtract n => 0 ≤ n ∧ SignedWord.inRange (g.current - n) = true
  | .set _ => True

instance (g : Gauge) : (c : Call) → Decidable (g.Fits c)
  | .add _ | .subtract _ => inferInstanceAs (Decidable (_ ∧ _))
  | .set _ => inferInstanceAs (Decidable True)

def calls : TwoStep Gauge Call Int where
  first g
    | .add n => (g.shift n, (SignedWord.add g.current n).toOption)
    | .subtract n => (g.shift (-n), none)
    | .set n => ({ g with current := n }, some n)
  second := raise

theorem calls_alone (g : Gauge) (n : Int) :
    calls.alone g (.add n) = (g.add n).1 ∧ calls.alone g (.subtract n) = g.subtract n ∧
      calls.alone g (.set n) = g.set n := by
  refine ⟨?_, rfl, rfl⟩
  cases sum : SignedWord.add g.current n with
  | error e => simp [alone, calls, add, sum, Except.toOption]
  | ok m => simp [alone, calls, add, sum, Except.toOption]

theorem first_peak (g : Gauge) (c : Call) : (calls.first g c).1.peak = g.peak := by
  cases c <;> rfl

theorem first_fits {g : Gauge} {c : Call} (fits : g.Fits c) :
    (calls.first g c).2 = some (calls.first g c).1.current ∨
      (calls.first g c).2 = none ∧ (calls.first g c).1.current ≤ g.current := by
  cases c with
  | add n =>
      obtain ⟨_, word⟩ := fits
      left
      simp only [calls, shift, SignedWord.wrap_inRange word, SignedWord.add, word, if_true]
      rfl
  | subtract n =>
      obtain ⟨more, word⟩ := fits
      refine Or.inr ⟨rfl, ?_⟩
      simp only [calls, shift, ← Int.sub_eq_add_neg, SignedWord.wrap_inRange word]
      omega
  | set n => exact Or.inl rfl

/-- The current values that a gauge has had at the points of a run. -/
def held (strokes : List (Stroke Call)) : Set Int :=
  {v | ∃ before, before <+: strokes ∧ (calls.run { value := {} } before).value.current = v}

theorem held_nil : held [] = {0} := by
  ext v
  simp [held, run, eq_comm]

theorem held_concat (strokes : List (Stroke Call)) (x : Stroke Call) :
    held (strokes ++ [x]) =
      insert (calls.run { value := {} } (strokes ++ [x])).value.current (held strokes) := by
  ext v
  simp [held, List.prefix_concat_iff, or_and_right, exists_or, eq_comm]

/-- The peak is as high as a value, or a call between its steps is to lift it so high. -/
def Reaches (s : Shared Gauge Int) (v : Int) : Prop :=
  v ≤ s.value.peak ∨ ∃ number w, s.between.get? number = some w ∧ v ≤ w

variable {s : Shared Gauge Int} {v : Int}

theorem Reaches.lower (reaches : Reaches s v) {u : Int} (lower : u ≤ v) : Reaches s u := by
  rcases reaches with below | ⟨number, w, found, above⟩
  · exact Or.inl (Int.le_trans lower below)
  · exact Or.inr ⟨number, w, found, Int.le_trans lower above⟩

theorem Reaches.call (reaches : Reaches s v) (numbered : s.Numbered) (c : Call) :
    Reaches (calls.step s (.call c)) v := by
  rcases reaches with below | ⟨number, w, found, above⟩
  · left
    change v ≤ (calls.first s.value c).1.peak
    rwa [first_peak]
  · exact Or.inr ⟨number, w, call_keeps numbered c found, above⟩

theorem Reaches.finish (reaches : Reaches s v) (number : Nat) :
    Reaches (calls.step s (.finish number)) v := by
  cases found : s.between.get? number with
  | none =>
      rw [step_finish_none found]
      exact reaches
  | some own =>
      rw [step_finish found]
      change v ≤ max s.value.peak own ∨ _
      rcases reaches with below | ⟨other, w, left, above⟩
      · exact Or.inl (by omega)
      · by_cases same : other = number
        · rw [same, found] at left
          cases left
          exact Or.inl (by omega)
        · refine Or.inr ⟨other, w, ?_, above⟩
          exact Table.get?_erase_eq_some_iff.mpr ⟨same, left⟩

structure Recorded (past : Set Int) (s : Shared Gauge Int) : Prop where
  numbered : s.Numbered
  current : s.value.current ∈ past
  peak : s.value.peak ∈ past
  left : ∀ number v, s.between.get? number = some v → v ∈ past
  reached : ∀ v ∈ past, Reaches s v

variable {past : Set Int}

theorem unused_recorded : Recorded {0} { value := {} } where
  numbered := numbered_empty _
  current := rfl
  peak := rfl
  left := nofun
  reached := by
    rintro v rfl
    exact Or.inl (Int.le_refl 0)

theorem Recorded.call (recorded : Recorded past s) {c : Call} (fits : s.value.Fits c) :
    Recorded (insert (calls.step s (.call c)).value.current past) (calls.step s (.call c)) := by
  have between := get?_call (p := calls) recorded.numbered c
  have moved : (calls.step s (.call c)).value = (calls.first s.value c).1 := rfl
  have left := first_fits fits
  constructor
  case numbered => exact numbered_step recorded.numbered _
  case current => exact Set.mem_insert ..
  case peak =>
    rw [moved, first_peak]
    exact Set.mem_insert_of_mem _ recorded.peak
  case left =>
    intro number w found
    rw [between] at found
    split at found
    · rcases left with own | ⟨none, _⟩
      · rw [own] at found
        cases found
        exact Set.mem_insert ..
      · rw [none] at found
        cases found
    · exact Set.mem_insert_of_mem _ (recorded.left number w found)
  case reached =>
    intro u member
    rcases Set.mem_insert_iff.mp member with rfl | before
    · rcases left with own | ⟨_, lower⟩
      · refine Or.inr ⟨s.begun + 1, _, ?_, Int.le_refl _⟩
        rw [between, if_pos rfl, own, moved]
      · -- the value before is reached, and so is a lower one
        exact ((recorded.reached _ recorded.current).lower lower).call recorded.numbered c
    · exact (recorded.reached u before).call recorded.numbered c

theorem Recorded.finish (recorded : Recorded past s) (number : Nat) :
    Recorded past (calls.step s (.finish number)) := by
  have numbered := numbered_step (p := calls) recorded.numbered (.finish number)
  have reached := fun v member => (recorded.reached v member).finish number
  cases found : s.between.get? number with
  | none =>
      rw [step_finish_none found]
      exact recorded
  | some own =>
      rw [step_finish found] at numbered reached ⊢
      refine ⟨numbered, recorded.current, ?_, ?_, reached⟩
      · change max s.value.peak own ∈ past
        rcases Int.le_total s.value.peak own with higher | lower
        · rw [Int.max_eq_right higher]
          exact recorded.left number own found
        · rw [Int.max_eq_left lower]
          exact recorded.peak
      · intro other w later
        exact recorded.left other w (Table.get?_erase_eq_some_iff.mp later).2

theorem run_recorded {strokes : List (Stroke Call)}
    (fits : calls.Allows Fits { value := {} } strokes) :
    Recorded (held strokes) (calls.run { value := {} } strokes) := by
  induction strokes using List.reverseRecOn with
  | nil =>
      rw [held_nil]
      exact unused_recorded
  | append_singleton strokes x ih =>
      have before := ih fits.before
      rw [held_concat, run_concat]
      cases x with
      | call c => exact before.call fits.last
      | finish number =>
          have after := before.finish number
          rw [Set.insert_eq_of_mem after.current]
          exact after

/-- However the steps of the calls on a gauge fall, a value that it has had is not lost: either the
peak is as high, or a call between its steps is about to lift it so high. -/
theorem peak_greatest_held {strokes : List (Stroke Call)}
    (fits : calls.Allows Fits { value := {} } strokes) {s : Shared Gauge Int}
    (reached : s = calls.run { value := {} } strokes) :
    s.value.peak ∈ held strokes ∧ (∀ v ∈ held strokes, Reaches s v) ∧
    (s.between = [] → IsGreatest (held strokes) s.value.peak) := by
  have recorded : Recorded (held strokes) s := by
    rw [reached]
    exact run_recorded fits
  refine ⟨recorded.peak, recorded.reached, fun idle => ⟨recorded.peak, fun v member => ?_⟩⟩
  rcases recorded.reached v member with below | ⟨number, w, found, _⟩
  · exact below
  · rw [idle] at found
    cases found

def hiddenPeak : List (Stroke Call) :=
  [.call (.add 5), .call (.subtract 5), .call (.set 2), .finish 3, .finish 1]

theorem hiddenPeak_recorded :
    calls.Allows Fits { value := {} } hiddenPeak ∧
    (calls.run { value := {} } (hiddenPeak.take 4)).value = { current := 2, peak := 2 } ∧
    (calls.run { value := {} } hiddenPeak).value = { current := 2, peak := 5 } ∧
    IsGreatest (held hiddenPeak) 5 := by
  have fits : calls.Allows Fits { value := {} } hiddenPeak := by
    simp only [hiddenPeak, allows_cons, allows_nil, Stroke.call.injEq, forall_eq', reduceCtorEq,
      false_implies, implies_true, and_true]
    decide
  exact ⟨fits, by decide, by decide, (peak_greatest_held fits rfl).2.2 (by decide)⟩

end MqttBroker.Gauge
