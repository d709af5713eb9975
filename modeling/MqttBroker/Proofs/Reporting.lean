import MqttBroker.Event
import MqttBroker.Proofs.Interleaving

/-!
Reports on one event by many at once. A report counts a recipient off in one step and completes the
event in another, if that recipient was the last. However the steps of several reports fall, the
completion is run by the report on the last recipient, and by no other.
-/

namespace MqttBroker.Event

open TwoStep

abbrev Holder := Nat

def reports : TwoStep Event Holder Bool where
  first e _ := (e.countDown.1, some e.countDown.2)
  second e last := if last then e.complete else e

theorem reports_alone (e : Event) (holder : Holder) : reports.alone e holder = e.done := by
  by_cases last : e.remaining = 1
  · simp [alone, reports, done, countDown, last]
  · simp [alone, reports, done, countDown, last]

theorem complete_armed {e : Event} (armed : e.armed = true) :
    e.complete = { e with armed := false, completions := e.completions + 1 } := by
  rw [complete, if_pos armed]

/-- What every stroke preserves. The completion is run once the report on the last recipient is
through. -/
structure Counted (recipients : Nat) (s : Shared Event Bool) : Prop where
  numbered : s.Numbered
  remaining : s.value.remaining = recipients - s.begun
  last : ∀ number own, s.between.get? number = some own → (own = true ↔ number = recipients)
  armed : s.value.armed = true ↔ s.value.completions = 0
  completions : s.value.completions =
    if recipients ≤ s.begun ∧ s.between.get? recipients = none then 1 else 0

variable {s : Shared Event Bool} {recipients : Nat}

theorem new_counted (message : Publish) (recipients : Nat) :
    Counted recipients { value := new message recipients } := by
  unfold new
  by_cases none : recipients = 0
  · subst none
    exact ⟨numbered_empty _, rfl, nofun, by simp [complete], rfl⟩
  · have some : ¬recipients ≤ 0 := by omega
    rw [if_neg none]
    exact ⟨numbered_empty _, rfl, nofun, by simp, by simp [some]⟩

theorem Counted.call (counted : Counted recipients s) (holder : Holder) :
    Counted recipients (reports.step s (.call holder)) := by
  have between := get?_call (p := reports) counted.numbered holder
  obtain ⟨numbered, remaining, last, armed, completions⟩ := counted
  constructor
  case numbered => exact numbered_step numbered _
  case remaining =>
    change s.value.remaining - 1 = recipients - (s.begun + 1)
    omega
  case last =>
    intro number own found
    rw [between] at found
    split at found
    · rename_i new
      cases found
      simp only [countDown, decide_eq_true_eq]
      omega
    · exact last number own found
  case armed => exact armed
  case completions =>
    change s.value.completions = if recipients ≤ s.begun + 1 ∧ _ then 1 else 0
    rw [completions, between]
    by_cases here : recipients = s.begun + 1
    · -- the completion is left to this report
      have early : ¬recipients ≤ s.begun := by omega
      rw [if_neg fun both => early both.1, if_pos here]
      simp [reports]
    · have same : recipients ≤ s.begun + 1 ↔ recipients ≤ s.begun := by omega
      simp only [if_neg here, same]

theorem Counted.second_last (counted : Counted recipients s) {own : Bool}
    (found : s.between.get? recipients = some own) :
    reports.second s.value own = { s.value with armed := false, completions := 1 } := by
  have last : own = true := (counted.last recipients own found).mpr rfl
  have never : s.value.completions = 0 := by
    rw [counted.completions, found]
    simp
  simp only [reports, last, if_true, complete_armed (counted.armed.mpr never), never]

theorem Counted.second_other (counted : Counted recipients s) {number : Nat} {own : Bool}
    (found : s.between.get? number = some own) (other : number ≠ recipients) :
    reports.second s.value own = s.value := by
  have early : own = false := by
    simpa using mt (counted.last number own found).mp other
  simp only [reports, early, Bool.false_eq_true, if_false]

theorem Counted.finish (counted : Counted recipients s) (number : Nat) :
    Counted recipients (reports.step s (.finish number)) := by
  have numbered := numbered_step (p := reports) counted.numbered (.finish number)
  cases found : s.between.get? number with
  | none =>
      rw [step_finish_none found]
      exact counted
  | some own =>
      have others : ∀ other later, (s.between.erase number).get? other = some later →
          (later = true ↔ other = recipients) := fun other later left =>
        counted.last other later (Table.get?_erase_eq_some_iff.mp left).2
      have gone := Table.get?_erase number recipients s.between
      rw [step_finish found] at numbered ⊢
      by_cases final : number = recipients
      · subst final
        have begun := (counted.numbered number own found).2
        rw [if_pos rfl] at gone
        rw [counted.second_last found] at numbered ⊢
        exact ⟨numbered, counted.remaining, others, by simp, by simp [begun, gone]⟩
      · rw [if_neg (Ne.symm final)] at gone
        rw [counted.second_other found final] at numbered ⊢
        exact ⟨numbered, counted.remaining, others, counted.armed,
          by simpa [gone] using counted.completions⟩

theorem Counted.run (counted : Counted recipients s) (strokes : List (Stroke Holder)) :
    Counted recipients (reports.run s strokes) := by
  induction strokes generalizing s with
  | nil => exact counted
  | cons x rest ih =>
      cases x with
      | call holder => exact ih (counted.call holder)
      | finish number => exact ih (counted.finish number)

/-! Reports that come when no recipient remains -/

theorem Counted.call_late (counted : Counted recipients s) (late : recipients ≤ s.begun)
    (holder : Holder) : (reports.step s (.call holder)).value = s.value := by
  have none : s.value.remaining = 0 := by
    rw [counted.remaining]
    omega
  change { s.value with remaining := s.value.remaining - 1 } = s.value
  rw [none, Nat.zero_sub, ← none]

theorem Counted.finish_late (counted : Counted recipients s) {number : Nat}
    (late : recipients < number) : (reports.step s (.finish number)).value = s.value := by
  cases found : s.between.get? number with
  | none => rw [step_finish_none found]
  | some own =>
      rw [step_finish found]
      exact counted.second_other found late.ne'

/-- However the steps of the reports on an event fall, the completion is run at most once: when as
many reports were begun as there are recipients, and the last of these is through. Reports beyond
that number change nothing. -/
theorem completed_by_last_report (message : Publish) (recipients : Nat)
    (strokes : List (Stroke Holder)) {s : Shared Event Bool}
    (reached : s = reports.run { value := .new message recipients } strokes) :
    s.value.remaining = recipients - countCalls strokes ∧
    s.value.completions ≤ 1 ∧
    (s.value.completions = 1 ↔
      recipients ≤ countCalls strokes ∧ s.between.get? recipients = none) ∧
    (recipients ≤ countCalls strokes → s.between = [] → s.value.completions = 1) ∧
    (recipients = 0 → s.value.completions = 1) ∧
    (recipients ≤ countCalls strokes →
      ∀ holder, (reports.step s (.call holder)).value = s.value) ∧
    ∀ number, recipients < number → (reports.step s (.finish number)).value = s.value := by
  have counted : Counted recipients s := by
    rw [reached]
    exact (new_counted message recipients).run strokes
  have begun : countCalls strokes = s.begun := by
    rw [reached, run_begun, Nat.zero_add]
  have once : s.value.completions = 1 ↔
      recipients ≤ s.begun ∧ s.between.get? recipients = none := by
    rw [counted.completions]
    split <;> simp_all
  rw [begun]
  refine ⟨counted.remaining, ?_, once, ?_, ?_, counted.call_late, fun number => counted.finish_late⟩
  · rw [counted.completions]
    split <;> omega
  · intro enough idle
    refine once.mpr ⟨enough, ?_⟩
    rw [idle]
    rfl
  · intro none
    exact once.mpr ⟨by omega, get?_unnumbered counted.numbered (Or.inl none)⟩

def crossingReports : List (Stroke Holder) :=
  [.call 0, .call 1, .call 2, .finish 3, .finish 1]

theorem crossingReports_completed :
    let message : Publish := { topic := "news", qos := .atLeastOnce, payload := [1] }
    let s := reports.run { value := .new message 2 } crossingReports
    countCalls crossingReports = 3 ∧ s.value.remaining = 0 ∧ s.value.completions = 0 ∧
      (reports.step s (.finish 2)).value.completions = 1 ∧
      (reports.step s (.finish 3)).value = s.value := by
  intro message s
  obtain ⟨remaining, _, _, _, _, _, late⟩ :=
    completed_by_last_report message 2 crossingReports rfl
  obtain ⟨_, _, _, idle, _⟩ :=
    completed_by_last_report message 2 (crossingReports ++ [.finish 2]) rfl
  exact ⟨rfl, remaining, rfl, idle (by decide) rfl, late 3 (by decide)⟩

end MqttBroker.Event
