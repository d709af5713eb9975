import MqttBroker.Queue.Offsets

/-!
Sets of offsets and their runs: the runs of a set stand apart by increasing offset, and hold its
offsets and no other ones.
-/

namespace MqttBroker.Offsets

theorem mem_insert {o p : Nat} {offsets : List Nat} :
    p ∈ insert o offsets ↔ p = o ∨ p ∈ offsets := by
  induction offsets with
  | nil => simp [insert]
  | cons q rest ih =>
      simp only [insert]
      split
      · simp
      · split
        · rename_i same
          simp [same]
        · simp only [List.mem_cons, ih]
          constructor
          · rintro (rfl | rfl | member)
            · exact Or.inr (Or.inl rfl)
            · exact Or.inl rfl
            · exact Or.inr (Or.inr member)
          · rintro (rfl | rfl | member)
            · exact Or.inr (Or.inl rfl)
            · exact Or.inl rfl
            · exact Or.inr (Or.inr member)

theorem insert_increasing (o : Nat) {offsets : List Nat}
    (increasing : offsets.Pairwise (· < ·)) : (insert o offsets).Pairwise (· < ·) := by
  induction offsets with
  | nil => exact List.pairwise_singleton ..
  | cons q rest ih =>
      obtain ⟨above, others⟩ := List.pairwise_cons.mp increasing
      simp only [insert]
      split
      · rename_i before
        refine List.pairwise_cons.mpr ⟨fun p member => ?_, increasing⟩
        rcases List.mem_cons.mp member with rfl | later
        · exact before
        · exact Nat.lt_trans before (above p later)
      · split
        · exact increasing
        · rename_i after other
          refine List.pairwise_cons.mpr ⟨fun p member => ?_, ih others⟩
          rcases mem_insert.mp member with rfl | later
          · omega
          · exact above p later

def within (ranges : List (Nat × Nat)) (o : Nat) : Bool :=
  ranges.any fun range => range.1 ≤ o && o < range.2

theorem outside_eq (start stop : Nat) (offsets : List Nat) :
    outside start stop offsets = offsets.filter fun o => !(start ≤ o && o < stop) := by
  apply List.filter_congr
  intro o _
  simp [Bool.not_and, ← decide_not]

@[simp] theorem within_nil (o : Nat) : within [] o = false := rfl

theorem within_cons {range : Nat × Nat} {ranges : List (Nat × Nat)} {o : Nat} :
    within (range :: ranges) o = true ↔
      (range.1 ≤ o ∧ o < range.2) ∨ within ranges o = true := by
  simp [within]

theorem within_mono {ranges others : List (Nat × Nat)} (fewer : ranges ⊆ others) {o : Nat}
    (inside : within ranges o = true) : within others o = true := by
  simp only [within, List.any_eq_true] at inside ⊢
  obtain ⟨range, member, holds⟩ := inside
  exact ⟨range, fewer member, holds⟩

/-- Half-open ranges that stand apart by increasing offset, with these offsets in them. -/
structure Split (ranges : List (Nat × Nat)) (offsets : List Nat) : Prop where
  filled : ∀ range ∈ ranges, range.1 < range.2
  apart : ranges.Pairwise fun range later => range.2 < later.1
  covers : ∀ o, o ∈ offsets ↔ ∃ range ∈ ranges, range.1 ≤ o ∧ o < range.2

theorem runs_filled {offsets : List Nat} : ∀ run ∈ runs offsets, run.1 < run.2 := by
  induction offsets with
  | nil => exact nofun
  | cons p rest ih =>
      simp only [runs]
      split
      · simp
      · rename_i start stop more found
        rw [found, List.forall_mem_cons] at ih
        split
        · rename_i adjacent
          refine List.forall_mem_cons.mpr ⟨?_, ih.2⟩
          have := ih.1
          simp only at this ⊢
          omega
        · exact List.forall_mem_cons.mpr ⟨Nat.lt_succ_self p, List.forall_mem_cons.mpr ih⟩

theorem within_runs {offsets : List Nat} {o : Nat} :
    within (runs offsets) o = true ↔ o ∈ offsets := by
  induction offsets with
  | nil => simp [runs, within]
  | cons p rest ih =>
      have filled : ∀ run ∈ runs rest, run.1 < run.2 := runs_filled
      rw [List.mem_cons, ← ih]
      simp only [runs]
      split
      · rename_i none
        rw [none, within_cons]
        have same : p ≤ o ∧ o < p + 1 ↔ o = p := by omega
        exact or_congr same Iff.rfl
      · rename_i start stop more found
        rw [found] at filled ⊢
        have longer : start < stop := filled _ (List.mem_cons_self ..)
        split
        · have grown : p ≤ o ∧ o < stop ↔ o = p ∨ (start ≤ o ∧ o < stop) := by omega
          simp only [within_cons, grown, or_assoc]
        · have same : p ≤ o ∧ o < p + 1 ↔ o = p := by omega
          simp only [within_cons, same]

theorem runs_apart {offsets : List Nat} (increasing : offsets.Pairwise (· < ·)) :
    (runs offsets).Pairwise fun run later => run.2 < later.1 := by
  induction offsets with
  | nil => exact .nil
  | cons p rest ih =>
      obtain ⟨above, others⟩ := List.pairwise_cons.mp increasing
      have apart := ih others
      have filled : ∀ run ∈ runs rest, run.1 < run.2 := runs_filled
      simp only [runs]
      split
      · exact List.pairwise_singleton ..
      · rename_i start stop more found
        rw [found] at apart filled
        obtain ⟨after, tail⟩ := List.pairwise_cons.mp apart
        have longer : start < stop := filled _ (List.mem_cons_self ..)
        split
        · exact List.pairwise_cons.mpr ⟨after, tail⟩
        · rename_i gap
          have first : start ∈ rest := within_runs.mp
            (found ▸ within_cons.mpr (Or.inl ⟨Nat.le_refl start, longer⟩))
          have before := above start first
          refine List.pairwise_cons.mpr ⟨fun later member => ?_, apart⟩
          simp only
          rcases List.mem_cons.mp member with rfl | further
          · simp only
            omega
          · have := after later further
            simp only at this
            omega

theorem runs_split {offsets : List Nat} (increasing : offsets.Pairwise (· < ·)) :
    Split (runs offsets) offsets where
  filled := runs_filled
  apart := runs_apart increasing
  covers := by
    intro o
    rw [← within_runs]
    simp [within]

end MqttBroker.Offsets
