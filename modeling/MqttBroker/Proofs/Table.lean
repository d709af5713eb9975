import Mathlib.Data.List.Nodup
import MqttBroker.Table

/-!
What a table holds under a key after it was changed under another key or the same.
-/

namespace MqttBroker.Table

variable {κ α : Type} [Ord κ] [Std.LawfulEqOrd κ]

theorem compare_ne {key other : κ} (different : other ≠ key) : compare key other ≠ .eq :=
  fun eq => different (Std.LawfulEqOrd.eq_of_compare eq).symm

omit [Std.LawfulEqOrd κ] in
theorem get?_cons (key : κ) (e : κ × α) (t : Table κ α) :
    get? (e :: t) key = if compare e.1 key = .eq then some e.2 else get? t key := by
  unfold get?
  rw [List.find?_cons]
  by_cases same : compare e.1 key = .eq
  · simp [same]
  · have different : (compare e.1 key == .eq) = false := by simpa using same
    simp [same, different]

theorem get?_insert [DecidableEq κ] (key other : κ) (value : α) (t : Table κ α) :
    (insert key value t).get? other = if other = key then some value else t.get? other := by
  induction t with
  | nil =>
      rw [insert, get?_cons]
      by_cases same : other = key
      · simp [same]
      · simp [same, compare_ne same]
  | cons e rest ih =>
      unfold insert
      cases place : compare e.1 key with
      | lt =>
          simp only [get?_cons, ih]
          by_cases same : other = key
          · subst same
            simp [place]
          · simp [same]
      | eq =>
          have equal := Std.LawfulEqOrd.eq_of_compare place
          simp only [get?_cons, equal]
          by_cases same : other = key
          · simp [same]
          · simp [same, compare_ne same]
      | gt =>
          simp only [get?_cons]
          by_cases same : other = key
          · simp [same]
          · simp [same, compare_ne same]

theorem insert_insert (key : κ) (value later : α) (t : Table κ α) :
    (t.insert key value).insert key later = t.insert key later := by
  induction t with
  | nil => simp [insert]
  | cons e rest ih =>
      cases place : compare e.1 key with
      | lt => simp [insert, place, ih]
      | eq => simp [insert, place]
      | gt => simp [insert, place]

theorem get?_erase [DecidableEq κ] (key other : κ) (t : Table κ α) :
    (erase key t).get? other = if other = key then none else t.get? other := by
  induction t with
  | nil => simp [erase, get?]
  | cons e rest ih =>
      unfold erase at ih ⊢
      rw [List.filter_cons]
      by_cases gone : compare e.1 key = .eq
      · have equal := Std.LawfulEqOrd.eq_of_compare gone
        rw [if_neg (by simp [gone]), ih, get?_cons, equal]
        by_cases same : other = key
        · simp [same]
        · simp [same, compare_ne same]
      · rw [if_pos (by simpa using gone), get?_cons, ih, get?_cons]
        by_cases same : other = key
        · simp [same, gone]
        · simp [same]

theorem get?_erase_eq_some_iff [DecidableEq κ] {key other : κ} {value : α} {t : Table κ α} :
    (erase key t).get? other = some value ↔ other ≠ key ∧ t.get? other = some value := by
  rw [get?_erase]
  by_cases same : other = key
  · simp [same]
  · simp [same]

omit [Std.LawfulEqOrd κ] in
theorem get?_map {β : Type} (change : α → β) (key : κ) (t : Table κ α) :
    get? (t.map fun e => (e.1, change e.2)) key = (t.get? key).map change := by
  induction t with
  | nil => rfl
  | cons e rest ih =>
      rw [List.map_cons, get?_cons, get?_cons, ih]
      split <;> rfl

theorem get?_modify [DecidableEq κ] (key other : κ) (change : α → α) (t : Table κ α) :
    (modify key change t).get? other =
      if other = key then (t.get? other).map change else t.get? other := by
  induction t with
  | nil => simp [modify, get?]
  | cons e rest ih =>
      unfold modify at ih ⊢
      rw [List.map_cons, get?_cons, get?_cons, ih]
      by_cases here : compare e.1 key = .eq
      · have equal := Std.LawfulEqOrd.eq_of_compare here
        simp only [equal]
        by_cases same : other = key
        · simp [same]
        · simp [same, compare_ne same]
      · by_cases same : other = key
        · simp [same, here]
        · simp [same, here]

omit [Std.LawfulEqOrd κ] in
theorem mem_values {key : κ} {value : α} {t : Table κ α} (found : t.get? key = some value) :
    value ∈ t.values := by
  obtain ⟨e, member, rfl⟩ := Option.map_eq_some_iff.mp found
  exact List.mem_map_of_mem (List.mem_of_find?_eq_some member)

theorem mem_keys {key : κ} {t : Table κ α} : key ∈ t.keys ↔ t.contains key = true := by
  unfold contains
  induction t with
  | nil => simp [keys, get?]
  | cons e rest ih =>
      rw [get?_cons]
      by_cases same : compare e.1 key = .eq
      · have equal := Std.LawfulEqOrd.eq_of_compare same
        simp [keys, equal]
      · have different : key ≠ e.1 := fun eq => same (by simp [eq])
        rw [if_neg same, ← ih]
        simp [keys, different]

theorem erase_absent {key : κ} {t : Table κ α} (absent : t.contains key = false) :
    t.erase key = t := by
  refine List.filter_eq_self.mpr fun e member => ?_
  have other : compare e.1 key ≠ .eq := by
    intro same
    rw [← Std.LawfulEqOrd.eq_of_compare same, ← Bool.not_eq_true, ← mem_keys] at absent
    exact absent (List.mem_map_of_mem member)
  simpa using other

omit [Std.LawfulEqOrd κ] in
theorem insert_ne_nil (key : κ) (value : α) (t : Table κ α) : insert key value t ≠ [] := by
  cases t with
  | nil => exact List.cons_ne_nil _ _
  | cons e rest =>
      unfold insert
      split <;> exact List.cons_ne_nil _ _

omit [Std.LawfulEqOrd κ] in
theorem mem_insert {key : κ} {value : α} {e : κ × α} {t : Table κ α}
    (member : e ∈ insert key value t) : e = (key, value) ∨ e ∈ t := by
  induction t with
  | nil => exact Or.inl (List.mem_singleton.mp member)
  | cons first rest ih =>
      unfold insert at member
      split at member
      · rcases List.mem_cons.mp member with rfl | later
        · exact Or.inr (List.mem_cons_self ..)
        · exact (ih later).imp_right (List.mem_cons_of_mem _)
      · rcases List.mem_cons.mp member with here | later
        · exact Or.inl here
        · exact Or.inr (List.mem_cons_of_mem _ later)
      · exact List.mem_cons.mp member

/-! The order of the entries -/

def Increasing (t : Table κ α) : Prop := t.Pairwise fun e f => compare e.1 f.1 = .lt

omit [Std.LawfulEqOrd κ] in
theorem Increasing.of_keys {β : Type} {t : Table κ α} {t' : Table κ β} (increasing : t.Increasing)
    (same : t'.keys = t.keys) : t'.Increasing := by
  have keys : t.keys.Pairwise fun key later => compare key later = .lt :=
    List.pairwise_map.mpr increasing
  exact List.pairwise_map.mp (same ▸ keys)

theorem Increasing.insert [Std.TransOrd κ] {t : Table κ α} (increasing : t.Increasing) (key : κ)
    (value : α) : (t.insert key value).Increasing := by
  induction t with
  | nil => exact List.pairwise_singleton ..
  | cons e rest ih =>
      obtain ⟨first, later⟩ := List.pairwise_cons.mp increasing
      unfold Table.insert
      cases place : compare e.1 key with
      | lt =>
          refine List.pairwise_cons.mpr ⟨fun f member => ?_, ih later⟩
          rcases mem_insert member with rfl | old
          · exact place
          · exact first f old
      | eq =>
          have equal := Std.LawfulEqOrd.eq_of_compare place
          exact List.pairwise_cons.mpr ⟨equal ▸ first, later⟩
      | gt =>
          have below := Std.OrientedCmp.lt_of_gt place
          refine List.pairwise_cons.mpr ⟨fun f member => ?_, increasing⟩
          rcases List.mem_cons.mp member with rfl | old
          · exact below
          · exact Std.TransCmp.lt_trans below (first f old)

omit [Std.LawfulEqOrd κ] in
theorem Increasing.erase {t : Table κ α} (increasing : t.Increasing) (key : κ) :
    (t.erase key).Increasing :=
  increasing.filter _

theorem mem_of_get? {key : κ} {value : α} {t : Table κ α}
    (found : t.get? key = some value) : (key, value) ∈ t := by
  obtain ⟨e, member, rfl⟩ := Option.map_eq_some_iff.mp found
  have equal : compare e.1 key = .eq := by simpa using List.find?_some member
  rw [← Std.LawfulEqOrd.eq_of_compare equal]
  exact List.mem_of_find?_eq_some member

theorem Increasing.mem_iff {t : Table κ α} (increasing : t.Increasing) {key : κ}
    {value : α} : (key, value) ∈ t ↔ t.get? key = some value := by
  refine ⟨?_, mem_of_get?⟩
  induction t with
  | nil => exact fun none => nomatch none
  | cons e rest ih =>
      obtain ⟨first, later⟩ := List.pairwise_cons.mp increasing
      intro member
      rw [get?_cons]
      rcases List.mem_cons.mp member with rfl | after
      · rw [if_pos (by simp)]
      · have below := first _ after
        rw [if_neg, ih later after]
        intro same
        rw [same] at below
        cases below

theorem Increasing.nodup {t : Table κ α} (increasing : t.Increasing) : t.keys.Nodup := by
  refine List.pairwise_map.mpr (increasing.imp fun {e f} below => ?_)
  intro same
  simp [same] at below

theorem Increasing.ext [Std.TransOrd κ] {t t' : Table κ α} (increasing : t.Increasing)
    (increasing' : t'.Increasing) (same : ∀ e, e ∈ t ↔ e ∈ t') : t = t' := by
  have distinct : ∀ {u : Table κ α}, u.Increasing → u.Nodup := by
    intro u above
    exact List.Nodup.of_map Prod.fst above.nodup
  have perm := (List.perm_ext_iff_of_nodup (distinct increasing) (distinct increasing')).mpr same
  refine perm.eq_of_pairwise (fun e f _ _ below above => ?_) increasing increasing'
  have self := Std.TransCmp.lt_trans below above
  simp at self

omit [Std.LawfulEqOrd κ] in
theorem insert_above {key : κ} {value : α} {t : Table κ α}
    (below : ∀ e ∈ t, compare e.1 key = .lt) : insert key value t = t ++ [(key, value)] := by
  induction t with
  | nil => rfl
  | cons e rest ih =>
      unfold insert
      rw [below e (List.mem_cons_self ..)]
      exact congrArg (e :: ·) (ih fun f member => below f (List.mem_cons_of_mem e member))

omit [Std.LawfulEqOrd κ] in
theorem Increasing.insert_next {front rest : Table κ α} {key : κ} {value : α}
    (increasing : Increasing (front ++ (key, value) :: rest)) :
    front.insert key value = front ++ [(key, value)] := by
  obtain ⟨_, _, below⟩ := List.pairwise_append.mp increasing
  exact insert_above fun e member => below e member (key, value) (List.mem_cons_self ..)

omit [Std.LawfulEqOrd κ] in
theorem Increasing.ofList {t : Table κ α} (increasing : t.Increasing) : ofList t = t := by
  suffices folded : ∀ front : Table κ α, Increasing (front ++ t) →
      t.foldl (fun t e => t.insert e.1 e.2) front = front ++ t from folded [] increasing
  clear increasing
  induction t with
  | nil => exact fun front _ => (List.append_nil front).symm
  | cons e rest ih =>
      intro front increasing
      have grown : front ++ e :: rest = (front ++ [e]) ++ rest := by simp
      rw [List.foldl_cons, increasing.insert_next, grown]
      exact ih (front ++ [e]) (grown ▸ increasing)

theorem increasing_ofList [Std.TransOrd κ] (entries : List (κ × α)) :
    (ofList entries).Increasing := by
  suffices folded : ∀ front : Table κ α, front.Increasing →
      Increasing (entries.foldl (fun t e => t.insert e.1 e.2) front) from
    folded [] List.Pairwise.nil
  induction entries with
  | nil => exact fun _ increasing => increasing
  | cons e rest ih => exact fun front increasing => ih _ (increasing.insert e.1 e.2)

/-! Keys under other names, in the same order -/

section Rename

variable {ι : Type} [Ord ι] {rename : κ → ι}
    (same : ∀ key other, compare (rename key) (rename other) = compare key other)

def renamed (rename : κ → ι) (t : Table κ α) : Table ι α := t.map fun e => (rename e.1, e.2)

include same

omit [Std.LawfulEqOrd κ] in
theorem get?_renamed (key : κ) (t : Table κ α) : get? (renamed rename t) (rename key) = t.get? key := by
  unfold renamed
  induction t with
  | nil => rfl
  | cons e rest ih => rw [List.map_cons, get?_cons, get?_cons, same, ih]

omit [Std.LawfulEqOrd κ] in
theorem insert_renamed (key : κ) (value : α) (t : Table κ α) :
    insert (rename key) value (renamed rename t) = renamed rename (t.insert key value) := by
  unfold renamed
  induction t with
  | nil => rfl
  | cons e rest ih =>
      rw [List.map_cons, insert, insert, same]
      cases compare e.1 key with
      | lt => exact congrArg (_ :: ·) ih
      | eq => rfl
      | gt => rfl

omit [Std.LawfulEqOrd κ] in
theorem erase_renamed (key : κ) (t : Table κ α) :
    erase (rename key) (renamed rename t) = renamed rename (t.erase key) := by
  unfold renamed erase
  rw [List.filter_map]
  congr 1
  refine List.filter_congr fun e _ => ?_
  rw [Function.comp_apply, same]

end Rename

end MqttBroker.Table
