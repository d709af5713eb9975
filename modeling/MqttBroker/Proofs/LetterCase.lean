import MqttBroker.Proofs.Numerals
import MqttBroker.Text.Quantity

/-!
The letter case of a text, and white space around it: neither makes a difference to its numbers.
-/

namespace MqttBroker.Text

/-- ASCII characters are looked at one by one, all others together. -/
@[elab_as_elim]
theorem ascii_cases {P : Char → Prop} (ascii : ∀ n < 128, P (Char.ofNat n))
    (other : ∀ c : Char, 128 ≤ c.toNat → P c) (c : Char) : P c := by
  by_cases small : c.toNat < 128
  · rw [← Char.ofNat_toNat c]
    exact ascii c.toNat small
  · exact other c (Nat.not_lt.mp small)

theorem toLower_other {c : Char} (large : 128 ≤ c.toNat) : c.toLower = c := by
  have outside : ¬(c.val ≥ 'A'.val ∧ c.val ≤ 'Z'.val) := by
    rintro ⟨_, below⟩
    have small : c.toNat ≤ 90 := UInt32.le_iff_toNat_le.mp below
    omega
  exact dif_neg outside

theorem toUpper_other {c : Char} (large : 128 ≤ c.toNat) : c.toUpper = c := by
  have outside : ¬(c.val ≥ 'a'.val ∧ c.val ≤ 'z'.val) := by
    rintro ⟨_, below⟩
    have small : c.toNat ≤ 122 := UInt32.le_iff_toNat_le.mp below
    omega
  exact dif_neg outside

theorem upperAscii_eq (c : Char) : upperAscii c = c.toUpper := by
  induction c using ascii_cases with
  | ascii n small =>
      revert n
      decide
  | other c large =>
      rw [toUpper_other large, upperAscii, if_neg]
      simp only [Bool.and_eq_true, decide_eq_true_eq, not_and]
      intro _ below
      have small : c.toNat ≤ 122 := UInt32.le_iff_toNat_le.mp below
      omega

theorem lowerAscii_eq (c : Char) : lowerAscii c = c.toLower := by
  induction c using ascii_cases with
  | ascii n small =>
      revert n
      decide
  | other c large =>
      rw [toLower_other large, lowerAscii, if_neg]
      simp only [Bool.and_eq_true, decide_eq_true_eq, not_and]
      intro _ below
      have small : c.toNat ≤ 90 := UInt32.le_iff_toNat_le.mp below
      omega

theorem toLower_kind (c : Char) : c.toLower.toUpper = c.toUpper ∧ isBlank c.toLower = isBlank c ∧
    isDigit c.toLower = isDigit c ∧ (c.toLower = '+' ↔ c = '+') := by
  induction c using ascii_cases with
  | ascii n small =>
      revert n
      decide
  | other c large =>
      rw [toLower_other large]
      exact ⟨rfl, rfl, rfl, Iff.rfl⟩

theorem toUpper_kind (c : Char) : isDigit c.toUpper = isDigit c ∧ (c.toUpper = '+' ↔ c = '+') := by
  induction c using ascii_cases with
  | ascii n small =>
      revert n
      decide
  | other c large =>
      rw [toUpper_other large]
      exact ⟨rfl, Iff.rfl⟩

theorem digit_kind {c : Char} (digit : isDigit c = true) :
    c.toUpper = c ∧ c.toLower = c ∧ isBlank c = false := by
  induction c using ascii_cases with
  | ascii n small =>
      revert n
      decide
  | other c large =>
      simp only [isDigit, Bool.and_eq_true, decide_eq_true_eq] at digit
      have small : c.toNat ≤ 57 := UInt32.le_iff_toNat_le.mp digit.2
      omega

theorem map_toUpper {text : List Char} (numeric : ∀ c ∈ text, isDigit c = true ∨ c = '+') :
    text.map Char.toUpper = text := by
  refine (List.map_congr_left fun c within => ?_).trans (List.map_id text)
  rcases numeric c within with digit | rfl
  · exact (digit_kind digit).1
  · rfl

theorem plusNumeral_toUpper {n : Nat} {text : List Char} :
    PlusNumeral n (text.map Char.toUpper) ↔ PlusNumeral n text := by
  constructor
  · intro numeral
    have numeric : ∀ c ∈ text, isDigit c = true ∨ c = '+' := by
      intro c within
      obtain ⟨digit, sign⟩ := toUpper_kind c
      rw [← digit, ← sign]
      exact numeral.mem (List.mem_map_of_mem within)
    rwa [map_toUpper numeric] at numeral
  · intro numeral
    rwa [map_toUpper fun c => numeral.mem]

theorem readBelow_toUpper (bound : Nat) (text : List Char) :
    readBelow bound (text.map Char.toUpper) = readBelow bound text := by
  apply Option.ext
  intro n
  rw [readBelow_eq_some_iff, readBelow_eq_some_iff, plusNumeral_toUpper]

theorem dropWhile_blanks {before text : List Char} (front : ∀ c ∈ before, isBlank c = true)
    (clear : ∀ c ∈ text, isBlank c = false) (filled : text ≠ []) (rest : List Char) :
    (before ++ (text ++ rest)).dropWhile isBlank = text ++ rest := by
  obtain ⟨c, more, rfl⟩ := List.exists_cons_of_ne_nil filled
  rw [List.dropWhile_append_of_pos front, List.cons_append,
    List.dropWhile_cons_of_neg (by simp [clear c])]

theorem trim_surrounded {before text after : List Char} (front : ∀ c ∈ before, isBlank c = true)
    (back : ∀ c ∈ after, isBlank c = true) (clear : ∀ c ∈ text, isBlank c = false) :
    trim (before ++ text ++ after) = text := by
  unfold trim
  rw [List.append_assoc]
  by_cases filled : text = []
  · rw [filled, List.nil_append, List.dropWhile_append_of_pos front, ← List.append_nil after,
      List.dropWhile_append_of_pos back]
    rfl
  · have trailing := dropWhile_blanks (fun c within => back c (List.mem_reverse.mp within))
      (fun c within => clear c (List.mem_reverse.mp within)) (by simpa using filled) []
    rw [List.append_nil] at trailing
    rw [dropWhile_blanks front clear filled, List.reverse_append, trailing, List.reverse_reverse]

def Padded (inner : List Char) (text : String) : Prop :=
  ∃ before after, (∀ c ∈ before, isBlank c = true) ∧ (∀ c ∈ after, isBlank c = true) ∧
    text.toList = before ++ inner ++ after

theorem Padded.trim {inner : List Char} {text : String} (padded : Padded inner text)
    (clear : ∀ c ∈ inner, isBlank c = false) : trim text.toList = inner := by
  obtain ⟨before, after, front, back, whole⟩ := padded
  rw [whole, trim_surrounded front back clear]

theorem padded_self (inner : List Char) : Padded inner (String.ofList inner) :=
  ⟨[], [], nofun, nofun, by simp⟩

end MqttBroker.Text
