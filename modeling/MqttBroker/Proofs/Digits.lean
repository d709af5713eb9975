import Mathlib.Algebra.Group.Nat.Defs
import MqttBroker.Text.Digits

/-!
The digits of a number, and what they are read as.
-/

namespace MqttBroker.Text

theorem isDigit_digitChar {d : Nat} (small : d < 10) : isDigit (digitChar d) = true := by
  have all : ∀ d < 10, isDigit (digitChar d) = true := by decide
  exact all d small

theorem digitValue_digitChar {d : Nat} (small : d < 10) : digitValue (digitChar d) = d := by
  have all : ∀ d < 10, digitValue (digitChar d) = d := by decide
  exact all d small

theorem ofDigits_append (acc : Nat) (before after : List Char) :
    ofDigits acc (before ++ after) = ofDigits (ofDigits acc before) after := by
  induction before generalizing acc with
  | nil => rfl
  | cons c rest ih => exact ih _

theorem ofDigits_digitChar (acc : Nat) {d : Nat} (small : d < 10) :
    ofDigits acc [digitChar d] = acc * 10 + d := by
  have one : ofDigits acc [digitChar d] = acc * 10 + digitValue (digitChar d) := rfl
  rw [one, digitValue_digitChar small]

theorem digits_eq {n : Nat} (large : 10 ≤ n) :
    digits n = digits (n / 10) ++ [digitChar (n % 10)] := by
  rw [digits, if_neg (by omega)]

theorem digits_small {n : Nat} (small : n < 10) : digits n = [digitChar n] := by
  rw [digits, if_pos small]

theorem ofDigits_digits (n : Nat) : ofDigits 0 (digits n) = n := by
  induction n using Nat.strongRecOn with
  | ind n ih =>
      by_cases small : n < 10
      · rw [digits_small small, ofDigits_digitChar 0 small]
        omega
      · rw [digits_eq (by omega), ofDigits_append, ih _ (by omega), ofDigits_digitChar _ (by omega)]
        omega

theorem isDigit_digits {n : Nat} {c : Char} (member : c ∈ digits n) : isDigit c = true := by
  induction n using Nat.strongRecOn generalizing c with
  | ind n ih =>
      by_cases small : n < 10
      · rw [digits_small small, List.mem_singleton] at member
        rw [member]
        exact isDigit_digitChar small
      · rw [digits_eq (by omega), List.mem_append, List.mem_singleton] at member
        rcases member with before | rfl
        · exact ih _ (by omega) before
        · exact isDigit_digitChar (by omega)

theorem digits_leading (n : Nat) :
    ∃ c rest, digits n = c :: rest ∧ (c = '0' → n = 0 ∧ rest = []) := by
  induction n using Nat.strongRecOn with
  | ind n ih =>
      by_cases small : n < 10
      · refine ⟨digitChar n, [], digits_small small, fun zero => ⟨?_, rfl⟩⟩
        have value := digitValue_digitChar small
        rw [zero] at value
        exact value.symm
      · obtain ⟨c, rest, leading, zero⟩ := ih (n / 10) (by omega)
        refine ⟨c, rest ++ [digitChar (n % 10)], by rw [digits_eq (by omega), leading]; rfl, ?_⟩
        intro same
        have none := (zero same).1
        omega

theorem readHex_control {n : Nat} (control : n < 0x20) :
    readHex ['0', '0', hexDigit (n / 16), hexDigit (n % 16)] = some n := by
  have all : ∀ n < 0x20, readHex ['0', '0', hexDigit (n / 16), hexDigit (n % 16)] = some n := by
    decide
  exact all n control

end MqttBroker.Text
