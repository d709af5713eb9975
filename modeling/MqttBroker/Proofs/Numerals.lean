import Mathlib.Data.List.Induction
import MqttBroker.Proofs.Digits

/-!
Numbers as they are written in decimal, and which of them are read back.
-/

namespace MqttBroker.Text

/-- The text writes a number in decimal, with zeros in front or not. -/
def Numeral (n : Nat) (text : List Char) : Prop :=
  ∃ zeros, text = List.replicate zeros '0' ++ digits n

theorem digitChar_digitValue {c : Char} (digit : isDigit c = true) :
    digitValue c < 10 ∧ digitChar (digitValue c) = c := by
  have range : '0'.toNat ≤ c.toNat ∧ c.toNat ≤ '9'.toNat := by
    simpa [isDigit, Char.le_def, UInt32.le_iff_toNat_le] using digit
  have zero : '0'.toNat = 48 := rfl
  have nine : '9'.toNat = 57 := rfl
  constructor
  · unfold digitValue
    omega
  · rw [digitChar, digitValue, Nat.add_sub_cancel' range.1, Char.ofNat_toNat]

theorem digits_ne_nil (n : Nat) : digits n ≠ [] := by
  obtain ⟨c, rest, leading, _⟩ := digits_leading n
  rw [leading]
  exact List.cons_ne_nil c rest

theorem ofDigits_zeros (zeros : Nat) : ofDigits 0 (List.replicate zeros '0') = 0 := by
  induction zeros with
  | zero => rfl
  | succ zeros ih => exact ih

theorem Numeral.concat {n : Nat} {text : List Char} (numeral : Numeral n text) {c : Char}
    (digit : isDigit c = true) : Numeral (n * 10 + digitValue c) (text ++ [c]) := by
  obtain ⟨small, same⟩ := digitChar_digitValue digit
  obtain ⟨zeros, rfl⟩ := numeral
  cases n with
  | zero =>
      refine ⟨zeros + 1, ?_⟩
      rw [Nat.zero_mul, Nat.zero_add, digits_small small, digits_small (by decide), same,
        List.replicate_succ']
      rfl
  | succ n =>
      have large : 10 ≤ (n + 1) * 10 + digitValue c := by omega
      refine ⟨zeros, ?_⟩
      rw [digits_eq large, show ((n + 1) * 10 + digitValue c) / 10 = n + 1 by omega,
        show ((n + 1) * 10 + digitValue c) % 10 = digitValue c by omega, same, List.append_assoc]

theorem numeral_of_digits {text : List Char} (filled : text ≠ [])
    (numeric : ∀ c ∈ text, isDigit c = true) : Numeral (ofDigits 0 text) text := by
  induction text using List.reverseRecOn with
  | nil => exact absurd rfl filled
  | append_singleton before c ih =>
      have digit : isDigit c = true := numeric c (by simp)
      obtain ⟨small, same⟩ := digitChar_digitValue digit
      by_cases first : before = []
      · have value : ofDigits 0 [c] = digitValue c := Nat.zero_add (digitValue c)
        rw [first, List.nil_append, value]
        exact ⟨0, by rw [digits_small small, same]; rfl⟩
      · have value : ofDigits 0 (before ++ [c]) = ofDigits 0 before * 10 + digitValue c := by
          rw [ofDigits_append]
          rfl
        rw [value]
        exact (ih first fun d within => numeric d (by simp [within])).concat digit

theorem numeral_iff {n : Nat} {text : List Char} :
    Numeral n text ↔ text ≠ [] ∧ (∀ c ∈ text, isDigit c = true) ∧ ofDigits 0 text = n := by
  constructor
  · rintro ⟨zeros, rfl⟩
    refine ⟨by simp [digits_ne_nil], ?_, ?_⟩
    · intro c within
      rcases List.mem_append.mp within with zero | digit
      · rw [List.eq_of_mem_replicate zero]
        rfl
      · exact isDigit_digits digit
    · rw [ofDigits_append, ofDigits_zeros, ofDigits_digits]
  · rintro ⟨filled, numeric, rfl⟩
    exact numeral_of_digits filled numeric

instance (n : Nat) (text : List Char) : Decidable (Numeral n text) :=
  decidable_of_iff (text ≠ [] ∧ text.all isDigit = true ∧ ofDigits 0 text = n) (by
    rw [numeral_iff, List.all_eq_true])

theorem numeral_digits (n : Nat) : Numeral n (digits n) := ⟨0, rfl⟩

theorem Numeral.filled {n : Nat} {text : List Char} (numeral : Numeral n text) : text ≠ [] :=
  (numeral_iff.mp numeral).1

theorem Numeral.numeric {n : Nat} {text : List Char} (numeral : Numeral n text) :
    ∀ c ∈ text, isDigit c = true :=
  (numeral_iff.mp numeral).2.1

def PlusNumeral (n : Nat) (text : List Char) : Prop :=
  Numeral n text ∨ ∃ body, text = '+' :: body ∧ Numeral n body

theorem not_numeral_plus {n : Nat} {text : List Char} : ¬Numeral n ('+' :: text) := by
  intro numeral
  have digit := numeral.numeric '+' (List.mem_cons_self ..)
  cases digit

theorem readBelow_eq_some_iff {bound n : Nat} {text : List Char} :
    readBelow bound text = some n ↔ n < bound ∧ PlusNumeral n text := by
  have body (text : List Char) :
      (if text.isEmpty || !text.all isDigit then none
        else if ofDigits 0 text < bound then some (ofDigits 0 text) else none) = some n ↔
      n < bound ∧ Numeral n text := by
    rw [numeral_iff]
    by_cases shape : text ≠ [] ∧ ∀ c ∈ text, isDigit c = true
    · rw [if_neg (by simpa using shape)]
      constructor
      · intro read
        split at read
        · rename_i small
          cases read
          exact ⟨small, shape.1, shape.2, rfl⟩
        · cases read
      · rintro ⟨small, -, -, rfl⟩
        rw [if_pos small]
    · have refused : (text.isEmpty || !text.all isDigit) = true := by
        by_contra accepted
        exact shape (by simpa using accepted)
      rw [if_pos refused]
      simp only [reduceCtorEq, false_iff]
      rintro ⟨-, filled, numeric, -⟩
      exact shape ⟨filled, numeric⟩
  unfold readBelow PlusNumeral
  dsimp only
  split
  · rename_i rest
    rw [body]
    simp [not_numeral_plus]
  · rename_i other
    rw [body]
    have unsigned : ¬∃ body, text = '+' :: body ∧ Numeral n body := fun ⟨_, same, _⟩ =>
      other _ same
    simp only [unsigned, or_false]

theorem readBelow_eq_none_iff {bound : Nat} {text : List Char} :
    readBelow bound text = none ↔ ∀ n < bound, ¬PlusNumeral n text := by
  simp only [Option.eq_none_iff_forall_not_mem, Option.mem_def, readBelow_eq_some_iff, not_and]

theorem PlusNumeral.readBelow {n : Nat} {text : List Char} (numeral : PlusNumeral n text)
    {bound : Nat} (small : n < bound) : readBelow bound text = some n :=
  readBelow_eq_some_iff.mpr ⟨small, numeral⟩

theorem PlusNumeral.mem {n : Nat} {text : List Char} (numeral : PlusNumeral n text) {c : Char}
    (within : c ∈ text) : isDigit c = true ∨ c = '+' := by
  rcases numeral with plain | ⟨body, rfl, plain⟩
  · exact Or.inl (plain.numeric c within)
  · rcases List.mem_cons.mp within with sign | digit
    · exact Or.inr sign
    · exact Or.inl (plain.numeric c digit)

theorem readBelow_none {bound : Nat} {text : List Char} {c : Char} (within : c ∈ text)
    (digit : isDigit c = false) (sign : c ≠ '+') : readBelow bound text = none := by
  rw [readBelow_eq_none_iff]
  intro n _ numeral
  rcases numeral.mem within with yes | plus
  · rw [digit] at yes
    cases yes
  · exact sign plus

end MqttBroker.Text
