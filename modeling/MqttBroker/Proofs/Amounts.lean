import Mathlib.Algebra.GroupWithZero.Nat
import Mathlib.Algebra.Order.BigOperators.Group.List
import Mathlib.Algebra.Order.Group.Nat
import MqttBroker.Proofs.LetterCase

/-!
Amounts: numbers with units, as they are written, and what a text counts as that lists them. Parts
are added up in machine words, which gives their sum or an overflow.
-/

namespace MqttBroker.Text

section Sums

variable {weight : Char → Option Nat}

def worth (weight : Char → Option Nat) (part : List Char × Char) : Nat :=
  match weight part.2, readBelow Word.bound part.1 with
  | some w, some n => n * w
  | _, _ => 0

def weigh (weight : Char → Option Nat) (text : List Char) : Nat :=
  ((unitParts (fun c => (weight c).isSome) text).map (worth weight)).sum

theorem partValue_eq (part : List Char × Char) : partValue weight part =
    if worth weight part < Word.bound then .ok (worth weight part) else .error .multiply := by
  cases is : weight part.2 <;> cases read : readBelow Word.bound part.1 <;>
    simp only [partValue, worth, is, read] <;> rfl

theorem sumParts_cons (acc : Nat) (part : List Char × Char) (rest : List (List Char × Char)) :
    sumParts weight acc (part :: rest) =
      if worth weight part < Word.bound then
        if acc + worth weight part < Word.bound then
          sumParts weight (acc + worth weight part) rest
        else .error .add
      else .error .multiply := by
  rw [sumParts, partValue_eq]
  by_cases product : worth weight part < Word.bound
  · rw [if_pos product, if_pos product]
    show (Word.add acc (worth weight part) >>= _) = _
    rw [Word.add]
    split <;> rfl
  · rw [if_neg product, if_neg product]
    rfl

theorem sumParts_fits {acc : Nat} {parts : List (List Char × Char)}
    (fits : acc + (parts.map (worth weight)).sum < Word.bound) :
    sumParts weight acc parts = .ok (acc + (parts.map (worth weight)).sum) := by
  induction parts generalizing acc with
  | nil => rfl
  | cons part rest ih =>
      rw [List.map_cons, List.sum_cons, ← Nat.add_assoc] at fits ⊢
      have product : worth weight part < Word.bound := by omega
      have sum : acc + worth weight part < Word.bound := by omega
      rw [sumParts_cons, if_pos product, if_pos sum, ih fits]

theorem sumParts_exceeds {acc : Nat} {parts : List (List Char × Char)} (small : acc < Word.bound)
    (exceeds : Word.bound ≤ acc + (parts.map (worth weight)).sum) :
    sumParts weight acc parts = .error .multiply ∨ sumParts weight acc parts = .error .add := by
  induction parts generalizing acc with
  | nil => exact absurd exceeds (Nat.not_le.mpr small)
  | cons part rest ih =>
      rw [List.map_cons, List.sum_cons, ← Nat.add_assoc] at exceeds
      rw [sumParts_cons]
      split
      · split
        · rename_i sum
          exact ih sum exceeds
        · exact Or.inr rfl
      · exact Or.inl rfl

theorem quantity_fits {text : List Char} (fits : weigh weight text < Word.bound) :
    quantity weight text = .ok (weigh weight text) := by
  rw [← Nat.zero_add (weigh weight text)] at fits ⊢
  exact sumParts_fits fits

theorem quantity_exceeds {text : List Char} (exceeds : Word.bound ≤ weigh weight text) :
    quantity weight text = .error .multiply ∨ quantity weight text = .error .add := by
  rw [← Nat.zero_add (weigh weight text)] at exceeds
  exact sumParts_exceeds (by decide) exceeds

theorem unitParts_append {isUnit : Char → Bool} {number : List Char} {unit : Char}
    (plain : ∀ c ∈ number, isUnit c = false) (is : isUnit unit = true) (rest : List Char) :
    unitParts isUnit (number ++ unit :: rest) = (number, unit) :: unitParts isUnit rest := by
  induction number with
  | nil => rw [List.nil_append, unitParts, if_pos is]
  | cons c more ih =>
      have other : ¬isUnit c = true := by simp [plain c]
      rw [List.cons_append, unitParts, if_neg other,
        ih fun d within => plain d (List.mem_cons_of_mem c within)]

theorem unitParts_plain {isUnit : Char → Bool} {text : List Char}
    (plain : ∀ c ∈ text, isUnit c = false) : unitParts isUnit text = [] := by
  induction text with
  | nil => rfl
  | cons c more ih =>
      have other : ¬isUnit c = true := by simp [plain c]
      rw [unitParts, if_neg other, ih fun d within => plain d (List.mem_cons_of_mem c within)]

theorem weigh_append {number : List Char} {unit : Char} (plain : ∀ c ∈ number, weight c = none)
    (is : weight unit ≠ none) (rest : List Char) :
    weigh weight (number ++ unit :: rest) = worth weight (number, unit) + weigh weight rest := by
  rw [weigh, unitParts_append, List.map_cons, List.sum_cons, weigh]
  · intro c within
    rw [plain c within]
    rfl
  · exact Option.isSome_iff_ne_none.mpr is

theorem weigh_plain {text : List Char} (plain : ∀ c ∈ text, weight c = none) :
    weigh weight text = 0 := by
  rw [weigh, unitParts_plain]
  · rfl
  · intro c within
    rw [plain c within]
    rfl

theorem worth_numeral {n w : Nat} {number : List Char} {unit : Char}
    (numeral : PlusNumeral n number) (small : n < Word.bound) (is : weight unit = some w) :
    worth weight (number, unit) = n * w := by
  simp only [worth, is, numeral.readBelow small]

theorem worth_malformed {number : List Char} (malformed : ∀ n < Word.bound, ¬PlusNumeral n number)
    (unit : Char) : worth weight (number, unit) = 0 := by
  have unread := readBelow_eq_none_iff.mpr malformed
  cases is : weight unit <;> simp only [worth, is, unread]

theorem worth_nil (unit : Char) : worth weight ([], unit) = 0 := by
  apply worth_malformed
  rintro n - (plain | ⟨_, same, _⟩)
  · exact plain.filled rfl
  · cases same

end Sums

/-- A number with one of these units, as it is written: the number in decimal, the unit behind it
in any letter case. -/
structure Amount (units : List (String × Nat)) where
  number : Nat
  unit : String × Nat
  numeral : List Char
  spelling : List Char
  written : Numeral number numeral
  known : unit ∈ units
  spelled : spelling.map Char.toLower = unit.1.toList.map Char.toLower

namespace Amount

variable {units : List (String × Nat)}

def text (a : Amount units) : List Char := a.numeral ++ a.spelling

def value (a : Amount units) : Nat := a.number * a.unit.2

def textAll (parts : List (Amount units)) : List Char := parts.flatMap text

def total (parts : List (Amount units)) : Nat := (parts.map value).sum

@[simp] theorem textAll_nil : textAll ([] : List (Amount units)) = [] := rfl

@[simp] theorem textAll_cons (a : Amount units) (rest : List (Amount units)) :
    textAll (a :: rest) = a.text ++ textAll rest := rfl

@[simp] theorem total_nil : total ([] : List (Amount units)) = 0 := rfl

@[simp] theorem total_cons (a : Amount units) (rest : List (Amount units)) :
    total (a :: rest) = a.value + total rest := rfl

theorem textAll_append (parts others : List (Amount units)) :
    textAll (parts ++ others) = textAll parts ++ textAll others := List.flatMap_append

theorem total_append (parts others : List (Amount units)) :
    total (parts ++ others) = total parts + total others := by
  rw [total, List.map_append, List.sum_append]
  rfl

theorem upper_spelling (a : Amount units) :
    a.spelling.map Char.toUpper = a.unit.1.toList.map Char.toUpper := by
  have folded (l : List Char) : l.map Char.toUpper = (l.map Char.toLower).map Char.toUpper := by
    rw [List.map_map]
    exact List.map_congr_left fun c _ => (toLower_kind c).1.symm
  rw [folded, a.spelled, ← folded]

theorem mem_spelling (a : Amount units) {c : Char} (within : c ∈ a.spelling) :
    ∃ letter ∈ a.unit.1.toList, letter.toLower = c.toLower := by
  have lower : c.toLower ∈ a.unit.1.toList.map Char.toLower :=
    a.spelled ▸ List.mem_map_of_mem within
  exact List.mem_map.mp lower

/-- A digit comes first, so that no unit runs on into the next amount. -/
theorem textAll_leading (parts : List (Amount units)) :
    textAll parts = [] ∨ ∃ c rest, textAll parts = c :: rest ∧ isDigit c = true := by
  cases parts with
  | nil => exact Or.inl rfl
  | cons a others =>
      obtain ⟨c, rest, leading⟩ := List.exists_cons_of_ne_nil a.written.filled
      refine Or.inr ⟨c, rest ++ a.spelling ++ textAll others, ?_, ?_⟩
      · rw [textAll_cons, text, leading]
        rfl
      · exact a.written.numeric c (leading ▸ List.mem_cons_self ..)

def Lettered (units : List (String × Nat)) : Prop :=
  ∀ unit ∈ units, 0 < unit.2 ∧ unit.1.toList ≠ [] ∧
    unit.1.toList.all (fun c => !isBlank c && !isDigit c && c != '+') = true

instance (units : List (String × Nat)) : Decidable (Lettered units) :=
  List.decidableBAll _ units

theorem spelling_letters (lettered : Lettered units) (a : Amount units) {c : Char}
    (within : c ∈ a.spelling) : isBlank c = false ∧ isDigit c = false ∧ c ≠ '+' := by
  obtain ⟨letter, member, same⟩ := a.mem_spelling within
  obtain ⟨_, blank, digit, sign⟩ := toLower_kind letter
  obtain ⟨_, blank', digit', sign'⟩ := toLower_kind c
  rw [same] at blank digit sign
  have plain := List.all_eq_true.mp (lettered a.unit a.known).2.2 letter member
  rw [← blank', ← digit', ne_eq, ← sign', blank, digit, sign]
  simpa [and_assoc] using plain

theorem textAll_clear (lettered : Lettered units) (parts : List (Amount units)) :
    ∀ c ∈ textAll parts, isBlank c = false := by
  intro c within
  obtain ⟨a, _, inside⟩ := List.mem_flatMap.mp within
  rcases List.mem_append.mp inside with digit | letter
  · exact (digit_kind (a.written.numeric c digit)).2.2
  · exact (a.spelling_letters lettered letter).1

theorem readBelow_textAll (lettered : Lettered units) {parts : List (Amount units)}
    (filled : parts ≠ []) (bound : Nat) : readBelow bound (textAll parts) = none := by
  obtain ⟨a, rest, rfl⟩ := List.exists_cons_of_ne_nil filled
  have named : a.spelling ≠ [] := by
    have length := congrArg List.length a.spelled
    rw [List.length_map, List.length_map] at length
    have unit := List.length_pos_iff.mpr (lettered a.unit a.known).2.1
    exact List.length_pos_iff.mp (length ▸ unit)
  obtain ⟨c, more, spelled⟩ := List.exists_cons_of_ne_nil named
  have within : c ∈ a.spelling := spelled ▸ List.mem_cons_self ..
  obtain ⟨_, digit, sign⟩ := a.spelling_letters lettered within
  exact readBelow_none (by simp [text, within]) digit sign

theorem small_of_total (lettered : Lettered units) {parts : List (Amount units)} {bound : Nat}
    (fits : total parts < bound) : ∀ a ∈ parts, a.number < bound := by
  intro a member
  have part : a.value ≤ total parts := List.le_sum_of_mem (List.mem_map_of_mem member)
  have unit : a.number ≤ a.value := Nat.le_mul_of_pos_right _ (lettered a.unit a.known).1
  omega

/-- Amounts count what their numbers and units say, if each of them does with what follows: more
amounts, or nothing. -/
theorem weigh_textAll {weight : Char → Option Nat} (rewrite : List Char → List Char)
    (nothing : rewrite [] = [])
    (one : ∀ (a : Amount units) (others : List (Amount units)), a.number < Word.bound →
      weigh weight (rewrite (a.text ++ textAll others)) =
        a.value + weigh weight (rewrite (textAll others)))
    {parts : List (Amount units)} (small : ∀ a ∈ parts, a.number < Word.bound) :
    weigh weight (rewrite (textAll parts)) = total parts := by
  induction parts with
  | nil =>
      rw [textAll_nil, nothing]
      rfl
  | cons a others ih =>
      rw [textAll_cons, one a others (small a (List.mem_cons_self ..)), total_cons,
        ih fun b member => small b (List.mem_cons_of_mem a member)]

end Amount

end MqttBroker.Text
