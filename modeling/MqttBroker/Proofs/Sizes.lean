import MqttBroker.ByteSize
import MqttBroker.Proofs.Amounts

/-!
Byte sizes as they are written and read. What a text counts as a size is settled piece by piece,
with a piece for each unit letter; in a unit such as `KB` the second letter is an empty piece and
counts nothing. A size is read back from the text it is displayed as.
-/

namespace MqttBroker.ByteSize

open Text (Amount Numeral PlusNumeral Padded weigh worth)

def units : List (String × Nat) :=
  [("B", 1), ("K", 1024), ("KB", 1024), ("M", 1024 ^ 2), ("MB", 1024 ^ 2), ("G", 1024 ^ 3),
    ("GB", 1024 ^ 3)]

theorem units_lettered : Amount.Lettered units := by decide

theorem unitBytes_numeric {c : Char} (numeric : Text.isDigit c = true ∨ c = '+') :
    unitBytes c = none := by
  unfold unitBytes
  split
  · exact absurd numeric (by decide)
  · exact absurd numeric (by decide)
  · exact absurd numeric (by decide)
  · exact absurd numeric (by decide)
  · rfl

section Shortening

theorem weigh_lone (rest : List Char) : weigh unitBytes ('B' :: rest) = weigh unitBytes rest := by
  have plain : ∀ c ∈ [], unitBytes c = none := nofun
  rw [← List.nil_append ('B' :: rest), Text.weigh_append plain (by decide), Text.worth_nil,
    Nat.zero_add]

/-- Behind a unit, `B` is a piece of its own that counts nothing, so that leaving it out changes no
sum. -/
theorem weigh_shortUnits (text : List Char) :
    weigh unitBytes (shortUnits text) = weigh unitBytes text := by
  -- A number that began further left ends at the next unit, in both texts.
  suffices started : ∀ number : List Char, (∀ c ∈ number, unitBytes c = none) →
      weigh unitBytes (number ++ shortUnits text) = weigh unitBytes (number ++ text) from
    started [] nofun
  fun_induction shortUnits text with
  | case1 => exact fun _ _ => rfl
  | case2 c => exact fun _ _ => rfl
  | case3 c d rest pair ih =>
      intro number plain
      simp only [Bool.and_eq_true, Bool.or_eq_true, decide_eq_true_eq] at pair
      obtain ⟨unit, rfl⟩ := pair
      have is : unitBytes c ≠ none := by
        rcases unit with (rfl | rfl) | rfl <;> decide
      rw [Text.weigh_append plain is, Text.weigh_append plain is, weigh_lone]
      exact congrArg _ (ih [] nofun)
  | case4 c d rest _ ih =>
      intro number plain
      by_cases is : unitBytes c = none
      · have longer := ih (number ++ [c]) fun e within => by
          rcases List.mem_append.mp within with before | last
          · exact plain e before
          · rwa [List.mem_singleton.mp last]
        simpa using longer
      · rw [Text.weigh_append plain is, Text.weigh_append plain is]
        exact congrArg _ (ih [] nofun)

theorem shortUnits_plain {text : List Char} (plain : ∀ c ∈ text, unitBytes c = none) :
    shortUnits text = text := by
  fun_induction shortUnits text with
  | case1 => rfl
  | case2 c => rfl
  | case3 c d rest pair =>
      simp only [Bool.and_eq_true, decide_eq_true_eq] at pair
      have none := plain d (by simp)
      rw [pair.2] at none
      cases none
  | case4 c d rest _ ih =>
      rw [ih fun e within => plain e (List.mem_cons_of_mem c within)]

theorem exists_shortUnits {text : List Char} {c : Char} (within : c ∈ text)
    (other : ¬(Text.isDigit c = true ∨ c = '+')) :
    ∃ d ∈ shortUnits text, ¬(Text.isDigit d = true ∨ d = '+') := by
  fun_induction shortUnits text with
  | case1 => cases within
  | case2 d => exact ⟨c, within, other⟩
  | case3 d e rest pair =>
      simp only [Bool.and_eq_true, Bool.or_eq_true, decide_eq_true_eq] at pair
      refine ⟨d, List.mem_cons_self .., ?_⟩
      rcases pair.1 with (rfl | rfl) | rfl <;> decide
  | case4 d e rest _ ih =>
      rcases List.mem_cons.mp within with rfl | later
      · exact ⟨c, List.mem_cons_self .., other⟩
      · obtain ⟨f, inside, further⟩ := ih later
        exact ⟨f, List.mem_cons_of_mem d inside, further⟩

theorem readBelow_shortUnits (bound : Nat) (text : List Char) :
    Text.readBelow bound (shortUnits (text.map Char.toUpper)) = Text.readBelow bound text := by
  by_cases numeric : ∀ c ∈ text, Text.isDigit c = true ∨ c = '+'
  · rw [Text.map_toUpper numeric, shortUnits_plain fun c within =>
      unitBytes_numeric (numeric c within)]
  · simp only [not_forall] at numeric
    obtain ⟨c, within, other⟩ := numeric
    obtain ⟨digit, sign⟩ := Text.toUpper_kind c
    obtain ⟨d, inside, further⟩ := exists_shortUnits (List.mem_map_of_mem within)
      (show ¬(Text.isDigit c.toUpper = true ∨ c.toUpper = '+') by rwa [digit, sign])
    rw [not_or, Bool.not_eq_true] at other further
    rw [Text.readBelow_none inside further.1 further.2, Text.readBelow_none within other.1 other.2]

end Shortening

def count (text : List Char) : Nat :=
  (Text.readBelow Word.bound text).getD (weigh unitBytes (text.map Char.toUpper))

theorem read_plain {text : String} {n : Nat}
    (number : Text.readBelow Word.bound (Text.trim text.toList) = some n) : read text = .ok n := by
  have short := readBelow_shortUnits Word.bound (Text.trim text.toList)
  simp only [read, funext Text.upperAscii_eq, short, number]

theorem read_parts {text : String}
    (number : Text.readBelow Word.bound (Text.trim text.toList) = none) : read text =
      Text.quantity unitBytes (shortUnits ((Text.trim text.toList).map Char.toUpper)) := by
  have short := readBelow_shortUnits Word.bound (Text.trim text.toList)
  simp only [read, funext Text.upperAscii_eq, short, number]

theorem read_fits {text : String} (fits : count (Text.trim text.toList) < Word.bound) :
    read text = .ok (count (Text.trim text.toList)) := by
  unfold count at fits ⊢
  cases number : Text.readBelow Word.bound (Text.trim text.toList) with
  | some n => exact read_plain number
  | none =>
      rw [number, Option.getD_none, ← weigh_shortUnits] at fits
      rw [Option.getD_none, ← weigh_shortUnits, read_parts number]
      exact Text.quantity_fits fits

theorem read_exceeds {text : String} (exceeds : Word.bound ≤ count (Text.trim text.toList)) :
    read text = .error .multiply ∨ read text = .error .add := by
  unfold count at exceeds
  cases number : Text.readBelow Word.bound (Text.trim text.toList) with
  | some n =>
      have small := (Text.readBelow_eq_some_iff.mp number).1
      rw [number] at exceeds
      exact absurd small (Nat.not_lt.mpr exceeds)
  | none =>
      rw [number, Option.getD_none, ← weigh_shortUnits] at exceeds
      rw [read_parts number]
      exact Text.quantity_exceeds exceeds

theorem count_numeral {n : Nat} {text : List Char} (numeral : PlusNumeral n text)
    (small : n < Word.bound) : count text = n := by
  rw [count, numeral.readBelow small]
  rfl

theorem unit_letters {unit : String × Nat} (known : unit ∈ units) :
    ∃ letter, unitBytes letter = some unit.2 ∧ (unit.1.toList.map Char.toUpper = [letter] ∨
      unit.1.toList.map Char.toUpper = [letter, 'B']) := by
  simp only [units, List.mem_cons, List.not_mem_nil, or_false] at known
  rcases known with rfl | rfl | rfl | rfl | rfl | rfl | rfl
  · exact ⟨'B', rfl, Or.inl rfl⟩
  · exact ⟨'K', rfl, Or.inl rfl⟩
  · exact ⟨'K', rfl, Or.inr rfl⟩
  · exact ⟨'M', rfl, Or.inl rfl⟩
  · exact ⟨'M', rfl, Or.inr rfl⟩
  · exact ⟨'G', rfl, Or.inl rfl⟩
  · exact ⟨'G', rfl, Or.inr rfl⟩

theorem weigh_amount (a : Amount units) (rest : List Char) (small : a.number < Word.bound) :
    weigh unitBytes ((a.text ++ rest).map Char.toUpper) =
      a.value + weigh unitBytes (rest.map Char.toUpper) := by
  obtain ⟨letter, is, spelling⟩ := unit_letters a.known
  have numeric : ∀ c ∈ a.numeral, Text.isDigit c = true ∨ c = '+' := fun c within =>
    Or.inl (a.written.numeric c within)
  have plain : ∀ c ∈ a.numeral, unitBytes c = none := fun c within =>
    unitBytes_numeric (numeric c within)
  have value : worth unitBytes (a.numeral, letter) = a.value :=
    Text.worth_numeral (Or.inl a.written) small is
  have filled : unitBytes letter ≠ none := by simp [is]
  rw [Amount.text, List.map_append, List.map_append, Text.map_toUpper numeric, a.upper_spelling,
    List.append_assoc]
  rcases spelling with one | two
  · rw [one, List.singleton_append, Text.weigh_append plain filled, value]
  · rw [two, List.cons_append, List.singleton_append, Text.weigh_append plain filled, value,
      weigh_lone]

theorem count_textAll {parts : List (Amount units)} (filled : parts ≠ [])
    (small : ∀ a ∈ parts, a.number < Word.bound) :
    count (Amount.textAll parts) = Amount.total parts := by
  rw [count, Amount.readBelow_textAll units_lettered filled, Option.getD_none]
  exact Amount.weigh_textAll (List.map Char.toUpper) rfl
    (fun a others => weigh_amount a (Amount.textAll others)) small

theorem trim_textAll {parts : List (Amount units)} {text : String}
    (padded : Padded (Amount.textAll parts) text) :
    Text.trim text.toList = Amount.textAll parts :=
  padded.trim (Amount.textAll_clear units_lettered parts)

theorem read_amounts {parts : List (Amount units)} {text : String} (filled : parts ≠ [])
    (padded : Padded (Amount.textAll parts) text) (fits : Amount.total parts < Word.bound) :
    read text = .ok (Amount.total parts) := by
  have counted := count_textAll filled (Amount.small_of_total units_lettered fits)
  rw [← counted, ← trim_textAll padded] at fits ⊢
  exact read_fits fits

theorem read_overflows {parts : List (Amount units)} {text : String} (filled : parts ≠ [])
    (padded : Padded (Amount.textAll parts) text) (small : ∀ a ∈ parts, a.number < Word.bound)
    (exceeds : Word.bound ≤ Amount.total parts) :
    read text = .error .multiply ∨ read text = .error .add := by
  rw [← count_textAll filled small, ← trim_textAll padded] at exceeds
  exact read_exceeds exceeds

theorem read_numeral {n : Nat} {numeral : List Char} {text : String}
    (written : Numeral n numeral) (padded : Padded numeral text) (word : n < Word.bound) :
    read text = .ok n := by
  have clear : ∀ c ∈ numeral, Text.isBlank c = false := fun c within =>
    (Text.digit_kind (written.numeric c within)).2.2
  have counted := count_numeral (Or.inl written) word
  rw [← padded.trim clear] at counted
  rw [← counted] at word ⊢
  exact read_fits word

section Display

theorem unitText_textAll (unit : String × Nat) (letter : Char) (known : unit ∈ units)
    (named : unit.1.toList = [letter]) (n : Nat) :
    ∃ parts : List (Amount units), unitText n letter = Amount.textAll parts ∧
      Amount.total parts = n * unit.2 := by
  by_cases zero : n = 0
  · exact ⟨[], by simp [unitText, zero], by simp [zero]⟩
  · let a : Amount units :=
      { number := n, unit := unit, numeral := Text.digits n, spelling := unit.1.toList
        written := Text.numeral_digits n, known := known, spelled := rfl }
    have text : a.text = Text.digits n ++ [letter] := congrArg _ named
    exact ⟨[a], by simp [unitText, zero, text], by simp [Amount.value, a]⟩

theorem display_textAll (n : Nat) : ∃ parts : List (Amount units), parts ≠ [] ∧
    display n = String.ofList (Amount.textAll parts) ∧ Amount.total parts = n := by
  by_cases zero : n = 0
  · subst zero
    let a : Amount units :=
      { number := 0, unit := ("B", 1), numeral := ['0'], spelling := ['B']
        written := ⟨0, by rw [Text.digits_small (by decide)]; rfl⟩, known := by decide
        spelled := rfl }
    exact ⟨[a], List.cons_ne_nil a [], rfl, rfl⟩
  · obtain ⟨gigas, gigaText, gigaTotal⟩ :=
      unitText_textAll ("G", 1024 ^ 3) 'G' (by decide) rfl (n / giga)
    obtain ⟨megas, megaText, megaTotal⟩ :=
      unitText_textAll ("M", 1024 ^ 2) 'M' (by decide) rfl (n % giga / mega)
    obtain ⟨kilos, kiloText, kiloTotal⟩ :=
      unitText_textAll ("K", 1024) 'K' (by decide) rfl (n % mega / kilo)
    obtain ⟨bytes, byteText, byteTotal⟩ := unitText_textAll ("B", 1) 'B' (by decide) rfl (n % kilo)
    have total : Amount.total (gigas ++ megas ++ kilos ++ bytes) = n := by
      simp only [Amount.total_append, gigaTotal, megaTotal, kiloTotal, byteTotal, giga, mega, kilo]
      omega
    refine ⟨gigas ++ megas ++ kilos ++ bytes, ?_, ?_, total⟩
    · intro empty
      rw [empty] at total
      exact zero total.symm
    · rw [display, if_neg zero, gigaText, megaText, kiloText, byteText]
      simp only [Amount.textAll_append]

theorem decode_of_read {text : String} {n : Nat} (parsed : read text = .ok n)
    (accepted : n ≠ 0 ∨ (text.toList.dropWhile (· = '0')).any Text.isDigit = false) :
    decode text = .ok n := by
  have passes : (n = 0 && (text.toList.dropWhile (· = '0')).any Text.isDigit) = false := by
    rcases accepted with filled | clear
    · simp [filled]
    · simp [clear]
  rw [decode, parsed]
  dsimp only
  rw [passes]
  rfl

/-- A machine word is read back from the text it is displayed as a size, from a configuration too,
and nothing overflows on the way. -/
theorem displayed_read_back (n : Nat) (word : n < Word.bound) :
    read (display n) = .ok n ∧ decode (display n) = .ok n := by
  obtain ⟨parts, filled, written, total⟩ := display_textAll n
  have parsed : read (display n) = .ok n := by
    rw [← total] at word
    have sum := read_amounts filled (Text.padded_self (Amount.textAll parts)) word
    rw [written, sum, total]
  refine ⟨parsed, decode_of_read parsed ?_⟩
  by_cases zero : n = 0
  · subst zero
    exact Or.inr (by decide)
  · exact Or.inl zero

theorem largest_read_back :
    18446744073709551615 < Word.bound ∧
      read (display 18446744073709551615) = .ok 18446744073709551615 ∧
      decode (display 18446744073709551615) = .ok 18446744073709551615 := by
  have word : 18446744073709551615 < Word.bound := by decide
  exact ⟨word, displayed_read_back _ word⟩

end Display

end MqttBroker.ByteSize
