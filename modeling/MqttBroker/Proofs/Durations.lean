import MqttBroker.Duration
import MqttBroker.Proofs.Sizes

/-!
Durations as they are written and read, and what is read of lists of amounts: of sizes and of
durations, in any letter case, order and repetition.
-/

namespace MqttBroker

open Text (Amount Numeral Padded weigh worth)

namespace Duration

def units : List (String × Nat) :=
  [("ms", 1), ("s", 1000), ("m", 60 * 1000), ("h", 60 * 60 * 1000), ("d", 24 * 60 * 60 * 1000),
    ("w", 7 * 24 * 60 * 60 * 1000)]

theorem units_lettered : Amount.Lettered units := by decide

theorem unitMillis_digit {c : Char} (digit : Text.isDigit c = true) : unitMillis c = none := by
  unfold unitMillis
  split
  · exact absurd digit (by decide)
  · exact absurd digit (by decide)
  · exact absurd digit (by decide)
  · exact absurd digit (by decide)
  · exact absurd digit (by decide)
  · exact absurd digit (by decide)
  · rfl

theorem markMillis_cons {c : Char} (other : c ≠ 'm') (rest : List Char) :
    markMillis (c :: rest) = c :: markMillis rest := by
  cases rest <;> simp [markMillis, other]

theorem markMillis_append {before : List Char} (plain : 'm' ∉ before) (rest : List Char) :
    markMillis (before ++ rest) = before ++ markMillis rest := by
  induction before with
  | nil => rfl
  | cons c more ih =>
      rw [List.cons_append, markMillis_cons (fun same => plain (same ▸ List.mem_cons_self ..)),
        ih fun within => plain (List.mem_cons_of_mem c within), List.cons_append]

/-- Minutes stay minutes, if no second follows at once. -/
theorem markMillis_minutes {rest : List Char} (apart : ∀ more, rest ≠ 's' :: more) :
    markMillis ('m' :: rest) = 'm' :: markMillis rest := by
  cases rest with
  | nil => rfl
  | cons c more =>
      have other : c ≠ 's' := fun same => apart more (same ▸ rfl)
      simp [markMillis, other]

theorem unit_letters {unit : String × Nat} (known : unit ∈ units) : unit = ("ms", 1) ∨
    ∃ letter, unitMillis letter = some unit.2 ∧ unit.1.toList.map Char.toLower = [letter] := by
  simp only [units, List.mem_cons, List.not_mem_nil, or_false] at known
  rcases known with rfl | rfl | rfl | rfl | rfl | rfl
  · exact Or.inl rfl
  · exact Or.inr ⟨'s', rfl, rfl⟩
  · exact Or.inr ⟨'m', rfl, rfl⟩
  · exact Or.inr ⟨'h', rfl, rfl⟩
  · exact Or.inr ⟨'d', rfl, rfl⟩
  · exact Or.inr ⟨'w', rfl, rfl⟩

theorem weigh_amount (a : Amount units) (others : List (Amount units))
    (small : a.number < Word.bound) :
    weigh unitMillis (markMillis ((a.text ++ Amount.textAll others).map Char.toLower)) =
      a.value + weigh unitMillis (markMillis ((Amount.textAll others).map Char.toLower)) := by
  have numeric : a.numeral.map Char.toLower = a.numeral :=
    (List.map_congr_left fun c within => (Text.digit_kind (a.written.numeric c within)).2.1).trans
      (List.map_id a.numeral)
  have plain : ∀ c ∈ a.numeral, unitMillis c = none := fun c within =>
    unitMillis_digit (a.written.numeric c within)
  have apart : 'm' ∉ a.numeral := fun within => by cases a.written.numeric 'm' within
  -- What follows begins with a digit, so it does not turn minutes into milliseconds.
  have digit : ∀ more, (Amount.textAll others).map Char.toLower ≠ 's' :: more := by
    rintro more same
    rcases Amount.textAll_leading others with nothing | ⟨c, rest, leading, digit⟩
    · rw [nothing] at same
      cases same
    · rw [leading, List.map_cons, (Text.digit_kind digit).2.1] at same
      cases same
      cases digit
  rw [Amount.text, List.map_append, List.map_append, numeric, a.spelled, List.append_assoc,
    markMillis_append apart]
  rcases unit_letters a.known with millis | ⟨letter, is, spelling⟩
  · have marked : markMillis (a.unit.1.toList.map Char.toLower ++
        (Amount.textAll others).map Char.toLower) =
        'Y' :: markMillis ((Amount.textAll others).map Char.toLower) := by
      rw [millis]
      rfl
    have value : worth unitMillis (a.numeral, 'Y') = a.value := by
      rw [Text.worth_numeral (Or.inl a.written) small rfl, Amount.value, millis]
    rw [marked, Text.weigh_append plain (by decide), value]
  · have marked : markMillis (letter :: (Amount.textAll others).map Char.toLower) =
        letter :: markMillis ((Amount.textAll others).map Char.toLower) := by
      by_cases minutes : letter = 'm'
      · rw [minutes, markMillis_minutes digit]
      · exact markMillis_cons minutes _
    have filled : unitMillis letter ≠ none := by simp [is]
    rw [spelling, List.singleton_append, marked, Text.weigh_append plain filled,
      Text.worth_numeral (Or.inl a.written) small is, Amount.value]

theorem weigh_textAll {parts : List (Amount units)} (small : ∀ a ∈ parts, a.number < Word.bound) :
    weigh unitMillis (markMillis ((Amount.textAll parts).map Char.toLower)) =
      Amount.total parts := by
  have nothing : markMillis (([] : List Char).map Char.toLower) = [] := rfl
  exact Amount.weigh_textAll (fun text => markMillis (text.map Char.toLower)) nothing weigh_amount
    small

theorem read_eq {parts : List (Amount units)} {text : String}
    (padded : Padded (Amount.textAll parts) text) : read text =
      Text.quantity unitMillis (markMillis ((Amount.textAll parts).map Char.toLower)) := by
  rw [read, padded.trim (Amount.textAll_clear units_lettered parts), funext Text.lowerAscii_eq]

theorem read_amounts {parts : List (Amount units)} {text : String}
    (padded : Padded (Amount.textAll parts) text) (fits : Amount.total parts < Word.bound) :
    read text = .ok (Amount.total parts) := by
  have sum := weigh_textAll (Amount.small_of_total units_lettered fits)
  rw [read_eq padded, ← sum]
  exact Text.quantity_fits (sum ▸ fits)

theorem read_overflows {parts : List (Amount units)} {text : String}
    (padded : Padded (Amount.textAll parts) text) (small : ∀ a ∈ parts, a.number < Word.bound)
    (exceeds : Word.bound ≤ Amount.total parts) :
    read text = .error .multiply ∨ read text = .error .add := by
  rw [read_eq padded]
  exact Text.quantity_exceeds (weigh_textAll small ▸ exceeds)

end Duration

/-- What is read of amounts with nothing between them and white space around them at most: their
total, if it is a machine word, and an overflow if the numbers are machine words and the total is
none. A size may also be a number without a unit. -/
theorem amounts_read_exactly :
    (∀ (parts : List (Amount ByteSize.units)) (text : String), parts ≠ [] →
      Padded (Amount.textAll parts) text →
        (Amount.total parts < Word.bound → ByteSize.read text = .ok (Amount.total parts)) ∧
        ((∀ a ∈ parts, a.number < Word.bound) → Word.bound ≤ Amount.total parts →
          ByteSize.read text = .error .multiply ∨ ByteSize.read text = .error .add)) ∧
    (∀ (parts : List (Amount Duration.units)) (text : String), parts ≠ [] →
      Padded (Amount.textAll parts) text →
        (Amount.total parts < Word.bound → Duration.read text = .ok (Amount.total parts)) ∧
        ((∀ a ∈ parts, a.number < Word.bound) → Word.bound ≤ Amount.total parts →
          Duration.read text = .error .multiply ∨ Duration.read text = .error .add)) ∧
    ∀ (n : Nat) (numeral : List Char) (text : String), Numeral n numeral → Padded numeral text →
      n < Word.bound → ByteSize.read text = .ok n := by
  refine ⟨?_, ?_, fun _ _ _ => ByteSize.read_numeral⟩
  · intro parts text filled padded
    exact ⟨ByteSize.read_amounts filled padded, ByteSize.read_overflows filled padded⟩
  · intro parts text _ padded
    exact ⟨Duration.read_amounts padded, Duration.read_overflows padded⟩

def kilobyteAndBytes : List (Amount ByteSize.units) :=
  [⟨1, ("KB", 1024), ['1'], ['k', 'B'], by decide, by decide, rfl⟩,
    ⟨5, ("B", 1), ['0', '5'], ['b'], by decide, by decide, rfl⟩]

def gigabytesAndMegabytes : List (Amount ByteSize.units) :=
  [⟨17179869183, ("G", 1024 ^ 3), "17179869183".toList, ['G'], by decide,
      by decide, rfl⟩,
    ⟨1024, ("MB", 1024 ^ 2), "1024".toList, ['m', 'b'], by decide,
      by decide, rfl⟩]

def minutesAndMillis : List (Amount Duration.units) :=
  [⟨5, ("m", 60 * 1000), ['5'], ['M'], by decide, by decide, rfl⟩,
    ⟨500, ("ms", 1), "500".toList, ['m', 'S'], by decide, by decide, rfl⟩]

theorem neighbouringUnits_read :
    (Padded (Amount.textAll kilobyteAndBytes) " 1kB05b" ∧ ByteSize.read " 1kB05b" = .ok 1029) ∧
    (Amount.total gigabytesAndMegabytes = Word.bound ∧
      (ByteSize.read "17179869183G1024mb" = .error .multiply ∨
        ByteSize.read "17179869183G1024mb" = .error .add)) ∧
    (Padded (Amount.textAll minutesAndMillis) "5M500mS\n" ∧
      Duration.read "5M500mS\n" = .ok 300500) ∧
    (Numeral 512 "0512".toList ∧ ByteSize.read "0512" = .ok 512) := by
  obtain ⟨sizes, durations, plain⟩ := amounts_read_exactly
  have spaced : Padded (Amount.textAll kilobyteAndBytes) " 1kB05b" :=
    ⟨[' '], [], List.forall_mem_singleton.mpr rfl, nofun, rfl⟩
  have large : Padded (Amount.textAll gigabytesAndMegabytes) "17179869183G1024mb" :=
    ⟨[], [], nofun, nofun, rfl⟩
  have ended : Padded (Amount.textAll minutesAndMillis) "5M500mS\n" :=
    ⟨[], ['\n'], nofun, List.forall_mem_singleton.mpr rfl, rfl⟩
  have numeral : Numeral 512 "0512".toList := by decide
  refine ⟨⟨spaced, ?_⟩, ⟨by decide, ?_⟩, ⟨ended, ?_⟩, ⟨numeral, ?_⟩⟩
  · exact (sizes _ _ (by decide) spaced).1 (by decide)
  · exact (sizes _ _ (by decide) large).2 (by decide) (by decide)
  · exact (durations _ _ (by decide) ended).1 (by decide)
  · exact plain 512 _ _ numeral ⟨[], [], nofun, nofun, by simp⟩ (by decide)

end MqttBroker
