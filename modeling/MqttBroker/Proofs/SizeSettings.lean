import Mathlib.Data.Bool.AllAny
import Mathlib.Data.List.TakeWhile
import MqttBroker.Proofs.Sizes

/-!
Sizes in a configuration. A text is cut behind each unit letter; pieces that are numbers count,
malformed pieces count as zero, and a total of zero is refused if the text shows another number.
-/

namespace MqttBroker.ByteSize

open Text (Amount Numeral PlusNumeral Padded weigh worth)

/-- A text cut behind its unit letters: what stands before each, and what stands behind the last. -/
structure Cut (text : List Char) (pieces : List (List Char × Char)) (rest : List Char) : Prop where
  joined : text = pieces.flatMap (fun piece => piece.1 ++ [piece.2]) ++ rest
  ended : ∀ piece ∈ pieces, unitBytes piece.2.toUpper ≠ none
  whole : ∀ piece ∈ pieces, ∀ c ∈ piece.1, unitBytes c.toUpper = none
  last : ∀ c ∈ rest, unitBytes c.toUpper = none

/-- What a piece counts: a number times the unit behind it, and zero if it is malformed. -/
inductive PieceCounts : List Char × Char → Nat → Prop
  | number {n bytes : Nat} {numeral : List Char} {unit : Char} : PlusNumeral n numeral →
      n < Word.bound → unitBytes unit.toUpper = some bytes →
      PieceCounts (numeral, unit) (n * bytes)
  | malformed {text : List Char} {unit : Char} : (∀ n < Word.bound, ¬PlusNumeral n text) →
      PieceCounts (text, unit) 0

inductive Counts (text : List Char) : Nat → Prop
  | plain {n : Nat} : PlusNumeral n text → n < Word.bound → Counts text n
  | pieces {pieces : List (List Char × Char)} {rest : List Char} {values : List Nat} :
      (∀ n < Word.bound, ¬PlusNumeral n text) → Cut text pieces rest →
      List.Forall₂ PieceCounts pieces values → Counts text values.sum

inductive WellFormed (text : List Char) : Nat → Prop
  | number {n : Nat} : Numeral n text → WellFormed text n
  | amounts {parts : List (Amount units)} : parts ≠ [] → text = Amount.textAll parts →
      WellFormed text (Amount.total parts)

theorem WellFormed.mem {text : List Char} {n : Nat} (wellFormed : WellFormed text n) {c : Char}
    (within : c ∈ text) : Text.isDigit c = true ∨
      ∃ unit ∈ units, c.toLower ∈ unit.1.toList.map Char.toLower := by
  cases wellFormed with
  | number numeral => exact Or.inl (numeral.numeric c within)
  | amounts _ same =>
      rw [same] at within
      obtain ⟨a, _, inside⟩ := List.mem_flatMap.mp within
      rcases List.mem_append.mp inside with digit | letter
      · exact Or.inl (a.written.numeric c digit)
      · exact Or.inr ⟨a.unit, a.known, a.spelled ▸ List.mem_map_of_mem letter⟩

theorem exists_cut (text : List Char) : ∃ pieces rest, Cut text pieces rest := by
  induction text with
  | nil => exact ⟨[], [], rfl, nofun, nofun, nofun⟩
  | cons c more ih =>
      obtain ⟨pieces, rest, cut⟩ := ih
      by_cases plain : unitBytes c.toUpper = none
      · cases pieces with
        | nil =>
            refine ⟨[], c :: rest, congrArg (c :: ·) cut.joined, nofun, nofun, ?_⟩
            exact List.forall_mem_cons.mpr ⟨plain, cut.last⟩
        | cons piece others =>
            obtain ⟨own, whole⟩ := List.forall_mem_cons.mp cut.whole
            refine ⟨(c :: piece.1, piece.2) :: others, rest, congrArg (c :: ·) cut.joined, ?_, ?_,
              cut.last⟩
            · exact List.forall_mem_cons.mpr (List.forall_mem_cons.mp cut.ended)
            · exact List.forall_mem_cons.mpr ⟨List.forall_mem_cons.mpr ⟨plain, own⟩, whole⟩
      · refine ⟨([], c) :: pieces, rest, congrArg (c :: ·) cut.joined, ?_, ?_, cut.last⟩
        · exact List.forall_mem_cons.mpr ⟨plain, cut.ended⟩
        · exact List.forall_mem_cons.mpr ⟨nofun, cut.whole⟩

theorem weigh_cut {text : List Char} {pieces : List (List Char × Char)} {rest : List Char}
    (cut : Cut text pieces rest) : weigh unitBytes (text.map Char.toUpper) =
      (pieces.map fun piece => worth unitBytes (piece.1, piece.2.toUpper)).sum := by
  have upper {l : List Char} (plain : ∀ c ∈ l, unitBytes c.toUpper = none) :
      ∀ c ∈ l.map Char.toUpper, unitBytes c = none := by
    simpa using plain
  induction pieces generalizing text with
  | nil =>
      rw [cut.joined]
      exact Text.weigh_plain (upper cut.last)
  | cons piece others ih =>
      obtain ⟨unit, units⟩ := List.forall_mem_cons.mp cut.ended
      obtain ⟨own, whole⟩ := List.forall_mem_cons.mp cut.whole
      have later := ih ⟨rfl, units, whole, cut.last⟩
      have number : worth unitBytes (piece.1.map Char.toUpper, piece.2.toUpper) =
          worth unitBytes (piece.1, piece.2.toUpper) := by
        simp only [worth, Text.readBelow_toUpper]
      rw [cut.joined, List.flatMap_cons, List.append_assoc, List.append_assoc,
        List.singleton_append, List.map_append, List.map_cons, Text.weigh_append (upper own) unit,
        later, number, List.map_cons, List.sum_cons]

theorem pieceCounts_iff {piece : List Char × Char} (ended : unitBytes piece.2.toUpper ≠ none)
    {n : Nat} : PieceCounts piece n ↔ n = worth unitBytes (piece.1, piece.2.toUpper) := by
  obtain ⟨bytes, is⟩ := Option.ne_none_iff_exists'.mp ended
  constructor
  · rintro (⟨numeral, small, known⟩ | malformed)
    · exact (Text.worth_numeral numeral small known).symm
    · exact (Text.worth_malformed malformed _).symm
  · rintro rfl
    cases number : Text.readBelow Word.bound piece.1 with
    | some n =>
        obtain ⟨small, numeral⟩ := Text.readBelow_eq_some_iff.mp number
        rw [Text.worth_numeral numeral small is]
        exact .number numeral small is
    | none =>
        have malformed := Text.readBelow_eq_none_iff.mp number
        rw [Text.worth_malformed malformed]
        exact .malformed malformed

theorem forall₂_pieceCounts {pieces : List (List Char × Char)}
    (ended : ∀ piece ∈ pieces, unitBytes piece.2.toUpper ≠ none) {values : List Nat} :
    List.Forall₂ PieceCounts pieces values ↔
      values = pieces.map fun piece => worth unitBytes (piece.1, piece.2.toUpper) := by
  induction pieces generalizing values with
  | nil => simp
  | cons piece others ih =>
      obtain ⟨own, more⟩ := List.forall_mem_cons.mp ended
      simp only [List.forall₂_cons_left_iff, pieceCounts_iff own, ih more, List.map_cons,
        exists_and_left, exists_eq_left]

/-- A text counts one thing, however it is cut. -/
theorem counts_iff {text : List Char} {n : Nat} : Counts text n ↔ n = count text := by
  have unread (number : Text.readBelow Word.bound text = none) :
      count text = weigh unitBytes (text.map Char.toUpper) := by
    rw [count, number, Option.getD_none]
  constructor
  · intro counts
    cases counts with
    | plain numeral small => exact (count_numeral numeral small).symm
    | pieces malformed cut values =>
        rw [unread (Text.readBelow_eq_none_iff.mpr malformed), weigh_cut cut,
          (forall₂_pieceCounts cut.ended).mp values]
  · rintro rfl
    cases number : Text.readBelow Word.bound text with
    | some n =>
        obtain ⟨small, numeral⟩ := Text.readBelow_eq_some_iff.mp number
        rw [count_numeral numeral small]
        exact .plain numeral small
    | none =>
        obtain ⟨pieces, rest, cut⟩ := exists_cut text
        rw [unread number, weigh_cut cut]
        exact .pieces (Text.readBelow_eq_none_iff.mp number) cut
          ((forall₂_pieceCounts cut.ended).mpr rfl)

theorem count_of_wellFormed {text : List Char} {n : Nat} (wellFormed : WellFormed text n)
    (word : n < Word.bound) : count text = n := by
  cases wellFormed with
  | number numeral => exact count_numeral (Or.inl numeral) word
  | amounts filled same =>
      rw [same]
      exact count_textAll filled (Amount.small_of_total units_lettered word)

theorem decode_overflow {text : String} {cause : Overflow} (overflows : read text = .error cause) :
    decode text = .error (.overflow cause) := by
  rw [decode, overflows]

theorem decode_malformed {text : String} (zero : read text = .ok 0)
    (other : ∃ c ∈ text.toList, Text.isDigit c = true ∧ c ≠ '0') :
    decode text = .error (.malformed text) := by
  have shown : (text.toList.dropWhile (· = '0')).any Text.isDigit = true := by
    obtain ⟨c, within, digit, different⟩ := other
    rw [← List.takeWhile_append_dropWhile (p := (· = '0')) (l := text.toList)] at within
    rcases List.mem_append.mp within with leading | behind
    · exact absurd (by simpa using List.mem_takeWhile_imp leading) different
    · exact List.any_eq_true.mpr ⟨c, behind, digit⟩
  rw [decode, zero]
  dsimp only
  rw [shown]
  rfl

theorem decode_zero {text : String} (zero : read text = .ok 0) {zeros : Nat} {rest : List Char}
    (leading : text.toList = List.replicate zeros '0' ++ rest)
    (clear : ∀ c ∈ rest, Text.isDigit c = false) : decode text = .ok 0 := by
  refine decode_of_read zero (Or.inr ?_)
  have front : ∀ c ∈ List.replicate zeros '0', decide (c = '0') = true := fun c within =>
    decide_eq_true (List.eq_of_mem_replicate within)
  rw [leading, List.dropWhile_append_of_pos front, List.any_eq_false]
  intro c within
  rw [clear c ((List.dropWhile_suffix _).mem within)]
  exact Bool.false_ne_true

/-- Every text counts one total. It is the size if it is a positive machine word, and an overflow if
it is no machine word. A total of zero is refused if another digit stands in the text, and accepted
if no digit stands behind its leading zeros. So a text that is a positive size is decoded as it. -/
theorem decoded_by_total (text : String) :
    (∃ total, (∀ n, Counts (Text.trim text.toList) n ↔ n = total) ∧
      (Word.bound ≤ total → decode text = .error (.overflow .multiply) ∨
        decode text = .error (.overflow .add)) ∧
      (0 < total → total < Word.bound → decode text = .ok total) ∧
      (total = 0 → (∃ c ∈ text.toList, Text.isDigit c = true ∧ c ≠ '0') →
        decode text = .error (.malformed text)) ∧
      (total = 0 → (∃ zeros rest, text.toList = List.replicate zeros '0' ++ rest ∧
        ∀ c ∈ rest, Text.isDigit c = false) → decode text = .ok 0)) ∧
    ∀ n, WellFormed (Text.trim text.toList) n → 0 < n → n < Word.bound → decode text = .ok n := by
  have fits (word : count (Text.trim text.toList) < Word.bound) := read_fits word
  have zero (none : count (Text.trim text.toList) = 0) : read text = .ok 0 := by
    rw [fits (none ▸ by decide), none]
  refine ⟨⟨count (Text.trim text.toList), fun n => counts_iff, ?_, ?_, ?_, ?_⟩, ?_⟩
  · intro exceeds
    exact (read_exceeds exceeds).imp decode_overflow decode_overflow
  · intro positive word
    exact decode_of_read (fits word) (Or.inl positive.ne')
  · intro none other
    exact decode_malformed (zero none) other
  · rintro none ⟨zeros, rest, leading, clear⟩
    exact decode_zero (zero none) leading clear
  · intro n wellFormed positive word
    have counted := count_of_wellFormed wellFormed word
    rw [← counted] at positive word ⊢
    exact decode_of_read (fits word) (Or.inl positive.ne')

theorem onePiece_counted :
    Counts (Text.trim "1M5X".toList) 1048576 ∧ decode "1M5X" = .ok 1048576 ∧
      Counts (Text.trim "K0x9".toList) 0 ∧
      decode "K0x9" = .error (.malformed "K0x9") := by
  have number : PlusNumeral 1 ['1'] := Or.inl (by decide)
  have mixed : ∀ n < Word.bound, ¬PlusNumeral n "1M5X".toList := fun n _ numeral =>
    absurd (numeral.mem (c := 'M') (by decide)) (by decide)
  have cut : Cut "1M5X".toList [(['1'], 'M')] ['5', 'X'] :=
    { joined := rfl, ended := by decide
      whole := List.forall_mem_singleton.mpr (List.all_iff_forall_prop.mp (by decide))
      last := List.all_iff_forall_prop.mp (by decide) }
  have mega : Counts (Text.trim "1M5X".toList) 1048576 :=
    .pieces mixed cut (.cons (.number number (by decide) rfl) .nil)
  have lettered : ∀ n < Word.bound, ¬PlusNumeral n "K0x9".toList := fun n _ numeral =>
    absurd (numeral.mem (c := 'K') (by decide)) (by decide)
  have empty : ∀ n < Word.bound, ¬PlusNumeral n [] := fun n _ numeral =>
    numeral.elim (fun plain => plain.filled rfl) nofun
  have cutFirst : Cut "K0x9".toList [([], 'K')] ['0', 'x', '9'] :=
    { joined := rfl, ended := by decide, whole := List.forall_mem_singleton.mpr nofun
      last := List.all_iff_forall_prop.mp (by decide) }
  have none : Counts (Text.trim "K0x9".toList) 0 :=
    .pieces lettered cutFirst (.cons (.malformed empty) .nil)
  obtain ⟨⟨total, counts, _, sized, _, _⟩, _⟩ := decoded_by_total "1M5X"
  obtain ⟨⟨other, countsOther, _, _, refused, _⟩, _⟩ := decoded_by_total "K0x9"
  obtain rfl := (counts _).mp mega
  obtain rfl := (countsOther _).mp none
  exact ⟨mega, sized (by decide) (by decide), none, refused rfl ⟨'9', by decide, by decide⟩⟩

/-- A text that is no size is decoded if one of its pieces counts. -/
theorem partlyMalformed_decoded :
    decode "1M5X" = .ok 1048576 ∧ ¬∃ n, WellFormed (Text.trim "1M5X".toList) n := by
  have counted : count (Text.trim "1M5X".toList) = 1048576 := by decide
  have parsed : read "1M5X" = .ok 1048576 :=
    (read_fits (counted ▸ by decide)).trans (congrArg _ counted)
  refine ⟨decode_of_read parsed (Or.inl (by decide)), ?_⟩
  rintro ⟨n, wellFormed⟩
  have letter := wellFormed.mem (c := 'X') (by decide)
  revert letter
  decide

end MqttBroker.ByteSize
