import MqttBroker.Json.Reader
import MqttBroker.Proofs.Digits
import MqttBroker.Proofs.Success

/-!
Reading JSON text back. A value of strings, integers and what is made of them is read again from
the text that is written for it.
-/

namespace MqttBroker.JsonValue

mutual

/-- Neither a number that is no integer nor a string that is no text is part of the value. -/
def Plain : JsonValue → Prop
  | .real _ => False
  | .bytes _ _ => False
  | .array items => ArePlain items
  | .object fields => FieldsPlain fields
  | _ => True

def ArePlain : List JsonValue → Prop
  | [] => True
  | item :: rest => Plain item ∧ ArePlain rest

def FieldsPlain : List (String × JsonValue) → Prop
  | [] => True
  | field :: rest => FieldPlain field ∧ FieldsPlain rest

def FieldPlain : String × JsonValue → Prop
  | (_, value) => Plain value

end

def Ends (rest : List Char) : Prop :=
  ∀ c, rest.head? = some c → c = ',' ∨ c = ']' ∨ c = '\x7d'

theorem ends_cons {c : Char} {rest : List Char} (ends : c = ',' ∨ c = ']' ∨ c = '\x7d') :
    Ends (c :: rest) := by
  intro d same
  cases same
  exact ends

theorem skipSpace_cons {c : Char} {rest : List Char} (solid : isSpace c = false) :
    skipSpace (c :: rest) = c :: rest := by
  rw [skipSpace, List.dropWhile_cons, if_neg (by simp [solid])]

/-! Strings -/

theorem readPieces_control {c : Char} (control : c.toNat < 0x20) (rest : List Char) :
    readPieces ('\\' :: 'u' :: '0' :: '0' :: Text.hexDigit (c.toNat / 16) ::
        Text.hexDigit (c.toNat % 16) :: rest) =
      (readPieces rest).bind fun read => some (.char c :: read.1, read.2) := by
  have low : isLow c.toNat = false := by
    simp only [isLow, Bool.and_eq_false_iff, decide_eq_false_iff_not]
    omega
  have high : isHigh c.toNat = false := by
    simp only [isHigh, Bool.and_eq_false_iff, decide_eq_false_iff_not]
    omega
  simp only [readPieces, Text.readHex_control control, Option.bind_eq_bind, Option.bind_some, low,
    high, Bool.or_false, Bool.false_eq_true, if_false, Char.ofNat_toNat]
  rfl

theorem readPieces_plain {c : Char} (quote : c ≠ '"') (backslash : c ≠ '\\')
    (control : ¬c.toNat < 0x20) (rest : List Char) :
    readPieces (c :: rest) =
      (readPieces rest).bind fun read => some (.char c :: read.1, read.2) := by
  rw [readPieces.eq_def]
  split
  · rename_i same
    cases same
  · rename_i same
    cases same
    exact absurd rfl quote
  · rename_i same
    cases same
    exact absurd rfl backslash
  · rename_i same
    cases same
    exact absurd rfl backslash
  · rename_i same
    cases same
    rw [if_neg control]
    rfl

theorem readPieces_escape (c : Char) (rest : List Char) :
    readPieces (escape c ++ rest) =
      (readPieces rest).bind fun read => some (.char c :: read.1, read.2) := by
  unfold escape
  split
  · subst_vars
    rfl
  split
  · subst_vars
    rfl
  split
  · subst_vars
    rfl
  split
  · subst_vars
    rfl
  split
  · subst_vars
    rfl
  split
  · subst_vars
    rfl
  split
  · subst_vars
    rfl
  split
  · rename_i control
    exact readPieces_control control rest
  · rename_i quote backslash _ _ _ _ _ control
    exact readPieces_plain quote backslash control rest

theorem readPieces_quoted (chars rest : List Char) :
    readPieces (chars.flatMap escape ++ '"' :: rest) = some (chars.map .char, rest) := by
  induction chars with
  | nil => rfl
  | cons c chars ih =>
      rw [List.flatMap_cons, List.append_assoc, readPieces_escape, ih]
      rfl

theorem joinHalves_chars (chars : List Char) :
    joinHalves (chars.map .char) = chars.map .char := by
  induction chars with
  | nil => rfl
  | cons c chars ih =>
      rw [List.map_cons, joinHalves, ih]
      intro high low rest same
      cases same

theorem mapM_pieceChar? (chars : List Char) :
    (chars.map Piece.char).mapM pieceChar? = some chars := by
  rw [List.mapM_map]
  exact (mapM_eq_pure fun _ _ => rfl).trans (congrArg some (List.map_id chars))

theorem readString_quote (s : String) (rest : List Char) :
    readString (s.toList.flatMap escape ++ '"' :: rest) = some (.string s, rest) := by
  simp only [readString, readPieces_quoted, Option.bind_eq_bind, Option.bind_some, joinHalves_chars,
    mapM_pieceChar?, String.ofList_toList]
  rfl

/-! Integers -/

theorem isDigit_of_ends {c : Char} {rest : List Char} (ends : Ends (c :: rest)) :
    Text.isDigit c = false ∧ c ≠ '.' ∧ c ≠ 'e' ∧ c ≠ 'E' := by
  rcases ends c rfl with rfl | rfl | rfl <;> decide

theorem takeDigits_append {ds rest : List Char} (some : ds ≠ [])
    (all : ∀ c ∈ ds, Text.isDigit c = true) (ends : Ends rest) :
    takeDigits (ds ++ rest) = .some (ds, rest) := by
  have stop : rest.takeWhile Text.isDigit = [] ∧ rest.dropWhile Text.isDigit = rest := by
    cases rest with
    | nil => exact ⟨rfl, rfl⟩
    | cons c rest =>
        have other := (isDigit_of_ends ends).1
        exact ⟨by simp [other], by simp [other]⟩
  rw [takeDigits, List.takeWhile_append_of_pos all, List.dropWhile_append_of_pos all, stop.1,
    stop.2, List.append_nil]
  cases ds with
  | nil => exact absurd rfl some
  | cons c ds => rfl

theorem takeFraction_ends {rest : List Char} (ends : Ends rest) :
    takeFraction rest = some ([], rest) := by
  unfold takeFraction
  split
  · exact absurd rfl (isDigit_of_ends ends).2.1
  · rfl

theorem takeExponent_ends {rest : List Char} (ends : Ends rest) :
    takeExponent rest = some ([], rest) := by
  cases rest with
  | nil => rfl
  | cons c rest =>
      obtain ⟨_, _, lower, upper⟩ := isDigit_of_ends ends
      simp [takeExponent, lower, upper]

theorem takeInteger_digits (n : Nat) {rest : List Char} (ends : Ends rest) :
    takeInteger (Text.digits n ++ rest) = some (Text.digits n, rest) := by
  obtain ⟨c, more, leading, zero⟩ := Text.digits_leading n
  have stop : rest.head?.any Text.isDigit = false := by
    cases rest with
    | nil => rfl
    | cons c rest => exact (isDigit_of_ends ends).1
  unfold takeInteger
  split
  · rename_i body same
    rw [leading, List.cons_append] at same
    cases same
    obtain ⟨_, rfl⟩ := zero rfl
    rw [List.nil_append, stop, leading]
    rfl
  · refine takeDigits_append (by rw [leading]; exact List.cons_ne_nil c more) ?_ ends
    exact fun c member => Text.isDigit_digits member

theorem readMagnitude_digits (sign : List Char) (n : Nat) (signed : n = 0 → sign = [])
    {rest : List Char} (ends : Ends rest) :
    readMagnitude sign (Text.digits n ++ rest) =
      some (.integer (if sign.isEmpty then n else -(n : Int)), rest) := by
  have whole : (!(decide (n = 0) && !sign.isEmpty)) = true := by
    by_cases none : n = 0
    · simp [signed none]
    · simp [none]
  simp only [readMagnitude, takeInteger_digits n ends, takeFraction_ends ends,
    takeExponent_ends ends, Option.bind_eq_bind, Option.bind_some, ofParts, Text.ofDigits_digits,
    whole, List.isEmpty_nil, Bool.and_self, if_true]
  rfl

theorem readNumber_unsigned {c : Char} (unsigned : c ≠ '-') (rest : List Char) :
    readNumber (c :: rest) = readMagnitude [] (c :: rest) := by
  unfold readNumber
  split
  · rename_i same
    cases same
    exact absurd rfl unsigned
  · rfl

theorem readNumber_decimalInt (n : Int) {rest : List Char} (ends : Ends rest) :
    readNumber ((Text.decimalInt n).toList ++ rest) = some (.integer n, rest) := by
  unfold Text.decimalInt Text.decimal
  split
  · rename_i negative
    simp only [String.toList_append, String.toList_ofList]
    have signed : n.natAbs = 0 → ['-'] = [] := fun zero => by omega
    have value : -(n.natAbs : Int) = n := by omega
    change readNumber ('-' :: (Text.digits n.natAbs ++ rest)) = _
    rw [readNumber, readMagnitude_digits ['-'] n.natAbs signed ends]
    simp only [List.isEmpty_cons, Bool.false_eq_true, if_false, value]
  · rename_i positive
    rw [String.toList_ofList]
    obtain ⟨c, more, leading, _⟩ := Text.digits_leading n.natAbs
    have unsigned : c ≠ '-' := by
      rintro rfl
      have digit : Text.isDigit '-' = true := Text.isDigit_digits (leading ▸ List.mem_cons_self ..)
      cases digit
    have value : (n.natAbs : Int) = n := by omega
    have read := readMagnitude_digits [] n.natAbs (fun _ => rfl) ends
    rw [leading, List.cons_append] at read ⊢
    rw [readNumber_unsigned unsigned, read]
    simp only [List.isEmpty_nil, if_true, value]

/-! Values -/

theorem isSpace_number {c : Char} (number : Text.isDigit c = true ∨ c = '-') :
    isSpace c = false := by
  rw [← Bool.not_eq_true]
  intro space
  simp only [isSpace, Bool.or_eq_true, decide_eq_true_eq] at space
  rcases space with ((rfl | rfl) | rfl) | rfl <;> simp [Text.isDigit] at number

theorem readValue_number {fuel : Nat} {c : Char} {rest : List Char}
    (number : Text.isDigit c = true ∨ c = '-') :
    readValue (fuel + 1) (c :: rest) = readNumber (c :: rest) := by
  rw [readValue, skipSpace_cons (isSpace_number number)]
  split
  case h_7 => rfl
  all_goals
    rename_i same
    cases same
    simp [Text.isDigit] at number

theorem decimalInt_leading (n : Int) :
    ∃ c more, (Text.decimalInt n).toList = c :: more ∧ (Text.isDigit c = true ∨ c = '-') := by
  obtain ⟨c, more, leading, _⟩ := Text.digits_leading n.natAbs
  unfold Text.decimalInt Text.decimal
  split
  · simp only [String.toList_append, String.toList_ofList]
    exact ⟨'-', Text.digits n.natAbs, rfl, Or.inr rfl⟩
  · rw [String.toList_ofList]
    exact ⟨c, more, leading, Or.inl (Text.isDigit_digits (leading ▸ List.mem_cons_self ..))⟩

theorem write_leading {v : JsonValue} (plain : v.Plain) :
    ∃ c more, v.write = c :: more ∧ isSpace c = false ∧ c ≠ ']' := by
  cases v with
  | null => exact ⟨'n', _, rfl, rfl, by decide⟩
  | bool b => cases b <;> exact ⟨_, _, rfl, rfl, by decide⟩
  | integer n =>
      obtain ⟨c, more, leading, number⟩ := decimalInt_leading n
      refine ⟨c, more, by rw [write, leading], isSpace_number number, ?_⟩
      rintro rfl
      simp [Text.isDigit] at number
  | real text => cases plain
  | string s => exact ⟨'"', _, rfl, rfl, by decide⟩
  | bytes b control => cases plain
  | array items => exact ⟨'[', writeItems true items ++ [']'], by simp [write], rfl, by decide⟩
  | object fields =>
      exact ⟨'\x7b', writeFields true fields ++ ['\x7d'], by simp [write], rfl, by decide⟩

theorem readEnclosed_cons {α : Type} {close c : Char}
    {read : List Char → Option (List α × List Char)} {rest : List Char} (solid : isSpace c = false)
    (other : c ≠ close) : readEnclosed close read (c :: rest) = read (c :: rest) := by
  rw [readEnclosed, skipSpace_cons solid]
  exact if_neg fun same => other (Option.some.inj same)

theorem readValue_array (fuel : Nat) (rest : List Char) :
    readValue (fuel + 1) ('[' :: rest) =
      (readEnclosed ']' (readItems fuel) rest).map fun read => (.array read.1, read.2) :=
  rfl

theorem readValue_object (fuel : Nat) (rest : List Char) :
    readValue (fuel + 1) ('\x7b' :: rest) =
      (readEnclosed '\x7d' (readFields fuel) rest).map fun read => (.object read.1, read.2) :=
  rfl

theorem readBehind_last {α : Type} {close : Char} (solid : isSpace close = false)
    (read : List Char → Option (List α × List Char)) (element : α) (rest : List Char) :
    readBehind close read element (close :: rest) = some ([element], rest) := by
  simp only [readBehind, skipSpace_cons solid, if_true]

theorem readBehind_comma {α : Type} {close : Char} (other : ',' ≠ close)
    (read : List Char → Option (List α × List Char)) (element : α) (rest : List Char) :
    readBehind close read element (',' :: rest) =
      (read rest).map fun others => (element :: others.1, others.2) := by
  rw [readBehind, skipSpace_cons (by decide)]
  dsimp only
  rw [if_neg other, if_pos rfl]

theorem readField_key (read : List Char → Option (JsonValue × List Char)) (key : String)
    (value : JsonValue) (after : List Char) :
    readField read (writeField (key, value) ++ after) =
      (read (value.write ++ after)).map fun taken => ((key, taken.1), taken.2) := by
  simp only [writeField, quote, List.cons_append, List.append_assoc, List.nil_append]
  change (readString (key.toList.flatMap escape ++ '"' :: ':' :: (value.write ++ after))).bind _ = _
  rw [readString_quote]
  rfl

theorem writeItems_cons (item : JsonValue) (items : List JsonValue) :
    writeItems false (item :: items) = ',' :: writeItems true (item :: items) := by
  simp [writeItems]

theorem writeFields_cons (field : String × JsonValue) (fields : List (String × JsonValue)) :
    writeFields false (field :: fields) = ',' :: writeFields true (field :: fields) := by
  simp [writeFields]

/-- With this fuel all is read that is shorter. -/
structure ReadsBack (fuel : Nat) : Prop where
  value : ∀ (v : JsonValue) (rest : List Char), v.Plain → Ends rest → v.write.length < fuel →
    readValue fuel (v.write ++ rest) = some (v, rest)
  items : ∀ (item : JsonValue) (items : List JsonValue) (rest : List Char),
    ArePlain (item :: items) → (writeItems true (item :: items)).length + 1 < fuel →
    readItems fuel (writeItems true (item :: items) ++ ']' :: rest) = some (item :: items, rest)
  fields : ∀ (field : String × JsonValue) (fields : List (String × JsonValue)) (rest : List Char),
    FieldsPlain (field :: fields) → (writeFields true (field :: fields)).length + 1 < fuel →
    readFields fuel (writeFields true (field :: fields) ++ '\x7d' :: rest) =
      some (field :: fields, rest)

namespace ReadsBack

variable {fuel : Nat}

theorem value_step (reads : ReadsBack fuel) (v : JsonValue) (rest : List Char) (plain : v.Plain)
    (ends : Ends rest) (enough : v.write.length < fuel + 1) :
    readValue (fuel + 1) (v.write ++ rest) = some (v, rest) := by
  cases v with
  | null => rfl
  | bool b => cases b <;> rfl
  | integer n =>
      obtain ⟨c, more, leading, number⟩ := decimalInt_leading n
      have read := readNumber_decimalInt n ends
      rw [write]
      rw [leading, List.cons_append] at read ⊢
      rw [readValue_number number, read]
  | real text => cases plain
  | string s =>
      simp only [write, quote, List.cons_append, List.append_assoc, List.nil_append]
      exact readString_quote s rest
  | bytes b control => cases plain
  | array items =>
      cases items with
      | nil => rfl
      | cons item items =>
          obtain ⟨c, more, leading, solid, other⟩ := write_leading plain.1
          simp only [write, List.length_cons, List.length_append, List.length_nil] at enough
          have read := reads.items item items rest plain (by omega)
          simp only [write, List.cons_append, List.append_assoc, List.nil_append]
          simp only [writeItems, leading, if_true, List.nil_append, List.cons_append] at read ⊢
          rw [readValue_array, readEnclosed_cons solid other, read]
          rfl
  | object fields =>
      cases fields with
      | nil => rfl
      | cons field fields =>
          obtain ⟨key, value⟩ := field
          simp only [write, List.length_cons, List.length_append, List.length_nil] at enough
          have read := reads.fields (key, value) fields rest plain (by omega)
          simp only [write, List.cons_append, List.append_assoc, List.nil_append]
          simp only [writeFields, writeField, quote, if_true, List.nil_append,
            List.cons_append] at read ⊢
          rw [readValue_object, readEnclosed_cons (c := '"') (by decide) (by decide), read]
          rfl

theorem items_step (reads : ReadsBack fuel) (item : JsonValue) (items : List JsonValue)
    (rest : List Char) (plain : ArePlain (item :: items))
    (enough : (writeItems true (item :: items)).length + 1 < fuel + 1) :
    readItems (fuel + 1) (writeItems true (item :: items) ++ ']' :: rest) =
      some (item :: items, rest) := by
  have first : item.write.length < fuel := by
    simp only [writeItems, if_true, List.nil_append, List.length_append] at enough
    omega
  cases items with
  | nil =>
      have read := reads.value item (']' :: rest) plain.1 (ends_cons (by simp)) first
      simp only [writeItems, if_true, List.nil_append, List.append_nil]
      rw [readItems, read]
      exact readBehind_last (show isSpace ']' = false by decide) (readItems fuel) item rest
  | cons next more =>
      have others : (writeItems true (next :: more)).length + 1 < fuel := by
        rw [writeItems, writeItems_cons] at enough
        simp only [if_true, List.nil_append, List.length_append, List.length_cons] at enough
        omega
      have read := reads.value item (',' :: (writeItems true (next :: more) ++ ']' :: rest)) plain.1
        (ends_cons (by simp)) first
      have then' := reads.items next more rest plain.2 others
      rw [writeItems, writeItems_cons]
      simp only [if_true, List.nil_append, List.cons_append, List.append_assoc]
      rw [readItems, read]
      refine (readBehind_comma (show ',' ≠ ']' by decide) ..).trans ?_
      rw [then']
      rfl

theorem fields_step (reads : ReadsBack fuel) (field : String × JsonValue)
    (fields : List (String × JsonValue)) (rest : List Char) (plain : FieldsPlain (field :: fields))
    (enough : (writeFields true (field :: fields)).length + 1 < fuel + 1) :
    readFields (fuel + 1) (writeFields true (field :: fields) ++ '\x7d' :: rest) =
      some (field :: fields, rest) := by
  obtain ⟨key, value⟩ := field
  have first : value.write.length < fuel := by
    simp only [writeFields, writeField, if_true, List.nil_append, List.length_append,
      List.length_cons] at enough
    omega
  cases fields with
  | nil =>
      have read := reads.value value ('\x7d' :: rest) plain.1 (ends_cons (by simp)) first
      simp only [writeFields, if_true, List.nil_append, List.append_nil]
      rw [readFields, readField_key, read]
      have solid : isSpace '\x7d' = false := by decide
      exact readBehind_last solid (readFields fuel) (key, value) rest
  | cons next more =>
      have others : (writeFields true (next :: more)).length + 1 < fuel := by
        rw [writeFields, writeFields_cons] at enough
        simp only [if_true, List.nil_append, List.length_append, List.length_cons] at enough
        omega
      have read := reads.value value (',' :: (writeFields true (next :: more) ++ '\x7d' :: rest))
        plain.1 (ends_cons (by simp)) first
      have then' := reads.fields next more rest plain.2 others
      rw [writeFields, writeFields_cons]
      simp only [if_true, List.nil_append, List.cons_append, List.append_assoc]
      rw [readFields, readField_key, read]
      refine (readBehind_comma (show ',' ≠ '\x7d' by decide) ..).trans ?_
      rw [then']
      rfl

end ReadsBack

theorem readsBack (fuel : Nat) : ReadsBack fuel := by
  -- what is in a value is shorter than it, and is read with less fuel
  induction fuel with
  | zero =>
      constructor
      · exact fun _ _ _ _ enough => absurd enough (Nat.not_lt_zero _)
      · exact fun _ _ _ _ enough => absurd enough (Nat.not_lt_zero _)
      · exact fun _ _ _ _ enough => absurd enough (Nat.not_lt_zero _)
  | succ fuel ih => exact ⟨ih.value_step, ih.items_step, ih.fields_step⟩

/-- A value of strings and integers is read back from its text. -/
theorem read?_text {v : JsonValue} (plain : v.Plain) : read? v.text = some v := by
  have read := (readsBack (v.write.length + 1)).value v [] plain (fun _ none => nomatch none)
    (Nat.lt_succ_self _)
  rw [List.append_nil] at read
  simp only [read?, text, String.toList_ofList, read]
  rfl

end MqttBroker.JsonValue
