import MqttBroker.Proofs.Binary
import MqttBroker.Proofs.Table
import MqttBroker.Storage.Disk

/-!
The order of keys on disk. The bytes of texts are in the order of the texts, and the digits of
offsets in the order of the offsets.
-/

namespace MqttBroker

theorem append_lt_append (front l l' : List Char) : front ++ l < front ++ l' ↔ l < l' := by
  induction front with
  | nil => rfl
  | cons c rest ih => rw [List.cons_append, List.cons_append, List.cons_lt_cons_self, ih]

theorem compare_append (front text text' : String) :
    compare (front ++ text) (front ++ text') = compare text text' := by
  have less : front ++ text < front ++ text' ↔ text < text' := by
    change (front ++ text).toList < (front ++ text').toList ↔ text.toList < text'.toList
    rw [String.toList_append, String.toList_append, append_lt_append]
  have same : front ++ text = front ++ text' ↔ text = text' := by
    rw [← String.toList_inj, ← String.toList_inj, String.toList_append, String.toList_append,
      List.append_cancel_left_eq]
  change compareOfLessAndEq _ _ = compareOfLessAndEq _ _
  simp only [compareOfLessAndEq, less, same]

theorem compare_byte_then {a b : Nat} (small : a < 256) (small' : b < 256) (rest : Ordering) :
    (compare (UInt8.ofNat a) (UInt8.ofNat b)).then rest = .lt ↔ a < b ∨ a = b ∧ rest = .lt := by
  have same : compare (UInt8.ofNat a) (UInt8.ofNat b) = compare a b := by
    change compareOfLessAndEq _ _ = compareOfLessAndEq _ _
    simp only [compareOfLessAndEq, UInt8.lt_iff_toNat_lt, ← UInt8.toNat_inj, UInt8.toNat_ofNat',
      Nat.mod_eq_of_lt small, Nat.mod_eq_of_lt small']
  rw [same]
  rcases Nat.lt_trichotomy a b with below | rfl | above
  · simp [Nat.compare_eq_lt.mpr below, below]
  · simp
  · have apart := Nat.ne_of_gt above
    simp [Nat.compare_eq_gt.mpr above, apart, Nat.lt_asymm above]

theorem compare_utf8EncodeChar {c d : Char} (below : c < d) (rest rest' : Bytes) :
    compare (String.utf8EncodeChar c ++ rest) (String.utf8EncodeChar d ++ rest') = .lt := by
  have below : c.val.toNat < d.val.toNat := below
  have bound : d.val.toNat < 0x110000 := by
    rcases d.valid with low | high
    · exact Nat.lt_trans low (by decide)
    · exact high.2
  unfold String.utf8EncodeChar
  generalize c.val.toNat = v at below
  generalize d.val.toNat = w at below bound
  -- the digits of a number to the base 64, each from the one before
  have digits : ∀ n : Nat, n / 4096 = n / 64 / 64 ∧ n / 262144 = n / 64 / 64 / 64 := by
    intro n
    constructor <;> simp only [Nat.div_div_eq_div_mul]
  simp only [digits]
  repeat' split
  all_goals
    simp (disch := omega) only [List.cons_append, List.nil_append, List.compare_cons_cons,
      compare_byte_then]
    omega

theorem utf8EncodeChar_starts {c d : Char} {rest rest' : Bytes}
    (same : String.utf8EncodeChar c ++ rest = String.utf8EncodeChar d ++ rest') : c = d := by
  have apart : ∀ {c d : Char} {rest rest' : Bytes}, compare c d = .lt →
      String.utf8EncodeChar c ++ rest ≠ String.utf8EncodeChar d ++ rest' := by
    intro c d rest rest' less same
    have below := compare_utf8EncodeChar (compareOfLessAndEq_eq_lt.mp less) rest rest'
    rw [same, Std.ReflOrd.compare_self] at below
    cases below
  cases order : compare c d with
  | lt => exact absurd same (apart order)
  | eq => exact Std.LawfulEqOrd.eq_of_compare order
  | gt => exact absurd same.symm (apart (Std.OrientedCmp.lt_of_gt order))

theorem utf8EncodeChar_ne_nil (c : Char) : String.utf8EncodeChar c ≠ [] := by
  unfold String.utf8EncodeChar
  dsimp only
  repeat' split
  all_goals exact List.cons_ne_nil _ _

theorem utf8_eq (text : String) : utf8 text = text.toList.flatMap String.utf8EncodeChar := by
  rw [utf8, String.toUTF8_eq_toByteArray, ← String.utf8Encode_toList, List.utf8Encode,
    List.data_toByteArray]

theorem compare_flatMap_utf8EncodeChar {l l' : List Char} (below : l < l') :
    compare (l.flatMap String.utf8EncodeChar) (l'.flatMap String.utf8EncodeChar) = .lt := by
  induction l generalizing l' with
  | nil =>
      cases l' with
      | nil => cases below
      | cons d rest =>
          rw [List.flatMap_nil, List.flatMap_cons]
          cases some : String.utf8EncodeChar d with
          | nil => exact absurd some (utf8EncodeChar_ne_nil d)
          | cons byte bytes => exact List.compareLex_nil_cons
  | cons c rest ih =>
      cases l' with
      | nil => cases below
      | cons d rest' =>
          rw [List.flatMap_cons, List.flatMap_cons]
          rcases List.cons_lt_cons_iff.mp below with first | ⟨rfl, later⟩
          · exact compare_utf8EncodeChar first _ _
          · induction String.utf8EncodeChar c with
            | nil => exact ih later
            | cons byte bytes inner => simpa [List.compare_cons_cons] using inner

/-- Texts are in the order of their bytes. -/
theorem compare_utf8 (text other : String) : compare (utf8 text) (utf8 other) = compare text other := by
  have below : ∀ {s t : String}, compare s t = .lt → compare (utf8 s) (utf8 t) = .lt := by
    intro s t less
    have less : s < t := compareOfLessAndEq_eq_lt.mp less
    rw [utf8_eq, utf8_eq]
    exact compare_flatMap_utf8EncodeChar (String.lt_iff.mp less)
  cases order : compare text other with
  | lt => exact below order
  | eq => rw [Std.LawfulEqOrd.eq_of_compare order, Std.ReflOrd.compare_self]
  | gt => exact Std.OrientedCmp.gt_of_lt (below (Std.OrientedCmp.lt_of_gt order))

theorem utf8_injective {text other : String} (same : utf8 text = utf8 other) : text = other := by
  have read := congrArg utf8? same
  rw [utf8?_utf8, utf8?_utf8] at read
  exact Option.some.inj read

theorem prefix_flatMap_utf8EncodeChar {l l' : List Char} :
    l.flatMap String.utf8EncodeChar <+: l'.flatMap String.utf8EncodeChar ↔ l <+: l' := by
  constructor
  · intro start
    induction l generalizing l' with
    | nil => exact List.nil_prefix
    | cons c rest ih =>
        cases l' with
        | nil =>
            obtain ⟨more, same⟩ := start
            rw [List.flatMap_cons, List.flatMap_nil, List.append_assoc] at same
            exact absurd (List.append_eq_nil_iff.mp same).1 (utf8EncodeChar_ne_nil c)
        | cons d rest' =>
            rw [List.flatMap_cons, List.flatMap_cons] at start
            obtain ⟨more, same⟩ := start
            rw [List.append_assoc] at same
            obtain rfl := utf8EncodeChar_starts same
            rw [List.append_right_inj] at same
            exact List.cons_prefix_cons.mpr ⟨rfl, ih ⟨more, same⟩⟩
  · rintro ⟨more, rfl⟩
    rw [List.flatMap_append]
    exact List.prefix_append ..

theorem isPrefixOf_utf8 (start text : String) :
    (utf8 start).isPrefixOf (utf8 text) = Text.startsWith start text := by
  rw [Bool.eq_iff_iff, Text.startsWith, List.isPrefixOf_iff_prefix, List.isPrefixOf_iff_prefix,
    utf8_eq, utf8_eq]
  exact prefix_flatMap_utf8EncodeChar

namespace Storage

namespace Key

theorem length_digits (count n : Nat) : (digits count n).length = count + 1 := by
  induction count generalizing n with
  | zero => rfl
  | succ count ih => rw [digits, List.length_append, ih, List.length_singleton]

theorem foldl_digits (count n : Nat) :
    (digits count n).foldl (fun n digit => 256 * n + digit) 0 = n := by
  induction count generalizing n with
  | zero => simp [digits]
  | succ count ih =>
      rw [digits, List.foldl_append, ih, List.foldl_cons, List.foldl_nil]
      omega

theorem offset_ofOffset (n : Nat) : (ofOffset n).offset = .ok n := by
  rw [offset, ofOffset, length_digits, if_pos rfl, foldl_digits]

theorem compare_append_digit {key other : Key} (length : key.length = other.length) (a b : Nat) :
    compare (key ++ [a]) (other ++ [b]) = (compare key other).then (compare a b) := by
  induction key generalizing other with
  | nil =>
      obtain rfl := List.eq_nil_of_length_eq_zero length.symm
      rw [List.nil_append, List.nil_append, List.compare_cons_cons]
      cases compare a b <;> rfl
  | cons digit rest ih =>
      cases other with
      | nil => cases length
      | cons digit' rest' =>
          rw [List.cons_append, List.cons_append, List.compare_cons_cons, List.compare_cons_cons,
            ih (Nat.succ.inj length)]
          cases compare digit digit' <;> rfl

theorem compare_div_mod (n k : Nat) :
    (compare (n / 256) (k / 256)).then (compare (n % 256) (k % 256)) = compare n k := by
  cases high : compare (n / 256) (k / 256) with
  | lt =>
      rw [Nat.compare_eq_lt] at high
      exact (Nat.compare_eq_lt.mpr (by omega)).symm
  | eq =>
      rw [Nat.compare_eq_eq] at high
      rw [Ordering.eq_then]
      cases low : compare (n % 256) (k % 256) with
      | lt =>
          rw [Nat.compare_eq_lt] at low
          exact (Nat.compare_eq_lt.mpr (by omega)).symm
      | eq =>
          rw [Nat.compare_eq_eq] at low
          exact (Nat.compare_eq_eq.mpr (by omega)).symm
      | gt =>
          rw [Nat.compare_eq_gt] at low
          exact (Nat.compare_eq_gt.mpr (by omega)).symm
  | gt =>
      rw [Nat.compare_eq_gt] at high
      exact (Nat.compare_eq_gt.mpr (by omega)).symm

/-- The keys of offsets are in the order of the offsets. -/
theorem compare_ofOffset (n k : Nat) : compare (ofOffset n) (ofOffset k) = compare n k := by
  have all : ∀ count n k, compare (digits count n) (digits count k) = compare n k := by
    intro count
    induction count with
    | zero =>
        intro n k
        rw [digits, digits, List.compare_cons_cons]
        cases compare n k <;> rfl
    | succ count ih =>
        intro n k
        rw [digits, digits, compare_append_digit (by rw [length_digits, length_digits]), ih,
          compare_div_mod]
  exact all 7 n k

end Key

namespace Tree

theorem length_putTime (time : Int64) : (Codec.Binary.putTime time).length = 8 := rfl

theorem time_value (time : Int64) (data : Bytes) : Tree.time (value time data) = .ok time := by
  have bytes : ((value time data).take 8).reverse = Codec.Binary.putTime time ++ [] := by
    rw [value, List.take_left' (by rw [List.length_reverse, length_putTime]), List.reverse_reverse,
      List.append_nil]
  rw [Tree.time, bytes, Codec.Binary.takeTime_putTime]

theorem drop_value (time : Int64) (data : Bytes) : (value time data).drop 8 = data :=
  List.drop_left' (by rw [List.length_reverse, length_putTime])

end Tree

end Storage

end MqttBroker
