import MqttBroker.Text.Pieces

/-!
The first piece of a text, and the pieces after it.
-/

namespace MqttBroker.Text

theorem pieces_takeWhile (sep : Char) (chars : List Char) :
    pieces sep chars = chars.takeWhile (· ≠ sep) ::
      match chars.dropWhile (· ≠ sep) with
      | [] => []
      | _ :: rest => pieces sep rest := by
  induction chars with
  | nil => rfl
  | cons c rest ih =>
      by_cases same : c = sep
      · simp [pieces, same]
      · rw [pieces, if_neg same, ih]
        simp [same]

theorem splitAll_splitOnce (sep : Char) (text : String) :
    splitAll sep text = (splitOnce sep text).1 ::
      ((splitOnce sep text).2.map (splitAll sep)).getD [] := by
  unfold splitAll splitOnce
  rw [pieces_takeWhile]
  dsimp only
  cases text.toList.dropWhile (· ≠ sep) with
  | nil => rfl
  | cons first rest => simp

theorem splitAll_ne_nil (sep : Char) (text : String) : splitAll sep text ≠ [] := by
  rw [splitAll_splitOnce]
  simp

theorem not_mem_of_mem_pieces {sep : Char} {chars piece : List Char}
    (member : piece ∈ pieces sep chars) : sep ∉ piece := by
  induction chars generalizing piece with
  | nil =>
      rw [pieces, List.mem_singleton] at member
      exact member ▸ List.not_mem_nil
  | cons c rest ih =>
      unfold pieces at member
      split at member
      · rcases List.mem_cons.mp member with rfl | later
        · exact List.not_mem_nil
        · exact ih later
      · rename_i other
        split at member
        · rename_i none
          rw [pieces_takeWhile] at none
          cases none
        · rename_i head more split
          rcases List.mem_cons.mp member with rfl | later
          · intro inside
            rcases List.mem_cons.mp inside with same | further
            · exact other same.symm
            · exact ih (split ▸ List.mem_cons_self ..) further
          · exact ih (split ▸ List.mem_cons_of_mem head later)

theorem not_mem_of_mem_splitAll {sep : Char} {text part : String}
    (member : part ∈ splitAll sep text) : sep ∉ part.toList := by
  obtain ⟨piece, among, rfl⟩ := List.mem_map.mp member
  rw [String.toList_ofList]
  exact not_mem_of_mem_pieces among

theorem pieces_whole {sep : Char} {piece : List Char} (whole : sep ∉ piece) :
    pieces sep piece = [piece] := by
  induction piece with
  | nil => rfl
  | cons c rest ih =>
      have other : c ≠ sep := fun same => whole (same ▸ List.mem_cons_self ..)
      rw [pieces, if_neg other, ih fun inside => whole (List.mem_cons_of_mem c inside)]

theorem pieces_append {sep : Char} {piece : List Char} (whole : sep ∉ piece) (rest : List Char) :
    pieces sep (piece ++ sep :: rest) = piece :: pieces sep rest := by
  induction piece with
  | nil => rw [List.nil_append, pieces, if_pos rfl]
  | cons c more ih =>
      have other : c ≠ sep := fun same => whole (same ▸ List.mem_cons_self ..)
      rw [List.cons_append, pieces, if_neg other,
        ih fun inside => whole (List.mem_cons_of_mem c inside)]

theorem pieces_intersperse {sep : Char} {parts : List (List Char)} (filled : parts ≠ [])
    (whole : ∀ part ∈ parts, sep ∉ part) :
    pieces sep (parts.intersperse [sep]).flatten = parts := by
  induction parts with
  | nil => exact absurd rfl filled
  | cons part rest ih =>
      have own := whole part (List.mem_cons_self ..)
      cases rest with
      | nil => simpa using pieces_whole own
      | cons next more =>
          have later := ih (List.cons_ne_nil next more) fun other member =>
            whole other (List.mem_cons_of_mem part member)
          rw [List.intersperse_cons_cons, List.flatten_cons, List.flatten_cons,
            List.singleton_append, pieces_append own, later]

theorem splitAll_joinAll {sep : Char} {parts : List String} (filled : parts ≠ [])
    (whole : ∀ part ∈ parts, sep ∉ part.toList) : splitAll sep (joinAll sep parts) = parts := by
  unfold splitAll joinAll
  rw [String.toList_ofList, pieces_intersperse]
  · simp [Function.comp_def]
  · simpa using filled
  · simpa using whole

theorem mem_joinAll {sep c : Char} {parts : List String}
    (member : c ∈ (joinAll sep parts).toList) : c = sep ∨ ∃ part ∈ parts, c ∈ part.toList := by
  rw [joinAll, String.toList_ofList] at member
  induction parts with
  | nil => cases member
  | cons part rest ih =>
      cases rest with
      | nil => exact Or.inr ⟨part, List.mem_cons_self .., by simpa using member⟩
      | cons next more =>
          simp only [List.map_cons, List.intersperse_cons_cons, List.flatten_cons,
            List.singleton_append, List.mem_append, List.mem_cons] at member
          rcases member with own | same | later
          · exact Or.inr ⟨part, List.mem_cons_self .., own⟩
          · exact Or.inl same
          · refine (ih (by simpa using later)).imp_right ?_
            rintro ⟨other, among, inside⟩
            exact ⟨other, List.mem_cons_of_mem part among, inside⟩

end MqttBroker.Text
