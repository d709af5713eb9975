import MqttBroker.Proofs.Covering

/-!
Names in the place of placeholders. A placeholder is replaced in the text of a pattern, before the
pattern is cut into levels. A name that is a plain level then stands for itself alone; a slash in a
name makes more levels of it, and a wildcard in a name is one in the pattern.
-/

namespace MqttBroker

namespace Text

variable {sep : Char} {old new : List Char}

def replaced (old new text : List Char) : List Char := replaceFrom old new text.length text

theorem replaceFrom_enough (filled : old ≠ []) {count : Nat} {text : List Char}
    (enough : text.length ≤ count) : replaceFrom old new count text = replaced old new text := by
  unfold replaced
  -- neither count runs out before the text does
  suffices same : ∀ n m (text : List Char), text.length ≤ n → text.length ≤ m →
      replaceFrom old new n text = replaceFrom old new m text from
    same _ _ text enough (Nat.le_refl _)
  intro n
  induction n with
  | zero =>
      intro m text none _
      obtain rfl := List.length_eq_zero_iff.mp (Nat.le_zero.mp none)
      cases m <;> rfl
  | succ n ih =>
      intro m text first second
      cases text with
      | nil => cases m <;> rfl
      | cons c rest =>
          cases m with
          | zero => cases second
          | succ m =>
              have some := List.length_pos_of_ne_nil filled
              have left : ((c :: rest).drop old.length).length ≤ rest.length := by
                rw [List.length_drop, List.length_cons]
                omega
              have first := Nat.le_of_succ_le_succ first
              have second := Nat.le_of_succ_le_succ second
              simp only [replaceFrom]
              rw [ih m _ (Nat.le_trans left first) (Nat.le_trans left second), ih m rest first second]

theorem replaced_cons (filled : old ≠ []) (c : Char) (rest : List Char) :
    replaced old new (c :: rest) = if old.isPrefixOf (c :: rest)
      then new ++ replaced old new ((c :: rest).drop old.length)
      else c :: replaced old new rest := by
  have some := List.length_pos_of_ne_nil filled
  have left : ((c :: rest).drop old.length).length ≤ rest.length := by
    rw [List.length_drop, List.length_cons]
    omega
  rw [← replaceFrom_enough filled left]
  rfl

theorem isPrefixOf_before (absent : sep ∉ old) (piece rest : List Char) :
    old.isPrefixOf (piece ++ sep :: rest) = old.isPrefixOf piece := by
  induction old generalizing piece with
  | nil => simp
  | cons c more ih =>
      obtain ⟨other, absent⟩ := not_or.mp (mt List.mem_cons.mpr absent)
      cases piece with
      | nil => simp [List.isPrefixOf, Ne.symm other]
      | cons first piece => simp [List.isPrefixOf, ih absent]

theorem replaced_append (filled : old ≠ []) (absent : sep ∉ old) (piece rest : List Char) :
    replaced old new (piece ++ sep :: rest) =
      replaced old new piece ++ sep :: replaced old new rest := by
  induction size : piece.length using Nat.strongRecOn generalizing piece with
  | _ size ih =>
      subst size
      cases piece with
      | nil =>
          have apart : old.isPrefixOf (sep :: rest) = false := by
            have none := isPrefixOf_before absent [] rest
            rw [List.nil_append] at none
            rw [none]
            cases old with
            | nil => exact absurd rfl filled
            | cons _ _ => rfl
          rw [List.nil_append, replaced_cons filled, apart]
          rfl
      | cons c more =>
          rw [List.cons_append, replaced_cons filled, replaced_cons filled, ← List.cons_append,
            isPrefixOf_before absent]
          split
          · rename_i found
            have within := (List.isPrefixOf_iff_prefix.mp found).length_le
            have some := List.length_pos_of_ne_nil filled
            have shorter : ((c :: more).drop old.length).length < (c :: more).length := by
              rw [List.length_drop, List.length_cons]
              omega
            rw [List.drop_append_of_le_length within, ih _ shorter _ rfl, List.append_assoc]
          · rw [ih _ (Nat.lt_succ_self _) more rfl, List.cons_append]

theorem replaced_absent (filled : old ≠ []) {text : List Char} (absent : ¬old <:+: text) :
    replaced old new text = text := by
  induction text with
  | nil => rfl
  | cons c rest ih =>
      have first : ¬old.isPrefixOf (c :: rest) = true :=
        fun first => absent (List.isPrefixOf_iff_prefix.mp first).isInfix
      have later : ¬old <:+: rest := fun later => absent (List.infix_cons later)
      rw [replaced_cons filled, if_neg first, ih later]

theorem replaced_whole (filled : old ≠ []) : replaced old new old = new := by
  cases old with
  | nil => exact absurd rfl filled
  | cons c rest =>
      rw [replaced_cons filled, if_pos (List.isPrefixOf_iff_prefix.mpr List.prefix_rfl),
        List.drop_length]
      exact List.append_nil new

theorem pieces_append_pieces (sep : Char) (piece rest : List Char) :
    pieces sep (piece ++ sep :: rest) = pieces sep piece ++ pieces sep rest := by
  induction piece with
  | nil => simp [pieces]
  | cons c more ih =>
      by_cases same : c = sep
      · rw [List.cons_append, pieces, pieces, if_pos same, if_pos same, ih, List.cons_append]
      · rw [List.cons_append, pieces, pieces, if_neg same, if_neg same, ih,
          pieces_takeWhile sep more]
        rfl

theorem pieces_replaced (filled : old ≠ []) (absent : sep ∉ old) (text : List Char) :
    pieces sep (replaced old new text) =
      (pieces sep text).flatMap fun piece => pieces sep (replaced old new piece) := by
  induction size : text.length using Nat.strongRecOn generalizing text with
  | _ size ih =>
      subst size
      by_cases member : sep ∈ text
      · obtain ⟨piece, rest, rfl, whole⟩ := List.eq_append_cons_of_mem member
        have shorter : rest.length < (piece ++ sep :: rest).length := by
          rw [List.length_append, List.length_cons]
          omega
        rw [replaced_append filled absent, pieces_append_pieces, ih _ shorter rest rfl,
          pieces_append whole, List.flatMap_cons]
      · rw [pieces_whole member, List.flatMap_singleton]

variable {old new text : String}

theorem toList_ne_nil (filled : old ≠ "") : old.toList ≠ [] :=
  fun none => filled (String.toList_eq_nil_iff.mp none)

theorem replaceAll_replaced (filled : old ≠ "") :
    replaceAll old new text = String.ofList (replaced old.toList new.toList text.toList) := by
  rw [replaceAll, if_neg filled]
  rfl

theorem replaceAll_absent (filled : old ≠ "") (absent : ¬old.toList <:+: text.toList) :
    replaceAll old new text = text := by
  rw [replaceAll_replaced filled, replaced_absent (toList_ne_nil filled) absent,
    String.ofList_toList]

theorem replaceAll_whole (filled : old ≠ "") : replaceAll old new old = new := by
  rw [replaceAll_replaced filled, replaced_whole (toList_ne_nil filled), String.ofList_toList]

theorem splitAll_replaceAll (filled : old ≠ "") (absent : sep ∉ old.toList) (new text : String) :
    splitAll sep (replaceAll old new text) =
      (splitAll sep text).flatMap fun part => splitAll sep (replaceAll old new part) := by
  simp only [splitAll, replaceAll_replaced filled, String.toList_ofList,
    pieces_replaced (toList_ne_nil filled) absent text.toList, List.map_flatMap, List.flatMap_map]

theorem splitAll_whole (whole : sep ∉ text.toList) : splitAll sep text = [text] := by
  rw [splitAll, pieces_whole whole, List.map_singleton, String.ofList_toList]

end Text

theorem plain_of_isPlainLevel {text : String} (level : isPlainLevel text = true) :
    text ≠ "" ∧ Text.Plain text ∧ '/' ∉ text.toList := by
  simp only [isPlainLevel, Bool.and_eq_true, decide_eq_true_eq, List.all_eq_true] at level
  obtain ⟨filled, all⟩ := level
  exact ⟨filled, fun c member => ⟨(all c member).1.2, (all c member).2⟩,
    fun member => (all '/' member).1.1 rfl⟩

theorem isPlainLevel_of_plain {text : String} (filled : text ≠ "") (plain : Text.Plain text)
    (whole : '/' ∉ text.toList) : isPlainLevel text = true := by
  simp only [isPlainLevel, Bool.and_eq_true, decide_eq_true_eq, List.all_eq_true]
  refine ⟨filled, fun c member => ⟨⟨?_, (plain c member).1⟩, (plain c member).2⟩⟩
  rintro rfl
  exact whole member

theorem Level.eq_of_follows {first : Bool} {text segment : String}
    (leads : Branches.follows first (ofSegment first text) segment = true) : segment = text := by
  unfold ofSegment at leads
  split at leads
  · rename_i blank
    rw [blank]
    simpa [Branches.follows] using leads
  · split at leads
    · simp only [Branches.follows, Bool.and_eq_true, decide_eq_true_eq] at leads
      exact leads.2
    · simp only [Branches.follows, Bool.and_eq_true, decide_eq_true_eq] at leads
      exact leads.2

namespace Topic

theorem segment_of_plain {first : Bool} {texts segments : List String} {levels : List Level}
    (parsed : parseLevels first texts = .ok levels) (fits : Fits first levels)
    (selects : matchesFrom first levels segments = true) {i : Nat} {text : String}
    (found : texts[i]? = some text) (plain : Text.Plain text) : segments[i]? = some text := by
  induction texts generalizing first levels segments i with
  | nil => cases found
  | cons own rest ih =>
      obtain ⟨level, more, read, others, rfl⟩ := parseLevels_cons parsed
      have one : level ≠ .multi := by
        intro multi
        cases i with
        | zero =>
            cases found
            rw [Level.parse_plain plain] at read
            exact Level.ofSegment_ne_multi first text ((Except.ok.inj read).trans multi)
        | succ i =>
            -- `#` stands last, and this is further on
            cases fits.2.1 multi
            cases rest with
            | nil => cases found
            | cons next rest =>
                obtain ⟨_, _, _, _, none⟩ := parseLevels_cons others
                cases none
      cases segments with
      | nil => cases level <;> first | exact absurd rfl one | cases selects
      | cons segment segments =>
          rw [matchesFrom_cons fits.1 one, Bool.and_eq_true] at selects
          cases i with
          | zero =>
              cases found
              rw [Level.parse_plain plain] at read
              cases read
              exact congrArg some (Level.eq_of_follows selects.1)
          | succ i => exact ih others fits.2.2 selects.2 found

theorem parseLevels_replace {first : Bool} {before after : List String} {text word : String}
    {levels : List Level} (parsed : parseLevels first (before ++ text :: after) = .ok levels)
    (fits : Fits first levels) (plain : Text.Plain word) :
    ∃ others, parseLevels first (before ++ word :: after) = .ok others ∧ Fits first others := by
  induction before generalizing first levels with
  | nil =>
      obtain ⟨_, more, _, behind, rfl⟩ := parseLevels_cons parsed
      have read := Level.parse_plain plain first
      refine ⟨Level.ofSegment first word :: more, ?_, Level.parse_proper read, ?_, fits.2.2⟩
      · rw [List.nil_append, parseLevels, read, behind]
        rfl
      · exact fun multi => absurd multi (Level.ofSegment_ne_multi first word)
  | cons own rest ih =>
      obtain ⟨level, more, read, behind, rfl⟩ := parseLevels_cons parsed
      obtain ⟨others, again, fits'⟩ := ih behind fits.2.2
      refine ⟨level :: others, ?_, fits.1, fun multi => ?_, fits'⟩
      · rw [List.cons_append, parseLevels, read, again]
        rfl
      · rw [fits.2.1 multi] at behind
        cases rest with
        | nil =>
            obtain ⟨_, _, _, _, none⟩ := parseLevels_cons behind
            cases none
        | cons _ _ =>
            obtain ⟨_, _, _, _, none⟩ := parseLevels_cons behind
            cases none

/-- There is a topic that the pattern grants, for namespaces that are plain levels. -/
theorem Written.exists_granted {pattern : Topic} (written : pattern.Written) {ns : Namespaces}
    (reserved : ∀ space ∈ ns.reserved, isPlainLevel space = true) :
    ∃ name, Text.Plain name ∧ pattern.matchesName name = true ∧
      ∀ space, ns.of name = some space → Grants.Opens pattern space := by
  obtain ⟨word, unused, plain, whole⟩ := Level.exists_unused (ns.reserved.map .normal)
  have filled : pattern.levels.map (Level.segment word) ≠ [] :=
    mt List.map_eq_nil_iff.mp written.filled
  obtain ⟨name, named, cut⟩ :=
    written.exists_name plain whole filled (List.subset_cons_self ..)
  refine ⟨name, named, ?_, fun space of => ?_⟩
  · rw [matchesName, cut]
    exact matchesFrom_segments written.fits unused.shown
  · have member := Namespaces.mem_reserved of
    have first := (Namespaces.split_eq_some of).1
    rw [Text.splitAll_splitOnce, first] at cut
    unfold Grants.Opens
    cases levels : pattern.levels with
    | nil => exact absurd levels written.filled
    | cons level rest =>
        rw [levels, List.map_cons] at cut
        have same := (List.cons.inj cut).1
        have fresh : space ≠ word := by
          rintro rfl
          exact unused.absent (List.mem_map_of_mem member)
        cases level with
        | normal text =>
            obtain rfl : space = text := same
            exact Or.inl rfl
        | metadata text =>
            obtain rfl : space = text := same
            exact Or.inr rfl
        | blank => exact absurd same (plain_of_isPlainLevel (reserved space member)).1
        | single => exact absurd same fresh
        | multi => exact absurd same fresh

end Topic

def Permissions.texts (p : Permissions) : Action → List String
  | .publish => p.publish
  | .subscribe => p.subscribe

namespace AccessControl

def IsPlaceholder (text : String) : Prop := text = userPlaceholder ∨ text = certificatePlaceholder

variable {placeholder : String}

theorem IsPlaceholder.filled (known : IsPlaceholder placeholder) : placeholder ≠ "" := by
  rcases known with rfl | rfl <;> decide

theorem IsPlaceholder.whole (known : IsPlaceholder placeholder) : '/' ∉ placeholder.toList := by
  rcases known with rfl | rfl <;> decide

/-- The placeholder is this level of the pattern, and is nowhere else in it. -/
def Placed (placeholder : String) (place : Nat) (pattern : String) : Prop :=
  ∃ before after, before.length = place ∧
    Text.splitAll '/' pattern = before ++ placeholder :: after ∧
    ∀ part ∈ before ++ after, ¬placeholder.toList <:+: part.toList

/-- The pattern with the name in it is the pattern with the levels of the name in it. -/
theorem splitAll_substitute (known : IsPlaceholder placeholder) {pattern : String}
    {before after : List String}
    (split : Text.splitAll '/' pattern = before ++ placeholder :: after)
    (once : ∀ part ∈ before ++ after, ¬placeholder.toList <:+: part.toList) (name : String) :
    Text.splitAll '/' (Grants.substitute [(placeholder, name)] pattern) =
      before ++ Text.splitAll '/' name ++ after := by
  have kept : ∀ parts ⊆ before ++ after,
      parts.flatMap (fun part => Text.splitAll '/' (Text.replaceAll placeholder name part)) =
        parts := by
    intro parts within
    induction parts with
    | nil => rfl
    | cons part rest ih =>
        obtain ⟨member, within⟩ := List.cons_subset.mp within
        have among : part ∈ Text.splitAll '/' pattern := by
          rw [split]
          rcases List.mem_append.mp member with front | behind
          · exact List.mem_append_left _ front
          · exact List.mem_append_right _ (List.mem_cons_of_mem _ behind)
        rw [List.flatMap_cons, ih within, Text.replaceAll_absent known.filled (once part member),
          Text.splitAll_whole (Text.not_mem_of_mem_splitAll among)]
        rfl
  change Text.splitAll '/' (Text.replaceAll placeholder name pattern) = _
  rw [Text.splitAll_replaceAll known.filled known.whole, split, List.flatMap_append,
    List.flatMap_cons, Text.replaceAll_whole known.filled, kept before (List.subset_append_left ..),
    kept after (List.subset_append_right ..), List.append_assoc]

/-- Each topic that is granted has the name at the place. -/
def Confines (g : Grants) (action : Action) (place : Nat) (name : String) : Prop :=
  ∀ topic, Text.Plain topic → g.authorizes action topic = true →
    (Text.splitAll '/' topic)[place]? = some name

def Readable (placeholder name pattern : String) : Prop :=
  ∃ p, Topic.parse (Grants.substitute [(placeholder, name)] pattern) = .ok p

theorem mem_patternsFor {permissions : Permissions} {ns : Namespaces}
    {vars : List (String × String)} {action : Action} {p : Topic} :
    p ∈ (Grants.ofPermissions permissions ns vars).patternsFor action ↔
      ∃ pattern ∈ permissions.texts action,
        Topic.parse (Grants.substitute vars pattern) = .ok p := by
  have read : ∀ texts, p ∈ Grants.patterns vars texts ↔
      ∃ pattern ∈ texts, Topic.parse (Grants.substitute vars pattern) = .ok p := by
    intro texts
    rw [Grants.patterns, List.mem_filterMap]
    refine exists_congr fun pattern => and_congr_right fun _ => ?_
    cases Topic.parse (Grants.substitute vars pattern) <;> simp [Except.toOption]
  cases action with
  | publish => exact read _
  | subscribe => exact read _

variable {place : Nat} {name : String}

theorem Placed.selects (known : IsPlaceholder placeholder) {pattern : String}
    (placed : Placed placeholder place pattern) {p : Topic}
    (parsed : Topic.parse (Grants.substitute [(placeholder, name)] pattern) = .ok p)
    (plain : Text.Plain name) {topic : String} (selects : p.matchesName topic = true) {i : Nat}
    {segment : String} (own : (Text.splitAll '/' name)[i]? = some segment) :
    (Text.splitAll '/' topic)[place + i]? = some segment := by
  obtain ⟨before, after, rfl, split, once⟩ := placed
  obtain ⟨read, fits⟩ := Topic.parse_fits parsed
  rw [splitAll_substitute known split once, List.append_assoc] at read
  refine Topic.segment_of_plain read fits selects ?_
    (plain.segments '/' segment (List.mem_of_getElem? own))
  rw [List.getElem?_append_right (Nat.le_add_right ..), Nat.add_sub_cancel_left,
    List.getElem?_append_left]
  · exact own
  · exact (List.getElem?_eq_some_iff.mp own).1

theorem Placed.readable (known : IsPlaceholder placeholder) {pattern : String}
    (placed : Placed placeholder place pattern) {p : Topic} (parsed : Topic.parse pattern = .ok p)
    (level : isPlainLevel name = true) : Readable placeholder name pattern := by
  obtain ⟨before, after, rfl, split, once⟩ := placed
  obtain ⟨read, fits⟩ := Topic.parse_fits parsed
  rw [split] at read
  obtain ⟨_, plain, whole⟩ := plain_of_isPlainLevel level
  obtain ⟨levels, again, fits'⟩ := Topic.parseLevels_replace read fits plain
  have cut := splitAll_substitute known split once name
  rw [Text.splitAll_whole whole, List.append_assoc, List.singleton_append] at cut
  refine ⟨⟨levels⟩, Topic.parse_eq (cut ▸ again) ?_⟩
  cases levels with
  | nil => rfl
  | cons first rest => exact Topic.dropLast_of_fits fits'.2.1 fits'.2.2

/-- Where all patterns have a placeholder for a level, a topic that is granted has the levels of the
name from there on, if there are no wildcards in the name. A name that is a plain level is then that
one level of the topic, and the patterns with such a name in them can be read as before. Other names
open topics of others, unless no pattern with them in it can be read. -/
theorem placeholder_confines (known : IsPlaceholder placeholder) {permissions : Permissions}
    (limited : permissions.superuser = false) {action : Action}
    (placed : ∀ pattern ∈ permissions.texts action, Placed placeholder place pattern)
    (named : name ≠ "") (ns : Namespaces) :
    let g := Grants.ofPermissions permissions ns [(placeholder, name)]
    (Text.Plain name → ∀ topic, Text.Plain topic → g.authorizes action topic = true →
      ∀ i segment, (Text.splitAll '/' name)[i]? = some segment →
        (Text.splitAll '/' topic)[place + i]? = some segment) ∧
    (isPlainLevel name = true → Confines g action place name ∧
      ∀ pattern ∈ permissions.texts action, (∃ p, Topic.parse pattern = .ok p) →
        Readable placeholder name pattern) ∧
    ((∀ space ∈ ns.reserved, isPlainLevel space = true) →
      (Confines g action place name ↔ isPlainLevel name = true ∨
        ∀ pattern ∈ permissions.texts action, ¬Readable placeholder name pattern)) := by
  intro g
  have levels : Text.Plain name → ∀ topic, Text.Plain topic → g.authorizes action topic = true →
      ∀ i segment, (Text.splitAll '/' name)[i]? = some segment →
        (Text.splitAll '/' topic)[place + i]? = some segment := by
    intro plain topic ordinary granted i segment own
    obtain ⟨p, member, selects, _⟩ :=
      (Grants.authorizes_name limited ns _ action ordinary).mp granted
    obtain ⟨pattern, among, parsed⟩ := mem_patternsFor.mp member
    exact (placed pattern among).selects known parsed plain selects own
  have confined : isPlainLevel name = true → Confines g action place name := by
    intro level topic ordinary granted
    obtain ⟨_, plain, whole⟩ := plain_of_isPlainLevel level
    refine levels plain topic ordinary granted 0 name ?_
    rw [Text.splitAll_whole whole]
    rfl
  refine ⟨levels, fun level => ⟨confined level, ?_⟩, fun reserved => ⟨fun confines => ?_, ?_⟩⟩
  · rintro pattern among ⟨p, parsed⟩
    exact (placed pattern among).readable known parsed level
  · by_contra other
    obtain ⟨level, readable⟩ := not_or.mp other
    obtain ⟨pattern, among, p, parsed⟩ : ∃ pattern ∈ permissions.texts action,
        Readable placeholder name pattern := by simpa using readable
    -- whatever the pattern grants, each level of it is plain, and the name is not
    obtain ⟨topic, ordinary, selects, opens⟩ :=
      Topic.Written.exists_granted ⟨_, parsed⟩ reserved
    have granted : g.authorizes action topic = true :=
      (Grants.authorizes_name limited ns _ action ordinary).mpr
        ⟨p, mem_patternsFor.mpr ⟨pattern, among, parsed⟩, selects, opens⟩
    have member := List.mem_of_getElem? (confines topic ordinary granted)
    exact level (isPlainLevel_of_plain named (ordinary.segments '/' name member)
      (Text.not_mem_of_mem_splitAll member))
  · rintro (level | unreadable)
    · exact confined level
    · intro topic ordinary granted
      obtain ⟨p, member, _, _⟩ :=
        (Grants.authorizes_name limited ns _ action ordinary).mp granted
      obtain ⟨pattern, among, parsed⟩ := mem_patternsFor.mp member
      exact absurd ⟨p, parsed⟩ (unreadable pattern among)

def devices : Permissions where
  publish := ["devices/$\x7busername\x7d/#"]

theorem devices_placed : ∀ pattern ∈ devices.texts .publish, Placed userPlaceholder 1 pattern := by
  intro pattern member
  obtain rfl := List.mem_singleton.mp member
  refine ⟨["devices"], ["#"], rfl, rfl, fun part among within => ?_⟩
  -- the other levels are too short for a placeholder
  have short : ∀ part ∈ ["devices", "#"], part.toList.length < 11 := by decide
  exact absurd within.length_le (Nat.not_le.mpr (short part among))

theorem devices_confined :
    let g := Grants.ofPermissions devices (.ofList ["$SYS", "$link"]) [(userPlaceholder, "ann")]
    g.authorizes .publish "devices/ann/x" = true ∧ Confines g .publish 1 "ann" := by
  intro g
  obtain ⟨_, confined, _⟩ := placeholder_confines (Or.inl rfl) rfl devices_placed
    (show "ann" ≠ "" by decide) (.ofList ["$SYS", "$link"])
  exact ⟨by decide, (confined (by decide)).1⟩

def anyDevice : Settings where
  acl := { accounts := [{ username := "+", password := "p", permissions := devices }] }

/-- The device is let in, and publishes below the topic of another one. -/
theorem anyDevice_unconfined :
    anyDevice.check = .ok () ∧
    ∃ g, anyDevice.access.authenticateAccount "+" (utf8 "p") = some g ∧
      g.authorizes .publish "devices/bob/x" = true ∧ ¬Confines g .publish 1 "+" := by
  refine ⟨by decide, _, rfl, by decide, fun confines => ?_⟩
  have level := confines "devices/bob/x" (by decide) (by decide)
  exact absurd level (by decide)

end AccessControl

end MqttBroker
