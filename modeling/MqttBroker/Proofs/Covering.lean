import MqttBroker.Proofs.Inclusion
import MqttBroker.Proofs.Places

/-!
Patterns that include filters, exactly. Where a pattern does not include a filter, the filter selects
the name of a topic that the pattern does not select; it is written down level by level, with a word
that the pattern does not use in place of the wildcards.
-/

namespace MqttBroker

namespace Level

/-- A segment that the level selects, where `word` stands for whatever a wildcard selects. -/
def segment (word : String) : Level → String
  | .normal text => text
  | .metadata text => text
  | .blank => ""
  | .single => word
  | .multi => word

structure Unused (word : String) (levels : List Level) : Prop where
  filled : word ≠ ""
  shown : hidden word = false
  absent : .normal word ∉ levels

theorem Unused.tail {word : String} {level : Level} {levels : List Level}
    (unused : Unused word (level :: levels)) : Unused word levels :=
  ⟨unused.filled, unused.shown, fun member => unused.absent (List.mem_cons_of_mem level member)⟩

theorem Unused.ofSegment {word : String} {levels : List Level} (unused : Unused word levels)
    (first : Bool) : Level.ofSegment first word = .normal word := by
  simp [Level.ofSegment, unused.filled, unused.shown]

theorem ofSegment_segment {first : Bool} {level : Level} (proper : level.Proper first)
    (literal : level.isWildcard = false) (word : String) :
    Level.ofSegment first (level.segment word) = level := by
  cases level with
  | blank => rfl
  | normal text => exact (ofSegment_eq_iff proper rfl).mpr rfl
  | metadata text => exact (ofSegment_eq_iff proper rfl).mpr rfl
  | single => cases literal
  | multi => cases literal

theorem ofSegment_of_follows {first : Bool} {level : Level} {text : String}
    (proper : level.Proper first) (literal : level.isWildcard = false)
    (leads : Branches.follows first level text = true) : Level.ofSegment first text = level := by
  cases level with
  | blank =>
      have blank : text = "" := by simpa [Branches.follows] using leads
      exact (ofSegment_eq_blank first text).mpr blank
  | normal own =>
      simp only [Branches.follows, Bool.and_eq_true, decide_eq_true_eq] at leads
      exact (ofSegment_eq_iff proper rfl).mpr leads.2
  | metadata own =>
      simp only [Branches.follows, Bool.and_eq_true, decide_eq_true_eq] at leads
      exact (ofSegment_eq_iff proper rfl).mpr leads.2
  | single => cases literal
  | multi => cases literal

theorem follows_segment {first : Bool} {level : Level} {word : String}
    (proper : level.Proper first) (one : level ≠ .multi) (shown : hidden word = false) :
    Branches.follows first level (level.segment word) = true := by
  cases level with
  | multi => exact absurd rfl one
  | single => simp [Branches.follows, segment, shown]
  | blank => simp [Branches.follows, segment]
  | normal text => simp [Branches.follows, segment, proper.1, proper.2]
  | metadata text => simp [Branches.follows, segment, proper.1, proper.2]

theorem not_follows_segment {first : Bool} {level other : Level} {rest : List Level} {word : String}
    (proper : level.Proper first) (theirs : other.Proper first)
    (literal : level.isWildcard = false) (different : other ≠ level)
    (unused : Unused word (level :: rest)) :
    Branches.follows first level (other.segment word) = false := by
  refine Bool.eq_false_iff.mpr fun leads => ?_
  have same := ofSegment_of_follows proper literal leads
  cases wild : other.isWildcard with
  | false => exact different ((ofSegment_segment theirs wild word).symm.trans same)
  | true =>
      have read : other.segment word = word := by cases other <;> first | rfl | cases wild
      rw [read, unused.ofSegment first] at same
      exact unused.absent (same ▸ List.mem_cons_self ..)

end Level

namespace Topic

open Level (Unused)

theorem matchesFrom_refused {first : Bool} {level : Level} (proper : level.Proper first)
    (one : level ≠ .multi) {text : String} (stops : Branches.follows first level text = false)
    (rest : List Level) (texts : List String) :
    matchesFrom first (level :: rest) (text :: texts) = false := by
  rw [matchesFrom_cons proper one, stops, Bool.false_and]

theorem matchesFrom_segments {first : Bool} {filter : List Level} (fits : Fits first filter)
    {word : String} (shown : Level.hidden word = false) :
    matchesFrom first filter (filter.map (Level.segment word)) = true := by
  induction filter generalizing first with
  | nil => rfl
  | cons level rest ih =>
      by_cases multi : level = .multi
      · subst multi
        simp [matchesFrom, Level.segment, shown]
      · rw [List.map_cons, matchesFrom_cons fits.1 multi, Level.follows_segment fits.1 multi shown,
          ih fits.2.2]
        rfl

/-- The filter selects a name that the pattern does not select, and that is written with the words of
the filter and this one more. -/
def Escapes (word : String) (first : Bool) (pattern filter : List Level) : Prop :=
  ∃ segments, (first = true → segments ≠ []) ∧
    segments ⊆ word :: filter.map (Level.segment word) ∧
    matchesFrom first filter segments = true ∧ matchesFrom first pattern segments = false

section

variable {first : Bool} {word : String}

theorem escapes_own {pattern filter : List Level} (fits : Fits first filter)
    (shown : Level.hidden word = false) (filled : filter ≠ [])
    (refuses : matchesFrom first pattern (filter.map (Level.segment word)) = false) :
    Escapes word first pattern filter :=
  ⟨_, fun _ none => filled (List.map_eq_nil_iff.mp none), List.subset_cons_self ..,
    matchesFrom_segments fits shown, refuses⟩

theorem Escapes.cons {level other : Level} {rest others : List Level}
    (proper : level.Proper first) (theirs : other.Proper first) (one : level ≠ .multi)
    (single : other ≠ .multi) (shown : Level.hidden word = false)
    (later : Escapes word false rest others) :
    Escapes word first (level :: rest) (other :: others) := by
  obtain ⟨segments, _, written, selects, refuses⟩ := later
  refine ⟨other.segment word :: segments, fun _ => List.cons_ne_nil _ _, ?_, ?_, ?_⟩
  · intro text member
    rcases List.mem_cons.mp member with rfl | further
    · exact List.mem_cons_of_mem _ (List.mem_cons_self ..)
    · rcases List.mem_cons.mp (written further) with rfl | own
      · exact List.mem_cons_self ..
      · exact List.mem_cons_of_mem _ (List.mem_cons_of_mem _ own)
  · rw [matchesFrom_cons theirs single, Level.follows_segment theirs single shown, selects]
    rfl
  · rw [matchesFrom_cons proper one, refuses, Bool.and_false]

theorem escapes_single {rest : List Level} (fits : Fits false rest)
    (shown : Level.hidden word = false) (other : ¬(first = true ∧ rest = [.multi])) :
    Escapes word first (.single :: rest) [.multi] := by
  have leads : (first && Level.hidden word) = false := by rw [shown, Bool.and_false]
  have words : ∀ segments, segments ⊆ [word, word] → segments ⊆ word :: [.multi].map
      (Level.segment word) := fun _ within => within
  cases rest with
  | nil =>
      refine ⟨[word, word], fun _ => List.cons_ne_nil _ _, words _ (List.Subset.refl _), ?_, ?_⟩
      · simp [matchesFrom, leads]
      · simp [matchesFrom]
  | cons level rest =>
      by_cases multi : level = .multi
      · -- Further down `#` selects no segments at all, and the pattern wants one.
        subst multi
        cases fits.2.1 rfl
        refine ⟨[], fun top => absurd ⟨top, rfl⟩ other, List.nil_subset _, ?_, rfl⟩
        simp [matchesFrom]
      · refine ⟨[word], fun _ => List.cons_ne_nil _ _, words _ (by simp), ?_, ?_⟩
        · simp [matchesFrom, leads]
        · cases level <;> first | exact absurd rfl multi | simp [matchesFrom]

theorem escapes_of_refused {pattern filter : List Level} (proper : Fits first pattern)
    (fits : Fits first filter) (unused : Unused word pattern) (filled : first = true → filter ≠ [])
    (refused : coversFrom first pattern filter = false)
    (other : ¬(first = true ∧ pattern = [.single, .multi] ∧ filter = [.multi])) :
    Escapes word first pattern filter := by
  induction pattern generalizing first filter with
  | nil =>
      cases filter with
      | nil => cases refused
      | cons level levels => exact escapes_own fits unused.shown (List.cons_ne_nil _ _) rfl
  | cons level rest ih =>
      by_cases multi : level = .multi
      · subst multi
        cases filter with
        | nil => simp [coversFrom] at refused
        | cons own others =>
            simp only [coversFrom, List.head?_cons, Option.any_some, Bool.not_eq_false',
              Bool.and_eq_true] at refused
            obtain ⟨top, metadata⟩ := refused
            refine escapes_own fits unused.shown (List.cons_ne_nil _ _) ?_
            cases own with
            | metadata text => simp [matchesFrom, Level.segment, top, fits.1.2]
            | _ => cases metadata
      · cases filter with
        | nil =>
            refine ⟨[], fun top => absurd rfl (filled top), List.nil_subset _, rfl, ?_⟩
            cases level <;> first | exact absurd rfl multi | rfl
        | cons own others =>
            cases stops : Branches.follows first level (own.segment word) with
            | false =>
                exact escapes_own fits unused.shown (List.cons_ne_nil _ _)
                  (matchesFrom_refused proper.1 multi stops rest _)
            | true =>
                have later : coversFrom false rest others = false →
                    Escapes word false rest others := by
                  intro uncovered
                  exact ih proper.2.2 fits.2.2 unused.tail (by simp) uncovered (by simp)
                by_cases single : level = .single
                · subst single
                  by_cases wild : own = .multi
                  · subst wild
                    cases fits.2.1 rfl
                    apply escapes_single proper.2.2 unused.shown
                    rintro ⟨top, rfl⟩
                    exact other ⟨top, rfl, rfl⟩
                  · have visible : (first && own.isMetadata) = false := by
                      cases own with
                      | metadata text => simpa [Branches.follows, Level.segment, Level.isMetadata, fits.1.2] using stops
                      | _ => exact Bool.and_false _
                    refine .cons proper.1 fits.1 multi wild unused.shown (later ?_)
                    simpa [coversFrom, wild, visible] using refused
                · have literal : level.isWildcard = false := by
                    cases level <;> first | rfl | contradiction
                  have same : own = level := by
                    by_contra different
                    rw [Level.not_follows_segment proper.1 fits.1 literal different unused] at stops
                    cases stops
                  subst same
                  refine .cons proper.1 fits.1 multi multi unused.shown (later ?_)
                  cases own <;> first | simpa [coversFrom] using refused | contradiction

end

/-! The name that escapes -/

theorem mem_parseLevels {first : Bool} {texts : List String} {levels : List Level} {level : Level}
    (parsed : parseLevels first texts = .ok levels) (member : level ∈ levels) :
    ∃ text ∈ texts, ∃ top, Level.parse top text = .ok level := by
  induction texts generalizing first levels with
  | nil =>
      cases parsed
      cases member
  | cons text rest ih =>
      obtain ⟨own, more, found, others, rfl⟩ := parseLevels_cons parsed
      rcases List.mem_cons.mp member with rfl | later
      · exact ⟨text, List.mem_cons_self .., first, found⟩
      · obtain ⟨other, among, read⟩ := ih others later
        exact ⟨other, List.mem_cons_of_mem text among, read⟩

end Topic

namespace Level

theorem segment_plain {top : Bool} {text word : String} {level : Level}
    (parsed : parse top text = .ok level) (plain : Text.Plain word) :
    Text.Plain (level.segment word) := by
  unfold parse at parsed
  split at parsed
  · cases parsed
    exact plain
  split at parsed
  · cases parsed
    exact plain
  split at parsed
  · cases parsed
    exact fun c none => absurd none (by simp [segment])
  split at parsed
  · cases parsed
  · rename_i unmixed
    have own : Text.Plain text := by
      intro c within
      rw [Bool.not_eq_true, List.any_eq_false] at unmixed
      simpa using unmixed c within
    split at parsed
    · cases parsed
      exact own
    · cases parsed
      exact own

theorem segment_whole {top : Bool} {sep : Char} {text word : String} {level : Level}
    (parsed : parse top text = .ok level) (whole : sep ∉ text.toList) (own : sep ∉ word.toList) :
    sep ∉ (level.segment word).toList := by
  have written := parse_display parsed
  cases level with
  | normal _ =>
      rw [← written] at whole
      exact whole
  | metadata _ =>
      rw [← written] at whole
      exact whole
  | blank => simp [segment]
  | single => exact own
  | multi => exact own

theorem exists_unused (levels : List Level) :
    ∃ word, Unused word levels ∧ Text.Plain word ∧ '/' ∉ word.toList := by
  let texts := (levels.map fun level => level.display.toList).flatten
  let word := String.ofList ('x' :: List.replicate texts.length 'x')
  have letters : ∀ c ∈ word.toList, c = 'x' := by
    intro c member
    rw [String.toList_ofList] at member
    rcases List.mem_cons.mp member with rfl | more
    · rfl
    · exact List.eq_of_mem_replicate more
  refine ⟨word, ⟨?_, ?_, fun member => ?_⟩, fun c member => ?_, fun member => ?_⟩
  · intro blank
    simpa [word] using congrArg String.toList blank
  · simp [hidden, word]
  · have below : word.toList.Sublist texts :=
      List.sublist_flatten_of_mem (List.mem_map.mpr ⟨_, member, rfl⟩)
    exact absurd below.length_le (by simp [word])
  · rw [letters c member]
    decide
  · cases letters '/' member

end Level

namespace Topic

def Includes (pattern filter : Topic) : Prop :=
  ∀ name, filter.matchesName name = true → pattern.matchesName name = true

/-- The pattern is `+/#` and the filter is `#`. -/
def Alternate (pattern filter : Topic) : Prop :=
  parse "+/#" = .ok pattern ∧ parse "#" = .ok filter

theorem alternate_iff (pattern filter : Topic) :
    Alternate pattern filter ↔ pattern.levels = [.single, .multi] ∧ filter.levels = [.multi] := by
  obtain ⟨levels⟩ := pattern
  obtain ⟨others⟩ := filter
  have first : parse "+/#" = .ok ⟨[.single, .multi]⟩ := rfl
  have second : parse "#" = .ok ⟨[.multi]⟩ := rfl
  rw [Alternate, first, second]
  simp only [Except.ok.injEq, Topic.mk.injEq]
  exact ⟨fun ⟨own, theirs⟩ => ⟨own.symm, theirs.symm⟩, fun ⟨own, theirs⟩ => ⟨own.symm, theirs.symm⟩⟩

theorem Written.filled {filter : Topic} (written : filter.Written) : filter.levels ≠ [] := by
  obtain ⟨text, parsed⟩ := written
  obtain ⟨level, levels, split, _⟩ := parse_split parsed
  rw [split]
  exact List.cons_ne_nil level levels

theorem Written.exists_name {filter : Topic} (written : filter.Written) {word : String}
    (plain : Text.Plain word) (whole : '/' ∉ word.toList) {segments : List String}
    (filled : segments ≠ []) (within : segments ⊆ word :: filter.levels.map (Level.segment word)) :
    ∃ name, Text.Plain name ∧ Text.splitAll '/' name = segments := by
  obtain ⟨text, parsed⟩ := written
  have read : ∀ segment ∈ segments, Text.Plain segment ∧ '/' ∉ segment.toList := by
    intro segment member
    rcases List.mem_cons.mp (within member) with rfl | among
    · exact ⟨plain, whole⟩
    · obtain ⟨level, of, rfl⟩ := List.mem_map.mp among
      obtain ⟨piece, cut, top, found⟩ := mem_parseLevels (parse_fits parsed).1 of
      exact ⟨Level.segment_plain found plain,
        Level.segment_whole found (Text.not_mem_of_mem_splitAll cut) whole⟩
  refine ⟨Text.joinAll '/' segments, fun c member => ?_,
    Text.splitAll_joinAll filled fun segment member => (read segment member).2⟩
  rcases Text.mem_joinAll member with rfl | ⟨segment, among, inside⟩
  · decide
  · exact (read segment among).1 c inside

/-- A pattern does not include a filter, and a name without wildcards tells why. -/
theorem exists_escape {pattern filter : Topic} (written : pattern.Written) (own : filter.Written)
    (refused : pattern.covers filter = false) (other : ¬Alternate pattern filter) :
    ∃ name, Text.Plain name ∧ filter.matchesName name = true ∧
      pattern.matchesName name = false := by
  obtain ⟨word, unused, plain, whole⟩ := Level.exists_unused pattern.levels
  rw [alternate_iff] at other
  obtain ⟨segments, filled, within, selects, refuses⟩ := escapes_of_refused written.fits own.fits
    unused (fun _ => own.filled) refused fun ⟨_, top⟩ => other top
  obtain ⟨name, named, again⟩ := own.exists_name plain whole (filled rfl) within
  refine ⟨name, named, ?_, ?_⟩
  · rw [matchesName, again]
    exact selects
  · rw [matchesName, again]
    exact refuses

theorem Alternate.includes {pattern filter : Topic} (alternate : Alternate pattern filter) :
    pattern.Includes filter ∧ pattern.covers filter = false := by
  obtain ⟨own, theirs⟩ := (alternate_iff ..).mp alternate
  constructor
  · intro name selects
    unfold matchesName at selects ⊢
    rw [theirs] at selects
    rw [own]
    cases split : Text.splitAll '/' name with
    | nil => exact absurd split (Text.splitAll_ne_nil '/' name)
    | cons segment rest => simpa [matchesFrom, split] using selects
  · rw [covers, own, theirs]
    rfl

theorem covers_iff_includes {pattern filter : Topic} (written : pattern.Written)
    (own : filter.Written) :
    pattern.covers filter = true ↔ pattern.Includes filter ∧ ¬Alternate pattern filter := by
  constructor
  · intro covers
    refine ⟨fun name selects => covers_selects written own covers selects, fun alternate => ?_⟩
    rw [alternate.includes.2] at covers
    cases covers
  · rintro ⟨includes, other⟩
    by_contra refused
    obtain ⟨name, _, selects, refuses⟩ :=
      exists_escape written own (Bool.eq_false_iff.mpr refused) other
    rw [includes name selects] at refuses
    cases refuses

theorem covers_multi {pattern filter : Topic} (written : pattern.Written)
    (whole : filter.levels = [.multi]) (covers : pattern.covers filter = true) :
    pattern = filter := by
  obtain ⟨levels⟩ := pattern
  obtain ⟨others⟩ := filter
  cases whole
  cases levels with
  | nil => exact absurd rfl written.filled
  | cons level rest =>
      cases level with
      | multi => rw [written.fits.2.1 rfl]
      | _ => simp [Topic.covers, coversFrom] at covers

/-- A pattern covers a filter exactly if it selects every name that the filter selects; only `+/#`,
which selects what `#` selects, does not cover it. Names without wildcards are enough to tell. So
every pattern covers itself, and what is covered by a filter that it covers. -/
theorem covers_exactly {pattern filter : Topic} (written : pattern.Written)
    (own : filter.Written) :
    (pattern.covers filter = true ↔ pattern.Includes filter ∧ ¬Alternate pattern filter) ∧
      (Alternate pattern filter → pattern.Includes filter ∧ pattern.covers filter = false) ∧
      (pattern.Includes filter ↔ ∀ name, Text.Plain name → filter.matchesName name = true →
        pattern.matchesName name = true) ∧
      pattern.covers pattern = true ∧
      ∀ middle : Topic, middle.Written → pattern.covers middle = true →
        middle.covers filter = true → pattern.covers filter = true := by
  refine ⟨covers_iff_includes written own, Alternate.includes, ⟨fun includes name _ => includes name,
    fun plainly => ?_⟩, ?_, fun middle between first second => ?_⟩
  · by_cases alternate : Alternate pattern filter
    · exact alternate.includes.1
    · refine ((covers_iff_includes written own).mp ?_).1
      by_contra refused
      obtain ⟨name, plain, selects, refuses⟩ :=
        exists_escape written own (Bool.eq_false_iff.mpr refused) alternate
      rw [plainly name plain selects] at refuses
      cases refuses
  · refine (covers_iff_includes written written).mpr ⟨fun name selects => selects, ?_⟩
    intro alternate
    obtain ⟨two, one⟩ := (alternate_iff ..).mp alternate
    rw [two] at one
    cases one
  · obtain ⟨outer, _⟩ := (covers_iff_includes written between).mp first
    obtain ⟨inner, other⟩ := (covers_iff_includes between own).mp second
    refine (covers_iff_includes written own).mpr ⟨fun name selects => outer name (inner name selects),
      fun alternate => ?_⟩
    -- Between `+/#` and `#` there is only `#`, which `+/#` does not cover.
    rw [covers_multi between ((alternate_iff ..).mp alternate).2 second, alternate.includes.2] at first
    cases first

theorem oneOrMore_includes_any :
    let one : Topic := ⟨[.single, .multi]⟩
    let any : Topic := ⟨[.multi]⟩
    one.Written ∧ any.Written ∧ one.Includes any ∧ one.covers any = false ∧
      any.covers one = true ∧ any.Includes one ∧ one.covers one = true := by
  intro one any
  have written : one.Written := ⟨"+/#", rfl⟩
  have own : any.Written := ⟨"#", rfl⟩
  obtain ⟨_, alternate, _, reflexive, _⟩ := covers_exactly written own
  obtain ⟨exact, _⟩ := covers_exactly own written
  obtain ⟨includes, refused⟩ := alternate ⟨rfl, rfl⟩
  have covers : any.covers one = true := by decide
  exact ⟨written, own, includes, refused, covers, (exact.mp covers).1, reflexive⟩

end Topic

end MqttBroker
