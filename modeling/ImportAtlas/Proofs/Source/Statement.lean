import ImportAtlas.Proofs.List.Starts
import ImportAtlas.Source.Statement
import Mathlib.Tactic.MkIffOfInductiveProp

/-! # Ways to read a statement

A text can be read as an import statement in several ways: blanks can belong to the clause or to what surrounds
it, and a clause can hold the word `from` and quotes. A `Reading` is one such way. The step that looks for a
statement finds one exactly if there is a reading, and it then answers with the reading that has the most blanks
after `import`, the shortest clause with these, and the shortest specifier with both.
-/

namespace ImportAtlas.Source

open Text (isBlank)

/-! ## Blanks and quotes -/

/-- One or more blanks. -/
@[mk_iff]
structure IsBlanks (blanks : List Char) : Prop where
  nonempty : blanks ≠ []
  blank : ∀ c ∈ blanks, isBlank c = true

instance (blanks : List Char) : Decidable (IsBlanks blanks) :=
  decidable_of_iff (blanks ≠ [] ∧ blanks.all isBlank = true) (by rw [isBlanks_iff, List.all_eq_true])

/-- A text that does not start with a blank. -/
def IsSolid (text : List Char) : Prop :=
  ∀ c ∈ text.head?, isBlank c = false

instance (text : List Char) : Decidable (IsSolid text) :=
  decidable_of_iff (text.head?.all (!isBlank ·) = true) (by simp [IsSolid, Option.all_eq_true])

theorem isBlank_of_isQuote {c : Char} (quote : isQuote c = true) : isBlank c = false := by
  rw [isQuote, Bool.or_eq_true, beq_iff_eq, beq_iff_eq] at quote
  rcases quote with rfl | rfl <;> decide

theorem isSolid_dropWhile (text : List Char) : IsSolid (text.dropWhile isBlank) := by
  intro c first
  have stops := List.head?_dropWhile_not isBlank text
  rw [first] at stops
  simpa using stops

/-- Blanks at the start of a text are among all of those. -/
theorem exists_more_blanks {first lead text body : List Char} (blank : ∀ c ∈ first, isBlank c = true)
    (solid : IsSolid body) (same : lead ++ body = first ++ text) :
    ∃ more, lead = first ++ more ∧ text = more ++ body := by
  rcases List.append_eq_append_iff.mp same with ⟨_ | ⟨c, longer⟩, rfl, rfl⟩ | ⟨more, rfl, rfl⟩
  · exact ⟨[], by simp, rfl⟩
  · have isBlank := blank c (by simp)
    cases isBlank.symm.trans (solid c rfl)
  · exact ⟨more, rfl, rfl⟩

theorem isSolid_of_isQuote {quote : Char} (isQuoted : isQuote quote = true) (rest : List Char) :
    IsSolid (quote :: rest) := by
  intro c first
  cases first
  exact isBlank_of_isQuote isQuoted

theorem isSolid_from (rest : List Char) : IsSolid (['f', 'r', 'o', 'm'] ++ rest) := by
  intro c first
  cases first
  decide

/-! ## Steps -/

theorem afterWord?_eq_some_iff {word text rest : List Char} :
    afterWord? word text = some rest ↔ text = word ++ rest := by
  induction word generalizing text with
  | nil => simp [afterWord?]
  | cons w word ih =>
    cases text with
    | nil => simp [afterWord?]
    | cons c text => simp [afterWord?, ih]

theorem afterBlanks?_eq_some_iff {text rest : List Char} :
    afterBlanks? text = some rest ↔ ∃ blanks, IsBlanks blanks ∧ text = blanks ++ rest ∧ IsSolid rest := by
  constructor
  · intro success
    unfold afterBlanks? at success
    split at success
    case h_1 c text =>
      split at success
      case isTrue blank =>
        cases success
        refine ⟨c :: text.takeWhile isBlank, ⟨by simp, ?_⟩, ?_, isSolid_dropWhile text⟩
        · exact List.forall_mem_cons.mpr ⟨blank, fun _ member => List.mem_takeWhile_imp member⟩
        · rw [List.cons_append, List.takeWhile_append_dropWhile]
      case isFalse => cases success
    case h_2 => cases success
  · rintro ⟨_ | ⟨c, blanks⟩, ⟨nonempty, blank⟩, rfl, solid⟩
    · exact absurd rfl nonempty
    · obtain ⟨first, others⟩ := List.forall_mem_cons.mp blank
      rw [List.cons_append, afterBlanks?, if_pos first, dropWhile_append_stop others solid]

/-- Whether a text has neither quotes nor line ends. -/
def IsInnermost (specifier : List Char) : Prop :=
  ∀ c ∈ specifier, isQuote c = false ∧ c ≠ '\n'

instance (specifier : List Char) : Decidable (IsInnermost specifier) :=
  decidable_of_iff (specifier.all (fun c => !isQuote c && c != '\n') = true) (by simp [IsInnermost])

theorem untilQuote?_eq_some_iff {text : List Char} {found : Found} : untilQuote? text = some found ↔
    ∃ closing, isQuote closing = true ∧ text = found.1 ++ closing :: found.2 ∧ IsInnermost found.1 := by
  induction text generalizing found with
  | nil => simp [untilQuote?]
  | cons c text ih =>
    obtain ⟨specifier, rest⟩ := found
    rw [untilQuote?]
    by_cases quote : isQuote c = true
    · rw [if_pos quote]
      constructor
      · rintro ⟨⟩
        exact ⟨c, quote, rfl, List.forall_mem_nil _⟩
      · rintro ⟨closing, -, same, inner⟩
        cases specifier with
        | nil => cases same; rfl
        | cons d specifier =>
          cases same
          cases quote.symm.trans (inner c List.mem_cons_self).1
    rw [if_neg quote]
    by_cases lineEnd : c = '\n'
    · rw [if_pos lineEnd]
      subst lineEnd
      constructor
      · rintro ⟨⟩
      · rintro ⟨closing, isQuoted, same, inner⟩
        cases specifier with
        | nil =>
          cases same
          exact absurd isQuoted quote
        | cons d specifier =>
          cases same
          exact absurd rfl (inner '\n' List.mem_cons_self).2
    · rw [if_neg lineEnd, Option.map_eq_some_iff]
      constructor
      · rintro ⟨inside, success, ⟨⟩⟩
        obtain ⟨closing, isQuoted, rfl, inner⟩ := ih.mp success
        exact ⟨closing, isQuoted, rfl, List.forall_mem_cons.mpr ⟨⟨by simpa using quote, lineEnd⟩, inner⟩⟩
      · rintro ⟨closing, isQuoted, same, inner⟩
        cases specifier with
        | nil =>
          cases same
          exact absurd isQuoted quote
        | cons d specifier =>
          cases same
          exact ⟨(specifier, rest), ih.mpr ⟨closing, isQuoted, rfl, fun e member =>
            inner e (List.mem_cons_of_mem _ member)⟩, rfl⟩

/-- Where a quote follows on the line, the text up to the first one is found. -/
theorem exists_untilQuote? {specifier : List Char} (noLineEnd : '\n' ∉ specifier) {closing : Char}
    (quote : isQuote closing = true) (rest : List Char) :
    ∃ found, untilQuote? (specifier ++ closing :: rest) = some found ∧ found.1.length ≤ specifier.length := by
  induction specifier with
  | nil => exact ⟨([], rest), by rw [List.nil_append, untilQuote?, if_pos quote], Nat.le_refl 0⟩
  | cons c specifier ih =>
    rw [List.mem_cons, not_or] at noLineEnd
    obtain ⟨differs, noLineEnd⟩ := noLineEnd
    rw [List.cons_append, untilQuote?]
    split
    · exact ⟨_, rfl, Nat.zero_le _⟩
    · rw [if_neg (Ne.symm differs)]
      obtain ⟨found, success, short⟩ := ih noLineEnd
      exact ⟨(c :: found.1, found.2), by rw [success]; rfl, Nat.succ_le_succ short⟩

/-! ## Origins -/

/-- The parts of a statement after its clause. -/
structure Origin where
  /-- The blanks before `from`. -/
  gap : List Char
  /-- The blanks after `from`. -/
  margin : List Char
  opening : Char
  specifier : List Char
  closing : Char

namespace Origin

/-- What follows the gap. -/
def source (origin : Origin) : List Char :=
  ['f', 'r', 'o', 'm'] ++ (origin.margin ++ origin.opening :: (origin.specifier ++ [origin.closing]))

/-- The text of an origin. -/
def text (origin : Origin) : List Char :=
  origin.gap ++ origin.source

@[mk_iff]
structure IsSound (origin : Origin) : Prop where
  gap : IsBlanks origin.gap
  margin : IsBlanks origin.margin
  opening : isQuote origin.opening = true
  specifier : '\n' ∉ origin.specifier
  closing : isQuote origin.closing = true

instance (origin : Origin) : Decidable origin.IsSound :=
  decidable_of_iff _ (isSound_iff origin).symm

variable {origin other : Origin} {rest more : List Char}

theorem source_append (origin : Origin) (rest : List Char) : origin.source ++ rest = ['f', 'r', 'o', 'm'] ++
    (origin.margin ++ origin.opening :: (origin.specifier ++ origin.closing :: rest)) := by
  simp [source]

theorem isSolid_source (origin : Origin) (rest : List Char) : IsSolid (origin.source ++ rest) := by
  rw [source_append]
  exact isSolid_from _

/-- A text starts with one origin at most that has a given length of the specifier. -/
theorem unique (sound : origin.IsSound) (otherSound : other.IsSound)
    (length : origin.specifier.length = other.specifier.length)
    (same : origin.text ++ rest = other.text ++ more) : origin = other ∧ rest = more := by
  obtain ⟨gap, margin, opening, specifier, closing⟩ := origin
  obtain ⟨otherGap, otherMargin, otherOpening, otherSpecifier, otherClosing⟩ := other
  rw [text, text, List.append_assoc, List.append_assoc] at same
  obtain ⟨rfl, sources⟩ := start_unique sound.gap.blank (isSolid_source _ _) otherSound.gap.blank
    (isSolid_source _ _) same
  rw [source_append, source_append] at sources
  obtain ⟨rfl, quoted⟩ := start_unique sound.margin.blank (isSolid_of_isQuote sound.opening _)
    otherSound.margin.blank (isSolid_of_isQuote otherSound.opening _) (List.append_cancel_left sources)
  obtain ⟨rfl, inside⟩ := List.cons.inj quoted
  obtain ⟨rfl, closed⟩ := List.append_inj inside length
  obtain ⟨rfl, rfl⟩ := List.cons.inj closed
  exact ⟨rfl, rfl⟩

end Origin

theorem exists_of_source? {text : List Char} {found : Found} (success : source? text = some found) (gap : List Char)
    (blanks : IsBlanks gap) : ∃ (origin : Origin) (rest : List Char), origin.IsSound ∧ origin.gap = gap ∧
      IsInnermost origin.specifier ∧ text = origin.source ++ rest ∧ found = (origin.specifier, dropSemicolon rest) := by
  simp only [source?, Option.bind_eq_bind, Option.bind_eq_some_iff] at success
  obtain ⟨afterFrom, fromHere, atQuote, blanksHere, quoted⟩ := success
  obtain rfl := afterWord?_eq_some_iff.mp fromHere
  obtain ⟨margin, marginBlanks, rfl, -⟩ := afterBlanks?_eq_some_iff.mp blanksHere
  unfold quoted? at quoted
  split at quoted
  case h_1 opening inside =>
    split at quoted
    case isTrue isQuoted =>
      obtain ⟨⟨specifier, rest⟩, success, rfl⟩ := Option.map_eq_some_iff.mp quoted
      obtain ⟨closing, closes, rfl, inner⟩ := untilQuote?_eq_some_iff.mp success
      refine ⟨⟨gap, margin, opening, specifier, closing⟩, rest, ?_, rfl, inner, ?_, rfl⟩
      · exact ⟨blanks, marginBlanks, isQuoted, fun member => (inner _ member).2 rfl, closes⟩
      · rw [Origin.source_append]
    case isFalse => cases quoted
  case h_2 => cases quoted

theorem exists_source? {origin : Origin} (sound : origin.IsSound) (rest : List Char) :
    ∃ found, source? (origin.source ++ rest) = some found ∧ found.1.length ≤ origin.specifier.length := by
  obtain ⟨found, success, short⟩ := exists_untilQuote? sound.specifier sound.closing rest
  refine ⟨(found.1, dropSemicolon found.2), ?_, short⟩
  have word := afterWord?_eq_some_iff.mpr (origin.source_append rest)
  have margin : afterBlanks? (origin.margin ++ origin.opening :: (origin.specifier ++ origin.closing :: rest)) =
      some (origin.opening :: (origin.specifier ++ origin.closing :: rest)) :=
    afterBlanks?_eq_some_iff.mpr ⟨_, sound.margin, rfl, isSolid_of_isQuote sound.opening _⟩
  simp only [source?, Option.bind_eq_bind, word, margin, Option.bind_some, quoted?, sound.opening, if_true, success,
    Option.map_some]

theorem exists_of_origin? {text : List Char} {found : Found} (success : origin? text = some found) :
    ∃ (origin : Origin) (rest : List Char), origin.IsSound ∧ IsInnermost origin.specifier ∧
      text = origin.text ++ rest ∧ found = (origin.specifier, dropSemicolon rest) := by
  obtain ⟨atFrom, blanksHere, atSource⟩ := Option.bind_eq_some_iff.mp success
  obtain ⟨gap, blanks, rfl, -⟩ := afterBlanks?_eq_some_iff.mp blanksHere
  obtain ⟨origin, rest, sound, rfl, inner, rfl, rfl⟩ := exists_of_source? atSource gap blanks
  exact ⟨origin, rest, sound, inner, by rw [Origin.text, List.append_assoc], rfl⟩

/-- Where an origin stands, one is found, and its specifier is no longer. -/
theorem exists_origin? {origin : Origin} (sound : origin.IsSound) (rest : List Char) :
    ∃ found, origin? (origin.text ++ rest) = some found ∧ found.1.length ≤ origin.specifier.length := by
  have gap : afterBlanks? (origin.text ++ rest) = some (origin.source ++ rest) := by
    rw [Origin.text, List.append_assoc]
    exact afterBlanks?_eq_some_iff.mpr ⟨_, sound.gap, rfl, origin.isSolid_source rest⟩
  rw [origin?, gap]
  exact exists_source? sound rest

/-! ## Clauses -/

/-- The clause that is found has no line end, and no shorter one has an origin after it. -/
theorem exists_of_clause? {text : List Char} {found : Found} (success : clause? text = some found) :
    ∃ clause rest, text = clause ++ rest ∧ '\n' ∉ clause ∧ origin? rest = some found ∧
      ∀ other more, text = other ++ more → other.length < clause.length → origin? more = none := by
  induction text with
  | nil => cases success
  | cons c text ih =>
    rw [clause?, Option.or_eq_some_iff, Option.ite_none_left_eq_some] at success
    rcases success with here | ⟨notHere, differs, later⟩
    · exact ⟨[], _, rfl, by simp, here, fun _ _ _ shorter => absurd shorter (Nat.not_lt_zero _)⟩
    · obtain ⟨clause, rest, rfl, noLineEnd, atOrigin, shortest⟩ := ih later
      refine ⟨c :: clause, rest, rfl, by simp [Ne.symm differs, noLineEnd], atOrigin, ?_⟩
      intro other more same shorter
      cases other with
      | nil => rwa [← List.nil_append more, ← same]
      | cons d other =>
        obtain ⟨-, same⟩ := List.cons.inj same
        exact shortest other more same (Nat.lt_of_succ_lt_succ shorter)

theorem exists_clause? {clause rest : List Char} (noLineEnd : '\n' ∉ clause) {found : Found}
    (atOrigin : origin? rest = some found) : ∃ found, clause? (clause ++ rest) = some found := by
  induction clause with
  | nil =>
    cases rest with
    | nil => cases atOrigin
    | cons c rest => exact ⟨found, by rw [List.nil_append, clause?, atOrigin, Option.some_or]⟩
  | cons c clause ih =>
    rw [List.mem_cons, not_or] at noLineEnd
    obtain ⟨later, success⟩ := ih noLineEnd.2
    rw [List.cons_append, clause?, if_neg (Ne.symm noLineEnd.1), success]
    cases origin? (c :: (clause ++ rest)) <;> exact ⟨_, rfl⟩

/-! ## Readings -/

/-- A way to read a text from its start as an import statement. -/
structure Reading extends Origin where
  /-- The blanks after `import`. -/
  lead : List Char
  clause : List Char

namespace Reading

/-- The text of a reading. -/
def text (reading : Reading) : List Char :=
  ['i', 'm', 'p', 'o', 'r', 't'] ++ (reading.lead ++ (reading.clause ++ reading.toOrigin.text))

@[mk_iff]
structure IsSound (reading : Reading) : Prop extends reading.toOrigin.IsSound where
  lead : IsBlanks reading.lead
  clause : '\n' ∉ reading.clause

instance (reading : Reading) : Decidable reading.IsSound :=
  decidable_of_iff _ (isSound_iff reading).symm

/-- A reading is at least as good as another one: it has more blanks after `import`, or as many and a shorter
clause, or both alike and no longer specifier. -/
def IsAtLeast (reading other : Reading) : Prop :=
  other.lead.length < reading.lead.length ∨ other.lead.length = reading.lead.length ∧
    (reading.clause.length < other.clause.length ∨ reading.clause.length = other.clause.length ∧
      reading.specifier.length ≤ other.specifier.length)

/-- A reading of the start of a text that is at least as good as all others. -/
structure IsBest (reading : Reading) (text : List Char) : Prop where
  sound : reading.IsSound
  begins : reading.text <+: text
  best : ∀ other : Reading, other.IsSound → other.text <+: text → reading.IsAtLeast other

/-- A text has one best reading at most. -/
theorem IsBest.unique {text : List Char} {reading other : Reading} (best : reading.IsBest text)
    (otherBest : other.IsBest text) : reading = other := by
  have forth := best.best other otherBest.sound otherBest.begins
  have back := otherBest.best reading best.sound best.begins
  obtain ⟨rest, here⟩ := best.begins
  obtain ⟨more, there⟩ := otherBest.begins
  have lengths : reading.lead.length = other.lead.length ∧ reading.clause.length = other.clause.length ∧
      reading.specifier.length = other.specifier.length := by
    unfold IsAtLeast at forth back
    omega
  have same := here.trans there.symm
  obtain ⟨origin, lead, clause⟩ := reading
  obtain ⟨otherOrigin, otherLead, otherClause⟩ := other
  simp only [Reading.text, List.append_assoc] at same
  obtain ⟨rfl, afterLead⟩ := List.append_inj (List.append_cancel_left same) lengths.1
  obtain ⟨rfl, afterClause⟩ := List.append_inj afterLead lengths.2.1
  obtain ⟨rfl, -⟩ := Origin.unique best.sound.toIsSound otherBest.sound.toIsSound lengths.2.2 afterClause
  rfl

end Reading

/-- What follows `import` in some reading: after all blanks there stands the rest of a clause and its origin, or
right away what follows the gap, which then is the end of the blanks. -/
theorem Reading.IsSound.cases {reading : Reading} (sound : reading.IsSound) {lead body rest : List Char}
    (blank : ∀ c ∈ lead, isBlank c = true) (solid : IsSolid body)
    (same : lead ++ body = reading.lead ++ (reading.clause ++ (reading.toOrigin.text ++ rest))) :
    ∃ more, lead = reading.lead ++ more ∧
      ((∃ clause, reading.clause = more ++ clause ∧ body = clause ++ (reading.toOrigin.text ++ rest)) ∨
        more = reading.clause ++ reading.gap ∧ body = reading.toOrigin.source ++ rest) := by
  obtain ⟨more, rfl, afterLead⟩ := exists_more_blanks sound.lead.blank solid same
  refine ⟨more, rfl, ?_⟩
  rcases List.append_eq_append_iff.mp afterLead with ⟨within, rfl, inside⟩ | ⟨clause, longer, rfl⟩
  · -- The clause ends among the blanks, and the others are the gap.
    rw [Origin.text, List.append_assoc] at inside
    have innerBlank : ∀ c ∈ within, isBlank c = true := fun c member => blank c (by simp [member])
    obtain ⟨rfl, rfl⟩ := start_unique sound.gap.blank (Origin.isSolid_source _ _) innerBlank solid inside
    exact .inr ⟨rfl, rfl⟩
  · exact .inl ⟨clause, longer, rfl⟩

/-- After all blanks there is a clause, or else the word `from`, and then there are two blanks at least. -/
theorem afterImport?_eq {lead body : List Char} (blanks : IsBlanks lead) (solid : IsSolid body) :
    afterImport? (lead ++ body) = (clause? body).or (if lead.length = 1 then none else source? body) := by
  obtain ⟨nonempty, blank⟩ := blanks
  rcases lead with _ | ⟨b, _ | ⟨c, lead⟩⟩
  · exact absurd rfl nonempty
  · cases body with
    | nil => rfl
    | cons c text =>
      have first := blank b (by simp)
      have second := solid c rfl
      simp [afterImport?, first, second]
  · obtain ⟨first, others⟩ := List.forall_mem_cons.mp blank
    obtain ⟨second, others⟩ := List.forall_mem_cons.mp others
    simp [afterImport?, first, second, dropWhile_append_stop others solid]

theorem exists_blanks_of_afterImport? {text : List Char} {found : Found} (success : afterImport? text = some found) :
    ∃ lead body, IsBlanks lead ∧ IsSolid body ∧ text = lead ++ body := by
  refine ⟨text.takeWhile isBlank, text.dropWhile isBlank, ⟨?_, fun _ member => List.mem_takeWhile_imp member⟩,
    isSolid_dropWhile text, List.takeWhile_append_dropWhile.symm⟩
  unfold afterImport? at success
  split at success
  case h_1 b c text =>
    obtain ⟨blank, -⟩ := Option.ite_none_right_eq_some.mp success
    rw [List.takeWhile_cons_of_pos blank]
    exact List.cons_ne_nil _ _
  case h_2 => cases success

theorem Reading.exists_rest {reading : Reading} {after : List Char}
    (begins : reading.text <+: ['i', 'm', 'p', 'o', 'r', 't'] ++ after) :
    ∃ rest, after = reading.lead ++ (reading.clause ++ (reading.toOrigin.text ++ rest)) := by
  obtain ⟨rest, same⟩ := begins
  refine ⟨rest, (List.append_right_inj ['i', 'm', 'p', 'o', 'r', 't']).mp ?_⟩
  simp [← same, Reading.text]

/-- Where there is a reading, a statement is found. -/
theorem exists_statement? {text : List Char} {reading : Reading} (sound : reading.IsSound)
    (begins : reading.text <+: text) : ∃ found, statement? text = some found := by
  obtain ⟨after, rfl⟩ : ∃ after, text = ['i', 'm', 'p', 'o', 'r', 't'] ++ after :=
    ((List.prefix_append _ _).trans begins).imp fun _ => Eq.symm
  obtain ⟨rest, here⟩ := Reading.exists_rest begins
  have solid := isSolid_dropWhile after
  have blank : ∀ c ∈ after.takeWhile isBlank, isBlank c = true := fun _ member => List.mem_takeWhile_imp member
  obtain ⟨more, lead, inside⟩ := sound.cases blank solid (List.takeWhile_append_dropWhile.trans here)
  have blanks : IsBlanks (after.takeWhile isBlank) := ⟨by simp [lead, sound.lead.nonempty], blank⟩
  rw [statement?, afterWord?_eq_some_iff.mpr rfl, Option.bind_some, ← List.takeWhile_append_dropWhile (p := isBlank)
    (l := after), afterImport?_eq blanks solid]
  rcases inside with ⟨clause, parts, body⟩ | ⟨rfl, body⟩
  · obtain ⟨found, atOrigin, -⟩ := exists_origin? sound.toIsSound rest
    have noLineEnd : '\n' ∉ clause := fun member => sound.clause (parts ▸ List.mem_append_right _ member)
    obtain ⟨found, success⟩ := exists_clause? noLineEnd atOrigin
    exact ⟨found, by rw [body, success, Option.some_or]⟩
  · obtain ⟨found, atSource, -⟩ := exists_source? sound.toIsSound rest
    have first := List.length_pos_iff.mpr sound.lead.nonempty
    have last := List.length_pos_iff.mpr sound.gap.nonempty
    have several : (after.takeWhile isBlank).length ≠ 1 := by
      rw [lead, List.length_append, List.length_append]
      omega
    rw [if_neg several, body, atSource]
    cases clause? (reading.toOrigin.source ++ rest) <;> exact ⟨_, rfl⟩

section Best

variable {lead body : List Char} (blanks : IsBlanks lead) (solid : IsSolid body) {other : Reading}
  (otherSound : other.IsSound) {otherRest : List Char}
  (same : lead ++ body = other.lead ++ (other.clause ++ (other.toOrigin.text ++ otherRest)))

include blanks solid otherSound same

/-- The shortest clause after all blanks makes the best reading. -/
theorem isAtLeast_of_clause {clause rest : List Char} {origin : Origin} (parts : body = clause ++ (origin.text ++ rest))
    (atOrigin : origin? (origin.text ++ rest) = some (origin.specifier, dropSemicolon rest))
    (shortest : ∀ first more, body = first ++ more → first.length < clause.length → origin? more = none) :
    (Reading.mk origin lead clause).IsAtLeast other := by
  obtain ⟨more, rfl, inside⟩ := otherSound.cases blanks.blank solid same
  cases more with
  | cons c more => exact .inl (by simp)
  | nil =>
    refine .inr ⟨by simp, ?_⟩
    rcases inside with ⟨_, rfl, there⟩ | ⟨empty, -⟩
    · obtain ⟨found, success, short⟩ := exists_origin? otherSound.toIsSound otherRest
      have noShorter : ¬other.clause.length < clause.length := by
        intro shorter
        cases success.symm.trans (shortest _ _ there shorter)
      rcases Nat.eq_or_lt_of_not_lt noShorter with length | longer
      · obtain ⟨-, sameOrigin⟩ := List.append_inj (parts.symm.trans there) length.symm
        rw [← sameOrigin, atOrigin] at success
        cases success
        exact .inr ⟨length.symm, short⟩
      · exact .inl longer
    · exact absurd (List.append_eq_nil_iff.mp empty.symm).2 otherSound.gap.nonempty

/-- If no clause follows all blanks, the best reading has an empty clause and only the last of them as its gap. -/
theorem isAtLeast_of_source {first rest : List Char} {b : Char} {origin : Origin} (last : lead = first ++ [b])
    (noClause : clause? body = none) (atSource : source? body = some (origin.specifier, dropSemicolon rest)) :
    (Reading.mk origin first []).IsAtLeast other := by
  obtain ⟨more, longer, inside⟩ := otherSound.cases blanks.blank solid same
  rcases inside with ⟨clause, parts, there⟩ | ⟨rfl, there⟩
  · obtain ⟨found, atOrigin, -⟩ := exists_origin? otherSound.toIsSound otherRest
    have noLineEnd : '\n' ∉ clause := fun member => otherSound.clause (parts ▸ List.mem_append_right _ member)
    obtain ⟨found, success⟩ := exists_clause? noLineEnd atOrigin
    rw [← there, noClause] at success
    cases success
  · obtain ⟨found, success, short⟩ := exists_source? otherSound.toIsSound otherRest
    rw [← there, atSource] at success
    cases success
    have lengths := congrArg List.length (last.symm.trans longer)
    have gap := List.length_pos_iff.mpr otherSound.gap.nonempty
    simp only [List.length_append, List.length_singleton] at lengths
    by_cases fewer : other.lead.length < first.length
    · exact .inl fewer
    · refine .inr ⟨?_, .inr ⟨?_, short⟩⟩ <;> simp only [List.length_nil] <;> omega

end Best

/-- The statement that is found is that of the best reading, and its specifier ends at the first quote. -/
theorem exists_isBest_of_statement? {text : List Char} {found : Found} (success : statement? text = some found) :
    ∃ (reading : Reading) (rest : List Char), reading.IsBest text ∧ IsInnermost reading.specifier ∧
      text = reading.text ++ rest ∧ found = (reading.specifier, dropSemicolon rest) := by
  obtain ⟨after, word, atLead⟩ := Option.bind_eq_some_iff.mp success
  obtain rfl := afterWord?_eq_some_iff.mp word
  obtain ⟨lead, body, blanks, solid, rfl⟩ := exists_blanks_of_afterImport? atLead
  rw [afterImport?_eq blanks solid, Option.or_eq_some_iff, Option.ite_none_left_eq_some] at atLead
  rcases atLead with atClause | ⟨noClause, several, atSource⟩
  · obtain ⟨clause, rest, rfl, noLineEnd, atOrigin, shortest⟩ := exists_of_clause? atClause
    obtain ⟨origin, rest, sound, inner, rfl, rfl⟩ := exists_of_origin? atOrigin
    have parts : ['i', 'm', 'p', 'o', 'r', 't'] ++ (lead ++ (clause ++ (origin.text ++ rest))) =
        (Reading.mk origin lead clause).text ++ rest := by
      simp [Reading.text]
    refine ⟨⟨origin, lead, clause⟩, rest, ⟨⟨sound, blanks, noLineEnd⟩, ⟨rest, parts.symm⟩, ?_⟩, inner, parts, rfl⟩
    intro other otherSound begins
    obtain ⟨otherRest, same⟩ := Reading.exists_rest begins
    exact isAtLeast_of_clause blanks solid otherSound same rfl atOrigin shortest
  · obtain ⟨first, b, last⟩ := (List.eq_nil_or_concat lead).resolve_left blanks.nonempty
    rw [List.concat_eq_append] at last
    have gap : IsBlanks [b] := ⟨List.cons_ne_nil _ _, fun c member => blanks.blank c (by
      rw [last]
      exact List.mem_append_right _ member)⟩
    have before : IsBlanks first := by
      refine ⟨?_, fun c member => blanks.blank c (last ▸ List.mem_append_left _ member)⟩
      rintro rfl
      exact several (congrArg List.length last)
    obtain ⟨origin, rest, sound, atGap, inner, rfl, rfl⟩ := exists_of_source? atSource [b] gap
    have parts : ['i', 'm', 'p', 'o', 'r', 't'] ++ (lead ++ (origin.source ++ rest)) =
        (Reading.mk origin first []).text ++ rest := by
      simp [Reading.text, Origin.text, last, atGap]
    refine ⟨⟨origin, first, []⟩, rest, ⟨⟨sound, before, by simp⟩, ⟨rest, parts.symm⟩, ?_⟩, inner, parts, rfl⟩
    intro other otherSound begins
    obtain ⟨otherRest, same⟩ := Reading.exists_rest begins
    exact isAtLeast_of_source blanks solid otherSound same last noClause atSource

/-- A statement is found exactly where there is a best reading, and it is the one of that reading. -/
theorem statement?_eq_some_iff {text : List Char} {found : Found} : statement? text = some found ↔
    ∃ (reading : Reading) (rest : List Char), reading.IsBest text ∧ text = reading.text ++ rest ∧
      found = (reading.specifier, dropSemicolon rest) := by
  constructor
  · intro success
    obtain ⟨reading, rest, best, -, parts, same⟩ := exists_isBest_of_statement? success
    exact ⟨reading, rest, best, parts, same⟩
  · rintro ⟨reading, rest, best, rfl, rfl⟩
    obtain ⟨found, success⟩ := exists_statement? best.sound best.begins
    obtain ⟨other, otherRest, otherBest, -, parts, rfl⟩ := exists_isBest_of_statement? success
    obtain rfl := otherBest.unique best
    obtain rfl := List.append_cancel_left parts
    exact success

end ImportAtlas.Source
