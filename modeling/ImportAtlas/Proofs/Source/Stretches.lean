import ImportAtlas.Proofs.Source.Search
import ImportAtlas.Proofs.Text.Lossy

/-! # Statements among other bytes

A file whose statements are written plainly is a row of stretches, each of them up to a line end: a stretch is
one statement, whose blanks may hold line ends of their own, and bytes after it, or only bytes without a
statement. These other bytes need not be text. No stretch affects another one, so the specifiers of the file are
those of its statements.
-/

namespace ImportAtlas.Source

/-- A plain way to write a statement: the clause starts where the blanks end, and no quote stands in it. -/
@[mk_iff]
structure Reading.IsPlain (reading : Reading) : Prop where
  sound : reading.IsSound
  nonempty : reading.clause ≠ []
  solid : IsSolid reading.clause
  noQuote : ∀ c ∈ reading.clause, isQuote c = false
  inner : IsInnermost reading.specifier

instance (reading : Reading) : Decidable reading.IsPlain :=
  decidable_of_iff (reading.IsSound ∧ reading.clause ≠ [] ∧ IsSolid reading.clause ∧
    reading.clause.all (!isQuote ·) = true ∧ IsInnermost reading.specifier) (by simp [Reading.isPlain_iff])

/-- Bytes without the word that statements begin with. They can be one line or several. -/
def IsOther (bytes : Bytes) : Prop :=
  ¬Utf8.encode ['i', 'm', 'p', 'o', 'r', 't'] <:+: bytes

instance (bytes : Bytes) : Decidable (IsOther bytes) :=
  inferInstanceAs (Decidable (¬Utf8.encode ['i', 'm', 'p', 'o', 'r', 't'] <:+: bytes))

/-- A part of a file that ends with a line end. -/
inductive Stretch where
  | other (bytes : Bytes)
  | statement (reading : Reading) (semicolon : Bool) (tail : Bytes)

namespace Stretch

def IsSound : Stretch → Prop
  | other bytes => IsOther bytes
  | statement reading _ tail => reading.IsPlain ∧ IsOther tail

instance : DecidablePred IsSound
  | other bytes => inferInstanceAs (Decidable (IsOther bytes))
  | statement reading _ tail => inferInstanceAs (Decidable (reading.IsPlain ∧ IsOther tail))

/-- The bytes of a stretch. -/
def bytes : Stretch → Bytes
  | other bytes => bytes ++ [0x0A]
  | statement reading semicolon tail =>
    Utf8.encode (reading.text ++ if semicolon then [';'] else []) ++ (tail ++ [0x0A])

/-- The specifier of a stretch, if it is a statement. -/
def specifier? : Stretch → Option (List Char)
  | other _ => none
  | statement reading _ _ => some reading.specifier

end Stretch

/-! ## Plain statements -/

/-- The first quote in a text parts it in one way. -/
theorem firstQuote_unique {first other rest more : List Char} {quote otherQuote : Char}
    (noQuote : ∀ c ∈ first, isQuote c = false) (isQuoted : isQuote quote = true)
    (otherNoQuote : ∀ c ∈ other, isQuote c = false) (otherQuoted : isQuote otherQuote = true)
    (same : first ++ quote :: rest = other ++ otherQuote :: more) :
    first = other ∧ quote = otherQuote ∧ rest = more := by
  have stops {c : Char} (quoted : isQuote c = true) (text : List Char) :
      ∀ d ∈ (c :: text).head?, (fun c => !isQuote c) d = false := by
    rintro d ⟨⟩
    simp [quoted]
  obtain ⟨sameFirst, quotes⟩ := start_unique (p := fun c => !isQuote c) (by simpa using noQuote)
    (stops isQuoted rest) (by simpa using otherNoQuote) (stops otherQuoted more) same
  exact ⟨sameFirst, List.cons.inj quotes⟩

namespace Reading

/-- What stands before the specifier and its quotes. -/
def beforeQuote (reading : Reading) : List Char :=
  ['i', 'm', 'p', 'o', 'r', 't'] ++ (reading.lead ++ (reading.clause ++ (reading.gap ++
    (['f', 'r', 'o', 'm'] ++ reading.margin))))

theorem text_append (reading : Reading) (rest : List Char) : reading.text ++ rest =
    reading.beforeQuote ++ reading.opening :: (reading.specifier ++ reading.closing :: rest) := by
  simp [text, beforeQuote, Origin.text, Origin.source]

theorem isQuote_of_mem_blanks {blanks : List Char} (isBlanks : IsBlanks blanks) {c : Char} (member : c ∈ blanks) :
    isQuote c = false := by
  by_contra quote
  cases (isBlanks.blank c member).symm.trans (isBlank_of_isQuote (eq_true_of_ne_false quote))

theorem IsSound.noQuote_beforeQuote {reading : Reading} (sound : reading.IsSound)
    (noQuote : ∀ c ∈ reading.clause, isQuote c = false) : ∀ c ∈ reading.beforeQuote, isQuote c = false := by
  simp only [beforeQuote, List.forall_mem_append]
  refine ⟨by simp [isQuote], fun c => isQuote_of_mem_blanks sound.lead, noQuote,
    fun c => isQuote_of_mem_blanks sound.gap, by simp [isQuote], fun c => isQuote_of_mem_blanks sound.margin⟩

/-- No reading has more blanks than a plain one, so that the others have the same start up to the quote. -/
theorem IsPlain.noQuote_of_isAtLeast {reading other : Reading} (plain : reading.IsPlain)
    (better : other.IsAtLeast reading) (otherSound : other.IsSound) {rest otherRest : List Char}
    (same : reading.text ++ rest = other.text ++ otherRest) : ∀ c ∈ other.clause, isQuote c = false := by
  simp only [text, List.append_assoc] at same
  have afterWord := List.append_cancel_left same
  have solid : IsSolid (reading.clause ++ (reading.toOrigin.text ++ rest)) := by
    intro c first
    rw [List.head?_append_of_ne_nil _ plain.nonempty] at first
    exact plain.solid c first
  obtain ⟨more, longer, -⟩ := exists_more_blanks otherSound.lead.blank solid afterWord
  have leads := congrArg List.length longer
  rw [List.length_append] at leads
  have shorter : other.clause.length ≤ reading.clause.length := by
    unfold IsAtLeast at better
    omega
  have noMore : reading.lead.length = other.lead.length := by
    unfold IsAtLeast at better
    omega
  obtain ⟨-, afterLead⟩ := List.append_inj afterWord noMore
  have start : other.clause <+: reading.clause :=
    List.prefix_of_prefix_length_le (afterLead ▸ List.prefix_append other.clause _)
      (List.prefix_append reading.clause (reading.toOrigin.text ++ rest)) shorter
  exact fun c member => plain.noQuote c (start.subset member)

/-- A statement that is written plainly is found as it is written. -/
theorem IsPlain.statement?_append {reading : Reading} (plain : reading.IsPlain) (rest : List Char) :
    statement? (reading.text ++ rest) = some (reading.specifier, dropSemicolon rest) := by
  obtain ⟨found, success⟩ := exists_statement? plain.sound (List.prefix_append reading.text rest)
  obtain ⟨other, otherRest, best, inner, parts, rfl⟩ := exists_isBest_of_statement? success
  have better := best.best reading plain.sound (List.prefix_append reading.text rest)
  have otherNoQuote := plain.noQuote_of_isAtLeast better best.sound parts
  rw [text_append, text_append] at parts
  obtain ⟨-, -, inside⟩ := firstQuote_unique (plain.sound.noQuote_beforeQuote plain.noQuote) plain.sound.opening
    (best.sound.noQuote_beforeQuote otherNoQuote) best.sound.opening parts
  obtain ⟨specifier, -, after⟩ := firstQuote_unique (fun c member => (plain.inner c member).1) plain.sound.closing
    (fun c member => (inner c member).1) best.sound.closing inside
  rw [success, specifier, after]

end Reading

/-! ## Text without a statement -/

/-- Text without the word that statements begin with holds none, and none that begins on its last line. -/
theorem specifiers_append_lineEnd {line : List Char} (noWord : ¬['i', 'm', 'p', 'o', 'r', 't'] <:+: line)
    (rest : List Char) : specifiers (line ++ '\n' :: rest) = specifiers rest := by
  have free : ∀ position < (line ++ ['\n']).length, IsFreeAt (line ++ '\n' :: rest) position := by
    rintro position before reading ⟨sound, begins⟩
    rw [List.length_append, List.length_singleton, Nat.lt_succ_iff] at before
    rw [List.drop_append_of_le_length before] at begins
    have word : ['i', 'm', 'p', 'o', 'r', 't'] <+: line.drop position ++ '\n' :: rest :=
      (List.prefix_append _ _).trans begins
    rcases List.prefix_or_prefix_of_prefix word (List.prefix_append _ _) with inLine | longer
    · exact noWord (inLine.isInfix.trans (List.drop_suffix position line).isInfix)
    · obtain ⟨_ | ⟨c, more⟩, parts⟩ := longer
      · rw [List.append_nil] at parts
        exact noWord (parts ▸ (List.drop_suffix position line).isInfix)
      · rw [← parts, List.prefix_append_right_inj] at word
        obtain ⟨rfl, -⟩ := List.cons_prefix_cons.mp word
        have member : '\n' ∈ line.drop position ++ '\n' :: more := by simp
        rw [parts] at member
        exact absurd member (by decide)
  have skipped := specifiers_drop free
  rw [List.append_cons line '\n' rest, List.drop_left] at skipped
  rw [List.append_cons line '\n' rest, ← skipped]

/-- A semicolon at the start of such a text changes nothing. -/
theorem specifiers_dropSemicolon {line : List Char} (noWord : ¬['i', 'm', 'p', 'o', 'r', 't'] <:+: line)
    (rest : List Char) : specifiers (dropSemicolon (line ++ '\n' :: rest)) = specifiers rest := by
  cases line with
  | nil => exact specifiers_append_lineEnd noWord rest
  | cons c line =>
    by_cases semicolon : c = ';'
    · subst semicolon
      exact specifiers_append_lineEnd (fun inside => noWord (List.infix_cons inside)) rest
    · have same : dropSemicolon (c :: line ++ '\n' :: rest) = c :: line ++ '\n' :: rest := by
        rw [List.cons_append, dropSemicolon]
        simpa using semicolon
      rw [same]
      exact specifiers_append_lineEnd noWord rest

theorem IsOther.noWord_decodeLossy {bytes : Bytes} (isOther : IsOther bytes) :
    ¬['i', 'm', 'p', 'o', 'r', 't'] <:+: Utf8.decodeLossy bytes := by
  intro inside
  exact isOther (Utf8.encode_isInfix_of_decodeLossy (by simp [Utf8.IsOneByte]) inside)

/-! ## The whole file -/

/-- What a stretch is read as contributes its specifier, and what follows it is read on its own. -/
theorem Stretch.IsSound.specifiers_append {stretch : Stretch} (sound : stretch.IsSound) (rest : Bytes) :
    specifiers (Utf8.decodeLossy (stretch.bytes ++ rest)) =
      stretch.specifier?.toList ++ specifiers (Utf8.decodeLossy rest) := by
  cases stretch with
  | other bytes =>
    rw [Stretch.bytes, List.append_assoc, List.singleton_append, Utf8.decodeLossy_append_lineEnd]
    exact specifiers_append_lineEnd sound.noWord_decodeLossy _
  | statement reading semicolon tail =>
    obtain ⟨plain, isOther⟩ := sound
    have after := plain.statement?_append ((if semicolon then [';'] else []) ++
      (Utf8.decodeLossy tail ++ '\n' :: Utf8.decodeLossy rest))
    rw [← List.append_assoc] at after
    rw [Stretch.bytes, List.append_assoc, List.append_assoc, List.singleton_append, Utf8.decodeLossy_encode_append,
      Utf8.decodeLossy_append_lineEnd, specifiers_of_statement? after]
    apply congrArg (reading.specifier :: ·)
    cases semicolon with
    | false => exact specifiers_dropSemicolon isOther.noWord_decodeLossy _
    | true => exact specifiers_append_lineEnd isOther.noWord_decodeLossy _

/-- The specifiers of a file that is a row of stretches are those of its statements, in order, repetitions
included. -/
theorem specifiers_of_stretches (stretches : List Stretch) (sound : ∀ stretch ∈ stretches, stretch.IsSound) :
    specifiers (Utf8.decodeLossy (stretches.flatMap Stretch.bytes)) = stretches.filterMap Stretch.specifier? := by
  induction stretches with
  | nil => exact specifiers.eq_1
  | cons stretch stretches ih =>
    obtain ⟨here, later⟩ := List.forall_mem_cons.mp sound
    rw [List.flatMap_cons, here.specifiers_append, ih later, List.filterMap_cons]
    cases stretch <;> rfl

/-- A statement with a clause that holds the words around it and with a line end among its blanks, after a byte
that is no text and before a cut character, and then the same specifier again. -/
theorem specifiers_of_two_statements :
    let first : Reading :=
      ⟨⟨[' '], ['\t'], '\'', ['.', '/', 'a'], '"'⟩, ['\n', ' '],
        ['i', 'm', 'p', 'o', 'r', 't', ' ', 'f', 'r', 'o', 'm', ' ', 'x']⟩
    let second : Reading := ⟨⟨[' '], [' '], '"', ['.', '/', 'a'], '"'⟩, [' '], ['b']⟩
    let stretches : List Stretch := [.other [0xFF], .statement first true [0xE2, 0x82], .statement second false []]
    (∀ stretch ∈ stretches, stretch.IsSound) ∧
      specifiers (Utf8.decodeLossy (stretches.flatMap Stretch.bytes)) = [['.', '/', 'a'], ['.', '/', 'a']] := by
  intro first second stretches
  have sound : ∀ stretch ∈ stretches, stretch.IsSound := by decide
  exact ⟨sound, specifiers_of_stretches stretches sound⟩

end ImportAtlas.Source
