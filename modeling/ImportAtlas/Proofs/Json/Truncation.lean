import ImportAtlas.Json.Reader

/-! # Truncated texts

A text that is one object denotes nothing without its end. Until the last brace, the reader is inside of
the object: some array or object is open, and only a closing token can close the last one. Once the reader
is done it takes no token at all, so had it been done earlier, the closing brace would not have been read.
-/

namespace ImportAtlas.Json

namespace Reader

variable {reader next : Reader} {token : Token}

/-- Something is open, and more has to come. -/
structure IsInside (reader : Reader) : Prop where
  opened : reader.opened ≠ []
  more : ∀ value, reader.expects ≠ .nothing value

/-- The text has denoted a value. -/
def IsDone (reader : Reader) : Prop :=
  ∃ value, reader.expects = .nothing value

/-- Whether a token closes an array or an object. -/
def IsClosing (token : Token) : Prop :=
  token = .closeBrace ∨ token = .closeBracket

theorem IsInside.not_isDone (inside : reader.IsInside) : ¬reader.IsDone := by
  rintro ⟨value, done⟩
  exact inside.more value done

theorem take_of_isDone (done : reader.IsDone) (token : Token) : reader.take token = none := by
  obtain ⟨value, expects⟩ := done
  simp only [take, expects]

/-- A value that is complete is a part of what is open, or what the text denotes. -/
theorem isInside_or_isDone_of_complete {value : Json} {outer : List Open}
    (completed : complete value outer = some next) : next.IsInside ∨ outer = [] ∧ next.IsDone := by
  cases outer with
  | nil =>
    cases completed
    exact .inr ⟨rfl, value, rfl⟩
  | cons innermost outer =>
    cases innermost with
    | array items =>
      cases completed
      exact .inl ⟨List.cons_ne_nil _ _, fun _ => Expects.noConfusion⟩
    | object members => cases completed
    | member members name =>
      cases completed
      exact .inl ⟨List.cons_ne_nil _ _, fun _ => Expects.noConfusion⟩

theorem isInside_or_isDone_of_closeArray {opened : List Open} (closed : closeArray opened = some next) :
    next.IsInside ∨ next.IsDone := by
  unfold closeArray at closed
  split at closed
  case h_1 items outer => exact (isInside_or_isDone_of_complete closed).imp_right And.right
  case h_2 => cases closed

theorem isInside_or_isDone_of_closeObject {opened : List Open} (closed : closeObject opened = some next) :
    next.IsInside ∨ next.IsDone := by
  unfold closeObject at closed
  split at closed
  case h_1 members outer => exact (isInside_or_isDone_of_complete closed).imp_right And.right
  case h_2 => cases closed

/-- A value that begins while something is open leaves it open. -/
theorem isInside_of_beginValue {opened : List Open} (nonempty : opened ≠ [])
    (begun : beginValue opened token = some next) : next.IsInside := by
  have completed {value : Json} (completed : complete value opened = some next) : next.IsInside :=
    (isInside_or_isDone_of_complete completed).resolve_right fun done => nonempty done.1
  unfold beginValue at begun
  split at begun
  case h_1 | h_2 =>
    cases begun
    exact ⟨List.cons_ne_nil _ _, fun _ => Expects.noConfusion⟩
  case h_3 => exact completed begun
  case h_4 =>
    split at begun
    · exact completed begun
    · cases begun
  case h_5 =>
    split at begun
    · exact completed begun
    split at begun
    · exact completed begun
    split at begun
    · exact completed begun
    · cases begun
  case h_6 => cases begun

theorem isInside_of_beginMember {opened : List Open} (begun : beginMember opened token = some next) :
    next.IsInside := by
  unfold beginMember at begun
  split at begun
  case h_1 =>
    cases begun
    exact ⟨List.cons_ne_nil _ _, fun _ => Expects.noConfusion⟩
  case h_2 => cases begun

/-- Only a closing token can end the text while something is open. -/
theorem isInside_or_of_take (inside : reader.IsInside) (taken : reader.take token = some next) :
    next.IsInside ∨ IsClosing token ∧ next.IsDone := by
  obtain ⟨opened, more⟩ := inside
  unfold take at taken
  split at taken
  case h_1 => exact .inl (isInside_of_beginValue opened taken)
  case h_2 =>
    split at taken
    case isTrue closing =>
      exact (isInside_or_isDone_of_closeArray taken).imp_right fun done => ⟨.inr closing, done⟩
    case isFalse => exact .inl (isInside_of_beginValue opened taken)
  case h_3 =>
    split at taken
    case isTrue closing =>
      exact (isInside_or_isDone_of_closeObject taken).imp_right fun done => ⟨.inl closing, done⟩
    case isFalse => exact .inl (isInside_of_beginMember taken)
  case h_4 => exact .inl (isInside_of_beginMember taken)
  case h_5 =>
    split at taken
    · cases taken
      exact .inl ⟨opened, fun _ => Expects.noConfusion⟩
    · cases taken
  case h_6 =>
    split at taken
    case h_1 | h_2 =>
      cases taken
      exact .inl ⟨opened, fun _ => Expects.noConfusion⟩
    case h_3 => exact (isInside_or_isDone_of_closeArray taken).imp_right fun done => ⟨.inr rfl, done⟩
    case h_4 => exact (isInside_or_isDone_of_closeObject taken).imp_right fun done => ⟨.inl rfl, done⟩
    case h_5 => cases taken
  case h_7 value expects => exact absurd expects (more value)

theorem takeAll_of_isDone (done : reader.IsDone) {tokens : List Token}
    (taken : reader.takeAll tokens = some next) : tokens = [] ∧ next = reader := by
  cases tokens with
  | nil =>
    cases taken
    exact ⟨rfl, rfl⟩
  | cons token tokens => simp [takeAll, take_of_isDone done] at taken

theorem isInside_or_isDone_of_takeAll (inside : reader.IsInside) {tokens : List Token}
    (taken : reader.takeAll tokens = some next) : next.IsInside ∨ next.IsDone := by
  induction tokens generalizing reader with
  | nil =>
    cases taken
    exact .inl inside
  | cons token tokens ih =>
    rw [takeAll, List.foldlM_cons, Option.bind_eq_bind, Option.bind_eq_some_iff] at taken
    obtain ⟨between, first, others⟩ := taken
    rcases isInside_or_of_take inside first with stillInside | ⟨-, done⟩
    · exact ih stillInside others
    · exact .inr ((takeAll_of_isDone done others).2 ▸ done)

end Reader

namespace Scan

variable {scan next : Scan} {text : List Char} {c : Char} {value : Json}

theorem step_eq_some_iff :
    scan.step c = some next ↔
      ∃ tokens, scan.1.step c = some (next.1, tokens) ∧ scan.2.takeAll tokens = some next.2 := by
  simp only [step, Option.bind_eq_bind, Option.bind_eq_some_iff, Option.pure_def, Option.some_inj,
    Prod.exists]
  constructor
  · rintro ⟨lexer, tokens, lexed, reader, taken, rfl⟩
    exact ⟨tokens, lexed, taken⟩
  · rintro ⟨tokens, lexed, taken⟩
    exact ⟨next.1, tokens, lexed, next.2, taken, rfl⟩

theorem run_cons_eq_some_iff :
    scan.run (c :: text) = some next ↔
      ∃ between, scan.step c = some between ∧ between.run text = some next := by
  rw [run, List.foldlM_cons, Option.bind_eq_bind, Option.bind_eq_some_iff]
  rfl

/-- A reader that is done goes through the rest of a text unchanged. -/
theorem reader_of_run (done : scan.2.IsDone) (ran : scan.run text = some next) : next.2 = scan.2 := by
  induction text generalizing scan with
  | nil =>
    cases ran
    rfl
  | cons c text ih =>
    obtain ⟨between, first, others⟩ := run_cons_eq_some_iff.mp ran
    obtain ⟨tokens, -, taken⟩ := step_eq_some_iff.mp first
    have same := (Reader.takeAll_of_isDone done taken).2
    rw [ih (same ▸ done) others, same]

theorem isInside_or_isDone_of_run (inside : scan.2.IsInside) (ran : scan.run text = some next) :
    next.2.IsInside ∨ next.2.IsDone := by
  induction text generalizing scan with
  | nil =>
    cases ran
    exact .inl inside
  | cons c text ih =>
    obtain ⟨between, first, others⟩ := run_cons_eq_some_iff.mp ran
    obtain ⟨tokens, -, taken⟩ := step_eq_some_iff.mp first
    rcases Reader.isInside_or_isDone_of_takeAll inside taken with stillInside | done
    · exact ih stillInside others
    · exact .inr (reader_of_run done others ▸ done)

/-- The end of a text completes no closing token, so a text that may end is one that was denoted before. -/
theorem isDone_of_finish? (known : scan.2.IsInside ∨ scan.2.IsDone) (finished : scan.finish? = some value) :
    scan.2.IsDone := by
  refine known.resolve_left fun inside => ?_
  simp only [finish?, Option.bind_eq_bind, Option.bind_eq_some_iff] at finished
  obtain ⟨tokens, ending, reader, taken, denoted⟩ := finished
  have done : reader.IsDone := by
    split at denoted
    case h_1 value expects => exact ⟨value, expects⟩
    case h_2 => cases denoted
  have stillInside : reader.IsInside := by
    have one {token : Token} (noClosing : ¬Reader.IsClosing token)
        (taken : scan.2.takeAll [token] = some reader) : reader.IsInside := by
      have first : scan.2.take token = some reader := by simpa [Reader.takeAll] using taken
      exact (Reader.isInside_or_of_take inside first).resolve_right fun closed => noClosing closed.1
    unfold Lexer.finish? at ending
    split at ending
    case h_1 =>
      cases ending
      cases taken
      exact inside
    case h_2 | h_3 =>
      cases ending
      exact one (by simp [Reader.IsClosing]) taken
    case h_4 => cases ending
  exact stillInside.not_isDone done

/-- After the text has denoted a value, a brace is refused, or it stands in a string that is not closed. -/
theorem finish?_step_closeBrace (done : scan.2.IsDone) : (scan.step '\x7d').bind finish? = none := by
  obtain ⟨lexer, reader⟩ := scan
  have refused (token : Token) (tokens : List Token) : reader.takeAll (token :: tokens) = none := by
    simp [Reader.takeAll, Reader.take_of_isDone done]
  have brace : Lexer.begin '\x7d' = some (.between, [.closeBrace]) := rfl
  cases lexer with
  | between => simp [step, Lexer.step, brace, refused]
  | word seen => simp [step, Lexer.step, brace, refused, isWordChar]
  | numeral seen => simp [step, Lexer.step, brace, refused, isNumeralChar]
  | string seen => simp [step, Lexer.step, Reader.takeAll, finish?, Lexer.finish?]
  | escape seen => simp [step, Lexer.step]
  | digits left seen =>
    have noDigit : Numeral.hexValue? '\x7d' = none := rfl
    simp [step, Lexer.step, noDigit]

theorem run_append (scan : Scan) (before after : List Char) :
    scan.run (before ++ after) = (scan.run before).bind fun next => next.run after :=
  List.foldlM_append

end Scan

/-- A text that is one object in braces denotes nothing without its end. -/
theorem parse?_eq_none_of_truncated {text chars : List Char} (denotes : (parse? text).isSome)
    (opens : text.head? = some '\x7b') (closes : text.getLast? = some '\x7d') (cut : chars <+: text)
    (proper : chars ≠ text) : parse? chars = none := by
  obtain ⟨rest, rfl⟩ := cut
  rcases List.eq_nil_or_concat rest with rfl | ⟨middle, last, rfl⟩
  · exact absurd (List.append_nil chars).symm proper
  obtain rfl : last = '\x7d' := by simpa [List.concat_eq_append] using closes
  cases chars with
  | nil => rfl
  | cons first chars =>
    obtain rfl : first = '\x7b' := by simpa using opens
    rw [Option.eq_none_iff_forall_ne_some]
    intro value denoted
    obtain ⟨scan, ran, finished⟩ := Option.bind_eq_some_iff.mp denoted
    -- The first brace brings the reader inside of the object, so it is done where the truncated text ends.
    obtain ⟨opened, first, others⟩ := Scan.run_cons_eq_some_iff.mp ran
    have inside : opened.2.IsInside := by
      cases first
      exact ⟨List.cons_ne_nil _ _, fun _ => Expects.noConfusion⟩
    have done : scan.2.IsDone :=
      Scan.isDone_of_finish? (Scan.isInside_or_isDone_of_run inside others) finished
    rw [parse?, Scan.run_append, ran, Option.bind_some, List.concat_eq_append, Scan.run_append] at denotes
    cases rest : scan.run middle with
    | none => simp [rest] at denotes
    | some next =>
      have stillDone : next.2.IsDone := Scan.reader_of_run done rest ▸ done
      have refused := Scan.finish?_step_closeBrace stillDone
      have one : next.run ['\x7d'] = next.step '\x7d' := by simp [Scan.run]
      rw [rest, Option.bind_some, one, refused] at denotes
      cases denotes

end ImportAtlas.Json
