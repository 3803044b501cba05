import ImportAtlas.Proofs.Source.Statement

/-! # The search for statements

The statements of a text are found one after the other. From where the last one ended, the next one stands at the
first position at which there is any reading, and it is the best reading there; the search ends when no position
is left that has one. `Search` says this of the positions of a text, and `specifiers_are_found_by_search` that it
is what the specifiers of a text are. Since each of them ends at a quote and stays on its line, it holds neither.
-/

namespace ImportAtlas.Source

/-- A reading of a text at one of its positions. -/
def Reading.StandsAt (reading : Reading) (text : List Char) (position : Nat) : Prop :=
  reading.IsSound ∧ reading.text <+: text.drop position

/-- Whether there is no reading at a position. -/
def IsFreeAt (text : List Char) (position : Nat) : Prop :=
  ∀ reading : Reading, ¬reading.StandsAt text position

/-- Where the search goes on after a reading at a position: after its last quote, or after a semicolon that
follows it. -/
def Reading.stop (reading : Reading) (text : List Char) (position : Nat) : Nat :=
  let afterQuote := position + reading.text.length
  if text[afterQuote]? = some ';' then afterQuote + 1 else afterQuote

/-- What a search of a text finds from a position on. -/
inductive Search (text : List Char) : Nat → List (List Char) → Prop
  | done {start : Nat} (free : ∀ position ≥ start, IsFreeAt text position) : Search text start []
  | next {start position : Nat} {reading : Reading} {found : List (List Char)} (later : start ≤ position)
      (first : ∀ earlier, start ≤ earlier → earlier < position → IsFreeAt text earlier)
      (best : reading.IsBest (text.drop position)) (rest : Search text (reading.stop text position) found) :
      Search text start (reading.specifier :: found)

/-! ## Steps of the search -/

section Steps

variable {text rest specifier : List Char}

/-- Nothing is found exactly where there is no reading. -/
theorem isFreeAt_iff {position : Nat} : IsFreeAt text position ↔ statement? (text.drop position) = none := by
  constructor
  · intro free
    rw [Option.eq_none_iff_forall_ne_some]
    intro found success
    obtain ⟨reading, -, best, -⟩ := statement?_eq_some_iff.mp success
    exact free reading ⟨best.sound, best.begins⟩
  · rintro nothing reading ⟨sound, begins⟩
    obtain ⟨found, success⟩ := exists_statement? sound begins
    cases nothing.symm.trans success

theorem specifiers_of_statement? (success : statement? text = some (specifier, rest)) :
    specifiers text = specifier :: specifiers rest := by
  cases text with
  | nil => cases success
  | cons c text =>
    rw [specifiers]
    split
    case h_1 found =>
      cases success.symm.trans found
      rfl
    case h_2 nothing => cases success.symm.trans nothing

theorem specifiers_cons_of_none {c : Char} (nothing : statement? (c :: text) = none) :
    specifiers (c :: text) = specifiers text := by
  rw [specifiers]
  split
  case h_1 found => cases nothing.symm.trans found
  case h_2 => rfl

theorem isFreeAt_drop {start position : Nat} :
    IsFreeAt (text.drop start) position ↔ IsFreeAt text (start + position) := by
  rw [isFreeAt_iff, isFreeAt_iff, List.drop_drop]

/-- Nothing is found before the first reading. -/
theorem specifiers_drop {count : Nat} (free : ∀ position < count, IsFreeAt text position) :
    specifiers (text.drop count) = specifiers text := by
  induction count with
  | zero => rfl
  | succ count ih =>
    rw [← ih fun position before => free position (Nat.lt_succ_of_lt before)]
    cases here : text.drop count with
    | nil => rw [← List.drop_drop, here, List.drop_nil]
    | cons c after =>
      have nothing := isFreeAt_iff.mp (free count (Nat.lt_succ_self count))
      rw [here] at nothing
      rw [specifiers_cons_of_none nothing, ← List.drop_drop, here, List.drop_one, List.tail_cons]

theorem dropSemicolon_drop (text : List Char) (count : Nat) : dropSemicolon (text.drop count) =
    text.drop (if text[count]? = some ';' then count + 1 else count) := by
  rw [← List.head?_drop]
  cases here : text.drop count with
  | nil => rw [List.head?_nil, if_neg (by simp), here]; rfl
  | cons c rest =>
    rw [List.head?_cons]
    by_cases semicolon : c = ';'
    · rw [if_pos (congrArg some semicolon), ← List.drop_drop, here, semicolon]
      rfl
    · rw [if_neg (by simpa using semicolon), here, dropSemicolon]
      simpa using semicolon

/-- A best reading is found, and the search goes on where it stops. -/
theorem Reading.IsBest.statement?_drop {reading : Reading} {position : Nat}
    (best : reading.IsBest (text.drop position)) :
    statement? (text.drop position) = some (reading.specifier, text.drop (reading.stop text position)) := by
  obtain ⟨rest, parts⟩ := best.begins
  have after : rest = text.drop (position + reading.text.length) := by
    rw [← List.drop_drop, ← parts, List.drop_left]
  refine statement?_eq_some_iff.mpr ⟨reading, rest, best, parts.symm, ?_⟩
  rw [after, dropSemicolon_drop, Reading.stop]

end Steps

/-! ## The whole search -/

section Search

variable {text : List Char} {start : Nat} {found : List (List Char)}

/-- A search can begin earlier where there is nothing to be found. -/
theorem Search.of_succ (free : IsFreeAt text start) (search : Search text (start + 1) found) :
    Search text start found := by
  cases search with
  | done freeAfter =>
    apply Search.done
    intro position after
    rcases Nat.eq_or_lt_of_le after with rfl | later
    · exact free
    · exact freeAfter position later
  | next later first best rest =>
    refine Search.next (Nat.le_of_succ_le later) ?_ best rest
    intro earlier after before
    rcases Nat.eq_or_lt_of_le after with rfl | between
    · exact free
    · exact first earlier between before

/-- The specifiers after a position are what the search finds from there. -/
theorem search_specifiers (text : List Char) (start : Nat) : Search text start (specifiers (text.drop start)) := by
  generalize after : text.drop start = rest
  fun_induction specifiers rest generalizing start with
  | case1 =>
    apply Search.done
    intro position later
    have nothing : text.drop position = [] := by
      rw [List.drop_eq_nil_iff] at after ⊢
      exact Nat.le_trans after later
    rw [isFreeAt_iff, nothing]
    rfl
  | case2 c rest specifier remaining success ih =>
    rw [← after] at success
    obtain ⟨reading, -, best, -⟩ := statement?_eq_some_iff.mp success
    cases success.symm.trans best.statement?_drop
    exact Search.next (Nat.le_refl start) (fun _ after before => absurd after (Nat.not_le_of_lt before)) best
      (ih _ rfl)
  | case3 c rest nothing ih =>
    rw [← after] at nothing
    apply Search.of_succ (isFreeAt_iff.mpr nothing)
    apply ih
    rw [← List.drop_drop, after, List.drop_one, List.tail_cons]

theorem specifiers_of_search (search : Search text start found) : specifiers (text.drop start) = found := by
  induction search with
  | @done start free =>
    have all : ∀ position < (text.drop start).length, IsFreeAt (text.drop start) position := by
      intro position _
      exact isFreeAt_drop.mpr (free _ (Nat.le_add_right start position))
    rw [← specifiers_drop all, List.drop_length, specifiers]
  | @next start position reading found later first best rest ih =>
    have before : ∀ between < position - start, IsFreeAt (text.drop start) between := by
      intro between short
      exact isFreeAt_drop.mpr (first _ (Nat.le_add_right start between) (Nat.add_lt_of_lt_sub' short))
    rw [← specifiers_drop before, List.drop_drop, Nat.add_sub_cancel' later,
      specifiers_of_statement? best.statement?_drop, ih]

theorem isInnermost_of_mem_specifiers {specifier : List Char} (member : specifier ∈ specifiers text) :
    IsInnermost specifier := by
  fun_induction specifiers text with
  | case1 => cases member
  | case2 c rest first remaining success ih =>
    rcases List.mem_cons.mp member with rfl | later
    · obtain ⟨reading, _, -, inner, -, same⟩ := exists_isBest_of_statement? success
      cases same
      exact inner
    · exact ih later
  | case3 c rest nothing ih => exact ih member

end Search

/-- The specifiers of a text are what a search from its start finds, in that order. None of them has a quote or a
line end, and there are none exactly if the text has no reading at any of its positions. -/
theorem specifiers_are_found_by_search (text : List Char) :
    (∀ found, Search text 0 found ↔ found = specifiers text) ∧
    (∀ specifier ∈ specifiers text, ∀ c ∈ specifier, isQuote c = false ∧ c ≠ '\n') ∧
    (specifiers text = [] ↔ ∀ position, IsFreeAt text position) := by
  have search := search_specifiers text 0
  rw [List.drop_zero] at search
  refine ⟨?_, fun specifier => isInnermost_of_mem_specifiers, ?_⟩
  · intro found
    constructor
    · intro other
      exact (specifiers_of_search other).symm
    · rintro rfl
      exact search
  · constructor
    · intro nothing
      rw [nothing] at search
      cases search with
      | done free => exact fun position => free position (Nat.zero_le position)
    · intro free
      have all : Search text 0 [] := Search.done fun position _ => free position
      exact specifiers_of_search all

end ImportAtlas.Source
