import ArktsServer.Core.TokenGaps

/-
  Where the scanner gives up: at a block comment, a string, a
  template or a regular expression that is opened and never
  closed.  What closes a literal is told by its grammar, not
  by the searches of the scanner.

  Key definitions include:
    * `Unicode.Standard`, `Reaches`
    * `Closes`, `RegexCloses`
    * `Unterminated`

  Correctness is proven by:
    * `quotedLength_isSome_iff`, `regexLength_isSome_iff`
    * `tokenize_eq_none_iff`
-/

----------
-- Literals
----------

namespace ArktsServer

open Scanning

/- What the scanner relies on in the Unicode tables. -/
structure Unicode.Standard (unicode : Unicode) : Prop where
  space : unicode.isWhitespace ' ' = true
  visible :
    ∀ char ∈ ['/', '\'', '"', '\x60'],
      unicode.isWhitespace char = false
  separators :
    ∀ char ∈ ['/', ' '], unicode.isAlphabetic char = false

theorem Unicode.ascii_standard : Unicode.ascii.Standard := by
  constructor
  · rfl
  · simp only [List.forall_mem_cons, List.not_mem_nil,
      false_imp_iff, implies_true, and_true]
    exact ⟨rfl, rfl, rfl, rfl⟩
  · simp only [List.forall_mem_cons, List.not_mem_nil,
      false_imp_iff, implies_true, and_true]
    exact ⟨rfl, rfl⟩

/-
  The scanner comes to the rest of a source at the end of a
  lexeme, or at the start.
-/
def Reaches
    (unicode : Unicode)
    (source rest : List Char) : Prop :=
  ∃ pieces regexAllowed,
    Scan (findLexeme unicode) true source pieces regexAllowed
      rest

/- A quote that no backslash escapes. -/
inductive Closes (quote : Char) : List Char → Prop
| quote (rest : List Char) : Closes quote (quote :: rest)
| escaped
    (char : Char)
    {rest : List Char} :
    Closes quote rest → Closes quote ('\\' :: char :: rest)
| plain
    {char : Char}
    {rest : List Char} :
    char ≠ '\\' →
      Closes quote rest → Closes quote (char :: rest)

/-
  A slash outside of a character class, on the same line and
  not escaped; the flag tells whether a class is open.
-/
inductive RegexCloses : Bool → List Char → Prop
| slash (rest : List Char) : RegexCloses false ('/' :: rest)
| escaped
    {inClass : Bool}
    {char : Char}
    {rest : List Char} :
    isLineTerminator char = false →
      RegexCloses inClass rest →
      RegexCloses inClass ('\\' :: char :: rest)
| opensClass
    (inClass : Bool)
    {rest : List Char} :
    RegexCloses true rest → RegexCloses inClass ('[' :: rest)
| shutsClass
    (inClass : Bool)
    {rest : List Char} :
    RegexCloses false rest → RegexCloses inClass (']' :: rest)
| plain
    {inClass : Bool}
    {char : Char}
    {rest : List Char} :
    isLineTerminator char = false →
      char ∉ ['\\', '[', ']'] →
      RegexCloses inClass rest →
      RegexCloses inClass (char :: rest)

/-
  What is opened at the start of a text and never closed: a
  comment may be closed behind its two first characters.
-/
inductive Unterminated : Bool → List Char → Prop
| comment
    (regexAllowed : Bool)
    {chars : List Char}
    (hOpen : ¬ ['*', '/'] <:+: chars) :
    Unterminated regexAllowed ('/' :: '*' :: chars)
| quoted
    (regexAllowed : Bool)
    {quote : Char}
    {chars : List Char}
    (hQuote : quote ∈ ['\'', '"', '\x60'])
    (hOpen : ¬ Closes quote chars) :
    Unterminated regexAllowed (quote :: chars)
| regex
    {chars : List Char}
    (hComment : chars.head? ≠ some '*')
    (hOpen : ¬ RegexCloses false chars) :
    Unterminated true ('/' :: chars)

----------
-- Searches
----------

section Searches

variable {chars : List Char}

theorem quotedLength_isSome_iff
    {quote : Char}
    (hQuote : quote ≠ '\\') :
    ((quotedLength quote false chars).isSome ↔
        Closes quote chars) ∧
      ((quotedLength quote true chars).isSome ↔
        ∃ char rest,
          chars = char :: rest ∧ Closes quote rest) := by
  induction chars with
  | nil =>
    refine ⟨iff_of_false Bool.false_ne_true nofun, ?_⟩
    refine iff_of_false Bool.false_ne_true ?_
    rintro ⟨_, _, hSame, _⟩
    cases hSame
  | cons first chars ih =>
    rcases ih with ⟨hPlain, hEscaped⟩
    constructor
    · rw [quotedLength]
      split
      · rename_i hBackslash
        subst hBackslash
        rw [Option.isSome_map, hEscaped]
        constructor
        · rintro ⟨char, rest, rfl, hRest⟩
          exact .escaped char hRest
        · intro hCloses
          cases hCloses with
          | quote => exact absurd rfl hQuote
          | escaped char hRest => exact ⟨char, _, rfl, hRest⟩
          | plain hNot => exact absurd rfl hNot
      · rename_i hBackslash
        split
        · rename_i hSame
          subst hSame
          exact iff_of_true rfl (.quote chars)
        · rename_i hOther
          rw [Option.isSome_map, hPlain]
          refine ⟨.plain hBackslash, ?_⟩
          intro hCloses
          cases hCloses with
          | quote => exact absurd rfl hOther
          | escaped => exact absurd rfl hBackslash
          | plain _ hRest => exact hRest
    · rw [quotedLength, Option.isSome_map, hPlain]
      constructor
      · exact fun hRest => ⟨first, chars, rfl, hRest⟩
      · rintro ⟨char, rest, hSame, hRest⟩
        cases hSame
        exact hRest

theorem regexLength_isSome_iff
    (unicode : Unicode)
    (inClass : Bool) :
    ((regexLength unicode false inClass chars).isSome ↔
        RegexCloses inClass chars) ∧
      ((regexLength unicode true inClass chars).isSome ↔
        ∃ char rest,
          chars = char :: rest ∧
            isLineTerminator char = false ∧
            RegexCloses inClass rest) := by
  induction chars generalizing inClass with
  | nil =>
    refine ⟨iff_of_false Bool.false_ne_true nofun, ?_⟩
    refine iff_of_false Bool.false_ne_true ?_
    rintro ⟨_, _, hSame, _⟩
    cases hSame
  | cons first chars ih =>
    by_cases hLine : isLineTerminator first = true
    · have hNever : ¬ RegexCloses inClass (first :: chars) := by
        intro hCloses
        cases hCloses with
        | plain hNot =>
          exact absurd hLine (hNot ▸ Bool.false_ne_true)
        | _ => exact absurd hLine (by decide)
      rw [regexLength, regexLength, if_pos hLine, if_pos hLine]
      refine ⟨iff_of_false Bool.false_ne_true hNever, ?_⟩
      refine iff_of_false Bool.false_ne_true ?_
      rintro ⟨char, rest, hSame, hNot, _⟩
      cases hSame
      exact absurd hLine (hNot ▸ Bool.false_ne_true)
    · have hVisible := Bool.not_eq_true _ ▸ hLine
      rw [regexLength, regexLength, if_neg hLine, if_neg hLine]
      constructor
      · rw [if_neg Bool.false_ne_true]
        split
        · rename_i hBackslash
          subst hBackslash
          rw [Option.isSome_map, (ih inClass).2]
          constructor
          · rintro ⟨char, rest, rfl, hNot, hRest⟩
            exact .escaped hNot hRest
          · intro hCloses
            cases hCloses with
            | escaped hNot hRest =>
              exact ⟨_, _, rfl, hNot, hRest⟩
            | plain _ hNot => exact absurd hNot (by decide)
        · rename_i hBackslash
          split
          · rename_i hOpen
            subst hOpen
            rw [Option.isSome_map, (ih true).1]
            refine ⟨.opensClass inClass, ?_⟩
            intro hCloses
            cases hCloses with
            | opensClass _ hRest => exact hRest
            | plain _ hNot => exact absurd hNot (by decide)
          · rename_i hOpen
            split
            · rename_i hShut
              subst hShut
              rw [Option.isSome_map, (ih false).1]
              refine ⟨.shutsClass inClass, ?_⟩
              intro hCloses
              cases hCloses with
              | shutsClass _ hRest => exact hRest
              | plain _ hNot => exact absurd hNot (by decide)
            · rename_i hShut
              split
              · rename_i hSlash
                rcases hSlash with ⟨rfl, rfl⟩
                exact iff_of_true rfl (.slash chars)
              · rename_i hSlash
                rw [Option.isSome_map, (ih inClass).1]
                constructor
                · exact
                    .plain hVisible (by
                      simp [hBackslash, hOpen, hShut])
                · intro hCloses
                  cases hCloses with
                  | slash => exact absurd ⟨rfl, rfl⟩ hSlash
                  | escaped => exact absurd rfl hBackslash
                  | opensClass => exact absurd rfl hOpen
                  | shutsClass => exact absurd rfl hShut
                  | plain _ _ hRest => exact hRest
      · rw [if_pos rfl, Option.isSome_map, (ih inClass).1]
        constructor
        · exact fun hRest =>
            ⟨first, chars, rfl, hVisible, hRest⟩
        · rintro ⟨char, rest, hSame, _, hRest⟩
          cases hSame
          exact hRest

end Searches

theorem findPattern_eq_none_iff
    {pattern chars : List Char} :
    findPattern pattern chars = none ↔
      ¬ pattern <:+: chars := by
  induction chars with
  | nil =>
    rw [findPattern, List.infix_nil]
    split
    · rename_i hEmpty
      exact iff_of_false (Option.some_ne_none _)
        (not_not_intro hEmpty)
    · rename_i hEmpty
      exact iff_of_true rfl hEmpty
  | cons char chars ih =>
    rw [findPattern, List.infix_cons_iff, not_or, ← ih]
    split
    · rename_i hPrefix
      refine iff_of_false (Option.some_ne_none _) ?_
      exact fun hBoth =>
        hBoth.1 (List.isPrefixOf_iff_prefix.mp hPrefix)
    · rename_i hPrefix
      rw [Option.map_eq_none_iff]
      refine ⟨fun hNone => ⟨?_, hNone⟩, And.right⟩
      exact fun hStarts =>
        hPrefix (List.isPrefixOf_iff_prefix.mpr hStarts)

/- A comment whose body begins with a slash is left out. -/
theorem findPattern_open_iff
    {chars : List Char}
    (hBody : chars.head? ≠ some '/') :
    findPattern ['*', '/'] ('/' :: '*' :: chars) = none ↔
      ¬ ['*', '/'] <:+: chars := by
  have hStar : ¬ ['*', '/'] <+: '*' :: chars := by
    rintro ⟨rest, hSame⟩
    injection hSame with _ hSame
    exact hBody (hSame ▸ rfl)
  have hSlash : ¬ ['*', '/'] <+: '/' :: '*' :: chars := by
    rintro ⟨rest, hSame⟩
    injection hSame with hChar
    exact absurd hChar (by decide)
  rw [findPattern_eq_none_iff, List.infix_cons_iff,
    List.infix_cons_iff]
  simp only [hSlash, hStar, false_or]

----------
-- Errors
----------

section Errors

variable {unicode : Unicode}
variable {regexAllowed : Bool}
variable {char : Char}
variable {chars : List Char}

theorem visibleLexeme_none
    (hComment : ['/', '*'].isPrefixOf (char :: chars) = false)
    (hNone :
      visibleLexeme unicode regexAllowed char chars = none) :
    Unterminated regexAllowed (char :: chars) := by
  unfold visibleLexeme at hNone
  simp only at hNone
  split at hNone
  · rename_i hQuote
    have hQuote := List.contains_iff_mem.mp hQuote
    have hEscape : char ≠ '\\' := by
      rintro rfl
      exact absurd hQuote (by decide)
    unfold quotedLexeme at hNone
    cases hLength : quotedLength char false chars with
    | none =>
      refine .quoted regexAllowed hQuote ?_
      rw [← (quotedLength_isSome_iff hEscape).1, hLength]
      exact Bool.false_ne_true
    | some length =>
      rw [hLength] at hNone
      cases hNone
  · split at hNone
    · cases hNone
    · split at hNone
      · cases hNone
      · split at hNone
        · rename_i hSlash
          rcases hSlash with ⟨rfl, rfl⟩
          cases hLength :
              regexLength unicode false false chars with
          | none =>
            refine .regex ?_ ?_
            · intro hStar
              cases chars with
              | nil => cases hStar
              | cons next chars =>
                injection hStar with hStar
                subst hStar
                cases hComment
            · rw [← (regexLength_isSome_iff unicode false).1,
                hLength]
              exact Bool.false_ne_true
          | some length =>
            rw [hLength] at hNone
            cases hNone
        · split at hNone
          · cases hNone
          · split at hNone <;> cases hNone

theorem nextLexeme_eq_none_iff
    (hStandard : unicode.Standard)
    (hBody : ¬ ['/', '*', '/'] <+: char :: chars) :
    nextLexeme unicode regexAllowed char chars = none ↔
      Unterminated regexAllowed (char :: chars) := by
  have hSlashless :
      ∀ rest, char = '/' → chars = '*' :: rest →
        rest.head? ≠ some '/' := by
    rintro rest rfl rfl hSlash
    cases rest with
    | nil => cases hSlash
    | cons next rest =>
      injection hSlash with hSlash
      subst hSlash
      exact hBody ⟨rest, rfl⟩
  constructor
  · intro hNone
    unfold nextLexeme at hNone
    simp only at hNone
    split at hNone
    · cases hNone
    · split at hNone
      · rename_i hComment
        cases hFind : findPattern ['*', '/'] (char :: chars) with
        | none =>
          rcases eq_of_pair hComment with ⟨rest, hRest⟩
          injection hRest with hChar hChars
          have hOpen := hSlashless rest hChar hChars
          subst hChar hChars
          exact
            .comment regexAllowed
              ((findPattern_open_iff hOpen).mp hFind)
        | some length =>
          rw [hFind] at hNone
          cases hNone
      · rename_i hComment
        split at hNone
        · cases hNone
        · exact
            visibleLexeme_none (Bool.not_eq_true _ ▸ hComment)
              hNone
  · intro hUnterminated
    cases hUnterminated with
    | comment _ hOpen =>
      have hFind :=
        (findPattern_open_iff (hSlashless _ rfl rfl)).mpr hOpen
      unfold nextLexeme
      simp only [hFind]
      rfl
    | quoted _ hQuote hOpen =>
      have hSpace : unicode.isWhitespace char = false :=
        hStandard.visible char (List.mem_cons_of_mem _ hQuote)
      have hApart : ('/' == char) = false ∧ char ≠ '\\' := by
        constructor
        · refine beq_eq_false_iff_ne.mpr ?_
          rintro rfl
          exact absurd hQuote (by decide)
        · rintro rfl
          exact absurd hQuote (by decide)
      rw [← (quotedLength_isSome_iff hApart.2).1,
        Bool.not_eq_true, Option.isSome_eq_false_iff,
        Option.isNone_iff_eq_none] at hOpen
      unfold nextLexeme visibleLexeme quotedLexeme
      simp only [List.isPrefixOf, hApart.1, Bool.false_and,
        Bool.false_eq_true, ↓reduceIte, hSpace,
        List.contains_iff_mem.mpr hQuote, hOpen,
        Option.bind_eq_bind, Option.bind_none]
    | regex hComment hOpen =>
      have hNext :
          ∀ next, chars.head? ≠ some next →
            ['/', next].isPrefixOf ('/' :: chars) = false := by
        intro next hOther
        cases chars with
        | nil => rfl
        | cons first chars =>
          have hFirst : next ≠ first := fun hSame =>
            hOther (congrArg some hSame.symm)
          simp only [List.isPrefixOf,
            beq_eq_false_iff_ne.mpr hFirst, Bool.false_and,
            Bool.and_false]
      have hLine : chars.head? ≠ some '/' := by
        intro hSlash
        cases chars with
        | nil => cases hSlash
        | cons first chars =>
          injection hSlash with hSlash
          subst hSlash
          exact hOpen (.slash chars)
      have hSpace : unicode.isWhitespace '/' = false :=
        hStandard.visible '/' (by decide)
      have hLetter : isIdentifierStart unicode '/' = false := by
        unfold isIdentifierStart
        rw [hStandard.separators '/' (by decide)]
        rfl
      have hQuote :
          ['\'', '"', '\x60'].contains '/' = false := by
        decide
      have hDigit : '/'.isDigit = false := by
        decide
      rw [← (regexLength_isSome_iff unicode false).1,
        Bool.not_eq_true, Option.isSome_eq_false_iff,
        Option.isNone_iff_eq_none] at hOpen
      unfold nextLexeme visibleLexeme
      simp only [hNext _ hLine, hNext _ hComment, hSpace,
        hQuote, hDigit, hLetter, Bool.false_eq_true,
        ↓reduceIte, and_self, hOpen, Option.bind_eq_bind,
        Option.bind_none]

/-
  The scanner fails exactly where it comes to a comment, a
  string, a template or a regular expression without an end,
  if it comes to no comment whose body begins with a slash.
-/
theorem tokenize_eq_none_iff
    (hStandard : unicode.Standard)
    {source : List Char}
    (hBodies :
      ∀ rest,
        Reaches unicode source rest →
          ¬ ['/', '*', '/'] <+: rest) :
    tokenizeWithStatus unicode source = none ↔
      ∃ pieces regexAllowed rest,
        Scan (findLexeme unicode) true source pieces
            regexAllowed rest ∧
          Unterminated regexAllowed rest := by
  rw [tokenizeWithStatus_eq, Option.map_eq_none_iff,
    scan_eq_none_iff findLexeme_advances (Nat.le_refl _)]
  constructor
  · rintro ⟨pieces, stopped, char, chars, hScan, hNone⟩
    refine ⟨pieces, stopped, _, hScan, ?_⟩
    exact
      (nextLexeme_eq_none_iff hStandard
        (hBodies _ ⟨pieces, stopped, hScan⟩)).mp
        (Option.map_eq_none_iff.mp hNone)
  · rintro ⟨pieces, stopped, rest, hScan, hUnterminated⟩
    cases rest with
    | nil => cases hUnterminated
    | cons char chars =>
      exact
        ⟨pieces, stopped, char, chars, hScan,
          Option.map_eq_none_iff.mpr
            ((nextLexeme_eq_none_iff hStandard
              (hBodies _ ⟨pieces, stopped, hScan⟩)).mpr
              hUnterminated)⟩

end Errors

end ArktsServer
