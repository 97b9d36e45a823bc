import ArktsServer.Core.TokenGaps
import ArktsServer.Core.TokenWords

/-
  What the heritage parser makes of a layout: the words of
  the tokens, and of every gap whether it is trivia and
  whether it holds a line terminator.  Sources of the same
  layout have the same heritage up to its places.

  Key definitions include:
    * `gapView`, `SameLayout`
    * `DocumentClassHeritage.unplaced`

  Correctness is proven by:
    * `SameLayout.heritage`
-/

----------
-- Layouts
----------

namespace ArktsServer

/- What the heritage parser asks of a gap. -/
def gapView
    (unicode : Unicode)
    (gap : List Char) : Bool × Bool :=
  (isTrivia unicode gap, containsLineTerminator gap)

/- The same words and gaps that look the same. -/
structure SameLayout
    (unicode : Unicode)
    (source : List Char)
    (tokens : List Token)
    (other : List Char)
    (others : List Token) : Prop where
  words :
    others.map Token.unplaced = tokens.map Token.unplaced
  gaps :
    ∀ left,
      (gapAt other others left).map (gapView unicode) =
        (gapAt source tokens left).map (gapView unicode)

section Layout

variable {unicode : Unicode}
variable {source other : List Char}
variable {tokens others : List Token}

/- The same names stand at the same indices. -/
theorem SameLayout.identifier
    (hSame : SameLayout unicode source tokens other others)
    (index : Nat) :
    (identifierAt others index).map Token.unplaced =
      (identifierAt tokens index).map Token.unplaced := by
  rw [← identifierAt_unplaced, hSame.words, identifierAt_unplaced]

theorem SameLayout.token
    (hSame : SameLayout unicode source tokens other others)
    (index : Nat) :
    (others[index]?).map Token.unplaced =
      (tokens[index]?).map Token.unplaced := by
  rw [← List.getElem?_map, hSame.words, List.getElem?_map]

/- Tokens at a place are both there, with the same words. -/
theorem SameLayout.cases
    (hSame : SameLayout unicode source tokens other others)
    (index : Nat) :
    (tokens[index]? = none ∧ others[index]? = none) ∨
      ∃ token renamed,
        tokens[index]? = some token ∧
          others[index]? = some renamed ∧
          renamed.text = token.text ∧
          renamed.kind = token.kind := by
  have hToken := hSame.token index
  cases hFirst : tokens[index]? with
  | none =>
    rw [hFirst, Option.map_none, Option.map_eq_none_iff] at hToken
    exact Or.inl ⟨rfl, hToken⟩
  | some token =>
    rw [hFirst, Option.map_some, Option.map_eq_some_iff] at hToken
    rcases hToken with ⟨renamed, hSecond, hWord⟩
    have hText : renamed.unplaced.text = token.unplaced.text :=
      congrArg Token.text hWord
    have hKind : renamed.unplaced.kind = token.unplaced.kind :=
      congrArg Token.kind hWord
    exact Or.inr ⟨token, renamed, rfl, hSecond, hText, hKind⟩

/- A gap is judged by what the parser asks of it. -/
theorem gapIsTrivia_eq
    (left : Nat) :
    gapIsTrivia unicode source tokens left =
      ((gapAt source tokens left).map
        (gapView unicode)).any Prod.fst := by
  unfold gapIsTrivia gapAt
  cases tokens[left]? with
  | none => rfl
  | some first =>
    cases tokens[left + 1]? with
    | none => rfl
    | some second => rfl

theorem SameLayout.gapIsTrivia
    (hSame : SameLayout unicode source tokens other others)
    (left : Nat) :
    gapIsTrivia unicode other others left =
      ArktsServer.gapIsTrivia unicode source tokens left := by
  rw [gapIsTrivia_eq, gapIsTrivia_eq, hSame.gaps]

theorem SameLayout.gapsAreTrivia
    (hSame : SameLayout unicode source tokens other others)
    (start stop : Nat) :
    gapsAreTrivia unicode other others start stop =
      ArktsServer.gapsAreTrivia unicode source tokens
        start stop := by
  unfold ArktsServer.gapsAreTrivia
  exact
    congrArg (fun test => List.all _ test)
      (funext hSame.gapIsTrivia)

/- Gaps that look the same end their lines alike. -/
theorem SameLayout.lineTerminator
    (hSame : SameLayout unicode source tokens other others)
    {left : Nat}
    {first second third fourth : Token}
    (hFirst : tokens[left]? = some first)
    (hSecond : tokens[left + 1]? = some second)
    (hThird : others[left]? = some third)
    (hFourth : others[left + 1]? = some fourth) :
    containsLineTerminator
        (sliceBytes other third.stop fourth.start) =
      containsLineTerminator
        (sliceBytes source first.stop second.start) := by
  have hGap := hSame.gaps left
  unfold gapAt at hGap
  rw [hFirst, hSecond, hThird, hFourth] at hGap
  exact congrArg Prod.snd (Option.some.inj hGap)

theorem declarationStart_unplaced
    (tokens : List Token)
    (index : Nat) :
    declarationStart (tokens.map Token.unplaced) index =
      declarationStart tokens index := by
  induction index with
  | zero => rfl
  | succ index ih =>
    unfold declarationStart
    rw [identifierAt_unplaced, ih]
    cases identifierAt tokens index <;> rfl

/- A declaration starts at its first modifier. -/
theorem SameLayout.declarationStart
    (hSame : SameLayout unicode source tokens other others)
    (index : Nat) :
    declarationStart others index =
      ArktsServer.declarationStart tokens index := by
  rw [← declarationStart_unplaced, hSame.words,
    declarationStart_unplaced]

/- The split follows the token in front of the start. -/
theorem SameLayout.boundary
    (hSame : SameLayout unicode source tokens other others)
    (start : Nat) :
    isDeclarationBoundary other others start =
      isDeclarationBoundary source tokens start := by
  cases start with
  | zero => rfl
  | succ previous =>
    unfold isDeclarationBoundary
    rcases hSame.cases previous with
      ⟨hNone, hOther⟩ |
        ⟨first, third, hFirst, hThird, hText, hKind⟩
    · simp only [hNone, hOther]
    · rcases hSame.cases (previous + 1) with
        ⟨hNone, hOther⟩ | ⟨second, fourth, hSecond, hFourth, _, _⟩
      · simp only [hNone, hOther, hFirst, hThird]
      · have hIdentifier :
            isIdentifierToken third =
              isIdentifierToken first := by
          unfold isIdentifierToken
          rw [hKind]
        have hBreak :=
          hSame.lineTerminator hFirst hSecond hThird hFourth
        simp only [hFirst, hSecond, hThird, hFourth, hText,
          hKind, hIdentifier, hBreak]

----------
-- Headers
----------

/- A header whose tokens have lost their places. -/
def ClassHeader.unplaced (header : ClassHeader) : ClassHeader :=
  { header with
    name := header.name.unplaced
    base := header.base.map Token.unplaced }

/- Headers are the same up to the places of their tokens. -/
theorem SameLayout.classHeader
    (hSame : SameLayout unicode source tokens other others)
    (index : Nat) :
    (classHeader unicode other others index).map
        ClassHeader.unplaced =
      (ArktsServer.classHeader unicode source tokens
        index).map ClassHeader.unplaced := by
  -- behind its name and base, a header is checked alike
  have hOpener :
      ∀ header renamed : ClassHeader,
        renamed.unplaced = header.unplaced →
          ((others[renamed.body]?).bind fun opener =>
              if opener.kind = .punctuation ∧
                  opener.text = "\x7b" ∧
                  ArktsServer.gapsAreTrivia unicode other others
                    index renamed.body = true then
                some renamed
              else none).map ClassHeader.unplaced =
            ((tokens[header.body]?).bind fun opener =>
              if opener.kind = .punctuation ∧
                  opener.text = "\x7b" ∧
                  ArktsServer.gapsAreTrivia unicode source
                    tokens index header.body = true then
                some header
              else none).map ClassHeader.unplaced := by
    intro header renamed hHeader
    have hBody :
        renamed.unplaced.body = header.unplaced.body :=
      congrArg ClassHeader.body hHeader
    change renamed.body = header.body at hBody
    rw [hBody]
    rcases hSame.cases header.body with
      ⟨hNone, hOther⟩ | ⟨opener, _, hFirst, hSecond, hText, hKind⟩
    · rw [hNone, hOther]
      rfl
    · rw [hFirst, hSecond]
      simp only [Option.bind_some, hText, hKind,
        hSame.gapsAreTrivia]
      split
      · exact congrArg some hHeader
      · rfl
  have hName := hSame.identifier (index + 1)
  have hBase := hSame.identifier (index + 3)
  unfold ArktsServer.classHeader
  cases hFirst : identifierAt tokens (index + 1) with
  | none =>
    rw [hFirst, Option.map_none, Option.map_eq_none_iff] at hName
    rw [hName]
    rfl
  | some name =>
    rw [hFirst, Option.map_some, Option.map_eq_some_iff] at hName
    rcases hName with ⟨renamed, hSecond, hName⟩
    have hNameText :
        renamed.unplaced.text = name.unplaced.text :=
      congrArg Token.text hName
    change renamed.text = name.text at hNameText
    rw [hSecond]
    simp only [Option.bind_eq_bind, Option.bind_some, hNameText]
    by_cases hReserved :
        ["extends", "implements"].contains name.text = true
    · simp only [hReserved, ↓reduceIte]
    · simp only [hReserved, Bool.false_eq_true, ↓reduceIte]
      rcases hSame.cases (index + 2) with
        ⟨hNone, hOther⟩ |
          ⟨next, renext, hNext, hOther, hText, hKind⟩
      · rw [hNone, hOther]
        rfl
      · rw [hNext, hOther]
        simp only [Option.bind_some, hText]
        by_cases hExtends : next.text = "extends"
        · simp only [hExtends, ↓reduceIte]
          cases hLeft : identifierAt tokens (index + 3) with
          | none =>
            rw [hLeft, Option.map_none,
              Option.map_eq_none_iff] at hBase
            rw [hBase]
            rfl
          | some base =>
            rw [hLeft, Option.map_some,
              Option.map_eq_some_iff] at hBase
            rcases hBase with ⟨rebased, hRight, hBase⟩
            rw [hRight]
            simp only [Option.bind_some]
            refine
              hOpener
                ⟨name, some base, index + 4, some (index + 2)⟩
                ⟨renamed, some rebased, index + 4,
                  some (index + 2)⟩ ?_
            unfold ClassHeader.unplaced
            simp only [hName, hBase, Option.map_some]
        · have hHeader :
              (⟨renamed, none, index + 2, none⟩ :
                  ClassHeader).unplaced =
                (⟨name, none, index + 2, none⟩ :
                  ClassHeader).unplaced := by
            unfold ClassHeader.unplaced
            simp only [hName, Option.map_none]
          have hChecked := hOpener _ _ hHeader
          simp only [hExtends, ↓reduceIte]
          simp only [hNext, hOther, Option.bind_some, hText]
            at hChecked
          exact hChecked

----------
-- Classes
----------

/- The facts of a class without their ranges. -/
def ClassHeritageDeclaration.unplaced
    (item : ClassHeritageDeclaration) :
    ClassHeritageDeclaration :=
  { name := item.name
    nameRange := noRange
    declarationRange := noRange
    base :=
      item.base.map fun base => { base with range := noRange } }

def DocumentClassHeritage.unplaced
    (facts : DocumentClassHeritage) : DocumentClassHeritage :=
  { facts with
    classes :=
      facts.classes.map ClassHeritageDeclaration.unplaced }

def HeritageState.unplaced
    (state : HeritageState) : HeritageState :=
  { state with
    classes :=
      state.classes.map ClassHeritageDeclaration.unplaced }

theorem zipIdx_unplaced (tokens : List Token) :
    (tokens.map Token.unplaced).zipIdx =
      tokens.zipIdx.map fun entry =>
        (entry.1.unplaced, entry.2) :=
  List.zipIdx_map ..

/- Delimiters are matched by kind and text. -/
theorem delimiterStructure_unplaced (tokens : List Token) :
    delimiterStructure (tokens.map Token.unplaced) =
      delimiterStructure tokens := by
  unfold delimiterStructure
  rw [zipIdx_unplaced, List.foldlM_map]
  rfl

theorem SameLayout.delimiters
    (hSame : SameLayout unicode source tokens other others) :
    delimiterStructure others = delimiterStructure tokens := by
  rw [← delimiterStructure_unplaced, hSame.words,
    delimiterStructure_unplaced]

variable {lines otherLines : LineIndex}
variable {delimiters : DelimiterStructure}
variable {uri : String}

theorem HeritageState.unplaced_eq_iff
    {state changed : HeritageState} :
    changed.unplaced = state.unplaced ↔
      changed.classes.map ClassHeritageDeclaration.unplaced =
          state.classes.map
            ClassHeritageDeclaration.unplaced ∧
        changed.lexicallyComplete = state.lexicallyComplete ∧
        changed.classifiedExtends =
          state.classifiedExtends := by
  unfold HeritageState.unplaced
  exact HeritageState.mk.injEq .. ▸ Iff.rfl

/- The name of a base is kept when its range is blanked. -/
theorem namedBase_congr
    {base rebased : Option Token}
    (hBase :
      rebased.map Token.unplaced = base.map Token.unplaced)
    (lines otherLines : LineIndex) :
    rebased.map
        ((fun base : ClassHeritageBase =>
            { base with range := noRange })
          ∘ fun base : Token =>
            ⟨base.text,
              textRange otherLines base.start base.stop⟩) =
      base.map
        ((fun base : ClassHeritageBase =>
            { base with range := noRange })
          ∘ fun base : Token =>
            ⟨base.text,
              textRange lines base.start base.stop⟩) := by
  have hView :
      ∀ (lines : LineIndex) (token : Option Token),
        token.map
            ((fun base : ClassHeritageBase =>
                { base with range := noRange })
              ∘ fun base : Token =>
                ⟨base.text,
                  textRange lines base.start base.stop⟩) =
          (token.map Token.unplaced).map
            fun base => ⟨base.text, noRange⟩ := by
    intro lines token
    rw [Option.map_map]
    rfl
  rw [hView, hView, hBase]

/- One token at a time, the states stay in step. -/
theorem SameLayout.heritageStep
    (hSame : SameLayout unicode source tokens other others)
    {state changed : HeritageState}
    (hState : changed.unplaced = state.unplaced)
    (entry : Token × Nat) :
    (heritageStep unicode ⟨uri, other⟩ others delimiters
        otherLines changed entry).map HeritageState.unplaced =
      (ArktsServer.heritageStep unicode ⟨uri, source⟩ tokens
        delimiters lines state entry).map
          HeritageState.unplaced := by
  rcases entry with ⟨token, index⟩
  rcases HeritageState.unplaced_eq_iff.mp hState with
    ⟨hClasses, hComplete, hExtends⟩
  have hPartial :
      ({ changed with lexicallyComplete := false } :
          HeritageState).unplaced =
        ({ state with lexicallyComplete := false } :
          HeritageState).unplaced :=
    HeritageState.unplaced_eq_iff.mpr ⟨hClasses, rfl, hExtends⟩
  have hHeader := hSame.classHeader index
  unfold ArktsServer.heritageStep
  by_cases hOther :
      token.kind ≠ .identifier ∨ token.text ≠ "class"
  · simp only [hOther, ↓reduceIte]
    exact congrArg some hState
  · simp only [hOther, ↓reduceIte, hSame.declarationStart]
    cases hFirst :
        ArktsServer.classHeader unicode source tokens index with
    | none =>
      rw [hFirst, Option.map_none, Option.map_eq_none_iff]
        at hHeader
      simp only [hHeader]
      exact congrArg some hPartial
    | some header =>
      rw [hFirst, Option.map_some, Option.map_eq_some_iff]
        at hHeader
      rcases hHeader with ⟨renamed, hSecond, hHeader⟩
      have hName :
          renamed.unplaced.name.text =
            header.unplaced.name.text :=
        congrArg (fun header => header.name.text) hHeader
      have hBody :
          renamed.unplaced.body = header.unplaced.body :=
        congrArg ClassHeader.body hHeader
      have hHeritage :
          renamed.unplaced.heritage = header.unplaced.heritage :=
        congrArg ClassHeader.heritage hHeader
      have hBase :
          renamed.unplaced.base = header.unplaced.base :=
        congrArg ClassHeader.base hHeader
      change renamed.name.text = header.name.text at hName
      change renamed.body = header.body at hBody
      change renamed.heritage = header.heritage at hHeritage
      change
        renamed.base.map Token.unplaced =
          header.base.map Token.unplaced at hBase
      simp only [hSecond, hSame.gapsAreTrivia,
        hSame.boundary, hBody, hHeritage, hName]
      split
      · exact congrArg some hPartial
      · cases delimiters.closes.lookup header.body with
        | none => rfl
        | some stop =>
          rcases hSame.cases
              (ArktsServer.declarationStart tokens index)
            with ⟨hNone, hGone⟩ |
              ⟨first, third, hLeft, hRight, _, _⟩
          · simp only [hNone, hGone, Option.bind_eq_bind,
              Option.bind_some, Option.bind_none]
          · rcases hSame.cases stop with
              ⟨hNone, hGone⟩ |
                ⟨second, fourth, hLast, hFinal, _, _⟩
            · simp only [hLeft, hRight, hNone, hGone,
                Option.bind_eq_bind, Option.bind_some,
                Option.bind_none]
            · simp only [hLeft, hRight, hLast, hFinal,
                Option.bind_eq_bind, Option.bind_some,
                Option.map_some]
              refine
                congrArg some
                  (HeritageState.unplaced_eq_iff.mpr
                    ⟨?_, hComplete, by rw [hExtends]⟩)
              simp only [List.map_append, hClasses,
                List.map_cons, List.map_nil]
              refine congrArg (_ ++ [·]) ?_
              unfold ClassHeritageDeclaration.unplaced
              simp only [Option.map_map]
              refine congrArg
                (ClassHeritageDeclaration.mk _ _ _) ?_
              exact namedBase_congr hBase _ _

/- A step that reads the words runs over the words. -/
theorem foldlM_unplaced
    {σ : Type}
    {step : σ → Token × Nat → Option σ}
    (hStep :
      ∀ state entry,
        step state (entry.1.unplaced, entry.2) =
          step state entry)
    (tokens : List Token)
    (state : σ) :
    tokens.zipIdx.foldlM step state =
      (tokens.map Token.unplaced).zipIdx.foldlM step state := by
  rw [zipIdx_unplaced, List.foldlM_map]
  simp only [hStep]

/- The classes of a layout, up to their places. -/
theorem SameLayout.heritage
    (hSame : SameLayout unicode source tokens other others)
    (uncertain : Bool) :
    (parseScannedClassHeritage unicode ⟨uri, other⟩
        ⟨others, uncertain⟩ otherLines).map
          DocumentClassHeritage.unplaced =
      (parseScannedClassHeritage unicode ⟨uri, source⟩
        ⟨tokens, uncertain⟩ lines).map
          DocumentClassHeritage.unplaced := by
  unfold parseScannedClassHeritage
  simp only [hSame.delimiters]
  cases hDelimiters : delimiterStructure tokens with
  | none => rfl
  | some delimiters =>
    simp only [Option.bind_eq_bind, Option.bind_some]
    have hFold :
        (others.zipIdx.foldlM
            (ArktsServer.heritageStep unicode ⟨uri, other⟩
              others delimiters otherLines)
            ⟨[], !uncertain, []⟩).map HeritageState.unplaced =
          (tokens.zipIdx.foldlM
            (ArktsServer.heritageStep unicode ⟨uri, source⟩
              tokens delimiters lines)
            ⟨[], !uncertain, []⟩).map HeritageState.unplaced := by
      rw [foldlM_unplaced (fun _ _ => rfl),
        foldlM_unplaced (fun _ _ => rfl) tokens, hSame.words]
      exact
        foldlM_congr
          (fun _ _ entry hState =>
            hSame.heritageStep hState entry) _ rfl
    have hExtends :
        ∀ classified : List Nat,
          (others.zipIdx.any fun entry =>
              isIdentifierToken entry.1 &&
                entry.1.text == "extends" &&
                !classified.contains entry.2) =
            tokens.zipIdx.any fun entry =>
              isIdentifierToken entry.1 &&
                entry.1.text == "extends" &&
                !classified.contains entry.2 := by
      intro classified
      have hAny :
          ∀ tokens : List Token,
            (tokens.zipIdx.any fun entry =>
                isIdentifierToken entry.1 &&
                  entry.1.text == "extends" &&
                  !classified.contains entry.2) =
              (tokens.map
                Token.unplaced).zipIdx.any fun entry =>
                  isIdentifierToken entry.1 &&
                    entry.1.text == "extends" &&
                    !classified.contains entry.2 := by
        intro tokens
        rw [zipIdx_unplaced, List.any_map]
        rfl
      rw [hAny, hAny tokens, hSame.words]
    cases hFirst :
        tokens.zipIdx.foldlM
          (ArktsServer.heritageStep unicode ⟨uri, source⟩
            tokens delimiters lines)
          ⟨[], !uncertain, []⟩ with
    | none =>
      rw [hFirst, Option.map_none, Option.map_eq_none_iff]
        at hFold
      simp only [hFold, Option.bind_none]
    | some state =>
      rw [hFirst, Option.map_some, Option.map_eq_some_iff]
        at hFold
      rcases hFold with ⟨changed, hSecond, hState⟩
      rcases HeritageState.unplaced_eq_iff.mp hState with
        ⟨hClasses, hComplete, hClassified⟩
      simp only [hSecond, Option.bind_some,
        Option.map_some, hExtends, hComplete, hClassified,
        DocumentClassHeritage.unplaced, hClasses]

end Layout

end ArktsServer
