import ArktsServer.Core.BindingSources

/-
  The scanner of the index.  It skips comments, whitespace,
  numbers, templates and regular expressions and returns
  identifiers, punctuation and the contents of quoted
  strings, with byte offsets into the source.

  The character classes of the standard library are a
  parameter: nothing here depends on the Unicode tables.

  Key definitions include:
    * `Unicode`
    * `Token`, `Tokenization`
    * `nextLexeme`
    * `tokenizeWithStatus`
    * `LineIndex`
-/

----------
-- Characters
----------

namespace ArktsServer

/- The Unicode functions of the standard library. -/
structure Unicode where
  isWhitespace : Char → Bool
  isAlphabetic : Char → Bool
  isUppercase : Char → Bool
  toLowercase : String → String

namespace Unicode

/- The restriction of the Unicode functions to ASCII. -/
def ascii : Unicode where
  isWhitespace char :=
    [' ', '\t', '\n', '\r', '\x0b', '\x0c'].contains char
  isAlphabetic := Char.isAlpha
  isUppercase := Char.isUpper
  toLowercase text :=
    String.ofList (text.toList.map Char.toLower)

end Unicode

/- The number of UTF-8 bytes of a character list. -/
def byteLengthOf (chars : List Char) : Nat :=
  chars.foldr (fun char total => char.utf8Size + total) 0

/- The index of the first occurrence of a pattern. -/
def findPattern
    (pattern : List Char) :
    List Char → Option Nat
| [] => if pattern = [] then some 0 else none
| head :: tail =>
    if pattern.isPrefixOf (head :: tail) then
      some 0
    else
      (findPattern pattern tail).map (· + 1)

/- Drop whole characters until the given byte offset. -/
def dropBytes : Nat → List Char → List Char
| 0, chars => chars
| _ + 1, [] => []
| offset + 1, char :: chars =>
    dropBytes (offset + 1 - char.utf8Size) chars
termination_by structural _ chars => chars

/- Take whole characters up to the given byte offset. -/
def takeBytes : Nat → List Char → List Char
| 0, _ => []
| _ + 1, [] => []
| offset + 1, char :: chars =>
    char :: takeBytes (offset + 1 - char.utf8Size) chars
termination_by structural _ chars => chars

/- `&source[start..stop]`. -/
def sliceBytes
    (source : List Char)
    (start stop : Nat) : List Char :=
  takeBytes (stop - start) (dropBytes start source)

----------
-- Tokens
----------

inductive TokenKind where
| identifier
| punctuation
| stringLiteral
deriving DecidableEq

structure Token where
  text : String
  kind : TokenKind
  start : Nat
  stop : Nat
deriving DecidableEq

structure Tokenization where
  tokens : List Token
  uncertain : Bool
deriving DecidableEq

section Scanner

variable (unicode : Unicode)

def isIdentifierStart (char : Char) : Bool :=
  char == '_' || char == '$' || unicode.isAlphabetic char

def isIdentifierContinue (char : Char) : Bool :=
  isIdentifierStart unicode char || char.isDigit

/- The characters of a number, including its suffix. -/
def numberLength (chars : List Char) : Nat :=
  (chars.takeWhile fun char =>
    char.isAlphanum || char == '.' || char == '_').length

/-
  The characters of a quoted string after its opening quote,
  the closing quote included.
-/
def quotedLength
    (quote : Char) :
    Bool → List Char → Option Nat
| _, [] => none
| true, _ :: chars =>
    (quotedLength quote false chars).map (· + 1)
| false, char :: chars =>
    if char = '\\' then
      (quotedLength quote true chars).map (· + 1)
    else if char = quote then
      some 1
    else
      (quotedLength quote false chars).map (· + 1)

def isLineTerminator (char : Char) : Bool :=
  ['\n', '\r', '\u2028', '\u2029'].contains char

/-
  The characters of a regular expression after its opening
  slash, the flags included.
-/
def regexLength :
    Bool → Bool → List Char → Option Nat
| _, _, [] => none
| escaped, inCharacterClass, char :: chars =>
    if isLineTerminator char then
      none
    else if escaped then
      (regexLength false inCharacterClass chars).map (· + 1)
    else if char = '\\' then
      (regexLength true inCharacterClass chars).map (· + 1)
    else if char = '[' then
      (regexLength false true chars).map (· + 1)
    else if char = ']' then
      (regexLength false false chars).map (· + 1)
    else if char = '/' ∧ inCharacterClass = false then
      some
        ((chars.takeWhile
          (isIdentifierContinue unicode)).length + 1)
    else
      (regexLength false inCharacterClass chars).map (· + 1)

def identifierAllowsRegexAfter (identifier : String) : Bool :=
  ["await", "case", "delete", "do", "else", "extends", "in",
    "instanceof", "new", "of", "return", "throw", "typeof",
    "void", "yield"].contains identifier

def punctuationAllowsRegexAfter
    (punctuation : Char)
    (previouslyAllowed : Bool)
    (sourceFromPunctuation : List Char) : Bool :=
  if [')', ']', '}', '.', '<', '>'].contains punctuation then
    false
  else if punctuation = '!' ∧
      ¬ ['!', '='].isPrefixOf sourceFromPunctuation then
    previouslyAllowed
  else if punctuation = '?' ∧
      ['?', '.'].isPrefixOf sourceFromPunctuation then
    false
  else
    true

/-
  Whether a line comment hides code behind a line terminator
  that the scanner does not honour.
-/
def commentIsUncertain : List Char → Bool
| [] => false
| char :: chars =>
    if char = '\n' then
      false
    else
      char == '\u2028' || char == '\u2029' ||
        (char == '\r' && !(chars.head? == some '\n')) ||
        commentIsUncertain chars

/- What the scanner finds at one place of the source. -/
structure Lexeme where
  width : Nat
  token : Option (TokenKind × Nat × Nat)
  regexAllowed : Bool
  uncertain : Bool

/- A quoted string or a template, without its quotes. -/
def quotedLexeme
    (uncertain : Bool)
    (quote : Char)
    (chars : List Char) : Option Lexeme := do
  let length ← quotedLength quote false chars
  some
    { width := length + 1
      token :=
        if quote = '\x60' then
          none
        else
          some (.stringLiteral, 1, length)
      regexAllowed := false
      uncertain := uncertain }

/- One visible character that opens no comment. -/
def visibleLexeme
    (regexAllowed : Bool)
    (char : Char)
    (chars : List Char) : Option Lexeme :=
  let rest := char :: chars
  let uncertain := ['\x60', '/', '\\', '@'].contains char
  if ['\'', '"', '\x60'].contains char then
    quotedLexeme uncertain char chars
  else if char.isDigit then
    some ⟨numberLength rest, none, false, uncertain⟩
  else if isIdentifierStart unicode char then
    let length :=
      1 + (chars.takeWhile
        (isIdentifierContinue unicode)).length
    some
      ⟨length, some (.identifier, 0, length),
        identifierAllowsRegexAfter
          (String.ofList (rest.take length)),
        uncertain⟩
  else if char = '/' ∧ regexAllowed then do
    let length ← regexLength unicode false false chars
    some ⟨length + 1, none, false, uncertain⟩
  else if ['+', '+'].isPrefixOf rest ||
      ['-', '-'].isPrefixOf rest then
    some
      ⟨2, some (.punctuation, 0, 2), regexAllowed, uncertain⟩
  else if ['=', '>'].isPrefixOf rest then
    some ⟨2, some (.punctuation, 0, 2), true, uncertain⟩
  else
    some
      ⟨1, some (.punctuation, 0, 1),
        punctuationAllowsRegexAfter char regexAllowed rest,
        uncertain⟩

/-
  The next lexeme.  The end of a block comment is searched
  from its opening slash on, as the scanner does.
-/
def nextLexeme
    (regexAllowed : Bool)
    (char : Char)
    (chars : List Char) : Option Lexeme :=
  let rest := char :: chars
  if ['/', '/'].isPrefixOf rest then
    some
      ⟨(rest.takeWhile (· ≠ '\n')).length, none,
        regexAllowed, commentIsUncertain rest⟩
  else if ['/', '*'].isPrefixOf rest then do
    let length ← findPattern ['*', '/'] rest
    some ⟨length + 2, none, regexAllowed, false⟩
  else if unicode.isWhitespace char then
    some ⟨1, none, regexAllowed, false⟩
  else
    visibleLexeme unicode regexAllowed char chars

/- The token of a lexeme, at its place in the source. -/
def lexemeToken
    (offset : Nat)
    (rest : List Char)
    (place : TokenKind × Nat × Nat) : Token :=
  let start :=
    offset + byteLengthOf (rest.take place.2.1)
  let text := (rest.drop place.2.1).take
    (place.2.2 - place.2.1)
  { text := String.ofList text
    kind := place.1
    start := start
    stop := start + byteLengthOf text }

/-
  The scan loop.  Every lexeme consumes a character, so the
  length of the source is enough fuel.
-/
def scanLoop :
    Nat → Nat → Bool → List Char → Option Tokenization
| _, _, _, [] => some ⟨[], false⟩
| 0, _, _, _ :: _ => none
| fuel + 1, offset, regexAllowed, char :: chars => do
    let rest := char :: chars
    let lexeme ← nextLexeme unicode regexAllowed char chars
    let consumed := rest.take lexeme.width
    let remaining ←
      scanLoop fuel (offset + byteLengthOf consumed)
        lexeme.regexAllowed (rest.drop lexeme.width)
    some
      { tokens :=
          (lexeme.token.map
            (lexemeToken offset rest)).toList ++
            remaining.tokens
        uncertain := lexeme.uncertain || remaining.uncertain }

def tokenizeWithStatus
    (source : List Char) : Option Tokenization :=
  scanLoop unicode source.length 0 true source

end Scanner

----------
-- Line Index
----------

structure LineIndex where
  text : List Char
  lineStarts : List Nat

namespace LineIndex

/- The byte offsets behind each newline. -/
def newlineOffsets : Nat → List Char → List Nat
| _, [] => []
| offset, char :: chars =>
    let next := offset + char.utf8Size
    if char = '\n' then
      next :: newlineOffsets next chars
    else
      newlineOffsets next chars

def new (text : List Char) : LineIndex where
  text := text
  lineStarts := 0 :: newlineOffsets 0 text

/- The number of UTF-16 code units. -/
def utf16Length (chars : List Char) : Nat :=
  chars.foldr
    (fun char total =>
      (if char.toNat < 0x10000 then 1 else 2) + total)
    0

/- Line and column of a byte offset, as 32-bit numbers. -/
def position
    (index : LineIndex)
    (byteOffset : Nat) : Position :=
  let line :=
    (index.lineStarts.takeWhile
      (· ≤ byteOffset)).length - 1
  let lineStart := (index.lineStarts[line]?).getD 0
  let leading := sliceBytes index.text lineStart byteOffset
  let character :=
    if leading.all (fun char => char.toNat < 128) then
      byteLengthOf leading
    else
      utf16Length leading
  ⟨line % 2 ^ 32, character % 2 ^ 32⟩

end LineIndex

end ArktsServer
