import RecordSql.Text.Ascii
import RecordSql.Text.Letter
import RecordSql.Text.Pieces

/-!
# Tokens

A query is cut into words, quoted names, texts, numbers and symbols.  Blanks and comments separate
tokens and are dropped.  A token remembers where it stands in the source, in bytes.
-/

namespace RecordSql
namespace Sql

inductive TokenKind where
  | word
  | quotedName
  | text
  | number
  | symbol
deriving DecidableEq, Repr

structure Token where
  kind : TokenKind
  /-- The text of the token, without its marks and with doubled marks written once. -/
  text : String
  start : Nat
  stop : Nat
deriving DecidableEq, Repr

namespace Token

def isWord (t : Token) (word : String) : Bool :=
  t.kind == .word && Text.sameName t.text word

def isSymbol (t : Token) (symbol : String) : Bool :=
  t.kind == .symbol && t.text == symbol

end Token

/-!
# Byte positions

A source is cut at byte positions.  A position inside a character cuts nothing.
-/

def byteSize : List Char -> Nat
  | [] => 0
  | c :: cs => c.utf8Size + byteSize cs

def dropBytes : Nat -> List Char -> Option (List Char)
  | 0, cs => some cs
  | _ + 1, [] => none
  | n + 1, c :: cs => if c.utf8Size ≤ n + 1 then dropBytes (n + 1 - c.utf8Size) cs else none

def takeBytes : Nat -> List Char -> Option (List Char)
  | 0, _ => some []
  | _ + 1, [] => none
  | n + 1, c :: cs =>
      if c.utf8Size ≤ n + 1 then (takeBytes (n + 1 - c.utf8Size) cs).map (c :: ·) else none

/-- The part of a source between two byte positions, empty when they do not cut it. -/
def slice (source : String) (start stop : Nat) : String :=
  let part :=
    if start ≤ stop then dropBytes start source.toList >>= takeBytes (stop - start) else none
  String.ofList (part.getD [])

/-!
# Failures

A failure names its cause and the part of the source that it is about.
-/

inductive ParseCause where
  | unterminatedComment
  | unterminatedText
  | unterminatedName
  | unexpectedCharacter (c : Char)
  | expectedKeyword (word : String)
  | expectedSymbol (symbol : String)
  | expectedIdentifier
  | expectedAlias
  | expectedInteger
  | expectedWhen
  | invalidScalar
  | invalidNumber
  | invalidPredicate
  | containsWithoutColumn
  | setWithoutColumn
  | unsupportedHint (hint : String)
  | crossJoin
  | unsupportedStatement
  | unexpectedToken
deriving DecidableEq, Repr

namespace ParseCause

def message : ParseCause -> String
  | unterminatedComment => "Unterminated comment"
  | unterminatedText => "Unterminated string"
  | unterminatedName => "Unterminated identifier"
  | unexpectedCharacter c => "Unexpected character '" ++ String.ofList [c] ++ "'"
  | expectedKeyword word => "Expected " ++ word
  | expectedSymbol symbol => "Expected '" ++ symbol ++ "'"
  | expectedIdentifier => "Expected identifier"
  | expectedAlias => "Expected alias"
  | expectedInteger => "Expected integer"
  | expectedWhen => "Expected WHEN"
  | invalidScalar => "Invalid scalar value"
  | invalidNumber => "Invalid number"
  | invalidPredicate => "Invalid predicate"
  | containsWithoutColumn => "CONTAINS expects a column"
  | setWithoutColumn => "SET expects a column"
  | unsupportedHint hint => "Unsupported table hint " ++ hint
  | crossJoin => "CROSS JOIN is not supported"
  | unsupportedStatement => "Unsupported statement"
  | unexpectedToken => "Unexpected token"

end ParseCause

structure ParseFailure where
  cause : ParseCause
  start : Nat
  stop : Nat
  /-- The source between the two positions. -/
  text : String
deriving DecidableEq, Repr

def ParseFailure.message (f : ParseFailure) : String :=
  "ParseError: " ++ f.cause.message ++ "\n  at [" ++ toString f.start ++ ":" ++ toString f.stop ++
    "] -> '" ++ f.text ++ "'"

/-!
# One token

`lexeme` looks at the start of a source and says what stands there and how many characters it
takes: at least one.
-/

inductive Lexeme where
  | gap
  | token (kind : TokenKind) (text : List Char)
deriving DecidableEq, Repr

/-- The characters of a comment after its opening, up to and including its closing. -/
def commentLength : List Char -> Option Nat
  | '*' :: '/' :: _ => some 2
  | _ :: rest => (commentLength rest).map (· + 1)
  | [] => none

/--
The text before a closing mark and the number of characters up to and including that mark; the mark
written twice stands for itself.
-/
def delimited (close : Char) : List Char -> Option (List Char × Nat)
  | [] => none
  | [c] => if c == close then some ([], 1) else none
  | c :: d :: rest =>
      if c == close then
        if d == close then (delimited close rest).map fun (text, n) => (close :: text, n + 2)
        else some ([], 1)
      else (delimited close (d :: rest)).map fun (text, n) => (c :: text, n + 1)

/-- The length of a run of digits with at most one point. -/
def numberLength (seenPoint : Bool) : List Char -> Nat
  | [] => 0
  | c :: rest =>
      if c.isDigit then numberLength seenPoint rest + 1
      else if c == '.' && !seenPoint then numberLength true rest + 1
      else 0

def startsNumber : List Char -> Bool
  | '.' :: c :: _ => c.isDigit
  | c :: _ => c.isDigit
  | [] => false

def startsWord (c : Char) : Bool :=
  Text.isAlphabetic c || c == '_' || c == '@' || c == '#'

def continuesWord (c : Char) : Bool :=
  Text.isAlphanumeric c || c == '_' || c == '@' || c == '#' || c == '$'

def isPairSymbol (cs : List Char) : Bool :=
  ["<>", "!=", "<=", ">="].any (·.toList == cs)

def isSingleSymbol (c : Char) : Bool :=
  "(),.*+-/%=<>;".toList.contains c

/-- The text after an opening mark of the given length, as one token. -/
def quotedLexeme (cause : ParseCause) (kind : TokenKind) (opening : Nat) (close : Char)
    (cs : List Char) : Except ParseCause (Lexeme × Nat) :=
  match delimited close (cs.drop opening) with
  | some (text, n) => .ok (.token kind text, opening + n)
  | none => .error cause

/-- What stands at the start of a source that begins with `c`, and its length in characters. -/
def lexeme (c : Char) (rest : List Char) : Except ParseCause (Lexeme × Nat) :=
  let cs := c :: rest
  if Text.isBlank c then .ok (.gap, 1)
  else if c == '-' && rest.head? == some '-' then
    .ok (.gap, (cs.takeWhile (· != '\n')).length)
  else if c == '/' && rest.head? == some '*' then
    match commentLength (cs.drop 2) with
    | some n => .ok (.gap, n + 2)
    | none => .error .unterminatedComment
  else if c == '\'' then quotedLexeme .unterminatedText .text 1 '\'' cs
  else if (c == 'N' || c == 'n') && rest.head? == some '\'' then
    quotedLexeme .unterminatedText .text 2 '\'' cs
  else if c == '"' then quotedLexeme .unterminatedName .quotedName 1 '"' cs
  else if c == '[' then quotedLexeme .unterminatedName .quotedName 1 ']' cs
  else if startsNumber cs then
    let n := numberLength false cs
    .ok (.token .number (cs.take n), n)
  else if startsWord c then
    let word := c :: rest.takeWhile continuesWord
    .ok (.token .word word, word.length)
  else if isPairSymbol (cs.take 2) then .ok (.token .symbol (cs.take 2), 2)
  else if isSingleSymbol c then .ok (.token .symbol [c], 1)
  else .error (.unexpectedCharacter c)

/-!
# All tokens

Each lexeme takes at least one character, so a source of `n` characters has at most `n` of them.
-/

/-- Where a failed lexeme is reported to end: at its character, or at the end of the source. -/
def failureStop (cause : ParseCause) (offset : Nat) (cs : List Char) : Nat :=
  match cause with
  | .unexpectedCharacter c => offset + c.utf8Size
  | _ => offset + byteSize cs

def scan (source : String) : Nat -> Nat -> List Char -> Except ParseFailure (List Token)
  | 0, _, _ => .ok []
  | _ + 1, _, [] => .ok []
  | fuel + 1, offset, c :: rest =>
      match lexeme c rest with
      | .error cause =>
          let stop := failureStop cause offset (c :: rest)
          .error ⟨cause, offset, stop, slice source offset stop⟩
      | .ok (found, n) =>
          let stop := offset + byteSize ((c :: rest).take n)
          match found with
          | .gap => scan source fuel stop ((c :: rest).drop n)
          | .token kind text => do
              let tokens <- scan source fuel stop ((c :: rest).drop n)
              .ok (⟨kind, String.ofList text, offset, stop⟩ :: tokens)

def tokenize (source : String) : Except ParseFailure (List Token) :=
  scan source source.toList.length 0 source.toList

end Sql
end RecordSql
