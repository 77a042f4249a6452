import RecordSql.Regex.Basic
import RecordSql.Text.Case

/-!
# The standard engine

It reads the expressions that have no groups, alternatives or counted repetitions.  A set lists
characters and ranges; a caret in front asks for a character outside it.  Two dashes take away from
the set what follows them, and a dash at the start or the end of a set is an ordinary member.  A
range must not run backwards.
-/

namespace RecordSql
namespace Regex

/-!
# Symbols
-/

/-- A character of a written expression, or one that a backslash stands before. -/
inductive Symbol where
  | plain (c : Char)
  | escaped (c : Char)
deriving DecidableEq, Repr

/-- The symbols of an expression; at first, whether a backslash has just been read. -/
def symbols : Bool -> List Char -> Option (List Symbol)
  | false, [] => some []
  | true, [] => none
  | false, c :: rest =>
      if c == '\\' then symbols true rest else (symbols false rest).map (.plain c :: ·)
  | true, c :: rest =>
      if isMeta c then (symbols false rest).map (.escaped c :: ·) else none

/-!
# Sets
-/

namespace Symbol

def isDash (s : Symbol) : Bool :=
  s == .plain '-'

def member? : Symbol -> Option Char
  | .plain c => if isSetMeta c && c != '-' then none else some c
  | .escaped c => some c

def rangeTo (s t : Symbol) : Option Range := do
  let first <- s.member?
  let last <- t.member?
  if first ≤ last then some ⟨first, last⟩ else none

end Symbol

def adjoin (range : Option Range) (rest : Option (List Range × List (List Range))) :
    Option (List Range × List (List Range)) := do
  let range <- range
  let (first, others) <- rest
  some (range :: first, others)

/-- The members of a set after its leading dashes: unions of ranges between double dashes. -/
def members : List Symbol -> Option (List Range × List (List Range))
  | [] => some ([], [])
  | [s] => adjoin (s.rangeTo s) (some ([], []))
  | [s, t] =>
      if s.isDash && t.isDash then some ([], [[]])
      else adjoin (s.rangeTo s) (members [t])
  | s :: t :: u :: rest =>
      if s.isDash && t.isDash then
        (members (u :: rest)).map fun (first, others) => ([], first :: others)
      else if t.isDash && !u.isDash then adjoin (s.rangeTo u) (members rest)
      else adjoin (s.rangeTo s) (members (t :: u :: rest))

def ofSet (body : List Symbol) : Option Atom :=
  let negated := body.head? == some (.plain '^')
  let body := if negated then body.drop 1 else body
  let dashes := body.takeWhile Symbol.isDash
  if body.isEmpty then none
  else
    (members (body.dropWhile Symbol.isDash)).map fun (base, without) =>
      .set negated (dashes.map (fun _ => ⟨'-', '-'⟩) ++ base) without

/-!
# Terms

Terms are read together with whether a star stands in front of them, which belongs to the atom
before.
-/

def withAtom (atom : Option Atom) (rest : Option (Bool × List Term)) :
    Option (Bool × List Term) := do
  let atom <- atom
  let (starred, terms) <- rest
  some (false, (if starred then .many atom else .one atom) :: terms)

/-- The terms after something that no star may follow. -/
def unstarred (rest : Option (Bool × List Term)) : Option (List Term) := do
  let (starred, terms) <- rest
  if starred then none else some terms

/-- The terms of an expression; inside of brackets, those read so far are given. -/
def terms : Option (List Symbol) -> List Symbol -> Option (Bool × List Term)
  | none, [] => some (false, [])
  | some _, [] => none
  | some body, s :: rest =>
      if s == .plain ']' then withAtom (ofSet body) (terms none rest)
      else terms (some (body ++ [s])) rest
  | none, .escaped c :: rest => withAtom (some (.char c)) (terms none rest)
  | none, .plain c :: rest =>
      if c == '[' then terms (some []) rest
      else if c == '.' then withAtom (some .any) (terms none rest)
      else if c == '*' then (unstarred (terms none rest)).map (true, ·)
      else if c == '^' then (unstarred (terms none rest)).map fun later => (false, .start :: later)
      else if c == '$' then (unstarred (terms none rest)).map fun later => (false, .finish :: later)
      else if isMeta c then none
      else withAtom (some (.char c)) (terms none rest)

def read (text : String) : Option (List Term) := do
  let found <- symbols false text.toList
  unstarred (terms none found)

/-!
# Characters
-/

def same (flags : Flags) (c d : Char) : Bool :=
  if flags.ignoreCase then Text.sameLetter c d else c == d

/-- Whether the character, or a variant of it if case is ignored, is in one of the ranges. -/
def inRanges (flags : Flags) (ranges : List Range) (c : Char) : Bool :=
  (if flags.ignoreCase then Text.variants c else [c]).any fun d =>
    ranges.any fun r => r.first ≤ d && d ≤ r.last

def Atom.accepts (flags : Flags) (c : Char) : Atom -> Bool
  | .any => flags.dotAll || c != '\n'
  | .char d => same flags d c
  | .set negated base without =>
      (inRanges flags base c && !without.any (inRanges flags · c)) != negated

/-!
# Search

A text has one position more than it has characters: its start first, its end last.  Working from
the last term to the first, one pass over the text tells for each position whether the terms so far
match there, so the work is the length of the expression times that of the text.
-/

/-- The marks of which only the first is kept, if it is at the start. -/
def startMarks (atStart : Bool) : List Bool -> List Bool
  | [] => []
  | mark :: later => (atStart && mark) :: later.map fun _ => false

/-- The marks of which only the last is kept. -/
def finishMarks : List Bool -> List Bool
  | [] => []
  | [mark] => [mark]
  | _ :: later => false :: finishMarks later

/-- The positions in front of a character that is accepted, with a mark behind it. -/
def oneMarks (accepts : Char -> Bool) : List Char -> List Bool -> List Bool
  | c :: text, _ :: marks => (accepts c && marks.headD false) :: oneMarks accepts text marks
  | _, _ => [false]

/-- The positions in front of characters that are accepted, with a mark behind them. -/
def manyMarks (accepts : Char -> Bool) : List Char -> List Bool -> List Bool
  | c :: text, mark :: marks =>
      let later := manyMarks accepts text marks
      (mark || accepts c && later.headD false) :: later
  | _, marks => marks

/-- The positions of a text, whose first is the start or not, at which the terms match. -/
def marks (flags : Flags) (atStart : Bool) (text : List Char) : List Term -> List Bool
  | [] => true :: text.map fun _ => true
  | .start :: terms => startMarks atStart (marks flags atStart text terms)
  | .finish :: terms => finishMarks (marks flags atStart text terms)
  | .one atom :: terms => oneMarks (atom.accepts flags) text (marks flags atStart text terms)
  | .many atom :: terms => manyMarks (atom.accepts flags) text (marks flags atStart text terms)

def finds (flags : Flags) (terms : List Term) (text : String) : Bool :=
  (marks flags true text.toList terms).any id

/-!
# The engine
-/

def escapeMeta (text : String) : String :=
  String.ofList (text.toList.flatMap fun c => if isMeta c then ['\\', c] else [c])

def Engine.standard : Engine where
  escape := escapeMeta
  build flags text := (read text).map fun terms => finds flags terms

end Regex
end RecordSql
