import Mathlib.Data.List.Forall2
import RecordSql.Eval.Expr
import RecordSql.Proofs.LetterCase
import RecordSql.Proofs.RegularExpressions

/-!
# What a pattern of LIKE matches

A pattern is written as a sequence of elements, and it matches a text that can be split into pieces
which the elements take one after the other.  A pattern with a bracket that is not closed is
invalid.

This holds for every engine of regular expressions that keeps what engines promise.
-/

namespace RecordSql
namespace Like

open Regex (Atom Engine Term isMeta isSetMeta)
open Text (sameLetter sameLetter_iff)

/-!
# Elements of patterns
-/

inductive Element where
  | anyText
  | anyChar
  | oneOf (members : List Char)
  | noneOf (members : List Char)
  | char (c : Char)

/-- The element is written as the given characters. -/
def Element.Spells : Element -> List Char -> Prop
  | .anyText, cs => cs = ['%']
  | .anyChar, cs => cs = ['_']
  | .oneOf members, cs =>
      ']' ∉ members ∧ members.head? ≠ some '^' ∧ cs = '[' :: (members ++ [']'])
  | .noneOf members, cs => ']' ∉ members ∧ cs = '[' :: '^' :: (members ++ [']'])
  | .char c, cs => c ≠ '%' ∧ c ≠ '_' ∧ c ≠ '[' ∧ cs = [c]

/-- The pattern consists of the elements. -/
inductive Written : List Char -> List Element -> Prop
  | nil : Written [] []
  | cons {front rest element elements} : Element.Spells element front -> Written rest elements ->
      Written (front ++ rest) (element :: elements)

/-- No bracket closes one that is outside a set. -/
def Unclosed (pattern : List Char) : Prop :=
  exists front elements rest, Written front elements ∧ ']' ∉ rest ∧ pattern = front ++ '[' :: rest

/-- A set has members, and no dash makes a range of them. -/
def Element.Plain : Element -> Prop
  | .oneOf members => members ≠ [] ∧ '-' ∉ members
  | .noneOf members => members ≠ [] ∧ '-' ∉ members
  | _ => True

/-- The element takes the piece of a text. -/
def Element.Takes : Element -> List Char -> Prop
  | .anyText, _ => True
  | .anyChar, piece => exists d, piece = [d]
  | .oneOf members, piece => exists d, piece = [d] ∧ exists c, c ∈ members ∧ sameLetter c d = true
  | .noneOf members, piece =>
      exists d, piece = [d] ∧ forall c, c ∈ members -> sameLetter c d = false
  | .char c, piece => exists d, piece = [d] ∧ sameLetter c d = true

/-- The text consists of pieces that the elements take. -/
def Splits (elements : List Element) (text : List Char) : Prop :=
  exists pieces, pieces.flatten = text ∧ List.Forall₂ Element.Takes elements pieces

theorem splits_nil {text : List Char} : Splits [] text <-> text = [] := by
  simp [Splits, eq_comm]

theorem splits_cons {element : Element} {elements : List Element} {text : List Char} :
    Splits (element :: elements) text <->
      exists piece rest, text = piece ++ rest ∧ element.Takes piece ∧ Splits elements rest := by
  constructor
  · rintro ⟨pieces, rfl, hpieces⟩
    rcases List.forall₂_cons_left_iff.mp hpieces with ⟨piece, rest, htakes, hrest, rfl⟩
    exact ⟨piece, rest.flatten, rfl, htakes, rest, rfl, hrest⟩
  · rintro ⟨piece, rest, rfl, htakes, pieces, rfl, hpieces⟩
    exact ⟨piece :: pieces, rfl, hpieces.cons htakes⟩

/-!
# Open and closed brackets
-/

theorem Unclosed.append_or_written {front rest : List Char} {element : Element}
    (hfront : element.Spells front)
    (h : Unclosed rest ∨ exists elements, Written rest elements) :
    Unclosed (front ++ rest) ∨ exists elements, Written (front ++ rest) elements := by
  rcases h with ⟨before, elements, later, hbefore, hlater, rfl⟩ | ⟨elements, h⟩
  · refine Or.inl ⟨front ++ before, element :: elements, later, hbefore.cons hfront, hlater, ?_⟩
    rw [List.append_assoc]
  · exact Or.inr ⟨element :: elements, h.cons hfront⟩

/-- A set that is closed is written as an element. -/
theorem exists_spells_set {body : List Char} (h : ']' ∉ body) :
    exists element : Element, element.Spells ('[' :: (body ++ [']'])) := by
  by_cases hcaret : body.head? = some '^'
  · rcases List.head?_eq_some_iff.mp hcaret with ⟨members, rfl⟩
    exact ⟨.noneOf members, fun hmem => h (List.mem_cons_of_mem _ hmem), rfl⟩
  · exact ⟨.oneOf body, h, hcaret, rfl⟩

/-- Every pattern consists of elements, or it has a bracket that is not closed. -/
theorem unclosed_or_written (pattern : List Char) :
    Unclosed pattern ∨ exists elements, Written pattern elements := by
  induction hlength : pattern.length using Nat.strongRecOn generalizing pattern with
  | ind length ih =>
      subst hlength
      cases pattern with
      | nil =>
          exact Or.inr ⟨[], Written.nil⟩
      | cons c rest =>
          have hrest := ih rest.length (Nat.lt_succ_self _) rest rfl
          by_cases htext : c = '%'
          · exact @Unclosed.append_or_written [c] rest .anyText (by rw [htext]; rfl) hrest
          by_cases hany : c = '_'
          · exact @Unclosed.append_or_written [c] rest .anyChar (by rw [hany]; rfl) hrest
          by_cases hset : c = '['
          · subst hset
            by_cases hclosed : ']' ∈ rest
            · rcases List.eq_append_cons_of_mem hclosed with ⟨body, after, rfl, hbody⟩
              rcases exists_spells_set hbody with ⟨element, hspells⟩
              have hafter := ih after.length (by simp; omega) after rfl
              simpa using Unclosed.append_or_written hspells hafter
            · exact Or.inl ⟨[], [], rest, Written.nil, hclosed, rfl⟩
          · exact @Unclosed.append_or_written [c] rest (.char c) ⟨htext, hany, hset, rfl⟩ hrest

/-!
# Encoding

The elements of a pattern are encoded one after the other, whatever comes after them.
-/

variable {engine : Engine}

theorem encode_of_not_closed {cs : List Char} (h : ']' ∉ cs) (body : List Char) :
    encode engine (some body) cs = none := by
  induction cs generalizing body with
  | nil =>
      rfl
  | cons c rest ih =>
      rw [List.mem_cons, not_or] at h
      rw [encode, if_neg (by simpa using Ne.symm h.1), ih h.2]

theorem encode_closed {cs : List Char} (h : ']' ∉ cs) (body after : List Char) :
    encode engine (some body) (cs ++ ']' :: after) =
      (encode engine none after).map (encodeSet (body ++ cs) ++ ·) := by
  induction cs generalizing body with
  | nil =>
      rw [List.nil_append, List.append_nil, encode, if_pos (by decide)]
  | cons c rest ih =>
      rw [List.mem_cons, not_or] at h
      rw [List.cons_append, encode, if_neg (by simpa using Ne.symm h.1), ih h.2, List.append_assoc]
      rfl

/-- What an element is encoded as. -/
def Element.code (engine : Engine) : Element -> List Char
  | .anyText => ['.', '*']
  | .anyChar => ['.']
  | .oneOf members => '[' :: (members.flatMap encodeMember ++ [']'])
  | .noneOf members => '[' :: '^' :: (members.flatMap encodeMember ++ [']'])
  | .char c => (engine.escape (String.singleton c)).toList

theorem encode_element {element : Element} {front : List Char} (h : element.Spells front)
    (rest : List Char) :
    encode engine none (front ++ rest) =
      (encode engine none rest).map (element.code engine ++ ·) := by
  cases element with
  | anyText =>
      subst h
      rfl
  | anyChar =>
      subst h
      rfl
  | oneOf members =>
      rcases h with ⟨hclosed, hcaret, rfl⟩
      rw [List.cons_append, List.append_assoc, encode, if_pos (by decide), List.singleton_append,
        encode_closed hclosed, List.nil_append, encodeSet, if_neg (by simpa using hcaret)]
      rfl
  | noneOf members =>
      rcases h with ⟨hclosed, rfl⟩
      have hbody : ']' ∉ '^' :: members := by simpa using hclosed
      rw [List.cons_append, List.cons_append, List.append_assoc, encode, if_pos (by decide),
        List.singleton_append, <- List.cons_append, encode_closed hbody, List.nil_append, encodeSet,
        if_pos (by rfl)]
      rfl
  | char c =>
      rcases h with ⟨htext, hany, hset, rfl⟩
      simp [encode, encodeChar, htext, hany, hset, Element.code]

theorem encode_written {front : List Char} {elements : List Element} (h : Written front elements)
    (rest : List Char) :
    encode engine none (front ++ rest) =
      (encode engine none rest).map (elements.flatMap (Element.code engine) ++ ·) := by
  induction h with
  | nil =>
      simp
  | cons hspells _ ih =>
      rw [List.append_assoc, encode_element hspells, ih, Option.map_map, List.flatMap_cons]
      simp [Function.comp_def]

/-- A pattern with a bracket that is not closed is not compiled. -/
theorem compile_of_unclosed {pattern : String} (h : Unclosed pattern.toList) :
    compile engine pattern = none := by
  rcases h with ⟨front, elements, rest, hfront, hrest, hpattern⟩
  have hopen : encode engine none ('[' :: rest) = none := by
    rw [encode, if_pos (by decide), encode_of_not_closed hrest]
  rw [compile, expression, hpattern, encode_written hfront, hopen]
  rfl

/-!
# The expression of a pattern
-/

/-- A member of a set is escaped if it has a meaning there; only the dash keeps its meaning. -/
theorem writtenChar_encodeMember {c : Char} (hdash : c ≠ '-') :
    Regex.WrittenChar isSetMeta c (encodeMember c) := by
  have hescaped : "\\[]^&~".toList.all isMeta = true := by decide
  have hspecial : isSetMeta c = true -> c = '-' ∨ c ∈ "\\[]^&~".toList := by
    rw [isSetMeta, List.contains_iff_mem]
    simp only [String.reduceToList, List.mem_cons]
    tauto
  rw [encodeMember]
  split
  · rename_i hmem
    exact .escaped (List.all_eq_true.mp hescaped c (List.contains_iff_mem.mp hmem))
  · rename_i hmem
    refine .plain (Bool.eq_false_iff.mpr fun hmeta => ?_)
    rcases hspecial hmeta with hc | hc
    · exact hdash hc
    · exact hmem (List.contains_iff_mem.mpr hc)

theorem writtenMembers_encode {members : List Char} (hdash : '-' ∉ members) :
    Regex.WrittenMembers members (members.flatMap encodeMember) := by
  induction members with
  | nil =>
      exact .nil
  | cons c members ih =>
      rw [List.mem_cons, not_or] at hdash
      exact .cons (writtenChar_encodeMember (Ne.symm hdash.1)) (ih hdash.2)

/-- The term of an expression that an element stands for. -/
def Element.term : Element -> Term
  | .anyText => .many .any
  | .anyChar => .one .any
  | .oneOf members => .one (.set false (Regex.singles members) [])
  | .noneOf members => .one (.set true (Regex.singles members) [])
  | .char c => .one (.char c)

theorem written_code (hengine : engine.Lawful) {element : Element} (h : element.Plain)
    {terms : List Term} {text : List Char} (hrest : Regex.Written terms text) :
    Regex.Written (element.term :: terms) (element.code engine ++ text) := by
  cases element with
  | anyText =>
      exact .many .any hrest
  | anyChar =>
      exact .one .any hrest
  | oneOf members =>
      exact .one (.oneOf h.1 (writtenMembers_encode h.2)) hrest
  | noneOf members =>
      exact .one (.noneOf h.1 (writtenMembers_encode h.2)) hrest
  | char c =>
      exact .one (hengine.escape_written c) hrest

theorem written_codes (hengine : engine.Lawful) {elements : List Element}
    (h : forall element, element ∈ elements -> element.Plain) {terms : List Term}
    {text : List Char} (hrest : Regex.Written terms text) :
    Regex.Written (elements.map Element.term ++ terms)
      (elements.flatMap (Element.code engine) ++ text) := by
  induction elements with
  | nil =>
      exact hrest
  | cons element elements ih =>
      rw [List.forall_mem_cons] at h
      rw [List.map_cons, List.cons_append, List.flatMap_cons, List.append_assoc]
      exact written_code hengine h.1 (ih h.2)

/-!
# Matching
-/

theorem same_iff {c d : Char} : flags.Same c d <-> sameLetter c d = true := by
  rw [<- Regex.same_iff]
  rfl

theorem meets_singles {members : List Char} {d : Char} :
    flags.Meets (Regex.singles members) d <->
      exists c, c ∈ members ∧ sameLetter c d = true := by
  simp only [Regex.Flags.Meets, Regex.singles, List.mem_map, same_iff]
  constructor
  · rintro ⟨_, ⟨m, hm, rfl⟩, c, hc, hfirst, hlast⟩
    have hsame : m = c := Char.le_antisymm hfirst hlast
    exact ⟨c, hsame ▸ hm, hc⟩
  · rintro ⟨c, hc, hsame⟩
    exact ⟨⟨c, c⟩, ⟨c, hc, rfl⟩, c, hsame, Char.le_refl c, Char.le_refl c⟩

/-- An atom takes the pieces of an element whose pieces are single characters. -/
theorem matchesAt_one {atom : Atom} {element : Element} {terms : List Term}
    {before rest : List Char} (htakes : forall d, atom.Takes flags d <-> element.Takes [d])
    (hsingle : forall piece, element.Takes piece -> exists d, piece = [d]) :
    Regex.MatchesAt flags (.one atom :: terms) before rest <->
      exists piece after, rest = piece ++ after ∧ element.Takes piece ∧
        Regex.MatchesAt flags terms (before ++ piece) after := by
  constructor
  · rintro ⟨d, after, hrest, hd, h⟩
    exact ⟨[d], after, hrest, (htakes d).mp hd, h⟩
  · rintro ⟨piece, after, hrest, hpiece, h⟩
    rcases hsingle piece hpiece with ⟨d, rfl⟩
    exact ⟨d, after, hrest, (htakes d).mpr hpiece, h⟩

/-- The term of an element takes the pieces that the element takes. -/
theorem matchesAt_term {element : Element} {terms : List Term} {before rest : List Char} :
    Regex.MatchesAt flags (element.term :: terms) before rest <->
      exists piece after, rest = piece ++ after ∧ element.Takes piece ∧
        Regex.MatchesAt flags terms (before ++ piece) after := by
  have hsingle : forall {p : Char -> Prop} (piece : List Char),
      (exists d, piece = [d] ∧ p d) -> exists d, piece = [d] := by
    rintro p piece ⟨d, hd, _⟩
    exact ⟨d, hd⟩
  cases element with
  | anyText =>
      simp [Element.term, Element.Takes, Regex.MatchesAt, Atom.Takes, flags]
  | anyChar =>
      exact matchesAt_one (fun d => by simp [Atom.Takes, Element.Takes, flags]) fun _ h => h
  | oneOf members =>
      exact matchesAt_one (fun d => by simp [Atom.Takes, Element.Takes, meets_singles]) hsingle
  | noneOf members =>
      exact matchesAt_one (fun d => by simp [Atom.Takes, Element.Takes, meets_singles]) hsingle
  | char c =>
      exact matchesAt_one (fun d => by simp [Atom.Takes, Element.Takes, same_iff]) hsingle

theorem matchesAt_terms {elements : List Element} {before rest : List Char} :
    Regex.MatchesAt flags (elements.map Element.term ++ [.finish]) before rest <->
      Splits elements rest := by
  induction elements generalizing before rest with
  | nil =>
      simp [Regex.MatchesAt, splits_nil]
  | cons element elements ih =>
      rw [List.map_cons, List.cons_append, matchesAt_term, splits_cons]
      simp only [ih]

/-- Bound to both ends of a text, the terms are found where the text splits into pieces. -/
theorem foundIn_iff_splits {elements : List Element} {text : List Char} :
    Regex.FoundIn flags (.start :: (elements.map Element.term ++ [.finish])) text <->
      Splits elements text := by
  constructor
  · rintro ⟨before, rest, rfl, rfl, h⟩
    exact matchesAt_terms.mp h
  · intro h
    exact ⟨[], text, rfl, rfl, matchesAt_terms.mpr h⟩

/-- A pattern of plain elements is compiled to the test whether a text splits into pieces. -/
theorem compile_of_written (hengine : engine.Lawful) {pattern : String} {elements : List Element}
    (h : Written pattern.toList elements)
    (hplain : forall element, element ∈ elements -> element.Plain) :
    exists accepts, compile engine pattern = some accepts ∧
      forall s : String, accepts s = true <-> Splits elements s.toList := by
  have hcode : encode engine none pattern.toList =
      some (elements.flatMap (Element.code engine)) := by
    have hencode := @encode_written engine _ _ h []
    rwa [List.append_nil, encode, Option.map_some, List.append_nil] at hencode
  have hwritten := Regex.Written.start (written_codes hengine hplain (.finish .nil))
  rw [<- @String.toList_ofList (_ :: _)] at hwritten
  rcases hengine.build_written flags _ _ hwritten with ⟨accepts, hbuild, haccepts⟩
  refine ⟨accepts, ?_, fun s => (haccepts s).trans foundIn_iff_splits⟩
  rw [compile, expression, hcode, Option.map_some, Option.bind_some, hbuild]

example : expression .standard "D.[s^]_[^0\\]%" = some "^D\\.[s\\^].[^0\\\\].*$" := by
  rfl

/-!
# Patterns without wildcards
-/

theorem written_chars {cs : List Char} (h : forall c, c ∈ cs -> c ≠ '%' ∧ c ≠ '_' ∧ c ≠ '[') :
    Written cs (cs.map Element.char) := by
  induction cs with
  | nil =>
      exact Written.nil
  | cons c cs ih =>
      rw [List.forall_mem_cons] at h
      exact @Written.cons [c] cs (.char c) _ ⟨h.1.1, h.1.2.1, h.1.2.2, rfl⟩ (ih h.2)

theorem splits_chars {cs text : List Char} :
    Splits (cs.map Element.char) text <-> text.map Text.foldChar = cs.map Text.foldChar := by
  induction cs generalizing text with
  | nil =>
      rw [List.map_nil, splits_nil, List.map_nil, List.map_eq_nil_iff]
  | cons c cs ih =>
      rw [List.map_cons, splits_cons, List.map_cons, List.map_eq_cons_iff]
      constructor
      · rintro ⟨_, rest, rfl, ⟨d, rfl, hsame⟩, hsplits⟩
        exact ⟨d, rest, rfl, (sameLetter_iff.mp hsame).symm, ih.mp hsplits⟩
      · rintro ⟨d, rest, rfl, hsame, hrest⟩
        exact ⟨[d], rest, rfl, ⟨d, rfl, sameLetter_iff.mpr hsame.symm⟩, ih.mpr hrest⟩

theorem compare_eq_some_eq_iff {s t : String} :
    Value.compare false (.str s) (.str t) = some .eq <-> Text.lower s = Text.lower t := by
  simp [Value.compare, Value.compareText]

/-- A pattern with an open bracket is invalid.  Any other one consists of elements, and if its sets
are plain it matches the texts that split into pieces for them; without wildcards that is equality,
for texts of ASCII. -/
theorem like_truth {engine : Engine} (hengine : engine.Lawful) (s pattern : String) :
    (Unclosed pattern.toList ->
      Eval.likeTruth engine (.str s) (.str pattern) = .error (.invalidPattern pattern)) ∧
    (¬ Unclosed pattern.toList -> exists elements, Written pattern.toList elements) ∧
    (forall elements, Written pattern.toList elements ->
      (forall element, element ∈ elements -> element.Plain) ->
      exists matched, Eval.likeTruth engine (.str s) (.str pattern) = .ok (.ofBool matched) ∧
        (matched = true <-> Splits elements s.toList)) ∧
    (Text.isAscii s = true -> Text.isAscii pattern = true ->
      (forall c, c ∈ pattern.toList -> c ≠ '%' ∧ c ≠ '_' ∧ c ≠ '[') ->
      exists matched, Eval.likeTruth engine (.str s) (.str pattern) = .ok (.ofBool matched) ∧
        (matched = true <-> Value.compare false (.str s) (.str pattern) = some .eq)) := by
  have hplain : forall elements, Written pattern.toList elements ->
      (forall element, element ∈ elements -> element.Plain) ->
      exists matched, Eval.likeTruth engine (.str s) (.str pattern) = .ok (.ofBool matched) ∧
        (matched = true <-> Splits elements s.toList) := by
    intro elements hwritten hplain
    rcases compile_of_written hengine hwritten hplain with ⟨accepts, hcompile, haccepts⟩
    refine ⟨accepts s, ?_, haccepts s⟩
    simp [Eval.likeTruth, Value.isNull, Value.text, hcompile]
  refine ⟨?_, (unclosed_or_written pattern.toList).resolve_left, hplain, ?_⟩
  · intro hunclosed
    simp [Eval.likeTruth, Value.isNull, Value.text, compile_of_unclosed hunclosed]
  · intro hs hpattern hchars
    rcases hplain _ (written_chars hchars) (by simp [Element.Plain]) with ⟨matched, htruth, hiff⟩
    refine ⟨matched, htruth, ?_⟩
    rw [hiff, splits_chars, compare_eq_some_eq_iff, Text.lower_eq_lower_iff hs hpattern]

/-- With the standard engine: a pattern that has to be escaped, one with a set that is not closed,
and a word in another case. -/
theorem like_truth_data :
    Eval.likeTruth .standard (.str "d.^\n8 data") (.str "D.[s^]_[^0\\]%") = .ok (.ofBool true) ∧
    Eval.likeTruth .standard (.str "data 8") (.str "D%[^0") = .error (.invalidPattern "D%[^0") ∧
    (exists matched,
      Eval.likeTruth .standard (.str "data") (.str "DATA") = .ok (.ofBool matched) ∧
      (matched = true <-> Value.compare false (.str "data") (.str "DATA") = some .eq)) := by
  have hengine := Regex.lawful_standard
  refine ⟨?_, (like_truth hengine "data 8" "D%[^0").1 ?_,
    (like_truth hengine "data" "DATA").2.2.2 rfl rfl ?_⟩
  · have hwritten : Written "D.[s^]_[^0\\]%".toList
        [.char 'D', .char '.', .oneOf ['s', '^'], .anyChar, .noneOf ['0', '\\'], .anyText] :=
      @Written.cons ['D'] _ _ _ ⟨by decide, by decide, by decide, rfl⟩ <|
      @Written.cons ['.'] _ _ _ ⟨by decide, by decide, by decide, rfl⟩ <|
      @Written.cons ['[', 's', '^', ']'] _ _ _ ⟨by decide, by decide, rfl⟩ <|
      @Written.cons ['_'] _ _ _ rfl <|
      @Written.cons ['[', '^', '0', '\\', ']'] _ _ _ ⟨by decide, rfl⟩ <|
      @Written.cons ['%'] _ _ _ rfl Written.nil
    rcases (like_truth hengine "d.^\n8 data" "D.[s^]_[^0\\]%").2.2.1 _ hwritten
      (by simp [Element.Plain]) with ⟨matched, htruth, hiff⟩
    have hsplits : Splits
        [.char 'D', .char '.', .oneOf ['s', '^'], .anyChar, .noneOf ['0', '\\'], .anyText]
        "d.^\n8 data".toList := by
      refine ⟨[['d'], ['.'], ['^'], ['\n'], ['8'], [' ', 'd', 'a', 't', 'a']], rfl, ?_⟩
      simp [Element.Takes]
      decide
    rw [htruth, hiff.mpr hsplits]
  · exact ⟨['D', '%'], [.char 'D', .anyText], ['^', '0'],
      @Written.cons ['D'] _ _ _ ⟨by decide, by decide, by decide, rfl⟩ <|
        @Written.cons ['%'] _ _ _ rfl Written.nil, by decide, rfl⟩
  · simp

end Like
end RecordSql
