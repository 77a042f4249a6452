import Mathlib.Data.List.Forall2
import RecordSql.Proofs.LetterCase
import RecordSql.Regex.Standard

/-!
# What regular expressions mean

How an expression is written, in which texts it is found, and what an engine promises about the
two.  The standard engine keeps the promise.
-/

namespace RecordSql
namespace Regex

open Text (foldChar sameLetter_iff mem_variants_iff)

/-!
# Written expressions
-/

/-- The character stands for itself, unless it has a meaning there, or a backslash is before it. -/
inductive WrittenChar (special : Char -> Bool) (c : Char) : List Char -> Prop where
  | plain (h : special c = false) : WrittenChar special c [c]
  | escaped (h : isMeta c = true) : WrittenChar special c ['\\', c]

/-- The members of a set are written one after the other. -/
inductive WrittenMembers : List Char -> List Char -> Prop where
  | nil : WrittenMembers [] []
  | cons {c : Char} {cs front rest : List Char} (hfirst : WrittenChar isSetMeta c front)
      (hrest : WrittenMembers cs rest) : WrittenMembers (c :: cs) (front ++ rest)

/-- The ranges of single characters. -/
def singles (cs : List Char) : List Range :=
  cs.map fun c => ⟨c, c⟩

inductive Atom.Written : Atom -> List Char -> Prop where
  | any : Written .any ['.']
  | char {c : Char} {text : List Char} (h : WrittenChar isMeta c text) : Written (.char c) text
  | oneOf {cs text : List Char} (hcs : cs ≠ []) (h : WrittenMembers cs text) :
      Written (.set false (singles cs) []) ('[' :: (text ++ [']']))
  | noneOf {cs text : List Char} (hcs : cs ≠ []) (h : WrittenMembers cs text) :
      Written (.set true (singles cs) []) ('[' :: '^' :: (text ++ [']']))

inductive Written : List Term -> List Char -> Prop where
  | nil : Written [] []
  | start {terms : List Term} {text : List Char} (h : Written terms text) :
      Written (.start :: terms) ('^' :: text)
  | finish {terms : List Term} {text : List Char} (h : Written terms text) :
      Written (.finish :: terms) ('$' :: text)
  | one {atom : Atom} {terms : List Term} {front text : List Char} (hatom : atom.Written front)
      (h : Written terms text) : Written (.one atom :: terms) (front ++ text)
  | many {atom : Atom} {terms : List Term} {front text : List Char} (hatom : atom.Written front)
      (h : Written terms text) : Written (.many atom :: terms) (front ++ '*' :: text)

/-!
# Where an expression is found
-/

/-- The characters are equal, or they fold to the same one and case is ignored. -/
def Flags.Same (flags : Flags) (c d : Char) : Prop :=
  c = d ∨ (flags.ignoreCase = true ∧ foldChar c = foldChar d)

/-- A character that is the same one is in one of the ranges. -/
def Flags.Meets (flags : Flags) (ranges : List Range) (c : Char) : Prop :=
  exists r, r ∈ ranges ∧ exists d, flags.Same d c ∧ r.first ≤ d ∧ d ≤ r.last

/-- The atom takes the character; of a set, it takes the members or the others. -/
def Atom.Takes (flags : Flags) (c : Char) : Atom -> Prop
  | .any => flags.dotAll = true ∨ c ≠ '\n'
  | .char d => flags.Same d c
  | .set negated base without =>
      (flags.Meets base c ∧ forall ranges, ranges ∈ without -> ¬ flags.Meets ranges c) <->
        negated = false

/-- The terms match at a position of a text, between the characters before it and the others. -/
def MatchesAt (flags : Flags) : List Term -> List Char -> List Char -> Prop
  | [], _, _ => True
  | .start :: terms, before, rest => before = [] ∧ MatchesAt flags terms before rest
  | .finish :: terms, before, rest => rest = [] ∧ MatchesAt flags terms before rest
  | .one atom :: terms, before, rest =>
      exists c after, rest = c :: after ∧ atom.Takes flags c ∧
        MatchesAt flags terms (before ++ [c]) after
  | .many atom :: terms, before, rest =>
      exists piece after, rest = piece ++ after ∧ (forall c, c ∈ piece -> atom.Takes flags c) ∧
        MatchesAt flags terms (before ++ piece) after

def FoundIn (flags : Flags) (terms : List Term) (text : List Char) : Prop :=
  exists before rest, text = before ++ rest ∧ MatchesAt flags terms before rest

/-- What an engine promises about expressions, whatever their size. -/
structure Engine.Lawful (engine : Engine) : Prop where
  /-- An escaped character is written so that it stands for itself. -/
  escape_written : forall c : Char,
    (Atom.char c).Written (engine.escape (String.singleton c)).toList
  /-- A written expression is valid, and found in a text where its terms match. -/
  build_written : forall (flags : Flags) (terms : List Term) (text : String),
    Written terms text.toList -> exists accepts, engine.build flags text = some accepts ∧
      forall s : String, accepts s = true <-> FoundIn flags terms s.toList

/-!
# Reading
-/

variable {c : Char} {cs : List Char} {s : Symbol} {ss : List Symbol}

/-- The symbol stands for the character. -/
def Stands (special : Char -> Bool) (c : Char) (s : Symbol) : Prop :=
  s = .escaped c ∨ (s = .plain c ∧ special c = false)

theorem symbols_plain (h : c ≠ '\\') (rest : List Char) :
    symbols false (c :: rest) = (symbols false rest).map (.plain c :: ·) := by
  rw [symbols, if_neg (by simpa using h)]

theorem symbols_escaped (h : isMeta c = true) (rest : List Char) :
    symbols false ('\\' :: c :: rest) = (symbols false rest).map (.escaped c :: ·) := by
  rw [symbols, if_pos (by decide), symbols, if_pos h]

theorem WrittenChar.symbols {special : Char -> Bool} {front : List Char}
    (h : WrittenChar special c front) (hspecial : special '\\' = true) :
    exists s, Stands special c s ∧
      forall rest, symbols false (front ++ rest) = (symbols false rest).map (s :: ·) := by
  cases h with
  | plain hplain =>
      have hc : c ≠ '\\' := by
        rintro rfl
        rw [hspecial] at hplain
        cases hplain
      exact ⟨.plain c, Or.inr ⟨rfl, hplain⟩, symbols_plain hc⟩
  | escaped hmeta =>
      exact ⟨.escaped c, Or.inl rfl, symbols_escaped hmeta⟩

theorem WrittenMembers.symbols {text : List Char} (h : WrittenMembers cs text) :
    exists ss, List.Forall₂ (Stands isSetMeta) cs ss ∧
      forall rest, symbols false (text ++ rest) = (symbols false rest).map (ss ++ ·) := by
  induction h with
  | nil =>
      exact ⟨[], .nil, fun rest => by simp⟩
  | cons hfirst _ ih =>
      rcases hfirst.symbols (by decide) with ⟨s, hs, hfront⟩
      rcases ih with ⟨ss, hss, htext⟩
      refine ⟨s :: ss, .cons hs hss, fun rest => ?_⟩
      rw [List.append_assoc, hfront, htext, Option.map_map]
      rfl

/-!
# Sets without dashes
-/

theorem Stands.ne_plain {special : Char -> Bool} {d : Char} (h : Stands special c s)
    (hd : special d = true) : s ≠ .plain d := by
  rintro rfl
  rcases h with h | ⟨h, hplain⟩
  · cases h
  · cases h
    rw [hd] at hplain
    cases hplain

theorem Stands.isDash (h : Stands isSetMeta c s) : s.isDash = false := by
  rw [Symbol.isDash, beq_eq_false_iff_ne]
  exact h.ne_plain (by decide)

theorem Stands.rangeTo (h : Stands isSetMeta c s) : s.rangeTo s = some ⟨c, c⟩ := by
  have hmember : s.member? = some c := by
    rcases h with rfl | ⟨rfl, hplain⟩
    · rfl
    · simp [Symbol.member?, hplain]
  simp [Symbol.rangeTo, hmember]

theorem exists_stands {special : Char -> Bool} (h : List.Forall₂ (Stands special) cs ss) :
    forall t, t ∈ ss -> exists d, Stands special d t := by
  induction h with
  | nil =>
      intro t ht
      cases ht
  | cons hfirst _ ih =>
      intro t ht
      rcases List.mem_cons.mp ht with rfl | ht
      · exact ⟨_, hfirst⟩
      · exact ih t ht

theorem members_cons (hs : s.isDash = false) (hss : forall t, t ∈ ss -> t.isDash = false) :
    members (s :: ss) = adjoin (s.rangeTo s) (members ss) := by
  cases ss with
  | nil =>
      rfl
  | cons t rest =>
      have ht := hss t List.mem_cons_self
      cases rest with
      | nil =>
          simp [members, hs]
      | cons u rest =>
          simp [members, hs, ht]

theorem members_eq (h : List.Forall₂ (Stands isSetMeta) cs ss) :
    members ss = some (singles cs, []) := by
  induction h with
  | nil =>
      rfl
  | cons hfirst hrest ih =>
      rw [members_cons hfirst.isDash, hfirst.rangeTo, ih]
      · rfl
      · intro t ht
        rcases exists_stands hrest t ht with ⟨_, hd⟩
        exact hd.isDash

theorem takeWhile_isDash (h : List.Forall₂ (Stands isSetMeta) cs ss) :
    ss.takeWhile Symbol.isDash = [] ∧ ss.dropWhile Symbol.isDash = ss := by
  cases h with
  | nil =>
      exact ⟨rfl, rfl⟩
  | cons hfirst _ =>
      simp [hfirst.isDash]

theorem ofSet_eq (hcs : cs ≠ []) (h : List.Forall₂ (Stands isSetMeta) cs ss) :
    ofSet ss = some (.set false (singles cs) []) ∧
      ofSet (.plain '^' :: ss) = some (.set true (singles cs) []) := by
  have hmembers := members_eq h
  have hdash := takeWhile_isDash h
  have hne : ss.isEmpty = false := by
    cases h with
    | nil =>
        exact absurd rfl hcs
    | cons _ _ =>
        rfl
  have hcaret : ss.head? ≠ some (.plain '^') := by
    intro hhead
    rcases exists_stands h _ (List.mem_of_head? hhead) with ⟨_, hd⟩
    exact hd.ne_plain (by decide) rfl
  constructor
  · simp [ofSet, hcaret, hdash, hne, hmembers]
  · simp [ofSet, hdash, hne, hmembers]

/-!
# Terms
-/

theorem terms_set (h : forall t, t ∈ ss -> t ≠ .plain ']') (body rest : List Symbol) :
    terms (some body) (ss ++ .plain ']' :: rest) =
      withAtom (ofSet (body ++ ss)) (terms none rest) := by
  induction ss generalizing body with
  | nil =>
      rw [List.nil_append, List.append_nil, terms, if_pos (by decide)]
  | cons t ss ih =>
      rw [List.forall_mem_cons] at h
      rw [List.cons_append, terms, if_neg (by simpa using h.1), ih h.2, List.append_assoc]
      rfl

/-- An atom is read in front of the rest of an expression. -/
def Atom.ReadFrom (atom : Atom) (front : List Char) : Prop :=
  exists ss, (forall rest, symbols false (front ++ rest) = (symbols false rest).map (ss ++ ·)) ∧
    forall rest, terms none (ss ++ rest) = withAtom (some atom) (terms none rest)

theorem Atom.readFrom_set {atom : Atom} {text : List Char}
    (hsymbols : forall rest, symbols false (text ++ rest) = (symbols false rest).map (ss ++ ·))
    (hclosed : forall t, t ∈ ss -> t ≠ .plain ']') (hatom : ofSet ss = some atom) :
    atom.ReadFrom ('[' :: (text ++ [']'])) := by
  refine ⟨.plain '[' :: (ss ++ [.plain ']']), fun rest => ?_, fun rest => ?_⟩
  · rw [List.cons_append, List.append_assoc, symbols_plain (by decide), hsymbols,
      List.singleton_append, symbols_plain (by decide), Option.map_map, Option.map_map]
    simp [Function.comp_def]
  · rw [List.cons_append, List.append_assoc, List.singleton_append, terms, if_pos (by decide),
      terms_set hclosed, List.nil_append, hatom]

theorem terms_char (h : Stands isMeta c s) (rest : List Symbol) :
    terms none (s :: rest) = withAtom (some (.char c)) (terms none rest) := by
  rcases h with rfl | ⟨rfl, hplain⟩
  · rw [terms]
  · have hne : forall d, isMeta d = true -> c ≠ d := by
      rintro d hd rfl
      rw [hplain] at hd
      cases hd
    simp [terms, hplain, hne '[' (by decide), hne '.' (by decide), hne '*' (by decide),
      hne '^' (by decide), hne '$' (by decide)]

theorem Atom.Written.readFrom {atom : Atom} {front : List Char} (h : atom.Written front) :
    atom.ReadFrom front := by
  have hclosed : forall {cs ss}, List.Forall₂ (Stands isSetMeta) cs ss ->
      forall t, t ∈ ss -> t ≠ .plain ']' := by
    intro cs ss hss t ht
    rcases exists_stands hss t ht with ⟨_, hd⟩
    exact hd.ne_plain (by decide)
  cases h with
  | any =>
      exact ⟨[.plain '.'], symbols_plain (by decide), fun rest => by simp [terms]⟩
  | char hchar =>
      rcases hchar.symbols (by decide) with ⟨s, hs, hfront⟩
      exact ⟨[s], hfront, terms_char hs⟩
  | oneOf hcs hmembers =>
      rcases hmembers.symbols with ⟨ss, hss, htext⟩
      exact Atom.readFrom_set htext (hclosed hss) (ofSet_eq hcs hss).1
  | @noneOf cs text hcs hmembers =>
      rcases hmembers.symbols with ⟨ss, hss, htext⟩
      refine @Atom.readFrom_set (.plain '^' :: ss) _ ('^' :: text) (fun rest => ?_) ?_
        (ofSet_eq hcs hss).2
      · rw [List.cons_append, symbols_plain (by decide), htext, Option.map_map]
        rfl
      · rw [List.forall_mem_cons]
        exact ⟨by decide, hclosed hss⟩

theorem Written.symbols {ts : List Term} {text : List Char} (h : Written ts text) :
    exists ss, symbols false text = some ss ∧ terms none ss = some (false, ts) := by
  induction h with
  | nil =>
      exact ⟨[], rfl, rfl⟩
  | start _ ih =>
      rcases ih with ⟨ss, hss, hts⟩
      exact ⟨.plain '^' :: ss, by rw [symbols_plain (by decide), hss]; rfl,
        by simp [terms, hts, unstarred]⟩
  | finish _ ih =>
      rcases ih with ⟨ss, hss, hts⟩
      exact ⟨.plain '$' :: ss, by rw [symbols_plain (by decide), hss]; rfl,
        by simp [terms, hts, unstarred]⟩
  | one hatom _ ih =>
      rcases ih with ⟨ss, hss, hts⟩
      rcases hatom.readFrom with ⟨front, hfront, hterms⟩
      exact ⟨front ++ ss, by rw [hfront, hss]; rfl, by rw [hterms, hts]; rfl⟩
  | many hatom _ ih =>
      rcases ih with ⟨ss, hss, hts⟩
      rcases hatom.readFrom with ⟨front, hfront, hterms⟩
      refine ⟨front ++ .plain '*' :: ss, ?_, ?_⟩
      · rw [hfront, symbols_plain (by decide), hss]
        rfl
      · rw [hterms]
        simp [terms, hts, unstarred, withAtom]

/-- A written expression is read as the terms that it is written for. -/
theorem read_of_written {ts : List Term} {text : String} (h : Written ts text.toList) :
    read text = some ts := by
  rcases h.symbols with ⟨ss, hss, hts⟩
  simp [read, hss, hts, unstarred]

/-!
# Characters
-/

variable {flags : Flags}

theorem same_iff {d : Char} : same flags c d = true <-> flags.Same c d := by
  cases hcase : flags.ignoreCase with
  | false =>
      simp [same, Flags.Same, hcase]
  | true =>
      simp only [same, Flags.Same, hcase, if_true, sameLetter_iff, true_and]
      exact ⟨Or.inr, fun h => h.elim (congrArg foldChar) id⟩

theorem inRanges_iff {ranges : List Range} :
    inRanges flags ranges c = true <-> flags.Meets ranges c := by
  have hletters : forall d, d ∈ (if flags.ignoreCase then Text.variants c else [c]) <->
      flags.Same d c := by
    intro d
    rw [<- same_iff, same]
    cases flags.ignoreCase with
    | false =>
        simp
    | true =>
        simpa using mem_variants_iff
  simp only [inRanges, List.any_eq_true, hletters, Flags.Meets, Bool.and_eq_true,
    decide_eq_true_eq]
  exact ⟨fun ⟨d, hd, r, hr, h⟩ => ⟨r, hr, d, hd, h⟩, fun ⟨r, hr, d, hd, h⟩ => ⟨d, hd, r, hr, h⟩⟩

theorem Atom.accepts_iff {atom : Atom} : atom.accepts flags c = true <-> atom.Takes flags c := by
  cases atom with
  | any =>
      simp [Atom.accepts, Atom.Takes]
  | char d =>
      exact same_iff
  | set negated base without =>
      have hwithout : (!without.any (inRanges flags · c)) = true <->
          forall ranges, ranges ∈ without -> ¬ flags.Meets ranges c := by
        simp [<- inRanges_iff]
      rw [Atom.accepts, Atom.Takes, <- hwithout, <- inRanges_iff, <- Bool.and_eq_true, bne_iff_ne]
      cases negated <;> simp

/-!
# Positions

The marks of a text are one for its first position and those of its tail, where no position is the
start.
-/

variable {atStart : Bool} {text : List Char} {ts : List Term}

theorem headD_startMarks (atStart : Bool) (ms : List Bool) :
    (startMarks atStart ms).headD false = (atStart && ms.headD false) := by
  cases ms <;> simp [startMarks]

theorem headD_finishMarks (mark : Bool) {ms : List Bool} (h : ms ≠ []) :
    (finishMarks (mark :: ms)).headD false = false := by
  cases ms with
  | nil =>
      exact absurd rfl h
  | cons _ _ =>
      rfl

theorem startMarks_false (ms : List Bool) : startMarks false ms = ms.map fun _ => false := by
  cases ms <;> simp [startMarks]

theorem marks_nil (flags : Flags) (atStart : Bool) (ts : List Term) :
    exists mark, marks flags atStart [] ts = [mark] := by
  induction ts with
  | nil =>
      exact ⟨true, rfl⟩
  | cons t ts ih =>
      rcases ih with ⟨mark, hmark⟩
      cases t <;> simp [marks, hmark, startMarks, finishMarks, oneMarks, manyMarks]

theorem marks_cons (flags : Flags) (atStart : Bool) (c : Char) (text : List Char)
    (ts : List Term) :
    exists mark, marks flags atStart (c :: text) ts = mark :: marks flags false text ts := by
  induction ts generalizing atStart c text with
  | nil =>
      exact ⟨true, rfl⟩
  | cons t ts ih =>
      rcases ih atStart c text with ⟨mark, hmark⟩
      cases t with
      | start =>
          rw [marks, marks, hmark, startMarks_false]
          exact ⟨_, rfl⟩
      | finish =>
          rw [marks, marks, hmark]
          cases text with
          | nil =>
              rcases marks_nil flags false ts with ⟨last, hlast⟩
              rw [hlast]
              exact ⟨_, rfl⟩
          | cons d text =>
              rcases ih false d text with ⟨next, hnext⟩
              rw [hnext]
              exact ⟨_, rfl⟩
      | one atom =>
          rw [marks, marks, hmark]
          exact ⟨_, rfl⟩
      | many atom =>
          rw [marks, marks, hmark]
          exact ⟨_, rfl⟩

theorem marks_ne_nil (flags : Flags) (atStart : Bool) (text : List Char) (ts : List Term) :
    marks flags atStart text ts ≠ [] := by
  cases text with
  | nil =>
      rcases marks_nil flags atStart ts with ⟨mark, hmark⟩
      simp [hmark]
  | cons c text =>
      rcases marks_cons flags atStart c text ts with ⟨mark, hmark⟩
      simp [hmark]

/-- The mark of the first position. -/
theorem headD_marks_one (atom : Atom) (c : Char) (text : List Char) (ts : List Term) :
    (marks flags atStart (c :: text) (.one atom :: ts)).headD false =
      (atom.accepts flags c && (marks flags false text ts).headD false) := by
  rcases marks_cons flags atStart c text ts with ⟨mark, hmark⟩
  rw [marks, hmark]
  rfl

theorem headD_marks_finish (text : List Char) (ts : List Term) :
    (marks flags atStart text (.finish :: ts)).headD false =
      (text.isEmpty && (marks flags atStart text ts).headD false) := by
  rw [marks]
  cases text with
  | nil =>
      rcases marks_nil flags atStart ts with ⟨mark, hmark⟩
      rw [hmark]
      rfl
  | cons c text =>
      rcases marks_cons flags atStart c text ts with ⟨mark, hmark⟩
      rw [hmark]
      exact headD_finishMarks mark (marks_ne_nil flags false text ts)

theorem headD_marks_many_nil (atom : Atom) (ts : List Term) :
    (marks flags atStart [] (.many atom :: ts)).headD false =
      (marks flags atStart [] ts).headD false := by
  rcases marks_nil flags atStart ts with ⟨mark, hmark⟩
  rw [marks, hmark]
  rfl

theorem headD_marks_many_cons (atom : Atom) (c : Char) (text : List Char) (ts : List Term) :
    (marks flags atStart (c :: text) (.many atom :: ts)).headD false =
      ((marks flags atStart (c :: text) ts).headD false || atom.accepts flags c &&
        (marks flags false text (.many atom :: ts)).headD false) := by
  rcases marks_cons flags atStart c text ts with ⟨mark, hmark⟩
  rw [marks, marks, hmark]
  rfl

theorem matchesAt_many_nil {atom : Atom} {before : List Char} :
    MatchesAt flags (.many atom :: ts) before [] <-> MatchesAt flags ts before [] := by
  constructor
  · rintro ⟨piece, after, htext, _, h⟩
    rcases List.append_eq_nil_iff.mp htext.symm with ⟨rfl, rfl⟩
    rwa [List.append_nil] at h
  · intro h
    exact ⟨[], [], rfl, by simp, by rwa [List.append_nil]⟩

theorem matchesAt_many_cons {atom : Atom} {before : List Char} :
    MatchesAt flags (.many atom :: ts) before (c :: text) <->
      MatchesAt flags ts before (c :: text) ∨
        atom.Takes flags c ∧ MatchesAt flags (.many atom :: ts) (before ++ [c]) text := by
  constructor
  · rintro ⟨piece, after, htext, hpiece, h⟩
    cases piece with
    | nil =>
        rw [List.append_nil] at h
        exact Or.inl (htext ▸ h)
    | cons d piece =>
        cases htext
        rw [List.forall_mem_cons] at hpiece
        refine Or.inr ⟨hpiece.1, piece, after, rfl, hpiece.2, ?_⟩
        rwa [List.append_assoc]
  · rintro (h | ⟨hc, piece, after, rfl, hpiece, h⟩)
    · exact ⟨[], c :: text, rfl, by simp, by rwa [List.append_nil]⟩
    · refine ⟨c :: piece, after, rfl, List.forall_mem_cons.mpr ⟨hc, hpiece⟩, ?_⟩
      rwa [List.append_assoc] at h

theorem isEmpty_append_singleton (cs : List Char) (c : Char) : (cs ++ [c]).isEmpty = false := by
  simp

/-- The first mark tells whether the terms match at the position in front of the text. -/
theorem headD_marks {before : List Char} :
    (marks flags before.isEmpty text ts).headD false = true <-> MatchesAt flags ts before text := by
  induction ts generalizing before text with
  | nil =>
      simp [marks, MatchesAt]
  | cons t ts ih =>
      cases t with
      | start =>
          rw [marks, headD_startMarks, Bool.and_eq_true, ih, MatchesAt, List.isEmpty_iff]
      | finish =>
          rw [headD_marks_finish, Bool.and_eq_true, ih, MatchesAt, List.isEmpty_iff]
      | one atom =>
          cases text with
          | nil =>
              simp [marks, oneMarks, MatchesAt]
          | cons c text =>
              have hlater := @ih text (before ++ [c])
              rw [isEmpty_append_singleton] at hlater
              rw [headD_marks_one, Bool.and_eq_true, Atom.accepts_iff, hlater]
              constructor
              · rintro ⟨hc, h⟩
                exact ⟨c, text, rfl, hc, h⟩
              · rintro ⟨d, after, heq, hd, h⟩
                cases heq
                exact ⟨hd, h⟩
      | many atom =>
          induction text generalizing before with
          | nil =>
              rw [headD_marks_many_nil, ih, matchesAt_many_nil]
          | cons c text ihtext =>
              have hlater := @ihtext (before ++ [c])
              rw [isEmpty_append_singleton] at hlater
              rw [headD_marks_many_cons, Bool.or_eq_true, Bool.and_eq_true, ih, Atom.accepts_iff,
                hlater, matchesAt_many_cons]

theorem any_marks {before : List Char} :
    (marks flags before.isEmpty text ts).any id = true <->
      exists front rest, text = front ++ rest ∧ MatchesAt flags ts (before ++ front) rest := by
  induction text generalizing before with
  | nil =>
      rcases marks_nil flags before.isEmpty ts with ⟨mark, hmark⟩
      have hfirst := @headD_marks flags [] ts before
      rw [hmark] at hfirst ⊢
      rw [List.any_cons, List.any_nil, Bool.or_false]
      constructor
      · intro h
        exact ⟨[], [], rfl, by rwa [List.append_nil, <- hfirst]⟩
      · rintro ⟨front, rest, heq, h⟩
        rcases List.append_eq_nil_iff.mp heq.symm with ⟨rfl, rfl⟩
        rwa [List.append_nil, <- hfirst] at h
  | cons c text ih =>
      rcases marks_cons flags before.isEmpty c text ts with ⟨mark, hmark⟩
      have hfirst := @headD_marks flags (c :: text) ts before
      have hlater := @ih (before ++ [c])
      rw [isEmpty_append_singleton] at hlater
      rw [hmark] at hfirst ⊢
      rw [List.any_cons, Bool.or_eq_true, hlater]
      constructor
      · rintro (h | ⟨front, rest, rfl, h⟩)
        · exact ⟨[], c :: text, rfl, by rwa [List.append_nil, <- hfirst]⟩
        · rw [List.append_assoc] at h
          exact ⟨c :: front, rest, rfl, h⟩
      · rintro ⟨front, rest, heq, h⟩
        cases front with
        | nil =>
            rw [List.nil_append] at heq
            rw [List.append_nil, <- heq, <- hfirst] at h
            exact Or.inl h
        | cons d front =>
            cases heq
            exact Or.inr ⟨front, rest, rfl, by rwa [List.append_assoc]⟩

theorem finds_iff {s : String} : finds flags ts s = true <-> FoundIn flags ts s.toList :=
  @any_marks flags s.toList ts []

/-!
# The standard engine
-/

theorem written_escapeMeta (c : Char) :
    (Atom.char c).Written (escapeMeta (String.singleton c)).toList := by
  have htext : (escapeMeta (String.singleton c)).toList =
      if isMeta c = true then ['\\', c] else [c] := by
    simp [escapeMeta]
  rw [htext]
  split
  · rename_i hmeta
    exact .char (.escaped hmeta)
  · rename_i hplain
    exact .char (.plain (Bool.eq_false_iff.mpr hplain))

/-- The standard engine keeps what engines promise. -/
theorem lawful_standard : Engine.standard.Lawful where
  escape_written := written_escapeMeta
  build_written := by
    intro flags terms text h
    refine ⟨finds flags terms, ?_, fun s => finds_iff⟩
    simp [Engine.standard, read_of_written h]

end Regex
end RecordSql
