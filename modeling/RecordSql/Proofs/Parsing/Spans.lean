import RecordSql.Proofs.Parsing.Lexing

/-!
# Spans of tokens

Tokens account for the whole source.  Their spans follow each other without overlapping and begin
and end between two characters; what stands before, between and after them are blanks and comments;
and the text of a token is the part of the source that it spans, without its marks and with doubled
marks written once.
-/

namespace RecordSql
namespace Sql

/-!
# Gaps
-/

/-- A blank or a comment, with what follows it in the source: a comment after two dashes ends at the
next line or with the source, and one in slashes and stars at the first star before a slash. -/
inductive Separator : List Char -> List Char -> Prop where
  | blank {c : Char} {after : List Char} (blank : Text.isBlank c = true) : Separator [c] after
  | line {body after : List Char} (inside : '\n' ∉ body)
      (ends : after = [] ∨ after.head? = some '\n') : Separator ('-' :: '-' :: body) after
  | block {body after : List Char} (inside : ¬ ['*', '/'] <:+: body ++ ['*']) :
      Separator ('/' :: '*' :: (body ++ ['*', '/'])) after

/-- Blanks and comments, and nothing else; `after` follows them in the source. -/
inductive Gap (after : List Char) : List Char -> Prop where
  | nil : Gap after []
  | cons {piece rest : List Char} (first : Separator piece (rest ++ after))
      (others : Gap after rest) : Gap after (piece ++ rest)

/-!
# Marks
-/

/-- A text with each closing mark in it written twice. -/
def pairMarks (close : Char) (text : List Char) : List Char :=
  text.flatMap fun c => if c == close then [close, close] else [c]

/-- A text with each pair of closing marks replaced by one of them. -/
def singleMarks (close : Char) (inner : List Char) : List Char :=
  Text.replaceFrom (· == ·) [close, close] [close] 0 inner

/-- The text stands between two marks: every closing mark there belongs to a pair, and each pair
stands for one. -/
def Token.Between (close : Char) (text inner : List Char) : Prop :=
  inner = pairMarks close text ∧ text = singleMarks close inner

/-- How a token is written in the source: as it stands, or between marks. -/
inductive Token.Written : TokenKind -> List Char -> List Char -> Prop where
  | word {part : List Char} : Token.Written .word part part
  | number {part : List Char} : Token.Written .number part part
  | symbol {part : List Char} : Token.Written .symbol part part
  | text {text inner front : List Char} (hfront : front ∈ [[], ['N'], ['n']])
      (between : Token.Between '\'' text inner) :
      Token.Written .text text (front ++ '\'' :: (inner ++ ['\'']))
  | quoted {text inner : List Char} (between : Token.Between '"' text inner) :
      Token.Written .quotedName text ('"' :: (inner ++ ['"']))
  | bracketed {text inner : List Char} (between : Token.Between ']' text inner) :
      Token.Written .quotedName text ('[' :: (inner ++ [']']))

theorem pairMarks_cons_self (close : Char) (text : List Char) :
    pairMarks close (close :: text) = close :: close :: pairMarks close text := by
  rw [pairMarks, List.flatMap_cons, if_pos (beq_self_eq_true close)]
  rfl

theorem pairMarks_cons_of_ne {close c : Char} (h : c ≠ close) (text : List Char) :
    pairMarks close (c :: text) = c :: pairMarks close text := by
  rw [pairMarks, List.flatMap_cons, if_neg (by simpa using h)]
  rfl

theorem singleMarks_pairMarks (close : Char) (text : List Char) :
    singleMarks close (pairMarks close text) = text := by
  rw [singleMarks]
  induction text with
  | nil =>
      rfl
  | cons c text ih =>
      by_cases hclose : c = close
      · subst hclose
        have hpair : Text.startsWith (· == ·) [c, c] (c :: c :: pairMarks c text) = true := by
          simp [Text.startsWith]
        rw [pairMarks_cons_self, Text.replaceFrom, if_pos hpair]
        exact congrArg (List.cons c) ih
      · have hother : ¬ Text.startsWith (· == ·) [close, close] (c :: pairMarks close text) =
            true := by
          simp [Text.startsWith, Ne.symm hclose]
        rw [pairMarks_cons_of_ne hclose, Text.replaceFrom, if_neg hother, ih]

theorem between_pairMarks (close : Char) (text : List Char) :
    Token.Between close text (pairMarks close text) :=
  ⟨rfl, (singleMarks_pairMarks close text).symm⟩

/-!
# Parts of lexemes
-/

theorem take_commentLength {cs : List Char} {n : Nat} (h : commentLength cs = some n) :
    exists body, cs.take n = body ++ ['*', '/'] ∧ ¬ ['*', '/'] <:+: body ++ ['*'] := by
  fun_induction commentLength cs generalizing n with
  | case1 rest =>
      cases h
      exact ⟨[], rfl, by decide⟩
  | case2 c rest hopen ih =>
      rcases Option.map_eq_some_iff.mp h with ⟨k, hk, rfl⟩
      rcases ih hk with ⟨body, hbody, hinside⟩
      refine ⟨c :: body, by rw [List.take_succ_cons, hbody]; rfl, ?_⟩
      rw [List.cons_append, List.infix_cons_iff]
      intro hclosed
      rcases hclosed with hfirst | hlater
      · rw [List.cons_prefix_cons] at hfirst
        cases body with
        | nil =>
            exact absurd (List.cons_prefix_cons.mp hfirst.2).1 (by decide)
        | cons d body =>
            have hslash : '/' = d := (List.cons_prefix_cons.mp hfirst.2).1
            cases rest with
            | nil =>
                rw [List.take_nil] at hbody
                cases hbody
            | cons e rest =>
                have hk := commentLength_bounds hk
                rcases Nat.exists_eq_add_of_le' (Nat.le_of_lt hk.1) with ⟨m, rfl⟩
                rw [List.take_succ_cons, List.cons_append] at hbody
                have hsame : e = d := (List.cons.inj hbody).1
                exact hopen rest hfirst.1.symm (by rw [hsame, hslash])
      · exact hinside hlater
  | case3 =>
      cases h

theorem take_delimited {close : Char} {cs text : List Char} {n : Nat}
    (h : delimited close cs = some (text, n)) : cs.take n = pairMarks close text ++ [close] := by
  fun_induction delimited close cs generalizing text n with
  | case1 =>
      cases h
  | case2 c hclose =>
      cases h
      rw [eq_of_beq hclose]
      rfl
  | case3 =>
      cases h
  | case4 c d rest hc hd ih =>
      rcases Option.map_eq_some_iff.mp h with ⟨⟨inner, k⟩, hk, heq⟩
      cases heq
      rw [eq_of_beq hc, eq_of_beq hd, List.take_succ_cons, List.take_succ_cons, ih hk,
        pairMarks_cons_self]
      rfl
  | case5 c d rest hc hd =>
      cases h
      rw [eq_of_beq hc]
      rfl
  | case6 c d rest hc ih =>
      rcases Option.map_eq_some_iff.mp h with ⟨⟨inner, k⟩, hk, heq⟩
      cases heq
      rw [List.take_succ_cons, ih hk, pairMarks_cons_of_ne (by simpa using hc)]
      rfl

/-- What a lexeme is made of: a separator or a token, before the rest of the source. -/
def Lexeme.Made (part after : List Char) : Lexeme -> Prop
  | .gap => Separator part after
  | .token kind text => Token.Written kind text part

theorem quotedLexeme_made {cause : ParseCause} {kind : TokenKind} {opening n : Nat} {close : Char}
    {cs after : List Char} {found : Lexeme}
    (h : quotedLexeme cause kind opening close cs = .ok (found, n))
    (hwritten : forall text, Token.Written kind text
      (cs.take opening ++ (pairMarks close text ++ [close]))) :
    found.Made (cs.take n) after := by
  rcases quotedLexeme_ok h with ⟨text, k, hk, rfl, rfl⟩
  have htake : cs.take (opening + k) = cs.take opening ++ (pairMarks close text ++ [close]) := by
    rw [List.take_add, take_delimited hk]
  rw [htake]
  exact hwritten text

theorem take_takeWhile (p : Char -> Bool) (cs : List Char) :
    cs.take (cs.takeWhile p).length = cs.takeWhile p :=
  (List.prefix_iff_eq_take.mp (List.takeWhile_prefix p)).symm

theorem drop_takeWhile (p : Char -> Bool) (cs : List Char) :
    cs.drop (cs.takeWhile p).length = cs.dropWhile p := by
  have hsplit : cs.takeWhile p ++ cs.drop (cs.takeWhile p).length =
      cs.takeWhile p ++ cs.dropWhile p := by
    rw [List.takeWhile_append_dropWhile]
    have hfront := List.take_append_drop (cs.takeWhile p).length cs
    rw [take_takeWhile] at hfront
    exact hfront
  exact List.append_cancel_left hsplit

theorem separator_line (tail : List Char) :
    Separator (('-' :: '-' :: tail).takeWhile (· != '\n'))
      (('-' :: '-' :: tail).dropWhile (· != '\n')) := by
  rw [List.takeWhile_cons_of_pos (by decide), List.takeWhile_cons_of_pos (by decide),
    List.dropWhile_cons_of_pos (by decide), List.dropWhile_cons_of_pos (by decide)]
  refine Separator.line ?_ ?_
  · intro hmem
    have hall := List.all_eq_true.mp (List.all_takeWhile (p := (· != '\n')) (l := tail)) _ hmem
    exact absurd hall (by decide)
  · induction tail with
    | nil =>
        exact Or.inl rfl
    | cons c tail ih =>
        rw [List.dropWhile_cons]
        split
        · exact ih
        · rename_i hline
          right
          simpa using hline

theorem separator_block {tail after : List Char} {k : Nat} (h : commentLength tail = some k) :
    Separator (('/' :: '*' :: tail).take (k + 2)) after := by
  rcases take_commentLength h with ⟨body, hbody, hinside⟩
  rw [List.take_succ_cons, List.take_succ_cons, hbody]
  exact Separator.block hinside

/-- A lexeme is a separator or a token. -/
theorem lexeme_made {c : Char} {rest : List Char} {found : Lexeme} {n : Nat}
    (h : lexeme c rest = .ok (found, n)) :
    found.Made ((c :: rest).take n) ((c :: rest).drop n) := by
  have hsecond : forall {first : Bool} {d : Char}, (first && rest.head? == some d) = true ->
      first = true ∧ exists tail, rest = d :: tail := by
    intro first d hboth
    rw [Bool.and_eq_true, beq_iff_eq] at hboth
    exact ⟨hboth.1, List.head?_eq_some_iff.mp hboth.2⟩
  refine ite_ok_elim h (fun hblank h => ?_) fun _ h => ite_ok_elim h (fun hdashes h => ?_) fun _ h =>
    ite_ok_elim h (fun hcomment h => ?_) fun _ h => ite_ok_elim h (fun hmark h => ?_) fun _ h =>
    ite_ok_elim h (fun hprefixed h => ?_) fun _ h => ite_ok_elim h (fun hmark h => ?_) fun _ h =>
    ite_ok_elim h (fun hmark h => ?_) fun _ h => ite_ok_elim h (fun _ h => ?_) fun _ h =>
    ite_ok_elim h (fun _ h => ?_) fun _ h => ite_ok_elim h (fun _ h => ?_) fun _ h =>
    ite_ok_elim h (fun _ h => ?_) fun _ h => nomatch h
  · cases h
    exact Separator.blank hblank
  · cases h
    rcases hsecond hdashes with ⟨hdash, tail, rfl⟩
    rw [eq_of_beq hdash, take_takeWhile, drop_takeWhile]
    exact separator_line tail
  · rcases hsecond hcomment with ⟨hslash, tail, rfl⟩
    rw [eq_of_beq hslash] at h ⊢
    split at h
    · rename_i k hk
      cases h
      exact separator_block hk
    · cases h
  · refine quotedLexeme_made h ?_
    intro text
    rw [eq_of_beq hmark]
    exact @Token.Written.text text _ [] (by decide) (between_pairMarks '\'' text)
  · refine quotedLexeme_made h ?_
    intro text
    rcases hsecond hprefixed with ⟨hletter, tail, rfl⟩
    refine @Token.Written.text text _ [c] ?_ (between_pairMarks '\'' text)
    rcases Bool.or_eq_true_iff.mp hletter with hupper | hlower
    · rw [eq_of_beq hupper]
      decide
    · rw [eq_of_beq hlower]
      decide
  · refine quotedLexeme_made h ?_
    intro text
    rw [eq_of_beq hmark]
    exact Token.Written.quoted (between_pairMarks '"' text)
  · refine quotedLexeme_made h ?_
    intro text
    rw [eq_of_beq hmark]
    exact Token.Written.bracketed (between_pairMarks ']' text)
  · cases h
    exact Token.Written.number
  · cases h
    rw [List.length_cons, List.take_succ_cons, take_takeWhile]
    exact Token.Written.word
  · cases h
    exact Token.Written.symbol
  · cases h
    exact Token.Written.symbol

/-!
# Tokens and gaps in turn
-/

/-- The source is made of the tokens, in their order, and of gaps before, between and after them. -/
inductive Covers : Nat -> List Char -> List Token -> Prop where
  | done {offset : Nat} {gap : List Char} (last : Gap [] gap) : Covers offset gap []
  | token {offset : Nat} {gap part back : List Char} {t : Token} {tokens : List Token}
      (before : Gap (part ++ back) gap) (written : Token.Written t.kind t.text.toList part)
      (visible : part ≠ []) (start : t.start = offset + byteSize gap)
      (stop : t.stop = t.start + byteSize part) (others : Covers t.stop back tokens) :
      Covers offset (gap ++ (part ++ back)) (t :: tokens)

theorem Covers.separated {offset : Nat} {piece cs : List Char} {tokens : List Token}
    (hpiece : Separator piece cs) (h : Covers (offset + byteSize piece) cs tokens) :
    Covers offset (piece ++ cs) tokens := by
  cases h with
  | done hlast =>
      rw [<- List.append_nil cs] at hpiece
      exact Covers.done (Gap.cons hpiece hlast)
  | token hbefore hwritten hvisible hstart hstop hothers =>
      rw [<- List.append_assoc]
      refine Covers.token (Gap.cons hpiece hbefore) hwritten hvisible ?_ hstop hothers
      rw [byteSize_append, hstart, Nat.add_assoc]

theorem Lexed.covers {offset : Nat} {cs : List Char} {tokens : List Token}
    (h : Lexed offset cs tokens) : Covers offset cs tokens := by
  induction h with
  | done =>
      exact Covers.done Gap.nil
  | @gap offset n c rest tokens hfound _ ih =>
      rw [<- List.take_append_drop n (c :: rest)]
      exact Covers.separated (lexeme_made hfound) ih
  | @token offset n c rest text kind tokens hfound _ ih =>
      have hmade := lexeme_made hfound
      have hvisible : (c :: rest).take n ≠ [] := by
        intro hnil
        rcases List.take_eq_nil_iff.mp hnil with hzero | hempty
        · have hpos := (lexeme_bounds hfound).1
          omega
        · cases hempty
      have hcovers := @Covers.token offset [] ((c :: rest).take n) ((c :: rest).drop n)
        ⟨kind, String.ofList text, offset, offset + byteSize ((c :: rest).take n)⟩ tokens Gap.nil
        (by rw [String.toList_ofList]; exact hmade) hvisible rfl rfl ih
      rw [List.nil_append, List.take_append_drop] at hcovers
      exact hcovers

theorem byteSize_pos {cs : List Char} (h : cs ≠ []) : 0 < byteSize cs := by
  cases cs with
  | nil =>
      exact absurd rfl h
  | cons c cs =>
      exact Nat.lt_of_lt_of_le (Char.utf8Size_pos c) (Nat.le_add_right _ _)

/-- Spans lie in the source one after another. -/
theorem Covers.ordered {offset : Nat} {cs : List Char} {tokens : List Token}
    (h : Covers offset cs tokens) :
    (forall t, t ∈ tokens -> offset ≤ t.start ∧ t.start < t.stop ∧ t.stop ≤ offset + byteSize cs) ∧
      tokens.Pairwise fun a b => a.stop ≤ b.start := by
  induction h with
  | done =>
      exact ⟨fun t ht => absurd ht List.not_mem_nil, List.Pairwise.nil⟩
  | @token offset gap part back t tokens _ _ hvisible hstart hstop _ ih =>
      have hpos := byteSize_pos hvisible
      have hsize : byteSize (gap ++ (part ++ back)) =
          byteSize gap + (byteSize part + byteSize back) := by
        rw [byteSize_append, byteSize_append]
      refine ⟨?_, List.pairwise_cons.mpr ⟨fun u hu => (ih.1 u hu).1, ih.2⟩⟩
      intro u hu
      rw [hsize]
      rcases List.mem_cons.mp hu with rfl | hu
      · omega
      · have hbounds := ih.1 u hu
        omega

/-!
# Slices of the source
-/

/-- The position stands between two characters, or at an end of the source. -/
def IsCut (source : String) (position : Nat) : Prop :=
  exists front back, source.toList = front ++ back ∧ position = byteSize front

/-- The ends of the parts before, between and after tokens. -/
def gapEnds (total : Nat) : Nat -> List Token -> List (Nat × Nat)
  | start, [] => [(start, total)]
  | start, t :: rest => (start, t.start) :: gapEnds total t.stop rest

/-- Where a source is covered, tokens and gaps are its slices. -/
theorem Covers.slices {source : String} {front cs : List Char} {tokens : List Token}
    (hsource : source.toList = front ++ cs) (h : Covers (byteSize front) cs tokens) :
    (forall t, t ∈ tokens -> IsCut source t.start ∧ IsCut source t.stop ∧
      Token.Written t.kind t.text.toList (slice source t.start t.stop).toList) ∧
    forall ends, ends ∈ gapEnds (byteSize source.toList) (byteSize front) tokens ->
      Gap (slice source ends.2 (byteSize source.toList)).toList
        (slice source ends.1 ends.2).toList := by
  generalize hoffset : byteSize front = offset at h
  induction h generalizing front with
  | @done offset gap hlast =>
      subst hoffset
      refine ⟨fun t ht => absurd ht List.not_mem_nil, ?_⟩
      intro ends hends
      rw [gapEnds, List.mem_singleton] at hends
      have htotal : byteSize source.toList = byteSize front + byteSize gap := by
        rw [hsource, byteSize_append]
      have hgap := @slice_part source front gap [] (by rw [hsource, List.append_nil])
      have hend := @slice_part source source.toList [] [] (by rw [List.append_nil, List.append_nil])
      rw [<- htotal] at hgap
      rw [hends]
      change Gap (slice source (byteSize source.toList) (byteSize source.toList + 0)).toList
        (slice source (byteSize front) (byteSize source.toList)).toList
      rw [hgap, String.toList_ofList]
      change Gap (slice source _ (byteSize source.toList + byteSize [])).toList gap
      rw [hend, String.toList_ofList]
      exact hlast
  | @token offset gap part back t tokens hbefore hwritten hvisible hstart hstop _ ih =>
      subst hoffset
      have hfront : byteSize (front ++ gap) = t.start := by
        rw [byteSize_append, hstart]
      have hbehind : byteSize (front ++ gap ++ part) = t.stop := by
        rw [byteSize_append, hfront, hstop]
      have hcut : source.toList = front ++ gap ++ (part ++ back) := by
        rw [hsource, List.append_assoc]
      have hcut' : source.toList = front ++ gap ++ part ++ back := by
        rw [hcut, List.append_assoc _ part]
      have hpart := slice_part hcut
      rw [hfront, <- hstop] at hpart
      rcases ih hcut' hbehind with ⟨htokens, hgaps⟩
      refine ⟨?_, ?_⟩
      · intro u hu
        rcases List.mem_cons.mp hu with rfl | hu
        · refine ⟨⟨_, _, hcut, hfront.symm⟩, ⟨_, _, hcut', hbehind.symm⟩, ?_⟩
          rw [hpart, String.toList_ofList]
          exact hwritten
        · exact htokens u hu
      · intro ends hends
        rw [gapEnds, List.mem_cons] at hends
        rcases hends with rfl | hends
        · have hgap := slice_part hsource
          have hrest := @slice_part source (front ++ gap) (part ++ back) []
            (by rw [hcut, List.append_nil])
          rw [<- byteSize_append, <- hcut] at hrest
          rw [hfront] at hrest
          rw [<- hstart] at hgap
          change Gap (slice source t.start (byteSize source.toList)).toList
            (slice source (byteSize front) t.start).toList
          rw [hgap, hrest, String.toList_ofList, String.toList_ofList]
          exact hbefore
        · exact hgaps ends hends

/--
The spans of the tokens of a source stand in it one after another, from one character boundary to
another.  Each token is written in its span, and before, between and after the spans there are
blanks and comments only.
-/
theorem tokens_account {source : String} {tokens : List Token}
    (h : tokenize source = .ok tokens) :
    (forall t, t ∈ tokens -> t.start < t.stop ∧ t.stop ≤ byteSize source.toList ∧
      IsCut source t.start ∧ IsCut source t.stop) ∧
    (tokens.Pairwise fun a b => a.stop ≤ b.start) ∧
    (forall ends, ends ∈ gapEnds (byteSize source.toList) 0 tokens ->
      Gap (slice source ends.2 (byteSize source.toList)).toList
        (slice source ends.1 ends.2).toList) ∧
    (forall t, t ∈ tokens ->
      Token.Written t.kind t.text.toList (slice source t.start t.stop).toList) := by
  have hcovers := (tokenize_eq_ok.mp h).covers
  rcases hcovers.ordered with ⟨hbounds, hordered⟩
  rcases @Covers.slices source [] source.toList tokens (List.nil_append _).symm hcovers with
    ⟨htokens, hgaps⟩
  refine ⟨?_, hordered, hgaps, fun t ht => (htokens t ht).2.2⟩
  intro t ht
  have hspan := hbounds t ht
  rw [Nat.zero_add] at hspan
  exact ⟨hspan.2.1, hspan.2.2, (htokens t ht).1, (htokens t ht).2.1⟩

/-- A source with both kinds of comments, a doubled mark and a character of two bytes. -/
def remarkSource : String :=
  "/* é */ N'it''s' -- end\n<> [a]]b]"

theorem remark_tokens :
    tokenize remarkSource = .ok [⟨.text, "it's", 9, 17⟩, ⟨.symbol, "<>", 25, 27⟩,
      ⟨.quotedName, "a]b", 28, 34⟩] ∧
    (forall ends, ends ∈ [(0, 9), (17, 25), (27, 28), (34, 34)] ->
      Gap (slice remarkSource ends.2 34).toList (slice remarkSource ends.1 ends.2).toList) ∧
    Token.Written .text "it's".toList (slice remarkSource 9 17).toList := by
  have htokens : tokenize remarkSource = .ok [⟨.text, "it's", 9, 17⟩, ⟨.symbol, "<>", 25, 27⟩,
      ⟨.quotedName, "a]b", 28, 34⟩] := by
    rfl
  have haccount := tokens_account htokens
  exact ⟨htokens, haccount.2.2.1, haccount.2.2.2 _ List.mem_cons_self⟩

end Sql
end RecordSql
