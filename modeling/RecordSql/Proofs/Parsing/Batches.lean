import RecordSql.Proofs.Outcome
import RecordSql.Proofs.Parsing.Lexing
import RecordSql.Proofs.Parsing.Statements

/-!
# The text of a statement

A statement keeps the part of the source that it was written as.  That part begins and ends with a
token of the statement, and since nothing in a statement depends on what comes after it, the part
is again a source of that one statement.
-/

namespace RecordSql
namespace Sql

/-- A text with no tokens but semicolons. -/
def Separates (cs : List Char) : Prop :=
  exists tokens, tokenize (String.ofList cs) = .ok tokens ∧
    forall t, t ∈ tokens -> t.isSymbol ";" = true

/--
The texts of the statements stand in the source one after the other, with nothing but semicolons,
blanks and comments in front of them, between them and after them.
-/
inductive Laid : List Char -> List Written -> Prop where
  | done {cs : List Char} (hcs : Separates cs) : Laid cs []
  | next {gap after : List Char} {first : Written} {others : List Written} (hgap : Separates gap)
      (hafter : Laid after others) : Laid (gap ++ (first.sql.toList ++ after)) (first :: others)

theorem Lexed.separates {offset : Nat} {cs : List Char} {tokens : List Token}
    (h : Lexed offset cs tokens) (htokens : forall t, t ∈ tokens -> t.isSymbol ";" = true) :
    Separates cs := by
  rcases h.shift 0 with ⟨tokens', htokens', hshifted⟩
  refine ⟨tokens', ?_, ?_⟩
  · rw [tokenize_eq_ok, String.toList_ofList]
    exact htokens'
  · intro t' ht'
    have hmark := List.mem_map_of_mem (f := Token.mark) ht'
    rw [Lexed.Shifted.marks hshifted] at hmark
    rcases List.mem_map.mp hmark with ⟨t, ht, hsame⟩
    rw [Token.isSymbol_eq, <- hsame, <- Token.isSymbol_eq]
    exact htokens t ht

namespace Parser

/-!
# One statement
-/

theorem ends_marks {c : Cursor} (h : (!c.atEnd && !c.isSymbol ";" && !startsStatement c) = false) :
    Ends c.marks := by
  intro k hk
  have hhere : forall word, c.isKeyword word = k.isWord word := by
    intro word
    rw [Cursor.isKeyword_eq, hk]
    rfl
  have hsymbol : c.isSymbol ";" = k.isSymbol ";" := by
    rw [Cursor.isSymbol_eq, hk]
    rfl
  have hnot : c.atEnd = false := by
    rw [Cursor.atEnd, Bool.eq_false_iff]
    intro hempty
    rw [Cursor.marks, List.isEmpty_iff.mp hempty] at hk
    cases hk
  rw [startsStatement, hhere, hhere, hhere, hsymbol, hnot] at h
  rw [Mark.endsStatement]
  revert h
  cases k.isSymbol ";" <;> cases k.isWord "SELECT" <;> cases k.isWord "UPDATE" <;>
    cases k.isWord "DELETE" <;> decide

theorem written_eq_ok {c c' : Cursor} {w : Written} :
    written c = .ok w c' <-> exists s, statement c = .ok s c' ∧
      (!c'.atEnd && !c'.isSymbol ";" && !startsStatement c') = false ∧
        w = ⟨s, c'.textBetween c.pivot c'.previousEnd⟩ := by
  change (statement >>= fun s => _) c = _ <-> _
  rw [bind_eq_ok]
  constructor
  · rintro ⟨s, c'', hs, hw⟩
    change (if (!c''.atEnd && !c''.isSymbol ";" && !startsStatement c'') = true then _ else _ :
      Parser Written) c'' = _ at hw
    split at hw
    · cases hw
    · rename_i hafter
      cases hw
      exact ⟨s, hs, Bool.not_eq_true _ ▸ hafter, rfl⟩
  · rintro ⟨s, hs, hafter, rfl⟩
    refine ⟨s, c', hs, ?_⟩
    change (if (!c'.atEnd && !c'.isSymbol ";" && !startsStatement c') = true then _ else _ :
      Parser Written) c' = _
    rw [hafter]
    rfl

theorem statement_head {c c' : Cursor} {s : Statement} (h : statement c = .ok s c') :
    exists k, c.marks.head? = some k ∧ k.1 = .word := by
  have hword : forall word, c.isKeyword word = true ->
      exists k, c.marks.head? = some k ∧ k.1 = .word := by
    intro word hkeyword
    rw [Cursor.isKeyword_eq, Option.any_eq_true] at hkeyword
    rcases hkeyword with ⟨k, hk, hkind⟩
    exact ⟨k, hk, eq_of_beq (Bool.and_eq_true_iff.mp hkind).1⟩
  change (if c.isKeyword "SELECT" = true then _ else if c.isKeyword "UPDATE" = true then _ else
    if c.isKeyword "DELETE" = true then _ else _ : Parser Statement) c = _ at h
  split at h
  · exact hword _ ‹_›
  · split at h
    · exact hword _ ‹_›
    · split at h
      · exact hword _ ‹_›
      · cases h

theorem batch_atEnd (left : List Token) {c : Cursor} (h : c.atEnd = true) :
    batch left c = .ok [] c := by
  cases left with
  | nil =>
      rfl
  | cons t left =>
      change (if c.atEnd = true then _ else _ : Parser (List Written)) c = _
      rw [if_pos h]
      rfl

theorem batch_cons (t : Token) (left : List Token) {c : Cursor} (h : c.atEnd = false) :
    batch (t :: left) c = (eatSymbol ";" >>= fun eaten =>
      if eaten = true then batch left
      else written >>= fun first => batch left >>= fun others => pure (first :: others)) c := by
  change (if c.atEnd = true then _ else _ : Parser (List Written)) c = _
  rw [if_neg (Bool.eq_false_iff.mp h)]

theorem batch_semicolon (t : Token) (left : List Token) {c : Cursor} (hend : c.atEnd = false)
    (h : c.isSymbol ";" = true) : batch (t :: left) c = batch left c.advance := by
  have heat := eats_symbol ";" c
  rw [<- Cursor.isSymbol_eq, if_pos h] at heat
  rw [batch_cons t left hend]
  change EStateM.bind (eatSymbol ";") _ c = _
  rw [EStateM.bind, heat]
  rfl

theorem batch_written (t : Token) (left : List Token) {c : Cursor} (hend : c.atEnd = false)
    (h : c.isSymbol ";" = false) : batch (t :: left) c =
      (written >>= fun first => batch left >>= fun others => pure (first :: others)) c := by
  have heat := eats_symbol ";" c
  rw [<- Cursor.isSymbol_eq, if_neg (Bool.eq_false_iff.mp h)] at heat
  rw [batch_cons t left hend]
  change EStateM.bind (eatSymbol ";") _ c = _
  rw [EStateM.bind, heat]
  rfl

theorem isSymbol_of_word {c : Cursor} {k : Mark} {symbol : String} (hk : c.marks.head? = some k)
    (hword : k.1 = .word) : c.isSymbol symbol = false := by
  rw [Cursor.isSymbol_eq, hk, Option.any_some, Bool.eq_false_iff]
  intro hsymbol
  rw [eq_of_beq hsymbol] at hword
  cases hword

/-- The tokens of a statement are parsed to it on their own. -/
theorem statement_alone {c c' d : Cursor} {s : Statement} {used : List Token}
    (hs : statement c = .ok s c') (hused : Moves used c c') (hends : Ends c'.marks)
    (hmarks : d.marks = used.map Token.mark) {k : Mark} (hk : d.marks.head? = some k) :
    exists d', statement d = .ok s d' ∧ Moves d.ahead d d' ∧ d'.ahead = [] := by
  have hcontinues : Continues c'.marks c d := by
    rw [Continues, hmarks]
    exact hused.marks
  have hlocal := local_statement hends k (n := c.ahead.length) (m := d.ahead.length)
  have hat : At (some k) d := by
    rintro _ ⟨⟩
    exact hk
  have hmeets := hlocal.meets c d hcontinues hat (Nat.le_refl _) (Nat.le_refl _)
  rcases hmeets.onward s c' hs (Nat.le_of_eq c'.length_marks) with ⟨d', hd, hcontinues'⟩
  have hend : d'.ahead = [] := by
    have hlength := hcontinues'.length_eq
    rw [Cursor.length_marks] at hlength
    exact List.eq_nil_of_length_eq_zero (by omega)
  rcases hlocal.short d hat s d' hd with ⟨taken, htaken, _⟩
  have hall : d.ahead = taken := by
    rw [htaken.ahead, hend, List.append_nil]
  rw [<- hall] at htaken
  exact ⟨d', hd, htaken, hend⟩

/-- Tokens that were moved to the front of a part of the source, and fill it, have its text. -/
theorem textBetween_shifted {d d' : Cursor} {used : List Token} {part : List Char} {offset : Nat}
    (hshifted : List.Forall₂ (Lexed.Shifted offset 0) used d.ahead) (hsome : d.ahead ≠ [])
    (hsource : d.source = String.ofList part) (hbehind : d.behind = [])
    (hmoves : Moves d.ahead d d')
    (hstart : forall t, t ∈ used.head? -> t.start = offset)
    (hstop : forall t, t ∈ used.getLast? -> t.stop = offset + byteSize part) :
    d'.textBetween d.pivot d'.previousEnd = String.ofList part := by
  have hpivot : d.pivot = 0 := by
    cases hfirst : d.ahead.head? with
    | none =>
        exact absurd (List.head?_eq_none_iff.mp hfirst) hsome
    | some t' =>
        rcases Lexed.Shifted.head hshifted hfirst with ⟨t, ht, hshift⟩
        have hsame := hshift.start
        rw [hstart t ht] at hsame
        rw [Cursor.pivot, Cursor.current, hfirst]
        dsimp only
        omega
  have hprevious : d'.previousEnd = byteSize part := by
    cases hlast : d.ahead.reverse.head? with
    | none =>
        rw [List.head?_eq_none_iff, List.reverse_eq_nil_iff] at hlast
        exact absurd hlast hsome
    | some t' =>
        rcases Lexed.Shifted.head (List.forall₂_reverse_iff.mpr hshifted) hlast with
          ⟨t, ht, hshift⟩
        rw [List.head?_reverse] at ht
        have hsame := hshift.stop
        rw [hstop t ht] at hsame
        rw [Cursor.previousEnd, hmoves.behind, hbehind, List.append_nil, hlast]
        dsimp only
        omega
  rw [Cursor.textBetween, hpivot, hprevious, hmoves.source, hsource, String.toList_ofList,
    Nat.min_self]
  have hwhole : (String.ofList part).toList = [] ++ (part ++ []) := by
    rw [String.toList_ofList, List.append_nil]
    rfl
  have hslice := slice_part hwhole
  rw [byteSize, Nat.zero_add] at hslice
  exact hslice

/-- A statement that takes all tokens is the only one of its source. -/
theorem batch_alone {d d' : Cursor} {s : Statement} {k : Mark} (hk : d.marks.head? = some k)
    (hs : statement d = .ok s d') (hend : d'.ahead = []) :
    batch d.ahead d = .ok [⟨s, d'.textBetween d.pivot d'.previousEnd⟩] d' := by
  have hdone : d'.atEnd = true := by
    rw [Cursor.atEnd, hend]
    rfl
  have hwritten : written d = .ok ⟨s, d'.textBetween d.pivot d'.previousEnd⟩ d' := by
    rw [written_eq_ok]
    refine ⟨s, hs, ?_, rfl⟩
    rw [hdone]
    rfl
  cases hahead : d.ahead with
  | nil =>
      rw [Cursor.marks, hahead] at hk
      cases hk
  | cons first more =>
      have hstarted : d.atEnd = false := by
        rw [Cursor.atEnd, hahead]
        rfl
      rcases statement_head hs with ⟨k', hk', hkind⟩
      cases hk.symm.trans hk'
      rw [batch_written first more hstarted (isSymbol_of_word hk hkind), bind_eq_ok]
      exact ⟨_, d', hwritten, bind_eq_ok.mpr ⟨[], d', batch_atEnd more hdone, rfl⟩⟩

/-- The tokens of a statement, on their own, are a source of that statement. -/
theorem parseBatch_part {c c' : Cursor} {s : Statement} {used : List Token} {part : List Char}
    {offset : Nat} (hs : statement c = .ok s c') (hused : Moves used c c') (hends : Ends c'.marks)
    (hsome : used ≠ []) (hlexed : Lexed offset part used)
    (hstart : forall t, t ∈ used.head? -> t.start = offset)
    (hstop : forall t, t ∈ used.getLast? -> t.stop = offset + byteSize part) :
    parseBatch (String.ofList part) = .ok [⟨s, String.ofList part⟩] := by
  rcases hlexed.shift 0 with ⟨used', hlexed', hshifted⟩
  let d : Cursor := ⟨String.ofList part, [], used'⟩
  have hsource : Cursor.ofSource (String.ofList part) = .ok d := by
    refine ofSource_lexed ?_
    rw [String.toList_ofList]
    exact hlexed'
  have hmarks : d.marks = used.map Token.mark := Lexed.Shifted.marks hshifted
  have hsome' : d.ahead ≠ [] := by
    intro hnone
    change used' = [] at hnone
    subst hnone
    cases hshifted
    exact hsome rfl
  rcases List.exists_cons_of_ne_nil hsome with ⟨first, more, rfl⟩
  rcases statement_alone hs hused hends hmarks (by rw [hmarks]; rfl) with ⟨d', hd, hmoves, hend⟩
  rw [parseBatch, hsource, Outcome.ok_bind, batch_alone (by rw [hmarks]; rfl) hd hend,
    textBetween_shifted hshifted hsome' rfl rfl hmoves hstart hstop]

/-!
# All statements
-/

/-- Where the tokens stand that were taken between two cursors. -/
structure Taken (front cs : List Char) (semicolons used : List Token) (c c' : Cursor)
    (gap part after : List Char) : Prop where
  whole : cs = gap ++ (part ++ after)
  lexedGap : Lexed (byteSize front) gap semicolons
  lexedPart : Lexed (byteSize (front ++ gap)) part used
  lexedAfter : Lexed (byteSize (front ++ gap ++ part)) after c'.ahead
  start : forall t, t ∈ used.head? -> t.start = byteSize (front ++ gap)
  stop : forall t, t ∈ used.getLast? -> t.stop = byteSize (front ++ gap) + byteSize part
  text : c'.textBetween c.pivot c'.previousEnd = String.ofList part

theorem exists_taken {c c' : Cursor} {used semicolons : List Token} {front cs : List Char}
    (hused : Moves used c c') (hsome : used ≠ []) (hsource : c.source.toList = front ++ cs)
    (hlexed : Lexed (byteSize front) cs (semicolons ++ c.ahead)) :
    exists gap part after, Taken front cs semicolons used c c' gap part after := by
  rcases List.exists_cons_of_ne_nil hsome with ⟨first, more, hfirst⟩
  rcases List.eq_nil_or_concat used with hnil | ⟨init, last, hlast⟩
  · exact absurd hnil hsome
  have hbefore := hlexed
  rw [hused.ahead, hfirst] at hbefore
  rcases hbefore.before with ⟨gap, back, rfl, hgap, hstart, hback⟩
  rw [<- byteSize_append] at hstart
  have hends : first :: (more ++ c'.ahead) = init ++ last :: c'.ahead := by
    rw [<- List.cons_append, <- hfirst, hlast, List.concat_eq_append, List.append_assoc]
    rfl
  rw [hstart, show first :: more.append c'.ahead = init ++ last :: c'.ahead from hends] at hback
  rcases hback.through with ⟨part, after, rfl, hpart, hstop, hafter⟩
  rw [<- List.concat_eq_append, <- hlast] at hpart
  have htotal : byteSize c.source.toList = last.stop + byteSize after := by
    rw [hsource, <- List.append_assoc, byteSize_append, byteSize_append part after, hstop,
      Nat.add_assoc]
  have hpivot : c.pivot = byteSize (front ++ gap) := by
    rw [Cursor.pivot, Cursor.current, hused.ahead, hfirst, <- hstart]
    rfl
  have hprevious : c'.previousEnd = last.stop := by
    rw [Cursor.previousEnd, hused.behind, hlast, List.concat_eq_append, List.reverse_append]
    rfl
  refine ⟨gap, part, after, rfl, hgap, hpart, ?_, ?_, ?_, ?_⟩
  · rw [byteSize_append, <- hstop]
    exact hafter
  · rw [hfirst]
    rintro t ⟨⟩
    exact hstart
  · rw [hlast, List.concat_eq_append, List.getLast?_concat]
    rintro t ⟨⟩
    exact hstop
  · rw [Cursor.textBetween, hused.source, hpivot, hprevious, htotal,
      Nat.min_eq_left (Nat.le_add_right _ _), hstop]
    exact slice_part (by rw [hsource, List.append_assoc])

/-- Nothing but semicolons is left. -/
theorem batch_laid_done {left semicolons : List Token} {c c' : Cursor} {ws : List Written}
    {front cs : List Char} (hws : batch left c = .ok ws c') (hend : c.ahead = [])
    (hlexed : Lexed (byteSize front) cs (semicolons ++ c.ahead))
    (hsemicolons : forall t, t ∈ semicolons -> t.isSymbol ";" = true) :
    Laid cs ws ∧ forall w, w ∈ ws -> parseBatch w.sql = .ok [w] := by
  rw [batch_atEnd left (by rw [Cursor.atEnd, hend]; rfl)] at hws
  cases hws
  rw [hend, List.append_nil] at hlexed
  refine ⟨Laid.done (hlexed.separates hsemicolons), ?_⟩
  rintro w ⟨⟩

/-- What is left of a source is laid out as statements; semicolons stand in front of the next one. -/
theorem batch_laid (left : List Token) :
    forall {c c' : Cursor} {ws : List Written} {front cs : List Char} {semicolons : List Token},
      batch left c = .ok ws c' -> c.ahead.length ≤ left.length -> c.source.toList = front ++ cs ->
      Lexed (byteSize front) cs (semicolons ++ c.ahead) ->
      (forall t, t ∈ semicolons -> t.isSymbol ";" = true) ->
        Laid cs ws ∧ forall w, w ∈ ws -> parseBatch w.sql = .ok [w] := by
  induction left with
  | nil =>
      intro c c' ws front cs semicolons hws hlength _
      exact batch_laid_done hws (List.eq_nil_of_length_eq_zero (Nat.le_zero.mp hlength))
  | cons t left ih =>
      intro c c' ws front cs semicolons hws hlength hsource hlexed hsemicolons
      cases hahead : c.ahead with
      | nil =>
          exact batch_laid_done hws hahead hlexed hsemicolons
      | cons first more =>
          have hend : c.atEnd = false := by
            rw [Cursor.atEnd, hahead]
            rfl
          cases hsemicolon : c.isSymbol ";" with
          | true =>
              rw [batch_semicolon t left hend hsemicolon] at hws
              have hmoves := Moves.advance (c := c) (t := first) (by rw [Cursor.current, hahead]; rfl)
              rw [hmoves.ahead, <- List.append_assoc] at hlexed
              rw [hmoves.ahead] at hlength
              refine ih hws (Nat.le_of_succ_le_succ hlength) ?_ hlexed ?_
              · rw [hmoves.source]
                exact hsource
              · intro u hu
                rcases List.mem_append.mp hu with hu | hu
                · exact hsemicolons u hu
                · rw [List.mem_singleton.mp hu]
                  rw [Cursor.isSymbol, Cursor.current, hahead] at hsemicolon
                  exact hsemicolon
          | false =>
              rw [batch_written t left hend hsemicolon, bind_eq_ok] at hws
              rcases hws with ⟨w, c₁, hw, hws⟩
              rcases bind_eq_ok.mp hws with ⟨others, c₂, hothers, hws⟩
              cases hws
              rcases written_eq_ok.mp hw with ⟨s, hs, hafter, rfl⟩
              have hends := ends_marks hafter
              rcases statement_head hs with ⟨k, hk, _⟩
              have hat : At (some k) c := by
                rintro _ ⟨⟩
                exact hk
              rcases (local_statement hends k (n := 0) (m := 0)).long c hat s c₁ hs with
                ⟨used, hused, hsome⟩
              have hne : used ≠ [] := by
                rintro rfl
                exact absurd hsome (Nat.not_succ_le_zero 0)
              rcases exists_taken hused hne hsource hlexed with ⟨gap, part, after, htaken⟩
              have hlength' : c₁.ahead.length ≤ left.length := by
                have hpos := List.length_pos_iff.mpr hne
                rw [hused.ahead, List.length_append, List.length_cons] at hlength
                omega
              have hsource' : c₁.source.toList = front ++ gap ++ part ++ after := by
                rw [hused.source, hsource, htaken.whole, List.append_assoc, List.append_assoc]
              have hrest : Lexed _ after ([] ++ c₁.ahead) := htaken.lexedAfter
              rcases ih hothers hlength' hsource' hrest (by rintro u ⟨⟩) with ⟨hlaid, hagain⟩
              have hpart := parseBatch_part hs hused hends hne htaken.lexedPart htaken.start htaken.stop
              rw [htaken.text, htaken.whole]
              constructor
              · have hnext := @Laid.next gap after ⟨s, String.ofList part⟩ others
                  (htaken.lexedGap.separates hsemicolons) hlaid
                rw [String.toList_ofList] at hnext
                exact hnext
              · intro w hw
                cases hw with
                | head =>
                    exact hpart
                | tail _ hw =>
                    exact hagain w hw

end Parser

/-- The statements of a source are recorded as they are written there. -/
theorem parseBatch_recorded {source : String} {ws : List Written}
    (h : parseBatch source = .ok ws) :
    Laid source.toList ws ∧ forall w, w ∈ ws -> parseBatch w.sql = .ok [w] := by
  rw [parseBatch] at h
  cases htokens : tokenize source with
  | error failure =>
      rw [Cursor.ofSource, htokens] at h
      cases h
  | ok tokens =>
      have hlexed : Lexed (byteSize []) source.toList ([] ++ tokens) :=
        tokenize_eq_ok.mp htokens
      rw [ofSource_lexed hlexed, Outcome.ok_bind] at h
      split at h
      · rename_i statements c hbatch
        cases h
        have hsource : source.toList = [] ++ source.toList := rfl
        exact Parser.batch_laid tokens hbatch (Nat.le_refl _) hsource hlexed (by rintro t ⟨⟩)
      · cases h

theorem select_and_delete_recorded : exists ws : List Written,
    parseBatch "select a from t where (a) = 1 delete from t where b = 'x;y'; -- done" = .ok ws ∧
      ws.map Written.sql = ["select a from t where (a) = 1", "delete from t where b = 'x;y'"] ∧
      Laid "select a from t where (a) = 1 delete from t where b = 'x;y'; -- done".toList ws ∧
      forall w, w ∈ ws -> parseBatch w.sql = .ok [w] := by
  have htexts : (parseBatch "select a from t where (a) = 1 delete from t where b = 'x;y'; -- done"
      ).toOption.map (·.map Written.sql) =
        some ["select a from t where (a) = 1", "delete from t where b = 'x;y'"] := by
    decide +kernel
  cases hws : parseBatch "select a from t where (a) = 1 delete from t where b = 'x;y'; -- done" with
  | error failure =>
      rw [hws] at htexts
      cases htexts
  | ok ws =>
      rw [hws] at htexts
      exact ⟨ws, rfl, Option.some.inj htexts, parseBatch_recorded hws⟩

end Sql
end RecordSql
