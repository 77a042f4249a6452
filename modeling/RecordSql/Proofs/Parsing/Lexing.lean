import Mathlib.Data.List.Forall2
import RecordSql.Proofs.Outcome
import RecordSql.Proofs.Parsing.Consumption

/-!
# Lexemes

What stands at the start of a source takes at least one character and does not depend on the
characters after it.  A source that ends where one of its lexemes ends is therefore cut into the
same tokens.
-/

namespace RecordSql
namespace Sql

/-!
# Parts of a lexeme
-/

theorem commentLength_bounds {cs : List Char} {n : Nat} (h : commentLength cs = some n) :
    2 ≤ n ∧ n ≤ cs.length := by
  fun_induction commentLength cs generalizing n with
  | case1 rest =>
      cases h
      exact ⟨Nat.le_refl 2, Nat.le_add_left 2 _⟩
  | case2 c rest hopen ih =>
      rcases Option.map_eq_some_iff.mp h with ⟨k, hk, rfl⟩
      have hbounds := ih hk
      rw [List.length_cons]
      omega
  | case3 =>
      cases h

theorem commentLength_front {front back : List Char} {n : Nat}
    (h : commentLength (front ++ back) = some n) (hn : n ≤ front.length) :
    commentLength front = some n := by
  fun_induction commentLength front generalizing n with
  | case1 rest =>
      exact h
  | case2 c rest hopen ih =>
      rw [List.cons_append, commentLength] at h
      · rcases Option.map_eq_some_iff.mp h with ⟨k, hk, rfl⟩
        rw [ih hk (Nat.le_of_succ_le_succ hn)]
        rfl
      · rintro tail rfl htail
        cases rest with
        | nil =>
            rw [List.nil_append] at htail
            subst htail
            have hbounds := (commentLength_bounds h).1
            rw [List.length_singleton] at hn
            omega
        | cons d rest =>
            cases htail
            exact hopen rest rfl rfl
  | case3 =>
      have hbounds := (commentLength_bounds h).1
      rw [List.length_nil] at hn
      omega

theorem delimited_bounds {close : Char} {cs text : List Char} {n : Nat}
    (h : delimited close cs = some (text, n)) : 1 ≤ n ∧ n ≤ cs.length := by
  fun_induction delimited close cs generalizing text n with
  | case1 => cases h
  | case2 c hclose =>
      cases h
      exact ⟨Nat.le_refl 1, Nat.le_refl 1⟩
  | case3 => cases h
  | case4 c d rest hc hd ih =>
      rcases Option.map_eq_some_iff.mp h with ⟨⟨inner, k⟩, hk, heq⟩
      cases heq
      have hbounds := ih hk
      rw [List.length_cons, List.length_cons]
      omega
  | case5 c d rest hc hd =>
      cases h
      exact ⟨Nat.le_refl 1, Nat.le_add_left 1 _⟩
  | case6 c d rest hc ih =>
      rcases Option.map_eq_some_iff.mp h with ⟨⟨inner, k⟩, hk, heq⟩
      cases heq
      have hbounds := ih hk
      rw [List.length_cons]
      omega

theorem delimited_front {close : Char} {front back text : List Char} {n : Nat}
    (h : delimited close (front ++ back) = some (text, n)) (hn : n ≤ front.length) :
    delimited close front = some (text, n) := by
  fun_induction delimited close front generalizing text n with
  | case1 =>
      have hbounds := (delimited_bounds h).1
      rw [List.length_nil] at hn
      omega
  | case2 c hclose =>
      cases back with
      | nil =>
          rw [List.append_nil, delimited, if_pos hclose] at h
          exact h
      | cons d back =>
          rw [List.singleton_append, delimited, if_pos hclose] at h
          split at h
          · rcases Option.map_eq_some_iff.mp h with ⟨⟨inner, k⟩, hk, heq⟩
            cases heq
            rw [List.length_singleton] at hn
            omega
          · exact h
  | case3 c hclose =>
      cases back with
      | nil =>
          rw [List.append_nil, delimited, if_neg hclose] at h
          cases h
      | cons d back =>
          rw [List.singleton_append, delimited, if_neg hclose] at h
          rcases Option.map_eq_some_iff.mp h with ⟨⟨inner, k⟩, hk, heq⟩
          cases heq
          have hbounds := (delimited_bounds hk).1
          rw [List.length_singleton] at hn
          omega
  | case4 c d rest hc hd ih =>
      rw [List.cons_append, List.cons_append, delimited, if_pos hc, if_pos hd] at h
      rcases Option.map_eq_some_iff.mp h with ⟨⟨inner, k⟩, hk, heq⟩
      cases heq
      rw [List.length_cons, List.length_cons] at hn
      rw [ih hk (by omega)]
      rfl
  | case5 c d rest hc hd =>
      rw [List.cons_append, List.cons_append, delimited, if_pos hc, if_neg hd] at h
      exact h
  | case6 c d rest hc ih =>
      rw [List.cons_append, List.cons_append, delimited, if_neg hc] at h
      rcases Option.map_eq_some_iff.mp h with ⟨⟨inner, k⟩, hk, heq⟩
      cases heq
      rw [List.length_cons] at hn
      rw [ih hk (by omega)]
      rfl

theorem numberLength_le (seen : Bool) (cs : List Char) : numberLength seen cs ≤ cs.length := by
  fun_induction numberLength seen cs with
  | case1 => exact Nat.le_refl 0
  | case2 seen c rest hdigit ih => exact Nat.succ_le_succ ih
  | case3 seen c rest hdigit hpoint ih => exact Nat.succ_le_succ ih
  | case4 => exact Nat.zero_le _

theorem numberLength_front {seen : Bool} {front back : List Char}
    (h : numberLength seen (front ++ back) ≤ front.length) :
    numberLength seen front = numberLength seen (front ++ back) := by
  fun_induction numberLength seen front with
  | case1 seen =>
      rw [List.nil_append] at h ⊢
      exact (Nat.le_zero.mp h).symm
  | case2 seen c rest hdigit ih =>
      rw [List.cons_append, numberLength, if_pos hdigit] at h ⊢
      rw [ih (Nat.le_of_succ_le_succ h)]
  | case3 seen c rest hdigit hpoint ih =>
      rw [List.cons_append, numberLength, if_neg hdigit, if_pos hpoint] at h ⊢
      rw [ih (Nat.le_of_succ_le_succ h)]
  | case4 seen c rest hdigit hpoint =>
      rw [List.cons_append, numberLength, if_neg hdigit, if_neg hpoint]

theorem numberLength_pos {cs : List Char} (h : startsNumber cs = true) :
    1 ≤ numberLength false cs := by
  unfold startsNumber at h
  split at h
  · rename_i c rest
    rw [numberLength, if_neg (by decide), if_pos (by decide)]
    exact Nat.le_add_left 1 _
  · rename_i c rest _
    rw [numberLength, if_pos h]
    exact Nat.le_add_left 1 _
  · cases h

theorem takeWhile_front {p : Char -> Bool} {front back : List Char}
    (h : ((front ++ back).takeWhile p).length ≤ front.length) :
    front.takeWhile p = (front ++ back).takeWhile p := by
  rw [List.takeWhile_append] at h ⊢
  split
  · rename_i hall
    rw [if_pos hall] at h
    rw [List.length_append] at h
    have hnil : back.takeWhile p = [] := List.eq_nil_of_length_eq_zero (by omega)
    rw [hnil, List.append_nil]
    exact (List.takeWhile_prefix p).eq_of_length hall
  · rfl

theorem quotedLexeme_ok {cause : ParseCause} {kind : TokenKind} {opening n : Nat} {close : Char}
    {cs : List Char} {found : Lexeme}
    (h : quotedLexeme cause kind opening close cs = .ok (found, n)) :
    exists text k, delimited close (cs.drop opening) = some (text, k) ∧
      found = .token kind text ∧ n = opening + k := by
  unfold quotedLexeme at h
  split at h
  · rename_i text k hk
    cases h
    exact ⟨text, k, hk, rfl, rfl⟩
  · cases h

theorem quotedLexeme_front {cause : ParseCause} {kind : TokenKind} {opening n : Nat} {close : Char}
    {front back : List Char} {found : Lexeme}
    (h : quotedLexeme cause kind opening close (front ++ back) = .ok (found, n))
    (hopening : opening ≤ front.length) (hn : n ≤ front.length) :
    quotedLexeme cause kind opening close front = .ok (found, n) := by
  rcases quotedLexeme_ok h with ⟨text, k, hk, rfl, rfl⟩
  rw [List.drop_append_of_le_length hopening] at hk
  rw [quotedLexeme, delimited_front hk]
  rw [List.length_drop]
  omega

theorem startsNumber_cons (c : Char) (rest : List Char) :
    startsNumber (c :: rest) = (c.isDigit || (c == '.' && rest.head?.any Char.isDigit)) := by
  by_cases hpoint : c = '.'
  · subst hpoint
    cases rest <;> rfl
  · have hnot : (c == '.') = false := beq_eq_false_iff_ne.mpr hpoint
    rw [hnot, Bool.false_and, Bool.or_false, startsNumber]
    intro tail rest' hc _
    exact hpoint hc

theorem length_of_isPairSymbol {cs : List Char} (h : isPairSymbol cs = true) : cs.length = 2 := by
  rw [isPairSymbol, List.any_eq_true] at h
  rcases h with ⟨pair, hpair, hcs⟩
  have hlengths : forall pair, pair ∈ ["<>", "!=", "<=", ">="] -> pair.toList.length = 2 := by
    decide
  rw [<- eq_of_beq hcs]
  exact hlengths pair hpair

theorem two_le_numberLength {c : Char} {rest : List Char} (hdigit : c.isDigit = false)
    (h : startsNumber (c :: rest) = true) : 2 ≤ numberLength false (c :: rest) := by
  rw [startsNumber_cons, hdigit, Bool.false_or, Bool.and_eq_true] at h
  rw [numberLength, hdigit, if_neg Bool.false_ne_true, h.1, Bool.not_false, Bool.and_true,
    if_pos rfl]
  cases rest with
  | nil =>
      exact absurd h.2 (by decide)
  | cons d rest =>
      rw [numberLength, if_pos (show d.isDigit = true from h.2)]
      exact Nat.le_add_left 2 _

/-!
# One lexeme
-/

section

variable {ε α : Type} {p p' : Prop} [Decidable p] [Decidable p'] {x : α} {a a' b b' : Except ε α}

/-- What an alternative returns comes out of one of its two sides. -/
theorem ite_ok_elim {q : Prop} (h : (if p then a else b) = .ok x) (ha : p -> a = .ok x -> q)
    (hb : ¬ p -> b = .ok x -> q) : q := by
  split at h
  · exact ha ‹_› h
  · exact hb ‹_› h

/-- An alternative returns what another one does if it takes the same side. -/
theorem ite_ok_transfer (h : (if p then a else b) = .ok x)
    (ha : p -> a = .ok x -> p' ∧ a' = .ok x) (hnot : ¬ p -> ¬ p')
    (hb : ¬ p -> b = .ok x -> b' = .ok x) : (if p' then a' else b') = .ok x := by
  split at h
  · rcases ha ‹_› h with ⟨hp', ha'⟩
    rw [if_pos hp', ha']
  · rw [if_neg (hnot ‹_›), hb ‹_› h]

end

theorem lexeme_bounds {c : Char} {rest : List Char} {found : Lexeme} {n : Nat}
    (h : lexeme c rest = .ok (found, n)) : 1 ≤ n ∧ n ≤ rest.length + 1 := by
  have hquoted : forall {cause kind close} {opening : Nat}, opening ≤ rest.length + 1 ->
      quotedLexeme cause kind opening close (c :: rest) = .ok (found, n) ->
        1 ≤ n ∧ n ≤ rest.length + 1 := by
    intro cause kind close opening hopening hfound
    rcases quotedLexeme_ok hfound with ⟨text, k, hk, _, rfl⟩
    have hbounds := delimited_bounds hk
    rw [List.length_drop, List.length_cons] at hbounds
    omega
  refine ite_ok_elim h (fun _ h => ?_) fun _ h => ite_ok_elim h (fun hdashes h => ?_) fun _ h =>
    ite_ok_elim h (fun _ h => ?_) fun _ h => ite_ok_elim h (fun _ h => ?_) fun _ h =>
    ite_ok_elim h (fun hprefixed h => ?_) fun _ h => ite_ok_elim h (fun _ h => ?_) fun _ h =>
    ite_ok_elim h (fun _ h => ?_) fun _ h => ite_ok_elim h (fun hnumber h => ?_) fun _ h =>
    ite_ok_elim h (fun _ h => ?_) fun _ h => ite_ok_elim h (fun hpair h => ?_) fun _ h =>
    ite_ok_elim h (fun _ h => ?_) fun _ h => nomatch h
  · cases h
    omega
  · cases h
    have hlength := (List.takeWhile_sublist (fun c => c != '\n') (l := c :: rest)).length_le
    rw [List.length_cons] at hlength
    refine ⟨?_, hlength⟩
    rw [eq_of_beq (Bool.and_eq_true_iff.mp hdashes).1, List.takeWhile_cons_of_pos (by decide)]
    exact Nat.le_add_left 1 _
  · split at h
    · rename_i k hk
      cases h
      have hbounds := commentLength_bounds hk
      rw [List.length_drop, List.length_cons] at hbounds
      omega
    · cases h
  · exact hquoted (Nat.le_add_left 1 _) h
  · refine hquoted ?_ h
    rcases List.head?_eq_some_iff.mp (eq_of_beq (Bool.and_eq_true_iff.mp hprefixed).2) with
      ⟨tail, rfl⟩
    exact Nat.le_add_left _ _
  · exact hquoted (Nat.le_add_left 1 _) h
  · exact hquoted (Nat.le_add_left 1 _) h
  · cases h
    exact ⟨numberLength_pos hnumber, numberLength_le false (c :: rest)⟩
  · cases h
    have hlength := (List.takeWhile_sublist continuesWord (l := rest)).length_le
    rw [List.length_cons]
    omega
  · cases h
    have hlength := length_of_isPairSymbol hpair
    rw [List.length_take, List.length_cons] at hlength
    omega
  · cases h
    omega

theorem head?_front {front back : List Char} {d : Char} (h : front.head? = some d) :
    (front ++ back).head? = some d := by
  rcases List.head?_eq_some_iff.mp h with ⟨tail, rfl⟩
  rfl

theorem head?_append_of_pos {front back : List Char} (h : 1 ≤ front.length) :
    (front ++ back).head? = front.head? := by
  cases front with
  | nil =>
      exact absurd h (Nat.not_succ_le_zero 0)
  | cons d front =>
      rfl

theorem startsNumber_append {c : Char} {front : List Char} (back : List Char)
    (h : startsNumber (c :: front) = true) : startsNumber (c :: (front ++ back)) = true := by
  rw [startsNumber_cons, Bool.or_eq_true, Bool.and_eq_true] at h ⊢
  refine h.imp_right fun h => ⟨h.1, ?_⟩
  cases front with
  | nil =>
      exact absurd h.2 (by decide)
  | cons d front =>
      exact h.2

theorem isPairSymbol_append {c : Char} {front : List Char} (back : List Char)
    (h : isPairSymbol ((c :: front).take 2) = true) :
    isPairSymbol ((c :: (front ++ back)).take 2) = true := by
  cases front with
  | nil =>
      exact absurd (length_of_isPairSymbol h) (by simp)
  | cons d front =>
      exact h

/-- A comment up to the end of a line is longer than the dashes that start it. -/
theorem two_le_lineComment {c : Char} {rest : List Char}
    (h : (c == '-' && rest.head? == some '-') = true) :
    2 ≤ ((c :: rest).takeWhile fun c => c != '\n').length := by
  rcases Bool.and_eq_true_iff.mp h with ⟨hdash, hhead⟩
  rcases List.head?_eq_some_iff.mp (eq_of_beq hhead) with ⟨tail, rfl⟩
  rw [eq_of_beq hdash, List.takeWhile_cons_of_pos (by decide),
    List.takeWhile_cons_of_pos (by decide)]
  exact Nat.le_add_left 2 _

/-- A lexeme does not depend on what comes after it. -/
theorem lexeme_front {c : Char} {front back : List Char} {found : Lexeme} {n : Nat}
    (h : lexeme c (front ++ back) = .ok (found, n)) (hn : n ≤ front.length + 1) :
    lexeme c front = .ok (found, n) := by
  have hsame : forall {first : Bool} {d : Char}, 2 ≤ n ->
      (first && (front ++ back).head? == some d) = true ->
        (first && front.head? == some d) = true := by
    intro first d hlength hhead
    rw [head?_append_of_pos (by omega)] at hhead
    exact hhead
  have hnot : forall {first : Bool} {d : Char},
      ¬ (first && (front ++ back).head? == some d) = true ->
        ¬ (first && front.head? == some d) = true := by
    intro first d hhead hfront
    rw [Bool.and_eq_true] at hhead hfront
    refine hhead ⟨hfront.1, ?_⟩
    rw [head?_front (eq_of_beq hfront.2)]
    exact beq_self_eq_true _
  have hquoted : forall {cause kind close} {opening : Nat}, opening ≤ front.length + 1 ->
      quotedLexeme cause kind opening close (c :: (front ++ back)) = .ok (found, n) ->
        quotedLexeme cause kind opening close (c :: front) = .ok (found, n) :=
    fun hopening hfound => quotedLexeme_front hfound hopening hn
  refine ite_ok_transfer h (fun hp h => ⟨hp, h⟩) id fun _ h =>
    ite_ok_transfer h (fun hdashes h => ?_) hnot fun _ h =>
    ite_ok_transfer h (fun hcomment h => ?_) hnot fun _ h =>
    ite_ok_transfer h (fun hp h => ⟨hp, hquoted (Nat.le_add_left 1 _) h⟩) id fun _ h =>
    ite_ok_transfer h (fun hprefixed h => ?_) hnot fun _ h =>
    ite_ok_transfer h (fun hp h => ⟨hp, hquoted (Nat.le_add_left 1 _) h⟩) id fun _ h =>
    ite_ok_transfer h (fun hp h => ⟨hp, hquoted (Nat.le_add_left 1 _) h⟩) id fun _ h =>
    ite_ok_transfer h (fun hnumber h => ?_) (mt (startsNumber_append back)) fun _ h =>
    ite_ok_transfer h (fun hp h => ?_) id fun _ h =>
    ite_ok_transfer h (fun hpair h => ?_) (mt (isPairSymbol_append back)) fun _ h =>
    ite_ok_transfer h (fun hp h => ⟨hp, h⟩) id fun _ h => nomatch h
  · cases h
    refine ⟨hsame (two_le_lineComment hdashes) hdashes, ?_⟩
    have htake : (c :: front).takeWhile (fun c => c != '\n') =
        (c :: front ++ back).takeWhile fun c => c != '\n' :=
      takeWhile_front hn
    rw [htake]
    rfl
  · split at h
    · rename_i k hk
      cases h
      have hfront := hsame (Nat.le_add_left 2 k) hcomment
      refine ⟨hfront, ?_⟩
      rcases List.head?_eq_some_iff.mp (eq_of_beq (Bool.and_eq_true_iff.mp hfront).2) with
        ⟨tail, rfl⟩
      have hinner : commentLength tail = some k :=
        commentLength_front hk (by rw [List.length_cons] at hn; omega)
      rw [List.drop_succ_cons, List.drop_succ_cons, List.drop_zero, hinner]
    · cases h
  · rcases quotedLexeme_ok h with ⟨text, k, hk, _, rfl⟩
    have hfront := hsame (Nat.le_add_right 2 k) hprefixed
    refine ⟨hfront, hquoted ?_ h⟩
    rcases List.head?_eq_some_iff.mp (eq_of_beq (Bool.and_eq_true_iff.mp hfront).2) with ⟨tail, rfl⟩
    exact Nat.le_add_left _ _
  · cases h
    constructor
    · cases hdigit : c.isDigit with
      | true =>
          rw [startsNumber_cons, hdigit]
          rfl
      | false =>
          have htwo := two_le_numberLength hdigit hnumber
          rw [startsNumber_cons, head?_append_of_pos (by omega), <- startsNumber_cons] at hnumber
          exact hnumber
    · have hlength : numberLength _ (c :: front) = numberLength _ (c :: front ++ back) :=
        numberLength_front hn
      rw [hlength]
      exact congrArg (fun text => Except.ok (Lexeme.token .number text, _))
        (List.take_append_of_le_length hn).symm
  · cases h
    rw [List.length_cons, Nat.add_le_add_iff_right] at hn
    rw [takeWhile_front hn]
    exact ⟨hp, rfl⟩
  · cases h
    cases front with
    | nil =>
        rw [List.length_nil] at hn
        omega
    | cons d front =>
        exact ⟨hpair, rfl⟩

/-!
# Whole sources
-/

/-- The tokens that a source is cut into, from an offset on. -/
inductive Lexed : Nat -> List Char -> List Token -> Prop where
  | done {offset : Nat} : Lexed offset [] []
  | gap {offset n : Nat} {c : Char} {rest : List Char} {tokens : List Token}
      (found : lexeme c rest = .ok (.gap, n))
      (others : Lexed (offset + byteSize ((c :: rest).take n)) ((c :: rest).drop n) tokens) :
      Lexed offset (c :: rest) tokens
  | token {offset n : Nat} {c : Char} {rest text : List Char} {kind : TokenKind}
      {tokens : List Token} (found : lexeme c rest = .ok (.token kind text, n))
      (others : Lexed (offset + byteSize ((c :: rest).take n)) ((c :: rest).drop n) tokens) :
      Lexed offset (c :: rest)
        (⟨kind, String.ofList text, offset, offset + byteSize ((c :: rest).take n)⟩ :: tokens)

/-- The first lexeme of a source, and then the tokens after it. -/
theorem scan_cons (source : String) (fuel offset : Nat) (c : Char) (rest : List Char) :
    scan source (fuel + 1) offset (c :: rest) =
      match lexeme c rest with
      | .error cause =>
          .error ⟨cause, offset, failureStop cause offset (c :: rest),
            slice source offset (failureStop cause offset (c :: rest))⟩
      | .ok (.gap, n) =>
          scan source fuel (offset + byteSize ((c :: rest).take n)) ((c :: rest).drop n)
      | .ok (.token kind text, n) =>
          scan source fuel (offset + byteSize ((c :: rest).take n)) ((c :: rest).drop n) >>=
            fun tokens => .ok (⟨kind, String.ofList text, offset,
              offset + byteSize ((c :: rest).take n)⟩ :: tokens) := by
  conv_lhs => unfold scan
  rcases lexeme c rest with _ | ⟨_ | _, _⟩ <;> rfl

theorem scan_lexed {source : String} {fuel offset : Nat} {cs : List Char} {tokens : List Token}
    (hfuel : cs.length ≤ fuel) (h : scan source fuel offset cs = .ok tokens) :
    Lexed offset cs tokens := by
  induction fuel generalizing offset cs tokens with
  | zero =>
      cases List.eq_nil_of_length_eq_zero (Nat.le_zero.mp hfuel)
      cases h
      exact Lexed.done
  | succ fuel ih =>
      cases cs with
      | nil =>
          cases h
          exact Lexed.done
      | cons c rest =>
          rw [scan_cons] at h
          cases hfound : lexeme c rest with
          | error cause =>
              rw [hfound] at h
              cases h
          | ok result =>
              rcases result with ⟨found, n⟩
              have hbounds := lexeme_bounds hfound
              have hothers : ((c :: rest).drop n).length ≤ fuel := by
                rw [List.length_drop]
                omega
              rw [hfound] at h
              cases found with
              | gap =>
                  exact Lexed.gap hfound (ih hothers h)
              | token kind text =>
                  rcases Outcome.bind_eq_ok.mp h with ⟨others, hscan, h⟩
                  cases h
                  exact Lexed.token hfound (ih hothers hscan)

theorem lexed_scan {source : String} {fuel offset : Nat} {cs : List Char} {tokens : List Token}
    (hfuel : cs.length ≤ fuel) (h : Lexed offset cs tokens) :
    scan source fuel offset cs = .ok tokens := by
  have hless : forall {fuel n : Nat} {c : Char} {rest : List Char} {found : Lexeme},
      (c :: rest).length ≤ fuel + 1 -> lexeme c rest = .ok (found, n) ->
        ((c :: rest).drop n).length ≤ fuel := by
    intro fuel n c rest found hfuel hfound
    have hbounds := lexeme_bounds hfound
    rw [List.length_drop]
    omega
  induction h generalizing fuel with
  | done =>
      cases fuel <;> rfl
  | gap hfound _ ih =>
      cases fuel with
      | zero =>
          cases hfuel
      | succ fuel =>
          rw [scan_cons, hfound]
          exact ih (hless hfuel hfound)
  | token hfound _ ih =>
      cases fuel with
      | zero =>
          cases hfuel
      | succ fuel =>
          rw [scan_cons, hfound]
          simp only [ih (hless hfuel hfound), Outcome.ok_bind]

theorem tokenize_eq_ok {source : String} {tokens : List Token} :
    tokenize source = .ok tokens <-> Lexed 0 source.toList tokens :=
  ⟨scan_lexed (Nat.le_refl _), lexed_scan (Nat.le_refl _)⟩

theorem ofSource_lexed {source : String} {tokens : List Token} (h : Lexed 0 source.toList tokens) :
    Cursor.ofSource source = .ok ⟨source, [], tokens⟩ := by
  rw [Cursor.ofSource, tokenize_eq_ok.mpr h]
  rfl

/-!
# Cutting a source
-/

theorem byteSize_append (front back : List Char) :
    byteSize (front ++ back) = byteSize front + byteSize back := by
  induction front with
  | nil =>
      exact (Nat.zero_add _).symm
  | cons c front ih =>
      rw [List.cons_append, byteSize, byteSize, ih, Nat.add_assoc]

/-- A source that is cut after a lexeme still begins with it. -/
theorem lexeme_cut {c : Char} {rest front back : List Char} {found : Lexeme} {n : Nat}
    (h : lexeme c rest = .ok (found, n)) (hcut : (c :: rest).drop n = front ++ back) :
    exists tail, rest = tail ++ back ∧ lexeme c tail = .ok (found, n) ∧
      (c :: tail).take n = (c :: rest).take n ∧ (c :: tail).drop n = front := by
  rcases lexeme_bounds h with ⟨hpos, hlength⟩
  rcases Nat.exists_eq_add_of_le' hpos with ⟨k, rfl⟩
  rw [List.drop_succ_cons] at hcut
  have hrest : rest = rest.take k ++ front ++ back := by
    rw [List.append_assoc, <- hcut, List.take_append_drop]
  have htake : (rest.take k).length = k := by
    rw [List.length_take]
    omega
  refine ⟨rest.take k ++ front, hrest, ?_, ?_, ?_⟩
  · rw [hrest] at h
    refine lexeme_front h ?_
    rw [List.length_append, htake]
    omega
  · rw [List.take_succ_cons, List.take_succ_cons, List.take_left' htake]
  · rw [List.drop_succ_cons, List.drop_left' htake]

namespace Lexed

variable {offset : Nat} {cs : List Char} {used tokens : List Token}

theorem byteSize_step {c : Char} {rest front : List Char} {n : Nat} (offset : Nat)
    (hfront : (c :: rest).drop n = front) :
    offset + byteSize ((c :: rest).take n) + byteSize front = offset + byteSize (c :: rest) := by
  rw [Nat.add_assoc, <- byteSize_append, <- hfront, List.take_append_drop]

/-- A source up to where one of its tokens begins. -/
theorem before {t : Token} (h : Lexed offset cs (used ++ t :: tokens)) :
    exists front back, cs = front ++ back ∧ Lexed offset front used ∧
      t.start = offset + byteSize front ∧ Lexed t.start back (t :: tokens) := by
  generalize hall : used ++ t :: tokens = all at h
  induction h generalizing used with
  | done =>
      exact absurd hall (by simp)
  | gap hfound _ ih =>
      rcases ih hall with ⟨front, back, hcut, hfront, hstart, hback⟩
      rcases lexeme_cut hfound hcut with ⟨tail, rfl, htail, htake, hdrop⟩
      rw [<- htake] at hfront hstart
      rw [byteSize_step _ hdrop] at hstart
      rw [<- hdrop] at hfront
      exact ⟨_ :: tail, back, rfl, Lexed.gap htail hfront, hstart, hback⟩
  | token hfound hothers ih =>
      cases used with
      | nil =>
          cases hall
          exact ⟨[], _, rfl, Lexed.done, rfl, Lexed.token hfound hothers⟩
      | cons first used =>
          rcases List.cons.inj hall with ⟨rfl, hrest⟩
          rcases ih hrest with ⟨front, back, hcut, hfront, hstart, hback⟩
          rcases lexeme_cut hfound hcut with ⟨tail, rfl, htail, htake, hdrop⟩
          rw [<- htake] at hfront hstart ⊢
          rw [byteSize_step _ hdrop] at hstart
          rw [<- hdrop] at hfront
          exact ⟨_ :: tail, back, rfl, Lexed.token htail hfront, hstart, hback⟩

/-- A source up to where one of its tokens ends. -/
theorem through {last : Token} (h : Lexed offset cs (used ++ last :: tokens)) :
    exists front back, cs = front ++ back ∧ Lexed offset front (used ++ [last]) ∧
      last.stop = offset + byteSize front ∧ Lexed last.stop back tokens := by
  generalize hall : used ++ last :: tokens = all at h
  induction h generalizing used with
  | done =>
      exact absurd hall (by simp)
  | gap hfound _ ih =>
      rcases ih hall with ⟨front, back, hcut, hfront, hstop, hback⟩
      rcases lexeme_cut hfound hcut with ⟨tail, rfl, htail, htake, hdrop⟩
      rw [<- htake] at hfront hstop
      rw [byteSize_step _ hdrop] at hstop
      rw [<- hdrop] at hfront
      exact ⟨_ :: tail, back, rfl, Lexed.gap htail hfront, hstop, hback⟩
  | token hfound hothers ih =>
      cases used with
      | nil =>
          cases hall
          rcases lexeme_cut hfound (List.nil_append _).symm with ⟨tail, hrest, htail, htake, hdrop⟩
          rw [<- htake] at hothers ⊢
          refine ⟨_ :: tail, _, congrArg (List.cons _) hrest, Lexed.token htail ?_,
            byteSize_step _ hdrop, hothers⟩
          rw [hdrop]
          exact Lexed.done
      | cons first used =>
          rcases List.cons.inj hall with ⟨rfl, hrest⟩
          rcases ih hrest with ⟨front, back, hcut, hfront, hstop, hback⟩
          rcases lexeme_cut hfound hcut with ⟨tail, rfl, htail, htake, hdrop⟩
          rw [<- htake] at hfront hstop ⊢
          rw [byteSize_step _ hdrop] at hstop
          rw [<- hdrop] at hfront
          exact ⟨_ :: tail, back, rfl, Lexed.token htail hfront, hstop, hback⟩

/-- Nothing that tokens say depends on where the source begins. -/
structure Shifted (offset offset' : Nat) (t t' : Token) : Prop where
  mark : t.mark = t'.mark
  start : t'.start + offset = t.start + offset'
  stop : t'.stop + offset = t.stop + offset'

theorem Shifted.marks {offset offset' : Nat} {tokens tokens' : List Token}
    (h : List.Forall₂ (Shifted offset offset') tokens tokens') :
    tokens'.map Token.mark = tokens.map Token.mark := by
  induction h with
  | nil =>
      rfl
  | cons hfirst _ ih =>
      rw [List.map_cons, List.map_cons, hfirst.mark, ih]

theorem Shifted.head {offset offset' : Nat} {tokens tokens' : List Token} {t' : Token}
    (h : List.Forall₂ (Shifted offset offset') tokens tokens') (ht' : tokens'.head? = some t') :
    exists t, tokens.head? = some t ∧ Shifted offset offset' t t' := by
  cases h with
  | nil =>
      cases ht'
  | cons hfirst _ =>
      cases ht'
      exact ⟨_, rfl, hfirst⟩

theorem shift (h : Lexed offset cs tokens) (offset' : Nat) :
    exists tokens', Lexed offset' cs tokens' ∧
      List.Forall₂ (Shifted offset offset') tokens tokens' := by
  induction h generalizing offset' with
  | done =>
      exact ⟨[], Lexed.done, List.Forall₂.nil⟩
  | @gap offset n c rest tokens hfound _ ih =>
      rcases ih (offset' + byteSize ((c :: rest).take n)) with ⟨tokens', htokens', hshifted⟩
      refine ⟨tokens', Lexed.gap hfound htokens', hshifted.imp ?_⟩
      rintro t t' ⟨hmark, hstart, hstop⟩
      exact ⟨hmark, by omega, by omega⟩
  | @token offset n c rest text kind tokens hfound _ ih =>
      rcases ih (offset' + byteSize ((c :: rest).take n)) with ⟨tokens', htokens', hshifted⟩
      refine ⟨_ :: tokens', Lexed.token hfound htokens', List.Forall₂.cons ?_ (hshifted.imp ?_)⟩
      · refine ⟨rfl, ?_, ?_⟩
        · exact Nat.add_comm _ _
        · dsimp only
          omega
      · rintro t t' ⟨hmark, hstart, hstop⟩
        exact ⟨hmark, by omega, by omega⟩

end Lexed

/-!
# Slices
-/

theorem dropBytes_append (front back : List Char) :
    dropBytes (byteSize front) (front ++ back) = some back := by
  induction front with
  | nil =>
      cases back <;> rfl
  | cons c front ih =>
      have hpos := Char.utf8Size_pos c
      rcases Nat.exists_eq_add_of_le' hpos with ⟨k, hk⟩
      rw [List.cons_append, byteSize, show c.utf8Size + byteSize front = k + byteSize front + 1 by omega,
        dropBytes, if_pos (by omega), show k + byteSize front + 1 - c.utf8Size = byteSize front by omega]
      exact ih

theorem takeBytes_append (front back : List Char) :
    takeBytes (byteSize front) (front ++ back) = some front := by
  induction front with
  | nil =>
      cases back <;> rfl
  | cons c front ih =>
      have hpos := Char.utf8Size_pos c
      rcases Nat.exists_eq_add_of_le' hpos with ⟨k, hk⟩
      rw [List.cons_append, byteSize, show c.utf8Size + byteSize front = k + byteSize front + 1 by omega,
        takeBytes, if_pos (by omega), show k + byteSize front + 1 - c.utf8Size = byteSize front by omega,
        ih]
      rfl

/-- A part of a source, from where it begins to where it ends. -/
theorem slice_part {source : String} {front part back : List Char}
    (h : source.toList = front ++ (part ++ back)) :
    slice source (byteSize front) (byteSize front + byteSize part) = String.ofList part := by
  rw [slice, if_pos (Nat.le_add_right _ _), h, dropBytes_append, Nat.add_sub_cancel_left]
  change String.ofList ((takeBytes (byteSize part) (part ++ back)).getD []) = _
  rw [takeBytes_append]
  rfl

end Sql
end RecordSql
