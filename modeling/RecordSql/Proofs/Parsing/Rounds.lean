import RecordSql.Proofs.Parsing.Batches
import RecordSql.Proofs.Parsing.Progress

/-!
# Rounds of a loop

A repetition makes one round after the other until it leaves or fails, and nothing but its rounds
says when that is.  The tokens that are left bound it all the same: a round that goes on has taken
a token, and without tokens there is no further round.
-/

namespace RecordSql
namespace Sql
namespace Parser

variable {α σ : Type}

/-!
# Runs of a loop
-/

/--
The runs of a loop with a given number of rounds.  A round says how to go on, or that the loop is
left; that question alone is not a round, but one that fails is.
-/
inductive Rounds (round : σ -> Parser (Option σ)) :
    Nat -> σ -> Cursor -> EStateM.Result ParseFailure Cursor σ -> Prop where
  | leaves {s : σ} {c c' : Cursor} (h : round s c = .ok none c') : Rounds round 0 s c (.ok s c')
  | fails {s : σ} {c c' : Cursor} {e : ParseFailure} (h : round s c = .error e c') :
      Rounds round 1 s c (.error e c')
  | goesOn {n : Nat} {s s' : σ} {c c' : Cursor} {r : EStateM.Result ParseFailure Cursor σ}
      (h : round s c = .ok (some s') c') (hrest : Rounds round n s' c' r) :
      Rounds round (n + 1) s c r

/-- The loop has one run, which ends with this result and makes so many rounds at most. -/
structure EndsWithin (limit : Nat) (round : σ -> Parser (Option σ)) (s : σ) (c : Cursor)
    (r : EStateM.Result ParseFailure Cursor σ) : Prop where
  run : exists n, n ≤ limit ∧ Rounds round n s c r
  only : forall n r', Rounds round n s c r' -> n ≤ limit ∧ r' = r

section

variable {round : σ -> Parser (Option σ)} {n m limit limit' : Nat} {s : σ} {c : Cursor}
  {r r' : EStateM.Result ParseFailure Cursor σ}

/-- A loop has one run only. -/
theorem Rounds.unique (h : Rounds round n s c r) (h' : Rounds round m s c r') :
    n = m ∧ r = r' := by
  induction h generalizing m with
  | leaves h =>
      cases h' with
      | leaves h' =>
          cases h.symm.trans h'
          exact ⟨rfl, rfl⟩
      | fails h' =>
          cases h.symm.trans h'
      | goesOn h' _ =>
          cases h.symm.trans h'
  | fails h =>
      cases h' with
      | leaves h' =>
          cases h.symm.trans h'
      | fails h' =>
          cases h.symm.trans h'
          exact ⟨rfl, rfl⟩
      | goesOn h' _ =>
          cases h.symm.trans h'
  | goesOn h _ ih =>
      cases h' with
      | leaves h' =>
          cases h.symm.trans h'
      | fails h' =>
          cases h.symm.trans h'
      | goesOn h' hrest =>
          cases h.symm.trans h'
          rcases ih hrest with ⟨rfl, rfl⟩
          exact ⟨rfl, rfl⟩

theorem Rounds.endsWithin (h : Rounds round n s c r) (hn : n ≤ limit) :
    EndsWithin limit round s c r := by
  refine ⟨⟨n, hn, h⟩, fun m r' h' => ?_⟩
  rcases h.unique h' with ⟨rfl, rfl⟩
  exact ⟨hn, rfl⟩

theorem EndsWithin.mono (h : EndsWithin limit round s c r) (hlimit : limit ≤ limit') :
    EndsWithin limit' round s c r := by
  rcases h.run with ⟨n, hn, hrounds⟩
  exact hrounds.endsWithin (Nat.le_trans hn hlimit)

end

/-- The next round of a loop whose rounds are bounded by a list of tokens. -/
def nextRound (round : σ -> Parser (Option σ)) (run : σ -> Parser σ) (s : σ) : Parser σ := do
  match <- round s with
  | some s' => run s'
  | none => return s

/-- A list of as many tokens as are left is never exhausted before the loop ends. -/
theorem endsWithin_of_takes {round : σ -> Parser (Option σ)} (run : List Token -> σ -> Parser σ)
    (hnil : forall s, run [] s = pure s)
    (hcons : forall t left s, run (t :: left) s = nextRound round (run left) s)
    (hstops : forall s c, c.ahead = [] -> round s c = .ok none c)
    (htakes : forall {s s' : σ} {c c' : Cursor}, round s c = .ok (some s') c' ->
      c'.ahead.length < c.ahead.length) (left : List Token) :
    forall (s : σ) (c : Cursor), c.ahead.length ≤ left.length ->
      EndsWithin c.ahead.length round s c (run left s c) := by
  induction left with
  | nil =>
      intro s c hleft
      have hahead := List.eq_nil_of_length_eq_zero (Nat.le_zero.mp hleft)
      rw [hnil]
      exact (Rounds.leaves (hstops s c hahead)).endsWithin (Nat.zero_le _)
  | cons t left ih =>
      intro s c hleft
      rw [hcons]
      change EndsWithin _ round s c (EStateM.bind (round s) _ c)
      rw [EStateM.bind]
      cases hround : round s c with
      | error e c' =>
          refine (Rounds.fails hround).endsWithin (List.length_pos_iff.mpr fun hahead => ?_)
          cases hround.symm.trans (hstops s c hahead)
      | ok next c' =>
          cases next with
          | none =>
              exact (Rounds.leaves hround).endsWithin (Nat.zero_le _)
          | some s' =>
              have hless := htakes hround
              rw [List.length_cons] at hleft
              rcases (ih s' c' (by omega)).run with ⟨n, hn, hrest⟩
              exact (Rounds.goesOn hround hrest).endsWithin (Nat.lt_of_le_of_lt hn hless)

/-!
# Loops of the parsers
-/

/-- One item more, if there is one. -/
def anotherItem (more : Parser Bool) (item : Parser α) (items : List α) :
    Parser (Option (List α)) := do
  if <- more then
    let next <- item
    return some (items ++ [next])
  else return none

/-- One operator and operand more, if there is an operator. -/
def anotherOperand (known : String -> Option Arithmetic) (operand : Parser Scalar)
    (left : Scalar) : Parser (Option Scalar) := do
  match <- operator known with
  | some op =>
      let right <- operand
      return some (.binary left op right)
  | none => return none

/-- One argument more, if a comma or the beginning of the list promises it. -/
def anotherArgument (inner : Inner) (state : List Scalar × Bool) :
    Parser (Option (List Scalar × Bool)) := do
  if state.2 then
    let next <- argument inner
    let promised <- eatSymbol ","
    return some (state.1 ++ [next], promised)
  else return none

/-- One semicolon or statement more, before the end of the source. -/
def anotherStatement (statements : List Written) : Parser (Option (List Written)) := do
  if (<- get).atEnd then return none
  else if <- eatSymbol ";" then return some statements
  else
    let next <- written
    return some (statements ++ [next])

/-- Whatever was collected before, the repetition ends as its rounds say. -/
def RepetitionEnds (limit : Nat) (more : Parser Bool) (item : Parser α) (c : Cursor) : Prop :=
  forall items, EndsWithin limit (anotherItem more item) items c
    (((items ++ ·) <$> many more item) c)

/-- Whatever stands on the left, the chain ends as its rounds say. -/
def ChainEnds (limit : Nat) (known : String -> Option Arithmetic) (operand : Parser Scalar)
    (c : Cursor) : Prop :=
  forall left, EndsWithin limit (anotherOperand known operand) left c
    (chain known operand c.ahead left c)

theorem Below.length_le {p : Parser α} (h : forall n, Below n 0 p p) {c c' : Cursor} {a : α}
    (ha : p c = .ok a c') : c'.ahead.length ≤ c.ahead.length := by
  rcases (h _ c (Nat.lt_succ_self _)).ok ha with ⟨used, hused, _⟩
  rw [hused.ahead, List.length_append]
  exact Nat.le_add_left _ _

theorem anotherItem_some {more : Parser Bool} {item : Parser α} {items items' : List α}
    {c c' : Cursor} (h : anotherItem more item items c = .ok (some items') c') :
    exists a d, more c = .ok true d ∧ item d = .ok a c' ∧ items' = items ++ [a] := by
  rcases bind_eq_ok.mp h with ⟨again, d, hagain, hrest⟩
  cases again with
  | true =>
      rcases bind_eq_ok.mp hrest with ⟨a, d', ha, hsome⟩
      cases hsome
      exact ⟨a, d, hagain, ha, rfl⟩
  | false =>
      cases hrest

/-- Only the item fails, never the question whether there is one. -/
theorem anotherItem_error {test : Mark -> Bool} {more : Parser Bool} (hmore : Eats test more)
    {item : Parser α} {items : List α} {c c' : Cursor} {e : ParseFailure}
    (h : anotherItem more item items c = .error e c') :
    exists d, more c = .ok true d ∧ item d = .error e c' := by
  change EStateM.bind more _ c = _ at h
  rw [EStateM.bind] at h
  cases hagain : more c with
  | error e d =>
      rw [hmore c] at hagain
      split at hagain <;> cases hagain
  | ok again d =>
      rw [hagain] at h
      cases again with
      | false =>
          cases h
      | true =>
          change EStateM.bind item _ d = _ at h
          rw [EStateM.bind] at h
          cases hitem : item d with
          | ok a d' =>
              rw [hitem] at h
              cases h
          | error e' d' =>
              rw [hitem] at h
              cases h
              exact ⟨d, rfl, hitem⟩

theorem repetitionEnds {test : Mark -> Bool} {more : Parser Bool} {item : Parser α}
    (hmore : Eats test more) (hitem : forall n, Below n 0 item item) (c : Cursor) :
    RepetitionEnds c.ahead.length more item c := by
  have hcons : forall t left items, (items ++ ·) <$> repeated more item (t :: left) =
      nextRound (anotherItem more item) (fun items => (items ++ ·) <$> repeated more item left)
        items := by
    intro t left items
    rw [repeated, nextRound, anotherItem, map_bind, bind_assoc]
    congr 1
    funext again
    cases again <;> simp
  have hstops : forall items (d : Cursor), d.ahead = [] ->
      anotherItem more item items d = .ok none d := by
    intro items d hahead
    refine bind_eq_ok.mpr ⟨false, d, hmore.stops ?_, rfl⟩
    rw [Cursor.marks, hahead]
    rfl
  have htakes : forall {items items' : List α} {d d' : Cursor},
      anotherItem more item items d = .ok (some items') d' ->
        d'.ahead.length < d.ahead.length := by
    intro items items' d d' h
    rcases anotherItem_some h with ⟨a, c', hagain, ha, _⟩
    exact Nat.lt_of_le_of_lt (Below.length_le hitem ha) (hmore.length_lt hagain)
  intro items
  refine endsWithin_of_takes (fun left items => (items ++ ·) <$> repeated more item left) ?_ hcons
    hstops htakes c.ahead items c (Nat.le_refl _)
  intro items
  rw [repeated, map_pure, List.append_nil]

theorem chainEnds (known : String -> Option Arithmetic) {operand : Parser Scalar}
    (hoperand : forall n, Below n 0 operand operand) (c : Cursor) :
    ChainEnds c.ahead.length known operand c := by
  have hcons : forall t tokens left, chain known operand (t :: tokens) left =
      nextRound (anotherOperand known operand) (chain known operand tokens) left := by
    intro t tokens left
    rw [chain, nextRound, anotherOperand, bind_assoc]
    congr 1
    funext found
    cases found <;> simp
  have hstops : forall left (d : Cursor), d.ahead = [] ->
      anotherOperand known operand left d = .ok none d := by
    intro left d hahead
    refine bind_eq_ok.mpr ⟨none, d, (spots_operator known).stops ?_, rfl⟩
    rw [Cursor.marks, hahead]
    rfl
  have htakes : forall {left left' : Scalar} {d d' : Cursor},
      anotherOperand known operand left d = .ok (some left') d' ->
        d'.ahead.length < d.ahead.length := by
    intro left left' d d' h
    rcases bind_eq_ok.mp h with ⟨found, c', hfound, hrest⟩
    cases found with
    | none =>
        cases hrest
    | some op =>
        rcases bind_eq_ok.mp hrest with ⟨right, _, hright, hsome⟩
        cases hsome
        exact Nat.lt_of_le_of_lt (Below.length_le hoperand hright)
          ((spots_operator known).length_lt hfound)
  intro left
  exact endsWithin_of_takes (chain known operand) (fun _ => rfl) hcons hstops htakes c.ahead left c
    (Nat.le_refl _)

/-- The outcome of a list of arguments, after which no other one is promised. -/
def unpromised : EStateM.Result ParseFailure Cursor (List Scalar) ->
    EStateM.Result ParseFailure Cursor (List Scalar × Bool)
  | .ok args c => .ok (args, false) c
  | .error e c => .error e c

/-- The commas come after the arguments, so a run is one round ahead of that over the commas. -/
theorem Rounds.afterArgument {inner : Inner} {n : Nat} {items : List Scalar} {c' : Cursor}
    {r : EStateM.Result ParseFailure Cursor (List Scalar)}
    (h : Rounds (anotherItem (eatSymbol ",") (argument inner)) n items c' r) :
    forall (before : List Scalar) (e : Scalar) (c : Cursor), items = before ++ [e] ->
      argument inner c = .ok e c' ->
        Rounds (anotherArgument inner) (n + 1) (before, true) c (unpromised r) := by
  have hround : forall {before : List Scalar} {e : Scalar} {c c' d : Cursor} {b : Bool},
      argument inner c = .ok e c' -> eatSymbol "," c' = .ok b d ->
        anotherArgument inner (before, true) c = .ok (some (before ++ [e], b)) d := by
    intro before e c c' d b he hb
    exact bind_eq_ok.mpr ⟨e, c', he, bind_eq_ok.mpr ⟨b, d, hb, rfl⟩⟩
  induction h with
  | leaves h =>
      rintro before e c rfl he
      rcases bind_eq_ok.mp h with ⟨again, d, hagain, hrest⟩
      cases again with
      | true =>
          rcases bind_eq_ok.mp hrest with ⟨_, _, _, hsome⟩
          cases hsome
      | false =>
          cases hrest
          exact Rounds.goesOn (hround he hagain) (Rounds.leaves rfl)
  | fails h =>
      rintro before e c rfl he
      rcases anotherItem_error (eats_symbol ",") h with ⟨d, hagain, hnext⟩
      refine Rounds.goesOn (hround he hagain) (Rounds.fails ?_)
      change EStateM.bind (argument inner) _ d = _
      rw [EStateM.bind, hnext]
  | goesOn h _ ih =>
      rintro before e c rfl he
      rcases anotherItem_some h with ⟨next, d, hagain, hnext, hitems⟩
      exact Rounds.goesOn (hround he hagain) (ih _ next d hitems hnext)

theorem unpromised_many {inner : Inner} {c c' : Cursor} {e : Scalar} (items : List Scalar)
    (he : argument inner c = .ok e c') :
    unpromised (((items ++ [e] ++ ·) <$> many (eatSymbol ",") (argument inner)) c') =
      ((fun args => (items ++ args, false)) <$> commaList (argument inner)) c := by
  have hlist : commaList (argument inner) c =
      EStateM.bind (many (eatSymbol ",") (argument inner)) (fun rest => pure (e :: rest)) c' := by
    change EStateM.bind (argument inner) _ c = _
    rw [EStateM.bind, he]
    rfl
  change unpromised (EStateM.map _ _ c') = EStateM.map _ (commaList (argument inner)) c
  rw [EStateM.map, EStateM.map, hlist, EStateM.bind]
  cases many (eatSymbol ",") (argument inner) c' with
  | ok rest d =>
      change EStateM.Result.ok (items ++ [e] ++ rest, false) d = _
      rw [List.append_assoc]
      rfl
  | error e d =>
      rfl

/-- The first argument is read without a comma, so there may be one round more than tokens. -/
theorem argumentsEnd {inner : Inner} (hinner : forall n, InnerBelow n inner inner) (c : Cursor)
    (items : List Scalar) :
    EndsWithin (c.ahead.length + 1) (anotherArgument inner) (items, true) c
      (((fun args => (items ++ args, false)) <$> commaList (argument inner)) c) := by
  have hargument : forall n, Below n 0 (argument inner) (argument inner) :=
    fun n => below_argument (hinner n)
  cases hfirst : argument inner c with
  | error e c' =>
      have hlist : ((fun args => (items ++ args, false)) <$> commaList (argument inner)) c =
          .error e c' := by
        change EStateM.map _ (EStateM.bind (argument inner) _) c = _
        rw [EStateM.map, EStateM.bind, hfirst]
      have hround : anotherArgument inner (items, true) c = .error e c' := by
        change EStateM.bind (argument inner) _ c = _
        rw [EStateM.bind, hfirst]
      rw [hlist]
      exact (Rounds.fails hround).endsWithin (Nat.le_add_left 1 _)
  | ok e c' =>
      have hle := Below.length_le hargument hfirst
      rcases (repetitionEnds (eats_symbol ",") hargument c' (items ++ [e])).run with
        ⟨n, hn, hrounds⟩
      have hrun := hrounds.afterArgument items e c rfl hfirst
      rw [unpromised_many items hfirst] at hrun
      exact hrun.endsWithin (Nat.succ_le_succ (Nat.le_trans hn hle))

theorem written_length_lt {c c' : Cursor} {w : Written} (h : written c = .ok w c') :
    c'.ahead.length < c.ahead.length := by
  rcases written_eq_ok.mp h with ⟨s, hs, _, _⟩
  rcases statement_head hs with ⟨k, hk, _⟩
  have hat : At (some k) c := by
    rintro _ ⟨⟩
    exact hk
  rcases (local_statement ends_nil k (n := 0) (m := 0)).long c hat s c' hs with
    ⟨used, hused, hsome⟩
  rw [SomeMarks, List.length_map] at hsome
  rw [hused.ahead, List.length_append]
  omega

theorem statementsEnd (c : Cursor) (statements : List Written) :
    EndsWithin c.ahead.length anotherStatement statements c
      (((statements ++ ·) <$> batch c.ahead) c) := by
  have hcons : forall t left statements, (statements ++ ·) <$> batch (t :: left) =
      nextRound anotherStatement (fun statements => (statements ++ ·) <$> batch left)
        statements := by
    intro t left statements
    rw [batch, nextRound, anotherStatement, map_bind, bind_assoc]
    congr 1
    funext d
    cases d.atEnd with
    | true =>
        simp
    | false =>
        simp only [Bool.false_eq_true, if_false, map_bind, bind_assoc]
        congr 1
        funext eaten
        cases eaten <;> simp
  have hstops : forall statements (d : Cursor), d.ahead = [] ->
      anotherStatement statements d = .ok none d := by
    intro statements d hahead
    change (if d.atEnd = true then _ else _ : Parser (Option (List Written))) d = _
    rw [if_pos (by rw [Cursor.atEnd, hahead]; rfl)]
    rfl
  have htakes : forall {statements statements' : List Written} {d d' : Cursor},
      anotherStatement statements d = .ok (some statements') d' ->
        d'.ahead.length < d.ahead.length := by
    intro statements statements' d d' h
    change (if d.atEnd = true then _ else _ : Parser (Option (List Written))) d = _ at h
    split at h
    · cases h
    · rcases bind_eq_ok.mp h with ⟨eaten, c', heaten, hrest⟩
      cases eaten with
      | true =>
          cases hrest
          exact (eats_symbol ";").length_lt heaten
      | false =>
          rcases bind_eq_ok.mp hrest with ⟨w, _, hw, hsome⟩
          cases hsome
          exact Nat.lt_of_lt_of_le (written_length_lt hw)
            (Below.length_le (fun _ => below_eatSymbol ";") heaten)
  refine endsWithin_of_takes (fun left statements => (statements ++ ·) <$> batch left) ?_ hcons
    hstops htakes c.ahead statements c (Nat.le_refl _)
  intro statements
  rw [batch, map_pure, List.append_nil]

end Parser

/-!
# Positions
-/

/-- The cursor in front of the token with the given number, or at the end. -/
def Cursor.atPosition (source : String) (tokens : List Token) (position : Nat) : Cursor :=
  ⟨source, (tokens.take position).reverse, tokens.drop position⟩

theorem Cursor.position_atPosition (source : String) {tokens : List Token} {position : Nat}
    (h : position ≤ tokens.length) :
    (Cursor.atPosition source tokens position).position = position := by
  rw [Cursor.position, Cursor.atPosition, List.length_reverse, List.length_take, Nat.min_eq_left h]

theorem Cursor.length_ahead_atPosition (source : String) (tokens : List Token) (position : Nat) :
    (Cursor.atPosition source tokens position).ahead.length = tokens.length - position :=
  List.length_drop

/-- Whatever is taken from a position leads to a position again. -/
theorem Moves.atPosition {source : String} {tokens used : List Token} {start : Nat} {c' : Cursor}
    (hstart : start ≤ tokens.length) (h : Moves used (Cursor.atPosition source tokens start) c') :
    start + used.length ≤ tokens.length ∧
      c' = Cursor.atPosition source tokens (start + used.length) := by
  have hahead : tokens.drop start = used ++ c'.ahead := h.ahead
  have hlength := congrArg List.length hahead
  rw [List.length_drop, List.length_append] at hlength
  refine ⟨by omega, ?_⟩
  have hused : (tokens.drop start).take used.length = used := by
    rw [hahead, List.take_left]
  have hrest : tokens.drop (start + used.length) = c'.ahead := by
    rw [<- List.drop_drop, hahead, List.drop_left]
  have hbehind : (tokens.take (start + used.length)).reverse = c'.behind := by
    rw [List.take_add, hused, List.reverse_append]
    exact h.behind.symm
  have hsource : c'.source = source := h.source
  rw [Cursor.atPosition, hrest, hbehind, <- hsource]

namespace Parser

/-!
# Expressions at every position
-/

/-- The parser returns or fails no further than the last token; to return, it goes forward. -/
def GoesOn (source : String) (tokens : List Token) (start : Nat) (p : Parser α) : Prop :=
  exists stop, stop ≤ tokens.length ∧
    ((start < stop ∧ exists a, p (Cursor.atPosition source tokens start) =
        .ok a (Cursor.atPosition source tokens stop)) ∨
      (start ≤ stop ∧ exists e, p (Cursor.atPosition source tokens start) =
        .error e (Cursor.atPosition source tokens stop)))

/--
Expressions are parsed by calls of the same parsers on what is inside of them, and the calls are
not nested deeper than there are tokens: what a deeper call would do makes no difference.
-/
structure Nests (depth : Nat) (c : Cursor) : Prop where
  scalarCalls : scalar c = sum expressions c
  predicateCalls : predicate c = disjunction expressions c
  scalarDepth : forall deeper n, depth < n -> (unrolled deeper n).scalar c = scalar c
  predicateDepth : forall deeper n, depth < n -> (unrolled deeper n).predicate c = predicate c

/-- Every loop that may begin at the cursor ends; arguments have a parenthesis behind them. -/
structure LoopsEnd (limit : Nat) (c : Cursor) : Prop where
  disjuncts : RepetitionEnds limit (eatKeyword "OR") (conjunction expressions) c
  conjuncts : RepetitionEnds limit (eatKeyword "AND") (negation expressions) c
  negations : RepetitionEnds limit (eatKeyword "NOT") (pure ()) c
  summands : ChainEnds limit Arithmetic.ofAdditive? (product expressions) c
  factors : ChainEnds limit Arithmetic.ofMultiplicative? (signedOperand expressions) c
  signs : RepetitionEnds limit (eatSymbol "-") (pure ()) c
  nameParts : RepetitionEnds limit (eatSymbol ".") name c
  listItems : RepetitionEnds limit (eatSymbol ",") (sum expressions) c
  conditions : RepetitionEnds limit (eatKeyword "WHEN") (caseBranch expressions predicate) c
  choices : RepetitionEnds limit (eatKeyword "WHEN") (caseBranch expressions scalar) c
  arguments : 0 < c.position -> forall items,
    EndsWithin limit (anotherArgument expressions) (items, true) c
      (((fun args => (items ++ args, false)) <$> commaList (argument expressions)) c)
  statements : forall statements, EndsWithin limit anotherStatement statements c
    (((statements ++ ·) <$> batch c.ahead) c)

theorem goesOn_of_inStep {p q : Parser α} {source : String} {tokens : List Token} {start : Nat}
    (hstart : start ≤ tokens.length)
    (h : InStep 1 p q (Cursor.atPosition source tokens start)) : GoesOn source tokens start p := by
  have hself := h.left
  cases hresult : p (Cursor.atPosition source tokens start) with
  | ok a c' =>
      rcases hself.ok hresult with ⟨used, hused, hsome⟩
      rcases hused.atPosition hstart with ⟨hle, rfl⟩
      exact ⟨start + used.length, hle, Or.inl ⟨by omega, a, hresult⟩⟩
  | error e c' =>
      rcases hself.error hresult with ⟨used, hused⟩
      rcases hused.atPosition hstart with ⟨hle, rfl⟩
      exact ⟨start + used.length, hle, Or.inr ⟨Nat.le_add_right _ _, e, hresult⟩⟩

theorem nests (c : Cursor) : Nests c.ahead.length c :=
  ⟨scalar_eq c, predicate_eq c,
    fun deeper n hn => ((expressions_unrolled deeper n).scalar c hn).same.symm,
    fun deeper n hn => ((expressions_unrolled deeper n).predicate c hn).same.symm⟩

theorem loopsEnd {limit : Nat} {c : Cursor} (hlimit : c.ahead.length ≤ limit)
    (harguments : 0 < c.position -> c.ahead.length + 1 ≤ limit) : LoopsEnd limit c := by
  have hinner := expressions_below
  have hrepeated : forall {α : Type} {test : Mark -> Bool} {more : Parser Bool} {item : Parser α},
      Eats test more -> (forall n, Below n 0 item item) -> RepetitionEnds limit more item c :=
    fun hmore hitem items => (repetitionEnds hmore hitem c items).mono hlimit
  have hchain : forall (known : String -> Option Arithmetic) {operand : Parser Scalar},
      (forall n, Below n 0 operand operand) -> ChainEnds limit known operand c :=
    fun known _ hoperand left => (chainEnds known hoperand c left).mono hlimit
  constructor
  · exact hrepeated (eats_keyword "OR") fun n => (below_conjunction (hinner n)).fewer
  · exact hrepeated (eats_keyword "AND") fun n => (below_negation (hinner n)).fewer
  · exact hrepeated (eats_keyword "NOT") fun n => Below.pure ()
  · exact hchain Arithmetic.ofAdditive? fun n => (below_product (hinner n)).fewer
  · exact hchain Arithmetic.ofMultiplicative? fun n => (below_signedOperand (hinner n)).fewer
  · exact hrepeated (eats_symbol "-") fun n => Below.pure ()
  · exact hrepeated (eats_symbol ".") fun n => below_name.any
  · exact hrepeated (eats_symbol ",") fun n => (below_sum (hinner n)).fewer
  · exact hrepeated (eats_keyword "WHEN") fun n => below_caseBranch (hinner n) (hinner n).predicate
  · exact hrepeated (eats_keyword "WHEN") fun n => below_caseBranch (hinner n) (hinner n).scalar
  · intro hposition items
    exact (argumentsEnd hinner c items).mono (harguments hposition)
  · intro statements
    exact (statementsEnd c statements).mono hlimit

/-- At every position, expressions make progress and all loops end. -/
theorem expressions_progress (source : String) (tokens : List Token) (start : Nat)
    (hstart : start ≤ tokens.length) :
    GoesOn source tokens start scalar ∧ GoesOn source tokens start predicate ∧
      Nests (tokens.length - start) (Cursor.atPosition source tokens start) ∧
      LoopsEnd tokens.length (Cursor.atPosition source tokens start) := by
  have hahead := Cursor.length_ahead_atPosition source tokens start
  have hinner := expressions_below ((Cursor.atPosition source tokens start).ahead.length + 1)
  refine ⟨goesOn_of_inStep hstart (hinner.scalar _ (Nat.lt_succ_self _)),
    goesOn_of_inStep hstart (hinner.predicate _ (Nat.lt_succ_self _)), ?_, ?_⟩
  · have hnests := nests (Cursor.atPosition source tokens start)
    rw [hahead] at hnests
    exact hnests
  · refine loopsEnd ?_ fun hposition => ?_
    · rw [hahead]
      exact Nat.sub_le _ _
    · rw [Cursor.position_atPosition source hstart] at hposition
      omega

/-- A parenthesis that is not closed, in front of a condition. -/
def unclosed : List Token :=
  [⟨.word, "not", 0, 3⟩, ⟨.symbol, "(", 4, 5⟩, ⟨.word, "a", 5, 6⟩, ⟨.symbol, "=", 7, 8⟩,
    ⟨.number, "1", 9, 10⟩]

/-- The condition is read up to its end, and then its first operand again, which fails earlier. -/
theorem unclosed_progress :
    (1 ≤ unclosed.length ∧ (tokenize "not (a = 1").toOption = some unclosed) ∧
      (match predicate (Cursor.atPosition "not (a = 1" unclosed 2) with
        | .ok _ c' => some c'.position
        | .error _ _ => none) = some 5 ∧
      (match predicate (Cursor.atPosition "not (a = 1" unclosed 1) with
        | .ok _ _ => none
        | .error _ c' => some c'.position) = some 3 ∧
      GoesOn "not (a = 1" unclosed 1 scalar ∧ GoesOn "not (a = 1" unclosed 1 predicate ∧
      Nests (unclosed.length - 1) (Cursor.atPosition "not (a = 1" unclosed 1) ∧
      LoopsEnd unclosed.length (Cursor.atPosition "not (a = 1" unclosed 1) :=
  ⟨⟨by decide, by decide +kernel⟩, by decide +kernel, by decide +kernel,
    expressions_progress "not (a = 1" unclosed 1 (by decide)⟩

end Parser
end Sql
end RecordSql
