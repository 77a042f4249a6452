import RecordSql.Proofs.FilterAgreement

/-!
# Searching stored lists

The platform decides a search with the members of the searched text, local evaluation with its
words.  A member ends at a comma, and a word also at an `OR` between blanks.  So the two decide a
search alike, whatever is stored, exactly if the words are the members apart from their case.
-/

namespace RecordSql

namespace Text

variable {cs piece separator : List Char} {isSeparator : Char -> Bool} {c : Char}

/-!
# Trimmed texts
-/

theorem isBlank_head?_dropBlanks (h : (dropBlanks cs).head? = some c) : isBlank c = false := by
  have hnot := List.head?_dropWhile_not isBlank cs
  rw [dropBlanks] at h
  rw [h] at hnot
  simpa using hnot

theorem dropLastBlanks_isPrefix (cs : List Char) : dropLastBlanks cs <+: cs := by
  rw [<- List.reverse_suffix, dropLastBlanks, List.reverse_reverse]
  exact List.dropWhile_suffix isBlank

theorem mem_of_mem_trim {s : String} (h : c ∈ (trim s).toList) : c ∈ s.toList := by
  rw [trim, String.toList_ofList] at h
  exact (List.dropWhile_suffix isBlank).subset ((dropLastBlanks_isPrefix _).subset h)

theorem trim_trim (s : String) : trim (trim s) = trim s := by
  refine trim_eq_self ?_ ?_
  · intro c hc
    rw [trim, String.toList_ofList] at hc
    rcases dropLastBlanks_isPrefix (dropBlanks s.toList) with ⟨more, hmore⟩
    refine @isBlank_head?_dropBlanks s.toList c ?_
    rw [<- hmore, List.head?_append, hc]
    rfl
  · intro c hc
    rw [trim, String.toList_ofList, dropLastBlanks, List.getLast?_reverse] at hc
    exact isBlank_head?_dropBlanks hc

/-!
# Pieces
-/

theorem splitAt_of_forall (h : forall c, c ∈ cs -> isSeparator c = false) :
    splitAt isSeparator cs = [cs] := by
  induction cs with
  | nil =>
      rfl
  | cons c rest ih =>
      rw [splitAt, h c List.mem_cons_self, ih fun d hd => h d (List.mem_cons_of_mem c hd)]
      rfl

theorem splitAt_cons_of_not (h : isSeparator c = false) (rest : List Char) :
    exists first pieces, splitAt isSeparator rest = first :: pieces ∧
      splitAt isSeparator (c :: rest) = (c :: first) :: pieces := by
  cases hrest : splitAt isSeparator rest with
  | nil =>
      cases rest with
      | nil =>
          cases hrest
      | cons d rest =>
          rw [splitAt] at hrest
          split at hrest
          · cases hrest
          · split at hrest
            · cases hrest
            · cases hrest
  | cons first pieces =>
      refine ⟨first, pieces, rfl, ?_⟩
      rw [splitAt, h, hrest]
      rfl

theorem prefix_of_splitAt {first : List Char} {pieces : List (List Char)}
    (h : splitAt isSeparator cs = first :: pieces) : first <+: cs := by
  induction cs generalizing first pieces with
  | nil =>
      cases h
      exact List.prefix_refl []
  | cons c rest ih =>
      cases hc : isSeparator c with
      | true =>
          rw [splitAt, hc] at h
          cases h
          exact List.nil_prefix
      | false =>
          rcases splitAt_cons_of_not hc rest with ⟨front, more, hrest, hsplit⟩
          rw [hsplit] at h
          cases h
          exact (List.prefix_cons_inj c).mpr (ih hrest)

/-- A piece is a part of the text without separators. -/
theorem mem_splitAt (h : piece ∈ splitAt isSeparator cs) :
    piece <:+: cs ∧ forall c, c ∈ piece -> isSeparator c = false := by
  induction cs generalizing piece with
  | nil =>
      rw [splitAt, List.mem_singleton] at h
      subst h
      exact ⟨List.infix_refl [], fun c hc => by cases hc⟩
  | cons c rest ih =>
      have hrest : forall piece, piece ∈ splitAt isSeparator rest ->
          piece <:+: c :: rest ∧ forall c, c ∈ piece -> isSeparator c = false :=
        fun piece hpiece => ⟨List.infix_cons (ih hpiece).1, (ih hpiece).2⟩
      cases hc : isSeparator c with
      | true =>
          rw [splitAt, hc, if_pos rfl] at h
          rcases List.mem_cons.mp h with rfl | h
          · exact ⟨List.nil_infix, fun c hc => by cases hc⟩
          · exact hrest piece h
      | false =>
          rcases splitAt_cons_of_not hc rest with ⟨front, more, hfront, hsplit⟩
          rw [hsplit] at h
          rcases List.mem_cons.mp h with rfl | h
          · have hparts := ih (hfront ▸ List.mem_cons_self)
            refine ⟨((List.prefix_cons_inj c).mpr (prefix_of_splitAt hfront)).isInfix, ?_⟩
            intro d hd
            rcases List.mem_cons.mp hd with rfl | hd
            · exact hc
            · exact hparts.2 d hd
          · exact hrest piece (hfront ▸ List.mem_cons_of_mem front h)

theorem isSome_dropStart? {start text : List Char} :
    (dropStart? start text).isSome = true <-> start <+: text := by
  induction start generalizing text with
  | nil =>
      simp [dropStart?]
  | cons c start ih =>
      cases text with
      | nil =>
          simp [dropStart?]
      | cons d text =>
          rw [dropStart?, List.cons_prefix_cons]
          by_cases hcd : c = d
          · simp [hcd, ih]
          · simp [hcd]

/-- A text that does not contain the separator is one piece. -/
theorem splitOnFrom_of_not_infix (h : ¬ separator <:+: cs) :
    splitOnFrom separator 0 cs = [cs] := by
  induction cs with
  | nil =>
      rfl
  | cons c rest ih =>
      have hstart : ¬ (dropStart? separator (c :: rest)).isSome = true :=
        fun hsome => h (isSome_dropStart?.mp hsome).isInfix
      rw [splitOnFrom, if_neg hstart, ih fun hrest => h (List.infix_cons hrest)]

theorem mem_of_mem_splitOnFrom {skip : Nat} (h : piece ∈ splitOnFrom separator skip cs)
    (hc : c ∈ piece) : c ∈ cs := by
  induction cs generalizing piece skip with
  | nil =>
      cases skip <;> simp_all [splitOnFrom]
  | cons d rest ih =>
      cases skip with
      | succ skip =>
          exact List.mem_cons_of_mem d (ih h hc)
      | zero =>
          rw [splitOnFrom] at h
          split at h
          · rcases List.mem_cons.mp h with rfl | h
            · cases hc
            · exact List.mem_cons_of_mem d (ih h hc)
          · split at h
            · rename_i first pieces hrest
              rcases List.mem_cons.mp h with rfl | h
              · rcases List.mem_cons.mp hc with rfl | hc
                · exact List.mem_cons_self
                · exact List.mem_cons_of_mem d (ih (hrest ▸ List.mem_cons_self) hc)
              · exact List.mem_cons_of_mem d (ih (hrest ▸ List.mem_cons_of_mem first h) hc)
            · rw [List.mem_singleton] at h
              subst h
              rw [List.mem_singleton] at hc
              subst hc
              exact List.mem_cons_self

theorem splitOnFrom_single (d : Char) (cs : List Char) :
    splitOnFrom [d] 0 cs = splitAt (· == d) cs := by
  induction cs with
  | nil =>
      rfl
  | cons c rest ih =>
      have hstart : (dropStart? [d] (c :: rest)).isSome = (c == d) := by
        rw [Bool.eq_iff_iff, isSome_dropStart?, List.cons_prefix_cons, beq_iff_eq]
        exact ⟨fun h => h.1.symm, fun h => ⟨h.symm, List.nil_prefix⟩⟩
      rw [splitOnFrom, splitAt, hstart]
      simp only [List.length_singleton, Nat.sub_self, ih]

/-!
# Members
-/

theorem members_trim (hcomma : forall c, c ∈ piece -> c ≠ ',')
    (hsome : trim (String.ofList piece) ≠ "") :
    members (trim (String.ofList piece)) = [trim (String.ofList piece)] := by
  have hwhole : forall c, c ∈ (trim (String.ofList piece)).toList -> (c == ',') = false := by
    intro c hc
    have hpiece := mem_of_mem_trim hc
    rw [String.toList_ofList] at hpiece
    exact beq_eq_false_iff_ne.mpr (hcomma c hpiece)
  rw [members, splitAt_of_forall hwhole, List.map_singleton, String.ofList_toList, trim_trim,
    List.filter_singleton]
  simp [hsome]

/-- A member is its own only member. -/
theorem members_of_mem_members {text member : String} (h : member ∈ members text) :
    members member = [member] := by
  rw [members, List.mem_filter, List.mem_map] at h
  rcases h with ⟨⟨piece, hpiece, rfl⟩, hsome⟩
  exact members_trim (fun c hc => beq_eq_false_iff_ne.mp ((mem_splitAt hpiece).2 c hc))
    (of_decide_eq_true hsome)

theorem trim_of_mem_members {text member : String} (h : member ∈ members text) :
    trim member = member := by
  rw [members, List.mem_filter, List.mem_map] at h
  rcases h with ⟨⟨piece, _, rfl⟩, _⟩
  exact trim_trim _

/-- The same names, apart from their case. -/
def SameWords (names others : List String) : Prop :=
  (forall name, name ∈ names -> exists other, other ∈ others ∧ sameName name other = true) ∧
    forall other, other ∈ others -> exists name, name ∈ names ∧ sameName name other = true

instance (names others : List String) : Decidable (SameWords names others) :=
  inferInstanceAs (Decidable (_ ∧ _))

theorem sameWords_refl (names : List String) : SameWords names names :=
  ⟨fun name h => ⟨name, h, sameName_refl name⟩, fun name h => ⟨name, h, sameName_refl name⟩⟩

theorem sameName_trans {a b c : String} (h : sameName a b = true) (h' : sameName b c = true) :
    sameName a c = true :=
  sameName_iff.mpr ((sameName_iff.mp h).trans (sameName_iff.mp h'))

/-- One of the members of a stored list is one of the names. -/
def meets (stored : String) (names : List String) : Bool :=
  names.any fun name => (members stored).any (sameName · name)

theorem meets_iff {stored : String} {names : List String} : meets stored names = true <->
    exists name, name ∈ names ∧ exists member, member ∈ members stored ∧
      sameName member name = true := by
  simp only [meets, List.any_eq_true]

theorem meets_of_sameWords {names others : List String} (h : SameWords names others)
    {stored : String} (hmeets : meets stored names = true) : meets stored others = true := by
  rcases meets_iff.mp hmeets with ⟨name, hname, member, hmember, hsame⟩
  rcases h.1 name hname with ⟨other, hother, hsame'⟩
  exact meets_iff.mpr ⟨other, hother, member, hmember, sameName_trans hsame hsame'⟩

theorem SameWords.symm {names others : List String} (h : SameWords names others) :
    SameWords others names := by
  constructor
  · intro other hother
    rcases h.2 other hother with ⟨name, hname, hsame⟩
    exact ⟨name, hname, (sameName_comm other name).trans hsame⟩
  · intro name hname
    rcases h.1 name hname with ⟨other, hother, hsame⟩
    exact ⟨other, hother, (sameName_comm other name).trans hsame⟩

/-- A name that is its own only member, stored alone, meets those that are the same. -/
theorem exists_of_meets_self {name : String} (hname : members name = [name])
    {names others : List String} (hmem : name ∈ names)
    (h : meets name names = meets name others) :
    exists other, other ∈ others ∧ sameName name other = true := by
  have hself : meets name names = true :=
    meets_iff.mpr ⟨name, hmem, name, hname ▸ List.mem_singleton_self name, sameName_refl name⟩
  rw [hself] at h
  rcases meets_iff.mp h.symm with ⟨other, hother, member, hmember, hsame⟩
  rw [hname, List.mem_singleton] at hmember
  subst hmember
  exact ⟨other, hother, hsame⟩

/-- Two lists of names are met by the same stored lists exactly if they are the same names. -/
theorem meets_eq_iff {names others : List String}
    (hnames : forall name, name ∈ names -> members name = [name])
    (hothers : forall name, name ∈ others -> members name = [name]) :
    (forall stored, meets stored names = meets stored others) <-> SameWords names others := by
  constructor
  · intro h
    constructor
    · intro name hname
      exact exists_of_meets_self (hnames name hname) hname (h name)
    · intro other hother
      rcases exists_of_meets_self (hothers other hother) hother (h other).symm with
        ⟨name, hname, hsame⟩
      exact ⟨name, hname, (sameName_comm name other).trans hsame⟩
  · intro h stored
    rw [Bool.eq_iff_iff]
    exact ⟨meets_of_sameWords h, meets_of_sameWords h.symm⟩

end Text

/-!
# Words
-/

namespace Eval

open Text (SameWords meets members trim)

/-- The pieces that the words of a search are trimmed from. -/
def wordPieces (wanted : String) : List (List Char) :=
  (Text.splitAt (· == ',') wanted.toList).flatMap fun piece =>
    (Text.splitOnFrom " OR ".toList 0 piece).flatMap (Text.splitOnFrom " or ".toList 0)

theorem searchWords_eq (wanted : String) : searchWords wanted =
    ((wordPieces wanted).map fun piece => trim (String.ofList piece)).filter (· ≠ "") := by
  have hcomma : ",".toList = [','] := rfl
  simp only [searchWords, wordPieces, Text.splitOn, hcomma, Text.splitOnFrom_single,
    List.flatMap_map, List.map_flatMap, List.map_map, String.toList_ofList]
  rfl

/-- A word is its own only member. -/
theorem members_of_mem_searchWords {wanted word : String} (h : word ∈ searchWords wanted) :
    members word = [word] := by
  rw [searchWords_eq, List.mem_filter, List.mem_map] at h
  rcases h with ⟨⟨piece, hpiece, rfl⟩, hsome⟩
  rw [wordPieces, List.mem_flatMap] at hpiece
  rcases hpiece with ⟨listed, hlisted, hpiece⟩
  rcases List.mem_flatMap.mp hpiece with ⟨part, hpart, hpiece⟩
  refine Text.members_trim ?_ (of_decide_eq_true hsome)
  intro c hc
  have hc' := Text.mem_of_mem_splitOnFrom hpart (Text.mem_of_mem_splitOnFrom hpiece hc)
  exact beq_eq_false_iff_ne.mp ((Text.mem_splitAt hlisted).2 c hc')

/-- Without an `OR`, the words of a text are its members. -/
theorem searchWords_of_not_infix {wanted : String} (hupper : ¬ " OR ".toList <:+: wanted.toList)
    (hlower : ¬ " or ".toList <:+: wanted.toList) : searchWords wanted = members wanted := by
  have hpieces : wordPieces wanted = Text.splitAt (· == ',') wanted.toList := by
    have hpiece : forall piece, piece ∈ Text.splitAt (· == ',') wanted.toList ->
        (Text.splitOnFrom " OR ".toList 0 piece).flatMap (Text.splitOnFrom " or ".toList 0) =
          [piece] := by
      intro piece hpiece
      have hpart := (Text.mem_splitAt hpiece).1
      rw [Text.splitOnFrom_of_not_infix fun h => hupper (h.trans hpart), List.flatMap_cons,
        List.flatMap_nil, List.append_nil,
        Text.splitOnFrom_of_not_infix fun h => hlower (h.trans hpart)]
    rw [wordPieces, List.flatMap_congr hpiece]
    exact List.flatMap_singleton' _
  rw [searchWords_eq, hpieces, members]

end Eval

/-!
# Deciding a search
-/

namespace Plan

open Eval (searchWords)
open Fetch (Joined itemHolds)
open Sql (Column Literal Predicate Scalar Truth)
open Text (SameWords meets members)

/-- A search of a column, or the negation of one. -/
def search (c : Column) (wanted : Scalar) (negated : Bool) : Predicate :=
  if negated then .not (.contains c wanted) else .contains c wanted

theorem holdsAny_members (stored text : String) :
    Fetch.holdsAny stored (members text) = meets stored (members text) := by
  rw [Fetch.holdsAny, meets, Bool.eq_iff_iff, List.any_eq_true, List.any_eq_true]
  exact exists_congr fun name => and_congr_right fun h => by rw [Text.trim_of_mem_members h]

/-- The platform looks for the members of the text. -/
theorem holds_search (now : Calendar.DateTime) (front name text : String) (negated : Bool)
    (row : Joined) :
    Fetch.conditionHolds now front row (.multiple name (.containValues negated) (members text)) =
      .ok (!(row.get (front ++ name)).isNull &&
        meets (row.get (front ++ name)).text (members text) != negated) := by
  have hoperator : (Fetch.Condition.multiple name (.containValues negated) (members text)).operator =
      .containValues negated := rfl
  rw [Fetch.conditionHolds, hoperator]
  cases hnull : (row.get (front ++ name)).isNull with
  | true =>
      simp [Fetch.Condition.multiple, hnull]
  | false =>
      simp [Fetch.Condition.multiple, hnull, Fetch.accepts, holdsAny_members]

/-- Local evaluation looks for the words of the text. -/
theorem predicate_search (clock : Clock) (read : String -> Value) (c : Column) (text : String)
    (negated : Bool) :
    Eval.predicate clock read (search c (.literal (.str text)) negated) =
      .ok (if (read c.rowKey).isNull then .unknown
        else .ofBool (meets (read c.rowKey).text (searchWords text) != negated)) := by
  have hcontains : Eval.predicate clock read (.contains c (.literal (.str text))) =
      .ok (if (read c.rowKey).isNull then .unknown
        else .ofBool (meets (read c.rowKey).text (searchWords text))) := by
    simp only [Eval.predicate, Eval.scalar, Outcome.ok_bind, Eval.containsTruth, Value.ofLiteral,
      Value.isNull, Bool.or_false]
    rfl
  cases negated with
  | false =>
      simp only [search, Bool.false_eq_true, if_false, hcontains, Bool.bne_false]
  | true =>
      have hnot : Eval.predicate clock read (.not (.contains c (.literal (.str text)))) =
          (do .ok (<- Eval.predicate clock read (.contains c (.literal (.str text)))).not) := rfl
      simp only [search, if_true, hnot, hcontains, Outcome.ok_bind, Bool.bne_true]
      cases (read c.rowKey).isNull with
      | true =>
          rfl
      | false =>
          cases meets (read c.rowKey).text (searchWords text) <;> rfl

namespace Context

variable {ctx : Context} {c : Column} {wanted : Scalar} {negated : Bool} {found : Native}

/-- The native form of a search is a condition on the column with the members of a text. -/
theorem native_search (h : ctx.native (search c wanted negated) = .ok (some found)) :
    exists b text, ctx.resolve c = .ok (some b) ∧
      ctx.operand wanted = .ok (.literal (.str text)) ∧
      found = ⟨b.scope, .inl (.multiple b.name (.containValues negated) (members text))⟩ := by
  cases negated with
  | false =>
      cases native_form h with
      | contains hc hwanted =>
          exact ⟨_, _, hc, hwanted, rfl⟩
  | true =>
      cases native_form h with
      | notContains hc hwanted =>
          exact ⟨_, _, hc, hwanted, rfl⟩

theorem qualifyPredicate_search {b : Bound} {text : String} (hc : ctx.resolve c = .ok (some b))
    (hwanted : ctx.operand wanted = .ok (.literal (.str text))) (negated : Bool) :
    ctx.qualifyPredicate (search c wanted negated) =
      .ok (search (ctx.scopes.qualified b) (.literal (.str text)) negated) := by
  have hcontains := qualifyPredicate_eq_ok.mpr (.contains hc (qualify_of_literal_operand hwanted))
  cases negated with
  | false =>
      exact hcontains
  | true =>
      exact qualifyPredicate_eq_ok.mpr (.not hcontains)

/-- Two searches agree on a missing value, and on another one if both find something or neither. -/
theorem agree_iff (missing found found' negated : Bool) :
    ((!missing && found != negated) = true <->
      (if missing then Truth.unknown else .ofBool (found' != negated)) = .isTrue) <->
      missing = true ∨ found = found' := by
  cases missing <;> cases negated <;> cases found <;> cases found' <;> decide

/-- What a row stores for a column is missing or a text. -/
def StoresText (ctx : Context) (b : Bound) (row : Joined) : Prop :=
  row.get (ctx.scopes.rowKey b) = .null ∨ exists s, row.get (ctx.scopes.rowKey b) = .str s

/-- The native form of a search finds the members of the text in what is stored. -/
theorem itemHolds_search (ctx : Context) (now : Calendar.DateTime) (b : Bound) (text : String)
    (negated : Bool) (row : Joined) :
    itemHolds now (ctx.scopes.front b.scope) row
      (.inl (.multiple b.name (.containValues negated) (members text))) =
        .ok (!(row.get (ctx.scopes.rowKey b)).isNull &&
          meets (row.get (ctx.scopes.rowKey b)).text (members text) != negated) := by
  rw [<- get_front]
  exact holds_search now (ctx.scopes.front b.scope) b.name text negated row

/-- On a row, the two decide alike if it stores nothing or what they both find or both do not. -/
theorem search_agrees_iff (ctx : Context) (now : Calendar.DateTime) (clock : Clock) (b : Bound)
    (text : String) (negated : Bool) (row : Joined) :
    (itemHolds now (ctx.scopes.front b.scope) row
        (.inl (.multiple b.name (.containValues negated) (members text))) = .ok true <->
      Eval.predicate clock row.get
        (search (ctx.scopes.qualified b) (.literal (.str text)) negated) = .ok .isTrue) <->
      (row.get (ctx.scopes.rowKey b)).isNull = true ∨
        meets (row.get (ctx.scopes.rowKey b)).text (members text) =
          meets (row.get (ctx.scopes.rowKey b)).text (searchWords text) := by
  have heval := predicate_search clock row.get (ctx.scopes.qualified b) text negated
  rw [ctx.itemHolds_search, heval, Except.ok.injEq, Except.ok.injEq]
  exact agree_iff _ _ _ negated

/-- On all rows that store texts, they decide alike exactly if they look for the same names. -/
theorem search_agrees_everywhere_iff (ctx : Context) (now : Calendar.DateTime) (clock : Clock)
    (b : Bound) (text : String) (negated : Bool) :
    (forall row : Joined, ctx.StoresText b row ->
      (itemHolds now (ctx.scopes.front b.scope) row
          (.inl (.multiple b.name (.containValues negated) (members text))) = .ok true <->
        Eval.predicate clock row.get
          (search (ctx.scopes.qualified b) (.literal (.str text)) negated) = .ok .isTrue)) <->
      SameWords (members text) (searchWords text) := by
  rw [<- Text.meets_eq_iff (fun _ => Text.members_of_mem_members)
    (fun _ => Eval.members_of_mem_searchWords)]
  constructor
  · intro hsame stored
    have hget : Joined.get ⟨none, Dict.empty.insert (ctx.scopes.rowKey b) (.str stored)⟩
        (ctx.scopes.rowKey b) = .str stored := by
      rw [Joined.get, Dict.get?_insert_self]
      rfl
    have hrow := (ctx.search_agrees_iff now clock b text negated _).mp
      (hsame _ (.inr ⟨stored, hget⟩))
    rw [hget] at hrow
    exact hrow.resolve_left Bool.false_ne_true
  · intro hsame row hstored
    refine (ctx.search_agrees_iff now clock b text negated row).mpr ?_
    rcases hstored with hnull | ⟨stored, _⟩
    · exact .inl (congrArg Value.isNull hnull)
    · exact .inr (hsame _)

/--
A native search and its local evaluation never fail.  They decide alike whatever is stored exactly
if the words of the text are its members apart from their case, as they are if the text has no `OR`
between blanks.
-/
theorem search_decided (now : Calendar.DateTime) (clock : Clock)
    (h : ctx.native (search c wanted negated) = .ok (some found)) :
    exists b text q, ctx.resolve c = .ok (some b) ∧
      ctx.operand wanted = .ok (.literal (.str text)) ∧
      ctx.qualifyPredicate (search c wanted negated) = .ok q ∧
      (forall row : Joined, exists holds t,
        itemHolds now (ctx.scopes.front found.scope) row found.item = .ok holds ∧
          Eval.predicate clock row.get q = .ok t) ∧
      ((forall row : Joined, ctx.StoresText b row ->
          (itemHolds now (ctx.scopes.front found.scope) row found.item = .ok true <->
            Eval.predicate clock row.get q = .ok .isTrue)) <->
        SameWords (members text) (searchWords text)) ∧
      (¬ " OR ".toList <:+: text.toList -> ¬ " or ".toList <:+: text.toList ->
        SameWords (members text) (searchWords text)) := by
  rcases native_search h with ⟨b, text, hb, htext, rfl⟩
  refine ⟨b, text, _, hb, htext, qualifyPredicate_search hb htext negated, ?_,
    ctx.search_agrees_everywhere_iff now clock b text negated, ?_⟩
  · intro row
    exact ⟨_, _, ctx.itemHolds_search now b text negated row,
      predicate_search clock row.get (ctx.scopes.qualified b) text negated⟩
  · intro hupper hlower
    rw [Eval.searchWords_of_not_infix hupper hlower]
    exact Text.sameWords_refl _

end Context

/-!
# Baskets
-/

def basketContext : Context where
  options := ⟨true, true⟩
  scopes := [⟨"basket", (TableDef.ofKey "basket" "basketid").withAttribute
    (.ofType "fruits" .multiSelectPicklist), [], false⟩]
  fetch := .ofTable "basket"

def fruits : Column :=
  .inCollection "basket" "fruits"

def basketRow (content : String) : Joined :=
  ⟨none, .ofList [("fruits", .str content)]⟩

theorem basketContext_native (wanted : String) (negated : Bool) :
    basketContext.native (search fruits (.literal (.str wanted)) negated) =
      .ok (some ⟨0, .inl (.multiple "fruits" (.containValues negated) (members wanted))⟩) := by
  cases negated <;> rfl

/-- A list of fruits is searched alike.  Of figs or plums the platform does not find a basket. -/
theorem basket_searches :
    (exists found q, basketContext.native
        (search fruits (.literal (.str "figs, Plums")) true) = .ok (some found) ∧
      basketContext.qualifyPredicate
        (search fruits (.literal (.str "figs, Plums")) true) = .ok q ∧
      (itemHolds newYear (basketContext.scopes.front found.scope) (basketRow "plums,nuts")
          found.item = .ok true <->
        Eval.predicate ⟨newYear, newYear⟩ (basketRow "plums,nuts").get q = .ok .isTrue)) ∧
    exists found q, basketContext.native
        (search fruits (.literal (.str "figs OR plums")) false) = .ok (some found) ∧
      basketContext.qualifyPredicate
        (search fruits (.literal (.str "figs OR plums")) false) = .ok q ∧
      ¬ forall row, basketContext.StoresText ⟨0, "fruits"⟩ row ->
        (itemHolds newYear (basketContext.scopes.front found.scope) row found.item = .ok true <->
          Eval.predicate ⟨newYear, newYear⟩ row.get q = .ok .isTrue) := by
  have hsame : SameWords (members "figs, Plums") (searchWords "figs, Plums") := by
    decide +kernel
  have hnot : ¬ SameWords (members "figs OR plums") (searchWords "figs OR plums") := by
    decide +kernel
  constructor
  · rcases Context.search_decided newYear ⟨newYear, newYear⟩
      (basketContext_native "figs, Plums" true) with ⟨b, text, q, hb, htext, hq, _, hagree, _⟩
    cases hb
    cases htext
    exact ⟨_, q, basketContext_native _ _, hq, hagree.mpr hsame _ (.inr ⟨_, rfl⟩)⟩
  · rcases Context.search_decided newYear ⟨newYear, newYear⟩
      (basketContext_native "figs OR plums" false) with ⟨b, text, q, hb, htext, hq, _, hagree, _⟩
    cases hb
    cases htext
    exact ⟨_, q, basketContext_native _ _, hq, mt hagree.mp hnot⟩

end Plan

end RecordSql
