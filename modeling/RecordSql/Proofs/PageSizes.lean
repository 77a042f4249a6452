import RecordSql.Proofs.Paging
import RecordSql.Proofs.ScopeRows

/-!
# The size of a page does not matter

A query that asks for no page of its own is retrieved page by page until the options ask to stop.
Whatever the size of a page, the pages that were retrieved are the beginning of a single page
without bounds, and all of it if the options never ask to stop.  The clock may go on between two
pages, as long as no condition of the query looks at it.
-/

namespace RecordSql

namespace Fetch

open Calendar (DateTime)

/-!
# Conditions that do not look at the clock
-/

/-- The operator measures from the current time. -/
def Operator.isRelative : Operator -> Bool
  | within _ _ => true
  | lastSevenDays => true
  | nextSevenDays => true
  | last _ => true
  | next _ => true
  | olderThanDays => true
  | olderThanMonths => true
  | olderThanYears => true
  | _ => false

mutual

def Filter.isTimeless : Filter -> Bool
  | ⟨_, items⟩ => itemsAreTimeless items

def itemsAreTimeless : List (Condition ⊕ Filter) -> Bool
  | [] => true
  | .inl c :: rest => !c.operator.isRelative && itemsAreTimeless rest
  | .inr f :: rest => f.isTimeless && itemsAreTimeless rest

end

mutual

/-- No condition of the scope and of those linked to it is measured from the current time. -/
def Scope.isTimeless : Scope -> Bool
  | ⟨_, _, _, filters, links, _⟩ => filters.all Filter.isTimeless && linksAreTimeless links

def linksAreTimeless : List (Link × Scope) -> Bool
  | [] => true
  | (_, scope) :: rest => scope.isTimeless && linksAreTimeless rest

end

variable {now : DateTime}

/-- An operator that measures nothing has no range. -/
theorem dateRange_ne_ok {op : Operator} (h : op.isRelative = false)
    (number : Except PlatformError Int) (range : DateRange) : dateRange now op number ≠ .ok range := by
  intro hrange
  unfold dateRange at hrange
  generalize boundary now .week 0 = start at hrange
  cases start with
  | none =>
      cases hrange
  | some t =>
      cases op <;> first | exact Bool.noConfusion h | cases hrange

/--
What was decided without looking at the clock stays decided.  Only a failure may change: an
operator that the platform does not support fails on every date, but not always alike.
-/
theorem accepts_later {c : Condition} {value other : Value} {b : Bool} (later : DateTime)
    (hc : c.operator.isRelative = false) (h : accepts now value other c = .ok b) :
    accepts later value other c = .ok b := by
  unfold accepts at h ⊢
  split at h
  · exact h
  · exact h
  · exact h
  · exact h
  · exact h
  · exact h
  · exact h
  · cases htime : value.asDateTime with
    | none =>
        rw [htime] at h
        exact h
    | some t =>
        rw [htime] at h
        rcases Outcome.bind_eq_ok.mp h with ⟨range, hrange, _⟩
        exact absurd hrange (dateRange_ne_ok hc _ _)

theorem conditionHolds_later {c : Condition} {front : String} {row : Joined} {b : Bool}
    (later : DateTime) (hc : c.operator.isRelative = false)
    (h : conditionHolds now front row c = .ok b) : conditionHolds later front row c = .ok b := by
  unfold conditionHolds at h ⊢
  split at h
  · exact h
  · by_cases hnull : (row.get (front ++ c.column)).isNull = true
    · rw [if_pos hnull] at h ⊢
      exact h
    · rw [if_neg hnull] at h ⊢
      exact accepts_later later hc h

mutual

theorem filterHolds_later {front : String} {row : Joined} {b : Bool} (later : DateTime) :
    forall f : Filter, f.isTimeless = true -> filterHolds now front row f = .ok b ->
      filterHolds later front row f = .ok b
  | ⟨.all, items⟩, hf, h => by
      rw [filterHolds] at h ⊢
      exact allHold_later later items hf h
  | ⟨.any, []⟩, _, h => by
      rw [filterHolds] at h ⊢
      exact h
  | ⟨.any, item :: rest⟩, hf, h => by
      rw [filterHolds] at h ⊢
      · exact anyHolds_later later (item :: rest) hf h
      · exact List.cons_ne_nil _ _
      · exact List.cons_ne_nil _ _

theorem allHold_later {front : String} {row : Joined} {b : Bool} (later : DateTime) :
    forall items, itemsAreTimeless items = true -> allHold now front row items = .ok b ->
      allHold later front row items = .ok b
  | [], _, h => by
      rw [allHold] at h ⊢
      exact h
  | .inl c :: rest, hitems, h => by
      rw [itemsAreTimeless, Bool.and_eq_true, Bool.not_eq_true'] at hitems
      rw [allHold, Outcome.bind_eq_ok] at h ⊢
      rcases h with ⟨holds, hc, h⟩
      refine ⟨holds, conditionHolds_later later hitems.1 hc, ?_⟩
      cases holds with
      | true =>
          rw [if_pos rfl] at h ⊢
          exact allHold_later later rest hitems.2 h
      | false =>
          rw [if_neg Bool.false_ne_true] at h ⊢
          exact h
  | .inr f :: rest, hitems, h => by
      rw [itemsAreTimeless, Bool.and_eq_true] at hitems
      rw [allHold, Outcome.bind_eq_ok] at h ⊢
      rcases h with ⟨holds, hf, h⟩
      refine ⟨holds, filterHolds_later later f hitems.1 hf, ?_⟩
      cases holds with
      | true =>
          rw [if_pos rfl] at h ⊢
          exact allHold_later later rest hitems.2 h
      | false =>
          rw [if_neg Bool.false_ne_true] at h ⊢
          exact h

theorem anyHolds_later {front : String} {row : Joined} {b : Bool} (later : DateTime) :
    forall items, itemsAreTimeless items = true -> anyHolds now front row items = .ok b ->
      anyHolds later front row items = .ok b
  | [], _, h => by
      rw [anyHolds] at h ⊢
      exact h
  | .inl c :: rest, hitems, h => by
      rw [itemsAreTimeless, Bool.and_eq_true, Bool.not_eq_true'] at hitems
      rw [anyHolds, Outcome.bind_eq_ok] at h ⊢
      rcases h with ⟨holds, hc, h⟩
      refine ⟨holds, conditionHolds_later later hitems.1 hc, ?_⟩
      cases holds with
      | true =>
          rw [if_pos rfl] at h ⊢
          exact h
      | false =>
          rw [if_neg Bool.false_ne_true] at h ⊢
          exact anyHolds_later later rest hitems.2 h
  | .inr f :: rest, hitems, h => by
      rw [itemsAreTimeless, Bool.and_eq_true] at hitems
      rw [anyHolds, Outcome.bind_eq_ok] at h ⊢
      rcases h with ⟨holds, hf, h⟩
      refine ⟨holds, filterHolds_later later f hitems.1 hf, ?_⟩
      cases holds with
      | true =>
          rw [if_pos rfl] at h ⊢
          exact h
      | false =>
          rw [if_neg Bool.false_ne_true] at h ⊢
          exact anyHolds_later later rest hitems.2 h

end

theorem filtersHold_later {front : String} {row : Joined} {b : Bool} (later : DateTime)
    {filters : List Filter} (hfilters : filters.all Filter.isTimeless = true)
    (h : filtersHold now front row filters = .ok b) :
    filtersHold later front row filters = .ok b := by
  induction filters with
  | nil =>
      rw [filtersHold] at h ⊢
      exact h
  | cons f rest ih =>
      rw [List.all_cons, Bool.and_eq_true] at hfilters
      rw [filtersHold, Outcome.bind_eq_ok] at h ⊢
      rcases h with ⟨holds, hf, h⟩
      refine ⟨holds, filterHolds_later later f hfilters.1 hf, ?_⟩
      cases holds with
      | true =>
          rw [if_pos rfl] at h ⊢
          exact ih hfilters.2 h
      | false =>
          rw [if_neg Bool.false_ne_true] at h ⊢
          exact h

theorem keepMatching_later {front : String} (later : DateTime) {filters : List Filter}
    (hfilters : filters.all Filter.isTimeless = true) {rows kept : List Joined}
    (h : keepMatching now front filters rows = .ok kept) :
    keepMatching later front filters rows = .ok kept := by
  rcases keepMatching_eq_ok.mp h with ⟨holds, hholds, rfl⟩
  exact keepMatching_of_decided fun row hrow => filtersHold_later later hfilters (hholds row hrow)

variable {db : Database}

mutual

theorem scopeRows_later (later : DateTime) {front : String} {rows : List Joined} :
    forall s : Scope, s.isTimeless = true -> scopeRows db front s = .ok rows ->
      scopeRows { db with now := later } front s = .ok rows
  | ⟨table, _, _, filters, links, _⟩, hs, h => by
      rw [Scope.isTimeless, Bool.and_eq_true] at hs
      rcases scopeRows_eq_ok.mp h with ⟨records, joined, htable, hjoined, hkept⟩
      exact scopeRows_eq_ok.mpr ⟨records, joined, htable,
        joinLinks_later later links hs.2 hjoined, keepMatching_later later hs.1 hkept⟩

theorem joinLinks_later (later : DateTime) {front : String} {rows joined : List Joined} :
    forall links, linksAreTimeless links = true -> joinLinks db front links rows = .ok joined ->
      joinLinks { db with now := later } front links rows = .ok joined
  | [], _, h => by
      rw [joinLinks] at h ⊢
      exact h
  | (link, scope) :: rest, hlinks, h => by
      rw [linksAreTimeless, Bool.and_eq_true] at hlinks
      rcases joinLinks_cons_eq_ok.mp h with ⟨children, hchildren, h⟩
      exact joinLinks_cons_eq_ok.mpr ⟨children, scopeRows_later later scope hlinks.1 hchildren,
        joinLinks_later later rest hlinks.2 h⟩

end

/-- The records of a query whose conditions do not look at the clock are the same at any time. -/
theorem allRecords_later {q : Query} (hq : q.root.isTimeless = true) (later : DateTime)
    {all : List Record} (h : allRecords db q = .ok all) :
    allRecords { db with now := later } q = .ok all := by
  rw [allRecords, Outcome.bind_eq_ok] at h ⊢
  rcases h with ⟨rows, hrows, h⟩
  exact ⟨rows, scopeRows_later later q.root hq hrows, h⟩

/-- The answer to a query that sets no page size, when a page holds so many records. -/
def unpaged (db : Database) (whole : Nat) (q : Query) : Except PlatformError Page :=
  evaluate { db with pageSize := whole } { q with count := none }

/-- The number of records on a page of a query. -/
def sizeOfPage (db : Database) (q : Query) : Nat :=
  q.count.getD (max db.pageSize 1)

theorem unpaged_eq_ok {whole : Nat} {q : Query} (htop : q.top = none) (hpage : q.page = none)
    {answer : Page} (h : unpaged db whole q = .ok answer) (hmore : answer.more = false) :
    allRecords db q = .ok answer.records := by
  rw [unpaged, evaluate, allRecords_pageSize, Outcome.bind_eq_ok] at h
  rcases h with ⟨all, hall, hanswer⟩
  cases hanswer
  rw [@pageOf_eq_pageAt _ { q with count := none } htop] at hmore ⊢
  rw [records_pageAt_last (of_decide_eq_false hmore), hpage, Option.getD_none, Nat.max_self,
    Nat.sub_self, Nat.zero_mul, List.drop_zero]
  exact hall

theorem unpaged_eq_error {whole : Nat} {q : Query} {e : PlatformError}
    (h : unpaged db whole q = .error e) : evaluate db q = .error e := by
  rw [unpaged, evaluate, allRecords_pageSize] at h
  rw [evaluate]
  cases hall : allRecords db q with
  | error e' =>
      rw [hall] at h
      cases h
      rfl
  | ok all =>
      rw [hall] at h
      cases h

end Fetch

namespace Run

variable {σ : Type}

/--
The host retrieves from a store that is part of the world, at the time that the world shows, and is
never cancelled.  The store stays as it is, but the time may go on.
-/
structure Retrieves (host : Host σ) (store : σ -> Store) (now : σ -> Clock) : Prop where
  retrieves : forall q w, exists w', store w' = store w ∧
    host.client.retrieve q w =
      (liftExcept (Fetch.evaluate ((store w).database (now w)) q) : EStateM PlatformError σ Page) w'
  goesOn : forall w, host.options.cancelled w = false
  quiet : forall message w, store (host.options.progress message w) = store w
  asks : forall n w, store (host.options.continueRetrieve n w).2 = store w

/-- The store in memory as a host, with options that leave it alone and never cancel. -/
theorem retrieves_client (clock : Clock) (lookup : Lookup Store) {options : RunOptions Store}
    (hgoesOn : forall s, options.cancelled s = false)
    (hquiet : forall message s, options.progress message s = s)
    (hasks : forall n s, (options.continueRetrieve n s).2 = s) :
    Retrieves ⟨Store.client clock, lookup, options, clock⟩ id (fun _ => clock) where
  retrieves _ s := ⟨s, rfl, rfl⟩
  goesOn := hgoesOn
  quiet := hquiet
  asks := hasks

variable {host : Host σ} {store : σ -> Store} {now : σ -> Clock}

theorem Retrieves.cuts (h : Retrieves host store now) {q : Fetch.Query} (htop : q.top = none)
    (htimeless : q.root.isTimeless = true) {w : σ} {all : List Record}
    (hall : Fetch.allRecords ((store w).database (now w)) q = .ok all) :
    Cuts host (fun v => store v = store w) q (Fetch.sizeOfPage ((store w).database (now w)) q)
      all where
  retrieves := by
    intro page cookie v hv
    have hlater := Fetch.allRecords_later htimeless (now v).universal hall
    have hanswer := @evaluate_eq _ { q with page, cookie } all hlater
    rw [@Fetch.pageOf_eq_pageAt _ { q with page, cookie } htop all] at hanswer
    rcases h.retrieves { q with page, cookie } v with ⟨v', hv', hretrieve⟩
    refine ⟨v', ?_, hv'.trans hv⟩
    rw [hretrieve, hv]
    exact congrArg (fun answer => (liftExcept answer : EStateM PlatformError σ Page) v') hanswer
  goesOn := h.goesOn
  quiet message v hv := (h.quiet message v).trans hv
  asks n v hv := (h.asks n v).trans hv

theorem Retrieves.refuses (h : Retrieves host store now) {q : Fetch.Query} {w : σ}
    {e : PlatformError} (he : Fetch.evaluate ((store w).database (now w)) q = .error e) :
    exists w', retrieveAll host q w = .error e w' ∧ store w' = store w := by
  rcases h.retrieves q w with ⟨w', hw', hretrieve⟩
  rw [he] at hretrieve
  have hmax : maxPages = 4294967294 + 1 := rfl
  refine ⟨w', ?_, hw'⟩
  rw [retrieveAll, hmax, pages]
  exact RecordSql.Outcome.bind_apply_of_error hretrieve

/--
Retrieving page by page neither loses nor repeats a record.  What is found is the beginning of the
single page without bounds: one page more than the options say that retrieval goes on.  Unless they
then say that it does not, it is the whole page.  A failure is the failure of the single page.
-/
theorem retrieveAll_unpaged (h : Retrieves host store now) {q : Fetch.Query} (htop : q.top = none)
    (hpage : q.page = none) (htimeless : q.root.isTimeless = true) {w : σ} {whole : Nat}
    (hwhole : forall answer, Fetch.unpaged ((store w).database (now w)) whole q = .ok answer ->
      answer.more = false ∧
        answer.records.length ≤ maxPages * Fetch.sizeOfPage ((store w).database (now w)) q) :
    (forall e, Fetch.unpaged ((store w).database (now w)) whole q = .error e ->
      exists w', retrieveAll host q w = .error e w' ∧ store w' = store w) ∧
    forall answer, Fetch.unpaged ((store w).database (now w)) whole q = .ok answer ->
      exists found rounds stopped w', store w' = store w ∧
        retrieveAll host q w = .ok found w' ∧
        retrieveAll host.polled q ⟨w, []⟩ = .ok found ⟨w', answersOf rounds stopped⟩ ∧
        found = answer.records.take
          ((rounds + 1) * Fetch.sizeOfPage ((store w).database (now w)) q) ∧
        (stopped = false -> found = answer.records) ∧
        ((forall n v, (host.options.continueRetrieve n v).1 = true) -> found = answer.records) := by
  constructor
  · intro e he
    exact h.refuses (Fetch.unpaged_eq_error he)
  · intro answer hanswer
    rcases hwhole answer hanswer with ⟨hmore, hfit⟩
    have hall := Fetch.unpaged_eq_ok htop hpage hanswer hmore
    rcases retrieveAll_cut (h.cuts htop htimeless hall) htop hpage hfit rfl with
      ⟨rounds, stopped, w', hw', hfound, hpolled, hdone, hstopped⟩
    have hwhole : stopped = false -> answer.records.take
        ((rounds + 1) * Fetch.sizeOfPage ((store w).database (now w)) q) = answer.records :=
      fun hgoesOn => List.take_of_length_le (hdone hgoesOn)
    refine ⟨_, rounds, stopped, w', hw', hfound, hpolled, rfl, hwhole, ?_⟩
    intro hcontinues
    cases stopped with
    | false =>
        exact hwhole rfl
    | true =>
        rcases hstopped rfl with ⟨n, v, hanswer⟩
        rw [hcontinues n v] at hanswer
        cases hanswer

/-!
# Three jars

A page holds two of them.
-/

def jarOf (n : Nat) (label : String) : Record :=
  ⟨"jar", some (.ofNat n), .ofList [("id", .guid (.ofNat n)), ("label", .str label)]⟩

def jarStore : Store :=
  { Store.empty with
    tables := .ofList [("jar", [jarOf 1 "figs", jarOf 2 "plums", jarOf 3 "pears"])]
    pageSize := 2 }

theorem isDay_jarDay : Calendar.IsDay 2024 5 31 := by
  decide

theorem isClock_jarTime : Calendar.IsClock 0 0 := by
  decide

def jarClock : Clock :=
  ⟨⟨⟨2024, 5, 31, isDay_jarDay⟩, 0, 0, isClock_jarTime⟩,
    ⟨⟨2024, 5, 31, isDay_jarDay⟩, 0, 0, isClock_jarTime⟩⟩

def jarHost (continues : Bool) : Host Store :=
  ⟨Store.client jarClock, fun name => throw (.ofLookup name (.unknownTable name)),
    { RunOptions.standard with continueRetrieve := fun _ s => (continues, s) }, jarClock⟩

def jarLabels : Fetch.Query :=
  ⟨none, none, none, none, false, false, false, ⟨"jar", false, [.ofName "label"], [], [], []⟩⟩

theorem jars_retrieved :
    (exists found s, retrieveAll (jarHost true) jarLabels jarStore = .ok found s ∧
      found.map (·.get "label") = [.str "figs", .str "plums", .str "pears"]) ∧
    exists found s, retrieveAll (jarHost false) jarLabels jarStore = .ok found s ∧
      found.map (·.get "label") = [.str "figs", .str "plums"] := by
  have hretrieves : forall continues, Retrieves (jarHost continues) id (fun _ => jarClock) :=
    fun _ => retrieves_client jarClock _ (fun _ => rfl) (fun _ _ => rfl) fun _ _ => rfl
  have hunpaged : exists answer,
      Fetch.unpaged (jarStore.database jarClock) 10 jarLabels = .ok answer ∧
      answer.more = false ∧ answer.records.length = 3 ∧
      answer.records.map (·.get "label") = [.str "figs", .str "plums", .str "pears"] :=
    ⟨_, rfl, by decide +kernel, by decide +kernel, by decide +kernel⟩
  rcases hunpaged with ⟨answer, hanswer, hmore, hlength, hlabels⟩
  have hwhole : forall other, Fetch.unpaged (jarStore.database jarClock) 10 jarLabels = .ok other ->
      other.more = false ∧
        other.records.length ≤ maxPages * Fetch.sizeOfPage (jarStore.database jarClock) jarLabels := by
    intro other hother
    cases hanswer.symm.trans hother
    rw [hlength]
    exact ⟨hmore, by decide⟩
  constructor
  · rcases (@retrieveAll_unpaged _ _ _ _ (hretrieves true) jarLabels rfl rfl rfl jarStore 10 hwhole).2
      answer hanswer with
      ⟨_, _, _, s, _, hfound, _, _, _, hcontinues⟩
    rw [hcontinues fun _ _ => rfl] at hfound
    exact ⟨_, s, hfound, hlabels⟩
  · rcases (@retrieveAll_unpaged _ _ _ _ (hretrieves false) jarLabels rfl rfl rfl jarStore 10 hwhole).2
      answer hanswer with
      ⟨found, _, _, s, _, hfound, hpolled, _⟩
    have hshown : (match retrieveAll (jarHost false).polled jarLabels ⟨jarStore, []⟩ with
        | .ok found p => some (found.map (·.get "label"), p.answers)
        | .error _ _ => none) = some ([.str "figs", .str "plums"], [false]) := by
      decide +kernel
    rw [hpolled] at hshown
    exact ⟨found, s, hfound, (Prod.mk.inj (Option.some.inj hshown)).1⟩

end Run
end RecordSql
