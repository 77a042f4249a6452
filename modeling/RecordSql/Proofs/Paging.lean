import RecordSql.Proofs.Outcome
import RecordSql.Platform.Store
import RecordSql.Run.Retrieve

/-!
# Pages together are the whole answer

A query that asks for no page of its own is answered page by page.  The pages that were retrieved
are the first ones of all records that the query returns, and as long as the pages can be numbered
and the options do not stop the retrieval, they are all of them, whatever their size.
-/

namespace RecordSql

namespace Fetch

/-!
# Rows do not depend on the bounds of the platform
-/

mutual

theorem scopeRows_bounds (db : Database) (size : Nat) (limit : Option Nat) (front : String) :
    forall s, scopeRows { db with pageSize := size, aggregateLimit := limit } front s =
      scopeRows db front s
  | ⟨table, _, _, filters, links, _⟩ => by
      rw [scopeRows, scopeRows]
      simp only [joinLinks_bounds db size limit front links]

theorem joinLinks_bounds (db : Database) (size : Nat) (limit : Option Nat) (front : String) :
    forall links rows,
      joinLinks { db with pageSize := size, aggregateLimit := limit } front links rows =
        joinLinks db front links rows
  | [], rows => by
      rw [joinLinks, joinLinks]
  | (link, scope) :: rest, rows => by
      rw [joinLinks, joinLinks, scopeRows_bounds db size limit link.front scope]
      simp only [joinLinks_bounds db size limit front rest]

end

theorem allRecords_pageSize (db : Database) (size : Nat) (q : Query) (count : Option Nat) :
    allRecords { db with pageSize := size } { q with count } = allRecords db q := by
  rw [allRecords, allRecords, scopeRows_bounds db size db.aggregateLimit]

/-!
# One page after the other
-/

/-- The page of a given number, when the records are cut into pages of a size. -/
def pageAt (size page : Nat) (all : List Record) : Page :=
  ⟨(all.drop ((page - 1) * size)).take size, decide ((page - 1) * size + size < all.length),
    if (page - 1) * size + size < all.length then some (cookieText page) else none⟩

theorem pageOf_eq_pageAt {db : Database} {q : Query} (htop : q.top = none) (all : List Record) :
    pageOf db q all =
      pageAt (q.count.getD (max db.pageSize 1)) (max (q.page.getD 1) 1) all := by
  rw [pageOf, htop, pageAt]
  simp only [decide_eq_true_eq]

theorem records_pageAt_last {size page : Nat} {all : List Record}
    (h : ¬ (page - 1) * size + size < all.length) :
    (pageAt size page all).records = all.drop ((page - 1) * size) := by
  apply List.take_of_length_le
  rw [List.length_drop]
  omega

/-- A page and the first ones after it. -/
theorem records_pageAt_append {size page : Nat} (hpage : 1 ≤ page) (all : List Record)
    (rounds : Nat) :
    (pageAt size page all).records ++ (all.drop ((page + 1 - 1) * size)).take (rounds * size) =
      (all.drop ((page - 1) * size)).take ((rounds + 1) * size) := by
  have hskip : (page + 1 - 1) * size = (page - 1) * size + size := by
    obtain ⟨k, rfl⟩ := Nat.exists_eq_add_of_le' hpage
    rw [Nat.add_sub_cancel, Nat.add_sub_cancel, Nat.succ_mul]
  rw [pageAt, hskip, <- List.drop_drop, Nat.succ_mul, Nat.add_comm (rounds * size) size,
    List.take_add]

end Fetch

/-!
# What the options answer
-/

/-- A world together with the answers to the question whether to go on retrieving. -/
structure Polled (σ : Type) where
  host : σ
  /-- The answers so far, in order. -/
  answers : List Bool

namespace Polled

variable {σ ε α : Type}

def part : Part (Polled σ) σ :=
  ⟨fun p => p.host, fun host p => { p with host }⟩

/-- A question whose answer is written down. -/
def asking (question : σ -> Bool × σ) (p : Polled σ) : Bool × Polled σ :=
  let (answer, w) := question p.host
  (answer, ⟨w, p.answers ++ [answer]⟩)

/-- What is left of a result without the answers. -/
def forget : EStateM.Result ε (Polled σ) α -> EStateM.Result ε σ α
  | .ok a p => .ok a p.host
  | .error e p => .error e p.host

end Polled

/-- The host that does the same and writes down whether it is told to go on retrieving. -/
def Host.polled {σ : Type} (host : Host σ) : Host (Polled σ) where
  client := host.client.within Polled.part
  lookup name := Polled.part.run (host.lookup name)
  options :=
    { host.options.within Polled.part with
      continueRetrieve := fun n => Polled.asking (host.options.continueRetrieve n) }
  clock := host.clock

namespace Run

variable {σ : Type} {host : Host σ}

/-- What a host does when a page was retrieved. -/
theorem pages_of_retrieve {q : Fetch.Query} {w w₁ : σ} {page : Page}
    (h : host.client.retrieve q w = .ok page w₁) (single : Bool) (n : Nat) (sofar : List Record) :
    pages host single (n + 1) q sofar w =
      (if !page.more || single then pure (sofar ++ page.records) else
        wantsMore host (sofar ++ page.records).length >>= fun wants =>
          if wants then pages host single n (nextPage q page.cookie) (sofar ++ page.records)
          else pure (sofar ++ page.records) : EStateM PlatformError σ (List Record))
        (host.options.progress (retrievedMessage (sofar ++ page.records).length q.root.table) w₁) := by
  rw [pages, Outcome.bind_apply_of_ok h]
  rfl

/-- What the options answer, unless the execution was cancelled. -/
theorem wantsMore_of_continue {w : σ} (h : host.options.cancelled w = false) (n : Nat) :
    wantsMore host n w = .ok (host.options.continueRetrieve n w).1
      (host.options.continueRetrieve n w).2 := by
  have hget : (get : EStateM PlatformError σ σ) w = .ok w w := rfl
  rw [wantsMore, Outcome.bind_apply_of_ok hget, h]
  rfl

theorem wantsMore_of_cancelled {w : σ} (h : host.options.cancelled w = true) (n : Nat) :
    wantsMore host n w = .ok false w := by
  have hget : (get : EStateM PlatformError σ σ) w = .ok w w := rfl
  rw [wantsMore, Outcome.bind_apply_of_ok hget, h]
  rfl

theorem retrieve_polled {q : Fetch.Query} {w w' : σ} {page : Page}
    (h : host.client.retrieve q w = .ok page w') (answers : List Bool) :
    host.polled.client.retrieve q ⟨w, answers⟩ = .ok page ⟨w', answers⟩ := by
  change Part.run Polled.part (host.client.retrieve q) ⟨w, answers⟩ = _
  simp only [Part.run, Polled.part, h]

theorem progress_polled (message : String) (w : σ) (answers : List Bool) :
    host.polled.options.progress message ⟨w, answers⟩ =
      ⟨host.options.progress message w, answers⟩ :=
  rfl

theorem wantsMore_polled_of_continue {w : σ} (h : host.options.cancelled w = false) (n : Nat)
    (answers : List Bool) :
    wantsMore host.polled n ⟨w, answers⟩ = .ok (host.options.continueRetrieve n w).1
      ⟨(host.options.continueRetrieve n w).2,
        answers ++ [(host.options.continueRetrieve n w).1]⟩ :=
  @wantsMore_of_continue _ host.polled ⟨w, answers⟩ h n

/-- Writing down the answers does not change what the options answer. -/
theorem wantsMore_polled (n : Nat) (w : σ) (answers : List Bool) :
    exists answer w' answers', wantsMore host n w = .ok answer w' ∧
      wantsMore host.polled n ⟨w, answers⟩ = .ok answer ⟨w', answers'⟩ := by
  cases hcancelled : host.options.cancelled w with
  | true =>
      refine ⟨false, w, answers, ?_, ?_⟩
      · exact wantsMore_of_cancelled hcancelled n
      · exact @wantsMore_of_cancelled _ host.polled ⟨w, answers⟩ hcancelled n
  | false =>
      exact ⟨_, _, _, wantsMore_of_continue hcancelled n,
        wantsMore_polled_of_continue hcancelled n answers⟩

/-- Writing down the answers does not change what is retrieved. -/
theorem forget_pages_polled (single : Bool) (n : Nat) (q : Fetch.Query) (sofar : List Record)
    (w : σ) (answers : List Bool) :
    Polled.forget (pages host.polled single n q sofar ⟨w, answers⟩) =
      pages host single n q sofar w := by
  induction n generalizing q sofar w answers with
  | zero =>
      rfl
  | succ n ih =>
      cases hpage : host.client.retrieve q w with
      | error e w₁ =>
          have hpolled : host.polled.client.retrieve q ⟨w, answers⟩ = .error e ⟨w₁, answers⟩ := by
            change Part.run Polled.part (host.client.retrieve q) ⟨w, answers⟩ = _
            simp only [Part.run, Polled.part, hpage]
          rw [pages, pages, Outcome.bind_apply_of_error hpage, Outcome.bind_apply_of_error hpolled]
          rfl
      | ok page w₁ =>
          rw [pages_of_retrieve hpage, pages_of_retrieve (retrieve_polled hpage answers)]
          split
          · rfl
          · rcases @wantsMore_polled _ host (sofar ++ page.records).length
              (host.options.progress (retrievedMessage (sofar ++ page.records).length q.root.table)
                w₁) answers with ⟨answer, w', answers', hwants, hpolled⟩
            rw [progress_polled, Outcome.bind_apply_of_ok hwants, Outcome.bind_apply_of_ok hpolled]
            cases answer with
            | true =>
                rw [if_pos rfl, if_pos rfl]
                exact ih _ _ _ _
            | false =>
                rfl

/-!
# Pages of the same records
-/

/--
Every page of a query is cut out of the same records, in every world that stands.  Nothing that the
host does ends that, and it is not cancelled.
-/
structure Cuts (host : Host σ) (stands : σ -> Prop) (q : Fetch.Query) (size : Nat)
    (all : List Record) : Prop where
  retrieves : forall page cookie w, stands w -> exists w',
    host.client.retrieve { q with page, cookie } w =
      .ok (Fetch.pageAt size (max (page.getD 1) 1) all) w' ∧ stands w'
  goesOn : forall w, host.options.cancelled w = false
  quiet : forall message w, stands w -> stands (host.options.progress message w)
  asks : forall n w, stands w -> stands (host.options.continueRetrieve n w).2

/-- So many times the options say that retrieval goes on, and then, if it is stopped, that not. -/
def answersOf (rounds : Nat) (stopped : Bool) : List Bool :=
  List.replicate rounds true ++ if stopped then [false] else []

variable {stands : σ -> Prop} {q : Fetch.Query} {size : Nat} {all : List Record}

/--
The pages from a given one on.  There is one page more than the options say that retrieval goes on,
and it is the last one unless the options stop it.
-/
theorem pages_cut (h : Cuts host stands q size all) {page : Nat} (hpage : 1 ≤ page) {n : Nat}
    (hn : 0 < n) (hfit : all.length ≤ (page - 1) * size + n * size) {asked : Option Nat}
    {cookie : Option String} (hasked : asked.getD 1 = page) (sofar : List Record) {w : σ} (hw : stands w)
    (answers : List Bool) :
    exists rounds stopped w', stands w' ∧
      pages host.polled false n { q with page := asked, cookie } sofar ⟨w, answers⟩ =
        .ok (sofar ++ (all.drop ((page - 1) * size)).take ((rounds + 1) * size))
          ⟨w', answers ++ answersOf rounds stopped⟩ ∧
      (stopped = false -> all.length ≤ (page - 1) * size + (rounds + 1) * size) ∧
      (stopped = true -> exists m v, (host.options.continueRetrieve m v).1 = false) := by
  induction n generalizing page asked cookie sofar w answers with
  | zero =>
      exact absurd hn (Nat.lt_irrefl 0)
  | succ n ih =>
      rcases h.retrieves asked cookie w hw with ⟨w₁, hretrieve, hw₁⟩
      rw [hasked, Nat.max_eq_left hpage] at hretrieve
      have hquiet := h.quiet (retrievedMessage
        (sofar ++ (Fetch.pageAt size page all).records).length q.root.table) w₁ hw₁
      rw [pages_of_retrieve (retrieve_polled hretrieve answers), progress_polled]
      generalize host.options.progress _ w₁ = w₂ at hquiet ⊢
      by_cases hmore : (page - 1) * size + size < all.length
      · have hgoes : (!(Fetch.pageAt size page all).more || false) = false := by
          simp [Fetch.pageAt, hmore]
        rw [hgoes, if_neg Bool.false_ne_true]
        generalize (sofar ++ (Fetch.pageAt size page all).records).length = m
        have hasks := h.asks m w₂ hquiet
        rw [Outcome.bind_apply_of_ok (wantsMore_polled_of_continue (h.goesOn w₂) m answers)]
        cases hanswer : (host.options.continueRetrieve m w₂).1 with
        | true =>
            have hpositive : 0 < n := by
              apply Nat.pos_of_ne_zero
              intro hzero
              rw [hzero] at hfit
              omega
            have hskip : (page + 1 - 1) * size = (page - 1) * size + size := by
              obtain ⟨k, rfl⟩ := Nat.exists_eq_add_of_le' hpage
              rw [Nat.add_sub_cancel, Nat.add_sub_cancel, Nat.succ_mul]
            have hfit₁ : all.length ≤ (page + 1 - 1) * size + n * size := by
              rw [hskip]
              rw [Nat.succ_mul] at hfit
              omega
            have hnext : (some (asked.getD 1 + 1)).getD 1 = page + 1 := by
              rw [hasked]
              rfl
            rcases @ih (page + 1) (Nat.le_add_left 1 page) hpositive hfit₁ (some (asked.getD 1 + 1))
              (Fetch.pageAt size page all).cookie hnext
              (sofar ++ (Fetch.pageAt size page all).records) _ hasks (answers ++ [true]) with
              ⟨rounds, stopped, w', hw', hrest, hdone, hstopped⟩
            refine ⟨rounds + 1, stopped, w', hw', ?_, ?_, hstopped⟩
            · rw [if_pos rfl]
              refine hrest.trans ?_
              rw [List.append_assoc, Fetch.records_pageAt_append hpage, List.append_assoc]
              rfl
            · intro hgoesOn
              have hlength := hdone hgoesOn
              rw [hskip] at hlength
              rw [Nat.succ_mul (rounds + 1)]
              omega
        | false =>
            rw [if_neg Bool.false_ne_true]
            refine ⟨0, true, _, hasks, ?_, ?_, ?_⟩
            · rw [Nat.zero_add, Nat.one_mul]
              rfl
            · intro hgoesOn
              cases hgoesOn
            · intro _
              exact ⟨m, w₂, hanswer⟩
      · have hlast : (!(Fetch.pageAt size page all).more || false) = true := by
          simp [Fetch.pageAt, hmore]
        rw [hlast, if_pos rfl]
        refine ⟨0, false, w₂, hquiet, ?_, ?_, ?_⟩
        · rw [Nat.zero_add, Nat.one_mul, answersOf, List.replicate_zero, List.nil_append,
            if_neg Bool.false_ne_true, List.append_nil]
          rfl
        · intro _
          omega
        · intro hstopped
          cases hstopped


/-- The pages of a query that asks for none, with the answers that the options gave. -/
theorem retrieveAll_cut (h : Cuts host stands q size all) (htop : q.top = none)
    (hpage : q.page = none) (hfit : all.length ≤ maxPages * size) {w : σ} (hw : stands w) :
    exists rounds stopped w', stands w' ∧
      retrieveAll host q w = .ok (all.take ((rounds + 1) * size)) w' ∧
      retrieveAll host.polled q ⟨w, []⟩ =
        .ok (all.take ((rounds + 1) * size)) ⟨w', answersOf rounds stopped⟩ ∧
      (stopped = false -> all.length ≤ (rounds + 1) * size) ∧
      (stopped = true -> exists m v, (host.options.continueRetrieve m v).1 = false) := by
  have hsingle : isSinglePage q = false := by
    rw [isSinglePage, htop, hpage]
    rfl
  have hasked : q.page.getD 1 = 1 := by
    rw [hpage]
    rfl
  have hfit₁ : all.length ≤ (1 - 1) * size + maxPages * size := by
    rw [Nat.sub_self, Nat.zero_mul, Nat.zero_add]
    exact hfit
  rcases @pages_cut _ host _ q _ _ h 1 (Nat.le_refl 1) maxPages (by decide) hfit₁ q.page q.cookie
    hasked [] w hw [] with ⟨rounds, stopped, w', hw', hpolled, hdone, hstopped⟩
  rw [Nat.sub_self, Nat.zero_mul, List.drop_zero, List.nil_append, List.nil_append] at hpolled
  rw [Nat.sub_self, Nat.zero_mul, Nat.zero_add] at hdone
  have hforget := @forget_pages_polled _ host false maxPages q [] w []
  refine ⟨rounds, stopped, w', hw', ?_, ?_, hdone, hstopped⟩
  · rw [retrieveAll, hsingle, <- hforget]
    exact congrArg Polled.forget hpolled
  · rw [retrieveAll, hsingle]
    exact hpolled

/-!
# Retrieving from a store
-/

/--
The host answers retrievals from a store that is part of the world, and its options never stop a
retrieval.  Neither of them changes the store.
-/
structure Serves (host : Host σ) (store : σ -> Store) : Prop where
  retrieves : forall q w page, Fetch.evaluate ((store w).database host.clock) q = .ok page ->
    exists w', host.client.retrieve q w = .ok page w' ∧ store w' = store w
  goesOn : forall w, host.options.cancelled w = false
  quiet : forall message w, store (host.options.progress message w) = store w
  continues : forall n w, exists w', host.options.continueRetrieve n w = (true, w') ∧
    store w' = store w

variable {store : σ -> Store}

theorem evaluate_eq {db : Fetch.Database} {q : Fetch.Query} {all : List Record}
    (h : Fetch.allRecords db q = .ok all) : Fetch.evaluate db q = .ok (Fetch.pageOf db q all) := by
  rw [Fetch.evaluate, h]
  rfl

theorem Serves.cuts (h : Serves host store) {q : Fetch.Query} (htop : q.top = none)
    (hcount : q.count = none) {w : σ} {all : List Record}
    (hall : Fetch.allRecords ((store w).database host.clock) q = .ok all) :
    Cuts host (fun v => store v = store w) q (max (store w).pageSize 1) all where
  retrieves := by
    intro page cookie v hv
    have hpage := evaluate_eq (q := { q with page, cookie }) hall
    have hsize : q.count.getD (max ((store w).database host.clock).pageSize 1) =
        max (store w).pageSize 1 := by
      rw [hcount]
      rfl
    rw [@Fetch.pageOf_eq_pageAt _ { q with page, cookie } htop all, <- hv] at hpage
    rcases h.retrieves _ v _ hpage with ⟨v', hretrieve, hv'⟩
    dsimp only at hretrieve
    rw [hv, hsize] at hretrieve
    exact ⟨v', hretrieve, hv'.trans hv⟩
  goesOn := h.goesOn
  quiet message v hv := (h.quiet message v).trans hv
  asks := by
    intro n v hv
    rcases h.continues n v with ⟨v', hcontinue, hv'⟩
    rw [hcontinue]
    exact hv'.trans hv

/-- All pages of a query that asks for none are all its records. -/
theorem retrieveAll_all (h : Serves host store) {q : Fetch.Query} (htop : q.top = none)
    (hpage : q.page = none) (hcount : q.count = none) {w : σ} {all : List Record}
    (hall : Fetch.allRecords ((store w).database host.clock) q = .ok all)
    (hfit : all.length ≤ maxPages * max (store w).pageSize 1) :
    exists w', retrieveAll host q w = .ok all w' ∧ store w' = store w := by
  rcases retrieveAll_cut (h.cuts htop hcount hall) htop hpage hfit rfl with
    ⟨rounds, stopped, w', hw', hfound, _, hdone, hstopped⟩
  refine ⟨w', ?_, hw'⟩
  cases stopped with
  | true =>
      rcases hstopped rfl with ⟨n, v, hanswer⟩
      rcases h.continues n v with ⟨v', hcontinue, _⟩
      rw [hcontinue] at hanswer
      cases hanswer
  | false =>
      rw [hfound, List.take_of_length_le (hdone rfl)]

/-- A query that asks for one page is answered by it. -/
theorem retrieveAll_single (h : Serves host store) {q : Fetch.Query}
    (hsingle : isSinglePage q = true) {w : σ} {all : List Record}
    (hall : Fetch.allRecords ((store w).database host.clock) q = .ok all) :
    exists w', retrieveAll host q w =
      .ok (Fetch.pageOf ((store w).database host.clock) q all).records w' ∧
      store w' = store w := by
  have hmax : maxPages = 4294967294 + 1 := rfl
  rcases h.retrieves q w _ (evaluate_eq hall) with ⟨w₁, hretrieve, hw₁⟩
  rw [retrieveAll, hsingle, hmax, pages_of_retrieve hretrieve, if_pos (Bool.or_true _)]
  exact ⟨_, rfl, (h.quiet _ w₁).trans hw₁⟩

/-- A page holds some of the records, in their order. -/
theorem records_pageOf_sublist (db : Fetch.Database) (q : Fetch.Query) (all : List Record) :
    (Fetch.pageOf db q all).records.Sublist all := by
  unfold Fetch.pageOf
  split
  · exact List.take_sublist _ _
  · exact (List.take_sublist _ _).trans (List.drop_sublist _ _)

/-- What is retrieved for a query are some of its records. -/
theorem retrieveAll_sublist (h : Serves host store) {q : Fetch.Query}
    (hcount : q.page = none -> q.count = none) {w w' : σ} {all found : List Record}
    (hall : Fetch.allRecords ((store w).database host.clock) q = .ok all)
    (hfit : all.length ≤ maxPages * max (store w).pageSize 1)
    (hfound : retrieveAll host q w = .ok found w') : found.Sublist all := by
  cases hsingle : isSinglePage q with
  | true =>
      rcases retrieveAll_single h hsingle hall with ⟨_, hpage, _⟩
      cases hpage.symm.trans hfound
      exact records_pageOf_sublist _ _ _
  | false =>
      simp only [isSinglePage, Bool.or_eq_false_iff, Option.isSome_eq_false_iff,
        Option.isNone_iff_eq_none] at hsingle
      rcases retrieveAll_all h hsingle.1 hsingle.2 (hcount hsingle.2) hall hfit with ⟨_, hrecords, _⟩
      cases hrecords.symm.trans hfound
      exact List.Sublist.refl _

/-!
# Refused retrievals
-/

/-- The host serves a store and passes on its refusals. -/
structure Answers (host : Host σ) (store : σ -> Store) : Prop extends Serves host store where
  refuses : forall q w e, Fetch.evaluate ((store w).database host.clock) q = .error e ->
    exists w', host.client.retrieve q w = .error e w' ∧ store w' = store w

theorem retrieveAll_error (h : Answers host store) {q : Fetch.Query} {w : σ} {e : PlatformError}
    (hall : Fetch.allRecords ((store w).database host.clock) q = .error e) :
    exists w', retrieveAll host q w = .error e w' ∧ store w' = store w := by
  have hevaluate : Fetch.evaluate ((store w).database host.clock) q = .error e := by
    rw [Fetch.evaluate, hall]
    rfl
  rcases h.refuses q w e hevaluate with ⟨w', hretrieve, hw'⟩
  refine ⟨w', ?_, hw'⟩
  have hmax : maxPages = 4294967294 + 1 := rfl
  rw [retrieveAll, hmax, pages]
  exact RecordSql.Outcome.bind_apply_of_error hretrieve

end Run
end RecordSql
