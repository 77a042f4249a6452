import RecordSql.Proofs.Limits
import RecordSql.Proofs.RowSteps
import RecordSql.Proofs.StoredValues

/-!
# Limits select a run of the rows

The rows that a limited query returns are a run of those that it returns without its limit, whether
the platform or the last local step selects them.  Steps that run after a native limit leave every
row in its place.  The run is the one that is asked for, unless it is a page whose number is too
large for a word.
-/

namespace RecordSql

/-- The limit of a query: its first rows, or some after those that are passed over. -/
inductive Limit where
  | top (n : Int)
  | offset (skip : Int) (take : Option Int)

namespace Limit

variable {α β : Type} {limit : Limit} {rowsChange : Bool}

def top? : Limit -> Option Int
  | top n => some n
  | offset _ _ => none

def offset? : Limit -> Option Sql.Offset
  | top _ => none
  | offset skip take => some ⟨skip, take⟩

def skipped : Limit -> Nat
  | top _ => 0
  | offset skip _ => skip.toNat

def size? : Limit -> Option Nat
  | top n => some n.toNat
  | offset _ take => take.map Int.toNat

/-- The number and the size of the page that holds the rows, if the platform selects it. -/
def page? (rowsChange : Bool) : Limit -> Option (Nat × Nat)
  | top _ => none
  | offset skip take => Plan.page? rowsChange skip take

/-- Where the returned rows begin.  The number of a page is cut to a word, and at least 1. -/
def start (rowsChange : Bool) (limit : Limit) : Nat :=
  match limit.page? rowsChange with
  | some (number, size) => (max (number % Plan.pageNumbers) 1 - 1) * size
  | none => limit.skipped

/-- If the rows are a page, its number is a word. -/
def Numbered (rowsChange : Bool) (limit : Limit) : Prop :=
  forall number size, limit.page? rowsChange = some (number, size) -> number < Plan.pageNumbers

/-- As many rows as are asked for, from a given one on. -/
def rowsFrom (limit : Limit) (start : Nat) (rows : List α) : List α :=
  match limit.size? with
  | some n => (rows.drop start).take n
  | none => rows.drop start

/-- The rows that are asked for. -/
def select (limit : Limit) (rows : List α) : List α :=
  limit.rowsFrom limit.skipped rows

/-!
# Runs of rows
-/

theorem rowsFrom_map (limit : Limit) (start : Nat) (f : α -> β) (rows : List α) :
    limit.rowsFrom start (rows.map f) = (limit.rowsFrom start rows).map f := by
  unfold rowsFrom
  cases limit.size? with
  | none =>
      exact List.map_drop.symm
  | some n =>
      simp only [List.map_drop, List.map_take]

theorem rowsFrom_forall₂ (limit : Limit) (start : Nat) {r : α -> β -> Prop} {rows : List α}
    {rows' : List β} (h : List.Forall₂ r rows rows') :
    List.Forall₂ r (limit.rowsFrom start rows) (limit.rowsFrom start rows') := by
  unfold rowsFrom
  cases limit.size? with
  | none =>
      exact List.forall₂_drop start h
  | some n =>
      exact List.forall₂_take n (List.forall₂_drop start h)

/-- Two runs of the same size begin at the same row if that is so in every list. -/
theorem eq_of_rowsFrom_eq {start start' size : Nat} (hsize : limit.size? = some size)
    (hpositive : 0 < size) (a : α)
    (h : forall rows : List α, limit.rowsFrom start rows = limit.rowsFrom start' rows) :
    start = start' := by
  -- A list that ends before the later run begins does not end before the earlier one.
  have hlength := fun n : Nat => congrArg List.length (h (List.replicate n a))
  simp only [rowsFrom, hsize, List.length_take, List.length_drop, List.length_replicate] at hlength
  have hstart := hlength start
  have hstart' := hlength start'
  omega

theorem isPage_of_page? {number size : Nat} (h : limit.page? rowsChange = some (number, size)) :
    limit.size? = some size ∧ 0 < size ∧ limit.skipped = (number - 1) * size := by
  cases limit with
  | top n =>
      cases h
  | offset skip take =>
      have hpage := (Plan.isPage_of_page? h).2
      exact ⟨hpage.rows, hpage.positive, hpage.skipped⟩

theorem numbered_of_skipped_lt (h : limit.skipped + 1 < Plan.pageNumbers) :
    limit.Numbered rowsChange := by
  intro number size hpage
  rcases isPage_of_page? hpage with ⟨_, hpositive, hskipped⟩
  have hle : number - 1 ≤ limit.skipped := hskipped ▸ Nat.le_mul_of_pos_right _ hpositive
  omega

/-- The rows that are returned are those asked for exactly if their page is numbered by a word. -/
theorem rowsFrom_start_iff (a : α) : (forall rows : List α,
    limit.rowsFrom (limit.start rowsChange) rows = limit.select rows) <->
      limit.Numbered rowsChange := by
  cases hpage : limit.page? rowsChange with
  | none =>
      have hstart : limit.start rowsChange = limit.skipped := by
        rw [start, hpage]
      rw [hstart]
      exact iff_of_true (fun rows => rfl) fun number size h => by rw [hpage] at h; cases h
  | some page =>
      rcases page with ⟨number, size⟩
      rcases isPage_of_page? hpage with ⟨hsize, hpositive, hskipped⟩
      have hstart : limit.start rowsChange = limit.skipped <-> number < Plan.pageNumbers := by
        rw [start, hpage, hskipped, <- Plan.word_eq_iff]
        exact Nat.mul_left_inj (Nat.ne_of_gt hpositive)
      have hnumbered : limit.Numbered rowsChange <-> number < Plan.pageNumbers := by
        constructor
        · intro h
          exact h number size hpage
        · intro h number' size' hpage'
          rw [hpage] at hpage'
          cases hpage'
          exact h
      rw [hnumbered, <- hstart]
      constructor
      · exact eq_of_rowsFrom_eq hsize hpositive a
      · intro h rows
        rw [h, select]

end Limit

/-!
# Steps that leave the rows in their places
-/

namespace Step

variable {clock : Clock} {rows out : List Row}

theorem apply_rowsFrom (limit : Limit) (start : Nat) {step : Step}
    (hstep : step.changesRows = false) (h : step.apply clock rows = .ok out) :
    step.apply clock (limit.rowsFrom start rows) = .ok (limit.rowsFrom start out) := by
  cases step with
  | compute expr output =>
      exact Outcome.mapM_eq_ok.mpr (limit.rowsFrom_forall₂ start (Outcome.mapM_eq_ok.mp h))
  | foldCase column =>
      cases h
      rw [apply, foldRows, foldRows, Limit.rowsFrom_map]
  | _ =>
      cases hstep

theorem foldlM_rowsFrom (limit : Limit) (start : Nat) {steps : List Step}
    (hsteps : steps.any changesRows = false)
    (h : steps.foldlM (fun rows step => step.apply clock rows) rows = .ok out) :
    steps.foldlM (fun rows step => step.apply clock rows) (limit.rowsFrom start rows) =
      .ok (limit.rowsFrom start out) := by
  induction steps generalizing rows with
  | nil =>
      cases h
      rfl
  | cons step rest ih =>
      rw [List.any_cons, Bool.or_eq_false_iff] at hsteps
      rw [List.foldlM_cons, Outcome.bind_eq_ok] at h
      rcases h with ⟨next, hnext, h⟩
      rw [List.foldlM_cons, apply_rowsFrom limit start hsteps.1 hnext, Outcome.ok_bind]
      exact ih hsteps.2 h

/-- Steps that leave the rows in their places make the same of some rows. -/
theorem run_rowsFrom (limit : Limit) (start : Nat) {steps : List Step}
    (hsteps : steps.any changesRows = false) {records found : List Record}
    (h : run clock steps records = .ok found) :
    run clock steps (limit.rowsFrom start records) = .ok (limit.rowsFrom start found) := by
  rcases run_eq_ok.mp h with ⟨out, hout, rfl⟩
  refine run_eq_ok.mpr ⟨limit.rowsFrom start out, ?_, ?_⟩
  · rw [<- Limit.rowsFrom_map]
    exact foldlM_rowsFrom limit start hsteps hout
  · exact (limit.rowsFrom_map start _ out).symm

theorem run_append_limit (limit : Limit) {steps : List Step} {records found : List Record}
    (h : run clock steps records = .ok found) :
    run clock (steps ++ [.limit limit.skipped limit.size?]) records =
      .ok (limit.select found) := by
  rcases run_eq_ok.mp h with ⟨out, hout, rfl⟩
  refine run_eq_ok.mpr ⟨limit.select out, ?_, (limit.rowsFrom_map _ _ out).symm⟩
  rw [List.foldlM_append, hout]
  rfl

end Step

/-!
# Limited queries
-/

namespace Run

open Plan (applyLimits)

variable {σ : Type} {host : Host σ} {store : σ -> Store} {q q' : Fetch.Query}
  {steps steps' : List Step} {limit : Limit} {w w₁ : σ} {all : List Record}

/-- The platform selects the rows from a given one on. -/
structure SelectsFrom (limit : Limit) (start : Nat) (q q' : Fetch.Query) : Prop where
  single : isSinglePage q' = true
  records : forall db, Fetch.allRecords db q' = Fetch.allRecords db q
  page : forall db all, (Fetch.pageOf db q' all).records = limit.rowsFrom start all

theorem selects_top (n : Int) : SelectsFrom (.top n) 0 q { q with top := some n.toNat } :=
  ⟨rfl, fun _ => rfl, fun _ _ => rfl⟩

theorem selects_page (htop : q.top = none) {skip : Int} {take : Option Int} {number size : Nat}
    (hpage : Plan.IsPage skip take number size) (page : Nat) :
    SelectsFrom (.offset skip take) ((max page 1 - 1) * size) q
      { q with count := some size, page := some page } := by
  refine ⟨Bool.or_true _, fun _ => rfl, ?_⟩
  intro db all
  rw [Fetch.pageOf, htop, Limit.rowsFrom, Limit.size?, hpage.rows]
  rfl

/-- The platform selects the rows, or the last step does. -/
theorem applyLimits_cases (htop : q.top = none)
    (h : applyLimits q steps limit.top? limit.offset? = .ok (q', steps')) :
    (steps.any Step.changesRows = false ∧ steps' = steps ∧
      SelectsFrom limit (limit.start (steps.any Step.changesRows)) q q') ∨
    (q' = q ∧ steps' = steps ++ [.limit limit.skipped limit.size?] ∧
      limit.start (steps.any Step.changesRows) = limit.skipped) := by
  cases limit with
  | top n =>
      simp only [applyLimits, Outcome.bind_eq_ok] at h
      rcases h with ⟨⟨q₁, steps₁⟩, hlimited, h⟩
      cases h
      rcases Plan.applyTop_cases hlimited with ⟨hchange, rfl, rfl⟩ | ⟨rfl, rfl⟩
      · exact .inl ⟨hchange, rfl, selects_top n⟩
      · exact .inr ⟨rfl, rfl, rfl⟩
  | offset skip take =>
      rcases Plan.applyOffset_cases h with ⟨number, size, hpage, rfl, rfl⟩ | ⟨hpage, rfl, rfl⟩
      · rcases Plan.isPage_of_page? hpage with ⟨hchange, hrows⟩
        refine .inl ⟨hchange, rfl, ?_⟩
        rw [Limit.start, Limit.page?, hpage]
        exact selects_page htop hrows _
      · refine .inr ⟨rfl, rfl, ?_⟩
        rw [Limit.start, Limit.page?, hpage]

/--
A limited query returns a run of the rows that it returns without its limit.  It is the run that is
asked for, in every list of rows, exactly if its page is numbered by a word, where it is a page.
-/
theorem limit_selects_rows (hserves : Serves host store) (htop : q.top = none)
    (hlimits : applyLimits q steps limit.top? limit.offset? = .ok (q', steps'))
    (hall : Fetch.allRecords ((store w).database host.clock) q = .ok all)
    (hretrieve : retrieveAll host q w = .ok all w₁) {rows : List Record}
    (hsteps : Step.run host.clock steps all = .ok rows) (columns : List String) :
    (exists w', runPlan host ⟨q', steps', columns⟩ w =
      .ok (limit.rowsFrom (limit.start (steps.any Step.changesRows)) rows) w') ∧
    ((forall rows' : List Record, limit.rowsFrom (limit.start (steps.any Step.changesRows)) rows' =
      limit.select rows') <-> limit.Numbered (steps.any Step.changesRows)) := by
  refine ⟨?_, Limit.rowsFrom_start_iff ⟨"", none, .empty⟩⟩
  rcases applyLimits_cases htop hlimits with ⟨hchange, rfl, hselects⟩ | ⟨rfl, rfl, hstart⟩
  · rw [<- hselects.records] at hall
    rcases retrieveAll_single hserves hselects.single hall with ⟨w', hpage, _⟩
    rw [hselects.page] at hpage
    exact ⟨w', TextQuery.runPlan_of_retrieve hpage (Step.run_rowsFrom limit _ hchange hsteps)⟩
  · rw [hstart]
    exact ⟨w₁, TextQuery.runPlan_of_retrieve hretrieve (Step.run_append_limit limit hsteps)⟩

/-!
# Pages of letters
-/

open TextQuery (letter letterClock letterHost letterStore letters)

def letterQuery : Fetch.Query :=
  (TextQuery.frameOf letter ⟨"letter", none, false⟩).query [.ofName "author"] []

/-- `author + '!'` is shown, too. -/
def callStep : Step :=
  .compute (.binary (.column (.ofName "author")) .add (.literal (.str "!"))) "called"

def retrieved (author : String) : Record :=
  ⟨"letter", none, .ofList [("author", .str author)]⟩

def called (author : String) : Record :=
  ⟨"letter", none, .ofList [("author", .str author), ("called", .str (author ++ "!"))]⟩

def authors : List String :=
  ["Ada", "ada", "ada", "Emmy"]

/-- The second page of two letters is the rest of four.  Far beyond the last is the first one. -/
theorem letter_pages :
    (exists q' steps' w', applyLimits letterQuery [callStep] none (some ⟨2, some 2⟩) =
        .ok (q', steps') ∧
      runPlan letterHost ⟨q', steps', ["called"]⟩ (Session.ofHost letterStore) =
        .ok ((Limit.offset 2 (some 2)).select (authors.map called)) w') ∧
    (exists q' steps' w', applyLimits letterQuery [callStep] none (some ⟨4294967296, some 1⟩) =
        .ok (q', steps') ∧
      runPlan letterHost ⟨q', steps', ["called"]⟩ (Session.ofHost letterStore) =
        .ok [called "Ada"] w') ∧
    (Limit.offset 4294967296 (some 1)).select (authors.map called) = [] := by
  have hserves := TextQuery.serves_hostOf letterClock .standard
  have hall : Fetch.allRecords (letterStore.database letterClock) letterQuery =
      .ok (authors.map retrieved) :=
    @Plan.allRecords_unordered (TextQuery.frameOf letter ⟨"letter", none, false⟩) [.ofName "author"]
      _ letters (fun _ => true) rfl (fun _ _ => rfl)
  have hsteps : Step.run letterClock [callStep] (authors.map retrieved) =
      .ok (authors.map called) := by
    rfl
  rcases @retrieveAll_all _ letterHost Session.host hserves letterQuery rfl rfl rfl
    (Session.ofHost letterStore) _ hall (by decide) with ⟨w₁, hretrieve, _⟩
  refine ⟨?_, ?_, rfl⟩
  · have hlimits : applyLimits letterQuery [callStep] (Limit.offset 2 (some 2)).top?
        (Limit.offset 2 (some 2)).offset? =
          .ok ({ letterQuery with count := some 2, page := some 2 }, [callStep]) := by
      rfl
    rcases limit_selects_rows hserves rfl hlimits hall hretrieve hsteps ["called"] with
      ⟨⟨w', hplan⟩, hselects⟩
    rw [hselects.mpr (Limit.numbered_of_skipped_lt (by decide))] at hplan
    exact ⟨_, _, w', hlimits, hplan⟩
  · have hlimits : applyLimits letterQuery [callStep] (Limit.offset 4294967296 (some 1)).top?
        (Limit.offset 4294967296 (some 1)).offset? =
          .ok ({ letterQuery with count := some 1, page := some 1 }, [callStep]) := by
      rfl
    rcases limit_selects_rows hserves rfl hlimits hall hretrieve hsteps ["called"] with
      ⟨⟨w', hplan⟩, _⟩
    exact ⟨_, _, w', hlimits, hplan⟩

end Run

end RecordSql
