import RecordSql.Plan.Basic
import RecordSql.Run.Host
import RecordSql.Step.Apply

/-!
# Retrieving all pages

Pages are asked for until there are no more, the query asks for one page only, or the options ask
to stop.
-/

namespace RecordSql
namespace Run

variable {σ : Type}

def isSinglePage (q : Fetch.Query) : Bool :=
  q.top.isSome || q.page.isSome

def retrievedMessage (n : Nat) (table : String) : String :=
  "Retrieved " ++ Number.intText n ++ " " ++ table ++ " records..."

/-- The query for the page after the one that a query asks for. -/
def nextPage (q : Fetch.Query) (cookie : Option String) : Fetch.Query :=
  { q with page := some (q.page.getD 1 + 1), cookie }

/-- The options want another page. -/
def wantsMore (host : Host σ) (n : Nat) : EStateM PlatformError σ Bool := do
  if host.options.cancelled (<- get) then return false
  else modifyGet (host.options.continueRetrieve n)

/-- The records of at most so many pages after those retrieved already. -/
def pages (host : Host σ) (single : Bool) :
    Nat -> Fetch.Query -> List Record -> EStateM PlatformError σ (List Record)
  | 0, _, sofar => return sofar
  | n + 1, q, sofar => do
      let page <- host.client.retrieve q
      let all := sofar ++ page.records
      modify (host.options.progress (retrievedMessage all.length q.root.table))
      if !page.more || single then return all
      else if <- wantsMore host all.length then
        pages host single n (nextPage q page.cookie) all
      else return all

/-- Page numbers are words of 32 bits, so there are no more pages than this. -/
def maxPages : Nat := 4294967295

def retrieveAll (host : Host σ) (q : Fetch.Query) : EStateM PlatformError σ (List Record) :=
  pages host (isSinglePage q) maxPages q []

/-!
# Plans
-/

def runSteps (host : Host σ) (steps : List Step) (records : List Record) :
    EStateM RunError σ (List Record) :=
  match Step.run host.clock steps records with
  | .ok rows => pure rows
  | .error e => throw (.eval e)

def runPlan (host : Host σ) (plan : Plan) : EStateM RunError σ (List Record) := do
  let records <- (retrieveAll host plan.fetch).adaptExcept .platform
  runSteps host plan.steps records

/-- The records of an aggregate, unless it is beyond the limit of the platform. -/
def retrieveAggregate (host : Host σ) (q : Fetch.Query) :
    EStateM PlatformError σ (Option (List Record)) := fun s =>
  match retrieveAll host q s with
  | .ok records s' => .ok (some records) s'
  | .error .aggregateLimit s' => .ok none s'
  | .error e s' => .error e s'

/--
An aggregate with local steps after it is answered by its alternative, and so is one that the
platform refuses because of its size.
-/
def runSelect (host : Host σ) (plan : Plan) (alternative : Option Plan) :
    EStateM RunError σ (List Record) :=
  match alternative with
  | none => runPlan host plan
  | some other =>
      if plan.steps.isEmpty then do
        match <- (retrieveAggregate host plan.fetch).adaptExcept .platform with
        | some records => return records
        | none => runPlan host other
      else runPlan host other

end Run
end RecordSql
