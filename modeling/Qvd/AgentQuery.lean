import Mathlib.Data.Nat.Notation

/-!
How an agent classifies the reply to a query and which continuation it calls.
A result is accepted when it carries a number of rows and that number is the one the
caller asked for, if the caller asked for one.
-/
namespace Qvd.AgentQuery

/-- The options of a query that its callbacks look at. -/
structure QueryOpts where
  n : Option ℕ
  saveToSelf : Bool
  saveTo : Bool
  savePairsTo : Bool
  ignoreErrors : Bool
  runAndForget : Bool
deriving DecidableEq, Repr

/-- A query without options. -/
def QueryOpts.plain : QueryOpts :=
  { n := none, saveToSelf := false, saveTo := false, savePairsTo := false,
    ignoreErrors := false, runAndForget := false }

/-- A query that must affect exactly so many rows. -/
def QueryOpts.exactly (n : ℕ) : QueryOpts :=
  { QueryOpts.plain with n := some n }

/-- A result object by its status. -/
inductive PgResult (R : Type*)
  | tuplesOk (rows : List R)
  | commandOk (cmdRows : ℕ)
  | failed
deriving DecidableEq, Repr

/-- What the result callback does with a result. -/
inductive ResultEffect
  | saveToSelf
  | saveTo
  | savePairsTo
  | onResult
  | bad
deriving DecidableEq, Repr

variable {R : Type*}

/-- The number of rows of a result; a command has none for a query that saves rows. -/
def resultRows (opts : QueryOpts) : PgResult R → Option ℕ
  | .tuplesOk rows => some rows.length
  | .commandOk cmdRows =>
    if opts.saveToSelf || opts.saveTo || opts.savePairsTo then none else some cmdRows
  | .failed => none

/-- The number of rows asked for; saving to the agent itself asks for one. -/
def expectedRows (opts : QueryOpts) : Option ℕ :=
  if opts.saveToSelf ∧ (opts.n = none ∨ opts.n = some 0) then some 1 else opts.n

def queryResultCallback (opts : QueryOpts) (res : PgResult R) : ResultEffect :=
  match resultRows opts res with
  | none => .bad
  | some rows =>
    if expectedRows opts = none ∨ expectedRows opts = some rows then
      if opts.saveToSelf then .saveToSelf
      else if opts.saveTo then .saveTo
      else if opts.savePairsTo then .savePairsTo
      else .onResult
    else .bad

inductive Continuation
  | onDone
  | onError
  | forgotten
deriving DecidableEq, Repr

def callOnDoneOrErrorCallback (opts : QueryOpts) (failed : Bool) : Continuation :=
  if opts.runAndForget then .forgotten
  else if failed && !opts.ignoreErrors then .onError
  else .onDone

/-- What the driver reports on one statement: a result, or that it gave up. -/
inductive Reply (R : Type*)
  | result (res : PgResult R)
  | error
deriving DecidableEq, Repr

/-- The query counts as failed when the driver gave up or the result was bad. -/
def Reply.queryFailed (opts : QueryOpts) : Reply R → Bool
  | .result res => queryResultCallback opts res = .bad
  | .error => true

def queryCallback (opts : QueryOpts) (reply : Reply R) : Continuation :=
  callOnDoneOrErrorCallback opts (reply.queryFailed opts)

/-- The reply to an UPDATE with a RETURNING clause that went through. -/
def Reply.returning (rows : List R) : Reply R :=
  .result (.tuplesOk rows)

/-- Without options nothing is asked of the number of rows. -/
theorem queryResultCallback_plain_tuples (rows : List R) :
    queryResultCallback QueryOpts.plain (.tuplesOk rows) = .onResult := rfl

theorem queryCallback_plain (reply : Reply R) :
    queryCallback QueryOpts.plain reply =
      if reply.queryFailed QueryOpts.plain then .onError else .onDone := by
  unfold queryCallback callOnDoneOrErrorCallback
  cases reply.queryFailed QueryOpts.plain <;> rfl

/-- Where a number of rows is asked for, another number is an error. -/
theorem queryCallback_exactly (n : ℕ) (rows : List R) :
    queryCallback (QueryOpts.exactly n) (Reply.returning rows) =
      if rows.length = n then .onDone else .onError := by
  by_cases h : rows.length = n
  · simp [queryCallback, callOnDoneOrErrorCallback, Reply.queryFailed, Reply.returning,
      queryResultCallback, resultRows, expectedRows, QueryOpts.exactly, QueryOpts.plain, h]
  · have h' : n ≠ rows.length := fun heq => h heq.symm
    simp [queryCallback, callOnDoneOrErrorCallback, Reply.queryFailed, Reply.returning,
      queryResultCallback, resultRows, expectedRows, QueryOpts.exactly, QueryOpts.plain, h, h']

end Qvd.AgentQuery
