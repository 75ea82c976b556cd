import System2.Common.Errors
import System2.Foundation.Procedure
import Mathlib.Data.List.Nodup

/-!
# The migrations (`common/db.py`)

`apply_migrations` runs the script of every file that the ledger does not list, and then
puts its name there. On SQLite `executescript` commits an open transaction, runs each
statement on its own, and stops at the first one that fails. The entry in the ledger is a
second commit.

## Implementation notes

A statement is told apart by its file and its place there, so that two of one text are two.
What the database makes of a statement depends on those that have had their effect before,
in their order: it refuses `ALTER TABLE` on a table that is missing and a second
`ADD COLUMN`, and ignores a second `IF NOT EXISTS`. A script opens no transaction of its
own. A run has its own connection, as that of the command does.
-/

namespace System2
open Foundation

/-- What the database makes of a statement. -/
inductive Reaction
  | taken | ignored | refused
  deriving DecidableEq

/-- A statement of a file at its place in the script. -/
structure MigrationStep (σ : Type) where
  file : String
  index : ℕ
  statement : σ
  deriving DecidableEq

structure MigrationFile (σ : Type) where
  name : String
  statements : List σ

def MigrationFile.steps {σ : Type} (f : MigrationFile σ) : List (MigrationStep σ) :=
  f.statements.mapIdx fun i statement => ⟨f.name, i, statement⟩

/-- The files of a directory by name. -/
structure MigrationDir (σ : Type) where
  files : List (MigrationFile σ)
  names : (files.map MigrationFile.name).Nodup

/-- The statements of all files in their order. -/
def MigrationDir.steps {σ : Type} (dir : MigrationDir σ) : List (MigrationStep σ) :=
  dir.files.flatMap MigrationFile.steps

/-- The statements that have had their effect, each time they had it, the committed names of the
ledger and those of the open transaction. -/
structure MigrationDb (σ : Type) where
  history : List (MigrationStep σ)
  ledger : List String
  pending : List String

inductive MigrationCall (σ : Type)
  | commit
  | createLedger
  | selectNames
  | execute (step : MigrationStep σ)
  | insertName (name : String)

abbrev MigrationCall.Ans {σ : Type} : MigrationCall σ → Type
  | .selectNames => List String
  | _ => Unit

abbrev MigrationI (σ : Type) : Interface := ⟨MigrationCall σ, MigrationCall.Ans⟩

namespace Migrations

variable {σ : Type}

abbrev perform (op : MigrationCall σ) : Proc (MigrationI σ) Exc op.Ans :=
  Proc.perform (I := MigrationI σ) op

/-- The statements of a script, one after the other. -/
def executeAll : List (MigrationStep σ) → Proc (MigrationI σ) Exc Unit
  | [] => return ()
  | step :: rest => do
      perform (.execute step)
      executeAll rest

/-- `_run_script` of SQLite. -/
def runScript (steps : List (MigrationStep σ)) : Proc (MigrationI σ) Exc Unit := do
  perform .commit
  executeAll steps

/-- The script of a file and its entry in the ledger. -/
def applyFile (f : MigrationFile σ) : Proc (MigrationI σ) Exc Unit := do
  runScript f.steps
  perform (.insertName f.name)
  perform .commit

/-- The loop over the files. -/
def applyFiles (applied : List String) :
    List (MigrationFile σ) → Proc (MigrationI σ) Exc (List String)
  | [] => return []
  | f :: rest =>
      if applied.contains f.name then applyFiles applied rest
      else do
        applyFile f
        let newly ← applyFiles applied rest
        return f.name :: newly

/-- `apply_migrations`. -/
def applyMigrations (dir : MigrationDir σ) : Proc (MigrationI σ) Exc (List String) := do
  perform .commit
  perform .createLedger
  perform .commit
  let applied ← perform .selectNames
  applyFiles applied dir.files

end Migrations

/-! ### SQLite -/

namespace MigrationDb

variable {σ : Type} (db : MigrationDb σ)

/-- A database that no migration has been run on. -/
def empty : MigrationDb σ := ⟨[], [], []⟩

/-- The names that the connection sees. -/
def names : List String := db.ledger ++ db.pending

/-- What is left when the connection is gone. -/
def reopen : MigrationDb σ := { db with pending := [] }

def answer : (op : MigrationCall σ) → op.Ans
  | .selectNames => db.names
  | .commit | .createLedger | .execute _ | .insertName _ => ()

variable (react : List σ → σ → Reaction)

/-- What the database makes of a statement now. -/
def reaction (step : MigrationStep σ) : Reaction :=
  react (db.history.map MigrationStep.statement) step.statement

/-- Does the database take the call? A name is a primary key of the ledger. -/
def allows : MigrationCall σ → Bool
  | .execute step => db.reaction react step != .refused
  | .insertName name => !db.names.contains name
  | _ => true

variable [DecidableEq σ]

/-- The database after a call that it took. A statement has its effect the first time, also when
there is nothing left for it to do, and again whenever it is not ignored. -/
def after : MigrationCall σ → MigrationDb σ
  | .execute step =>
      if db.reaction react step = .ignored ∧ step ∈ db.history then db
      else { db with history := db.history ++ [step] }
  | .insertName name => { db with pending := db.pending ++ [name] }
  | .commit => { db with ledger := db.names, pending := [] }
  | _ => db

/-- A connection to the database: a call that it takes may fail unless nothing interferes. -/
def sqlite (calm : Bool) : World (MigrationI σ) Exc (MigrationDb σ) := fun db op r db' =>
  (db.allows react op = true ∧ r = .ok (db.answer op) ∧ db' = db.after react op) ∨
    (calm = true → db.allows react op = false) ∧ r.isOk = false ∧ db' = db

end MigrationDb

/-! ### The migrations of the repository -/

/-- The statements of the migrations. -/
inductive Ddl
  | createTableIfNotExists (table : String) (columns : List String)
  | addColumn (table column : String)
  deriving DecidableEq

/-- The columns of a table after some statements, if it is there. -/
def Ddl.columns (table : String) (executed : List Ddl) : Option (List String) :=
  executed.foldl (fun found statement =>
    match statement with
    | .createTableIfNotExists name columns =>
        if name = table then found <|> some columns else found
    | .addColumn name column =>
        if name = table then found.map (· ++ [column]) else found) none

/-- What SQLite makes of them; names are compared as they stand. -/
def Ddl.reaction (executed : List Ddl) : Ddl → Reaction
  | .createTableIfNotExists table _ =>
      if (columns table executed).isSome then .ignored else .taken
  | .addColumn table column =>
      match columns table executed with
      | some columns => if column ∈ columns then .refused else .taken
      | none => .refused

/-- `migrations/sqlite/001_fact_live_trades_additions.sql`. -/
def factLiveTradesAdditions : MigrationFile Ddl where
  name := "001_fact_live_trades_additions.sql"
  statements := .createTableIfNotExists "Fact_Live_Trades"
      ["Order_ID", "Correlation_ID", "Instrument", "Side", "Units", "Created_At"] ::
    ["Broker_Order_ID", "Broker_Trade_ID", "Fill_Price", "Fill_Time", "Requested_Price",
      "Slippage_Pips", "Realized_Status", "Filled_Units", "Stop_Loss_Price", "Take_Profit_Price",
      "Model_Threshold", "Model_Set_ID", "Regime_Label", "Correlation_Score",
      "Correlation_Passed", "Reject_Reason", "Updated_At"].map (.addColumn "Fact_Live_Trades")

/-- The directory of the SQLite provider. -/
def sqliteMigrations : MigrationDir Ddl := ⟨[factLiveTradesAdditions], List.nodup_singleton _⟩

end System2
