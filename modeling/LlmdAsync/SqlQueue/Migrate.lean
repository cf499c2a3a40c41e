import LlmdAsync.Foundation.Hash
import LlmdAsync.Foundation.Paths

/-!
# Schema migrations

`producer-sql/sqlqueue/migrate/migrate.go`: any number of calls of `Run` and `Check` against one
database, from binaries with different embedded migrations.

`Server` is the database as the calls see it: the committed schema, and the open transactions with
their advisory locks.  Statements of a transaction read what is committed and what the transaction
has written itself; this is committed or dropped as a whole, and its lock goes with it.  The
migrations are texts, and `applied` lists those whose effects are committed.

Every statement can be carried out, fail, or be carried out without an answer.  A `COMMIT` without
an answer may take effect later, even after the call has returned.  A call can die between two
statements, and the server can end a transaction at any time.  Logging is left out.
-/

namespace LlmdAsync.Migrate

/-! ### Embedded migrations -/

structure Migration where
  version : ℕ
  name : String
  sql : String
deriving DecidableEq, Repr

/-- What `Run` and `Check` return if they fail. -/
inductive MigrateError where
  /-- `migration %q does not match NNNN_name.sql`. -/
  | badName (file : String)
  /-- `migration versions must be contiguous from 1, got %04d_%s at position %d`. -/
  | notContiguous (version : ℕ) (name : String) (position : ℕ)
  /-- `read schema version: %w`. -/
  | readVersion
  /-- `ErrSchemaMissing`. -/
  | schemaMissing
  /-- `ErrSchemaBehind: database at version %d, binary expects %d`. -/
  | schemaBehind (current expected : ℕ)
  /-- `begin: %w`. -/
  | beginFailed
  /-- `acquire migration lock: %w` or `wait for migration lock: %w`. -/
  | lockFailed
  /-- `create async_schema_migrations: %w`. -/
  | createFailed
  /-- `apply migration %04d_%s: %w`. -/
  | applyFailed (version : ℕ) (name : String)
  /-- `record migration %04d_%s: %w`. -/
  | recordFailed (version : ℕ) (name : String)
  /-- `commit: %w`. -/
  | commitFailed
deriving DecidableEq, Repr

/-- The characters of the second group of `fileNamePattern`. -/
def isNameChar (c : Char) : Bool := c.isLower || c.isDigit || c = '_'

/-- The groups of `fileNamePattern`, `^(\d{4})_([a-z0-9_]+)\.sql$`. -/
def matchFileName (file : String) : Option (List Char × List Char) :=
  match file.toList with
  | a :: b :: c :: d :: sep :: rest =>
    let name := rest.take (rest.length - 4)
    if [a, b, c, d].all Char.isDigit && sep = '_' && !name.isEmpty && name.all isNameChar &&
        rest.drop (rest.length - 4) = ".sql".toList then
      some ([a, b, c, d], name)
    else none
  | _ => none

/-- `strconv.Atoi` of digits. -/
def atoi (digits : List Char) : ℕ := digits.foldl (fun n c => 10 * n + (c.toNat - '0'.toNat)) 0

/-- A file, given its name and its content. -/
def loadFile (file : String × String) : Except MigrateError Migration :=
  match matchFileName file.1 with
  | none => .error (.badName file.1)
  | some (digits, name) => .ok ⟨atoi digits, String.ofList name, file.2⟩

/-- The last loop of `load`, from the position `i` on. -/
def checkContiguous : ℕ → List Migration → Except MigrateError Unit
  | _, [] => .ok ()
  | i, m :: ms =>
    if m.version ≠ i + 1 then .error (.notContiguous m.version m.name (i + 1))
    else checkContiguous (i + 1) ms

/-- `load`, given the embedded files in the order of their names. -/
def load (files : List (String × String)) : Except MigrateError (List Migration) := do
  let migrations ← files.mapM loadFile
  checkContiguous 0 migrations
  pure migrations

lemma map_version_of_checkContiguous {i : ℕ} {ms : List Migration}
    (h : checkContiguous i ms = .ok ()) :
    ms.map Migration.version = List.range' (i + 1) ms.length := by
  induction ms generalizing i with
  | nil => rfl
  | cons m ms ih =>
    rw [checkContiguous] at h
    split at h
    · cases h
    · rename_i hversion
      rw [List.map_cons, ih h, List.length_cons, List.range'_succ, not_not.mp hversion]

lemma map_version_of_load {files : List (String × String)} {ms : List Migration}
    (h : load files = .ok ms) : ms.map Migration.version = List.range' 1 ms.length := by
  unfold load at h
  cases hfiles : files.mapM loadFile with
  | error e =>
    rw [hfiles] at h
    cases h
  | ok migrations =>
    rw [hfiles] at h
    cases hcheck : checkContiguous 0 migrations with
    | error e =>
      simp only [bind, Except.bind, hcheck] at h
      cases h
    | ok u =>
      simp only [bind, Except.bind, hcheck, pure, Except.pure, Except.ok.injEq] at h
      exact h ▸ map_version_of_checkContiguous hcheck

/-! ### The server -/

/-- What is committed: whether the version table exists, its rows, and the migrations whose SQL has
taken effect, in this order. -/
structure Schema where
  table : Bool
  rows : List (ℕ × String)
  applied : List String
deriving DecidableEq, Repr

namespace Schema

def empty : Schema := ⟨false, [], []⟩

/-- `selectCurrentVersion`. -/
def maxVersion (s : Schema) : ℕ := (s.rows.map Prod.fst).foldl max 0

/-- `readVersion`, if the statement does not fail. -/
def readVersion (s : Schema) : Except MigrateError ℕ :=
  if s.table then .ok s.maxVersion else .error .schemaMissing

end Schema

/-- The advisory lock of a transaction. -/
inductive LockMode where
  | shared
  | exclusive
deriving DecidableEq, Repr

/-- Two transactions can have these locks at the same time. -/
def LockMode.compatible : LockMode → LockMode → Bool
  | .shared, .shared => true
  | _, _ => false

/-- An open transaction: its lock and what it has written. -/
structure Tx where
  lock : Option LockMode
  created : Bool
  rows : List (ℕ × String)
  sqls : List String
  /-- `COMMIT` was sent, and there was no answer. -/
  committing : Bool
deriving DecidableEq, Repr

/-- A transaction that has just begun. -/
def Tx.begun : Tx := ⟨none, false, [], [], false⟩

/-- The schema with what a transaction has written. -/
def Schema.with (s : Schema) (tx : Tx) : Schema :=
  ⟨s.table || tx.created, s.rows ++ tx.rows, s.applied ++ tx.sqls⟩

/-- A commit that has taken effect: whose it was, whether it was answered, and what it has done. -/
structure Commit where
  call : ℕ
  answered : Bool
  before : Schema
  after : Schema

/-- The database, the open transactions of the calls, and the history of all calls. -/
structure Server where
  schema : Schema
  txs : Hash ℕ Tx
  /-- The calls that have begun. -/
  entered : List ℕ
  commits : List Commit
  /-- What calls have returned. -/
  outcomes : List (ℕ × Except MigrateError Unit)

/-- What becomes of a statement. -/
inductive Fate where
  | done
  | failed
  /-- The statement is carried out, and the answer is lost. -/
  | unanswered
deriving DecidableEq, Repr

namespace Server

def initial : Server := ⟨.empty, .empty, [], [], []⟩

/-- Change the transaction of a call. -/
def setTx (s : Server) (t : ℕ) (tx : Tx) : Server := { s with txs := Hash.hset s.txs t tx }

/-- End the transaction of a call without an effect. -/
def drop (s : Server) (t : ℕ) : Server := { s with txs := Hash.hdel s.txs t }

/-- No other transaction has a lock that is in the way. -/
def available (s : Server) (t : ℕ) (mode : LockMode) : Bool :=
  s.txs.rows.all fun r => decide (r.1 = t) || r.2.lock.all mode.compatible

/-- A statement inside the transaction of a call; `f` is `none` if the statement is in error.  After
an error nothing is left of the transaction. -/
def inTx (s : Server) (t : ℕ) (fate : Fate) (f : Tx → Option Tx) : Bool × Server :=
  match Hash.hget s.txs t with
  | none => (false, s)
  | some tx =>
    if fate = .failed then (false, s.drop t)
    else
      match f tx with
      | none => (false, s.drop t)
      | some tx' => (decide (fate = .done), s.setTx t tx')

/-- The transaction of a call is committed. -/
def commitTx (s : Server) (t : ℕ) (tx : Tx) (answered : Bool) : Server :=
  { s with
    schema := s.schema.with tx
    txs := Hash.hdel s.txs t
    commits := s.commits ++ [⟨t, answered, s.schema, s.schema.with tx⟩] }

end Server

/-- The statements of the calls, and the beginning and the end of a call. -/
inductive Statement where
  | enter
  /-- `readVersion` on the database. -/
  | readVersion
  | begin
  /-- `pg_advisory_xact_lock` and `pg_advisory_xact_lock_shared`. -/
  | lock (mode : LockMode)
  | createVersionTable
  /-- `readVersion` in the transaction. -/
  | readVersionTx
  | exec (sql : String)
  | insertVersion (version : ℕ) (name : String)
  | commit
  | rollback
  | ret (result : Except MigrateError Unit)

@[reducible] def Statement.Reply : Statement → Type
  | .readVersion | .readVersionTx => Except MigrateError ℕ
  | .enter | .rollback | .ret _ => Unit
  | _ => Bool

/-- `insertVersion`; the version is the primary key of the table. -/
def Tx.insertVersion (schema : Schema) (version : ℕ) (name : String) (tx : Tx) : Option Tx :=
  if (schema.with tx).table && !((schema.with tx).rows.map Prod.fst).contains version then
    some { tx with rows := tx.rows ++ [(version, name)] }
  else none

def Server.exec (t : ℕ) : (i : Statement) → Fate → Server → Option (i.Reply × Server)
  | .enter, _, s => some ((), { s with entered := t :: s.entered })
  | .readVersion, fate, s =>
    some (if fate = .done then s.schema.readVersion else .error .readVersion, s)
  | .begin, fate, s =>
    some (decide (fate = .done), if fate = .failed then s else s.setTx t .begun)
  | .lock mode, fate, s =>
    -- The statement waits until the lock is available.
    if (Hash.hget s.txs t).isSome && decide (fate ≠ .failed) && !s.available t mode then none
    else some (s.inTx t fate fun tx => some { tx with lock := some mode })
  | .createVersionTable, fate, s =>
    some (s.inTx t fate fun tx => some { tx with created := true })
  | .readVersionTx, fate, s =>
    match Hash.hget s.txs t with
    | none => some (.error .readVersion, s)
    | some tx =>
      match fate, (s.schema.with tx).readVersion with
      | .done, .ok current => some (.ok current, s)
      | .done, .error e => some (.error e, s.drop t)
      | .failed, _ => some (.error .readVersion, s.drop t)
      | .unanswered, _ => some (.error .readVersion, s)
  | .exec sql, fate, s => some (s.inTx t fate fun tx => some { tx with sqls := tx.sqls ++ [sql] })
  | .insertVersion version name, fate, s =>
    some (s.inTx t fate fun tx => tx.insertVersion s.schema version name)
  | .commit, fate, s =>
    match Hash.hget s.txs t with
    | none => some (false, s)
    | some tx =>
      match fate with
      | .done => some (true, s.commitTx t tx true)
      | .failed => some (false, s.drop t)
      | .unanswered => some (false, s.setTx t { tx with committing := true })
  | .rollback, fate, s =>
    -- After `Commit`, `Rollback` is not sent.
    some ((), if fate = .done ∧ (Hash.hget s.txs t).any Tx.committing = false then s.drop t else s)
  | .ret result, _, s => some ((), { s with outcomes := s.outcomes ++ [(t, result)] })

/-! ### Run and Check -/

abbrev Code (α : Type) := Prog Statement Statement.Reply α

def perform (i : Statement) : Code i.Reply := Prog.perform i

/-- The loop of `Run` over the migrations. -/
def applyPending (current : ℕ) : List Migration → Code (Except MigrateError Unit)
  | [] => pure (.ok ())
  | m :: ms =>
    if m.version ≤ current then applyPending current ms
    else do
      let applied : Bool ← perform (.exec m.sql)
      if !applied then pure (.error (.applyFailed m.version m.name))
      else
        let recorded : Bool ← perform (.insertVersion m.version m.name)
        if !recorded then pure (.error (.recordFailed m.version m.name))
        else applyPending current ms

/-- `Run` between the beginning of the transaction and its end. -/
def runInTx (migrations : List Migration) : Code (Except MigrateError Unit) := do
  let locked : Bool ← perform (.lock .exclusive)
  if !locked then pure (.error .lockFailed)
  else
    let created : Bool ← perform .createVersionTable
    if !created then pure (.error .createFailed)
    else
      let read : Except MigrateError ℕ ← perform .readVersionTx
      match read with
      | .error e => pure (.error e)
      | .ok current =>
        let applied ← applyPending current migrations
        match applied with
        | .error e => pure (.error e)
        | .ok _ =>
          let committed : Bool ← perform .commit
          pure (if committed then .ok () else .error .commitFailed)

/-- `Check` between the beginning of the transaction and its end. -/
def checkInTx (expected : ℕ) : Code (Except MigrateError Unit) := do
  let locked : Bool ← perform (.lock .shared)
  if !locked then pure (.error .lockFailed)
  else
    let read : Except MigrateError ℕ ← perform .readVersionTx
    match read with
    | .error e => pure (.error e)
    | .ok current =>
      pure (if current < expected then .error (.schemaBehind current expected) else .ok ())

/-- Code in a transaction, with the deferred `Rollback`. -/
def withTx (body : Code (Except MigrateError Unit)) : Code (Except MigrateError Unit) := do
  let begun : Bool ← perform .begin
  if !begun then pure (.error .beginFailed)
  else
    let result ← body
    perform .rollback
    pure result

/-- What `Run` and `Check` have in common: nothing has to be done if the schema is current. -/
def unlessCurrent (files : List (String × String))
    (body : List Migration → Code (Except MigrateError Unit)) : Code (Except MigrateError Unit) :=
  match load files with
  | .error e => pure (.error e)
  | .ok migrations => do
    let read : Except MigrateError ℕ ← perform .readVersion
    match read with
    | .ok current =>
      if migrations.length ≤ current then pure (.ok ()) else withTx (body migrations)
    | .error .schemaMissing => withTx (body migrations)
    | .error e => pure (.error e)

/-- `Run`. -/
def run (files : List (String × String)) : Code (Except MigrateError Unit) :=
  unlessCurrent files runInTx

/-- `Check`. -/
def check (files : List (String × String)) : Code (Except MigrateError Unit) :=
  unlessCurrent files fun migrations => checkInTx migrations.length

/-- A call: what is called, and the files embedded in the binary. -/
structure Call where
  isCheck : Bool
  files : List (String × String)

def Call.body (call : Call) : Code (Except MigrateError Unit) :=
  if call.isCheck then check call.files else run call.files

def Call.code (call : Call) : Code Unit := do
  perform .enter
  let result ← call.body
  perform (.ret result)

inductive MigrateEnv where
  /-- A call dies. -/
  | crash (t : ℕ)
  /-- The server ends a transaction. -/
  | endTx (t : ℕ)
  /-- The server commits a transaction, and nobody waits for the answer. -/
  | lateCommit (t : ℕ)

/-- All calls.  Each of them is made once. -/
def migrateSystem (calls : ℕ → Call) :
    ThreadSystem Statement Statement.Reply ℕ Server Fate Unit MigrateEnv where
  exec := Server.exec
  program t _ := (calls t).code
  starts t _ s := !s.entered.contains t
  env
    | .crash _, s => some s
    | .endTx t, s => some (s.drop t)
    | .lateCommit t, s =>
      match Hash.hget s.txs t with
      | none => none
      | some tx => if tx.committing then some (s.commitTx t tx false) else none
  kills
    | .crash u, t => decide (u = t)
    | _, _ => false

end LlmdAsync.Migrate
