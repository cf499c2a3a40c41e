import LlmdAsync.Foundation.Hash
import LlmdAsync.Foundation.Sums

/-!
# Quotas in the database

The quota tables of `migrations/0001_initial_schema.sql`, the functions `async_quota_acquire`,
`async_quota_admit` and `async_quota_reap`, and the statements of `sqlqueue/quota.go` around them.
Each is a function on the tables, given the time of the database in milliseconds.

Counts that a statement is asked for are natural numbers.  A `LIMIT` without an order returns any
rows, so a run of `async_quota_reap` comes with a `ReapPicks` that says which rows its scans find.
-/

namespace LlmdAsync.SqlQueue

/-- `Duration.Milliseconds`, which turns the durations of `quota.go`, in nanoseconds, into the
milliseconds of the statements. -/
def milliseconds (d : ℤ) : ℤ := d.tdiv 1000000

/-- A row of `async_quota_admits`: requests admitted at one time. -/
structure Admit where
  key : String
  windowMs : ℤ
  atMs : ℤ
  n : ℤ
deriving DecidableEq, Repr

/-- The row belongs to a window of a key. -/
def Admit.isOf (key : String) (window : ℤ) (a : Admit) : Bool :=
  decide (a.key = key) && decide (a.windowMs = window)

/-- The row has left its window. -/
def Admit.expired (now : ℤ) (a : Admit) : Bool := decide (a.atMs ≤ now - a.windowMs)

structure QuotaDb where
  /-- `async_quota_keys`: rows to lock. -/
  keys : Hash String Unit
  /-- `async_quota_holders`: when each lease expires. -/
  holders : Hash String ℤ
  /-- `async_quota_slots`: slots in use by key and holder. -/
  slots : Hash (String × String) ℤ
  /-- `async_quota_windows`: requests admitted by key and length of the window. -/
  windows : Hash (String × ℤ) ℤ
  /-- `async_quota_admits`. -/
  admits : List Admit

namespace QuotaDb

def initial : QuotaDb := ⟨.empty, .empty, .empty, .empty, []⟩

/-! ### Concurrency slots -/

/-- The lease of the holder has not expired. -/
def live (db : QuotaDb) (now : ℤ) (holder : String) : Bool :=
  (Hash.hget db.holders holder).any fun expires => decide (now < expires)

/-- The slots of a key in use by holders with live leases. -/
def liveUsed (db : QuotaDb) (now : ℤ) (key : String) : ℤ :=
  ((db.slots.rows.filter fun r => decide (r.1.1 = key) && db.live now r.1.2).map Prod.snd).sum

/-- `RegisterQuotaHolder`; it fails if there is a holder of this name. -/
def registerQuotaHolder (db : QuotaDb) (now : ℤ) (holder : String) (ttl : ℤ) : Bool × QuotaDb :=
  if (Hash.hget db.holders holder).isSome then (false, db)
  else (true, { db with holders := Hash.hset db.holders holder (now + ttl) })

/-- `RenewQuotaHolder`. -/
def renewQuotaHolder (db : QuotaDb) (now : ℤ) (holder : String) (ttl : ℤ) : Bool × QuotaDb :=
  if db.live now holder then
    (true, { db with holders := Hash.hset db.holders holder (now + ttl) })
  else (false, db)

/-- The loop at the start of `async_quota_acquire`. -/
def lockKey (db : QuotaDb) (key : String) : QuotaDb := { db with keys := Hash.hset db.keys key () }

/-- The slots that `async_quota_acquire` and `async_quota_admit` grant. -/
def grant (n : ℕ) (limit used : ℤ) : ℤ := min n (max (limit - used) 0)

/-- The insert into `async_quota_slots`, which adds to a row that is there. -/
def addSlots (db : QuotaDb) (key holder : String) (n : ℤ) : QuotaDb :=
  let used := (Hash.hget db.slots (key, holder)).getD 0
  { db with slots := Hash.hset db.slots (key, holder) (used + n) }

/-- `async_quota_acquire`; `none` stands for `-1`. -/
def quotaAcquire (db : QuotaDb) (now : ℤ) (key holder : String) (n : ℕ) (limit : ℤ) :
    Option ℤ × QuotaDb :=
  let db := db.lockKey key
  if db.live now holder then
    let granted := grant n limit (db.liveUsed now key)
    (some granted, if 0 < granted then db.addSlots key holder granted else db)
  else (none, db)

/-- One row of `ReleaseQuotaSlots`. -/
def releaseRow (holder : String) (counts : List (String × ℕ)) (r : (String × String) × ℤ) :
    (String × String) × ℤ :=
  if r.1.2 = holder then (r.1, ((counts.lookup r.1.1).map fun n : ℕ => max (r.2 - n) 0).getD r.2)
  else r

lemma releaseRow_fst (holder : String) (counts : List (String × ℕ)) (r : (String × String) × ℤ) :
    (releaseRow holder counts r).1 = r.1 := by
  unfold releaseRow
  split <;> rfl

/-- `ReleaseQuotaSlots`; each key is named once. -/
def releaseQuotaSlots (db : QuotaDb) (holder : String) (counts : List (String × ℕ)) : QuotaDb :=
  { db with slots := db.slots.map (releaseRow holder counts) (releaseRow_fst holder counts) }

/-- The holders for which the test holds, and their slots, are deleted. -/
def deleteHolders (db : QuotaDb) (gone : String → ℤ → Bool) : QuotaDb :=
  { db with
    holders := db.holders.filter fun r => !gone r.1 r.2
    slots := db.slots.filter fun r => !(Hash.hget db.holders r.1.2).any (gone r.1.2) }

/-- `DeleteQuotaHolder`. -/
def deleteQuotaHolder (db : QuotaDb) (holder : String) : QuotaDb :=
  db.deleteHolders fun h _ => decide (h = holder)

/-- `ReapQuotaHolders`. -/
def reapQuotaHolders (db : QuotaDb) (now grace : ℤ) : QuotaDb :=
  db.deleteHolders fun _ expires => decide (expires < now - grace)

/-! ### Rate windows -/

/-- The loop at the start of `async_quota_admit`. -/
def lockWindow (db : QuotaDb) (w : String × ℤ) : QuotaDb :=
  if (Hash.hget db.windows w).isSome then db else { db with windows := Hash.hset db.windows w 0 }

/-- Rows of a window that have left it. -/
def gone (db : QuotaDb) (now : ℤ) (w : String × ℤ) : List Admit :=
  db.admits.filter fun a => a.isOf w.1 w.2 && a.expired now

/-- All other rows. -/
def dropGone (db : QuotaDb) (now : ℤ) (w : String × ℤ) : List Admit :=
  db.admits.filter fun a => !(a.isOf w.1 w.2 && a.expired now)

/-- `async_quota_admit`. -/
def quotaAdmit (db : QuotaDb) (now : ℤ) (key : String) (n : ℕ) (limit window : ℤ) :
    ℤ × QuotaDb :=
  let db := db.lockWindow (key, window)
  let expired := ((db.gone now (key, window)).map Admit.n).sum
  let used := (Hash.hget db.windows (key, window)).getD 0 - expired
  let granted := grant n limit used
  (granted, { db with
    admits := db.dropGone now (key, window) ++
      if 0 < granted then [⟨key, window, now, granted⟩] else []
    windows := if 0 < granted ∨ 0 < expired then
      Hash.hset db.windows (key, window) (used + granted) else db.windows })

/-- One turn of the loop of `async_quota_reap`. -/
def reapWindow (now : ℤ) (db : QuotaDb) (w : String × ℤ) : QuotaDb :=
  { db with
    admits := db.dropGone now w
    windows := match Hash.hget db.windows w with
      | some used => Hash.hset db.windows w (used - ((db.gone now w).map Admit.n).sum)
      | none => db.windows }

/-- Which rows the scans of `async_quota_reap` find. -/
structure ReapPicks where
  expired : String × ℤ → Bool
  idle : String × ℤ → Bool
  unused : String × String → Bool
  unnamed : String → Bool

/-- The first `limit` fields of a table that a scan finds. -/
def picked {κ ν : Type} (t : Hash κ ν) (p : κ × ν → Bool) (limit : ℕ) : List κ :=
  ((t.rows.filter p).take limit).map Prod.fst

/-- The loop of `async_quota_reap`: expired rows leave their windows. -/
def reapExpired (db : QuotaDb) (now : ℤ) (pick : String × ℤ → Bool) (limit : ℕ) : ℕ × QuotaDb :=
  let ws := picked db.windows (fun r => pick r.1 && !(db.gone now r.1).isEmpty) limit
  (ws.length, ws.foldl (reapWindow now) db)

/-- Windows that hold nothing are deleted. -/
def reapIdle (db : QuotaDb) (pick : String × ℤ → Bool) (limit : ℕ) : ℕ × QuotaDb :=
  let ws := picked db.windows
    (fun r => pick r.1 && decide (r.2 = 0) && !db.admits.any (·.isOf r.1.1 r.1.2)) limit
  (ws.length, { db with windows := ws.foldl Hash.hdel db.windows })

/-- Slots that hold nothing are deleted. -/
def reapUnused (db : QuotaDb) (pick : String × String → Bool) (limit : ℕ) : ℕ × QuotaDb :=
  let ss := picked db.slots (fun r => pick r.1 && decide (r.2 = 0)) limit
  (ss.length, { db with slots := ss.foldl Hash.hdel db.slots })

/-- Keys that no slot names are deleted. -/
def reapUnnamed (db : QuotaDb) (pick : String → Bool) (limit : ℕ) : ℕ × QuotaDb :=
  let ks := picked db.keys
    (fun r => pick r.1 && !db.slots.rows.any fun s => decide (s.1.1 = r.1)) limit
  (ks.length, { db with keys := ks.foldl Hash.hdel db.keys })

/-- `async_quota_reap`. -/
def quotaReap (db : QuotaDb) (now : ℤ) (picks : ReapPicks) (limit : ℕ) : ℕ × QuotaDb :=
  let expired := db.reapExpired now picks.expired limit
  let idle := expired.2.reapIdle picks.idle limit
  let unused := idle.2.reapUnused picks.unused limit
  let unnamed := unused.2.reapUnnamed picks.unnamed limit
  (expired.1 + idle.1 + unused.1 + unnamed.1, unnamed.2)

end QuotaDb

/-! ### Runs -/

/-- The tables, the time of the database, and all that `async_quota_admit` has granted, oldest
first. -/
structure QuotaWorld where
  db : QuotaDb
  now : ℤ
  admitted : List Admit

/-- One statement, or time that passes. -/
inductive QuotaStep where
  | tick (ms : ℕ)
  | register (holder : String) (ttl : ℤ)
  | renew (holder : String) (ttl : ℤ)
  | acquire (holder key : String) (n : ℕ) (limit : ℤ)
  | release (holder : String) (counts : List (String × ℕ))
  | delete (holder : String)
  | reapHolders (grace : ℤ)
  | admitQuota (key : String) (n : ℕ) (limit window : ℤ)
  | reap (picks : QuotaDb.ReapPicks) (limit : ℕ)

namespace QuotaWorld

def initial : QuotaWorld := ⟨.initial, 0, []⟩

/-- What a grant of `async_quota_admit` adds to the history. -/
def granted (key : String) (window now n : ℤ) : List Admit :=
  if 0 < n then [⟨key, window, now, n⟩] else []

def next (w : QuotaWorld) : QuotaStep → QuotaWorld
  | .tick ms => { w with now := w.now + ms }
  | .register holder ttl => { w with db := (w.db.registerQuotaHolder w.now holder ttl).2 }
  | .renew holder ttl => { w with db := (w.db.renewQuotaHolder w.now holder ttl).2 }
  | .acquire holder key n limit => { w with db := (w.db.quotaAcquire w.now key holder n limit).2 }
  | .release holder counts => { w with db := w.db.releaseQuotaSlots holder counts }
  | .delete holder => { w with db := w.db.deleteQuotaHolder holder }
  | .reapHolders grace => { w with db := w.db.reapQuotaHolders w.now grace }
  | .admitQuota key n limit window =>
    let r := w.db.quotaAdmit w.now key n limit window
    { w with db := r.2, admitted := w.admitted ++ granted key window w.now r.1 }
  | .reap picks limit => { w with db := (w.db.quotaReap w.now picks limit).2 }

def run (w : QuotaWorld) (steps : List QuotaStep) : QuotaWorld := steps.foldl next w

end QuotaWorld

end LlmdAsync.SqlQueue
