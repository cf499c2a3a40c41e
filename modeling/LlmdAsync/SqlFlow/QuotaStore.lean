import LlmdAsync.Foundation.Paths

/-!
# The quota store of the sql transport

`QuotaStore` and `admitBatcher` of `pkg/sqlflow/quota.go`, as far as concurrency slots go: callers
that wait for the next statement of their key, the goroutine that runs it and answers them, the
holders that statements are run for, queued releases, the heartbeat and `Close`.  A section under a
mutex is one action, and so is a statement.  A holder is named by its row, a waiter by a number.

Loops run for a given number of rounds, as if they were never scheduled again.  `settle` and
`release` say in addition for what they are called, and `AcquireQuotaSlots` for which waiters; no
action looks at that.  Rate limits (`Admit`), logging and the count of statements are left out.
-/

namespace LlmdAsync.SqlFlow.QuotaStore

/-- `slotKey`. -/
structure SlotKey where
  key : String
  limit : ℤ
deriving DecidableEq, Repr

/-- `admitReply`. -/
structure AdmitReply where
  ok : Bool
  holder : Option String
  err : Option String
deriving DecidableEq, Repr

/-- What goroutines are spawned for. -/
inductive Job where
  | flush (k : SlotKey)
  | flushReleases
  | heartbeat
deriving DecidableEq, Repr

/-- The errors of `AcquireQuotaSlots`. -/
inductive AcquireError where
  /-- `ErrQuotaHolderLapsed`. -/
  | lapsed
  | failed (e : String)
deriving DecidableEq, Repr

/-- What `settle` is called for. -/
inductive Settled where
  /-- An acquire that returned an error. -/
  | failed
  /-- An acquire that was granted slots of a key, for these waiters. -/
  | granted (key : String) (ws : List ℕ)
  /-- Releases that have been sent. -/
  | sent (counts : List (String × ℕ))
deriving DecidableEq, Repr

def total (counts : List (String × ℕ)) : ℕ := (counts.map Prod.snd).sum

/-- On whose behalf a slot is released: of a caller that has it, or of one that gave up. -/
inductive Releaser where
  | caller
  | flush
deriving DecidableEq, Repr

inductive Action where
  /-- `used.Store(true)`. -/
  | markUsed
  /-- The first section of `admit`: a new waiter at the end of the queue of its key. -/
  | enqueue (k : SlotKey)
  /-- The `select` of `admit`. -/
  | select (key : String) (w : ℕ)
  /-- `CompareAndSwap(waiterPending, waiterAbandoned)`. -/
  | abandon (key : String) (w : ℕ)
  /-- Receive the reply. -/
  | receive (key : String) (w : ℕ)
  /-- The section of `flush`. -/
  | takeBatch (k : SlotKey)
  /-- `CompareAndSwap(waiterPending, waiterAnswered)`, before this reply is sent. -/
  | answer (key : String) (w : ℕ) (r : AdmitReply)
  /-- Send the reply. -/
  | send (key : String) (w : ℕ) (r : AdmitReply)
  | countCurrent
  /-- `registerMu`. -/
  | lockRegister
  | unlockRegister
  | newOwner
  /-- `time.Now`. -/
  | now
  /-- The section of `begin`. -/
  | insertHolder (name : String) (renewed : ℤ)
  | retire (h : String)
  /-- The section of `settle`: whether the holder is to be deleted. -/
  | settle (h : String) (n : ℤ) (why : Settled)
  | registerQuotaHolder (name : String)
  | acquireQuotaSlots (h key : String) (batch : List ℕ) (limit : ℤ)
  | releaseQuotaSlots (h : String) (counts : List (String × ℕ))
  | renewQuotaHolder (h : String)
  | deleteQuotaHolder (h : String)
  | reapQuotaHolders
  | reapQuota
  /-- The section of `delete`. -/
  | markGone (h : String)
  /-- The `select` of `heartbeat`: whether the ticker was first. -/
  | tick
  /-- `used.Load()`. -/
  | isUsed
  | listHolders
  | isDeleting (h : String)
  /-- The section of `renew`, after a statement with this answer. -/
  | renewed (h : String) (started : ℤ) (live : Except String Bool)
  /-- The section of `release`: whether the releases are to be flushed. -/
  | queueRelease (h key : String) (w : ℕ) (by_ : Releaser)
  /-- The section of `flushReleases`. -/
  | takePending
  | spawn (job : Job)
  /-- A goroutine starts. -/
  | begin
  /-- `wg.Done`. -/
  | exit
  /-- The first section of `Close`. -/
  | close
  | cancel
  /-- `wg.Wait`. -/
  | wait
  /-- The second section of `Close`. -/
  | idleHolders
  /-- A loop stops for good. -/
  | stall

@[reducible] def Action.Reply : Action → Type
  -- No waiter, because the store is closed.
  | .enqueue _ => Option ℕ
  -- No reply, because the context has ended.
  | .select .. => Option AdmitReply
  | .abandon .. => Bool
  | .receive .. => AdmitReply
  | .takeBatch _ => List ℕ
  | .answer .. => Bool
  | .countCurrent => Option String
  | .newOwner => Except String String
  | .now => ℤ
  | .settle .. => Bool
  | .registerQuotaHolder _ => Except String Unit
  -- The database grants at most as many slots as it is asked for.
  | .acquireQuotaSlots _ _ batch _ => Except AcquireError (Fin (batch.length + 1))
  | .releaseQuotaSlots .. => Except String Unit
  | .renewQuotaHolder _ => Except String Bool
  | .deleteQuotaHolder _ => Except String Unit
  | .reapQuotaHolders => Except String Unit
  | .reapQuota => Except String Unit
  | .tick => Bool
  | .isUsed => Bool
  | .listHolders => List String
  | .isDeleting _ => Bool
  | .queueRelease .. => Bool
  | .takePending => List (String × List (String × ℕ))
  | .spawn _ => Bool
  | .begin => Job
  | .idleHolders => List String
  | _ => Unit

abbrev Code (α : Type) := Prog Action Action.Reply α

def call (a : Action) : Code a.Reply := Prog.perform a

/-! ### Holders -/

/-- `delete`. -/
def delete (h : String) : Code Unit := do
  let r : Except String Unit ← call (.deleteQuotaHolder h)
  match r with
  | .error _ => pure ()
  | .ok _ => call (.markGone h)

/-- `settle`. -/
def settle (h : String) (n : ℤ) (why : Settled) : Code Unit := do
  let drop : Bool ← call (.settle h n why)
  if drop then delete h else pure ()

/-- `begin`. -/
def begin : Code (Except String String) := do
  let counted : Option String ← call .countCurrent
  match counted with
  | some h => pure (.ok h)
  | none => do
    call .lockRegister
    let counted : Option String ← call .countCurrent
    match counted with
    | some h => do
      call .unlockRegister
      pure (.ok h)
    | none => do
      let owner : Except String String ← call .newOwner
      match owner with
      | .error e => do
        call .unlockRegister
        pure (.error e)
      | .ok name => do
        let started : ℤ ← call .now
        let registered : Except String Unit ← call (.registerQuotaHolder name)
        match registered with
        | .error e => do
          call .unlockRegister
          pure (.error ("register quota holder: " ++ e))
        | .ok _ => do
          call (.insertHolder name started)
          call .unlockRegister
          pure (.ok name)

/-- One turn of the loop of `acquireSlots`; the error is `none` if the lease of the holder has
lapsed. -/
def acquireOnce (k : SlotKey) (batch : List ℕ) :
    Code (Except (Option String) (Fin (batch.length + 1) × String)) := do
  match ← begin with
  | .error e => pure (.error (some e))
  | .ok h => do
    let r : Except AcquireError (Fin (batch.length + 1)) ←
      call (.acquireQuotaSlots h k.key batch k.limit)
    match r with
    | .ok granted => do
      settle h (1 - granted.val) (.granted k.key (batch.take granted.val))
      pure (.ok (granted, h))
    | .error .lapsed => do
      call (.retire h)
      settle h 1 .failed
      pure (.error none)
    | .error (.failed e) => do
      call (.retire h)
      settle h 1 .failed
      pure (.error (some ("acquire quota slots for " ++ k.key ++ ": " ++ e)))

/-- `acquireSlots`. -/
def acquireSlots (k : SlotKey) (batch : List ℕ) :
    Code (Except String (Fin (batch.length + 1) × String)) := do
  match ← acquireOnce k batch with
  | .ok r => pure (.ok r)
  | .error (some e) => pure (.error e)
  | .error none => do
    match ← acquireOnce k batch with
    | .ok r => pure (.ok r)
    | .error (some e) => pure (.error e)
    | .error none =>
      pure (.error ("acquire quota slots for " ++ k.key ++
        ": sqlqueue: quota holder lease lapsed"))

/-! ### Releases -/

/-- The statements of one round of `flushReleases`. -/
def sendReleases : List (String × List (String × ℕ)) → Code Unit
  | [] => pure ()
  | (h, counts) :: rest => do
    let r : Except String Unit ← call (.releaseQuotaSlots h counts)
    match r with
    | .ok _ => settle h (total counts) (.sent counts)
    | .error _ => do
      call (.retire h)
      settle h (total counts) (.sent counts)
    sendReleases rest

/-- `flushReleases`. -/
def flushReleases : ℕ → Code Unit
  | 0 => call .stall
  | rounds + 1 => do
    let batch : List (String × List (String × ℕ)) ← call .takePending
    if batch = [] then pure ()
    else do
      sendReleases batch
      flushReleases rounds

/-- `release`. -/
def release (rounds : ℕ) (h key : String) (w : ℕ) (by_ : Releaser) : Code Unit := do
  let start : Bool ← call (.queueRelease h key w by_)
  if start then do
    let spawned : Bool ← call (.spawn .flushReleases)
    if spawned then pure () else flushReleases rounds
  else pure ()

/-! ### The batcher -/

/-- The reply to the waiter with this number in its batch. -/
def replyTo {n : ℕ} (res : Except String (Fin n × String)) (i : ℕ) : AdmitReply :=
  match res with
  | .error e => ⟨false, none, some e⟩
  | .ok (granted, h) => ⟨decide (i < granted.val), some h, none⟩

/-- The function that `AcquireSlot` passes as `abandoned`. -/
def abandoned (rounds : ℕ) (key : String) (w : ℕ) (r : AdmitReply) : Code Unit :=
  match r.ok, r.holder with
  | true, some h => release rounds h key w .flush
  | _, _ => pure ()

/-- The loop of `flush` over its batch, from number `i` on. -/
def handOff (rounds : ℕ) (key : String) {n : ℕ} (res : Except String (Fin n × String)) :
    List ℕ → ℕ → Code Unit
  | [], _ => pure ()
  | w :: ws, i => do
    let answered : Bool ← call (.answer key w (replyTo res i))
    if answered then call (.send key w (replyTo res i))
    else abandoned rounds key w (replyTo res i)
    handOff rounds key res ws (i + 1)

/-- `flush`. -/
def flush (k : SlotKey) : ℕ → Code Unit
  | 0 => call .stall
  | rounds + 1 => do
    let batch : List ℕ ← call (.takeBatch k)
    if batch = [] then pure ()
    else do
      let res ← acquireSlots k batch
      handOff rounds k.key res batch 0
      flush k rounds

/-- `errQuotaStoreClosed`. -/
def errQuotaStoreClosed : String := "quota store closed"

/-- `admit`: the waiter and its reply, or an error. -/
def admitSlot (k : SlotKey) : Code (Except String (ℕ × AdmitReply)) := do
  let waiter : Option ℕ ← call (.enqueue k)
  match waiter with
  | none => pure (.error errQuotaStoreClosed)
  | some w => do
    let first : Option AdmitReply ← call (.select k.key w)
    match first with
    | some r => pure (.ok (w, r))
    | none => do
      let gaveUp : Bool ← call (.abandon k.key w)
      if gaveUp then pure (.error "await quota admission")
      else do
        let r : AdmitReply ← call (.receive k.key w)
        pure (.ok (w, r))

/-- `AcquireSlot`, and then the function it has returned, if it has returned one. -/
def acquireSlot (rounds : ℕ) (k : SlotKey) : Code Unit := do
  call .markUsed
  match ← admitSlot k with
  | .error _ => pure ()
  | .ok (w, r) =>
    match r.ok, r.holder with
    | true, some h => release rounds h k.key w .caller
    | _, _ => pure ()

/-! ### The heartbeat and `Close` -/

/-- `renew`. -/
def renew (h : String) : Code Unit := do
  let started : ℤ ← call .now
  let live : Except String Bool ← call (.renewQuotaHolder h)
  call (.renewed h started live)

/-- The loop of `heartbeat` over the holders. -/
def beat : List String → Code Unit
  | [] => pure ()
  | h :: hs => do
    let deleting : Bool ← call (.isDeleting h)
    if deleting then delete h else renew h
    beat hs

/-- `heartbeat`. -/
def heartbeat : ℕ → Code Unit
  | 0 => call .stall
  | rounds + 1 => do
    let ticked : Bool ← call .tick
    if ticked then do
      let used : Bool ← call .isUsed
      if used then do
        let hs : List String ← call .listHolders
        beat hs
        let _ : Except String Unit ← call .reapQuotaHolders
        let _ : Except String Unit ← call .reapQuota
        heartbeat rounds
      else heartbeat rounds
    else pure ()

def Job.run (rounds : ℕ) : Job → Code Unit
  | .flush k => QuotaStore.flush k rounds
  | .flushReleases => QuotaStore.flushReleases rounds
  | .heartbeat => QuotaStore.heartbeat rounds

/-- A goroutine of `spawn`. -/
def routine (rounds : ℕ) : Code Unit := do
  let job : Job ← call .begin
  job.run rounds
  call .exit

/-- Delete holders one after the other. -/
def deleteAll : List String → Code Unit
  | [] => pure ()
  | h :: hs => do
    delete h
    deleteAll hs

/-- `Close`. -/
def close : Code Unit := do
  call .close
  call .cancel
  call .wait
  let idle : List String ← call .idleHolders
  deleteAll idle

end LlmdAsync.SqlFlow.QuotaStore
