import LlmdAsync.Foundation.Accounts
import LlmdAsync.SqlFlow.QuotaStore

/-!
# What the threads of the quota store answer for

The code of the store keeps one number per holder.  Beside it there is a ledger, which names what
the number counts: statements in flight, slots on their way from a statement to a caller, slots that
callers have, and releases on their way to the database.  `terms` says which entries an action needs
and which ones it leaves in their place, and `Fact` what a thread can know of the store for good.

Here it is proved that the code has what its actions need, whatever their answers are.
-/

namespace LlmdAsync.SqlFlow.QuotaStore

open List Multiset Action

/-! ### Entries and facts -/

/-- How far a slot has come since `settle` counted it. -/
inductive Phase where
  /-- Its waiter is to be answered. -/
  | ready
  /-- Its waiter has been answered, and the reply is to be sent. -/
  | giving
  /-- Its waiter has given up, and the slot is to be released. -/
  | giveBack
  /-- It has been sent to a caller. -/
  | held
deriving DecidableEq, Repr

/-- The entries of the ledger. -/
inductive Entry where
  /-- A goroutine that `wg` counts. -/
  | running
  /-- A new name that no holder has yet. -/
  | naming (name : String)
  /-- A caller waits for the reply to a waiter. -/
  | waiting (key : String) (w : ℕ)
  /-- A waiter is to be answered, and no statement has decided on it. -/
  | duty (key : String) (w : ℕ)
  /-- A waiter is to be answered, and a statement has not granted it a slot. -/
  | refused (key : String) (w : ℕ)
  /-- A waiter has been answered, and a reply without a slot is to be sent. -/
  | replying (key : String) (w : ℕ)
  /-- An acquire that `known` counts. -/
  | acquiring (h : String)
  /-- The same after it has been granted slots for these waiters. -/
  | won (h key : String) (ws : List ℕ)
  /-- A slot for a waiter. -/
  | slot (phase : Phase) (h key : String) (w : ℕ)
  /-- Releases that are to be sent. -/
  | sending (h : String) (counts : List (String × ℕ))
  /-- Releases that have been sent, and that `known` still counts. -/
  | sent (h : String) (counts : List (String × ℕ))
deriving DecidableEq, Repr

/-- What stays true of the store. -/
inductive Fact where
  /-- The waiters of a batch have been taken from the queue. -/
  | taken (k : SlotKey) (batch : List ℕ)
  /-- The store is closed. -/
  | closed
  /-- The store is closed and no goroutine is running. -/
  | quiet
  /-- Nothing names the holder, and nothing will. -/
  | doomed (h : String)

/-- The slot that a reply brings. -/
def AdmitReply.slot (r : AdmitReply) (phase : Phase) (key : String) (w : ℕ) : Multiset Entry :=
  match r.ok, r.holder with
  | true, some h => {.slot phase h key w}
  | _, _ => 0

/-- What a thread needs to answer a waiter with a reply. -/
def AdmitReply.claim (r : AdmitReply) (key : String) (w : ℕ) : Multiset Entry :=
  match r.ok, r.holder, r.err with
  | true, some h, _ => {.slot .ready h key w}
  | _, _, none => {.refused key w}
  | _, _, some _ => {.duty key w}

/-- What a thread needs to send a reply. -/
def AdmitReply.right (r : AdmitReply) (key : String) (w : ℕ) : Multiset Entry :=
  match r.ok, r.holder with
  | true, some h => {.slot .giving h key w}
  | _, _ => {.replying key w}

/-- One entry per waiter. -/
def each (entry : ℕ → Entry) (ws : List ℕ) : Multiset Entry := (ws.map entry : List Entry)

namespace Settled

/-- What `settle` subtracts. -/
def cost : Settled → ℤ
  | .failed => 1
  | .granted _ ws => 1 - ws.length
  | .sent counts => total counts

def entry (h : String) : Settled → Entry
  | .failed => .acquiring h
  | .granted key ws => .won h key ws
  | .sent counts => .sent h counts

/-- What `known` counts in its place. -/
def rest (h : String) : Settled → Multiset Entry
  | .granted key ws => each (.slot .ready h key) ws
  | _ => 0

end Settled

/-- The slot that is released. -/
def Releaser.phase : Releaser → Phase
  | .caller => .held
  | .flush => .giveBack

namespace Action

def needs : Action → Multiset Entry
  | .select key w => {.waiting key w}
  | .abandon key w => {.waiting key w}
  | .receive key w => {.waiting key w}
  | .answer key w r => r.claim key w
  | .send key w r => r.right key w
  | .countCurrent => {.running}
  | .insertHolder name _ => {.running, .naming name}
  | .settle h _ why => {why.entry h}
  | .registerQuotaHolder name => {.naming name}
  | .acquireQuotaSlots h key batch _ => .acquiring h ::ₘ each (.duty key) batch
  | .releaseQuotaSlots h counts => {.sending h counts}
  | .queueRelease h key w by_ => {.slot by_.phase h key w}
  | .exit => {.running}
  | _ => 0

/-- The entries it leaves in their place. -/
def yields : (a : Action) → a.Reply → Multiset Entry
  | .enqueue k, some w => {.waiting k.key w}
  | .select key w, none => {.waiting key w}
  | .select key w, some r => r.slot .held key w
  | .abandon key w, false => {.waiting key w}
  | .receive key w, r => r.slot .held key w
  | .takeBatch k, ws => each (.duty k.key) ws
  | .answer key w r, true => r.right key w
  | .answer key w r, false => r.slot .giveBack key w
  | .countCurrent, none => {.running}
  | .countCurrent, some h => {.running, .acquiring h}
  | .newOwner, .ok name => {.naming name}
  | .insertHolder name _, _ => {.running, .acquiring name}
  | .settle h _ why, _ => why.rest h
  | .registerQuotaHolder name, .ok _ => {.naming name}
  | .acquireQuotaSlots h key batch _, .ok granted =>
    .won h key (batch.take granted.val) ::ₘ each (.refused key) (batch.drop granted.val)
  | .acquireQuotaSlots h key batch _, .error _ => .acquiring h ::ₘ each (.duty key) batch
  | .releaseQuotaSlots h counts, _ => {.sent h counts}
  | .takePending, rows => (rows.map fun r => .sending r.1 r.2 : List Entry)
  | .begin, _ => {.running}
  | _, _ => 0

def relies : Action → List Fact
  | .acquireQuotaSlots _ key batch limit => [.taken ⟨key, limit⟩ batch]
  | .deleteQuotaHolder h => [.doomed h]
  | .wait => [.closed]
  | .idleHolders => [.quiet]
  | _ => []

def learns : (a : Action) → a.Reply → List Fact
  | .takeBatch k, ws => [.taken k ws]
  | .settle h _ _, true => [.doomed h]
  | .isDeleting h, true => [.doomed h]
  | .close, _ => [.closed]
  | .wait, _ => [.quiet]
  | .idleHolders, hs => hs.map .doomed
  | _, _ => []

/-- `settle` subtracts what it is called for. -/
def sound : Action → Prop
  | .settle _ n why => n = why.cost
  | _ => True

end Action

def terms : Terms Action Action.Reply Entry Fact :=
  ⟨Action.needs, Action.yields, Action.relies, Action.learns, Action.sound⟩

/-! ### Rules -/

section Rules

variable {α : Type} {K : List Fact} {M : Multiset Entry}

lemma turns_step {a : Action} {f : a.Reply → Code α} (F : Multiset Entry)
    {X : α → Multiset Entry} (ha : a.sound) (hM : M = a.needs + F) (hK : ∀ f ∈ a.relies, f ∈ K)
    (h : ∀ r, terms.Turns (a.learns r ++ K) (a.yields r + F) (f r) X) :
    terms.Turns K M (call a >>= f) X :=
  Terms.Turns.step ha hM hK h

lemma turns_plain {a : Action} {f : a.Reply → Code α} {X : α → Multiset Entry} (ha : a.sound)
    (hneeds : a.needs = 0) (hrelies : a.relies = []) (hyields : ∀ r, a.yields r = 0)
    (h : ∀ r, terms.Turns K M (f r) X) : terms.Turns K M (call a >>= f) X := by
  refine turns_step M ha (by rw [hneeds, zero_add]) (by simp [hrelies]) fun r => ?_
  rw [hyields, zero_add]
  exact (h r).knowing fun f hf => mem_append_right _ hf

lemma turns_call {a : Action} (F : Multiset Entry) {X : a.Reply → Multiset Entry} (ha : a.sound)
    (hM : M = a.needs + F) (hK : ∀ f ∈ a.relies, f ∈ K) (h : ∀ r, a.yields r + F = X r) :
    terms.Turns K M (call a) X :=
  Terms.Turns.perform ha hM hK h

end Rules

/-! ### The code has what it needs -/

variable {K : List Fact}

lemma turns_delete {h : String} (hK : .doomed h ∈ K) : terms.Turns K 0 (delete h) fun _ => 0 := by
  refine turns_step 0 trivial rfl (by simpa [relies] using hK) fun r => ?_
  cases r with
  | error e => exact .pure rfl
  | ok _ => exact turns_call 0 trivial rfl nofun fun _ => rfl

lemma turns_settle (h : String) {n : ℤ} (why : Settled) (hn : n = why.cost) :
    terms.Turns K {why.entry h} (settle h n why) fun _ => why.rest h := by
  refine turns_step 0 hn rfl nofun fun drop => ?_
  cases drop with
  | false => exact .pure (add_zero _)
  | true =>
    refine (turns_delete (h := h) ?_).frame (zero_add _).symm fun _ => ?_
    · exact mem_append_left _ mem_cons_self
    · rw [zero_add]
      exact add_zero _

/-- A holder that is counted against. -/
def begun : Except String String → Multiset Entry
  | .ok h => {.running, .acquiring h}
  | .error _ => {.running}

lemma turns_begin : terms.Turns K {.running} begin begun := by
  refine turns_step 0 trivial rfl nofun fun counted => ?_
  cases counted with
  | some h => exact .pure (add_zero _)
  | none =>
  refine turns_plain trivial rfl rfl (fun _ => rfl) fun _ => ?_
  refine turns_step 0 trivial rfl nofun fun counted => ?_
  cases counted with
  | some h =>
    exact turns_plain trivial rfl rfl (fun _ => rfl) fun _ => .pure (add_zero _)
  | none =>
  refine turns_step {.running} trivial rfl nofun fun owner => ?_
  cases owner with
  | error e =>
    exact turns_plain trivial rfl rfl (fun _ => rfl) fun _ => .pure rfl
  | ok name =>
  refine turns_plain trivial rfl rfl (fun _ => rfl) fun started => ?_
  refine turns_step {.running} trivial rfl nofun fun registered => ?_
  cases registered with
  | error e =>
    exact turns_plain trivial rfl rfl (fun _ => rfl) fun _ => .pure rfl
  | ok _ =>
  refine turns_step 0 trivial ?_ nofun fun _ => ?_
  · exact (add_comm _ _).trans (add_zero _).symm
  · exact turns_plain trivial rfl rfl (fun _ => rfl) fun _ => .pure (add_zero _)

/-- What an acquire for a batch ends with. -/
def acquired {ε : Type} (key : String) (batch : List ℕ) :
    Except ε (Fin (batch.length + 1) × String) → Multiset Entry
  | .ok (granted, h) => each (.slot .ready h key) (batch.take granted.val) +
      each (.refused key) (batch.drop granted.val)
  | .error _ => each (.duty key) batch

lemma turns_acquireOnce {k : SlotKey} {batch : List ℕ} (hK : .taken k batch ∈ K) :
    terms.Turns K (each (.duty k.key) batch + {.running}) (acquireOnce k batch)
      fun r => acquired k.key batch r + {.running} := by
  refine turns_begin.bind (add_comm _ _) fun r => ?_
  cases r with
  | error e => exact .pure (add_comm _ _)
  | ok h =>
  refine turns_step {.running} trivial ?_ (by simpa [relies] using hK) fun r => ?_
  · simp only [begun, needs, ← singleton_add, insert_eq_cons]
    rw [add_assoc, add_comm]
  have hfail : ∀ K, terms.Turns K (.acquiring h ::ₘ each (.duty k.key) batch + {.running})
      (settle h 1 .failed) fun _ => each (.duty k.key) batch + {.running} := by
    intro K
    refine Terms.Turns.frame (F := each (.duty k.key) batch + {.running})
      (turns_settle h .failed rfl) ?_ fun _ => zero_add _
    exact cons_add _ _ _
  cases r with
  | error e =>
    cases e with
    | lapsed | failed e =>
      refine turns_plain trivial rfl rfl (fun _ => rfl) fun _ => ?_
      exact (hfail _).bind (add_zero _).symm fun _ => .pure (add_zero _)
  | ok granted =>
    have hcost : (1 : ℤ) - granted.val = (Settled.granted k.key (batch.take granted.val)).cost := by
      have hle : granted.val ≤ batch.length := Nat.lt_succ_iff.mp granted.isLt
      simp [Settled.cost, hle]
    refine Terms.Turns.bind (F := each (.refused k.key) (batch.drop granted.val) + {.running})
      (turns_settle h _ hcost) ?_ fun _ => .pure (add_assoc _ _ _).symm
    exact cons_add (.won h k.key (batch.take granted.val)) (each (.refused k.key) _) _

lemma turns_acquireSlots {k : SlotKey} {batch : List ℕ} (hK : .taken k batch ∈ K) :
    terms.Turns K (each (.duty k.key) batch + {.running}) (acquireSlots k batch)
      fun r => acquired k.key batch r + {.running} := by
  refine (turns_acquireOnce hK).bind (add_zero _).symm fun r => ?_
  cases r with
  | ok r => exact .pure (add_zero _)
  | error e =>
    cases e with
    | some e => exact .pure (add_zero _)
    | none =>
      refine (turns_acquireOnce hK).bind rfl fun r => ?_
      cases r with
      | ok r => exact .pure (add_zero _)
      | error e =>
        cases e with
        | some e | none => exact .pure (add_zero _)

/-- Releases that are to be sent. -/
def rowsOf (rows : List (String × List (String × ℕ))) : Multiset Entry :=
  (rows.map fun r => .sending r.1 r.2 : List Entry)

lemma turns_sendReleases (rows : List (String × List (String × ℕ))) :
    terms.Turns K (rowsOf rows) (sendReleases rows) fun _ => 0 := by
  induction rows with
  | nil => exact .pure rfl
  | cons row rows ih =>
    obtain ⟨h, counts⟩ := row
    have hsettle : ∀ K, terms.Turns K ({.sent h counts} + rowsOf rows)
        (settle h (total counts) (.sent counts)) fun _ => rowsOf rows := by
      intro K
      exact (turns_settle h (.sent counts) rfl).frame rfl fun _ => zero_add _
    refine turns_step (rowsOf rows) trivial rfl nofun fun r => ?_
    have hrest : terms.Turns K ({.sent h counts} + rowsOf rows)
        (settle h (total counts) (.sent counts) >>= fun _ => sendReleases rows) fun _ => 0 := by
      refine (hsettle K).bind (add_zero _).symm fun _ => ?_
      rw [add_zero]
      exact ih
    cases r with
    | ok _ => exact hrest
    | error e => exact turns_plain trivial rfl rfl (fun _ => rfl) fun _ => hrest

lemma turns_flushReleases (rounds : ℕ) :
    terms.Turns K 0 (flushReleases rounds) fun _ => 0 := by
  induction rounds generalizing K with
  | zero => exact turns_call 0 trivial rfl nofun fun _ => rfl
  | succ rounds ih =>
    refine turns_step 0 trivial rfl nofun fun batch => ?_
    split
    next hnil =>
      subst hnil
      exact .pure rfl
    · exact (turns_sendReleases batch).bind rfl fun _ => ih

lemma turns_release (rounds : ℕ) (h key : String) (w : ℕ) (by_ : Releaser) :
    terms.Turns K {.slot by_.phase h key w} (release rounds h key w by_) fun _ => 0 := by
  refine turns_step 0 trivial rfl nofun fun start => ?_
  cases start with
  | false => exact .pure rfl
  | true =>
    refine turns_plain trivial rfl rfl (fun _ => rfl) fun spawned => ?_
    cases spawned with
    | true => exact .pure rfl
    | false => exact turns_flushReleases rounds

lemma turns_abandoned (rounds : ℕ) (key : String) (w : ℕ) (r : AdmitReply) :
    terms.Turns K (r.slot .giveBack key w) (abandoned rounds key w r) fun _ => 0 := by
  obtain ⟨ok, holder, err⟩ := r
  cases ok with
  | false => exact .pure rfl
  | true =>
    cases holder with
    | none => exact .pure rfl
    | some h => exact turns_release rounds h key w .flush

/-- What the loop of `flush` needs for the rest of its batch. -/
def claims {n : ℕ} (key : String) (res : Except String (Fin n × String)) :
    List ℕ → ℕ → Multiset Entry
  | [], _ => 0
  | w :: ws, i => (replyTo res i).claim key w + claims key res ws (i + 1)

lemma claims_acquired {n : ℕ} (key : String) (granted : Fin n) (h : String) (ws : List ℕ) (i : ℕ) :
    claims key (.ok (granted, h)) ws i =
      each (.slot .ready h key) (ws.take (granted.val - i)) +
        each (.refused key) (ws.drop (granted.val - i)) := by
  induction ws generalizing i with
  | nil => simp [claims, each]
  | cons w ws ih =>
    rw [claims, ih]
    by_cases hi : i < granted.val
    · obtain ⟨m, hm⟩ : ∃ m, granted.val - i = m + 1 := ⟨granted.val - i - 1, by omega⟩
      have hm' : granted.val - (i + 1) = m := by omega
      simp [replyTo, AdmitReply.claim, hi, hm, hm', each]
    · have hm : granted.val - i = 0 := by omega
      have hm' : granted.val - (i + 1) = 0 := by omega
      simp [replyTo, AdmitReply.claim, hi, hm, hm', each]

lemma claims_failed {n : ℕ} (key e : String) (ws : List ℕ) (i : ℕ) :
    claims key (.error e : Except String (Fin n × String)) ws i = each (.duty key) ws := by
  induction ws generalizing i with
  | nil => rfl
  | cons w ws ih =>
    rw [claims, ih]
    rfl

lemma turns_handOff {n : ℕ} (rounds : ℕ) (key : String) (res : Except String (Fin n × String))
    (ws : List ℕ) (i : ℕ) :
    terms.Turns K (claims key res ws i) (handOff rounds key res ws i) fun _ => 0 := by
  induction ws generalizing i with
  | nil => exact .pure rfl
  | cons w ws ih =>
    refine turns_step (claims key res ws (i + 1)) trivial rfl nofun
      fun answered => ?_
    have hrest : terms.Turns K (0 + claims key res ws (i + 1))
        (handOff rounds key res ws (i + 1)) fun _ => 0 := by
      rw [zero_add]
      exact ih (i + 1)
    cases answered with
    | true =>
      exact turns_step (claims key res ws (i + 1)) trivial rfl nofun
        fun _ => hrest
    | false => exact (turns_abandoned rounds key w (replyTo res i)).bind rfl fun _ => hrest

lemma turns_flush (k : SlotKey) (rounds : ℕ) :
    terms.Turns K {.running} (flush k rounds) fun _ => {.running} := by
  induction rounds generalizing K with
  | zero => exact turns_call {.running} trivial rfl nofun fun _ => rfl
  | succ rounds ih =>
    refine turns_step {.running} trivial rfl nofun fun batch => ?_
    split
    next hnil =>
      subst hnil
      exact .pure rfl
    · refine (turns_acquireSlots ?_).bind (add_zero _).symm fun res => ?_
      · exact mem_append_left _ mem_cons_self
      · refine (turns_handOff rounds k.key res batch 0).bind (F := {.running}) ?_ fun _ => ?_
        · cases res with
          | error e => rw [claims_failed, add_zero]; rfl
          | ok r => rw [claims_acquired, add_zero]; rfl
        · rw [zero_add]
          exact ih

/-- What a caller has after `admit`. -/
def admitted (key : String) : Except String (ℕ × AdmitReply) → Multiset Entry
  | .ok (w, r) => r.slot .held key w
  | .error _ => 0

lemma turns_admitSlot (k : SlotKey) : terms.Turns K 0 (admitSlot k) (admitted k.key) := by
  refine turns_step 0 trivial rfl nofun fun waiter => ?_
  cases waiter with
  | none => exact .pure rfl
  | some w =>
  refine turns_step 0 trivial rfl nofun fun first => ?_
  cases first with
  | some r => exact .pure (add_zero _)
  | none =>
  refine turns_step 0 trivial rfl nofun fun gaveUp => ?_
  cases gaveUp with
  | true => exact .pure rfl
  | false =>
  refine turns_step 0 trivial rfl nofun fun r => ?_
  exact .pure (add_zero _)

lemma turns_acquireSlot (rounds : ℕ) (k : SlotKey) :
    terms.Turns K 0 (acquireSlot rounds k) fun _ => 0 := by
  refine turns_plain trivial rfl rfl (fun _ => rfl) fun _ => ?_
  refine (turns_admitSlot k).bind (F := 0) rfl fun r => ?_
  cases r with
  | error e => exact .pure rfl
  | ok r =>
    obtain ⟨w, ok, holder, err⟩ := r
    cases ok with
    | false => exact .pure rfl
    | true =>
      cases holder with
      | none => exact .pure rfl
      | some h => exact (turns_release rounds h k.key w .caller).frame rfl fun _ => rfl

lemma turns_renew (h : String) : terms.Turns K 0 (renew h) fun _ => 0 := by
  refine turns_plain trivial rfl rfl (fun _ => rfl) fun started => ?_
  refine turns_plain trivial rfl rfl (fun _ => rfl) fun live => ?_
  exact turns_call 0 trivial rfl nofun fun _ => rfl

lemma turns_beat (hs : List String) : terms.Turns K 0 (beat hs) fun _ => 0 := by
  induction hs generalizing K with
  | nil => exact .pure rfl
  | cons h hs ih =>
    refine turns_step 0 trivial rfl nofun fun deleting => ?_
    cases deleting with
    | true =>
      have hdelete := turns_delete (K := .doomed h :: K) mem_cons_self
      exact hdelete.bind (F := 0) rfl fun _ => ih
    | false => exact (turns_renew h).bind (F := 0) rfl fun _ => ih

lemma turns_heartbeat (rounds : ℕ) : terms.Turns K 0 (heartbeat rounds) fun _ => 0 := by
  induction rounds generalizing K with
  | zero => exact turns_call 0 trivial rfl nofun fun _ => rfl
  | succ rounds ih =>
    refine turns_plain trivial rfl rfl (fun _ => rfl) fun ticked => ?_
    cases ticked with
    | false => exact .pure rfl
    | true =>
    refine turns_plain trivial rfl rfl (fun _ => rfl) fun used => ?_
    cases used with
    | false => exact ih
    | true =>
    refine turns_plain trivial rfl rfl (fun _ => rfl) fun hs => ?_
    refine (turns_beat hs).bind (F := 0) rfl fun _ => ?_
    refine turns_plain trivial rfl rfl (fun _ => rfl) fun _ => ?_
    exact turns_plain trivial rfl rfl (fun _ => rfl) fun _ => ih

lemma turns_routine (rounds : ℕ) : terms.Turns K 0 (routine rounds) fun _ => 0 := by
  refine turns_step 0 trivial rfl nofun fun job => ?_
  refine Terms.Turns.bind (F := 0) (Y := fun _ => {.running}) ?_ rfl fun _ => ?_
  · cases job with
    | flush k => exact turns_flush k rounds
    | flushReleases => exact (turns_flushReleases rounds).frame (zero_add _).symm fun _ => rfl
    | heartbeat => exact (turns_heartbeat rounds).frame (zero_add _).symm fun _ => rfl
  · exact turns_call 0 trivial rfl nofun fun _ => rfl

lemma turns_deleteAll {hs : List String} (hK : ∀ h ∈ hs, .doomed h ∈ K) :
    terms.Turns K 0 (deleteAll hs) fun _ => 0 := by
  induction hs with
  | nil => exact .pure rfl
  | cons h hs ih =>
    refine (turns_delete (hK h mem_cons_self)).bind (F := 0) rfl fun _ => ?_
    exact ih fun d hd => hK d (mem_cons_of_mem _ hd)

lemma turns_close : terms.Turns K 0 close fun _ => 0 := by
  refine turns_step 0 trivial rfl nofun fun _ => ?_
  refine turns_plain trivial rfl rfl (fun _ => rfl) fun _ => ?_
  refine turns_step 0 trivial rfl (by simp [relies, learns]) fun _ => ?_
  refine turns_step 0 trivial rfl (by simp [relies, learns]) fun hs => ?_
  exact turns_deleteAll fun h hh => mem_append_left _ (mem_map_of_mem hh)

end LlmdAsync.SqlFlow.QuotaStore
