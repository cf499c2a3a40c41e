import LlmdAsync.SqlQueue.Migrate

/-!
# Schema migrations run once and in order

At every moment the database is exactly where one of the binaries has left it: the SQL of its
migrations has taken effect, each of them once and in the order of the versions, and these versions
are recorded.  `Sound` adds what is needed to see this.

Only a transaction with the exclusive lock writes, so that the schema stands still as long as such a
transaction is open.  A call knows how much of its work the transaction contains (`Knows`), and when
it sends `COMMIT` the transaction contains everything that was missing (`Complete`).
-/

namespace LlmdAsync.Migrate

open List Option Hash ThreadSystem Migration

/-! ### Migrations of one history -/

/-- The row of a migration in the version table. -/
def Migration.row (m : Migration) : ℕ × String := (m.version, m.name)

/-- All migrations of the list, and no others, have taken effect and are recorded. -/
structure Schema.Records (s : Schema) (ms : List Migration) : Prop where
  rows : s.rows = ms.map Migration.row
  applied : s.applied = ms.map Migration.sql

/-- No migrations, or all migrations of one of the binaries. -/
def Embedded (calls : ℕ → Call) (ms : List Migration) : Prop :=
  ms = [] ∨ ∃ t, load (calls t).files = .ok ms

/-- The binaries agree on the migrations they have in common. -/
def Agree (calls : ℕ → Call) : Prop :=
  ∀ t u ms ms', load (calls t).files = .ok ms → load (calls u).files = .ok ms' →
    ms <+: ms' ∨ ms' <+: ms

section History

variable {calls : ℕ → Call} {ms : List Migration} {s : Schema}

lemma Embedded.versions (h : Embedded calls ms) :
    ms.map version = range' 1 ms.length := by
  rcases h with rfl | ⟨t, ht⟩
  · rfl
  · exact map_version_of_load ht

lemma foldl_max_range' (n : ℕ) : (range' 1 n).foldl max 0 = n := by
  induction n with
  | zero => rfl
  | succ n ih =>
    rw [range'_concat, foldl_append, ih]
    simp [Nat.add_comm]

lemma Schema.Records.maxVersion (h : s.Records ms) (hms : Embedded calls ms) :
    s.maxVersion = s.rows.length := by
  have hversions : s.rows.map Prod.fst = List.range' 1 ms.length := by
    rw [h.rows, List.map_map]
    exact hms.versions
  rw [Schema.maxVersion, hversions, foldl_max_range', h.rows, length_map]

lemma filter_version {n : ℕ} (h : ms.map version = range' 1 ms.length) :
    ms.filter (fun m => decide (n < m.version)) = ms.drop n := by
  suffices hfrom : ∀ (ms : List Migration) (i : ℕ),
      ms.map version = range' (i + 1) ms.length →
      ms.filter (fun m => decide (n < m.version)) = ms.drop (n - i) from hfrom ms 0 h
  intro ms
  induction ms with
  | nil => exact fun i _ => (drop_nil).symm
  | cons m ms ih =>
    intro i hi
    rw [map_cons, length_cons, range'_succ] at hi
    obtain ⟨hm, hms⟩ := cons.inj hi
    rw [filter_cons, hm, ih (i + 1) hms]
    by_cases hn : n < i + 1
    · have hzero : n - i = 0 ∧ n - (i + 1) = 0 := by omega
      rw [if_pos (decide_eq_true hn), hzero.1, hzero.2]
      rfl
    · obtain ⟨k, hk⟩ : ∃ k, n - i = k + 1 := ⟨n - i - 1, by omega⟩
      have hk' : n - (i + 1) = k := by omega
      rw [if_neg (by simpa using hn), hk, hk', drop_succ_cons]

lemma embedded_append (hagree : Agree calls) {old : List Migration} (hold : Embedded calls old)
    {t : ℕ} (hms : load (calls t).files = .ok ms) :
    Embedded calls (old ++ ms.drop old.length) ∧ ms.length ≤ (old ++ ms.drop old.length).length:= by
  have hcases : old <+: ms ∨ ms <+: old := by
    rcases hold with rfl | ⟨u, hu⟩
    · exact .inl nil_prefix
    · exact hagree u t old ms hu hms
  rcases hcases with hprefix | hprefix
  · rw [prefix_append_drop hprefix |>.symm]
    exact ⟨.inr ⟨t, hms⟩, le_rfl⟩
  · rw [drop_eq_nil_of_le hprefix.length_le, append_nil]
    exact ⟨hold, hprefix.length_le⟩

end History

/-! ### The invariant -/

/-- The commits lead from one schema to the other. -/
def Linked : Schema → List Commit → Schema → Prop
  | s, [], s' => s' = s
  | s, c :: cs, s' => c.before = s ∧ Linked c.after cs s'

lemma Linked.concat {s s' : Schema} {cs : List Commit} (h : Linked s cs s') {c : Commit}
    (hc : c.before = s') : Linked s (cs ++ [c]) c.after := by
  induction cs generalizing s with
  | nil => exact ⟨hc.trans h, rfl⟩
  | cons d cs ih => exact ⟨h.1, ih h.2⟩

/-- The transaction of a call has the exclusive lock and contains all that was missing. -/
def Complete (calls : ℕ → Call) (t : ℕ) (tx : Tx) (s : Server) : Prop :=
  ∃ ms, load (calls t).files = .ok ms ∧ tx.lock = some .exclusive ∧
    tx.rows = (ms.drop s.schema.rows.length).map Migration.row ∧
    tx.sqls = (ms.drop s.schema.rows.length).map Migration.sql

/-- What is known about the server. -/
structure Sound (calls : ℕ → Call) (s : Server) : Prop where
  records : ∃ ms, Embedded calls ms ∧ s.schema.Records ms
  /-- Nobody else has a lock beside the exclusive one. -/
  exclusive : ∀ t u tx tx', Hash.hget s.txs t = some tx → Hash.hget s.txs u = some tx' → t ≠ u →
    tx.lock = some .exclusive → tx'.lock = none
  /-- A transaction that may be committed late is complete. -/
  pending : ∀ t tx, Hash.hget s.txs t = some tx → tx.committing = true → Complete calls t tx s
  running : ∀ t tx, Hash.hget s.txs t = some tx → t ∈ s.entered
  /-- Only commits have changed the schema. -/
  chain : Linked .empty s.commits s.schema
  whole : ∀ c ∈ s.commits, ∃ ms, load (calls c.call).files = .ok ms ∧
    ms.length ≤ c.after.rows.length
  clean : ∀ t, t ∉ s.entered → (∀ c ∈ s.commits, c.call ≠ t) ∧ ∀ o ∈ s.outcomes, o.1 ≠ t
  succeeded : ∀ t, (t, .ok ()) ∈ s.outcomes → ∃ ms, load (calls t).files = .ok ms ∧
    ms.length ≤ s.schema.rows.length
  failed : ∀ t e, (t, .error e) ∈ s.outcomes → ∀ c ∈ s.commits, c.call = t → c.answered = false

/-- What others can do while a call runs. -/
structure Rely (t : ℕ) (s s' : Server) : Prop where
  /-- The transaction of the call may be ended.  As long as it has the exclusive lock, the schema
  does not change. -/
  tx : ∀ tx, Hash.hget s'.txs t = some tx → Hash.hget s.txs t = some tx ∧
    (tx.lock = some .exclusive → s'.schema = s.schema)
  grown : s.schema.rows <+: s'.schema.rows
  entered : t ∈ s.entered → t ∈ s'.entered
  /-- It may be committed, if the call has sent `COMMIT`. -/
  commits : ∀ c ∈ s'.commits, c.call = t → c ∈ s.commits ∨
    c.answered = false ∧ ∃ tx, Hash.hget s.txs t = some tx ∧ tx.committing = true
  outcomes : ∀ o ∈ s'.outcomes, o.1 = t → o ∈ s.outcomes

instance (t : ℕ) : IsPreorder Server (Rely t) where
  refl s := ⟨fun tx h => ⟨h, fun _ => rfl⟩, List.prefix_refl _, id, fun c hc _ => Or.inl hc,
    fun o ho _ => ho⟩
  trans s₁ s₂ s₃ h h' := by
    refine ⟨fun tx htx => ?_, h.grown.trans h'.grown, fun ht => h'.entered (h.entered ht),
      fun c hc hcall => ?_, fun o ho hcall => h.outcomes o (h'.outcomes o ho hcall) hcall⟩
    · obtain ⟨htx₂, hschema'⟩ := h'.tx tx htx
      obtain ⟨htx₁, hschema⟩ := h.tx tx htx₂
      exact ⟨htx₁, fun hlock => (hschema' hlock).trans (hschema hlock)⟩
    · rcases h'.commits c hc hcall with hc | ⟨hanswered, tx, htx, hcommitting⟩
      · exact h.commits c hc hcall
      · exact Or.inr ⟨hanswered, tx, (h.tx tx htx).1, hcommitting⟩

lemma Rely.of_schema {t : ℕ} {s s' : Server} (hschema : s'.schema = s.schema)
    (htx : ∀ tx, hget s'.txs t = some tx → hget s.txs t = some tx)
    (hentered : s.entered ⊆ s'.entered) (hcommits : s'.commits = s.commits)
    (houtcomes : ∀ o ∈ s'.outcomes, o.1 = t → o ∈ s.outcomes) : Rely t s s' :=
  ⟨fun tx h => ⟨htx tx h, fun _ => hschema⟩, hschema ▸ prefix_refl _, fun h => hentered h,
    fun _ hc _ => .inl (hcommits ▸ hc), houtcomes⟩

namespace Sound

variable {calls : ℕ → Call} {s : Server} {t : ℕ}

lemma initial : Sound calls .initial where
  records := ⟨[], .inl rfl, rfl, rfl⟩
  exclusive t u tx tx' h := by cases h
  pending t tx h := by cases h
  running t tx h := by cases h
  chain := rfl
  whole c h := by cases h
  clean t _ := ⟨nofun, nofun⟩
  succeeded t h := by cases h
  failed t e h := by cases h

lemma drop (h : Sound calls s) (t : ℕ) :
    ThreadSystem.Spares (Sound calls) Rely s (s.drop t) := by
  have hold : ∀ u tx, hget (s.drop t).txs u = some tx → hget s.txs u = some tx :=
    fun u tx htx => (hget_of_hdel htx).2
  refine ⟨{ h with exclusive := ?_, pending := ?_, running := ?_ }, fun u => ?_⟩
  · intro u v tx tx' hu hv hne hlock
    exact h.exclusive u v tx tx' (hold u tx hu) (hold v tx' hv) hne hlock
  · intro u tx hu hcommitting
    exact h.pending u tx (hold u tx hu) hcommitting
  · exact fun u tx hu => h.running u tx (hold u tx hu)
  · exact .of_schema rfl (hold u) (List.Subset.refl _) rfl fun o ho _ => ho

/-- The locks of the other transactions are compatible with this transaction. -/
def Fits (t : ℕ) (tx : Tx) (s : Server) : Prop :=
  ∀ u tx', u ≠ t → Hash.hget s.txs u = some tx' →
    (tx.lock = some .exclusive → tx'.lock = none) ∧ (tx'.lock = some .exclusive → tx.lock = none)

lemma fits (h : Sound calls s) {tx tx' : Tx} (htx : hget s.txs t = some tx)
    (hlock : tx'.lock = tx.lock) : Fits t tx' s := by
  intro u tx'' hne hu
  rw [hlock]
  exact ⟨h.exclusive t u tx tx'' htx hu hne.symm, h.exclusive u t tx'' tx hu htx hne⟩

lemma fits_available {mode : LockMode} (hfree : s.available t mode = true) {tx : Tx}
    (hlock : tx.lock = some mode) : Fits t tx s := by
  intro u tx' hne hu
  have hrow := all_eq_true.mp hfree (u, tx') (mem_rows_iff.mpr hu)
  simp only [hne, decide_false, Bool.false_or] at hrow
  rw [hlock]
  cases htx' : tx'.lock with
  | none => exact ⟨fun _ => rfl, nofun⟩
  | some mode' =>
    rw [htx'] at hrow
    cases mode <;> cases mode' <;> simp [LockMode.compatible] at hrow ⊢

lemma setTx (h : Sound calls s) (hentered : t ∈ s.entered) {tx : Tx} (hfits : Fits t tx s)
    (hcomplete : tx.committing = true → Complete calls t tx s) :
    ThreadSystem.Keeps (Sound calls) Rely t s (s.setTx t tx) := by
  have hcases : ∀ u tx', hget (s.setTx t tx).txs u = some tx' →
      u = t ∧ tx' = tx ∨ u ≠ t ∧ hget s.txs u = some tx' := by
    intro u tx' hu
    rw [Server.setTx, hget_hset] at hu
    split at hu
    next heq =>
      exact .inl ⟨heq, (some.inj hu).symm⟩
    next hne =>
      exact .inr ⟨hne, hu⟩
  refine ⟨{ h with exclusive := ?_, pending := ?_, running := ?_ }, fun u hu => ?_⟩
  · intro u v txu txv hu hv hne hlock
    rcases hcases u txu hu with ⟨rfl, rfl⟩ | ⟨hut, hutx⟩
    · rcases hcases v txv hv with ⟨rfl, rfl⟩ | ⟨hvt, hvtx⟩
      · exact absurd rfl hne
      · exact (hfits v txv hvt hvtx).1 hlock
    · rcases hcases v txv hv with ⟨rfl, rfl⟩ | ⟨-, hvtx⟩
      · exact (hfits u txu hut hutx).2 hlock
      · exact h.exclusive u v txu txv hutx hvtx hne hlock
  · intro u tx' hu hcommitting
    rcases hcases u tx' hu with ⟨rfl, rfl⟩ | ⟨-, hutx⟩
    · exact hcomplete hcommitting
    · exact h.pending u tx' hutx hcommitting
  · intro u tx' hu
    rcases hcases u tx' hu with ⟨rfl, -⟩ | ⟨-, hutx⟩
    · exact hentered
    · exact h.running u tx' hutx
  · refine .of_schema rfl (fun tx' htx' => ?_) (List.Subset.refl _) rfl fun o ho _ => ho
    exact ((hcases u tx' htx').resolve_left fun h => hu h.1).2

lemma commit (hagree : Agree calls) (h : Sound calls s) {tx : Tx}
    (htx : hget s.txs t = some tx) (hcomplete : Complete calls t tx s) (answered : Bool)
    (hsilent : answered = true → ∀ o ∈ s.outcomes, o.1 ≠ t) :
    ThreadSystem.Keeps (Sound calls) Rely t s (s.commitTx t tx answered) ∧
      ∃ ms, load (calls t).files = .ok ms ∧
        ms.length ≤ (s.commitTx t tx answered).schema.rows.length := by
  obtain ⟨old, hold, hrecords⟩ := h.records
  obtain ⟨ms, hms, hlock, hrows, hsqls⟩ := hcomplete
  have hlen : s.schema.rows.length = old.length := by rw [hrecords.rows, length_map]
  rw [hlen] at hrows hsqls
  obtain ⟨hembedded, hle⟩ := embedded_append hagree hold hms
  have hnew : (s.schema.with tx).Records (old ++ ms.drop old.length) := by
    refine ⟨?_, ?_⟩
    · show s.schema.rows ++ tx.rows = _
      rw [hrecords.rows, hrows, map_append]
    · show s.schema.applied ++ tx.sqls = _
      rw [hrecords.applied, hsqls, map_append]
  have hgrown : s.schema.rows <+: (s.schema.with tx).rows := prefix_append _ _
  have henough : ms.length ≤ (s.schema.with tx).rows.length := by
    rw [hnew.rows, length_map]
    exact hle
  have hothers : ∀ u tx', hget (s.commitTx t tx answered).txs u = some tx' →
      u ≠ t ∧ hget s.txs u = some tx' := fun u tx' hu => hget_of_hdel hu
  -- No other transaction has the exclusive lock now.
  have hfree : ∀ u tx', u ≠ t → hget s.txs u = some tx' → tx'.lock ≠ some .exclusive := by
    intro u tx' hne hu hlock'
    rw [h.exclusive t u tx tx' htx hu hne.symm hlock] at hlock'
    cases hlock'
  refine ⟨⟨⟨⟨_, hembedded, hnew⟩, ?_, ?_, ?_, h.chain.concat rfl, ?_, ?_, ?_, ?_⟩, fun u hu => ?_⟩,
    ms, hms, henough⟩
  · intro u v txu txv hu hv hne hlock'
    exact h.exclusive u v txu txv (hothers u txu hu).2 (hothers v txv hv).2 hne hlock'
  · intro u tx' hu hcommitting
    obtain ⟨hne, hu⟩ := hothers u tx' hu
    obtain ⟨-, -, hlock', -⟩ := h.pending u tx' hu hcommitting
    exact absurd hlock' (hfree u tx' hne hu)
  · exact fun u tx' hu => h.running u tx' (hothers u tx' hu).2
  · intro c hc
    rcases mem_append.mp hc with hc | hc
    · exact h.whole c hc
    · obtain rfl := mem_singleton.mp hc
      exact ⟨ms, hms, henough⟩
  · intro u hu
    refine ⟨fun c hc => ?_, (h.clean u hu).2⟩
    rcases mem_append.mp hc with hc | hc
    · exact (h.clean u hu).1 c hc
    · obtain rfl := mem_singleton.mp hc
      rintro rfl
      exact hu (h.running t tx htx)
  · intro u hu
    obtain ⟨ms', hms', hle'⟩ := h.succeeded u hu
    exact ⟨ms', hms', hle'.trans hgrown.length_le⟩
  · intro u e hu c hc hcall
    rcases mem_append.mp hc with hc | hc
    · exact h.failed u e hu c hc hcall
    · obtain rfl := mem_singleton.mp hc
      cases answered with
      | false => rfl
      | true => exact absurd hcall.symm (hsilent rfl _ hu)
  · refine ⟨fun tx' htx' => ?_, hgrown, id, fun c hc hcall => ?_, fun o ho _ => ho⟩
    · obtain ⟨hne, hutx⟩ := hothers u tx' htx'
      exact ⟨hutx, fun hlock' => absurd hlock' (hfree u tx' hne hutx)⟩
    · rcases mem_append.mp hc with hc | hc
      · exact .inl hc
      · obtain rfl := mem_singleton.mp hc
        exact absurd hcall.symm hu

end Sound

/-! ### What a call knows -/

inductive Phase where
  | start
  /-- No transaction matters, and the version was at least `n`. -/
  | seen (n : ℕ)
  | opened
  | shared
  | locked
  /-- The version was `n`, and these migrations are in the transaction. -/
  | writing (n : ℕ) (written : List Migration)
  /-- And this SQL. -/
  | executed (n : ℕ) (written : List Migration) (sql : String)
  /-- `COMMIT` was answered. -/
  | committed
  /-- `COMMIT` was not answered, or it has failed. -/
  | uncertain
  | returned

/-- What an answer says. -/
def Phase.after : (i : Statement) → i.Reply → Phase → Phase
  | .enter, _, _ => .seen 0
  | .readVersion, .ok n, _ => .seen n
  | .begin, true, _ => .opened
  | .lock .exclusive, true, _ => .locked
  | .lock .shared, true, _ => .shared
  | .createVersionTable, true, _ => .locked
  | .readVersionTx, .ok n, .locked => .writing n []
  | .readVersionTx, .ok n, .shared => .seen n
  | .exec sql, true, .writing n written => .executed n written sql
  | .insertVersion version name, true, .executed n written sql =>
    .writing n (written ++ [⟨version, name, sql⟩])
  | .commit, true, _ => .committed
  | .commit, false, _ => .uncertain
  | .rollback, _, g => g
  | .ret _, _, _ => .returned
  | _, _, _ => .seen 0

/-- The phases in which a call may return a result. -/
def Phase.Answers (files : List (String × String)) : Except MigrateError Unit → Phase → Prop
  | .ok _, .committed => True
  | .ok _, .seen n => ∃ ms, load files = .ok ms ∧ ms.length ≤ n
  | .error _, .seen _ | .error _, .uncertain => True
  | _, _ => False

/-- The phases in which a statement may be sent. -/
def Phase.Allows (files : List (String × String)) : Statement → Phase → Prop
  | .enter, g => g = .start
  | .readVersion, g | .begin, g => ∃ n, g = .seen n
  | .lock _, g => g = .opened
  | .createVersionTable, g => g = .locked
  | .readVersionTx, g => g = .locked ∨ g = .shared
  | .exec _, g => ∃ n written, g = .writing n written
  | .insertVersion .., g => ∃ n written sql, g = .executed n written sql
  -- Everything after the version that was read is in the transaction.
  | .commit, g => ∃ ms n, load files = .ok ms ∧ g = .writing n (ms.drop n)
  | .rollback, g => ∃ result, g.Answers files result
  | .ret result, g => g.Answers files result

/-- The call has begun, and it has not returned. -/
structure Calling (t : ℕ) (s : Server) : Prop where
  entered : t ∈ s.entered
  silent : ∀ o ∈ s.outcomes, o.1 ≠ t

/-- The call has not sent `COMMIT`. -/
structure Uncommitted (t : ℕ) (s : Server) : Prop where
  commits : ∀ c ∈ s.commits, c.call ≠ t
  committing : ∀ tx, Hash.hget s.txs t = some tx → tx.committing = false

/-- If the transaction still exists, it contains this. -/
def Contains (t : ℕ) (s : Server) (rows : List (ℕ × String)) (sqls : List String) : Prop :=
  ∀ tx, Hash.hget s.txs t = some tx → tx.rows = rows ∧ tx.sqls = sqls

/-- If the transaction still exists, it has the exclusive lock, and the version is `n`. -/
def Locks (t : ℕ) (s : Server) (n : ℕ) : Prop :=
  ∀ tx, Hash.hget s.txs t = some tx → tx.lock = some .exclusive ∧ s.schema.rows.length = n

/-- What a call knows in a phase. -/
def Knows (calls : ℕ → Call) (t : ℕ) : Phase → Server → Prop
  | .start, s => (∀ o ∈ s.outcomes, o.1 ≠ t) ∧ Uncommitted t s
  | .seen n, s => Calling t s ∧ Uncommitted t s ∧ n ≤ s.schema.rows.length
  | .opened, s | .shared, s => Calling t s ∧ Uncommitted t s ∧ Contains t s [] []
  | .locked, s =>
    Calling t s ∧ Uncommitted t s ∧ Contains t s [] [] ∧ Locks t s s.schema.rows.length
  | .writing n written, s => Calling t s ∧ Uncommitted t s ∧
    Contains t s (written.map Migration.row) (written.map Migration.sql) ∧ Locks t s n
  | .executed n written sql, s => Calling t s ∧ Uncommitted t s ∧
    Contains t s (written.map Migration.row) (written.map Migration.sql ++ [sql]) ∧ Locks t s n
  | .committed, s => Calling t s ∧ ∃ ms, load (calls t).files = .ok ms ∧
    ms.length ≤ s.schema.rows.length
  | .uncertain, s => Calling t s ∧ ∀ c ∈ s.commits, c.call = t → c.answered = false
  | .returned, _ => True

section Knowledge

variable {calls : ℕ → Call} {t : ℕ} {s s' : Server}

lemma Calling.rely (h : Calling t s) (hR : Rely t s s') : Calling t s' :=
  ⟨hR.entered h.entered, fun o ho hcall => h.silent o (hR.outcomes o ho hcall) hcall⟩

lemma Uncommitted.rely (h : Uncommitted t s) (hR : Rely t s s') : Uncommitted t s' := by
  refine ⟨fun c hc hcall => ?_, fun tx htx => h.committing tx (hR.tx tx htx).1⟩
  rcases hR.commits c hc hcall with hc | ⟨-, tx, htx, hcommitting⟩
  · exact h.commits c hc hcall
  · rw [h.committing tx htx] at hcommitting
    cases hcommitting

lemma Contains.rely {rows : List (ℕ × String)} {sqls : List String} (h : Contains t s rows sqls)
    (hR : Rely t s s') : Contains t s' rows sqls :=
  fun tx htx => h tx (hR.tx tx htx).1

lemma Locks.rely {n : ℕ} (h : Locks t s n) (hR : Rely t s s') : Locks t s' n := by
  intro tx htx
  obtain ⟨hold, hschema⟩ := hR.tx tx htx
  obtain ⟨hlock, hn⟩ := h tx hold
  rw [hschema hlock]
  exact ⟨hlock, hn⟩

lemma Knows.rely {g : Phase} (h : Knows calls t g s) (hR : Rely t s s') : Knows calls t g s' := by
  cases g with
  | start => exact ⟨fun o ho hcall => h.1 o (hR.outcomes o ho hcall) hcall, h.2.rely hR⟩
  | seen n => exact ⟨h.1.rely hR, h.2.1.rely hR, h.2.2.trans hR.grown.length_le⟩
  | opened | shared => exact ⟨h.1.rely hR, h.2.1.rely hR, h.2.2.rely hR⟩
  | locked =>
    refine ⟨h.1.rely hR, h.2.1.rely hR, h.2.2.1.rely hR, fun tx htx => ⟨?_, rfl⟩⟩
    exact (h.2.2.2.rely hR tx htx).1
  | writing n written => exact ⟨h.1.rely hR, h.2.1.rely hR, h.2.2.1.rely hR, h.2.2.2.rely hR⟩
  | executed n written sql =>
    exact ⟨h.1.rely hR, h.2.1.rely hR, h.2.2.1.rely hR, h.2.2.2.rely hR⟩
  | committed =>
    obtain ⟨hcalling, ms, hms, hle⟩ := h
    exact ⟨hcalling.rely hR, ms, hms, hle.trans hR.grown.length_le⟩
  | uncertain =>
    refine ⟨h.1.rely hR, fun c hc hcall => ?_⟩
    rcases hR.commits c hc hcall with hc | ⟨hanswered, -⟩
    · exact h.2 c hc hcall
    · exact hanswered
  | returned => exact trivial

lemma Sound.inTx (hs : Sound calls s) (hcalling : Calling t s) (hun : Uncommitted t s)
    {fate : Fate} {f : Tx → Option Tx}
    (hf : fate ≠ .failed → ∀ tx tx', hget s.txs t = some tx → f tx = some tx' →
      Sound.Fits t tx' s ∧ tx'.committing = tx.committing)
    {r : Bool} (hexec : s.inTx t fate f = (r, s')) :
    ThreadSystem.Keeps (Sound calls) Rely t s s' ∧ Knows calls t (.seen 0) s' ∧
    s'.schema = s.schema ∧ (r = true → ∃ tx tx', hget s.txs t = some tx ∧ f tx = some tx' ∧
      s'.txs = hset s.txs t tx') := by
  have hdropped : Knows calls t (.seen 0) (s.drop t) := by
    refine ⟨⟨hcalling.entered, hcalling.silent⟩, ⟨hun.commits, fun tx htx => ?_⟩, Nat.zero_le _⟩
    exact absurd rfl (hget_of_hdel htx).1
  unfold Server.inTx at hexec
  cases htx : hget s.txs t with
  | none =>
    rw [htx] at hexec
    cases hexec
    exact ⟨(ThreadSystem.Spares.refl hs).keeps t, ⟨hcalling, hun, Nat.zero_le _⟩, rfl,
      nofun⟩
  | some tx =>
    rw [htx] at hexec
    by_cases hfate : fate = .failed
    · simp only [hfate, ↓reduceIte] at hexec
      cases hexec
      exact ⟨(hs.drop t).keeps t, hdropped, rfl, nofun⟩
    · simp only [hfate, ↓reduceIte] at hexec
      cases hft : f tx with
      | none =>
        rw [hft] at hexec
        cases hexec
        exact ⟨(hs.drop t).keeps t, hdropped, rfl, nofun⟩
      | some tx' =>
        rw [hft] at hexec
        cases hexec
        obtain ⟨hfits, hcommitting⟩ := hf hfate tx tx' htx hft
        have hno : tx'.committing = false := hcommitting.trans (hun.committing tx htx)
        refine ⟨hs.setTx hcalling.entered hfits fun h => ?_,
          ⟨⟨hcalling.entered, hcalling.silent⟩, ⟨hun.commits, fun tx'' htx'' => ?_⟩,
            Nat.zero_le _⟩, rfl, fun _ => ⟨tx, tx', rfl, hft, rfl⟩⟩
        · rw [hno] at h
          cases h
        · have heq : some tx' = some tx'' := (hget_hset_self _ _ _).symm.trans htx''
          exact some.inj heq ▸ hno

lemma Contains.set {tx' : Tx} {txs : Hash ℕ Tx} (h : s'.txs = hset txs t tx') :
    Contains t s' tx'.rows tx'.sqls := by
  intro tx htx
  rw [h, hget_hset_self] at htx
  cases htx
  exact ⟨rfl, rfl⟩

lemma Locks.set {tx tx' : Tx} {n : ℕ} (h : s'.txs = hset s.txs t tx')
    (hschema : s'.schema = s.schema) (hlocks : Locks t s n) (htx : hget s.txs t = some tx)
    (hlock : tx'.lock = tx.lock) : Locks t s' n := by
  intro tx'' htx''
  rw [h, hget_hset_self] at htx''
  cases htx''
  rw [hlock, hschema]
  exact hlocks tx htx

/-- What a statement of a call leaves. -/
def Goes (calls : ℕ → Call) (t : ℕ) (i : Statement) (g : Phase) (s : Server) : Prop :=
  ∀ fate r s', Server.exec t i fate s = some (r, s') →
    ThreadSystem.Keeps (Sound calls) Rely t s s' ∧ Knows calls t (Phase.after i r g) s'

lemma goes_enter (hs : Sound calls s) (hk : Knows calls t .start s) :
    Goes calls t .enter .start s := by
  intro fate r s' hexec
  cases hexec
  refine ⟨⟨{ hs with running := ?_, clean := ?_ }, fun u _ => ?_⟩,
    ⟨mem_cons_self, hk.1⟩, ⟨hk.2.commits, hk.2.committing⟩, Nat.zero_le _⟩
  · exact fun u tx hu => mem_cons_of_mem _ (hs.running u tx hu)
  · exact fun u hu => hs.clean u fun hmem => hu (mem_cons_of_mem _ hmem)
  · exact .of_schema rfl (fun _ => id) (subset_cons_self _ _) rfl fun o ho _ => ho

lemma Sound.readVersion (hs : Sound calls s) {n : ℕ} (h : s.schema.readVersion = .ok n) :
    n = s.schema.rows.length := by
  obtain ⟨ms, hms, hrecords⟩ := hs.records
  rw [Schema.readVersion] at h
  split at h
  · rw [← Except.ok.inj h]
    exact hrecords.maxVersion hms
  · cases h

lemma goes_readVersion (hs : Sound calls s) {n : ℕ} (hk : Knows calls t (.seen n) s) :
    Goes calls t .readVersion (.seen n) s := by
  intro fate r s' hexec
  obtain ⟨hcalling, hun, -⟩ := hk
  simp only [Server.exec, some.injEq, Prod.mk.injEq] at hexec
  obtain ⟨hr, rfl⟩ := hexec
  refine ⟨(ThreadSystem.Spares.refl hs).keeps t, ?_⟩
  cases r with
  | error e => exact ⟨hcalling, hun, Nat.zero_le _⟩
  | ok n' =>
    refine ⟨hcalling, hun, ?_⟩
    split at hr
    · exact (hs.readVersion hr).le
    · cases hr

lemma goes_begin (hs : Sound calls s) {n : ℕ} (hk : Knows calls t (.seen n) s) :
    Goes calls t .begin (.seen n) s := by
  intro fate r s' hexec
  obtain ⟨hcalling, hun, -⟩ := hk
  have hkeeps : ThreadSystem.Keeps (Sound calls) Rely t s (s.setTx t .begun) :=
    hs.setTx hcalling.entered (fun u tx' _ _ => ⟨nofun, fun _ => rfl⟩)
      nofun
  have hcalling' : Calling t (s.setTx t .begun) := ⟨hcalling.entered, hcalling.silent⟩
  have hun' : Uncommitted t (s.setTx t .begun) := by
    refine ⟨hun.commits, fun tx htx => ?_⟩
    rw [Server.setTx, hget_hset_self] at htx
    cases htx
    rfl
  cases fate with
  | done =>
    cases hexec
    exact ⟨hkeeps, hcalling', hun', Contains.set (show _ = hset s.txs t .begun from rfl)⟩
  | failed =>
    cases hexec
    exact ⟨(ThreadSystem.Spares.refl hs).keeps t, hcalling, hun, Nat.zero_le _⟩
  | unanswered =>
    cases hexec
    exact ⟨hkeeps, hcalling', hun', Nat.zero_le _⟩

lemma goes_lock (hs : Sound calls s) (hk : Knows calls t .opened s) (mode : LockMode) :
    Goes calls t (.lock mode) .opened s := by
  intro fate r s' hexec
  obtain ⟨hcalling, hun, hcontains⟩ := hk
  simp only [Server.exec] at hexec
  split at hexec
  · cases hexec
  next hfree =>
    obtain ⟨hkeeps, hfailed, hschema, hset⟩ := hs.inTx hcalling hun (fun hfate tx tx' htx hf => by
      have havailable : s.available t mode = true := by simpa [htx, hfate] using hfree
      cases hf
      exact ⟨Sound.fits_available havailable rfl, rfl⟩) (some.inj hexec)
    refine ⟨hkeeps, ?_⟩
    cases r with
    | false => cases mode <;> exact hfailed
    | true =>
      obtain ⟨tx, tx', htx, hf, htxs⟩ := hset rfl
      obtain ⟨hcalling', hun', -⟩ := hfailed
      have hcontains' : Contains t s' [] [] := by
        have h := Contains.set htxs
        cases hf
        rwa [(hcontains tx htx).1, (hcontains tx htx).2] at h
      cases mode with
      | shared => exact ⟨hcalling', hun', hcontains'⟩
      | exclusive =>
        refine ⟨hcalling', hun', hcontains', fun tx'' htx'' => ⟨?_, rfl⟩⟩
        rw [htxs, hget_hset_self] at htx''
        cases htx''
        cases hf
        rfl

lemma Sound.statement (hs : Sound calls s) (hcalling : Calling t s) (hun : Uncommitted t s)
    {n : ℕ} (hlocks : Locks t s n) {rows : List (ℕ × String)} {sqls : List String}
    (hcontains : Contains t s rows sqls) (rows' : List (ℕ × String)) (sqls' : List String)
    {fate : Fate} {f : Tx → Option Tx}
    (hf : ∀ tx tx', f tx = some tx' → tx'.lock = tx.lock ∧ tx'.committing = tx.committing ∧
      (tx.rows = rows → tx.sqls = sqls → tx'.rows = rows' ∧ tx'.sqls = sqls'))
    {r : Bool} (hexec : s.inTx t fate f = (r, s')) :
    ThreadSystem.Keeps (Sound calls) Rely t s s' ∧ Knows calls t (.seen 0) s' ∧
    s'.schema = s.schema ∧ (r = true → Contains t s' rows' sqls' ∧ Locks t s' n) := by
  obtain ⟨hkeeps, hfailed, hschema, hset⟩ := hs.inTx hcalling hun (fun _ tx tx' htx hft =>
    ⟨hs.fits htx (hf tx tx' hft).1, (hf tx tx' hft).2.1⟩) hexec
  refine ⟨hkeeps, hfailed, hschema, fun hr => ?_⟩
  obtain ⟨tx, tx', htx, hft, htxs⟩ := hset hr
  obtain ⟨hlock, -, hwrites⟩ := hf tx tx' hft
  obtain ⟨rfl, rfl⟩ := hwrites (hcontains tx htx).1 (hcontains tx htx).2
  exact ⟨Contains.set htxs, hlocks.set htxs hschema htx hlock⟩

lemma goes_createVersionTable (hs : Sound calls s) (hk : Knows calls t .locked s) :
    Goes calls t .createVersionTable .locked s := by
  intro fate r s' hexec
  obtain ⟨hcalling, hun, hcontains, hlocks⟩ := hk
  obtain ⟨hkeeps, hfailed, hschema, hset⟩ := hs.statement hcalling hun hlocks hcontains [] []
    (fun tx tx' hf => by cases hf; exact ⟨rfl, rfl, And.intro⟩)
    (some.inj hexec)
  refine ⟨hkeeps, ?_⟩
  cases r with
  | false => exact hfailed
  | true => exact ⟨hfailed.1, hfailed.2.1, (hset rfl).1, hschema ▸ (hset rfl).2⟩

lemma goes_exec (hs : Sound calls s) {n : ℕ} {written : List Migration}
    (hk : Knows calls t (.writing n written) s) (sql : String) :
    Goes calls t (.exec sql) (.writing n written) s := by
  intro fate r s' hexec
  obtain ⟨hcalling, hun, hcontains, hlocks⟩ := hk
  obtain ⟨hkeeps, hfailed, -, hset⟩ := hs.statement hcalling hun hlocks hcontains
    (written.map Migration.row) (written.map Migration.sql ++ [sql])
    (fun tx tx' hf => by cases hf; exact ⟨rfl, rfl, fun hr hs => ⟨hr, hs ▸ rfl⟩⟩)
    (some.inj hexec)
  refine ⟨hkeeps, ?_⟩
  cases r with
  | false => exact hfailed
  | true => exact ⟨hfailed.1, hfailed.2.1, hset rfl⟩

lemma goes_insertVersion (hs : Sound calls s) {n : ℕ} {written : List Migration} {sql : String}
    (hk : Knows calls t (.executed n written sql) s) (version : ℕ) (name : String) :
    Goes calls t (.insertVersion version name) (.executed n written sql) s := by
  intro fate r s' hexec
  obtain ⟨hcalling, hun, hcontains, hlocks⟩ := hk
  obtain ⟨hkeeps, hfailed, -, hset⟩ := hs.statement hcalling hun hlocks hcontains
    ((written ++ [Migration.mk version name sql]).map Migration.row)
    ((written ++ [Migration.mk version name sql]).map Migration.sql)
    (fun tx tx' hf => by
      rw [Tx.insertVersion] at hf
      split at hf
      · cases hf
        exact ⟨rfl, rfl, fun hr hs => ⟨by simp [hr, Migration.row], by simp [hs]⟩⟩
      · cases hf) (Option.some.inj hexec)
  refine ⟨hkeeps, ?_⟩
  cases r with
  | false => exact hfailed
  | true => exact ⟨hfailed.1, hfailed.2.1, hset rfl⟩

lemma goes_readVersionTx (hs : Sound calls s) {g : Phase} (hg : g = .locked ∨ g = .shared)
    (hk : Knows calls t g s) : Goes calls t .readVersionTx g s := by
  intro fate r s' hexec
  have hbasic : Calling t s ∧ Uncommitted t s ∧ Contains t s [] [] := by
    rcases hg with rfl | rfl
    · exact ⟨hk.1, hk.2.1, hk.2.2.1⟩
    · exact hk
  obtain ⟨hcalling, hun, hcontains⟩ := hbasic
  have hsame := (ThreadSystem.Spares.refl (R := Rely) hs).keeps t
  have hfailed : Knows calls t (.seen 0) s := ⟨hcalling, hun, Nat.zero_le _⟩
  have hdropped : Knows calls t (.seen 0) (s.drop t) := hfailed.rely ((hs.drop t).2 t)
  have herror : ∀ e, Phase.after .readVersionTx (.error e) g = .seen 0 := by
    intro e
    rcases hg with rfl | rfl <;> rfl
  simp only [Server.exec] at hexec
  cases htx : hget s.txs t with
  | none =>
    rw [htx] at hexec
    cases hexec
    exact ⟨hsame, herror _ ▸ hfailed⟩
  | some tx =>
    rw [htx] at hexec
    cases fate with
    | failed =>
      cases hexec
      exact ⟨(hs.drop t).keeps t, herror _ ▸ hdropped⟩
    | unanswered =>
      cases hexec
      exact ⟨hsame, herror _ ▸ hfailed⟩
    | done =>
      cases hread : (s.schema.with tx).readVersion with
      | error e =>
        simp only [hread] at hexec
        cases hexec
        exact ⟨(hs.drop t).keeps t, herror _ ▸ hdropped⟩
      | ok n =>
        simp only [hread] at hexec
        cases hexec
        refine ⟨hsame, ?_⟩
        -- The transaction has not written any rows yet.
        have hrows : (s.schema.with tx).rows = s.schema.rows := by
          rw [Schema.with, (hcontains tx htx).1, append_nil]
        have hn : n = s.schema.rows.length := by
          obtain ⟨ms, hms, hrecords⟩ := hs.records
          rw [Schema.readVersion] at hread
          split at hread
          · rw [← Except.ok.inj hread, ← hrecords.maxVersion hms, Schema.maxVersion, hrows]
            rfl
          · cases hread
        rcases hg with rfl | rfl
        · exact ⟨hcalling, hun, hcontains, hn ▸ hk.2.2.2⟩
        · exact ⟨hcalling, hun, hn.le⟩

lemma goes_commit (hagree : Agree calls) (hs : Sound calls s) {ms : List Migration} {n : ℕ}
    (hms : load (calls t).files = .ok ms) (hk : Knows calls t (.writing n (ms.drop n)) s) :
    Goes calls t .commit (.writing n (ms.drop n)) s := by
  intro fate r s' hexec
  obtain ⟨hcalling, hun, hcontains, hlocks⟩ := hk
  have hnone : ∀ c ∈ s.commits, c.call = t → c.answered = false :=
    fun c hc hcall => absurd hcall (hun.commits c hc)
  simp only [Server.exec] at hexec
  cases htx : hget s.txs t with
  | none =>
    rw [htx] at hexec
    cases hexec
    exact ⟨(ThreadSystem.Spares.refl hs).keeps t, hcalling, hnone⟩
  | some tx =>
    rw [htx] at hexec
    have hcomplete : Complete calls t tx s := by
      obtain ⟨hlock, hn⟩ := hlocks tx htx
      exact ⟨ms, hms, hlock, hn ▸ (hcontains tx htx).1, hn ▸ (hcontains tx htx).2⟩
    cases fate with
    | done =>
      cases hexec
      obtain ⟨hkeeps, henough⟩ := hs.commit hagree htx hcomplete true
        fun _ => hcalling.silent
      exact ⟨hkeeps, ⟨hcalling.entered, hcalling.silent⟩, henough⟩
    | failed =>
      cases hexec
      exact ⟨(hs.drop t).keeps t, ⟨hcalling.entered, hcalling.silent⟩, hnone⟩
    | unanswered =>
      cases hexec
      refine ⟨hs.setTx hcalling.entered (hs.fits htx rfl) fun _ => ?_,
        ⟨hcalling.entered, hcalling.silent⟩, hnone⟩
      exact hcomplete

lemma goes_rollback (hs : Sound calls s) {g : Phase} (hk : Knows calls t g s) :
    Goes calls t .rollback g s := by
  intro fate r s' hexec
  simp only [Server.exec, some.injEq, Prod.mk.injEq, true_and] at hexec
  subst hexec
  split
  · exact ⟨(hs.drop t).keeps t, hk.rely ((hs.drop t).2 t)⟩
  · exact ⟨(ThreadSystem.Spares.refl hs).keeps t, hk⟩

lemma Sound.ret (hs : Sound calls s) (hentered : t ∈ s.entered) {result : Except MigrateError Unit}
    (hok : result = .ok () → ∃ ms, load (calls t).files = .ok ms ∧ ms.length ≤ s.schema.rows.length)
    (herror : ∀ e, result = .error e → ∀ c ∈ s.commits, c.call = t → c.answered = false) :
    ThreadSystem.Keeps (Sound calls) Rely t s
      { s with outcomes := s.outcomes ++ [(t, result)] } := by
  refine ⟨{ hs with clean := ?_, succeeded := ?_, failed := ?_ }, fun u hu => ?_⟩
  · intro u hu
    refine ⟨(hs.clean u hu).1, fun o ho => ?_⟩
    rcases mem_append.mp ho with ho | ho
    · exact (hs.clean u hu).2 o ho
    · obtain rfl := mem_singleton.mp ho
      rintro rfl
      exact hu hentered
  · intro u hu
    rcases mem_append.mp hu with hu | hu
    · exact hs.succeeded u hu
    · obtain ⟨rfl, hresult⟩ := Prod.mk.inj (mem_singleton.mp hu)
      exact hok hresult.symm
  · intro u e hu
    rcases mem_append.mp hu with hu | hu
    · exact hs.failed u e hu
    · obtain ⟨rfl, hresult⟩ := Prod.mk.inj (mem_singleton.mp hu)
      exact herror e hresult.symm
  · refine .of_schema rfl (fun _ => id) (List.Subset.refl _) rfl fun o ho hcall => ?_
    rcases mem_append.mp ho with ho | ho
    · exact ho
    · obtain rfl := mem_singleton.mp ho
      exact absurd hcall.symm hu

lemma goes_ret (hs : Sound calls s) {g : Phase} {result : Except MigrateError Unit}
    (hallow : g.Answers (calls t).files result) (hk : Knows calls t g s) :
    Goes calls t (.ret result) g s := by
  intro fate r s' hexec
  cases hexec
  refine ⟨?_, trivial⟩
  match result, g, hallow, hk with
  | .ok _, .committed, _, hk => exact hs.ret hk.1.entered (fun _ => hk.2) nofun
  | .ok _, .seen n, ⟨ms, hms, hle⟩, hk =>
    exact hs.ret hk.1.entered (fun _ => ⟨ms, hms, hle.trans hk.2.2⟩) nofun
  | .error e, .seen n, _, hk =>
    exact hs.ret hk.1.entered (nofun) fun _ _ c hc hcall =>
      absurd hcall (hk.2.1.commits c hc)
  | .error e, .uncertain, _, hk =>
    exact hs.ret hk.1.entered (nofun) fun _ _ => hk.2

end Knowledge

/-! ### Calls follow the phases -/

/-- What a call does, and where it ends. -/
abbrev Follows (files : List (String × String)) {α : Type} (p : Code α) (Q : α → Phase → Prop)
    (g : Phase) : Prop :=
  Prog.Follows (fun i g => g.Allows files i) Phase.after p Q g

section Calls

variable {files : List (String × String)}

lemma follows_applyPending {n : ℕ} (ms written : List Migration) :
    Follows files (applyPending n ms) (fun result g =>
      match result with
      | .ok _ => g = .writing n (written ++ ms.filter fun m => decide (n < m.version))
      | .error _ => g = .seen 0) (.writing n written) := by
  induction ms generalizing written with
  | nil => exact congrArg (Phase.writing n) (append_nil written).symm
  | cons m ms ih =>
    rw [applyPending]
    split
    next hle =>
      rw [filter_cons_of_neg (by simpa using hle)]
      exact ih written
    next hlt =>
      rw [filter_cons_of_pos (by simpa using hlt)]
      refine ⟨⟨n, written, rfl⟩, fun applied => ?_⟩
      cases applied with
      | false => exact rfl
      | true =>
        refine ⟨⟨n, written, m.sql, rfl⟩, fun recorded => ?_⟩
        cases recorded with
        | false => exact rfl
        | true =>
          have h := ih (written ++ [m])
          rw [append_assoc, singleton_append] at h
          exact h

lemma follows_runInTx {ms : List Migration} (hms : load files = .ok ms) :
    Follows files (runInTx ms) (fun result g => g.Answers files result) .opened := by
  refine ⟨rfl, fun locked => ?_⟩
  cases locked with
  | false => exact trivial
  | true =>
    refine ⟨rfl, fun created => ?_⟩
    cases created with
    | false => exact trivial
    | true =>
      refine ⟨.inl rfl, fun read => ?_⟩
      cases read with
      | error e => exact trivial
      | ok current =>
        show Follows files (applyPending current ms >>= _) _ (.writing current [])
        refine (Prog.follows_bind _ _).mpr
          ((follows_applyPending ms []).weaken fun result g hg => ?_)
        cases result with
        | error e =>
          cases hg
          exact trivial
        | ok u =>
          cases hg
          rw [nil_append, filter_version (map_version_of_load hms)]
          refine ⟨⟨ms, current, hms, rfl⟩, fun committed => ?_⟩
          cases committed with
          | false | true => exact trivial

lemma follows_checkInTx {ms : List Migration} (hms : load files = .ok ms) :
    Follows files (checkInTx ms.length) (fun result g => g.Answers files result) .opened := by
  refine ⟨rfl, fun locked => ?_⟩
  cases locked with
  | false => exact trivial
  | true =>
    refine ⟨.inr rfl, fun read => ?_⟩
    cases read with
    | error e => exact trivial
    | ok current =>
      show Phase.Answers files (if current < ms.length then _ else _) (.seen current)
      split
      · exact trivial
      next hle =>
        exact ⟨ms, hms, not_lt.mp hle⟩

lemma follows_withTx {body : Code (Except MigrateError Unit)}
    (hbody : Follows files body (fun result g => g.Answers files result) .opened) (n : ℕ) :
    Follows files (withTx body) (fun result g => g.Answers files result) (.seen n) := by
  refine ⟨⟨n, rfl⟩, fun begun => ?_⟩
  cases begun with
  | false => exact trivial
  | true =>
    show Follows files (body >>= _) _ .opened
    refine .bind (hbody.weaken fun result g hg => ?_)
    exact ⟨⟨result, hg⟩, fun _ => hg⟩

lemma follows_unlessCurrent {body : List Migration → Code (Except MigrateError Unit)}
    (hbody : ∀ ms, load files = .ok ms →
      Follows files (body ms) (fun result g => g.Answers files result) .opened) :
    Follows files (unlessCurrent files body) (fun result g => g.Answers files result) (.seen 0):= by
  unfold unlessCurrent
  cases hms : load files with
  | error e => exact trivial
  | ok ms =>
    refine ⟨⟨0, rfl⟩, fun read => ?_⟩
    match read with
    | .ok current =>
      show Follows files (if ms.length ≤ current then _ else _) _ (.seen current)
      split
      next hle =>
        exact ⟨ms, hms, hle⟩
      · exact follows_withTx (hbody ms hms) current
    | .error .schemaMissing => exact follows_withTx (hbody ms hms) 0
    | .error (.badName _) | .error (.notContiguous ..) | .error .readVersion
    | .error (.schemaBehind ..) | .error .beginFailed | .error .lockFailed | .error .createFailed
    | .error (.applyFailed ..) | .error (.recordFailed ..) | .error .commitFailed =>
      exact trivial

lemma follows_code (call : Call) :
    Follows call.files call.code (fun _ _ => True) .start := by
  have hbody : Follows call.files call.body (fun result g => g.Answers call.files result)
      (.seen 0) := by
    unfold Call.body
    split
    · exact follows_unlessCurrent fun ms hms => follows_checkInTx hms
    · exact follows_unlessCurrent fun ms hms => follows_runInTx hms
  refine ⟨rfl, fun _ => ?_⟩
  show Follows call.files (call.body >>= _) _ (.seen 0)
  exact .bind (hbody.weaken fun result g hg => ⟨hg, fun _ => trivial⟩)

end Calls

/-! ### All runs -/

section Runs

variable {calls : ℕ → Call}

lemma goes (hagree : Agree calls) {t : ℕ} {s : Server} {i : Statement} {g : Phase}
    (hallow : g.Allows (calls t).files i) (hk : Knows calls t g s) (hs : Sound calls s) :
    Goes calls t i g s := by
  cases i with
  | enter =>
    obtain rfl : g = .start := hallow
    exact goes_enter hs hk
  | readVersion =>
    obtain ⟨n, rfl⟩ := hallow
    exact goes_readVersion hs hk
  | begin =>
    obtain ⟨n, rfl⟩ := hallow
    exact goes_begin hs hk
  | lock mode =>
    obtain rfl : g = .opened := hallow
    exact goes_lock hs hk mode
  | createVersionTable =>
    obtain rfl : g = .locked := hallow
    exact goes_createVersionTable hs hk
  | readVersionTx => exact goes_readVersionTx hs hallow hk
  | exec sql =>
    obtain ⟨n, written, rfl⟩ := hallow
    exact goes_exec hs hk sql
  | insertVersion version name =>
    obtain ⟨n, written, sql, rfl⟩ := hallow
    exact goes_insertVersion hs hk version name
  | commit =>
    obtain ⟨ms, n, hms, rfl⟩ := hallow
    exact goes_commit hagree hs hms hk
  | rollback => exact goes_rollback hs hk
  | ret result => exact goes_ret hs hallow hk

lemma Sound.env (hagree : Agree calls) {s s' : Server} (hs : Sound calls s) {e : MigrateEnv}
    (h : (migrateSystem calls).env e s = some s') :
    ThreadSystem.Spares (Sound calls) Rely s s' := by
  cases e with
  | crash t =>
    cases h
    exact .refl hs
  | endTx t =>
    cases h
    exact hs.drop t
  | lateCommit t =>
    simp only [migrateSystem] at h
    split at h
    · cases h
    next tx htx =>
      split at h
      next hcommitting =>
        cases h
        obtain ⟨⟨hsound, hothers⟩, -⟩ := hs.commit hagree htx (hs.pending t tx htx hcommitting)
          false (by rintro ⟨⟩)
        refine ⟨hsound, fun u => ?_⟩
        by_cases hu : u = t
        · subst hu
          refine ⟨fun tx' htx' => absurd rfl (hget_of_hdel htx').1, prefix_append _ _, id,
            fun c hc _ => ?_, fun o ho _ => ho⟩
          rcases mem_append.mp hc with hc | hc
          · exact .inl hc
          · obtain rfl := mem_singleton.mp hc
            exact .inr ⟨rfl, tx, htx, hcommitting⟩
        · exact hothers u hu
      · cases h

lemma reachable_safe (hagree : Agree calls) {P : Pool Statement Statement.Reply ℕ Server}
    (h : (migrateSystem calls).Reachable .free .initial P) : Sound calls P.state ∧
      ∀ t, (migrateSystem calls).ThreadSafe .free (Sound calls) Rely (fun _ _ _ => True)
        (fun _ _ => True) t P.state (P.prog t) := by
  refine And.imp_right And.left (ThreadSystem.Reachable.safe (fun _ _ _ _ _ => trivial)
    ⟨Sound.initial, fun _ => trivial⟩ ?_ ?_ h)
  · intro t o s hs _ _ hstart
    have hnew : t ∉ s.entered := by simpa [migrateSystem] using hstart
    have hknows : Knows calls t .start s := by
      refine ⟨(hs.clean t hnew).2, (hs.clean t hnew).1, fun tx htx => ?_⟩
      exact absurd (hs.running t tx htx) hnew
    refine ((follows_code (calls t)).safe (A := Knows calls t) ?_ ?_ hknows).weaken
      fun _ _ _ => trivial
    · exact fun g s s' hk hR => hk.rely hR
    · intro i g s₁ fate r s₂ hallow hk hs₁ _ hexec
      exact ⟨trivial, goes hagree hallow hk hs₁ fate r s₂ hexec⟩
  · intro e s s' hs _ henv
    obtain ⟨hsound, hrely⟩ := hs.env hagree henv
    refine ⟨hsound, fun t => ?_⟩
    split
    · exact trivial
    · exact hrely t

lemma rows_step (hagree : Agree calls) {P P' : Pool Statement Statement.Reply ℕ Server}
    (hP : (migrateSystem calls).Reachable .free .initial P)
    (h : (migrateSystem calls).Step .free P P') :
    P.state.schema.rows <+: P'.state.schema.rows := by
  obtain ⟨hs, hsafe⟩ := reachable_safe hagree hP
  obtain ⟨l, -, hnext⟩ := h
  cases l with
  | start t o =>
    obtain ⟨-, -, rfl⟩ := next_start hnext
    exact prefix_refl _
  | act t c =>
    -- the other calls rely on it
    obtain ⟨i, k, r, s, hprog, hexec, rfl⟩ := next_act hnext
    have ht := hsafe t
    rw [hprog] at ht
    obtain ⟨-, hkeeps, -⟩ := ht P.state c r s (refl_of (Rely t) _) hs trivial hexec
    exact (hkeeps.2 (t + 1) (Nat.succ_ne_self t)).grown
  | finish t =>
    obtain ⟨a, -, rfl⟩ := next_finish hnext
    exact prefix_refl _
  | env e =>
    obtain ⟨s, henv, rfl⟩ := map_eq_some_iff.mp hnext
    exact ((hs.env hagree henv).2 0).grown

/-- In every interleaving of any calls of `Run` and `Check`, of binaries that agree on the
migrations they have in common, whatever fails, dies or is not answered: the SQL that has taken
effect is that of the first `n` migrations, each of them once and in their order, and the recorded
versions are `1` to `n`; only commits change the schema, and each of them adds all that its call
wanted; a call that fails has not committed anything, unless the answer was lost; rows are never
removed; and a call returns `nil` only if all its migrations are there. -/
theorem migrations_run_once (hagree : Agree calls)
    {P : Pool Statement Statement.Reply ℕ Server}
    (h : (migrateSystem calls).Reachable .free .initial P) :
    (∃ ms, (ms = [] ∨ ∃ t, load (calls t).files = .ok ms) ∧
      P.state.schema.applied = ms.map Migration.sql ∧
      P.state.schema.rows = ms.map Migration.row ∧
      P.state.schema.rows.map Prod.fst = List.range' 1 ms.length) ∧
    Linked .empty P.state.commits P.state.schema ∧
    (∀ c ∈ P.state.commits, ∃ ms, load (calls c.call).files = .ok ms ∧
      ms.length ≤ c.after.rows.length) ∧
    (∀ t e, (t, .error e) ∈ P.state.outcomes →
      ∀ c ∈ P.state.commits, c.call = t → c.answered = false) ∧
    (∀ t, (t, .ok ()) ∈ P.state.outcomes → ∃ ms, load (calls t).files = .ok ms ∧
      ms.length ≤ P.state.schema.rows.length) ∧
    ∀ P', (migrateSystem calls).Step .free P P' →
      P.state.schema.rows <+: P'.state.schema.rows := by
  obtain ⟨hs, -⟩ := reachable_safe hagree h
  obtain ⟨ms, hms, hrecords⟩ := hs.records
  refine ⟨⟨ms, hms, hrecords.applied, hrecords.rows, ?_⟩, hs.chain, hs.whole, hs.failed,
    hs.succeeded, fun P' => rows_step hagree h⟩
  rw [hrecords.rows, List.map_map]
  exact hms.versions

end Runs

/-- The files of an old binary, and those of a new one. -/
def oldFiles : List (String × String) := [("0001_initial_schema.sql", "A")]

def newFiles : List (String × String) := oldFiles ++ [("0002_more.sql", "B")]

/-- The old binary and the new one start, and later the new one checks the schema. -/
def twoBinaries : ℕ → Call
  | 0 => ⟨false, oldFiles⟩
  | 1 => ⟨false, newFiles⟩
  | _ => ⟨true, newFiles⟩

/-- Both find no version table and begin a transaction.  The old binary gets the lock, its `COMMIT`
is not answered, and it dies; the commit takes effect.  Then the new binary gets the lock. -/
def upgradeRun : List (Label ℕ Fate Unit MigrateEnv) :=
  [.start 0 (), .start 1 (), .act 0 .done, .act 1 .done, .act 0 .done, .act 1 .done, .act 0 .done,
    .act 1 .done, .act 0 .done, .act 1 .done, .act 0 .done, .act 0 .done, .act 0 .done,
    .act 0 .done, .act 0 .unanswered, .env (.crash 0), .act 1 .done, .env (.lateCommit 0),
    .act 1 .done, .act 1 .done, .act 1 .done, .act 1 .done, .act 1 .done, .act 1 .done,
    .act 1 .done, .act 1 .done, .start 2 (), .act 2 .done, .act 2 .done, .act 2 .done]

lemma twoBinaries_agree : Agree twoBinaries := by
  have hload : ∀ t ms, load (twoBinaries t).files = .ok ms →
      ms = [⟨1, "initial_schema", "A"⟩] ∨
      ms = [⟨1, "initial_schema", "A"⟩, ⟨2, "more", "B"⟩] := by
    have hold : load oldFiles = .ok [⟨1, "initial_schema", "A"⟩] := by rfl
    have hnew : load newFiles = .ok [⟨1, "initial_schema", "A"⟩, ⟨2, "more", "B"⟩] := by rfl
    intro t ms hms
    match t with
    | 0 => exact .inl (Except.ok.inj (hms.symm.trans hold))
    | 1 | t + 2 => exact .inr (Except.ok.inj (hms.symm.trans hnew))
  intro t u ms ms' hms hms'
  rcases hload t ms hms with rfl | rfl <;> rcases hload u ms' hms' with rfl | rfl
  · exact .inl (prefix_refl _)
  · exact .inl ⟨_, rfl⟩
  · exact .inr ⟨_, rfl⟩
  · exact .inl (prefix_refl _)

/-- After this run both migrations are there, once. -/
theorem upgradeRun_once :
    let P := (migrateSystem twoBinaries).run (idle .initial) upgradeRun
    P.state.schema = ⟨true, [(1, "initial_schema"), (2, "more")], ["A", "B"]⟩ ∧
    P.state.commits.map (fun c => (c.call, c.answered)) = [(0, false), (1, true)] ∧
    Linked .empty P.state.commits P.state.schema ∧
    ∃ ms, load (twoBinaries 2).files = .ok ms ∧ ms.length ≤ P.state.schema.rows.length := by
  intro P
  have hstate : P.state.schema = ⟨true, [(1, "initial_schema"), (2, "more")], ["A", "B"]⟩ ∧
      P.state.commits.map (fun c => (c.call, c.answered)) = [(0, false), (1, true)] := by
    decide +kernel
  have hreturned : (2, .ok ()) ∈ P.state.outcomes := by
    have houtcomes : P.state.outcomes = [(1, .ok ()), (2, .ok ())] := by rfl
    rw [houtcomes]
    exact mem_cons_of_mem _ mem_cons_self
  obtain ⟨-, hlinked, -, -, hok, -⟩ := migrations_run_once twoBinaries_agree
    (reachable_run (migrateSystem twoBinaries) .initial upgradeRun)
  exact ⟨hstate.1, hstate.2, hlinked, hok 2 hreturned⟩

end LlmdAsync.Migrate
