import LlmdAsync.SqlQueue.Fencing

/-!
# A batched `Ack` and single ones

`Ack` sends at most one completion per key to the database, the first one with the largest attempt,
and reports for each completion of the call whether its result was recorded.  On completions of
attempts that were handed out, this is the same as acknowledging one after the other.

The reason is that a stamped row carries the last attempt drawn for it (`RowInvariant.isGreatest`),
so dropping completions with smaller attempts loses nothing.  Of several completions with this
attempt, the loop keeps the first, and so do calls in a row, because the first one deletes the row.
-/

namespace LlmdAsync.SqlQueue

open List Option Table Database ResultRow Prod

/-- What a result says, without the sequence number and the time of its insertion. -/
structure ResultRecord where
  route : String
  key : Key
  payload : String
  expiresAt : ℤ
deriving DecidableEq, Repr

/-- The record of a stored result. -/
def ResultRow.record (r : ResultRow) : ResultRecord := ⟨r.route, r.key, r.payload, r.expiresAt⟩

/-- The record a completion asks for. -/
def Completion.record (c : Completion) : ResultRecord := ⟨c.route, c.key, c.payload, c.expiresAt⟩

/-- The completions of a call whose flag is set. -/
def flagged (cs : List Completion) (flags : List Bool) : List Completion :=
  ((cs.zip flags).filter Prod.snd).map Prod.fst

namespace Database

/-- `Ack` on each completion alone, in list order, at the given times. -/
def ackEach (db : Database) (owner : String) : List (Completion × ℤ) → List Bool × Database
  | [] => ([], db)
  | (c, createdAt) :: cts =>
    let first := db.ack owner [c] createdAt
    let rest := first.2.ackEach owner cts
    (first.1 ++ rest.1, rest.2)

/-- The completion deletes the row of its key. -/
def acks (db : Database) (owner : String) (c : Completion) : Bool :=
  (db.requests.get? c.key).any (db.completes owner c)

/-- The completion at position `i` deletes the row of its key, and none before it does. -/
def AcksFirst (db : Database) (owner : String) (cs : List Completion) (i : ℕ) : Prop :=
  ∃ c, cs[i]? = some c ∧ db.acks owner c = true ∧
    ∀ j < i, ∀ c', cs[j]? = some c' → c'.key = c.key → db.acks owner c' = false

variable {db : Database} {owner : String} {cs : List Completion} {c c' : Completion}
  {createdAt : ℤ}

/-! ### The completions that are kept -/

variable {i : ℕ} {u : Completion × ℕ} {cts : List (Completion × ℤ)}

lemma uniqueCompletions_concat :
    uniqueCompletions (cs ++ [c]) = keepLargest (uniqueCompletions cs) (c, cs.length) := by
  rw [uniqueCompletions, zipIdx_append, foldl_append, Nat.zero_add]
  rfl

lemma getElem?_of_mem_uniqueCompletions (h : (c, i) ∈ uniqueCompletions cs) :
    cs[i]? = some c :=
  mem_zipIdx_iff_getElem?.mp (mem_uniqueCompletions h)

lemma eq_of_mem_uniqueCompletions {v : Completion × ℕ} (hu : u ∈ uniqueCompletions cs)
    (hv : v ∈ uniqueCompletions cs) (hkey : u.1.key = v.1.key) : u = v := by
  have hnd := nodup_uniqueCompletions cs
  rw [List.map_map] at hnd
  exact List.inj_on_of_nodup_map hnd hu hv hkey

lemma le_of_mem_uniqueCompletions (hu : u ∈ uniqueCompletions cs) (hc : c ∈ cs)
    (hkey : c.key = u.1.key) : c.attempt ≤ u.1.attempt := by
  obtain ⟨v, hv, hkey', hle⟩ := exists_uniqueCompletions_ge hc
  rw [eq_of_mem_uniqueCompletions hu hv (hkey.symm.trans hkey'.symm)]
  exact hle

lemma lt_of_mem_uniqueCompletions {j : ℕ} (h : (c, i) ∈ uniqueCompletions cs) (hlt : j < i)
    (hj : cs[j]? = some c') (hkey : c'.key = c.key) : c'.attempt < c.attempt := by
  induction cs using reverseRecOn with
  | nil => cases hj
  | append_singleton cs d ih =>
    -- a completion that was kept before lies in the shorter list, and so does everything before it
    have hold : (c, i) ∈ uniqueCompletions cs → c'.attempt < c.attempt := by
      intro hmem
      obtain ⟨hi, -⟩ := List.getElem?_eq_some_iff.mp (getElem?_of_mem_uniqueCompletions hmem)
      rw [List.getElem?_append_left (hlt.trans hi)] at hj
      exact ih hmem hj
    have hnew : i = cs.length → c' ∈ cs := by
      rintro rfl
      rw [getElem?_append_left hlt] at hj
      exact mem_of_getElem? hj
    rw [uniqueCompletions_concat, keepLargest] at h
    split at h
    · obtain ⟨v, hv, heq⟩ := mem_map.mp h
      split at heq
      next hvkey =>
        split at heq
        next hvlt =>
          cases heq
          exact (le_of_mem_uniqueCompletions hv (hnew rfl) (hkey.trans hvkey.symm)).trans_lt hvlt
        · exact hold (heq ▸ hv)
      · exact hold (heq ▸ hv)
    next hany =>
      rcases mem_append.mp h with hmem | hmem
      · exact hold hmem
      · cases mem_singleton.mp hmem
        obtain ⟨u, hu, hukey, -⟩ := exists_uniqueCompletions_ge (hnew rfl)
        refine absurd (any_eq_true.mpr ⟨u, hu, ?_⟩) hany
        rw [decide_eq_true_eq]
        exact hukey.trans hkey

/-! ### What a call records -/

lemma acks_iff : db.acks owner c = true ↔
    ∃ r, db.requests.get? c.key = some r ∧ db.completes owner c r = true :=
  any_eq_true ..

lemma acks_congr (hkey : c.key = c'.key) (hattempt : c.attempt = c'.attempt) :
    db.acks owner c = db.acks owner c' := by
  unfold acks completes
  rw [hkey, hattempt]

lemma mem_doneCompletions {input : List Completion} (hnd : (input.map Completion.key).Nodup) :
    c ∈ db.doneCompletions owner input ↔ c ∈ input ∧ db.acks owner c = true := by
  rw [doneCompletions, mem_flatMap]
  constructor
  · rintro ⟨r, hr, hc⟩
    obtain ⟨hmem, hany⟩ := List.mem_filter.mp hr
    obtain ⟨hin, hkey⟩ := List.mem_filter.mp hc
    obtain ⟨v, hv, hvr⟩ := any_eq_true.mp hany
    rw [decide_eq_true_eq] at hkey
    have hvkey : v.key = c.key := (completes_iff.mp hvr).1.symm.trans hkey.symm
    have hveq : v = c := inj_on_of_nodup_map hnd hv hin hvkey
    refine ⟨hin, acks_iff.mpr ⟨r, get?_eq_some.mpr ⟨hmem, hkey.symm⟩, ?_⟩⟩
    rw [← hveq]
    exact hvr
  · rintro ⟨hin, hacks⟩
    obtain ⟨r, hr, hcr⟩ := acks_iff.mp hacks
    refine ⟨r, List.mem_filter.mpr ⟨mem_of_get? hr, List.any_eq_true.mpr ⟨c, hin, hcr⟩⟩,
      mem_filter.mpr ⟨hin, ?_⟩⟩
    rw [decide_eq_true_eq]
    exact (key_of_get? hr).symm

lemma nodup_map_key_doneCompletions {input : List Completion}
    (hnd : (input.map Completion.key).Nodup) :
    ((db.doneCompletions owner input).map Completion.key).Nodup := by
  rw [map_key_doneCompletions hnd]
  exact db.requests.nodup.sublist (filter_sublist.map _)

lemma map_record_ackResults :
    ((db.ackResults owner cs createdAt).map snd).map record =
      (db.doneCompletions owner ((uniqueCompletions cs).map fst)).map Completion.record := by
  rw [ackResults, List.map_map, List.map_map]
  conv_rhs => rw [← List.zipIdx_map_fst 0 (db.doneCompletions _ _), List.map_map]
  rfl

lemma map_key_ackResults :
    ((db.ackResults owner cs createdAt).map snd).map key =
      (db.doneCompletions owner ((uniqueCompletions cs).map fst)).map Completion.key := by
  rw [ackResults, List.map_map, List.map_map]
  conv_rhs => rw [← List.zipIdx_map_fst 0 (db.doneCompletions _ _), List.map_map]
  rfl

lemma any_key_ackResults (hu : u ∈ uniqueCompletions cs) :
    (((db.ackResults owner cs createdAt).map snd).any fun r => r.key = u.1.key) =
      db.acks owner u.1 := by
  have hmem : u.1.key ∈ ((db.ackResults owner cs createdAt).map snd).map key ↔
      db.acks owner u.1 = true := by
    rw [map_key_ackResults, List.mem_map]
    constructor
    · rintro ⟨c, hc, hkey⟩
      obtain ⟨hin, hacks⟩ := (mem_doneCompletions (nodup_uniqueCompletions cs)).mp hc
      obtain ⟨v, hv, rfl⟩ := List.mem_map.mp hin
      rwa [eq_of_mem_uniqueCompletions hu hv hkey.symm]
    · intro hacks
      exact ⟨u.1, (mem_doneCompletions (nodup_uniqueCompletions cs)).mpr
        ⟨List.mem_map_of_mem hu, hacks⟩, rfl⟩
  rw [Bool.eq_iff_iff, ← hmem, List.any_eq_true, List.mem_map]
  simp only [decide_eq_true_eq]

lemma length_ack : (db.ack owner cs createdAt).1.length = cs.length := by
  rw [ack, length_map, length_range]

lemma getElem?_ack :
    (db.ack owner cs createdAt).1[i]? = some true ↔
      ∃ c, (c, i) ∈ uniqueCompletions cs ∧ db.acks owner c = true := by
  constructor
  · intro h
    have hi : i < cs.length := by
      rw [← length_ack]
      exact (List.getElem?_eq_some_iff.mp h).1
    rw [ack, List.getElem?_map, List.getElem?_range hi, map_some, some.injEq, List.any_eq_true] at h
    obtain ⟨⟨c, j⟩, hu, hflag⟩ := h
    rw [Bool.and_eq_true, decide_eq_true_eq] at hflag
    obtain ⟨rfl, hany⟩ := hflag
    rw [any_key_ackResults hu] at hany
    exact ⟨c, hu, hany⟩
  · rintro ⟨c, hu, hacks⟩
    have hi : i < cs.length :=
      (List.getElem?_eq_some_iff.mp (getElem?_of_mem_uniqueCompletions hu)).1
    rw [ack, getElem?_map, getElem?_range hi, map_some, some.injEq, List.any_eq_true]
    refine ⟨(c, i), hu, ?_⟩
    rw [any_key_ackResults hu, hacks, Bool.and_true, decide_eq_true_eq]

/-! ### One after the other -/

lemma doneCompletions_singleton :
    db.doneCompletions owner [c] = if db.acks owner c then [c] else [] := by
  have hnd : ([c].map Completion.key).Nodup := nodup_singleton _
  have hmem : ∀ d, d ∈ db.doneCompletions owner [c] ↔ d = c ∧ db.acks owner d = true := by
    intro d
    rw [mem_doneCompletions hnd, mem_singleton]
  by_cases hacks : db.acks owner c = true
  · rw [if_pos hacks, ← perm_singleton]
    refine (perm_ext_iff_of_nodup (nodup_map_key_doneCompletions hnd).of_map
      (nodup_singleton c)).mpr fun d => ?_
    rw [hmem, mem_singleton]
    exact ⟨fun h => h.1, fun h => ⟨h, h ▸ hacks⟩⟩
  · rw [if_neg hacks, eq_nil_iff_forall_not_mem]
    intro d hd
    obtain ⟨heq, hd⟩ := (hmem d).mp hd
    exact hacks (heq ▸ hd)

lemma ack_singleton (db : Database) (owner : String) (c : Completion) (createdAt : ℤ) :
    (db.ack owner [c] createdAt).1 = [db.acks owner c] ∧
      (db.ack owner [c] createdAt).2.requests =
        db.requests.filter (fun r => !db.completes owner c r) ∧
      (db.ack owner [c] createdAt).2.partitions = db.partitions ∧
      (db.ack owner [c] createdAt).2.results.map record =
        db.results.map record ++ if db.acks owner c then [c.record] else [] := by
  have hmem : (c, 0) ∈ uniqueCompletions [c] := mem_singleton_self _
  have hany : ((db.ackResults owner [c] createdAt).map snd).any (fun r => r.key = c.key) =
      db.acks owner c := any_key_ackResults hmem
  refine ⟨?_, ?_, rfl, ?_⟩
  · show [(true && _) || false] = [db.acks owner c]
    rw [Bool.true_and, Bool.or_false, hany]
  · show db.requests.filter (fun r => !(db.completes owner c r || false)) = _
    simp only [Bool.or_false]
  · show (db.results ++ (db.ackResults owner [c] createdAt).map snd).map _ = _
    rw [map_append, map_record_ackResults]
    show _ ++ (db.doneCompletions owner [c]).map _ = _
    rw [doneCompletions_singleton]
    split <;> rfl

lemma acks_after_singleton :
    (db.ack owner [c] createdAt).2.acks owner c' =
      (db.acks owner c' && !(db.acks owner c && decide (c'.key = c.key))) := by
  obtain ⟨-, hreq, hpart, -⟩ := ack_singleton db owner c createdAt
  have hcompletes : (db.ack owner [c] createdAt).2.completes owner c' =
      db.completes owner c' := by
    funext r
    unfold completes partitionOfRow
    rw [hpart]
  rw [acks, hreq, get?_filter, hcompletes]
  unfold acks
  cases hrow : db.requests.get? c'.key with
  | none => rfl
  | some r =>
    by_cases hkey : c'.key = c.key
    · rw [← hkey, hrow]
      by_cases hc : db.completes owner c r = true
      · simp [hc]
      · simp [hc]
    · have hne : db.completes owner c r = false := by
        rw [Bool.eq_false_iff]
        intro hc
        exact hkey ((key_of_get? hrow).symm.trans (completes_iff.mp hc).1)
      simp [hne, hkey]

lemma completes_after_singleton :
    (db.ack owner [c] createdAt).2.completes owner = db.completes owner := by
  obtain ⟨-, -, hpart, -⟩ := ack_singleton db owner c createdAt
  funext c' r
  unfold completes partitionOfRow
  rw [hpart]

lemma acksFirst_cons :
    db.AcksFirst owner (c :: cs) (i + 1) ↔ (db.ack owner [c] createdAt).2.AcksFirst owner cs i:= by
  unfold AcksFirst
  constructor
  · rintro ⟨d, hd, hacks, hfirst⟩
    refine ⟨d, hd, ?_, fun j hj d' hd' hkey => ?_⟩
    · rw [acks_after_singleton, hacks, Bool.true_and, Bool.not_eq_true', Bool.and_eq_false_iff]
      by_cases hkey : d.key = c.key
      · exact .inl (hfirst 0 (Nat.succ_pos i) c rfl hkey.symm)
      · exact .inr (decide_eq_false hkey)
    · rw [acks_after_singleton, hfirst (j + 1) (Nat.succ_lt_succ hj) d' hd' hkey, Bool.false_and]
  · rintro ⟨d, hd, hacks, hfirst⟩
    rw [acks_after_singleton, Bool.and_eq_true, Bool.not_eq_true', Bool.and_eq_false_iff] at hacks
    obtain ⟨hacks, hhead⟩ := hacks
    refine ⟨d, hd, hacks, fun j hj d' hd' hkey => ?_⟩
    cases j with
    | zero =>
      cases hd'
      exact hhead.resolve_right (by rw [decide_eq_false_iff_not, not_not]; exact hkey.symm)
    | succ j =>
      have hlater := hfirst j (Nat.lt_of_succ_lt_succ hj) d' hd' hkey
      rw [acks_after_singleton, Bool.and_eq_false_iff, Bool.not_eq_false', Bool.and_eq_true,
        decide_eq_true_eq] at hlater
      refine hlater.resolve_right fun hc => ?_
      rcases hhead with hhead | hhead
      · rw [hc.1] at hhead
        cases hhead
      · exact of_decide_eq_false hhead (hkey.symm.trans hc.2)

lemma getElem?_ackEach :
    (db.ackEach owner cts).1[i]? = some true ↔ db.AcksFirst owner (cts.map fst) i:= by
  induction cts generalizing db i with
  | nil =>
    constructor
    · intro h
      cases h
    · rintro ⟨c, hc, -⟩
      cases hc
  | cons ct cts ih =>
    obtain ⟨c, createdAt⟩ := ct
    obtain ⟨hflag, -⟩ := ack_singleton db owner c createdAt
    rw [ackEach, hflag, singleton_append, map_cons]
    cases i with
    | zero =>
      rw [getElem?_cons_zero, some.injEq]
      constructor
      · exact fun hacks => ⟨c, rfl, hacks, fun j hj => absurd hj (Nat.not_lt_zero j)⟩
      · rintro ⟨d, hd, hacks, -⟩
        cases hd
        exact hacks
    | succ i =>
      rw [getElem?_cons_succ, ih]
      exact acksFirst_cons.symm

lemma length_ackEach :
    (db.ackEach owner cts).1.length = cts.length := by
  induction cts generalizing db with
  | nil => rfl
  | cons ct cts ih =>
    obtain ⟨c, createdAt⟩ := ct
    rw [ackEach, length_append, ih, length_ack, length_singleton, length_cons, Nat.add_comm]

lemma requests_ackEach :
    (db.ackEach owner cts).2.requests =
      db.requests.filter fun r => !(cts.map fst).any (db.completes owner · r) := by
  induction cts generalizing db with
  | nil => exact (filter_true db.requests).symm
  | cons ct cts ih =>
    obtain ⟨c, createdAt⟩ := ct
    obtain ⟨-, hreq, -⟩ := ack_singleton db owner c createdAt
    show ((db.ack owner [c] createdAt).2.ackEach owner cts).2.requests = _
    rw [ih, hreq, completes_after_singleton, Table.filter_filter]
    refine filter_congr fun r _ => ?_
    rw [map_cons, any_cons, Bool.not_or, Bool.and_comm]

lemma results_ackEach :
    (db.ackEach owner cts).2.results.map record = db.results.map record ++
        (flagged (cts.map fst) (db.ackEach owner cts).1).map Completion.record := by
  induction cts generalizing db with
  | nil => exact (append_nil _).symm
  | cons ct cts ih =>
    obtain ⟨c, createdAt⟩ := ct
    obtain ⟨hflag, -, -, hres⟩ := ack_singleton db owner c createdAt
    show ((db.ack owner [c] createdAt).2.ackEach owner cts).2.results.map _ = _
    rw [ih, hres, ackEach, hflag, append_assoc]
    congr 1
    rw [singleton_append, map_cons]
    unfold flagged
    rw [zip_cons_cons, filter_cons]
    show _ = List.map Completion.record (List.map fst (if db.acks owner c then _ else _))
    split <;> rfl

/-! ### The comparison -/

/-- No completion names an attempt beyond the stamp of its row. -/
def NoneAhead (db : Database) (cs : List Completion) : Prop :=
  ∀ c ∈ cs, ∀ r, db.requests.get? c.key = some r → 0 < r.dispatchEpoch →
    c.attempt ≤ r.dispatchAttempt

lemma NoneAhead.exists_kept (h : db.NoneAhead cs) (hc : c ∈ cs) {r : RequestRow}
    (hrow : db.requests.get? c.key = some r) (hcr : db.completes owner c r = true) :
    ∃ u ∈ uniqueCompletions cs, u.1.key = c.key ∧ u.1.attempt = c.attempt := by
  obtain ⟨-, hpos, hattempt, -⟩ := completes_iff.mp hcr
  obtain ⟨u, hu, hkey, hle⟩ := exists_uniqueCompletions_ge hc
  have humem : u.1 ∈ cs := mem_of_mem_uniqueCompletions (mem_map_of_mem hu)
  have hge : u.1.attempt ≤ r.dispatchAttempt := h u.1 humem r (hkey ▸ hrow) hpos
  exact ⟨u, hu, hkey, le_antisymm (hattempt ▸ hge) hle⟩

lemma NoneAhead.getElem?_ack_iff (h : db.NoneAhead cs) :
    (db.ack owner cs createdAt).1[i]? = some true ↔ db.AcksFirst owner cs i := by
  rw [getElem?_ack]
  constructor
  · rintro ⟨c, hu, hacks⟩
    refine ⟨c, getElem?_of_mem_uniqueCompletions hu, hacks, fun j hj c' hc' hkey => ?_⟩
    have hlt := lt_of_mem_uniqueCompletions hu hj hc' hkey
    rw [Bool.eq_false_iff]
    intro hacks'
    obtain ⟨r, hr, hcr⟩ := acks_iff.mp hacks
    obtain ⟨r', hr', hcr'⟩ := acks_iff.mp hacks'
    have hsame : r' = r := some.inj (hr'.symm.trans (hkey ▸ hr))
    have hattempt := (completes_iff.mp hcr).2.2.1
    have hattempt' := (completes_iff.mp hcr').2.2.1
    rw [hsame, hattempt] at hattempt'
    exact absurd hattempt'.symm hlt.ne
  · rintro ⟨c, hc, hacks, hfirst⟩
    obtain ⟨r, hr, hcr⟩ := acks_iff.mp hacks
    obtain ⟨⟨d, j⟩, hu, hkey, hattempt⟩ := h.exists_kept (mem_of_getElem? hc) hr hcr
    have hj : cs[j]? = some d := getElem?_of_mem_uniqueCompletions hu
    have hdacks : db.acks owner d = true := by
      rw [acks_congr hkey hattempt]
      exact hacks
    -- the kept completion is neither before nor after the first one that deletes the row
    have hji : j = i := by
      rcases lt_trichotomy j i with hlt | heq | hgt
      · rw [hfirst j hlt d hj hkey] at hdacks
        cases hdacks
      · exact heq
      · exact absurd hattempt (lt_of_mem_uniqueCompletions hu hgt hc hkey.symm).ne'
    subst hji
    exact ⟨d, hu, hdacks⟩

lemma flags_ext {l l' : List Bool} (hlen : l.length = l'.length)
    (h : ∀ i : ℕ, l[i]? = some true ↔ l'[i]? = some true) : l = l' := by
  refine ext_getElem hlen fun i hi hi' => ?_
  have hiff := h i
  rw [getElem?_eq_getElem hi, getElem?_eq_getElem hi', some.injEq, some.injEq] at hiff
  exact Bool.eq_iff_iff.mpr hiff

lemma NoneAhead.requests_ack (h : db.NoneAhead cs) :
    (db.ack owner cs createdAt).2.requests =
      db.requests.filter fun r => !cs.any (db.completes owner · r) := by
  refine filter_congr fun r hr => congrArg (!·) (Bool.eq_iff_iff.mpr ?_)
  rw [List.any_eq_true, List.any_eq_true]
  constructor
  · rintro ⟨c, hc, hcr⟩
    exact ⟨c, mem_of_mem_uniqueCompletions hc, hcr⟩
  · rintro ⟨c, hc, hcr⟩
    have hrow : db.requests.get? c.key = some r :=
      get?_eq_some.mpr ⟨hr, (completes_iff.mp hcr).1⟩
    obtain ⟨u, hu, hkey, hattempt⟩ := h.exists_kept hc hrow hcr
    refine ⟨u.1, mem_map_of_mem hu, ?_⟩
    unfold completes at hcr ⊢
    rwa [hkey, hattempt]

lemma mem_flagged {flags : List Bool} :
    c ∈ flagged cs flags ↔ ∃ i : ℕ, cs[i]? = some c ∧ flags[i]? = some true := by
  rw [flagged, List.mem_map]
  constructor
  · rintro ⟨⟨d, b⟩, hmem, rfl⟩
    obtain ⟨hzip, hb⟩ := List.mem_filter.mp hmem
    obtain ⟨i, hi⟩ := mem_iff_getElem?.mp hzip
    rw [getElem?_zip_eq_some] at hi
    exact ⟨i, hi.1, hb ▸ hi.2⟩
  · rintro ⟨i, hc, hflag⟩
    exact ⟨(c, true), mem_filter.mpr
      ⟨mem_of_getElem? (getElem?_zip_eq_some.mpr ⟨hc, hflag⟩), rfl⟩, rfl⟩

lemma nodup_flagged {flags : List Bool}
    (h : ∀ i : ℕ, flags[i]? = some true ↔ db.AcksFirst owner cs i) :
    ((flagged cs flags).map Completion.key).Nodup := by
  rw [flagged, List.map_map, List.Nodup, List.pairwise_map]
  refine List.pairwise_filter.mpr (List.pairwise_iff_getElem.mpr fun i j hi hj hij hbi hbj => ?_)
  have hflag : ∀ k (hk : k < (cs.zip flags).length), (cs.zip flags)[k].2 = true →
      cs[k]? = some (cs.zip flags)[k].1 ∧ db.AcksFirst owner cs k := by
    intro k hk hb
    obtain ⟨hc, hf⟩ := getElem?_zip_eq_some.mp (getElem?_eq_getElem hk)
    exact ⟨hc, (h k).mp (hb ▸ hf)⟩
  obtain ⟨hci, d, hdi, hacks, -⟩ := hflag i hi hbi
  obtain ⟨hcj, e, hej, -, hfirst⟩ := hflag j hj hbj
  have hd : d = (cs.zip flags)[i].1 := some.inj (hdi.symm.trans hci)
  have he : e = (cs.zip flags)[j].1 := some.inj (hej.symm.trans hcj)
  intro hkey
  have hkey' : d.key = e.key := by
    rw [hd, he]
    exact hkey
  rw [hfirst i hij d hdi hkey'] at hacks
  cases hacks

end Database

/-- Acknowledging a batch is the same as acknowledging its completions one after the other.  In a
reachable store, for completions of attempts that `Dispatch` has handed out, an `Ack` of the whole
list returns the same flags as single calls in list order, and leaves the same request rows and the
same result records.  The call records the results of the flagged completions, one per key, and no
others. -/
theorem ack_eq_ackEach {w : World} (h : w.Reachable) (owner : String) (cs : List Completion)
    (hcs : ∀ c ∈ cs, c.attempt ∈ drawnAttempts w.log c.key) (createdAt : ℤ) (times : List ℤ)
    (htimes : times.length = cs.length) :
    let batch := w.db.ack owner cs createdAt
    let each := w.db.ackEach owner (cs.zip times)
    batch.1 = each.1 ∧ batch.2.requests = each.2.requests ∧
      (batch.2.results.map record).Perm (each.2.results.map record) ∧
      ∃ new, batch.2.results = w.db.results ++ new ∧ (new.map key).Nodup ∧
        (new.map record).Perm ((flagged cs batch.1).map Completion.record) := by
  intro batch each
  have hzip : (cs.zip times).map fst = cs := map_fst_zip htimes.ge
  have hahead : w.db.NoneAhead cs := fun c hc r hr hpos =>
    ((h.rowInvariant c.key).isGreatest r hr hpos).2 (hcs c hc)
  have hbatch : ∀ i : ℕ, batch.1[i]? = some true ↔ w.db.AcksFirst owner cs i := fun i =>
    hahead.getElem?_ack_iff
  have heach : ∀ i : ℕ, each.1[i]? = some true ↔ w.db.AcksFirst owner cs i := by
    intro i
    rw [getElem?_ackEach, hzip]
  have hflags : batch.1 = each.1 := by
    refine flags_ext ?_ fun i => (hbatch i).trans (heach i).symm
    rw [length_ack, length_ackEach, length_zip, htimes, Nat.min_self]
  have hnd := nodup_uniqueCompletions cs
  have hdone : (w.db.doneCompletions owner ((uniqueCompletions cs).map fst)).Perm
      (flagged cs batch.1) := by
    refine (perm_ext_iff_of_nodup (nodup_map_key_doneCompletions hnd).of_map
      (nodup_flagged hbatch).of_map).mpr fun c => ?_
    rw [mem_doneCompletions hnd, mem_flagged, List.mem_map]
    constructor
    · rintro ⟨⟨⟨d, i⟩, hu, rfl⟩, hacks⟩
      exact ⟨i, getElem?_of_mem_uniqueCompletions hu,
        getElem?_ack.mpr ⟨d, hu, hacks⟩⟩
    · rintro ⟨i, hc, hflag⟩
      obtain ⟨d, hu, hacks⟩ := getElem?_ack.mp hflag
      have hd : d = c :=
        some.inj ((getElem?_of_mem_uniqueCompletions hu).symm.trans hc)
      subst hd
      exact ⟨⟨(d, i), hu, rfl⟩, hacks⟩
  refine ⟨hflags, ?_, ?_, (w.db.ackResults owner cs createdAt).map snd, rfl, ?_, ?_⟩
  · rw [hahead.requests_ack, requests_ackEach, hzip]
  · have hnew : batch.2.results.map record = w.db.results.map record ++
        ((w.db.ackResults owner cs createdAt).map snd).map record :=
      map_append
    rw [hnew, map_record_ackResults, results_ackEach, hzip]
    refine List.Perm.append_left _ ?_
    rw [show (w.db.ackEach owner (cs.zip times)).1 = batch.1 from hflags.symm]
    exact hdone.map _
  · rw [map_key_ackResults]
    exact nodup_map_key_doneCompletions hnd
  · rw [map_record_ackResults]
    exact hdone.map _

/-- A dispatcher takes a request, gives it back and takes it again. -/
def redispatchRun : List Stmt :=
  let owner : Owner := ⟨"dispatcher-0", first_ne⟩
  [.ensurePartitions "q",
    .enqueue 0 [⟨⟨"r1", "t1"⟩, "q", 0, 0, 0, 600, "", [], false, 0⟩],
    .acquirePartitions "q" owner 0 30000000000 64,
    .dispatch "q" owner 0 10,
    .undispatch owner [⟨⟨"r1", "t1"⟩, 1⟩] 0,
    .dispatch "q" owner 0 10]

/-- Of a completion of the first dispatch and two of the second, the batch and the single calls
record the first one of the second dispatch. -/
theorem redispatchRun_ack_eq_ackEach :
    let w := World.initial.run redispatchRun
    let cs : List Completion := [⟨⟨"r1", "t1"⟩, 1, "a", "old", 0⟩, ⟨⟨"r1", "t1"⟩, 2, "b", "new", 0⟩,
      ⟨⟨"r1", "t1"⟩, 2, "b", "again", 0⟩]
    let batch := w.db.ack "dispatcher-0" cs 5
    let each := w.db.ackEach "dispatcher-0" (cs.zip [5, 6, 7])
    batch.1 = [false, true, false] ∧ batch.1 = each.1 ∧ batch.2.requests = each.2.requests ∧
      (batch.2.results.map record).Perm (each.2.results.map record) ∧
      ∃ new, batch.2.results = w.db.results ++ new ∧ (new.map key).Nodup ∧
        (new.map record).Perm ((flagged cs batch.1).map Completion.record) := by
  intro w cs
  have hdrawn : ∀ c ∈ cs, c.attempt ∈ drawnAttempts w.log c.key := by decide +kernel
  have hflags : (w.db.ack "dispatcher-0" cs 5).1 = [false, true, false] := by decide +kernel
  exact ⟨hflags, ack_eq_ackEach (World.reachable_run redispatchRun) "dispatcher-0" cs hdrawn 5
    [5, 6, 7] rfl⟩

end LlmdAsync.SqlQueue
