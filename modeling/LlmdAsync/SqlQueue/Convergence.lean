import LlmdAsync.Foundation.Sharing
import LlmdAsync.SqlQueue.Settling

/-!
# Rebalancing converges

However the partitions of a queue are spread among its consumers in the beginning, three rounds of
`Rebalance` lead to an even split that further calls leave alone.

From the second round on, everybody counts the same members, so all have the same share, and a call
is a turn of the sharing of `Foundation.Sharing`, with the partitions as items and the share as
quota.  The shares add up to all the partitions, so two rounds of it are enough.
-/

namespace LlmdAsync.SqlQueue

open List Option Table Database Cluster

/-! ### Who holds what -/

/-- The consumer that owns a partition of the queue. -/
def Database.holder (db : Database) (queue : String) (cs : List Owner) (p : ℤ) : Option Owner :=
  (db.partitions.get? ⟨queue, p⟩).bind fun row => cs.find? fun c => c.name = row.owner

/-- Who owns a partition, since when, and whether it drains. -/
def PartitionRow.title (row : PartitionRow) : String × ℤ × Bool :=
  (row.owner, row.epoch, row.draining)

section Holder

variable {db : Database} {queue : String} {cs : List Owner} {c : Owner} {p : ℤ}

lemma holder_eq_some :
    db.holder queue cs p = some c ↔
      c ∈ cs ∧ ∃ row, db.partitions.get? ⟨queue, p⟩ = some row ∧ row.owner = c.name := by
  rw [holder, bind_eq_some_iff]
  constructor
  · rintro ⟨row, hrow, hfind⟩
    have hname := find?_some hfind
    rw [decide_eq_true_eq] at hname
    exact ⟨mem_of_find?_eq_some hfind, row, hrow, hname.symm⟩
  · rintro ⟨hc, row, hrow, ho⟩
    refine ⟨row, hrow, ?_⟩
    cases hfind : cs.find? fun c => c.name = row.owner with
    | none =>
      have hne := find?_eq_none.mp hfind c hc
      rw [decide_eq_true_eq] at hne
      exact absurd ho.symm hne
    | some c' =>
      have hname := find?_some hfind
      rw [decide_eq_true_eq] at hname
      rw [Owner.eq_of_name_eq (hname.trans ho)]

lemma load_holder (hc : c ∈ cs) :
    Sharing.load partitionIds (db.holder queue cs) c = (db.ownedBy queue c.name).card := by
  rw [Sharing.load, Database.ownedBy, Database.selection]
  congr 1
  refine Finset.filter_congr fun p _ => ?_
  rw [holder_eq_some, Option.any_eq_true]
  simp only [decide_eq_true_eq]
  exact and_iff_right hc

lemma partitionCount_le_mul_share (hne : cs ≠ []) :
    partitionIds.card ≤ cs.length * share cs.length := by
  have hpos : 0 < cs.length := length_pos_iff.mpr hne
  have hmax : max 1 cs.length = cs.length := max_eq_right hpos
  have hmod := Nat.div_add_mod (partitionCount + cs.length - 1) cs.length
  have hlt := Nat.mod_lt (partitionCount + cs.length - 1) hpos
  rw [card_partitionIds, share, hmax]
  omega

end Holder

/-! ### A call as a turn -/

section Turn

variable {cfg : Owner → Config} {queue : String} {cs : List Owner} {start limit : Time}
  {σ : Cluster}

lemma Settling.not_acquirable (h : Settling queue cs start limit cs σ) {c : Owner} (hc : c ∈ cs)
    {pk : PartitionKey} {row : PartitionRow} (hrow : σ.world.db.partitions.get? pk = some row)
    (ho : row.owner = c.name) {now : Time} (hnow : now ≤ limit) :
    acquirable queue now.unixMilli row = false := by
  rw [Bool.eq_false_iff]
  intro hacq
  obtain ⟨hq, hfree⟩ := acquirable_iff.mp hacq
  rw [key_of_get? hrow] at hq
  have hsec := (h.secure c hc pk row hrow hq ho).2
  have hms := Time.unixMilli_mono hnow
  rcases hfree with hnone | hlapsed
  · exact c.name_ne (ho.symm.trans hnone)
  · exact absurd hlapsed (not_lt_of_ge (hms.trans hsec))

lemma Settling.acquirable_of_spare (h : Settling queue cs start limit cs σ) (hne : cs ≠ [])
    (hspare : Sharing.Spare partitionIds (σ.world.db.holder queue cs)) {now : Time}
    (hnow : start ≤ now) :
    ∃ pk row, σ.world.db.partitions.get? pk = some row ∧
      acquirable queue now.unixMilli row = true := by
  obtain ⟨c, hc⟩ := exists_mem_of_ne_nil cs hne
  obtain ⟨p, hp, hnone⟩ := hspare
  obtain ⟨row, hrow⟩ := h.created c hc (h.seeded c hc) p hp
  refine ⟨_, row, hrow, acquirable_iff.mpr ⟨by rw [key_of_get? hrow], ?_⟩⟩
  rcases h.rows _ row hrow rfl with hfree | hlapsed | ⟨c', hc', ho⟩
  · exact .inl hfree
  · exact .inr (hlapsed.trans_le (Time.unixMilli_mono hnow))
  · rw [holder_eq_some.mpr ⟨hc', row, hrow, ho⟩] at hnone
    cases hnone

lemma Settling.countMembers_enrolled (hset : Setting cfg queue cs start limit)
    (h : Settling queue cs start limit cs σ) {c : Owner} (hc : c ∈ cs) {now : Time}
    (hstart : start ≤ now) (hle : now ≤ limit) :
    (σ.world.db.enrolled (cfg c) c now).countMembers queue = cs.length := by
  refine countMembers_eq hset.nodup (fun d hd hdq => ?_) fun c' hc' => ?_
  · obtain ⟨hfrom, hfresh⟩ := mem_enrolled.mp hd
    rcases hfrom with rfl | ⟨hold, -⟩
    · exact ⟨c, hc, rfl⟩
    · have hq : d.queue = (cfg c).queue := hdq.trans (hset.queue_eq c hc).symm
      refine (h.members d hold hdq).resolve_left fun hlt => hfresh ⟨hq, ?_⟩
      exact hlt.trans_le (Time.unixMilli_mono hstart)
  · obtain ⟨d, hd, hdq, hdo, -⟩ := exists_mem_enrolled hset hc hstart hle fun _ => h.enrolled c' hc'
    exact ⟨d, hd, hdq, hdo⟩

variable {call : RebalanceCall} {σ' : Cluster}

lemma Settling.get?_other (h : Settling queue cs start limit cs σ)
    (hset : Setting cfg queue cs start limit) (hcall : call.Timely cs start limit)
    (hreb : Rebalanced (cfg call.consumer) call.consumer call.now (σ.solo call.consumer)
      (σ'.solo call.consumer)) {c : Owner} (hc : c ∈ cs) (hne : c ≠ call.consumer)
    {pk : PartitionKey} {row : PartitionRow} (hrow : σ.world.db.partitions.get? pk = some row)
    (ho : row.owner = c.name) : σ'.world.db.partitions.get? pk = some row := by
  have hmine : mine (cfg call.consumer) call.consumer row = false := by
    rw [Bool.eq_false_iff]
    exact fun hm => hne (Owner.eq_of_name_eq (ho.symm.trans (mine_iff.mp hm).2))
  rcases hreb.other pk row hrow hmine with hsame | ⟨hacq, -⟩
  · exact hsame
  · rw [hset.queue_eq _ hcall.mem, h.not_acquirable hc hrow ho hcall.le_limit] at hacq
    cases hacq

lemma Settling.get?_own (h : Settling queue cs start limit cs σ)
    (hset : Setting cfg queue cs start limit) (hcall : call.Timely cs start limit)
    (hreb : Rebalanced (cfg call.consumer) call.consumer call.now (σ.solo call.consumer)
      (σ'.solo call.consumer))
    (hload : Sharing.load partitionIds (σ.world.db.holder queue cs) call.consumer ≤
      share cs.length) {p : ℤ} {row : PartitionRow}
    (hrow : σ.world.db.partitions.get? ⟨queue, p⟩ = some row)
    (ho : row.owner = call.consumer.name) :
    ∃ row', σ'.world.db.partitions.get? ⟨queue, p⟩ = some row' ∧ row'.title = row.title := by
  have hq := hset.queue_eq _ hcall.mem
  have hcount := h.countMembers_enrolled hset hcall.mem hcall.start_le hcall.le_limit
  have hkept := hreb.kept
  rw [hq] at hkept
  rw [load_holder hcall.mem, ← hcount] at hload
  have hmine : mine (cfg call.consumer) call.consumer row = true :=
    mine_iff.mpr ⟨by rw [key_of_get? hrow, hq], ho⟩
  have hdrain := (h.secure _ hcall.mem _ row hrow rfl ho).1
  exact ⟨_, hkept hload _ row hrow hmine hdrain, rfl⟩

lemma Settling.turn (h : Settling queue cs start limit cs σ)
    (h' : Settling queue cs start limit cs σ')
    (hset : Setting cfg queue cs start limit) (hcall : call.Timely cs start limit)
    (hreb : Rebalanced (cfg call.consumer) call.consumer call.now (σ.solo call.consumer)
      (σ'.solo call.consumer)) :
    Sharing.Turn partitionIds (share cs.length) call.consumer (σ.world.db.holder queue cs)
      (σ'.world.db.holder queue cs) := by
  have hq := hset.queue_eq _ hcall.mem
  have hcount := h.countMembers_enrolled hset hcall.mem hcall.start_le hcall.le_limit
  have hle := hreb.load_le
  have hfills := hreb.fills
  rw [hq] at hle hfills
  refine ⟨fun p _ c hne => ?_, ?_, fun hload p _ hp => ?_, ?_⟩
  · rw [holder_eq_some, holder_eq_some]
    refine and_congr_right fun hc => ⟨?_, ?_⟩
    · rintro ⟨row', hrow', ho⟩
      obtain ⟨row, hrow, ⟨rfl, -⟩ | hmine | hfree⟩ := hreb.cases hrow'
      · exact ⟨row', hrow, ho⟩
      · exact absurd (Owner.eq_of_name_eq (ho.symm.trans hmine)) hne
      · exact absurd (ho.symm.trans hfree) c.name_ne
    · rintro ⟨row, hrow, ho⟩
      exact ⟨row, h.get?_other hset hcall hreb hc hne hrow ho, ho⟩
  · rw [load_holder hcall.mem, ← hcount]
    exact hle
  · obtain ⟨hc, row, hrow, ho⟩ := holder_eq_some.mp hp
    obtain ⟨row', hrow', htitle⟩ := h.get?_own hset hcall hreb hload hrow ho
    exact holder_eq_some.mpr ⟨hc, row', hrow', (congrArg Prod.fst htitle).trans ho⟩
  · rw [load_holder hcall.mem, ← hcount]
    refine hfills.imp_right fun hnone hspare => ?_
    obtain ⟨pk, row, hrow, hacq⟩ :=
      h'.acquirable_of_spare (ne_nil_of_mem hcall.mem) hspare hcall.start_le
    rw [hnone pk row hrow] at hacq
    cases hacq

lemma Settling.title_eq (h : Settling queue cs start limit cs σ)
    (hset : Setting cfg queue cs start limit) (hcall : call.Timely cs start limit)
    (hreb : Rebalanced (cfg call.consumer) call.consumer call.now (σ.solo call.consumer)
      (σ'.solo call.consumer))
    (hload : Sharing.load partitionIds (σ.world.db.holder queue cs) call.consumer ≤ share cs.length)
    (hspare : ¬Sharing.Spare partitionIds (σ.world.db.holder queue cs)) (pk : PartitionKey) :
    (σ'.world.db.partitions.get? pk).map PartitionRow.title =
      (σ.world.db.partitions.get? pk).map PartitionRow.title := by
  have hq := hset.queue_eq _ hcall.mem
  cases hrow : σ.world.db.partitions.get? pk with
  | none =>
    have hnone : σ'.world.db.partitions.get? pk = none := hreb.absent pk hrow
    rw [hnone]
  | some row =>
    have hkey := key_of_get? hrow
    by_cases hpk : pk.queue = queue
    · obtain ⟨_, p⟩ := pk
      subst hpk
      have hp : p ∈ partitionIds := by
        have hin := h.inside row (mem_of_get? hrow) (by rw [hkey])
        rwa [hkey] at hin
      cases hholder : σ.world.db.holder _ cs p with
      | none => exact absurd ⟨p, hp, hholder⟩ hspare
      | some c =>
        obtain ⟨hc, row₀, hrow₀, ho⟩ := holder_eq_some.mp hholder
        rw [hrow, some.injEq] at hrow₀
        subst hrow₀
        by_cases heq : c = call.consumer
        · subst heq
          obtain ⟨row', hrow', htitle⟩ := h.get?_own hset hcall hreb hload hrow ho
          rw [hrow', map_some, map_some, htitle]
        · rw [h.get?_other hset hcall hreb hc heq hrow ho]
    · have hmine : mine (cfg call.consumer) call.consumer row = false := by
        rw [Bool.eq_false_iff]
        intro hm
        have hmq := (mine_iff.mp hm).1
        rw [hkey, hq] at hmq
        exact hpk hmq
      rcases hreb.other pk row hrow hmine with hsame | ⟨hacq, -⟩
      · have hsame : σ'.world.db.partitions.get? pk = some row := hsame
        rw [hsame]
      · have haq := (acquirable_iff.mp hacq).1
        rw [hkey, hq] at haq
        exact absurd haq hpk

end Turn

/-! ### Rounds -/

section Rounds

variable {cfg : Owner → Config} {queue : String} {cs : List Owner} {start limit : Time}
  {σ : Cluster} {calls : List RebalanceCall}

lemma Settling.turns (hset : Setting cfg queue cs start limit)
    (hcalls : ∀ call ∈ calls, call.Timely cs start limit) (h : Settling queue cs start limit cs σ) :
    ∃ σ', σ.rebalances cfg calls = some σ' ∧ Settling queue cs start limit cs σ' ∧
      Sharing.Turns partitionIds (share cs.length) (calls.map RebalanceCall.consumer)
        (σ.world.db.holder queue cs) (σ'.world.db.holder queue cs) := by
  induction calls generalizing σ with
  | nil => exact ⟨σ, rfl, h, .nil _⟩
  | cons call calls ih =>
    obtain ⟨hcall, hrest⟩ := forall_mem_cons.mp hcalls
    obtain ⟨σ₁, hrun₁, hdone₁, hreb⟩ := h.rebalance hset hcall
    have h₁ : Settling queue cs start limit cs σ₁ :=
      hdone₁.mono fun c hc => mem_cons_of_mem _ hc
    obtain ⟨σ', hrun, h', hturns⟩ := ih hrest h₁
    refine ⟨σ', ?_, h', .cons (h.turn h₁ hset hcall (hreb hcall.mem)) hturns⟩
    rw [rebalances_cons, hrun₁, bind_some, hrun]

lemma Settling.titles_eq (hset : Setting cfg queue cs start limit)
    (hcalls : ∀ call ∈ calls, call.Timely cs start limit) (h : Settling queue cs start limit cs σ)
    (hwithin : Sharing.Within partitionIds (share cs.length) cs.toFinset
      (σ.world.db.holder queue cs))
    (hspare : ¬Sharing.Spare partitionIds (σ.world.db.holder queue cs)) :
    ∃ σ', σ.rebalances cfg calls = some σ' ∧ ∀ pk,
      (σ'.world.db.partitions.get? pk).map PartitionRow.title =
        (σ.world.db.partitions.get? pk).map PartitionRow.title := by
  induction calls generalizing σ with
  | nil => exact ⟨σ, rfl, fun _ => rfl⟩
  | cons call calls ih =>
    obtain ⟨hcall, hrest⟩ := forall_mem_cons.mp hcalls
    obtain ⟨σ₁, hrun₁, hdone₁, hreb⟩ := h.rebalance hset hcall
    have h₁ : Settling queue cs start limit cs σ₁ :=
      hdone₁.mono fun c hc => mem_cons_of_mem _ hc
    have hreb := hreb hcall.mem
    have hturn := h.turn h₁ hset hcall hreb
    have hload := hwithin _ (mem_toFinset.mpr hcall.mem)
    have hspare₁ : ¬Sharing.Spare partitionIds (σ₁.world.db.holder queue cs) := by
      rintro ⟨p, hp, hnone⟩
      rw [hturn.eq_of_not_spare hload hspare hp] at hnone
      exact hspare ⟨p, hp, hnone⟩
    obtain ⟨σ', hrun, htitles⟩ := ih hrest h₁ (hturn.within hwithin) hspare₁
    refine ⟨σ', ?_, fun pk => (htitles pk).trans (h.title_eq hset hcall hreb hload hspare pk)⟩
    rw [rebalances_cons, hrun₁, bind_some, hrun]

/-- Rebalancing converges to an even split.  Consumers of one queue that run with nothing in flight
call `Rebalance` within one lease TTL and without store errors, from any spread of the partitions
among them.  After three rounds in which each of them makes one call, in any order, every partition
is owned and not draining, and each consumer owns at most its share, rounded up.  Further calls
change no owner, no epoch and no draining flag. -/
theorem rebalances_converge (hset : Setting cfg queue cs start limit) (hne : cs ≠ [])
    (hrest : AtRest queue cs start σ) {round₁ round₂ round₃ further : List RebalanceCall}
    (hround₁ : (round₁.map RebalanceCall.consumer).Perm cs)
    (hround₂ : (round₂.map RebalanceCall.consumer).Perm cs)
    (hround₃ : (round₃.map RebalanceCall.consumer).Perm cs)
    (htimely : ∀ call ∈ round₁ ++ round₂ ++ round₃ ++ further, call.Timely cs start limit) :
    ∃ σ₃ σ₄, σ.rebalances cfg (round₁ ++ round₂ ++ round₃) = some σ₃ ∧
      σ₃.rebalances cfg further = some σ₄ ∧
      (∀ p ∈ partitionIds, ∃ c ∈ cs, ∃ row,
        σ₃.world.db.partitions.get? ⟨queue, p⟩ = some row ∧ row.owner = c.name ∧
          row.draining = false) ∧
      (∀ c ∈ cs, (σ₃.world.db.ownedBy queue c.name).card ≤
        (partitionCount + cs.length - 1) / cs.length) ∧
      ∀ pk, (σ₄.world.db.partitions.get? pk).map PartitionRow.title =
        (σ₃.world.db.partitions.get? pk).map PartitionRow.title := by
  simp only [List.forall_mem_append] at htimely
  obtain ⟨⟨⟨ht₁, ht₂⟩, ht₃⟩, htf⟩ := htimely
  have hstart : Settling queue cs start limit [] σ :=
    ⟨hrest, fun c hc => (List.not_mem_nil hc).elim, fun c hc => (List.not_mem_nil hc).elim,
      fun c hc => (List.not_mem_nil hc).elim⟩
  obtain ⟨σ₁, hrun₁, hdone₁⟩ := hstart.rebalances hset ht₁
  have h₁ : Settling queue cs start limit cs σ₁ :=
    hdone₁.mono fun c hc => List.mem_append_left _ (hround₁.mem_iff.mpr hc)
  obtain ⟨σ₂, hrun₂, h₂, hturns₂⟩ := h₁.turns hset ht₂
  obtain ⟨σ₃, hrun₃, h₃, hturns₃⟩ := h₂.turns hset ht₃
  have hcard : cs.toFinset.card = cs.length := List.toFinset_card_of_nodup hset.nodup
  have hmem₂ : ∀ c, c ∈ round₂.map RebalanceCall.consumer ↔ c ∈ cs.toFinset := fun c => by
    rw [hround₂.mem_iff, List.mem_toFinset]
  have hmem₃ : ∀ c, c ∈ round₃.map RebalanceCall.consumer ↔ c ∈ cs.toFinset := fun c => by
    rw [hround₃.mem_iff, List.mem_toFinset]
  have henough : partitionIds.card ≤ cs.toFinset.card * share cs.length := by
    rw [hcard]
    exact partitionCount_le_mul_share hne
  obtain ⟨hwithin, hspare⟩ := hturns₂.two_rounds hturns₃ hmem₂ hmem₃ henough
  obtain ⟨σ₄, hrun₄, htitles⟩ := h₃.titles_eq hset htf hwithin hspare
  refine ⟨σ₃, σ₄, ?_, hrun₄, fun p hp => ?_, fun c hc => ?_, htitles⟩
  · rw [Cluster.rebalances_append, Cluster.rebalances_append, hrun₁, Option.bind_some, hrun₂,
      Option.bind_some, hrun₃]
  · cases hholder : σ₃.world.db.holder queue cs p with
    | none => exact absurd ⟨p, hp, hholder⟩ hspare
    | some c =>
      obtain ⟨hc, row, hrow, ho⟩ := holder_eq_some.mp hholder
      exact ⟨c, hc, row, hrow, ho, (h₃.secure c hc _ row hrow rfl ho).1⟩
  · have hload := hwithin c (List.mem_toFinset.mpr hc)
    have hmax : max 1 cs.length = cs.length := max_eq_right (List.length_pos_iff.mpr hne)
    rw [load_holder hc, share, hmax] at hload
    exact hload

/-- A partition after a crash: the first ones drain, the next belong to the two dispatchers that are
left, others to one that is gone and whose lease has lapsed, and the last have no owner. -/
def unsettledRow (p : ℕ) : PartitionRow :=
  if p < 10 then ⟨⟨"q", p⟩, "dispatcher-0", 3, true, 120000⟩
  else if p < 40 then ⟨⟨"q", p⟩, "dispatcher-0", 2, false, 120000⟩
  else if p < 45 then ⟨⟨"q", p⟩, "dispatcher-1", 4, false, 120000⟩
  else if p < 60 then ⟨⟨"q", p⟩, "dispatcher-2", 1, false, 90000⟩
  else ⟨⟨"q", p⟩, "", 0, false, 0⟩

lemma key_unsettledRow (p : ℕ) : (unsettledRow p).key = ⟨"q", p⟩ := by
  unfold unsettledRow
  split_ifs <;> rfl

/-- The partitions of a queue after a crash, with the memberships of two of the dispatchers. -/
def unsettled : Cluster :=
  { Cluster.initial with world := ⟨{ Database.initial with
      partitions := ⟨(List.range 64).map unsettledRow, by
        rw [List.map_map]
        refine List.Nodup.map (fun p p' h => ?_) List.nodup_range
        have hkey := (key_unsettledRow p).symm.trans (h.trans (key_unsettledRow p'))
        exact Int.ofNat.inj (congrArg PartitionKey.partition hkey)⟩
      dispatchers := ⟨[⟨"q", "dispatcher-0", 120000⟩, ⟨"q", "dispatcher-2", 90000⟩], by
        decide⟩ }, []⟩ }

lemma atRest_unsettled : AtRest "q" [⟨"dispatcher-0", by decide⟩, ⟨"dispatcher-1", by decide⟩]
    100000000000 unsettled where
  free _ _ := rfl
  running _ _ := rfl
  idle _ _ _ _ h := by cases h
  created _ _ h := by cases h
  inside row hrow _ := by
    obtain ⟨p, hp, rfl⟩ := mem_map.mp hrow
    rw [key_unsettledRow, mem_partitionIds]
    exact ⟨Int.natCast_nonneg p, Int.ofNat_lt.mpr (mem_range.mp hp)⟩
  rows pk row hrow _ := by
    obtain ⟨p, -, rfl⟩ := mem_map.mp (get?_eq_some.mp hrow).1
    unfold unsettledRow
    split_ifs
    · exact .inr (.inr ⟨_, mem_cons_self, rfl⟩)
    · exact .inr (.inr ⟨_, mem_cons_self, rfl⟩)
    · exact .inr (.inr ⟨_, mem_cons_of_mem _ mem_cons_self, rfl⟩)
    · exact .inr (.inl (show (90000 : ℤ) < Time.unixMilli 100000000000 by decide))
    · exact .inl rfl
  members d hd _ := by
    rcases mem_cons.mp hd with rfl | hd
    · exact .inr ⟨_, mem_cons_self, rfl⟩
    · obtain rfl := mem_singleton.mp hd
      exact .inl (by decide)

/-- Two dispatchers are left after a crash, one of which has 40 partitions and drains some of them.
They take turns once a second, in changing order, and each ends up with at most 32 partitions. -/
theorem two_dispatchers_converge :
    let a : Owner := ⟨"dispatcher-0", by decide⟩
    let b : Owner := ⟨"dispatcher-1", by decide⟩
    let cfg : Owner → Config := fun _ => ⟨"q", 30000000000, 60000000000⟩
    let call := fun (c : Owner) (second : ℤ) =>
      (⟨⟨c, 0⟩, second * 1000000000, Sched.plain⟩ : RebalanceCall)
    ∃ σ₃ σ₄, unsettled.rebalances cfg
        ([call a 100, call b 101] ++ [call b 102, call a 103] ++ [call a 104, call b 105]) =
          some σ₃ ∧
      σ₃.rebalances cfg [call b 106, call b 107] = some σ₄ ∧
      (∀ p ∈ partitionIds, ∃ c ∈ [a, b], ∃ row,
        σ₃.world.db.partitions.get? ⟨"q", p⟩ = some row ∧ row.owner = c.name ∧
          row.draining = false) ∧
      (∀ c ∈ [a, b], (σ₃.world.db.ownedBy "q" c.name).card ≤ 32) ∧
      ∀ pk, (σ₄.world.db.partitions.get? pk).map PartitionRow.title =
        (σ₃.world.db.partitions.get? pk).map PartitionRow.title := by
  intro a b cfg call
  have hset : Setting cfg "q" [a, b] 100000000000 130000000000 :=
    ⟨by decide, fun _ _ => rfl, fun _ _ => by decide⟩
  have htimely : ∀ c ∈ [a, b], ∀ second : ℤ, 100 ≤ second → second ≤ 130 →
      (call c second).Timely [a, b] 100000000000 130000000000 := by
    intro c hc second h₀ h₁
    refine ⟨hc, ?_, ?_, fun _ => rfl⟩
    · show 100000000000 ≤ second * 1000000000
      omega
    · show second * 1000000000 ≤ 130000000000
      omega
  have hround₁ : ([call a 100, call b 101].map RebalanceCall.consumer).Perm [a, b] := .refl _
  have hround₂ : ([call b 102, call a 103].map RebalanceCall.consumer).Perm [a, b] := .swap a b []
  have hround₃ : ([call a 104, call b 105].map RebalanceCall.consumer).Perm [a, b] := .refl _
  have hshare : (partitionCount + [a, b].length - 1) / [a, b].length = 32 := by
    simp [partitionCount]
  rw [← hshare]
  refine rebalances_converge hset (cons_ne_nil a [b]) atRest_unsettled hround₁ hround₂ hround₃
    fun c hc => ?_
  simp only [cons_append, nil_append, mem_cons, not_mem_nil, or_false] at hc
  rcases hc with rfl | rfl | rfl | rfl | rfl | rfl | rfl | rfl <;>
    exact htimely _ (by decide) _ (by decide) (by decide)

end Rounds

end LlmdAsync.SqlQueue
