import LlmdAsync.Redis.KeySlot

/-!
# Keys scripted together

`newClaimKeys` (`pkg/redis/claim.go`), `newResultClaimKeys` and `enqueueSeqKey` (`producer/`): the
names of the private keys that one script addresses together with a queue or a result route.  The
shared key keeps its name, so the private keys have to carry its hash tag.
-/

namespace LlmdAsync.Redis

open List

/-- `newClaimKeys`: the keys of the claims of one queue. -/
structure ClaimKeys where
  pending : String
  claimed : String
  owners : String
  idx : String

@[inherit_doc ClaimKeys]
def newClaimKeys (queueName : String) (cluster : Bool) : ClaimKeys :=
  let base := slotKey queueName cluster
  { pending := queueName
    claimed := base ++ ":claimed"
    owners := base ++ ":claim-owners"
    idx := base ++ ":claims-idx" }

namespace Producer

/-- `hasHashTag` of the producer. -/
def hasHashTag (key : String) : Bool :=
  match key.toList.dropWhile (fun c => decide (c ≠ '\x7b')) with
  | [] => false
  | _ :: rest => '\x7d' ∈ rest ∧ rest.takeWhile (fun c => decide (c ≠ '\x7d')) ≠ []

/-- `slotKey` of the producer. -/
def slotKey (primary : String) (cluster : Bool) : String :=
  if !cluster || hasHashTag primary then primary else "\x7b" ++ primary ++ "\x7d"

/-- `newResultClaimKeys`: the keys of the claims of one result route. -/
structure ResultClaimKeys extends ClaimKeys where
  tombstones : String

@[inherit_doc ResultClaimKeys]
def newResultClaimKeys (route : String) (cluster : Bool) : ResultClaimKeys :=
  let base := slotKey route cluster
  { pending := route
    claimed := base ++ ":result-claimed"
    owners := base ++ ":result-claim-owners"
    idx := base ++ ":result-claims-idx"
    tombstones := base ++ ":result-ack-tombstones" }

/-- `enqueueSeqKey`. -/
def enqueueSeqKey (queueName : String) (deadline : ℤ) (cluster : Bool) : String :=
  "request-seq:" ++ slotKey queueName cluster ++ ":" ++ toString deadline

end Producer

open Producer (hasHashTag newResultClaimKeys enqueueSeqKey)

lemma dropWhile_ne_append {x : Char} {l : List Char} (hl : x ∉ l) (r : List Char) :
    (l ++ x :: r).dropWhile (· ≠ x) = x :: r := by
  rw [dropWhile_append_of_pos fun c hc => decide_eq_true (ne_of_mem_of_not_mem hc hl)]
  exact dropWhile_cons_of_neg (by simp)

lemma takeWhile_ne_append {x : Char} {l : List Char} (hl : x ∉ l) (r : List Char) :
    (l ++ x :: r).takeWhile (· ≠ x) = l := by
  rw [takeWhile_append_of_pos fun c hc => decide_eq_true (ne_of_mem_of_not_mem hc hl),
    takeWhile_cons_of_neg (by simp), append_nil]

/-- The two braces and the text between them, cut out of the name. -/
lemma hashTag_of_split {key : String} {before tag after : List Char}
    (hkey : key.toList = before ++ '\x7b' :: (tag ++ '\x7d' :: after)) (hbefore : '\x7b' ∉ before)
    (htag : '\x7d' ∉ tag) (hne : tag ≠ []) : hashTag key = String.ofList tag := by
  rw [hashTag, hkey, dropWhile_ne_append hbefore]
  dsimp only
  rw [takeWhile_ne_append htag, if_pos ⟨by simp, hne⟩]

lemma exists_split_of_hasHashTag {key : String} (h : hasHashTag key) : ∃ before tag after,
    key.toList = before ++ '\x7b' :: (tag ++ '\x7d' :: after) ∧ '\x7b' ∉ before ∧ '\x7d' ∉ tag ∧
      tag ≠ [] := by
  rw [hasHashTag] at h
  by_cases hopen : '\x7b' ∈ key.toList
  · obtain ⟨before, rest, hkey, hbefore⟩ := eq_append_cons_of_mem hopen
    rw [hkey, dropWhile_ne_append hbefore] at h
    obtain ⟨hclose, hne⟩ := of_decide_eq_true h
    obtain ⟨tag, after, rfl, htag⟩ := eq_append_cons_of_mem hclose
    rw [takeWhile_ne_append htag] at hne
    exact ⟨before, tag, after, hkey, hbefore, htag, hne⟩
  · rw [dropWhile_eq_nil_iff.mpr fun c hc => decide_eq_true (ne_of_mem_of_not_mem hc hopen)] at h
    cases h

/-- The dispatcher asks whether the tag differs from the name, the producer whether there is a
tag.  A tag is shorter than the name it is cut from, so the two tests agree. -/
lemma hashTag_ne_iff {key : String} : hashTag key ≠ key ↔ hasHashTag key := by
  constructor
  · intro h
    rw [hashTag] at h
    rw [hasHashTag]
    cases hrest : key.toList.dropWhile (· ≠ '\x7b') with
    | nil =>
      rw [hrest] at h
      exact absurd rfl h
    | cons c rest =>
      rw [hrest] at h
      exact decide_eq_true (not_imp_comm.mp (if_neg ·) h)
  · intro h hkey
    obtain ⟨before, tag, after, hsplit, hbefore, htag, hne⟩ := exists_split_of_hasHashTag h
    rw [hashTag_of_split hsplit hbefore htag hne] at hkey
    have hlength := congrArg length hsplit
    rw [← hkey, String.toList_ofList] at hlength
    simp only [length_append, length_cons] at hlength
    omega

lemma producer_slotKey_eq (p : String) (cluster : Bool) :
    Producer.slotKey p cluster = slotKey p cluster := by
  have hsame : hasHashTag p = decide (hashTag p ≠ p) := by
    rw [Bool.eq_iff_iff, decide_eq_true_iff, hashTag_ne_iff]
  rw [Producer.slotKey, slotKey, hsame]

/-- A private key: text without an opening brace, the slot key of a name, any further text.  Its
tag is that of the name, unless the name is wrapped and has a closing brace in it. -/
lemma hashTag_private (pre suf : String) {p : String} (hpre : '\x7b' ∉ pre.toList) (hne : p ≠ "")
    (hp : hashTag p ≠ p ∨ '\x7d' ∉ p.toList) :
    hashTag (pre ++ slotKey p true ++ suf) = hashTag p := by
  rw [slotKey]
  by_cases htagged : hashTag p ≠ p
  · obtain ⟨before, tag, after, hsplit, hbefore, htag, hne⟩ :=
      exists_split_of_hasHashTag (hashTag_ne_iff.mp htagged)
    rw [if_pos (by simpa using htagged), hashTag_of_split hsplit hbefore htag hne]
    have hkey : (pre ++ p ++ suf).toList =
        (pre.toList ++ before) ++ '\x7b' :: (tag ++ '\x7d' :: (after ++ suf.toList)) := by
      simp [hsplit]
    exact hashTag_of_split hkey (by simp [hpre, hbefore]) htag hne
  · rw [if_neg (by simpa using htagged), not_not.mp htagged]
    have hkey : (pre ++ ("\x7b" ++ p ++ "\x7d") ++ suf).toList =
        pre.toList ++ '\x7b' :: (p.toList ++ '\x7d' :: suf.toList) := by
      simp
    rw [hashTag_of_split hkey hpre (hp.resolve_left htagged) (by simpa using hne),
      String.ofList_toList]

/-- A name without a tag that has a closing brace in it is wrapped, and the tag of the private key
ends at that brace, or is empty and the key is hashed whole. -/
lemma hashTag_private_ne (pre suf : String) {p : String} (hpre : '\x7b' ∉ pre.toList)
    (htag : hashTag p = p) (hclose : '\x7d' ∈ p.toList) :
    hashTag (pre ++ slotKey p true ++ suf) ≠ hashTag p := by
  obtain ⟨tag, rest, hp, hfirst⟩ := eq_append_cons_of_mem hclose
  have hkey : (pre ++ slotKey p true ++ suf).toList =
      pre.toList ++ '\x7b' :: (tag ++ '\x7d' :: (rest ++ '\x7d' :: suf.toList)) := by
    simp [slotKey, htag, hp]
  intro heq
  rw [htag] at heq
  have hlength := congrArg (fun s => s.toList.length) heq
  rw [hp] at hlength
  rcases eq_or_ne tag [] with rfl | hne
  · have hwhole : hashTag (pre ++ slotKey p true ++ suf) = pre ++ slotKey p true ++ suf := by
      by_contra h
      have htagged := hashTag_ne_iff.mp h
      rw [hasHashTag, hkey, dropWhile_ne_append hpre] at htagged
      simp at htagged
    rw [hwhole, hkey] at hlength
    simp only [length_append, length_cons, length_nil] at hlength
    omega
  · rw [hashTag_of_split hkey hpre hfirst hne, String.toList_ofList] at hlength
    simp only [length_append, length_cons] at hlength
    omega

lemma hashTag_private_iff (pre suf : String) {p : String} (hpre : '\x7b' ∉ pre.toList)
    (hne : p ≠ "") : hashTag (pre ++ slotKey p true ++ suf) = hashTag p ↔
      hashTag p ≠ p ∨ '\x7d' ∉ p.toList := by
  refine ⟨fun h => ?_, hashTag_private pre suf hpre hne⟩
  by_contra hp
  rw [not_or, not_not, not_not] at hp
  exact hashTag_private_ne pre suf hpre hp.1 hp.2 h

/-- In cluster mode every private key of a queue and of a route has the hash tag of the shared key,
and so has the sequence counter of a queue at any deadline, if and only if the name has a hash tag
or no closing brace.  Then they have its slot.  The two copies of `slotKey` agree on every name. -/
theorem cluster_keys_share_slot (name : String) (deadline : ℤ) :
    (name ≠ "" →
      let claim := newClaimKeys name true
      let result := newResultClaimKeys name true
      (∀ key ∈ [claim.claimed, claim.owners, claim.idx, result.claimed, result.owners, result.idx,
          result.tombstones, enqueueSeqKey name deadline true],
        (hashTag key = hashTag name ↔ hashTag name ≠ name ∨ '\x7d' ∉ name.toList)) ∧
      (hashTag name ≠ name ∨ '\x7d' ∉ name.toList →
        (∀ key ∈ [claim.claimed, claim.owners, claim.idx], keySlot key = keySlot claim.pending) ∧
        (∀ key ∈ [result.claimed, result.owners, result.idx, result.tombstones],
          keySlot key = keySlot result.pending) ∧
        keySlot (enqueueSeqKey name deadline true) = keySlot name)) ∧
    ∀ cluster, Producer.slotKey name cluster = slotKey name cluster := by
  refine ⟨fun hne => ?_, producer_slotKey_eq name⟩
  have hsuffix (suf : String) : hashTag (slotKey name true ++ suf) = hashTag name ↔
      hashTag name ≠ name ∨ '\x7d' ∉ name.toList := by
    have htag := hashTag_private_iff "" suf (by simp) hne
    rwa [String.empty_append] at htag
  have hseq : hashTag (enqueueSeqKey name deadline true) = hashTag name ↔
      hashTag name ≠ name ∨ '\x7d' ∉ name.toList := by
    rw [enqueueSeqKey, producer_slotKey_eq, String.append_assoc]
    exact hashTag_private_iff _ _ (by decide) hne
  refine ⟨?_, fun hname => ⟨?_, ?_, ?_⟩⟩
  · simp only [newClaimKeys, newResultClaimKeys, producer_slotKey_eq, forall_mem_cons, hsuffix,
      hseq, not_mem_nil, false_imp_iff, implies_true, and_self]
  · simp [newClaimKeys, keySlot, (hsuffix _).mpr hname]
  · simp [newResultClaimKeys, producer_slotKey_eq, keySlot, (hsuffix _).mpr hname]
  · rw [keySlot, hseq.mpr hname, keySlot]

theorem plain_queue_shares_slot :
    keySlot (enqueueSeqKey "batch" 7 true) = keySlot (newClaimKeys "batch" true).claimed := by
  obtain ⟨hclaim, -, hseq⟩ :=
    ((cluster_keys_share_slot "batch" 7).1 (by decide)).2 (.inr (by decide))
  rw [hseq, hclaim _ mem_cons_self]
  rfl

/-- A name without a tag that has a closing brace in it is wrapped too, and the tag of the result
ends at that brace: the private keys of `a}` are in the slot of `a`. -/
theorem closing_brace_splits_slots :
    "a\x7d" ≠ "" ∧ keySlot (newClaimKeys "a\x7d" true).claimed ≠
      keySlot (newClaimKeys "a\x7d" true).pending := by
  decide +kernel

end LlmdAsync.Redis
