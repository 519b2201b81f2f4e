import Mathlib.Tactic.Linarith
import Murlan.Spec.Matchmaking

/-!
# The queue neither loses nor duplicates players

* `anchor_spec`: the anchor is the first of those who wait longest.
* `formGroup_group`: what a formed group is, and what it leaves of the pools.
* `formGroup_ne_none`: when a group is formed.
* `queue_law`: in every state of a run each user waits once, and all of that.
-/

namespace Murlan.Matchmaking

open scoped List

variable {T : Type} [DecidableEq T]

/-! ## The anchor -/

/-- The entry is the first of the longest waiting ones of a pool. -/
def LongestWaiting (p : List (QueueEntry T)) (a : QueueEntry T) : Prop :=
  ∃ before after, p = before ++ a :: after ∧ (∀ e ∈ before, a.since < e.since) ∧ ∀ e ∈ after, a.since ≤ e.since

variable {p eligible : List (QueueEntry T)} {a b x y z e : QueueEntry T}

omit [DecidableEq T] in
theorem LongestWaiting.le (h : LongestWaiting p a) (he : e ∈ p) : a.since ≤ e.since := by
  obtain ⟨before, after, rfl, hbefore, hafter⟩ := h
  rcases List.mem_append.1 he with he | he
  · exact (hbefore e he).le
  · rcases List.mem_cons.1 he with rfl | he
    · exact le_rfl
    · exact hafter e he

omit [DecidableEq T] in
theorem LongestWaiting.mem (h : LongestWaiting p a) : a ∈ p := by
  obtain ⟨before, after, rfl, -, -⟩ := h
  simp

omit [DecidableEq T] in
/-- Nobody who has waited as long stands before the anchor. -/
theorem LongestWaiting.before (h : LongestWaiting p a) (he : e ∈ p) (hne : e ≠ a) (hsince : e.since = a.since) :
    [a, e] <+ p := by
  obtain ⟨before, after, rfl, hbefore, -⟩ := h
  have hafter : e ∈ after := by
    rcases List.mem_append.1 he with he | he
    · have := hbefore e he
      omega
    · exact (List.mem_cons.1 he).resolve_left hne
  exact ((List.singleton_sublist.2 hafter).cons_cons a).trans (List.sublist_append_right _ _)

omit [DecidableEq T] in
/-- A pool has one anchor at most. -/
theorem LongestWaiting.unique (h : LongestWaiting p a) (h' : LongestWaiting p b) : a = b := by
  have hab := h.le h'.mem
  have hba := h'.le h.mem
  obtain ⟨before, after, rfl, hbefore, -⟩ := h
  obtain ⟨before', after', hp, hbefore', -⟩ := h'
  rcases List.append_eq_append_iff.1 hp with ⟨l, hl, hrest⟩ | ⟨l, hl, hrest⟩
  · cases l with
    | nil => exact (List.cons.inj hrest).1
    | cons c l =>
      obtain rfl := (List.cons.inj hrest).1
      have hlt := hbefore' a (by simp [hl])
      omega
  · cases l with
    | nil => exact (List.cons.inj hrest).1.symm
    | cons c l =>
      obtain rfl := (List.cons.inj hrest).1
      have hlt := hbefore b (by simp [hl])
      omega

omit [DecidableEq T] in
/-- One pass over the pool keeps the first of the longest waiting ones. -/
theorem foldl_longest (p : List (QueueEntry T)) : ∀ e,
    LongestWaiting (e :: p) (p.foldl (fun a b => if a.since ≤ b.since then a else b) e) := by
  induction p with
  | nil => exact fun e => ⟨[], [], rfl, by simp, by simp⟩
  | cons b p ih =>
    intro e
    rw [List.foldl_cons]
    by_cases hle : e.since ≤ b.since
    · rw [if_pos hle]
      obtain ⟨before, after, hp, hbefore, hafter⟩ := ih e
      generalize p.foldl (fun a b => if a.since ≤ b.since then a else b) e = r at hp hbefore hafter ⊢
      cases before with
      | nil =>
        rw [List.nil_append, List.cons.injEq] at hp
        obtain ⟨rfl, rfl⟩ := hp
        exact ⟨[], b :: p, rfl, by simp, List.forall_mem_cons.2 ⟨hle, hafter⟩⟩
      | cons d before =>
        rw [List.cons_append, List.cons.injEq] at hp
        obtain ⟨rfl, rfl⟩ := hp
        rw [List.forall_mem_cons] at hbefore
        refine ⟨e :: b :: before, after, rfl, ?_, hafter⟩
        rw [List.forall_mem_cons, List.forall_mem_cons]
        exact ⟨hbefore.1, by omega, hbefore.2⟩
    · rw [if_neg hle]
      have hrest := ih b
      have hb := hrest.le List.mem_cons_self
      obtain ⟨before, after, hp, hbefore, hafter⟩ := hrest
      refine ⟨e :: before, after, by rw [hp]; rfl, ?_, hafter⟩
      rw [List.forall_mem_cons]
      exact ⟨by omega, hbefore⟩

omit [DecidableEq T] in
theorem anchor_spec (h : anchor p = some a) : LongestWaiting p a := by
  cases p with
  | nil => cases h
  | cons e p =>
    have : _ = a := Option.some.inj h
    exact this ▸ foldl_longest p e

/-! ## The group around the anchor -/

instance (a : QueueEntry T) : Std.Total (Closer a) where
  total x y := by
    unfold Closer
    rcases lt_trichotomy (distance a x) (distance a y) with h | h | h
    · exact Or.inl (Or.inl h)
    · rcases le_total x.since y.since with hs | hs
      · exact Or.inl (Or.inr ⟨h, hs⟩)
      · exact Or.inr (Or.inr ⟨h.symm, hs⟩)
    · exact Or.inr (Or.inl h)

instance (a : QueueEntry T) : IsTrans (QueueEntry T) (Closer a) where
  trans x y z := by
    unfold Closer
    rintro (h | ⟨h, hs⟩) (h' | ⟨h', hs'⟩)
    · exact Or.inl (h.trans h')
    · exact Or.inl (h'.symm ▸ h)
    · exact Or.inl (h ▸ h')
    · exact Or.inr ⟨h.trans h', hs.trans hs'⟩

omit [DecidableEq T] in
theorem distance_self (a : QueueEntry T) : distance a a = 0 := by simp [distance]

omit [DecidableEq T] in
theorem distance_nonneg (a e : QueueEntry T) : 0 ≤ distance a e := abs_nonneg _

omit [DecidableEq T] in
/-- The anchor comes first in the order of the sort. -/
theorem closer_anchor (h : a.since ≤ x.since) : Closer a a x := by
  unfold Closer
  rw [distance_self]
  rcases (distance_nonneg a x).lt_or_eq with hd | hd
  · exact Or.inl hd
  · exact Or.inr ⟨hd, h⟩

/-- **The anchor is never squeezed out**: it is the first of the sorted pool. -/
theorem sorted_head (hlong : LongestWaiting p a) (hnd : p.Nodup) (hsub : eligible <+ p) (ha : a ∈ eligible)
    (hpair : ∀ e, [a, e] <+ p → e ∈ eligible → [a, e] <+ eligible) :
    ∃ rest, eligible.insertionSort (Closer a) = a :: rest := by
  have hperm := List.perm_insertionSort (Closer a) eligible
  have hsort := List.pairwise_insertionSort (Closer a) eligible
  have hndsort : (eligible.insertionSort (Closer a)).Nodup := hperm.nodup_iff.2 (hnd.sublist hsub)
  have hmem := hperm.mem_iff.2 ha
  have hstable : ∀ e, Closer a a e → [a, e] <+ eligible → [a, e] <+ eligible.insertionSort (Closer a) :=
    fun e hce he => List.pair_sublist_insertionSort hce he
  revert hperm hsort hndsort hmem hstable
  generalize eligible.insertionSort (Closer a) = sorted
  intro hperm hsort hndsort hmem hstable
  cases sorted with
  | nil => cases hmem
  | cons x rest =>
    by_cases hx : x = a
    · exact ⟨rest, by rw [hx]⟩
    exfalso
    have hxe : x ∈ eligible := hperm.mem_iff.1 List.mem_cons_self
    have hxp := hsub.subset hxe
    have hle := hlong.le hxp
    -- the head is as close and has waited as long as the anchor
    have hax : Closer a x a := (List.pairwise_cons.1 hsort).1 a ((List.mem_cons.1 hmem).resolve_left (Ne.symm hx))
    have hsince : x.since = a.since := by
      rcases hax with hd | ⟨-, hs⟩
      · rw [distance_self] at hd
        exact absurd hd (not_lt.2 (distance_nonneg a x))
      · omega
    -- so it stands after the anchor in the pool, and a stable sort keeps it there
    have hafter := hstable x (closer_anchor hle) (hpair x (hlong.before hxp hx hsince) hxe)
    have hnotin := (List.nodup_cons.1 hndsort).1
    rcases List.cons_sublist_cons'.1 hafter with hcons | ⟨hcons, -⟩
    · exact hnotin (hcons.subset (by simp))
    · exact hx hcons.symm

/-! ## The pools -/

namespace MatchmakingService

variable {m : MatchmakingService T} {type t : T} {u : ℕ} {needed : T → ℕ} {group : List (QueueEntry T)}

/-- Every user waits at most once, in the pool of the match type asked for. -/
structure Well (m : MatchmakingService T) : Prop where
  keys : (m.queues.map Prod.fst).Nodup
  typed : ∀ t, ∀ e ∈ m.waiting t, e.matchType = t
  users : ∀ t, ((m.waiting t).map QueueEntry.userId).Nodup
  apart : ∀ t t', ∀ e ∈ m.waiting t, ∀ e' ∈ m.waiting t', e.userId = e'.userId → t = t'

/-- The queue of one type is replaced. -/
theorem find_replace (l : List (T × List (QueueEntry T))) (p : List (QueueEntry T)) (type t : T) :
    (l.map fun q => if q.1 = type then (type, p) else q).find? (fun q => q.1 = t) =
      if t = type then (if l.any fun q => q.1 = type then some (type, p) else none) else l.find? fun q => q.1 = t := by
  induction l with
  | nil => simp
  | cons q l ih =>
    rw [List.map_cons, List.find?_cons, ih, List.find?_cons, List.any_cons]
    by_cases hq : q.1 = type
    · rw [if_pos hq, decide_eq_true hq, Bool.true_or, if_pos rfl]
      by_cases ht : t = type
      · simp [ht]
      · have hne : ¬ type = t := fun h => ht h.symm
        simp [hq, ht, hne]
    · rw [if_neg hq, decide_eq_false hq, Bool.false_or]
      by_cases ht : t = type
      · have hqt : ¬ q.1 = t := fun h => hq (h.trans ht)
        rw [decide_eq_false hqt]
      · simp [ht]

/-- `set` replaces one pool. -/
theorem waiting_set (m : MatchmakingService T) (type t : T) (p : List (QueueEntry T)) :
    (m.set type p).waiting t = if t = type then p else m.waiting t := by
  unfold waiting find set
  split
  · rename_i hany
    simp only [find_replace, hany, if_true]
    by_cases ht : t = type
    · simp [ht]
    · simp [ht]
  · rename_i hany
    simp only [List.find?_append]
    by_cases ht : t = type
    · subst ht
      have hnone : m.queues.find? (fun q => q.1 = t) = none := by
        rw [List.find?_eq_none]
        intro q hq hqt
        exact hany (List.any_eq_true.2 ⟨q, hq, hqt⟩)
      simp [hnone]
    · have hne : ¬ type = t := fun h => ht h.symm
      simp [ht, hne]

/-- Each type keeps one queue. -/
theorem keys_set (h : (m.queues.map Prod.fst).Nodup) (type : T) (p : List (QueueEntry T)) :
    ((m.set type p).queues.map Prod.fst).Nodup := by
  unfold set
  split
  · have hkeys : (m.queues.map fun q => if q.1 = type then (type, p) else q).map Prod.fst = m.queues.map Prod.fst := by
      rw [List.map_map]
      refine List.map_congr_left fun q _ => ?_
      simp only [Function.comp_apply]
      split
      · rename_i hq
        exact hq.symm
      · rfl
    rw [hkeys]
    exact h
  · rename_i hany
    simp only [List.map_append, List.map_cons, List.map_nil]
    rw [List.nodup_append]
    refine ⟨h, by simp, ?_⟩
    rintro t ht t' ht' rfl
    obtain ⟨q, hq, rfl⟩ := List.mem_map.1 ht
    rw [List.mem_singleton] at ht'
    exact hany (List.any_eq_true.2 ⟨q, hq, by simpa using ht'⟩)

/-- A queue made anew is empty. -/
theorem pool_waiting (m : MatchmakingService T) (type : T) : (m.pool type).1 = m.waiting type ∧
    ∀ t, (m.pool type).2.waiting t = m.waiting t := by
  unfold pool
  cases hfind : m.find type with
  | some p => exact ⟨by simp [waiting, hfind], fun t => rfl⟩
  | none =>
    refine ⟨by simp [waiting, hfind], fun t => ?_⟩
    rw [waiting_set]
    split
    · rename_i ht
      simp [ht, waiting, hfind]
    · rfl

theorem keys_pool (h : (m.queues.map Prod.fst).Nodup) (type : T) : ((m.pool type).2.queues.map Prod.fst).Nodup := by
  unfold pool
  split
  · exact h
  · exact keys_set h type []

omit [DecidableEq T] in
/-- Who is removed is in no queue. -/
theorem remove_queues (m : MatchmakingService T) (u : ℕ) :
    (m.remove u).2.queues = m.queues.map fun q => (q.1, q.2.filter fun e => e.userId ≠ u) := by
  unfold remove
  refine List.map_congr_left fun q _ => ?_
  split
  · rfl
  · rename_i hlen
    rw [not_not] at hlen
    rw [List.filter_sublist.eq_of_length hlen]

/-- Whoever is removed leaves all pools, and nobody else moves. -/
theorem waiting_remove (m : MatchmakingService T) (u : ℕ) (t : T) :
    (m.remove u).2.waiting t = (m.waiting t).filter fun e => e.userId ≠ u := by
  unfold waiting find
  rw [remove_queues, List.find?_map]
  simp only [Function.comp_def]
  cases m.queues.find? (fun q => q.1 = t) with
  | none => rfl
  | some q => rfl

omit [DecidableEq T] in
theorem keys_remove (m : MatchmakingService T) (u : ℕ) :
    (m.remove u).2.queues.map Prod.fst = m.queues.map Prod.fst := by
  rw [remove_queues, List.map_map]
  rfl

/-- The new entry stands at the end of its pool, and the user's other entries are gone. -/
theorem waiting_enqueue (m : MatchmakingService T) (entry : QueueEntry T) (t : T) :
    (m.enqueue entry).waiting t = ((m.waiting t).filter fun e => e.userId ≠ entry.userId) ++
      if t = entry.matchType then [entry] else [] := by
  obtain ⟨hpool, hrest⟩ := pool_waiting (m.remove entry.userId).2 entry.matchType
  unfold enqueue
  simp only
  rw [waiting_set]
  split
  · rename_i ht
    rw [hpool, waiting_remove, ht]
  · rw [hrest, waiting_remove, List.append_nil]

/-! ## Groups -/

/-- A group formed from the pool of `type`: its size, its users, the anchor in it, and what it
leaves of the pools. -/
structure Formed (needed : T → ℕ) (m : MatchmakingService T) (type : T) (group : List (QueueEntry T)) : Prop where
  size : group.length = needed type
  users : (group.map QueueEntry.userId).Nodup
  typed : ∀ e ∈ group, e.matchType = type
  waited : group ⊆ m.waiting type
  anchored : ∃ a ∈ group, LongestWaiting (m.waiting type) a ∧ ∀ e ∈ group, |e.rating - a.rating| ≤ m.tolerance
  leaves : ∀ t, (m.formGroup needed type).2.waiting t =
    if t = type then (m.waiting type).filter fun e => e ∉ group else m.waiting t

theorem user_mem (h : Well m) (hg : group ⊆ m.waiting type) (he : e ∈ m.waiting type) :
    e.userId ∈ group.map QueueEntry.userId ↔ e ∈ group := by
  refine ⟨fun hu => ?_, fun hmem => List.mem_map_of_mem hmem⟩
  obtain ⟨d, hd, hde⟩ := List.mem_map.1 hu
  have hinj := List.inj_on_of_nodup_map (h.users type) (hg hd) he hde
  exact hinj ▸ hd

/-- **What a formed group is.** -/
theorem formGroup_group (h : Well m) (hpos : 0 < needed type) (hg : (m.formGroup needed type).1 = some group) :
    Formed needed m type group := by
  obtain ⟨hpool, hrest⟩ := pool_waiting m type
  have hform := hg
  unfold formGroup at hg
  simp only [hpool] at hg
  split at hg
  · cases hg
  rename_i hlen
  split at hg
  · cases hg
  rename_i a ha
  split at hg
  · cases hg
  rename_i hlenE
  have hgroup := Option.some.inj hg
  have hlong := anchor_spec ha
  set eligible := (m.waiting type).filter fun e => distance a e ≤ m.tolerance with heligible
  have hsub : eligible <+ m.waiting type := List.filter_sublist
  have hnd : (m.waiting type).Nodup := (h.users type).of_map
  -- the anchor is within tolerance of himself, when anybody is
  have haE : a ∈ eligible := by
    have hne : eligible ≠ [] := by
      intro hnil
      rw [hnil, List.length_nil] at hlenE
      exact hlenE hpos
    obtain ⟨e, he⟩ := List.exists_mem_of_ne_nil _ hne
    have hd : distance a e ≤ m.tolerance := by simpa using (List.mem_filter.1 he).2
    refine List.mem_filter.2 ⟨hlong.mem, ?_⟩
    rw [distance_self, decide_eq_true_eq]
    exact (distance_nonneg a e).trans hd
  -- he stands in front of whoever came after him
  have hpair : ∀ e, [a, e] <+ m.waiting type → e ∈ eligible → [a, e] <+ eligible := by
    intro e hae he
    have hfilter := hae.filter fun e => distance a e ≤ m.tolerance
    rwa [List.filter_eq_self.2] at hfilter
    intro d hd
    rcases List.mem_cons.1 hd with rfl | hd
    · exact (List.mem_filter.1 haE).2
    · rw [List.mem_singleton.1 hd]
      exact (List.mem_filter.1 he).2
  -- the sort is stable, so at distance zero he stays in front
  obtain ⟨rest, hsorted⟩ := sorted_head hlong hnd hsub haE hpair
  have hperm := List.perm_insertionSort (Closer a) eligible
  have hgsub : ∀ e ∈ group, e ∈ eligible := by
    intro e he
    rw [← hgroup] at he
    exact hperm.mem_iff.1 (List.mem_of_mem_take he)
  have hwaited : group ⊆ m.waiting type := fun e he => hsub.subset (hgsub e he)
  refine ⟨?_, ?_, ?_, hwaited, ⟨a, ?_, hlong, ?_⟩, ?_⟩
  · rw [← hgroup, List.length_take, hperm.length_eq]
    omega
  · have hall : (eligible.map QueueEntry.userId).Nodup := (h.users type).sublist (hsub.map _)
    have hsortedUsers : ((eligible.insertionSort (Closer a)).map QueueEntry.userId).Nodup :=
      (hperm.map _).nodup_iff.2 hall
    rw [← hgroup]
    exact hsortedUsers.sublist ((List.take_sublist _ _).map _)
  · exact fun e he => h.typed type e (hwaited he)
  · obtain ⟨k, hk⟩ : ∃ k, needed type = k + 1 := ⟨needed type - 1, by omega⟩
    rw [← hgroup, hsorted, hk, List.take_succ_cons]
    exact List.mem_cons_self
  · intro e he
    exact of_decide_eq_true (List.mem_filter.1 (hgsub e he)).2
  · intro t
    -- the group is taken out of this queue alone
    have hset : (m.formGroup needed type).2 = (m.pool type).2.set type
        ((m.waiting type).filter fun e => e.userId ∉ group.map QueueEntry.userId) := by
      unfold formGroup
      simp only [hpool, ha, ← heligible]
      rw [if_neg hlen, if_neg hlenE, ← hgroup]
    rw [hset, waiting_set, hrest]
    split
    · refine List.filter_congr fun e he => ?_
      rw [decide_eq_decide, user_mem h hwaited he]
    · rfl

/-- **When a group is formed**: enough of the pool are within the tolerance around the anchor. -/
theorem formGroup_ne_none (m : MatchmakingService T) {type : T} (hpos : 0 < needed type) :
    (m.formGroup needed type).1 ≠ none ↔ ∃ a, LongestWaiting (m.waiting type) a ∧
      needed type ≤ (m.waiting type).countP fun e => |e.rating - a.rating| ≤ m.tolerance := by
  obtain ⟨hpool, -⟩ := pool_waiting m type
  have hcount : ∀ a, ((m.waiting type).filter fun e => distance a e ≤ m.tolerance).length =
      (m.waiting type).countP fun e => |e.rating - a.rating| ≤ m.tolerance := fun a => List.countP_eq_length_filter.symm
  unfold formGroup
  simp only [hpool]
  split
  · rename_i hlen
    refine ⟨fun h => absurd rfl h, ?_⟩
    rintro ⟨a, -, hle⟩
    have hall : (m.waiting type).countP (fun e => |e.rating - a.rating| ≤ m.tolerance) ≤ _ := List.countP_le_length
    omega
  rename_i hlen
  split
  · rename_i ha
    cases hw : m.waiting type with
    | nil =>
      rw [hw, List.length_nil] at hlen
      omega
    | cons e p =>
      rw [hw] at ha
      cases ha
  rename_i a ha
  have hlong := anchor_spec ha
  rw [hcount]
  split
  · rename_i hfew
    refine ⟨fun h => absurd rfl h, ?_⟩
    rintro ⟨b, hb, hle⟩
    rw [← hlong.unique hb] at hle
    omega
  · rename_i hfew
    exact ⟨fun _ => ⟨a, hlong, by omega⟩, fun _ h => nomatch h⟩

/-- Without a group the pools stay as they are. -/
theorem formGroup_none (hg : (m.formGroup needed type).1 = none) (t : T) :
    (m.formGroup needed type).2.waiting t = m.waiting t := by
  obtain ⟨-, hrest⟩ := pool_waiting m type
  unfold formGroup at hg ⊢
  simp only at hg ⊢
  split
  · exact hrest t
  · rename_i hlen
    rw [if_neg hlen] at hg
    split
    · exact hrest t
    · rename_i a ha
      simp only [ha] at hg
      split
      · exact hrest t
      · rename_i hlenE
        rw [if_neg hlenE] at hg
        cases hg

/-- A group that is formed keeps one queue a type. -/
theorem keys_formGroup (h : (m.queues.map Prod.fst).Nodup) :
    ((m.formGroup needed type).2.queues.map Prod.fst).Nodup := by
  have hpool := keys_pool h type
  unfold formGroup
  simp only
  split
  · exact hpool
  split
  · exact hpool
  split
  · exact hpool
  · exact keys_set hpool _ _

/-! ## Runs -/

/-- Pools that lost some of their entries are still well. -/
theorem Well.sublist {m' : MatchmakingService T} (h : Well m) (hkeys : (m'.queues.map Prod.fst).Nodup)
    (hsub : ∀ t, m'.waiting t <+ m.waiting t) : Well m' where
  keys := hkeys
  typed t e he := h.typed t e ((hsub t).subset he)
  users t := (h.users t).sublist ((hsub t).map _)
  apart t t' e he e' he' hu := h.apart t t' e ((hsub t).subset he) e' ((hsub t').subset he') hu

theorem remove_well (h : Well m) (u : ℕ) : Well (m.remove u).2 := by
  refine h.sublist ?_ fun t => ?_
  · rw [keys_remove]
    exact h.keys
  · rw [waiting_remove]
    exact List.filter_sublist

/-- A group that is formed keeps the queues in order. -/
theorem formGroup_well (h : Well m) (hpos : 0 < needed type) : Well (m.formGroup needed type).2 := by
  refine h.sublist (keys_formGroup h.keys) fun t => ?_
  cases hg : (m.formGroup needed type).1 with
  | none => rw [formGroup_none hg]
  | some group =>
    rw [(formGroup_group h hpos hg).leaves]
    split
    · rename_i ht
      rw [ht]
      exact List.filter_sublist
    · exact List.Sublist.refl _

/-- Who joins keeps the queues in order. -/
theorem enqueue_well (h : Well m) (entry : QueueEntry T) : Well (m.enqueue entry) := by
  have hmem : ∀ t, ∀ e ∈ (m.enqueue entry).waiting t,
      (e ∈ m.waiting t ∧ e.userId ≠ entry.userId) ∨ (e = entry ∧ t = entry.matchType) := by
    intro t e he
    rw [waiting_enqueue] at he
    rcases List.mem_append.1 he with he | he
    · exact Or.inl ⟨(List.mem_filter.1 he).1, by simpa using (List.mem_filter.1 he).2⟩
    · split at he
      · rename_i ht
        exact Or.inr ⟨List.mem_singleton.1 he, ht⟩
      · cases he
  refine ⟨?_, ?_, ?_, ?_⟩
  · refine keys_set (keys_pool ?_ _) _ _
    rw [keys_remove]
    exact h.keys
  · intro t e he
    rcases hmem t e he with ⟨he, -⟩ | ⟨rfl, ht⟩
    · exact h.typed t e he
    · exact ht.symm
  · intro t
    rw [waiting_enqueue, List.map_append, List.nodup_append]
    refine ⟨(h.users t).sublist (List.filter_sublist.map _), ?_, ?_⟩
    · split
      · simp
      · simp
    · intro v hv v' hv'
      obtain ⟨e, he, rfl⟩ := List.mem_map.1 hv
      have hne : e.userId ≠ entry.userId := by simpa using (List.mem_filter.1 he).2
      split at hv'
      · rw [List.map_singleton, List.mem_singleton] at hv'
        rw [hv']
        exact hne
      · cases hv'
  · intro t t' e he e' he' hu
    rcases hmem t e he with ⟨he, hne⟩ | ⟨rfl, ht⟩
    · rcases hmem t' e' he' with ⟨he', -⟩ | ⟨rfl, -⟩
      · exact h.apart t t' e he e' he' hu
      · exact absurd hu hne
    · rcases hmem t' e' he' with ⟨-, hne⟩ | ⟨rfl, ht'⟩
      · exact absurd hu.symm hne
      · rw [ht, ht']

/-- One call keeps the pools well. -/
theorem step_well (hpos : ∀ t, 0 < needed t) (h : Well m) (c : Call T) : Well (m.step needed c) := by
  cases c with
  | enqueue entry => exact enqueue_well h entry
  | remove u => exact remove_well h u
  | formGroup type => exact formGroup_well h (hpos type)

theorem empty_well (tolerance : ℚ) : Well ({ tolerance } : MatchmakingService T) where
  keys := List.nodup_nil
  typed _ _ he := by cases he
  users _ := List.nodup_nil
  apart _ _ _ he := by cases he

theorem run_well (hpos : ∀ t, 0 < needed t) (tolerance : ℚ) (cs : List (Call T)) :
    Well (run (step needed) { tolerance } cs) :=
  run_inv (P := Well) (fun _ c h => step_well hpos h c) (empty_well tolerance) cs

end MatchmakingService

open MatchmakingService in
/-- **Matchmaking neither loses nor duplicates players**, after any calls for any match types. -/
theorem queue_law (needed : T → ℕ) (hpos : ∀ t, 0 < needed t) (tolerance : ℚ) (cs : List (Call T)) :
    let m := run (step needed) { tolerance } cs
    Well m ∧
    (∀ entry t, (m.enqueue entry).waiting t = ((m.waiting t).filter fun e => e.userId ≠ entry.userId) ++
      if t = entry.matchType then [entry] else []) ∧
    (∀ u t, (m.remove u).2.waiting t = (m.waiting t).filter fun e => e.userId ≠ u) ∧
    (∀ type group, (m.formGroup needed type).1 = some group → Formed needed m type group) ∧
    (∀ type, (m.formGroup needed type).1 ≠ none ↔ ∃ a, LongestWaiting (m.waiting type) a ∧
      needed type ≤ (m.waiting type).countP fun e => |e.rating - a.rating| ≤ m.tolerance) ∧
    ∀ type, (m.formGroup needed type).1 = none → ∀ t, (m.formGroup needed type).2.waiting t = m.waiting t := by
  intro m
  have hwell : Well m := run_well hpos tolerance cs
  exact ⟨hwell, waiting_enqueue m, waiting_remove m, fun type group hg => formGroup_group hwell (hpos type) hg,
    fun type => formGroup_ne_none m (hpos type), fun type hg t => formGroup_none hg t⟩

/-- Three users who wait for a game of two. -/
def threeWaiting : List (MatchmakingService.Call MatchType) :=
  [.enqueue ⟨1, "a", 1000, .oneVOne, 5⟩, .enqueue ⟨2, "b", 1900, .oneVOne, 3⟩, .enqueue ⟨3, "c", 1100, .oneVOne, 4⟩]

open MatchmakingService in
/-- The second user has waited longest, the third is nearer to him than the first. -/
theorem queue_law_three :
    let m := run (step playersForType) { tolerance := 1000 } threeWaiting
    (∀ t, 0 < playersForType t) ∧ Well m ∧
    Formed playersForType m .oneVOne [⟨2, "b", 1900, .oneVOne, 3⟩, ⟨3, "c", 1100, .oneVOne, 4⟩] ∧
    (m.formGroup playersForType .oneVOne).2.waiting .oneVOne = [⟨1, "a", 1000, .oneVOne, 5⟩] := by
  intro m
  have hpos : ∀ t, 0 < playersForType t := fun t => by cases t <;> decide
  obtain ⟨hwell, -, -, hformed, -⟩ := queue_law playersForType hpos 1000 threeWaiting
  exact ⟨hpos, hwell, hformed _ _ (by decide +kernel), by decide +kernel⟩

end Murlan.Matchmaking
