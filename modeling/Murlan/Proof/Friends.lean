import Murlan.Base.Run
import Murlan.Spec.Friends

/-!
# A block holds until it is lifted

* `Friends.Single`: one row between two users, over all runs.
* `FriendsWorld.blocks_hold`: as long as nobody blocks a user who has blocked him, a block
  is the row between the two until the blocker lifts it.
* `blocked_user_lifts_block`: the blocked user blocks back, unblocks, and sends a request.
-/

namespace Murlan

variable {U : Type} [DecidableEq U]

namespace Friendship

variable {r : Friendship U} {a b : U}

theorem between_iff : r.between a b = true ↔
    (r.requesterId = a ∧ r.addresseeId = b) ∨ (r.requesterId = b ∧ r.addresseeId = a) := by
  simp [between]

end Friendship

namespace Friends

/-- One row between two users, under one number each. -/
structure Single (f : Friends U) : Prop where
  one : f.rows.Pairwise fun r r' => r'.between r.requesterId r.addresseeId = false
  ids : f.rows.Pairwise fun r r' => r.id ≠ r'.id
  below : ∀ r ∈ f.rows, r.id ≤ f.seq

variable {f : Friends U}

theorem single_keep (h : Single f) (p : Friendship U → Bool) : Single (f.keep p) where
  one := h.one.filter p
  ids := h.ids.filter p
  below r hr := h.below r (List.mem_of_mem_filter hr)

/-- A row between two users who have none. -/
theorem single_add (h : Single f) {a b : U} (status : FriendStatus) (hnone : ∀ r ∈ f.rows, r.between a b = false) :
    Single (f.add a b status) where
  one := by
    refine List.pairwise_append.mpr ⟨h.one, List.pairwise_singleton _ _, ?_⟩
    intro r hr r' hr'
    obtain rfl := List.mem_singleton.mp hr'
    have hfalse := hnone r hr
    rw [Bool.eq_false_iff, Ne, Friendship.between_iff] at hfalse ⊢
    rintro (⟨rfl, rfl⟩ | ⟨rfl, rfl⟩)
    · exact hfalse (.inl ⟨rfl, rfl⟩)
    · exact hfalse (.inr ⟨rfl, rfl⟩)
  ids := by
    refine List.pairwise_append.mpr ⟨h.ids, List.pairwise_singleton _ _, ?_⟩
    intro r hr r' hr'
    obtain rfl := List.mem_singleton.mp hr'
    have hle := h.below r hr
    show r.id ≠ f.seq + 1
    omega
  below r hr := by
    rcases List.mem_append.mp hr with hr | hr
    · exact (h.below r hr).trans (Nat.le_succ _)
    · obtain rfl := List.mem_singleton.mp hr
      exact Nat.le_refl _

/-- An accepted request is no second row. -/
theorem single_accept (h : Single f) (id : ℕ) :
    Single { f with rows := f.rows.map fun r => if r.id = id then { r with status := .accepted } else r } := by
  have hparty : ∀ r : Friendship U, ∀ a b,
      (if r.id = id then { r with status := FriendStatus.accepted } else r).between a b = r.between a b := by
    intro r a b
    split
    · rfl
    · rfl
  have hid : ∀ r : Friendship U, (if r.id = id then { r with status := FriendStatus.accepted } else r).id = r.id := by
    intro r
    split
    · rfl
    · rfl
  refine ⟨List.pairwise_map.mpr (h.one.imp ?_), List.pairwise_map.mpr (h.ids.imp ?_), ?_⟩
  · intro r r' hrr
    rw [hparty]
    split
    · exact hrr
    · exact hrr
  · intro r r' hrr
    rw [hid, hid]
    exact hrr
  · intro r hr
    obtain ⟨r₀, hr₀, rfl⟩ := List.mem_map.mp hr
    rw [hid]
    exact h.below r₀ hr₀

theorem single_block (h : Single f) (a b : U) : Single (f.block a b) := by
  unfold block
  split
  · exact h
  · refine single_add (single_keep h _) _ fun r hr => ?_
    simpa using List.of_mem_filter hr

/-- A request adds a row only between two who have none. -/
theorem single_request (h : Single f) (a b : U) : Single (f.request a b) := by
  unfold request
  split
  · exact h
  · rename_i hnone
    refine single_add h _ fun r hr => ?_
    have hfind : f.findBetween a b = none := by simpa using hnone
    simpa using List.find?_eq_none.mp hfind r hr

/-- An answer adds no row. -/
theorem single_respond (h : Single f) (id : ℕ) (userId : U) (accept : Bool) : Single (f.respond id userId accept) := by
  unfold respond
  split
  · exact h
  · split
    · split
      · exact single_accept h id
      · exact single_keep h _
    · exact h

theorem single_remove (h : Single f) (id : ℕ) (userId : U) : Single (f.remove id userId) := by
  unfold remove
  split
  · exact h
  · split
    · exact single_keep h _
    · exact h

/-- Two rows of one pair are one row. -/
theorem Single.eq (h : Single f) {r r' : Friendship U} (hr : r ∈ f.rows) (hr' : r' ∈ f.rows) {a b : U}
    (hab : r.between a b = true) (hab' : r'.between a b = true) : r = r' := by
  have hapart : ∀ x y : Friendship U, x.between a b = true → y.between a b = true →
      y.between x.requesterId x.addresseeId = true := by
    intro x y hx hy
    rw [Friendship.between_iff] at hx hy ⊢
    rcases hx with ⟨rfl, rfl⟩ | ⟨rfl, rfl⟩
    · exact hy
    · exact hy.symm
  obtain ⟨i, hi, rfl⟩ := List.mem_iff_getElem.mp hr
  obtain ⟨j, hj, rfl⟩ := List.mem_iff_getElem.mp hr'
  have hone := List.pairwise_iff_getElem.mp h.one
  rcases Nat.lt_trichotomy i j with hij | rfl | hij
  · have hfalse := hone i j hi hj hij
    rw [hapart _ _ hab hab'] at hfalse
    cases hfalse
  · rfl
  · have hfalse := hone j i hj hi hij
    rw [hapart _ _ hab' hab] at hfalse
    cases hfalse

/-- The row with a number is the one found. -/
theorem Single.find (h : Single f) {r : Friendship U} (hr : r ∈ f.rows) : f.rows.find? (·.id = r.id) = some r := by
  cases hfind : f.rows.find? (·.id = r.id) with
  | none =>
    have hnone := List.find?_eq_none.mp hfind r hr
    simp at hnone
  | some r' =>
    have hid : r'.id = r.id := by simpa using List.find?_some hfind
    obtain ⟨i, hi, rfl⟩ := List.mem_iff_getElem.mp hr
    obtain ⟨j, hj, rfl⟩ := List.mem_iff_getElem.mp (List.mem_of_find?_eq_some hfind)
    have hids := List.pairwise_iff_getElem.mp h.ids
    rcases Nat.lt_trichotomy i j with hij | rfl | hij
    · exact absurd hid.symm (hids i j hi hj hij)
    · rfl
    · exact absurd hid (hids j i hj hi hij)

end Friends

namespace FriendsWorld

/-- Every block that stands is a row. -/
def Held (w : FriendsWorld U) : Prop :=
  ∀ b a, w.blocks b a = true → ∃ r ∈ w.friends.rows, r.requesterId = b ∧ r.addresseeId = a ∧ r.status = .blocked

/-- Nobody blocks a user who has blocked him. -/
def Unanswered (w : FriendsWorld U) : FriendCall U → Prop
  | .block blockerId blockedId => w.blocks blockedId blockerId = false
  | _ => True

variable {w : FriendsWorld U}

/-- Every call keeps one row a pair. -/
theorem single_step (h : w.friends.Single) (c : FriendCall U) : (w.step c).friends.Single := by
  cases c with
  | requestByUsername requesterId target =>
    show (FriendsService.requestByUsername w.friends requesterId target).Single
    unfold FriendsService.requestByUsername
    split
    · exact h
    · split
      · exact h
      · split
        · exact h
        · exact Friends.single_request h _ _
  | respond userId id accept => exact Friends.single_respond h id userId accept
  | remove userId id => exact Friends.single_remove h id userId
  | block a b =>
    rw [step]
    split
    · exact h
    · exact Friends.single_block h a b
  | unblock a b => exact Friends.single_keep h _

omit [DecidableEq U] in
/-- A row that is kept with its block. -/
theorem held_of_rows {w' : FriendsWorld U} (h : Held w) (hblocks : w'.blocks = w.blocks)
    (hrows : ∀ r ∈ w.friends.rows, r.status = .blocked → r ∈ w'.friends.rows) : Held w' := by
  intro b a hb
  rw [hblocks] at hb
  obtain ⟨r, hr, hb, ha, hstatus⟩ := h b a hb
  exact ⟨r, hrows r hr hstatus, hb, ha, hstatus⟩

/-- A block of someone who has not blocked stands. -/
theorem held_block (h : Held w) {x y : U} (hxy : x ≠ y) (hok : w.blocks y x = false) : Held (w.step (.block x y)) := by
  intro b a hb
  rw [step, if_neg hxy] at hb ⊢
  simp only [setBlock] at hb
  simp only [Friends.block, if_neg hxy, Friends.add]
  split at hb
  · obtain ⟨rfl, rfl⟩ := ‹b = x ∧ a = y›
    exact ⟨_, List.mem_append_right _ (List.mem_singleton_self _), rfl, rfl, rfl⟩
  · rename_i hne
    obtain ⟨r, hr, rfl, rfl, hstatus⟩ := h b a hb
    refine ⟨r, List.mem_append_left _ (List.mem_filter.mpr ⟨hr, ?_⟩), rfl, rfl, hstatus⟩
    rw [Bool.not_eq_true', Bool.eq_false_iff, Ne, Friendship.between_iff]
    rintro (⟨rfl, rfl⟩ | ⟨rfl, rfl⟩)
    · exact hne ⟨rfl, rfl⟩
    · -- a block of the other way round is not answered
      rw [hb] at hok
      cases hok

/-- A block that is lifted is gone. -/
theorem held_unblock (h : Held w) (x y : U) : Held (w.step (.unblock x y)) := by
  intro b a hb
  simp only [step, setBlock] at hb
  split at hb
  · cases hb
  · rename_i hne
    obtain ⟨r, hr, rfl, rfl, hstatus⟩ := h b a hb
    refine ⟨r, List.mem_filter.mpr ⟨hr, ?_⟩, rfl, rfl, hstatus⟩
    simp only [hstatus, decide_true, Bool.true_and, Bool.not_eq_true', Bool.and_eq_false_iff, decide_eq_false_iff_not]
    by_contra hboth
    push Not at hboth
    exact hne hboth

/-- Every call with no answer to a block keeps the blocks. -/
theorem held_step (hs : w.friends.Single) (h : Held w) {c : FriendCall U} (hok : Unanswered w c) : Held (w.step c) := by
  cases c with
  | requestByUsername requesterId target =>
    refine held_of_rows h rfl fun r hr _ => ?_
    show r ∈ (FriendsService.requestByUsername w.friends requesterId target).rows
    unfold FriendsService.requestByUsername
    split
    · exact hr
    · split
      · exact hr
      · split
        · exact hr
        · unfold Friends.request
          split
          · exact hr
          · exact List.mem_append_left _ hr
  | respond userId id accept =>
    refine held_of_rows h rfl fun r hr hstatus => ?_
    show r ∈ (w.friends.respond id userId accept).rows
    -- an answer is to a pending row, a block is not pending
    have hother : ∀ row, w.friends.rows.find? (·.id = id) = some row → row.status = .pending → r.id ≠ id := by
      rintro row hfind hpending rfl
      rw [hs.find hr] at hfind
      obtain rfl := Option.some.inj hfind
      rw [hstatus] at hpending
      cases hpending
    unfold Friends.respond
    split
    · exact hr
    · rename_i row hfind
      split
      · rename_i hmay
        have hne := hother row hfind hmay.2
        split
        · refine List.mem_map.mpr ⟨r, hr, ?_⟩
          rw [if_neg hne]
        · exact List.mem_filter.mpr ⟨hr, by simpa using hne⟩
      · exact hr
  | remove userId id =>
    refine held_of_rows h rfl fun r hr hstatus => ?_
    show r ∈ (w.friends.remove id userId).rows
    unfold Friends.remove
    split
    · exact hr
    · rename_i row hfind
      split
      · rename_i hmay
        refine List.mem_filter.mpr ⟨hr, ?_⟩
        -- a block cannot be removed by `remove`
        have hne : r.id ≠ id := by
          rintro rfl
          rw [hs.find hr] at hfind
          obtain rfl := Option.some.inj hfind
          exact hmay.2 hstatus
        simpa using hne
      · exact hr
  | block x y =>
    by_cases hxy : x = y
    · rw [step, if_pos hxy]
      exact h
    · exact held_block h hxy hok
  | unblock x y => exact held_unblock h x y

/-- The row of a pair is the row that is found. -/
theorem findBetween_of_mem (hs : w.friends.Single) {r : Friendship U} (hr : r ∈ w.friends.rows) {a b : U}
    (hab : r.between a b = true) : w.friends.findBetween a b = some r := by
  cases hfind : w.friends.findBetween a b with
  | none =>
    have hnone := List.find?_eq_none.mp hfind r hr
    exact absurd hab hnone
  | some r' =>
    have hab' := List.find?_some hfind
    rw [hs.eq (List.mem_of_find?_eq_some hfind) hr hab' hab]

/-- **A block holds until the blocker lifts it**, in every run in which nobody blocks a user
who has blocked him; and between two users there is never more than one row. -/
theorem blocks_hold (cs : List (FriendCall U)) :
    let w := run step {} cs
    (∀ r ∈ w.friends.rows, ∀ r' ∈ w.friends.rows, ∀ a b, r.between a b = true → r'.between a b = true → r = r') ∧
    (Guarded step Unanswered {} cs → ∀ b a, w.blocks b a = true →
      (∀ r ∈ w.friends.rows, r.between a b = true → r.status = .blocked ∧ r.requesterId = b) ∧
        FriendsService.areFriends w.friends a b = false) := by
  intro w
  have hboot : (FriendsWorld.friends (U := U) {}).Single := ⟨.nil, .nil, fun _ h => by cases h⟩
  have hsingle : w.friends.Single :=
    run_inv (P := fun w : FriendsWorld U => w.friends.Single) (fun _ c h => single_step h c) hboot cs
  refine ⟨fun r hr r' hr' a b => hsingle.eq hr hr', ?_⟩
  intro hg b a hblock
  have hheld : w.friends.Single ∧ Held w :=
    guarded_inv (P := fun w : FriendsWorld U => w.friends.Single ∧ Held w)
      (fun _ c h hok => ⟨single_step h.1 c, held_step h.1 h.2 hok⟩) ⟨hboot, fun _ _ h => by cases h⟩ cs hg
  obtain ⟨r, hr, rfl, rfl, hstatus⟩ := hheld.2 b a hblock
  have hself : r.between r.addresseeId r.requesterId = true := Friendship.between_iff.mpr (.inr ⟨rfl, rfl⟩)
  refine ⟨fun r' hr' hab => ?_, ?_⟩
  · rw [hsingle.eq hr' hr hab hself]
    exact ⟨hstatus, rfl⟩
  · unfold FriendsService.areFriends
    rw [findBetween_of_mem hsingle hr hself]
    simp [hstatus]

theorem blocks_hold_request :
    let w := run step {} [.block 2 1, .requestByUsername 1 (some 2), .remove 1 1]
    w.blocks 2 1 = true ∧ FriendsService.areFriends w.friends 1 2 = false :=
  ⟨rfl, ((blocks_hold [.block 2 1, .requestByUsername 1 (some 2), .remove 1 1]).2
    ⟨rfl, trivial, trivial, trivial⟩ 2 1 rfl).2⟩

/-- User 2 blocks user 1, who blocks back, lifts his own block and sends a request. -/
theorem blocked_user_lifts_block :
    let w := run step {} [.block 2 1, .block 1 2, .unblock 1 2, .requestByUsername 1 (some 2)]
    w.blocks 2 1 = true ∧ w.friends.findBetween 1 2 = some ⟨3, 1, 2, .pending⟩ := by
  decide

end FriendsWorld

end Murlan
