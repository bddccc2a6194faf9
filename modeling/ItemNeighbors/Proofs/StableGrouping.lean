import Mathlib.Algebra.GroupWithZero.Nat
import Mathlib.Data.List.Basic
import ItemNeighbors.Proofs.Packing

/-!
# Packing is a stable grouping

The users of a packed snapshot share out the ratings among themselves: each rating goes to one user,
and no rating is lost, made up or moved past another one of its user. A packed snapshot that is
packed again has the same users with the same ratings.

- `PackedSnapshot.flatMap_filter_perm`: blocks of different users make up all ratings.
- `PackedSnapshot.ratings_toSnapshot_perm`: what a build sees is what was packed, in another order.
- `PackedSnapshot.userIds_ofRatings_ratings`, `PackedSnapshot.ratingsOf_ofRatings_ratings`: packing
  again.
- `PackedSnapshot.groups`: all of this.
-/

namespace ItemNeighbors

namespace PackedSnapshot

/-- If everyone who rated is among the users, their blocks make up all ratings. -/
theorem flatMap_filter_perm {users : List UserId} {l : List Rating} (hnodup : users.Nodup)
    (hall : ∀ r ∈ l, r.user ∈ users) :
    (users.flatMap fun user => l.filter (·.user == user)).Perm l := by
  induction users generalizing l with
  | nil =>
    have hnil : l = [] := List.eq_nil_iff_forall_not_mem.mpr fun r hr => nomatch hall r hr
    rw [hnil]
    rfl
  | cons u users ih =>
    obtain ⟨hu, hnodup⟩ := List.nodup_cons.mp hnodup
    -- the other users share out what is left without the block of the first one
    have hothers : ∀ user ∈ users, l.filter (·.user == user) =
        (l.filter (!·.user == u)).filter (·.user == user) := by
      intro user huser
      rw [List.filter_filter]
      refine List.filter_congr fun r _ => ?_
      by_cases hr : r.user = user
      · have hne : r.user ≠ u := fun heq => hu (heq ▸ hr ▸ huser)
        simp [hr, hr ▸ hne]
      · simp [hr]
    have hrest : ∀ r ∈ l.filter (!·.user == u), r.user ∈ users := by
      intro r hr
      obtain ⟨hr, hne⟩ := List.mem_filter.mp hr
      exact (List.mem_cons.mp (hall r hr)).resolve_left (by simpa using hne)
    rw [List.flatMap_cons, List.flatMap_congr hothers]
    exact ((ih hnodup hrest).append_left _).trans (List.filter_append_perm _ l)

/-- The ratings of the listed users, by the list that was packed. -/
theorem ratings_toSnapshot (l : List Rating) : (ofRatings l).toSnapshot.ratings =
    (ofRatings l).userIds.toList.flatMap fun user => l.filter (·.user == user) :=
  List.flatMap_congr fun user _ => ratingsOf_ofRatings l user

/-- What was packed is what a build sees, in another order. -/
theorem ratings_toSnapshot_perm (l : List Rating) : (ofRatings l).toSnapshot.ratings.Perm l := by
  rw [ratings_toSnapshot]
  exact flatMap_filter_perm (nodup_userIds_ofRatings l)
    fun r hr => mem_userIds_ofRatings.mpr ⟨r, hr, rfl⟩

/-! ## Packing again -/

theorem user_of_mem_ratingsOf {l : List Rating} {user : UserId} {r : Rating}
    (hr : r ∈ (ofRatings l).ratingsOf user) : r.user = user := by
  rw [ratingsOf_ofRatings] at hr
  simpa using (List.mem_filter.mp hr).2

/-- Exactly the listed users have ratings. -/
theorem ratingsOf_ne_nil_iff {l : List Rating} {user : UserId} :
    (ofRatings l).ratingsOf user ≠ [] ↔ user ∈ (ofRatings l).userIds.toList := by
  rw [ratingsOf_ofRatings, mem_userIds_ofRatings, ne_eq, List.filter_eq_nil_iff]
  simp

theorem userIds_ofRatings_ratings (l : List Rating) :
    (ofRatings (ofRatings l).toSnapshot.ratings).userIds = (ofRatings l).userIds :=
  Array.toList_inj.mp (userIds_ofRatings_flatMap (nodup_userIds_ofRatings l)
    (fun _ _ _ hr => user_of_mem_ratingsOf hr) fun _ huser => ratingsOf_ne_nil_iff.mpr huser)

theorem ratingsOf_ofRatings_ratings (l : List Rating) (user : UserId) :
    (ofRatings (ofRatings l).toSnapshot.ratings).ratingsOf user = (ofRatings l).ratingsOf user := by
  have hblock : (ofRatings l).toSnapshot.ratings.filter (·.user == user) =
      if user ∈ (ofRatings l).userIds.toList then (ofRatings l).ratingsOf user else [] :=
    filter_flatMap_of_user (nodup_userIds_ofRatings l)
      (fun _ _ _ hr => user_of_mem_ratingsOf hr) user
  rw [ratingsOf_ofRatings, hblock]
  split
  · rfl
  · rename_i huser
    exact (not_not.mp (mt ratingsOf_ne_nil_iff.mp huser)).symm

/-- **Packing is a stable grouping.** Users and items are listed in the order of their first rating;
a user has his ratings in their order, repeated ones too, and an unknown user has none. All ratings
together are those that were packed, counted one by one or user by user. Packing them again, user by
user, keeps the users, their order and the ratings of each. -/
theorem groups (l : List Rating) :
    let s := ofRatings l
    let again := ofRatings (s.userIds.toList.flatMap s.ratingsOf)
    s.userIds.toList = (l.map (·.user)).eraseDups ∧
      s.itemIds.toList = (l.map (·.item)).eraseDups ∧
      (∀ user, s.ratingsOf user = l.filter (·.user == user)) ∧
      (s.userIds.toList.flatMap s.ratingsOf).Perm l ∧
      s.numRatings = l.length ∧
      s.numRatings = (s.userIds.toList.map fun user => (s.ratingsOf user).length).sum ∧
      again.userIds = s.userIds ∧ ∀ user, again.ratingsOf user = s.ratingsOf user := by
  intro s again
  have hperm : (s.userIds.toList.flatMap s.ratingsOf).Perm l := ratings_toSnapshot_perm l
  have hcount : s.numRatings = l.length := (packs_ofRatings l).numRatings
  refine ⟨userIds_ofRatings l, itemIds_ofRatings l, ratingsOf_ofRatings l, hperm, hcount, ?_,
    userIds_ofRatings_ratings l, ratingsOf_ofRatings_ratings l⟩
  rw [hcount, ← hperm.length_eq, List.length_flatMap]

end PackedSnapshot

end ItemNeighbors
