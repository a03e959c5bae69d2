import VoteOnOffice.Taps.Done

/-!
# Ballots of one user in several votes: which orders of requests keep them all

Both ways of a tap write the user's WHOLE list, made from the copy that its first read returned.  A
tap on one vote therefore carries, for every other vote, the entry that was there when it read.

* `OwnTaps db email taps`   taps of one user on pairwise different votes;
* `BallotsKept`             the list has the tapped row for every tapped vote, and for every other
                            vote the entries it had;
* `entries_replayUsers`, `rows_replayUsers_mem`
                            what a chain of writes leaves for one vote;
* `ballotsKept_iff`         **all ballots are kept iff the final list descends from every tap that
                            changes its vote's entry**.
-/

namespace VoteOnOffice
open Lineage

/-- taps of one user, at most one on each vote -/
structure OwnTaps (db : Database) (email : String) (taps : List Tap) : Prop where
  present : Present db taps
  user : ∃ d l, db.users.lookup email = some d ∧ d .userVotesList = some (.records l)
  tapped : ∀ t ∈ taps, t.emailString = email
  votes : (taps.map Tap.UUID).Nodup
  single : ∀ V, (entries V (listOf db email)).length ≤ 1

/-- the list names the tapped rows, and is as before for every other vote -/
def BallotsKept (db : Database) (email : String) (taps : List Tap) (after : Database) : Prop :=
  (∀ t ∈ taps, rows t.UUID (listOf after email) = [some t.index]) ∧
    ∀ V, (∀ t ∈ taps, t.UUID ≠ V) → entries V (listOf after email) = entries V (listOf db email)

theorem entries_replayUsers {V : String} (db : Database) (email : String) {h : List Tap}
    (hV : ∀ t ∈ h, t.UUID ≠ V) :
    entries V (replayUsers db email h) = entries V (listOf db email) := by
  induction h using List.reverseRecOn with
  | nil => rfl
  | append_singleton h t ih =>
    rw [replayUsers_concat, entries_cast_ne (Ne.symm (hV t (by simp)))]
    exact ih fun v hv => hV v (List.mem_append_left _ hv)

theorem rows_replayUsers_mem (db : Database) (email : String) {h : List Tap}
    (hvotes : (h.map Tap.UUID).Nodup) {t : Tap} (ht : t ∈ h) :
    rows t.UUID (replayUsers db email h) = [some t.index] := by
  induction h using List.reverseRecOn with
  | nil => cases ht
  | append_singleton h v ih =>
    rw [List.map_append, List.nodup_append] at hvotes
    rw [replayUsers_concat]
    rcases List.mem_append.mp ht with ht | ht
    · have hne : t.UUID ≠ v.UUID := hvotes.2.2 _ (List.mem_map_of_mem ht) _ (by simp)
      rw [rows_cast_ne hne]
      exact ih hvotes.1 ht
    · obtain rfl := List.mem_singleton.mp ht
      exact rows_cast_self ..

section
variable {db : Database} {email : String} {taps : List Tap} {u : System}

/-- **All ballots are kept iff the final list descends from every tap that changes an entry.** -/
theorem ballotsKept_iff (h : OwnTaps db email taps) (hc : Completed db taps u) :
    BallotsKept db email taps u.db ↔
      ∀ t ∈ taps, t ∈ cur (logOf email u.usersLog) ∨
        rows t.UUID (listOf db email) = [some t.index] := by
  have hnodup : taps.Nodup := List.Nodup.of_map _ h.votes
  obtain ⟨d, l, hd, hl⟩ := h.user
  have hafter := hc.list_eq h.present hnodup hd hl
  have hwriters := hc.usersWriters h.present hnodup email
  rw [List.filter_eq_self.mpr fun t ht => decide_eq_true (h.tapped t ht)] at hwriters
  have hsub := cur_sublist_writers (logOf email u.usersLog)
  have hmem : ∀ t ∈ cur (logOf email u.usersLog), t ∈ taps := fun t ht =>
    hwriters.mem_iff.mp (hsub.subset ht)
  have hcur : ((cur (logOf email u.usersLog)).map Tap.UUID).Nodup :=
    (hsub.map Tap.UUID).nodup ((hwriters.map Tap.UUID).nodup_iff.mpr h.votes)
  have hout : ∀ t ∈ taps, t ∉ cur (logOf email u.usersLog) →
      rows t.UUID (listOf u.db email) = rows t.UUID (listOf db email) := by
    intro t ht hno
    have hV : ∀ v ∈ cur (logOf email u.usersLog), v.UUID ≠ t.UUID := by
      intro v hv e
      exact hno (List.inj_on_of_nodup_map h.votes (hmem v hv) ht e ▸ hv)
    unfold rows
    rw [hafter, entries_replayUsers db email hV]
  constructor
  · rintro ⟨hrows, _⟩ t ht
    by_cases hin : t ∈ cur (logOf email u.usersLog)
    · exact .inl hin
    · exact .inr (by rw [← hout t ht hin]; exact hrows t ht)
  · intro hkept
    constructor
    · intro t ht
      by_cases hin : t ∈ cur (logOf email u.usersLog)
      · rw [hafter]
        exact rows_replayUsers_mem db email hcur hin
      · rw [hout t ht hin]
        exact (hkept t ht).resolve_left hin
    · intro V hV
      rw [hafter]
      exact entries_replayUsers db email fun t ht => hV t (hmem t ht)

end

/-! ## one user, two votes -/

def twoVotes : Database :=
  ((Database.empty.setData .votes "v" (voteData "" "" "" "v" [variant 1 "x", variant 2 "y"])).setData
    .votes "w" (voteData "" "" "" "w" [variant 1 "x"])).setData .users "a" (userData "a")

/-- `a` taps a row of each -/
def oneEach : List Tap := [⟨0, 0, "a", 1, "v"⟩, ⟨1, 1, "a", 0, "w"⟩]

theorem ownTaps_oneEach : OwnTaps twoVotes "a" oneEach where
  present := {
    keyed := ((wellKeyed_empty.setVote rfl).setVote rfl).setUser rfl
    user := by
      intro t ht
      simp only [oneEach, List.mem_cons, List.not_mem_nil, or_false] at ht
      rcases ht with rfl | rfl <;> exact ⟨_, _, rfl, rfl⟩
    vote := by
      intro t ht
      simp only [oneEach, List.mem_cons, List.not_mem_nil, or_false] at ht
      rcases ht with rfl | rfl <;> exact ⟨_, _, rfl, rfl⟩ }
  user := ⟨_, _, rfl, rfl⟩
  tapped := by decide
  votes := by decide
  single := fun _ => Nat.zero_le 1

def eachInTurn : List Move :=
  [.serve 0, .deliver 0, .serve 1, .serve 1, .deliver 1, .serve 1,
    .serve 0, .deliver 0, .serve 0, .serve 0, .deliver 0, .serve 0]

/-- both taps read the list before either has written it -/
def eachOverlapping : List Move :=
  [.serve 0, .serve 1, .deliver 0, .deliver 0, .serve 0, .serve 0, .deliver 0, .serve 0,
    .serve 0, .deliver 0, .serve 0, .serve 0]

theorem ballotsKept_eachInTurn :
    BallotsKept twoVotes "a" oneEach (System.played twoVotes oneEach eachInTurn).db ↔
      ∀ t ∈ oneEach, t ∈ cur (logOf "a" (System.played twoVotes oneEach eachInTurn).usersLog) ∨
        rows t.UUID (listOf twoVotes "a") = [some t.index] :=
  ballotsKept_iff ownTaps_oneEach (completed_played _ rfl)

/-- **The second tap's list has no entry for the first tap's vote.** -/
theorem ballot_erased :
    OwnTaps twoVotes "a" oneEach ∧
    Completed twoVotes oneEach (System.played twoVotes oneEach eachOverlapping) ∧
    ¬ BallotsKept twoVotes "a" oneEach (System.played twoVotes oneEach eachOverlapping).db := by
  refine ⟨ownTaps_oneEach, completed_played _ rfl, fun h => ?_⟩
  have hnone : rows "v" (listOf (System.played twoVotes oneEach eachOverlapping).db "a") = [] := rfl
  have hrow := h.1 ⟨0, 0, "a", 1, "v"⟩ (by decide)
  rw [hnone] at hrow
  cases hrow

end VoteOnOffice
