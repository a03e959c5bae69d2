import VoteOnOffice.Ballots.LostVote

/-!
# Tapping one row more than once: which orders count it once

The table stays enabled while requests are outstanding, so a user can tap a row again before the
closures of the first tap have run.  Whether a tap is a first vote is decided on the list that its
first read returns, and acted on later.

* `SameRow db V email row taps`   taps of one user on one row, who has no entry for the vote or has
                                  one for this row;
* `OneBallot`                     the row has one vote more if there was no entry, all else is as
                                  before;
* `oneBallot_iff`                 **the ballot is counted once iff there was an entry, or exactly one
                                  of the taps that made the final array has read the list before any
                                  of them had written it**.
-/

namespace VoteOnOffice
open Lineage

/-- taps of one user on one row of `V` -/
structure SameRow (db : Database) (V email : String) (row : Int) (taps : List Tap) : Prop where
  present : Present db taps
  some_tap : taps ≠ []
  nodup : taps.Nodup
  tapped : ∀ t ∈ taps, t.emailString = email ∧ t.UUID = V ∧ t.index = row
  inRange : 0 ≤ row ∧ row < (variantsOf db V).length
  counted : ∀ i < (variantsOf db V).length, ∃ c, statusAt (variantsOf db V) i = some c
  entry : rows V (listOf db email) = [] ∨ rows V (listOf db email) = [some row]

/-- one vote more on the row if the user had no entry for `V`, and no other change -/
def OneBallot (db : Database) (V email : String) (row : Int) (after : Database) : Prop :=
  ∀ i : Nat, statusAt (variantsOf after V) i = (statusAt (variantsOf db V) i).map fun c : Int =>
    if (i : Int) = row ∧ rows V (listOf db email) = [] then c + 1 else c

/-- the taps that went on from a list without any tap's entry -/
def unaware (email : String) (ul : List (String × Access Tap)) (h : List (Tap × Path)) : Nat :=
  h.countP fun tp => seen (logOf email ul) tp.1 = []

theorem rows_eq_nil {UUID : String} {arrays : List Record} :
    rows UUID arrays = [] ↔ entries UUID arrays = [] := List.map_eq_nil_iff

section
variable {db : Database} {V email : String} {row : Int} {taps : List Tap} {u : System}

theorem rows_replayUsers {h : List Tap} (hh : ∀ t ∈ h, t.UUID = V ∧ t.index = row) (hne : h ≠ []) :
    rows V (replayUsers db email h) = [some row] := by
  obtain ⟨h', t, rfl⟩ := (List.eq_nil_or_concat' h).resolve_left hne
  obtain ⟨rfl, rfl⟩ := hh t (by simp)
  rw [replayUsers_concat, rows_cast_self]

/-- the way a tap takes: a first vote iff neither the list nor a tap before it had an entry -/
theorem SameRow.took (h : SameRow db V email row taps) (hc : Completed db taps u) {t : Tap} {p : Path}
    (ht : Took db taps u.usersLog t p) :
    p = if seen (logOf email u.usersLog) t = [] ∧ rows V (listOf db email) = [] then .first
      else .second row := by
  obtain ⟨he, hV, _⟩ := h.tapped t ht.tap
  have hpath := ht.path
  unfold captured at hpath
  rw [hV, he] at hpath
  have hrows : seen (logOf email u.usersLog) t ≠ [] →
      rows V (replayUsers db email (seen (logOf email u.usersLog) t)) = [some row] := by
    refine rows_replayUsers fun v hv => ?_
    have hw := (hc.usersWriters h.present h.nodup email).mem_iff.mp
      ((seen_sublist_writers _ t).subset hv)
    exact (h.tapped v (List.mem_filter.mp hw).1).2
  have hsecond : rows V (replayUsers db email (seen (logOf email u.usersLog) t)) = [some row] →
      p = .second row := by
    intro hr
    rw [pathOf_eq_second.mpr (by rw [hr]; rfl)] at hpath
    exact (Except.ok.inj hpath).symm
  by_cases hs : seen (logOf email u.usersLog) t = []
  · have hlist : replayUsers db email (seen (logOf email u.usersLog) t) = listOf db email := by
      rw [hs]; rfl
    by_cases hr : rows V (listOf db email) = []
    · rw [if_pos ⟨hs, hr⟩]
      rw [hlist, pathOf_eq_first.mpr (rows_eq_nil.mp hr)] at hpath
      exact (Except.ok.inj hpath).symm
    · rw [if_neg fun h => hr h.2]
      exact hsecond (by rw [hlist]; exact h.entry.resolve_left hr)
  · rw [if_neg fun h => hs h.1]
    exact hsecond (hrows hs)

theorem SameRow.firstsOn (h : SameRow db V email row taps) (hc : Completed db taps u)
    (hw : ∀ tp ∈ cur (logOf V u.votesLog), Took db taps u.usersLog tp.1 tp.2) (i : Nat) :
    firstsOn (cur (logOf V u.votesLog)) i =
      if (i : Int) = row ∧ rows V (listOf db email) = [] then
        unaware email u.usersLog (cur (logOf V u.votesLog)) else 0 := by
  have hfirst : ∀ tp ∈ cur (logOf V u.votesLog), (tp.2 = .first ∧ tp.1.index = (i : Int)) ↔
      (seen (logOf email u.usersLog) tp.1 = [] ∧ rows V (listOf db email) = []) ∧
        (i : Int) = row := by
    intro tp htp
    rw [h.took hc (hw tp htp), (h.tapped tp.1 (hw tp htp).tap).2.2]
    by_cases hs : seen (logOf email u.usersLog) tp.1 = [] ∧ rows V (listOf db email) = []
    · rw [if_pos hs]
      exact ⟨fun h => ⟨hs, h.2.symm⟩, fun h => ⟨rfl, h.2.symm⟩⟩
    · rw [if_neg hs]
      exact ⟨fun h => absurd h.1 (by simp), fun h => absurd h.1 hs⟩
  unfold VoteOnOffice.firstsOn unaware
  by_cases hi : (i : Int) = row ∧ rows V (listOf db email) = []
  · rw [if_pos hi]
    refine List.countP_congr fun tp htp => ?_
    rw [decide_eq_true_eq, decide_eq_true_eq, hfirst tp htp]
    exact ⟨fun h => h.1.1, fun h => ⟨⟨h, hi.2⟩, hi.1⟩⟩
  · rw [if_neg hi, List.countP_eq_zero]
    intro tp htp hx
    rw [decide_eq_true_eq, hfirst tp htp] at hx
    exact hi ⟨hx.2, hx.1.2⟩

/-- **The ballot is counted once iff there was an entry already, or the final array descends from
exactly one tap that had not seen another tap's entry.** -/
theorem oneBallot_iff (h : SameRow db V email row taps) (hc : Completed db taps u) :
    OneBallot db V email row u.db ↔ rows V (listOf db email) ≠ [] ∨
      unaware email u.usersLog (cur (logOf V u.votesLog)) = 1 := by
  have hi := hc.inv h.present h.nodup
  have hw : ∀ tp ∈ cur (logOf V u.votesLog), Took db taps u.usersLog tp.1 tp.2 := by
    intro tp htp
    have hm : tp ∈ writers (logOf V u.votesLog) := (cur_sublist_writers _).subset htp
    exact (hi.votesBy V tp.1 tp.2 ((hi.votesOnce V).read_mem (mem_writers.mp hm))).1
  have hstraight : ∀ tp ∈ cur (logOf V u.votesLog), Straight tp := by
    intro tp htp
    have htook := h.took hc (hw tp htp)
    have hrow := (h.tapped tp.1 (hw tp htp).tap).2.2
    unfold Straight
    rw [hrow, htook]
    split
    · exact .inl rfl
    · exact .inr rfl
  obtain ⟨t, ht⟩ := List.exists_mem_of_ne_nil taps h.some_tap
  obtain ⟨d, l, hd, hl⟩ := h.present.vote t ht
  rw [(h.tapped t ht).2.1] at hd
  have hstatus := statusAt_replayVotes hstraight (hc.variants_eq h.present h.nodup hd hl)
  unfold OneBallot
  constructor
  · intro hone
    by_cases hr : rows V (listOf db email) = []
    · right
      obtain ⟨i, hi⟩ := Int.eq_ofNat_of_zero_le h.inRange.1
      obtain ⟨c, hci⟩ := h.counted i (by have := h.inRange.2; omega)
      have h1 := hone i
      rw [hstatus, hci, h.firstsOn hc hw, if_pos ⟨hi.symm, hr⟩] at h1
      simp only [Option.map_some, Option.some.injEq, if_pos (And.intro hi.symm hr)] at h1
      omega
    · exact .inl hr
  · intro hone i
    rw [hstatus, h.firstsOn hc hw]
    congr 1
    funext c
    by_cases hr : (i : Int) = row ∧ rows V (listOf db email) = []
    · rw [if_pos hr, if_pos hr, hone.resolve_left (fun h => h hr.2)]
      rfl
    · rw [if_neg hr, if_neg hr]
      exact Int.add_zero c

end

/-! ## two taps of one user -/

def twice : List Tap := [⟨0, 0, "a", 0, "v"⟩, ⟨1, 0, "a", 0, "v"⟩]

theorem sameRow_twice : SameRow twoVoters "v" "a" 0 twice where
  present := {
    keyed := twoVoters_wellKeyed
    user := by
      intro t ht
      simp only [twice, List.mem_cons, List.not_mem_nil, or_false] at ht
      rcases ht with rfl | rfl <;> exact ⟨_, _, rfl, rfl⟩
    vote := by
      intro t ht
      simp only [twice, List.mem_cons, List.not_mem_nil, or_false] at ht
      rcases ht with rfl | rfl <;> exact ⟨_, _, rfl, rfl⟩ }
  some_tap := by decide
  nodup := by decide
  tapped := by decide
  inRange := by decide
  counted := firstTaps_bothTap.counted
  entry := .inl rfl

def again : List Move :=
  [.serve 0, .deliver 0, .serve 1, .serve 1, .deliver 1, .serve 1,
    .serve 0, .deliver 0, .serve 0, .deliver 0, .serve 0, .serve 0]

/-- the second tap reads the list before the first has written it, and the array after -/
def doubled : List Move :=
  [.serve 0, .serve 1, .deliver 0, .deliver 0, .serve 0, .serve 0, .deliver 0, .serve 2,
    .serve 0, .serve 0, .deliver 0, .serve 0]

theorem oneBallot_again :
    OneBallot twoVoters "v" "a" 0 (System.played twoVoters twice again).db ↔
      rows "v" (listOf twoVoters "a") ≠ [] ∨
        unaware "a" (System.played twoVoters twice again).usersLog
          (cur (logOf "v" (System.played twoVoters twice again).votesLog)) = 1 :=
  oneBallot_iff sameRow_twice (completed_played _ rfl)

/-- **One user taps one row twice; it ends with two votes.** -/
theorem ballot_doubled :
    SameRow twoVoters "v" "a" 0 twice ∧
    Completed twoVoters twice (System.played twoVoters twice doubled) ∧
    ¬ OneBallot twoVoters "v" "a" 0 (System.played twoVoters twice doubled).db := by
  refine ⟨sameRow_twice, completed_played _ rfl, fun h => ?_⟩
  have htwo : statusAt (variantsOf (System.played twoVoters twice doubled).db "v") 0 = some 2 := rfl
  have hone := h 0
  rw [htwo] at hone
  revert hone
  decide

end VoteOnOffice
