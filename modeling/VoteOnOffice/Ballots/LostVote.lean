import VoteOnOffice.Taps.Done

/-!
# Votes of other users: which orders of requests keep them

Any number of users who have no entry for a vote tap one row of it each.  All of them go to
`voteFirst`, which reads the whole array of variants, adds one and writes the whole array back.

* `FirstTaps db V taps`     the users and their taps;
* `NoVoteLost`              every count has grown by the number of taps on its row;
* `statusAt_replayVotes`    the counts after a replay of such taps, and of taps on the row that is
                            chosen already;
* `noVoteLost_iff`          **no vote is lost iff no tap's array is written between the read and the
                            write of another tap's**.
-/

namespace VoteOnOffice
open Lineage

/-- taps of different users who have not voted in `V` before -/
structure FirstTaps (db : Database) (V : String) (taps : List Tap) : Prop where
  present : Present db taps
  vote : ∃ d l, db.votes.lookup V = some d ∧ d .voteVariants = some (.records l)
  counted : ∀ i < (variantsOf db V).length, ∃ c, statusAt (variantsOf db V) i = some c
  users : (taps.map Tap.emailString).Nodup
  tapped : ∀ t ∈ taps, t.UUID = V
  fresh : ∀ t ∈ taps, entries V (listOf db t.emailString) = []
  row : ∀ t ∈ taps, 0 ≤ t.index ∧ t.index < (variantsOf db V).length

def tapsOn (taps : List Tap) (i : Nat) : Nat := taps.countP fun t => t.index = (i : Int)

/-- every count has grown by the number of taps on its row -/
def NoVoteLost (db : Database) (V : String) (taps : List Tap) (after : Database) : Prop :=
  ∀ i, statusAt (variantsOf after V) i
    = (statusAt (variantsOf db V) i).map fun c : Int => c + tapsOn taps i

def firstsOn (h : List (Tap × Path)) (i : Nat) : Nat :=
  h.countP fun tp => tp.2 = .first ∧ tp.1.index = (i : Int)

/-- a tap that is a first vote, or a change to the row already chosen -/
def Straight (tp : Tap × Path) : Prop := tp.2 = .first ∨ tp.2 = .second tp.1.index

instance (tp : Tap × Path) : Decidable (Straight tp) := inferInstanceAs (Decidable (_ ∨ _))

theorem statusAt_count {tp : Tap × Path} (h : Straight tp) {array array' : List Record}
    (hc : tp.2.count tp.1.index array = .ok array') (i : Nat) :
    statusAt array' i = (statusAt array i).map fun c : Int => c + firstsOn [tp] i := by
  obtain ⟨t, p⟩ := tp
  unfold firstsOn
  rw [List.countP_singleton]
  simp only [decide_eq_true_eq]
  rcases h with rfl | h
  · have h0 : 0 ≤ t.index := (firstCount_eq_ok.mp hc).choose_spec.1
    rw [statusAt_firstCount hc]
    by_cases hi : t.index = i
    · have hi' : i = t.index.toNat := by omega
      rw [if_pos hi', if_pos ⟨rfl, hi⟩]; rfl
    · have hi' : ¬ i = t.index.toNat := by omega
      rw [if_neg hi', if_neg fun h => hi h.2]
      simp
  · simp only at h
    subst h
    obtain ⟨n, _, h0, hn, _⟩ := secondCount_eq_ok.mp hc
    have hsame : array = array' := by
      have := secondCount_same h0 hn
      exact Except.ok.inj (this.symm.trans hc)
    rw [← hsame, if_neg fun h => by cases h.1]
    simp

theorem statusAt_replayVotes {h : List (Tap × Path)} (hs : ∀ tp ∈ h, Straight tp)
    {array array' : List Record}
    (hr : h.foldlM (fun a tp => tp.2.count tp.1.index a) array = .ok array') (i : Nat) :
    statusAt array' i = (statusAt array i).map fun c : Int => c + firstsOn h i := by
  induction h generalizing array with
  | nil =>
    cases hr
    simp [firstsOn]
  | cons tp h ih =>
    rw [List.foldlM_cons] at hr
    obtain ⟨array₁, h1, h2⟩ := bind_eq_ok.mp hr
    rw [ih (fun x hx => hs x (List.mem_cons_of_mem _ hx)) h2,
      statusAt_count (hs tp List.mem_cons_self) h1]
    have hsplit : firstsOn (tp :: h) i = firstsOn [tp] i + firstsOn h i := by
      unfold firstsOn
      rw [← List.countP_append, List.singleton_append]
    cases statusAt array i with
    | none => rfl
    | some c =>
      simp only [Option.map_some, Option.some.injEq]
      omega

section
variable {db : Database} {V : String} {taps : List Tap} {u : System}

theorem FirstTaps.nodup (h : FirstTaps db V taps) : taps.Nodup := List.Nodup.of_map _ h.users

theorem FirstTaps.first (h : FirstTaps db V taps) (hc : Completed db taps u) {tp : Tap × Path}
    (hw : tp ∈ writers (logOf V u.votesLog)) : tp.2 = .first := by
  have hi := hc.inv h.present h.nodup
  obtain ⟨t, p⟩ := tp
  obtain ⟨htook, _⟩ := hi.votesBy V t p ((hi.votesOnce V).read_mem (mem_writers.mp hw))
  have hlist : captured db u.usersLog t = listOf db t.emailString := by
    unfold captured
    rw [seen_eq_nil h.present h.users hc htook.tap]; rfl
  have hpath : pathOf t.UUID (captured db u.usersLog t) = .ok p := htook.path
  rw [hlist, pathOf_eq_first.mpr (by rw [h.tapped t htook.tap]; exact h.fresh t htook.tap)] at hpath
  exact (Except.ok.inj hpath).symm

theorem FirstTaps.writers_countP (h : FirstTaps db V taps) (hc : Completed db taps u) (k : Int) :
    (writers (logOf V u.votesLog)).countP (fun tp => tp.1.index = k)
      = taps.countP fun t => t.index = k := by
  have hperm := hc.votesWriters h.present h.nodup V
  have hall : (taps.filter fun t => t.UUID = V) = taps :=
    List.filter_eq_self.mpr fun t ht => decide_eq_true (h.tapped t ht)
  rw [hall] at hperm
  rw [← hperm.countP_eq, List.countP_map]
  rfl

/-- **No vote is lost iff no tap writes between another tap's read and its write.** -/
theorem noVoteLost_iff (h : FirstTaps db V taps) (hc : Completed db taps u) :
    NoVoteLost db V taps u.db ↔ Undisturbed (logOf V u.votesLog) := by
  have hi := hc.inv h.present h.nodup
  have hsub := cur_sublist_writers (logOf V u.votesLog)
  have hfirst : ∀ tp ∈ cur (logOf V u.votesLog), tp.2 = .first := fun tp htp =>
    h.first hc (hsub.subset htp)
  obtain ⟨d, l, hd, hl⟩ := h.vote
  have hafter := hc.variants_eq h.present h.nodup hd hl
  have hstatus := fun i => statusAt_replayVotes (fun tp htp => .inl (hfirst tp htp)) hafter i
  have hcur : ∀ i : Nat, firstsOn (cur (logOf V u.votesLog)) i
      = (cur (logOf V u.votesLog)).countP fun tp => tp.1.index = (i : Int) := fun i =>
    List.countP_congr fun tp htp => by simp [hfirst tp htp]
  have hone : OneShot (logOf V u.votesLog) := hi.votesOnce V
  rw [← cur_eq_writers_iff hone]
  constructor
  · intro hkept
    refine eq_of_sublist_of_countP (fun tp => tp.1.index) hsub fun k => ?_
    rw [h.writers_countP hc]
    by_cases hk : 0 ≤ k ∧ k < (variantsOf db V).length
    · obtain ⟨i, rfl⟩ := Int.eq_ofNat_of_zero_le hk.1
      obtain ⟨c, hci⟩ := h.counted i (by omega)
      have h1 := hkept i
      unfold tapsOn at h1
      rw [hstatus i, hci, hcur i] at h1
      simp only [Option.map_some, Option.some.injEq] at h1
      omega
    · have hnone : (taps.countP fun t => t.index = k) = 0 := by
        rw [List.countP_eq_zero]
        intro t ht he
        rw [decide_eq_true_eq] at he
        exact hk (he ▸ h.row t ht)
      have hle := hsub.countP_le (p := fun tp => tp.1.index = k)
      rw [h.writers_countP hc] at hle
      omega
  · intro heq i
    rw [hstatus i, hcur i, heq, h.writers_countP hc]
    rfl

end

/-! ## two users -/

def bothTap : List Tap := [⟨0, 0, "a", 0, "v"⟩, ⟨1, 0, "b", 0, "v"⟩]

theorem firstTaps_bothTap : FirstTaps twoVoters "v" bothTap where
  present := {
    keyed := twoVoters_wellKeyed
    user := by
      intro t ht
      simp only [bothTap, List.mem_cons, List.not_mem_nil, or_false] at ht
      rcases ht with rfl | rfl <;> exact ⟨_, _, rfl, rfl⟩
    vote := by
      intro t ht
      simp only [bothTap, List.mem_cons, List.not_mem_nil, or_false] at ht
      rcases ht with rfl | rfl <;> exact ⟨_, _, rfl, rfl⟩ }
  vote := ⟨_, _, rfl, rfl⟩
  counted := by
    intro i hi
    have hi' : i < 2 := hi
    obtain rfl | rfl : i = 0 ∨ i = 1 := by omega
    · exact ⟨0, rfl⟩
    · exact ⟨0, rfl⟩
  users := by decide
  tapped := by decide
  fresh := by
    intro t ht
    simp only [bothTap, List.mem_cons, List.not_mem_nil, or_false] at ht
    rcases ht with rfl | rfl <;> rfl
  row := by decide

def inTurn : List Move :=
  [.serve 0, .deliver 0, .serve 1, .serve 1, .deliver 1, .serve 1,
    .serve 0, .deliver 0, .serve 0, .serve 0, .deliver 0, .serve 0]

/-- both arrays are read before either is written -/
def overlapping : List Move :=
  [.serve 0, .serve 1, .deliver 0, .deliver 0, .serve 0, .serve 1, .serve 0, .serve 1,
    .deliver 0, .deliver 0, .serve 0, .serve 0]

theorem noVoteLost_inTurn :
    NoVoteLost twoVoters "v" bothTap (System.played twoVoters bothTap inTurn).db ↔
      Undisturbed (logOf "v" (System.played twoVoters bothTap inTurn).votesLog) :=
  noVoteLost_iff firstTaps_bothTap (completed_played _ rfl)

/-- **Two users tap the same row; it ends with one vote.** -/
theorem vote_lost :
    FirstTaps twoVoters "v" bothTap ∧
    Completed twoVoters bothTap (System.played twoVoters bothTap overlapping) ∧
    ¬ NoVoteLost twoVoters "v" bothTap (System.played twoVoters bothTap overlapping).db := by
  refine ⟨firstTaps_bothTap, completed_played _ rfl, fun h => ?_⟩
  have hone : statusAt (variantsOf (System.played twoVoters bothTap overlapping).db "v") 0 = some 1 :=
    rfl
  have htwo := h 0
  rw [hone] at htwo
  revert htwo
  decide

end VoteOnOffice
