import VoteOnOffice.Taps.Rounds

/-!
# Overlapping taps that are over

* `Completed db taps u`       every request of the taps has been granted and answered, in some order
                              and with any screens open, and `u` is what is left;
* `Completed.usersWriters`, `Completed.votesWriters`
                              every tap has written each of its two documents exactly once;
* `Completed.list_eq`, `Completed.variants_eq`
                              the list and the array are the replays of the lineages of their logs.
-/

namespace VoteOnOffice
open Lineage

theorem countP_writeBy {T : Type} (key : T → Tap) (t : Tap) (log : List (Access T)) :
    log.countP (writeBy key t) = ((writers log).map key).count t := by
  induction log with
  | nil => rfl
  | cons a log ih =>
    cases a with
    | read u => rw [List.countP_cons_of_neg (by simp [writeBy]), ih, writers_cons_read]
    | write u =>
      rw [List.countP_cons, ih, writers_cons_write, List.map_cons, List.count_cons]
      simp [writeBy]

/-- every request of the taps has been granted and answered -/
structure Completed (db : Database) (taps : List Tap) (u : System) : Prop where
  run : ∃ views ms,
    Machine.exec (System.proceed fun _ => true) (System.tapping db taps views) ms = some u
  done : ∀ task ∈ u.net, task.isTap = false

section
variable {db : Database} {taps : List Tap} {u : System}

theorem Completed.inv (hp : Present db taps) (hnodup : taps.Nodup) (h : Completed db taps u) :
    TapInv db taps u.tapState := by
  obtain ⟨views, ms, hrun⟩ := h.run
  exact tapInv_run hp hnodup hrun

theorem Completed.weigh_eq (h : Completed db taps u) (w : Task → Nat) :
    weigh w u.tapState.net = 0 := by
  have hnil : u.tapState.net = [] := by
    show u.net.filter Task.isTap = []
    rw [List.filter_eq_nil_iff]
    intro task ht
    simp [h.done task ht]
  rw [hnil]; rfl

theorem Completed.usersWriters (hp : Present db taps) (hnodup : taps.Nodup)
    (h : Completed db taps u) (id : String) :
    (writers (logOf id u.usersLog)).Perm (taps.filter fun t => t.emailString = id) := by
  have hi := h.inv hp hnodup
  rw [List.perm_iff_count]
  intro t
  have hcount := countP_writeBy (fun t : Tap => t) t (logOf id u.usersLog)
  rw [List.map_id'] at hcount
  rw [← hcount]
  by_cases ht : t ∈ taps ∧ t.emailString = id
  · obtain ⟨ht, rfl⟩ := ht
    have h1 := hi.writeUser t ht
    rw [h.weigh_eq, Nat.zero_add] at h1
    rw [List.count_filter (by simp), List.count_eq_one_of_mem hnodup ht]
    exact h1
  · have hno : t ∉ taps.filter fun t => t.emailString = id := by
      simpa using ht
    rw [List.count_eq_zero_of_not_mem hno, List.countP_eq_zero]
    intro a ha hw
    cases a with
    | read _ => cases hw
    | write v =>
      obtain rfl : v = t := by simpa [writeBy] using hw
      obtain ⟨h1, h2⟩ := hi.usersBy id v ((hi.usersOnce id).read_mem ha)
      exact ht ⟨h1, h2.symm⟩

theorem Completed.votesWriters (hp : Present db taps) (hnodup : taps.Nodup)
    (h : Completed db taps u) (id : String) :
    ((writers (logOf id u.votesLog)).map Prod.fst).Perm (taps.filter fun t => t.UUID = id) := by
  have hi := h.inv hp hnodup
  rw [List.perm_iff_count]
  intro t
  rw [← countP_writeBy Prod.fst t (logOf id u.votesLog)]
  by_cases ht : t ∈ taps ∧ t.UUID = id
  · obtain ⟨ht, rfl⟩ := ht
    have h1 := hi.writeVote t ht
    rw [h.weigh_eq, Nat.zero_add] at h1
    rw [List.count_filter (by simp), List.count_eq_one_of_mem hnodup ht]
    exact h1
  · have hno : t ∉ taps.filter fun t => t.UUID = id := by
      simpa using ht
    rw [List.count_eq_zero_of_not_mem hno, List.countP_eq_zero]
    intro a ha hw
    cases a with
    | read _ => cases hw
    | write v =>
      obtain ⟨v, p⟩ := v
      obtain rfl : v = t := by simpa [writeBy] using hw
      obtain ⟨h1, h2⟩ := hi.votesBy id v p ((hi.votesOnce id).read_mem ha)
      exact ht ⟨h1.tap, h2.symm⟩

theorem Completed.list_eq (hp : Present db taps) (hnodup : taps.Nodup) (h : Completed db taps u)
    {id : String} {d : Document} {l : List Record} (hd : db.users.lookup id = some d)
    (hl : d .userVotesList = some (.records l)) :
    listOf u.db id = replayUsers db id (cur (logOf id u.usersLog)) := by
  have hx := (h.inv hp hnodup).users id
  rw [hd, Option.map_some] at hx
  refine listOf_eq hx ?_
  unfold userAfter
  by_cases hc : cur (logOf id u.tapState.usersLog) = []
  · rw [if_pos hc, hl]
    rw [show cur (logOf id u.usersLog) = [] from hc]
    exact congrArg (fun l => some (Value.records l)) (listOf_eq hd hl).symm
  · rw [if_neg hc, Function.update_self]; rfl

theorem Completed.variants_eq (hp : Present db taps) (hnodup : taps.Nodup)
    (h : Completed db taps u) {id : String} {d : Document} {l : List Record}
    (hd : db.votes.lookup id = some d) (hl : d .voteVariants = some (.records l)) :
    replayVotes db id (cur (logOf id u.votesLog)) = .ok (variantsOf u.db id) := by
  obtain ⟨a, ha, hx⟩ := (h.inv hp hnodup).votes id
  rw [hd, Option.map_some] at hx
  rw [show replayVotes db id (cur (logOf id u.votesLog)) = .ok a from ha]
  congr 1
  symm
  refine variantsOf_eq hx ?_
  unfold voteAfter
  by_cases hc : cur (logOf id u.tapState.votesLog) = []
  · rw [if_pos hc, hl]
    rw [hc] at ha
    cases ha
    exact congrArg (fun l => some (Value.records l)) (variantsOf_eq hd hl).symm
  · rw [if_neg hc, Function.update_self]

theorem seen_eq_nil (hp : Present db taps) (husers : (taps.map Tap.emailString).Nodup)
    (hc : Completed db taps u) {t : Tap} (ht : t ∈ taps) :
    seen (logOf t.emailString u.usersLog) t = [] := by
  have hnodup : taps.Nodup := List.Nodup.of_map _ husers
  have hi := hc.inv hp hnodup
  rw [List.eq_nil_iff_forall_not_mem]
  intro v hv
  have hw : v ∈ writers (logOf t.emailString u.usersLog) := (seen_sublist_writers _ t).subset hv
  rw [(hc.usersWriters hp hnodup _).mem_iff, List.mem_filter, decide_eq_true_eq] at hw
  obtain rfl : v = t := List.inj_on_of_nodup_map husers hw.1 ht hw.2
  exact (hi.usersOnce v.emailString).notMem_seen v hv

end

/-- what the moves `ms` leave of the taps, with no screen open -/
def System.played (db : Database) (taps : List Tap) (ms : List Move) : System :=
  (Machine.exec (System.proceed fun _ => true) (System.tapping db taps []) ms).getD .initial

theorem completed_played {db : Database} {taps : List Tap} (ms : List Move)
    (h : (Machine.exec (System.proceed fun _ => true) (System.tapping db taps []) ms).map
      System.net = some []) : Completed db taps (System.played db taps ms) := by
  obtain ⟨u, hu, hnet⟩ := Option.map_eq_some_iff.mp h
  have hplayed : System.played db taps ms = u := by
    unfold System.played
    rw [hu]; rfl
  rw [hplayed]
  refine ⟨⟨[], ms, hu⟩, fun task ht => ?_⟩
  rw [hnet] at ht
  cases ht

def twoVoters : Database :=
  ((Database.empty.setData .votes "v" (voteData "" "" "" "v" [variant 1 "x", variant 2 "y"])).setData
    .users "a" (userData "a")).setData .users "b" (userData "b")

theorem twoVoters_wellKeyed : twoVoters.WellKeyed :=
  ((wellKeyed_empty.setVote rfl).setUser rfl).setUser rfl

end VoteOnOffice
