import VoteOnOffice.Records.Sound

/-!
# What soundness gives in every reachable state

* `one_entry`          no user's list ever has two entries for one vote;
* `no_trap`            no closure of a tap, a reload or a refresh ever traps.

`System.after ls` is the state that the labels `ls` lead to.
-/

namespace VoteOnOffice

/-- **At most one ballot record per vote.** -/
theorem one_entry {ls : List Label} {s : System} (hrun : System.Run .initial ls s) {email : String}
    {d : Document} (hd : s.db.users.lookup email = some d) :
    ∃ l, d .userVotesList = some (.records l) ∧ ∀ V, (entries V l).length ≤ 1 := by
  obtain ⟨size, hsound⟩ := run_sound hrun
  obtain ⟨l, hl, hok⟩ := (hsound.docs.users email d hd).list
  exact ⟨l, hl, hok.single⟩

/-- **No closure of a tap, a reload or a refresh traps**, whatever answer it is called with. -/
theorem no_trap {ls : List Label} {s : System} (hrun : System.Run .initial ls s) {r : Reply}
    {k : Callback} (hk : .reply r k ∈ s.net) (hdel : k.isDelete = false) :
    ∃ es, k.run s.itemsDtc r = .ok es := by
  obtain ⟨size, hsound⟩ := run_sound hrun
  have htask : InFlightOk size s.screens (.reply r k) := hsound.net _ hk
  obtain ⟨es, hes, _⟩ := run_safe htask.2 htask.1 hdel s.itemsDtc
  exact ⟨es, hes⟩

def System.after (ls : List Label) : System := (Machine.exec System.step .initial ls).getD .initial

theorem run_after (ls : List Label) (h : (Machine.exec System.step .initial ls).isSome = true) :
    System.Run .initial ls (.after ls) := by
  obtain ⟨s, hs⟩ := Option.isSome_iff_exists.mp h
  unfold System.Run System.after
  rw [hs]; rfl

/-- `a` signs up, a vote is added, `a` opens it and taps its second row -/
def tapping : List Label :=
  [.signUp "a", .serve 0 true,
    .addNewVote "t" "d" "now" "v" [1, 2] (fun row => some (if row = 0 then "x" else "y")),
    .serve 0 true, .openVote "a" "v", .voteWillAppear 0, .serve 0 true, .deliver 0, .tap 0 1,
    .serve 2 true]

/-- and the tap's closure has run, and its first write is served -/
def tapped : List Label := tapping ++ [.deliver 2, .serve 2 true]

theorem one_entry_tapped : ∃ d l, (System.after tapped).db.users.lookup "a" = some d ∧
    d .userVotesList = some (.records l) ∧ ∀ V, (entries V l).length ≤ 1 := by
  obtain ⟨l, hl⟩ := @one_entry tapped _ (run_after tapped (by decide)) "a" _ rfl
  exact ⟨_, l, rfl, hl⟩

theorem no_trap_tapping : ∃ r es,
    .reply r (.tabOnCell ⟨0, 0, "a", 1, "v"⟩) ∈ (System.after tapping).net ∧
    Callback.run (System.after tapping).itemsDtc r (.tabOnCell ⟨0, 0, "a", 1, "v"⟩) = .ok es := by
  have hm : .reply (.ok [userData "a"]) (.tabOnCell ⟨0, 0, "a", 1, "v"⟩)
      ∈ (System.after tapping).net := List.mem_of_getElem? (i := 2) rfl
  obtain ⟨es, hes⟩ := no_trap (run_after tapping (by decide)) hm rfl
  exact ⟨_, es, hm, hes⟩

end VoteOnOffice
