import VoteOnOffice.Devices.Authentic
import VoteOnOffice.Records.Shown

/-!
# The first vote has to come from outside

`readDataBase` asks for the user's role once for every vote that it finds.  Where there is no vote, no
screen hears of a role, and the button that opens the add screen stays hidden.

* `no_admin`           where no vote has been added, no main screen shows the button;
* `matched_noAdd`      so no device gets to an add screen;
* `no_first_vote`      **where none is written from outside, no vote is ever added.**
-/

namespace VoteOnOffice

def Label.isAdd : Label → Bool
  | .addNewVote _ _ _ _ _ _ => true
  | _ => false

/-! ## the button -/

def NoAdmin (s : System) : Prop := ∀ m ∈ s.mains, m.adminStatus = false

theorem no_admin {s : System} {ls : List Label} (hrun : System.Run .initial ls s)
    (hls : ∀ m ∈ ls, m.isAdd = false) : (∀ V, s.db.votes.lookup V = none) ∧ NoAdmin s := by
  have hnone : ∀ V d, ¬Composed ls V d := by
    rintro V d ⟨m, hm, hcomposes⟩
    have hadd := hls m hm
    cases m with
    | addNewVote title description voteDate uuid items cellForRow => cases hadd
    | _ => cases hcomposes
  refine ⟨fun V => ?_, fun m hm => ?_⟩
  · cases hV : s.db.votes.lookup V with
    | none => rfl
    | some d =>
      obtain ⟨d₀, hc, _⟩ := (traced_here hrun).votes V d hV
      exact absurd hc (hnone V d₀)
  · cases hadmin : m.adminStatus with
    | false => rfl
    | true =>
      obtain ⟨main, hmain⟩ := List.mem_iff_getElem?.mp hm
      obtain ⟨a, l, b, t, hsplit, ht, hdoes⟩ := admin_shown hrun hmain hadmin
      obtain ⟨dtc, r, es, hreply, _⟩ := hdoes.status
      -- the user was read for a row, which comes from a vote that was composed
      obtain ⟨_, _, _, hrow⟩ := (run_traced ⟨s, hrun⟩ hsplit ht).net _ hreply
      obtain ⟨d₀, hc, _⟩ := hrow.title
      exact absurd hc (hnone _ d₀)

/-! ## no first vote -/

section
variable {count : String → Nat} {n : Nat} {ls : List WorldLabel} {w u : World} {l : WorldLabel}

def NoOutside (ls : List WorldLabel) : Prop := ∀ l, .cloud l ∈ ls → l.isAdd = false

def NoAdds (w : World) : Prop := ∀ d ∈ w.devices, d.adds = []

theorem acted_noAdds {x : System} {d d' : Device} {act : DeviceAct} {m : Option Label}
    (ha : d.Acted x act d' m) (hx : NoAdmin x) (hd : d.adds = []) :
    d'.adds = [] ∧ ∀ l, m = some l → l.isAdd = false := by
  have hnone : ∀ {add : Nat} {vm : AddVoteViewModel}, d.adds[add]? = some vm → False := by
    intro add vm h
    rw [hd] at h
    cases h
  cases ha with
  | segue _ _ => exact ⟨hd, fun l h => by cases h; rfl⟩
  | openVote _ _ _ _ => exact ⟨hd, fun l h => by cases h; rfl⟩
  | openAdd hm _ hadmin =>
    rw [hx _ (List.mem_of_getElem? hm)] at hadmin
    cases hadmin
  | edit hadd => exact (hnone hadd).elim
  | addNewVote hadd _ => exact (hnone hadd).elim
  | @screen l ho =>
    refine ⟨hd, fun l' h => ?_⟩
    cases h
    cases l with
    | addNewVote title description voteDate uuid items cellForRow => cases ho
    | _ => rfl

theorem NoAdds.put {x : System} {i : Nat} {d : Device} (h : NoAdds w) (hd : d.adds = []) :
    NoAdds (w.put i d x) := by
  intro e he
  rcases List.mem_or_eq_of_mem_set he with he | rfl
  · exact h e he
  · exact hd

theorem step_noAdds (h : NoAdds w) (hadmin : NoAdmin w.system) (hw : w.step count l = some u) :
    NoAdds u := by
  cases World.step_stepped hw with
  | @sign i l d s hd _ _ =>
    refine h.put ?_
    have hadds := h d (List.mem_of_getElem? hd)
    cases l with
    | restart => rfl
    | _ => exact hadds
  | @updateCurrentUser i k d c hd _ => exact h.put (h d (List.mem_of_getElem? hd))
  | @orphan i k ok d c s hd _ _ => exact h.put (h d (List.mem_of_getElem? hd))
  | crash _ _ => exact h.put rfl
  | edits hd ha => exact h.put (acted_noAdds ha hadmin (h _ (List.mem_of_getElem? hd))).1
  | acts hd ha _ => exact h.put (acted_noAdds ha hadmin (h _ (List.mem_of_getElem? hd))).1
  | cloud _ _ => exact h

theorem matches_noAdd {ms : List Label} (h : w.Matches l ms) (hadds : NoAdds w)
    (hadmin : NoAdmin w.system) (hl : NoOutside [l]) : ∀ m ∈ ms, m.isAdd = false := by
  intro m hm
  cases h with
  | act hd ha =>
    rw [List.mem_singleton.mp hm]
    exact (acted_noAdds ha hadmin (hadds _ (List.mem_of_getElem? hd))).2 _ rfl
  | cloud hcloud =>
    rw [List.mem_singleton.mp hm]
    exact hl _ (List.mem_singleton_self _)
  | quiet hall =>
    have hquiet := hall m hm
    cases m with
    | addNewVote title description voteDate uuid items cellForRow => cases hquiet
    | _ => rfl

theorem matched_noAdd (hrun : World.Run count (.initial n) ls w) (hls : NoOutside ls) :
    ∃ ls' y, World.Matched count n ls w ls' y ∧ (∀ m ∈ ls', m.isAdd = false) ∧ NoAdds w := by
  induction ls using List.reverseRecOn generalizing w with
  | nil =>
    cases hrun
    refine ⟨[], .initial, .nil (loosely_initial n), fun _ hm => absurd hm List.not_mem_nil,
      fun d hd => ?_⟩
    rw [List.eq_of_mem_replicate hd]
  | append_singleton ls l ih =>
    obtain ⟨t, ht, hw⟩ := (Machine.exec_concat (World.step count)).mp hrun
    obtain ⟨ls', y, hmatched, hadd, hadds⟩ := ih ht fun m hm => hls m (List.mem_append_left _ hm)
    -- so far no vote, and so no button
    have hadmin : NoAdmin t.system := by
      have hy := (no_admin hmatched.exec.2 hadd).2
      obtain ⟨net, rfl, _⟩ := hmatched.rel
      exact hy
    obtain ⟨ms, z, hms, hloose, hmatches⟩ := world_matched hmatched.rel hw
    refine ⟨ls' ++ ms, z, hmatched.concat hw hms hmatches hloose, fun m hm => ?_,
      step_noAdds hadds hadmin hw⟩
    rcases List.mem_append.mp hm with hm | hm
    · exact hadd m hm
    · exact matches_noAdd hmatches hadds hadmin
        (fun m hm => hls m (List.mem_append_right _ hm)) m hm

/-- **Where no vote is written from outside, there is none**, whoever is made an admin: no main screen
ever shows the button, and no add screen is opened. -/
theorem no_first_vote (hrun : World.Run count (.initial n) ls w) (hls : NoOutside ls) :
    (∀ V, w.system.db.votes.lookup V = none) ∧ (∀ m ∈ w.system.mains, m.adminStatus = false) ∧
      ∀ d ∈ w.devices, d.adds = [] := by
  obtain ⟨ls', y, hmatched, hadd, hadds⟩ := matched_noAdd hrun hls
  obtain ⟨hvotes, hadmin⟩ := no_admin hmatched.exec.2 hadd
  obtain ⟨net, rfl, _⟩ := hmatched.rel
  exact ⟨hvotes, hadmin, hadds⟩

end

/-- `alice` signs up, is made an admin and opens her main screen -/
def alone : List WorldLabel :=
  [.sign 0 (.signUp "alice@x.y" "secret1" false), .sign 0 (.serve 0 true),
    .updateCurrentUser 0 0, .sign 0 (.deliver 0), .sign 0 (.serve 0 true), .sign 0 (.deliver 0),
    .cloud (.setUserRole "alice@x.y" true), .act 0 .segue, .act 0 (.screen (.mainWillAppear 0)),
    .cloud (.serve 0 true), .cloud (.deliver 0)]

theorem no_first_vote_alone :
    (World.after 1 alone).system.mains.map MainView.adminStatus = [false] ∧
      ∀ m ∈ (World.after 1 alone).system.mains, m.adminStatus = false := by
  have hls : NoOutside alone := by
    intro l hl
    simp only [alone, List.mem_cons, List.not_mem_nil, or_false, reduceCtorEq, false_or,
      WorldLabel.cloud.injEq] at hl
    rcases hl with rfl | rfl | rfl <;> rfl
  exact ⟨by decide, (no_first_vote (run_world alone (by decide)) hls).2.1⟩

end VoteOnOffice
