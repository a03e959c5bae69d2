import VoteOnOffice.Records.Reachable
import VoteOnOffice.Records.Traced

/-!
# What has happened in a run

* `Composed`, `Tapped`, `Deleted`
                       what the labels of a run have done, and `origins`, which collects it;
* `run_traced`         every reachable state is traced to its own run, and every state on the way too;
* `stored_composed`, `shown_composed`
                       votes are stored and shown as they were composed, but for the counters;
* `ballot_tapped`, `mark_tapped`
                       a ballot, a highlighted row and a mark on the main screen have been tapped.
-/

namespace VoteOnOffice

def Label.composes : Label → List (String × Document)
  | .addNewVote title description voteDate uuid items cellForRow =>
    match variantsArray items cellForRow with
    | .error _ => []
    | .ok (_, variants) => [(uuid, voteData voteDate description title uuid variants)]
  | _ => []

def Composed (ls : List Label) (V : String) (d : Document) : Prop :=
  ∃ l ∈ ls, (V, d) ∈ l.composes

/-- the user tapped the row on a screen of the vote that showed it -/
def Tapped (ls : List Label) (email V : String) (row : Int) : Prop :=
  ∃ a b t view v, ∃ i : Nat, ls = a ++ .tap view i :: b ∧ System.Run .initial a t ∧
    t.views[view]? = some v ∧ v.emailString = email ∧ v.UUID = V ∧ row = i ∧ i < v.arr.length

/-- the user deleted a row of the vote, with the delete gesture that admins have -/
def Deleted (ls : List Label) (email V : String) : Prop :=
  ∃ a b t main m dtc, ∃ row : Nat, ls = a ++ .deleteRow main row :: b ∧ System.Run .initial a t ∧
    t.mains[main]? = some m ∧ m.emailString = email ∧ m.itemsDtc[row]? = some dtc ∧
    dtc.UUID = V ∧ m.adminStatus = true

theorem Composed.mono {ls b : List Label} {V : String} {d : Document} (h : Composed ls V d) :
    Composed (ls ++ b) V d := by
  obtain ⟨l, hl, hd⟩ := h
  exact ⟨l, List.mem_append_left _ hl, hd⟩

/-! ## a vote is composed once -/

theorem mem_composes {l : Label} {V : String} {d : Document} (h : (V, d) ∈ l.composes) :
    V ∈ l.uuid ∧ (∃ voteDate description title variants,
      d = voteData voteDate description title V variants) ∧
      ∀ d', (V, d') ∈ l.composes → d' = d := by
  cases l with
  | addNewVote title description voteDate uuid items cellForRow =>
    cases hv : variantsArray items cellForRow with
    | error e => simp only [Label.composes, hv] at h; cases h
    | ok x =>
      simp only [Label.composes, hv] at h ⊢
      cases List.mem_singleton.mp h
      refine ⟨List.mem_singleton_self _, ⟨_, _, _, _, rfl⟩, fun d' h' => ?_⟩
      cases List.mem_singleton.mp h'
      rfl
  | _ => cases h

theorem composed_unique {s u : System} {ls : List Label} (hrun : System.Run s ls u) :
    (∀ V d d', Composed ls V d → Composed ls V d' → d = d') ∧
      ∀ V ∈ s.uuids, ∀ d, ¬Composed ls V d := by
  induction ls generalizing s with
  | nil =>
    refine ⟨fun V d d' h => ?_, fun V _ d h => ?_⟩ <;>
      obtain ⟨l, hl, _⟩ := h <;> cases hl
  | cons l ls ih =>
    obtain ⟨t, ht, hrest⟩ := (Machine.exec_cons System.step).mp hrun
    obtain ⟨hunique, hnever⟩ := ih hrest
    obtain ⟨huuids, hnew⟩ := step_uuids ht
    -- what this label adds is not added again
    have hrest : ∀ {V d}, (V, d) ∈ l.composes → ∀ d', ¬Composed ls V d' := fun h =>
      hnever _ (by rw [huuids]; exact List.mem_append_left _ (mem_composes h).1)
    have hsplit : ∀ {V d}, Composed (l :: ls) V d → (V, d) ∈ l.composes ∨ Composed ls V d := by
      rintro V d ⟨m, hm, hd⟩
      rcases List.mem_cons.mp hm with rfl | hm
      · exact .inl hd
      · exact .inr ⟨m, hm, hd⟩
    refine ⟨fun V d d' h h' => ?_, fun V hV d h => ?_⟩
    · rcases hsplit h with h | h <;> rcases hsplit h' with h' | h'
      · exact (mem_composes h').2.2 d h
      · exact absurd h' (hrest h d')
      · exact absurd h (hrest h' d)
      · exact hunique V d d' h h'
    · rcases hsplit h with h | h
      · exact hnew V (mem_composes h).1 hV
      · exact hnever V (by rw [huuids]; exact List.mem_append_right _ hV) d h

theorem uuid_once {s u : System} {ls : List Label} (hrun : System.Run s ls u) (V : String) :
    (V ∈ s.uuids → ls.countP (fun l => decide (V ∈ l.uuid)) = 0) ∧
      ls.countP (fun l => decide (V ∈ l.uuid)) ≤ 1 := by
  induction ls generalizing s with
  | nil => exact ⟨fun _ => rfl, Nat.zero_le _⟩
  | cons l ls ih =>
    obtain ⟨t, ht, hrest⟩ := (Machine.exec_cons System.step).mp hrun
    obtain ⟨hnever, hle⟩ := ih hrest
    obtain ⟨huuids, hnew⟩ := step_uuids ht
    rw [huuids] at hnever
    simp only [List.countP_cons, decide_eq_true_eq]
    by_cases hl : V ∈ l.uuid
    · rw [if_pos hl, hnever (List.mem_append_left _ hl)]
      exact ⟨fun hV => absurd hV (hnew V hl), Nat.le_refl _⟩
    · rw [if_neg hl]
      exact ⟨fun hV => hnever (List.mem_append_right _ hV), hle⟩

/-! ## the history of a run -/

def origins (ls : List Label) (h : ∃ s, System.Run .initial ls s) : Origins where
  composed := Composed ls
  tapped := Tapped ls
  granted := fun email => .setUserRole email true ∈ ls
  deleted := Deleted ls
  unique := by
    obtain ⟨s, hs⟩ := h
    exact fun {V d d'} => (composed_unique hs).1 V d d'
  made := by
    rintro V d ⟨l, _, hd⟩
    exact (mem_composes hd).2.1

section
variable {ls : List Label} (h : ∃ s, System.Run .initial ls s)

theorem allows_along {a b c : List Label} {s : System} (hls : ls = a ++ b ++ c)
    (hs : System.Run .initial a s) : Machine.Along System.step (origins ls h).Allows s b := by
  intro x l y t hb ht
  have hat : System.Run .initial (a ++ x) t :=
    (Machine.exec_append_eq_some System.step).mpr ⟨s, hs, ht⟩
  have hsplit : ls = (a ++ x) ++ l :: (y ++ c) := by rw [hls, hb]; simp
  cases l with
  | tap view row =>
    intro v hv hrow
    exact ⟨a ++ x, y ++ c, t, view, v, row, hsplit, hat, hv, rfl, rfl, rfl, hrow⟩
  | deleteRow main row =>
    intro m dtc hm hrow hadmin
    exact ⟨a ++ x, y ++ c, t, main, m, dtc, row, hsplit, hat, hm, rfl, hrow, rfl, hadmin⟩
  | addNewVote title description voteDate uuid items cellForRow =>
    intro items' variants hv
    refine ⟨.addNewVote title description voteDate uuid items cellForRow, ?_, ?_⟩
    · rw [hsplit]
      exact mem_middle.mpr (.inl rfl)
    · simp only [Label.composes, hv]
      exact List.mem_singleton_self _
  | setUserRole email role =>
    rintro rfl
    show _ ∈ ls
    rw [hsplit]
    exact mem_middle.mpr (.inl rfl)
  | _ => trivial

theorem run_traced {a b : List Label} {s : System} (hls : ls = a ++ b)
    (hs : System.Run .initial a s) : Traced (origins ls h) s :=
  Machine.exec_along System.step (fun _ _ _ ht hl hs => step_traced ht hl hs)
    (allows_along h (a := []) (c := b) hls rfl) hs traced_initial

end

section
variable {ls : List Label} {s : System} (hrun : System.Run .initial ls s)
include hrun

theorem traced_here : Traced (origins ls ⟨s, hrun⟩) s :=
  run_traced ⟨s, hrun⟩ (List.append_nil ls).symm hrun

/-- **A stored vote is the one that was composed**, once, under its UUID; only counters differ. -/
theorem stored_composed {V : String} {d : Document} (hd : s.db.votes.lookup V = some d) :
    ls.countP (fun l => decide (V ∈ l.uuid)) = 1 ∧
      ∃ d₀, Composed ls V d₀ ∧ (∀ d₁, Composed ls V d₁ → d₁ = d₀) ∧ SameVote d₀ d := by
  obtain ⟨d₀, hc, hsame⟩ := (traced_here hrun).votes V d hd
  have hpos : 0 < ls.countP fun l => decide (V ∈ l.uuid) := by
    obtain ⟨l, hl, hcomposes⟩ := hc
    exact List.countP_pos_iff.mpr ⟨l, hl, decide_eq_true (mem_composes hcomposes).1⟩
  refine ⟨Nat.le_antisymm (uuid_once hrun V).2 hpos, d₀, hc, fun d₁ h₁ => ?_, hsame⟩
  exact (composed_unique hrun).1 V d₁ d₀ h₁ hc

/-- **What the screens show of votes was composed**: titles, descriptions, dates, variants. -/
theorem shown_composed :
    (∀ v ∈ s.views, (v.titleLabel ≠ "" → ∃ d₀, Composed ls v.UUID d₀ ∧
        Value.asString (d₀ .voteTitle) = some v.titleLabel) ∧
      (v.descriptionLabel ≠ "" → ∃ d₀, Composed ls v.UUID d₀ ∧
        Value.asString (d₀ .voteDescription) = some v.descriptionLabel) ∧
      (v.arr ≠ [] → ∃ d₀ array₀, Composed ls v.UUID d₀ ∧
        d₀ .voteVariants = some (.records array₀) ∧ SameVariants array₀ v.arr)) ∧
    ∀ m ∈ s.mains, ∀ dtc ∈ m.items, ∃ d₀, Composed ls dtc.UUID d₀ ∧
      Value.asString (d₀ .voteTitle) = some dtc.title ∧
      Value.asString (d₀ .voteDate) = some dtc.time := by
  have htraced := traced_here hrun
  refine ⟨fun v hv => ?_, fun m hm dtc hdtc => ?_⟩
  · have hview := htraced.views v hv
    exact ⟨hview.title.resolve_left, hview.description.resolve_left, hview.arr.resolve_left⟩
  · have hmain := htraced.mains m hm
    rw [hmain.items] at hdtc
    obtain ⟨⟨d₀, hc, htitle⟩, ⟨d₁, hc', htime⟩, _⟩ := hmain.rows dtc hdtc
    obtain rfl := (composed_unique hrun).1 _ _ _ hc hc'
    exact ⟨d₀, hc, htitle, htime⟩

theorem Tapped.inRange {email V : String} {row : Int} (h : Tapped ls email V row) :
    ∃ d₀ array₀, Composed ls V d₀ ∧ d₀ .voteVariants = some (.records array₀) ∧
      0 ≤ row ∧ row < array₀.length := by
  obtain ⟨a, b, t, view, v, i, hls, ht, hv, _, rfl, rfl, hi⟩ := h
  have hview := (run_traced ⟨s, hrun⟩ hls ht).views v (List.mem_of_getElem? hv)
  have hne : v.arr ≠ [] := by
    rintro he
    rw [he] at hi
    cases hi
  obtain ⟨d₀, array₀, hc, h₀, hvariants⟩ := hview.arr.resolve_left hne
  refine ⟨d₀, array₀, hc, h₀, Int.natCast_nonneg i, ?_⟩
  rw [hvariants.length] at hi
  exact Int.ofNat_lt.mpr hi

/-- **Every ballot was cast by its user**, by a tap on that row of that vote. -/
theorem ballot_tapped {email : String} {d : Document} {l : List Record}
    (hd : s.db.users.lookup email = some d) (hl : d .userVotesList = some (.records l)) :
    ∀ r ∈ l, ∃ V row, r = ballot V row ∧ Tapped ls email V row ∧
      ∃ d₀ array₀, Composed ls V d₀ ∧ d₀ .voteVariants = some (.records array₀) ∧
        0 ≤ row ∧ row < array₀.length := by
  intro r hr
  obtain ⟨V, row, hV, htapped⟩ := ((traced_here hrun).users email d hd).ballots hl r hr
  exact ⟨V, row, hV, htapped, Tapped.inRange hrun htapped⟩

/-- **Every highlighted row, every mark and every admin's button has its cause**: the user of the
screen tapped that row, tapped some row of that vote, was given the role. -/
theorem mark_tapped :
    (∀ v ∈ s.views, v.selectRow = -1 ∨ Tapped ls v.emailString v.UUID v.selectRow) ∧
    ∀ m ∈ s.mains, (∀ dtc ∈ m.items, dtc.status = true →
        ∃ row, Tapped ls m.emailString dtc.UUID row) ∧
      (m.adminStatus = true → .setUserRole m.emailString true ∈ ls) := by
  have htraced := traced_here hrun
  refine ⟨fun v hv => (htraced.views v hv).row, fun m hm => ⟨fun dtc hdtc => ?_, ?_⟩⟩
  · have hmain := htraced.mains m hm
    rw [hmain.items] at hdtc
    exact (hmain.rows dtc hdtc).status
  · exact (htraced.mains m hm).admin

end

/-! ## a run -/

theorem stored_composed_run : ∃ d d₀, (System.after tapped).db.votes.lookup "v" = some d ∧
    tapped.countP (fun l => decide ("v" ∈ l.uuid)) = 1 ∧ Composed tapped "v" d₀ ∧
    (∀ d₁, Composed tapped "v" d₁ → d₁ = d₀) ∧ SameVote d₀ d := by
  obtain ⟨honce, d₀, h⟩ := @stored_composed tapped _ (run_after tapped (by decide)) "v" _ rfl
  exact ⟨_, d₀, rfl, honce, h⟩

theorem shown_composed_run : ∃ d₀, Composed tapped "v" d₀ ∧
    Value.asString (d₀ .voteTitle) = some "t" :=
  ((shown_composed (run_after tapped (by decide))).1 _ (List.mem_of_getElem? (i := 0) rfl)).1
    (by decide)

theorem ballot_tapped_run : ∃ V row, ballot "v" 1 = ballot V row ∧ Tapped tapped "a" V row := by
  obtain ⟨V, row, hr, h, _⟩ := @ballot_tapped tapped _ (run_after tapped (by decide)) "a" _ _ rfl rfl
    (ballot "v" 1) (List.mem_of_getElem? (i := 0) rfl)
  exact ⟨V, row, hr, h⟩

theorem mark_tapped_run : Tapped (tapped ++ [.serve 1 true, .deliver 1]) "a" "v" 1 :=
  ((mark_tapped (run_after (tapped ++ [.serve 1 true, .deliver 1]) (by decide))).1 _
    (List.mem_of_getElem? (i := 0) rfl)).resolve_left (by decide)

end VoteOnOffice
