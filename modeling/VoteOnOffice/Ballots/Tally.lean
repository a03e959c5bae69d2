import VoteOnOffice.Taps.Alone

/-!
# The tally, when every tap is over before the next one starts

* `Fresh db`              votes as `addNewVote` writes them, users as a sign-up writes them;
* `Tally db`              every count is the number of users whose list names its row;
* `TapRun db₀ h db`       taps one after the other; `h` has every tap with the database it starts from;
* `Replaceable db t`      what makes a change of vote come out right: the old row has exactly one
                          vote more than the new one, or they are the same row;
* `tally_tap_iff`         one tap keeps the tally iff it is a first vote or `Replaceable`;
* `tally_run_iff`         **the tally holds in every state of a run iff every tap meets this**.
-/

namespace VoteOnOffice
open Lineage

/-- votes and users as they are when they have just been added -/
structure Fresh (db : Database) : Prop where
  votes : ∀ id d, db.votes.lookup id = some d →
    ∃ voteDate description title items cellForRow items' variants,
      variantsArray items cellForRow = .ok (items', variants) ∧
      d = voteData voteDate description title id variants
  users : ∀ id d, db.users.lookup id = some d → d = userData id

def votedFor (V : String) (i : Nat) (d : Document) : Bool :=
  some (i : Int) ∈ rows V ((Value.asRecords (d .userVotesList)).getD [])

/-- the number of users whose list names the row `i` of `V` -/
def ballots (db : Database) (V : String) (i : Nat) : Nat :=
  db.users.entries.countP fun e => votedFor V i e.2

/-- every count is the number of its ballots -/
def Tally (db : Database) : Prop :=
  ∀ V d array, db.votes.lookup V = some d → d .voteVariants = some (.records array) →
    ∀ i < array.length, statusAt array i = some (ballots db V i : Int)

/-- every tap runs to completion before the next one starts -/
inductive TapRun (db₀ : Database) : List (Database × Tap) → Database → Prop where
  | nil : TapRun db₀ [] db₀
  | tap {h : List (Database × Tap)} {db : Database} {t : Tap} {u : System} (hrun : TapRun db₀ h db)
      (user : ∃ d, db.users.lookup t.emailString = some d)
      (vote : ∃ d, db.votes.lookup t.UUID = some d) (hc : Completed db [t] u) :
      TapRun db₀ (h ++ [(db, t)]) u.db

/-- the old row is the new one, or has exactly one vote more -/
def Replaceable (db : Database) (t : Tap) : Prop :=
  ∀ j, rows t.UUID (listOf db t.emailString) = [some j] → j = t.index ∨
    ∃ c, statusAt (variantsOf db t.UUID) t.index.toNat = some c ∧
      statusAt (variantsOf db t.UUID) j.toNat = some (c + 1)

structure Counted (db : Database) : Prop where
  keyed : db.WellKeyed
  votes : ∀ V d, db.votes.lookup V = some d → ∃ array, d .voteVariants = some (.records array) ∧
    ∀ i < array.length, ∃ c, statusAt array i = some c
  users : ∀ e d, db.users.lookup e = some d → ∃ l, d .userVotesList = some (.records l) ∧
    ∀ V, rows V l = [] ∨ ∃ j, rows V l = [some j]

theorem Fresh.counted {db : Database} (h : Fresh db) : Counted db where
  keyed := by
    constructor
    · intro id d hd
      obtain ⟨_, _, _, _, _, _, _, _, rfl⟩ := h.votes id d hd
      rfl
    · intro id d hd
      rw [h.users id d hd]; rfl
  votes := by
    intro V d hd
    obtain ⟨_, _, _, _, _, _, variants, hv, rfl⟩ := h.votes V d hd
    refine ⟨variants, rfl, fun i hi => ?_⟩
    obtain ⟨id, text, hr⟩ := variantsArray_variants hv variants[i] (List.getElem_mem hi)
    refine ⟨0, ?_⟩
    unfold statusAt
    rw [List.getElem?_eq_getElem hi, hr]; rfl
  users := by
    intro e d hd
    rw [h.users e d hd]
    exact ⟨[], rfl, fun V => .inl rfl⟩

theorem Fresh.tally {db : Database} (h : Fresh db) : Tally db := by
  intro V d array hd ha i hi
  obtain ⟨_, _, _, _, _, _, variants, hv, rfl⟩ := h.votes V d hd
  cases ha
  obtain ⟨id, text, hr⟩ := variantsArray_variants hv array[i] (List.getElem_mem hi)
  have hzero : ballots db V i = 0 := by
    unfold ballots
    rw [List.countP_eq_zero]
    rintro ⟨e, d⟩ he hvoted
    rw [h.users e d (AList.mem_lookup_iff.mpr he)] at hvoted
    cases hvoted
  unfold statusAt
  rw [List.getElem?_eq_getElem hi, hr, hzero]; rfl

/-! ## a tap on its own -/

section
variable {db : Database} {t : Tap}

theorem Counted.present (h : Counted db) (hu : ∃ d, db.users.lookup t.emailString = some d)
    (hv : ∃ d, db.votes.lookup t.UUID = some d) : Present db [t] where
  keyed := h.keyed
  user := by
    intro v hv'
    obtain rfl := List.mem_singleton.mp hv'
    obtain ⟨d, hd⟩ := hu
    obtain ⟨l, hl, _⟩ := h.users _ d hd
    exact ⟨d, l, hd, hl⟩
  vote := by
    intro v hv'
    obtain rfl := List.mem_singleton.mp hv'
    obtain ⟨d, hd⟩ := hv
    obtain ⟨l, hl, _⟩ := h.votes _ d hd
    exact ⟨d, l, hd, hl⟩

end

/-! ## what a tap on its own does to the tally -/

section
variable {db after : Database} {t : Tap} {p : Path} {array : List Record}

theorem Alone.counted (h : Alone db t p array after) (hc : Counted db) : Counted after where
  keyed := h.wellKeyed hc.keyed
  votes := by
    intro V d hd
    rw [h.votes V] at hd
    obtain ⟨d', hd', rfl⟩ := Option.map_eq_some_iff.mp hd
    obtain ⟨l, hl, hcount⟩ := hc.votes V d' hd'
    by_cases hV : V = t.UUID
    · rw [if_pos hV, Function.update_self]
      have hvar : variantsOf db t.UUID = l := variantsOf_eq (hV ▸ hd') hl
      refine ⟨array, rfl, fun i hi => ?_⟩
      have hlen := length_count h.count
      rw [hvar] at hlen
      obtain ⟨c, hci⟩ := hcount i (by omega)
      have hstatus := h.count
      rw [hvar] at hstatus
      cases p with
      | first =>
        rw [statusAt_firstCount hstatus, hci]
        split <;> exact ⟨_, rfl⟩
      | second j =>
        obtain ⟨n, _, _, hn, _⟩ := secondCount_eq_ok.mp hstatus
        rw [statusAt_secondCount hstatus, hci, hn]
        split
        · exact ⟨_, rfl⟩
        · split <;> exact ⟨_, rfl⟩
    · rw [if_neg hV]
      exact ⟨l, hl, hcount⟩
  users := by
    intro e d hd
    rw [h.users e] at hd
    obtain ⟨d', hd', rfl⟩ := Option.map_eq_some_iff.mp hd
    obtain ⟨l, hl, hrows⟩ := hc.users e d' hd'
    by_cases he : e = t.emailString
    · rw [if_pos he, Function.update_self]
      refine ⟨_, rfl, fun V => ?_⟩
      rw [listOf_eq (he ▸ hd') hl]
      by_cases hV : V = t.UUID
      · rw [hV, rows_cast_self]
        exact .inr ⟨_, rfl⟩
      · rw [rows_cast_ne hV]
        exact hrows V
    · rw [if_neg he]
      exact ⟨l, hl, hrows⟩

theorem Alone.ballots_eq (h : Alone db t p array after) {d : Document} {l : List Record}
    (hd : db.users.lookup t.emailString = some d) (hl : d .userVotesList = some (.records l))
    (V : String) (i : Nat) :
    ballots after V i + (if some (i : Int) ∈ rows V l then 1 else 0)
      = ballots db V i + if some (i : Int) ∈ rows V (cast t.UUID t.index l) then 1 else 0 := by
  have hafter : ∀ k, after.users.lookup k = if k = t.emailString then
      some (Function.update d .userVotesList (some (.records (cast t.UUID t.index l))))
        else db.users.lookup k := by
    intro k
    rw [h.users k, listOf_eq hd hl]
    by_cases hk : k = t.emailString
    · rw [if_pos hk, hk, hd, Option.map_some, if_pos rfl]
    · simp only [if_neg hk]
      cases db.users.lookup k <;> rfl
  have hx := countP_exchange (votedFor V i) hd hafter
  have hold : (votedFor V i d).toNat = if some (i : Int) ∈ rows V l then 1 else 0 := by
    unfold votedFor
    rw [hl]
    by_cases hm : some (i : Int) ∈ rows V l <;> simp [hm]
  have hnew : (votedFor V i (Function.update d .userVotesList
      (some (.records (cast t.UUID t.index l))))).toNat
        = if some (i : Int) ∈ rows V (cast t.UUID t.index l) then 1 else 0 := by
    unfold votedFor
    rw [Function.update_self]
    by_cases hm : some (i : Int) ∈ rows V (cast t.UUID t.index l) <;> simp [hm]
  rw [hold, hnew] at hx
  exact hx

theorem Alone.ballots_ne (h : Alone db t p array after) (hc : Counted db)
    (hu : ∃ d, db.users.lookup t.emailString = some d) {V : String} (hV : V ≠ t.UUID) (i : Nat) :
    ballots after V i = ballots db V i := by
  obtain ⟨d, hd⟩ := hu
  obtain ⟨l, hl, _⟩ := hc.users _ d hd
  have := h.ballots_eq hd hl V i
  rw [rows_cast_ne hV] at this
  omega

theorem Alone.tally_iff (h : Alone db t p array after) (hc : Counted db) (hT : Tally db)
    (hu : ∃ d, db.users.lookup t.emailString = some d)
    (hv : ∃ d, db.votes.lookup t.UUID = some d) :
    Tally after ↔ ∀ i < (variantsOf db t.UUID).length,
      statusAt array i = some (ballots after t.UUID i : Int) := by
  obtain ⟨d, hd⟩ := hv
  obtain ⟨l, hl, _⟩ := hc.votes _ d hd
  have hvar : variantsOf db t.UUID = l := variantsOf_eq hd hl
  have hlen := length_count h.count
  have hself : after.votes.lookup t.UUID
      = some (Function.update d .voteVariants (some (.records array))) := by
    rw [h.votes, hd, Option.map_some, if_pos rfl]
  constructor
  · intro hA i hi
    exact hA t.UUID _ array hself (Function.update_self ..) i (by omega)
  · intro hA V d' array' hd' ha' i hi
    by_cases hV : V = t.UUID
    · subst hV
      rw [hself] at hd'
      cases hd'
      rw [Function.update_self] at ha'
      cases ha'
      exact hA i (by omega)
    · rw [h.votes V] at hd'
      obtain ⟨d₀, hd₀, rfl⟩ := Option.map_eq_some_iff.mp hd'
      rw [if_neg hV] at ha'
      rw [h.ballots_ne hc hu hV]
      exact hT V d₀ array' hd₀ ha' i hi

theorem Alone.ballots_tapped (h : Alone db t p array after) (hc : Counted db)
    (hu : ∃ d, db.users.lookup t.emailString = some d) (i : Nat) :
    ballots after t.UUID i + (if some (i : Int) ∈ rows t.UUID (listOf db t.emailString) then 1 else 0)
      = ballots db t.UUID i + if (i : Int) = t.index then 1 else 0 := by
  obtain ⟨d, hd⟩ := hu
  obtain ⟨l, hl, _⟩ := hc.users _ d hd
  have hballots := h.ballots_eq hd hl t.UUID i
  simp only [rows_cast_self, List.mem_singleton, Option.some.injEq] at hballots
  rw [listOf_eq hd hl]
  exact hballots

theorem Alone.counts_first (h : Alone db t .first array after) (hc : Counted db)
    (hu : ∃ d, db.users.lookup t.emailString = some d)
    (hnone : rows t.UUID (listOf db t.emailString) = [])
    (hbefore : ∀ i < (variantsOf db t.UUID).length,
      statusAt (variantsOf db t.UUID) i = some (ballots db t.UUID i : Int)) :
    ∀ i < (variantsOf db t.UUID).length, statusAt array i = some (ballots after t.UUID i : Int) := by
  intro i hi
  obtain ⟨_, h0, _⟩ := firstCount_eq_ok.mp h.count
  have hb := h.ballots_tapped hc hu i
  rw [hnone, if_neg List.not_mem_nil] at hb
  rw [statusAt_firstCount h.count, hbefore i hi]
  by_cases hi' : i = t.index.toNat
  · rw [if_pos (by omega : (i : Int) = t.index)] at hb
    rw [if_pos hi', Option.map_some]
    simp only [Option.some.injEq]
    omega
  · rw [if_neg (by omega : ¬ (i : Int) = t.index)] at hb
    rw [if_neg hi']
    simp only [Option.some.injEq]
    omega

theorem Alone.counts_second {j : Int} (h : Alone db t (.second j) array after) (hc : Counted db)
    (hu : ∃ d, db.users.lookup t.emailString = some d)
    (hj : rows t.UUID (listOf db t.emailString) = [some j])
    (hbefore : ∀ i < (variantsOf db t.UUID).length,
      statusAt (variantsOf db t.UUID) i = some (ballots db t.UUID i : Int)) :
    (∀ i < (variantsOf db t.UUID).length, statusAt array i = some (ballots after t.UUID i : Int)) ↔
      j = t.index ∨ ballots db t.UUID j.toNat = ballots db t.UUID t.index.toNat + 1 := by
  obtain ⟨⟨hj0, hjlt⟩, h0, hilt⟩ := inRange_secondCount h.count
  have hballots := h.ballots_tapped hc hu
  simp only [hj, List.mem_singleton, Option.some.injEq] at hballots
  -- every row but the tapped one comes out right
  have hrest : ∀ i < (variantsOf db t.UUID).length, i ≠ t.index.toNat →
      statusAt array i = some (ballots after t.UUID i : Int) := by
    intro i hi hne
    have hb := hballots i
    rw [if_neg (by omega : ¬ (i : Int) = t.index)] at hb
    rw [statusAt_secondCount h.count, if_neg hne, hbefore i hi]
    by_cases hij : i = j.toNat
    · rw [if_pos (by omega : (i : Int) = j)] at hb
      rw [if_pos hij, Option.map_some]
      simp only [Option.some.injEq]
      omega
    · rw [if_neg (by omega : ¬ (i : Int) = j)] at hb
      rw [if_neg hij]
      simp only [Option.some.injEq]
      omega
  have hself : statusAt array t.index.toNat = some (ballots after t.UUID t.index.toNat : Int) ↔
      j = t.index ∨ ballots db t.UUID j.toNat = ballots db t.UUID t.index.toNat + 1 := by
    have hb := hballots t.index.toNat
    rw [if_pos (by omega : _ = t.index)] at hb
    rw [statusAt_secondCount h.count, if_pos rfl, hbefore _ hjlt]
    simp only [Option.some.injEq]
    by_cases hjt : j = t.index
    · rw [if_pos (by omega : _ = j)] at hb
      rw [hjt]
      simp only [true_or, iff_true]
      omega
    · rw [if_neg (by omega : ¬ _ = j)] at hb
      simp only [hjt, false_or]
      omega
  rw [← hself]
  constructor
  · intro hA
    exact hA _ hilt
  · intro hA i hi
    by_cases hi' : i = t.index.toNat
    · rw [hi']; exact hA
    · exact hrest i hi hi'

/-- **One tap keeps the tally iff it is a first vote or replaceable.** -/
theorem tally_tap_iff (h : Alone db t p array after) (hc : Counted db) (hT : Tally db)
    (hu : ∃ d, db.users.lookup t.emailString = some d)
    (hv : ∃ d, db.votes.lookup t.UUID = some d) : Tally after ↔ Replaceable db t := by
  rw [h.tally_iff hc hT hu hv]
  have hbefore : ∀ i < (variantsOf db t.UUID).length,
      statusAt (variantsOf db t.UUID) i = some (ballots db t.UUID i : Int) := by
    obtain ⟨d, hd⟩ := hv
    obtain ⟨l, hl, _⟩ := hc.votes _ d hd
    rw [variantsOf_eq hd hl]
    exact hT t.UUID d l hd hl
  have hrows : rows t.UUID (listOf db t.emailString) = [] ∨
      ∃ j, rows t.UUID (listOf db t.emailString) = [some j] := by
    obtain ⟨d, hd⟩ := hu
    obtain ⟨l, hl, hrows⟩ := hc.users _ d hd
    rw [listOf_eq hd hl]
    exact hrows t.UUID
  have hpath := h.path
  unfold Replaceable
  rcases hrows with hnone | ⟨j, hj⟩
  · -- a first vote
    rw [pathOf_eq_first.mpr (List.map_eq_nil_iff.mp hnone)] at hpath
    cases hpath
    exact ⟨fun _ j hj => absurd hj (by simp [hnone]), fun _ => h.counts_first hc hu hnone hbefore⟩
  · -- a change from row `j`
    rw [pathOf_eq_second.mpr (by rw [hj]; rfl)] at hpath
    cases hpath
    obtain ⟨⟨_, hjlt⟩, _, hilt⟩ := inRange_secondCount h.count
    rw [h.counts_second hc hu hj hbefore]
    constructor
    · intro hA j' hj'
      obtain rfl : j = j' := by simpa [hj] using hj'
      refine hA.imp_right fun hb => ⟨_, hbefore _ hilt, ?_⟩
      rw [hbefore _ hjlt, hb]
      simp
    · intro hR
      refine (hR j hj).imp_right fun ⟨c, hc1, hc2⟩ => ?_
      rw [hbefore _ hilt, Option.some.injEq] at hc1
      rw [hbefore _ hjlt, Option.some.injEq] at hc2
      omega

end

/-! ## runs -/

def states (h : List (Database × Tap)) (db : Database) : List Database := h.map Prod.fst ++ [db]

theorem TapRun.counted {db₀ db : Database} {h : List (Database × Tap)} (hrun : TapRun db₀ h db)
    (h₀ : Fresh db₀) : Counted db := by
  induction hrun with
  | nil => exact h₀.counted
  | tap _ user vote hc ih =>
    obtain ⟨p, array, ha⟩ := hc.alone (ih.present user vote)
    exact ha.counted ih

/-- **The tally holds in every state of a run iff every tap is a first vote or replaceable.** -/
theorem tally_run_iff {db₀ db : Database} {h : List (Database × Tap)} (h₀ : Fresh db₀)
    (hrun : TapRun db₀ h db) :
    (∀ s ∈ states h db, Tally s) ↔ ∀ x ∈ h, Replaceable x.1 x.2 := by
  induction hrun with
  | nil =>
    refine ⟨fun _ x hx => absurd hx List.not_mem_nil, fun _ s hs => ?_⟩
    obtain rfl : s = db₀ := by simpa [states] using hs
    exact h₀.tally
  | @tap h db t u hrun user vote hc ih =>
    have hcount := hrun.counted h₀
    obtain ⟨p, array, ha⟩ := hc.alone (hcount.present user vote)
    have hstates : ∀ s, s ∈ states (h ++ [(db, t)]) u.db ↔ s ∈ states h db ∨ s = u.db := by
      intro s
      simp [states, or_assoc]
    constructor
    · intro hall x hx
      have hold : ∀ s ∈ states h db, Tally s := fun s hs => hall s ((hstates s).mpr (.inl hs))
      rcases List.mem_append.mp hx with hx | hx
      · exact ih.mp hold x hx
      · obtain rfl := List.mem_singleton.mp hx
        exact (tally_tap_iff ha hcount (hold db (by simp [states])) user vote).mp
          (hall u.db ((hstates _).mpr (.inr rfl)))
    · intro hall s hs
      have hold := ih.mpr fun x hx => hall x (List.mem_append_left _ hx)
      rcases (hstates s).mp hs with hs | rfl
      · exact hold s hs
      · exact (tally_tap_iff ha hcount (hold db (by simp [states])) user vote).mpr
          (hall (db, t) (by simp))

/-! ## a change of vote that doubles the old count -/

def firstMoves : List Move := [.serve 0, .deliver 0, .serve 0, .serve 0, .deliver 0, .serve 0]
def secondMoves : List Move := [.serve 0, .deliver 0, .serve 0, .deliver 0, .serve 0, .serve 0]

def tapA : Tap := ⟨0, 0, "a", 0, "v"⟩
def tapB : Tap := ⟨1, 0, "b", 0, "v"⟩
def changeA : Tap := ⟨2, 0, "a", 1, "v"⟩

def afterA : Database := (System.played twoVoters [tapA] firstMoves).db
def afterB : Database := (System.played afterA [tapB] firstMoves).db
def afterChange : Database := (System.played afterB [changeA] secondMoves).db

theorem fresh_twoVoters : Fresh twoVoters where
  votes := by
    intro id d hd
    have hcells : variantsArray [1, 2] (fun row => some (if row = 0 then "x" else "y"))
        = .ok ([1, 2], [variant 1 "x", variant 2 "y"]) := rfl
    by_cases hid : id = "v"
    · subst hid
      cases hd
      exact ⟨_, _, _, _, _, _, _, hcells, rfl⟩
    · have hnone : twoVoters.votes.lookup id = none := AList.lookup_insert_ne hid
      rw [hnone] at hd
      cases hd
  users := by
    intro id d hd
    by_cases hb : id = "b"
    · subst hb
      cases hd; rfl
    · by_cases ha : id = "a"
      · subst ha
        cases hd; rfl
      · have hnone : twoVoters.users.lookup id = none :=
          (AList.lookup_insert_ne hb).trans (AList.lookup_insert_ne ha)
        rw [hnone] at hd
        cases hd

theorem tapRun_afterB : TapRun twoVoters [(twoVoters, tapA), (afterA, tapB)] afterB :=
  .tap (.tap .nil ⟨_, rfl⟩ ⟨_, rfl⟩ (completed_played firstMoves rfl)) ⟨_, rfl⟩ ⟨_, rfl⟩
    (completed_played firstMoves rfl)

theorem tally_afterB : (∀ s ∈ states [(twoVoters, tapA), (afterA, tapB)] afterB, Tally s) ↔
    ∀ x ∈ [(twoVoters, tapA), (afterA, tapB)], Replaceable x.1 x.2 :=
  tally_run_iff fresh_twoVoters tapRun_afterB

/-- **Two ballots, three votes: the new row gets the old row's count.** -/
theorem tally_broken :
    Fresh twoVoters ∧
    TapRun twoVoters [(twoVoters, tapA), (afterA, tapB), (afterB, changeA)] afterChange ∧
    ¬ Tally afterChange := by
  refine ⟨fresh_twoVoters, .tap tapRun_afterB ⟨_, rfl⟩ ⟨_, rfl⟩
    (completed_played secondMoves rfl), fun h => ?_⟩
  have htwo := h "v" _ _ rfl rfl 1 (by decide)
  revert htwo
  decide

end VoteOnOffice
