import VoteOnOffice.Records.Reachable
import VoteOnOffice.Taps.Alone

/-!
# One tap: what it touches, and tapping the same row again

* `InRange db t`          the ids are the key fields, every count of the vote is an `Int`, and every entry
                          of the user for the vote names one of its rows; so it is in every reachable state
                          (`inRange_of_run`);
* `Countable array`       no count is at an end of `Int`, where counting on traps;
* `TouchesOnly db t after`
                          `after` differs from `db` in the counts of the tapped row and the old one
                          and in the user's entry for the vote, and nowhere else;
* `Database.Same`         two databases have the same documents;
* `tap_touchesOnly`       **a tap on its own can run to its end, and touches only what it must**;
* `tap_twice`             **the same tap again changes nothing**.
-/

namespace VoteOnOffice

structure InRange (db : Database) (t : Tap) : Prop where
  keyed : db.WellKeyed
  vote : ∀ dv, db.votes.lookup t.UUID = some dv → ∃ array,
    dv .voteVariants = some (.records array) ∧ ∀ i < array.length, ∃ c, statusAt array i = some c
  user : ∀ d, db.users.lookup t.emailString = some d → ∃ l, d .userVotesList = some (.records l) ∧
    ((∃ dv, db.votes.lookup t.UUID = some dv) → ∀ r ∈ entries t.UUID l, ∃ row : Int,
      Scalar.asInt (r .voteVariantID) = some row ∧ 0 ≤ row ∧ row < (variantsOf db t.UUID).length)

/-- the model's `Int` has no ends -/
def Countable (array : List Record) : Prop :=
  ∀ i c, statusAt array i = some c → Int64.minValue.toInt < c ∧ c < Int64.maxValue.toInt

structure TouchesOnly (db : Database) (t : Tap) (after : Database) : Prop where
  otherVotes : ∀ V, V ≠ t.UUID → after.votes.lookup V = db.votes.lookup V
  otherUsers : ∀ e, e ≠ t.emailString → after.users.lookup e = db.users.lookup e
  voteFields : ∀ f, f ≠ .voteVariants →
    (after.votes.lookup t.UUID).map (fun d : Document => d f)
      = (db.votes.lookup t.UUID).map fun d : Document => d f
  userFields : ∀ f, f ≠ .userVotesList →
    (after.users.lookup t.emailString).map (fun d : Document => d f)
      = (db.users.lookup t.emailString).map fun d : Document => d f
  length : (variantsOf after t.UUID).length = (variantsOf db t.UUID).length
  elements : ∀ f, f ≠ .variantVoteStatus → ∀ i : Nat,
    (variantsOf after t.UUID)[i]?.map (fun r => r f)
      = (variantsOf db t.UUID)[i]?.map fun r => r f
  /-- `head?` is the row of the user's previous entry, if there is one -/
  counts : ∀ i : Nat, (i : Int) ≠ t.index →
    (rows t.UUID (listOf db t.emailString)).head? ≠ some (some (i : Int)) →
      (variantsOf after t.UUID)[i]? = (variantsOf db t.UUID)[i]?
  otherEntries : (listOf after t.emailString).filter (fun r => !isFor t.UUID r)
    = (listOf db t.emailString).filter fun r => !isFor t.UUID r
  entry : entries t.UUID (listOf after t.emailString) = [ballot t.UUID t.index]

def Database.Same (db db' : Database) : Prop :=
  ∀ c id, (db.get c).lookup id = (db'.get c).lookup id

/-! ## records in range -/

theorem DocsOk.inRange {size : String → Nat} {db : Database} (h : DocsOk size db) (t : Tap) :
    InRange db t where
  keyed := h.keyed
  vote := by
    intro dv hdv
    obtain ⟨array, ha, hok⟩ := (h.votes _ dv hdv).variants
    exact ⟨array, ha, hok.counts⟩
  user := by
    intro d hd
    obtain ⟨l, hl, hok⟩ := (h.users _ d hd).list
    refine ⟨l, hl, ?_⟩
    rintro ⟨dv, hdv⟩ r hr
    obtain ⟨hmem, hfor⟩ := List.mem_filter.mp hr
    obtain ⟨array, ha, harray⟩ := (h.votes _ dv hdv).variants
    rw [variantsOf_eq hdv ha, harray.length]
    exact hok.inRange r hmem _ hfor

theorem inRange_of_run {ls : List Label} {s : System} (hrun : System.Run .initial ls s) (t : Tap) :
    InRange s.db t := by
  obtain ⟨size, hsound⟩ := run_sound hrun
  exact hsound.docs.inRange t

section
variable {db : Database} {t : Tap}

theorem InRange.path_count (h : InRange db t) {d dv : Document} {l array : List Record}
    (hd : db.users.lookup t.emailString = some d) (hl : d .userVotesList = some (.records l))
    (hdv : db.votes.lookup t.UUID = some dv) (ha : dv .voteVariants = some (.records array))
    (h0 : 0 ≤ t.index) (hlt : t.index < array.length) :
    ∃ p array', pathOf t.UUID l = .ok p ∧ p.count t.index array = .ok array' := by
  have hcount : ∀ row : Int, 0 ≤ row → row < array.length →
      ∃ c, statusAt array row.toNat = some c := by
    intro row hrow hrow'
    obtain ⟨array', ha', hc⟩ := h.vote dv hdv
    cases ha.symm.trans ha'
    exact hc row.toNat (by omega)
  obtain ⟨c, hc⟩ := hcount t.index h0 hlt
  cases hentries : entries t.UUID l with
  | nil =>
    obtain ⟨array', h1⟩ := setStatus_of_statusAt h0 hc (c + 1)
    exact ⟨.first, array', pathOf_eq_first.mpr hentries, firstCount_eq_ok.mpr ⟨c, h0, hc, h1⟩⟩
  | cons r rest =>
    obtain ⟨l', hl', hrange⟩ := h.user d hd
    cases hl.symm.trans hl'
    obtain ⟨row, hrow, hrow0, hrowlt⟩ := hrange ⟨dv, hdv⟩ r (by rw [hentries]; simp)
    rw [variantsOf_eq hdv ha] at hrowlt
    obtain ⟨n, hn⟩ := hcount row hrow0 hrowlt
    obtain ⟨array₁, h1⟩ := setStatus_of_statusAt hrow0 hn (n - 1)
    have hc₁ : ∃ c₁, statusAt array₁ t.index.toNat = some c₁ := by
      rw [statusAt_setStatus h1]
      split
      · exact ⟨_, rfl⟩
      · exact ⟨c, hc⟩
    obtain ⟨c₁, hc₁⟩ := hc₁
    obtain ⟨array', h2⟩ := setStatus_of_statusAt h0 hc₁ n
    refine ⟨.second row, array', pathOf_eq_second.mpr ?_,
      secondCount_eq_ok.mpr ⟨n, array₁, hrow0, hn, h1, h2⟩⟩
    unfold rows
    rw [hentries, List.map_cons, List.head?_cons, hrow]

theorem InRange.present (h : InRange db t) {d dv : Document}
    (hd : db.users.lookup t.emailString = some d) (hdv : db.votes.lookup t.UUID = some dv) :
    Present db [t] where
  keyed := h.keyed
  user := by
    intro v hv
    obtain rfl := List.mem_singleton.mp hv
    obtain ⟨l, hl, _⟩ := h.user d hd
    exact ⟨d, l, hd, hl⟩
  vote := by
    intro v hv
    obtain rfl := List.mem_singleton.mp hv
    obtain ⟨array, ha, _⟩ := h.vote dv hdv
    exact ⟨dv, array, hdv, ha⟩

theorem exists_vote {V : String} {i : Int} (h0 : 0 ≤ i) (hi : i < (variantsOf db V).length) :
    ∃ dv, db.votes.lookup V = some dv := by
  cases hdv : db.votes.lookup V with
  | some dv => exact ⟨dv, rfl⟩
  | none =>
    unfold variantsOf at hi
    rw [hdv] at hi
    simp at hi
    omega

/-! ## the frame -/

section
variable {p : Path} {array : List Record} {after : Database} {d dv : Document}

theorem Alone.user (h : Alone db t p array after) (hd : db.users.lookup t.emailString = some d) :
    after.users.lookup t.emailString = some (Function.update d .userVotesList
      (some (.records (cast t.UUID t.index (listOf db t.emailString))))) := by
  rw [h.users, hd, Option.map_some, if_pos rfl]

theorem Alone.vote (h : Alone db t p array after) (hdv : db.votes.lookup t.UUID = some dv) :
    after.votes.lookup t.UUID
      = some (Function.update dv .voteVariants (some (.records array))) := by
  rw [h.votes, hdv, Option.map_some, if_pos rfl]

end

theorem map_field {o : Option Document} {f g : Field} {P : Prop} [Decidable P] {v : Value}
    (h : f ≠ g) :
    (o.map fun d : Document => if P then Function.update d g (some v) else d).map
      (fun d : Document => d f) = o.map fun d : Document => d f := by
  cases o with
  | none => rfl
  | some d =>
    simp only [Option.map_some]
    split
    · rw [Function.update_of_ne h]
    · rfl

theorem Alone.touchesOnly {p : Path} {array : List Record} {after : Database}
    (h : Alone db t p array after) {d dv : Document} (hd : db.users.lookup t.emailString = some d)
    (hdv : db.votes.lookup t.UUID = some dv) : TouchesOnly db t after := by
  have hlist : listOf after t.emailString = cast t.UUID t.index (listOf db t.emailString) :=
    listOf_eq (h.user hd) (Function.update_self ..)
  have harray : variantsOf after t.UUID = array :=
    variantsOf_eq (h.vote hdv) (Function.update_self ..)
  constructor
  case otherVotes =>
    intro V hV
    rw [h.votes V]
    simp only [if_neg hV, Option.map_id']
  case otherUsers =>
    intro e he
    rw [h.users e]
    simp only [if_neg he, Option.map_id']
  case voteFields =>
    intro f hf
    rw [h.votes, map_field hf]
  case userFields =>
    intro f hf
    rw [h.users, map_field hf]
  case length =>
    rw [harray]
    exact length_count h.count
  case elements =>
    intro f hf i
    rw [harray]
    exact field_count h.count hf i
  case counts =>
    intro i hi hrows
    rw [harray]
    refine getElem?_count h.count hi ?_
    rintro rfl
    exact hrows (pathOf_eq_second.mp h.path)
  case otherEntries =>
    rw [hlist, filter_cast]
  case entry =>
    rw [hlist, entries_cast_self]

/-- **A tap on its own can run to its end, and touches only what it must.** -/
theorem tap_touchesOnly (h : InRange db t) (hu : ∃ d, db.users.lookup t.emailString = some d)
    (hrow : 0 ≤ t.index ∧ t.index < (variantsOf db t.UUID).length) :
    (Countable (variantsOf db t.UUID) → ∃ u, Completed db [t] u) ∧
      ∀ u, Completed db [t] u → TouchesOnly db t u.db := by
  obtain ⟨d, hd⟩ := hu
  obtain ⟨dv, hdv⟩ := exists_vote hrow.1 hrow.2
  obtain ⟨l, hl, _⟩ := h.user d hd
  obtain ⟨array, ha, _⟩ := h.vote dv hdv
  rw [variantsOf_eq hdv ha] at hrow
  constructor
  · intro _
    obtain ⟨p, array', hpath, hcount⟩ := h.path_count hd hl hdv ha hrow.1 hrow.2
    exact exists_completed h.keyed hd hl hdv ha hpath hcount
  · intro u hc
    obtain ⟨p, array', halone⟩ := hc.alone (h.present hd hdv)
    exact halone.touchesOnly hd hdv

/-! ## the same tap again -/

theorem tapped_counted {p : Path} {index : Int} {array array' : List Record}
    (h : p.count index array = .ok array') :
    0 ≤ index ∧ ∃ c, statusAt array' index.toNat = some c := by
  cases p with
  | first =>
    obtain ⟨n, h0, _, hs⟩ := firstCount_eq_ok.mp h
    exact ⟨h0, n + 1, by rw [statusAt_setStatus hs, if_pos rfl]⟩
  | second extraIndex =>
    obtain ⟨n, _, _, _, _, hs⟩ := secondCount_eq_ok.mp h
    exact ⟨(setStatus_eq_ok.mp hs).1, n, by rw [statusAt_setStatus hs, if_pos rfl]⟩

section
variable {p : Path} {array : List Record} {after : Database} {d dv : Document}

/-- on the list just written the way leads to the row just tapped -/
theorem pathOf_cast (UUID : String) (index : Int) (arrays : List Record) :
    pathOf UUID (cast UUID index arrays) = .ok (.second index) := by
  rw [pathOf_eq_second, rows_cast_self]
  rfl

theorem Alone.count_again (h : Alone db t p array after) :
    (Path.second t.index).count t.index array = .ok array := by
  obtain ⟨h0, c, hc⟩ := tapped_counted h.count
  exact secondCount_same h0 hc

theorem Alone.again (h : Alone db t p array after) (hd : db.users.lookup t.emailString = some d)
    (hdv : db.votes.lookup t.UUID = some dv) {t' : Tap} (hemail : t'.emailString = t.emailString)
    (hUUID : t'.UUID = t.UUID) (hindex : t'.index = t.index) {p' : Path} {array' : List Record}
    {after' : Database} (h' : Alone after t' p' array' after') : after'.Same after := by
  have huser := h.user hd
  have hvote := h.vote hdv
  have hlist := listOf_eq huser (Function.update_self ..)
  have harray := variantsOf_eq hvote (Function.update_self ..)
  have hpath := h'.path
  have hcount := h'.count
  rw [hemail, hUUID, hlist, pathOf_cast] at hpath
  cases hpath
  rw [hUUID, hindex, harray, h.count_again] at hcount
  cases hcount
  intro c id
  cases c with
  | users =>
    refine (h'.users id).trans ?_
    rw [hemail, hUUID, hindex, hlist, cast_cast]
    by_cases he : id = t.emailString
    · rw [he, huser, Option.map_some, if_pos rfl, Function.update_idem]
      exact huser.symm
    · simp only [if_neg he, Option.map_id']; rfl
  | votes =>
    refine (h'.votes id).trans ?_
    rw [hUUID]
    by_cases hV : id = t.UUID
    · rw [hV, hvote, Option.map_some, if_pos rfl, Function.update_idem]
      exact hvote.symm
    · simp only [if_neg hV, Option.map_id']; rfl

end

/-- **The same tap again can run to its end, and changes nothing.** -/
theorem tap_twice (h : InRange db t) (hu : ∃ d, db.users.lookup t.emailString = some d)
    (hrow : 0 ≤ t.index ∧ t.index < (variantsOf db t.UUID).length) {t' : Tap}
    (hemail : t'.emailString = t.emailString) (hUUID : t'.UUID = t.UUID)
    (hindex : t'.index = t.index) :
    (Countable (variantsOf db t.UUID) → ∃ u u', Completed db [t] u ∧ Completed u.db [t'] u') ∧
      ∀ u u', Completed db [t] u → Completed u.db [t'] u' → u'.db.Same u.db := by
  obtain ⟨d, hd⟩ := hu
  obtain ⟨dv, hdv⟩ := exists_vote hrow.1 hrow.2
  obtain ⟨l, hl, _⟩ := h.user d hd
  obtain ⟨array, ha, _⟩ := h.vote dv hdv
  rw [variantsOf_eq hdv ha] at hrow
  have hpresent := h.present hd hdv
  constructor
  · intro _
    obtain ⟨p, array', hpath, hcount⟩ := h.path_count hd hl hdv ha hrow.1 hrow.2
    obtain ⟨u, hc⟩ := exists_completed h.keyed hd hl hdv ha hpath hcount
    obtain ⟨q, array₁, halone⟩ := hc.alone hpresent
    have huser := halone.user hd
    have hvote := halone.vote hdv
    rw [← hemail] at huser
    rw [← hUUID] at hvote
    obtain ⟨u', hc'⟩ := exists_completed (halone.wellKeyed h.keyed) huser (Function.update_self ..)
      hvote (Function.update_self ..) (by rw [hUUID]; exact pathOf_cast _ _ _)
      (by rw [hindex]; exact halone.count_again)
    exact ⟨u, u', hc, hc'⟩
  · intro u u' hc hc'
    obtain ⟨p, array', halone⟩ := hc.alone hpresent
    have huser := halone.user hd
    have hvote := halone.vote hdv
    have hpresent' : Present u.db [t'] := by
      refine ⟨halone.wellKeyed h.keyed, fun v hv => ?_, fun v hv => ?_⟩
      · obtain rfl := List.mem_singleton.mp hv
        exact ⟨_, _, by rw [hemail]; exact huser, Function.update_self ..⟩
      · obtain rfl := List.mem_singleton.mp hv
        exact ⟨_, _, by rw [hUUID]; exact hvote, Function.update_self ..⟩
    obtain ⟨p', array'', halone'⟩ := hc'.alone hpresent'
    exact halone.again hd hdv hemail hUUID hindex halone'

end

/-! ## at `a`'s first vote -/

/-- `a` and a vote with two rows, as a run leaves them -/
def opened : List Label := tapping.take 4

theorem countable_opened : Countable (variantsOf (System.after opened).db "v") := by
  intro i c hc
  match i with
  | 0 => cases hc; decide
  | 1 => cases hc; decide
  | i + 2 => cases hc

theorem tap_touchesOnly_opened :
    (∃ u, Completed (System.after opened).db [⟨0, 0, "a", 1, "v"⟩] u) ∧
      ∀ u, Completed (System.after opened).db [⟨0, 0, "a", 1, "v"⟩] u →
        TouchesOnly (System.after opened).db ⟨0, 0, "a", 1, "v"⟩ u.db := by
  obtain ⟨hex, hall⟩ := @tap_touchesOnly (System.after opened).db ⟨0, 0, "a", 1, "v"⟩
    (inRange_of_run (run_after opened (by decide)) _) ⟨userData "a", rfl⟩ ⟨by decide, by decide⟩
  exact ⟨hex countable_opened, hall⟩

theorem tap_twice_opened :
    (∃ u u', Completed (System.after opened).db [⟨0, 0, "a", 1, "v"⟩] u ∧
        Completed u.db [⟨1, 0, "a", 1, "v"⟩] u') ∧
      ∀ u u', Completed (System.after opened).db [⟨0, 0, "a", 1, "v"⟩] u →
        Completed u.db [⟨1, 0, "a", 1, "v"⟩] u' → u'.db.Same u.db := by
  obtain ⟨hex, hall⟩ := @tap_twice (System.after opened).db ⟨0, 0, "a", 1, "v"⟩
    (inRange_of_run (run_after opened (by decide)) _) ⟨userData "a", rfl⟩ ⟨by decide, by decide⟩
    ⟨1, 0, "a", 1, "v"⟩ rfl rfl rfl
  exact ⟨hex countable_opened, hall⟩

end VoteOnOffice
