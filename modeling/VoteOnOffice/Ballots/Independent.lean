import VoteOnOffice.Taps.Alone

/-!
# Taps of different users on different votes

* `Independent taps`   no two taps have their user or their vote in common;
* `Serial db taps after`
                       the taps go through one after the other, each on its own;
* `Outcomes db taps after`
                       what independent taps make of the database, document by document;
* `Completed.outcomes`, `Serial.outcomes`
                       both the overlapping and the serial taps have these outcomes;
* `serializable`       **so overlapping independent taps leave what they leave one after the other,
                       in whatever order.**
-/

namespace VoteOnOffice
open Lineage

structure Independent (taps : List Tap) : Prop where
  users : (taps.map Tap.emailString).Nodup
  votes : (taps.map Tap.UUID).Nodup

inductive Serial : Database → List Tap → Database → Prop where
  | nil (db : Database) : Serial db [] db
  | cons {db after : Database} {t : Tap} {taps : List Tap} {u : System}
      (hc : Completed db [t] u) (hrest : Serial u.db taps after) : Serial db (t :: taps) after

/-- the way of the tap on the list in `db`, and the array that it counts -/
def CountsOn (db : Database) (t : Tap) (p : Path) (array : List Record) : Prop :=
  pathOf t.UUID (listOf db t.emailString) = .ok p ∧
    p.count t.index (variantsOf db t.UUID) = .ok array

structure Outcomes (db : Database) (taps : List Tap) (after : Database) : Prop where
  users : ∀ t ∈ taps, after.users.lookup t.emailString =
    (db.users.lookup t.emailString).map fun d : Document => Function.update d .userVotesList
      (some (.records (cast t.UUID t.index (listOf db t.emailString))))
  votes : ∀ t ∈ taps, ∃ p array, CountsOn db t p array ∧ after.votes.lookup t.UUID =
    (db.votes.lookup t.UUID).map fun d : Document =>
      Function.update d .voteVariants (some (.records array))
  otherUsers : ∀ e, (∀ t ∈ taps, t.emailString ≠ e) → after.users.lookup e = db.users.lookup e
  otherVotes : ∀ V, (∀ t ∈ taps, t.UUID ≠ V) → after.votes.lookup V = db.votes.lookup V

section
variable {db after : Database} {taps : List Tap} {u : System}

theorem Independent.nodup (h : Independent taps) : taps.Nodup := List.Nodup.of_map _ h.users

theorem Independent.perm {taps' : List Tap} (h : Independent taps) (hp : taps'.Perm taps) :
    Independent taps' :=
  ⟨(hp.map _).nodup_iff.mpr h.users, (hp.map _).nodup_iff.mpr h.votes⟩

theorem CountsOn.unique {t : Tap} {p p' : Path} {array array' : List Record}
    (h : CountsOn db t p array) (h' : CountsOn db t p' array') : array = array' := by
  have hp := h.1.symm.trans h'.1
  cases hp
  exact Except.ok.inj (h.2.symm.trans h'.2)

theorem Outcomes.perm {taps' : List Tap} (h : Outcomes db taps after) (hp : taps'.Perm taps) :
    Outcomes db taps' after where
  users := fun t ht => h.users t (hp.mem_iff.mp ht)
  votes := fun t ht => h.votes t (hp.mem_iff.mp ht)
  otherUsers := fun e he => h.otherUsers e fun t ht => he t (hp.mem_iff.mpr ht)
  otherVotes := fun V hV => h.otherVotes V fun t ht => hV t (hp.mem_iff.mpr ht)

theorem Outcomes.unique {after' : Database} (h : Outcomes db taps after)
    (h' : Outcomes db taps after') :
    (∀ e, after.users.lookup e = after'.users.lookup e) ∧
      ∀ V, after.votes.lookup V = after'.votes.lookup V := by
  constructor
  · intro e
    by_cases he : ∃ t ∈ taps, t.emailString = e
    · obtain ⟨t, ht, rfl⟩ := he
      rw [h.users t ht, h'.users t ht]
    · have he : ∀ t ∈ taps, t.emailString ≠ e := fun t ht e' => he ⟨t, ht, e'⟩
      rw [h.otherUsers e he, h'.otherUsers e he]
  · intro V
    by_cases hV : ∃ t ∈ taps, t.UUID = V
    · obtain ⟨t, ht, rfl⟩ := hV
      obtain ⟨p, array, hc, hafter⟩ := h.votes t ht
      obtain ⟨p', array', hc', hafter'⟩ := h'.votes t ht
      rw [hafter, hafter', hc.unique hc']
    · have hV : ∀ t ∈ taps, t.UUID ≠ V := fun t ht e' => hV ⟨t, ht, e'⟩
      rw [h.otherVotes V hV, h'.otherVotes V hV]

/-! ## overlapping -/

theorem filter_key {key : Tap → String} (h : (taps.map key).Nodup) {t : Tap} (ht : t ∈ taps) :
    (taps.filter fun v => key v = key t) = [t] := by
  refine List.perm_singleton.mp ((List.perm_ext_iff_of_nodup ((List.Nodup.of_map _ h).filter _)
    (List.nodup_singleton t)).mpr fun v => ?_)
  rw [List.mem_filter, decide_eq_true_eq, List.mem_singleton]
  constructor
  · rintro ⟨hv, he⟩
    exact List.inj_on_of_nodup_map h hv ht he
  · rintro rfl
    exact ⟨ht, rfl⟩

/-- **What overlapping independent taps make of the database.** -/
theorem Completed.outcomes (hp : Present db taps) (hi : Independent taps)
    (hc : Completed db taps u) : Outcomes db taps u.db := by
  have hinv := hc.inv hp hi.nodup
  have huw := hc.usersWriters hp hi.nodup
  have hvw := hc.votesWriters hp hi.nodup
  refine ⟨fun t ht => ?_, fun t ht => ?_, fun e he => ?_, fun V hV => ?_⟩
  · have hcur : cur (logOf t.emailString u.usersLog) = [t] := by
      have hw := huw t.emailString
      rw [filter_key hi.users ht] at hw
      exact cur_eq_singleton (List.perm_singleton.mp hw)
    have hx := hinv.users t.emailString
    rw [show cur (logOf t.emailString u.tapState.usersLog) = _ from hcur] at hx
    exact hx
  · have hw := hvw t.UUID
    rw [filter_key hi.votes ht] at hw
    obtain ⟨⟨v, p⟩, hw, he⟩ := List.map_eq_singleton_iff.mp (List.perm_singleton.mp hw)
    cases he
    have hcur : cur (logOf v.UUID u.votesLog) = [(v, p)] := cur_eq_singleton hw
    have hmem : .write (v, p) ∈ logOf v.UUID u.votesLog := mem_writers.mp (by rw [hw]; simp)
    have hpath := (hinv.votesBy _ v p ((hinv.votesOnce _).read_mem hmem)).1.path
    unfold captured at hpath
    rw [show seen (logOf v.emailString u.tapState.usersLog) v = [] from
      seen_eq_nil hp hi.users hc ht] at hpath
    obtain ⟨a, ha, hx⟩ := hinv.votes v.UUID
    rw [show cur (logOf v.UUID u.tapState.votesLog) = _ from hcur] at ha hx
    obtain ⟨a', h1, h2⟩ := bind_eq_ok.mp ha
    cases h2
    exact ⟨p, a, ⟨hpath, h1⟩, hx⟩
  · have hw := huw e
    rw [List.filter_eq_nil_iff.mpr (by simpa using he)] at hw
    have hx := hinv.users e
    rw [show cur (logOf e u.tapState.usersLog) = [] from cur_eq_nil hw.eq_nil] at hx
    refine hx.trans ?_
    show (db.users.lookup e).map id = _
    rw [Option.map_id]
    rfl
  · have hw := hvw V
    rw [List.filter_eq_nil_iff.mpr (by simpa using hV)] at hw
    obtain ⟨a, _, hx⟩ := hinv.votes V
    rw [show cur (logOf V u.tapState.votesLog) = [] from
      cur_eq_nil (List.map_eq_nil_iff.mp hw.eq_nil)] at hx
    refine hx.trans ?_
    show (db.votes.lookup V).map id = _
    rw [Option.map_id]
    rfl

/-! ## one after the other -/

variable {t : Tap}

theorem independent_singleton (t : Tap) : Independent [t] :=
  ⟨List.nodup_singleton _, List.nodup_singleton _⟩

theorem Independent.tail (h : Independent (t :: taps)) : Independent taps :=
  ⟨(List.nodup_cons.mp h.users).2, (List.nodup_cons.mp h.votes).2⟩

theorem Independent.head_ne (h : Independent (t :: taps)) {v : Tap} (hv : v ∈ taps) :
    v.emailString ≠ t.emailString ∧ v.UUID ≠ t.UUID :=
  ⟨fun e => (List.nodup_cons.mp h.users).1 (e ▸ List.mem_map_of_mem hv),
    fun e => (List.nodup_cons.mp h.votes).1 (e ▸ List.mem_map_of_mem hv)⟩

theorem Outcomes.others {mid : Database} (h : Outcomes db [t] mid) (hi : Independent (t :: taps))
    {v : Tap} (hv : v ∈ taps) :
    mid.users.lookup v.emailString = db.users.lookup v.emailString ∧
      mid.votes.lookup v.UUID = db.votes.lookup v.UUID := by
  obtain ⟨he, hV⟩ := hi.head_ne hv
  refine ⟨h.otherUsers _ fun w hw => ?_, h.otherVotes _ fun w hw => ?_⟩ <;>
    rw [List.mem_singleton.mp hw]
  · exact he.symm
  · exact hV.symm

theorem Present.tail {mid : Database} (hp : Present db (t :: taps)) (hi : Independent (t :: taps))
    (h : Outcomes db [t] mid) (hkeyed : mid.WellKeyed) : Present mid taps where
  keyed := hkeyed
  user := fun v hv => by
    rw [(h.others hi hv).1]
    exact hp.user v (List.mem_cons_of_mem _ hv)
  vote := fun v hv => by
    rw [(h.others hi hv).2]
    exact hp.vote v (List.mem_cons_of_mem _ hv)

theorem countsOn_congr {mid : Database} {v : Tap}
    (h : mid.users.lookup v.emailString = db.users.lookup v.emailString ∧
      mid.votes.lookup v.UUID = db.votes.lookup v.UUID) (p : Path) (array : List Record) :
    CountsOn mid v p array ↔ CountsOn db v p array := by
  unfold CountsOn listOf variantsOf
  rw [h.1, h.2]

theorem Outcomes.cons {mid : Database} (h : Outcomes db [t] mid) (hrest : Outcomes mid taps after)
    (hi : Independent (t :: taps)) : Outcomes db (t :: taps) after := by
  have hself : ∀ v ∈ taps, t.emailString ≠ v.emailString ∧ t.UUID ≠ v.UUID := fun v hv =>
    ⟨(hi.head_ne hv).1.symm, (hi.head_ne hv).2.symm⟩
  refine ⟨fun v hv => ?_, fun v hv => ?_, fun e he => ?_, fun V hV => ?_⟩
  · rcases List.mem_cons.mp hv with rfl | hv
    · rw [hrest.otherUsers _ fun w hw => ((hself w hw).1).symm]
      exact h.users v (List.mem_singleton_self v)
    · have hlist : listOf mid v.emailString = listOf db v.emailString := by
        unfold listOf
        rw [(h.others hi hv).1]
      rw [hrest.users v hv, (h.others hi hv).1, hlist]
  · rcases List.mem_cons.mp hv with rfl | hv
    · rw [hrest.otherVotes _ fun w hw => ((hself w hw).2).symm]
      exact h.votes v (List.mem_singleton_self v)
    · obtain ⟨p, array, hc, hx⟩ := hrest.votes v hv
      refine ⟨p, array, (countsOn_congr (h.others hi hv) p array).mp hc, ?_⟩
      rw [hx, (h.others hi hv).2]
  · rw [hrest.otherUsers e fun w hw => he w (List.mem_cons_of_mem _ hw)]
    exact h.otherUsers e fun w hw => by
      rw [List.mem_singleton.mp hw]
      exact he t List.mem_cons_self
  · rw [hrest.otherVotes V fun w hw => hV w (List.mem_cons_of_mem _ hw)]
    exact h.otherVotes V fun w hw => by
      rw [List.mem_singleton.mp hw]
      exact hV t List.mem_cons_self

theorem Present.head (hp : Present db (t :: taps)) : Present db [t] where
  keyed := hp.keyed
  user := fun v hv => hp.user v (by rw [List.mem_singleton.mp hv]; exact List.mem_cons_self)
  vote := fun v hv => hp.vote v (by rw [List.mem_singleton.mp hv]; exact List.mem_cons_self)

theorem Completed.follow (hp : Present db (t :: taps)) (hi : Independent (t :: taps))
    (hc : Completed db [t] u) : Outcomes db [t] u.db ∧ Present u.db taps := by
  have h := hc.outcomes hp.head (independent_singleton t)
  obtain ⟨p, array, halone⟩ := hc.alone hp.head
  exact ⟨h, hp.tail hi h (halone.wellKeyed hp.keyed)⟩

/-- **What independent taps make of the database one after the other.** -/
theorem Serial.outcomes (hs : Serial db taps after) (hp : Present db taps)
    (hi : Independent taps) : Outcomes db taps after := by
  induction hs with
  | nil db =>
    exact ⟨fun t ht => absurd ht List.not_mem_nil, fun t ht => absurd ht List.not_mem_nil,
      fun _ _ => rfl, fun _ _ => rfl⟩
  | cons hc _ ih =>
    obtain ⟨h, hpresent⟩ := hc.follow hp hi
    exact h.cons (ih hpresent hi.tail) hi

theorem exists_serial (hp : Present db taps) (hi : Independent taps)
    (hcount : ∀ t ∈ taps, ∃ p array, CountsOn db t p array) : ∃ after, Serial db taps after := by
  induction taps generalizing db with
  | nil => exact ⟨db, .nil db⟩
  | cons t taps ih =>
    obtain ⟨d, l, hd, hl⟩ := hp.user t List.mem_cons_self
    obtain ⟨dv, array₀, hdv, ha⟩ := hp.vote t List.mem_cons_self
    obtain ⟨p, array, hpath, hc⟩ := hcount t List.mem_cons_self
    rw [listOf_eq hd hl] at hpath
    rw [variantsOf_eq hdv ha] at hc
    obtain ⟨u, hu⟩ := exists_completed hp.keyed hd hl hdv ha hpath hc
    obtain ⟨h, hpresent⟩ := hu.follow hp hi
    obtain ⟨after, hafter⟩ := ih hpresent hi.tail fun v hv => by
      obtain ⟨p, array, hc⟩ := hcount v (List.mem_cons_of_mem _ hv)
      exact ⟨p, array, (countsOn_congr (h.others hi hv) p array).mpr hc⟩
    exact ⟨after, .cons hu hafter⟩

/-- **Overlapping independent taps are serializable in every order.**  Whatever the interleaving of
their requests, the documents are left as by the taps going through one after the other. -/
theorem serializable (hp : Present db taps) (hi : Independent taps) (hc : Completed db taps u)
    {taps' : List Tap} (hperm : taps'.Perm taps) :
    (∃ after, Serial db taps' after) ∧ ∀ after, Serial db taps' after →
      (∀ e, u.db.users.lookup e = after.users.lookup e) ∧
        ∀ V, u.db.votes.lookup V = after.votes.lookup V := by
  have houtcomes := (hc.outcomes hp hi).perm hperm
  have hp' : Present db taps' := ⟨hp.keyed, fun t ht => hp.user t (hperm.mem_iff.mp ht),
    fun t ht => hp.vote t (hperm.mem_iff.mp ht)⟩
  refine ⟨exists_serial hp' (hi.perm hperm) fun t ht => ?_, fun after hs => ?_⟩
  · obtain ⟨p, array, hcount, _⟩ := houtcomes.votes t ht
    exact ⟨p, array, hcount⟩
  · exact houtcomes.unique (hs.outcomes hp' (hi.perm hperm))

end

def vAndW : Database :=
  twoVoters.setData .votes "w" (voteData "" "" "" "w" [variant 1 "x", variant 2 "y"])

/-- `a` taps the second row of `v` and `b` the first one of `w` -/
def apart : List Tap := [⟨0, 0, "a", 1, "v"⟩, ⟨1, 1, "b", 0, "w"⟩]

/-- every request of the one is served among those of the other -/
def interleaved : List Move :=
  [.serve 0, .serve 1, .deliver 0, .deliver 0, .serve 3, .serve 1, .deliver 1, .deliver 2,
    .serve 0, .serve 0, .serve 0, .serve 0]

theorem present_apart : Present vAndW apart where
  keyed := twoVoters_wellKeyed.setVote rfl
  user := by
    intro t ht
    simp only [apart, List.mem_cons, List.not_mem_nil, or_false] at ht
    rcases ht with rfl | rfl <;> exact ⟨_, _, rfl, rfl⟩
  vote := by
    intro t ht
    simp only [apart, List.mem_cons, List.not_mem_nil, or_false] at ht
    rcases ht with rfl | rfl <;> exact ⟨_, _, rfl, rfl⟩

theorem serializable_apart : (∃ after, Serial vAndW apart.reverse after) ∧
    ∀ after, Serial vAndW apart.reverse after → ∀ e,
      (System.played vAndW apart interleaved).db.users.lookup e = after.users.lookup e := by
  obtain ⟨hex, hall⟩ := serializable present_apart ⟨by decide, by decide⟩
    (completed_played interleaved rfl) (List.reverse_perm apart)
  exact ⟨hex, fun after hs => (hall after hs).1⟩

end VoteOnOffice
