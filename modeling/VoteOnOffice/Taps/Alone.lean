import VoteOnOffice.Taps.Done

/-!
# A tap on its own

* `Alone db t p array after`   what a tap on its own, on the way `p`, makes of the database;
* `Completed.alone`            a tap whose requests have all been granted has done that;
* `exists_completed`           and if the tap finds a way on the list and can count on the array, its
                               requests can all be granted and answered.
-/

namespace VoteOnOffice
open Lineage

section
variable {db : Database} {t : Tap} {u : System}

/-- what a tap on its own does to the database -/
structure Alone (db : Database) (t : Tap) (p : Path) (array : List Record) (after : Database) :
    Prop where
  path : pathOf t.UUID (listOf db t.emailString) = .ok p
  count : p.count t.index (variantsOf db t.UUID) = .ok array
  users : ∀ e, after.users.lookup e = (db.users.lookup e).map fun d : Document =>
    if e = t.emailString then Function.update d .userVotesList
      (some (.records (cast t.UUID t.index (listOf db t.emailString)))) else d
  votes : ∀ V, after.votes.lookup V = (db.votes.lookup V).map fun d : Document =>
    if V = t.UUID then Function.update d .voteVariants (some (.records array)) else d

theorem Completed.usersAlone (hp : Present db [t]) (hc : Completed db [t] u) (e : String) :
    cur (logOf e u.usersLog) = if e = t.emailString then [t] else [] := by
  have hw := hc.usersWriters hp (List.nodup_singleton t) e
  by_cases he : e = t.emailString
  · rw [if_pos he]
    rw [List.filter_cons_of_pos (by simp [he]), List.filter_nil] at hw
    exact cur_eq_singleton (List.perm_singleton.mp hw)
  · rw [if_neg he]
    rw [List.filter_cons_of_neg (by simpa using Ne.symm he), List.filter_nil] at hw
    exact cur_eq_nil hw.eq_nil

theorem Completed.votesAlone (hp : Present db [t]) (hc : Completed db [t] u) :
    ∃ p, Took db [t] u.usersLog t p ∧
      ∀ V, cur (logOf V u.votesLog) = if V = t.UUID then [(t, p)] else [] := by
  have hi := hc.inv hp (List.nodup_singleton t)
  have hvw := hc.votesWriters hp (List.nodup_singleton t)
  have h1 := hvw t.UUID
  rw [List.filter_cons_of_pos (by simp), List.filter_nil] at h1
  obtain ⟨⟨v, p⟩, hw, he⟩ := List.map_eq_singleton_iff.mp (List.perm_singleton.mp h1)
  cases he
  have hmem : .write (v, p) ∈ logOf v.UUID u.votesLog := mem_writers.mp (by rw [hw]; simp)
  refine ⟨p, (hi.votesBy _ v p ((hi.votesOnce _).read_mem hmem)).1, fun V => ?_⟩
  by_cases hV : V = v.UUID
  · rw [if_pos hV, hV]
    exact cur_eq_singleton hw
  · rw [if_neg hV]
    have h2 := hvw V
    rw [List.filter_cons_of_neg (by simpa using Ne.symm hV), List.filter_nil] at h2
    exact cur_eq_nil (List.map_eq_nil_iff.mp h2.eq_nil)

theorem Alone.wellKeyed {p : Path} {array : List Record} {after : Database}
    (h : Alone db t p array after) (hk : db.WellKeyed) : after.WellKeyed := by
  constructor
  · intro V d hd
    rw [h.votes V] at hd
    obtain ⟨d', hd', rfl⟩ := Option.map_eq_some_iff.mp hd
    have hV := hk.1 V d' hd'
    split
    · rw [Function.update_of_ne (by decide)]; exact hV
    · exact hV
  · intro e d hd
    rw [h.users e] at hd
    obtain ⟨d', hd', rfl⟩ := Option.map_eq_some_iff.mp hd
    have he := hk.2 e d' hd'
    split
    · rw [Function.update_of_ne (by decide)]; exact he
    · exact he

theorem Completed.alone (hp : Present db [t]) (hc : Completed db [t] u) :
    ∃ p array, Alone db t p array u.db := by
  have hnodup : [t].Nodup := List.nodup_singleton t
  have hi := hc.inv hp hnodup
  have hu := hc.usersAlone hp
  obtain ⟨p, htook, hv⟩ := hc.votesAlone hp
  obtain ⟨d, l, hd, hl⟩ := hp.vote t (List.mem_singleton_self t)
  have harray := hc.variants_eq hp hnodup hd hl
  rw [hv, if_pos rfl] at harray
  have hcount : p.count t.index (variantsOf db t.UUID) = .ok (variantsOf u.db t.UUID) := by
    obtain ⟨a, h1, h2⟩ := bind_eq_ok.mp harray
    cases h2
    exact h1
  refine ⟨p, variantsOf u.db t.UUID, ?_, hcount, fun e => ?_, fun V => ?_⟩
  · have hpath := htook.path
    unfold captured at hpath
    rw [seen_eq_nil hp (by simp) hc (List.mem_singleton_self t)] at hpath
    exact hpath
  · have := hi.users e
    rw [show cur (logOf e u.tapState.usersLog) = _ from hu e] at this
    refine this.trans ?_
    by_cases he : e = t.emailString
    · simp only [if_pos he]
      rw [he]; rfl
    · simp only [if_neg he]
      rfl
  · obtain ⟨a, ha, hx⟩ := hi.votes V
    rw [show cur (logOf V u.tapState.votesLog) = _ from hv V] at ha hx
    refine hx.trans ?_
    by_cases hV : V = t.UUID
    · simp only [if_pos hV] at ha ⊢
      subst hV
      rw [harray] at ha
      cases ha
      rfl
    · simp only [if_neg hV]
      rfl

end

/-! ## the whole run -/

section
variable {s : System} {Q : System → Prop} {ms : List Move} {rest : List Task}

theorem exec_read {q : Query} {k : Callback} {ds : List Document} (h : s.net = .read q k :: rest)
    (hds : s.db.getDocuments q = ds)
    (hnext : ∃ u, Machine.exec (System.proceed fun _ => true) { s with
      net := .reply (.ok ds) k :: rest
      usersLog := s.usersLog ++ k.usersRead
      votesLog := s.votesLog ++ k.votesRead } ms = some u ∧ Q u) :
    ∃ u, Machine.exec (System.proceed fun _ => true) s (.serve 0 :: ms) = some u ∧ Q u := by
  refine Machine.exists_exec_cons _ ?_ hnext
  subst hds
  simp only [System.proceed, System.serve, h, List.getElem?_cons_zero, List.set_cons_zero, if_true]

theorem exec_update {t : Tap} {p : Path} {c : CollectionId} {document : String} {f : Field}
    {v : Value} {d : Document} (h : s.net = .update t p c document f v :: rest)
    (hd : (s.db.get c).lookup document = some d)
    (hnext : ∃ u, Machine.exec (System.proceed fun _ => true) { s with
      db := s.db.setData c document (Function.update d f (some v))
      net := rest
      usersLog := s.usersLog ++ usersWrite t c document
      votesLog := s.votesLog ++ votesWrite t p c document } ms = some u ∧ Q u) :
    ∃ u, Machine.exec (System.proceed fun _ => true) s (.serve 0 :: ms) = some u ∧ Q u := by
  refine Machine.exists_exec_cons _ ?_ hnext
  have hdb : s.db.updateData c document f v = some _ := updateData_eq_some.mpr ⟨d, hd, rfl⟩
  simp only [System.proceed, System.serve, h, hdb, List.getElem?_cons_zero, List.eraseIdx_cons_zero,
    if_true]

theorem exec_reply {r : Reply} {k : Callback} {es : List Effect} (h : s.net = .reply r k :: rest)
    (hrun : k.run s.itemsDtc r = .ok es)
    (hnext : ∃ u, Machine.exec (System.proceed fun _ => true)
      (System.performAll { s with net := rest } es) ms = some u ∧ Q u) :
    ∃ u, Machine.exec (System.proceed fun _ => true) s (.deliver 0 :: ms) = some u ∧ Q u := by
  refine Machine.exists_exec_cons _ ?_ hnext
  simp only [System.proceed, System.deliver, h, hrun, List.getElem?_cons_zero,
    List.eraseIdx_cons_zero]

end

/-- the moves of a tap that goes the way `p`, each request served as soon as it is issued -/
def Path.moves : Path → List Move
  | .first => [.serve 0, .deliver 0, .serve 0, .serve 0, .deliver 0, .serve 0]
  | .second _ => [.serve 0, .deliver 0, .serve 0, .deliver 0, .serve 0, .serve 0]

section
variable {db : Database} {t : Tap} {p : Path} {d dv : Document} {l array array' : List Record}

/-- **A tap that finds its way and can count runs to its end.** -/
theorem exists_completed (hk : db.WellKeyed) (hd : db.users.lookup t.emailString = some d)
    (hl : d .userVotesList = some (.records l)) (hdv : db.votes.lookup t.UUID = some dv)
    (ha : dv .voteVariants = some (.records array)) (hpath : pathOf t.UUID l = .ok p)
    (hcount : p.count t.index array = .ok array') : ∃ u, Completed db [t] u := by
  suffices h : ∃ u, Machine.exec (System.proceed fun _ => true) (System.tapping db [t] []) p.moves
      = some u ∧ u.net = [] by
    obtain ⟨u, hu, hnet⟩ := h
    refine ⟨u, ⟨[], _, hu⟩, fun task ht => ?_⟩
    rw [hnet] at ht
    cases ht
  have huser : db.getDocuments (.usersWhere t.emailString) = [d] := by
    rw [hk.find_user, hd]; rfl
  have hvote : db.getDocuments (.votesWhere t.UUID) = [dv] := by
    rw [hk.find_vote, hdv]; rfl
  have htab : tabOnCellClosure t (.ok [d]) = .ok (p.call t l) := by
    rw [tabOnCellClosure_eq, Reply.withDocuments_ok, forDocuments_singleton]
    exact tabOnCellRound_eq_ok.mpr ⟨l, p, hl, hpath, rfl⟩
  have hvoted : voteClosure p t l (.ok [dv])
      = .ok (p.writes t l array' ++ [.selectRow t.view t.index]) := by
    refine voteClosure_ok_eq_ok.mpr ⟨_, ?_, rfl⟩
    rw [forDocuments_singleton]
    exact voteRound_eq_ok.mpr ⟨array, array', ha, hcount, rfl⟩
  cases p with
  | first =>
    refine exec_read rfl huser ?_
    refine exec_reply rfl htab ?_
    refine exec_update rfl hd ?_
    refine exec_read rfl hvote ?_
    refine exec_reply rfl hvoted ?_
    exact exec_update rfl hdv ⟨_, rfl, rfl⟩
  | second extraIndex =>
    refine exec_read rfl huser ?_
    refine exec_reply rfl htab ?_
    refine exec_read rfl hvote ?_
    refine exec_reply rfl hvoted ?_
    refine exec_update rfl hdv ?_
    exact exec_update rfl hd ⟨_, rfl, rfl⟩

end

end VoteOnOffice
