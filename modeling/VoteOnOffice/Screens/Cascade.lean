import VoteOnOffice.Records.Reachable
import VoteOnOffice.Screens.Exchange
import VoteOnOffice.Taps.Replay

/-!
# The refresh cascade of the vote screen

`reloadViewData` reads the vote, then the user; an entry for the vote in the user's list is emitted
on `selectRow`, and the screen reloads on every emission.

* `Delivery s u`       the server answers a request, or a closure runs: no user acts;
* `System.shown`       one vote screen right after its `viewWillAppear`;
* `CascadeEnds`        whatever at most `taps` taps and any order of deliveries have led to, the
                       deliveries end, and only when nothing is in flight;
* `Cascades`           the vote and the user are there, and the list has an entry, or a tap can make
                       one;
* `Asked`              the requests of the screen, as long as no tap can write;
* `Alive`              what an endless sequence of deliveries keeps;
* `Quiet`, `energy`    what every step keeps otherwise, and what every delivery takes;
* `cascadeEnds_iff`    **the cascade ends iff it is not the case that `Cascades`.**
-/

namespace VoteOnOffice

/-- a step in which no user acts -/
def Delivery (s u : System) : Prop :=
  (∃ k ok, s.serve k ok = some u) ∨ ∃ k, s.deliver k = some u

/-- deliveries, and taps on the vote screens -/
def Label.onVote : Label → Prop
  | .serve _ _ => True
  | .deliver _ => True
  | .tap _ _ => True
  | _ => False

def Label.isTap : Label → Bool
  | .tap _ _ => true
  | _ => false

/-- the screen of the vote `V` right after `viewWillAppear` -/
def System.shown (db : Database) (email V : String) : System :=
  let v : VoteView := { emailString := email, UUID := V, subscriptions := 1 }
  { db := db, net := [v.reload 0, v.reload 0], views := [v] }

example (db : Database) (email V : String) :
    System.Run { db := db, net := [] } [.openVote email V, .voteWillAppear 0]
      (.shown db email V) := rfl

def CascadeEnds (db : Database) (email V : String) (taps : Nat) : Prop :=
  ∀ ls u, (∀ l ∈ ls, l.onVote) → ls.countP Label.isTap ≤ taps →
    System.Run (.shown db email V) ls u →
    ¬ Machine.Endless Delivery u ∧ ((∀ x, ¬ Delivery u x) → u.net = [])

/-- an entry for the vote is in the user's list, or a tap can put one there -/
structure Cascades (db : Database) (email V : String) (taps : Nat) : Prop where
  vote : ∃ d, db.votes.lookup V = some d
  user : ∃ d, db.users.lookup email = some d
  ballot : entries V (listOf db email) ≠ [] ∨ (0 < taps ∧ variantsOf db V ≠ [])

/-! ## what the closures of the screen do -/

section
variable {size : String → Nat} {db : Database} {email V : String}

/-- the requests of the screen while no tap can write -/
inductive Asked (db : Database) (email V : String) : Query → Callback → Prop where
  | votes : Asked db email V (.votesWhere V) (.reloadViewData 0 email V)
  | users (vote : ∃ d, db.votes.lookup V = some d) :
      Asked db email V (.usersWhere email) (.reloadUsers 0 V)
  | tap {t : Tap} (ht : t.emailString = email) (user : db.users.lookup email = none) :
      Asked db email V (.usersWhere email) (.tabOnCell t)

def reloadEffects (email V title description : String) (variants : List Record) : List Effect :=
  [.getDocuments (.usersWhere email) (.reloadUsers 0 V), .titleString 0 title,
    .descriptionString 0 description, .arr 0 variants]

theorem reload_missing (h : DocsOk size db) (hV : db.votes.lookup V = none) :
    reloadViewDataClosure 0 email V (.ok (db.getDocuments (.votesWhere V))) = .ok [] := by
  rw [h.keyed.find_vote, hV]
  rfl

theorem reload_found (h : DocsOk size db) (email : String) {d : Document}
    (hV : db.votes.lookup V = some d) :
    ∃ title description,
      reloadViewDataClosure 0 email V (.ok (db.getDocuments (.votesWhere V)))
        = .ok (reloadEffects email V title description (variantsOf db V)) := by
  have hd := h.votes V d hV
  obtain ⟨title, htitle⟩ := hd.title
  obtain ⟨description, hdescription⟩ := hd.description
  obtain ⟨array, harray, _⟩ := hd.variants
  refine ⟨title, description, ?_⟩
  unfold reloadViewDataClosure
  rw [h.keyed.find_vote, hV, variantsOf_eq hV harray, Reply.withDocuments_ok, Option.toList_some,
    forDocuments_singleton, htitle, hdescription, harray]
  rfl

theorem reloadUsers_quiet (h : DocsOk size db) (he : entries V (listOf db email) = []) :
    reloadUsersClosure 0 V (.ok (db.getDocuments (.usersWhere email))) = .ok [] := by
  unfold reloadUsersClosure
  rw [h.keyed.find_user, Reply.withDocuments_ok]
  cases hu : db.users.lookup email with
  | none => rfl
  | some d =>
    obtain ⟨l, hl, _⟩ := (h.users email d hu).list
    rw [listOf_eq hu hl] at he
    rw [Option.toList_some, forDocuments_singleton, hl]
    show (if (entries V l).isEmpty = true then _ else _) = _
    rw [he]
    rfl

theorem reloadUsers_again (h : DocsOk size db) (he : entries V (listOf db email) ≠ []) :
    ∃ row, reloadUsersClosure 0 V (.ok (db.getDocuments (.usersWhere email)))
      = .ok [.selectRow 0 row] := by
  unfold reloadUsersClosure
  rw [h.keyed.find_user, Reply.withDocuments_ok]
  cases hu : db.users.lookup email with
  | none =>
    unfold listOf at he
    rw [hu] at he
    exact absurd rfl he
  | some d =>
    obtain ⟨l, hl, hok⟩ := (h.users email d hu).list
    rw [listOf_eq hu hl] at he
    obtain ⟨r, rest, hr⟩ := List.exists_cons_of_ne_nil he
    obtain ⟨hmem, hfor⟩ := List.mem_filter.mp (show r ∈ entries V l by rw [hr]; simp)
    obtain ⟨row, hrow, _, _⟩ := hok.inRange r hmem V hfor
    refine ⟨row, ?_⟩
    rw [Option.toList_some, forDocuments_singleton, hl]
    show (if (entries V l).isEmpty = true then _
      else guardLet ((entries V l).head?.bind fun r => Scalar.asInt (r .voteVariantID)) _ >>= _) = _
    rw [hr, List.head?_cons, Option.bind_some, hrow]
    rfl

theorem tabOnCell_first (h : DocsOk size db) {t : Tap} {d : Document} {l : List Record}
    (hu : db.users.lookup email = some d) (hl : d .userVotesList = some (.records l))
    (he : entries t.UUID l = []) :
    tabOnCellClosure t (.ok (db.getDocuments (.usersWhere email))) = .ok (voteFirst t l) := by
  rw [tabOnCellClosure_eq, h.keyed.find_user, hu, Reply.withDocuments_ok, Option.toList_some,
    forDocuments_singleton]
  exact tabOnCellRound_eq_ok.mpr ⟨l, .first, hl, pathOf_eq_first.mpr he, rfl⟩

theorem tabOnCell_quiet (h : DocsOk size db) {t : Tap} (hu : db.users.lookup email = none) :
    tabOnCellClosure t (.ok (db.getDocuments (.usersWhere email))) = .ok [] := by
  rw [h.keyed.find_user, hu]
  rfl

end

/-! ## deliveries -/

def VoteView.wiring (v : VoteView) : String × String × Nat := (v.emailString, v.UUID, v.subscriptions)

section
variable {s u : System}

theorem wiring_performAll (s : System) (es : List Effect) :
    (s.performAll es).views.map VoteView.wiring = s.views.map VoteView.wiring :=
  performAll_keeps (fun s => s.views.map VoteView.wiring) (fun s e =>
    map_views_perform VoteView.wiring (fun _ _ => rfl) (fun _ _ => rfl) (fun _ _ => rfl)
      (fun _ _ => rfl) s e) s es

theorem mem_net_performAll {task : Task} (es : List Effect) (h : task ∈ s.net) :
    task ∈ (s.performAll es).net := by
  induction es generalizing s with
  | nil => exact h
  | cons e es ih => exact @ih (s.perform e) (List.mem_append_left _ h)

theorem serve_read {k : Nat} {q : Query} {cb : Callback} (h : s.net[k]? = some (.read q cb)) :
    s.step (.serve k true) = some { s with
      net := s.net.set k (.reply (.ok (s.db.getDocuments q)) cb)
      usersLog := s.usersLog ++ cb.usersRead
      votesLog := s.votesLog ++ cb.votesRead } := by
  simp only [System.step, System.serve, h, if_true]

theorem serve_update {k : Nat} {t : Tap} {p : Path} {c : CollectionId} {document : String}
    {f : Field} {v : Value} {db : Database}
    (h : s.net[k]? = some (.update t p c document f v))
    (hdb : s.db.updateData c document f v = some db) :
    s.step (.serve k true) = some { s with
      db := db
      net := s.net.eraseIdx k
      usersLog := s.usersLog ++ usersWrite t c document
      votesLog := s.votesLog ++ votesWrite t p c document } := by
  simp only [System.step, System.serve, h, hdb, if_true]

theorem tap_row {view row : Nat} {v : VoteView} (hv : s.views[view]? = some v)
    (hrow : row < v.arr.length) :
    s.step (.tap view row) =
      some (System.perform { s with taps := s.taps + 1 } (tabOnCell (v.tapOn view s.taps row))) := by
  simp only [System.step, hv, if_pos hrow]

theorem deliver_reply {k : Nat} {r : Reply} {cb : Callback} {es : List Effect}
    (h : s.net[k]? = some (.reply r cb)) (hrun : cb.run s.itemsDtc r = .ok es) :
    s.step (.deliver k) = some (System.performAll { s with net := s.net.eraseIdx k } es) := by
  simp only [System.step, System.deliver, h, hrun]

theorem reloads_wiring {email V : String} (h : s.views.map VoteView.wiring = [(email, V, 1)]) :
    s.reloads 0 = [.read (.votesWhere V) (.reloadViewData 0 email V)] := by
  obtain ⟨v, hv, hw⟩ := List.map_eq_singleton_iff.mp h
  simp only [VoteView.wiring, Prod.mk.injEq] at hw
  obtain ⟨rfl, rfl, hsubscriptions⟩ := hw
  unfold System.reloads
  rw [hv]
  show List.replicate (v.subscriptions * v.subscriptions) (v.reload 0) = _
  rw [hsubscriptions]
  rfl

end

/-! ## the endless cascade -/

/-- the list has an entry, and a reload of the screen is in flight -/
structure Alive (email V : String) (s : System) : Prop where
  docs : ∃ size, DocsOk size s.db
  vote : ∃ d, s.db.votes.lookup V = some d
  ballot : entries V (listOf s.db email) ≠ []
  wiring : s.views.map VoteView.wiring = [(email, V, 1)]
  asked : ∃ q k, Asked s.db email V q k ∧
    (.read q k ∈ s.net ∨ .reply (.ok (s.db.getDocuments q)) k ∈ s.net)

section
variable {email V : String} {s : System}

theorem user_of_ballot {db : Database} (h : entries V (listOf db email) ≠ []) :
    db.users.lookup email ≠ none := by
  intro hu
  unfold listOf at h
  rw [hu] at h
  exact h rfl

/-- **A cascade that is alive goes on.** -/
theorem Alive.next (h : Alive email V s) : ∃ u, Delivery s u ∧ Alive email V u := by
  obtain ⟨q, k, hasked, hin⟩ := h.asked
  rcases hin with hin | hin
  · -- the server answers the request
    obtain ⟨n, hn⟩ := List.mem_iff_getElem?.mp hin
    refine ⟨_, .inl ⟨n, true, serve_read hn⟩, h.docs, h.vote, h.ballot, h.wiring, q, k, hasked, .inr ?_⟩
    exact List.mem_set (List.getElem?_eq_some_iff.mp hn).1 _
  · obtain ⟨n, hn⟩ := List.mem_iff_getElem?.mp hin
    obtain ⟨size, hdocs⟩ := h.docs
    have hkeep : ∀ es, k.run s.itemsDtc (.ok (s.db.getDocuments q)) = .ok es →
        (∃ q' k', Asked s.db email V q' k' ∧
          .read q' k' ∈ (System.performAll { s with net := s.net.eraseIdx n } es).net) →
        ∃ u, Delivery s u ∧ Alive email V u := by
      rintro es hrun ⟨q', k', hasked', hmem⟩
      refine ⟨_, .inr ⟨n, deliver_reply hn hrun⟩, ?_⟩
      have hdb := db_performAll { s with net := s.net.eraseIdx n } es
      refine ⟨⟨size, by rw [hdb]; exact hdocs⟩, by rw [hdb]; exact h.vote,
        by rw [hdb]; exact h.ballot, (wiring_performAll _ es).trans h.wiring, q', k', ?_, .inl hmem⟩
      rw [hdb]; exact hasked'
    cases hasked with
    | votes =>
      obtain ⟨d, hd⟩ := h.vote
      obtain ⟨title, description, hrun⟩ := reload_found hdocs email hd
      refine hkeep _ hrun ⟨_, _, .users ⟨d, hd⟩, ?_⟩
      unfold System.performAll reloadEffects
      rw [List.foldl_cons]
      exact mem_net_performAll _ (List.mem_append_right _ List.mem_cons_self)
    | users _ =>
      obtain ⟨row, hrun⟩ := reloadUsers_again hdocs h.ballot
      refine hkeep _ hrun ⟨_, _, .votes, List.mem_append_right _ ?_⟩
      show _ ∈ System.reloads { s with net := s.net.eraseIdx n } 0
      rw [@reloads_wiring { s with net := s.net.eraseIdx n } email V h.wiring]
      exact List.mem_singleton_self _
    | tap _ user => exact absurd user (user_of_ballot h.ballot)

theorem Alive.endless (h : Alive email V s) : Machine.Endless Delivery s :=
  Machine.endless_of_keeps (fun _ h => h.next) h

/-- one reload is answered, its first row is tapped, and the tap has written the list -/
def tapEntry : List Label :=
  [.serve 0 true, .deliver 0, .tap 0 0, .serve 2 true, .deliver 2, .serve 2 true]

theorem alive_tapEntry {size : String → Nat} {db : Database} (h : DocsOk size db)
    {dv du : Document} (hV : db.votes.lookup V = some dv) (hu : db.users.lookup email = some du)
    (he : entries V (listOf db email) = []) (hvariants : variantsOf db V ≠ []) :
    ∃ u, System.Run (.shown db email V) tapEntry u ∧ Alive email V u := by
  obtain ⟨title, description, hreload⟩ := reload_found h email hV
  obtain ⟨l, hl, hok⟩ := (h.users email du hu).list
  obtain ⟨array, harray, hvariantsOk⟩ := (h.votes V dv hV).variants
  rw [listOf_eq hu hl] at he
  have hsize : 0 < size V := by
    rw [← hvariantsOk.length, ← variantsOf_eq hV harray]
    exact List.length_pos_iff.mpr hvariants
  let t : Tap := ⟨0, 0, email, (0 : Nat), V⟩
  have ht : TapOk size t := ⟨Int.le_refl 0, Int.ofNat_lt.mpr hsize⟩
  have hwritten : ListOk size (l ++ [ballot V (0 : Nat)]) := by
    rw [append_eq_cast he]
    exact hok.cast ht
  obtain ⟨after, hafter⟩ : ∃ after, db.updateData .users email .userVotesList
      (.records (l ++ [ballot V (0 : Nat)])) = some after :=
    ⟨_, updateData_eq_some.mpr ⟨du, hu, rfl⟩⟩
  have hdocs := h.update (c := .users) ⟨rfl, _, rfl, hwritten⟩ hafter
  have hballot : entries V (listOf after email) ≠ [] := by
    obtain ⟨d, _, rfl⟩ := updateData_eq_some.mp hafter
    have hlist : listOf (db.setData .users email (Function.update d .userVotesList
        (some (.records (l ++ [ballot V (0 : Nat)]))))) email = l ++ [ballot V (0 : Nat)] :=
      listOf_eq (AList.lookup_insert ..) (Function.update_self ..)
    rw [hlist, append_eq_cast he, entries_cast_self]
    exact List.cons_ne_nil _ _
  have hvote : ∃ d, after.votes.lookup V = some d := by
    obtain ⟨_, _, rfl⟩ := updateData_eq_some.mp hafter
    exact ⟨dv, hV⟩
  refine Machine.exists_exec_cons _ (serve_read rfl) ?_
  refine Machine.exists_exec_cons _ (deliver_reply rfl hreload) ?_
  refine Machine.exists_exec_cons _ (tap_row rfl (List.length_pos_iff.mpr hvariants)) ?_
  refine Machine.exists_exec_cons _ (serve_read rfl) ?_
  refine Machine.exists_exec_cons _ (deliver_reply rfl (tabOnCell_first (t := t) h hu hl he)) ?_
  refine Machine.exists_exec_cons _ (serve_update rfl hafter) ?_
  exact ⟨_, rfl, ⟨size, hdocs⟩, hvote, hballot, rfl, _, _, .votes, .inl List.mem_cons_self⟩

end

/-! ## the cascade that ends -/

/-- if the vote is there, the user's list has no entry for it -/
def NoBallot (db : Database) (email V : String) : Prop :=
  (∃ d, db.votes.lookup V = some d) → entries V (listOf db email) = []

structure Quiet (db : Database) (email V : String) (s : System) : Prop where
  same : s.db = db
  wiring : s.views.map VoteView.wiring = [(email, V, 1)]
  arr : ∀ v ∈ s.views, v.arr ≠ [] → (∃ d, db.votes.lookup V = some d) ∧ variantsOf db V ≠ []
  net : ∀ task ∈ s.net, Exchange db (Asked db email V) task

/-- how many reads the closure issues -/
def Callback.rounds : Callback → Nat
  | .reloadViewData _ _ _ => 1
  | _ => 0

/-- how many deliveries a task leads to, itself included -/
def Task.energy : Task → Nat
  | .read _ k => 2 * k.rounds + 2
  | .reply _ k => 2 * k.rounds + 1
  | _ => 0

section
variable {size : String → Nat} {db : Database} {email V : String} {s u : System}

theorem quiet_shown : Quiet db email V (.shown db email V) where
  same := rfl
  wiring := rfl
  arr := by
    intro v hv harr
    rw [List.mem_singleton.mp hv] at harr
    exact absurd rfl harr
  net := by
    intro task ht
    have ht : task = .read (.votesWhere V) (.reloadViewData 0 email V) := by
      rcases List.mem_cons.mp ht with ht | ht
      · exact ht
      · exact List.mem_singleton.mp ht
    exact ⟨_, _, .votes, .inl ht⟩

theorem Asked.answer (hdocs : DocsOk size db)
    (hno : NoBallot db email V) {q : Query}
    {k : Callback} {r : Reply} (h : Asked db email V q k)
    (hr : Answers db q r) (itemsDtc : Nat → List DataVoteCell) :
    ∃ es, k.run itemsDtc r = .ok es ∧ (es = [] ∨
      (k.rounds = 1 ∧ (∃ d, db.votes.lookup V = some d) ∧ ∃ title description,
        es = reloadEffects email V title description (variantsOf db V))) := by
  rcases hr with rfl | rfl
  · refine ⟨[], ?_, .inl rfl⟩
    cases h <;> rfl
  · cases h with
    | votes =>
      cases hV : db.votes.lookup V with
      | none => exact ⟨[], reload_missing hdocs hV, .inl rfl⟩
      | some d =>
        obtain ⟨title, description, hrun⟩ := reload_found hdocs email hV
        exact ⟨_, hrun, .inr ⟨rfl, ⟨d, rfl⟩, title, description, rfl⟩⟩
    | users vote => exact ⟨[], reloadUsers_quiet hdocs (hno vote), .inl rfl⟩
    | tap _ user => exact ⟨[], tabOnCell_quiet hdocs user, .inl rfl⟩

theorem net_reloadEffects (s : System) (title description : String) (variants : List Record) :
    (s.performAll (reloadEffects email V title description variants)).net
      = s.net ++ [.read (.usersWhere email) (.reloadUsers 0 V)] := by
  simp [System.performAll, reloadEffects, System.perform, System.newTasks]

theorem arr_reloadEffects {title description : String} {variants : List Record} {v : VoteView}
    (hv : v ∈ (s.performAll (reloadEffects email V title description variants)).views) :
    v.arr = variants ∨ ∃ w ∈ s.views, v.arr = w.arr := by
  rcases mem_modify hv with hv | ⟨w, _, rfl⟩
  · right
    rcases mem_modify hv with hv | ⟨w, hw, rfl⟩
    · rcases mem_modify hv with hv | ⟨w, hw, rfl⟩
      · exact ⟨v, hv, rfl⟩
      · exact ⟨w, List.mem_of_getElem? hw, rfl⟩
    · rcases mem_modify (List.mem_of_getElem? hw) with hw | ⟨x, hx, rfl⟩
      · exact ⟨w, hw, rfl⟩
      · exact ⟨x, List.mem_of_getElem? hx, rfl⟩
  · exact .inl rfl

theorem Quiet.serve (h : Quiet db email V s) {k : Nat} {ok : Bool} (hs : s.serve k ok = some u) :
    Quiet db email V u ∧ weigh Task.energy u.net < weigh Task.energy s.net := by
  have hnet := h.net
  rw [← h.same] at hnet
  obtain ⟨l₁, l₂, q, cb, r, hread, hreply, hasked, hr, hdb, hviews, _⟩ := exchange_serve hnet hs
  refine ⟨⟨hdb.trans h.same, hviews ▸ h.wiring, hviews ▸ h.arr, ?_⟩, ?_⟩
  · rw [hread] at hnet
    rw [hreply, ← h.same]
    exact exchange_answer hnet hasked hr
  · rw [hread, hreply, weigh_append, weigh_append, weigh_cons, weigh_cons]
    show _ + (2 * cb.rounds + 1 + _) < _ + (2 * cb.rounds + 2 + _)
    omega

theorem Quiet.deliver (hdocs : DocsOk size db) (hno : NoBallot db email V)
    (h : Quiet db email V s) {k : Nat} (hs : s.deliver k = some u) :
    Quiet db email V u ∧ weigh Task.energy u.net < weigh Task.energy s.net := by
  have hnet := h.net
  rw [← h.same] at hnet
  obtain ⟨l₁, l₂, q, cb, r, es, hsplit, _, _, hasked, hr, hrun, rfl⟩ :=
    exchange_deliver hnet hs
  rw [h.same] at hasked hr
  have hrest : ∀ x ∈ l₁ ++ l₂, Exchange db (Asked db email V) x := by
    intro x hx
    refine h.net x ?_
    rw [hsplit]
    exact mem_middle.mpr (.inr hx)
  have hold : weigh Task.energy s.net = weigh Task.energy (l₁ ++ l₂) + (2 * cb.rounds + 1) := by
    rw [hsplit, weigh_append, weigh_append, weigh_cons]
    show _ + (2 * cb.rounds + 1 + _) = _
    omega
  obtain ⟨es', hrun', hes⟩ := hasked.answer hdocs hno hr s.itemsDtc
  rw [hrun'] at hrun
  cases hrun
  rw [hold]
  rcases hes with rfl | ⟨hrounds, hvote, title, description, rfl⟩
  · refine ⟨⟨h.same, h.wiring, h.arr, hrest⟩, ?_⟩
    show weigh Task.energy (l₁ ++ l₂) < _
    omega
  · refine ⟨⟨(db_performAll _ _).trans h.same, (wiring_performAll _ _).trans h.wiring, ?_, ?_⟩, ?_⟩
    · intro v hv harr
      rcases arr_reloadEffects hv with hv | ⟨w, hw, hv⟩
      · rw [hv] at harr; exact ⟨hvote, harr⟩
      · rw [hv] at harr; exact h.arr w hw harr
    · intro x hx
      rw [net_reloadEffects] at hx
      rcases List.mem_append.mp hx with hx | hx
      · exact hrest x hx
      · exact ⟨_, _, .users hvote, .inl (List.mem_singleton.mp hx)⟩
    · rw [net_reloadEffects, weigh_append, weigh_cons, hrounds]
      show weigh Task.energy (l₁ ++ l₂) + (2 + 0) < _
      omega

theorem Quiet.tap (huser : db.users.lookup email = none) (h : Quiet db email V s) {view row : Nat}
    (hs : s.step (.tap view row) = some u) : Quiet db email V u := by
  obtain ⟨v, hv, _, rfl⟩ := step_tap hs
  have hemail : v.emailString = email := by
    have hmem : v.wiring ∈ s.views.map VoteView.wiring :=
      List.mem_map_of_mem (List.mem_of_getElem? hv)
    rw [h.wiring] at hmem
    exact congrArg Prod.fst (List.mem_singleton.mp hmem)
  refine ⟨h.same, h.wiring, h.arr, fun task ht => ?_⟩
  rcases List.mem_append.mp ht with ht | ht
  · exact h.net task ht
  · refine ⟨_, _, .tap (t := v.tapOn view s.taps row) hemail huser, .inl ?_⟩
    rw [← hemail]
    exact List.mem_singleton.mp ht

theorem Quiet.stuck (hdocs : DocsOk size db)
    (hno : NoBallot db email V)
    (h : Quiet db email V s) (hstuck : ∀ x, ¬ Delivery s x) : s.net = [] := by
  cases hnet : s.net with
  | nil => rfl
  | cons task l =>
    exfalso
    have hget : s.net[0]? = some task := by rw [hnet]; rfl
    obtain ⟨q, k, hasked, htask⟩ := h.net task (List.mem_of_getElem? hget)
    rcases htask with ht | ⟨r, hr, ht⟩
    · exact hstuck _ (.inl ⟨0, true, serve_read (ht ▸ hget)⟩)
    · obtain ⟨es, hrun, _⟩ := hasked.answer hdocs hno hr s.itemsDtc
      exact hstuck _ (.inr ⟨0, deliver_reply (ht ▸ hget) hrun⟩)

theorem Quiet.delivery (hdocs : DocsOk size db) (hno : NoBallot db email V)
    (h : Quiet db email V s) (hs : Delivery s u) :
    Quiet db email V u ∧ weigh Task.energy u.net < weigh Task.energy s.net := by
  rcases hs with ⟨k, ok, hs⟩ | ⟨k, hs⟩
  · exact h.serve hs
  · exact h.deliver hdocs hno hs

/-- **A quiet screen comes to rest.** -/
theorem Quiet.ends (hdocs : DocsOk size db) (hno : NoBallot db email V) (h : Quiet db email V s) :
    ¬ Machine.Endless Delivery s ∧ ((∀ x, ¬ Delivery s x) → s.net = []) :=
  ⟨Machine.not_endless (fun s => weigh Task.energy s.net) (fun _ _ h hs => (h.delivery hdocs hno hs).1)
    (fun _ _ h hs => (h.delivery hdocs hno hs).2) h, h.stuck hdocs hno⟩

end

/-! ## when the cascade ends -/

theorem not_cascades {db : Database} {email V : String} {taps : Nat}
    (h : ¬ Cascades db email V taps) : NoBallot db email V := by
  intro hV
  by_contra he
  cases hu : db.users.lookup email with
  | none => exact user_of_ballot he hu
  | some d => exact h ⟨hV, ⟨d, hu⟩, .inl he⟩

theorem CascadeEnds.not_alive {db : Database} {email V : String} {taps : Nat}
    (h : CascadeEnds db email V taps) {ls : List Label} {u : System} (hls : ∀ l ∈ ls, l.onVote)
    (htaps : ls.countP Label.isTap ≤ taps) (hrun : System.Run (.shown db email V) ls u) :
    ¬ Alive email V u :=
  fun halive => (h ls u hls htaps hrun).1 halive.endless

theorem alive_shown {size : String → Nat} {db : Database} {email V : String} (h : DocsOk size db)
    (hV : ∃ d, db.votes.lookup V = some d) (he : entries V (listOf db email) ≠ []) :
    Alive email V (.shown db email V) :=
  ⟨⟨size, h⟩, hV, he, rfl, _, _, .votes, .inl List.mem_cons_self⟩

/-- **The refresh cascade ends iff the vote or the user is missing, or the list has no entry for the
vote and no tap can make one.** -/
theorem cascadeEnds_iff {ls₀ : List Label} {s₀ : System} (hrun₀ : System.Run .initial ls₀ s₀)
    (email V : String) (taps : Nat) :
    CascadeEnds s₀.db email V taps ↔ ¬ Cascades s₀.db email V taps := by
  obtain ⟨size, hsound⟩ := run_sound hrun₀
  have hdocs := hsound.docs
  constructor
  · intro hends hcascades
    obtain ⟨dv, hV⟩ := hcascades.vote
    obtain ⟨du, hu⟩ := hcascades.user
    by_cases he : entries V (listOf s₀.db email) = []
    · obtain ⟨htaps, hvariants⟩ := hcascades.ballot.resolve_left fun h => h he
      obtain ⟨u, hrun, halive⟩ := alive_tapEntry hdocs hV hu he hvariants
      refine hends.not_alive ?_ ?_ hrun halive
      · intro l hl
        simp only [tapEntry, List.mem_cons, List.not_mem_nil, or_false] at hl
        rcases hl with rfl | rfl | rfl | rfl | rfl | rfl <;> exact trivial
      · exact htaps
    · exact hends.not_alive (fun _ h => absurd h List.not_mem_nil) (Nat.zero_le _) rfl
        (alive_shown hdocs ⟨dv, hV⟩ he)
  · intro hcascades ls u hls htaps hrun
    have hno := not_cascades hcascades
    -- the run is quiet throughout: a tap finds no user
    have hquiet : Quiet s₀.db email V u := by
      refine Machine.exec_invariant System.step (P := Quiet s₀.db email V)
        (A := fun l => l.onVote ∧ (l.isTap = true → 0 < taps)) (fun s l v h hl hs => ?_)
        (fun l hl => ⟨hls l hl, fun ht => ?_⟩) hrun quiet_shown
      · cases l with
        | serve k ok => exact (h.serve hs).1
        | deliver k => exact (h.deliver hdocs hno hs).1
        | tap view row =>
          obtain ⟨w, hw, hrow, _⟩ := step_tap hs
          have harr : w.arr ≠ [] := fun e => by rw [e] at hrow; cases hrow
          obtain ⟨hV, hvariants⟩ := h.arr w (List.mem_of_getElem? hw) harr
          refine h.tap ?_ hs
          cases hu : s₀.db.users.lookup email with
          | none => rfl
          | some d => exact absurd ⟨hV, ⟨d, hu⟩, .inr ⟨hl.2 rfl, hvariants⟩⟩ hcascades
        | _ => exact hl.1.elim
      · have hpos : 0 < ls.countP Label.isTap := List.countP_pos_iff.mpr ⟨l, hl, ht⟩
        omega
    exact hquiet.ends hdocs hno

theorem cascadeEnds_tapping : CascadeEnds (System.after tapping).db "a" "v" 0 :=
  (cascadeEnds_iff (run_after tapping (by decide)) "a" "v" 0).mpr fun h =>
    h.ballot.elim (fun he => he rfl) fun he => Nat.lt_irrefl 0 he.1

/-- **The user has voted: the screen reloads for ever.** -/
theorem cascade_endless :
    System.Run .initial tapped (System.after tapped) ∧
    ¬ CascadeEnds (System.after tapped).db "a" "v" 0 := by
  have hrun := run_after tapped (by decide)
  refine ⟨hrun, fun hends => ?_⟩
  obtain ⟨size, hsound⟩ := run_sound hrun
  exact hends.not_alive (fun _ h => absurd h List.not_mem_nil) (Nat.zero_le _) rfl
    (alive_shown hsound.docs ⟨_, rfl⟩ (List.cons_ne_nil _ _))

end VoteOnOffice
