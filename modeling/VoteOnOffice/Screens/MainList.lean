import VoteOnOffice.Screens.Exchange

/-!
# The main list over appearances and disappearances

`viewWillAppear` calls `readDataBase`, `viewWillDisappear` calls `itemsDeleteAll`.  What reads are
outstanding at a disappearance is not affected: their rows come later.

* `OnceShown s`        no two rows with one UUID, and no rows while the screen is not shown;
* `Arrival`, `arrivals`
                       the rows that the inner closures append in a run: whether the screen is shown,
                       how often it has disappeared by then, and the UUID;
* `Timely`             every row arrives while the screen is shown, and no UUID arrives twice between
                       two disappearances;
* `refresh_step`       what a step does to the list;
* `inTime`             no closure runs after the disappearance that follows its request;
* `listOnce_iff`       **every state of a run is `OnceShown` iff its arrivals are `Timely`**, and they
                       are `Timely` if the run is `inTime`.
-/

namespace VoteOnOffice

def System.opened (db : Database) (email : String) : System :=
  { db := db, net := [], mains := [{ emailString := email }] }

/-- appearances and disappearances of the screen, and deliveries -/
def Label.onMain : Label → Prop
  | .serve _ _ => True
  | .deliver _ => True
  | .mainWillAppear main => main = 0
  | .mainWillDisappear main => main = 0
  | _ => False

def System.isShown (s : System) : Bool := ((s.mains[0]?).map MainView.appeared).getD false

/-- the UUIDs of the rows -/
def System.listed (s : System) : List String := (s.itemsDtc 0).map DataVoteCell.UUID

structure OnceShown (s : System) : Prop where
  once : s.listed.Nodup
  cleared : s.isShown = false → s.itemsDtc 0 = []

structure Arrival where
  shown : Bool
  disappearances : Nat
  UUID : String
  deriving DecidableEq

/-- the row that the step appends -/
def System.arrival (s : System) : Label → List String
  | .deliver k =>
    match s.net[k]? with
    | some (.reply r (.readUsers _ dtc)) => if r.error then [] else [dtc.UUID]
    | _ => []
  | _ => []

def Label.disappearances : Label → Nat
  | .mainWillDisappear _ => 1
  | _ => 0

/-- the rows that arrive in a run; `n` is how often the screen has disappeared before -/
def arrivals (s : System) (n : Nat) : List Label → List Arrival
  | [] => []
  | l :: ls =>
    match s.step l with
    | none => []
    | some t => (s.arrival l).map (Arrival.mk s.isShown n) ++ arrivals t (n + l.disappearances) ls

structure Timely (l : List Arrival) : Prop where
  shown : ∀ a ∈ l, a.shown = true
  once : (l.map fun a => (a.disappearances, a.UUID)).Nodup

/-! ## one step -/

/-- the requests of the main screen -/
inductive Refresh (email : String) : Query → Callback → Prop where
  | votes : Refresh email .votes (.readDataBase 0 email)
  | users (dtc : DataVoteCell) : Refresh email (.usersWhere email) (.readUsers 0 dtc)

structure Refreshing (db : Database) (email : String) (s : System) : Prop where
  same : s.db = db
  main : ∃ m, s.mains = [m] ∧ m.emailString = email
  net : ∀ x ∈ s.net, Exchange db (Refresh email) x

section
variable {db : Database} {email : String} {s u : System}

theorem refreshing_opened : Refreshing db email (.opened db email) :=
  ⟨rfl, ⟨_, rfl, rfl⟩, fun _ h => absurd h List.not_mem_nil⟩

/-- the requests of the outer closure, one for every document of the answer -/
def rowReads (email : String) (ds : List Document) : List Task :=
  ds.map fun d => .read (.usersWhere email) (.readUsers 0 (dataVoteInit d))

theorem performAll_rowReads (s : System) (email : String) (ds : List Document) :
    (s.performAll (ds.map fun d =>
      .getDocuments (.usersWhere email) (.readUsers 0 (dataVoteInit d)))) =
      { s with net := s.net ++ rowReads email ds } := by
  induction ds generalizing s with
  | nil =>
    show s = { s with net := s.net ++ [] }
    rw [List.append_nil]
  | cons d ds ih =>
    refine (ih (s.perform _)).trans ?_
    show { s with net := (s.net ++ [_]) ++ rowReads email ds } = _
    rw [List.append_assoc]
    rfl

theorem readUsersClosure_one {dtc : DataVoteCell} {itemsDtc : List DataVoteCell} {d : Document}
    {es : List Effect} (h : readUsersClosure 0 dtc itemsDtc (.ok [d]) = .ok es) :
    ∃ status arrays, d .userVotesList = some (.records arrays) ∧
      es = [.adminStatus 0 status, .items 0 (itemsDtc ++ [dtc.shown arrays])] := by
  obtain ⟨status, arrays, es', _, harrays, hrest, rfl⟩ := readUsersLoop_cons.mp h
  cases hrest
  exact ⟨status, arrays, harrays, rfl⟩

theorem listed_of_mains {m : MainView} (h : s.mains = [m]) :
    (s.isShown, s.listed) = (m.appeared, m.itemsDtc.map DataVoteCell.UUID) := by
  unfold System.isShown System.listed System.itemsDtc
  rw [h]
  rfl

/-- the UUIDs of the documents, as `dataVoteInit` reads them -/
def voteUUIDs (db : Database) : List String :=
  (db.getDocuments .votes).map fun d => (dataVoteInit d).UUID

/-- the rows that a closure of the screen may still bring -/
def Callback.promised (db : Database) : Callback → List String
  | .readDataBase _ _ => voteUUIDs db
  | .readUsers _ dtc => [dtc.UUID]
  | _ => []

def Task.promised (db : Database) : Task → List String
  | .read _ k => k.promised db
  | .reply _ k => k.promised db
  | _ => []

/-- what a step of the screen does to the list -/
def System.nextListed (s : System) : Label → Bool × List String
  | .mainWillAppear _ => (true, s.listed)
  | .mainWillDisappear _ => (false, [])
  | l => (s.isShown, s.listed ++ s.arrival l)

/-- what a step of the screen does to the rows that are still to come -/
def Promises (db : Database) (s u : System) : Label → Prop
  | .deliver k => ∃ x added, s.net[k]? = some x ∧ u.net = s.net.eraseIdx k ++ added ∧
      (s.arrival (.deliver k) ++ added.flatMap (Task.promised db)).Sublist (x.promised db)
  | .mainWillAppear _ => ∃ x, u.net = s.net ++ [x] ∧ x.promised db = voteUUIDs db
  | .mainWillDisappear _ => u.net = s.net
  | _ => u.net.map (Task.promised db) = s.net.map (Task.promised db)

theorem promised_rowReads (db : Database) (email : String) (ds : List Document) :
    (rowReads email ds).flatMap (Task.promised db) = ds.map fun d => (dataVoteInit d).UUID := by
  induction ds with
  | nil => rfl
  | cons d ds ih => exact congrArg (List.cons _) ih

section
variable {k : Nat} {l₁ l₂ : List Task}

theorem Refreshing.deliver_failed (h : Refreshing db email s) {q : Query} {cb : Callback}
    (hk : s.net[k]? = some (.reply .failed cb)) (herase : s.net.eraseIdx k = l₁ ++ l₂)
    (hrest : ∀ x ∈ l₁ ++ l₂, Exchange db (Refresh email) x) (hR : Refresh email q cb)
    {es : List Effect} (hrun : cb.run s.itemsDtc .failed = .ok es) :
    Refreshing db email (System.performAll { s with net := l₁ ++ l₂ } es) ∧
      ((System.performAll { s with net := l₁ ++ l₂ } es).isShown,
        (System.performAll { s with net := l₁ ++ l₂ } es).listed) = s.nextListed (.deliver k) ∧
      Promises db s (System.performAll { s with net := l₁ ++ l₂ } es) (.deliver k) := by
  obtain ⟨m, hm, hemail⟩ := h.main
  have hes : es = [] := by
    cases hR <;> exact (Except.ok.inj hrun).symm
  have harrival : s.arrival (.deliver k) = [] := by
    simp only [System.arrival, hk]
    cases hR <;> rfl
  rw [hes]
  refine ⟨⟨h.same, ⟨m, hm, hemail⟩, hrest⟩, ?_, _, [], hk, ?_, ?_⟩
  · show _ = (s.isShown, s.listed ++ s.arrival (.deliver k))
    rw [harrival, List.append_nil]; rfl
  · rw [List.append_nil]; exact herase.symm
  · rw [harrival]; exact List.nil_sublist _

theorem Refreshing.deliver_votes (h : Refreshing db email s)
    (hk : s.net[k]? = some (.reply (.ok (db.getDocuments .votes)) (.readDataBase 0 email)))
    (herase : s.net.eraseIdx k = l₁ ++ l₂)
    (hrest : ∀ x ∈ l₁ ++ l₂, Exchange db (Refresh email) x) :
    Refreshing db email { s with net := l₁ ++ l₂ ++ rowReads email (db.getDocuments .votes) } ∧
      (s.isShown, s.listed) = s.nextListed (.deliver k) ∧
      Promises db s { s with net := l₁ ++ l₂ ++ rowReads email (db.getDocuments .votes) }
        (.deliver k) := by
  have harrival : s.arrival (.deliver k) = [] := by simp only [System.arrival, hk]
  refine ⟨⟨h.same, h.main, fun x hx => ?_⟩, ?_, _, rowReads email (db.getDocuments .votes), hk,
    ?_, ?_⟩
  · rcases List.mem_append.mp hx with hx | hx
    · exact hrest x hx
    · obtain ⟨d, _, rfl⟩ := List.mem_map.mp hx
      exact ⟨_, _, .users _, .inl rfl⟩
  · show _ = (s.isShown, s.listed ++ s.arrival (.deliver k))
    rw [harrival, List.append_nil]
  · rw [herase]
  · rw [harrival, promised_rowReads]
    exact List.Sublist.refl _

theorem Refreshing.deliver_users (h : Refreshing db email s) {r : Reply} (hr : r.error = false)
    {dtc : DataVoteCell} (hk : s.net[k]? = some (.reply r (.readUsers 0 dtc)))
    (herase : s.net.eraseIdx k = l₁ ++ l₂)
    (hrest : ∀ x ∈ l₁ ++ l₂, Exchange db (Refresh email) x) (status : Bool) (arrays : List Record)
    (hu : u = System.performAll { s with net := l₁ ++ l₂ }
      [.adminStatus 0 status, .items 0 (s.itemsDtc 0 ++ [dtc.shown arrays])]) :
    Refreshing db email u ∧ (u.isShown, u.listed) = s.nextListed (.deliver k) ∧
      Promises db s u (.deliver k) := by
  obtain ⟨m, hm, hemail⟩ := h.main
  have harrival : s.arrival (.deliver k) = [dtc.UUID] := by
    simp only [System.arrival, hk, hr]
    rfl
  -- the state is written out: one screen, whose list is one row longer
  have hitems : s.itemsDtc 0 = m.itemsDtc := by
    unfold System.itemsDtc
    rw [hm]; rfl
  have hmains : u.mains =
      [{ m with adminStatus := status, itemsDtc := m.itemsDtc ++ [dtc.shown arrays],
                items := m.itemsDtc ++ [dtc.shown arrays] }] := by
    rw [hu, hitems]
    show ((s.mains.modify 0 _).modify 0 _) = _
    rw [hm]
    rfl
  have hunet : u.net = l₁ ++ l₂ := by
    rw [hu]
    simp [System.performAll, System.perform, System.newTasks]
  have hudb : u.db = db := by
    rw [hu, db_performAll]; exact h.same
  refine ⟨⟨hudb, ⟨_, hmains, hemail⟩, ?_⟩, ?_, _, [], hk, ?_, ?_⟩
  · rw [hunet]; exact hrest
  · show _ = (s.isShown, s.listed ++ s.arrival (.deliver k))
    rw [harrival, listed_of_mains hmains, (Prod.mk.inj (listed_of_mains hm)).1,
      (Prod.mk.inj (listed_of_mains hm)).2]
    simp
  · rw [hunet, herase, List.append_nil]
  · rw [harrival]; exact List.Sublist.refl _

end

theorem Refreshing.deliver (huser : ∃ d, db.getDocuments (.usersWhere email) = [d])
    (h : Refreshing db email s) {k : Nat} (hs : s.deliver k = some u) :
    Refreshing db email u ∧ (u.isShown, u.listed) = s.nextListed (.deliver k) ∧
      Promises db s u (.deliver k) := by
  have hnet := h.net
  rw [← h.same] at hnet
  obtain ⟨l₁, l₂, q, cb, r, es, hsplit, hk, herase, hR, hr, hrun, rfl⟩ := exchange_deliver hnet hs
  have hrest : ∀ x ∈ l₁ ++ l₂, Exchange db (Refresh email) x := by
    intro x hx
    refine h.net x ?_
    rw [hsplit]
    exact mem_middle.mpr (.inr hx)
  rw [h.same] at hr
  rcases hr with rfl | rfl
  · exact h.deliver_failed hk herase hrest hR hrun
  cases hR with
  | votes =>
    cases (readDataBaseClosure_ok 0 email _).symm.trans hrun
    rw [performAll_rowReads]
    exact h.deliver_votes hk herase hrest
  | users dtc =>
    obtain ⟨d, hd⟩ := huser
    rw [hd] at hrun hk
    obtain ⟨status, arrays, _, rfl⟩ := readUsersClosure_one hrun
    exact h.deliver_users rfl hk herase hrest status arrays rfl

/-- **One step of the main screen.** -/
theorem refresh_step (huser : ∃ d, db.getDocuments (.usersWhere email) = [d])
    (h : Refreshing db email s) {l : Label} (hl : l.onMain) (hs : s.step l = some u) :
    Refreshing db email u ∧ (u.isShown, u.listed) = s.nextListed l ∧ Promises db s u l := by
  obtain ⟨m, hm, hemail⟩ := h.main
  cases l with
  | serve k ok =>
    have hnet := h.net
    rw [← h.same] at hnet
    obtain ⟨l₁, l₂, q, cb, r, hread, hreply, hR, hr, hdb, _, hmains⟩ := exchange_serve hnet hs
    refine ⟨⟨hdb.trans h.same, ⟨m, hmains.trans hm, hemail⟩, ?_⟩, ?_, ?_⟩
    · rw [hread] at hnet
      rw [hreply, ← h.same]
      exact exchange_answer hnet hR hr
    · show _ = (s.isShown, s.listed ++ [])
      rw [List.append_nil, listed_of_mains hm, listed_of_mains (hmains.trans hm)]
    · show u.net.map _ = s.net.map _
      rw [hread, hreply, List.map_append, List.map_append]
      rfl
  | deliver k => exact h.deliver huser hs
  | mainWillAppear main =>
    obtain rfl : main = 0 := hl
    obtain ⟨m', hm', _, rfl⟩ := step_mainWillAppear hs
    rw [hm] at hm'
    cases hm'
    have hmains : s.mains.set 0 { m with appeared := true } = [{ m with appeared := true }] := by
      rw [hm]; rfl
    refine ⟨⟨h.same, ⟨_, hmains, hemail⟩, fun x hx => ?_⟩, ?_, _, rfl, rfl⟩
    · rcases List.mem_append.mp hx with hx | hx
      · exact h.net x hx
      · rw [List.mem_singleton.mp hx, hemail]
        exact ⟨_, _, .votes, .inl rfl⟩
    · show _ = (true, s.listed)
      rw [(Prod.mk.inj (listed_of_mains hm)).2]
      exact listed_of_mains (m := { m with appeared := true }) hmains
  | mainWillDisappear main =>
    obtain rfl : main = 0 := hl
    obtain ⟨m', hm', _, rfl⟩ := step_mainWillDisappear hs
    rw [hm] at hm'
    cases hm'
    have hmains : (System.perform { s with mains := s.mains.set 0 { m with appeared := false } }
        (itemsDeleteAll 0)).mains = [{ m with appeared := false, itemsDtc := [], items := [] }] := by
      show (s.mains.set 0 _).modify 0 _ = _
      rw [hm]; rfl
    have hunet : (System.perform { s with mains := s.mains.set 0 { m with appeared := false } }
        (itemsDeleteAll 0)).net = s.net := List.append_nil _
    refine ⟨⟨h.same, ⟨_, hmains, hemail⟩, ?_⟩, listed_of_mains hmains, hunet⟩
    rw [hunet]; exact h.net
  | _ => exact hl.elim

end

/-! ## runs -/

section
variable {db : Database} {email : String} {s : System}

theorem arrivals_disappearances {s : System} {n : Nat} {ls : List Label} :
    ∀ a ∈ arrivals s n ls, n ≤ a.disappearances := by
  induction ls generalizing s n with
  | nil => intro a ha; cases ha
  | cons l ls ih =>
    intro a ha
    unfold arrivals at ha
    cases ht : s.step l with
    | none => rw [ht] at ha; cases ha
    | some t =>
      rw [ht] at ha
      rcases List.mem_append.mp ha with ha | ha
      · obtain ⟨_, _, rfl⟩ := List.mem_map.mp ha
        exact Nat.le_refl n
      · have := ih a ha
        omega

/-- the rows of the list, as arrivals since the last disappearance -/
def System.since (s : System) (n : Nat) : List (Nat × String) := s.listed.map (Prod.mk n)

def Arrival.key (a : Arrival) : Nat × String := (a.disappearances, a.UUID)

/-- what is to come is timely, and goes with what is in the list -/
structure OnTime (s : System) (n : Nat) (ls : List Label) : Prop where
  cleared : s.isShown = false → s.listed = []
  shown : ∀ a ∈ arrivals s n ls, a.shown = true
  once : (s.since n ++ (arrivals s n ls).map Arrival.key).Nodup

theorem onceShown_iff : OnceShown s ↔ s.listed.Nodup ∧ (s.isShown = false → s.listed = []) := by
  have hnil : s.itemsDtc 0 = [] ↔ s.listed = [] := List.map_eq_nil_iff.symm
  exact ⟨fun h => ⟨h.once, fun hs => hnil.mp (h.cleared hs)⟩,
    fun h => ⟨h.1, fun hs => hnil.mpr (h.2 hs)⟩⟩

theorem nodup_since {n : Nat} : (s.since n).Nodup ↔ s.listed.Nodup :=
  List.nodup_map_iff fun _ _ h => (Prod.mk.inj h).2

theorem onTime_stop {n : Nat} {ls : List Label} (h : arrivals s n ls = []) :
    OnTime s n ls ↔ OnceShown s := by
  rw [onceShown_iff]
  constructor
  · intro ho
    have honce := ho.once
    rw [h, List.map_nil, List.append_nil] at honce
    exact ⟨nodup_since.mp honce, ho.cleared⟩
  · rintro ⟨h1, h2⟩
    refine ⟨h2, by rw [h]; simp, ?_⟩
    rw [h, List.map_nil, List.append_nil]
    exact nodup_since.mpr h1

theorem arrivals_cons {n : Nat} {l : Label} {ls : List Label} {t : System} (ht : s.step l = some t) :
    arrivals s n (l :: ls) =
      (s.arrival l).map (Arrival.mk s.isShown n) ++ arrivals t (n + l.disappearances) ls := by
  rw [arrivals, ht]

theorem OnTime.onceShown {n : Nat} {ls : List Label} (h : OnTime s n ls) : OnceShown s :=
  onceShown_iff.mpr ⟨nodup_since.mp h.once.of_append_left, h.cleared⟩

section
variable {n : Nat} {ls : List Label} {t : System}

theorem onTime_appear {main : Nat} (ht : s.step (.mainWillAppear main) = some t)
    (hshown : t.isShown = true) (hlisted : t.listed = s.listed) :
    OnTime s n (.mainWillAppear main :: ls) ↔ OnceShown s ∧ OnTime t n ls := by
  have harrivals : arrivals s n (.mainWillAppear main :: ls) = arrivals t n ls := arrivals_cons ht
  have hsince : t.since n = s.since n := congrArg (List.map (Prod.mk n)) hlisted
  constructor
  · intro h
    refine ⟨h.onceShown, fun hs => ?_, harrivals ▸ h.shown, ?_⟩
    · rw [hshown] at hs; cases hs
    · rw [hsince, ← harrivals]; exact h.once
  · rintro ⟨h1, h2⟩
    refine ⟨(onceShown_iff.mp h1).2, harrivals ▸ h2.shown, ?_⟩
    rw [harrivals, ← hsince]; exact h2.once

theorem onTime_disappear {main : Nat} (ht : s.step (.mainWillDisappear main) = some t)
    (hlisted : t.listed = []) :
    OnTime s n (.mainWillDisappear main :: ls) ↔ OnceShown s ∧ OnTime t (n + 1) ls := by
  have harrivals : arrivals s n (.mainWillDisappear main :: ls) = arrivals t (n + 1) ls :=
    arrivals_cons ht
  have hsince : t.since (n + 1) = [] := by
    unfold System.since
    rw [hlisted]; rfl
  constructor
  · intro h
    refine ⟨h.onceShown, fun _ => hlisted, harrivals ▸ h.shown, ?_⟩
    rw [hsince, List.nil_append, ← harrivals]
    exact h.once.of_append_right
  · rintro ⟨h1, h2⟩
    refine ⟨(onceShown_iff.mp h1).2, harrivals ▸ h2.shown, ?_⟩
    have honce := h2.once
    rw [hsince, List.nil_append] at honce
    rw [harrivals, List.nodup_append']
    refine ⟨nodup_since.mpr h1.once, honce, fun x hx hx' => ?_⟩
    obtain ⟨_, _, rfl⟩ := List.mem_map.mp hx
    obtain ⟨a, ha, hkey⟩ := List.mem_map.mp hx'
    have hle := arrivals_disappearances a ha
    have hn : a.disappearances = n := congrArg Prod.fst hkey
    omega

theorem onTime_deliver {l : Label} (ht : s.step l = some t) (hl : l.disappearances = 0)
    (hshown : t.isShown = s.isShown) (hlisted : t.listed = s.listed ++ s.arrival l) :
    OnTime s n (l :: ls) ↔ OnceShown s ∧ OnTime t n ls := by
  have harrivals : arrivals s n (l :: ls) =
      (s.arrival l).map (Arrival.mk s.isShown n) ++ arrivals t n ls := by
    rw [arrivals_cons ht, hl]; rfl
  have honce : s.since n ++ (arrivals s n (l :: ls)).map Arrival.key
      = t.since n ++ (arrivals t n ls).map Arrival.key := by
    unfold System.since
    rw [harrivals, hlisted, List.map_append, List.map_append, List.map_map, List.append_assoc]
    rfl
  constructor
  · intro h
    refine ⟨h.onceShown, fun hs => ?_, fun a ha => ?_, honce ▸ h.once⟩
    · rw [hshown] at hs
      rw [hlisted, h.cleared hs, List.nil_append]
      cases hrow : s.arrival l with
      | nil => rfl
      | cons V rest =>
        have hV := h.shown ⟨s.isShown, n, V⟩ (by rw [harrivals, hrow]; simp)
        rw [hs] at hV; cases hV
    · exact h.shown a (by rw [harrivals]; exact List.mem_append_right _ ha)
  · rintro ⟨h1, h2⟩
    refine ⟨(onceShown_iff.mp h1).2, fun a ha => ?_, honce ▸ h2.once⟩
    rw [harrivals] at ha
    rcases List.mem_append.mp ha with ha | ha
    · obtain ⟨V, hV, rfl⟩ := List.mem_map.mp ha
      show s.isShown = true
      by_contra hs
      have hnil := h2.cleared (by rw [hshown]; simpa using hs)
      rw [hlisted, List.append_eq_nil_iff] at hnil
      rw [hnil.2] at hV
      cases hV
    · exact h2.shown a ha

end

theorem onTime_cons {n : Nat} {l : Label} {ls : List Label} {t : System} (hl : l.onMain)
    (ht : s.step l = some t) (hnext : (t.isShown, t.listed) = s.nextListed l) :
    OnTime s n (l :: ls) ↔ OnceShown s ∧ OnTime t (n + l.disappearances) ls := by
  obtain ⟨hshown, hlisted⟩ := Prod.mk.inj hnext
  cases l with
  | mainWillAppear main => exact onTime_appear ht hshown hlisted
  | mainWillDisappear main => exact onTime_disappear ht hlisted
  | serve k ok => exact onTime_deliver ht rfl hshown hlisted
  | deliver k => exact onTime_deliver ht rfl hshown hlisted
  | _ => exact hl.elim

theorem always_onTime (huser : ∃ d, db.getDocuments (.usersWhere email) = [d])
    (h : Refreshing db email s) {n : Nat} {ls : List Label} (hls : ∀ l ∈ ls, l.onMain) :
    Machine.Always System.step OnceShown s ls ↔ OnTime s n ls := by
  induction ls generalizing s n with
  | nil => rw [Machine.always_nil, onTime_stop rfl]
  | cons l ls ih =>
    rw [Machine.always_cons]
    have hl := hls l List.mem_cons_self
    cases ht : s.step l with
    | none =>
      have hnone : arrivals s n (l :: ls) = [] := by unfold arrivals; rw [ht]
      rw [onTime_stop hnone]
      exact and_iff_left fun t h => by cases h
    | some t =>
      obtain ⟨hrefresh, hnext, _⟩ := refresh_step huser h hl ht
      rw [onTime_cons hl ht hnext, ← ih hrefresh fun x hx => hls x (List.mem_cons_of_mem _ hx)]
      refine and_congr_right fun _ => ⟨fun h => h t rfl, fun h t' ht' => ?_⟩
      cases ht'
      exact h

end

/-! ## answers that come in time -/

/-- the closure that runs is not one of the `late` oldest in flight -/
def Label.inTime (late : Nat) : Label → Bool
  | .deliver k => decide (late ≤ k)
  | _ => true

/-- how many requests in flight are older than the last disappearance -/
def System.nextLate (s : System) (late : Nat) : Label → Nat
  | .mainWillDisappear _ => s.net.length
  | _ => late

/-- no closure runs after the disappearance that follows its request -/
def inTime (s : System) (late : Nat) : List Label → Bool
  | [] => true
  | l :: ls =>
    match s.step l with
    | none => true
    | some t => l.inTime late && inTime t (s.nextLate late l) ls

/-- the rows of the list and those that may still come in time -/
structure Kept (db : Database) (s : System) (late : Nat) : Prop where
  late_le : late ≤ s.net.length
  hidden : s.isShown = false → s.listed = [] ∧ late = s.net.length
  once : (s.listed ++ (s.net.drop late).flatMap (Task.promised db)).Nodup

section
variable {db : Database} {s t : System} {late : Nat}

theorem kept_opened (email : String) : Kept db (.opened db email) 0 :=
  ⟨Nat.le_refl 0, fun _ => ⟨rfl, rfl⟩, List.nodup_nil⟩

theorem Kept.onceShown (h : Kept db s late) : OnceShown s :=
  onceShown_iff.mpr ⟨h.once.of_append_left, fun hs => (h.hidden hs).1⟩

theorem drop_eraseIdx {α : Type} {l : List α} {n k : Nat} (h : n ≤ k) :
    (l.eraseIdx k).drop n = (l.drop n).eraseIdx (k - n) := by
  induction n generalizing l k with
  | zero => rfl
  | succ n ih =>
    obtain ⟨k, rfl⟩ := Nat.exists_eq_add_of_lt h
    cases l with
    | nil => rfl
    | cons a l =>
      show (l.eraseIdx (n + k)).drop n = (l.drop n).eraseIdx _
      rw [ih (Nat.le_add_right n k)]
      congr 1
      omega

theorem nodup_exchange {α β : Type} [DecidableEq β] {f : α → List β} {old row : List β}
    {l added : List α} {x : α} {j : Nat} (hx : l[j]? = some x) (hsub : (row ++ added.flatMap f).Sublist (f x))
    (h : (old ++ l.flatMap f).Nodup) :
    (old ++ row ++ (l.eraseIdx j ++ added).flatMap f).Nodup := by
  obtain ⟨hj, rfl⟩ := List.getElem?_eq_some_iff.mp hx
  have hl : l.flatMap f =
      (l.take j).flatMap f ++ (f l[j] ++ (l.drop (j+1)).flatMap f) := by
    conv_lhs => rw [← List.take_append_drop j l, List.drop_eq_getElem_cons hj]
    rw [List.flatMap_append, List.flatMap_cons]
  rw [hl] at h
  have hfewer : (old ++ ((l.take j).flatMap f ++
      ((row ++ added.flatMap f) ++ (l.drop (j+1)).flatMap f))).Nodup :=
    h.sublist (((hsub.append_right _).append_left _).append_left _)
  refine List.Perm.nodup (List.perm_iff_count.mpr fun b => ?_) hfewer
  simp only [List.eraseIdx_eq_take_drop_succ, List.flatMap_append, List.count_append]
  omega

theorem Kept.appear (h : Kept db s late) (hvotes : (voteUUIDs db).Nodup)
    (hshown : s.isShown = false) (hnext : t.isShown = true) (hlisted : t.listed = s.listed)
    (hp : ∃ x, t.net = s.net ++ [x] ∧ x.promised db = voteUUIDs db) : Kept db t late := by
  obtain ⟨x, hnet, hx⟩ := hp
  obtain ⟨hnil, rfl⟩ := h.hidden hshown
  refine ⟨?_, fun hs => ?_, ?_⟩
  · rw [hnet, List.length_append]; omega
  · rw [hnext] at hs; cases hs
  · rw [hlisted, hnil, hnet, List.drop_left, List.flatMap_singleton, hx]
    exact hvotes

theorem Kept.deliver (h : Kept db s late) {k : Nat} (hk : late ≤ k)
    (hshown : t.isShown = s.isShown) (hlisted : t.listed = s.listed ++ s.arrival (.deliver k))
    (hp : Promises db s t (.deliver k)) : Kept db t late := by
  obtain ⟨x, added, hx, hnet, hsub⟩ := hp
  have hlen : k < s.net.length := (List.getElem?_eq_some_iff.mp hx).1
  have hle : late ≤ (s.net.eraseIdx k).length := by
    rw [List.length_eraseIdx, if_pos hlen]; omega
  have hdrop : t.net.drop late = (s.net.drop late).eraseIdx (k - late) ++ added := by
    rw [hnet, List.drop_append_of_le_length hle, drop_eraseIdx hk]
  refine ⟨?_, fun hs => ?_, ?_⟩
  · rw [hnet, List.length_append]; omega
  · rw [hshown] at hs
    have := (h.hidden hs).2
    omega
  · rw [hlisted, hdrop]
    refine nodup_exchange ?_ hsub h.once
    rw [List.getElem?_drop, Nat.add_sub_cancel' hk]
    exact hx

/-- **One step: what is listed and what may come in time stay pairwise different.** -/
theorem Kept.step (h : Kept db s late) (hvotes : (voteUUIDs db).Nodup) {l : Label} (hl : l.onMain)
    (ht : s.step l = some t) (hin : l.inTime late = true)
    (hnext : (t.isShown, t.listed) = s.nextListed l) (hp : Promises db s t l) :
    Kept db t (s.nextLate late l) := by
  obtain ⟨hshown, hlisted⟩ := Prod.mk.inj hnext
  cases l with
  | serve k ok =>
    have hnet : t.net.map (Task.promised db) = s.net.map (Task.promised db) := hp
    have hlen : t.net.length = s.net.length := by
      simpa only [List.length_map] using congrArg List.length hnet
    have hlisted : t.listed = s.listed ++ [] := hlisted
    rw [List.append_nil] at hlisted
    refine ⟨hlen ▸ h.late_le, fun hs => ?_, ?_⟩
    · rw [hlisted, hlen]
      exact h.hidden (hshown.symm.trans hs)
    · show (_ ++ (t.net.drop late).flatMap _).Nodup
      rw [hlisted, List.flatMap_def, List.map_drop, hnet, ← List.map_drop, ← List.flatMap_def]
      exact h.once
  | deliver k => exact h.deliver (of_decide_eq_true hin) hshown hlisted hp
  | mainWillAppear main =>
    obtain rfl : main = 0 := hl
    obtain ⟨m, hm, happeared, _⟩ := step_mainWillAppear ht
    have hs : s.isShown = false := by
      unfold System.isShown
      rw [hm]
      exact happeared
    exact h.appear hvotes hs hshown hlisted hp
  | mainWillDisappear main =>
    have hnet : t.net = s.net := hp
    have hnil : t.net.drop s.net.length = [] := by rw [hnet, List.drop_length]
    refine ⟨hnet ▸ Nat.le_refl _, fun _ => ⟨hlisted, hnet ▸ rfl⟩, ?_⟩
    show (_ ++ (t.net.drop s.net.length).flatMap _).Nodup
    rw [hlisted, hnil]
    exact List.nodup_nil
  | _ => exact hl.elim

theorem Kept.always {email : String} (huser : ∃ d, db.getDocuments (.usersWhere email) = [d])
    (hvotes : (voteUUIDs db).Nodup) {ls : List Label} (hls : ∀ l ∈ ls, l.onMain)
    (h : Kept db s late) (hr : Refreshing db email s) (hin : inTime s late ls = true) :
    Machine.Always System.step OnceShown s ls := by
  induction ls generalizing s late with
  | nil => exact (Machine.always_nil _).mpr h.onceShown
  | cons l ls ih =>
    refine (Machine.always_cons _).mpr ⟨h.onceShown, fun t ht => ?_⟩
    have hl := hls l List.mem_cons_self
    simp only [inTime, ht, Bool.and_eq_true] at hin
    obtain ⟨hrefresh, hnext, hp⟩ := refresh_step huser hr hl ht
    exact ih (fun x hx => hls x (List.mem_cons_of_mem _ hx)) (h.step hvotes hl ht hin.1 hnext hp)
      hrefresh hin.2

end

/-- **The list shows every vote once, and nothing while the screen is not shown, in every state of a
run iff every row arrives while the screen is shown and no UUID arrives twice between two
disappearances**; with different UUIDs, this is so if no closure runs after the disappearance that
follows its request. -/
theorem listOnce_iff {db : Database} {email : String}
    (huser : ∃ d, db.getDocuments (.usersWhere email) = [d]) {ls : List Label}
    (hls : ∀ l ∈ ls, l.onMain) :
    (Machine.Always System.step OnceShown (.opened db email) ls ↔
      Timely (arrivals (.opened db email) 0 ls)) ∧
    ((voteUUIDs db).Nodup → inTime (.opened db email) 0 ls = true →
      Timely (arrivals (.opened db email) 0 ls)) := by
  have hiff : Machine.Always System.step OnceShown (.opened db email) ls ↔
      Timely (arrivals (.opened db email) 0 ls) := by
    rw [always_onTime huser refreshing_opened hls]
    constructor
    · intro h
      exact ⟨h.shown, h.once⟩
    · intro h
      exact ⟨fun _ => rfl, h.shown, h.once⟩
  refine ⟨hiff, fun hvotes hin => hiff.mp ?_⟩
  exact (kept_opened email).always huser hvotes hls refreshing_opened hin

def oneVote : Database :=
  (Database.empty.setData .votes "v" (voteData "" "" "" "v" [])).setData .users "a" (userData "a")

def refreshed : List Label :=
  [.mainWillAppear 0, .serve 0 true, .deliver 0, .serve 0 true, .deliver 0]

/-- the screen appears, and disappears while the read of the user is outstanding -/
def left : List Label :=
  [.mainWillAppear 0, .serve 0 true, .deliver 0, .mainWillDisappear 0, .serve 0 true, .deliver 0]

theorem listOnce_refreshed : Machine.Always System.step OnceShown (.opened oneVote "a")
    (refreshed ++ [.mainWillDisappear 0]) := by
  have honMain : ∀ l ∈ refreshed ++ [.mainWillDisappear 0], l.onMain := by
    intro l hl
    simp only [refreshed, List.cons_append, List.nil_append, List.mem_cons, List.not_mem_nil,
      or_false] at hl
    rcases hl with rfl | rfl | rfl | rfl | rfl | rfl <;> first | exact trivial | exact rfl
  obtain ⟨hiff, htimely⟩ := @listOnce_iff oneVote "a" ⟨_, rfl⟩ _ honMain
  exact hiff.mpr (htimely (by decide) (by decide))

/-- **The row arrives on a screen that is not shown, and again when it appears the next time.** -/
theorem late_row :
    ((oneVote.getDocuments .votes).map fun d => Value.asString (d .voteUUID)).Nodup ∧
    (∃ d, oneVote.getDocuments (.usersWhere "a") = [d]) ∧ (∀ l ∈ left ++ refreshed, l.onMain) ∧
    ¬ Machine.Always System.step OnceShown (.opened oneVote "a") left ∧
    ∃ u, System.Run (.opened oneVote "a") (left ++ refreshed) u ∧ u.listed = ["v", "v"] := by
  refine ⟨by decide, ⟨_, rfl⟩, fun l hl => ?_, fun h => ?_, ⟨_, rfl, rfl⟩⟩
  · simp only [left, refreshed, List.cons_append, List.nil_append, List.mem_cons, List.not_mem_nil,
      or_false] at hl
    rcases hl with rfl | rfl | rfl | rfl | rfl | rfl | rfl | rfl | rfl | rfl | rfl <;>
      first | exact trivial | exact rfl
  · have hcleared := (h left [] _ rfl rfl).cleared rfl
    cases hcleared

end VoteOnOffice
