import Mathlib.Algebra.GroupWithZero.Nat
import VoteOnOffice.App.AddVoteViewModel
import VoteOnOffice.App.MainViewModel
import VoteOnOffice.Lib.Lineage
import VoteOnOffice.Lib.Machine

/-!
# The system: clients, requests in flight, and the database

A state holds the database, the requests and answers in flight (`net`), the open screens and two
histories.  A step is one of

* `serve k ok`         the server answers the request number `k`, with a snapshot of this moment or
                       by its effect on the database, or refuses it (`ok = false`);
* `deliver k`          the closure of the answer number `k` runs; a closure that traps is not a step;
* what users do: opening the screens, entering and leaving them, tapping a row, deleting a vote,
  signing up, composing a vote; and the change of a `userRole` from outside.

Of the cloud it is assumed that an answer to `getDocuments` has the documents that are stored at that
moment, without writes of the device that are still on their way, and that no account has an e-mail that
begins or ends with `/` (`Plain`): the document of such an e-mail is another e-mail's.

`usersLog` and `votesLog` record, for each document, the accesses of the taps in the order they were
served.  No function of the app reads them.
-/

namespace VoteOnOffice
open Lineage

inductive Task where
  | read (q : Query) (k : Callback)
  /-- `updateData` of the tap `t`; the app passes no completion -/
  | update (t : Tap) (p : Path) (c : CollectionId) (document : String) (f : Field) (v : Value)
  | set (c : CollectionId) (document : String) (d : Document)
  | delete (document : String) (k : Callback)
  /-- an answer whose closure has not run yet -/
  | reply (r : Reply) (k : Callback)

structure VoteView where
  emailString : String
  UUID : String
  /-- how many times `viewWillAppear` has subscribed and bound -/
  subscriptions : Nat := 0
  selectRow : Int := -1
  arr : List Record := []
  titleLabel : String := ""
  descriptionLabel : String := ""

structure MainView where
  emailString : String
  appeared : Bool := false
  itemsDtc : List DataVoteCell := []
  /-- the `Variable` that the table shows -/
  items : List DataVoteCell := []
  adminStatus : Bool := false

structure System where
  db : Database
  net : List Task
  views : List VoteView := []
  mains : List MainView := []
  /-- e-mails that `createUser` has accepted -/
  accounts : List String := []
  /-- what `UUID()` has returned so far -/
  uuids : List String := []
  /-- how many times `tabOnCell` has been called -/
  taps : Nat := 0
  usersLog : List (String × Access Tap) := []
  votesLog : List (String × Access (Tap × Path)) := []

inductive Label where
  | serve (k : Nat) (ok : Bool)
  | deliver (k : Nat)
  | openVote (emailString UUID : String)
  | voteWillAppear (view : Nat)
  | tap (view row : Nat)
  | openMain (emailString : String)
  | mainWillAppear (main : Nat)
  | mainWillDisappear (main : Nat)
  | deleteRow (main row : Nat)
  | signUp (email : String)
  | addNewVote (title description voteDate uuid : String) (items : List Int)
      (cellForRow : Int → Option String)
  | setUserRole (email : String) (role : Bool)

/-! ## the histories -/

def Callback.usersRead : Callback → List (String × Access Tap)
  | .tabOnCell t => [(t.emailString, .read t)]
  | _ => []

def Callback.votesRead : Callback → List (String × Access (Tap × Path))
  | .voteFirst t => [(t.UUID, .read (t, .first))]
  | .voteSecond t _ extraIndex => [(t.UUID, .read (t, .second extraIndex))]
  | _ => []

def usersWrite (t : Tap) (c : CollectionId) (document : String) : List (String × Access Tap) :=
  match c with
  | .users => [(document, .write t)]
  | .votes => []

def votesWrite (t : Tap) (p : Path) (c : CollectionId) (document : String) :
    List (String × Access (Tap × Path)) :=
  match c with
  | .users => []
  | .votes => [(document, .write (t, p))]

def logOf {T : Type} (document : String) (log : List (String × Access T)) : List (Access T) :=
  log.filterMap fun e => if e.1 = document then some e.2 else none

/-! ## running a closure -/

def System.itemsDtc (s : System) (main : Nat) : List DataVoteCell :=
  ((s.mains[main]?).map MainView.itemsDtc).getD []

def Callback.run (itemsDtc : Nat → List DataVoteCell) (r : Reply) :
    Callback → Except Fatal (List Effect)
  | .tabOnCell t => tabOnCellClosure t r
  | .voteFirst t => voteFirstClosure t r
  | .voteSecond t arrays extraIndex => voteSecondClosure t arrays extraIndex r
  | .reloadViewData view emailString UUID => reloadViewDataClosure view emailString UUID r
  | .reloadUsers view UUID => reloadUsersClosure view UUID r
  | .readDataBase main emailString => readDataBaseClosure main emailString r
  | .readUsers main dtc => readUsersClosure main dtc (itemsDtc main) r
  | .itemsDelete main index _ => itemsDeleteClosure main index (itemsDtc main) r

/-- the request that `reloadViewData(UUID: self.UUID)` of a screen issues -/
def VoteView.reload (view : Nat) (v : VoteView) : Task :=
  .read (.votesWhere v.UUID) (.reloadViewData view v.emailString v.UUID)

/-- An emission on `selectRow` reaches the screen's `Variable` through every binding, and every set
of the `Variable` makes every subscriber reload. -/
def System.reloads (s : System) (view : Nat) : List Task :=
  match s.views[view]? with
  | none => []
  | some v => List.replicate (v.subscriptions * v.subscriptions) (v.reload view)

def System.newTasks (s : System) : Effect → List Task
  | .getDocuments q k => [.read q k]
  | .updateData t p c document f v => [.update t p c document f v]
  | .selectRow view _ => s.reloads view
  | _ => []

def Effect.onViews (views : List VoteView) : Effect → List VoteView
  | .selectRow view row => views.modify view fun v => { v with selectRow := row }
  | .titleString view x => views.modify view fun v => { v with titleLabel := x }
  | .descriptionString view x => views.modify view fun v => { v with descriptionLabel := x }
  | .arr view variants => views.modify view fun v => { v with arr := variants }
  | _ => views

def Effect.onMains (mains : List MainView) : Effect → List MainView
  | .adminStatus main status => mains.modify main fun m => { m with adminStatus := status }
  | .items main itemsDtc =>
    mains.modify main fun m => { m with itemsDtc := itemsDtc, items := itemsDtc }
  | _ => mains

def System.perform (s : System) (e : Effect) : System :=
  { s with
    net := s.net ++ s.newTasks e
    views := e.onViews s.views
    mains := e.onMains s.mains }

def System.performAll (s : System) (es : List Effect) : System := es.foldl System.perform s

/-! ## steps -/

def System.serve (s : System) (k : Nat) (ok : Bool) : Option System :=
  match s.net[k]? with
  | some (.read q cb) =>
    if ok then
      some { s with
        net := s.net.set k (.reply (.ok (s.db.getDocuments q)) cb)
        usersLog := s.usersLog ++ cb.usersRead
        votesLog := s.votesLog ++ cb.votesRead }
    else some { s with net := s.net.set k (.reply .failed cb) }
  | some (.update t p c document f v) =>
    if ok then
      match s.db.updateData c document f v with
      | some db =>
        some { s with
          db := db
          net := s.net.eraseIdx k
          usersLog := s.usersLog ++ usersWrite t c document
          votesLog := s.votesLog ++ votesWrite t p c document }
      | none => some { s with net := s.net.eraseIdx k }
    else some { s with net := s.net.eraseIdx k }
  | some (.set c document d) =>
    if ok then some { s with db := s.db.setData c document d, net := s.net.eraseIdx k }
    else some { s with net := s.net.eraseIdx k }
  | some (.delete document cb) =>
    if ok then
      some { s with db := s.db.delete .votes document, net := s.net.set k (.reply .done cb) }
    else some { s with net := s.net.set k (.reply .failed cb) }
  | some (.reply _ _) => none
  | none => none

def System.deliver (s : System) (k : Nat) : Option System :=
  match s.net[k]? with
  | some (.reply r cb) =>
    match cb.run s.itemsDtc r with
    | .ok es => some (System.performAll { s with net := s.net.eraseIdx k } es)
    | .error _ => none
  | _ => none

/-- the document that a sign-up asks for; one below a document of `Users` is found by no query -/
def newUser (email : String) : List Task :=
  (userDocument email).toList.map fun id => .set .users id (userData email)

def VoteView.tapOn (view : Nat) (v : VoteView) (id row : Nat) : Tap :=
  ⟨id, view, v.emailString, row, v.UUID⟩

def System.step (s : System) : Label → Option System
  | .serve k ok => s.serve k ok
  | .deliver k => s.deliver k
  | .openVote emailString UUID =>
    some { s with views := s.views ++ [{ emailString := emailString, UUID := UUID }] }
  | .voteWillAppear view =>
    -- subscribing replays the `Variable`, so there are two reloads
    (s.views[view]?).map fun v =>
      { s with
        views := s.views.set view { v with subscriptions := v.subscriptions + 1 }
        net := s.net ++ [v.reload view, v.reload view] }
  | .tap view row =>
    match s.views[view]? with
    | none => none
    | some v =>
      if row < v.arr.length then
        some (System.perform { s with taps := s.taps + 1 } (tabOnCell (v.tapOn view s.taps row)))
      else none
  | .openMain emailString => some { s with mains := s.mains ++ [{ emailString := emailString }] }
  | .mainWillAppear main =>
    match s.mains[main]? with
    | none => none
    | some m =>
      if m.appeared then none
      else some (System.perform { s with mains := s.mains.set main { m with appeared := true } }
        (readDataBase main m.emailString))
  | .mainWillDisappear main =>
    match s.mains[main]? with
    | none => none
    | some m =>
      if m.appeared then
        some (System.perform { s with mains := s.mains.set main { m with appeared := false } }
          (itemsDeleteAll main))
      else none
  | .deleteRow main row =>
    match s.mains[main]? with
    | none => none
    | some m =>
      match m.itemsDtc[row]? with
      | none => none
      | some dtc =>
        if m.adminStatus then
          some { s with net := s.net ++ [.delete dtc.UUID (.itemsDelete main row dtc.UUID)] }
        else none
  | .signUp email =>
    if email ∉ s.accounts ∧ Plain email then
      some { s with accounts := email :: s.accounts, net := s.net ++ newUser email }
    else none
  | .addNewVote title description voteDate uuid items cellForRow =>
    if uuid ∈ s.uuids then none
    else
      match variantsArray items cellForRow with
      | .error _ => none
      | .ok (_, variants) =>
        some { s with
          uuids := uuid :: s.uuids
          net := s.net ++ [.set .votes uuid (voteData voteDate description title uuid variants)] }
  | .setUserRole email role =>
    (s.db.updateData .users email .userRole (.scalar (.bool role))).map fun db => { s with db := db }

/-! ## what a step can do -/

theorem performAll_keeps {α : Type} (g : System → α) (hg : ∀ s e, g (s.perform e) = g s)
    (s : System) (es : List Effect) : g (s.performAll es) = g s := by
  induction es generalizing s with
  | nil => rfl
  | cons e es ih => exact (ih (s.perform e)).trans (hg s e)

theorem split_net {α : Type} {net : List α} {k : Nat} {task : α} (h : net[k]? = some task) :
    ∃ l₁ l₂, net = l₁ ++ task :: l₂ ∧ (∀ x, net.set k x = l₁ ++ x :: l₂) ∧
      net.eraseIdx k = l₁ ++ l₂ := by
  obtain ⟨hk, rfl⟩ := List.getElem?_eq_some_iff.mp h
  refine ⟨net.take k, net.drop (k+1), ?_, fun x => ?_, ?_⟩
  · rw [← List.drop_eq_getElem_cons hk, List.take_append_drop]
  · rw [List.set_eq_take_append_cons_drop, if_pos hk]
  · rw [List.eraseIdx_eq_take_drop_succ]

theorem mem_middle {α : Type} {l₁ l₂ : List α} {x y : α} :
    y ∈ l₁ ++ x :: l₂ ↔ y = x ∨ y ∈ l₁ ++ l₂ := by
  simp only [List.mem_append, List.mem_cons]
  exact or_left_comm

/-- how the server answers the request `task`, which it grants (`true`) or refuses -/
inductive Served (s : System) : Task → Bool → System → Prop where
  | read {l₁ l₂ : List Task} {q : Query} {k : Callback} (hnet : s.net = l₁ ++ .read q k :: l₂) :
      Served s (.read q k) true
        { s with
          net := l₁ ++ .reply (.ok (s.db.getDocuments q)) k :: l₂
          usersLog := s.usersLog ++ k.usersRead
          votesLog := s.votesLog ++ k.votesRead }
  | readFails {l₁ l₂ : List Task} {q : Query} {k : Callback}
      (hnet : s.net = l₁ ++ .read q k :: l₂) :
      Served s (.read q k) false { s with net := l₁ ++ .reply .failed k :: l₂ }
  | update {l₁ l₂ : List Task} {t : Tap} {p : Path} {c : CollectionId} {document : String}
      {f : Field} {v : Value} {db : Database}
      (hnet : s.net = l₁ ++ .update t p c document f v :: l₂)
      (h : s.db.updateData c document f v = some db) :
      Served s (.update t p c document f v) true
        { s with
          db := db
          net := l₁ ++ l₂
          usersLog := s.usersLog ++ usersWrite t c document
          votesLog := s.votesLog ++ votesWrite t p c document }
  | updateFails {l₁ l₂ : List Task} {t : Tap} {p : Path} {c : CollectionId} {document : String}
      {f : Field} {v : Value} {ok : Bool}
      (hnet : s.net = l₁ ++ .update t p c document f v :: l₂)
      (h : ok = false ∨ s.db.updateData c document f v = none) :
      Served s (.update t p c document f v) ok { s with net := l₁ ++ l₂ }
  | set {l₁ l₂ : List Task} {c : CollectionId} {document : String} {d : Document}
      (hnet : s.net = l₁ ++ .set c document d :: l₂) :
      Served s (.set c document d) true { s with db := s.db.setData c document d, net := l₁ ++ l₂ }
  | setFails {l₁ l₂ : List Task} {c : CollectionId} {document : String} {d : Document}
      (hnet : s.net = l₁ ++ .set c document d :: l₂) :
      Served s (.set c document d) false { s with net := l₁ ++ l₂ }
  | delete {l₁ l₂ : List Task} {document : String} {k : Callback}
      (hnet : s.net = l₁ ++ .delete document k :: l₂) :
      Served s (.delete document k) true
        { s with db := s.db.delete .votes document, net := l₁ ++ .reply .done k :: l₂ }
  | deleteFails {l₁ l₂ : List Task} {document : String} {k : Callback}
      (hnet : s.net = l₁ ++ .delete document k :: l₂) :
      Served s (.delete document k) false { s with net := l₁ ++ .reply .failed k :: l₂ }

theorem serve_served {s u : System} {k : Nat} {ok : Bool} (h : s.serve k ok = some u) :
    ∃ task, s.net[k]? = some task ∧ Served s task ok u := by
  unfold System.serve at h
  cases hk : s.net[k]? with
  | none => rw [hk] at h; cases h
  | some task =>
    obtain ⟨l₁, l₂, hnet, hset, herase⟩ := split_net hk
    refine ⟨task, rfl, ?_⟩
    rw [hk] at h
    simp only [hset, herase] at h
    cases task with
    | read q cb =>
      cases ok <;> cases h
      · exact .readFails hnet
      · exact .read hnet
    | update t p c document f v =>
      cases ok with
      | false => cases h; exact .updateFails hnet (.inl rfl)
      | true =>
        cases hdb : s.db.updateData c document f v with
        | none => simp only [hdb, if_true] at h; cases h; exact .updateFails hnet (.inr hdb)
        | some db => simp only [hdb, if_true] at h; cases h; exact .update hnet hdb
    | set c document d =>
      cases ok <;> cases h
      · exact .setFails hnet
      · exact .set hnet
    | delete document cb =>
      cases ok <;> cases h
      · exact .deleteFails hnet
      · exact .delete hnet
    | reply r cb => cases h

theorem deliver_delivered {s u : System} {k : Nat} (h : s.deliver k = some u) :
    ∃ l₁ l₂ r cb es, s.net = l₁ ++ .reply r cb :: l₂ ∧ cb.run s.itemsDtc r = .ok es ∧
      u = System.performAll { s with net := l₁ ++ l₂ } es := by
  unfold System.deliver at h
  cases hk : s.net[k]? with
  | none => rw [hk] at h; cases h
  | some task =>
    obtain ⟨l₁, l₂, hnet, _, herase⟩ := split_net hk
    rw [hk] at h
    cases task with
    | reply r cb =>
      cases hr : cb.run s.itemsDtc r with
      | error e => simp only [hr] at h; cases h
      | ok es =>
        simp only [hr, herase] at h
        cases h
        exact ⟨l₁, l₂, r, cb, es, hnet, hr, rfl⟩
    | _ => cases h

section
variable {s u : System}

theorem step_tap {view row : Nat} (h : s.step (.tap view row) = some u) :
    ∃ v, s.views[view]? = some v ∧ row < v.arr.length ∧
      u = System.perform { s with taps := s.taps + 1 } (tabOnCell (v.tapOn view s.taps row)) := by
  cases hv : s.views[view]? with
  | none => simp [System.step, hv] at h
  | some v =>
    by_cases hrow : row < v.arr.length
    · simp only [System.step, hv, if_pos hrow, Option.some.injEq] at h
      exact ⟨v, rfl, hrow, h.symm⟩
    · simp [System.step, hv, hrow] at h

theorem step_mainWillAppear {main : Nat} (h : s.step (.mainWillAppear main) = some u) :
    ∃ m, s.mains[main]? = some m ∧ m.appeared = false ∧
      u = System.perform { s with mains := s.mains.set main { m with appeared := true } }
        (readDataBase main m.emailString) := by
  cases hm : s.mains[main]? with
  | none => simp [System.step, hm] at h
  | some m =>
    cases ha : m.appeared with
    | true => simp [System.step, hm, ha] at h
    | false =>
      simp only [System.step, hm, ha, Bool.false_eq_true, if_false, Option.some.injEq] at h
      exact ⟨m, rfl, ha, h.symm⟩

theorem step_mainWillDisappear {main : Nat} (h : s.step (.mainWillDisappear main) = some u) :
    ∃ m, s.mains[main]? = some m ∧ m.appeared = true ∧
      u = System.perform { s with mains := s.mains.set main { m with appeared := false } }
        (itemsDeleteAll main) := by
  cases hm : s.mains[main]? with
  | none => simp [System.step, hm] at h
  | some m =>
    cases ha : m.appeared with
    | false => simp [System.step, hm, ha] at h
    | true =>
      simp only [System.step, hm, ha, if_true, Option.some.injEq] at h
      exact ⟨m, rfl, ha, h.symm⟩

theorem step_deleteRow {main row : Nat} (h : s.step (.deleteRow main row) = some u) :
    ∃ m dtc, s.mains[main]? = some m ∧ m.itemsDtc[row]? = some dtc ∧ m.adminStatus = true ∧
      u = { s with net := s.net ++ [.delete dtc.UUID (.itemsDelete main row dtc.UUID)] } := by
  cases hm : s.mains[main]? with
  | none => simp [System.step, hm] at h
  | some m =>
    cases hrow : m.itemsDtc[row]? with
    | none => simp [System.step, hm, hrow] at h
    | some dtc =>
      cases ha : m.adminStatus with
      | false => simp [System.step, hm, hrow, ha] at h
      | true =>
        simp only [System.step, hm, hrow, ha, if_true, Option.some.injEq] at h
        exact ⟨m, dtc, rfl, hrow, ha, h.symm⟩

theorem newUser_plain {email : String} (h : Plain email) :
    newUser email = [] ∨ newUser email = [.set .users email (userData email)] := by
  unfold newUser
  cases hid : userDocument email with
  | none => exact .inl rfl
  | some id =>
    rw [userDocument_plain h hid]
    exact .inr rfl

theorem step_signUp {email : String} (h : s.step (.signUp email) = some u) :
    email ∉ s.accounts ∧ (u = { s with accounts := email :: s.accounts } ∨ u = { s with
      accounts := email :: s.accounts, net := s.net ++ [.set .users email (userData email)] }) := by
  obtain ⟨⟨hnew, hplain⟩, h⟩ := Option.ite_none_right_eq_some.mp h
  refine ⟨hnew, ?_⟩
  rw [← Option.some.inj h]
  rcases newUser_plain hplain with hts | hts
  · rw [hts, List.append_nil]
    exact .inl rfl
  · rw [hts]
    exact .inr rfl

theorem step_addNewVote {title description voteDate uuid : String} {items : List Int}
    {cellForRow : Int → Option String}
    (h : s.step (.addNewVote title description voteDate uuid items cellForRow) = some u) :
    uuid ∉ s.uuids ∧ ∃ items' variants, variantsArray items cellForRow = .ok (items', variants) ∧
      u = { s with
        uuids := uuid :: s.uuids
        net := s.net ++ [.set .votes uuid (voteData voteDate description title uuid variants)] } := by
  by_cases hu : uuid ∈ s.uuids
  · simp [System.step, hu] at h
  · cases hv : variantsArray items cellForRow with
    | error e => simp [System.step, hu, hv] at h
    | ok x =>
      simp only [System.step, if_neg hu, hv, Option.some.injEq] at h
      exact ⟨hu, x.1, x.2, rfl, h.symm⟩

theorem step_setUserRole {email : String} {role : Bool}
    (h : s.step (.setUserRole email role) = some u) :
    ∃ db, s.db.updateData .users email .userRole (.scalar (.bool role)) = some db ∧
      u = { s with db := db } := by
  obtain ⟨db, hdb, rfl⟩ := Option.map_eq_some_iff.mp h
  exact ⟨db, hdb, rfl⟩

theorem step_voteWillAppear {view : Nat} (h : s.step (.voteWillAppear view) = some u) :
    ∃ v, s.views[view]? = some v ∧ u = { s with
      views := s.views.set view { v with subscriptions := v.subscriptions + 1 }
      net := s.net ++ [v.reload view, v.reload view] } := by
  obtain ⟨v, hv, rfl⟩ := Option.map_eq_some_iff.mp h
  exact ⟨v, hv, rfl⟩

end

/-! ## weights of what is in flight -/

def weigh (w : Task → Nat) (l : List Task) : Nat := (l.map w).sum

@[simp] theorem weigh_nil (w : Task → Nat) : weigh w [] = 0 := rfl
@[simp] theorem weigh_cons (w : Task → Nat) (x : Task) (l : List Task) :
    weigh w (x :: l) = w x + weigh w l := rfl
@[simp] theorem weigh_append (w : Task → Nat) (a b : List Task) :
    weigh w (a ++ b) = weigh w a + weigh w b := by
  unfold weigh
  rw [List.map_append, List.sum_append]

def System.initial : System := { db := .empty, net := [] }

def System.tapping (db : Database) (taps : List Tap) (views : List VoteView) : System :=
  { db := db
    net := taps.map fun t => .read (.usersWhere t.emailString) (.tabOnCell t)
    views := views
    taps := taps.length }

abbrev System.Run (s : System) (ls : List Label) (u : System) : Prop :=
  Machine.exec System.step s ls = some u

end VoteOnOffice
