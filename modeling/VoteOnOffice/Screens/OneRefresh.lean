import Mathlib.Data.List.Perm.Basic
import VoteOnOffice.Screens.MainList

/-!
# One refresh of the main list

`readDataBase` is called once, on a screen whose list is empty, and every request is answered; the
answers and the closures come in any order.

* `Findable`           votes with a title, a date and a UUID each, and one document of the user;
* `Listable`           the document of the user has a role and a list as well;
* `RowOf l d row`      `row` shows the vote `d` to a user with the list `l`;
* `Listed`             the list has one such row for each vote;
* `Filling`            what is listed and what is still to come make up all rows, and the steps to come
                       are counted;
* `refresh_lists`      **a run always goes on until nothing is in flight, and then the list is
                       `Listed`**;
* `refresh_traps`      without the role the closure of `readUsers` traps.
-/

namespace VoteOnOffice

structure Findable (db : Database) (email : String) (d : Document) : Prop where
  votes : ∀ v ∈ db.getDocuments .votes, ∃ title time UUID,
    Value.asString (v .voteTitle) = some title ∧ Value.asString (v .voteDate) = some time ∧
      Value.asString (v .voteUUID) = some UUID
  once : ((db.getDocuments .votes).map fun v => Value.asString (v .voteUUID)).Nodup
  user : db.getDocuments (.usersWhere email) = [d]

structure Listable (db : Database) (email : String) (d : Document) (l : List Record) : Prop
    extends Findable db email d where
  role : ∃ status, Value.asBool (d .userRole) = some status
  list : d .userVotesList = some (.records l)

structure RowOf (l : List Record) (v : Document) (row : DataVoteCell) : Prop where
  title : Value.asString (v .voteTitle) = some row.title
  time : Value.asString (v .voteDate) = some row.time
  UUID : Value.asString (v .voteUUID) = some row.UUID
  status : row.status = true ↔ ∃ r ∈ l, Scalar.asString (r .voteUUID) = some row.UUID

structure Listed (db : Database) (l : List Record) (m : MainView) : Prop where
  shown : m.items = m.itemsDtc
  rows : ∃ votes, votes.Perm (db.getDocuments .votes) ∧ List.Forall₂ (RowOf l) votes m.itemsDtc
  once : (m.itemsDtc.map DataVoteCell.UUID).Nodup

/-- the screen before the refresh -/
def System.blank (db : Database) (m : MainView) : System := { db := db, net := [], mains := [m] }

/-- the server grants a request, or a closure runs -/
def Label.answers : Label → Prop
  | .serve _ ok => ok = true
  | .deliver _ => True
  | _ => False

def rowFor (l : List Record) (v : Document) : DataVoteCell := (dataVoteInit v).shown l

/-- what is in flight -/
inductive Outstanding (db : Database) (email : String) (d : Document) : Task → Prop where
  | votes : Outstanding db email d (.read .votes (.readDataBase 0 email))
  | votesFound : Outstanding db email d
      (.reply (.ok (db.getDocuments .votes)) (.readDataBase 0 email))
  | user (dtc : DataVoteCell) : Outstanding db email d (.read (.usersWhere email) (.readUsers 0 dtc))
  | userFound (dtc : DataVoteCell) : Outstanding db email d (.reply (.ok [d]) (.readUsers 0 dtc))

/-- the rows that come of it -/
def Callback.brings (db : Database) (l : List Record) : Callback → List DataVoteCell
  | .readDataBase _ _ => (db.getDocuments .votes).map (rowFor l)
  | .readUsers _ dtc => [dtc.shown l]
  | _ => []

def Task.brings (db : Database) (l : List Record) : Task → List DataVoteCell
  | .read _ k => k.brings db l
  | .reply _ k => k.brings db l
  | _ => []

/-- the steps that a closure still takes with its requests -/
def Callback.work (db : Database) : Callback → Nat
  | .readDataBase _ _ => 2 * (db.getDocuments .votes).length + 1
  | .readUsers _ _ => 1
  | _ => 0

def Task.work (db : Database) : Task → Nat
  | .read _ k => k.work db + 1
  | .reply _ k => k.work db
  | _ => 0

def System.work (s : System) (db : Database) : Nat := weigh (Task.work db) s.net

structure Filling (db : Database) (email : String) (d : Document) (l : List Record) (s : System) :
    Prop where
  same : s.db = db
  net : ∀ x ∈ s.net, Outstanding db email d x
  main : ∃ m, s.mains = [m] ∧ m.items = m.itemsDtc ∧
    (m.itemsDtc ++ s.net.flatMap (Task.brings db l)).Perm
      ((db.getDocuments .votes).map (rowFor l))

/-! ## the rows -/

section
variable {db : Database} {email : String} {d : Document} {l : List Record}

theorem Listable.rowOf (h : Listable db email d l) {v : Document}
    (hv : v ∈ db.getDocuments .votes) : RowOf l v (rowFor l v) := by
  obtain ⟨title, time, UUID, htitle, htime, hUUID⟩ := h.votes v hv
  have hinit : dataVoteInit v = { title := title, time := time, UUID := UUID } := by
    unfold dataVoteInit
    rw [htitle, htime, hUUID]
  unfold rowFor DataVoteCell.shown
  rw [hinit]
  cases hentries : (l.filter (isFor UUID)) with
  | nil =>
    refine ⟨htitle, htime, hUUID, fun hs => absurd hs Bool.false_ne_true, ?_⟩
    rintro ⟨r, hr, hfor⟩
    exact absurd (decide_eq_true hfor) (List.filter_eq_nil_iff.mp hentries r hr)
  | cons r rest =>
    have hmem : r ∈ l.filter (isFor UUID) := by
      rw [hentries]
      exact List.mem_cons_self
    obtain ⟨hr, hfor⟩ := List.mem_filter.mp hmem
    exact ⟨htitle, htime, hUUID, ⟨fun _ => ⟨r, hr, of_decide_eq_true hfor⟩, fun _ => rfl⟩⟩

theorem Listable.listed (h : Listable db email d l) {m : MainView} (hitems : m.items = m.itemsDtc)
    (hrows : m.itemsDtc.Perm ((db.getDocuments .votes).map (rowFor l))) : Listed db l m := by
  have hall : List.Forall₂ (RowOf l) (db.getDocuments .votes)
      ((db.getDocuments .votes).map (rowFor l)) := by
    rw [List.forall₂_map_right_iff, List.forall₂_same]
    exact fun v hv => h.rowOf hv
  refine ⟨hitems, ?_, ?_⟩
  · have hcomp : Relation.Comp (List.Forall₂ (RowOf l)) List.Perm (db.getDocuments .votes)
        m.itemsDtc := ⟨_, hall, hrows.symm⟩
    rw [List.forall₂_comp_perm_eq_perm_comp_forall₂] at hcomp
    obtain ⟨votes, hperm, hvotes⟩ := hcomp
    exact ⟨votes, hperm.symm, hvotes⟩
  · have hUUIDs : (((db.getDocuments .votes).map (rowFor l)).map DataVoteCell.UUID).map some
        = (db.getDocuments .votes).map fun v => Value.asString (v .voteUUID) := by
      rw [List.map_map, List.map_map]
      exact List.map_congr_left fun v hv => (h.rowOf hv).UUID.symm
    refine (hrows.map DataVoteCell.UUID).nodup_iff.mpr (List.Nodup.of_map some ?_)
    rw [hUUIDs]
    exact h.once

/-! ## one step -/

theorem perm_exchange {α β : Type} [DecidableEq β] {f : α → List β} {old row : List β}
    {l₁ l₂ added : List α} {x : α} (hx : f x = row ++ added.flatMap f) :
    (old ++ row ++ (l₁ ++ l₂ ++ added).flatMap f).Perm (old ++ (l₁ ++ x :: l₂).flatMap f) := by
  rw [List.perm_iff_count]
  intro b
  simp only [List.flatMap_append, List.flatMap_cons, List.count_append, hx]
  omega

theorem brings_rowReads (db : Database) (email : String) (l : List Record) (ds : List Document) :
    (rowReads email ds).flatMap (Task.brings db l) = ds.map (rowFor l) := by
  induction ds with
  | nil => rfl
  | cons v ds ih => exact congrArg (List.cons _) ih

theorem work_rowReads (db : Database) (email : String) (ds : List Document) :
    weigh (Task.work db) (rowReads email ds) = 2 * ds.length := by
  induction ds with
  | nil => rfl
  | cons v ds ih =>
    show 2 + weigh (Task.work db) (rowReads email ds) = _
    rw [ih, List.length_cons]
    omega

theorem brings_answer (db : Database) (l : List Record) (l₁ l₂ : List Task) (q : Query)
    (k : Callback) (r : Reply) : (l₁ ++ .reply r k :: l₂).flatMap (Task.brings db l)
      = (l₁ ++ .read q k :: l₂).flatMap (Task.brings db l) := by
  rw [List.flatMap_append, List.flatMap_append, List.flatMap_cons, List.flatMap_cons]
  rfl

theorem work_answer (db : Database) (l₁ l₂ : List Task) (q : Query) (k : Callback) (r : Reply) :
    weigh (Task.work db) (l₁ ++ .reply r k :: l₂) + 1
      = weigh (Task.work db) (l₁ ++ .read q k :: l₂) := by
  simp only [weigh_append, weigh_cons, Task.work]
  omega

section
variable {s u : System}

theorem Filling.serve (h : Filling db email d l s) (hl : Listable db email d l) {k : Nat}
    (hs : s.serve k true = some u) :
    Filling db email d l u ∧ u.work db + 1 = s.work db := by
  obtain ⟨task, hk, hserved⟩ := serve_served hs
  obtain ⟨m, hm, hitems, hperm⟩ := h.main
  -- a request that is answered with the documents it asks for
  have hread : ∃ l₁ l₂ q cb, s.net = l₁ ++ .read q cb :: l₂ ∧ u.db = s.db ∧ u.mains = s.mains ∧
      u.net = l₁ ++ .reply (.ok (db.getDocuments q)) cb :: l₂ ∧
      Outstanding db email d (.reply (.ok (db.getDocuments q)) cb) := by
    rw [← h.same]
    cases h.net task (List.mem_of_getElem? hk) with
    | votes =>
      cases hserved with
      | read hnet => exact ⟨_, _, _, _, hnet, rfl, rfl, rfl, by rw [h.same]; exact .votesFound⟩
    | user dtc =>
      cases hserved with
      | read hnet =>
        refine ⟨_, _, _, _, hnet, rfl, rfl, rfl, ?_⟩
        rw [h.same, hl.user]
        exact .userFound dtc
    | votesFound => cases hserved
    | userFound dtc => cases hserved
  obtain ⟨l₁, l₂, q, cb, hnet, hdb, hmains, hunet, hasked⟩ := hread
  refine ⟨⟨hdb.trans h.same, fun x hx => ?_, m, hmains.trans hm, hitems, ?_⟩, ?_⟩
  · rw [hunet] at hx
    rcases mem_middle.mp hx with rfl | hx
    · exact hasked
    · exact h.net x (by rw [hnet]; exact mem_middle.mpr (.inr hx))
  · rw [hunet, brings_answer db l l₁ l₂ q, ← hnet]
    exact hperm
  · unfold System.work
    rw [hunet, hnet]
    exact work_answer ..

theorem Filling.deliver (h : Filling db email d l s) (hl : Listable db email d l) {k : Nat}
    (hs : s.deliver k = some u) :
    Filling db email d l u ∧ u.work db + 1 = s.work db := by
  obtain ⟨l₁, l₂, r, cb, es, hnet, hrun, rfl⟩ := deliver_delivered hs
  obtain ⟨m, hm, hitems, hperm⟩ := h.main
  have hrest : ∀ x ∈ l₁ ++ l₂, Outstanding db email d x := fun x hx =>
    h.net x (by rw [hnet]; exact mem_middle.mpr (.inr hx))
  have hasked := h.net (.reply r cb) (by rw [hnet]; exact mem_middle.mpr (.inl rfl))
  unfold System.work
  rw [hnet] at hperm ⊢
  cases hasked with
  | votesFound =>
    cases (readDataBaseClosure_ok 0 email _).symm.trans hrun
    rw [performAll_rowReads]
    refine ⟨⟨h.same, fun x hx => ?_, m, hm, hitems, ?_⟩, ?_⟩
    · rcases List.mem_append.mp hx with hx | hx
      · exact hrest x hx
      · obtain ⟨v, _, rfl⟩ := List.mem_map.mp hx
        exact .user _
    · have hbrings : Task.brings db l
          (.reply (.ok (db.getDocuments .votes)) (.readDataBase 0 email))
            = [] ++ (rowReads email (db.getDocuments .votes)).flatMap (Task.brings db l) := by
        rw [brings_rowReads]; rfl
      have hnew : (m.itemsDtc ++ [] ++ (l₁ ++ l₂ ++ rowReads email (db.getDocuments .votes)).flatMap
          (Task.brings db l)).Perm _ := (perm_exchange hbrings).trans hperm
      rwa [List.append_nil] at hnew
    · simp only [weigh_append, weigh_cons, work_rowReads, Task.work, Callback.work]
      omega
  | userFound dtc =>
    obtain ⟨status, arrays, harrays, rfl⟩ := readUsersClosure_one hrun
    cases hl.list.symm.trans harrays
    have hdtc : s.itemsDtc 0 = m.itemsDtc := by
      unfold System.itemsDtc
      rw [hm]; rfl
    have hunet : (System.performAll { s with net := l₁ ++ l₂ } [.adminStatus 0 status,
        .items 0 (s.itemsDtc 0 ++ [dtc.shown l])]).net = l₁ ++ l₂ := by
      simp [System.performAll, System.perform, System.newTasks]
    have hmains : (System.performAll { s with net := l₁ ++ l₂ } [.adminStatus 0 status,
        .items 0 (s.itemsDtc 0 ++ [dtc.shown l])]).mains = [{ m with
          adminStatus := status
          itemsDtc := m.itemsDtc ++ [dtc.shown l]
          items := m.itemsDtc ++ [dtc.shown l] }] := by
      rw [hdtc]
      show ((s.mains.modify 0 _).modify 0 _) = _
      rw [hm]; rfl
    refine ⟨⟨(db_performAll _ _).trans h.same, fun x hx => hrest x (hunet ▸ hx), _, hmains, rfl, ?_⟩,
      ?_⟩
    · have hbrings : Task.brings db l (.reply (.ok [d]) (.readUsers 0 dtc))
          = [dtc.shown l] ++ ([] : List Task).flatMap (Task.brings db l) := rfl
      rw [hunet, ← List.append_nil (l₁ ++ l₂)]
      exact (perm_exchange hbrings).trans hperm
    · rw [hunet]
      simp only [weigh_append, weigh_cons, Task.work, Callback.work]
      omega

theorem Filling.step (h : Filling db email d l s) (hl : Listable db email d l) {x : Label}
    (hx : x.answers) (hs : s.step x = some u) :
    Filling db email d l u ∧ u.work db + 1 = s.work db := by
  cases x with
  | serve k ok =>
    obtain rfl : ok = true := hx
    exact h.serve hl hs
  | deliver k => exact h.deliver hl hs
  | _ => exact hx.elim

theorem Filling.work_eq_zero (h : Filling db email d l s) : s.work db = 0 ↔ s.net = [] := by
  constructor
  · intro hwork
    unfold System.work at hwork
    cases hnet : s.net with
    | nil => rfl
    | cons x rest =>
      rw [hnet, weigh_cons] at hwork
      have hzero : Task.work db x = 0 := by omega
      cases h.net x (by rw [hnet]; exact List.mem_cons_self) <;> cases hzero
  · intro hnet
    unfold System.work
    rw [hnet]
    rfl

theorem Filling.progress (h : Filling db email d l s) (hl : Listable db email d l)
    (hnet : s.net ≠ []) : ∃ x : Label, x.answers ∧ (s.step x).isSome = true := by
  obtain ⟨task, rest, hcons⟩ := List.exists_cons_of_ne_nil hnet
  have hasked := h.net task (by rw [hcons]; exact List.mem_cons_self)
  have hserve : ∀ q cb, task = .read q cb →
      ∃ x : Label, x.answers ∧ (s.step x).isSome = true := by
    rintro q cb rfl
    refine ⟨.serve 0 true, rfl, ?_⟩
    simp only [System.step, System.serve, hcons, List.getElem?_cons_zero, if_true]
    rfl
  have hdeliver : ∀ r cb es, task = .reply r cb → cb.run s.itemsDtc r = .ok es →
      ∃ x : Label, x.answers ∧ (s.step x).isSome = true := by
    rintro r cb es rfl hrun
    refine ⟨.deliver 0, trivial, ?_⟩
    simp only [System.step, System.deliver, hcons, List.getElem?_cons_zero, hrun]
    rfl
  cases hasked with
  | votes => exact hserve _ _ rfl
  | user dtc => exact hserve _ _ rfl
  | votesFound => exact hdeliver _ _ _ rfl (readDataBaseClosure_ok 0 email _)
  | userFound dtc =>
    obtain ⟨status, hstatus⟩ := hl.role
    refine hdeliver _ _ [.adminStatus 0 status, .items 0 (s.itemsDtc 0 ++ [dtc.shown l])] rfl ?_
    exact readUsersLoop_cons.mpr ⟨status, l, [], hstatus, hl.list, rfl, rfl⟩

end

/-! ## the whole refresh -/

/-- **A refresh goes on until nothing is in flight; by then it has taken two steps for the votes and
two for each of them, and every vote is listed once with the right status.** -/
theorem refresh_lists (h : Listable db email d l) {m : MainView} (hemail : m.emailString = email)
    (hitemsDtc : m.itemsDtc = []) (hitems : m.items = [])
    {ls : List Label} (hls : ∀ x ∈ ls, x.answers) {u : System}
    (hrun : System.Run (.blank db m) (.mainWillAppear 0 :: ls) u) :
    (u.net ≠ [] → ∃ x : Label, x.answers ∧ (u.step x).isSome = true) ∧
    (u.net = [] ↔ ls.length = 2 * (db.getDocuments .votes).length + 2) ∧
    (u.net = [] → ∃ m', u.mains = [m'] ∧ Listed db l m') := by
  obtain ⟨s, hs, hrest⟩ := (Machine.exec_cons System.step).mp hrun
  obtain ⟨m', hm', -, hs⟩ := step_mainWillAppear hs
  cases hm'
  have hdb : s.db = db := by rw [hs]; rfl
  have hnet : s.net = [.read .votes (.readDataBase 0 email)] := by rw [hs, hemail]; rfl
  have hmains : s.mains = [{ m with appeared := true }] := by rw [hs]; rfl
  have hstart : Filling db email d l s := by
    refine ⟨hdb, fun x hx => ?_, _, hmains, hitems.trans hitemsDtc.symm, ?_⟩
    · rw [hnet] at hx
      rw [List.mem_singleton.mp hx]
      exact .votes
    · rw [hnet, hitemsDtc]
      exact List.Perm.of_eq (List.append_nil _)
  have hstartWork : s.work db = 2 * (db.getDocuments .votes).length + 2 := by
    unfold System.work
    rw [hnet]
    rfl
  obtain ⟨hu, hwork⟩ := Machine.exec_countdown System.step (fun s => s.work db)
    (fun _ _ _ hs hl => hs.step h hl) hls hrest hstart
  refine ⟨hu.progress h, ?_, fun hunet => ?_⟩
  · rw [← hu.work_eq_zero]
    omega
  · obtain ⟨m', hm', hshown, hperm⟩ := hu.main
    rw [hunet, List.flatMap_nil, List.append_nil] at hperm
    exact ⟨m', hm', h.listed hshown hperm⟩

end

/-! ## at two votes, the rows of which come in the other order -/

def votedOnce : Database :=
  (((Database.empty.setData .votes "v" (voteData "" "" "V" "v" [])).setData .votes "w"
    (voteData "" "" "W" "w" [])).setData .users "a" (fun
      | .userVotesList => some (.records [ballot "v" 0])
      | f => userData "a" f))

theorem listable_votedOnce : Listable votedOnce "a" (fun
    | .userVotesList => some (.records [ballot "v" 0])
    | f => userData "a" f) [ballot "v" 0] where
  votes := by
    intro v hv
    have hdocs : votedOnce.getDocuments .votes
        = [voteData "" "" "W" "w" [], voteData "" "" "V" "v" []] := rfl
    rw [hdocs] at hv
    simp only [List.mem_cons, List.not_mem_nil, or_false] at hv
    rcases hv with rfl | rfl <;> exact ⟨_, _, _, rfl, rfl, rfl⟩
  once := by decide
  user := rfl
  role := ⟨false, rfl⟩
  list := rfl

/-- the answers and the closures of the two rows overlap -/
def crossed : List Label :=
  [.serve 0 true, .deliver 0, .serve 1 true, .serve 0 true, .deliver 1, .deliver 0]

theorem refresh_lists_crossed : ∃ u, System.Run (.blank votedOnce { emailString := "a" })
    (.mainWillAppear 0 :: crossed) u ∧ ∃ m, u.mains = [m] ∧ Listed votedOnce [ballot "v" 0] m := by
  have hanswers : ∀ x ∈ crossed, x.answers := by
    intro x hx
    simp only [crossed, List.mem_cons, List.not_mem_nil, or_false] at hx
    rcases hx with rfl | rfl | rfl | rfl | rfl | rfl <;> first | exact trivial | exact rfl
  have hrun : (Machine.exec System.step (.blank votedOnce { emailString := "a" })
      (.mainWillAppear 0 :: crossed)).isSome = true := by decide
  obtain ⟨u, hu⟩ := Option.isSome_iff_exists.mp hrun
  obtain ⟨_, hend, hlisted⟩ := refresh_lists listable_votedOnce rfl rfl rfl hanswers hu
  exact ⟨u, hu, hlisted (hend.mpr rfl)⟩

/-! ## a user without a role -/

def roleless : Document
  | .userRole => none
  | f => userData "a" f

def noRole : Database :=
  (Database.empty.setData .votes "v" (voteData "" "" "V" "v" [])).setData .users "a" roleless

/-- both answers have come, the closure of the second one traps, and nothing is listed -/
theorem refresh_traps : Findable noRole "a" roleless ∧
    ∃ u, System.Run (.blank noRole { emailString := "a" })
        [.mainWillAppear 0, .serve 0 true, .deliver 0, .serve 0 true] u ∧
      u.net ≠ [] ∧ (∀ x : Label, x.answers → u.step x = none) ∧
      u.mains.map MainView.itemsDtc = [[]] ∧ noRole.getDocuments .votes ≠ [] := by
  refine ⟨⟨?_, by decide, rfl⟩, _, rfl, List.cons_ne_nil _ _, ?_, rfl, List.cons_ne_nil _ _⟩
  · intro v hv
    rw [List.mem_singleton.mp hv]
    exact ⟨_, _, _, rfl, rfl, rfl⟩
  · intro x hx
    cases x with
    | serve k ok => cases k <;> rfl
    | deliver k => cases k <;> rfl
    | _ => exact hx.elim

end VoteOnOffice
