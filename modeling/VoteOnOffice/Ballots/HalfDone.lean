import VoteOnOffice.Records.Reachable
import VoteOnOffice.Taps.Done

/-!
# A tap on its own, when its requests may fail

A tap writes two documents with two requests, and ignores what becomes of them.

* `Outcome`            what becomes of the requests of a tap;
* `System.attempt o`   the steps of the system in which no user acts, when this is what happens;
* `usersFate`, `votesFate`
                       whether a request in flight will still lead to a write that takes effect;
* `Phase`, `Going`     the states that the tap goes through: the writes made and the writes to come
                       are always the same number;
* `allOrNothing_iff`   **both writes take effect or neither, iff a first vote's list is written
                       exactly when its array is read and written, and a change's list exactly when
                       its array is.**
-/

namespace VoteOnOffice
open Lineage

structure Outcome where
  usersRead : Bool
  votesRead : Bool
  /-- the vote's document has been deleted by the time that it is read -/
  deleted : Bool
  usersWrite : Bool
  votesWrite : Bool

def Outcome.grants (o : Outcome) : Task → Bool
  | .read _ (.tabOnCell _) => o.usersRead
  | .read _ (.voteFirst _) => o.votesRead
  | .read _ (.voteSecond _ _ _) => o.votesRead
  | .update _ _ .users _ _ _ => o.usersWrite
  | .update _ _ .votes _ _ _ => o.votesWrite
  | _ => true

/-- what somebody else has done by the time that the request is served -/
def Outcome.meanwhile (o : Outcome) : Task → Database → Database
  | .read _ (.voteFirst t), db => if o.deleted then db.delete .votes t.UUID else db
  | .read _ (.voteSecond t _ _), db => if o.deleted then db.delete .votes t.UUID else db
  | _, db => db

def System.attempt (o : Outcome) (s : System) : Move → Option System
  | .serve k =>
    match s.net[k]? with
    | none => none
    | some task => System.serve { s with db := o.meanwhile task s.db } k (o.grants task)
  | .deliver k => s.deliver k

structure Attempted (o : Outcome) (db : Database) (t : Tap) (u : System) : Prop where
  run : ∃ views ms, Machine.exec (System.attempt o) (System.tapping db [t] views) ms = some u
  done : ∀ task ∈ u.net, task.isTap = false

/-- the user's list has been written iff the vote's array has -/
def AllOrNothing (t : Tap) (u : System) : Prop :=
  .write t ∈ logOf t.emailString u.usersLog ↔ ∃ p, .write (t, p) ∈ logOf t.UUID u.votesLog

def Outcome.found (o : Outcome) (db : Database) (t : Tap) : Bool :=
  o.votesRead && !o.deleted && (db.votes.lookup t.UUID).isSome

/-- the outcomes that leave no half-done tap -/
def Outcome.Whole (o : Outcome) (db : Database) (t : Tap) : Prop :=
  o.usersRead = true → (db.users.lookup t.emailString).isSome = true →
    if entries t.UUID (listOf db t.emailString) = [] then
      o.usersWrite = (o.found db t && o.votesWrite)
    else o.found db t = true → o.usersWrite = o.votesWrite

/-! ## the steps of the tap -/

inductive Attempt (o : Outcome) (x : TapState) : TapState → Prop where
  | read {l₁ l₂ : List Task} {q : Query} {k : Callback} (hnet : x.net = l₁ ++ .read q k :: l₂)
      (ho : o.grants (.read q k) = true) :
      Attempt o x ⟨o.meanwhile (.read q k) x.db,
        l₁ ++ .reply (.ok ((o.meanwhile (.read q k) x.db).getDocuments q)) k :: l₂,
        x.usersLog ++ k.usersRead, x.votesLog ++ k.votesRead⟩
  | readFails {l₁ l₂ : List Task} {q : Query} {k : Callback} (hnet : x.net = l₁ ++ .read q k :: l₂)
      (ho : o.grants (.read q k) = false) :
      Attempt o x ⟨o.meanwhile (.read q k) x.db, l₁ ++ .reply .failed k :: l₂, x.usersLog, x.votesLog⟩
  | write {db' : Database} {l₁ l₂ : List Task} {t : Tap} {p : Path} {c : CollectionId}
      {document : String} {f : Field} {v : Value}
      (hnet : x.net = l₁ ++ .update t p c document f v :: l₂)
      (ho : o.grants (.update t p c document f v) = true)
      (h : x.db.updateData c document f v = some db') :
      Attempt o x ⟨db', l₁ ++ l₂, x.usersLog ++ usersWrite t c document,
        x.votesLog ++ votesWrite t p c document⟩
  | writeFails {l₁ l₂ : List Task} {t : Tap} {p : Path} {c : CollectionId}
      {document : String} {f : Field} {v : Value}
      (hnet : x.net = l₁ ++ .update t p c document f v :: l₂)
      (h : o.grants (.update t p c document f v) = false ∨
        x.db.updateData c document f v = none) :
      Attempt o x ⟨x.db, l₁ ++ l₂, x.usersLog, x.votesLog⟩
  | deliver {l₁ l₂ : List Task} {r : Reply} {k : Callback} {es : List Effect}
      (hnet : x.net = l₁ ++ .reply r k :: l₂) (h : k.run (fun _ => []) r = .ok es) :
      Attempt o x ⟨x.db, l₁ ++ l₂ ++ es.flatMap Effect.tapTasks, x.usersLog, x.votesLog⟩

theorem TapStep.attempt {o : Outcome} {x y : TapState} {task : Task}
    (h : TapStep o.grants { x with db := o.meanwhile task x.db } (some task) y) : Attempt o x y := by
  generalize hx : { x with db := o.meanwhile task x.db } = x' at h
  generalize hserved : some task = served at h
  cases h with
  | read ho =>
    cases hserved
    obtain ⟨rfl, hnet, rfl, rfl⟩ := TapState.mk.inj hx
    exact .read hnet ho
  | readFails ho =>
    cases hserved
    obtain ⟨rfl, hnet, rfl, rfl⟩ := TapState.mk.inj hx
    exact .readFails hnet ho
  | write ho hdb =>
    cases hserved
    obtain ⟨rfl, hnet, rfl, rfl⟩ := TapState.mk.inj hx
    exact .write hnet ho hdb
  | writeFails hdb =>
    cases hserved
    obtain ⟨rfl, hnet, rfl, rfl⟩ := TapState.mk.inj hx
    exact .writeFails hnet hdb
  | deliver _ _ => cases hserved

theorem TapStep.attempt_none {o : Outcome} {x y : TapState}
    (h : TapStep o.grants x none y) : Attempt o x y := by
  generalize hserved : none = served at h
  cases h with
  | deliver hk hrun => exact .deliver rfl hrun
  | _ => cases hserved

theorem meanwhile_not_tap {o : Outcome} {task : Task} (h : task.isTap = false) (db : Database) :
    o.meanwhile task db = db := by
  cases task with
  | read q k => cases k <;> first | rfl | cases h
  | _ => rfl

theorem attempt_tapState {o : Outcome} {s u : System} {m : Move}
    (hs : ∀ x ∈ s.net, x.replaces = false) (h : s.attempt o m = some u) :
    (∀ x ∈ u.net, x.replaces = false) ∧
      Relation.ReflTransGen (Attempt o) s.tapState u.tapState := by
  cases m with
  | serve k =>
    cases hk : s.net[k]? with
    | none => simp [System.attempt, hk] at h
    | some task =>
      simp only [System.attempt, hk] at h
      obtain ⟨task', hk', hserved⟩ := serve_served h
      rw [show (System.net { s with db := o.meanwhile task s.db }) = s.net from rfl, hk] at hk'
      cases hk'
      obtain ⟨h1, h2⟩ := served_tapState (o := o.grants)
        (s := { s with db := o.meanwhile task s.db }) hs hserved
      refine ⟨h1, ?_⟩
      rcases h2 with ⟨hnot, h2⟩ | h2
      · rw [meanwhile_not_tap hnot] at h2
        rw [h2]
      · exact .single h2.attempt
  | deliver k =>
    obtain ⟨h1, h2⟩ := deliver_tapState (o := o.grants) hs h
    refine ⟨h1, ?_⟩
    rcases h2 with h2 | h2
    · rw [h2]
    · exact .single h2.attempt_none

/-! ## fates -/

section
variable (o : Outcome) (found : Bool)

/-- whether the request will still lead to a write of the user's list -/
def usersFate : Task → Nat
  | .update _ _ .users _ _ _ => o.usersWrite.toNat
  | .read _ (.voteSecond _ _ _) => (found && o.usersWrite).toNat
  | .reply _ (.voteSecond _ _ _) => (found && o.usersWrite).toNat
  | _ => 0

def votesFate : Task → Nat
  | .update _ _ .votes _ _ _ => o.votesWrite.toNat
  | .read _ (.voteFirst _) => (found && o.votesWrite).toNat
  | .read _ (.voteSecond _ _ _) => (found && o.votesWrite).toNat
  | .reply _ (.voteFirst _) => (found && o.votesWrite).toNat
  | .reply _ (.voteSecond _ _ _) => (found && o.votesWrite).toNat
  | _ => 0

def votesSide : Task → Nat
  | .update _ _ .users _ _ _ => 0
  | _ => 1

def Path.usersTotal : Path → Nat
  | .first => o.usersWrite.toNat
  | .second _ => (found && o.usersWrite).toNat

end

/-- what is in flight once `tabOnCell`'s closure has run; `vote` is the document there was then -/
def GoingTask (t : Tap) (p : Path) (l : List Record) (found : Bool) (vote : Option Document)
    (db : Database) : Task → Prop
  | .update u _ .users document f _ => u = t ∧ document = t.emailString ∧ f = .userVotesList
  | .update u _ .votes document f _ =>
    u = t ∧ document = t.UUID ∧ f = .voteVariants ∧ ∃ d, db.votes.lookup t.UUID = some d
  | .read q k =>
    k = p.callback t l ∧ q = .votesWhere t.UUID ∧ db.votes.lookup t.UUID = vote
  | .reply r k => k = p.callback t l ∧ (found = false ∧ (r = .failed ∨ r = .ok []) ∨
      found = true ∧ ∃ d, r = .ok [d] ∧ db.votes.lookup t.UUID = some d)
  | _ => False

structure Going (o : Outcome) (db₀ : Database) (t : Tap) (p : Path) (l : List Record)
    (x : TapState) : Prop where
  keyed : x.db.WellKeyed
  user : ∃ d, x.db.users.lookup t.emailString = some d
  tasks : ∀ task ∈ x.net,
    GoingTask t p l (o.found db₀ t) (db₀.votes.lookup t.UUID) x.db task
  once : weigh votesSide x.net ≤ 1
  users : weigh (usersFate o (o.found db₀ t)) x.net
    + (logOf t.emailString x.usersLog).countP (writeBy id t) = p.usersTotal o (o.found db₀ t)
  votes : weigh (votesFate o (o.found db₀ t)) x.net
    + (logOf t.UUID x.votesLog).countP (writeBy Prod.fst t) = (o.found db₀ t && o.votesWrite).toNat

inductive Phase (o : Outcome) (db : Database) (t : Tap) : TapState → Prop where
  | asking : Phase o db t ⟨db, [.read (.usersWhere t.emailString) (.tabOnCell t)], [], []⟩
  | refused : o.usersRead = false → Phase o db t ⟨db, [.reply .failed (.tabOnCell t)], [], []⟩
  | answered : o.usersRead = true → Phase o db t
      ⟨db, [.reply (.ok (db.getDocuments (.usersWhere t.emailString))) (.tabOnCell t)],
        [(t.emailString, .read t)], []⟩
  | stopped {ul : List (String × Access Tap)}
      (h : o.usersRead = false ∨ db.users.lookup t.emailString = none)
      (hul : .write t ∉ logOf t.emailString ul) : Phase o db t ⟨db, [], ul, []⟩
  | going {x : TapState} {p : Path} (hread : o.usersRead = true)
      (huser : (db.users.lookup t.emailString).isSome = true)
      (hp : pathOf t.UUID (listOf db t.emailString) = .ok p)
      (h : Going o db t p (listOf db t.emailString) x) : Phase o db t x

section
variable {o : Outcome} {db₀ : Database} {t : Tap} {p : Path} {l : List Record}
  {found : Bool} {vote : Option Document}

theorem GoingTask.of_users {db db' : Database} {task : Task}
    (h : GoingTask t p l found vote db task) (hside : votesSide task = 0) :
    GoingTask t p l found vote db' task := by
  cases task with
  | update u p' c document f v =>
    cases c with
    | users => exact h
    | votes => cases hside
  | _ => cases hside

theorem GoingTask.of_votes {db db' : Database} {task : Task}
    (h : GoingTask t p l found vote db task) (hv : db'.votes = db.votes) :
    GoingTask t p l found vote db' task := by
  cases task with
  | update u p' c document f v =>
    cases c with
    | users => exact h
    | votes => exact ⟨h.1, h.2.1, h.2.2.1, by rw [hv]; exact h.2.2.2⟩
  | read q k => exact ⟨h.1, h.2.1, by rw [hv]; exact h.2.2⟩
  | reply r k => exact ⟨h.1, by rw [hv]; exact h.2⟩
  | _ => exact h

theorem rest_users {l₁ l₂ : List Task} {x : Task} (hx : votesSide x = 1)
    (h : weigh votesSide (l₁ ++ x :: l₂) ≤ 1) : ∀ y ∈ l₁ ++ l₂, votesSide y = 0 := by
  intro y hy
  obtain ⟨a, b, hab⟩ := List.append_of_mem hy
  have hsum : weigh votesSide (l₁ ++ x :: l₂) = votesSide x + weigh votesSide (l₁ ++ l₂) := by
    simp only [weigh_append, weigh_cons]
    omega
  rw [hsum, hab, weigh_append, weigh_cons] at h
  omega

@[simp] theorem usersFate_reply_vote (q : Query) (r : Reply) :
    usersFate o found (.reply r (p.callback t l)) = usersFate o found (.read q (p.callback t l)) := by
  cases p <;> rfl
@[simp] theorem votesFate_read_vote (q : Query) :
    votesFate o found (.read q (p.callback t l)) = (found && o.votesWrite).toNat := by
  cases p <;> rfl
@[simp] theorem votesFate_reply_vote (r : Reply) :
    votesFate o found (.reply r (p.callback t l)) = (found && o.votesWrite).toNat := by
  cases p <;> rfl
theorem usersFate_vote (r : Reply) (hfound : found = false) :
    usersFate o found (.reply r (p.callback t l)) = 0 := by
  subst hfound
  cases p <;> rfl

theorem grants_read_vote (q : Query) : o.grants (.read q (p.callback t l)) = o.votesRead := by
  cases p <;> rfl

theorem meanwhile_read_vote (q : Query) (db : Database) :
    o.meanwhile (.read q (p.callback t l)) db
      = if o.deleted then db.delete .votes t.UUID else db := by cases p <;> rfl

theorem deleted_wellKeyed {db : Database} (h : db.WellKeyed) (deleted : Bool) (V : String) :
    (if deleted then db.delete .votes V else db).WellKeyed := by
  cases deleted with
  | true => exact ⟨h.1.erase V, h.2⟩
  | false => exact h

theorem deleted_users (db : Database) (deleted : Bool) (V : String) :
    (if deleted then db.delete .votes V else db).users = db.users := by
  cases deleted <;> rfl

theorem find_vote_meanwhile {db : Database} (hk : db.WellKeyed)
    (hv : db.votes.lookup t.UUID = db₀.votes.lookup t.UUID) (hread : o.votesRead = true) :
    let db' := if o.deleted then db.delete .votes t.UUID else db
    o.found db₀ t = false ∧ db'.getDocuments (.votesWhere t.UUID) = [] ∨
      o.found db₀ t = true ∧ ∃ d, db'.getDocuments (.votesWhere t.UUID) = [d] ∧
        db'.votes.lookup t.UUID = some d := by
  intro db'
  have hget := (deleted_wellKeyed hk o.deleted t.UUID).find_vote t.UUID
  unfold Outcome.found
  rw [hread]
  cases hdel : o.deleted with
  | true =>
    have hnone : (db.delete .votes t.UUID).votes.lookup t.UUID = none :=
      AList.lookup_erase t.UUID db.votes
    simp only [hdel, if_true] at hget
    simp only [db', hdel, if_true]
    rw [hget, hnone]
    exact .inl ⟨by simp, rfl⟩
  | false =>
    simp only [hdel, Bool.false_eq_true, if_false] at hget
    rw [hv] at hget
    simp only [db', hdel, Bool.false_eq_true, if_false]
    cases hd : db₀.votes.lookup t.UUID with
    | none =>
      rw [hd] at hget
      exact .inl ⟨rfl, hget⟩
    | some d =>
      rw [hd] at hget
      exact .inr ⟨rfl, d, hget, hv.trans hd⟩

section
variable {db : Database} {l₁ l₂ : List Task} {q : Query} {k : Callback}
  {ul : List (String × Access Tap)} {vl : List (String × Access (Tap × Path))}

theorem Going.answer {r : Reply} (h : Going o db₀ t p l ⟨db, l₁ ++ .read q k :: l₂, ul, vl⟩)
    (hr : GoingTask t p l (o.found db₀ t) (db₀.votes.lookup t.UUID) (o.meanwhile (.read q k) db)
      (.reply r k)) :
    Going o db₀ t p l ⟨o.meanwhile (.read q k) db, l₁ ++ .reply r k :: l₂, ul, vl⟩ := by
  obtain ⟨rfl, rfl, hv⟩ := h.tasks _ (mem_middle.mpr (.inl rfl))
  rw [meanwhile_read_vote] at hr ⊢
  have hrest := rest_users (x := .read (.votesWhere t.UUID) (p.callback t l)) rfl h.once
  refine ⟨deleted_wellKeyed h.keyed _ _, ?_, fun task hm => ?_, ?_, ?_, ?_⟩
  · obtain ⟨d, hd⟩ := h.user
    exact ⟨d, by rw [deleted_users]; exact hd⟩
  · rcases mem_middle.mp hm with rfl | hm
    · exact hr
    · exact (h.tasks task (mem_middle.mpr (.inr hm))).of_users (hrest task hm)
  · have := h.once
    simpa only [weigh_append, weigh_cons, votesSide] using this
  · have := h.users
    simp only [weigh_append, weigh_cons] at this ⊢
    rw [usersFate_reply_vote (.votesWhere t.UUID)]
    exact this
  · have := h.votes
    simpa only [weigh_append, weigh_cons, votesFate_read_vote, votesFate_reply_vote] using this

theorem Going.read (h : Going o db₀ t p l ⟨db, l₁ ++ .read q k :: l₂, ul, vl⟩)
    (ho : o.grants (.read q k) = true) :
    Going o db₀ t p l ⟨o.meanwhile (.read q k) db,
      l₁ ++ .reply (.ok ((o.meanwhile (.read q k) db).getDocuments q)) k :: l₂,
      ul ++ k.usersRead, vl ++ k.votesRead⟩ := by
  obtain ⟨rfl, rfl, hv⟩ := h.tasks _ (mem_middle.mpr (.inl rfl))
  rw [grants_read_vote] at ho
  have hanswer := h.answer (r := .ok ((o.meanwhile (.read (.votesWhere t.UUID) (p.callback t l))
    db).getDocuments (.votesWhere t.UUID))) ⟨rfl, by
      rw [meanwhile_read_vote]
      rcases find_vote_meanwhile h.keyed hv ho with ⟨hf, hget⟩ | ⟨hf, d, hget, hd⟩
      · exact .inl ⟨hf, .inr (by rw [hget])⟩
      · exact .inr ⟨hf, d, by rw [hget], hd⟩⟩
  -- the access is recorded, and is no write
  rw [usersRead_callback, votesRead_callback, List.append_nil]
  refine ⟨hanswer.keyed, hanswer.user, hanswer.tasks, hanswer.once, hanswer.users, ?_⟩
  rw [countP_logOf_other _ _ _ _ _ rfl]
  exact hanswer.votes

theorem Going.readFails (h : Going o db₀ t p l ⟨db, l₁ ++ .read q k :: l₂, ul, vl⟩)
    (ho : o.grants (.read q k) = false) :
    Going o db₀ t p l ⟨o.meanwhile (.read q k) db, l₁ ++ .reply .failed k :: l₂, ul, vl⟩ := by
  obtain ⟨rfl, rfl, _⟩ := h.tasks _ (mem_middle.mpr (.inl rfl))
  rw [grants_read_vote] at ho
  have hfound : o.found db₀ t = false := by
    unfold Outcome.found
    rw [ho]; rfl
  exact h.answer ⟨rfl, .inl ⟨hfound, .inl rfl⟩⟩

end

section
variable {db db' : Database} {l₁ l₂ : List Task} {u : Tap} {p' : Path} {document : String}
  {f : Field} {v : Value} {ul : List (String × Access Tap)}
  {vl : List (String × Access (Tap × Path))}

theorem Going.writeUser (h : Going o db₀ t p l ⟨db, l₁ ++ .update u p' .users document f v :: l₂, ul, vl⟩)
    (ho : o.usersWrite = true) (hdb : db.updateData .users document f v = some db') :
    Going o db₀ t p l ⟨db', l₁ ++ l₂, ul ++ [(document, .write u)], vl⟩ := by
  have htask : GoingTask t p l (o.found db₀ t) (db₀.votes.lookup t.UUID) db
      (.update u p' .users document f v) := h.tasks _ (mem_middle.mpr (.inl rfl))
  obtain ⟨rfl, rfl, rfl⟩ := htask
  obtain ⟨d, hd, rfl⟩ := updateData_eq_some.mp hdb
  refine ⟨h.keyed.setUser ?_, ⟨_, AList.lookup_insert ..⟩, fun task hm => ?_, ?_, ?_, ?_⟩
  · rw [Function.update_of_ne (by decide)]
    exact h.keyed.2 _ d hd
  · exact (h.tasks task (mem_middle.mpr (.inr hm))).of_votes rfl
  · have := h.once
    simp only [weigh_append, weigh_cons] at this ⊢
    omega
  · have := h.users
    rw [countP_logOf_concat (writeBy id u) Tap.emailString u u _ _ (by simp [writeBy]), one_self]
    simp only [weigh_append, weigh_cons, usersFate, ho, Bool.toNat_true] at this ⊢
    omega
  · have := h.votes
    simpa only [weigh_append, weigh_cons, votesFate, Nat.zero_add] using this

theorem Going.writeVote (h : Going o db₀ t p l ⟨db, l₁ ++ .update u p' .votes document f v :: l₂, ul, vl⟩)
    (ho : o.votesWrite = true) (hdb : db.updateData .votes document f v = some db') :
    Going o db₀ t p l ⟨db', l₁ ++ l₂, ul, vl ++ [(document, .write (u, p'))]⟩ := by
  have htask : GoingTask t p l (o.found db₀ t) (db₀.votes.lookup t.UUID) db
      (.update u p' .votes document f v) := h.tasks _ (mem_middle.mpr (.inl rfl))
  obtain ⟨rfl, rfl, rfl, _⟩ := htask
  obtain ⟨d, hd, rfl⟩ := updateData_eq_some.mp hdb
  have hrest := rest_users (x := .update u p' .votes u.UUID .voteVariants v) rfl h.once
  refine ⟨h.keyed.setVote ?_, h.user, fun task hm => ?_, ?_, ?_, ?_⟩
  · rw [Function.update_of_ne (by decide)]
    exact h.keyed.1 _ d hd
  · exact (h.tasks task (mem_middle.mpr (.inr hm))).of_users (hrest task hm)
  · have := h.once
    simp only [weigh_append, weigh_cons] at this ⊢
    omega
  · have := h.users
    simpa only [weigh_append, weigh_cons, usersFate, Nat.zero_add] using this
  · have := h.votes
    rw [countP_logOf_concat (writeBy Prod.fst u) Tap.UUID u u _ _ (by simp [writeBy]), one_self]
    simp only [weigh_append, weigh_cons, votesFate, ho, Bool.toNat_true] at this ⊢
    omega

theorem Going.writeFails {c : CollectionId}
    (h : Going o db₀ t p l ⟨db, l₁ ++ .update u p' c document f v :: l₂, ul, vl⟩)
    (hf : o.grants (.update u p' c document f v) = false ∨ db.updateData c document f v = none) :
    Going o db₀ t p l ⟨db, l₁ ++ l₂, ul, vl⟩ := by
  have htask := h.tasks _ (mem_middle.mpr (.inl rfl))
  have hfate : usersFate o (o.found db₀ t) (.update u p' c document f v) = 0 ∧
      votesFate o (o.found db₀ t) (.update u p' c document f v) = 0 := by
    cases c with
    | users =>
      obtain ⟨_, rfl, _⟩ := htask
      obtain ⟨d, hd⟩ := h.user
      have hsome : (db.get .users).lookup t.emailString = some d := hd
      have ho : o.usersWrite = false := hf.resolve_right fun hnone => by
        rw [updateData_eq_none, hsome] at hnone
        cases hnone
      exact ⟨by simp [usersFate, ho], rfl⟩
    | votes =>
      obtain ⟨_, rfl, _, d, hd⟩ := htask
      have hsome : (db.get .votes).lookup t.UUID = some d := hd
      have ho : o.votesWrite = false := hf.resolve_right fun hnone => by
        rw [updateData_eq_none, hsome] at hnone
        cases hnone
      exact ⟨rfl, by simp [votesFate, ho]⟩
  refine ⟨h.keyed, h.user, fun task hm => h.tasks task (mem_middle.mpr (.inr hm)), ?_, ?_, ?_⟩
  · have := h.once
    simp only [weigh_append, weigh_cons] at this ⊢
    omega
  · have := h.users
    simp only [weigh_append, weigh_cons, hfate.1, Nat.zero_add] at this ⊢
    exact this
  · have := h.votes
    simp only [weigh_append, weigh_cons, hfate.2, Nat.zero_add] at this ⊢
    exact this

theorem Going.deliver {r : Reply} {k : Callback} {es : List Effect}
    (h : Going o db₀ t p l ⟨db, l₁ ++ .reply r k :: l₂, ul, vl⟩)
    (hrun : k.run (fun _ => []) r = .ok es) :
    Going o db₀ t p l ⟨db, l₁ ++ l₂ ++ es.flatMap Effect.tapTasks, ul, vl⟩ := by
  obtain ⟨rfl, hr⟩ := h.tasks _ (mem_middle.mpr (.inl rfl))
  have hvote : voteClosure p t l r = .ok es := by cases p <;> exact hrun
  have hrest := rest_users (x := .reply r (p.callback t l)) (by cases p <;> rfl) h.once
  have hzero : weigh votesSide (l₁ ++ l₂) = 0 := by
    have := h.once
    simp only [weigh_append, weigh_cons] at this ⊢
    have hx : votesSide (.reply r (p.callback t l)) = 1 := by cases p <;> rfl
    omega
  -- the new requests, and what they will lead to
  have hnew : (∀ y ∈ es.flatMap Effect.tapTasks,
        GoingTask t p l (o.found db₀ t) (db₀.votes.lookup t.UUID) db y) ∧
      weigh votesSide (es.flatMap Effect.tapTasks) ≤ 1 ∧
      weigh (usersFate o (o.found db₀ t)) (es.flatMap Effect.tapTasks)
        = usersFate o (o.found db₀ t) (.reply r (p.callback t l)) ∧
      weigh (votesFate o (o.found db₀ t)) (es.flatMap Effect.tapTasks)
        = votesFate o (o.found db₀ t) (.reply r (p.callback t l)) := by
    rcases hr with ⟨hf, hr⟩ | ⟨hf, d, rfl, hd⟩
    · have hnil : es.flatMap Effect.tapTasks = [] := by
        rcases hr with rfl | rfl
        · cases hvote; rfl
        · cases hvote; rfl
      rw [hnil, votesFate_reply_vote, usersFate_vote r hf, hf]
      exact ⟨fun y hy => absurd hy List.not_mem_nil, Nat.zero_le 1, rfl, rfl⟩
    · obtain ⟨writes, hw, rfl⟩ := voteClosure_ok_eq_ok.mp hvote
      rw [forDocuments_singleton, voteRound_eq_ok] at hw
      obtain ⟨array, array', _, _, rfl⟩ := hw
      rw [hf]
      cases p with
      | first =>
        refine ⟨fun y hy => ?_, Nat.le_refl 1, rfl, rfl⟩
        obtain rfl := List.mem_singleton.mp hy
        exact ⟨rfl, rfl, rfl, d, hd⟩
      | second extraIndex =>
        refine ⟨fun y hy => ?_, Nat.le_refl 1, ?_, rfl⟩
        · have hy' : y ∈ [Task.update t (.second extraIndex) .votes t.UUID .voteVariants
              (.records array'), .update t (.second extraIndex) .users t.emailString .userVotesList
              (.records (cast t.UUID t.index l))] := hy
          simp only [List.mem_cons, List.not_mem_nil, or_false] at hy'
          rcases hy' with rfl | rfl
          · exact ⟨rfl, rfl, rfl, d, hd⟩
          · exact ⟨rfl, rfl, rfl⟩
        · simp [Path.writes, Path.callback, Effect.tapTasks, usersFate]
  refine ⟨h.keyed, h.user, fun task hm => ?_, ?_, ?_, ?_⟩
  · rcases List.mem_append.mp hm with hm | hm
    · exact h.tasks task (mem_middle.mpr (.inr hm))
    · exact hnew.1 task hm
  · rw [weigh_append]
    have := hnew.2.1
    omega
  · have := h.users
    rw [weigh_append, hnew.2.2.1]
    simp only [weigh_append, weigh_cons] at this ⊢
    omega
  · have := h.votes
    rw [weigh_append, hnew.2.2.2]
    simp only [weigh_append, weigh_cons] at this ⊢
    omega

end

theorem middle_eq_singleton {α : Type} {l₁ l₂ : List α} {x a : α} (h : [a] = l₁ ++ x :: l₂) :
    l₁ = [] ∧ a = x ∧ l₂ = [] := by
  cases l₁ with
  | nil =>
    rw [List.nil_append] at h
    obtain ⟨hx, hl⟩ := List.cons.inj h
    exact ⟨rfl, hx, hl.symm⟩
  | cons y l₁ => simp at h

theorem Going.step {x y : TapState} (h : Going o db₀ t p l x) (hs : Attempt o x y) :
    Going o db₀ t p l y := by
  obtain ⟨db, net, ul, vl⟩ := x
  cases hs with
  | read hnet ho => cases hnet; exact h.read ho
  | readFails hnet ho => cases hnet; exact h.readFails ho
  | @write db' l₁ l₂ u p' c document f v hnet ho hdb =>
    cases hnet
    cases c with
    | users =>
      have := h.writeUser ho hdb
      simpa only [usersWrite, votesWrite, List.append_nil] using this
    | votes =>
      have := h.writeVote ho hdb
      simpa only [usersWrite, votesWrite, List.append_nil] using this
  | writeFails hnet hf => cases hnet; exact h.writeFails hf
  | deliver hnet hrun => cases hnet; exact h.deliver hrun

theorem going_start {d : Document} {es : List Effect} (hk : db₀.WellKeyed)
    (hd : db₀.users.lookup t.emailString = some d) (hes : tabOnCellRound t d = .ok es) :
    ∃ p, pathOf t.UUID (listOf db₀ t.emailString) = .ok p ∧
      Going o db₀ t p (listOf db₀ t.emailString)
        ⟨db₀, es.flatMap Effect.tapTasks, [(t.emailString, .read t)], []⟩ := by
  obtain ⟨arrays, p, ha, hp, rfl⟩ := tabOnCellRound_eq_ok.mp hes
  rw [listOf_eq hd ha]
  refine ⟨p, hp, hk, ⟨d, hd⟩, fun task hm => ?_, ?_, ?_, ?_⟩
  · cases p with
    | first =>
      have hm' : task ∈ [Task.update t .first .users t.emailString .userVotesList
          (.records (arrays ++ [ballot t.UUID t.index])),
          .read (.votesWhere t.UUID) (.voteFirst t)] := hm
      simp only [List.mem_cons, List.not_mem_nil, or_false] at hm'
      rcases hm' with rfl | rfl
      · exact ⟨rfl, rfl, rfl⟩
      · exact ⟨rfl, rfl, rfl⟩
    | second extraIndex =>
      obtain rfl := List.mem_singleton.mp hm
      exact ⟨rfl, rfl, rfl⟩
  · cases p <;> exact Nat.le_refl 1
  all_goals
    cases p <;> simp [Path.call, voteFirst, voteSecond, Effect.tapTasks, Callback.isTap, usersFate,
      votesFate, Path.usersTotal, logOf, writeBy]

theorem Phase.step (hk : db₀.WellKeyed) {x y : TapState} (h : Phase o db₀ t x)
    (hs : Attempt o x y) : Phase o db₀ t y := by
  cases h with
  | asking =>
    cases hs with
    | read hnet ho =>
      obtain ⟨rfl, e, rfl⟩ := middle_eq_singleton hnet
      cases e
      exact .answered ho
    | readFails hnet ho =>
      obtain ⟨rfl, e, rfl⟩ := middle_eq_singleton hnet
      cases e
      exact .refused ho
    | _ hnet => obtain ⟨_, e, _⟩ := middle_eq_singleton hnet; cases e
  | refused hr =>
    cases hs with
    | deliver hnet hrun =>
      obtain ⟨rfl, e, rfl⟩ := middle_eq_singleton hnet
      cases e
      cases hrun
      exact .stopped (.inl hr) (by simp)
    | _ hnet => obtain ⟨_, e, _⟩ := middle_eq_singleton hnet; cases e
  | answered hr =>
    cases hs with
    | deliver hnet hrun =>
      obtain ⟨rfl, e, rfl⟩ := middle_eq_singleton hnet
      cases e
      have hrun : tabOnCellClosure t (.ok (db₀.getDocuments (.usersWhere t.emailString))) = .ok _ :=
        hrun
      rw [hk.find_user, tabOnCellClosure_eq, Reply.withDocuments_ok] at hrun
      cases hd : db₀.users.lookup t.emailString with
      | none =>
        rw [hd] at hrun
        cases hrun
        exact .stopped (.inr hd) (by simp)
      | some d =>
        rw [hd, Option.toList_some, forDocuments_singleton] at hrun
        obtain ⟨p, hp, hgoing⟩ := going_start (o := o) hk hd hrun
        exact .going hr (by rw [hd]; rfl) hp hgoing
    | _ hnet => obtain ⟨_, e, _⟩ := middle_eq_singleton hnet; cases e
  | stopped h1 h2 =>
    cases hs with
    | _ hnet => simp at hnet
  | going hr hu hp h => exact .going hr hu hp (h.step hs)

end

/-! ## the whole tap -/

section
variable {o : Outcome} {db : Database} {t : Tap} {u : System}

theorem attempted_phase (hk : db.WellKeyed) (h : Attempted o db t u) : Phase o db t u.tapState := by
  obtain ⟨views, ms, hrun⟩ := h.run
  have hnet : ∀ x ∈ (System.tapping db [t] views).net, x.replaces = false := by
    intro x hx
    obtain ⟨v, _, rfl⟩ := List.mem_map.mp hx
    rfl
  have hsteps := Machine.exec_simulates (R := Attempt o) (System.attempt o) System.tapState
    (P := fun s => ∀ x ∈ s.net, x.replaces = false) (A := fun _ => True)
    (fun s m v hs _ hv => attempt_tapState hs hv) (fun _ _ => trivial) hrun hnet
  rw [tapping_tapState] at hsteps
  generalize u.tapState = y at hsteps
  induction hsteps with
  | refl => exact .asking
  | tail _ hstep ih => exact ih.step hk hstep

theorem Going.users_done {p : Path} {l : List Record} {x : TapState} (h : Going o db t p l x)
    (hnet : x.net = []) : (.write t ∈ logOf t.emailString x.usersLog) ↔
      p.usersTotal o (o.found db t) ≠ 0 := by
  have hu := h.users
  rw [hnet, weigh_nil, Nat.zero_add] at hu
  rw [← hu, ← Nat.pos_iff_ne_zero, List.countP_pos_iff]
  constructor
  · intro hm
    exact ⟨_, hm, by simp [writeBy]⟩
  · rintro ⟨a, hm, ha⟩
    cases a with
    | read _ => cases ha
    | write v =>
      obtain rfl : v = t := by simpa [writeBy] using ha
      exact hm

theorem Going.votes_done {p : Path} {l : List Record} {x : TapState} (h : Going o db t p l x)
    (hnet : x.net = []) : (∃ p, .write (t, p) ∈ logOf t.UUID x.votesLog) ↔
      (o.found db t && o.votesWrite) = true := by
  have hv := h.votes
  rw [hnet, weigh_nil, Nat.zero_add] at hv
  have hpos : (∃ p, .write (t, p) ∈ logOf t.UUID x.votesLog) ↔
      0 < (logOf t.UUID x.votesLog).countP (writeBy Prod.fst t) := by
    rw [List.countP_pos_iff]
    constructor
    · rintro ⟨p, hm⟩
      exact ⟨_, hm, by simp [writeBy]⟩
    · rintro ⟨a, hm, ha⟩
      cases a with
      | read _ => cases ha
      | write v =>
        obtain ⟨v, p⟩ := v
        obtain rfl : v = t := by simpa [writeBy] using ha
        exact ⟨p, hm⟩
  rw [hpos, hv]
  cases (o.found db t && o.votesWrite) <;> simp

/-- **Both writes take effect or neither iff the outcomes are `Whole`**, in every reachable database. -/
theorem allOrNothing_iff {s : System} {ls : List Label} (hrun : System.Run .initial ls s)
    (h : Attempted o s.db t u) : AllOrNothing t u ↔ o.Whole s.db t := by
  obtain ⟨size, hsound⟩ := run_sound hrun
  have hphase := attempted_phase hsound.docs.keyed h
  have hnet : u.tapState.net = [] := by
    show u.net.filter Task.isTap = []
    rw [List.filter_eq_nil_iff]
    intro task ht
    simp [h.done task ht]
  unfold AllOrNothing Outcome.Whole
  rw [show u.usersLog = u.tapState.usersLog from rfl, show u.votesLog = u.tapState.votesLog from rfl]
  generalize u.tapState = x at hphase hnet
  cases hphase with
  | asking => cases hnet
  | refused _ => cases hnet
  | answered _ => cases hnet
  | stopped hstop hul =>
    constructor
    · intro _ hr hu
      rcases hstop with hstop | hstop
      · rw [hstop] at hr; cases hr
      · rw [hstop] at hu; cases hu
    · intro _
      exact ⟨fun hm => absurd hm hul, fun ⟨p, hm⟩ => by cases hm⟩
  | @going _ p hr hu hp hg =>
    rw [hg.users_done hnet, hg.votes_done hnet]
    simp only [hr, hu, true_implies]
    cases p with
    | first =>
      rw [if_pos (pathOf_eq_first.mp hp)]
      show (o.usersWrite.toNat ≠ 0 ↔ _) ↔ _
      cases o.usersWrite <;> cases (o.found s.db t && o.votesWrite) <;> simp
    | second extraIndex =>
      have hne : entries t.UUID (listOf s.db t.emailString) ≠ [] := by
        intro he
        rw [pathOf_eq_first.mpr he] at hp
        cases hp
      rw [if_neg hne]
      show ((o.found s.db t && o.usersWrite).toNat ≠ 0 ↔ _) ↔ _
      cases o.found s.db t <;> cases o.usersWrite <;> cases o.votesWrite <;> simp

end

/-! ## a first vote whose second read fails -/

/-- what the moves `ms` leave of the tap, with no screen open -/
def System.tried (o : Outcome) (db : Database) (t : Tap) (ms : List Move) : System :=
  (Machine.exec (System.attempt o) (System.tapping db [t] []) ms).getD .initial

theorem attempted_tried {o : Outcome} {db : Database} {t : Tap} {ms : List Move}
    (h : (Machine.exec (System.attempt o) (System.tapping db [t] []) ms).map System.net
      = some []) : Attempted o db t (System.tried o db t ms) := by
  obtain ⟨u, hu, hnet⟩ := Option.map_eq_some_iff.mp h
  have htried : System.tried o db t ms = u := by
    unfold System.tried
    rw [hu]; rfl
  rw [htried]
  refine ⟨⟨[], ms, hu⟩, fun task ht => ?_⟩
  rw [hnet] at ht
  cases ht

def firstTap : Tap := ⟨0, 0, "a", 1, "v"⟩

def allGranted : Outcome := ⟨true, true, false, true, true⟩
def votesReadFails : Outcome := ⟨true, false, false, true, true⟩

def grantedMoves : List Move := [.serve 0, .deliver 0, .serve 0, .serve 0, .deliver 0, .serve 0]
def failingMoves : List Move := [.serve 0, .deliver 0, .serve 0, .serve 0, .deliver 0]

theorem allOrNothing_granted :
    AllOrNothing firstTap (System.tried allGranted (System.after tapping).db firstTap grantedMoves) ↔
      allGranted.Whole (System.after tapping).db firstTap :=
  allOrNothing_iff (run_after tapping (by decide)) (attempted_tried rfl)

/-- **The list has the ballot, and the vote has not been counted.** -/
theorem half_done :
    System.Run .initial tapping (System.after tapping) ∧
    Attempted votesReadFails (System.after tapping).db firstTap
      (System.tried votesReadFails (System.after tapping).db firstTap failingMoves) ∧
    ¬ AllOrNothing firstTap
      (System.tried votesReadFails (System.after tapping).db firstTap failingMoves) := by
  refine ⟨run_after tapping (by decide), attempted_tried rfl, fun h => ?_⟩
  have husers : .write firstTap ∈ logOf "a"
      (System.tried votesReadFails (System.after tapping).db firstTap failingMoves).usersLog := by
    decide
  obtain ⟨p, hp⟩ := h.mp husers
  cases hp

end VoteOnOffice
