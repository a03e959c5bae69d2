import VoteOnOffice.App.System
import VoteOnOffice.Taps.Path

/-!
# The part of a system that taps work on

The reloads of the screens only read, and no tap reads what a screen shows.  So a run in which nobody
signs up, composes or deletes is, for the taps, a run of a smaller machine:

* `TapState`           the database, the requests and answers of taps in flight, the histories;
* `TapStep o`          its steps, where `o` says which requests the server grants;
* `System.proceed o`   the steps of the system in which no user acts;
* `run_tapState`       **every run of the system is, seen through `System.tapState`, a run of
                       `TapStep`** (steps of the screens leave the view unchanged).
-/

namespace VoteOnOffice
open Lineage

structure TapState where
  db : Database
  net : List Task
  usersLog : List (String × Access Tap)
  votesLog : List (String × Access (Tap × Path))

def Callback.isTap : Callback → Bool
  | .tabOnCell _ => true
  | .voteFirst _ => true
  | .voteSecond _ _ _ => true
  | _ => false

def Task.isTap : Task → Bool
  | .read _ k => k.isTap
  | .update .. => true
  | .set .. => false
  | .delete .. => false
  | .reply _ k => k.isTap

/-- `setData` and `delete` -/
def Task.replaces : Task → Bool
  | .set .. => true
  | .delete .. => true
  | _ => false

def Effect.tapTasks : Effect → List Task
  | .getDocuments q k => if k.isTap then [.read q k] else []
  | .updateData t p c document f v => [.update t p c document f v]
  | _ => []

def System.tapState (s : System) : TapState :=
  ⟨s.db, s.net.filter Task.isTap, s.usersLog, s.votesLog⟩

/-- the steps of taps when the server grants the requests that `o` says; the label is the request
that is served, if the step serves one -/
inductive TapStep (o : Task → Bool) : TapState → Option Task → TapState → Prop where
  | read {db : Database} {l₁ l₂ : List Task} {q : Query} {k : Callback}
      {ul : List (String × Access Tap)} {vl : List (String × Access (Tap × Path))}
      (ho : o (.read q k) = true) :
      TapStep o ⟨db, l₁ ++ .read q k :: l₂, ul, vl⟩ (some (.read q k))
        ⟨db, l₁ ++ .reply (.ok (db.getDocuments q)) k :: l₂, ul ++ k.usersRead, vl ++ k.votesRead⟩
  | readFails {db : Database} {l₁ l₂ : List Task} {q : Query} {k : Callback}
      {ul : List (String × Access Tap)} {vl : List (String × Access (Tap × Path))}
      (ho : o (.read q k) = false) :
      TapStep o ⟨db, l₁ ++ .read q k :: l₂, ul, vl⟩ (some (.read q k))
        ⟨db, l₁ ++ .reply .failed k :: l₂, ul, vl⟩
  | write {db db' : Database} {l₁ l₂ : List Task} {t : Tap} {p : Path} {c : CollectionId}
      {document : String} {f : Field} {v : Value}
      {ul : List (String × Access Tap)} {vl : List (String × Access (Tap × Path))}
      (ho : o (.update t p c document f v) = true) (h : db.updateData c document f v = some db') :
      TapStep o ⟨db, l₁ ++ .update t p c document f v :: l₂, ul, vl⟩
        (some (.update t p c document f v))
        ⟨db', l₁ ++ l₂, ul ++ usersWrite t c document, vl ++ votesWrite t p c document⟩
  | writeFails {db : Database} {l₁ l₂ : List Task} {t : Tap} {p : Path} {c : CollectionId}
      {document : String} {f : Field} {v : Value}
      {ul : List (String × Access Tap)} {vl : List (String × Access (Tap × Path))}
      (h : o (.update t p c document f v) = false ∨ db.updateData c document f v = none) :
      TapStep o ⟨db, l₁ ++ .update t p c document f v :: l₂, ul, vl⟩
        (some (.update t p c document f v)) ⟨db, l₁ ++ l₂, ul, vl⟩
  | deliver {db : Database} {l₁ l₂ : List Task} {r : Reply} {k : Callback} {es : List Effect}
      {ul : List (String × Access Tap)} {vl : List (String × Access (Tap × Path))}
      (hk : k.isTap = true) (h : k.run (fun _ => []) r = .ok es) :
      TapStep o ⟨db, l₁ ++ .reply r k :: l₂, ul, vl⟩ none
        ⟨db, l₁ ++ l₂ ++ es.flatMap Effect.tapTasks, ul, vl⟩

/-! ## moves -/

inductive Move where
  | serve (k : Nat)
  | deliver (k : Nat)
  deriving DecidableEq, Repr

/-- a step in which no user acts; the server grants the requests that `o` says -/
def System.proceed (o : Task → Bool) (s : System) : Move → Option System
  | .serve k =>
    match s.net[k]? with
    | none => none
    | some task => s.serve k (o task)
  | .deliver k => s.deliver k

/-! ## effects -/

theorem Callback.run_isTap {k : Callback} (hk : k.isTap = true)
    (a b : Nat → List DataVoteCell) (r : Reply) : k.run a r = k.run b r := by
  cases k <;> first | rfl | cases hk

theorem reloads_isTap (s : System) (view : Nat) : ∀ task ∈ s.reloads view, task.isTap = false := by
  intro task ht
  unfold System.reloads at ht
  cases hv : s.views[view]? with
  | none => rw [hv] at ht; cases ht
  | some v => rw [hv] at ht; rw [List.eq_of_mem_replicate ht]; rfl

theorem newTasks_filter (s : System) (e : Effect) :
    (s.newTasks e).filter Task.isTap = e.tapTasks := by
  cases e with
  | getDocuments q k => cases h : k.isTap <;> simp [System.newTasks, Effect.tapTasks, Task.isTap, h]
  | updateData t p c document f v => rfl
  | selectRow view row =>
    show (s.reloads view).filter Task.isTap = []
    rw [List.filter_eq_nil_iff]
    intro task ht
    rw [reloads_isTap s view task ht]
    exact Bool.false_ne_true
  | titleString view x => rfl
  | descriptionString view x => rfl
  | arr view variants => rfl
  | adminStatus main status => rfl
  | items main itemsDtc => rfl

theorem performAll_tapState (s : System) (es : List Effect) :
    (s.performAll es).tapState =
      { s.tapState with net := s.tapState.net ++ es.flatMap Effect.tapTasks } := by
  induction es generalizing s with
  | nil => simp [System.performAll]
  | cons e es ih =>
    show ((s.perform e).performAll es).tapState = _
    rw [ih]
    simp [System.tapState, System.perform, List.filter_append, newTasks_filter]

theorem newTasks_replaces (s : System) (e : Effect) :
    ∀ task ∈ s.newTasks e, task.replaces = false := by
  intro task ht
  cases e with
  | getDocuments q k => rw [List.mem_singleton.mp ht]; rfl
  | updateData t p c document f v => rw [List.mem_singleton.mp ht]; rfl
  | selectRow view row =>
    have ht' : task ∈ s.reloads view := ht
    unfold System.reloads at ht'
    cases hv : s.views[view]? with
    | none => rw [hv] at ht'; cases ht'
    | some v => rw [hv] at ht'; rw [List.eq_of_mem_replicate ht']; rfl
  | _ => cases ht

theorem performAll_replaces {s : System} (es : List Effect)
    (h : ∀ task ∈ s.net, task.replaces = false) :
    ∀ task ∈ (s.performAll es).net, task.replaces = false := by
  induction es generalizing s with
  | nil => exact h
  | cons e es ih =>
    refine ih (s := s.perform e) fun task ht => ?_
    rcases List.mem_append.mp ht with ht | ht
    · exact h task ht
    · exact newTasks_replaces s e task ht

theorem run_not_tap {k : Callback} (hk : k.isTap = false) {itemsDtc : Nat → List DataVoteCell}
    {r : Reply} {es : List Effect} (h : k.run itemsDtc r = .ok es) :
    es.flatMap Effect.tapTasks = [] := by
  rw [List.flatMap_eq_nil_iff]
  intro e he
  cases k with
  | tabOnCell t => cases hk
  | voteFirst t => cases hk
  | voteSecond t arrays extraIndex => cases hk
  | reloadViewData view emailString UUID =>
    rcases reloadViewDataClosure_mem h he with rfl | ⟨_, rfl⟩ | ⟨_, rfl⟩ | ⟨_, _, _, _, _, _, rfl⟩ <;>
      rfl
  | reloadUsers view UUID =>
    obtain ⟨_, _, _, _, _, _, _, row, rfl⟩ := reloadUsersClosure_mem h he
    rfl
  | readDataBase main emailString =>
    obtain ⟨_, _, _, _, rfl⟩ := readDataBaseClosure_mem h he
    rfl
  | readUsers main dtc =>
    rcases readUsersClosure_mem h he with ⟨_, rfl⟩ | ⟨_, rfl⟩ <;> rfl
  | itemsDelete main index UUID =>
    obtain ⟨_, rfl⟩ := itemsDeleteClosure_mem h he
    rfl

/-! ## the view of a step -/

theorem filter_cons_tap {l₁ l₂ : List Task} {x : Task} (h : x.isTap = true) :
    (l₁ ++ x :: l₂).filter Task.isTap
      = l₁.filter Task.isTap ++ x :: l₂.filter Task.isTap := by
  rw [List.filter_append, List.filter_cons_of_pos h]

theorem filter_cons_not_tap {l₁ l₂ : List Task} {x : Task} (h : x.isTap = false) :
    (l₁ ++ x :: l₂).filter Task.isTap = l₁.filter Task.isTap ++ l₂.filter Task.isTap := by
  rw [List.filter_append, List.filter_cons_of_neg (by simp [h])]

theorem usersRead_not_tap {k : Callback} (hk : k.isTap = false) : k.usersRead = [] := by
  cases k <;> first | rfl | cases hk

theorem votesRead_not_tap {k : Callback} (hk : k.isTap = false) : k.votesRead = [] := by
  cases k <;> first | rfl | cases hk

section
variable {o : Task → Bool} {s u : System}

theorem served_tapState {task : Task} (hs : ∀ x ∈ s.net, x.replaces = false)
    (h : Served s task (o task) u) :
    (∀ x ∈ u.net, x.replaces = false) ∧
      (task.isTap = false ∧ u.tapState = s.tapState ∨
        TapStep o s.tapState (some task) u.tapState) := by
  generalize hok : o task = ok at h
  have hsub : ∀ {l₁ l₂ : List Task} {x : Task}, s.net = l₁ ++ x :: l₂ →
      ∀ y ∈ l₁ ++ l₂, y.replaces = false := by
    intro l₁ l₂ x hnet y hy
    refine hs y ?_
    rw [hnet]
    exact mem_middle.mpr (.inr hy)
  have hno : ∀ {l₁ l₂ : List Task} {x : Task}, s.net = l₁ ++ x :: l₂ → x.replaces = false :=
    fun hnet => hs _ (by rw [hnet]; exact List.mem_append_right _ List.mem_cons_self)
  have hput : ∀ {l₁ l₂ : List Task} {x : Task}, s.net = l₁ ++ x :: l₂ →
      ∀ r k, ∀ y ∈ l₁ ++ .reply r k :: l₂, y.replaces = false := by
    intro l₁ l₂ x hnet r k y hy
    rcases List.mem_append.mp hy with hy' | hy'
    · exact hsub hnet y (List.mem_append_left _ hy')
    · rcases List.mem_cons.mp hy' with rfl | hy'
      · rfl
      · exact hsub hnet y (List.mem_append_right _ hy')
  cases h with
  | @read l₁ l₂ q k hnet =>
    refine ⟨hput hnet _ k, ?_⟩
    cases hk : k.isTap with
    | true =>
      right
      simp only [System.tapState, hnet, filter_cons_tap (x := .read q k) hk,
        filter_cons_tap (x := .reply (.ok (s.db.getDocuments q)) k) hk]
      exact .read hok
    | false =>
      refine .inl ⟨hk, ?_⟩
      simp only [System.tapState, hnet, filter_cons_not_tap (x := .read q k) hk,
        filter_cons_not_tap (x := .reply (.ok (s.db.getDocuments q)) k) hk, usersRead_not_tap hk,
        votesRead_not_tap hk, List.append_nil]
  | @readFails l₁ l₂ q k hnet =>
    refine ⟨hput hnet _ k, ?_⟩
    cases hk : k.isTap with
    | true =>
      right
      simp only [System.tapState, hnet, filter_cons_tap (x := .read q k) hk,
        filter_cons_tap (x := .reply .failed k) hk]
      exact .readFails hok
    | false =>
      refine .inl ⟨hk, ?_⟩
      simp only [System.tapState, hnet, filter_cons_not_tap (x := .read q k) hk,
        filter_cons_not_tap (x := .reply .failed k) hk]
  | @update l₁ l₂ t p c document f v db hnet hdb =>
    refine ⟨hsub hnet, .inr ?_⟩
    simp only [System.tapState, hnet, filter_cons_tap (x := .update t p c document f v) rfl,
      List.filter_append]
    exact .write hok hdb
  | @updateFails l₁ l₂ t p c document f v _ hnet hdb =>
    refine ⟨hsub hnet, .inr ?_⟩
    simp only [System.tapState, hnet, filter_cons_tap (x := .update t p c document f v) rfl,
      List.filter_append]
    exact .writeFails (by rw [hok]; exact hdb)
  | set hnet => cases hno hnet
  | setFails hnet => cases hno hnet
  | delete hnet => cases hno hnet
  | deleteFails hnet => cases hno hnet

theorem deliver_tapState {k : Nat} (hs : ∀ x ∈ s.net, x.replaces = false)
    (h : s.deliver k = some u) :
    (∀ x ∈ u.net, x.replaces = false) ∧
      (u.tapState = s.tapState ∨ TapStep o s.tapState none u.tapState) := by
  obtain ⟨l₁, l₂, r, cb, es, hnet, hrun, rfl⟩ := deliver_delivered h
  refine ⟨performAll_replaces es fun x hx => hs x ?_, ?_⟩
  · rw [hnet]
    exact mem_middle.mpr (.inr hx)
  · rw [performAll_tapState]
    simp only [System.tapState, List.filter_append, hnet]
    cases hk : cb.isTap with
    | true =>
      right
      rw [Callback.run_isTap hk _ (fun _ => [])] at hrun
      rw [List.filter_cons_of_pos (show Task.isTap (.reply r cb) = true from hk)]
      exact .deliver hk hrun
    | false =>
      left
      rw [List.filter_cons_of_neg (by simp [Task.isTap, hk]), run_not_tap hk hrun,
        List.append_nil]

theorem proceed_tapState {m : Move} (hs : ∀ x ∈ s.net, x.replaces = false)
    (h : s.proceed o m = some u) :
    (∀ x ∈ u.net, x.replaces = false) ∧
      (u.tapState = s.tapState ∨ ∃ served, TapStep o s.tapState served u.tapState) := by
  cases m with
  | serve k =>
    cases hk : s.net[k]? with
    | none => simp [System.proceed, hk] at h
    | some task =>
      simp only [System.proceed, hk] at h
      obtain ⟨task', hk', hserved⟩ := serve_served h
      rw [hk] at hk'
      cases hk'
      obtain ⟨h1, h2⟩ := served_tapState hs hserved
      exact ⟨h1, h2.imp And.right fun h => ⟨_, h⟩⟩
  | deliver k =>
    obtain ⟨h1, h2⟩ := deliver_tapState (o := o) hs h
    exact ⟨h1, h2.imp_right fun h => ⟨_, h⟩⟩

/-- **Every run of the system is, for the taps, a run of `TapStep`.** -/
theorem run_tapState {ms : List Move} (hs : ∀ x ∈ s.net, x.replaces = false)
    (h : Machine.exec (System.proceed o) s ms = some u) :
    Relation.ReflTransGen (fun x y => ∃ served, TapStep o x served y) s.tapState u.tapState := by
  refine Machine.exec_simulates _ System.tapState (P := fun s => ∀ x ∈ s.net, x.replaces = false)
    (A := fun _ => True) (fun s m t hs _ ht => ?_) (fun _ _ => trivial) h hs
  obtain ⟨h1, h2⟩ := proceed_tapState hs ht
  refine ⟨h1, ?_⟩
  rcases h2 with h2 | h2
  · rw [h2]
  · exact .single h2

end

end VoteOnOffice
