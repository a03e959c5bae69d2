import VoteOnOffice.Records.History

/-!
# How long documents live

A document is written once under its id: a vote under a new UUID, a user under an e-mail that
`createUser` has accepted.

* `System.pending`     how many first writes of a document are in flight;
* `step_pending`, `step_lives`
                       a step neither writes a document again nor brings one back, unless it issues
                       the id;
* `gone_for_good`      a vote that has been deleted never comes back, whatever is still in flight;
* `role_last`          a user's role is the last one that was set from outside, `false` before that;
* `vanished_deleted`   a vote disappears only because an admin deleted the row that showed it.
-/

namespace VoteOnOffice

/-- the ids that a label issues -/
def Label.issues : CollectionId → Label → List String
  | .votes, l => l.uuid
  | .users, .signUp email => [email]
  | .users, _ => []

def System.issued (s : System) : CollectionId → List String
  | .votes => s.uuids
  | .users => s.accounts

def setsOf (c : CollectionId) (id : String) : Task → Nat
  | .set c' id' _ => if c' = c ∧ id' = id then 1 else 0
  | _ => 0

def System.pending (s : System) (c : CollectionId) (id : String) : Nat :=
  weigh (setsOf c id) s.net

/-- one for the document if it is there, and one for every first write in flight -/
def System.lives (s : System) (c : CollectionId) (id : String) : Nat :=
  ((s.db.get c).lookup id).isSome.toNat + s.pending c id

/-! ## the database -/

theorem lookup_setData (db : Database) (c : CollectionId) (document : String) (d : Document)
    (c' : CollectionId) (id : String) :
    ((db.setData c document d).get c').lookup id =
      if c = c' ∧ document = id then some d else (db.get c').lookup id := by
  have hinsert : ∀ C : Collection, (C.insert document d).lookup id =
      if document = id then some d else C.lookup id := fun C => by
    by_cases h : document = id
    · rw [if_pos h, h, AList.lookup_insert]
    · rw [if_neg h, AList.lookup_insert_ne (Ne.symm h)]
  cases c <;> cases c' <;> simp [Database.setData, Database.get, Database.put, hinsert]

theorem users_setData (db : Database) (document : String) (d : Document) (email : String) :
    (db.setData .users document d).users.lookup email =
      if document = email then some d else db.users.lookup email := by
  have h := lookup_setData db .users document d .users email
  simpa only [true_and, Database.get] using h

theorem lookup_delete (db : Database) (document : String) (c : CollectionId) (id : String) :
    ((db.delete .votes document).get c).lookup id =
      if c = .votes ∧ document = id then none else (db.get c).lookup id := by
  cases c with
  | users => simp [Database.delete, Database.get, Database.put]
  | votes =>
    show (db.votes.erase document).lookup id = _
    by_cases h : document = id
    · rw [if_pos ⟨rfl, h⟩, h, AList.lookup_erase]
    · rw [if_neg (fun e => h e.2), AList.lookup_erase_ne (Ne.symm h)]
      rfl

theorem isSome_updateData {db db' : Database} {c : CollectionId} {document : String} {f : Field}
    {v : Value} (h : db.updateData c document f v = some db') (c' : CollectionId) (id : String) :
    ((db'.get c').lookup id).isSome = ((db.get c').lookup id).isSome := by
  obtain ⟨d, hd, rfl⟩ := updateData_eq_some.mp h
  rw [lookup_setData]
  by_cases hid : c = c' ∧ document = id
  · obtain ⟨rfl, rfl⟩ := hid
    rw [if_pos ⟨rfl, rfl⟩, hd]
    rfl
  · rw [if_neg hid]

/-! ## steps -/

theorem perform_pending (s : System) (e : Effect) (c : CollectionId) (id : String) :
    (s.perform e).pending c id = s.pending c id := by
  have hnone : weigh (setsOf c id) (s.newTasks e) = 0 := by
    cases e with
    | selectRow view row =>
      show weigh _ (s.reloads view) = 0
      unfold System.reloads
      cases s.views[view]? with
      | none => rfl
      | some v =>
        show weigh _ (List.replicate _ _) = 0
        induction v.subscriptions * v.subscriptions with
        | zero => rfl
        | succ n ih => rw [List.replicate_succ, weigh_cons, ih]; rfl
    | _ => rfl
  show weigh _ (s.net ++ s.newTasks e) = weigh _ s.net
  rw [weigh_append, hnone, Nat.add_zero]

theorem lives_performAll (s : System) (es : List Effect) (c : CollectionId) (id : String) :
    (s.performAll es).pending c id = s.pending c id ∧
      (s.performAll es).lives c id = s.lives c id := by
  have hp := performAll_keeps (fun s => s.pending c id) (fun s e => perform_pending s e c id) s es
  refine ⟨hp, ?_⟩
  unfold System.lives
  rw [performAll_keeps System.db (fun _ _ => rfl) s es]
  exact congrArg _ hp

theorem weigh_middle (w : Task → Nat) (l₁ l₂ : List Task) (x : Task) :
    weigh w (l₁ ++ x :: l₂) = w x + weigh w (l₁ ++ l₂) := by
  rw [weigh_append, weigh_cons, weigh_append]
  omega

theorem served_lives {s u : System} {task : Task} {ok : Bool} (h : Served s task ok u)
    (c : CollectionId) (id : String) :
    u.pending c id ≤ s.pending c id ∧ u.lives c id ≤ s.lives c id := by
  cases h with
  | read hnet => simp [System.lives, System.pending, hnet, setsOf]
  | readFails hnet => simp [System.lives, System.pending, hnet, setsOf]
  | update hnet hdb => simp [System.lives, System.pending, hnet, setsOf, isSome_updateData hdb]
  | updateFails hnet _ => simp [System.lives, System.pending, hnet, setsOf]
  | @set _ _ c' document d hnet =>
    simp only [System.lives, System.pending, hnet, weigh_middle, setsOf, lookup_setData]
    by_cases hid : c' = c ∧ document = id
    · rw [if_pos hid, if_pos hid]
      have hone : (some d).isSome.toNat = 1 := rfl
      omega
    · rw [if_neg hid, if_neg hid]
      omega
  | setFails hnet =>
    simp only [System.lives, System.pending, hnet, weigh_middle]
    omega
  | @delete _ _ document k hnet =>
    simp only [System.lives, System.pending, hnet, weigh_middle, setsOf, lookup_delete]
    by_cases hid : c = .votes ∧ document = id
    · rw [if_pos hid]
      have hzero : (none : Option Document).isSome.toNat = 0 := rfl
      omega
    · rw [if_neg hid]
      omega
  | deleteFails hnet => simp [System.lives, System.pending, hnet, setsOf]

section
variable {s u : System} {l : Label}

theorem step_issued (h : s.step l = some u) (c : CollectionId) :
    u.issued c = l.issues c ++ s.issued c ∧ ∀ id ∈ l.issues c, id ∉ s.issued c := by
  cases c with
  | votes => exact step_uuids h
  | users =>
    have hsame : l.issues .users = [] → u.accounts = s.accounts →
        u.accounts = l.issues .users ++ s.accounts ∧ ∀ e ∈ l.issues .users, e ∉ s.accounts := by
      intro hl hu
      rw [hl, hu]
      exact ⟨rfl, fun e he => absurd he List.not_mem_nil⟩
    cases l with
    | signUp email =>
      obtain ⟨hnew, rfl | rfl⟩ := step_signUp h <;>
        exact ⟨rfl, fun e he => List.mem_singleton.mp he ▸ hnew⟩
    | addNewVote title description voteDate uuid items cellForRow =>
      obtain ⟨_, _, _, _, rfl⟩ := step_addNewVote h
      exact hsame rfl rfl
    | serve k ok =>
      obtain ⟨task, _, hserved⟩ := serve_served h
      exact hsame rfl (by cases hserved <;> rfl)
    | deliver k =>
      obtain ⟨l₁, l₂, r, cb, es, _, _, rfl⟩ := deliver_delivered h
      exact hsame rfl (performAll_keeps System.accounts (fun _ _ => rfl) _ es)
    | openVote email UUID => cases h; exact hsame rfl rfl
    | openMain email => cases h; exact hsame rfl rfl
    | voteWillAppear view => obtain ⟨v, _, rfl⟩ := step_voteWillAppear h; exact hsame rfl rfl
    | tap view row => obtain ⟨v, _, _, rfl⟩ := step_tap h; exact hsame rfl rfl
    | mainWillAppear main => obtain ⟨m, _, _, rfl⟩ := step_mainWillAppear h; exact hsame rfl rfl
    | mainWillDisappear main =>
      obtain ⟨m, _, _, rfl⟩ := step_mainWillDisappear h
      exact hsame rfl rfl
    | deleteRow main row =>
      obtain ⟨m, dtc, _, _, _, rfl⟩ := step_deleteRow h
      exact hsame rfl rfl
    | setUserRole email role => obtain ⟨db, _, rfl⟩ := step_setUserRole h; exact hsame rfl rfl

/-- **A step adds at most the first write of an id that it issues.** -/
theorem step_lives (h : s.step l = some u) (c : CollectionId) (id : String) :
    u.pending c id ≤ s.pending c id + (if id ∈ l.issues c then 1 else 0) ∧
      u.lives c id ≤ s.lives c id + (if id ∈ l.issues c then 1 else 0) := by
  have hless : u.pending c id ≤ s.pending c id ∧ u.lives c id ≤ s.lives c id →
      u.pending c id ≤ s.pending c id + (if id ∈ l.issues c then 1 else 0) ∧
        u.lives c id ≤ s.lives c id + (if id ∈ l.issues c then 1 else 0) := fun hle =>
    ⟨Nat.le_add_right_of_le hle.1, Nat.le_add_right_of_le hle.2⟩
  -- the screens do not write documents, and their requests do not create any
  have hperform : ∀ {t : System} {e : Effect}, u = t.perform e → t.db = s.db → t.net = s.net →
      u.pending c id ≤ s.pending c id ∧ u.lives c id ≤ s.lives c id := by
    rintro t e rfl hdb hnet
    have hp : (t.perform e).pending c id = s.pending c id := by
      rw [perform_pending]
      unfold System.pending
      rw [hnet]
    refine ⟨Nat.le_of_eq hp, ?_⟩
    unfold System.lives
    rw [hp]
    show ((t.db.get c).lookup id).isSome.toNat + _ ≤ _
    rw [hdb]
  -- a first write joins what is in flight
  have hset : ∀ {d : Document} {c' : CollectionId} {id' : String}, u.db = s.db →
      u.net = s.net ++ [.set c' id' d] → (c' = c ∧ id' = id → id ∈ l.issues c) →
      u.pending c id ≤ s.pending c id + (if id ∈ l.issues c then 1 else 0) ∧
        u.lives c id ≤ s.lives c id + (if id ∈ l.issues c then 1 else 0) := by
    intro d c' id' hdb hnet hissue
    have hp : u.pending c id = s.pending c id + (if c' = c ∧ id' = id then 1 else 0) := by
      unfold System.pending
      rw [hnet, weigh_append, weigh_cons, weigh_nil]
      rfl
    unfold System.lives
    rw [hdb, hp]
    by_cases hid : c' = c ∧ id' = id
    · rw [if_pos hid, if_pos (hissue hid)]
      omega
    · rw [if_neg hid]
      omega
  cases l with
  | serve k ok =>
    obtain ⟨task, _, hserved⟩ := serve_served h
    exact hless (served_lives hserved c id)
  | deliver k =>
    obtain ⟨l₁, l₂, r, cb, es, hnet, _, rfl⟩ := deliver_delivered h
    obtain ⟨hp, hl⟩ := lives_performAll { s with net := l₁ ++ l₂ } es c id
    refine hless ?_
    rw [hp, hl]
    simp only [System.lives, System.pending, hnet, weigh_middle]
    omega
  | openVote email UUID => cases h; exact hless ⟨Nat.le_refl _, Nat.le_refl _⟩
  | openMain email => cases h; exact hless ⟨Nat.le_refl _, Nat.le_refl _⟩
  | voteWillAppear view =>
    obtain ⟨v, _, rfl⟩ := step_voteWillAppear h
    refine hless ?_
    simp [System.lives, System.pending, VoteView.reload, setsOf]
  | tap view row => obtain ⟨v, _, _, hu⟩ := step_tap h; exact hless (hperform hu rfl rfl)
  | mainWillAppear main =>
    obtain ⟨m, _, _, hu⟩ := step_mainWillAppear h
    exact hless (hperform hu rfl rfl)
  | mainWillDisappear main =>
    obtain ⟨m, _, _, hu⟩ := step_mainWillDisappear h
    exact hless (hperform hu rfl rfl)
  | deleteRow main row =>
    obtain ⟨m, dtc, _, _, _, rfl⟩ := step_deleteRow h
    refine hless ?_
    simp [System.lives, System.pending, setsOf]
  | signUp email =>
    obtain ⟨_, rfl | rfl⟩ := step_signUp h
    · exact hless ⟨Nat.le_refl _, Nat.le_refl _⟩
    · exact hset rfl rfl (by rintro ⟨rfl, rfl⟩; exact List.mem_singleton_self _)
  | addNewVote title description voteDate uuid items cellForRow =>
    obtain ⟨_, _, _, _, rfl⟩ := step_addNewVote h
    exact hset rfl rfl (by rintro ⟨rfl, rfl⟩; exact List.mem_singleton_self _)
  | setUserRole email role =>
    obtain ⟨db, hdb, rfl⟩ := step_setUserRole h
    refine hless ?_
    simp [System.lives, System.pending, isSome_updateData hdb]

theorem step_db (h : s.step l = some u) :
    (u.db = s.db ∧ ∀ email role, l ≠ .setUserRole email role) ∨
    (∃ k ok task, l = .serve k ok ∧ Served s task ok u) ∨
    ∃ email role db, l = .setUserRole email role ∧
      s.db.updateData .users email .userRole (.scalar (.bool role)) = some db ∧
      u = { s with db := db } := by
  cases l with
  | serve k ok =>
    obtain ⟨task, _, hserved⟩ := serve_served h
    exact .inr (.inl ⟨k, ok, task, rfl, hserved⟩)
  | setUserRole email role =>
    obtain ⟨db, hdb, rfl⟩ := step_setUserRole h
    exact .inr (.inr ⟨email, role, db, rfl, hdb, rfl⟩)
  | deliver k =>
    obtain ⟨l₁, l₂, r, cb, es, _, _, rfl⟩ := deliver_delivered h
    exact .inl ⟨performAll_keeps System.db (fun _ _ => rfl) _ es, nofun⟩
  | openVote email UUID => cases h; exact .inl ⟨rfl, nofun⟩
  | openMain email => cases h; exact .inl ⟨rfl, nofun⟩
  | voteWillAppear view => obtain ⟨v, _, rfl⟩ := step_voteWillAppear h; exact .inl ⟨rfl, nofun⟩
  | tap view row => obtain ⟨v, _, _, rfl⟩ := step_tap h; exact .inl ⟨rfl, nofun⟩
  | mainWillAppear main => obtain ⟨m, _, _, rfl⟩ := step_mainWillAppear h; exact .inl ⟨rfl, nofun⟩
  | mainWillDisappear main => obtain ⟨m, _, _, rfl⟩ := step_mainWillDisappear h; exact .inl ⟨rfl, nofun⟩
  | deleteRow main row => obtain ⟨m, dtc, _, _, _, rfl⟩ := step_deleteRow h; exact .inl ⟨rfl, nofun⟩
  | signUp email => obtain ⟨_, rfl | rfl⟩ := step_signUp h <;> exact .inl ⟨rfl, nofun⟩
  | addNewVote title description voteDate uuid items cellForRow =>
    obtain ⟨_, _, _, _, rfl⟩ := step_addNewVote h
    exact .inl ⟨rfl, nofun⟩

/-- a document that is there stays, unless it is a vote that somebody has asked to delete -/
theorem step_stays (h : s.step l = some u) {c : CollectionId} {id : String}
    (hin : ((s.db.get c).lookup id).isSome = true) :
    ((u.db.get c).lookup id).isSome = true ∨ (c = .votes ∧ ∃ k, .delete id k ∈ s.net) := by
  rcases step_db h with ⟨hdb, _⟩ | ⟨k, ok, task, _, hserved⟩ | ⟨email, role, db, _, hdb, rfl⟩
  · exact .inl (by rw [hdb]; exact hin)
  · cases hserved with
    | update hnet hdb => exact .inl (by rw [isSome_updateData hdb]; exact hin)
    | @set _ _ c' document d hnet =>
      left
      rw [lookup_setData]
      split
      · rfl
      · exact hin
    | @delete _ _ document k hnet =>
      rw [lookup_delete]
      by_cases hid : c = .votes ∧ document = id
      · obtain ⟨rfl, rfl⟩ := hid
        exact .inr ⟨rfl, k, by rw [hnet]; exact mem_middle.mpr (.inl rfl)⟩
      · exact .inl (by rw [if_neg hid]; exact hin)
    | _ => exact .inl hin
  · exact .inl (by rw [isSome_updateData hdb]; exact hin)

/-! ## runs -/

/-- every document is written once at most, and under an issued id -/
def Single (s : System) : Prop := ∀ c id, s.lives c id ≤ if id ∈ s.issued c then 1 else 0

theorem single_initial : Single .initial := fun c _ => by cases c <;> exact Nat.zero_le _

theorem step_single (h : Single s) (hs : s.step l = some u) : Single u := by
  intro c id
  obtain ⟨hissued, hnew⟩ := step_issued hs c
  have hlives := (step_lives hs c id).2
  have hold := h c id
  rw [hissued]
  by_cases hid : id ∈ l.issues c
  · rw [if_pos hid] at hlives
    rw [if_neg (hnew id hid)] at hold
    rw [if_pos (List.mem_append_left _ hid)]
    omega
  · rw [if_neg hid] at hlives
    by_cases hin : id ∈ s.issued c
    · rw [if_pos hin] at hold
      rw [if_pos (List.mem_append_right _ hin)]
      omega
    · rw [if_neg hin] at hold
      omega

theorem run_single {ls : List Label} (hrun : System.Run .initial ls s) : Single s :=
  Machine.exec_invariant System.step (A := fun _ => True)
    (fun _ _ _ h _ hs => step_single h hs) (fun _ _ => trivial) hrun single_initial

theorem run_lives {ls : List Label} {c : CollectionId} {id : String} (hrun : System.Run s ls u)
    (hid : id ∈ s.issued c) :
    id ∈ u.issued c ∧ u.pending c id ≤ s.pending c id ∧ u.lives c id ≤ s.lives c id := by
  refine Machine.exec_invariant System.step (A := fun _ => True)
    (P := fun t => id ∈ t.issued c ∧ t.pending c id ≤ s.pending c id ∧ t.lives c id ≤ s.lives c id)
    (fun t l v ht _ hv => ?_) (fun _ _ => trivial) hrun ⟨hid, Nat.le_refl _, Nat.le_refl _⟩
  obtain ⟨hissued, hnew⟩ := step_issued hv c
  have hlives := step_lives hv c id
  rw [if_neg (fun h => hnew id h ht.1)] at hlives
  refine ⟨?_, le_trans hlives.1 ht.2.1, le_trans hlives.2 ht.2.2⟩
  rw [hissued]
  exact List.mem_append_right _ ht.1

theorem Single.of_present (h : Single s) {c : CollectionId} {id : String}
    (hin : ((s.db.get c).lookup id).isSome = true) : id ∈ s.issued c ∧ s.pending c id = 0 := by
  have hle := h c id
  unfold System.lives at hle
  rw [hin] at hle
  have hone : true.toNat = 1 := rfl
  by_cases hid : id ∈ s.issued c
  · rw [if_pos hid] at hle
    exact ⟨hid, by omega⟩
  · rw [if_neg hid] at hle
    omega

/-- **A deleted vote never comes back**, whatever is still in flight for it. -/
theorem gone_for_good {t : System} {a b c : List Label} (hs : System.Run .initial a s)
    (ht : System.Run s b t) (hu : System.Run t c u) {V : String}
    (hin : s.db.votes.lookup V ≠ none) (hout : t.db.votes.lookup V = none) :
    u.db.votes.lookup V = none := by
  obtain ⟨hid, hzero⟩ := (run_single hs).of_present (c := .votes) (Option.isSome_iff_ne_none.mpr hin)
  obtain ⟨hidt, hle, _⟩ := run_lives ht hid
  -- in `t` the vote is not there and no first write of it is in flight
  have hzerot : t.pending .votes V = 0 := Nat.le_zero.mp (hzero ▸ hle)
  have hnone : t.lives .votes V = 0 := by
    unfold System.lives
    show (t.db.votes.lookup V).isSome.toNat + _ = 0
    rw [hout, hzerot]
    rfl
  have hlives : u.lives .votes V = 0 := Nat.le_zero.mp (hnone ▸ (run_lives hu hidt).2.2)
  unfold System.lives at hlives
  have hcount : (u.db.votes.lookup V).isSome.toNat = 0 := Nat.eq_zero_of_add_eq_zero_right hlives
  cases hx : u.db.votes.lookup V with
  | none => rfl
  | some d =>
    rw [hx] at hcount
    cases hcount

/-! ## roles -/

/-- the last role that the labels set -/
def lastRole (email : String) : List Label → Option Bool
  | [] => none
  | .setUserRole e role :: ls => (lastRole email ls).or (if e = email then some role else none)
  | _ :: ls => lastRole email ls

theorem lastRole_cons (email : String) (l : Label) (ls : List Label) :
    lastRole email (l :: ls) = (lastRole email ls).or (lastRole email [l]) := by
  cases l with
  | setUserRole e role =>
    show (lastRole email ls).or _ = (lastRole email ls).or (Option.or none _)
    rw [Option.none_or]
  | _ => exact (Option.or_none).symm

theorem lastRole_append (email : String) (a b : List Label) :
    lastRole email (a ++ b) = (lastRole email b).or (lastRole email a) := by
  induction a with
  | nil => exact (Option.or_none).symm
  | cons l a ih =>
    rw [List.cons_append, lastRole_cons, ih, Option.or_assoc, ← lastRole_cons]

theorem set_of_perform {s : System} {e : Effect} {c : CollectionId} {id : String} {d : Document}
    (h : .set c id d ∈ (s.perform e).net) : .set c id d ∈ s.net := by
  rcases List.mem_append.mp h with h | h
  · exact h
  · cases e with
    | selectRow view row =>
      have h : Task.set c id d ∈ s.reloads view := h
      unfold System.reloads at h
      cases hv : s.views[view]? with
      | none => rw [hv] at h; cases h
      | some v => rw [hv] at h; cases List.eq_of_mem_replicate h
    | getDocuments q k => cases List.mem_singleton.mp h
    | updateData t p c document f v => cases List.mem_singleton.mp h
    | _ => cases h

theorem set_of_performAll {s : System} {es : List Effect} {c : CollectionId} {id : String}
    {d : Document} (h : .set c id d ∈ (s.performAll es).net) : .set c id d ∈ s.net := by
  induction es generalizing s with
  | nil => exact h
  | cons e es ih => exact set_of_perform (ih (s := s.perform e) h)

theorem step_sets (hs : s.step l = some u) {email : String} {d : Document}
    (hd : .set .users email d ∈ u.net) : .set .users email d ∈ s.net ∨ d = userData email := by
  cases l with
  | serve k ok =>
    obtain ⟨task, _, hserved⟩ := serve_served hs
    left
    cases hserved with
    | read hnet | readFails hnet | delete hnet | deleteFails hnet =>
      rw [hnet]
      rcases mem_middle.mp hd with hd | hd
      · cases hd
      · exact mem_middle.mpr (.inr hd)
    | update hnet _ | updateFails hnet _ | set hnet | setFails hnet =>
      rw [hnet]
      exact mem_middle.mpr (.inr hd)
  | deliver k =>
    obtain ⟨l₁, l₂, r, cb, es, hnet, _, rfl⟩ := deliver_delivered hs
    left
    rw [hnet]
    exact mem_middle.mpr (.inr (set_of_performAll hd))
  | openVote e UUID => cases hs; exact .inl hd
  | openMain e => cases hs; exact .inl hd
  | voteWillAppear view =>
    obtain ⟨v, _, rfl⟩ := step_voteWillAppear hs
    rcases List.mem_append.mp hd with hd | hd
    · exact .inl hd
    · simp [VoteView.reload] at hd
  | tap view row =>
    obtain ⟨v, _, _, rfl⟩ := step_tap hs
    have hd := set_of_perform hd
    exact .inl hd
  | mainWillAppear main =>
    obtain ⟨m, _, _, rfl⟩ := step_mainWillAppear hs
    have hd := set_of_perform hd
    exact .inl hd
  | mainWillDisappear main =>
    obtain ⟨m, _, _, rfl⟩ := step_mainWillDisappear hs
    have hd := set_of_perform hd
    exact .inl hd
  | deleteRow main row =>
    obtain ⟨m, dtc, _, _, _, rfl⟩ := step_deleteRow hs
    rcases List.mem_append.mp hd with hd | hd
    · exact .inl hd
    · cases List.mem_singleton.mp hd
  | signUp e =>
    obtain ⟨_, rfl | rfl⟩ := step_signUp hs
    · exact .inl hd
    · rcases List.mem_append.mp hd with hd | hd
      · exact .inl hd
      · cases List.mem_singleton.mp hd
        exact .inr rfl
  | addNewVote title description voteDate uuid items cellForRow =>
    obtain ⟨_, _, _, _, rfl⟩ := step_addNewVote hs
    rcases List.mem_append.mp hd with hd | hd
    · exact .inl hd
    · cases List.mem_singleton.mp hd
  | setUserRole e role => obtain ⟨db, _, rfl⟩ := step_setUserRole hs; exact .inl hd

/-- the roles after the labels `ls` -/
structure Roles (ls : List Label) (s : System) : Prop where
  missing : ∀ email, s.db.users.lookup email = none → lastRole email ls = none
  stored : ∀ email d, s.db.users.lookup email = some d →
    d .userRole = some (.scalar (.bool ((lastRole email ls).getD false)))
  pending : ∀ email d, .set .users email d ∈ s.net → d = userData email

theorem Roles.keep {ls : List Label} (h : Roles ls s) (hs : s.step l = some u)
    (hl : ∀ email, lastRole email [l] = none)
    (hmissing : ∀ email, u.db.users.lookup email = none → s.db.users.lookup email = none)
    (hstored : ∀ email d, u.db.users.lookup email = some d →
      (∃ d', s.db.users.lookup email = some d' ∧ d .userRole = d' .userRole) ∨
        (s.db.users.lookup email = none ∧ d = userData email)) : Roles (ls ++ [l]) u := by
  have hlast : ∀ email, lastRole email (ls ++ [l]) = lastRole email ls := fun email => by
    rw [lastRole_append, hl, Option.none_or]
  refine ⟨fun email he => ?_, fun email d hd => ?_, fun email d hd => ?_⟩
  · rw [hlast]
    exact h.missing email (hmissing email he)
  · rw [hlast]
    rcases hstored email d hd with ⟨d', hd', hrole⟩ | ⟨hnone, rfl⟩
    · rw [hrole]
      exact h.stored email d' hd'
    · rw [h.missing email hnone]
      rfl
  · rcases step_sets hs hd with hd | hd
    · exact h.pending email d hd
    · exact hd

theorem step_roles {ls : List Label} {size : String → Nat} (h : Roles ls s) (hsingle : Single s)
    (hsound : Sound size s) (hs : s.step l = some u) : Roles (ls ++ [l]) u := by
  have hsame : (∀ email, lastRole email [l] = none) → u.db.users = s.db.users →
      Roles (ls ++ [l]) u := by
    intro hl hdb
    refine h.keep hs hl (fun email he => ?_) fun email d hd => .inl ⟨d, ?_, rfl⟩
    · rw [← hdb]; exact he
    · rw [← hdb]; exact hd
  rcases step_db hs with ⟨hdb, hl⟩ | ⟨k, ok, task, rfl, hserved⟩ | ⟨email, role, db, rfl, hdb, rfl⟩
  · refine hsame (fun email => ?_) (by rw [hdb])
    cases l with
    | setUserRole e role => exact absurd rfl (hl e role)
    | _ => rfl
  · have hnone : ∀ email, lastRole email [.serve k ok] = none := fun _ => rfl
    cases hserved with
    | @update _ _ t p c document f v db hnet hdb =>
      have hwrite : UpdateOk size c document f v :=
        hsound.net (.update t p c document f v) (by rw [hnet]; exact mem_middle.mpr (.inl rfl))
      obtain ⟨d, hd, rfl⟩ := updateData_eq_some.mp hdb
      cases c with
      | votes => exact hsame hnone rfl
      | users =>
        -- a tap writes the list and leaves the role
        obtain ⟨rfl, l, rfl, _⟩ := hwrite
        refine h.keep hs hnone (fun email he => ?_) fun email e he => .inl ?_
        · have he := (users_setData ..).symm.trans he
          split at he
          · cases he
          · exact he
        · have he := (users_setData ..).symm.trans he
          by_cases hid : document = email
          · rw [if_pos hid] at he
            cases he
            exact ⟨d, hid ▸ hd, Function.update_of_ne (by decide) ..⟩
          · rw [if_neg hid] at he
            exact ⟨e, he, rfl⟩
    | @set _ _ c document d hnet =>
      cases c with
      | votes => exact hsame hnone rfl
      | users =>
        have hmem : .set .users document d ∈ s.net := by
          rw [hnet]; exact mem_middle.mpr (.inl rfl)
        -- a sign-up writes a document that is not there yet
        have hmissing : s.db.users.lookup document = none := by
          cases hx : s.db.users.lookup document with
          | none => rfl
          | some d' =>
            have hin : ((s.db.get .users).lookup document).isSome = true := by
              show (s.db.users.lookup document).isSome = true
              rw [hx]; rfl
            have hzero := (hsingle.of_present hin).2
            unfold System.pending at hzero
            rw [hnet, weigh_middle] at hzero
            simp [setsOf] at hzero
        refine h.keep hs hnone (fun email he => ?_) fun email e he => ?_
        · have he := (users_setData ..).symm.trans he
          split at he
          · cases he
          · exact he
        · have he := (users_setData ..).symm.trans he
          by_cases hid : document = email
          · rw [if_pos hid] at he
            cases he
            exact .inr ⟨hid ▸ hmissing, hid ▸ h.pending document d hmem⟩
          · rw [if_neg hid] at he
            exact .inl ⟨e, he, rfl⟩
    | _ => exact hsame hnone rfl
  · obtain ⟨d, hd, rfl⟩ := updateData_eq_some.mp hdb
    have hlast : ∀ e, lastRole e (ls ++ [.setUserRole email role]) =
        if email = e then some role else lastRole e ls := fun e => by
      rw [lastRole_append]
      show Option.or (Option.or none (if email = e then some role else none)) _ = _
      by_cases he : email = e
      · rw [if_pos he, if_pos he]; rfl
      · rw [if_neg he, if_neg he]; rfl
    refine ⟨fun e he => ?_, fun e d' hd' => ?_, fun e d' hd' => h.pending e d' hd'⟩
    · have he := (users_setData ..).symm.trans he
      rw [hlast]
      by_cases hid : email = e
      · rw [if_pos hid] at he; cases he
      · rw [if_neg hid] at he ⊢
        exact h.missing e he
    · have hd' := (users_setData ..).symm.trans hd'
      rw [hlast]
      by_cases hid : email = e
      · rw [if_pos hid] at hd'
        cases hd'
        rw [if_pos hid, Function.update_self]
        rfl
      · rw [if_neg hid] at hd' ⊢
        exact h.stored e d' hd'

end

/-- **A user's role is the last one that was set from outside**: no request of the app changes it. -/
theorem role_last {ls : List Label} {s : System} (hrun : System.Run .initial ls s) {email : String}
    {d : Document} (hd : s.db.users.lookup email = some d) :
    d .userRole = some (.scalar (.bool ((lastRole email ls).getD false))) := by
  have hroles : Roles ls s := by
    clear hd
    induction ls using List.reverseRecOn generalizing s with
    | nil =>
      cases hrun
      exact ⟨fun _ _ => rfl, fun _ _ h => (by cases h), fun _ _ h => absurd h List.not_mem_nil⟩
    | append_singleton ls l ih =>
      obtain ⟨t, ht, hs⟩ := (Machine.exec_concat System.step).mp hrun
      obtain ⟨size, hsound⟩ := run_sound ht
      exact step_roles (ih ht) (run_single ht) hsound hs
  exact hroles.stored email d hd

/-! ## votes that disappear -/

theorem run_vanishes {ls a b c : List Label} {s u : System} (h : ∃ s, System.Run .initial ls s)
    (hls : ls = a ++ b ++ c) (hs : System.Run .initial a s) (hu : System.Run s b u) {V : String}
    (hin : s.db.votes.lookup V ≠ none) (hout : u.db.votes.lookup V = none) :
    ∃ email, Deleted ls email V := by
  have hinv : Traced (origins ls h) u ∧
      ((u.db.votes.lookup V).isSome = true ∨ ∃ email, Deleted ls email V) := by
    refine Machine.exec_along System.step (A := (origins ls h).Allows)
      (P := fun t => Traced (origins ls h) t ∧
        ((t.db.votes.lookup V).isSome = true ∨ ∃ email, Deleted ls email V))
      (fun t l v ht hl hv => ⟨step_traced ht.1 hl hv, ?_⟩) (allows_along h hls hs) hu
      ⟨run_traced h (by rw [hls, List.append_assoc]) hs, .inl (Option.isSome_iff_ne_none.mpr hin)⟩
    rcases ht.2 with hin | hdel
    · rcases step_stays hv (c := .votes) hin with hin | ⟨_, k, hk⟩
      · exact .inl hin
      · exact .inr (ht.1.net _ hk).2
    · exact .inr hdel
  refine hinv.2.resolve_left fun hsome => ?_
  rw [hout] at hsome
  cases hsome

/-- **A vote disappears only because an admin deleted the row that showed it**, and that admin's role
had been set before. -/
theorem vanished_deleted {a b : List Label} {s u : System} (hs : System.Run .initial a s)
    (hu : System.Run s b u) {V : String} {d : Document} (hin : s.db.votes.lookup V = some d)
    (hout : u.db.votes.lookup V = none) :
    ∃ c e t main m dtc, ∃ row : Nat, a ++ b = c ++ .deleteRow main row :: e ∧
      System.Run .initial c t ∧ t.mains[main]? = some m ∧ m.itemsDtc[row]? = some dtc ∧
      dtc.UUID = V ∧ Value.asString (d .voteTitle) = some dtc.title ∧
      Value.asString (d .voteDate) = some dtc.time ∧ .setUserRole m.emailString true ∈ c := by
  have hau : System.Run .initial (a ++ b) u :=
    (Machine.exec_append_eq_some System.step).mpr ⟨s, hs, hu⟩
  obtain ⟨email, c, e, t, main, m, dtc, row, hls, ht, hm, _, hrow, rfl, hadmin⟩ :=
    run_vanishes ⟨u, hau⟩ (List.append_nil _).symm hs hu (by rw [hin]; simp) hout
  have htraced := run_traced ⟨u, hau⟩ hls ht
  obtain ⟨⟨d₀, hc, htitle⟩, ⟨d₁, hc', htime⟩, _⟩ :=
    (htraced.mains m (List.mem_of_getElem? hm)).rows dtc (List.mem_of_getElem? hrow)
  obtain ⟨d₂, hc'', hsame⟩ := (run_traced ⟨u, hau⟩ rfl hs).votes dtc.UUID d hin
  obtain rfl := (composed_unique hau).1 _ _ _ hc hc''
  obtain rfl := (composed_unique hau).1 _ _ _ hc' hc''
  refine ⟨c, e, t, main, m, dtc, row, hls, ht, hm, hrow, rfl, ?_, ?_,
    ((traced_here ht).mains m (List.mem_of_getElem? hm)).admin hadmin⟩
  · rw [hsame.fields .voteTitle (by decide)]; exact htitle
  · rw [hsame.fields .voteDate (by decide)]; exact htime

/-- `a` signs up and is made an admin, a vote is added, and `a`'s main screen shows it -/
def listing : List Label :=
  [.signUp "a", .serve 0 true, .setUserRole "a" true,
    .addNewVote "t" "d" "now" "v" [1] (fun _ => some "x"), .serve 0 true,
    .openMain "a", .mainWillAppear 0, .serve 0 true, .deliver 0, .serve 0 true, .deliver 0]

def deleting : List Label := [.deleteRow 0 0, .serve 0 true]

theorem run_deleting :
    System.Run .initial listing (.after listing) ∧
      System.Run (.after listing) deleting (.after (listing ++ deleting)) ∧
      System.Run (.after (listing ++ deleting)) [.deliver 0]
        (.after (listing ++ deleting ++ [.deliver 0])) := by
  have h : ∀ a b, (Machine.exec System.step .initial (a ++ b)).isSome = true →
      System.Run .initial a (.after a) → System.Run (.after a) b (.after (a ++ b)) := by
    intro a b hab ha
    obtain ⟨t, ht, hu⟩ := (Machine.exec_append_eq_some System.step).mp (run_after (a ++ b) hab)
    rw [show System.after a = t from Option.some.inj (ha.symm.trans ht)]
    exact hu
  have h1 := run_after listing (by decide)
  have h2 := run_after (listing ++ deleting) (by decide)
  exact ⟨h1, h _ _ (by decide) h1, h _ _ (by decide) h2⟩

theorem gone_for_good_deleting :
    (System.after (listing ++ deleting ++ [.deliver 0])).db.votes.lookup "v" = none :=
  gone_for_good run_deleting.1 run_deleting.2.1 run_deleting.2.2 (by decide) rfl

theorem role_last_deleting : ∃ d, (System.after listing).db.users.lookup "a" = some d ∧
    d .userRole = some (.scalar (.bool ((lastRole "a" listing).getD false))) :=
  ⟨_, rfl, @role_last listing _ run_deleting.1 "a" _ rfl⟩

theorem vanished_deleted_deleting :
    ∃ c e t main m dtc, ∃ row : Nat, listing ++ deleting = c ++ .deleteRow main row :: e ∧
      System.Run .initial c t ∧ t.mains[main]? = some m ∧ m.itemsDtc[row]? = some dtc ∧
      dtc.UUID = "v" ∧ .setUserRole m.emailString true ∈ c := by
  obtain ⟨c, e, t, main, m, dtc, row, h1, h2, h3, h4, h5, _, _, h6⟩ :=
    @vanished_deleted listing deleting _ _ run_deleting.1 run_deleting.2.1 "v" _ rfl rfl
  exact ⟨c, e, t, main, m, dtc, row, h1, h2, h3, h4, h5, h6⟩

end VoteOnOffice
