import VoteOnOffice.Taps.Step

/-!
# Overlapping taps: what is in the database is a replay of its lineage

Every document is a register: a tap reads the user's list and the vote's array, and later writes back
what it made of its snapshots.  For any number of taps whose requests are all granted, in any order:

* `replayUsers d₀ email h`, `replayVotes d₀ UUID h`
                       the list and the array after the writes `h`, one after the other;
* `captured`           the list that a tap has read;
* `TaskOk`             what every request and answer in flight holds;
* `TapInv`             the invariant: the documents are the replays of the lineages of their logs,
                       and every tap still has, or has used, one right to read and one right to
                       write each of its two documents.
-/

namespace VoteOnOffice
open Lineage

/-! ## logs -/

theorem logOf_append {T : Type} (document : String) (a b : List (String × Access T)) :
    logOf document (a ++ b) = logOf document a ++ logOf document b := List.filterMap_append ..
@[simp] theorem logOf_nil {T : Type} (document : String) :
    logOf document ([] : List (String × Access T)) = [] := rfl
@[simp] theorem logOf_self {T : Type} (document : String) (a : Access T) :
    logOf document [(document, a)] = [a] := by simp [logOf]
theorem logOf_ne {T : Type} {document document' : String} (h : document' ≠ document) (a : Access T) :
    logOf document [(document', a)] = [] := by simp [logOf, h]

theorem mem_logOf_concat {T : Type} {document document' : String} {log : List (String × Access T)}
    {a b : Access T} : b ∈ logOf document (log ++ [(document', a)]) ↔
      b ∈ logOf document log ∨ (document' = document ∧ b = a) := by
  rw [logOf_append, List.mem_append]
  by_cases e : document' = document
  · subst e
    rw [logOf_self, List.mem_singleton, and_iff_right rfl]
  · rw [logOf_ne e]
    simp [e]

theorem oneShot_logOf_concat {T : Type} {document : String} {log : List (String × Access T)}
    {a : Access T} (h : ∀ id, OneShot (logOf id log)) (ha : OneShot (logOf document log ++ [a])) :
    ∀ id, OneShot (logOf id (log ++ [(document, a)])) := by
  intro id
  rw [logOf_append]
  by_cases e : document = id
  · subst e
    rw [logOf_self]
    exact ha
  · rw [logOf_ne e, List.append_nil]
    exact h id

/-- the accesses of the tap `t`; `key` tells whose access it is -/
def readBy {T : Type} (key : T → Tap) (t : Tap) : Access T → Bool
  | .read a => key a = t
  | .write _ => false

def writeBy {T : Type} (key : T → Tap) (t : Tap) : Access T → Bool
  | .read _ => false
  | .write a => key a = t

/-! ## the rights of one tap -/

def one (p : Prop) [Decidable p] : Nat := if p then 1 else 0

def mayReadUser (t : Tap) : Task → Nat
  | .read _ (.tabOnCell u) => one (u = t)
  | _ => 0

def mayWriteUser (t : Tap) : Task → Nat
  | .read _ (.tabOnCell u) => one (u = t)
  | .reply _ (.tabOnCell u) => one (u = t)
  | .read _ (.voteSecond u _ _) => one (u = t)
  | .reply _ (.voteSecond u _ _) => one (u = t)
  | .update u _ .users _ _ _ => one (u = t)
  | _ => 0

def mayReadVote (t : Tap) : Task → Nat
  | .read _ (.tabOnCell u) => one (u = t)
  | .reply _ (.tabOnCell u) => one (u = t)
  | .read _ (.voteFirst u) => one (u = t)
  | .read _ (.voteSecond u _ _) => one (u = t)
  | _ => 0

def mayWriteVote (t : Tap) : Task → Nat
  | .read _ (.tabOnCell u) => one (u = t)
  | .reply _ (.tabOnCell u) => one (u = t)
  | .read _ (.voteFirst u) => one (u = t)
  | .reply _ (.voteFirst u) => one (u = t)
  | .read _ (.voteSecond u _ _) => one (u = t)
  | .reply _ (.voteSecond u _ _) => one (u = t)
  | .update u _ .votes _ _ _ => one (u = t)
  | _ => 0

theorem countP_logOf_concat {T : Type} (P : Access T → Bool) (reg : Tap → String) (t u : Tap)
    (log : List (String × Access T)) (a : Access T) (h : P a = true ↔ t = u) :
    (logOf (reg u) (log ++ [(reg t, a)])).countP P = (logOf (reg u) log).countP P + one (t = u) := by
  rw [logOf_append, List.countP_append]
  congr 1
  by_cases e : t = u
  · subst e
    rw [logOf_self, List.countP_singleton, if_pos (h.mpr rfl), one, if_pos rfl]
  · have hP : P a = false := Bool.eq_false_iff.mpr fun hP => e (h.mp hP)
    rw [one, if_neg e]
    by_cases hr : reg t = reg u
    · rw [hr, logOf_self, List.countP_singleton, hP]; rfl
    · rw [logOf_ne hr, List.countP_nil]

theorem countP_logOf_other {T : Type} (P : Access T → Bool) (document document' : String)
    (log : List (String × Access T)) (a : Access T) (h : P a = false) :
    (logOf document (log ++ [(document', a)])).countP P = (logOf document log).countP P := by
  rw [logOf_append, List.countP_append]
  by_cases hd : document' = document
  · subst hd
    rw [logOf_self, List.countP_singleton, h]; rfl
  · rw [logOf_ne hd, List.countP_nil, Nat.add_zero]

theorem cur_logOf_read {T : Type} [DecidableEq T] (document document' : String)
    (log : List (String × Access T)) (t : T) :
    cur (logOf document (log ++ [(document', .read t)])) = cur (logOf document log) := by
  rw [logOf_append]
  by_cases h : document' = document
  · rw [h, logOf_self, cur_read]
  · rw [logOf_ne h, List.append_nil]

/-! ## replays -/

/-- the list of the user `email` -/
def listOf (db : Database) (email : String) : List Record :=
  ((db.users.lookup email).bind fun d => Value.asRecords (d .userVotesList)).getD []

/-- the variants of the vote `UUID` -/
def variantsOf (db : Database) (UUID : String) : List Record :=
  ((db.votes.lookup UUID).bind fun d => Value.asRecords (d .voteVariants)).getD []

theorem listOf_eq {db : Database} {email : String} {d : Document} {l : List Record}
    (hd : db.users.lookup email = some d) (hl : d .userVotesList = some (.records l)) :
    listOf db email = l := by
  unfold listOf; rw [hd, Option.bind_some, hl]; rfl

theorem variantsOf_eq {db : Database} {UUID : String} {d : Document} {l : List Record}
    (hd : db.votes.lookup UUID = some d) (hl : d .voteVariants = some (.records l)) :
    variantsOf db UUID = l := by
  unfold variantsOf; rw [hd, Option.bind_some, hl]; rfl

def replayUsers (d₀ : Database) (email : String) (h : List Tap) : List Record :=
  h.foldl (fun l t => cast t.UUID t.index l) (listOf d₀ email)

def replayVotes (d₀ : Database) (UUID : String) (h : List (Tap × Path)) :
    Except Fatal (List Record) :=
  h.foldlM (fun a tp => tp.2.count tp.1.index a) (variantsOf d₀ UUID)

theorem replayUsers_concat (d₀ : Database) (email : String) (h : List Tap) (t : Tap) :
    replayUsers d₀ email (h ++ [t]) = cast t.UUID t.index (replayUsers d₀ email h) := by
  simp [replayUsers, List.foldl_append]

theorem replayVotes_concat (d₀ : Database) (UUID : String) (h : List (Tap × Path)) (t : Tap)
    (p : Path) :
    replayVotes d₀ UUID (h ++ [(t, p)]) = replayVotes d₀ UUID h >>= p.count t.index := by
  unfold replayVotes
  rw [List.foldlM_append]
  congr 1
  funext a
  rw [List.foldlM_cons]
  cases p.count t.index a <;> rfl

/-- the taps' users and votes are there -/
structure Present (d₀ : Database) (taps : List Tap) : Prop where
  keyed : d₀.WellKeyed
  user : ∀ t ∈ taps, ∃ d l, d₀.users.lookup t.emailString = some d ∧
    d .userVotesList = some (.records l)
  vote : ∀ t ∈ taps, ∃ d l, d₀.votes.lookup t.UUID = some d ∧ d .voteVariants = some (.records l)

section
variable (d₀ : Database) (taps : List Tap) (ul : List (String × Access Tap))
  (vl : List (String × Access (Tap × Path)))

/-- the list that the tap has read -/
def captured (t : Tap) : List Record :=
  replayUsers d₀ t.emailString (seen (logOf t.emailString ul) t)

/-- the tap has read the user's list and goes the way `p` -/
structure Took (t : Tap) (p : Path) : Prop where
  tap : t ∈ taps
  read : .read t ∈ logOf t.emailString ul
  path : pathOf t.UUID (captured d₀ ul t) = .ok p

/-- the answer holds the vote's document as the tap has read it -/
structure Counts (r : Reply) (t : Tap) (p : Path) : Prop where
  took : Took d₀ taps ul t p
  read : .read (t, p) ∈ logOf t.UUID vl
  reply : ∃ d a, r = .ok [d] ∧ d .voteVariants = some (.records a) ∧
    replayVotes d₀ t.UUID (seen (logOf t.UUID vl) (t, p)) = .ok a

def TaskOk : Task → Prop
  | .read q (.tabOnCell t) => t ∈ taps ∧ q = .usersWhere t.emailString
  | .reply r (.tabOnCell t) => t ∈ taps ∧ .read t ∈ logOf t.emailString ul ∧
      ∃ d, r = .ok [d] ∧ d .userVotesList = some (.records (captured d₀ ul t))
  | .read q (.voteFirst t) => Took d₀ taps ul t .first ∧ q = .votesWhere t.UUID
  | .read q (.voteSecond t arrays extraIndex) =>
      Took d₀ taps ul t (.second extraIndex) ∧ q = .votesWhere t.UUID ∧ arrays = captured d₀ ul t
  | .reply r (.voteFirst t) => Counts d₀ taps ul vl r t .first
  | .reply r (.voteSecond t arrays extraIndex) =>
      Counts d₀ taps ul vl r t (.second extraIndex) ∧ arrays = captured d₀ ul t
  | .update t _ .users document f v => t ∈ taps ∧ .read t ∈ logOf t.emailString ul ∧
      document = t.emailString ∧ f = .userVotesList ∧
      v = .records (cast t.UUID t.index (captured d₀ ul t))
  | .update t p .votes document f v => Took d₀ taps ul t p ∧ .read (t, p) ∈ logOf t.UUID vl ∧
      document = t.UUID ∧ f = .voteVariants ∧
      ∃ a, replayVotes d₀ t.UUID (seen (logOf t.UUID vl) (t, p) ++ [(t, p)]) = .ok a ∧ v = .records a
  | _ => False

def Grows {T : Type} [DecidableEq T] (l l' : List (String × Access T)) : Prop :=
  ∀ document t, .read t ∈ logOf document l →
    .read t ∈ logOf document l' ∧ seen (logOf document l') t = seen (logOf document l) t

end

theorem Grows.refl {T : Type} [DecidableEq T] (l : List (String × Access T)) : Grows l l :=
  fun _ _ h => ⟨h, rfl⟩

theorem Grows.write {T : Type} [DecidableEq T] (l : List (String × Access T)) (document : String)
    (t : T) : Grows l (l ++ [(document, .write t)]) := by
  intro document' u hu
  rw [logOf_append]
  by_cases h : document = document'
  · subst h
    rw [logOf_self]
    exact ⟨List.mem_append_left _ hu, seen_write ..⟩
  · rw [logOf_ne h, List.append_nil]
    exact ⟨hu, rfl⟩

theorem Grows.read {T : Type} [DecidableEq T] {l : List (String × Access T)} {document : String}
    {t : T} (ht : .read t ∉ logOf document l) : Grows l (l ++ [(document, .read t)]) := by
  intro document' u hu
  rw [logOf_append]
  by_cases h : document = document'
  · subst h
    rw [logOf_self]
    refine ⟨List.mem_append_left _ hu, seen_read_ne _ ?_⟩
    rintro rfl
    exact ht hu
  · rw [logOf_ne h, List.append_nil]
    exact ⟨hu, rfl⟩

section
variable {d₀ : Database} {taps : List Tap} {ul ul' : List (String × Access Tap)}
  {vl vl' : List (String × Access (Tap × Path))}

theorem captured_grows (hU : Grows ul ul') {t : Tap} (ht : .read t ∈ logOf t.emailString ul) :
    captured d₀ ul' t = captured d₀ ul t := by
  unfold captured
  rw [(hU t.emailString t ht).2]

theorem Took.grows (hU : Grows ul ul') {t : Tap} {p : Path} (h : Took d₀ taps ul t p) :
    Took d₀ taps ul' t p :=
  ⟨h.tap, (hU _ _ h.read).1, by rw [captured_grows hU h.read]; exact h.path⟩

theorem Counts.grows (hU : Grows ul ul') (hV : Grows vl vl') {r : Reply} {t : Tap} {p : Path}
    (h : Counts d₀ taps ul vl r t p) : Counts d₀ taps ul' vl' r t p := by
  obtain ⟨d, a, hr, hd, ha⟩ := h.reply
  exact ⟨h.took.grows hU, (hV _ _ h.read).1, d, a, hr, hd, by rw [(hV _ _ h.read).2]; exact ha⟩

theorem TaskOk.grows (hU : Grows ul ul') (hV : Grows vl vl') {task : Task}
    (h : TaskOk d₀ taps ul vl task) : TaskOk d₀ taps ul' vl' task := by
  cases task with
  | read q k =>
    cases k with
    | tabOnCell t => exact h
    | voteFirst t => exact ⟨h.1.grows hU, h.2⟩
    | voteSecond t arrays extraIndex =>
      exact ⟨h.1.grows hU, h.2.1, by rw [captured_grows hU h.1.read]; exact h.2.2⟩
    | _ => exact h
  | reply r k =>
    cases k with
    | tabOnCell t =>
      obtain ⟨ht, hr, d, e, hd⟩ := h
      exact ⟨ht, (hU _ _ hr).1, d, e, by rw [captured_grows hU hr]; exact hd⟩
    | voteFirst t => exact Counts.grows hU hV h
    | voteSecond t arrays extraIndex =>
      exact ⟨Counts.grows hU hV h.1, by rw [captured_grows hU h.1.took.read]; exact h.2⟩
    | _ => exact h
  | update t p c document f v =>
    cases c with
    | users =>
      obtain ⟨ht, hr, hdoc, hf, hv⟩ := h
      exact ⟨ht, (hU _ _ hr).1, hdoc, hf, by rw [captured_grows hU hr]; exact hv⟩
    | votes =>
      obtain ⟨ht, hr, hdoc, hf, a, ha, hv⟩ := h
      exact ⟨ht.grows hU, (hV _ _ hr).1, hdoc, hf, a, by rw [(hV _ _ hr).2]; exact ha, hv⟩
  | set c document d => exact h
  | delete document k => exact h

end

/-! ## the invariant -/

/-- the user's document after the writes `h` -/
def userAfter (d₀ : Database) (id : String) (h : List Tap) (d : Document) : Document :=
  if h = [] then d else Function.update d .userVotesList (some (.records (replayUsers d₀ id h)))

/-- the vote's document after the writes `h`, which leave the array `a` -/
def voteAfter (h : List (Tap × Path)) (a : List Record) (d : Document) : Document :=
  if h = [] then d else Function.update d .voteVariants (some (.records a))

structure TapInv (d₀ : Database) (taps : List Tap) (x : TapState) : Prop where
  users : ∀ id, x.db.users.lookup id
    = (d₀.users.lookup id).map (userAfter d₀ id (cur (logOf id x.usersLog)))
  votes : ∀ id, ∃ a, replayVotes d₀ id (cur (logOf id x.votesLog)) = .ok a ∧
    x.db.votes.lookup id = (d₀.votes.lookup id).map (voteAfter (cur (logOf id x.votesLog)) a)
  tasks : ∀ task ∈ x.net, TaskOk d₀ taps x.usersLog x.votesLog task
  usersOnce : ∀ id, OneShot (logOf id x.usersLog)
  votesOnce : ∀ id, OneShot (logOf id x.votesLog)
  usersBy : ∀ id t, .read t ∈ logOf id x.usersLog → t ∈ taps ∧ id = t.emailString
  votesBy : ∀ id t p, .read (t, p) ∈ logOf id x.votesLog →
    Took d₀ taps x.usersLog t p ∧ id = t.UUID
  readUser : ∀ t ∈ taps, weigh (mayReadUser t) x.net
    + (logOf t.emailString x.usersLog).countP (readBy id t) = 1
  writeUser : ∀ t ∈ taps, weigh (mayWriteUser t) x.net
    + (logOf t.emailString x.usersLog).countP (writeBy id t) = 1
  readVote : ∀ t ∈ taps, weigh (mayReadVote t) x.net
    + (logOf t.UUID x.votesLog).countP (readBy Prod.fst t) = 1
  writeVote : ∀ t ∈ taps, weigh (mayWriteVote t) x.net
    + (logOf t.UUID x.votesLog).countP (writeBy Prod.fst t) = 1

section
variable {d₀ : Database} {taps : List Tap}

theorem userAfter_email (id : String) (h : List Tap) (d : Document) :
    userAfter d₀ id h d .userEmail = d .userEmail := by
  unfold userAfter
  split
  · rfl
  · exact Function.update_of_ne (by decide) ..

theorem voteAfter_uuid (h : List (Tap × Path)) (a : List Record) (d : Document) :
    voteAfter h a d .voteUUID = d .voteUUID := by
  unfold voteAfter
  split
  · rfl
  · exact Function.update_of_ne (by decide) ..

theorem TapInv.wellKeyed {x : TapState} (h : TapInv d₀ taps x) (hk : d₀.WellKeyed) :
    x.db.WellKeyed := by
  constructor
  · intro id d hd
    obtain ⟨a, _, ha⟩ := h.votes id
    rw [ha] at hd
    obtain ⟨d', hd', rfl⟩ := Option.map_eq_some_iff.mp hd
    rw [voteAfter_uuid]
    exact hk.1 id d' hd'
  · intro id d hd
    rw [h.users id] at hd
    obtain ⟨d', hd', rfl⟩ := Option.map_eq_some_iff.mp hd
    rw [userAfter_email]
    exact hk.2 id d' hd'

theorem TapInv.find_user {x : TapState} (h : TapInv d₀ taps x) (hp : Present d₀ taps) {t : Tap}
    (ht : t ∈ taps) : ∃ d, x.db.getDocuments (.usersWhere t.emailString) = [d] ∧
      x.db.users.lookup t.emailString = some d ∧ d .userVotesList
        = some (.records (replayUsers d₀ t.emailString (cur (logOf t.emailString x.usersLog)))) := by
  obtain ⟨d, l, hd, hl⟩ := hp.user t ht
  have hx := h.users t.emailString
  rw [hd, Option.map_some] at hx
  refine ⟨_, ?_, hx, ?_⟩
  · rw [(h.wellKeyed hp.keyed).find_user, hx]; rfl
  · unfold userAfter
    by_cases hc : cur (logOf t.emailString x.usersLog) = []
    · rw [if_pos hc, hc, hl]
      show some (Value.records l) = some (.records (listOf d₀ t.emailString))
      rw [listOf_eq hd hl]
    · rw [if_neg hc, Function.update_self]

theorem TapInv.find_vote {x : TapState} (h : TapInv d₀ taps x) (hp : Present d₀ taps) {t : Tap}
    (ht : t ∈ taps) : ∃ d a, x.db.getDocuments (.votesWhere t.UUID) = [d] ∧
      x.db.votes.lookup t.UUID = some d ∧ d .voteVariants = some (.records a) ∧
      replayVotes d₀ t.UUID (cur (logOf t.UUID x.votesLog)) = .ok a := by
  obtain ⟨d, l, hd, hl⟩ := hp.vote t ht
  obtain ⟨a, ha, hx⟩ := h.votes t.UUID
  rw [hd, Option.map_some] at hx
  refine ⟨_, a, ?_, hx, ?_, ha⟩
  · rw [(h.wellKeyed hp.keyed).find_vote, hx]; rfl
  · unfold voteAfter
    by_cases hc : cur (logOf t.UUID x.votesLog) = []
    · rw [hc] at ha
      rw [if_pos hc, hl]
      cases ha
      rw [variantsOf_eq hd hl]
    · rw [if_neg hc, Function.update_self]

end

end VoteOnOffice
