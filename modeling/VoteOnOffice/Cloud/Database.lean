import Mathlib.Data.List.AList
import VoteOnOffice.Cloud.Document

/-!
# The database: two collections of documents with unique ids

* `Collection`         the documents of a collection by their ids;
* `Query`              `collection(c)` with at most one `whereField(f, isEqualTo: v)`;
* `getDocuments`, `updateData`, `setData`, `delete`
                       what a request does to the database when it is served.

`updateData` replaces one named field and fails on a missing document; the others cannot fail by
themselves.  `Keyed c f`: the id of every document is the content of its field `f`; there
`whereField(f, isEqualTo: id)` finds exactly the document `id` (`find_keyed`).
-/

namespace VoteOnOffice

abbrev Collection := AList fun _ : String => Document

inductive CollectionId where
  | votes | users
  deriving DecidableEq, Repr

structure Database where
  votes : Collection
  users : Collection

def Database.empty : Database := ⟨∅, ∅⟩

def Database.get (db : Database) : CollectionId → Collection
  | .votes => db.votes
  | .users => db.users

def Database.put (db : Database) : CollectionId → Collection → Database
  | .votes, c => { db with votes := c }
  | .users, c => { db with users := c }

structure Query where
  collection : CollectionId
  whereField : Option (Field × String)
  deriving DecidableEq, Repr

/-- `collection("Votes")` -/
def Query.votes : Query := ⟨.votes, none⟩

/-- `collection("Votes").whereField("voteUUID", isEqualTo: UUID)` -/
def Query.votesWhere (UUID : String) : Query := ⟨.votes, some (.voteUUID, UUID)⟩

/-- `collection("Users").whereField("userEmail", isEqualTo: email)` -/
def Query.usersWhere (email : String) : Query := ⟨.users, some (.userEmail, email)⟩

def Query.selects (q : Query) (d : Document) : Bool :=
  match q.whereField with
  | none => true
  | some (f, v) => Value.asString (d f) = some v

def Database.getDocuments (db : Database) (q : Query) : List Document :=
  ((db.get q.collection).entries.map Sigma.snd).filter q.selects

def Database.updateData (db : Database) (c : CollectionId) (document : String) (f : Field)
    (v : Value) : Option Database :=
  ((db.get c).lookup document).map fun d =>
    db.put c ((db.get c).insert document (Function.update d f (some v)))

def Database.setData (db : Database) (c : CollectionId) (document : String) (d : Document) :
    Database :=
  db.put c ((db.get c).insert document d)

def Database.delete (db : Database) (c : CollectionId) (document : String) : Database :=
  db.put c ((db.get c).erase document)

theorem Database.mem_getDocuments {db : Database} {q : Query} {d : Document} :
    d ∈ db.getDocuments q ↔
      (∃ id, (db.get q.collection).lookup id = some d) ∧ q.selects d = true := by
  unfold Database.getDocuments
  rw [List.mem_filter, List.mem_map]
  constructor
  · rintro ⟨⟨⟨id, e⟩, he, rfl⟩, hq⟩
    exact ⟨⟨id, AList.mem_lookup_iff.mpr he⟩, hq⟩
  · rintro ⟨⟨id, hid⟩, hq⟩
    exact ⟨⟨⟨id, d⟩, AList.mem_lookup_iff.mp hid, rfl⟩, hq⟩

theorem countP_exchange (P : Document → Bool) {c c' : Collection} {id : String} {d d' : Document}
    (hd : c.lookup id = some d)
    (hc : ∀ k, c'.lookup k = if k = id then some d' else c.lookup k) :
    (c'.entries.countP fun e => P e.2) + (P d).toNat
      = (c.entries.countP fun e => P e.2) + (P d').toNat := by
  have hnew : c'.entries.Perm (c.insert id d').entries := by
    refine List.lookup_ext c'.nodupKeys (c.insert id d').nodupKeys fun k x => ?_
    have hk : c'.lookup k = (c.insert id d').lookup k := by
      rw [hc k]
      by_cases e : k = id
      · rw [if_pos e, e, AList.lookup_insert]
      · rw [if_neg e, AList.lookup_insert_ne e]
    show x ∈ c'.lookup k ↔ x ∈ (c.insert id d').lookup k
    rw [hk]
  have hmem : id ∈ c.entries.keys := AList.lookup_isSome.mp (by rw [hd]; rfl)
  obtain ⟨b, l₁, l₂, hb, hl, hk⟩ := List.exists_of_kerase hmem
  have hbd : b = d := by
    have : c.lookup id = some b := AList.mem_lookup_iff.mpr (by rw [hl]; simp)
    rw [hd] at this
    exact (Option.some.inj this).symm
  subst hbd
  have hentries : (c.insert id d').entries = ⟨id, d'⟩ :: (l₁ ++ l₂) := by
    rw [← hk]; exact List.kinsert_def
  rw [hnew.countP_eq, hentries, hl, List.countP_cons, List.countP_append, List.countP_append,
    List.countP_cons]
  cases P b <;> cases P d' <;> simp <;> omega

/-! ## collections whose ids are a field of their documents -/

/-- the id of every document is the content of its field `f` -/
def Keyed (c : Collection) (f : Field) : Prop :=
  ∀ id d, c.lookup id = some d → Value.asString (d f) = some id

theorem entries_filter_key (l : List (Sigma fun _ : String => Document)) (hl : l.NodupKeys)
    (id : String) :
    (l.filter fun e => e.1 = id).map Sigma.snd = (l.dlookup id).toList := by
  induction l with
  | nil => rfl
  | cons e l ih =>
    obtain ⟨k, d⟩ := e
    obtain ⟨hk, hl'⟩ := List.nodupKeys_cons.mp hl
    by_cases h : k = id
    · subst h
      have hnone : l.dlookup k = none := List.dlookup_eq_none.mpr hk
      rw [List.filter_cons_of_pos (by simp), List.map_cons, ih hl', hnone, List.dlookup_cons_eq]
      rfl
    · rw [List.filter_cons_of_neg (by simpa using h), ih hl',
        List.dlookup_cons_ne l ⟨k, d⟩ (fun e => h e.symm)]

theorem find_keyed {db : Database} {c : CollectionId} {f : Field} (h : Keyed (db.get c) f)
    (id : String) :
    db.getDocuments ⟨c, some (f, id)⟩ = ((db.get c).lookup id).toList := by
  unfold Database.getDocuments
  rw [List.filter_map]
  have hsame : (db.get c).entries.filter (Query.selects ⟨c, some (f, id)⟩ ∘ Sigma.snd)
      = (db.get c).entries.filter fun e => e.1 = id := by
    apply List.filter_congr
    rintro ⟨k, d⟩ he
    have hk := h k d (AList.mem_lookup_iff.mpr he)
    show decide (Value.asString (d f) = some id) = decide (k = id)
    rw [hk]
    simp
  rw [hsame]
  exact entries_filter_key _ (db.get c).nodupKeys id

theorem Keyed.insert {c : Collection} {f : Field} (h : Keyed c f) {id : String} {d : Document}
    (hd : Value.asString (d f) = some id) : Keyed (c.insert id d) f := by
  intro k e he
  by_cases hk : k = id
  · subst hk
    rw [AList.lookup_insert] at he
    cases he; exact hd
  · rw [AList.lookup_insert_ne hk] at he
    exact h k e he

theorem Keyed.erase {c : Collection} {f : Field} (h : Keyed c f) (id : String) :
    Keyed (c.erase id) f := by
  intro k e he
  by_cases hk : k = id
  · subst hk
    rw [AList.lookup_erase] at he
    cases he
  · rw [AList.lookup_erase_ne hk] at he
    exact h k e he

def Database.WellKeyed (db : Database) : Prop :=
  Keyed db.votes .voteUUID ∧ Keyed db.users .userEmail

section
variable {db : Database} (h : db.WellKeyed)
include h

theorem Database.WellKeyed.find_vote (V : String) :
    db.getDocuments (.votesWhere V) = (db.votes.lookup V).toList :=
  @find_keyed db .votes .voteUUID h.1 V

theorem Database.WellKeyed.find_user (email : String) :
    db.getDocuments (.usersWhere email) = (db.users.lookup email).toList :=
  @find_keyed db .users .userEmail h.2 email

end

theorem wellKeyed_empty : Database.empty.WellKeyed := by
  constructor
  · intro id d h; cases h
  · intro id d h; cases h

theorem Database.WellKeyed.setVote {db : Database} (h : db.WellKeyed) {id : String} {d : Document}
    (hd : Value.asString (d .voteUUID) = some id) : (db.setData .votes id d).WellKeyed :=
  ⟨h.1.insert hd, h.2⟩

theorem Database.WellKeyed.setUser {db : Database} (h : db.WellKeyed) {id : String} {d : Document}
    (hd : Value.asString (d .userEmail) = some id) : (db.setData .users id d).WellKeyed :=
  ⟨h.1, h.2.insert hd⟩

theorem updateData_eq_some {db db' : Database} {c : CollectionId} {document : String} {f : Field}
    {v : Value} : db.updateData c document f v = some db' ↔ ∃ d,
      (db.get c).lookup document = some d ∧
        db' = db.setData c document (Function.update d f (some v)) := by
  unfold Database.updateData Database.setData
  rw [Option.map_eq_some_iff]
  simp only [eq_comm]

theorem updateData_eq_none {db : Database} {c : CollectionId} {document : String} {f : Field}
    {v : Value} : db.updateData c document f v = none ↔ (db.get c).lookup document = none := by
  unfold Database.updateData
  rw [Option.map_eq_none_iff]

end VoteOnOffice
