import VoteOnOffice.Cloud.Database

/-!
# Closures: what the view models hand to the cloud and what they do when it answers

Every request of a view model is asynchronous.  The closure it passes is kept with the request and
run when the answer is delivered, so the closures are data here: one constructor of `Callback` for
each closure of the source, with the variables it captures.

* `Tap`                one call of `tabOnCell`: the screen and its e-mail (`self`), the arguments
                       `index` and `UUID`, and a number that tells the calls apart;
* `Path`               the way a tap takes: `voteFirst`, or `voteSecond` with its `extraIndex`;
* `Reply`              what a closure is called with;
* `Effect`             what a closure does besides computing: it issues requests and emits on the
                       subjects of its view model;
* `withDocuments`, `forDocuments`
                       the two guards that open every closure, and its `for` loop.
-/

namespace VoteOnOffice

structure Tap where
  id : Nat
  view : Nat
  emailString : String
  index : Int
  UUID : String
  deriving DecidableEq, Repr

inductive Path where
  | first
  | second (extraIndex : Int)
  deriving DecidableEq, Repr

/-- a row of the main screen -/
structure DataVoteCell where
  title : String := ""
  time : String := ""
  status : Bool := false
  UUID : String := ""
  deriving DecidableEq, Repr

inductive Callback where
  | tabOnCell (t : Tap)
  | voteFirst (t : Tap)
  | voteSecond (t : Tap) (arrays : List Record) (extraIndex : Int)
  | reloadViewData (view : Nat) (emailString UUID : String)
  /-- the closure inside the one of `reloadViewData` -/
  | reloadUsers (view : Nat) (UUID : String)
  | readDataBase (main : Nat) (emailString : String)
  /-- the closure inside the one of `readDataBase` -/
  | readUsers (main : Nat) (dtc : DataVoteCell)
  /-- it captures `index` only; `UUID` is the document that the request deletes -/
  | itemsDelete (main : Nat) (index : Int) (UUID : String)

structure Reply where
  snapshot : Option (List Document)
  error : Bool

def Reply.ok (docs : List Document) : Reply := ⟨some docs, false⟩
def Reply.done : Reply := ⟨none, false⟩
def Reply.failed : Reply := ⟨none, true⟩

inductive Effect where
  | getDocuments (q : Query) (k : Callback)
  | updateData (t : Tap) (p : Path) (c : CollectionId) (document : String) (f : Field) (v : Value)
  | selectRow (view : Nat) (row : Int)
  | titleString (view : Nat) (s : String)
  | descriptionString (view : Nat) (s : String)
  | arr (view : Nat) (variants : List Record)
  | adminStatus (main : Nat) (status : Bool)
  /-- `itemsDtc` changes and is emitted on `items` -/
  | items (main : Nat) (itemsDtc : List DataVoteCell)

/-- `guard error == nil else { return }` and
`guard let requestSnapshot = snapshot?.documents else { fatalError(..) }` -/
def Reply.withDocuments (r : Reply) (body : List Document → Except Fatal (List Effect)) :
    Except Fatal (List Effect) :=
  if r.error then .ok []
  else do
    let requestSnapshot ← guardLet r.snapshot "request snapshot Error"
    body requestSnapshot

@[simp] theorem Reply.withDocuments_ok (docs : List Document)
    (body : List Document → Except Fatal (List Effect)) :
    (Reply.ok docs).withDocuments body = body docs := rfl

theorem Reply.withDocuments_eq_ok {r : Reply} {body : List Document → Except Fatal (List Effect)}
    {es : List Effect} :
    r.withDocuments body = .ok es ↔ (r.error = true ∧ es = []) ∨
      (r.error = false ∧ ∃ ds, r.snapshot = some ds ∧ body ds = .ok es) := by
  unfold Reply.withDocuments
  cases r.error with
  | true => simp [eq_comm]
  | false => simp [bind_eq_ok, guardLet_eq_ok]

/-- `for documents in requestSnapshot { .. }` -/
def forDocuments : List Document → (Document → Except Fatal (List Effect)) →
    Except Fatal (List Effect)
  | [], _ => .ok []
  | d :: ds, body => do
    let es ← body d
    let rest ← forDocuments ds body
    return es ++ rest

section
variable {body : Document → Except Fatal (List Effect)}

theorem forDocuments_singleton (d : Document) : forDocuments [d] body = body d := by
  unfold forDocuments
  cases h : body d with
  | error e => rfl
  | ok es =>
    show Except.ok (es ++ []) = Except.ok es
    rw [List.append_nil]

theorem forDocuments_mem {ds : List Document} {es : List Effect} (h : forDocuments ds body = .ok es)
    {e : Effect} (he : e ∈ es) : ∃ d ∈ ds, ∃ es', body d = .ok es' ∧ e ∈ es' := by
  induction ds generalizing es with
  | nil => cases h; cases he
  | cons d ds ih =>
    obtain ⟨es₁, h1, h2⟩ := bind_eq_ok.mp h
    obtain ⟨es₂, h3, h4⟩ := bind_eq_ok.mp h2
    cases h4
    rcases List.mem_append.mp he with he | he
    · exact ⟨d, List.mem_cons_self, es₁, h1, he⟩
    · obtain ⟨d', hd', hes⟩ := ih h3 he
      exact ⟨d', List.mem_cons_of_mem _ hd', hes⟩

theorem withDocuments_forDocuments_mem {r : Reply} {es : List Effect}
    (h : (r.withDocuments fun ds => forDocuments ds body) = .ok es) {e : Effect} (he : e ∈ es) :
    ∃ ds, r.snapshot = some ds ∧ ∃ d ∈ ds, ∃ es', body d = .ok es' ∧ e ∈ es' := by
  rcases Reply.withDocuments_eq_ok.mp h with ⟨_, rfl⟩ | ⟨_, ds, hds, h⟩
  · cases he
  · exact ⟨ds, hds, forDocuments_mem h he⟩

theorem forDocuments_safe {ds : List Document} {P : Effect → Prop}
    (h : ∀ d ∈ ds, ∃ es, body d = .ok es ∧ ∀ e ∈ es, P e) :
    ∃ es, forDocuments ds body = .ok es ∧ ∀ e ∈ es, P e := by
  induction ds with
  | nil => exact ⟨[], rfl, fun e he => absurd he List.not_mem_nil⟩
  | cons d ds ih =>
    obtain ⟨es₁, h1, hP1⟩ := h d List.mem_cons_self
    obtain ⟨es₂, h2, hP2⟩ := ih fun d' hd' => h d' (List.mem_cons_of_mem _ hd')
    refine ⟨es₁ ++ es₂, ?_, fun e he => ?_⟩
    · unfold forDocuments
      rw [h1, h2]
      rfl
    · rcases List.mem_append.mp he with he | he
      · exact hP1 e he
      · exact hP2 e he

end

end VoteOnOffice
