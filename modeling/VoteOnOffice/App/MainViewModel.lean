import VoteOnOffice.App.VoteViewModel

/-!
# `MainViewModel`: the list of votes

`readDataBase` reads all votes and, once for every vote found, the user's document; the inner closure
sets the row's status and appends the row to `itemsDtc`.  `itemsDelete(index)` asks the cloud to
delete the document of row `index`; its closure removes the row that is at `index` by then.
-/

namespace VoteOnOffice

/-- `dataVoteInit` of `MainModel` -/
def dataVoteInit (documents : Document) : DataVoteCell :=
  match Value.asString (documents .voteTitle) with
  | none => {}
  | some dvcTitle =>
    match Value.asString (documents .voteDate) with
    | none => { title := dvcTitle }
    | some dvcTime =>
      match Value.asString (documents .voteUUID) with
      | none => { title := dvcTitle, time := dvcTime }
      | some dvcUUID => { title := dvcTitle, time := dvcTime, UUID := dvcUUID }

def readDataBase (main : Nat) (emailString : String) : Effect :=
  .getDocuments .votes (.readDataBase main emailString)

def readDataBaseClosure (main : Nat) (emailString : String) (r : Reply) :
    Except Fatal (List Effect) :=
  r.withDocuments fun requestSnapshot =>
    forDocuments requestSnapshot fun documents =>
      .ok [.getDocuments (.usersWhere emailString) (.readUsers main (dataVoteInit documents))]

theorem readDataBaseClosure_ok (main : Nat) (emailString : String) (ds : List Document) :
    readDataBaseClosure main emailString (.ok ds) = .ok (ds.map fun d =>
      .getDocuments (.usersWhere emailString) (.readUsers main (dataVoteInit d))) := by
  show forDocuments ds _ = _
  induction ds with
  | nil => rfl
  | cons d ds ih =>
    unfold forDocuments
    rw [ih]
    rfl

theorem readDataBaseClosure_mem {main : Nat} {emailString : String} {r : Reply} {es : List Effect}
    (h : readDataBaseClosure main emailString r = .ok es) {e : Effect} (he : e ∈ es) :
    ∃ ds, r.snapshot = some ds ∧ ∃ d ∈ ds,
      e = .getDocuments (.usersWhere emailString) (.readUsers main (dataVoteInit d)) := by
  obtain ⟨ds, hds, d, hd, es', h, he⟩ := withDocuments_forDocuments_mem h he
  cases h
  exact ⟨ds, hds, d, hd, List.mem_singleton.mp he⟩

/-- the loop of the inner closure; `dtc` and `itemsDtc` are the variables it changes -/
def readUsersLoop (main : Nat) : DataVoteCell → List DataVoteCell → List Document →
    Except Fatal (List Effect)
  | _, _, [] => .ok []
  | dtc, itemsDtc, documents :: rest => do
    let status ← guardLet (Value.asBool (documents .userRole)) "Error admin status"
    let arrays ← guardLet (Value.asRecords (documents .userVotesList)) "Error convert array"
    let even := arrays.filter (isFor dtc.UUID)
    let dtc := if even.isEmpty then dtc else { dtc with status := true }
    let itemsDtc := itemsDtc ++ [dtc]
    let es ← readUsersLoop main dtc itemsDtc rest
    return .adminStatus main status :: .items main itemsDtc :: es

def readUsersClosure (main : Nat) (dtc : DataVoteCell) (itemsDtc : List DataVoteCell) (r : Reply) :
    Except Fatal (List Effect) :=
  r.withDocuments fun requestSnapshot => readUsersLoop main dtc itemsDtc requestSnapshot

/-- the row as the inner closure shows it to a user with the list `arrays` -/
def DataVoteCell.shown (dtc : DataVoteCell) (arrays : List Record) : DataVoteCell :=
  if (arrays.filter (isFor dtc.UUID)).isEmpty then dtc else { dtc with status := true }

@[simp] theorem DataVoteCell.shown_UUID (dtc : DataVoteCell) (arrays : List Record) :
    (dtc.shown arrays).UUID = dtc.UUID := by
  unfold DataVoteCell.shown
  split <;> rfl

theorem readUsersLoop_cons {main : Nat} {dtc : DataVoteCell} {itemsDtc : List DataVoteCell}
    {d : Document} {ds : List Document} {es : List Effect} :
    readUsersLoop main dtc itemsDtc (d :: ds) = .ok es ↔ ∃ status arrays es',
      Value.asBool (d .userRole) = some status ∧ d .userVotesList = some (.records arrays) ∧
      readUsersLoop main (dtc.shown arrays) (itemsDtc ++ [dtc.shown arrays]) ds = .ok es' ∧
      .adminStatus main status :: .items main (itemsDtc ++ [dtc.shown arrays]) :: es' = es := by
  show (guardLet (Value.asBool (d .userRole)) _ >>= fun status =>
    guardLet (Value.asRecords (d .userVotesList)) _ >>= fun arrays =>
    readUsersLoop main (dtc.shown arrays) (itemsDtc ++ [dtc.shown arrays]) ds >>= fun es' =>
    pure (.adminStatus main status :: .items main (itemsDtc ++ [dtc.shown arrays]) :: es')) = _ ↔ _
  simp only [bind_eq_ok, guardLet_eq_ok, Value.asRecords_eq_some, pure_eq_ok, exists_and_left]

theorem readUsersLoop_mem {main : Nat} {dtc : DataVoteCell} {itemsDtc : List DataVoteCell}
    {ds : List Document} {es : List Effect} (h : readUsersLoop main dtc itemsDtc ds = .ok es)
    {e : Effect} (he : e ∈ es) :
    (∃ status, e = .adminStatus main status) ∨ ∃ l, e = .items main l := by
  induction ds generalizing dtc itemsDtc es with
  | nil => cases h; cases he
  | cons d ds ih =>
    obtain ⟨status, arrays, es', _, _, h', rfl⟩ := readUsersLoop_cons.mp h
    simp only [List.mem_cons] at he
    rcases he with rfl | rfl | he
    · exact .inl ⟨_, rfl⟩
    · exact .inr ⟨_, rfl⟩
    · exact ih h' he

def itemsDeleteAll (main : Nat) : Effect := .items main []

/-- `self.itemsDtc.remove(at: index)` once the document is gone -/
def itemsDeleteClosure (main : Nat) (index : Int) (itemsDtc : List DataVoteCell) (r : Reply) :
    Except Fatal (List Effect) :=
  if r.error then .ok []
  else do
    let _ ← subscript itemsDtc index
    return [.items main (itemsDtc.eraseIdx index.toNat)]

theorem readUsersClosure_mem {main : Nat} {dtc : DataVoteCell} {itemsDtc : List DataVoteCell}
    {r : Reply} {es : List Effect} (h : readUsersClosure main dtc itemsDtc r = .ok es) {e : Effect}
    (he : e ∈ es) : (∃ status, e = .adminStatus main status) ∨ ∃ l, e = .items main l := by
  rcases Reply.withDocuments_eq_ok.mp h with ⟨_, rfl⟩ | ⟨_, ds, _, h⟩
  · cases he
  · exact readUsersLoop_mem h he

theorem itemsDeleteClosure_eq_ok {main : Nat} {index : Int} {itemsDtc : List DataVoteCell}
    {r : Reply} {es : List Effect} :
    itemsDeleteClosure main index itemsDtc r = .ok es ↔ (r.error = true ∧ es = []) ∨
      (r.error = false ∧ (∃ dtc, subscript itemsDtc index = .ok dtc) ∧
        es = [.items main (itemsDtc.eraseIdx index.toNat)]) := by
  unfold itemsDeleteClosure
  cases r.error with
  | true => simp [eq_comm]
  | false =>
    cases subscript itemsDtc index with
    | error _ => simp
    | ok dtc => simp [eq_comm]

theorem itemsDeleteClosure_mem {main : Nat} {index : Int} {itemsDtc : List DataVoteCell}
    {r : Reply} {es : List Effect} (h : itemsDeleteClosure main index itemsDtc r = .ok es)
    {e : Effect} (he : e ∈ es) : ∃ l, e = .items main l := by
  rcases itemsDeleteClosure_eq_ok.mp h with ⟨_, rfl⟩ | ⟨_, _, rfl⟩
  · cases he
  · exact ⟨_, List.mem_singleton.mp he⟩

end VoteOnOffice
