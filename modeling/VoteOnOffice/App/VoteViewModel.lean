import VoteOnOffice.App.Closure

/-!
# `VoteViewModel`: reloading the vote screen and casting a ballot

`tabOnCell` reads the user's document; its closure goes to `voteFirst` when the user's list has no
entry for the vote, else to `voteSecond` with the row of the first entry.  Both read the vote's
document and write back the whole array of its variants and the user's whole list:

* `voteFirst` writes the list at once, from the copy that `tabOnCell` read, and later the array;
* `voteSecond` writes both in the closure of its own read.

`firstCount`, `secondCount` are the assignments to the array inside the two closures.
-/

namespace VoteOnOffice

/-- `$0["voteUUID"] as? String == UUID` -/
def isFor (UUID : String) (r : Record) : Bool := Scalar.asString (r .voteUUID) = some UUID

/-- `["voteUUID": UUID, "voteVariantID": index]` -/
def ballot (UUID : String) (index : Int) : Record :=
  Function.update (Function.update (fun _ => none) .voteUUID (some (.str UUID)))
    .voteVariantID (some (.int index))

@[simp] theorem isFor_ballot (UUID V : String) (index : Int) :
    isFor V (ballot UUID index) = decide (UUID = V) := by
  simp [isFor, ballot, Function.update, Scalar.asString]

@[simp] theorem ballot_row (UUID : String) (index : Int) :
    ballot UUID index .voteVariantID = some (.int index) := rfl

/-! ## `reloadViewData` -/

def reloadViewData (view : Nat) (emailString UUID : String) : Effect :=
  .getDocuments (.votesWhere UUID) (.reloadViewData view emailString UUID)

def reloadViewDataClosure (view : Nat) (emailString UUID : String) (r : Reply) :
    Except Fatal (List Effect) :=
  r.withDocuments fun requestSnapshot =>
    forDocuments requestSnapshot fun documents => do
      let title ← unwrap (Value.asString (documents .voteTitle))
      let description ← unwrap (Value.asString (documents .voteDescription))
      let arrVariants ← guardLet (Value.asRecords (documents .voteVariants)) "Error in a reload data"
      return [.getDocuments (.usersWhere emailString) (.reloadUsers view UUID),
        .titleString view title, .descriptionString view description, .arr view arrVariants]

def reloadUsersClosure (view : Nat) (UUID : String) (r : Reply) : Except Fatal (List Effect) :=
  r.withDocuments fun requestSnapshot =>
    forDocuments requestSnapshot fun documents => do
      let arrays ← guardLet (Value.asRecords (documents .userVotesList)) "Error in a reload data"
      let even := arrays.filter (isFor UUID)
      if even.isEmpty then return []
      else
        let evenFirst ← guardLet (even.head?.bind fun r => Scalar.asInt (r .voteVariantID))
          "Even first is not be"
        return [.selectRow view evenFirst]

theorem reloadViewDataClosure_mem {view : Nat} {emailString UUID : String} {r : Reply}
    {es : List Effect} (h : reloadViewDataClosure view emailString UUID r = .ok es) {e : Effect}
    (he : e ∈ es) :
    e = .getDocuments (.usersWhere emailString) (.reloadUsers view UUID) ∨
      (∃ x, e = .titleString view x) ∨ (∃ x, e = .descriptionString view x) ∨
      ∃ ds, r.snapshot = some ds ∧ ∃ d ∈ ds, ∃ variants,
        d .voteVariants = some (.records variants) ∧ e = .arr view variants := by
  obtain ⟨ds, hds, d, hd, es', h, he⟩ := withDocuments_forDocuments_mem h he
  obtain ⟨title, _, h⟩ := bind_eq_ok.mp h
  obtain ⟨description, _, h⟩ := bind_eq_ok.mp h
  obtain ⟨variants, hv, h⟩ := bind_eq_ok.mp h
  cases h
  simp only [List.mem_cons, List.not_mem_nil, or_false] at he
  rcases he with rfl | rfl | rfl | rfl
  · exact .inl rfl
  · exact .inr (.inl ⟨_, rfl⟩)
  · exact .inr (.inr (.inl ⟨_, rfl⟩))
  · exact .inr (.inr (.inr ⟨ds, hds, d, hd, variants,
      Value.asRecords_eq_some.mp (guardLet_eq_ok.mp hv), rfl⟩))

theorem reloadUsersClosure_mem {view : Nat} {UUID : String} {r : Reply} {es : List Effect}
    (h : reloadUsersClosure view UUID r = .ok es) {e : Effect} (he : e ∈ es) :
    ∃ ds, r.snapshot = some ds ∧ ∃ d ∈ ds, ∃ arrays, d .userVotesList = some (.records arrays) ∧
      arrays.filter (isFor UUID) ≠ [] ∧ ∃ row, e = .selectRow view row := by
  obtain ⟨ds, hds, d, hd, es', h, he⟩ := withDocuments_forDocuments_mem h he
  obtain ⟨arrays, ha, h⟩ := bind_eq_ok.mp h
  refine ⟨ds, hds, d, hd, arrays, Value.asRecords_eq_some.mp (guardLet_eq_ok.mp ha), ?_⟩
  cases heven : arrays.filter (isFor UUID) with
  | nil =>
    rw [heven] at h
    cases h
    cases he
  | cons x l =>
    rw [heven] at h
    obtain ⟨row, _, h⟩ := bind_eq_ok.mp h
    cases h
    exact ⟨List.cons_ne_nil _ _, row, List.mem_singleton.mp he⟩

/-! ## `voteFirst` -/

/-- `array[index]["variantVoteStatus"] = mutationValue + 1` -/
def firstCount (array : List Record) (index : Int) : Except Fatal (List Record) := do
  let mutationValue ← getStatus array index "Error covernant voteFirst value"
  setStatus array index (mutationValue + 1)

def voteFirst (t : Tap) (arrays : List Record) : List Effect :=
  let arraysDB := arrays ++ [ballot t.UUID t.index]
  [.updateData t .first .users t.emailString .userVotesList (.records arraysDB),
    .getDocuments (.votesWhere t.UUID) (.voteFirst t)]

def voteFirstClosure (t : Tap) (r : Reply) : Except Fatal (List Effect) :=
  r.withDocuments fun requestSnapshot => do
    let writes ← forDocuments requestSnapshot fun documents => do
      let array ← guardLet (Value.asRecords (documents .voteVariants)) "VoteFirst Error"
      let array ← firstCount array t.index
      return [.updateData t .first .votes t.UUID .voteVariants (.records array)]
    return writes ++ [.selectRow t.view t.index]

/-! ## `voteSecond` -/

/-- `array[extraIndex]` loses one; `mutationValue2` is read back from `array[extraIndex]`, and
`array[index]` becomes `mutationValue2 + 1` -/
def secondCount (array : List Record) (index extraIndex : Int) : Except Fatal (List Record) := do
  let mutationValue1 ← getStatus array extraIndex "Error covernant voteSecond value"
  let array ← setStatus array extraIndex (mutationValue1 - 1)
  let mutationValue2 ← getStatus array extraIndex "Error covernant voteSecond value"
  setStatus array index (mutationValue2 + 1)

def voteSecond (t : Tap) (arrays : List Record) (extraIndex : Int) : List Effect :=
  [.getDocuments (.votesWhere t.UUID) (.voteSecond t arrays extraIndex)]

def voteSecondClosure (t : Tap) (arrays : List Record) (extraIndex : Int) (r : Reply) :
    Except Fatal (List Effect) :=
  r.withDocuments fun requestSnapshot => do
    let writes ← forDocuments requestSnapshot fun documents => do
      let array ← guardLet (Value.asRecords (documents .voteVariants)) "Error in a voteSecond"
      let array ← secondCount array t.index extraIndex
      let even := arrays.filter (fun r => !isFor t.UUID r) ++ [ballot t.UUID t.index]
      return [.updateData t (.second extraIndex) .votes t.UUID .voteVariants (.records array),
        .updateData t (.second extraIndex) .users t.emailString .userVotesList (.records even)]
    return writes ++ [.selectRow t.view t.index]

/-! ## `tabOnCell` -/

def tabOnCell (t : Tap) : Effect := .getDocuments (.usersWhere t.emailString) (.tabOnCell t)

def tabOnCellClosure (t : Tap) (r : Reply) : Except Fatal (List Effect) :=
  r.withDocuments fun requestSnapshot =>
    forDocuments requestSnapshot fun documents => do
      let arrays ← guardLet (Value.asRecords (documents .userVotesList)) "Error covernant array"
      let even := arrays.filter (isFor t.UUID)
      if even.isEmpty then return voteFirst t arrays
      else
        let evenFirst ← guardLet even.head? "Even first is not be"
        let select ← guardLet (Scalar.asInt (evenFirst .voteVariantID)) "Error select row"
        return voteSecond t arrays select

end VoteOnOffice
