import VoteOnOffice.App.Closure
import VoteOnOffice.Cloud.Reference

/-!
# New documents: `AddVoteViewModel` and `SignUpViewModel`

`addNewVote` writes one document of `Votes` under a new UUID; its variants come from the rows of the
table (`variantsArray`).  A sign-up writes the document at the path `Users/email`.

The structure `AddVoteViewModel` has the row numbers and what has been emitted; its functions are
the ones that the screen calls.  `cellForRow` is what `table.cellForRow(at:) as? AddVoteCell` gives
for a row: the text of its cell.
-/

namespace VoteOnOffice

/-- `array[ind] = x` -/
def assign {α : Type} (array : List α) (ind : Int) (x : α) : Except Fatal (List α) := do
  let _ ← subscript array ind
  return array.set ind.toNat x

/-- `for _ in items { items[ind] = ind + 1; ind -= 1 }`, which walks over a copy of `items` -/
def renumber : List Int → List Int → Int → Except Fatal (List Int)
  | [], items, _ => .ok items
  | _ :: copy, items, ind => do
    let items ← assign items ind (ind + 1)
    renumber copy items (ind - 1)

def variant (variantId : Int) (text : String) : Record := fun
  | .variantId => some (.int variantId)
  | .variantImgURL => some (.str "")
  | .variantName => some (.str text)
  | .variantVoteStatus => some (.int 0)
  | _ => none

/-- `for index in items { .. }` -/
def collect (items : List Int) (cellForRow : Int → Option String) :
    List Int → Except Fatal (List Record)
  | [] => .ok []
  | index :: rest => do
    let text ← guardLet (cellForRow (index - 1)) "Error Cell convert"
    let id ← subscript items (index - 1)
    let array ← collect items cellForRow rest
    return variant id text :: array

/-- the renumbered `items`, and the variants -/
def variantsArray (items : List Int) (cellForRow : Int → Option String) :
    Except Fatal (List Int × List Record) := do
  let items ← renumber items items (items.length - 1)
  let array ← collect items cellForRow items
  return (items, array)

/-- the row numbers, and what `itemsObs` has emitted so far -/
structure AddVoteViewModel where
  items : List Int := []
  itemsObs : List (List Int) := []

/-- `itemsObs.onNext(items)` -/
def AddVoteViewModel.onNext (vm : AddVoteViewModel) : AddVoteViewModel :=
  { vm with itemsObs := vm.itemsObs ++ [vm.items] }

def AddVoteViewModel.addNewVarible (vm : AddVoteViewModel) : AddVoteViewModel :=
  AddVoteViewModel.onNext { vm with items := vm.items ++ [(vm.items.length : Int) + 1] }

def AddVoteViewModel.deleteRow (vm : AddVoteViewModel) (index : Int) :
    Except Fatal AddVoteViewModel := do
  let _ ← subscript vm.items index
  return AddVoteViewModel.onNext { vm with items := vm.items.eraseIdx index.toNat }

def AddVoteViewModel.variantsArray (vm : AddVoteViewModel) (cellForRow : Int → Option String) :
    Except Fatal (AddVoteViewModel × List Record) := do
  let items ← renumber vm.items vm.items (vm.items.length - 1)
  let vm := AddVoteViewModel.onNext { vm with items := items }
  let array ← collect vm.items cellForRow vm.items
  return (vm, array)

/-- the emission between the two loops is all that the screen sees of them -/
theorem AddVoteViewModel.variantsArray_eq (vm : AddVoteViewModel) (cellForRow : Int → Option String) :
    vm.variantsArray cellForRow = (VoteOnOffice.variantsArray vm.items cellForRow).map fun x =>
      (⟨x.1, vm.itemsObs ++ [x.1]⟩, x.2) := by
  unfold AddVoteViewModel.variantsArray VoteOnOffice.variantsArray
  cases renumber vm.items vm.items (vm.items.length - 1) with
  | error e => rfl
  | ok items =>
    show (collect items cellForRow items >>= fun array => _) = Except.map _
      (collect items cellForRow items >>= fun array => _)
    cases collect items cellForRow items <;> rfl

/-- `docData` of `addNewVote` -/
def voteData (voteDate description title uuid : String) (variants : List Record) : Document := fun
  | .voteDate => some (.scalar (.str voteDate))
  | .voteDescription => some (.scalar (.str description))
  | .voteStatus => some (.scalar (.bool false))
  | .voteTitle => some (.scalar (.str title))
  | .voteUUID => some (.scalar (.str uuid))
  | .voteVariants => some (.records variants)
  | _ => none

/-- `docData` of `loginInSistem` in `SignUpViewModel` -/
def userData (email : String) : Document := fun
  | .userEmail => some (.scalar (.str email))
  | .userRole => some (.scalar (.bool false))
  | .userVotesList => some (.records [])
  | _ => none

/-- `setData(docData)` at `document(email)`; what is below a document of `Users` is in neither
collection -/
def Database.setUser (db : Database) (email : String) : Database :=
  match userDocument email with
  | some id => db.setData .users id (userData email)
  | none => db

theorem Database.setUser_users (db : Database) (email id : String) :
    (db.setUser email).users.lookup id =
      if userDocument email = some id then some (userData email) else db.users.lookup id := by
  unfold Database.setUser
  cases h : userDocument email with
  | none => simp
  | some id' =>
    show (db.users.insert id' (userData email)).lookup id = _
    by_cases hid : id = id'
    · rw [hid, AList.lookup_insert, if_pos rfl]
    · rw [AList.lookup_insert_ne hid, if_neg fun h => hid (Option.some.inj h).symm]

theorem collect_variants {items : List Int} {cellForRow : Int → Option String} {l : List Int}
    {array : List Record} (h : collect items cellForRow l = .ok array) :
    array.length = l.length ∧ ∀ r ∈ array, ∃ id text, r = variant id text := by
  induction l generalizing array with
  | nil =>
    cases h
    exact ⟨rfl, fun r hr => absurd hr List.not_mem_nil⟩
  | cons index rest ih =>
    obtain ⟨text, _, h⟩ := bind_eq_ok.mp h
    obtain ⟨id, _, h⟩ := bind_eq_ok.mp h
    obtain ⟨array', h', h⟩ := bind_eq_ok.mp h
    cases h
    obtain ⟨hlen, hall⟩ := ih h'
    refine ⟨by rw [List.length_cons, List.length_cons, hlen], fun r hr => ?_⟩
    rcases List.mem_cons.mp hr with rfl | hr
    · exact ⟨id, text, rfl⟩
    · exact hall r hr

theorem variantsArray_variants {items items' : List Int} {cellForRow : Int → Option String}
    {array : List Record} (h : variantsArray items cellForRow = .ok (items', array)) :
    ∀ r ∈ array, ∃ id text, r = variant id text := by
  obtain ⟨items₁, _, h⟩ := bind_eq_ok.mp h
  obtain ⟨array₁, hc, h⟩ := bind_eq_ok.mp h
  cases h
  exact (collect_variants hc).2

end VoteOnOffice
