import VoteOnOffice.App.AddVoteViewModel
import VoteOnOffice.Lib.Machine

/-!
# The add screen: rows come and go, and a save collects their texts

* `AddVoteViewModel.edit`   the edits of the screen; one that traps is not a step;
* `Edit.Allowed`            a deleted row is there, and an earlier save found all its cells;
* `numbered n`              the list `[1, .., n]`;
* `renumber_eq`             the descending loop, whatever numbers it starts from: the rows below `ind`
                            that it has not reached are the ones that the copy still has;
* `Window`                  the part of the table that is visible, with the texts of its rows;
* `Renumbers`, `Saves`      what a save should do;
* `renumbers`               **after any editing a save renumbers the rows and collects them in order**;
* `saves_iff`               **a save succeeds iff every row is visible**.
-/

namespace VoteOnOffice

inductive Edit where
  | addNewVarible
  | deleteRow (index : Int)
  /-- a save, after which the screen is edited on -/
  | variantsArray (cellForRow : Int → Option String)

def AddVoteViewModel.edit (vm : AddVoteViewModel) : Edit → Option AddVoteViewModel
  | .addNewVarible => some vm.addNewVarible
  | .deleteRow index => (vm.deleteRow index).toOption
  | .variantsArray cellForRow => ((vm.variantsArray cellForRow).map Prod.fst).toOption

def Edit.Allowed (vm : AddVoteViewModel) : Edit → Prop
  | .addNewVarible => True
  | .deleteRow index => 0 ≤ index ∧ index < vm.items.length
  | .variantsArray cellForRow => ∀ i < vm.items.length, ∃ text, cellForRow i = some text

/-- `[1, .., n]` -/
def numbered (n : Nat) : List Int := (List.range n).map fun i : Nat => (i : Int) + 1

/-- the rows of `AddVoteView`: its `Variable` holds what has been emitted last -/
def AddVoteViewModel.shown (vm : AddVoteViewModel) : List Int := vm.itemsObs.getLast?.getD []

structure Window where
  first : Nat
  height : Nat
  /-- what has been entered in the rows -/
  text : Nat → String

/-- the cell of a visible row; `rows` is `numberOfRowsInSection` -/
def Window.cellForRow (w : Window) (rows : Nat) (row : Int) : Option String :=
  if 0 ≤ row ∧ row < rows ∧ w.first ≤ row ∧ row < w.first + w.height then some (w.text row.toNat)
  else none

/-- a save that does not trap and has the text of every row at its place -/
def Saves (vm : AddVoteViewModel) (w : Window) : Prop :=
  ∃ vm' array, vm.variantsArray (w.cellForRow vm.shown.length) = .ok (vm', array) ∧
    array.length = vm.items.length ∧
    ∀ i < vm.items.length,
      array[i]?.bind (fun r => Scalar.asString (r .variantName)) = some (w.text i)

/-- a save of a table that has a cell for every row numbers the rows from 1 on, emits the numbers and
collects the texts in the order of the rows -/
def Renumbers (vm : AddVoteViewModel) : Prop :=
  ∀ (cellForRow : Int → Option String) (text : Nat → String),
    (∀ i < vm.items.length, cellForRow (i : Int) = some (text i)) →
      ∃ vm' array, vm.variantsArray cellForRow = .ok (vm', array) ∧
        vm'.items = numbered vm.items.length ∧
        vm'.itemsObs = vm.itemsObs ++ [numbered vm.items.length] ∧
        array.length = vm.items.length ∧
        ∀ i < vm.items.length, array[i]? = some (variant ((i : Int) + 1) (text i))

/-! ## the two loops -/

theorem numbered_succ (n : Nat) : numbered (n+1) = numbered n ++ [(n : Int) + 1] := by
  unfold numbered
  rw [List.range_succ, List.map_append]
  rfl

theorem mem_numbered {n : Nat} {index : Int} : index ∈ numbered n ↔ 1 ≤ index ∧ index ≤ n := by
  unfold numbered
  simp only [List.mem_map, List.mem_range]
  constructor
  · rintro ⟨i, hi, rfl⟩
    omega
  · rintro ⟨h1, h2⟩
    exact ⟨(index - 1).toNat, by omega, by omega⟩

theorem assign_eq {α : Type} {array : List α} {i : Nat} (h : i < array.length) (x : α) :
    assign array i x = .ok (array.set i x) := by
  have hsub : subscript array (i : Int) = .ok array[i] :=
    subscript_eq_ok.mpr ⟨Int.natCast_nonneg i, List.getElem?_eq_getElem h⟩
  unfold assign
  rw [hsub]
  rfl

theorem drop_set_self {α : Type} {l : List α} {k : Nat} (h : k < l.length) (x : α) :
    (l.set k x).drop k = x :: l.drop (k+1) := by
  rw [List.drop_eq_getElem_cons (by rw [List.length_set]; exact h), List.getElem_set_self,
    List.drop_set_of_lt (Nat.lt_succ_self k)]

theorem renumber_eq {copy items : List Int} (h : copy.length ≤ items.length) :
    renumber copy items (copy.length - 1)
      = .ok (numbered copy.length ++ items.drop copy.length) := by
  induction copy generalizing items with
  | nil => rfl
  | cons x copy ih =>
    rw [List.length_cons] at h
    have hind : ((x :: copy).length : Int) - 1 = (copy.length : Int) := by simp
    unfold renumber
    rw [hind, assign_eq (by omega)]
    show renumber copy (items.set copy.length _) _ = _
    rw [ih (by rw [List.length_set]; omega), drop_set_self (by omega), List.length_cons,
      numbered_succ, List.append_assoc]
    rfl

theorem renumber_items (items : List Int) :
    renumber items items (items.length - 1) = .ok (numbered items.length) := by
  rw [renumber_eq (Nat.le_refl _), List.drop_length, List.append_nil]

theorem subscript_numbered {n : Nat} {index : Int} (h : index ∈ numbered n) :
    subscript (numbered n) (index - 1) = .ok index := by
  obtain ⟨h1, h2⟩ := mem_numbered.mp h
  refine subscript_eq_ok.mpr ⟨by omega, ?_⟩
  unfold numbered
  rw [List.getElem?_map, List.getElem?_range (by omega)]
  simp only [Option.map_some, Option.some.injEq]
  omega

section
variable {n : Nat} {cellForRow : Int → Option String}

theorem collect_numbered {text : Nat → String} (hcells : ∀ i < n, cellForRow i = some (text i))
    {l : List Int} (hl : ∀ index ∈ l, index ∈ numbered n) :
    collect (numbered n) cellForRow l
      = .ok (l.map fun index => variant index (text (index - 1).toNat)) := by
  induction l with
  | nil => rfl
  | cons index rest ih =>
    have hindex := hl index List.mem_cons_self
    obtain ⟨h1, h2⟩ := mem_numbered.mp hindex
    have hcell : cellForRow (index - 1) = some (text (index - 1).toNat) := by
      rw [← hcells _ (by omega)]
      congr 1
      omega
    unfold collect
    rw [hcell, subscript_numbered hindex, ih fun x hx => hl x (List.mem_cons_of_mem _ hx)]
    rfl

theorem collect_cells {items l : List Int} {array : List Record}
    (h : collect items cellForRow l = .ok array) :
    ∀ index ∈ l, ∃ text, cellForRow (index - 1) = some text := by
  induction l generalizing array with
  | nil => exact fun index hindex => absurd hindex List.not_mem_nil
  | cons index rest ih =>
    obtain ⟨text, htext, h⟩ := bind_eq_ok.mp h
    obtain ⟨id, _, h⟩ := bind_eq_ok.mp h
    obtain ⟨array', hrest, h⟩ := bind_eq_ok.mp h
    intro x hx
    rcases List.mem_cons.mp hx with rfl | hx
    · exact ⟨text, guardLet_eq_ok.mp htext⟩
    · exact ih hrest x hx

end

section
variable {vm vm' : AddVoteViewModel} {cellForRow : Int → Option String} {array : List Record}

theorem variantsArray_ok {text : Nat → String}
    (hcells : ∀ i < vm.items.length, cellForRow i = some (text i)) :
    vm.variantsArray cellForRow = .ok (⟨numbered vm.items.length,
      vm.itemsObs ++ [numbered vm.items.length]⟩,
        (List.range vm.items.length).map fun i : Nat => variant ((i : Int) + 1) (text i)) := by
  have hitems : variantsArray vm.items cellForRow = .ok (numbered vm.items.length,
      (numbered vm.items.length).map fun index => variant index (text (index - 1).toNat)) := by
    unfold variantsArray
    rw [renumber_items]
    show (collect (numbered vm.items.length) cellForRow _ >>= fun array => _) = _
    rw [collect_numbered hcells fun index h => h]
    rfl
  rw [AddVoteViewModel.variantsArray_eq, hitems]
  unfold numbered
  rw [List.map_map]
  simp [Except.map, Function.comp_def]

theorem variantsArray_cells (h : vm.variantsArray cellForRow = .ok (vm', array)) :
    ∀ i < vm.items.length, ∃ text, cellForRow i = some text := by
  obtain ⟨items, hitems, h⟩ := bind_eq_ok.mp h
  obtain ⟨array', harray, h⟩ := bind_eq_ok.mp h
  cases (renumber_items vm.items).symm.trans hitems
  intro i hi
  have hmem : ((i : Int) + 1) ∈ numbered vm.items.length := mem_numbered.mpr (by omega)
  obtain ⟨text, htext⟩ := collect_cells harray _ hmem
  exact ⟨text, by rwa [Int.add_sub_cancel] at htext⟩

end

/-! ## editing -/

section
variable {vm vm' : AddVoteViewModel} {e : Edit}

theorem subscript_ok {α : Type} {array : List α} {index : Int} (h0 : 0 ≤ index)
    (h : index < array.length) : ∃ x, subscript array index = .ok x :=
  ⟨array[index.toNat], subscript_eq_ok.mpr ⟨h0, List.getElem?_eq_getElem (by omega)⟩⟩

theorem deleteRow_eq_ok {index : Int} : vm.deleteRow index = .ok vm' ↔
    (∃ x, subscript vm.items index = .ok x) ∧
      vm' = AddVoteViewModel.onNext { vm with items := vm.items.eraseIdx index.toNat } := by
  unfold AddVoteViewModel.deleteRow
  rw [bind_eq_ok]
  simp only [pure_eq_ok, exists_and_right]
  rw [eq_comm (a := vm')]

theorem toOption_eq_some {α : Type} {x : Except Fatal α} {a : α} :
    x.toOption = some a ↔ x = .ok a := by
  cases x <;> simp [Except.toOption]

theorem Edit.Allowed.edit (h : e.Allowed vm) : ∃ vm', vm.edit e = some vm' := by
  cases e with
  | addNewVarible => exact ⟨_, rfl⟩
  | deleteRow index =>
    have hok := deleteRow_eq_ok.mpr ⟨subscript_ok h.1 h.2, rfl⟩
    exact ⟨_, toOption_eq_some.mpr hok⟩
  | variantsArray cellForRow =>
    have hcells : ∀ i < vm.items.length, cellForRow i = some ((cellForRow i).getD "") := by
      intro i hi
      obtain ⟨text, htext⟩ := h i hi
      rw [htext]
      rfl
    have hok := @variantsArray_ok vm cellForRow (fun i => (cellForRow i).getD "") hcells
    have hfst := congrArg (Except.map Prod.fst) hok
    exact ⟨_, toOption_eq_some.mpr hfst⟩

theorem shown_onNext (vm : AddVoteViewModel) : vm.onNext.shown = vm.onNext.items := by
  unfold AddVoteViewModel.shown AddVoteViewModel.onNext
  rw [List.getLast?_concat]
  rfl

theorem edit_shown (h : vm.edit e = some vm') : vm'.shown = vm'.items := by
  cases e with
  | addNewVarible =>
    cases h
    exact shown_onNext _
  | deleteRow index =>
    obtain ⟨_, rfl⟩ := deleteRow_eq_ok.mp (toOption_eq_some.mp h)
    exact shown_onNext _
  | variantsArray cellForRow =>
    have hok := toOption_eq_some.mp h
    cases hv : vm.variantsArray cellForRow with
    | error e => rw [hv] at hok; cases hok
    | ok x =>
      rw [hv] at hok
      cases hok
      obtain ⟨items, _, h⟩ := bind_eq_ok.mp hv
      obtain ⟨array, _, h⟩ := bind_eq_ok.mp h
      cases h
      exact shown_onNext { vm with items := items }

theorem shown_of_edits {es : List Edit} (hrun : Machine.exec AddVoteViewModel.edit {} es = some vm) :
    vm.shown = vm.items :=
  Machine.exec_invariant _ (P := fun vm : AddVoteViewModel => vm.shown = vm.items) (A := fun _ => True)
    (fun _ _ _ _ _ h => edit_shown h) (fun _ _ => trivial) hrun rfl

end

/-- **After any editing a save renumbers the rows and collects them in order.** -/
theorem renumbers {es : List Edit}
    (hes : Machine.Along AddVoteViewModel.edit (fun vm e => e.Allowed vm) {} es) :
    ∃ vm, Machine.exec AddVoteViewModel.edit {} es = some vm ∧ Renumbers vm := by
  obtain ⟨vm, hrun⟩ := Machine.exists_exec_of_along _ (fun _ _ h => h.edit) hes
  refine ⟨vm, hrun, fun cellForRow text hcells => ⟨_, _, variantsArray_ok hcells, rfl, rfl, ?_, ?_⟩⟩
  · rw [List.length_map, List.length_range]
  · intro i hi
    rw [List.getElem?_map, List.getElem?_range hi]
    rfl

/-- **A save succeeds, with the text of every row, iff every row is visible.** -/
theorem saves_iff {es : List Edit} {vm : AddVoteViewModel}
    (hrun : Machine.exec AddVoteViewModel.edit {} es = some vm) (w : Window) :
    Saves vm w ↔ ∀ i < vm.items.length, w.first ≤ i ∧ i < w.first + w.height := by
  have hcell : ∀ i < vm.items.length, ∀ text, w.cellForRow vm.shown.length i = some text ↔
      (w.first ≤ i ∧ i < w.first + w.height) ∧ w.text i = text := by
    intro i hi text
    unfold Window.cellForRow
    rw [shown_of_edits hrun]
    by_cases hin : w.first ≤ i ∧ i < w.first + w.height
    · rw [if_pos (by omega)]
      simp [hin]
    · rw [if_neg (by omega)]
      simp [hin]
  constructor
  · rintro ⟨vm', array, h, _⟩ i hi
    obtain ⟨text, htext⟩ := variantsArray_cells h i hi
    exact ((hcell i hi text).mp htext).1
  · intro hin
    have hcells : ∀ i < vm.items.length, w.cellForRow vm.shown.length i = some (w.text i) :=
      fun i hi => (hcell i hi _).mpr ⟨hin i hi, rfl⟩
    refine ⟨_, _, variantsArray_ok hcells, ?_, fun i hi => ?_⟩
    · rw [List.length_map, List.length_range]
    · rw [List.getElem?_map, List.getElem?_range hi]
      rfl

/-- a row comes, another comes, the first goes, a third comes: its number is there twice -/
def edited : List Edit := [.addNewVarible, .addNewVarible, .deleteRow 0, .addNewVarible]

theorem renumbers_edited :
    ∃ vm, Machine.exec AddVoteViewModel.edit {} edited = some vm ∧ Renumbers vm := by
  refine renumbers ?_
  simp only [edited, Machine.along_cons, Machine.along_nil, Edit.Allowed, true_and, and_true,
    implies_true]
  intro vm h vm' h'
  cases h
  cases h'
  decide

/-- seven rows fit on the screen -/
def sevenRows : Window := ⟨0, 7, fun _ => "x"⟩

theorem saves_edited : Saves ⟨[2, 2], [[1], [1, 2], [2], [2, 2]]⟩ sevenRows ↔
    ∀ i < 2, sevenRows.first ≤ i ∧ i < sevenRows.first + sevenRows.height :=
  @saves_iff edited _ rfl sevenRows

/-- **The eighth row is not visible, and the save traps on it.** -/
theorem eighth_row : ∃ vm,
    Machine.exec AddVoteViewModel.edit {} (List.replicate 8 .addNewVarible) = some vm ∧
    vm.variantsArray (sevenRows.cellForRow vm.shown.length)
      = .error (.fatalError "Error Cell convert") ∧
    ¬ Saves vm sevenRows := by
  refine ⟨_, rfl, rfl, ?_⟩
  rintro ⟨vm', array, h, _⟩
  cases h

end VoteOnOffice
