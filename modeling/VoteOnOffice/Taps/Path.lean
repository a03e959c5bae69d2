import VoteOnOffice.App.VoteViewModel

/-!
# What a tap computes from what it has read

* `pathOf UUID arrays`          the way a tap takes on the user's list;
* `cast UUID index arrays`      the list that it writes, on either way;
* `Path.count p index array`    the array of variants that it writes;
* `entries`, `rows`             the entries of a list for one vote, and the rows they name.

`statusAt_firstCount` and `statusAt_secondCount` say what the two ways do to the counters:
`voteFirst` adds one to the tapped row; `voteSecond` takes one from the old row and gives the tapped
row THE OLD COUNT OF THE OLD ROW.
-/

namespace VoteOnOffice

/-- the entries of a user's list for the vote `UUID` -/
def entries (UUID : String) (arrays : List Record) : List Record := arrays.filter (isFor UUID)

/-- the rows that the entries for the vote `UUID` name -/
def rows (UUID : String) (arrays : List Record) : List (Option Int) :=
  (entries UUID arrays).map fun r => Scalar.asInt (r .voteVariantID)

def pathOf (UUID : String) (arrays : List Record) : Except Fatal Path :=
  if (entries UUID arrays).isEmpty then .ok .first
  else do
    let evenFirst ← guardLet (entries UUID arrays).head? "Even first is not be"
    let select ← guardLet (Scalar.asInt (evenFirst .voteVariantID)) "Error select row"
    return .second select

def cast (UUID : String) (index : Int) (arrays : List Record) : List Record :=
  arrays.filter (fun r => !isFor UUID r) ++ [ballot UUID index]

def Path.count (p : Path) (index : Int) (array : List Record) : Except Fatal (List Record) :=
  match p with
  | .first => firstCount array index
  | .second extraIndex => secondCount array index extraIndex

/-- what `tabOnCell` calls on the way `p` -/
def Path.call (p : Path) (t : Tap) (arrays : List Record) : List Effect :=
  match p with
  | .first => voteFirst t arrays
  | .second extraIndex => voteSecond t arrays extraIndex

/-! ## the list -/

theorem pathOf_eq_first {UUID : String} {arrays : List Record} :
    pathOf UUID arrays = .ok .first ↔ entries UUID arrays = [] := by
  unfold pathOf
  cases h : entries UUID arrays with
  | nil => simp
  | cons r l =>
    simp only [List.isEmpty_cons, Bool.false_eq_true, if_false, List.head?_cons, guardLet_some,
      bind_eq_ok, reduceCtorEq, iff_false]
    rintro ⟨a, h1, n, _, h2⟩
    exact absurd (pure_eq_ok.mp h2) (by simp)

theorem pathOf_eq_second {UUID : String} {arrays : List Record} {extraIndex : Int} :
    pathOf UUID arrays = .ok (.second extraIndex) ↔ (rows UUID arrays).head? = some (some extraIndex) := by
  unfold pathOf rows
  cases h : entries UUID arrays with
  | nil => simp
  | cons r l =>
    simp only [List.isEmpty_cons, Bool.false_eq_true, if_false, List.head?_cons, guardLet_some,
      bind_eq_ok, pure_eq_ok, guardLet_eq_ok, Except.ok.injEq, exists_eq_left', List.map_cons,
      Option.some.injEq, Path.second.injEq, exists_eq_right]

/-- `voteFirst` writes `cast` too: there is no entry to drop -/
theorem append_eq_cast {UUID : String} {arrays : List Record} (h : entries UUID arrays = [])
    (index : Int) : arrays ++ [ballot UUID index] = cast UUID index arrays := by
  unfold cast
  rw [List.filter_eq_self.mpr]
  intro r hr
  have h1 := List.filter_eq_nil_iff.mp h r hr
  simpa using h1

theorem entries_cast_self (UUID : String) (index : Int) (arrays : List Record) :
    entries UUID (cast UUID index arrays) = [ballot UUID index] := by
  unfold entries cast
  rw [List.filter_append, List.filter_filter]
  simp

theorem entries_cast_ne {UUID V : String} (h : V ≠ UUID) (index : Int) (arrays : List Record) :
    entries V (cast UUID index arrays) = entries V arrays := by
  unfold entries cast
  have hb : isFor V (ballot UUID index) = false := by
    rw [isFor_ballot]; exact decide_eq_false (Ne.symm h)
  rw [List.filter_append, List.filter_filter, List.filter_cons, hb]
  simp only [Bool.false_eq_true, if_false, List.filter_nil, List.append_nil]
  apply List.filter_congr
  intro r _
  cases hV : isFor V r with
  | false => rfl
  | true =>
    have hU : isFor UUID r = false := by
      unfold isFor at hV ⊢
      rw [of_decide_eq_true hV]
      simpa using h
    rw [hU]; rfl

theorem rows_cast_self (UUID : String) (index : Int) (arrays : List Record) :
    rows UUID (cast UUID index arrays) = [some index] := by
  unfold rows
  rw [entries_cast_self]
  rfl

theorem rows_cast_ne {UUID V : String} (h : V ≠ UUID) (index : Int) (arrays : List Record) :
    rows V (cast UUID index arrays) = rows V arrays := by
  unfold rows
  rw [entries_cast_ne h]

/-- casting the same ballot again changes nothing, not even the order -/
theorem cast_cast (UUID : String) (index : Int) (arrays : List Record) :
    cast UUID index (cast UUID index arrays) = cast UUID index arrays := by
  unfold cast
  rw [List.filter_append, List.filter_filter, List.filter_cons_of_neg (by simp)]
  simp

theorem filter_cast (UUID : String) (index : Int) (arrays : List Record) :
    (cast UUID index arrays).filter (fun r => !isFor UUID r)
      = arrays.filter fun r => !isFor UUID r := by
  unfold cast
  rw [List.filter_append, List.filter_filter, List.filter_cons_of_neg (by simp)]
  simp

/-! ## the counters -/

theorem firstCount_eq_ok {array array' : List Record} {index : Int} :
    firstCount array index = .ok array' ↔ ∃ n, 0 ≤ index ∧ statusAt array index.toNat = some n ∧
      setStatus array index (n + 1) = .ok array' := by
  unfold firstCount
  simp only [bind_eq_ok, getStatus_eq_ok, and_assoc]

/-- `voteFirst` adds one to the tapped row -/
theorem statusAt_firstCount {array array' : List Record} {index : Int}
    (h : firstCount array index = .ok array') (i : Nat) :
    statusAt array' i = if i = index.toNat then (statusAt array i).map (· + 1) else statusAt array i := by
  obtain ⟨n, h0, hn, hs⟩ := firstCount_eq_ok.mp h
  rw [statusAt_setStatus hs]
  by_cases hi : i = index.toNat
  · rw [if_pos hi, if_pos hi, hi, hn]; rfl
  · rw [if_neg hi, if_neg hi]

theorem secondCount_eq_ok {array array' : List Record} {index extraIndex : Int} :
    secondCount array index extraIndex = .ok array' ↔
      ∃ n array₁, 0 ≤ extraIndex ∧ statusAt array extraIndex.toNat = some n ∧
        setStatus array extraIndex (n - 1) = .ok array₁ ∧
        setStatus array₁ index n = .ok array' := by
  unfold secondCount
  simp only [bind_eq_ok, getStatus_eq_ok]
  constructor
  · rintro ⟨n, ⟨h0, hn⟩, array₁, h1, m, ⟨_, hm⟩, h2⟩
    rw [statusAt_setStatus h1, if_pos rfl] at hm
    obtain rfl : n - 1 = m := by simpa using hm
    exact ⟨n, array₁, h0, hn, h1, by rwa [Int.sub_add_cancel] at h2⟩
  · rintro ⟨n, array₁, h0, hn, h1, h2⟩
    refine ⟨n, ⟨h0, hn⟩, array₁, h1, n - 1, ⟨h0, ?_⟩, by rwa [Int.sub_add_cancel]⟩
    rw [statusAt_setStatus h1, if_pos rfl]

/-- `voteSecond` takes one from the old row and gives the tapped row the old row's old count -/
theorem statusAt_secondCount {array array' : List Record} {index extraIndex : Int}
    (h : secondCount array index extraIndex = .ok array') (i : Nat) :
    statusAt array' i =
      if i = index.toNat then statusAt array extraIndex.toNat
      else if i = extraIndex.toNat then (statusAt array i).map (· - 1)
      else statusAt array i := by
  obtain ⟨n, array₁, h0, hn, h1, h2⟩ := secondCount_eq_ok.mp h
  rw [statusAt_setStatus h2, statusAt_setStatus h1]
  by_cases hi : i = index.toNat
  · rw [if_pos hi, if_pos hi, hn]
  · rw [if_neg hi, if_neg hi]
    by_cases he : i = extraIndex.toNat
    · rw [if_pos he, if_pos he, he, hn]; rfl
    · rw [if_neg he, if_neg he]

theorem secondCount_same {array : List Record} {index n : Int} (h0 : 0 ≤ index)
    (hn : statusAt array index.toNat = some n) : secondCount array index index = .ok array := by
  obtain ⟨array₁, h1⟩ := setStatus_of_statusAt h0 hn (n - 1)
  refine secondCount_eq_ok.mpr ⟨n, array₁, h0, hn, h1, ?_⟩
  obtain ⟨_, r, hr, rfl⟩ := setStatus_eq_ok.mp h1
  obtain ⟨hlt, hrr⟩ := List.getElem?_eq_some_iff.mp hr
  have hself := setStatus_self h0 hn
  obtain ⟨_, r', hr', e⟩ := setStatus_eq_ok.mp hself
  rw [hr] at hr'
  cases hr'
  refine setStatus_eq_ok.mpr ⟨h0, _, List.getElem?_set_self hlt, ?_⟩
  rw [List.set_set, Function.update_idem]
  exact e

theorem inRange_secondCount {array array' : List Record} {index extraIndex : Int}
    (h : secondCount array index extraIndex = .ok array') :
    (0 ≤ extraIndex ∧ extraIndex.toNat < array.length) ∧ 0 ≤ index ∧ index.toNat < array.length := by
  obtain ⟨_, array₁, he, hn, h1, h2⟩ := secondCount_eq_ok.mp h
  obtain ⟨hi, _, hget, _⟩ := setStatus_eq_ok.mp h2
  have hlt := (List.getElem?_eq_some_iff.mp hget).1
  rw [length_setStatus h1] at hlt
  exact ⟨⟨he, statusAt_some_lt hn⟩, hi, hlt⟩

theorem length_count {p : Path} {index : Int} {array array' : List Record}
    (h : p.count index array = .ok array') : array'.length = array.length := by
  cases p with
  | first =>
    obtain ⟨_, _, _, hs⟩ := firstCount_eq_ok.mp h
    exact length_setStatus hs
  | second extraIndex =>
    obtain ⟨_, array₁, _, _, h1, h2⟩ := secondCount_eq_ok.mp h
    rw [length_setStatus h2, length_setStatus h1]

theorem field_count {p : Path} {index : Int} {array array' : List Record}
    (h : p.count index array = .ok array') {f : Field} (hf : f ≠ .variantVoteStatus) (i : Nat) :
    array'[i]?.map (fun r => r f) = array[i]?.map (fun r => r f) := by
  cases p with
  | first =>
    obtain ⟨_, _, _, hs⟩ := firstCount_eq_ok.mp h
    exact field_setStatus hs hf i
  | second extraIndex =>
    obtain ⟨_, array₁, _, _, h1, h2⟩ := secondCount_eq_ok.mp h
    rw [field_setStatus h2 hf i, field_setStatus h1 hf i]

theorem getElem?_count {p : Path} {index : Int} {array array' : List Record}
    (h : p.count index array = .ok array') {i : Nat} (hi : (i : Int) ≠ index)
    (hold : p ≠ .second i) : array'[i]? = array[i]? := by
  cases p with
  | first =>
    obtain ⟨_, h0, _, hs⟩ := firstCount_eq_ok.mp h
    obtain ⟨_, _, _, rfl⟩ := setStatus_eq_ok.mp hs
    exact List.getElem?_set_ne (by omega)
  | second extraIndex =>
    have hne : (i : Int) ≠ extraIndex := by
      rintro rfl
      exact hold rfl
    obtain ⟨_, array₁, h0, _, h1, h2⟩ := secondCount_eq_ok.mp h
    obtain ⟨_, _, _, rfl⟩ := setStatus_eq_ok.mp h1
    obtain ⟨h0', _, _, rfl⟩ := setStatus_eq_ok.mp h2
    rw [List.getElem?_set_ne (by omega), List.getElem?_set_ne (by omega)]

/-! ## the closures, by the way that is taken -/

/-- one round of the loop in the closure of `tabOnCell` -/
def tabOnCellRound (t : Tap) (d : Document) : Except Fatal (List Effect) := do
  let arrays ← guardLet (Value.asRecords (d .userVotesList)) "Error covernant array"
  let p ← pathOf t.UUID arrays
  return p.call t arrays

theorem tabOnCellClosure_eq (t : Tap) (r : Reply) :
    tabOnCellClosure t r = r.withDocuments fun ds => forDocuments ds (tabOnCellRound t) := by
  unfold tabOnCellClosure
  congr 1
  funext ds
  congr 1
  funext d
  unfold tabOnCellRound
  cases Value.asRecords (d .userVotesList) with
  | none => rfl
  | some arrays =>
    show (if (entries t.UUID arrays).isEmpty then _
      else guardLet (entries t.UUID arrays).head? _ >>= _) = pathOf t.UUID arrays >>= _
    unfold pathOf
    generalize entries t.UUID arrays = even
    cases even with
    | nil => rfl
    | cons r l =>
      show (guardLet (Scalar.asInt (r .voteVariantID)) "Error select row" >>= fun select =>
          pure (voteSecond t arrays select))
        = (guardLet (Scalar.asInt (r .voteVariantID)) "Error select row" >>= fun select =>
          pure (Path.second select)) >>= fun p => pure (p.call t arrays)
      cases Scalar.asInt (r .voteVariantID) <;> rfl

theorem tabOnCellRound_eq_ok {t : Tap} {d : Document} {es : List Effect} :
    tabOnCellRound t d = .ok es ↔ ∃ arrays p, d .userVotesList = some (.records arrays) ∧
      pathOf t.UUID arrays = .ok p ∧ p.call t arrays = es := by
  unfold tabOnCellRound
  simp only [bind_eq_ok, guardLet_eq_ok, Value.asRecords_eq_some, pure_eq_ok, exists_and_left]

/-- what the second closure of a tap writes after counting -/
def Path.writes (p : Path) (t : Tap) (arrays array : List Record) : List Effect :=
  match p with
  | .first => [.updateData t .first .votes t.UUID .voteVariants (.records array)]
  | .second extraIndex =>
    [.updateData t (.second extraIndex) .votes t.UUID .voteVariants (.records array),
      .updateData t (.second extraIndex) .users t.emailString .userVotesList
        (.records (cast t.UUID t.index arrays))]

/-- the closure that a tap leaves with its read of the vote -/
def Path.callback (p : Path) (t : Tap) (arrays : List Record) : Callback :=
  match p with
  | .first => .voteFirst t
  | .second extraIndex => .voteSecond t arrays extraIndex

def Path.message : Path → String
  | .first => "VoteFirst Error"
  | .second _ => "Error in a voteSecond"

/-- one round of the loop in the closures of `voteFirst` and `voteSecond` -/
def voteRound (p : Path) (t : Tap) (arrays : List Record) (d : Document) :
    Except Fatal (List Effect) := do
  let array ← guardLet (Value.asRecords (d .voteVariants)) p.message
  let array ← p.count t.index array
  return p.writes t arrays array

def voteClosure (p : Path) (t : Tap) (arrays : List Record) (r : Reply) :
    Except Fatal (List Effect) :=
  r.withDocuments fun ds => do
    let writes ← forDocuments ds (voteRound p t arrays)
    return writes ++ [.selectRow t.view t.index]

theorem voteFirstClosure_eq (t : Tap) (arrays : List Record) (r : Reply) :
    voteFirstClosure t r = voteClosure .first t arrays r := rfl

theorem voteSecondClosure_eq (t : Tap) (arrays : List Record) (extraIndex : Int) (r : Reply) :
    voteSecondClosure t arrays extraIndex r = voteClosure (.second extraIndex) t arrays r := rfl

theorem voteRound_eq_ok {p : Path} {t : Tap} {arrays : List Record} {d : Document}
    {es : List Effect} :
    voteRound p t arrays d = .ok es ↔ ∃ array array', d .voteVariants = some (.records array) ∧
      p.count t.index array = .ok array' ∧ p.writes t arrays array' = es := by
  unfold voteRound
  simp only [bind_eq_ok, guardLet_eq_ok, Value.asRecords_eq_some, pure_eq_ok, exists_and_left]

theorem voteClosure_ok_eq_ok {p : Path} {t : Tap} {arrays : List Record} {ds : List Document}
    {es : List Effect} :
    voteClosure p t arrays (.ok ds) = .ok es ↔ ∃ writes,
      forDocuments ds (voteRound p t arrays) = .ok writes ∧
      writes ++ [.selectRow t.view t.index] = es := by
  unfold voteClosure
  rw [Reply.withDocuments_ok]
  simp only [bind_eq_ok, pure_eq_ok]

end VoteOnOffice
