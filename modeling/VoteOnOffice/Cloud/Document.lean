import Mathlib.Logic.Function.Basic

/-!
# Documents: fields, dictionaries and Swift's casts

A document is what `documents.data()` returns, a `[String: Any]`; the arrays `voteVariants` and
`userVotesList` hold dictionaries of scalars.  The field names the app uses are the constructors of
`Field`.

* `Scalar.asInt`, `Scalar.asString`, `Value.asBool`, `Value.asString`, `Value.asRecords`
                       the casts `as? Int`, `as? String`, `as? Bool`, `as? [[String: Any]]`;
* `Fatal`              the ways a closure can trap;
* `subscript`, `getStatus`, `setStatus`
                       `array[i]`, `array[i]["variantVoteStatus"] as? Int` behind its guard, and the
                       assignment `array[i]["variantVoteStatus"] = n`.
-/

namespace VoteOnOffice

inductive Field where
  | voteDate | voteDescription | voteStatus | voteTitle | voteUUID | voteVariants
  | userEmail | userRole | userVotesList
  | voteVariantID
  | variantId | variantImgURL | variantName | variantVoteStatus
  deriving DecidableEq, Repr

inductive Scalar where
  | bool (b : Bool)
  | int (n : Int)
  | str (s : String)
  deriving DecidableEq, Repr

/-- a `[String: Any]` inside an array of a document -/
abbrev Record := Field → Option Scalar

inductive Value where
  | scalar (a : Scalar)
  | records (l : List Record)

/-- a `[String: Any]` that is a whole document -/
abbrev Document := Field → Option Value

/-! ## casts -/

def Scalar.asInt : Option Scalar → Option Int
  | some (.int n) => some n
  | _ => none

def Scalar.asString : Option Scalar → Option String
  | some (.str s) => some s
  | _ => none

def Value.asBool : Option Value → Option Bool
  | some (.scalar (.bool b)) => some b
  | _ => none

def Value.asString : Option Value → Option String
  | some (.scalar a) => Scalar.asString (some a)
  | _ => none

def Value.asRecords : Option Value → Option (List Record)
  | some (.records l) => some l
  | _ => none

@[simp] theorem Scalar.asInt_int (n : Int) : Scalar.asInt (some (.int n)) = some n := rfl
@[simp] theorem Scalar.asString_str (s : String) : Scalar.asString (some (.str s)) = some s := rfl
@[simp] theorem Value.asString_str (s : String) :
    Value.asString (some (.scalar (.str s))) = some s := rfl
@[simp] theorem Value.asRecords_records (l : List Record) :
    Value.asRecords (some (.records l)) = some l := rfl

theorem Value.asRecords_eq_some {v : Option Value} {l : List Record} :
    Value.asRecords v = some l ↔ v = some (.records l) := by
  rcases v with _ | _ | _ <;> simp [Value.asRecords]

/-! ## traps -/

inductive Fatal where
  | fatalError (message : String)
  | indexOutOfRange
  | unexpectedNil
  deriving DecidableEq, Repr

/-- `guard let x = o else { fatalError(message) }` -/
def guardLet {α : Type} (o : Option α) (message : String) : Except Fatal α :=
  match o with
  | some x => .ok x
  | none => .error (.fatalError message)

/-- an implicitly unwrapped optional handed to a parameter that is not optional -/
def unwrap {α : Type} (o : Option α) : Except Fatal α :=
  match o with
  | some x => .ok x
  | none => .error .unexpectedNil

/-- `array[index]` -/
def subscript {α : Type} (array : List α) (index : Int) : Except Fatal α :=
  if 0 ≤ index then
    match array[index.toNat]? with
    | some x => .ok x
    | none => .error .indexOutOfRange
  else .error .indexOutOfRange

theorem bind_eq_ok {α β : Type} {x : Except Fatal α} {f : α → Except Fatal β} {b : β} :
    (x >>= f) = .ok b ↔ ∃ a, x = .ok a ∧ f a = .ok b := by
  cases x with
  | error e =>
    constructor
    · intro h; cases h
    · rintro ⟨a, h, _⟩; cases h
  | ok a =>
    constructor
    · intro h; exact ⟨a, rfl, h⟩
    · rintro ⟨a', h, h'⟩; cases h; exact h'

theorem pure_eq_ok {α : Type} {a b : α} : (pure a : Except Fatal α) = .ok b ↔ a = b := by
  constructor
  · intro h; cases h; rfl
  · rintro rfl; rfl

@[simp] theorem guardLet_some {α : Type} (x : α) (message : String) :
    guardLet (some x) message = .ok x := rfl

theorem guardLet_eq_ok {α : Type} {o : Option α} {message : String} {x : α} :
    guardLet o message = .ok x ↔ o = some x := by
  cases o <;> simp [guardLet]

theorem unwrap_eq_ok {α : Type} {o : Option α} {x : α} : unwrap o = .ok x ↔ o = some x := by
  cases o <;> simp [unwrap]

theorem subscript_eq_ok {α : Type} {array : List α} {index : Int} {x : α} :
    subscript array index = .ok x ↔ 0 ≤ index ∧ array[index.toNat]? = some x := by
  unfold subscript
  by_cases h : 0 ≤ index
  · rw [if_pos h]
    cases array[index.toNat]? <;> simp [h]
  · simp [h]

/-! ## the counters of a vote -/

/-- `array[index]["variantVoteStatus"] as? Int`, or `fatalError(message)` -/
def getStatus (array : List Record) (index : Int) (message : String) : Except Fatal Int := do
  let variant ← subscript array index
  guardLet (Scalar.asInt (variant .variantVoteStatus)) message

/-- `array[index]["variantVoteStatus"] = n` -/
def setStatus (array : List Record) (index n : Int) : Except Fatal (List Record) := do
  let variant ← subscript array index
  return array.set index.toNat (Function.update variant .variantVoteStatus (some (.int n)))

/-- the counter of variant `i`, if there is such a variant and its counter is an `Int` -/
def statusAt (array : List Record) (i : Nat) : Option Int :=
  array[i]?.bind fun variant => Scalar.asInt (variant .variantVoteStatus)

theorem statusAt_some_lt {array : List Record} {i : Nat} {n : Int} (h : statusAt array i = some n) :
    i < array.length := by
  obtain ⟨variant, hv, _⟩ := Option.bind_eq_some_iff.mp h
  exact (List.getElem?_eq_some_iff.mp hv).1

theorem getStatus_eq_ok {array : List Record} {index n : Int} {message : String} :
    getStatus array index message = .ok n ↔ 0 ≤ index ∧ statusAt array index.toNat = some n := by
  unfold getStatus statusAt
  simp only [bind_eq_ok, subscript_eq_ok, guardLet_eq_ok, Option.bind_eq_some_iff, and_assoc,
    exists_and_left]

theorem setStatus_eq_ok {array array' : List Record} {index n : Int} :
    setStatus array index n = .ok array' ↔ 0 ≤ index ∧ ∃ variant, array[index.toNat]? = some variant ∧
      array' = array.set index.toNat (Function.update variant .variantVoteStatus (some (.int n))) := by
  unfold setStatus
  simp only [bind_eq_ok, subscript_eq_ok, pure_eq_ok, and_assoc, exists_and_left]
  simp only [eq_comm]

theorem length_setStatus {array array' : List Record} {index n : Int}
    (h : setStatus array index n = .ok array') : array'.length = array.length := by
  obtain ⟨_, _, _, rfl⟩ := setStatus_eq_ok.mp h
  exact List.length_set

theorem statusAt_setStatus {array array' : List Record} {index n : Int}
    (h : setStatus array index n = .ok array') (i : Nat) :
    statusAt array' i = if i = index.toNat then some n else statusAt array i := by
  obtain ⟨_, variant, hv, rfl⟩ := setStatus_eq_ok.mp h
  have hlt := (List.getElem?_eq_some_iff.mp hv).1
  unfold statusAt
  by_cases hi : i = index.toNat
  · rw [if_pos hi, hi, List.getElem?_set_self hlt, Option.bind_some, Function.update_self,
      Scalar.asInt_int]
  · rw [if_neg hi, List.getElem?_set_ne (fun e => hi e.symm)]

theorem field_setStatus {array array' : List Record} {index n : Int}
    (h : setStatus array index n = .ok array') {f : Field} (hf : f ≠ .variantVoteStatus) (i : Nat) :
    array'[i]?.map (fun variant => variant f) = array[i]?.map (fun variant => variant f) := by
  obtain ⟨_, variant, hv, rfl⟩ := setStatus_eq_ok.mp h
  have hlt := (List.getElem?_eq_some_iff.mp hv).1
  by_cases hi : i = index.toNat
  · rw [hi, List.getElem?_set_self hlt, hv, Option.map_some, Option.map_some,
      Function.update_of_ne hf]
  · rw [List.getElem?_set_ne (fun e => hi e.symm)]

theorem setStatus_of_statusAt {array : List Record} {index m : Int} (h0 : 0 ≤ index)
    (h : statusAt array index.toNat = some m) (n : Int) : ∃ array', setStatus array index n = .ok array' := by
  obtain ⟨variant, hv, _⟩ := Option.bind_eq_some_iff.mp h
  exact ⟨_, setStatus_eq_ok.mpr ⟨h0, variant, hv, rfl⟩⟩

theorem setStatus_self {array : List Record} {index n : Int} (h0 : 0 ≤ index)
    (h : statusAt array index.toNat = some n) : setStatus array index n = .ok array := by
  obtain ⟨variant, hv, hn⟩ := Option.bind_eq_some_iff.mp h
  obtain ⟨hlt, rfl⟩ := List.getElem?_eq_some_iff.mp hv
  have hf : array[index.toNat] .variantVoteStatus = some (.int n) := by
    cases hs : array[index.toNat] .variantVoteStatus with
    | none => rw [hs] at hn; cases hn
    | some a => cases a <;> rw [hs] at hn <;> cases hn; rfl
  refine setStatus_eq_ok.mpr ⟨h0, _, hv, ?_⟩
  rw [← hf, Function.update_eq_self, List.set_getElem_self]

end VoteOnOffice
