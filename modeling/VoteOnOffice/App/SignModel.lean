import VoteOnOffice.App.AddVoteViewModel

/-!
# `SignModel`, `SignInViewModel`, `SignUpViewModel`: signing in, signing up, the remembered login

The two view models guard the lengths of what is entered, ask the cloud and go on in closures;
a closure emits on `loginIsBool` and, when the switch is on, has `SignModel` write the login to the
local store.  `oldDataLoading` signs in with the login that is stored.

* `RememberData`, `Realm`   the objects of the local store, in the order in which they were added;
* `Completion`              one constructor for each closure, with what it captures;
* `SignEffect`              what a function of the view models does besides computing;
* `Completion.run`          the closures.

`count` is `String.count` of Swift, which counts grapheme clusters.
-/

namespace VoteOnOffice

structure RememberData where
  /-- the primary key -/
  login : String := ""
  password : String := ""
  deriving DecidableEq, Repr

abbrev Realm := List RememberData

/-- `realm.add(object)`, without `update`; `none` is the exception that is raised when an object with
that primary key is stored, which `try?` does not catch -/
def Realm.add (realm : Realm) (object : RememberData) : Option Realm :=
  if object.login ∈ realm.map RememberData.login then none else some (realm ++ [object])

def writeData (email password : String) (realm : Realm) : Option Realm :=
  realm.add { login := email, password := password }

def readData (realm : Realm) : Option RememberData := realm.head?

/-- `deleteRealmData` of `MainModel`: all objects go -/
def deleteRealmData (_ : Realm) : Realm := []

theorem writeData_eq_some {email password : String} {realm realm' : Realm} :
    writeData email password realm = some realm' ↔
      email ∉ realm.map RememberData.login ∧ realm' = realm ++ [⟨email, password⟩] := by
  unfold writeData Realm.add
  by_cases h : email ∈ realm.map RememberData.login
  · simp [h]
  · simp [h, eq_comm]

/-! ## the view models -/

/-- whose `loginIsBool` it is -/
inductive Form where
  | signIn | signUp
  deriving DecidableEq, Repr

inductive Completion where
  | signIn (email password : String) (switchRemember : Bool)
  | createUser (email password : String) (switchRemember : Bool)
  /-- of `collection("Users").document(email).setData(docData)` -/
  | setData (email : String)
  deriving DecidableEq, Repr

inductive SignEffect where
  /-- the request to which the closure belongs -/
  | request (c : Completion)
  | loginIsBool (form : Form) (b : Bool)
  | writeData (email password : String)

section
variable (count : String → Nat)

/-- `email.count >= 6 && password.count >= 6` -/
def isLong (email password : String) : Bool :=
  decide (6 ≤ count email) && decide (6 ≤ count password)

def SignInViewModel.loginInSistem (email password : String) (switchRemember : Bool) :
    List SignEffect :=
  if isLong count email password then [.request (.signIn email password switchRemember)]
  else [.loginIsBool .signIn false]

def SignInViewModel.oldDataLoading (realm : Realm) : List SignEffect :=
  match readData realm with
  | none => [.loginIsBool .signIn false]
  | some loginData => SignInViewModel.loginInSistem count loginData.login loginData.password false

def SignUpViewModel.loginInSistem (email password : String) (switchRemember : Bool) :
    List SignEffect :=
  if isLong count email password then [.request (.createUser email password switchRemember)]
  else [.loginIsBool .signUp false]

end

/-- `if switchRemember { self.signModel.writeData(email: email, password: password) }` -/
def remember (email password : String) (switchRemember : Bool) : List SignEffect :=
  if switchRemember then [.writeData email password] else []

def Completion.run (error : Bool) : Completion → List SignEffect
  | .signIn email password switchRemember =>
    if error then [.loginIsBool .signIn false]
    else .loginIsBool .signIn true :: remember email password switchRemember
  | .createUser email password switchRemember =>
    if error then [.loginIsBool .signUp false]
    -- the document is requested, and the login written without waiting for it
    else .request (.setData email) :: remember email password switchRemember
  | .setData _ => if error then [.loginIsBool .signUp false] else [.loginIsBool .signUp true]

/-! ## what a closure does, by store -/

/-- `document(_:)` takes the path of the request, where there is one -/
def Completion.addressed : Completion → Bool
  | .setData email => (documentWithPath email).isSome
  | _ => true

def Completion.writes : Bool → Completion → Option RememberData
  | false, .signIn email password true => some ⟨email, password⟩
  | false, .createUser email password true =>
    (documentWithPath email).map fun _ => ⟨email, password⟩
  | _, _ => none

def Completion.requests (error : Bool) : Completion → List Completion
  | .createUser email _ _ => if error then [] else [.setData email]
  | _ => []

def Completion.emits (error : Bool) : Completion → List (Form × Bool)
  | .signIn _ _ _ => [(.signIn, !error)]
  | .createUser _ _ _ => if error then [(.signUp, false)] else []
  | .setData _ => [(.signUp, !error)]

/-- the closure runs to its end: what it asks for has a path, and what it writes is not stored -/
structure Completion.Completes (error : Bool) (realm : Realm) (c : Completion) : Prop where
  asks : ∀ c' ∈ c.requests error, c'.addressed = true
  writes : ∀ o ∈ c.writes error, o.login ∉ realm.map RememberData.login

theorem writes_eq_some {error : Bool} {c : Completion} {o : RememberData} :
    c.writes error = some o ↔ error = false ∧ (c = .signIn o.login o.password true ∨
      c = .createUser o.login o.password true ∧ (documentWithPath o.login).isSome = true) := by
  rcases o with ⟨login, pw⟩
  cases error with
  | true => cases c <;> simp [Completion.writes]
  | false =>
    cases c with
    | signIn email password switchRemember =>
      cases switchRemember <;> simp [Completion.writes]
    | createUser email password switchRemember =>
      cases switchRemember with
      | false => simp [Completion.writes]
      | true =>
        simp only [Completion.writes, Option.map_eq_some_iff, RememberData.mk.injEq, reduceCtorEq,
          Completion.createUser.injEq, and_true, true_and, false_or]
        constructor
        · rintro ⟨path, hpath, rfl, rfl⟩
          exact ⟨⟨rfl, rfl⟩, Option.isSome_iff_exists.mpr ⟨path, hpath⟩⟩
        · rintro ⟨⟨rfl, rfl⟩, hpath⟩
          obtain ⟨path, hpath⟩ := Option.isSome_iff_exists.mp hpath
          exact ⟨path, hpath, rfl, rfl⟩
    | setData email => simp [Completion.writes]

theorem addressed_of_writes {error : Bool} {c : Completion} {o : RememberData}
    (h : c.writes error = some o) : ∀ c' ∈ c.requests error, c'.addressed = true := by
  obtain ⟨rfl, rfl | ⟨rfl, haddressed⟩⟩ := writes_eq_some.mp h
  · exact fun _ hc' => absurd hc' List.not_mem_nil
  · intro c' hc'
    rw [List.mem_singleton.mp hc']
    exact haddressed

theorem completes_iff {error : Bool} {realm : Realm} {c : Completion} : c.Completes error realm ↔
    (∀ c' ∈ c.requests error, c'.addressed = true) ∧
      ∀ o ∈ c.writes error, o.login ∉ realm.map RememberData.login :=
  ⟨fun h => ⟨h.asks, h.writes⟩, fun h => ⟨h.1, h.2⟩⟩

def Completion.isLong (count : String → Nat) : Completion → Prop
  | .signIn email password _ => VoteOnOffice.isLong count email password = true
  | .createUser email password _ => VoteOnOffice.isLong count email password = true
  | .setData _ => True

end VoteOnOffice
