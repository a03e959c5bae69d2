import VoteOnOffice.App.Session
import VoteOnOffice.App.System

/-!
# The world: devices, each with its session and its screens, and one cloud

A device runs the app.  It has what a `Session` has but the accounts and the documents, which all
devices share, and the screens of the `System` that it has opened since the app was started.

* `Device.session`, `Device.next`
                       a device as a session, and what a step of that makes of it;
* `Device.crashed`, `Device.restarted`
                       a device whose app crashes in a closure, and the app started anew;
* `DeviceAct`, `Device.act`
                       what is done on a device's screens: the segues, the add screen, and the labels of
                       the system that are acts on a screen;
* `Device.admits`      the order of the SDK's work, and the assumption on e-mails;
* `World.step`         a session step of a device, the SDK's update of the current user, a late effect
                       of a request of before a restart, a crash, an act, or a step of the cloud;
* `Acted`, `Stepped`   all that an act and a step can do.

A segue opens a screen for the user of that moment.  Screens that are opened when there is none are not
modelled: such a main screen lists nothing; such a vote screen shows the title and the variants, and its
taps find no user.
-/

namespace VoteOnOffice

structure Device where
  realm : Realm := []
  net : List SignTask := []
  /-- what was asked before a restart: no closure hears of the answers -/
  orphans : List Completion := []
  loginIsBool : List (Form × Bool) := []
  signOutBool : List Bool := []
  /-- `Auth.auth().currentUser?.email` -/
  currentUser : Option String := none
  /-- granted requests whose user the SDK has yet to make the current one -/
  updates : List Completion := []
  /-- whether a success has been reported since the app was started -/
  entered : Bool := false
  mains : List Nat := []
  views : List Nat := []
  adds : List AddVoteViewModel := []

structure World where
  system : System
  devices : List Device

/-! ## the session of a device -/

def Device.session (d : Device) (x : System) : Session :=
  { accounts := x.accounts
    db := x.db
    realm := d.realm
    net := d.net
    loginIsBool := d.loginIsBool
    signOutBool := d.signOutBool }

def Device.put (d : Device) (s : Session) : Device :=
  { d with
    realm := s.realm
    net := s.net
    loginIsBool := s.loginIsBool
    signOutBool := s.signOutBool }

def System.put (x : System) (s : Session) : System := { x with accounts := s.accounts, db := s.db }

def Completion.user : Completion → Option String
  | .signIn email _ _ => some email
  | .createUser email _ _ => some email
  | .setData _ => none

def SignTask.asked : SignTask → Option Completion
  | .request c => some c
  | .answer _ _ => none

def Device.nextUser (d : Device) : SignLabel → Option String
  | .signOut true => none
  | _ => d.currentUser

def Device.nextUpdates (d : Device) : SignLabel → List Completion
  | .serve k true =>
    match d.net[k]? with
    | some (.request c) => if c.user.isSome then d.updates ++ [c] else d.updates
    | _ => d.updates
  | .restart => []
  | _ => d.updates

def Device.nextEntered (d : Device) : SignLabel → Bool
  | .deliver k =>
    match d.net[k]? with
    | some (.answer c error) => d.entered || (c.emits error).any Prod.snd
    | _ => d.entered
  | .restart => false
  | _ => d.entered

/-- the device after a step of its session; a restart closes its screens -/
def Device.next (d : Device) (l : SignLabel) (s : Session) : Device :=
  let d' : Device :=
    { d.put s with
      currentUser := d.nextUser l
      updates := d.nextUpdates l
      entered := d.nextEntered l }
  match l with
  | .restart =>
    { d' with
      orphans := d.orphans ++ d.net.filterMap SignTask.asked
      mains := []
      views := []
      adds := [] }
  | _ => d'

/-- it is assumed that no account is made with an e-mail that begins or ends with `/` -/
def Completion.isPlain : Completion → Bool
  | .createUser email _ _ => decide (Plain email)
  | _ => true

/-- the SDK runs the closure of an answer after it has made its user the current one -/
def Device.admits (d : Device) : SignLabel → Bool
  | .serve k true =>
    match d.net[k]? with
    | some (.request c) => c.isPlain
    | _ => true
  | .deliver k =>
    match d.net[k]? with
    | some (.answer c false) => decide (d.updates.count c < d.net.count (.answer c false))
    | _ => true
  | _ => true

def Device.updateCurrentUser (d : Device) (k : Nat) : Option Device :=
  (d.updates[k]?).map fun c =>
    { d with currentUser := c.user, updates := d.updates.eraseIdx k }

/-- the cloud answers a request that no closure waits for -/
def Device.late (x : System) (d : Device) (c : Completion) (ok : Bool) : Option Session :=
  if ok then if c.isPlain then (d.session x).grant c else none else some (d.session x)

/-- the device when the closure of the answer number `k` raises an exception -/
def Device.crashed (x : System) (d : Device) (k : Nat) : Option Device :=
  match d.net[k]? with
  | some (.answer c error) =>
    if ((d.session x).deliver k).isNone ∧ d.admits (.deliver k) = true then
      some (d.put (Session.performUntil { d.session x with net := d.net.eraseIdx k } (c.run error)))
    else none
  | _ => none

def Device.restarted (x : System) (d : Device) : Device :=
  d.next .restart { d.session x with net := [] }

theorem Device.deliver_none_iff {x : System} {d : Device} {k : Nat} {c : Completion} {error : Bool}
    (hk : d.net[k]? = some (.answer c error)) :
    (d.session x).deliver k = none ↔ ¬c.Completes error d.realm := by
  rw [Option.eq_none_iff_forall_ne_some]
  constructor
  · intro h hcompletes
    exact h _ (Session.deliver_eq_some.mpr ⟨c, error, hk, hcompletes, rfl⟩)
  · intro h s hs
    obtain ⟨c', error', hk', hcompletes, _⟩ := Session.deliver_eq_some.mp hs
    cases hk.symm.trans hk'
    exact h hcompletes

theorem Device.crashed_eq_some {x : System} {d d' : Device} {k : Nat} :
    d.crashed x k = some d' ↔ ∃ c error, d.net[k]? = some (.answer c error) ∧
      ¬c.Completes error d.realm ∧ d.admits (.deliver k) = true ∧
      d' = { d with
        net := d.net.eraseIdx k ++ ((c.requests error).filter Completion.addressed).map .request
        loginIsBool := d.loginIsBool ++ c.emits error } := by
  unfold Device.crashed
  cases hk : d.net[k]? with
  | none => simp
  | some task =>
    cases task with
    | request c => simp
    | answer c error =>
      simp only [Option.isNone_iff_eq_none, Device.deliver_none_iff hk,
        Option.ite_none_right_eq_some, Option.some.injEq, SignTask.answer.injEq]
      constructor
      · rintro ⟨⟨hraises, hadmits⟩, rfl⟩
        refine ⟨c, error, ⟨rfl, rfl⟩, hraises, hadmits, ?_⟩
        rw [Session.performUntil_run hraises]
        rfl
      · rintro ⟨_, _, ⟨rfl, rfl⟩, hraises, hadmits, rfl⟩
        refine ⟨⟨hraises, hadmits⟩, ?_⟩
        rw [Session.performUntil_run hraises]
        rfl

theorem Device.late_eq_some {x : System} {d : Device} {c : Completion} {ok : Bool} {s : Session} :
    d.late x c ok = some s ↔ (ok = true → c.isPlain = true) ∧
      if ok then (d.session x).grant c = some s else s = d.session x := by
  unfold Device.late
  cases ok with
  | false =>
    show some (d.session x) = some s ↔ (false = true → _) ∧ s = d.session x
    rw [Option.some_inj, eq_comm]
    exact (and_iff_right nofun).symm
  | true =>
    show (if c.isPlain = true then (d.session x).grant c else none) = some s ↔ _
    rw [Option.ite_none_right_eq_some, forall_prop_of_true rfl]
    rfl

theorem Device.admits_serve {d : Device} {k : Nat} {ok : Bool} {c : Completion}
    (hk : d.net[k]? = some (.request c)) (h : d.admits (.serve k ok) = true) :
    ok = true → c.isPlain = true := by
  rintro rfl
  simpa only [Device.admits, hk] using h

/-! ## the screens of a device -/

inductive DeviceAct where
  /-- `MainViewSeque` of a sign-in or sign-up screen; how often it is performed is not said here -/
  | segue
  /-- a row of a main screen is selected -/
  | openVote (main row : Nat)
  /-- the button of a main screen that only admins see -/
  | openAdd (main : Nat)
  | addNewVarible (add : Nat)
  | deleteVariant (add : Nat) (index : Int)
  | addNewVote (add : Nat) (title description voteDate uuid : String)
      (cellForRow : Int → Option String)
  /-- another act on an open screen -/
  | screen (l : Label)

def Device.owns (d : Device) : Label → Bool
  | .voteWillAppear view => decide (view ∈ d.views)
  | .tap view _ => decide (view ∈ d.views)
  | .mainWillAppear main => decide (main ∈ d.mains)
  | .mainWillDisappear main => decide (main ∈ d.mains)
  | .deleteRow main _ => decide (main ∈ d.mains)
  | _ => false

/-- the device after an act, and the label of the system that the act amounts to -/
def Device.act (x : System) (d : Device) : DeviceAct → Option (Device × Option Label)
  | .segue => do
    let email ← d.currentUser
    if d.entered then
      return ({ d with mains := d.mains ++ [x.mains.length] }, some (.openMain email))
    else none
  | .openVote main row => do
    let email ← d.currentUser
    let m ← x.mains[main]?
    let dtc ← m.items[row]?
    if main ∈ d.mains then
      return ({ d with views := d.views ++ [x.views.length] }, some (.openVote email dtc.UUID))
    else none
  | .openAdd main => do
    let m ← x.mains[main]?
    if main ∈ d.mains ∧ m.adminStatus = true then
      return ({ d with adds := d.adds ++ [{}] }, none)
    else none
  | .addNewVarible add => do
    let vm ← d.adds[add]?
    return ({ d with adds := d.adds.set add vm.addNewVarible }, none)
  | .deleteVariant add index => do
    let vm ← d.adds[add]?
    let vm ← (vm.deleteRow index).toOption
    return ({ d with adds := d.adds.set add vm }, none)
  | .addNewVote add title description voteDate uuid cellForRow => do
    let vm ← d.adds[add]?
    let (vm', _) ← (vm.variantsArray cellForRow).toOption
    return ({ d with adds := d.adds.set add vm' },
      some (.addNewVote title description voteDate uuid vm.items cellForRow))
  | .screen l => if d.owns l then some (d, some l) else none

/-! ## steps -/

inductive WorldLabel where
  | sign (i : Nat) (l : SignLabel)
  | updateCurrentUser (i k : Nat)
  /-- the cloud answers the request number `k` that device `i` made before a restart -/
  | orphan (i k : Nat) (ok : Bool)
  /-- the closure of the answer number `k` raises an exception, and the app is started anew -/
  | crash (i k : Nat)
  | act (i : Nat) (a : DeviceAct)
  /-- `serve` or `deliver`, or what is written from outside: a role, or a vote like those of
  `addNewVote` -/
  | cloud (l : Label)

def Label.isCloud : Label → Bool
  | .serve _ _ => true
  | .deliver _ => true
  | .setUserRole _ _ => true
  | .addNewVote _ _ _ _ _ _ => true
  | _ => false

def World.put (w : World) (i : Nat) (d : Device) (x : System) : World := ⟨x, w.devices.set i d⟩

def World.step (count : String → Nat) (w : World) : WorldLabel → Option World
  | .sign i l => do
    let d ← w.devices[i]?
    let s ← (d.session w.system).step count l
    if d.admits l then return w.put i (d.next l s) (w.system.put s) else none
  | .updateCurrentUser i k => do
    let d ← w.devices[i]?
    let d' ← d.updateCurrentUser k
    return w.put i d' w.system
  | .orphan i k ok => do
    let d ← w.devices[i]?
    let c ← d.orphans[k]?
    let s ← d.late w.system c ok
    return w.put i { d with orphans := d.orphans.eraseIdx k } (w.system.put s)
  | .crash i k => do
    let d ← w.devices[i]?
    let d' ← d.crashed w.system k
    return w.put i (d'.restarted w.system) w.system
  | .act i a => do
    let d ← w.devices[i]?
    let (d', l) ← d.act w.system a
    match l with
    | none => return w.put i d' w.system
    | some l => (w.system.step l).map fun x => w.put i d' x
  | .cloud l => if l.isCloud then (w.system.step l).map fun x => ⟨x, w.devices⟩ else none

def World.initial (n : Nat) : World := ⟨.initial, List.replicate n {}⟩

abbrev World.Run (count : String → Nat) (w : World) (ls : List WorldLabel) (u : World) : Prop :=
  Machine.exec (World.step count) w ls = some u

/-! ## what a step can do -/

inductive Device.Acted (x : System) (d : Device) : DeviceAct → Device → Option Label → Prop where
  | segue {email : String} (hu : d.currentUser = some email) (he : d.entered = true) :
      Acted x d .segue { d with mains := d.mains ++ [x.mains.length] } (some (.openMain email))
  | openVote {main row : Nat} {email : String} {m : MainView} {dtc : DataVoteCell}
      (hu : d.currentUser = some email) (hm : x.mains[main]? = some m)
      (hrow : m.items[row]? = some dtc) (hmain : main ∈ d.mains) :
      Acted x d (.openVote main row) { d with views := d.views ++ [x.views.length] }
        (some (.openVote email dtc.UUID))
  | openAdd {main : Nat} {m : MainView} (hm : x.mains[main]? = some m) (hmain : main ∈ d.mains)
      (hadmin : m.adminStatus = true) :
      Acted x d (.openAdd main) { d with adds := d.adds ++ [{}] } none
  | edit {a : DeviceAct} {add : Nat} {vm vm' : AddVoteViewModel} (hadd : d.adds[add]? = some vm) :
      Acted x d a { d with adds := d.adds.set add vm' } none
  | addNewVote {add : Nat} {title description voteDate uuid : String}
      {cellForRow : Int → Option String} {vm vm' : AddVoteViewModel} {array : List Record}
      (hadd : d.adds[add]? = some vm) (hv : vm.variantsArray cellForRow = .ok (vm', array)) :
      Acted x d (.addNewVote add title description voteDate uuid cellForRow)
        { d with adds := d.adds.set add vm' }
        (some (.addNewVote title description voteDate uuid vm.items cellForRow))
  | screen {l : Label} (ho : d.owns l = true) : Acted x d (.screen l) d (some l)

theorem Device.act_acted {x : System} {d d' : Device} {a : DeviceAct} {l : Option Label}
    (h : d.act x a = some (d', l)) : d.Acted x a d' l := by
  cases a with
  | segue =>
    obtain ⟨email, hu, h⟩ := Option.bind_eq_some_iff.mp h
    obtain ⟨he, h⟩ := Option.ite_none_right_eq_some.mp h
    cases h
    exact .segue hu he
  | openVote main row =>
    obtain ⟨email, hu, h⟩ := Option.bind_eq_some_iff.mp h
    obtain ⟨m, hm, h⟩ := Option.bind_eq_some_iff.mp h
    obtain ⟨dtc, hrow, h⟩ := Option.bind_eq_some_iff.mp h
    obtain ⟨hmain, h⟩ := Option.ite_none_right_eq_some.mp h
    cases h
    exact .openVote hu hm hrow hmain
  | openAdd main =>
    obtain ⟨m, hm, h⟩ := Option.bind_eq_some_iff.mp h
    obtain ⟨⟨hmain, hadmin⟩, h⟩ := Option.ite_none_right_eq_some.mp h
    cases h
    exact .openAdd hm hmain hadmin
  | addNewVarible add =>
    obtain ⟨vm, hadd, h⟩ := Option.bind_eq_some_iff.mp h
    cases h
    exact .edit hadd
  | deleteVariant add index =>
    obtain ⟨vm, hadd, h⟩ := Option.bind_eq_some_iff.mp h
    obtain ⟨vm', _, h⟩ := Option.bind_eq_some_iff.mp h
    cases h
    exact .edit hadd
  | addNewVote add title description voteDate uuid cellForRow =>
    obtain ⟨vm, hadd, h⟩ := Option.bind_eq_some_iff.mp h
    obtain ⟨⟨vm', array⟩, hv, h⟩ := Option.bind_eq_some_iff.mp h
    cases h
    have hv : vm.variantsArray cellForRow = .ok (vm', array) := by
      cases hx : vm.variantsArray cellForRow with
      | error e => rw [hx] at hv; cases hv
      | ok x => rw [hx] at hv; cases hv; rfl
    exact .addNewVote hadd hv
  | screen l =>
    obtain ⟨ho, h⟩ := Option.ite_none_right_eq_some.mp h
    cases h
    exact .screen ho

inductive World.Stepped (count : String → Nat) (w : World) : WorldLabel → World → Prop where
  | sign {i : Nat} {l : SignLabel} {d : Device} {s : Session} (hd : w.devices[i]? = some d)
      (hs : (d.session w.system).step count l = some s) (hadmits : d.admits l = true) :
      Stepped count w (.sign i l) (w.put i (d.next l s) (w.system.put s))
  | updateCurrentUser {i k : Nat} {d : Device} {c : Completion} (hd : w.devices[i]? = some d)
      (hk : d.updates[k]? = some c) : Stepped count w (.updateCurrentUser i k)
        (w.put i { d with currentUser := c.user, updates := d.updates.eraseIdx k } w.system)
  | orphan {i k : Nat} {ok : Bool} {d : Device} {c : Completion} {s : Session}
      (hd : w.devices[i]? = some d) (hk : d.orphans[k]? = some c)
      (hs : d.late w.system c ok = some s) :
      Stepped count w (.orphan i k ok)
        (w.put i { d with orphans := d.orphans.eraseIdx k } (w.system.put s))
  | crash {i k : Nat} {d d' : Device} (hd : w.devices[i]? = some d)
      (hd' : d.crashed w.system k = some d') :
      Stepped count w (.crash i k) (w.put i (d'.restarted w.system) w.system)
  | edits {i : Nat} {a : DeviceAct} {d d' : Device} (hd : w.devices[i]? = some d)
      (ha : d.Acted w.system a d' none) : Stepped count w (.act i a) (w.put i d' w.system)
  | acts {i : Nat} {a : DeviceAct} {d d' : Device} {l : Label} {x : System}
      (hd : w.devices[i]? = some d) (ha : d.Acted w.system a d' (some l))
      (hx : w.system.step l = some x) : Stepped count w (.act i a) (w.put i d' x)
  | cloud {l : Label} {x : System} (hl : l.isCloud = true) (hx : w.system.step l = some x) :
      Stepped count w (.cloud l) ⟨x, w.devices⟩

theorem World.step_stepped {count : String → Nat} {w u : World} {l : WorldLabel}
    (h : w.step count l = some u) : w.Stepped count l u := by
  cases l with
  | sign i l =>
    obtain ⟨d, hd, h⟩ := Option.bind_eq_some_iff.mp h
    obtain ⟨s, hs, h⟩ := Option.bind_eq_some_iff.mp h
    obtain ⟨hadmits, h⟩ := Option.ite_none_right_eq_some.mp h
    cases h
    exact .sign hd hs hadmits
  | updateCurrentUser i k =>
    obtain ⟨d, hd, h⟩ := Option.bind_eq_some_iff.mp h
    obtain ⟨d', hd', h⟩ := Option.bind_eq_some_iff.mp h
    obtain ⟨c, hk, rfl⟩ := Option.map_eq_some_iff.mp hd'
    cases h
    exact .updateCurrentUser hd hk
  | orphan i k ok =>
    obtain ⟨d, hd, h⟩ := Option.bind_eq_some_iff.mp h
    obtain ⟨c, hk, h⟩ := Option.bind_eq_some_iff.mp h
    obtain ⟨s, hs, h⟩ := Option.bind_eq_some_iff.mp h
    cases h
    exact .orphan hd hk hs
  | crash i k =>
    obtain ⟨d, hd, h⟩ := Option.bind_eq_some_iff.mp h
    obtain ⟨d', hd', h⟩ := Option.bind_eq_some_iff.mp h
    cases h
    exact .crash hd hd'
  | act i a =>
    obtain ⟨d, hd, h⟩ := Option.bind_eq_some_iff.mp h
    obtain ⟨⟨d', l⟩, ha, h⟩ := Option.bind_eq_some_iff.mp h
    cases l with
    | none =>
      cases h
      exact .edits hd (Device.act_acted ha)
    | some l =>
      obtain ⟨x, hx, rfl⟩ := Option.map_eq_some_iff.mp h
      exact .acts hd (Device.act_acted ha) hx
  | cloud l =>
    cases hl : l.isCloud with
    | false => simp [World.step, hl] at h
    | true =>
      simp only [World.step, hl, if_true] at h
      obtain ⟨x, hx, rfl⟩ := Option.map_eq_some_iff.mp h
      exact .cloud hl hx

end VoteOnOffice
