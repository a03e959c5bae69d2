import VoteOnOffice.App.System
import VoteOnOffice.Lib.Relay

/-!
# Segues: what a screen does when its view model reports success

Each of the three screens has a `Variable<Bool>`, bound to a subject of its view model, and a
subscription that performs a segue whenever the variable is `true`.

* `MainView.viewWillAppear`, `SignUpView.viewDidAppear`
                       subscribe and bind at every appearance;
* `SignInView.viewDidLoad`
                       does so once in the life of the screen;
* `Navigation.after_eq`
                       the variable after a history of appearances and events;
* `NavigatesOnce`      a reported success performs the segue once, and nothing else performs it;
* `ShownOnce`          every success is reported after exactly one appearance, and no appearance
                       follows on a success;
* `navigates_iff`      **the one holds iff the other does**.
-/

namespace VoteOnOffice
open Relay

/-- a screen's `Variable<Bool>`, and the segues that it has performed -/
structure Navigation where
  login : Relay Bool := { value := false }
  performed : List String := []

/-- `if self.login.value { self.performSegue(withIdentifier: segue, sender: self) }`, each time that
the subscribers are notified; what they are notified of is the value by then -/
def Navigation.notify (n : Navigation) (segue : String) (x : Relay Bool × List Bool) : Navigation :=
  { login := x.1, performed := n.performed ++ (x.2.filter id).map fun _ => segue }

def MainView.viewWillAppear (n : Navigation) : Navigation :=
  n.notify "ReturnOnFirstView" (n.login.step .attach)

def MainView.signOutBool (n : Navigation) (b : Bool) : Navigation :=
  n.notify "ReturnOnFirstView" (n.login.step (.emit b))

def SignUpView.viewDidAppear (n : Navigation) : Navigation :=
  n.notify "MainViewSeque" (n.login.step .attach)

def SignUpView.loginIsBool (n : Navigation) (b : Bool) : Navigation :=
  n.notify "MainViewSeque" (n.login.step (.emit b))

def SignInView.viewDidLoad (n : Navigation) : Navigation :=
  n.notify "MainViewSeque" (n.login.step .attach)

def SignInView.loginIsBool (n : Navigation) (b : Bool) : Navigation :=
  n.notify "MainViewSeque" (n.login.step (.emit b))

inductive Screen where
  | mainView | signUpView | signInView

/-- an appearance of the screen (for `signInView`: its loading), or an event of its view model -/
def Screen.step (v : Screen) (n : Navigation) : Signal Bool → Navigation
  | .attach =>
    match v with
    | .mainView => MainView.viewWillAppear n
    | .signUpView => SignUpView.viewDidAppear n
    | .signInView => SignInView.viewDidLoad n
  | .emit b =>
    match v with
    | .mainView => MainView.signOutBool n b
    | .signUpView => SignUpView.loginIsBool n b
    | .signInView => SignInView.loginIsBool n b

def Screen.after (v : Screen) (es : List (Signal Bool)) : Navigation := es.foldl v.step {}

def Screen.segue : Screen → String
  | .mainView => "ReturnOnFirstView"
  | .signUpView => "MainViewSeque"
  | .signInView => "MainViewSeque"

/-- what an event should perform -/
def Screen.wanted (v : Screen) : Signal Bool → List String
  | .emit true => [v.segue]
  | _ => []

/-- every event of the history performs what it should -/
def NavigatesOnce (v : Screen) (es : List (Signal Bool)) : Prop :=
  ∀ a e b, es = a ++ e :: b →
    (v.step (v.after a) e).performed = (v.after a).performed ++ v.wanted e

/-- what must have happened before an event for it to do so -/
def ShownBefore (a : List (Signal Bool)) : Signal Bool → Prop
  | .attach => last false a = false
  | .emit true => attachments a = 1
  | .emit false => True

/-- a success comes after exactly one appearance, and an appearance not upon a success -/
def ShownOnce (es : List (Signal Bool)) : Prop := ∀ a e b, es = a ++ e :: b → ShownBefore a e

/-! ## one event -/

theorem Screen.step_eq (v : Screen) (n : Navigation) (e : Signal Bool) :
    v.step n e = n.notify v.segue (n.login.step e) := by
  cases v <;> cases e <;> rfl

theorem Screen.after_login (v : Screen) (es : List (Signal Bool)) :
    (v.after es).login = (Relay.mk false 0 0).after es := by
  suffices h : ∀ n : Navigation, (es.foldl v.step n).login = n.login.after es from h {}
  induction es with
  | nil => exact fun _ => rfl
  | cons e es ih =>
    intro n
    show (es.foldl v.step (v.step n e)).login = ((n.login.step e).1).after es
    rw [ih, v.step_eq]
    rfl

theorem performed_attach (v : Screen) (n : Navigation) :
    (v.step n .attach).performed = n.performed ++ if n.login.value then [v.segue] else [] := by
  rw [v.step_eq]
  show n.performed ++ ([n.login.value].filter id).map _ = _
  cases n.login.value <;> rfl

/-- **A success performs the segue once for every pair of a binding and a subscription.** -/
theorem performed_emit (v : Screen) (n : Navigation) (b : Bool) :
    (v.step n (.emit b)).performed = n.performed ++
      if b then List.replicate (n.login.bindings * n.login.subscribers) v.segue else [] := by
  rw [v.step_eq]
  show n.performed ++ ((n.login.onNext b).2.filter id).map _ = _
  rw [onNext_notified]
  cases b <;> simp

theorem performed_success (v : Screen) (es : List (Signal Bool)) :
    (v.step (v.after (.attach :: es)) (.emit true)).performed = (v.after (.attach :: es)).performed ++
      List.replicate (attachments (.attach :: es) * attachments (.attach :: es)) v.segue := by
  rw [performed_emit, v.after_login, after_attach]
  rfl

/-! ## histories -/

theorem navigates_event_iff (v : Screen) (a : List (Signal Bool)) (e : Signal Bool) :
    (v.step (v.after (.attach :: a)) e).performed
        = (v.after (.attach :: a)).performed ++ v.wanted e ↔ ShownBefore (.attach :: a) e := by
  cases e with
  | attach =>
    rw [performed_attach, v.after_login, after_attach]
    show _ = _ ++ [] ↔ last false (.attach :: a) = false
    cases last false (.attach :: a) <;> simp
  | emit b =>
    cases b with
    | false =>
      rw [performed_emit]
      exact iff_of_true rfl trivial
    | true =>
      rw [performed_success]
      show _ = _ ++ List.replicate 1 v.segue ↔ attachments (.attach :: a) = 1
      rw [List.append_right_inj, List.replicate_left_inj]
      exact @Nat.mul_self_inj _ 1

/-- **A success navigates once, and nothing else does, iff every success is reported after exactly one
appearance and no appearance follows on a success.** -/
theorem navigates_iff (v : Screen) (es : List (Signal Bool)) :
    NavigatesOnce v (.attach :: es) ↔ ShownOnce (.attach :: es) := by
  have hevent : ∀ a e b, .attach :: es = a ++ e :: b →
      ((v.step (v.after a) e).performed = (v.after a).performed ++ v.wanted e ↔
        ShownBefore a e) := by
    intro a e b h
    cases a with
    | nil =>
      obtain ⟨rfl, _⟩ := List.cons_eq_cons.mp h
      rw [performed_attach]
      exact iff_of_true rfl rfl
    | cons x a =>
      obtain ⟨rfl, _⟩ := List.cons_eq_cons.mp h
      exact navigates_event_iff v a e
  exact ⟨fun h a e b hs => (hevent a e b hs).mp (h a e b hs),
    fun h a e b hs => (hevent a e b hs).mpr (h a e b hs)⟩

/-- **The second appearance makes four segues of one sign-out, and an appearance after it a fifth.** -/
theorem four_segues :
    (Screen.mainView.after [.attach, .attach, .emit true]).performed
      = List.replicate 4 "ReturnOnFirstView" ∧
    (Screen.mainView.after [.attach, .attach, .emit true, .attach]).performed
      = List.replicate 5 "ReturnOnFirstView" ∧
    ¬ NavigatesOnce .mainView [.attach, .attach, .emit true] := by
  refine ⟨by decide, by decide, fun h => ?_⟩
  have htwo := h [.attach, .attach] (.emit true) [] rfl
  revert htwo
  decide

end VoteOnOffice
