import Mathlib.Data.List.Induction
import VoteOnOffice.Accounts.Backed
import VoteOnOffice.App.System

/-!
# Every submission is reported once

* `SignLabel.form`, `Completion.form`
                       the form that a label submits, and the one that a request belongs to;
* `Session.reports`, `Session.inFlight`
                       how often a form has reported, and what it has in flight;
* `step_reports`       a submission adds one to their sum, a restart takes what is in flight, and nothing
                       else changes it;
* `SignTask.promises`  a sign-up whose account is there and whose success can still be reported;
* `step_successes`     successes and promises grow only with the accounts;
* `reported_once`      **no report is lost without a restart, none is made twice, and no account is
                       reported twice.**
-/

namespace VoteOnOffice

def SignLabel.form : SignLabel → Option Form
  | .signIn _ _ _ => some .signIn
  | .signUp _ _ _ => some .signUp
  | .oldDataLoading => some .signIn
  | _ => none

def Completion.form : Completion → Form
  | .signIn _ _ _ => .signIn
  | .createUser _ _ _ => .signUp
  | .setData _ => .signUp

/-- how often the labels submit the form -/
def submissions (form : Form) (ls : List SignLabel) : Nat :=
  ls.countP fun l => l.form = some form

def Session.reports (s : Session) (form : Form) : Nat := s.loginIsBool.countP fun r => r.1 = form

def Session.inFlight (s : Session) (form : Form) : Nat :=
  s.net.countP fun task => task.completion.form = form

/-- the account is there, and the success can still be reported -/
def SignTask.promises : SignTask → Bool
  | .answer (.createUser _ _ _) error => !error
  | .request (.setData _) => true
  | .answer (.setData _) error => !error
  | _ => false

def Session.successes (s : Session) : Nat :=
  s.loginIsBool.count (.signUp, true) + s.net.countP SignTask.promises

/-! ## one step -/

theorem countP_middle {α : Type} (p : α → Bool) (l₁ l₂ : List α) (x : α) :
    (l₁ ++ x :: l₂).countP p = (l₁ ++ l₂).countP p + if p x then 1 else 0 := by
  rw [List.countP_append, List.countP_cons, List.countP_append]
  omega

theorem emits_requests (c : Completion) (error : Bool) (form : Form) :
    ((c.emits error).countP fun r => decide (r.1 = form)) +
      (((c.requests error).map SignTask.request).countP fun task =>
        decide (task.completion.form = form)) = if c.form = form then 1 else 0 := by
  cases c <;> cases error <;> cases form <;> rfl

section
variable {count : String → Nat} {s u : Session} {l : SignLabel}

theorem step_reports (hs : s.step count l = some u) (form : Form) :
    u.reports form + u.inFlight form ≤
      s.reports form + s.inFlight form + (if l.form = some form then 1 else 0) ∧
    (l ≠ .restart → u.reports form + u.inFlight form =
      s.reports form + s.inFlight form + if l.form = some form then 1 else 0) := by
  suffices h : l ≠ .restart → u.reports form + u.inFlight form =
      s.reports form + s.inFlight form + if l.form = some form then 1 else 0 by
    refine ⟨?_, h⟩
    cases l with
    | restart =>
      cases hs
      exact Nat.add_le_add_left (Nat.zero_le _) _
    | _ => exact Nat.le_of_eq (h (by rintro ⟨⟩))
  intro hl
  unfold Session.reports Session.inFlight
  cases Session.step_stepped hs with
  | asks hasks =>
    rw [List.countP_append]
    cases hasks <;> cases form <;> rfl
  | reports hreports =>
    rw [List.countP_append, Nat.add_right_comm]
    cases hreports <;> cases form <;> rfl
  | @serve k ok c t hk hgrant =>
    obtain ⟨l₁, l₂, hnet, hset, _⟩ := split_net hk
    have hsame : t.loginIsBool = s.loginIsBool := by
      cases ok with
      | false => rw [show t = s from hgrant]
      | true => exact (Session.grant_keeps hgrant).2.2.1
    show t.loginIsBool.countP _ + (s.net.set k _).countP _ = _
    rw [hset, hsame, hnet, countP_middle, countP_middle]
    rfl
  | @deliver k c error hk _ =>
    obtain ⟨l₁, l₂, hnet, _, herase⟩ := split_net hk
    have hone := emits_requests c error form
    show (s.loginIsBool ++ _).countP _ + (s.net.eraseIdx k ++ _).countP _ = _
    rw [herase, hnet, List.countP_append, List.countP_append, countP_middle]
    have hform : (if decide ((SignTask.answer c error).completion.form = form) = true then 1 else 0)
        = if c.form = form then 1 else 0 := by
      cases c <;> cases form <;> rfl
    rw [hform]
    have hnone : (if (SignLabel.deliver k).form = some form then 1 else 0) = 0 := rfl
    omega
  | signOut => rfl
  | restart => exact absurd rfl hl

/-- a sign-up makes an account, then it promises, then it succeeds -/
theorem emits_promises (c : Completion) (error : Bool) :
    (c.emits error).count (.signUp, true) +
      ((c.requests error).map SignTask.request).countP SignTask.promises
        = if (SignTask.answer c error).promises then 1 else 0 := by
  cases c <;> cases error <;> rfl

theorem step_successes (hs : s.step count l = some u) :
    u.successes + s.accounts.length ≤ s.successes + u.accounts.length := by
  unfold Session.successes
  cases Session.step_stepped hs with
  | asks hasks =>
    rw [List.countP_append]
    cases hasks <;> exact Nat.le_refl _
  | @reports l form _ =>
    rw [List.count_append]
    cases form <;> exact Nat.le_refl _
  | @serve k ok c t hk hgrant =>
    obtain ⟨l₁, l₂, hnet, hset, _⟩ := split_net hk
    show t.loginIsBool.count _ + (s.net.set k _).countP _ + _ ≤ _ + t.accounts.length
    rw [hset, hnet, countP_middle, countP_middle]
    cases ok with
    | false =>
      obtain rfl : t = s := hgrant
      cases c <;> simp [SignTask.promises]
    | true =>
      cases c with
      | signIn email password switchRemember =>
        obtain ⟨_, rfl⟩ := Session.grant_signIn.mp hgrant
        exact Nat.le_refl _
      | createUser email password switchRemember =>
        obtain ⟨_, rfl⟩ := Session.grant_createUser.mp hgrant
        show s.loginIsBool.count _ + (_ + 1) + s.accounts.length ≤
          s.loginIsBool.count _ + (_ + 0) + (s.accounts.length + 1)
        omega
      | setData email =>
        cases hgrant
        exact Nat.le_refl _
  | @deliver k c error hk _ =>
    obtain ⟨l₁, l₂, hnet, _, herase⟩ := split_net hk
    have hone := emits_promises c error
    show (s.loginIsBool ++ _).count _ + (s.net.eraseIdx k ++ _).countP _ + s.accounts.length ≤
      _ + s.accounts.length
    rw [herase, hnet, List.count_append, List.countP_append, countP_middle]
    omega
  | signOut => exact Nat.le_refl _
  | restart =>
    show s.loginIsBool.count _ + 0 + s.accounts.length ≤ _ + s.accounts.length
    omega

/-! ## whole runs -/

variable {accounts : List String} {db : Database} {ls : List SignLabel}

/-- **Every submission is reported once.** -/
theorem reported_once
    (hrun : Machine.exec (Session.step count) (.fresh accounts db) ls = some s) :
    (∀ form, s.reports form + s.inFlight form ≤ submissions form ls) ∧
    (.restart ∉ ls → ∀ form, s.reports form + s.inFlight form = submissions form ls) ∧
    s.loginIsBool.count (.signUp, true) + accounts.length ≤ s.accounts.length := by
  suffices h : (∀ form, s.reports form + s.inFlight form ≤ submissions form ls) ∧
      (.restart ∉ ls → ∀ form, s.reports form + s.inFlight form = submissions form ls) ∧
      s.successes + accounts.length ≤ s.accounts.length by
    refine ⟨h.1, h.2.1, Nat.le_trans (Nat.add_le_add_right (Nat.le_add_right _ _) _) h.2.2⟩
  induction ls using List.reverseRecOn generalizing s with
  | nil =>
    cases hrun
    exact ⟨fun form => Nat.le_refl _, fun _ form => rfl, Nat.le_of_eq (Nat.zero_add _)⟩
  | append_singleton ls l ih =>
    obtain ⟨t, ht, hs⟩ := (Machine.exec_concat (Session.step count)).mp hrun
    obtain ⟨hle, heq, hsuccesses⟩ := ih ht
    have hlast : ∀ form, submissions form (ls ++ [l]) =
        submissions form ls + if l.form = some form then 1 else 0 := fun form => by
      unfold submissions
      rw [List.countP_append, List.countP_singleton]
      simp only [decide_eq_true_eq]
    refine ⟨fun form => ?_, fun hrestart form => ?_, ?_⟩
    · rw [hlast form]
      exact Nat.le_trans (step_reports hs form).1 (Nat.add_le_add_right (hle form) _)
    · rw [hlast form, ← heq (fun h => hrestart (List.mem_append_left _ h)) form]
      exact (step_reports hs form).2 fun h =>
        hrestart (List.mem_append_right _ (by rw [h]; exact List.mem_cons_self))
    · have hstep := step_successes hs
      omega

end

/-- `carol` is not let in before she has an account, nor made one twice -/
def carolTwice : List SignLabel :=
  [.signIn "carol@x.y" "secret1" true, .signUp "carol@x.y" "secret1" true, .serve 0 false,
    .serve 1 true, .deliver 1, .signUp "carol@x.y" "secret1" true, .deliver 0, .serve 1 false,
    .serve 0 true, .deliver 0, .deliver 0]

theorem reported_once_carol :
    (Session.reached carolTwice).reports .signIn = 1 ∧
    (Session.reached carolTwice).reports .signUp = 2 ∧
    (Session.reached carolTwice).loginIsBool.count (.signUp, true) + 2 ≤
      (Session.reached carolTwice).accounts.length := by
  obtain ⟨_, heq, hsuccesses⟩ := @reported_once String.length (.reached carolTwice)
    ["alice@x.y", "bobby@x.y"] .empty carolTwice (run_reached carolTwice (by decide))
  have hnone : ∀ form, (Session.reached carolTwice).inFlight form = 0 := fun form => by
    cases form <;> decide
  have hrestart : SignLabel.restart ∉ carolTwice := by
    simp [carolTwice]
  refine ⟨?_, ?_, hsuccesses⟩
  · have h := heq hrestart .signIn
    rw [hnone] at h
    exact h
  · have h := heq hrestart .signUp
    rw [hnone] at h
    exact h

end VoteOnOffice
