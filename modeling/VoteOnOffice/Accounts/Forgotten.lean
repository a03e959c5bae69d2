import Mathlib.Data.List.Induction
import VoteOnOffice.App.Session

/-!
# Signing out: when the store stays empty

A sign-out deletes all logins at once, but the closure of a sign-in or a sign-up that was submitted
before may still write one.

* `SharedLabel`         a step of the session, or what others do: they may leave the accounts and the
                        documents in any state, so any request of the session may succeed or fail;
* `SignLabel.submits`   a button that asks something of the cloud;
* `Forgets`             after a sign-out nothing is stored until the next submission;
* `Settled`             nothing in flight can write a login any more;
* `NothingLate`         no closure writes a login between a sign-out and the next submission;
* `forgets_iff`         **a run whose sign-outs are all settled forgets, a sign-out that is not settled
                        can go wrong, and a run forgets iff nothing is late**.
-/

namespace VoteOnOffice

inductive SharedLabel where
  | own (l : SignLabel)
  /-- other devices and the console -/
  | others (accounts : List String) (db : Database)

def Session.sharedStep (count : String → Nat) (s : Session) : SharedLabel → Option Session
  | .own l => s.step count l
  | .others accounts db => some { s with accounts := accounts, db := db }

def SignLabel.submits (count : String → Nat) : SignLabel → Bool
  | .signIn email password _ => isLong count email password
  | .signUp email password _ => isLong count email password
  | _ => false

def SharedLabel.submits (count : String → Nat) : SharedLabel → Bool
  | .own l => l.submits count
  | .others _ _ => false

def Session.sharedWrites (s : Session) : SharedLabel → Option RememberData
  | .own l => s.writes l
  | .others _ _ => none

section
variable (count : String → Nat)

def Forgets (s : Session) (ls : List SharedLabel) : Prop :=
  ∀ a b c t, ls = a ++ .own (.signOut true) :: (b ++ c) → (∀ l ∈ b, l.submits count = false) →
    Machine.exec (Session.sharedStep count) s (a ++ .own (.signOut true) :: b) = some t → t.realm = []

def NothingLate (s : Session) (ls : List SharedLabel) : Prop :=
  ∀ a b l c t, ls = a ++ .own (.signOut true) :: (b ++ l :: c) → (∀ l ∈ b, l.submits count = false) →
    Machine.exec (Session.sharedStep count) s (a ++ .own (.signOut true) :: b) = some t →
      t.sharedWrites l = none

/-- without another submission a login can still be stored -/
def Session.StillWrites (s : Session) : Prop :=
  ∃ b u, (∀ l ∈ b, l.submits count = false) ∧
    Machine.exec (Session.sharedStep count) s b = some u ∧ u.realm ≠ []

end

structure Session.Settled (s : Session) : Prop where
  answered : ∀ c error, .answer c error ∈ s.net → c.writes error = none
  requested : ∀ c, .request c ∈ s.net → c.writes false = none

section
variable {count : String → Nat} {s t u : Session} {l : SharedLabel} {c : Completion}

theorem sharedStep_nil (hs : s.realm = []) (hw : s.sharedWrites l = none)
    (h : s.sharedStep count l = some u) : u.realm = [] := by
  cases l with
  | others accounts db =>
    cases h
    exact hs
  | own l =>
    have hw : s.writes l = none := hw
    rw [Session.step_realm h]
    cases l with
    | signOut ok => rfl
    | _ =>
      show s.realm ++ (s.writes _).toList = []
      rw [hs, hw]
      rfl

/-! ## settled sessions -/

theorem settled_of_idle (h : s.net = []) : s.Settled where
  answered := fun _ _ hc => by rw [h] at hc; cases hc
  requested := fun _ hc => by rw [h] at hc; cases hc

theorem Session.Settled.step (hs : s.Settled) (hl : l.submits count = false)
    (h : s.sharedStep count l = some u) : u.Settled := by
  cases l with
  | others accounts db =>
    cases h
    exact ⟨hs.answered, hs.requested⟩
  | own l =>
    constructor
    · intro c error hc
      rcases Session.step_net h _ hc with hc | hputs
      · exact hs.answered c error hc
      · cases hputs with
        | @serve k ok _ hreq _ =>
          cases ok with
          | false => cases c <;> rfl
          | true => exact hs.requested c hreq
    · intro c hc
      rcases Session.step_net h _ hc with hc | hputs
      · exact hs.requested c hc
      · cases hputs with
        | asks h =>
          cases h with
          | signIn hlong => exact absurd (hlong.symm.trans hl) (by decide)
          | signUp hlong => exact absurd (hlong.symm.trans hl) (by decide)
          | oldDataLoading => rfl
        | deliver => rfl

theorem Session.Settled.writes (hs : s.Settled) (l : SharedLabel) : s.sharedWrites l = none := by
  cases l with
  | others accounts db => rfl
  | own l =>
    cases l with
    | deliver k =>
      show s.writes (.deliver k) = none
      cases hk : s.net[k]? with
      | none => simp only [Session.writes, hk]
      | some task =>
        cases task with
        | request c => simp only [Session.writes, hk]
        | answer c error =>
          simp only [Session.writes, hk]
          exact hs.answered c error (List.mem_of_getElem? hk)
    | _ => rfl

theorem Session.Settled.not_stillWrites (hs : s.Settled) (hr : s.realm = []) :
    ¬ s.StillWrites count := by
  rintro ⟨b, u, hb, hu, hne⟩
  have hinv : u.realm = [] ∧ u.Settled := by
    refine Machine.exec_invariant _ (P := fun s : Session => s.realm = [] ∧ s.Settled) ?_ hb hu
      ⟨hr, hs⟩
    intro s l t hs hl h
    exact ⟨sharedStep_nil hs.1 (hs.2.writes l) h, hs.2.step hl h⟩
  exact hne hinv.1

/-! ## sessions that are not settled -/

theorem Session.StillWrites.step (ht : t.StillWrites count) (l : SharedLabel)
    (hl : l.submits count = false) (h : s.sharedStep count l = some t) : s.StillWrites count := by
  obtain ⟨b, u, hb, hu, hne⟩ := ht
  refine ⟨l :: b, u, fun x hx => ?_, (Machine.exec_cons _).mpr ⟨t, h, hu⟩, hne⟩
  rcases List.mem_cons.mp hx with rfl | hx
  · exact hl
  · exact hb x hx

theorem stillWrites_answer {error : Bool} {o : RememberData} (hr : s.realm = [])
    (hc : .answer c error ∈ s.net) (ho : c.writes error = some o) : s.StillWrites count := by
  obtain ⟨k, hk⟩ := List.mem_iff_getElem?.mp hc
  have hcompletes : c.Completes error s.realm :=
    ⟨addressed_of_writes ho, fun o _ => by rw [hr]; exact List.not_mem_nil⟩
  have hstep : s.sharedStep count (.own (.deliver k)) = some _ :=
    Session.deliver_eq_some.mpr ⟨c, error, hk, hcompletes, rfl⟩
  refine Session.StillWrites.step ⟨[], _, fun _ hx => absurd hx List.not_mem_nil, rfl, ?_⟩
    (.own (.deliver k)) rfl hstep
  show s.realm ++ (c.writes error).toList ≠ []
  rw [hr, ho]
  exact List.cons_ne_nil _ _

/-- others can see to it that the cloud grants a request -/
theorem exists_grant (s : Session) (c : Completion) :
    ∃ accounts t, Session.grant { s with accounts := accounts } c = some t := by
  cases c with
  | signIn email password switchRemember =>
    exact ⟨[email], _, Session.grant_signIn.mpr ⟨List.mem_singleton_self _, rfl⟩⟩
  | createUser email password switchRemember =>
    exact ⟨[], _, Session.grant_createUser.mpr ⟨List.not_mem_nil, rfl⟩⟩
  | setData email => exact ⟨[], _, rfl⟩

theorem stillWrites_request {o : RememberData} (hr : s.realm = []) (hc : .request c ∈ s.net)
    (ho : c.writes false = some o) : s.StillWrites count := by
  obtain ⟨accounts, t, hgrant⟩ := exists_grant s c
  obtain ⟨k, hk⟩ := List.mem_iff_getElem?.mp hc
  obtain ⟨hlt, _⟩ := List.getElem?_eq_some_iff.mp hk
  have hserve : Session.sharedStep count { s with accounts := accounts } (.own (.serve k true)) =
      some { t with net := s.net.set k (.answer c false) } :=
    Session.serve_eq_some.mpr ⟨c, t, hk, hgrant, rfl⟩
  have hanswer : Session.StillWrites count { t with net := s.net.set k (.answer c false) } :=
    stillWrites_answer ((Session.grant_keeps hgrant).1.trans hr) (List.mem_set hlt _) ho
  exact (hanswer.step (.own (.serve k true)) rfl hserve).step (.others accounts s.db) rfl rfl

/-- **A sign-out leaves nothing that still writes iff the session is settled.** -/
theorem settled_iff : s.Settled ↔ ¬ (s.signOut true).StillWrites count := by
  constructor
  · intro hs
    have hout : (s.signOut true).Settled := ⟨hs.answered, hs.requested⟩
    exact hout.not_stillWrites rfl
  · intro hno
    constructor
    · intro c error hc
      rw [Option.eq_none_iff_forall_ne_some]
      exact fun o ho => hno (stillWrites_answer rfl hc ho)
    · intro c hc
      rw [Option.eq_none_iff_forall_ne_some]
      exact fun o ho => hno (stillWrites_request rfl hc ho)

/-! ## whole runs -/

theorem exec_window {a b : List SharedLabel} :
    Machine.exec (Session.sharedStep count) s (a ++ .own (.signOut true) :: (b ++ [l])) = some u ↔
      ∃ t, Machine.exec (Session.sharedStep count) s (a ++ .own (.signOut true) :: b) = some t ∧
        t.sharedStep count l = some u := by
  have hsplit : a ++ .own (.signOut true) :: (b ++ [l]) = (a ++ .own (.signOut true) :: b) ++ [l] := by
    simp
  rw [hsplit, Machine.exec_concat]

variable {ls : List SharedLabel}

theorem Forgets.nothingLate (h : Forgets count s ls)
    (hrun : Machine.exec (Session.sharedStep count) s ls = some u) : NothingLate count s ls := by
  intro a b l c t e hb ht
  rw [show ls = (a ++ .own (.signOut true) :: b) ++ l :: c by simp [e], Machine.exec_append_eq_some]
    at hrun
  obtain ⟨t', ht', hrest⟩ := hrun
  cases ht.symm.trans ht'
  obtain ⟨v, hv, _⟩ := (Machine.exec_cons _).mp hrest
  cases l with
  | others accounts db => rfl
  | own l =>
    cases l with
    | deliver k =>
      have hbefore : t.realm = [] := h a b (.own (.deliver k) :: c) t e hb ht
      have hafter : v.realm = [] := by
        refine h a (b ++ [.own (.deliver k)]) c v (by simp [e]) (fun x hx => ?_)
          (exec_window.mpr ⟨t, ht, hv⟩)
        rcases List.mem_append.mp hx with hx | hx
        · exact hb x hx
        · rw [List.mem_singleton.mp hx]; rfl
      have hv : t.step count (.deliver k) = some v := hv
      have hnil : t.realm ++ (t.writes (.deliver k)).toList = [] :=
        (Session.step_realm hv).symm.trans hafter
      rw [hbefore, List.nil_append, Option.toList_eq_nil_iff] at hnil
      exact hnil
    | _ => rfl

/-- by induction on the steps since the sign-out -/
theorem NothingLate.forgets (h : NothingLate count s ls) : Forgets count s ls := by
  intro a b
  induction b using List.reverseRecOn with
  | nil =>
    intro c t _ _ ht
    obtain ⟨t', _, hout⟩ := (Machine.exec_concat _).mp ht
    cases hout
    rfl
  | append_singleton b l ih =>
    intro c t e hb ht
    obtain ⟨t', ht', hl⟩ := exec_window.mp ht
    have hb' : ∀ x ∈ b, x.submits count = false := fun x hx => hb x (List.mem_append_left _ hx)
    exact sharedStep_nil (ih (l :: c) t' (by simp [e]) hb' ht')
      (h a b l c t' (by simp [e]) hb' ht') hl

theorem forgets_of_settled (h : ∀ a b t, ls = a ++ .own (.signOut true) :: b →
    Machine.exec (Session.sharedStep count) s a = some t → t.Settled) : Forgets count s ls := by
  intro a b c t e hb ht
  obtain ⟨t₀, ht₀, hrest⟩ := (Machine.exec_append_eq_some _).mp ht
  obtain ⟨t₁, hout, hrest⟩ := (Machine.exec_cons _).mp hrest
  cases hout
  by_contra hne
  exact settled_iff.mp (h a _ t₀ e ht₀) ⟨b, t, hb, hrest, hne⟩

/-- **A run whose sign-outs are all settled forgets, and after a sign-out that is not settled a login
can be stored without another submission;** a run forgets iff no closure writes a login between a
sign-out and the next submission. -/
theorem forgets_iff (hrun : Machine.exec (Session.sharedStep count) s ls = some u) :
    ((∀ a b t, ls = a ++ .own (.signOut true) :: b →
      Machine.exec (Session.sharedStep count) s a = some t → t.Settled) → Forgets count s ls) ∧
    (u.Settled ↔ ¬ (u.signOut true).StillWrites count) ∧
    (Forgets count s ls ↔ NothingLate count s ls) :=
  ⟨forgets_of_settled, settled_iff, fun h => h.nothingLate hrun, NothingLate.forgets⟩

end

/-! ## one sign-in, and two of which the second comes after the sign-out -/

def pressedOnce : List SharedLabel :=
  [.own (.signIn "alice@x.y" "secret1" true), .own (.serve 0 true), .own (.deliver 0),
    .own (.signOut true)]

/-- the button is pressed twice, and the first sign-in opens the main screen -/
def pressedTwice : List SharedLabel :=
  [.own (.signIn "alice@x.y" "secret1" true), .own (.signIn "alice@x.y" "secret1" true),
    .own (.serve 0 true), .own (.serve 1 true), .own (.deliver 0), .own (.signOut true)]

theorem forgets_pressedOnce : Forgets String.length (.fresh ["alice@x.y"] .empty) pressedOnce := by
  have hrun : (Machine.exec (Session.sharedStep String.length) (.fresh ["alice@x.y"] .empty)
      pressedOnce).isSome = true := by decide
  obtain ⟨u, hu⟩ := Option.isSome_iff_exists.mp hrun
  refine (forgets_iff hu).1 fun a b t e ht => ?_
  -- the only sign-out is the last label
  have ha : a = pressedOnce.take 3 := by
    rcases a with _ | ⟨x₁, _ | ⟨x₂, _ | ⟨x₃, _ | ⟨x₄, a⟩⟩⟩⟩
    · cases e
    · cases e
    · cases e
    · cases e; rfl
    · simp [pressedOnce] at e
  subst ha
  cases ht
  exact settled_of_idle rfl

/-- **The second closure writes the login that the sign-out has deleted.** -/
theorem stored_after_signOut :
    (Machine.exec (Session.sharedStep String.length) (.fresh ["alice@x.y"] .empty)
      (pressedTwice ++ [.own (.deliver 0)])).map Session.realm = some [⟨"alice@x.y", "secret1"⟩] ∧
    ¬ Forgets String.length (.fresh ["alice@x.y"] .empty)
      (pressedTwice ++ [.own (.deliver 0)]) := by
  have hrealm : (Machine.exec (Session.sharedStep String.length) (.fresh ["alice@x.y"] .empty)
      (pressedTwice ++ [.own (.deliver 0)])).map Session.realm
        = some [⟨"alice@x.y", "secret1"⟩] := by
    decide
  refine ⟨hrealm, fun h => ?_⟩
  obtain ⟨u, hu, hr⟩ := Option.map_eq_some_iff.mp hrealm
  have hnil := h (pressedTwice.take 5) [.own (.deliver 0)] [] u rfl (by decide) hu
  rw [hr] at hnil
  cases hnil

end VoteOnOffice
