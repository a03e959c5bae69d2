import VoteOnOffice.Devices.InSystem
import VoteOnOffice.Records.Causes
import VoteOnOffice.Records.Lifetime

/-!
# Who has done what: sign-ins behind ballots, admins behind votes

* `SignedIn ls i email`
                       device `i` was granted a sign-in or a sign-up as `email`;
* `Device.Authentic`   the invariant: the user and the screens of a device are those of sign-ins, and so
                       is the user that the SDK has yet to make current; an add screen was opened with an
                       admin's button;
* `run_authentic`      **it holds of every device in every run**;
* `ballot_authentic`   **every ballot was cast on a device that had been signed in as its user**;
* `admin_granted`      a main screen that shows the button belongs to a user who was made an admin;
* `vote_authorized`, `deletion_authorized`
                       **so votes come from outside or from admins, and go by admins only.**
-/

namespace VoteOnOffice

section
variable (count : String → Nat) (n : Nat)

def SignedIn (ls : List WorldLabel) (i : Nat) (email : String) : Prop :=
  ∃ a b k w d c, ls = a ++ .sign i (.serve k true) :: b ∧ World.Run count (.initial n) a w ∧
    w.devices[i]? = some d ∧ d.net[k]? = some (.request c) ∧ c.user = some email

def AddOpened (ls : List WorldLabel) (i : Nat) : Prop :=
  ∃ a b main w d m, ls = a ++ .act i (.openAdd main) :: b ∧ World.Run count (.initial n) a w ∧
    w.devices[i]? = some d ∧ main ∈ d.mains ∧ w.system.mains[main]? = some m ∧ m.adminStatus = true

structure Device.Authentic (ls : List WorldLabel) (a : Addresses) (i : Nat) (d : Device) : Prop where
  user : ∀ email, d.currentUser = some email → SignedIn count n ls i email
  updates : ∀ c ∈ d.updates, ∀ email, c.user = some email → SignedIn count n ls i email
  mains : ∀ main ∈ d.mains, ∃ email, a.mains[main]? = some email ∧ SignedIn count n ls i email
  views : ∀ view ∈ d.views, ∃ x, a.views[view]? = some x ∧ SignedIn count n ls i x.1
  adds : d.adds ≠ [] → AddOpened count n ls i

def World.Authentic (ls : List WorldLabel) (w : World) : Prop :=
  ∀ i (d : Device), w.devices[i]? = some d → d.Authentic count n ls w.system.addresses i

end

/-! ## the invariant -/

section
variable {count : String → Nat} {n : Nat} {ls b : List WorldLabel} {w u : World} {l : WorldLabel}
  {i : Nat} {email : String} {a a' : Addresses} {d d' : Device}

theorem SignedIn.mono (h : SignedIn count n ls i email) : SignedIn count n (ls ++ b) i email := by
  obtain ⟨a, b₀, k, w, d, c, rfl, hrest⟩ := h
  exact ⟨a, b₀ ++ b, k, w, d, c, by simp, hrest⟩

theorem AddOpened.mono (h : AddOpened count n ls i) : AddOpened count n (ls ++ b) i := by
  obtain ⟨a, b₀, main, w, d, m, rfl, hrest⟩ := h
  exact ⟨a, b₀ ++ b, main, w, d, m, by simp, hrest⟩

theorem Device.Authentic.mono (h : d.Authentic count n ls a i) (hgrows : a.Grows a') :
    d.Authentic count n (ls ++ b) a' i where
  user := fun email he => (h.user email he).mono
  updates := fun c hc email he => (h.updates c hc email he).mono
  mains := fun main hm => by
    obtain ⟨email, he, hsigned⟩ := h.mains main hm
    exact ⟨email, hgrows.mains _ _ he, hsigned.mono⟩
  views := fun view hv => by
    obtain ⟨x, hx, hsigned⟩ := h.views view hv
    exact ⟨x, hgrows.views _ _ hx, hsigned.mono⟩
  adds := fun hadds => (h.adds hadds).mono

theorem World.Authentic.put {x : System} (h : w.Authentic count n ls)
    (hgrows : w.system.addresses.Grows x.addresses)
    (hd : d'.Authentic count n (ls ++ b) x.addresses i) :
    (w.put i d' x).Authentic count n (ls ++ b) := by
  intro j e he
  have he : (w.devices.set i d')[j]? = some e := he
  rw [List.getElem?_set] at he
  by_cases hij : i = j
  · subst hij
    by_cases hi : i < w.devices.length
    · rw [if_pos rfl, if_pos hi] at he
      cases he
      exact hd
    · rw [if_pos rfl, if_neg hi] at he
      cases he
  · rw [if_neg hij] at he
    exact (h j e he).mono hgrows

/-- a session step: whose request is granted, and what a restart closes -/
theorem Device.Authentic.next {s : Session} {l : SignLabel} (h : d.Authentic count n ls a i)
    (hrun : World.Run count (.initial n) ls w) (hd : w.devices[i]? = some d) :
    (d.next l s).Authentic count n (ls ++ [.sign i l]) a i := by
  have hold := h.mono (b := [.sign i l]) (grows_refl a)
  have huser : ∀ email, d.nextUser l = some email →
      SignedIn count n (ls ++ [.sign i l]) i email := by
    intro email he
    cases l with
    | signOut ok =>
      cases ok with
      | true => cases he
      | false => exact hold.user email he
    | _ => exact hold.user email he
  have hupdates : ∀ c ∈ d.nextUpdates l, ∀ email, c.user = some email →
      SignedIn count n (ls ++ [.sign i l]) i email := by
    intro c hc email he
    cases l with
    | serve k ok =>
      cases ok with
      | false => exact hold.updates c hc email he
      | true =>
        cases hk : d.net[k]? with
        | none => simp only [Device.nextUpdates, hk] at hc; exact hold.updates c hc email he
        | some task =>
          cases task with
          | answer c' error =>
            simp only [Device.nextUpdates, hk] at hc
            exact hold.updates c hc email he
          | request c' =>
            simp only [Device.nextUpdates, hk] at hc
            split at hc
            · rcases List.mem_append.mp hc with hc | hc
              · exact hold.updates c hc email he
              · rw [List.mem_singleton.mp hc] at he
                exact ⟨ls, [], k, w, d, c', rfl, hrun, hd, hk, he⟩
            · exact hold.updates c hc email he
    | restart => cases hc
    | _ => exact hold.updates c hc email he
  cases l with
  | restart =>
    exact ⟨huser, hupdates, fun _ hm => absurd hm List.not_mem_nil,
      fun _ hv => absurd hv List.not_mem_nil, fun hadds => absurd rfl hadds⟩
  | _ => exact ⟨huser, hupdates, hold.mains, hold.views, hold.adds⟩

theorem Device.Authentic.acted {x : System} {act : DeviceAct} {m : Option Label}
    (h : d.Authentic count n ls w.system.addresses i) (hrun : World.Run count (.initial n) ls w)
    (hd : w.devices[i]? = some d) (ha : d.Acted w.system act d' m)
    (hx : x.addresses = ⟨w.system.addresses.views ++ (m.elim ([], []) Label.opens).1,
      w.system.addresses.mains ++ (m.elim ([], []) Label.opens).2⟩) :
    d'.Authentic count n (ls ++ [.act i act]) x.addresses i := by
  have hgrows : w.system.addresses.Grows x.addresses := by
    rw [hx]
    exact grows_append _ _
  have hold := h.mono (b := [.act i act]) hgrows
  cases ha with
  | @segue email hu he =>
    refine ⟨hold.user, hold.updates, fun main hm => ?_, hold.views, hold.adds⟩
    rcases List.mem_append.mp hm with hm | hm
    · exact hold.mains main hm
    · refine ⟨email, ?_, hold.user email hu⟩
      rw [hx, List.mem_singleton.mp hm]
      show (w.system.mains.map MainView.emailString ++ [email])[w.system.mains.length]? = some email
      rw [← List.length_map (f := MainView.emailString), List.getElem?_concat_length]
  | @openVote main row email m' dtc hu _ _ _ =>
    refine ⟨hold.user, hold.updates, hold.mains, fun view hv => ?_, hold.adds⟩
    rcases List.mem_append.mp hv with hv | hv
    · exact hold.views view hv
    · refine ⟨(email, dtc.UUID), ?_, hold.user email hu⟩
      rw [hx, List.mem_singleton.mp hv]
      show (w.system.views.map (fun v => (v.emailString, v.UUID)) ++
        [(email, dtc.UUID)])[w.system.views.length]? = some (email, dtc.UUID)
      rw [← List.length_map (f := fun v : VoteView => (v.emailString, v.UUID)),
        List.getElem?_concat_length]
  | @openAdd main m' hm hmain hadmin =>
    exact ⟨hold.user, hold.updates, hold.mains, hold.views, fun _ =>
      ⟨ls, [], main, w, d, m', rfl, hrun, hd, hmain, hm, hadmin⟩⟩
  | edit hadd =>
    refine ⟨hold.user, hold.updates, hold.mains, hold.views, fun _ => hold.adds ?_⟩
    rintro hnil
    rw [hnil] at hadd
    cases hadd
  | addNewVote hadd _ =>
    refine ⟨hold.user, hold.updates, hold.mains, hold.views, fun _ => hold.adds ?_⟩
    rintro hnil
    rw [hnil] at hadd
    cases hadd
  | screen _ => exact hold

theorem step_authentic (h : w.Authentic count n ls) (hrun : World.Run count (.initial n) ls w)
    (hw : w.step count l = some u) : u.Authentic count n (ls ++ [l]) := by
  cases World.step_stepped hw with
  | sign hd _ _ => exact h.put (grows_refl _) ((h _ _ hd).next hrun hd)
  | @updateCurrentUser i k d c hd hk =>
    have hold := (h i d hd).mono (b := [.updateCurrentUser i k]) (grows_refl w.system.addresses)
    exact h.put (grows_refl _) ⟨hold.updates c (List.mem_of_getElem? hk),
      fun c hc => hold.updates c (List.mem_of_mem_eraseIdx hc), hold.mains, hold.views, hold.adds⟩
  | @orphan i k ok d c s hd _ _ =>
    have hold := (h i d hd).mono (b := [.orphan i k ok]) (grows_refl w.system.addresses)
    exact h.put (grows_refl _) ⟨hold.user, hold.updates, hold.mains, hold.views, hold.adds⟩
  | @crash i k d d' hd hd' =>
    obtain ⟨c, error, _, _, _, rfl⟩ := Device.crashed_eq_some.mp hd'
    have hold := (h i d hd).mono (b := [.crash i k]) (grows_refl w.system.addresses)
    exact h.put (grows_refl _) ⟨hold.user, fun _ hc => absurd hc List.not_mem_nil,
      fun _ hm => absurd hm List.not_mem_nil, fun _ hv => absurd hv List.not_mem_nil,
      fun hadds => absurd rfl hadds⟩
  | edits hd ha =>
    refine h.put (grows_refl _) ((h _ _ hd).acted hrun hd ha ?_)
    rw [Option.elim_none, List.append_nil, List.append_nil]
  | acts hd ha hx => exact h.put (step_grows hx) ((h _ _ hd).acted hrun hd ha (step_addresses hx))
  | cloud _ hx => exact fun i d hd => (h i d hd).mono (step_grows hx)

/-- **Every user and every screen of every device comes from a sign-in on it.** -/
theorem run_authentic (hrun : World.Run count (.initial n) ls w) : w.Authentic count n ls := by
  induction ls using List.reverseRecOn generalizing w with
  | nil =>
    cases hrun
    intro i d hd
    rw [List.eq_of_mem_replicate (List.mem_of_getElem? hd)]
    exact ⟨fun _ he => (by cases he), fun _ hc => absurd hc List.not_mem_nil,
      fun _ hm => absurd hm List.not_mem_nil, fun _ hv => absurd hv List.not_mem_nil,
      fun hadds => absurd rfl hadds⟩
  | append_singleton ls l ih =>
    obtain ⟨t, ht, hw⟩ := (Machine.exec_concat (World.step count)).mp hrun
    exact step_authentic (ih ht) ht hw

end

/-! ## ballots -/

section
variable {count : String → Nat} {n : Nat} {ls : List WorldLabel} {w : World}
  (hrun : World.Run count (.initial n) ls w)
include hrun

/-- **Every ballot was cast on a device that had been signed in as its user**, by a tap on a screen of
that user. -/
theorem ballot_authentic {email : String} {d : Document} {l : List Record}
    (hd : w.system.db.users.lookup email = some d) (hl : d .userVotesList = some (.records l)) :
    ∀ r ∈ l, ∃ V, ∃ row : Nat, r = ballot V row ∧ ∃ a b i view t v,
      ls = a ++ .act i (.screen (.tap view row)) :: b ∧ World.Run count (.initial n) a t ∧
      t.system.views[view]? = some v ∧ v.emailString = email ∧ v.UUID = V ∧
      SignedIn count n a i email := by
  intro r hr
  obtain ⟨ls', y, hmatched⟩ := exists_matched hrun
  obtain ⟨net, rfl, _⟩ := hmatched.rel
  obtain ⟨V, row, hr, a', b', t', view, v, i, hls', ht', hv, hemail, hV, rfl, _⟩ :=
    ((traced_here hmatched.exec.2).users email d hd).ballots hl r hr
  obtain ⟨a, l, b, t, z, hls, hprefix, hlabel⟩ := hmatched.label hls' rfl
  -- the state of the system before the tap has the screens of the world
  obtain ⟨ha, hz⟩ := hprefix.exec
  cases hz.symm.trans ht'
  obtain ⟨_, rfl, _⟩ := hprefix.rel
  rcases hlabel with ⟨_, hcloud⟩ | ⟨j, act, e, e', rfl, he, hacted⟩
  · cases hcloud
  · cases hacted with
    | screen ho =>
      obtain ⟨x, hx, hsigned⟩ := (run_authentic ha j e he).views view (of_decide_eq_true ho)
      cases (address_view hv).symm.trans hx
      exact ⟨V, i, hr, a, b, j, view, t, v, hls, ha, hv, hemail, hV, hemail ▸ hsigned⟩

/-! ## admins -/

theorem admin_granted {main : Nat} {m : MainView} (hm : w.system.mains[main]? = some m)
    (hadmin : m.adminStatus = true) : .cloud (.setUserRole m.emailString true) ∈ ls := by
  obtain ⟨ls', y, hmatched⟩ := exists_matched hrun
  obtain ⟨net, rfl, _⟩ := hmatched.rel
  have hrole : .setUserRole m.emailString true ∈ ls' :=
    ((traced_here hmatched.exec.2).mains m (List.mem_of_getElem? hm)).admin hadmin
  obtain ⟨a', b', hls'⟩ := List.append_of_mem hrole
  obtain ⟨a, l, b, t, z, rfl, _, hlabel⟩ := hmatched.label hls' rfl
  rcases hlabel with ⟨rfl, _⟩ | ⟨j, act, e, e', rfl, he, hacted⟩
  · exact List.mem_append_right _ List.mem_cons_self
  · cases hacted with
    | screen ho => cases ho

theorem admin_signed {main i : Nat} {m : MainView} {d : Device} (hd : w.devices[i]? = some d)
    (hmain : main ∈ d.mains) (hm : w.system.mains[main]? = some m) (hadmin : m.adminStatus = true) :
    SignedIn count n ls i m.emailString ∧ .cloud (.setUserRole m.emailString true) ∈ ls := by
  obtain ⟨email, he, hsigned⟩ := (run_authentic hrun i d hd).mains main hmain
  cases (address_main hm).symm.trans he
  exact ⟨hsigned, admin_granted hrun hm hadmin⟩

/-- **Every stored vote was written from outside or composed by an admin**, on a device that had been
signed in as a user who had been made an admin. -/
theorem vote_authorized {V : String} {d : Document} (hd : w.system.db.votes.lookup V = some d) :
    (∃ title description voteDate items cellForRow,
      .cloud (.addNewVote title description voteDate V items cellForRow) ∈ ls) ∨
    ∃ a b i add title description voteDate cellForRow email,
      ls = a ++ .act i (.addNewVote add title description voteDate V cellForRow) :: b ∧
      SignedIn count n a i email ∧ .cloud (.setUserRole email true) ∈ a := by
  obtain ⟨ls', y, hmatched⟩ := exists_matched hrun
  obtain ⟨net, rfl, _⟩ := hmatched.rel
  obtain ⟨d₀, hc, _⟩ := (traced_here hmatched.exec.2).votes V d hd
  obtain ⟨m, hm, hcomposes⟩ := hc
  have hV := (mem_composes hcomposes).1
  cases m with
  | addNewVote title description voteDate uuid items cellForRow =>
    obtain rfl : V = uuid := List.mem_singleton.mp hV
    obtain ⟨a', b', hls'⟩ := List.append_of_mem hm
    obtain ⟨a, l, b, t, z, rfl, hprefix, hlabel⟩ := hmatched.label hls' rfl
    rcases hlabel with ⟨rfl, _⟩ | ⟨j, act, e, e', rfl, he, hacted⟩
    · exact .inl ⟨title, description, voteDate, items, cellForRow,
        List.mem_append_right _ List.mem_cons_self⟩
    · have ha := hprefix.exec.1
      cases hacted with
      | screen ho => cases ho
      | @addNewVote add _ _ _ _ _ vm vm' array hadd _ =>
        have hadds : e.adds ≠ [] := by
          intro hnil
          rw [hnil] at hadd
          cases hadd
        obtain ⟨a₀, b₀, main, t₀, d₀, m₀, rfl, ht₀, hd₀, hmain, hm₀, hadmin⟩ :=
          (run_authentic ha j e he).adds hadds
        obtain ⟨hsigned, hrole⟩ := admin_signed ht₀ hd₀ hmain hm₀ hadmin
        exact .inr ⟨_, b, j, add, title, description, voteDate, cellForRow, m₀.emailString, rfl,
          hsigned.mono, List.mem_append_left _ hrole⟩
  | _ => cases hV

/-- **A vote that is no longer stored was deleted by an admin**, with the row that showed it on a device
that had been signed in as a user who had been made an admin. -/
theorem deletion_authorized {bs : List WorldLabel} {u : World} (hbs : World.Run count w bs u)
    {V : String} (hin : w.system.db.votes.lookup V ≠ none)
    (hout : u.system.db.votes.lookup V = none) :
    ∃ a b i main row t m dtc, ls ++ bs = a ++ .act i (.screen (.deleteRow main row)) :: b ∧
      World.Run count (.initial n) a t ∧ t.system.mains[main]? = some m ∧
      m.itemsDtc[row]? = some dtc ∧ dtc.UUID = V ∧ SignedIn count n a i m.emailString ∧
      .cloud (.setUserRole m.emailString true) ∈ a := by
  obtain ⟨ls', y, hmatched⟩ := exists_matched hrun
  obtain ⟨ms, z, hextended⟩ := hmatched.extend hbs
  obtain ⟨_, rfl, _⟩ := hmatched.rel
  obtain ⟨_, rfl, _⟩ := hextended.rel
  have hms := hextended.exec.2
  obtain ⟨y', hy', hu⟩ := (Machine.exec_append_eq_some System.step).mp hms
  cases hmatched.exec.2.symm.trans hy'
  obtain ⟨email, a', b', t', main, m, dtc, row, hls', ht', hm, hemail, hrow, hV, hadmin⟩ :=
    run_vanishes ⟨_, hms⟩ (List.append_nil _).symm hmatched.exec.2 hu hin hout
  obtain ⟨a, l, b, t, z, hls, hprefix, hlabel⟩ := hextended.label hls' rfl
  obtain ⟨ha, hz⟩ := hprefix.exec
  cases hz.symm.trans ht'
  obtain ⟨_, rfl, _⟩ := hprefix.rel
  rcases hlabel with ⟨_, hcloud⟩ | ⟨j, act, e, e', rfl, he, hacted⟩
  · cases hcloud
  · cases hacted with
    | screen ho =>
      obtain ⟨hsigned, hrole⟩ := admin_signed ha he (of_decide_eq_true ho) hm hadmin
      exact ⟨a, b, j, main, row, t, m, dtc, hls, ha, hm, hrow, hV, hsigned, hrole⟩

end

/-! ## a run -/

/-- there is a vote `v`; `alice` signs up, is made an admin and adds a vote `w` -/
def composing : List WorldLabel :=
  [.cloud (.addNewVote "t" "d" "now" "v" [1, 2] fun row => some (if row = 0 then "x" else "y")),
    .cloud (.serve 0 true), .sign 0 (.signUp "alice@x.y" "secret1" false), .sign 0 (.serve 0 true),
    .updateCurrentUser 0 0, .sign 0 (.deliver 0), .sign 0 (.serve 0 true), .sign 0 (.deliver 0),
    .cloud (.setUserRole "alice@x.y" true), .act 0 .segue, .act 0 (.screen (.mainWillAppear 0)),
    .cloud (.serve 0 true), .cloud (.deliver 0), .cloud (.serve 0 true), .cloud (.deliver 0),
    .act 0 (.openAdd 0), .act 0 (.addNewVarible 0),
    .act 0 (.addNewVote 0 "t'" "d'" "now" "w" fun _ => some "z"), .cloud (.serve 0 true)]

def voting : List WorldLabel := composing ++
  [.act 0 (.openVote 0 0), .act 0 (.screen (.voteWillAppear 0)), .cloud (.serve 0 true),
    .cloud (.deliver 0), .act 0 (.screen (.tap 0 1)), .cloud (.serve 2 true), .cloud (.deliver 2),
    .cloud (.serve 2 true)]

theorem ballot_authentic_voting : ∃ a i, SignedIn String.length 1 a i "alice@x.y" := by
  obtain ⟨V, row, _, a, b, i, view, t, v, _, _, _, _, _, hsigned⟩ :=
    @ballot_authentic String.length 1 voting _ (run_world voting (by decide)) "alice@x.y" _
      [ballot "v" 1] rfl rfl _ List.mem_cons_self
  exact ⟨a, i, hsigned⟩

theorem vote_authorized_composing : ∃ a i email, SignedIn String.length 1 a i email ∧
    .cloud (.setUserRole email true) ∈ a := by
  rcases @vote_authorized String.length 1 composing _ (run_world composing (by decide)) "w" _ rfl with
    ⟨_, _, _, _, _, hmem⟩ | ⟨a, _, i, _, _, _, _, _, email, _, h⟩
  · simp [composing] at hmem
  · exact ⟨a, i, email, h⟩

def deletingRow : List WorldLabel := [.act 0 (.screen (.deleteRow 0 0)), .cloud (.serve 0 true)]

theorem deletion_authorized_composing : ∃ a i email, SignedIn String.length 1 a i email ∧
    .cloud (.setUserRole email true) ∈ a := by
  obtain ⟨a, b, i, main, row, t, m, dtc, _, _, _, _, _, h⟩ :=
    @deletion_authorized String.length 1 composing _ (run_world composing (by decide)) deletingRow
      (.after 1 (composing ++ deletingRow)) rfl "v" (by decide) rfl
  exact ⟨a, i, m.emailString, h⟩

end VoteOnOffice
