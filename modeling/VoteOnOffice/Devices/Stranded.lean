import Mathlib.Algebra.BigOperators.Group.List.Basic
import VoteOnOffice.Devices.InSystem
import VoteOnOffice.Lib.Ledger
import VoteOnOffice.Records.Lifetime

/-!
# Accounts without a document

`createUser` makes an account; the document of its user is asked for by the closure of `createUser`, if
it runs.  An account without a document cannot be signed up again, and its user sees no vote.

* `World.drops`        the documents that a step gives up: the cloud refuses them, or the app is closed
                       before the closure of `createUser` has run;
* `owners`, `covers`   the accounts whose document has an id; one for that document, and one for each time
                       that it is asked for;
* `grant_covers`, `session_covers`, `late_covers`, `system_covers`
                       a step keeps or drops a document for every account that it makes;
* `stranded_iff`       **an account is left without a document iff its e-mail leads to none or some step of
                       the run dropped it.**
-/

namespace VoteOnOffice

/-- what the closure of an answer would ask for -/
def SignTask.unheard : SignTask → List Task
  | .request _ => []
  | .answer c error => (SignTask.answer c error).pending

def Device.drops (d : Device) : SignLabel → List Task
  | .serve k false =>
    match d.net[k]? with
    | some (.request c) => (SignTask.request c).pending
    | _ => []
  | .restart => d.net.flatMap SignTask.unheard
  | _ => []

/-- no closure hears of the answer to a request of before a restart -/
def Completion.dropsLate (c : Completion) (ok : Bool) : List Task :=
  if ok then (SignTask.answer c false).pending else (SignTask.request c).pending

def World.drops (w : World) : WorldLabel → List Task
  | .sign i l => (w.devices[i]?).elim [] fun d => d.drops l
  | .orphan i k ok =>
    ((w.devices[i]?).bind fun d => d.orphans[k]?).elim [] fun c => c.dropsLate ok
  | .crash i k =>
    ((w.devices[i]?).bind fun d => d.crashed w.system k).elim [] fun d => d.drops .restart
  | _ => []

/-- the accounts whose document has this id -/
def owners (id : String) (accounts : List String) : Nat :=
  accounts.countP fun e => decide (userDocument e = some id)

def covers (id : String) (db : Database) (ts : List Task) : Nat :=
  (db.users.lookup id).isSome.toNat + weigh (setsOf .users id) ts

/-! ## what is pending -/

section
variable {id : String} {db : Database} {ts ts' : List Task}

theorem covers_append : covers id db (ts ++ ts') = covers id db ts + weigh (setsOf .users id) ts' := by
  unfold covers
  rw [weigh_append, Nat.add_assoc]

theorem covers_perm (h : ts.Perm ts') : covers id db ts = covers id db ts' := by
  unfold covers weigh
  rw [(h.map _).sum_eq]

theorem weigh_sets_pos : 0 < weigh (setsOf .users id) ts ↔ ∃ d, .set .users id d ∈ ts := by
  induction ts with
  | nil => simp
  | cons t ts ih =>
    rw [weigh_cons, Nat.add_pos_iff_pos_or_pos, ih]
    simp only [List.mem_cons, exists_or]
    refine or_congr_left ?_
    cases t with
    | set c document d =>
      by_cases hc : c = .users ∧ document = id
      · obtain ⟨rfl, rfl⟩ := hc
        simp [setsOf]
      · simpa [setsOf, hc] using fun h₁ h₂ => hc ⟨h₁.symm, h₂.symm⟩
    | _ => simp [setsOf]

theorem covers_newUser (db : Database) (e : String) : covers id db (newUser e) =
    covers id db [] + if userDocument e = some id then 1 else 0 := by
  unfold covers newUser
  cases userDocument e with
  | none => simp
  | some id' =>
    by_cases h : id' = id
    · simp [setsOf, h]
    · simp [setsOf, h]

theorem covers_setUser (db : Database) (e : String) : covers id (db.setUser e) [] =
    if userDocument e = some id then 1 else covers id db [] := by
  unfold covers
  rw [Database.setUser_users]
  split <;> rfl

theorem owners_cons (e : String) (accounts : List String) : owners id (e :: accounts) =
    owners id accounts + if userDocument e = some id then 1 else 0 := by
  unfold owners
  simp only [List.countP_cons, decide_eq_true_eq]

end

/-! ## accounts -/

/-- no e-mail has two accounts, and all are plain -/
structure AccountsOk (accounts : List String) : Prop where
  nodup : accounts.Nodup
  plain : ∀ e ∈ accounts, Plain e

section
variable {email : String} {accounts : List String}

theorem AccountsOk.owners_le_one (h : AccountsOk accounts) : owners email accounts ≤ 1 := by
  refine Nat.le_trans ?_ (List.nodup_iff_count_le_one.mp h.nodup email)
  unfold owners List.count
  refine List.countP_mono_left fun e he hid => ?_
  rw [userDocument_plain (h.plain e he) (of_decide_eq_true hid)]
  exact beq_self_eq_true e

theorem AccountsOk.owners_pos (h : AccountsOk accounts) : 0 < owners email accounts ↔
    email ∈ accounts ∧ userDocument email = some email := by
  unfold owners
  rw [List.countP_pos_iff]
  constructor
  · rintro ⟨e, he, hid⟩
    have hid := of_decide_eq_true hid
    obtain rfl := userDocument_plain (h.plain e he) hid
    exact ⟨he, hid⟩
  · rintro ⟨he, hid⟩
    exact ⟨email, he, decide_eq_true hid⟩

end

/-! ## sessions -/

section
variable {count : String → Nat} {x : System} {d : Device} {s : Session} {l : SignLabel}
  {c : Completion} {id : String}

/-- **An account is made and its document is to be asked for, or a document is stored that was.** -/
theorem grant_covers (hs : (d.session x).grant c = some s)
    (h : covers id x.db (SignTask.request c).pending ≤ 1) :
    owners id s.accounts + covers id x.db (SignTask.request c).pending =
      owners id x.accounts + covers id s.db (SignTask.answer c false).pending := by
  cases c with
  | signIn e password switchRemember =>
    obtain ⟨_, rfl⟩ := Session.grant_signIn.mp hs
    rfl
  | createUser e password switchRemember =>
    obtain ⟨_, rfl⟩ := Session.grant_createUser.mp hs
    show owners id (e :: x.accounts) + covers id x.db [] =
      owners id x.accounts + covers id x.db (newUser e)
    rw [owners_cons, covers_newUser]
    omega
  | setData e =>
    cases hs
    have h : covers id x.db (newUser e) ≤ 1 := h
    show owners id x.accounts + covers id x.db (newUser e) =
      owners id x.accounts + covers id (x.db.setUser e) []
    rw [covers_newUser] at h ⊢
    rw [covers_setUser]
    split
    · rename_i hid
      rw [if_pos hid] at h
      omega
    · rfl

theorem grant_accountsOk (hs : (d.session x).grant c = some s) (hplain : c.isPlain = true)
    (h : AccountsOk x.accounts) : AccountsOk s.accounts := by
  cases c with
  | signIn e password switchRemember =>
    obtain ⟨_, rfl⟩ := Session.grant_signIn.mp hs
    exact h
  | createUser e password switchRemember =>
    obtain ⟨hnew, rfl⟩ := Session.grant_createUser.mp hs
    exact ⟨List.nodup_cons.mpr ⟨hnew, h.nodup⟩,
      List.forall_mem_cons.mpr ⟨of_decide_eq_true hplain, h.plain⟩⟩
  | setData e =>
    cases hs
    exact h

theorem weigh_unheard (w : Task → Nat) (net : List SignTask) :
    weigh w (net.flatMap SignTask.pending) =
      weigh w ((net.filterMap SignTask.asked).flatMap fun c => (SignTask.request c).pending) +
        weigh w (net.flatMap SignTask.unheard) := by
  induction net with
  | nil => rfl
  | cons task net ih =>
    rw [List.flatMap_cons, List.flatMap_cons, weigh_append, weigh_append, ih]
    cases task with
    | request c =>
      have hasked : (SignTask.request c :: net).filterMap SignTask.asked
          = c :: net.filterMap SignTask.asked := rfl
      rw [hasked, List.flatMap_cons, weigh_append]
      show _ = _ + (0 + _)
      omega
    | answer c error =>
      have hasked : (SignTask.answer c error :: net).filterMap SignTask.asked
          = net.filterMap SignTask.asked := rfl
      rw [hasked]
      show weigh w (SignTask.answer c error).pending + _ =
        _ + (weigh w (SignTask.answer c error).pending + _)
      omega

/-- **A step of a session keeps or drops a document for every account that it makes.** -/
theorem session_covers (hs : (d.session x).step count l = some s) (hadmits : d.admits l = true)
    (h : covers id x.db d.pending ≤ 1) :
    owners id s.accounts + covers id x.db d.pending =
      owners id x.accounts + covers id s.db (d.next l s).pending +
        weigh (setsOf .users id) (d.drops l) := by
  cases session_seen hs hadmits with
  | nothing haccounts hdb hpending hserve hrestart =>
    have hdrops : d.drops l = [] := by
      cases l with
      | serve k ok => exact absurd rfl (hserve k ok)
      | restart => exact absurd rfl hrestart
      | _ => rfl
    rw [haccounts, hdb, covers_perm hpending, hdrops]
    rfl
  | @answers k ok c t hk hgrant _ =>
    obtain ⟨others, hbefore, hafter, _⟩ := pending_task hk
    have hnext : (d.next (.serve k ok) { t with net := d.net.set k (.answer c (!ok)) }).pending.Perm
        ((SignTask.answer c (!ok)).pending ++ others) := hafter _
    rw [covers_perm hbefore, covers_append] at h
    rw [covers_perm hbefore, covers_append, covers_perm hnext, covers_append]
    cases ok with
    | true =>
      have hcovers := grant_covers hgrant (by omega : covers id x.db _ ≤ 1)
      show owners id t.accounts + _ =
        _ + (covers id t.db (SignTask.answer c false).pending + _) + 0
      omega
    | false =>
      obtain rfl : t = d.session x := hgrant
      have hdrops : d.drops (.serve k false) = (SignTask.request c).pending := by
        simp only [Device.drops, hk]
      have hnone : (SignTask.answer c true).pending = [] := by cases c <;> rfl
      rw [hdrops]
      show _ = _ + (covers id x.db (SignTask.answer c true).pending + _) + _
      rw [hnone]
      show owners id x.accounts + ((_ + _) + _) = owners id x.accounts + ((_ + 0) + _) + _
      omega
  | restart =>
    show owners id x.accounts + covers id x.db (d.net.flatMap SignTask.pending ++ _) =
      owners id x.accounts + covers id x.db
        ((d.orphans ++ d.net.filterMap SignTask.asked).flatMap fun c => (SignTask.request c).pending) +
        weigh (setsOf .users id) (d.net.flatMap SignTask.unheard)
    rw [List.flatMap_append]
    unfold covers
    rw [weigh_append, weigh_append, weigh_unheard]
    omega

theorem session_accountsOk (hs : (d.session x).step count l = some s) (hadmits : d.admits l = true)
    (h : AccountsOk x.accounts) : AccountsOk s.accounts := by
  cases session_seen hs hadmits with
  | nothing haccounts _ _ _ _ =>
    rw [haccounts]
    exact h
  | @answers k ok c t _ hgrant hplain =>
    show AccountsOk t.accounts
    cases ok with
    | true => exact grant_accountsOk hgrant (hplain rfl) h
    | false =>
      obtain rfl : t = d.session x := hgrant
      exact h
  | restart => exact h

variable {k : Nat} {ok : Bool}

theorem late_covers (hk : d.orphans[k]? = some c) (hs : d.late x c ok = some s)
    (h : covers id x.db d.pending ≤ 1) :
    owners id s.accounts + covers id x.db d.pending = owners id x.accounts +
      covers id s.db (Device.pending { d with orphans := d.orphans.eraseIdx k }) +
        weigh (setsOf .users id) (c.dropsLate ok) := by
  rw [covers_perm (pending_orphan hk), covers_append] at h ⊢
  generalize hrest : Device.pending { d with orphans := d.orphans.eraseIdx k } = rest
  obtain ⟨_, hs⟩ := Device.late_eq_some.mp hs
  cases ok with
  | true =>
    have hcovers := grant_covers hs (by omega : covers id x.db _ ≤ 1)
    show _ = _ + (_ + weigh (setsOf .users id) rest) + weigh _ (SignTask.answer c false).pending
    unfold covers at hcovers ⊢
    omega
  | false =>
    obtain rfl : s = d.session x := hs
    show owners id x.accounts + (_ + weigh (setsOf .users id) rest) =
      owners id x.accounts + (_ + weigh (setsOf .users id) rest) +
        weigh _ (SignTask.request c).pending
    unfold covers
    show _ = _ + ((x.db.users.lookup id).isSome.toNat + _) + _
    omega

theorem late_accountsOk (hs : d.late x c ok = some s) (h : AccountsOk x.accounts) :
    AccountsOk s.accounts := by
  obtain ⟨hplain, hs⟩ := Device.late_eq_some.mp hs
  cases ok with
  | true => exact grant_accountsOk hs (hplain rfl) h
  | false =>
    obtain rfl : s = d.session x := hs
    exact h

end

/-! ## the world -/

section
variable {count : String → Nat} {x y : System} {d d' : Device} {c : Completion} {s : Session}
  {w u : World} {l : WorldLabel} {i : Nat} {id : String} {dropped : List Task}

/-- what is kept and what is dropped between `w` and `u` is for the accounts that are made -/
def Balanced (id : String) (w u : World) (dropped : List Task) : Prop :=
  owners id u.system.accounts + covers id w.system.db w.pending =
    owners id w.system.accounts + covers id u.system.db u.pending + weigh (setsOf .users id) dropped

/-- every account has at most one document, and only the devices' requests store it -/
structure Accounted (id : String) (w : World) : Prop where
  accounts : AccountsOk w.system.accounts
  sets : w.system.pending .users id = 0
  covered : covers id w.system.db w.pending ≤ owners id w.system.accounts

theorem Accounted.covers_le_one (h : Accounted id w) : covers id w.system.db w.pending ≤ 1 :=
  Nat.le_trans h.covered h.accounts.owners_le_one

theorem Accounted.keep (h : Accounted id w) (haccounts : AccountsOk u.system.accounts)
    (hsets : u.system.pending .users id = 0) (hbalanced : Balanced id w u dropped) :
    Accounted id u ∧ Balanced id w u dropped := by
  refine ⟨⟨haccounts, hsets, ?_⟩, hbalanced⟩
  have hcovered := h.covered
  unfold Balanced at hbalanced
  omega

theorem put_balanced (hd : w.devices[i]? = some d) (h : covers id w.system.db w.pending ≤ 1)
    (hdevice : covers id w.system.db d.pending ≤ 1 →
      owners id x.accounts + covers id w.system.db d.pending =
        owners id w.system.accounts + covers id x.db d'.pending + weigh (setsOf .users id) dropped) :
    Balanced id w (w.put i d' x) dropped := by
  obtain ⟨rest, hbefore, hafter⟩ := pending_put hd
  rw [covers_perm hbefore, covers_append] at h
  have hdevice := hdevice (by omega)
  unfold Balanced
  rw [covers_perm hbefore, covers_perm (hafter _ _), covers_append, covers_append]
  show owners id x.accounts + _ = _ + (covers id x.db d'.pending + _) + _
  omega

theorem system_covers {m : Label} (hx : x.step m = some y) (hm : m.issues .users = [])
    (h : x.pending .users id = 0) : y.accounts = x.accounts ∧ y.pending .users id = 0 ∧
      ∀ ts, covers id y.db ts = covers id x.db ts := by
  have hissued := (step_issued hx .users).1
  have hlives := step_lives hx .users id
  rw [hm] at hissued hlives
  have hzero : y.pending .users id = 0 := Nat.le_zero.mp (h ▸ hlives.1)
  refine ⟨hissued, hzero, fun ts => ?_⟩
  have hle := hlives.2
  unfold System.lives at hle
  rw [h, hzero] at hle
  unfold covers
  refine congrArg (· + _) (Nat.le_antisymm hle ?_)
  -- a document that is there stays
  cases hin : (x.db.users.lookup id).isSome with
  | false => exact Nat.zero_le _
  | true =>
    have hstays := (step_stays hx (c := .users) hin).resolve_right fun h => by cases h.1
    show _ ≤ (y.db.users.lookup id).isSome.toNat
    rw [show (y.db.users.lookup id).isSome = true from hstays]

theorem Accounted.system {m : Label} (h : Accounted id w) (hx : w.system.step m = some u.system)
    (hm : m.issues .users = []) (hpending : u.pending.Perm w.pending) :
    Accounted id u ∧ Balanced id w u [] := by
  obtain ⟨haccounts, hsets, hsame⟩ := system_covers hx hm h.sets
  refine h.keep (haccounts ▸ h.accounts) hsets ?_
  unfold Balanced
  rw [haccounts, covers_perm hpending, hsame]
  rfl

theorem acted_issues {a : DeviceAct} {m : Label} (h : d.Acted x a d' (some m)) :
    m.issues .users = [] := by
  cases h with
  | screen ho =>
    cases m with
    | signUp email => cases ho
    | _ => rfl
  | _ => rfl

theorem isCloud_issues {m : Label} (h : m.isCloud = true) : m.issues .users = [] := by
  cases m with
  | signUp email => cases h
  | _ => rfl

/-- **Step lemma.** -/
theorem step_accounted (h : Accounted id w) (hw : w.step count l = some u) :
    Accounted id u ∧ Balanced id w u (w.drops l) := by
  have hone := h.covers_le_one
  cases World.step_stepped hw with
  | @sign i l d s hd hs hadmits =>
    have hdrops : w.drops (.sign i l) = d.drops l := by
      show ((w.devices[i]?).elim [] fun d => d.drops l) = _
      rw [hd, Option.elim_some]
    rw [hdrops]
    exact h.keep (session_accountsOk hs hadmits h.accounts) h.sets
      (put_balanced hd hone fun hle => session_covers hs hadmits hle)
  | @updateCurrentUser i k d c hd hk => exact h.keep h.accounts h.sets (put_balanced hd hone fun _ => rfl)
  | @orphan i k ok d c s hd hk hs =>
    have hdrops : w.drops (.orphan i k ok) = c.dropsLate ok := by
      show (((w.devices[i]?).bind fun d => d.orphans[k]?).elim [] fun c => c.dropsLate ok) = _
      rw [hd, Option.bind_some, hk, Option.elim_some]
    rw [hdrops]
    exact h.keep (late_accountsOk hs h.accounts) h.sets
      (put_balanced hd hone fun hle => late_covers hk hs hle)
  | @crash i k d d' hd hd' =>
    have hdrops : w.drops (.crash i k) = d'.drops .restart := by
      show (((w.devices[i]?).bind fun d => d.crashed w.system k).elim [] fun d => d.drops .restart) = _
      rw [hd, Option.bind_some, hd', Option.elim_some]
    have hsame : covers id w.system.db d'.pending = covers id w.system.db d.pending :=
      covers_perm (crashed_pending hd')
    rw [hdrops]
    refine h.keep h.accounts h.sets (put_balanced hd hone fun hle => ?_)
    rw [← hsame] at hle ⊢
    exact @session_covers count _ d' _ .restart id rfl rfl hle
  | @edits i a d d' hd ha =>
    refine h.keep h.accounts h.sets (put_balanced hd hone fun _ => ?_)
    rw [acted_pending ha]
    rfl
  | @acts i a d d' m x hd ha hx =>
    obtain ⟨rest, hbefore, hafter⟩ := pending_put hd
    refine h.system hx (acted_issues ha) ((hafter _ _).trans ?_)
    rw [acted_pending ha]
    exact hbefore.symm
  | cloud hl hx => exact h.system hx (isCloud_issues hl) (.refl _)

variable {n : Nat} {ls : List WorldLabel}

/-- **Every account that was made has its document, stored or pending, or a step dropped it.** -/
theorem run_accounted (id : String) (hrun : World.Run count (.initial n) ls w) :
    Accounted id w ∧ owners id w.system.accounts =
      covers id w.system.db w.pending + Machine.total (World.step count)
        (fun w l => weigh (setsOf .users id) (w.drops l)) (.initial n) ls := by
  have hpending : (World.initial n).pending = [] :=
    List.flatMap_eq_nil_iff.mpr fun d hd => by rw [List.eq_of_mem_replicate hd]; rfl
  have hnone : covers id (World.initial n).system.db (World.initial n).pending = 0 := by
    rw [hpending]
    rfl
  obtain ⟨hw, hbalance⟩ := Machine.exec_balance (World.step count) (P := Accounted id)
    (fun w => owners id w.system.accounts) (fun w => covers id w.system.db w.pending)
    (fun _ _ _ h hs => step_accounted h hs) hrun
    ⟨⟨List.nodup_nil, fun _ he => absurd he List.not_mem_nil⟩, rfl, Nat.le_of_eq hnone⟩
  refine ⟨hw, ?_⟩
  have hzero : owners id (World.initial n).system.accounts = 0 := rfl
  omega

/-- **An account is left without a document of its e-mail iff the e-mail leads to no document of `Users`
or a step of the run dropped it.** -/
theorem stranded_iff (hrun : World.Run count (.initial n) ls w) (email : String) :
    (email ∈ w.system.accounts ∧ w.system.db.users.lookup email = none ∧
      ∀ d, .set .users email d ∉ w.pending) ↔
    (email ∈ w.system.accounts ∧ userDocument email = none) ∨
      ∃ a l b t, ls = a ++ l :: b ∧ World.Run count (.initial n) a t ∧
        ∃ d, .set .users email d ∈ t.drops l := by
  obtain ⟨hw, hbalance⟩ := run_accounted email hrun
  have hone : owners email w.system.accounts ≤ 1 := hw.accounts.owners_le_one
  have howned := @AccountsOk.owners_pos email _ hw.accounts
  have hdropped := Machine.total_pos_iff (World.step count)
    (fun w l => weigh (setsOf .users email) (w.drops l)) hrun
  simp only [weigh_sets_pos] at hdropped
  have hpending : 0 < weigh (setsOf .users email) w.pending ↔ _ := weigh_sets_pos
  have hbare : (w.system.db.users.lookup email = none ∧ ∀ d, .set .users email d ∉ w.pending) ↔
      covers email w.system.db w.pending = 0 := by
    rw [← not_exists, ← hpending]
    unfold covers
    cases w.system.db.users.lookup email <;> simp
  rw [hbare, ← hdropped]
  constructor
  · rintro ⟨hmem, hzero⟩
    cases hid : userDocument email with
    | none => exact .inl ⟨hmem, rfl⟩
    | some id =>
      have hpos := howned.mpr ⟨hmem, userDocument_plain (hw.accounts.plain email hmem) hid ▸ hid⟩
      exact .inr (by omega)
  · rintro (⟨hmem, hid⟩ | hpos)
    · have hzero : ¬0 < owners email w.system.accounts := fun h => by
        rw [(howned.mp h).2] at hid
        cases hid
      exact ⟨hmem, by omega⟩
    · exact ⟨(howned.mp (by omega)).1, by omega⟩

end

/-! ## a run -/

theorem stranded_iff_signingUp :
    "alice@x.y" ∈ (World.after 1 (signingUp ++ [.sign 0 .restart])).system.accounts ∧
      (World.after 1 (signingUp ++ [.sign 0 .restart])).system.db.users.lookup "alice@x.y" = none := by
  have h := (stranded_iff (run_world (signingUp ++ [.sign 0 .restart]) (by decide)) "alice@x.y").mpr
    (.inr ⟨signingUp, .sign 0 .restart, [], World.after 1 signingUp, rfl,
      run_world signingUp (by decide), _, List.mem_singleton_self _⟩)
  exact ⟨h.1, h.2.1⟩

end VoteOnOffice
