import VoteOnOffice.App.World
import VoteOnOffice.Devices.Loose
import VoteOnOffice.Lib.Matching

/-!
# The world's runs are the system's

The system makes an account and requests the user's document in one step; in the world a device does so
in the closure of `createUser`, if it gets there.

* `SignTask.pending`, `Device.pending`
                       the documents that a device's requests and answers still ask for;
* `World.Matches`      the labels of the system that stand for a label of the world: an act on a screen
                       stands for itself, and nothing else stands for one;
* `session_seen`       what the cloud sees of a session step;
* `session_matched`, `late_matched`
                       a session step, and a late effect, as runs of the system;
* `world_matched`      a step of the world is a run of the system;
* `exists_matched`     so is a run, piece by piece;
* `World.Matched.label`
                       and an act in the one run is that act in the other;
* `world_in_system`    **so what the world reaches is a state of the system, but for the order of what is
                       in flight and for the documents of sign-ups.**
-/

namespace VoteOnOffice

/-- the document that a request or an answer in flight still asks for -/
def SignTask.pending : SignTask → List Task
  | .request (.setData email) => newUser email
  | .answer (.createUser email _ _) false => newUser email
  | _ => []

def Device.pending (d : Device) : List Task :=
  d.net.flatMap SignTask.pending ++ d.orphans.flatMap fun c => (SignTask.request c).pending

def World.pending (w : World) : List Task := w.devices.flatMap Device.pending

inductive World.Matches (w : World) : WorldLabel → List Label → Prop where
  | act {i : Nat} {a : DeviceAct} {d d' : Device} {m : Label} (hd : w.devices[i]? = some d)
      (ha : d.Acted w.system a d' (some m)) : Matches w (.act i a) [m]
  | cloud {m : Label} (hm : m.isCloud = true) : Matches w (.cloud m) [m]
  | quiet {l : WorldLabel} {ms : List Label} (h : ∀ m ∈ ms, m.isQuiet = true) : Matches w l ms

theorem mem_pending {task : SignTask} {t : Task} (h : t ∈ task.pending) :
    ∃ id d, t = .set .users id d := by
  have hnew : ∀ {email : String}, t ∈ newUser email → ∃ id d, t = .set .users id d := fun h => by
    obtain ⟨id, _, rfl⟩ := List.mem_map.mp h
    exact ⟨id, _, rfl⟩
  cases task with
  | request c =>
    cases c with
    | setData email => exact hnew h
    | _ => cases h
  | answer c error =>
    cases c with
    | createUser email password switchRemember =>
      cases error with
      | false => exact hnew h
      | true => cases h
    | _ => cases h

theorem pending_requests (c : Completion) (error : Bool) :
    ((c.requests error).map SignTask.request).flatMap SignTask.pending
      = (SignTask.answer c error).pending := by
  cases c <;> cases error <;> first | rfl | exact List.append_nil _

/-- nothing is pending for an e-mail that `document(_:)` does not take -/
theorem pending_addressed (c : Completion) (error : Bool) :
    (((c.requests error).filter Completion.addressed).map SignTask.request).flatMap SignTask.pending
      = (SignTask.answer c error).pending := by
  rw [← pending_requests]
  cases c with
  | createUser email password switchRemember =>
    cases error with
    | true => rfl
    | false =>
      cases hpath : documentWithPath email with
      | none =>
        simp [Completion.requests, Completion.addressed, hpath, SignTask.pending, newUser,
          userDocument]
      | some path => simp [Completion.requests, Completion.addressed, hpath]
  | _ => rfl

theorem pending_put {w : World} {i : Nat} {d : Device} (hd : w.devices[i]? = some d) :
    ∃ rest, w.pending.Perm (d.pending ++ rest) ∧
      ∀ d' x, (w.put i d' x).pending.Perm (d'.pending ++ rest) := by
  obtain ⟨l₁, l₂, hnet, hset, _⟩ := split_net hd
  have hperm : ∀ d' : Device, ((l₁ ++ d' :: l₂).flatMap Device.pending).Perm
      (d'.pending ++ (l₁.flatMap Device.pending ++ l₂.flatMap Device.pending)) := fun d' => by
    rw [List.flatMap_append, List.flatMap_cons, ← List.append_assoc, ← List.append_assoc]
    exact List.perm_append_comm.append_right _
  refine ⟨l₁.flatMap Device.pending ++ l₂.flatMap Device.pending, ?_, fun d' x => ?_⟩
  · unfold World.pending
    rw [hnet]
    exact hperm d
  · show ((w.devices.set i d').flatMap Device.pending).Perm _
    rw [hset]
    exact hperm d'

/-! ## sessions -/

section
variable {count : String → Nat} {x y : System} {d : Device} {s : Session} {l : SignLabel}
  {c : Completion} {ok : Bool} {rest : List Task}

/-- the cloud answers a request of a session; `before` and `after` are what the request and its answer
have pending -/
theorem grant_matched (hs : if ok then (d.session x).grant c = some s else s = d.session x)
    (hplain : ok = true → c.isPlain = true)
    (h : Loosely ((SignTask.request c).pending ++ rest) x y) :
    ∃ ms z, System.Run y ms z ∧ Loosely ((SignTask.answer c (!ok)).pending ++ rest) (x.put s) z ∧
      ∀ m ∈ ms, m.isQuiet = true := by
  have hone : ∀ {l : Label} {z : System}, y.step l = some z → System.Run y [l] z := fun hz =>
    (Machine.exec_cons System.step).mpr ⟨_, hz, rfl⟩
  cases ok with
  | false =>
    obtain rfl : s = d.session x := hs
    cases c with
    | setData email => exact h.refuse fun _ => @mem_pending (.request (.setData email)) _
    | _ => exact ⟨[], y, rfl, h, by simp⟩
  | true =>
    cases c with
    | signIn email password switchRemember =>
      obtain ⟨_, rfl⟩ := Session.grant_signIn.mp hs
      exact ⟨[], y, rfl, h, by simp⟩
    | createUser email password switchRemember =>
      obtain ⟨hnew, rfl⟩ := Session.grant_createUser.mp hs
      obtain ⟨z, hz, hloose⟩ := h.signUp hnew (of_decide_eq_true (hplain rfl))
      exact ⟨_, z, hone hz, hloose, by simp [Label.isQuiet]⟩
    | setData email =>
      cases hs
      exact Loosely.setUser h

/-- an answer that no closure waits for: the system refuses what the closure would have asked for -/
theorem late_matched (hs : d.late x c ok = some s)
    (h : Loosely ((SignTask.request c).pending ++ rest) x y) :
    ∃ ms z, System.Run y ms z ∧ Loosely rest (x.put s) z ∧ ∀ m ∈ ms, m.isQuiet = true := by
  obtain ⟨hplain, hs⟩ := Device.late_eq_some.mp hs
  obtain ⟨ms, z, hz, hloose, hquiet⟩ := grant_matched hs hplain h
  obtain ⟨ms', z', hz', hloose', hquiet'⟩ := hloose.refuse fun _ => mem_pending
  refine ⟨ms ++ ms', z', (Machine.exec_append_eq_some System.step).mpr ⟨z, hz, hz'⟩, hloose',
    fun m hm => ?_⟩
  exact (List.mem_append.mp hm).elim (hquiet m) (hquiet' m)

theorem next_pending (d : Device) (s : Session) (hl : l ≠ .restart) :
    (d.next l s).pending = s.net.flatMap SignTask.pending ++
      d.orphans.flatMap fun c => (SignTask.request c).pending := by
  cases l with
  | restart => exact absurd rfl hl
  | _ => rfl

theorem pending_task {k : Nat} {task : SignTask} (hk : d.net[k]? = some task) :
    ∃ others, d.pending.Perm (task.pending ++ others) ∧
      (∀ new : SignTask, ((d.net.set k new).flatMap SignTask.pending ++
        d.orphans.flatMap fun c => (SignTask.request c).pending).Perm (new.pending ++ others)) ∧
      ∀ new : List SignTask, ((d.net.eraseIdx k ++ new).flatMap SignTask.pending ++
        d.orphans.flatMap fun c => (SignTask.request c).pending).Perm
          (new.flatMap SignTask.pending ++ others) := by
  obtain ⟨l₁, l₂, hnet, hset, herase⟩ := split_net hk
  let orphans := d.orphans.flatMap fun c => (SignTask.request c).pending
  have hperm : ∀ new : SignTask, ((l₁ ++ new :: l₂).flatMap SignTask.pending ++ orphans).Perm
      (new.pending ++ ((l₁ ++ l₂).flatMap SignTask.pending ++ orphans)) := fun new => by
    rw [List.flatMap_append, List.flatMap_append, List.flatMap_cons, ← List.append_assoc,
      ← List.append_assoc, ← List.append_assoc]
    exact (List.perm_append_comm.append_right _).append_right _
  refine ⟨(l₁ ++ l₂).flatMap SignTask.pending ++ orphans, ?_, fun new => ?_, fun new => ?_⟩
  · unfold Device.pending
    rw [hnet]
    exact hperm task
  · rw [hset]
    exact hperm new
  · rw [herase, List.flatMap_append, ← List.append_assoc]
    exact List.perm_append_comm.append_right _

/-- a restart leaves the requests to the cloud; what answers would have led to is never asked for -/
theorem pending_restart (net : List SignTask) : ∃ dropped : List Task,
    (net.flatMap SignTask.pending).Perm (dropped ++
      (net.filterMap SignTask.asked).flatMap fun c => (SignTask.request c).pending) ∧
    ∀ task ∈ dropped, ∃ email d, task = .set .users email d := by
  induction net with
  | nil => exact ⟨[], .refl _, fun task ht => absurd ht List.not_mem_nil⟩
  | cons task net ih =>
    obtain ⟨dropped, hperm, hsets⟩ := ih
    cases task with
    | request c =>
      refine ⟨dropped, ?_, hsets⟩
      show ((SignTask.request c).pending ++ net.flatMap SignTask.pending).Perm
        (dropped ++ ((SignTask.request c).pending ++ _))
      refine (hperm.append_left _).trans ?_
      rw [← List.append_assoc, ← List.append_assoc]
      exact List.perm_append_comm.append_right _
    | answer c error =>
      refine ⟨(SignTask.answer c error).pending ++ dropped, ?_, fun task ht => ?_⟩
      · show ((SignTask.answer c error).pending ++ net.flatMap SignTask.pending).Perm _
        rw [List.append_assoc]
        exact hperm.append_left _
      · exact (List.mem_append.mp ht).elim mem_pending (hsets task)

theorem pending_orphan {k : Nat} (hk : d.orphans[k]? = some c) : d.pending.Perm
    ((SignTask.request c).pending ++
      Device.pending { d with orphans := d.orphans.eraseIdx k }) := by
  obtain ⟨l₁, l₂, horphans, _, herase⟩ := split_net hk
  show (_ ++ d.orphans.flatMap _).Perm (_ ++ (_ ++ (d.orphans.eraseIdx k).flatMap _))
  rw [herase, horphans]
  have hmiddle : (l₁ ++ c :: l₂).Perm (c :: (l₁ ++ l₂)) := List.perm_middle
  refine ((hmiddle.flatMap_right _).append_left _).trans ?_
  rw [List.flatMap_cons, ← List.append_assoc, ← List.append_assoc]
  exact List.perm_append_comm.append_right _

/-- what the cloud sees of a step of a session: nothing, that it answers a request, or that nobody
waits any more -/
inductive Device.Seen (x : System) (d : Device) : SignLabel → Session → Prop where
  | nothing {l : SignLabel} {s : Session} (haccounts : s.accounts = x.accounts) (hdb : s.db = x.db)
      (hpending : (d.next l s).pending.Perm d.pending) (hserve : ∀ k ok, l ≠ .serve k ok)
      (hrestart : l ≠ .restart) : Seen x d l s
  | answers {k : Nat} {ok : Bool} {c : Completion} {t : Session} (hk : d.net[k]? = some (.request c))
      (hgrant : if ok then (d.session x).grant c = some t else t = d.session x)
      (hplain : ok = true → c.isPlain = true) :
      Seen x d (.serve k ok) { t with net := d.net.set k (.answer c (!ok)) }
  | restart : Seen x d .restart { d.session x with net := [] }

theorem session_seen (hs : (d.session x).step count l = some s) (hadmits : d.admits l = true) :
    d.Seen x l s := by
  cases Session.step_stepped hs with
  | @asks l c hasks =>
    have hc : (SignTask.request c).pending = [] := by cases hasks <;> rfl
    have hrestart : l ≠ .restart := by rintro rfl; cases hasks
    refine .nothing rfl rfl (List.Perm.of_eq ?_) (by rintro k ok rfl; cases hasks) hrestart
    rw [next_pending d _ hrestart]
    show (d.net ++ [SignTask.request c]).flatMap _ ++ _ = _
    rw [List.flatMap_append, List.flatMap_singleton, hc, List.append_nil]
    rfl
  | @reports l form hreports =>
    have hrestart : l ≠ .restart := by rintro rfl; cases hreports
    exact .nothing rfl rfl (List.Perm.of_eq (next_pending d _ hrestart))
      (by rintro k ok rfl; cases hreports) hrestart
  | serve hk hgrant => exact .answers hk hgrant (Device.admits_serve hk hadmits)
  | @deliver k c error hk _ =>
    obtain ⟨others, hbefore, _, hafter⟩ := pending_task hk
    refine .nothing rfl rfl ((hafter _).trans ?_) nofun nofun
    rw [pending_requests]
    exact hbefore.symm
  | signOut => exact .nothing rfl rfl (.refl _) nofun nofun
  | restart => exact .restart

theorem crashed_pending {d' : Device} {k : Nat} (h : d.crashed x k = some d') :
    d'.pending.Perm d.pending := by
  obtain ⟨c, error, hk, _, _, rfl⟩ := Device.crashed_eq_some.mp h
  obtain ⟨others, hbefore, _, hafter⟩ := pending_task hk
  refine (hafter _).trans ?_
  rw [pending_addressed]
  exact hbefore.symm

/-- **A step of a device's session is a run of the system.** -/
theorem session_matched (hs : (d.session x).step count l = some s) (hadmits : d.admits l = true)
    (h : Loosely (d.pending ++ rest) x y) :
    ∃ ms z, System.Run y ms z ∧ Loosely ((d.next l s).pending ++ rest) (x.put s) z ∧
      ∀ m ∈ ms, m.isQuiet = true := by
  cases session_seen hs hadmits with
  | nothing haccounts hdb hpending _ _ =>
    have hx : x.put s = x := by
      unfold System.put
      rw [haccounts, hdb]
    rw [hx]
    exact ⟨[], y, rfl, h.perm (hpending.symm.append_right _), by simp⟩
  | @answers k ok c t hk hgrant hplain =>
    obtain ⟨others, hbefore, hafter, _⟩ := pending_task hk
    have h' := h.perm (hbefore.append_right rest)
    rw [List.append_assoc] at h'
    obtain ⟨ms, z, hz, hloose, hquiet⟩ := grant_matched hgrant hplain h'
    refine ⟨ms, z, hz, hloose.perm ?_, hquiet⟩
    rw [← List.append_assoc]
    exact (hafter _).symm.append_right rest
  | restart =>
    obtain ⟨dropped, hperm, hsets⟩ := pending_restart d.net
    have h' : Loosely (dropped ++ ((d.next .restart { d.session x with net := [] }).pending ++ rest))
        x y := by
      refine h.perm ?_
      rw [← List.append_assoc]
      refine List.Perm.append_right rest ?_
      show (d.net.flatMap SignTask.pending ++ _).Perm
        (dropped ++ (d.orphans ++ d.net.filterMap SignTask.asked).flatMap _)
      rw [List.flatMap_append]
      refine (hperm.append_right _).trans ?_
      rw [List.append_assoc]
      exact List.perm_append_comm.append_left _
    exact h'.refuse hsets

end

/-! ## the world -/

section
variable {count : String → Nat} {w u : World} {y : System} {l : WorldLabel} {n : Nat}
  {ls : List WorldLabel}

theorem acted_pending {x : System} {d d' : Device} {a : DeviceAct} {m : Option Label}
    (h : d.Acted x a d' m) : d'.pending = d.pending := by
  cases h <;> rfl

/-- **A step of the world is a run of the system.** -/
theorem world_matched (h : Loosely w.pending w.system y) (hw : w.step count l = some u) :
    ∃ ms z, System.Run y ms z ∧ Loosely u.pending u.system z ∧ w.Matches l ms := by
  have hone : ∀ {m : Label} {z : System}, y.step m = some z → System.Run y [m] z := fun hz =>
    (Machine.exec_cons System.step).mpr ⟨_, hz, rfl⟩
  cases World.step_stepped hw with
  | @sign i l d s hd hs hadmits =>
    obtain ⟨rest, hbefore, hafter⟩ := pending_put hd
    obtain ⟨ms, z, hz, hloose, hquiet⟩ := session_matched hs hadmits (h.perm hbefore)
    exact ⟨ms, z, hz, hloose.perm (hafter _ _).symm, .quiet hquiet⟩
  | @updateCurrentUser i k d c hd hk =>
    obtain ⟨rest, hbefore, hafter⟩ := pending_put hd
    refine ⟨[], y, rfl, h.perm (hbefore.trans ?_), .quiet (by simp)⟩
    exact (hafter { d with currentUser := c.user, updates := d.updates.eraseIdx k } _).symm
  | @orphan i k ok d c s hd hk hs =>
    obtain ⟨rest, hbefore, hafter⟩ := pending_put hd
    have h' := h.perm (hbefore.trans ((pending_orphan hk).append_right rest))
    rw [List.append_assoc] at h'
    obtain ⟨ms, z, hz, hloose, hquiet⟩ := late_matched hs h'
    exact ⟨ms, z, hz, hloose.perm (hafter _ _).symm, .quiet hquiet⟩
  | @crash i k d d' hd hd' =>
    obtain ⟨rest, hbefore, hafter⟩ := pending_put hd
    have h' := h.perm (hbefore.trans ((crashed_pending hd').symm.append_right rest))
    obtain ⟨ms, z, hz, hloose, hquiet⟩ :=
      @session_matched count _ _ d' _ .restart rest rfl rfl h'
    exact ⟨ms, z, hz, hloose.perm (hafter _ _).symm, .quiet hquiet⟩
  | @edits i a d d' hd ha =>
    obtain ⟨rest, hbefore, hafter⟩ := pending_put hd
    refine ⟨[], y, rfl, h.perm (hbefore.trans ?_), .quiet (by simp)⟩
    rw [← acted_pending ha]
    exact (hafter _ _).symm
  | @acts i a d d' m x hd ha hx =>
    obtain ⟨rest, hbefore, hafter⟩ := pending_put hd
    obtain ⟨m', z, hz, hloose, hm⟩ := h.step hx
    refine ⟨[m'], z, hone hz, hloose.perm (hbefore.trans ?_), ?_⟩
    · rw [← acted_pending ha]
      exact (hafter _ _).symm
    · rcases hm with rfl | ⟨_, hquiet⟩
      · exact .act hd ha
      · exact .quiet fun m hm => by rw [List.mem_singleton.mp hm]; exact hquiet
  | @cloud m x hcloud hx =>
    obtain ⟨m', z, hz, hloose, hm⟩ := h.step hx
    refine ⟨[m'], z, hone hz, hloose, ?_⟩
    rcases hm with rfl | ⟨_, hquiet⟩
    · exact .cloud hcloud
    · exact .quiet fun m hm => by rw [List.mem_singleton.mp hm]; exact hquiet

/-- a run of the world from the start, and one of the system, piece by piece -/
abbrev World.Matched (count : String → Nat) (n : Nat) (ls : List WorldLabel) (w : World)
    (ls' : List Label) (y : System) : Prop :=
  Machine.Matched (World.step count) System.step (fun w y => Loosely w.pending w.system y)
    World.Matches (.initial n) .initial ls w ls' y

theorem loosely_initial (n : Nat) : Loosely (World.initial n).pending .initial .initial := by
  refine (Loosely.refl System.initial).perm (List.Perm.of_eq ?_)
  unfold World.pending
  refine (List.flatMap_eq_nil_iff.mpr fun d hd => ?_).symm
  rw [List.eq_of_mem_replicate hd]
  rfl

theorem World.Matched.extend {ls' : List Label} {bs : List WorldLabel}
    (h : World.Matched count n ls w ls' y) (hb : World.Run count w bs u) :
    ∃ ms z, World.Matched count n (ls ++ bs) u (ls' ++ ms) z :=
  Machine.Matched.extend (fun _ _ _ _ h hs => world_matched h hs) h hb

theorem exists_matched (hrun : World.Run count (.initial n) ls w) :
    ∃ ls' y, World.Matched count n ls w ls' y :=
  World.Matched.extend (.nil (loosely_initial n)) hrun

/-- the label of the world that a label of the system stands for, and the states before them -/
theorem World.Matched.label {ls' a' b' : List Label} {m : Label} (h : World.Matched count n ls w ls' y)
    (hls : ls' = a' ++ m :: b') (hm : m.isQuiet = false) : ∃ a l b t z, ls = a ++ l :: b ∧
      World.Matched count n a t a' z ∧ ((l = .cloud m ∧ m.isCloud = true) ∨
        ∃ i act d d', l = .act i act ∧ t.devices[i]? = some d ∧ d.Acted t.system act d' (some m)) := by
  obtain ⟨a, l, b, t, a₀, c, d, z, hab, hmatched, rfl, hmatches⟩ := Machine.Matched.split h hls
  -- a piece with more than one label is quiet
  have hquiet : ∀ ms : List Label, ms = c ++ m :: d → ¬∀ x ∈ ms, x.isQuiet = true := by
    rintro ms rfl hall
    rw [hall m (mem_middle.mpr (.inl rfl))] at hm
    cases hm
  have hone : ∀ m' : Label, [m'] = c ++ m :: d → m' = m ∧ c = [] := by
    intro m' hx
    cases c with
    | nil => exact ⟨(List.cons_eq_cons.mp hx).1, rfl⟩
    | cons _ c => simp at hx
  generalize hp : c ++ m :: d = ms at hmatches
  cases hmatches with
  | @act i act e e' m' hd ha =>
    obtain ⟨rfl, rfl⟩ := hone m' hp.symm
    rw [List.append_nil]
    exact ⟨a, _, b, t, z, hab, hmatched, .inr ⟨i, act, e, e', rfl, hd, ha⟩⟩
  | @cloud m' hcloud =>
    obtain ⟨rfl, rfl⟩ := hone m' hp.symm
    rw [List.append_nil]
    exact ⟨a, _, b, t, z, hab, hmatched, .inl ⟨rfl, hcloud⟩⟩
  | quiet hall => exact absurd hall (hquiet _ hp.symm)

/-- **Every run of the devices and the cloud is a run of the system**, but for the order of what is in
flight and for the documents that sign-ups still ask for. -/
theorem world_in_system (hrun : World.Run count (.initial n) ls w) :
    ∃ ls' net, System.Run .initial ls' { w.system with net := net } ∧
      net.Perm (w.system.net ++ w.pending) := by
  obtain ⟨ls', y, hmatched⟩ := exists_matched hrun
  obtain ⟨net, rfl, hnet⟩ := hmatched.rel
  exact ⟨ls', net, hmatched.exec.2, hnet⟩

end

/-! ## a run -/

def World.after (n : Nat) (ls : List WorldLabel) : World :=
  (Machine.exec (World.step String.length) (.initial n) ls).getD (.initial n)

theorem run_world {n : Nat} (ls : List WorldLabel)
    (h : (Machine.exec (World.step String.length) (.initial n) ls).isSome = true) :
    World.Run String.length (.initial n) ls (.after n ls) := by
  obtain ⟨w, hw⟩ := Option.isSome_iff_exists.mp h
  unfold World.Run World.after
  rw [hw]
  rfl

/-- `alice` signs up, and the closure of `createUser` has not run yet -/
def signingUp : List WorldLabel :=
  [.sign 0 (.signUp "alice@x.y" "secret1" false), .sign 0 (.serve 0 true)]

theorem world_in_system_signingUp : ∃ ls' net,
    System.Run .initial ls' { (World.after 1 signingUp).system with net := net } ∧
      net.Perm [.set .users "alice@x.y" (userData "alice@x.y")] :=
  world_in_system (run_world signingUp (by decide))

end VoteOnOffice
