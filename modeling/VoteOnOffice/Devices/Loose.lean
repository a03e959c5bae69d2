import VoteOnOffice.App.System

/-!
# The order of what is in flight does not matter

* `Loosely extra x y`  the systems differ in what is in flight: `y` has what `x` has, in some order, and
                       `extra`;
* `step_appends`       what users do adds to what is in flight and looks at nothing there;
* `Loosely.step`       **a step of `x` is one of `y`**, with another number where the label has one;
* `Loosely.signUp`, `Loosely.setUser`, `Loosely.refuse`
                       what is extra is asked for, served, or refused.
-/

namespace VoteOnOffice

def Loosely (extra : List Task) (x y : System) : Prop :=
  ∃ net, y = { x with net := net } ∧ net.Perm (x.net ++ extra)

def Label.isNet : Label → Bool
  | .serve _ _ => true
  | .deliver _ => true
  | _ => false

/-- labels that are not acts on a screen -/
def Label.isQuiet : Label → Bool
  | .serve _ _ => true
  | .deliver _ => true
  | .signUp _ => true
  | _ => false

section
variable {x x' y : System} {extra extra' : List Task} {k : Nat} {ok : Bool}

theorem Loosely.refl (x : System) : Loosely [] x x :=
  ⟨x.net, rfl, by rw [List.append_nil]⟩

theorem Loosely.perm (h : Loosely extra x y) (he : extra.Perm extra') : Loosely extra' x y := by
  obtain ⟨net, rfl, hnet⟩ := h
  exact ⟨net, rfl, hnet.trans (he.append_left _)⟩

/-! ## what users do -/

theorem step_appends {l : Label} (hl : l.isNet = false) (h : x.step l = some x') :
    ∃ ts, x'.net = x.net ++ ts ∧
      ∀ net, System.step { x with net := net } l = some { x' with net := net ++ ts } := by
  cases l with
  | serve k ok => cases hl
  | deliver k => cases hl
  | openVote emailString UUID =>
    cases h
    exact ⟨[], (List.append_nil _).symm, fun net => by rw [List.append_nil]; rfl⟩
  | voteWillAppear view =>
    obtain ⟨v, hv, rfl⟩ := step_voteWillAppear h
    exact ⟨_, rfl, fun net => congrArg (Option.map _) hv⟩
  | tap view row =>
    obtain ⟨v, hv, hrow, rfl⟩ := step_tap h
    refine ⟨_, rfl, fun net => ?_⟩
    simp only [System.step, hv, if_pos hrow]
    rfl
  | openMain emailString =>
    cases h
    exact ⟨[], (List.append_nil _).symm, fun net => by rw [List.append_nil]; rfl⟩
  | mainWillAppear main =>
    obtain ⟨m, hm, ha, rfl⟩ := step_mainWillAppear h
    refine ⟨_, rfl, fun net => ?_⟩
    simp only [System.step, hm, ha]
    rfl
  | mainWillDisappear main =>
    obtain ⟨m, hm, ha, rfl⟩ := step_mainWillDisappear h
    refine ⟨_, rfl, fun net => ?_⟩
    simp only [System.step, hm, ha]
    rfl
  | deleteRow main row =>
    obtain ⟨m, dtc, hm, hrow, ha, rfl⟩ := step_deleteRow h
    refine ⟨_, rfl, fun net => ?_⟩
    simp only [System.step, hm, hrow, ha]
    rfl
  | signUp email =>
    obtain ⟨hnew, h⟩ := Option.ite_none_right_eq_some.mp h
    cases h
    exact ⟨newUser email, rfl, fun net => if_pos hnew⟩
  | addNewVote title description voteDate uuid items cellForRow =>
    obtain ⟨hu, items', variants, hv, rfl⟩ := step_addNewVote h
    refine ⟨_, rfl, fun net => ?_⟩
    simp only [System.step, if_neg hu, hv]
  | setUserRole email role =>
    obtain ⟨db, hdb, rfl⟩ := step_setUserRole h
    refine ⟨[], (List.append_nil _).symm, fun net => ?_⟩
    rw [List.append_nil]
    exact congrArg (Option.map _) hdb

/-! ## serving and delivering -/

theorem exists_number {net rest : List Task} {task : Task} {l₁ l₂ : List Task}
    (h : net.Perm ((l₁ ++ task :: l₂) ++ rest)) : ∃ k, net[k]? = some task ∧
      (net.eraseIdx k).Perm ((l₁ ++ l₂) ++ rest) ∧
      ∀ r, (net.set k r).Perm ((l₁ ++ r :: l₂) ++ rest) := by
  have hmem : task ∈ net :=
    h.mem_iff.mpr (List.mem_append_left _ (mem_middle.mpr (.inl rfl)))
  obtain ⟨k, hk⟩ := List.mem_iff_getElem?.mp hmem
  obtain ⟨m₁, m₂, hnet, hset, herase⟩ := split_net hk
  -- the task in front, on both sides
  have hfront : ∀ r : Task, ((l₁ ++ r :: l₂) ++ rest).Perm (r :: ((l₁ ++ l₂) ++ rest)) := fun r => by
    exact (List.perm_middle.append_right rest)
  have hrest : (m₁ ++ m₂).Perm ((l₁ ++ l₂) ++ rest) := by
    rw [hnet] at h
    exact (List.perm_middle.symm.trans (h.trans (hfront task))).cons_inv
  refine ⟨k, hk, by rw [herase]; exact hrest, fun r => ?_⟩
  rw [hset]
  exact List.perm_middle.trans ((hrest.cons r).trans (hfront r).symm)

theorem Loosely.serve (h : Loosely extra x y) (hs : x.serve k ok = some x') :
    ∃ k' y', y.serve k' ok = some y' ∧ Loosely extra x' y' := by
  obtain ⟨net, rfl, hnet⟩ := h
  obtain ⟨task, hk, hserved⟩ := serve_served hs
  cases hserved with
  | read hx =>
    rw [hx] at hnet
    obtain ⟨k', hk', _, hset⟩ := exists_number hnet
    refine ⟨k', _, ?_, _, rfl, hset _⟩
    simp only [System.serve, hk']
    rfl
  | readFails hx =>
    rw [hx] at hnet
    obtain ⟨k', hk', _, hset⟩ := exists_number hnet
    refine ⟨k', _, ?_, _, rfl, hset _⟩
    simp only [System.serve, hk']
    rfl
  | update hx hdb =>
    rw [hx] at hnet
    obtain ⟨k', hk', herase, _⟩ := exists_number hnet
    refine ⟨k', _, ?_, _, rfl, herase⟩
    simp only [System.serve, hk', hdb]
    rfl
  | updateFails hx hfails =>
    rw [hx] at hnet
    obtain ⟨k', hk', herase, _⟩ := exists_number hnet
    refine ⟨k', _, ?_, _, rfl, herase⟩
    simp only [System.serve, hk']
    rcases hfails with rfl | hdb
    · rfl
    · simp only [hdb, ite_self]
  | set hx =>
    rw [hx] at hnet
    obtain ⟨k', hk', herase, _⟩ := exists_number hnet
    refine ⟨k', _, ?_, _, rfl, herase⟩
    simp only [System.serve, hk']
    rfl
  | setFails hx =>
    rw [hx] at hnet
    obtain ⟨k', hk', herase, _⟩ := exists_number hnet
    refine ⟨k', _, ?_, _, rfl, herase⟩
    simp only [System.serve, hk']
    rfl
  | delete hx =>
    rw [hx] at hnet
    obtain ⟨k', hk', _, hset⟩ := exists_number hnet
    refine ⟨k', _, ?_, _, rfl, hset _⟩
    simp only [System.serve, hk']
    rfl
  | deleteFails hx =>
    rw [hx] at hnet
    obtain ⟨k', hk', _, hset⟩ := exists_number hnet
    refine ⟨k', _, ?_, _, rfl, hset _⟩
    simp only [System.serve, hk']
    rfl

theorem Loosely.perform (h : Loosely extra x y) (e : Effect) :
    Loosely extra (x.perform e) (y.perform e) := by
  obtain ⟨net, rfl, hnet⟩ := h
  have htasks : System.newTasks { x with net := net } e = x.newTasks e := by cases e <;> rfl
  refine ⟨net ++ x.newTasks e, ?_, ?_⟩
  · unfold System.perform
    rw [htasks]
  · show (net ++ x.newTasks e).Perm ((x.net ++ x.newTasks e) ++ extra)
    rw [List.append_assoc]
    refine (hnet.append_right _).trans ?_
    rw [List.append_assoc]
    exact List.perm_append_comm.append_left _

theorem Loosely.performAll (h : Loosely extra x y) (es : List Effect) :
    Loosely extra (x.performAll es) (y.performAll es) := by
  induction es generalizing x y with
  | nil => exact h
  | cons e es ih => exact ih (h.perform e)

theorem Loosely.deliver (h : Loosely extra x y) (hs : x.deliver k = some x') :
    ∃ k' y', y.deliver k' = some y' ∧ Loosely extra x' y' := by
  obtain ⟨net, rfl, hnet⟩ := h
  obtain ⟨l₁, l₂, r, cb, es, hx, hrun, rfl⟩ := deliver_delivered hs
  rw [hx] at hnet
  obtain ⟨k', hk', herase, _⟩ := exists_number hnet
  refine ⟨k', System.performAll { x with net := net.eraseIdx k' } es, ?_,
    Loosely.performAll ⟨_, rfl, herase⟩ es⟩
  have hrun : cb.run (System.itemsDtc { x with net := net }) r = .ok es := hrun
  simp only [System.deliver, hk', hrun]

/-- **What is in flight, in whatever order and with whatever else, the steps are the same.** -/
theorem Loosely.step {l : Label} (h : Loosely extra x y) (hs : x.step l = some x') :
    ∃ l' y', y.step l' = some y' ∧ Loosely extra x' y' ∧
      (l' = l ∨ (l.isQuiet = true ∧ l'.isQuiet = true)) := by
  cases hl : l.isNet with
  | true =>
    cases l with
    | serve k ok =>
      obtain ⟨k', y', hy, h'⟩ := h.serve hs
      exact ⟨.serve k' ok, y', hy, h', .inr ⟨rfl, rfl⟩⟩
    | deliver k =>
      obtain ⟨k', y', hy, h'⟩ := h.deliver hs
      exact ⟨.deliver k', y', hy, h', .inr ⟨rfl, rfl⟩⟩
    | _ => cases hl
  | false =>
    obtain ⟨ts, hts, hall⟩ := step_appends hl hs
    obtain ⟨net, rfl, hnet⟩ := h
    refine ⟨l, _, hall net, ⟨_, rfl, ?_⟩, .inl rfl⟩
    rw [hts, List.append_assoc]
    refine (hnet.append_right _).trans ?_
    rw [List.append_assoc]
    exact List.perm_append_comm.append_left _

/-! ## what is extra -/

variable {email : String}

theorem Loosely.signUp (h : Loosely extra x y) (he : email ∉ x.accounts) (hplain : Plain email) :
    ∃ y', y.step (.signUp email) = some y' ∧
      Loosely (newUser email ++ extra) { x with accounts := email :: x.accounts } y' := by
  obtain ⟨net, rfl, hnet⟩ := h
  refine ⟨_, if_pos ⟨he, hplain⟩, _, rfl, ?_⟩
  refine (hnet.append_right _).trans ?_
  rw [List.append_assoc]
  exact List.perm_append_comm.append_left _

theorem Loosely.serve_set {d : Document} (h : Loosely (.set .users email d :: extra) x y)
    (ok : Bool) : ∃ k y', y.step (.serve k ok) = some y' ∧
      Loosely extra { x with db := if ok then x.db.setData .users email d else x.db } y' := by
  obtain ⟨net, rfl, hnet⟩ := h
  have hnet' : net.Perm ((x.net ++ .set .users email d :: []) ++ extra) := by
    rw [List.append_assoc]
    exact hnet
  obtain ⟨k, hk, herase, _⟩ := exists_number hnet'
  rw [List.append_nil] at herase
  cases ok with
  | false => exact ⟨k, _, by simp only [System.step, System.serve, hk]; rfl, _, rfl, herase⟩
  | true => exact ⟨k, _, by simp only [System.step, System.serve, hk]; rfl, _, rfl, herase⟩

theorem Loosely.setUser (h : Loosely (newUser email ++ extra) x y) :
    ∃ ms z, System.Run y ms z ∧ Loosely extra { x with db := x.db.setUser email } z ∧
      ∀ m ∈ ms, m.isQuiet = true := by
  unfold newUser at h
  unfold Database.setUser
  cases hid : userDocument email with
  | none =>
    rw [hid] at h
    exact ⟨[], y, rfl, h, fun m hm => absurd hm List.not_mem_nil⟩
  | some id =>
    rw [hid] at h
    obtain ⟨k, z, hz, hloose⟩ := Loosely.serve_set h true
    refine ⟨[.serve k true], z, (Machine.exec_cons System.step).mpr ⟨z, hz, rfl⟩, hloose, ?_⟩
    intro m hm
    rw [List.mem_singleton.mp hm]
    rfl

theorem Loosely.refuse {ts : List Task} (h : Loosely (ts ++ extra) x y)
    (hts : ∀ task ∈ ts, ∃ email d, task = .set .users email d) :
    ∃ ms z, System.Run y ms z ∧ Loosely extra x z ∧ ∀ m ∈ ms, m.isQuiet = true := by
  induction ts generalizing y with
  | nil => exact ⟨[], y, rfl, h, fun m hm => absurd hm List.not_mem_nil⟩
  | cons task ts ih =>
    obtain ⟨email, d, rfl⟩ := hts task List.mem_cons_self
    obtain ⟨k, y', hy, h'⟩ := h.serve_set false
    obtain ⟨ms, z, hz, hloose, hquiet⟩ := ih h' fun t ht => hts t (List.mem_cons_of_mem _ ht)
    refine ⟨.serve k false :: ms, z, (Machine.exec_cons _).mpr ⟨y', hy, hz⟩, hloose, fun m hm => ?_⟩
    rcases List.mem_cons.mp hm with rfl | hm
    · rfl
    · exact hquiet m hm

end

end VoteOnOffice
