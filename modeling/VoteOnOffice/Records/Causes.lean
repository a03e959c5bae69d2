import VoteOnOffice.Lib.Cause
import VoteOnOffice.Records.History
import VoteOnOffice.Taps.Step

/-!
# What brought a state about

* `Does`, `Sends`      what a step performs, and what else it puts in flight;
* `step_does`          **a step performs what a closure or an act on a screen asks for, and nothing else
                       changes what the screens show;**
* `step_addresses`, `run_grows`
                       the screens stay open, each for its user;
* `run_emits`          what a closure does;
* `step_tasks`         where a request or an answer in flight comes from, in one step;
* `reply_asked`        an answer that is in flight is what the database had at an earlier moment of the
                       run;
* `read_asked`, `update_asked`, `vote_asked`, `arr_shown`, `row_shown`, `admin_shown`
                       the step that asked for a request, or showed what a screen shows.
-/

namespace VoteOnOffice

/-- the step of the label performs the effect -/
inductive System.Does (s : System) : Label → Effect → Prop where
  | closure {k : Nat} {r : Reply} {cb : Callback} {es : List Effect} {e : Effect}
      (hnet : .reply r cb ∈ s.net) (hrun : cb.run s.itemsDtc r = .ok es) (he : e ∈ es) :
      Does s (.deliver k) e
  | tap {view row : Nat} {t : Tap} : Does s (.tap view row) (tabOnCell t)
  | appear {main : Nat} {email : String} : Does s (.mainWillAppear main) (readDataBase main email)
  | disappear {main : Nat} : Does s (.mainWillDisappear main) (itemsDeleteAll main)

/-- what a step puts in flight that no effect asks for -/
inductive System.Sends (s : System) : Task → Prop where
  | answer {q : Query} {k : Callback} (h : .read q k ∈ s.net) :
      Sends s (.reply (.ok (s.db.getDocuments q)) k)
  | refused {k : Callback} : Sends s (.reply .failed k)
  | done {k : Callback} : Sends s (.reply .done k)
  | reload {view : Nat} {emailString UUID : String} :
      Sends s (.read (.votesWhere UUID) (.reloadViewData view emailString UUID))
  | user {email : String} : Sends s (.set .users email (userData email))
  | vote {title description voteDate uuid : String} {items items' : List Int}
      {cellForRow : Int → Option String} {variants : List Record}
      (hv : variantsArray items cellForRow = .ok (items', variants)) :
      Sends s (.set .votes uuid (voteData voteDate description title uuid variants))
  | delete {document : String} {k : Callback} : Sends s (.delete document k)

/-- the request that an effect asks for -/
def Effect.asks : Effect → Option Task
  | .getDocuments q k => some (.read q k)
  | .updateData t p c document f v => some (.update t p c document f v)
  | _ => none

/-- `x` is `s` but for what is put in flight; the screens show what they showed -/
structure System.Keeps (s x : System) : Prop where
  tasks : ∀ task ∈ x.net, task ∈ s.net ∨ s.Sends task
  views : ∀ (view : Nat) v, x.views[view]? = some v →
    v.arr = [] ∨ ∃ v₀, s.views[view]? = some v₀ ∧ v₀.arr = v.arr
  mains : ∀ (main : Nat) m, x.mains[main]? = some m →
    (m.itemsDtc = [] ∧ m.adminStatus = false) ∨
      ∃ m₀, s.mains[main]? = some m₀ ∧ m₀.itemsDtc = m.itemsDtc ∧ m₀.adminStatus = m.adminStatus

section
variable {s u : System} {l : Label}

/-! ## one step -/

theorem System.Keeps.same {x : System} (htasks : ∀ task ∈ x.net, task ∈ s.net ∨ s.Sends task)
    (hviews : x.views = s.views) (hmains : x.mains = s.mains) : s.Keeps x where
  tasks := htasks
  views := fun _ v hv => .inr ⟨v, hviews ▸ hv, rfl⟩
  mains := fun _ m hm => .inr ⟨m, hmains ▸ hm, rfl, rfl⟩

theorem getElem?_set_shows {α β : Type} (shown : α → β) {l : List α} {i j : Nat} {x y z : α}
    (hx : l[i]? = some x) (hy : shown y = shown x) (h : (l.set i y)[j]? = some z) :
    ∃ z₀, l[j]? = some z₀ ∧ shown z₀ = shown z := by
  rw [List.getElem?_set] at h
  by_cases hij : i = j
  · subst hij
    obtain ⟨hi, _⟩ := List.getElem?_eq_some_iff.mp hx
    rw [if_pos rfl, if_pos hi, Option.some.injEq] at h
    exact ⟨x, hx, by rw [← h, hy]⟩
  · rw [if_neg hij] at h
    exact ⟨z, h, rfl⟩

theorem served_keeps {task : Task} {ok : Bool} (h : Served s task ok u) : s.Keeps u := by
  have hrest : ∀ {l₁ l₂ : List Task} {x : Task}, s.net = l₁ ++ x :: l₂ → ∀ y ∈ l₁ ++ l₂,
      y ∈ s.net := by
    intro l₁ l₂ x hnet y hy
    rw [hnet]
    exact mem_middle.mpr (.inr hy)
  have hput : ∀ {l₁ l₂ : List Task} {x y : Task}, s.net = l₁ ++ x :: l₂ → s.Sends y →
      ∀ z ∈ l₁ ++ y :: l₂, z ∈ s.net ∨ s.Sends z := by
    intro l₁ l₂ x y hnet hy z hz
    rcases mem_middle.mp hz with rfl | hz
    · exact .inr hy
    · exact .inl (hrest hnet z hz)
  cases h with
  | @read _ _ q k hnet =>
    have hmem : .read q k ∈ s.net := by
      rw [hnet]
      exact mem_middle.mpr (.inl rfl)
    exact .same (hput hnet (.answer hmem)) rfl rfl
  | readFails hnet => exact .same (hput hnet .refused) rfl rfl
  | update hnet _ => exact .same (fun y hy => .inl (hrest hnet y hy)) rfl rfl
  | updateFails hnet _ => exact .same (fun y hy => .inl (hrest hnet y hy)) rfl rfl
  | set hnet => exact .same (fun y hy => .inl (hrest hnet y hy)) rfl rfl
  | setFails hnet => exact .same (fun y hy => .inl (hrest hnet y hy)) rfl rfl
  | delete hnet => exact .same (hput hnet .done) rfl rfl
  | deleteFails hnet => exact .same (hput hnet .refused) rfl rfl

/-- **What a step does.** -/
theorem step_does (h : s.step l = some u) :
    ∃ x es, s.Keeps x ∧ (∀ e ∈ es, s.Does l e) ∧ u = x.performAll es := by
  have hquiet : s.Keeps u → ∃ x es, s.Keeps x ∧ (∀ e ∈ es, s.Does l e) ∧ u = x.performAll es :=
    fun hu => ⟨u, [], hu, fun e he => absurd he List.not_mem_nil, rfl⟩
  have hone : ∀ {x : System} {e : Effect}, u = x.perform e → s.Keeps x → s.Does l e →
      ∃ x es, s.Keeps x ∧ (∀ e ∈ es, s.Does l e) ∧ u = x.performAll es :=
    fun {x e} hu hx he => ⟨x, [e], hx, fun e' he' => List.mem_singleton.mp he' ▸ he, hu⟩
  have hold : ∀ task ∈ s.net, task ∈ s.net ∨ s.Sends task := fun _ => .inl
  have hmore : ∀ {task : Task}, s.Sends task → ∀ y ∈ s.net ++ [task], y ∈ s.net ∨ s.Sends y := by
    intro task htask y hy
    rcases List.mem_append.mp hy with hy | hy
    · exact .inl hy
    · exact .inr (List.mem_singleton.mp hy ▸ htask)
  cases l with
  | serve k ok =>
    obtain ⟨task, _, hserved⟩ := serve_served h
    exact hquiet (served_keeps hserved)
  | deliver k =>
    obtain ⟨l₁, l₂, r, cb, es, hnet, hrun, rfl⟩ := deliver_delivered h
    refine ⟨{ s with net := l₁ ++ l₂ }, es, .same (fun task ht => .inl ?_) rfl rfl, fun e he =>
      .closure ?_ hrun he, rfl⟩
    · rw [hnet]
      exact mem_middle.mpr (.inr ht)
    · rw [hnet]
      exact mem_middle.mpr (.inl rfl)
  | openVote emailString UUID =>
    cases h
    refine hquiet ⟨hold, fun view v hv => ?_, fun main m hm => .inr ⟨m, hm, rfl, rfl⟩⟩
    rw [List.getElem?_append] at hv
    split at hv
    · exact .inr ⟨v, hv, rfl⟩
    · obtain rfl := List.mem_singleton.mp (List.mem_of_getElem? hv)
      exact .inl rfl
  | voteWillAppear view =>
    obtain ⟨v, hv, rfl⟩ := step_voteWillAppear h
    refine hquiet ⟨fun task ht => ?_, fun view' w hw => .inr ?_, fun main m hm =>
      .inr ⟨m, hm, rfl, rfl⟩⟩
    · rcases List.mem_append.mp ht with ht | ht
      · exact .inl ht
      · simp only [List.mem_cons, List.not_mem_nil, or_false, or_self] at ht
        rw [ht]
        exact .inr .reload
    · exact @getElem?_set_shows _ _ VoteView.arr _ _ _ v
        { v with subscriptions := v.subscriptions + 1 } w hv rfl hw
  | tap view row =>
    obtain ⟨v, _, _, hu⟩ := step_tap h
    exact hone hu (.same hold rfl rfl) .tap
  | openMain emailString =>
    cases h
    refine hquiet ⟨hold, fun view v hv => .inr ⟨v, hv, rfl⟩, fun main m hm => ?_⟩
    rw [List.getElem?_append] at hm
    split at hm
    · exact .inr ⟨m, hm, rfl, rfl⟩
    · obtain rfl := List.mem_singleton.mp (List.mem_of_getElem? hm)
      exact .inl ⟨rfl, rfl⟩
  | mainWillAppear main =>
    obtain ⟨m, hm, _, hu⟩ := step_mainWillAppear h
    refine hone hu ⟨hold, fun view v hv => .inr ⟨v, hv, rfl⟩, fun main' m' hm' => .inr ?_⟩ .appear
    obtain ⟨m₀, hm₀, hsame⟩ := @getElem?_set_shows _ _ (fun m => (m.itemsDtc, m.adminStatus)) _ _ _ m
      { m with appeared := true } m' hm rfl hm'
    exact ⟨m₀, hm₀, congrArg Prod.fst hsame, congrArg Prod.snd hsame⟩
  | mainWillDisappear main =>
    obtain ⟨m, hm, _, hu⟩ := step_mainWillDisappear h
    refine hone hu ⟨hold, fun view v hv => .inr ⟨v, hv, rfl⟩, fun main' m' hm' => .inr ?_⟩
      .disappear
    obtain ⟨m₀, hm₀, hsame⟩ := @getElem?_set_shows _ _ (fun m => (m.itemsDtc, m.adminStatus)) _ _ _ m
      { m with appeared := false } m' hm rfl hm'
    exact ⟨m₀, hm₀, congrArg Prod.fst hsame, congrArg Prod.snd hsame⟩
  | deleteRow main row =>
    obtain ⟨m, dtc, _, _, _, rfl⟩ := step_deleteRow h
    exact hquiet (.same (hmore .delete) rfl rfl)
  | signUp email =>
    obtain ⟨_, rfl | rfl⟩ := step_signUp h
    · exact hquiet (.same hold rfl rfl)
    · exact hquiet (.same (hmore .user) rfl rfl)
  | addNewVote title description voteDate uuid items cellForRow =>
    obtain ⟨_, _, _, hv, rfl⟩ := step_addNewVote h
    exact hquiet (.same (hmore (.vote hv)) rfl rfl)
  | setUserRole email role =>
    obtain ⟨db, _, rfl⟩ := step_setUserRole h
    exact hquiet (.same hold rfl rfl)

/-! ## effects, one by one -/

theorem performAll_cause {P : System → Prop} {C : Effect → Prop}
    (hperform : ∀ s e, P (s.perform e) → P s ∨ C e) {es : List Effect} (h : P (s.performAll es)) :
    P s ∨ ∃ e ∈ es, C e := by
  induction es generalizing s with
  | nil => exact .inl h
  | cons e es ih =>
    rcases ih (s := s.perform e) h with hP | ⟨e', he', hC⟩
    · rcases hperform s e hP with hP | hC
      · exact .inl hP
      · exact .inr ⟨e, List.mem_cons_self, hC⟩
    · exact .inr ⟨e', List.mem_cons_of_mem _ he', hC⟩

theorem mem_newTasks {e : Effect} {task : Task} (h : task ∈ s.newTasks e) :
    e.asks = some task ∨ ∃ view emailString UUID,
      task = .read (.votesWhere UUID) (.reloadViewData view emailString UUID) := by
  cases e with
  | getDocuments q k => exact .inl (by rw [List.mem_singleton.mp h]; rfl)
  | updateData t p c document f v => exact .inl (by rw [List.mem_singleton.mp h]; rfl)
  | selectRow view row =>
    have h : task ∈ s.reloads view := h
    unfold System.reloads at h
    cases hv : s.views[view]? with
    | none => rw [hv] at h; cases h
    | some v =>
      rw [hv] at h
      exact .inr ⟨view, v.emailString, v.UUID, List.eq_of_mem_replicate h⟩
  | _ => cases h

/-- **Where something in flight comes from.** -/
theorem step_tasks (h : s.step l = some u) {task : Task} (ht : task ∈ u.net) :
    task ∈ s.net ∨ s.Sends task ∨ ∃ e, s.Does l e ∧ e.asks = some task := by
  obtain ⟨x, es, hx, hes, rfl⟩ := step_does h
  have hcause := performAll_cause (P := fun x => task ∈ x.net)
    (C := fun e => e.asks = some task ∨ ∃ view emailString UUID,
      task = .read (.votesWhere UUID) (.reloadViewData view emailString UUID))
    (fun s e h => (List.mem_append.mp h).imp id mem_newTasks) ht
  rcases hcause with ht | ⟨e, he, hasks | ⟨view, emailString, UUID, rfl⟩⟩
  · rcases hx.tasks task ht with ht | ht
    · exact .inl ht
    · exact .inr (.inl ht)
  · exact .inr (.inr ⟨e, hes e he, hasks⟩)
  · exact .inr (.inl .reload)

theorem getElem?_modify_shows {α : Type} {f : α → α} {l : List α} {i j : Nat} {x : α}
    (h : (l.modify i f)[j]? = some x) : l[j]? = some x ∨ i = j ∧ ∃ x₀, l[j]? = some x₀ ∧ x = f x₀ := by
  rw [List.getElem?_modify] at h
  by_cases hij : i = j
  · obtain ⟨x₀, hx₀, rfl⟩ := Option.map_eq_some_iff.mp h
    exact .inr ⟨hij, x₀, hx₀, by rw [if_pos hij]⟩
  · obtain ⟨x₀, hx₀, rfl⟩ := Option.map_eq_some_iff.mp h
    exact .inl (by rw [if_neg hij]; exact hx₀)

theorem step_arr (h : s.step l = some u) {view : Nat} {v : VoteView} (hv : u.views[view]? = some v)
    (hne : v.arr ≠ []) :
    (∃ v₀, s.views[view]? = some v₀ ∧ v₀.arr = v.arr) ∨ s.Does l (.arr view v.arr) := by
  obtain ⟨x, es, hx, hes, rfl⟩ := step_does h
  have hcause := performAll_cause (P := fun x => ∃ v₀, x.views[view]? = some v₀ ∧ v₀.arr = v.arr)
    (C := fun e => e = .arr view v.arr) (fun s e h => ?_) (s := x) ⟨v, hv, rfl⟩
  · rcases hcause with ⟨v₀, hv₀, harr⟩ | ⟨e, he, rfl⟩
    · rcases hx.views view v₀ hv₀ with hnil | ⟨v₁, hv₁, hsame⟩
      · exact absurd (harr ▸ hnil) hne
      · exact .inl ⟨v₁, hv₁, hsame.trans harr⟩
    · exact .inr (hes _ he)
  · obtain ⟨w, hw, harr⟩ := h
    cases e with
    | arr view' x =>
      rcases getElem?_modify_shows hw with hw | ⟨rfl, w₀, _, rfl⟩
      · exact .inl ⟨w, hw, harr⟩
      · exact .inr (congrArg (Effect.arr _) harr)
    | selectRow view' x =>
      rcases getElem?_modify_shows hw with hw | ⟨_, w₀, hw₀, rfl⟩
      · exact .inl ⟨w, hw, harr⟩
      · exact .inl ⟨w₀, hw₀, harr⟩
    | titleString view' x =>
      rcases getElem?_modify_shows hw with hw | ⟨_, w₀, hw₀, rfl⟩
      · exact .inl ⟨w, hw, harr⟩
      · exact .inl ⟨w₀, hw₀, harr⟩
    | descriptionString view' x =>
      rcases getElem?_modify_shows hw with hw | ⟨_, w₀, hw₀, rfl⟩
      · exact .inl ⟨w, hw, harr⟩
      · exact .inl ⟨w₀, hw₀, harr⟩
    | _ => exact .inl ⟨w, hw, harr⟩

theorem step_row (h : s.step l = some u) {main : Nat} {m : MainView} {dtc : DataVoteCell}
    (hm : u.mains[main]? = some m) (hdtc : dtc ∈ m.itemsDtc) :
    (∃ m₀, s.mains[main]? = some m₀ ∧ dtc ∈ m₀.itemsDtc) ∨
      ∃ items, s.Does l (.items main items) ∧ dtc ∈ items := by
  obtain ⟨x, es, hx, hes, rfl⟩ := step_does h
  have hcause := performAll_cause (P := fun x => ∃ m₀, x.mains[main]? = some m₀ ∧ dtc ∈ m₀.itemsDtc)
    (C := fun e => ∃ items, e = .items main items ∧ dtc ∈ items) (fun s e h => ?_) (s := x)
    ⟨m, hm, hdtc⟩
  · rcases hcause with ⟨m₀, hm₀, hmem⟩ | ⟨e, he, items, rfl, hmem⟩
    · rcases hx.mains main m₀ hm₀ with ⟨hnil, _⟩ | ⟨m₁, hm₁, hsame, _⟩
      · rw [hnil] at hmem
        cases hmem
      · exact .inl ⟨m₁, hm₁, hsame ▸ hmem⟩
    · exact .inr ⟨items, hes _ he, hmem⟩
  · obtain ⟨n, hn, hmem⟩ := h
    cases e with
    | items main' items =>
      rcases getElem?_modify_shows hn with hn | ⟨rfl, n₀, _, rfl⟩
      · exact .inl ⟨n, hn, hmem⟩
      · exact .inr ⟨items, rfl, hmem⟩
    | adminStatus main' status =>
      rcases getElem?_modify_shows hn with hn | ⟨_, n₀, hn₀, rfl⟩
      · exact .inl ⟨n, hn, hmem⟩
      · exact .inl ⟨n₀, hn₀, hmem⟩
    | _ => exact .inl ⟨n, hn, hmem⟩

theorem step_admin (h : s.step l = some u) {main : Nat} {m : MainView}
    (hm : u.mains[main]? = some m) (hadmin : m.adminStatus = true) :
    (∃ m₀, s.mains[main]? = some m₀ ∧ m₀.adminStatus = true) ∨ s.Does l (.adminStatus main true) := by
  obtain ⟨x, es, hx, hes, rfl⟩ := step_does h
  have hcause := performAll_cause
    (P := fun x => ∃ m₀, x.mains[main]? = some m₀ ∧ m₀.adminStatus = true)
    (C := fun e => e = .adminStatus main true) (fun s e h => ?_) (s := x) ⟨m, hm, hadmin⟩
  · rcases hcause with ⟨m₀, hm₀, htrue⟩ | ⟨e, he, rfl⟩
    · rcases hx.mains main m₀ hm₀ with ⟨_, hfalse⟩ | ⟨m₁, hm₁, _, hsame⟩
      · rw [hfalse] at htrue
        cases htrue
      · exact .inl ⟨m₁, hm₁, hsame.trans htrue⟩
    · exact .inr (hes _ he)
  · obtain ⟨n, hn, htrue⟩ := h
    cases e with
    | items main' items =>
      rcases getElem?_modify_shows hn with hn | ⟨_, n₀, hn₀, rfl⟩
      · exact .inl ⟨n, hn, htrue⟩
      · exact .inl ⟨n₀, hn₀, htrue⟩
    | adminStatus main' status =>
      rcases getElem?_modify_shows hn with hn | ⟨rfl, n₀, _, rfl⟩
      · exact .inl ⟨n, hn, htrue⟩
      · exact .inr (congrArg (Effect.adminStatus _) htrue)
    | _ => exact .inl ⟨n, hn, htrue⟩

end

/-! ## screens keep their users -/

def Label.opens : Label → List (String × String) × List String
  | .openVote email UUID => ([(email, UUID)], [])
  | .openMain email => ([], [email])
  | _ => ([], [])

theorem step_addresses {s u : System} {l : Label} (h : s.step l = some u) :
    u.addresses = ⟨s.addresses.views ++ l.opens.1, s.addresses.mains ++ l.opens.2⟩ := by
  have hsame : u.addresses = s.addresses → l.opens = ([], []) →
      u.addresses = ⟨s.addresses.views ++ l.opens.1, s.addresses.mains ++ l.opens.2⟩ := fun h hl => by
    rw [h, hl, List.append_nil, List.append_nil]
  cases l with
  | serve k ok =>
    obtain ⟨task, _, hserved⟩ := serve_served h
    exact hsame (by cases hserved <;> rfl) rfl
  | deliver k =>
    obtain ⟨l₁, l₂, r, cb, es, _, _, rfl⟩ := deliver_delivered h
    exact hsame (performAll_keeps System.addresses addresses_perform _ es) rfl
  | openVote email UUID =>
    cases h
    unfold System.addresses Label.opens
    rw [List.map_append, List.append_nil]
    rfl
  | voteWillAppear view =>
    obtain ⟨v, hv, rfl⟩ := step_voteWillAppear h
    exact hsame (congrArg (fun x => Addresses.mk x _) (@map_set_same _ _
      (fun v : VoteView => (v.emailString, v.UUID)) _ _ v _ hv rfl)) rfl
  | tap view row =>
    obtain ⟨v, hv, _, rfl⟩ := step_tap h
    exact hsame (addresses_perform _ _) rfl
  | openMain email =>
    cases h
    unfold System.addresses Label.opens
    rw [List.map_append, List.append_nil]
    rfl
  | mainWillAppear main =>
    obtain ⟨m, hm, _, rfl⟩ := step_mainWillAppear h
    exact hsame ((addresses_perform _ _).trans (congrArg (Addresses.mk _)
      (map_set_same MainView.emailString hm rfl))) rfl
  | mainWillDisappear main =>
    obtain ⟨m, hm, _, rfl⟩ := step_mainWillDisappear h
    exact hsame ((addresses_perform _ _).trans (congrArg (Addresses.mk _)
      (map_set_same MainView.emailString hm rfl))) rfl
  | deleteRow main row =>
    obtain ⟨m, dtc, _, _, _, rfl⟩ := step_deleteRow h
    exact hsame rfl rfl
  | signUp email =>
    obtain ⟨_, rfl | rfl⟩ := step_signUp h <;> exact hsame rfl rfl
  | addNewVote title description voteDate uuid items cellForRow =>
    obtain ⟨_, _, _, _, rfl⟩ := step_addNewVote h
    exact hsame rfl rfl
  | setUserRole email role =>
    obtain ⟨db, _, rfl⟩ := step_setUserRole h
    exact hsame rfl rfl

theorem step_grows {s u : System} {l : Label} (h : s.step l = some u) :
    s.addresses.Grows u.addresses := by
  rw [step_addresses h]
  exact grows_append _ _

theorem grows_refl (a : Addresses) : a.Grows a := ⟨fun _ _ h => h, fun _ _ h => h⟩

theorem run_grows {s u : System} {ls : List Label} (h : System.Run s ls u) :
    s.addresses.Grows u.addresses :=
  Machine.exec_invariant System.step (P := fun t => s.addresses.Grows t.addresses) (A := fun _ => True)
    (fun _ _ _ ht _ hx => ⟨fun i y hy => (step_grows hx).views i y (ht.views i y hy),
      fun i y hy => (step_grows hx).mains i y (ht.mains i y hy)⟩)
    (fun _ _ => trivial) h (grows_refl _)

/-! ## closures -/

/-- what a closure that is called with `r` does -/
inductive Callback.Emits (itemsDtc : Nat → List DataVoteCell) (r : Reply) :
    Callback → Effect → Prop where
  | asks {k k' : Callback} {q : Query} (hk : k.isTap = true) (hk' : k'.isTap = true) :
      Emits itemsDtc r k (.getDocuments q k')
  | writes {k : Callback} {t : Tap} {p : Path} {c : CollectionId} {document : String} {f : Field}
      {v : Value} (hk : k.isTap = true) : Emits itemsDtc r k (.updateData t p c document f v)
  | selects {k : Callback} {view : Nat} {row : Int} : Emits itemsDtc r k (.selectRow view row)
  | user {view : Nat} {emailString UUID : String} :
      Emits itemsDtc r (.reloadViewData view emailString UUID)
        (.getDocuments (.usersWhere emailString) (.reloadUsers view UUID))
  | title {view : Nat} {emailString UUID x : String} :
      Emits itemsDtc r (.reloadViewData view emailString UUID) (.titleString view x)
  | description {view : Nat} {emailString UUID x : String} :
      Emits itemsDtc r (.reloadViewData view emailString UUID) (.descriptionString view x)
  | arr {view : Nat} {emailString UUID : String} {ds : List Document} {d : Document}
      {array : List Record} (hds : r.snapshot = some ds) (hd : d ∈ ds)
      (ha : d .voteVariants = some (.records array)) :
      Emits itemsDtc r (.reloadViewData view emailString UUID) (.arr view array)
  | vote {main : Nat} {emailString : String} {ds : List Document} {d : Document}
      (hds : r.snapshot = some ds) (hd : d ∈ ds) :
      Emits itemsDtc r (.readDataBase main emailString)
        (.getDocuments (.usersWhere emailString) (.readUsers main (dataVoteInit d)))
  | status {main : Nat} {dtc : DataVoteCell} {status : Bool} :
      Emits itemsDtc r (.readUsers main dtc) (.adminStatus main status)
  | row {main : Nat} {dtc : DataVoteCell} {items : List DataVoteCell} :
      Emits itemsDtc r (.readUsers main dtc) (.items main items)
  | removed {main : Nat} {index : Int} {UUID : String} :
      Emits itemsDtc r (.itemsDelete main index UUID)
        (.items main ((itemsDtc main).eraseIdx index.toNat))

section
variable {r : Reply} {es : List Effect} {e : Effect}

theorem voteClosure_mem {p : Path} {t : Tap} {arrays : List Record}
    (h : voteClosure p t arrays r = .ok es) (he : e ∈ es) : e = .selectRow t.view t.index ∨
    ∃ ds, r.snapshot = some ds ∧ ∃ d ∈ ds, ∃ array array', d .voteVariants = some (.records array) ∧
      p.count t.index array = .ok array' ∧ e ∈ p.writes t arrays array' := by
  rcases Reply.withDocuments_eq_ok.mp h with ⟨_, rfl⟩ | ⟨_, ds, hds, h⟩
  · cases he
  obtain ⟨writes, hwrites, h⟩ := bind_eq_ok.mp h
  cases h
  rcases List.mem_append.mp he with he | he
  · obtain ⟨d, hd, es', hround, he⟩ := forDocuments_mem hwrites he
    obtain ⟨array, array', harray, hcount, rfl⟩ := voteRound_eq_ok.mp hround
    exact .inr ⟨ds, hds, d, hd, array, array', harray, hcount, he⟩
  · exact .inl (List.mem_singleton.mp he)

/-- **What a closure does.** -/
theorem run_emits {k : Callback} {itemsDtc : Nat → List DataVoteCell}
    (h : k.run itemsDtc r = .ok es) (he : e ∈ es) : k.Emits itemsDtc r e := by
  have hvote : ∀ {p : Path} {t : Tap} {arrays : List Record}, voteClosure p t arrays r = .ok es →
      k.isTap = true → k.Emits itemsDtc r e := by
    intro p t arrays h hk
    rcases voteClosure_mem h he with rfl | ⟨_, _, _, _, _, array', _, _, he⟩
    · exact .selects
    · cases p with
      | first =>
        rw [List.mem_singleton.mp he]
        exact .writes hk
      | second row =>
        simp only [Path.writes, List.mem_cons, List.not_mem_nil, or_false] at he
        rcases he with rfl | rfl <;> exact .writes hk
  cases k with
  | tabOnCell t =>
    have h : tabOnCellClosure t r = .ok es := h
    rw [tabOnCellClosure_eq] at h
    obtain ⟨ds, _, d, _, es', hround, he⟩ := withDocuments_forDocuments_mem h he
    obtain ⟨arrays, p, _, _, rfl⟩ := tabOnCellRound_eq_ok.mp hround
    cases p with
    | first =>
      simp only [Path.call, voteFirst, List.mem_cons, List.not_mem_nil, or_false] at he
      rcases he with rfl | rfl
      · exact .writes rfl
      · exact .asks rfl rfl
    | second row =>
      rw [List.mem_singleton.mp he]
      exact .asks rfl rfl
  | voteFirst t =>
    have h : voteClosure .first t [] r = .ok es := h
    exact hvote h rfl
  | voteSecond t arrays extraIndex => exact hvote (p := .second extraIndex) h rfl
  | reloadViewData view emailString UUID =>
    rcases reloadViewDataClosure_mem h he with rfl | ⟨_, rfl⟩ | ⟨_, rfl⟩ |
      ⟨ds, hds, d, hd, array, ha, rfl⟩
    · exact .user
    · exact .title
    · exact .description
    · exact .arr hds hd ha
  | reloadUsers view UUID =>
    obtain ⟨_, _, _, _, _, _, _, row, rfl⟩ := reloadUsersClosure_mem h he
    exact .selects
  | readDataBase main emailString =>
    obtain ⟨ds, hds, d, hd, rfl⟩ := readDataBaseClosure_mem h he
    exact .vote hds hd
  | readUsers main dtc =>
    rcases readUsersClosure_mem h he with ⟨_, rfl⟩ | ⟨_, rfl⟩
    · exact .status
    · exact .row
  | itemsDelete main index UUID =>
    rcases itemsDeleteClosure_eq_ok.mp h with ⟨_, rfl⟩ | ⟨_, _, rfl⟩
    · cases he
    · rw [List.mem_singleton.mp he]
      exact .removed

end

/-! ## runs -/

section
variable {ls : List Label} {s : System} (hrun : System.Run .initial ls s)
include hrun

/-- **An answer in flight is what the database had when the request was served.** -/
theorem reply_asked {r : Reply} {k : Callback} (h : .reply r k ∈ s.net) : r.snapshot = none ∨
    ∃ a l b t q, ls = a ++ l :: b ∧ System.Run .initial a t ∧ .read q k ∈ t.net ∧
      r = .ok (t.db.getDocuments q) := by
  have hstep : ∀ t l u, System.step t l = some u → .reply r k ∈ u.net → .reply r k ∈ t.net ∨
      r.snapshot = none ∨ ∃ q, .read q k ∈ t.net ∧ r = .ok (t.db.getDocuments q) := by
    intro t l u hs hu
    rcases step_tasks hs hu with ht | hsends | ⟨e, _, hasks⟩
    · exact .inl ht
    · cases hsends with
      | answer hq => exact .inr (.inr ⟨_, hq, rfl⟩)
      | refused => exact .inr (.inl rfl)
      | done => exact .inr (.inl rfl)
    · cases e <;> cases hasks
  rcases Machine.exec_cause System.step hstep hrun h with
    hnil | ⟨a, l, b, t, hls, ht, hnone | ⟨q, hq, hr⟩⟩
  · cases hnil
  · exact .inl hnone
  · exact .inr ⟨a, l, b, t, q, hls, ht, hq, hr⟩

theorem read_asked {q : Query} {k : Callback} (h : .read q k ∈ s.net) :
    (∃ view emailString UUID, k = .reloadViewData view emailString UUID) ∨
    ∃ a l b t, ls = a ++ l :: b ∧ System.Run .initial a t ∧ t.Does l (.getDocuments q k) := by
  have hstep : ∀ t l u, System.step t l = some u → .read q k ∈ u.net → .read q k ∈ t.net ∨
      (∃ view emailString UUID, k = .reloadViewData view emailString UUID) ∨
        t.Does l (.getDocuments q k) := by
    intro t l u hs hu
    rcases step_tasks hs hu with ht | hsends | ⟨e, hdoes, hasks⟩
    · exact .inl ht
    · cases hsends
      exact .inr (.inl ⟨_, _, _, rfl⟩)
    · cases e with
      | getDocuments q' k' =>
        cases hasks
        exact .inr (.inr hdoes)
      | _ => cases hasks
  rcases Machine.exec_cause System.step hstep hrun h with
    hnil | ⟨a, l, b, t, hls, ht, hreload | hdoes⟩
  · cases hnil
  · exact .inl hreload
  · exact .inr ⟨a, l, b, t, hls, ht, hdoes⟩

theorem update_asked {t : Tap} {p : Path} {c : CollectionId} {document : String} {f : Field}
    {v : Value} (h : .update t p c document f v ∈ s.net) :
    ∃ a l b x, ls = a ++ l :: b ∧ System.Run .initial a x ∧
      x.Does l (.updateData t p c document f v) := by
  have hstep : ∀ x l u, System.step x l = some u → .update t p c document f v ∈ u.net →
      .update t p c document f v ∈ x.net ∨ x.Does l (.updateData t p c document f v) := by
    intro x l u hs hu
    rcases step_tasks hs hu with ht | hsends | ⟨e, hdoes, hasks⟩
    · exact .inl ht
    · cases hsends
    · cases e with
      | updateData t' p' c' document' f' v' =>
        cases hasks
        exact .inr hdoes
      | _ => cases hasks
  rcases Machine.exec_cause System.step hstep hrun h with hnil | hcause
  · cases hnil
  · exact hcause

theorem vote_asked {V : String} {d : Document} (h : .set .votes V d ∈ s.net) :
    ∃ voteDate description title items items' cellForRow variants,
      variantsArray items cellForRow = .ok (items', variants) ∧
        d = voteData voteDate description title V variants := by
  have hstep : ∀ t l u, System.step t l = some u → .set .votes V d ∈ u.net → .set .votes V d ∈ t.net ∨
      ∃ voteDate description title items items' cellForRow variants,
        variantsArray items cellForRow = .ok (items', variants) ∧
          d = voteData voteDate description title V variants := by
    intro t l u hs hu
    rcases step_tasks hs hu with ht | hsends | ⟨e, _, hasks⟩
    · exact .inl ht
    · cases hsends with
      | vote hv => exact .inr ⟨_, _, _, _, _, _, _, hv, rfl⟩
    · cases e <;> cases hasks
  rcases Machine.exec_cause System.step hstep hrun h with hnil | ⟨_, _, _, _, _, _, hnew⟩
  · cases hnil
  · exact hnew

theorem arr_shown {view : Nat} {v : VoteView} (hv : s.views[view]? = some v) (hne : v.arr ≠ []) :
    ∃ a l b t, ls = a ++ l :: b ∧ System.Run .initial a t ∧ t.Does l (.arr view v.arr) := by
  have hstep : ∀ t l u, System.step t l = some u →
      (∃ w, u.views[view]? = some w ∧ w.arr = v.arr) →
      (∃ w, t.views[view]? = some w ∧ w.arr = v.arr) ∨ t.Does l (.arr view v.arr) := by
    rintro t l u hs ⟨w, hw, harr⟩
    rw [← harr]
    exact step_arr hs hw (by rw [harr]; exact hne)
  rcases Machine.exec_cause System.step hstep hrun ⟨v, hv, rfl⟩ with ⟨w, hw, _⟩ | hcause
  · cases hw
  · exact hcause

theorem row_shown {main : Nat} {m : MainView} {dtc : DataVoteCell} (hm : s.mains[main]? = some m)
    (hdtc : dtc ∈ m.itemsDtc) : ∃ a l b t items, ls = a ++ l :: b ∧ System.Run .initial a t ∧
      t.Does l (.items main items) ∧ dtc ∈ items ∧ dtc ∉ t.itemsDtc main := by
  have hstep : ∀ t l u, System.step t l = some u →
      (∃ n, u.mains[main]? = some n ∧ dtc ∈ n.itemsDtc) →
      (∃ n, t.mains[main]? = some n ∧ dtc ∈ n.itemsDtc) ∨
        ∃ items, t.Does l (.items main items) ∧ dtc ∈ items ∧ dtc ∉ t.itemsDtc main := by
    rintro t l u hs ⟨n, hn, hmem⟩
    rcases step_row hs hn hmem with hold | ⟨items, hdoes, hitems⟩
    · exact .inl hold
    · by_cases hin : dtc ∈ t.itemsDtc main
      · unfold System.itemsDtc at hin
        cases ht : t.mains[main]? with
        | none => rw [ht] at hin; cases hin
        | some n₀ => rw [ht] at hin; exact .inl ⟨n₀, rfl, hin⟩
      · exact .inr ⟨items, hdoes, hitems, hin⟩
  rcases Machine.exec_cause System.step hstep hrun ⟨m, hm, hdtc⟩ with
    ⟨n, hn, _⟩ | ⟨a, l, b, t, hls, ht, items, hitems⟩
  · cases hn
  · exact ⟨a, l, b, t, items, hls, ht, hitems⟩

theorem admin_shown {main : Nat} {m : MainView} (hm : s.mains[main]? = some m)
    (hadmin : m.adminStatus = true) : ∃ a l b t, ls = a ++ l :: b ∧ System.Run .initial a t ∧
      t.Does l (.adminStatus main true) := by
  have hstep : ∀ t l u, System.step t l = some u →
      (∃ n, u.mains[main]? = some n ∧ n.adminStatus = true) →
      (∃ n, t.mains[main]? = some n ∧ n.adminStatus = true) ∨ t.Does l (.adminStatus main true) := by
    rintro t l u hs ⟨n, hn, htrue⟩
    exact step_admin hs hn htrue
  rcases Machine.exec_cause System.step hstep hrun ⟨m, hm, hadmin⟩ with ⟨n, hn, _⟩ | hcause
  · cases hn
  · exact hcause

end

end VoteOnOffice
