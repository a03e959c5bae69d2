import VoteOnOffice.Records.Sound

/-!
# The list of the main screen, apart from the rest of the system

What matters for deleting is the list and the deletes that are not completed; everything else about
the system is what may happen to them, in any order.

* `Rows`, `Event`      the list, the deletes that are not completed, and what happens to them;
* `System.rows main`   the same of the main screen number `main`;
* `rows_step`          every step of a sound system is, for the list, some steps of `Rows`;
* `rows_run`           **so the list of every main screen goes through a run of `Rows`.**
-/

namespace VoteOnOffice

/-- the list of a main screen, and the deletes that are not completed: what the closure captured, and
the document -/
structure Rows where
  itemsDtc : List DataVoteCell
  pending : List (Int × String)

inductive Event where
  | itemsDelete (index : Int)
  /-- the answer to the `k`-th delete arrives -/
  | completed (k : Nat) (error : Bool)
  /-- the inner closure of `readDataBase` appends a row -/
  | appended (dtc : DataVoteCell)
  | itemsDeleteAll

def Effect.onRows (itemsDtc : List DataVoteCell) : Effect → List DataVoteCell
  | .items _ itemsDtc' => itemsDtc'
  | _ => itemsDtc

def Rows.step (main : Nat) (r : Rows) : Event → Option Rows
  | .itemsDelete index =>
    match subscript r.itemsDtc index with
    | .ok dtc => some { r with pending := r.pending ++ [(index, dtc.UUID)] }
    | .error _ => none
  | .completed k error =>
    match r.pending[k]? with
    | none => none
    | some (index, _) =>
      match itemsDeleteClosure main index r.itemsDtc ⟨none, error⟩ with
      | .ok es =>
        some { itemsDtc := es.foldl Effect.onRows r.itemsDtc, pending := r.pending.eraseIdx k }
      | .error _ => none
  | .appended dtc => some { r with itemsDtc := r.itemsDtc ++ [dtc] }
  | .itemsDeleteAll => some { r with itemsDtc := (itemsDeleteAll main).onRows r.itemsDtc }

/-- one step of the list -/
def Rows.Follows (main : Nat) (r u : Rows) : Prop := ∃ e, r.step main e = some u

/-- the delete of the screen `main` that the closure belongs to -/
def Callback.pendingDelete (main : Nat) : Callback → Option (Int × String)
  | .itemsDelete main' index UUID => if main' = main then some (index, UUID) else none
  | _ => none

def Task.pendingDelete (main : Nat) : Task → Option (Int × String)
  | .read _ k => k.pendingDelete main
  | .delete _ k => k.pendingDelete main
  | .reply _ k => k.pendingDelete main
  | _ => none

def System.rows (main : Nat) (s : System) : Rows where
  itemsDtc := s.itemsDtc main
  pending := s.net.filterMap (Task.pendingDelete main)

theorem pendingDelete_none {k : Callback} (h : k.isDelete = false) (main : Nat) :
    k.pendingDelete main = none := by
  cases k <;> first | rfl | cases h

/-! ## effects -/

section
variable {main : Nat} {s : System}

/-- the closure that the effect issues is not one of `itemsDelete` -/
def Effect.noDelete (e : Effect) : Prop := ∀ q k, e = .getDocuments q k → k.isDelete = false

theorem EffectOk.noDelete {size : String → Nat} {screens : List String} {e : Effect}
    (h : EffectOk size screens e) : e.noDelete := by
  rintro q k rfl
  obtain ⟨⟨email, hq⟩, _⟩ := h
  cases k with
  | itemsDelete main index UUID => cases hq
  | _ => rfl

theorem pending_perform (s : System) {e : Effect} (he : e.noDelete) :
    (s.perform e).net.filterMap (Task.pendingDelete main)
      = s.net.filterMap (Task.pendingDelete main) := by
  show (s.net ++ s.newTasks e).filterMap _ = _
  rw [List.filterMap_append]
  have hnew : (s.newTasks e).filterMap (Task.pendingDelete main) = [] := by
    rw [List.filterMap_eq_nil_iff]
    intro task ht
    cases e with
    | getDocuments q k =>
      rw [List.mem_singleton.mp ht]
      exact pendingDelete_none (he q k rfl) main
    | updateData t p c document f v => rw [List.mem_singleton.mp ht]; rfl
    | selectRow view row =>
      have ht : task ∈ s.reloads view := ht
      unfold System.reloads at ht
      cases hv : s.views[view]? with
      | none => rw [hv] at ht; cases ht
      | some v => rw [hv] at ht; rw [List.eq_of_mem_replicate ht]; rfl
    | _ => cases ht
  rw [hnew, List.append_nil]

theorem itemsDtc_map (s : System) (main : Nat) :
    s.itemsDtc main = ((s.mains.map MainView.itemsDtc)[main]?).getD [] := by
  rw [List.getElem?_map]
  rfl

theorem itemsDtc_perform (s : System) {e : Effect} (he : ∀ main' l, e ≠ .items main' l) :
    (s.perform e).itemsDtc main = s.itemsDtc main := by
  cases e with
  | adminStatus main' status =>
    rw [itemsDtc_map, itemsDtc_map]
    have hmap : (s.perform (.adminStatus main' status)).mains.map MainView.itemsDtc
        = s.mains.map MainView.itemsDtc :=
      map_modify_of_comp MainView.itemsDtc (fun m => { m with adminStatus := status })
        (fun _ => rfl) s.mains main'
    rw [hmap]
  | items main' l => exact absurd rfl (he main' l)
  | _ => rfl

theorem itemsDtc_perform_items (s : System) (main' : Nat) (l : List DataVoteCell) :
    (s.perform (.items main' l)).itemsDtc main
      = if main' = main ∧ main < s.mains.length then l else s.itemsDtc main := by
  show (((s.mains.modify main' fun m => { m with itemsDtc := l, items := l })[main]?).map
    MainView.itemsDtc).getD [] = _
  rw [List.getElem?_modify]
  unfold System.itemsDtc
  by_cases hlt : main < s.mains.length
  · rw [List.getElem?_eq_getElem hlt]
    by_cases hm : main' = main
    · rw [if_pos ⟨hm, hlt⟩]; simp [hm]
    · rw [if_neg fun h => hm h.1]; simp [hm]
  · rw [List.getElem?_eq_none (Nat.le_of_not_lt hlt), if_neg fun h => hlt h.2]
    rfl

theorem rows_perform (s : System) {e : Effect} (hdel : e.noDelete)
    (he : ∀ main' l, e ≠ .items main' l) : (s.perform e).rows main = s.rows main :=
  congrArg₂ Rows.mk (itemsDtc_perform s he) (pending_perform s hdel)

theorem rows_perform_items (s : System) (main' : Nat) (l : List DataVoteCell) :
    (s.perform (.items main' l)).rows main = { s.rows main with
      itemsDtc := if main' = main ∧ main < s.mains.length then l else s.itemsDtc main } :=
  congrArg₂ Rows.mk (itemsDtc_perform_items s main' l) (pending_perform s fun _ _ h => by cases h)

theorem rows_performAll (s : System) {es : List Effect}
    (h : ∀ e ∈ es, e.noDelete ∧ ∀ main' l, e ≠ .items main' l) :
    (s.performAll es).rows main = s.rows main := by
  induction es generalizing s with
  | nil => rfl
  | cons e es ih =>
    obtain ⟨h1, h2⟩ := h e List.mem_cons_self
    exact (ih (s.perform e) fun e' he' => h e' (List.mem_cons_of_mem _ he')).trans
      (rows_perform s h1 h2)

theorem rows_readUsersLoop {main' : Nat} {dtc : DataVoteCell} {itemsDtc : List DataVoteCell}
    {ds : List Document} {es : List Effect} (h : readUsersLoop main' dtc itemsDtc ds = .ok es)
    (hs : main' = main ∧ main < s.mains.length → s.itemsDtc main = itemsDtc) :
    Relation.ReflTransGen (Rows.Follows main) (s.rows main) ((s.performAll es).rows main) := by
  induction ds generalizing dtc itemsDtc es s with
  | nil => cases h; exact .refl
  | cons d ds ih =>
    obtain ⟨status, arrays, es', _, _, h', rfl⟩ := readUsersLoop_cons.mp h
    let s₁ := s.perform (.adminStatus main' status)
    let s₂ := s₁.perform (.items main' (itemsDtc ++ [dtc.shown arrays]))
    have hrows : s₁.rows main = s.rows main :=
      rows_perform s (fun _ _ h => by cases h) (fun _ _ h => by cases h)
    have hs₁ : main' = main ∧ main < s.mains.length → s₁.itemsDtc main = itemsDtc := fun hm =>
      (itemsDtc_perform s (fun _ _ h => by cases h)).trans (hs hm)
    have hlen : s₁.mains.length = s.mains.length := List.length_modify ..
    have hlen₂ : s₂.mains.length = s.mains.length := (List.length_modify ..).trans hlen
    have hnext : Relation.ReflTransGen (Rows.Follows main) (s.rows main) (s₂.rows main) := by
      rw [← hrows, rows_perform_items, hlen]
      by_cases hm : main' = main ∧ main < s.mains.length
      · refine .single ⟨.appended (dtc.shown arrays), ?_⟩
        rw [if_pos hm, ← hs₁ hm]
        rfl
      · rw [if_neg hm]
        exact .refl
    refine hnext.trans (@ih s₂ _ _ _ h' fun hm => ?_)
    rw [hlen₂] at hm
    rw [itemsDtc_perform_items, hlen, if_pos hm]

end

/-! ## closures -/

theorem voteClosures_items {k : Callback} (hk : ∀ main dtc, k ≠ .readUsers main dtc)
    (hdel : k.isDelete = false) {itemsDtc : Nat → List DataVoteCell} {r : Reply} {es : List Effect}
    (h : k.run itemsDtc r = .ok es) {e : Effect} (he : e ∈ es) (main : Nat)
    (l : List DataVoteCell) : e ≠ .items main l := by
  rintro rfl
  have hvote : ∀ {p t arrays}, voteClosure p t arrays r = .ok es → False := by
    intro p t arrays h
    rcases Reply.withDocuments_eq_ok.mp h with ⟨_, rfl⟩ | ⟨_, ds, _, h⟩
    · cases he
    · obtain ⟨writes, hw, h⟩ := bind_eq_ok.mp h
      cases h
      rcases List.mem_append.mp he with he | he
      · obtain ⟨d, _, es', h, he⟩ := forDocuments_mem hw he
        obtain ⟨_, _, _, _, rfl⟩ := voteRound_eq_ok.mp h
        cases p <;> simp [Path.writes] at he
      · simp at he
  cases k with
  | tabOnCell t =>
    have h : tabOnCellClosure t r = .ok es := h
    rw [tabOnCellClosure_eq] at h
    obtain ⟨_, _, d, _, es', h, he⟩ := withDocuments_forDocuments_mem h he
    obtain ⟨_, p, _, _, rfl⟩ := tabOnCellRound_eq_ok.mp h
    cases p <;> simp [Path.call, voteFirst, voteSecond] at he
  | voteFirst t => exact hvote ((voteFirstClosure_eq t [] r).symm.trans h)
  | voteSecond t arrays extraIndex =>
    exact hvote ((voteSecondClosure_eq t arrays extraIndex r).symm.trans h)
  | reloadViewData view email UUID =>
    rcases reloadViewDataClosure_mem h he with he | ⟨_, he⟩ | ⟨_, he⟩ | ⟨_, _, _, _, _, _, he⟩ <;>
      cases he
  | reloadUsers view UUID =>
    obtain ⟨_, _, _, _, _, _, _, _, he⟩ := reloadUsersClosure_mem h he
    cases he
  | readDataBase main' email =>
    obtain ⟨_, _, _, _, he⟩ := readDataBaseClosure_mem h he
    cases he
  | readUsers main' dtc => exact hk main' dtc rfl
  | itemsDelete main' index UUID => cases hdel

section
variable {size : String → Nat} {main : Nat} {s u : System}

theorem rows_congr (hm : u.mains = s.mains)
    (hp : u.net.filterMap (Task.pendingDelete main) = s.net.filterMap (Task.pendingDelete main)) :
    u.rows main = s.rows main := by
  unfold System.rows System.itemsDtc
  rw [hm, hp]

theorem pending_drop {l₁ l₂ : List Task} {x : Task} (hx : x.pendingDelete main = none) :
    (l₁ ++ l₂).filterMap (Task.pendingDelete main)
      = (l₁ ++ x :: l₂).filterMap (Task.pendingDelete main) := by
  rw [List.filterMap_append, List.filterMap_append, List.filterMap_cons_none hx]

theorem pendingDelete_reply (main' : Nat) (index : Int) (D : String) (r : Reply) :
    (Task.reply r (.itemsDelete main' index D)).pendingDelete main
      = if main' = main then some (index, D) else none := rfl

theorem rows_serve {task : Task} {ok : Bool} (hs : Served s task ok u) : u.rows main = s.rows main := by
  have hput : ∀ {l₁ l₂ : List Task} {x y : Task}, s.net = l₁ ++ x :: l₂ →
      y.pendingDelete main = x.pendingDelete main →
      (l₁ ++ y :: l₂).filterMap (Task.pendingDelete main)
        = s.net.filterMap (Task.pendingDelete main) := by
    intro l₁ l₂ x y hnet hxy
    rw [hnet, List.filterMap_append, List.filterMap_append, List.filterMap_cons, List.filterMap_cons,
      hxy]
  have hdrop : ∀ {l₁ l₂ : List Task} {x : Task}, s.net = l₁ ++ x :: l₂ →
      x.pendingDelete main = none →
      (l₁ ++ l₂).filterMap (Task.pendingDelete main)
        = s.net.filterMap (Task.pendingDelete main) := fun hnet hx => by
    rw [hnet]; exact pending_drop hx
  cases hs with
  | read hnet => exact rows_congr rfl (hput hnet rfl)
  | readFails hnet => exact rows_congr rfl (hput hnet rfl)
  | update hnet _ => exact rows_congr rfl (hdrop hnet rfl)
  | updateFails hnet _ => exact rows_congr rfl (hdrop hnet rfl)
  | set hnet => exact rows_congr rfl (hdrop hnet rfl)
  | setFails hnet => exact rows_congr rfl (hdrop hnet rfl)
  | delete hnet => exact rows_congr rfl (hput hnet rfl)
  | deleteFails hnet => exact rows_congr rfl (hput hnet rfl)

section
variable {main' : Nat} {index : Int} {D : String} {r : Reply} {es : List Effect} {l₁ l₂ : List Task}

theorem rows_completed_self (hnet : s.net = l₁ ++ .reply r (.itemsDelete main index D) :: l₂)
    (h : itemsDeleteClosure main index (s.itemsDtc main) r = .ok es) :
    (s.rows main).step main (.completed (l₁.filterMap (Task.pendingDelete main)).length r.error)
      = some ((System.performAll { s with net := l₁ ++ l₂ } es).rows main) := by
  have hpending : (s.rows main).pending = l₁.filterMap (Task.pendingDelete main) ++
      (index, D) :: l₂.filterMap (Task.pendingDelete main) := by
    show s.net.filterMap _ = _
    rw [hnet, List.filterMap_append, List.filterMap_cons_some]
    rw [pendingDelete_reply, if_pos rfl]
  have hrest : (System.rows main { s with net := l₁ ++ l₂ }).pending
      = (s.rows main).pending.eraseIdx (l₁.filterMap (Task.pendingDelete main)).length := by
    rw [hpending, List.eraseIdx_append_of_length_le (Nat.le_refl _), Nat.sub_self,
      List.eraseIdx_cons_zero]
    exact List.filterMap_append
  have hget : (s.rows main).pending[(l₁.filterMap (Task.pendingDelete main)).length]?
      = some (index, D) := by
    rw [hpending, List.getElem?_append_right (Nat.le_refl _), Nat.sub_self]
    rfl
  have hclosure : itemsDeleteClosure main index (s.rows main).itemsDtc ⟨none, r.error⟩ = .ok es := h
  simp only [Rows.step, hget, hclosure]
  rw [← hrest]
  rcases itemsDeleteClosure_eq_ok.mp h with ⟨_, rfl⟩ | ⟨_, ⟨dtc, hdtc⟩, rfl⟩
  · rfl
  · have hlt : main < s.mains.length := by
      by_contra hge
      have hnil : s.itemsDtc main = [] := by
        unfold System.itemsDtc
        rw [List.getElem?_eq_none (Nat.le_of_not_lt hge)]
        rfl
      rw [hnil] at hdtc
      obtain ⟨_, hget⟩ := subscript_eq_ok.mp hdtc
      cases hget
    show some _ = some ((System.perform { s with net := l₁ ++ l₂ } (.items main _)).rows main)
    rw [rows_perform_items, if_pos ⟨rfl, hlt⟩]
    rfl

theorem rows_completed_ne (hm : main' ≠ main)
    (hnet : s.net = l₁ ++ .reply r (.itemsDelete main' index D) :: l₂)
    (h : itemsDeleteClosure main' index (s.itemsDtc main') r = .ok es) :
    (System.performAll { s with net := l₁ ++ l₂ } es).rows main = s.rows main := by
  have hrest : System.rows main { s with net := l₁ ++ l₂ } = s.rows main := by
    refine rows_congr rfl ?_
    rw [hnet]
    exact pending_drop (by rw [pendingDelete_reply, if_neg hm])
  rcases itemsDeleteClosure_eq_ok.mp h with ⟨_, rfl⟩ | ⟨_, _, rfl⟩
  · exact hrest
  · show (System.perform { s with net := l₁ ++ l₂ } (.items main' _)).rows main = _
    rw [rows_perform_items, if_neg fun h => hm h.1, hrest]
    rfl

end

theorem rows_deliver (h : Sound size s) {k : Nat} (hs : s.deliver k = some u) :
    Relation.ReflTransGen (Rows.Follows main) (s.rows main) (u.rows main) := by
  obtain ⟨l₁, l₂, r, cb, es, hnet, hrun, rfl⟩ := deliver_delivered hs
  cases hdel : cb.isDelete with
  | true =>
    cases cb with
    | itemsDelete main' index D =>
      by_cases hm : main' = main
      · subst hm
        exact .single ⟨_, rows_completed_self hnet hrun⟩
      · rw [rows_completed_ne hm hnet hrun]
    | _ => cases hdel
  | false =>
    have hrest : System.rows main { s with net := l₁ ++ l₂ } = s.rows main := by
      refine rows_congr rfl ?_
      rw [hnet]
      exact pending_drop (pendingDelete_none hdel main)
    rw [← hrest]
    by_cases hread : ∃ main' dtc, cb = .readUsers main' dtc
    · obtain ⟨main', dtc, rfl⟩ := hread
      rcases Reply.withDocuments_eq_ok.mp hrun with ⟨_, rfl⟩ | ⟨_, ds, _, hloop⟩
      · exact .refl
      · exact rows_readUsersLoop hloop fun hm => by rw [hm.1]; rfl
    · have htask : InFlightOk size s.screens (.reply r cb) := h.net _ (by rw [hnet]; simp)
      obtain ⟨es', hrun', hes⟩ := run_safe htask.2 htask.1 hdel s.itemsDtc
      rw [hrun] at hrun'
      cases hrun'
      rw [rows_performAll _ fun e he => ⟨(hes e he).noDelete,
        voteClosures_items (fun main' dtc e => hread ⟨main', dtc, e⟩) hdel hrun he⟩]

theorem rows_set {main' : Nat} {m m' : MainView} (hm : s.mains[main']? = some m)
    (hsame : m'.itemsDtc = m.itemsDtc) :
    System.rows main { s with mains := s.mains.set main' m' } = s.rows main := by
  refine congrArg₂ Rows.mk ?_ rfl
  unfold System.itemsDtc
  obtain ⟨hlt, hget⟩ := List.getElem?_eq_some_iff.mp hm
  by_cases h : main' = main
  · subst h
    rw [List.getElem?_set_self hlt, hm, Option.map_some, Option.map_some, hsame]
  · rw [List.getElem?_set_ne h]

/-- **Every step is, for the list of a main screen, some steps of `Rows`.** -/
theorem rows_step (h : Sound size s) {l : Label} (hs : s.step l = some u) :
    Relation.ReflTransGen (Rows.Follows main) (s.rows main) (u.rows main) := by
  have hsame : u.rows main = s.rows main →
      Relation.ReflTransGen (Rows.Follows main) (s.rows main) (u.rows main) := fun e => e ▸ .refl
  have hjoin : ∀ {task : Task}, task.pendingDelete main = none →
      (s.net ++ [task]).filterMap (Task.pendingDelete main)
        = s.net.filterMap (Task.pendingDelete main) := fun ht => by
    rw [List.filterMap_append, List.filterMap_cons_none ht, List.filterMap_nil, List.append_nil]
  cases l with
  | serve k ok =>
    obtain ⟨task, _, hserved⟩ := serve_served hs
    exact hsame (rows_serve hserved)
  | deliver k => exact rows_deliver h hs
  | openVote email UUID => cases hs; exact .refl
  | voteWillAppear view =>
    obtain ⟨v, _, rfl⟩ := step_voteWillAppear hs
    refine hsame (rows_congr rfl ?_)
    show (s.net ++ [v.reload view, v.reload view]).filterMap _ = _
    rw [List.filterMap_append]
    exact List.append_nil _
  | tap view row =>
    obtain ⟨v, _, _, rfl⟩ := step_tap hs
    exact hsame (rows_congr rfl (hjoin rfl))
  | openMain email =>
    cases hs
    refine hsame (congrArg₂ Rows.mk ?_ rfl)
    show (((s.mains ++ [_])[main]?).map MainView.itemsDtc).getD [] = _
    unfold System.itemsDtc
    by_cases hlt : main < s.mains.length
    · rw [List.getElem?_append_left hlt]
    · rw [List.getElem?_append_right (Nat.le_of_not_lt hlt),
        List.getElem?_eq_none (Nat.le_of_not_lt hlt)]
      cases main - s.mains.length <;> rfl
  | mainWillAppear main' =>
    obtain ⟨m, hm, _, rfl⟩ := step_mainWillAppear hs
    let t : System := { s with mains := s.mains.set main' { m with appeared := true } }
    have hset : t.rows main = s.rows main := rows_set hm rfl
    have hread : (t.perform (readDataBase main' m.emailString)).rows main = t.rows main :=
      rows_congr rfl (hjoin rfl)
    exact hsame (hread.trans hset)
  | mainWillDisappear main' =>
    obtain ⟨m, hm, _, rfl⟩ := step_mainWillDisappear hs
    let t : System := { s with mains := s.mains.set main' { m with appeared := false } }
    have hset : t.rows main = s.rows main := rows_set hm rfl
    rw [← hset]
    show Relation.ReflTransGen _ (t.rows main) ((t.perform (.items main' [])).rows main)
    rw [rows_perform_items]
    by_cases hmain : main' = main ∧ main < t.mains.length
    · rw [if_pos hmain]
      exact .single ⟨.itemsDeleteAll, rfl⟩
    · rw [if_neg hmain]
      exact .refl
  | deleteRow main' row =>
    obtain ⟨m, dtc, hm, hrow, _, rfl⟩ := step_deleteRow hs
    by_cases hmain : main' = main
    · subst hmain
      have hitems : s.itemsDtc main' = m.itemsDtc := by
        unfold System.itemsDtc
        rw [hm]; rfl
      have hget : subscript (s.itemsDtc main') (row : Int) = .ok dtc := by
        rw [hitems]
        exact subscript_eq_ok.mpr ⟨Int.natCast_nonneg row, hrow⟩
      refine .single ⟨.itemsDelete row, ?_⟩
      have hget : subscript (s.rows main').itemsDtc (row : Int) = .ok dtc := hget
      simp only [Rows.step, hget]
      refine congrArg (fun p => some (Rows.mk (s.itemsDtc main') p)) ?_
      have hpending : (Task.delete dtc.UUID (.itemsDelete main' row dtc.UUID)).pendingDelete main'
          = some ((row : Int), dtc.UUID) := if_pos rfl
      show _ = (s.net ++ [_]).filterMap _
      rw [List.filterMap_append, List.filterMap_cons_some hpending]
      rfl
    · exact hsame (rows_congr rfl (hjoin (if_neg hmain)))
  | signUp email =>
    obtain ⟨_, rfl | rfl⟩ := step_signUp hs
    · exact .refl
    · exact hsame (rows_congr rfl (hjoin rfl))
  | addNewVote title description voteDate uuid items cellForRow =>
    obtain ⟨_, _, _, _, rfl⟩ := step_addNewVote hs
    exact hsame (rows_congr rfl (hjoin rfl))
  | setUserRole email role =>
    obtain ⟨db, _, rfl⟩ := step_setUserRole hs
    exact .refl

/-- **The list of every main screen goes through a run of `Rows`.** -/
theorem rows_run {ls : List Label} (hrun : System.Run .initial ls s) (main : Nat) :
    Relation.ReflTransGen (Rows.Follows main) ⟨[], []⟩ (s.rows main) := by
  obtain ⟨size, _, hsize⟩ := exists_size hrun fun _ => 0
  exact Machine.exec_simulates System.step (System.rows main) (P := Sound size) (A := SizeOk size)
    (fun _ _ _ h hl hs => ⟨step_sound h hl hs, rows_step h hs⟩) hsize hrun sound_initial

end

end VoteOnOffice
