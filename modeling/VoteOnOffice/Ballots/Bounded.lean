import Mathlib.Algebra.BigOperators.Group.List.Basic
import VoteOnOffice.Records.Shown
import VoteOnOffice.Taps.Replay

/-!
# Counters stay within the number of taps

* `Within n array`     no counter of the array is further from 0 than `n`;
* `tapCount a V ls`    how often rows of the vote were tapped;
* `System.written`     how many writes of the vote's counters have been served;
* `step_counted`, `run_counted`
                       a tap leads to one such write at most;
* `stored_within`      a write goes one further than a content of the document at most;
* `counters_within`    **so no counter that is stored, about to be stored or shown is further from 0 than
                       the number of taps on its vote**, in every run with every failure.
-/

namespace VoteOnOffice
open Lineage

def Within (n : Nat) (array : List Record) : Prop :=
  ∀ i c, statusAt array i = some c → -(n : Int) ≤ c ∧ c ≤ n

/-- how often a row of the vote was tapped, on screens with these addresses -/
def tapCount (a : Addresses) (V : String) (ls : List Label) : Nat :=
  ls.countP fun
    | .tap view _ => decide ((a.views[view]?).map Prod.snd = some V)
    | _ => false

def System.written (s : System) (V : String) : Nat := (writers (logOf V s.votesLog)).length

def Callback.mayCount (V : String) : Callback → Nat
  | .tabOnCell t => one (t.UUID = V)
  | .voteFirst t => one (t.UUID = V)
  | .voteSecond t _ _ => one (t.UUID = V)
  | _ => 0

/-- the writes of the vote's counters that a request or an answer can still lead to -/
def Task.mayCount (V : String) : Task → Nat
  | .read _ k => k.mayCount V
  | .reply _ k => k.mayCount V
  | .update _ _ .votes document _ _ => one (document = V)
  | _ => 0

/-! ## arrays -/

theorem Within.mono {n m : Nat} {array : List Record} (h : Within n array) (hn : n ≤ m) :
    Within m array := by
  intro i c hc
  have := h i c hc
  omega

theorem Within.count {n : Nat} {array array' : List Record} {p : Path} {index : Int}
    (h : Within n array) (hc : p.count index array = .ok array') : Within (n + 1) array' := by
  intro i c hi
  cases p with
  | first =>
    rw [statusAt_firstCount hc] at hi
    split at hi
    · obtain ⟨c₀, hc₀, rfl⟩ := Option.map_eq_some_iff.mp hi
      have := h i c₀ hc₀
      omega
    · have := h i c hi
      omega
  | second extraIndex =>
    rw [statusAt_secondCount hc] at hi
    split at hi
    · have := h _ c hi
      omega
    · split at hi
      · obtain ⟨c₀, hc₀, rfl⟩ := Option.map_eq_some_iff.mp hi
        have := h i c₀ hc₀
        omega
      · have := h i c hi
        omega

theorem within_nil (n : Nat) : Within n [] := by
  intro i c hc
  cases hc

theorem within_new {items items' : List Int} {cellForRow : Int → Option String}
    {variants : List Record} (h : variantsArray items cellForRow = .ok (items', variants)) (n : Nat) :
    Within n variants := by
  intro i c hc
  obtain ⟨r, hr, hstatus⟩ := Option.bind_eq_some_iff.mp hc
  obtain ⟨id, text, rfl⟩ := variantsArray_variants h r (List.mem_of_getElem? hr)
  obtain rfl : 0 = c := Option.some.inj hstatus
  omega

/-! ## weights -/

section
variable {V : String}

theorem weigh_eq_zero {w : Task → Nat} {l : List Task} (h : ∀ x ∈ l, w x = 0) : weigh w l = 0 :=
  List.sum_eq_zero (List.forall_mem_map.mpr h)

theorem emits_mayCount {k : Callback} {itemsDtc : Nat → List DataVoteCell} {r : Reply} {e : Effect}
    {task : Task} (h : k.Emits itemsDtc r e) (hk : k.isTap = false) (ha : e.asks = some task) :
    task.mayCount V = 0 := by
  cases h with
  | asks hk' _ => rw [hk] at hk'; cases hk'
  | writes hk' => rw [hk] at hk'; cases hk'
  | user => cases ha; rfl
  | vote _ _ => cases ha; rfl
  | _ => cases ha

/-- **A closure passes the right to count on, at most**, if it is called with one document. -/
theorem run_mayCount {k : Callback} {itemsDtc : Nat → List DataVoteCell} {r : Reply}
    {es : List Effect} (h : k.run itemsDtc r = .ok es)
    (hone : k.isTap = true → ∀ ds, r.snapshot = some ds → ds.length ≤ 1) :
    weigh (Task.mayCount V) (es.filterMap Effect.asks) ≤ k.mayCount V := by
  have hvote : ∀ {p : Path} {t : Tap} {arrays : List Record}, voteClosure p t arrays r = .ok es →
      k.isTap = true → weigh (Task.mayCount V) (es.filterMap Effect.asks) ≤ one (t.UUID = V) := by
    intro p t arrays h hk
    rcases Reply.withDocuments_eq_ok.mp h with ⟨_, rfl⟩ | ⟨_, ds, hds, h⟩
    · exact Nat.zero_le _
    obtain ⟨writes, hwrites, h⟩ := bind_eq_ok.mp h
    cases h
    match ds, hone hk ds hds with
    | [], _ =>
      cases hwrites
      exact Nat.zero_le _
    | [d], _ =>
      rw [forDocuments_singleton] at hwrites
      obtain ⟨array, array', _, _, rfl⟩ := voteRound_eq_ok.mp hwrites
      cases p <;> exact Nat.le_refl _
  cases k with
  | tabOnCell t =>
    have h : tabOnCellClosure t r = .ok es := h
    rw [tabOnCellClosure_eq] at h
    rcases Reply.withDocuments_eq_ok.mp h with ⟨_, rfl⟩ | ⟨_, ds, hds, h⟩
    · exact Nat.zero_le _
    match ds, hone rfl ds hds with
    | [], _ =>
      cases h
      exact Nat.zero_le _
    | [d], _ =>
      rw [forDocuments_singleton] at h
      obtain ⟨arrays, p, _, _, rfl⟩ := tabOnCellRound_eq_ok.mp h
      cases p <;> simp [Path.call, voteFirst, voteSecond, Effect.asks, Task.mayCount, Callback.mayCount]
  | voteFirst t =>
    have h : voteClosure .first t [] r = .ok es := h
    exact hvote h rfl
  | voteSecond t arrays extraIndex => exact hvote (p := .second extraIndex) h rfl
  | _ =>
    refine Nat.le_of_eq (weigh_eq_zero fun task ht => ?_)
    obtain ⟨e, he, hasks⟩ := List.mem_filterMap.mp ht
    exact emits_mayCount (run_emits h he) rfl hasks

theorem performAll_mayCount (s : System) (es : List Effect) :
    weigh (Task.mayCount V) (s.performAll es).net =
      weigh (Task.mayCount V) s.net + weigh (Task.mayCount V) (es.filterMap Effect.asks) := by
  induction es generalizing s with
  | nil => rfl
  | cons e es ih =>
    show weigh _ ((s.perform e).performAll es).net = _
    rw [ih]
    show weigh _ (s.net ++ s.newTasks e) + _ = _
    rw [weigh_append, List.filterMap_cons]
    cases e with
    | selectRow view row =>
      have hzero : weigh (Task.mayCount V) (s.newTasks (.selectRow view row)) = 0 := by
        refine weigh_eq_zero fun task ht => ?_
        rcases mem_newTasks ht with h | ⟨_, _, _, rfl⟩
        · cases h
        · rfl
      rw [hzero]
      rfl
    | getDocuments q k => exact Nat.add_assoc _ _ _
    | updateData t p c document f v => exact Nat.add_assoc _ _ _
    | _ => rfl

/-! ## one step -/

variable {s u : System} {l : Label}

theorem tapCount_tap {view row : Nat} {v : VoteView} {a : Addresses}
    (h : a.views[view]? = some (v.emailString, v.UUID)) :
    tapCount a V [.tap view row] = one (v.UUID = V) := by
  simp only [tapCount, one, List.countP_singleton, h, Option.map_some, Option.some.injEq,
    decide_eq_true_eq]

theorem writers_votesRead (k : Callback) : writers (logOf V k.votesRead) = [] := by
  have hread : ∀ (document : String) (x : Tap × Path),
      writers (logOf V [(document, .read x)]) = [] := by
    intro document x
    by_cases h : document = V
    · rw [h, logOf_self]
      rfl
    · rw [logOf_ne h]
      rfl
  cases k with
  | voteFirst t => exact hread _ _
  | voteSecond t arrays extraIndex => exact hread _ _
  | _ => rfl

theorem writers_votesWrite (t : Tap) (p : Path) (c : CollectionId) (document : String) (f : Field)
    (v : Value) : (writers (logOf V (votesWrite t p c document))).length =
      Task.mayCount V (.update t p c document f v) := by
  cases c with
  | users => rfl
  | votes =>
    show (writers (logOf V [(document, .write (t, p))])).length = one (document = V)
    by_cases h : document = V
    · rw [h, logOf_self]
      simp [one]
    · rw [logOf_ne h]
      simp [one, h]

theorem mayCount_isDelete {k : Callback} (hk : k.isDelete = true) : k.mayCount V = 0 := by
  cases k with
  | itemsDelete main index UUID => rfl
  | _ => cases hk

theorem served_counted {task : Task} {ok : Bool} (h : Served s task ok u)
    (hdelete : ∀ document k, .delete document k ∈ s.net → k.isDelete = true) :
    s.written V ≤ u.written V ∧ u.written V + weigh (Task.mayCount V) u.net ≤
      s.written V + weigh (Task.mayCount V) s.net := by
  cases h with
  | @read _ _ q k hnet =>
    simp only [System.written, logOf_append, writers_append, writers_votesRead, List.append_nil, hnet,
      weigh_middle, Task.mayCount, Nat.le_refl, and_self]
  | @update _ _ t p c document f v db hnet _ =>
    simp only [System.written, logOf_append, writers_append, List.length_append, hnet, weigh_middle,
      writers_votesWrite t p c document f v]
    omega
  | readFails hnet =>
    simp only [System.written, hnet, weigh_middle, Task.mayCount, Nat.le_refl, and_self]
  | updateFails hnet _ =>
    simp only [System.written, hnet, weigh_middle]
    omega
  | set hnet =>
    simp only [System.written, hnet, weigh_middle]
    omega
  | setFails hnet =>
    simp only [System.written, hnet, weigh_middle]
    omega
  | @delete _ _ document k hnet =>
    have hzero := mayCount_isDelete (V := V) (hdelete document k (by simp [hnet]))
    simp only [System.written, hnet, weigh_middle, Task.mayCount, hzero, Nat.le_refl, and_self]
  | @deleteFails _ _ document k hnet =>
    have hzero := mayCount_isDelete (V := V) (hdelete document k (by simp [hnet]))
    simp only [System.written, hnet, weigh_middle, Task.mayCount, hzero, Nat.le_refl, and_self]

/-- **A step counts with a right that it uses up**, and only a tap gives one. -/
theorem step_counted (hs : s.step l = some u)
    (hdelete : ∀ document k, .delete document k ∈ s.net → k.isDelete = true)
    (hone : ∀ r k, .reply r k ∈ s.net → k.isTap = true →
      ∀ ds, r.snapshot = some ds → ds.length ≤ 1) :
    s.written V ≤ u.written V ∧ u.written V + weigh (Task.mayCount V) u.net ≤
      s.written V + weigh (Task.mayCount V) s.net + tapCount u.addresses V [l] := by
  have hsame : u.written V = s.written V →
      weigh (Task.mayCount V) u.net ≤ weigh (Task.mayCount V) s.net + tapCount u.addresses V [l] →
      s.written V ≤ u.written V ∧ u.written V + weigh (Task.mayCount V) u.net ≤
        s.written V + weigh (Task.mayCount V) s.net + tapCount u.addresses V [l] := by
    intro hw hnet
    omega
  have hmore : ∀ {task : Task}, task.mayCount V = 0 →
      weigh (Task.mayCount V) (s.net ++ [task]) ≤
        weigh (Task.mayCount V) s.net + tapCount u.addresses V [l] := by
    intro task hzero
    rw [weigh_append, weigh_cons, hzero]
    exact Nat.le_add_right _ _
  cases l with
  | serve k ok =>
    obtain ⟨task, _, hserved⟩ := serve_served hs
    obtain ⟨hw, hle⟩ := served_counted (V := V) hserved hdelete
    exact ⟨hw, Nat.le_trans hle (Nat.le_add_right _ _)⟩
  | deliver k =>
    obtain ⟨l₁, l₂, r, cb, es, hnet, hrun, rfl⟩ := deliver_delivered hs
    have hcount := run_mayCount (V := V) hrun (hone r cb (by simp [hnet]))
    refine hsame (performAll_keeps (fun s => s.written V) (fun _ _ => rfl) _ es) ?_
    rw [performAll_mayCount, hnet, weigh_middle]
    show weigh _ (l₁ ++ l₂) + _ ≤ cb.mayCount V + _ + _
    omega
  | tap view row =>
    obtain ⟨v, hv, _, rfl⟩ := step_tap hs
    refine hsame rfl ?_
    show weigh _ (s.net ++ [_]) ≤ _
    rw [tapCount_tap (v := v) (by rw [addresses_perform]; exact address_view hv), weigh_append]
    exact Nat.le_refl _
  | openVote email UUID =>
    cases hs
    exact hsame rfl (Nat.le_add_right _ _)
  | voteWillAppear view =>
    obtain ⟨v, _, rfl⟩ := step_voteWillAppear hs
    refine hsame rfl ?_
    rw [weigh_append]
    exact Nat.le_add_right _ _
  | openMain email =>
    cases hs
    exact hsame rfl (Nat.le_add_right _ _)
  | mainWillAppear main =>
    obtain ⟨m, _, _, rfl⟩ := step_mainWillAppear hs
    exact hsame rfl (hmore rfl)
  | mainWillDisappear main =>
    obtain ⟨m, _, _, rfl⟩ := step_mainWillDisappear hs
    refine hsame rfl ?_
    show weigh _ (s.net ++ []) ≤ _
    rw [List.append_nil]
    exact Nat.le_add_right _ _
  | deleteRow main row =>
    obtain ⟨m, dtc, _, _, _, rfl⟩ := step_deleteRow hs
    exact hsame rfl (hmore rfl)
  | signUp email =>
    obtain ⟨_, rfl | rfl⟩ := step_signUp hs
    · exact hsame rfl (Nat.le_add_right _ _)
    · exact hsame rfl (hmore rfl)
  | addNewVote title description voteDate uuid items cellForRow =>
    obtain ⟨_, _, _, _, rfl⟩ := step_addNewVote hs
    exact hsame rfl (hmore rfl)
  | setUserRole email role =>
    obtain ⟨db, _, rfl⟩ := step_setUserRole hs
    exact hsame rfl (Nat.le_add_right _ _)

theorem System.Does.counts {t : Tap} {p : Path} {f : Field} {v : Value}
    (h : s.Does l (.updateData t p .votes V f v)) : ∃ k r ds d array array',
      .reply r k ∈ s.net ∧ (∀ a : Addresses, k.query a = some (.votesWhere V)) ∧
      r.snapshot = some ds ∧ d ∈ ds ∧ d .voteVariants = some (.records array) ∧
      p.count t.index array = .ok array' ∧ f = .voteVariants ∧ v = .records array' := by
  cases h with
  | @closure _ r cb es _ hnet hrun he =>
    have hvote : ∀ {p' : Path} {t' : Tap} {arrays : List Record},
        (∀ a : Addresses, cb.query a = some (.votesWhere t'.UUID)) →
        voteClosure p' t' arrays r = .ok es → ∃ k r ds d array array',
          .reply r k ∈ s.net ∧ (∀ a : Addresses, k.query a = some (.votesWhere V)) ∧
          r.snapshot = some ds ∧ d ∈ ds ∧ d .voteVariants = some (.records array) ∧
          p.count t.index array = .ok array' ∧ f = .voteVariants ∧ v = .records array' := by
      intro p' t' arrays hquery hclosure
      rcases voteClosure_mem hclosure he with h | ⟨ds, hds, d, hd, array, array', ha, hc, he⟩
      · cases h
      · cases p' with
        | first =>
          cases List.mem_singleton.mp he
          exact ⟨cb, r, ds, d, array, array', hnet, hquery, hds, hd, ha, hc, rfl, rfl⟩
        | second row =>
          rcases List.mem_cons.mp he with h | h
          · cases h
            exact ⟨cb, r, ds, d, array, array', hnet, hquery, hds, hd, ha, hc, rfl, rfl⟩
          · cases List.mem_singleton.mp h
    cases cb with
    | tabOnCell t' =>
      have hrun : tabOnCellClosure t' r = .ok es := hrun
      rw [tabOnCellClosure_eq] at hrun
      obtain ⟨ds, _, d, _, es', hround, he⟩ := withDocuments_forDocuments_mem hrun he
      obtain ⟨arrays, p', _, _, rfl⟩ := tabOnCellRound_eq_ok.mp hround
      cases p' <;> simp [Path.call, voteFirst, voteSecond] at he
    | voteFirst t' =>
      have hrun : voteClosure .first t' [] r = .ok es := hrun
      exact hvote (fun _ => rfl) hrun
    | voteSecond t' arrays extraIndex =>
      have hrun : voteClosure (.second extraIndex) t' arrays r = .ok es := hrun
      exact hvote (fun _ => rfl) hrun
    | _ =>
      cases run_emits hrun he with
      | writes hk => cases hk

end

/-! ## whole runs -/

section
variable {ls : List Label} {s u : System} {l : Label} {V : String}

theorem tapCount_concat (hrun : System.Run .initial ls s) (hs : s.step l = some u) :
    tapCount u.addresses V (ls ++ [l]) = tapCount s.addresses V ls + tapCount u.addresses V [l] := by
  unfold tapCount
  rw [List.countP_append]
  congr 1
  refine List.countP_congr fun x hx => ?_
  cases x with
  | tap view row =>
    obtain ⟨a, b, rfl⟩ := List.append_of_mem hx
    obtain ⟨t, _, hb⟩ := (Machine.exec_append_eq_some System.step).mp hrun
    obtain ⟨t', ht', hrest⟩ := (Machine.exec_cons System.step).mp hb
    obtain ⟨v, hv, _, _⟩ := step_tap ht'
    have hview := (run_grows hb).views view _ (address_view hv)
    simp only [hview, (step_grows hs).views view _ hview]
  | _ => exact Iff.rfl

section
variable (hrun : System.Run .initial ls s)
include hrun

theorem tap_answered {r : Reply} {k : Callback} (h : .reply r k ∈ s.net) (hk : k.isTap = true)
    {ds : List Document} (hds : r.snapshot = some ds) : ds.length ≤ 1 := by
  obtain ⟨a, b, t, q, _, ht, _, _, hq, _, rfl⟩ := answered hrun h hds
  have hkeyed := run_wellKeyed ht
  cases k with
  | tabOnCell x =>
    cases hq
    rw [hkeyed.find_user]
    exact Option.length_toList_le
  | voteFirst x =>
    cases hq
    rw [hkeyed.find_vote]
    exact Option.length_toList_le
  | voteSecond x arrays extraIndex =>
    cases hq
    rw [hkeyed.find_vote]
    exact Option.length_toList_le
  | _ => cases hk

theorem delete_asked {document : String} {k : Callback} (h : .delete document k ∈ s.net) :
    k.isDelete = true := ((traced_here hrun).net _ h).1

theorem run_counted (V : String) :
    s.written V + weigh (Task.mayCount V) s.net ≤ tapCount s.addresses V ls := by
  induction ls using List.reverseRecOn generalizing s with
  | nil =>
    cases hrun
    exact Nat.zero_le _
  | append_singleton ls l ih =>
    obtain ⟨t, ht, hs⟩ := (Machine.exec_concat System.step).mp hrun
    have hold := ih ht
    have hstep := (step_counted (V := V) hs (fun _ _ h => delete_asked ht h)
      fun _ _ h hk _ hds => tap_answered ht h hk hds).2
    rw [tapCount_concat ht hs]
    omega

theorem written_mono {b : List Label} (hb : System.Run s b u) (V : String) :
    s.written V ≤ u.written V := by
  induction b using List.reverseRecOn generalizing u with
  | nil =>
    cases hb
    exact Nat.le_refl _
  | append_singleton b l ih =>
    obtain ⟨t, ht, hs⟩ := (Machine.exec_concat System.step).mp hb
    have hrun' : System.Run .initial (ls ++ b) t :=
      (Machine.exec_append_eq_some System.step).mpr ⟨s, hrun, ht⟩
    exact Nat.le_trans (ih ht) (step_counted hs (fun _ _ h => delete_asked hrun' h)
      fun _ _ h hk _ hds => tap_answered hrun' h hk hds).1

theorem update_copy {t : Tap} {p : Path} {f : Field} {v : Value}
    (h : .update t p .votes V f v ∈ s.net) : ∃ a b z d array array', ls = a ++ b ∧
      System.Run .initial a z ∧ System.Run z b s ∧ z.db.votes.lookup V = some d ∧
      d .voteVariants = some (.records array) ∧ p.count t.index array = .ok array' ∧
      f = .voteVariants ∧ v = .records array' := by
  obtain ⟨a, m, b, y, rfl, hy, hdoes⟩ := update_asked hrun h
  obtain ⟨k, r, ds, d, array, array', hreply, hquery, hds, hd, ha, hcount, hf, hv⟩ := hdoes.counts
  obtain ⟨a', b', z, q, rfl, hz, hzy, _, hq, _, rfl⟩ := answered hy hreply hds
  rw [hquery, Option.some.injEq] at hq
  subst hq
  rw [(run_wellKeyed hz).find_vote, Option.mem_toList] at hd
  obtain ⟨y', hy', hys⟩ := (Machine.exec_append_eq_some System.step).mp hrun
  cases hy.symm.trans hy'
  exact ⟨a', b' ++ m :: b, z, d, array, array', by simp, hz,
    (Machine.exec_append_eq_some System.step).mpr ⟨y, hzy, hys⟩, hd, ha, hcount, hf, hv⟩

/-- **A write goes one further than a content of the document at most.** -/
theorem stored_within (V : String) {d : Document} {array : List Record}
    (hd : s.db.votes.lookup V = some d) (ha : d .voteVariants = some (.records array)) :
    Within (s.written V) array := by
  suffices h : ∀ d array, s.db.votes.lookup V = some d → d .voteVariants = some (.records array) →
      Within (s.written V) array from h d array hd ha
  refine Machine.exec_prefixes System.step (P := fun _ s => ∀ d array,
    s.db.votes.lookup V = some d → d .voteVariants = some (.records array) →
      Within (s.written V) array) (fun ls s hrun ih => ?_) hrun
  clear hd ha
  intro d array hd ha
  rcases List.eq_nil_or_concat' ls with rfl | ⟨ls', l, rfl⟩
  · cases hrun
    cases hd
  obtain ⟨t, ht, hs⟩ := (Machine.exec_concat System.step).mp hrun
  have hlast : System.Run t [l] s := (Machine.exec_cons System.step).mpr ⟨s, hs, rfl⟩
  have hold : ∀ {d array}, t.db.votes.lookup V = some d → d .voteVariants = some (.records array) →
      Within (s.written V) array := fun hd ha =>
    (ih ls' [l] t rfl (List.cons_ne_nil _ _) ht _ _ hd ha).mono (written_mono ht hlast V)
  rcases step_db hs with ⟨hdb, _⟩ | ⟨k, ok, task, _, hserved⟩ | ⟨email, role, db, _, hdb, rfl⟩
  · rw [hdb] at hd
    exact hold hd ha
  · cases hserved with
    | @update l₁ l₂ x p c document f v db hnet hdb =>
      obtain ⟨d₀, _, rfl⟩ := updateData_eq_some.mp hdb
      have hstored : ((t.db.setData c document _).get .votes).lookup V = some d := hd
      rw [lookup_setData] at hstored
      by_cases hdoc : c = .votes ∧ document = V
      · rw [if_pos hdoc, Option.some.injEq] at hstored
        obtain ⟨rfl, rfl⟩ := hdoc
        subst hstored
        have hmem : .update x p .votes document f v ∈ t.net := by simp [hnet]
        obtain ⟨a, b, z, d₁, array₁, array', rfl, hz, hrest, hd₁, ha₁, hcount, rfl, rfl⟩ :=
          update_copy ht hmem
        rw [Function.update_self] at ha
        cases ha
        have hcopy := ih a (b ++ [l]) z (by simp) (by simp) hz _ _ hd₁ ha₁
        refine (hcopy.count hcount).mono ?_
        have hmono := written_mono hz hrest document
        have hone := @writers_votesWrite document x p .votes document .voteVariants (.records array)
        simp only [Task.mayCount, one, if_true] at hone
        show _ ≤ (writers (logOf document (t.votesLog ++ _))).length
        rw [logOf_append, writers_append, List.length_append, hone]
        exact Nat.succ_le_succ hmono
      · rw [if_neg hdoc] at hstored
        exact hold hstored ha
    | @set l₁ l₂ c document d' hnet =>
      have hstored : ((t.db.setData c document d').get .votes).lookup V = some d := hd
      rw [lookup_setData] at hstored
      by_cases hdoc : c = .votes ∧ document = V
      · rw [if_pos hdoc, Option.some.injEq] at hstored
        obtain ⟨rfl, rfl⟩ := hdoc
        subst hstored
        have hmem : .set .votes document d' ∈ t.net := by simp [hnet]
        obtain ⟨_, _, _, _, _, _, variants, hv, rfl⟩ := vote_asked ht hmem
        obtain rfl : variants = array := Value.records.inj (Option.some.inj ha)
        exact within_new hv _
      · rw [if_neg hdoc] at hstored
        exact hold hstored ha
    | @delete l₁ l₂ document k hnet =>
      have hstored : ((t.db.delete .votes document).get .votes).lookup V = some d := hd
      rw [lookup_delete] at hstored
      by_cases hdoc : CollectionId.votes = .votes ∧ document = V
      · rw [if_pos hdoc] at hstored
        cases hstored
      · rw [if_neg hdoc] at hstored
        exact hold hstored ha
    | _ => exact hold hd ha
  · obtain ⟨d₀, _, rfl⟩ := updateData_eq_some.mp hdb
    exact hold hd ha

/-- **No counter is further from 0 than the number of taps on its vote**: none that is stored, about to
be stored, or shown. -/
theorem counters_within (V : String) :
    (∀ d array, s.db.votes.lookup V = some d → d .voteVariants = some (.records array) →
      Within (tapCount s.addresses V ls) array) ∧
    (∀ t p f array, .update t p .votes V f (.records array) ∈ s.net →
      Within (tapCount s.addresses V ls) array) ∧
    ∀ v ∈ s.views, v.UUID = V → Within (tapCount s.addresses V ls) v.arr := by
  have hcounted := run_counted hrun V
  have hwritten : s.written V ≤ tapCount s.addresses V ls :=
    Nat.le_trans (Nat.le_add_right _ _) hcounted
  refine ⟨fun d array hd ha => (stored_within hrun V hd ha).mono hwritten,
    fun t p f array h => ?_, fun v hv hV => ?_⟩
  · obtain ⟨a, b, z, d₁, array₁, array', rfl, hz, hrest, hd₁, ha₁, hcount, _, harray⟩ :=
      update_copy hrun h
    cases harray
    refine ((stored_within hz V hd₁ ha₁).count hcount).mono ?_
    have hmono := written_mono hz hrest V
    -- the write itself still counts
    have hone : 1 ≤ weigh (Task.mayCount V) s.net := by
      obtain ⟨l₁, l₂, hnet⟩ := List.append_of_mem h
      rw [hnet, weigh_middle]
      simp only [Task.mayCount, one, if_true]
      omega
    omega
  · by_cases hne : v.arr = []
    · rw [hne]
      exact within_nil _
    · obtain ⟨a, b, t, d, rfl, ht, hd, ha⟩ := arr_stored hrun hv hne
      obtain ⟨t', ht', hb⟩ := (Machine.exec_append_eq_some System.step).mp hrun
      cases ht.symm.trans ht'
      subst hV
      exact (stored_within ht _ hd ha).mono (Nat.le_trans (written_mono ht hb _) hwritten)

end

end

/-- `a` taps again before the first tap has been counted -/
def twoTaps : List Label := tapped ++ [.tap 0 0]

theorem counters_within_twoTaps :
    tapCount (System.after twoTaps).addresses "v" twoTaps = 2 ∧
      ∃ d array, (System.after twoTaps).db.votes.lookup "v" = some d ∧
        d .voteVariants = some (.records array) ∧ Within 2 array := by
  have htwo : tapCount (System.after twoTaps).addresses "v" twoTaps = 2 := by decide
  have hwithin := (counters_within (run_after twoTaps (by decide)) "v").1 _ _ rfl rfl
  rw [htwo] at hwithin
  exact ⟨htwo, _, _, rfl, rfl, hwithin⟩

end VoteOnOffice
