import VoteOnOffice.Devices.InSystem
import VoteOnOffice.Screens.AddVote
import VoteOnOffice.Screens.Rows

/-!
# Where the app crashes

A closure that traps or raises an exception has no step.

* `pending_nonneg`     a delete in flight has captured the number of a row;
* `traps_iff`          of the closures that read the database only the one of `itemsDelete` traps, when
                       the list has become too short for its row;
* `composes_none_iff`  saving a vote traps when a row has no cell;
* `not_completes_iff`  the closure of `createUser` raises an exception when `document(_:)` does not take
                       the e-mail, and that of a sign-in or a sign-up when the login it writes is stored;
* `crash_iff`          **no other closure crashes, on no device and in no reachable state.**
-/

namespace VoteOnOffice

/-! ## closures of the view models -/

theorem pending_nonneg {main : Nat} {r : Rows}
    (h : Relation.ReflTransGen (Rows.Follows main) ⟨[], []⟩ r) : ∀ p ∈ r.pending, 0 ≤ p.1 := by
  induction h with
  | refl => exact fun p hp => absurd hp List.not_mem_nil
  | @tail r u _ hstep ih =>
    obtain ⟨e, he⟩ := hstep
    cases e with
    | itemsDelete index =>
      cases hdtc : subscript r.itemsDtc index with
      | error _ => simp only [Rows.step, hdtc] at he; cases he
      | ok dtc =>
        simp only [Rows.step, hdtc] at he
        cases he
        intro p hp
        rcases List.mem_append.mp hp with hp | hp
        · exact ih p hp
        · rw [List.mem_singleton.mp hp]
          exact (subscript_eq_ok.mp hdtc).1
    | completed k error =>
      cases hk : r.pending[k]? with
      | none => simp only [Rows.step, hk] at he; cases he
      | some q =>
        cases hes : itemsDeleteClosure main q.1 r.itemsDtc ⟨none, error⟩ with
        | error _ => simp only [Rows.step, hk, hes] at he; cases he
        | ok es =>
          simp only [Rows.step, hk, hes] at he
          cases he
          exact fun p hp => ih p (List.mem_of_mem_eraseIdx hp)
    | appended dtc => cases he; exact ih
    | itemsDeleteAll => cases he; exact ih

theorem subscript_error_iff {α : Type} {array : List α} {row : Nat} :
    (∃ e, subscript array (row : Int) = .error e) ↔ array.length ≤ row := by
  cases h : subscript array (row : Int) with
  | ok x =>
    obtain ⟨hlt, _⟩ := List.getElem?_eq_some_iff.mp (subscript_eq_ok.mp h).2
    simp only [reduceCtorEq, exists_false, false_iff, not_le]
    omega
  | error e =>
    refine iff_of_true ⟨e, rfl⟩ ?_
    by_contra hlt
    have hrow : (row : Int) < array.length := by omega
    obtain ⟨x, hx⟩ := subscript_ok (Int.natCast_nonneg row) hrow
    rw [h] at hx
    cases hx

theorem traps_iff {s : System} {ls : List Label} (hrun : System.Run .initial ls s) {r : Reply}
    {cb : Callback} (h : .reply r cb ∈ s.net) : (∃ e, cb.run s.itemsDtc r = .error e) ↔
      ∃ main V, ∃ row : Nat, cb = .itemsDelete main row V ∧ r.error = false ∧
        (s.itemsDtc main).length ≤ row := by
  cases hdel : cb.isDelete with
  | false =>
    obtain ⟨size, hsound⟩ := run_sound hrun
    have htask : InFlightOk size s.screens (.reply r cb) := hsound.net _ h
    obtain ⟨es, hes, _⟩ := run_safe htask.2 htask.1 hdel s.itemsDtc
    constructor
    · rintro ⟨e, he⟩
      rw [hes] at he
      cases he
    · rintro ⟨main, V, row, rfl, _⟩
      cases hdel
  | true =>
    cases cb with
    | itemsDelete main index V =>
      have hmem : (index, V) ∈ (s.rows main).pending :=
        List.mem_filterMap.mpr ⟨_, h, by rw [pendingDelete_reply, if_pos rfl]⟩
      obtain ⟨row, rfl⟩ := Int.eq_ofNat_of_zero_le (pending_nonneg (rows_run hrun main) _ hmem)
      have hclosure : (∃ e, Callback.run s.itemsDtc r (.itemsDelete main row V) = .error e) ↔
          r.error = false ∧ ∃ e, subscript (s.itemsDtc main) (row : Int) = .error e := by
        show (∃ e, itemsDeleteClosure main row (s.itemsDtc main) r = .error e) ↔ _
        unfold itemsDeleteClosure
        cases r.error with
        | true => simp
        | false => cases subscript (s.itemsDtc main) (row : Int) <;> simp
      rw [hclosure, subscript_error_iff]
      constructor
      · rintro ⟨hr, hlen⟩
        exact ⟨main, V, row, rfl, hr, hlen⟩
      · rintro ⟨_, _, row', heq, hr, hlen⟩
        cases heq
        exact ⟨hr, hlen⟩
    | _ => cases hdel

/-! ## the world -/

section
variable {count : String → Nat} {n : Nat} {ls : List WorldLabel} {w : World} {d : Device}

theorem deliver_none_iff {s : System} {k : Nat} {r : Reply} {cb : Callback}
    (hk : s.net[k]? = some (.reply r cb)) :
    s.deliver k = none ↔ ∃ e, cb.run s.itemsDtc r = .error e := by
  unfold System.deliver
  rw [hk]
  cases h : cb.run s.itemsDtc r <;> simp [h]

theorem composes_none_iff {i add : Nat} {vm : AddVoteViewModel}
    {title description voteDate uuid : String} {cellForRow : Int → Option String}
    (hd : w.devices[i]? = some d) (hadd : d.adds[add]? = some vm) (hnew : uuid ∉ w.system.uuids) :
    w.step count (.act i (.addNewVote add title description voteDate uuid cellForRow)) = none ↔
      ∃ row : Nat, row < vm.items.length ∧ cellForRow row = none := by
  cases hv : vm.variantsArray cellForRow with
  | error e =>
    refine iff_of_true ?_ ?_
    · simp [World.step, hd, Device.act, hadd, hv, Except.toOption]
    · by_contra hno
      have hcells : ∀ row < vm.items.length,
          cellForRow (row : Int) = some ((cellForRow row).getD "") := by
        intro row hrow
        cases htext : cellForRow row with
        | none => exact absurd ⟨row, hrow, htext⟩ hno
        | some text => rfl
      rw [variantsArray_ok hcells] at hv
      cases hv
  | ok x =>
    have hcells := variantsArray_cells hv
    refine iff_of_false ?_ ?_
    · rw [AddVoteViewModel.variantsArray_eq] at hv
      cases hitems : variantsArray vm.items cellForRow with
      | error e => rw [hitems] at hv; cases hv
      | ok y =>
        simp [World.step, hd, Device.act, hadd, Except.toOption, AddVoteViewModel.variantsArray_eq,
          hitems, Except.map, System.step, hnew]
    · rintro ⟨row, hrow, hnone⟩
      obtain ⟨text, htext⟩ := hcells row hrow
      rw [hnone] at htext
      cases htext

theorem not_completes_iff {c : Completion} {error : Bool} {realm : Realm} :
    ¬c.Completes error realm ↔
      (∃ email password switchRemember, c = .createUser email password switchRemember ∧
        error = false ∧ documentWithPath email = none) ∨
      ∃ o, c.writes error = some o ∧ o.login ∈ realm.map RememberData.login := by
  have hwrites : (¬∀ o ∈ c.writes error, o.login ∉ realm.map RememberData.login) ↔
      ∃ o, c.writes error = some o ∧ o.login ∈ realm.map RememberData.login := by
    simp only [not_forall, not_not, Option.mem_def, exists_prop]
  rw [completes_iff, not_and_or, hwrites]
  refine or_congr_left ?_
  cases c with
  | createUser email password switchRemember =>
    cases error with
    | true => simp [Completion.requests]
    | false => simp [Completion.requests, Completion.addressed]
  | _ => simp [Completion.requests]

/-- **Nothing else crashes:** no other closure, on no device and in no reachable state. -/
theorem crash_iff (hrun : World.Run count (.initial n) ls w) :
    (∀ k r cb, w.system.net[k]? = some (.reply r cb) →
      (w.step count (.cloud (.deliver k)) = none ↔ ∃ main V, ∃ row : Nat,
        cb = .itemsDelete main row V ∧ r.error = false ∧ (w.system.itemsDtc main).length ≤ row)) ∧
    (∀ i (d : Device) k c error, w.devices[i]? = some d → d.net[k]? = some (.answer c error) →
      d.admits (.deliver k) = true →
      (w.step count (.sign i (.deliver k)) = none ↔
        (∃ email password switchRemember, c = .createUser email password switchRemember ∧
          error = false ∧ documentWithPath email = none) ∨
        ∃ o, c.writes error = some o ∧ o.login ∈ d.realm.map RememberData.login) ∧
      (w.step count (.sign i (.deliver k)) = none ↔ w.step count (.crash i k) ≠ none)) ∧
    ∀ i (d : Device) add vm title description voteDate uuid cellForRow, w.devices[i]? = some d →
      d.adds[add]? = some vm → uuid ∉ w.system.uuids →
      (w.step count (.act i (.addNewVote add title description voteDate uuid cellForRow)) = none ↔
        ∃ row : Nat, row < vm.items.length ∧ cellForRow row = none) := by
  refine ⟨fun k r cb hk => ?_, fun i d k c error hd hk hadmits => ?_, ?_⟩
  · obtain ⟨ls', y, hmatched⟩ := exists_matched hrun
    obtain ⟨net, rfl, hperm⟩ := hmatched.rel
    have hmem : .reply r cb ∈ net :=
      hperm.mem_iff.mpr (List.mem_append_left _ (List.mem_of_getElem? hk))
    have htraps := traps_iff hmatched.exec.2 hmem
    have hstep : w.step count (.cloud (.deliver k)) = none ↔ w.system.deliver k = none := by
      show Option.map _ (w.system.deliver k) = none ↔ _
      exact Option.map_eq_none_iff
    rw [hstep, deliver_none_iff hk]
    exact htraps
  · have hstep : w.step count (.sign i (.deliver k)) = none ↔
        (d.session w.system).deliver k = none := by
      show (w.devices[i]?).bind (fun d => ((d.session w.system).deliver k).bind fun s =>
        if d.admits (.deliver k) = true then
          some (w.put i (d.next (.deliver k) s) (w.system.put s)) else none) = none ↔ _
      rw [hd, Option.bind_some]
      cases (d.session w.system).deliver k <;> simp [hadmits]
    have hcrash : w.step count (.crash i k) ≠ none ↔ ∃ d', d.crashed w.system k = some d' := by
      show (w.devices[i]?).bind (fun d => (d.crashed w.system k).bind fun d' =>
        some (w.put i (d'.restarted w.system) w.system)) ≠ none ↔ _
      rw [hd, Option.bind_some]
      cases d.crashed w.system k <;> simp
    rw [hstep, hcrash, Device.deliver_none_iff hk]
    refine ⟨not_completes_iff, fun h => ?_, ?_⟩
    · exact ⟨_, Device.crashed_eq_some.mpr ⟨c, error, hk, h, hadmits, rfl⟩⟩
    · rintro ⟨d', hd'⟩
      obtain ⟨c', error', hk', h, _⟩ := Device.crashed_eq_some.mp hd'
      cases hk.symm.trans hk'
      exact h
  · intro i d add vm title description voteDate uuid cellForRow hd hadd hnew
    exact composes_none_iff hd hadd hnew

end

/-! ## a run -/

/-- `alice` signs up and then in, both times with the switch on -/
def rememberedTwice : List WorldLabel :=
  [.sign 0 (.signUp "alice@x.y" "secret1" true), .sign 0 (.serve 0 true), .updateCurrentUser 0 0,
    .sign 0 (.deliver 0), .sign 0 (.signIn "alice@x.y" "secret1" true), .sign 0 (.serve 1 true),
    .updateCurrentUser 0 0]

theorem crash_iff_rememberedTwice :
    (World.after 1 rememberedTwice).step String.length (.sign 0 (.deliver 1)) = none ∧
      (World.after 1 rememberedTwice).step String.length (.crash 0 1) ≠ none := by
  obtain ⟨hraises, hcrash⟩ := (crash_iff (run_world (n := 1) rememberedTwice (by decide))).2.1 0
    _ 1 (.signIn "alice@x.y" "secret1" true) false rfl rfl rfl
  have hnone := hraises.mpr (.inr ⟨⟨"alice@x.y", "secret1"⟩, rfl, List.mem_singleton_self _⟩)
  exact ⟨hnone, hcrash.mp hnone⟩

end VoteOnOffice
