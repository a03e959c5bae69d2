import Mathlib.Data.List.Nodup

/-!
# Registries: tickets handed out one after another

* `Registry T`         elements under their tickets, in the order of the tickets;
* `add`, `drop`, `clear`, `find`
                       the operations; every ticket is handed out once;
* `Op`, `after`        histories of operations;
* `alive`              the elements of a history that nothing after them removes, read off the
                       history alone;
* `live_after`         **they are what is live after it.**
-/

@[ext] structure Registry (T : Type*) where
  /-- the next ticket -/
  next : Nat
  live : List (Nat × T)
  below : ∀ e ∈ live, e.1 < next
  nodup : (live.map Prod.fst).Nodup

namespace Registry

variable {T : Type*}

def empty : Registry T := ⟨0, [], fun _ h => (by cases h), List.nodup_nil⟩

def add (r : Registry T) (x : T) : Registry T where
  next := r.next + 1
  live := r.live ++ [(r.next, x)]
  below := by
    intro e he
    rcases List.mem_append.mp he with he | he
    · exact Nat.lt_succ_of_lt (r.below e he)
    · rw [List.mem_singleton.mp he]
      exact Nat.lt_succ_self _
  nodup := by
    rw [List.map_append, List.map_singleton, List.nodup_append]
    refine ⟨r.nodup, List.nodup_singleton _, fun k hk k' hk' => ?_⟩
    obtain ⟨e, he, rfl⟩ := List.mem_map.mp hk
    rw [List.mem_singleton.mp hk']
    exact Nat.ne_of_lt (r.below e he)

def drop (r : Registry T) (k : Nat) : Registry T where
  next := r.next
  live := r.live.filter fun e => e.1 ≠ k
  below := fun e he => r.below e (List.mem_of_mem_filter he)
  nodup := r.nodup.sublist (List.filter_sublist.map Prod.fst)

def clear (r : Registry T) : Registry T := ⟨r.next, [], fun _ h => (by cases h), List.nodup_nil⟩

def find (r : Registry T) (k : Nat) : Option T := (r.live.find? fun e => e.1 = k).map Prod.snd

@[simp] theorem next_empty : (empty : Registry T).next = 0 := rfl
@[simp] theorem live_empty : (empty : Registry T).live = [] := rfl
@[simp] theorem next_add (r : Registry T) (x : T) : (r.add x).next = r.next + 1 := rfl
@[simp] theorem live_add (r : Registry T) (x : T) : (r.add x).live = r.live ++ [(r.next, x)] := rfl
@[simp] theorem next_drop (r : Registry T) (k : Nat) : (r.drop k).next = r.next := rfl
@[simp] theorem live_drop (r : Registry T) (k : Nat) :
    (r.drop k).live = r.live.filter fun e => e.1 ≠ k := rfl
@[simp] theorem next_clear (r : Registry T) : r.clear.next = r.next := rfl
@[simp] theorem live_clear (r : Registry T) : r.clear.live = [] := rfl

theorem eq_of_mem {r : Registry T} {k : Nat} {x y : T} (hx : (k, x) ∈ r.live)
    (hy : (k, y) ∈ r.live) : x = y :=
  (Prod.mk.inj (List.inj_on_of_nodup_map r.nodup hx hy rfl)).2

theorem find_eq_some {r : Registry T} {k : Nat} {x : T} : r.find k = some x ↔ (k, x) ∈ r.live := by
  unfold find
  rw [Option.map_eq_some_iff]
  constructor
  · rintro ⟨⟨k', x'⟩, he, rfl⟩
    have hk : k' = k := by simpa using List.find?_some he
    exact hk ▸ List.mem_of_find?_eq_some he
  · intro hx
    cases he : r.live.find? fun e => e.1 = k with
    | none => exact absurd (decide_eq_true rfl) (List.find?_eq_none.mp he _ hx)
    | some e =>
      obtain ⟨k', x'⟩ := e
      have hk : k' = k := by simpa using List.find?_some he
      exact ⟨_, rfl, eq_of_mem (hk ▸ List.mem_of_find?_eq_some he) hx⟩

theorem find_eq_none {r : Registry T} {k : Nat} : r.find k = none ↔ ∀ x, (k, x) ∉ r.live := by
  rw [Option.eq_none_iff_forall_ne_some]
  exact forall_congr' fun x => not_congr find_eq_some

theorem drop_eq_self {r : Registry T} {k : Nat} (h : ∀ x, (k, x) ∉ r.live) : r.drop k = r := by
  refine Registry.ext rfl (List.filter_eq_self.mpr fun e he => decide_eq_true ?_)
  rintro rfl
  exact h e.2 he

theorem drop_perm {r : Registry T} {k : Nat} {x : T} {l : List (Nat × T)}
    (h : ((k, x) :: l).Perm r.live) : r.find k = some x ∧ l.Perm (r.drop k).live := by
  refine ⟨find_eq_some.mpr (h.subset List.mem_cons_self), ?_⟩
  have hnodup : (((k, x) :: l).map Prod.fst).Nodup := (h.map Prod.fst).nodup_iff.mpr r.nodup
  have hk := (List.nodup_cons.mp hnodup).1
  have hfilter := h.filter fun e => e.1 ≠ k
  rw [List.filter_cons_of_neg (by simp)] at hfilter
  rwa [List.filter_eq_self.mpr fun e he => decide_eq_true ?_] at hfilter
  rintro rfl
  exact hk (List.mem_map.mpr ⟨e, he, rfl⟩)

/-! ## histories -/

inductive Op (T : Type*) where
  | add (x : T)
  | drop (k : Nat)
  | clear

def step (r : Registry T) : Op T → Registry T
  | .add x => r.add x
  | .drop k => r.drop k
  | .clear => r.clear

def after (r : Registry T) (ops : List (Op T)) : Registry T := ops.foldl step r

def adds : List (Op T) → Nat
  | [] => 0
  | .add _ :: ops => adds ops + 1
  | _ :: ops => adds ops

/-- the operation leaves what has the ticket `k` -/
def Op.spares (k : Nat) : Op T → Bool
  | .add _ => true
  | .drop k' => k ≠ k'
  | .clear => false

/-- what the operations add and do not remove again; the first ticket is `n` -/
def alive : Nat → List (Op T) → List (Nat × T)
  | _, [] => []
  | n, .add x :: ops =>
    if ops.all (Op.spares n) then (n, x) :: alive (n + 1) ops else alive (n + 1) ops
  | n, _ :: ops => alive n ops

@[simp] theorem after_nil (r : Registry T) : r.after [] = r := rfl
@[simp] theorem after_cons (r : Registry T) (op : Op T) (ops : List (Op T)) :
    r.after (op :: ops) = (r.step op).after ops := rfl

/-- **What is live after a history.** -/
theorem live_after (r : Registry T) (ops : List (Op T)) :
    (r.after ops).live = (r.live.filter fun e => ops.all (Op.spares e.1)) ++ alive r.next ops := by
  induction ops generalizing r with
  | nil => simp [alive]
  | cons op ops ih =>
    rw [after_cons, ih]
    cases op with
    | add x =>
      show ((r.live ++ [(r.next, x)]).filter _) ++ alive (r.next + 1) ops = _
      rw [List.filter_append, List.append_assoc]
      congr 1
      show _ = if ops.all (Op.spares r.next) then _ else _
      rw [List.filter_singleton]
      cases ops.all (Op.spares r.next) <;> rfl
    | drop k =>
      show ((r.live.filter fun e => e.1 ≠ k).filter _) ++ alive r.next ops = _
      rw [List.filter_filter]
      congr 1
      refine List.filter_congr fun e _ => ?_
      show (ops.all _ && _) = (_ && ops.all _)
      exact Bool.and_comm ..
    | clear =>
      have hnone : (r.live.filter fun e => (Op.clear :: ops).all (Op.spares e.1)) = [] :=
        List.filter_eq_nil_iff.mpr fun e _ => Bool.false_ne_true
      rw [hnone]
      rfl

theorem live_after_empty (ops : List (Op T)) :
    ((empty : Registry T).after ops).live = alive 0 ops := live_after empty ops

theorem next_after (r : Registry T) (ops : List (Op T)) :
    (r.after ops).next = r.next + adds ops := by
  induction ops generalizing r with
  | nil => rfl
  | cons op ops ih =>
    rw [after_cons, ih]
    cases op with
    | add x =>
      show r.next + 1 + adds ops = r.next + (adds ops + 1)
      omega
    | _ => rfl

end Registry
