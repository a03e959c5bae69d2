import Mathlib.Data.Nat.Basic
import Mathlib.Logic.Relation
import Mathlib.Tactic.Choose

/-!
# Machines: runs of a partial step function, invariants, endless runs

A machine is a function `step : S → L → Option S`; `none` means that the label is not enabled.

* `exec step s ls`     the state after the labels `ls`, if every one of them is enabled in turn;
* `exec_append`, `exec_concat`
                       runs one after the other, and the last step of a run;
* `exec_invariant`     what every allowed step keeps, every run of allowed steps keeps;
* `exec_countdown`     where every allowed step takes one off a measure, the measure counts the steps;
* `exec_simulates`     a run of a machine whose steps are matched by (sequences of) steps of a
                       relation on a view of its states is matched by a sequence of them;
* `Along Q s ls`       every label of the run meets `Q` in the state that it starts from;
* `Always P s ls`      every state of the run meets `P`;
* `Endless R s`        some infinite sequence of `R`-steps starts in `s`;
* `not_endless`, `endless_of_keeps`
                       a measure that falls on every step excludes it, a property that can
                       always be kept by a further step gives it.
-/

namespace Machine

variable {S L : Type}

def exec (step : S → L → Option S) : S → List L → Option S
  | s, [] => some s
  | s, l :: ls => (step s l).bind fun t => exec step t ls

section
variable (step : S → L → Option S)

theorem exec_cons {s u : S} {l : L} {ls : List L} :
    exec step s (l :: ls) = some u ↔ ∃ t, step s l = some t ∧ exec step t ls = some u :=
  Option.bind_eq_some_iff

theorem exec_append (s : S) (a b : List L) :
    exec step s (a ++ b) = (exec step s a).bind fun t => exec step t b := by
  induction a generalizing s with
  | nil => rfl
  | cons l a ih =>
    show (step s l).bind _ = ((step s l).bind _).bind _
    rw [Option.bind_assoc]
    congr 1
    funext t
    exact ih t

theorem exec_append_eq_some {s u : S} {a b : List L} :
    exec step s (a ++ b) = some u ↔ ∃ t, exec step s a = some t ∧ exec step t b = some u := by
  rw [exec_append, Option.bind_eq_some_iff]

theorem exec_concat {s u : S} {ls : List L} {l : L} :
    exec step s (ls ++ [l]) = some u ↔ ∃ t, exec step s ls = some t ∧ step t l = some u := by
  rw [exec_append_eq_some]
  refine exists_congr fun t => and_congr_right fun _ => ?_
  show (step t l).bind some = _ ↔ _
  rw [Option.bind_fun_some]

theorem exists_exec_cons {Q : S → Prop} {s t : S} {l : L} {ls : List L} (h : step s l = some t)
    (ht : ∃ u, exec step t ls = some u ∧ Q u) : ∃ u, exec step s (l :: ls) = some u ∧ Q u := by
  obtain ⟨u, hu, hQ⟩ := ht
  exact ⟨u, (exec_cons step).mpr ⟨t, h, hu⟩, hQ⟩

/-- **Invariant rule.** -/
theorem exec_invariant {P : S → Prop} {A : L → Prop}
    (hstep : ∀ s l t, P s → A l → step s l = some t → P t) {s u : S} {ls : List L}
    (hA : ∀ l ∈ ls, A l) (h : exec step s ls = some u) (hs : P s) : P u := by
  induction ls generalizing s with
  | nil => cases h; exact hs
  | cons l ls ih =>
    obtain ⟨t, ht, hu⟩ := (exec_cons step).mp h
    exact ih (fun m hm => hA m (List.mem_cons_of_mem _ hm)) hu
      (hstep s l t hs (hA l List.mem_cons_self) ht)

/-- **Countdown rule.**  Where every step takes one off a measure, the measure counts the steps. -/
theorem exec_countdown {P : S → Prop} {A : L → Prop} (m : S → Nat)
    (hstep : ∀ s l t, P s → A l → step s l = some t → P t ∧ m t + 1 = m s) {s u : S} {ls : List L}
    (hA : ∀ l ∈ ls, A l) (h : exec step s ls = some u) (hs : P s) :
    P u ∧ ls.length + m u = m s := by
  induction ls generalizing s with
  | nil => cases h; exact ⟨hs, Nat.zero_add _⟩
  | cons l ls ih =>
    obtain ⟨t, ht, hu⟩ := (exec_cons step).mp h
    obtain ⟨hPt, hmt⟩ := hstep s l t hs (hA l List.mem_cons_self) ht
    obtain ⟨hPu, hmu⟩ := ih (fun x hx => hA x (List.mem_cons_of_mem _ hx)) hu hPt
    refine ⟨hPu, ?_⟩
    rw [List.length_cons]
    omega

/-- **Simulation rule.** -/
theorem exec_simulates {V : Type} {R : V → V → Prop} (view : S → V) {P : S → Prop} {A : L → Prop}
    (hstep : ∀ s l t, P s → A l → step s l = some t →
      P t ∧ Relation.ReflTransGen R (view s) (view t))
    {s u : S} {ls : List L} (hA : ∀ l ∈ ls, A l) (h : exec step s ls = some u) (hs : P s) :
    Relation.ReflTransGen R (view s) (view u) := by
  have key : P u ∧ Relation.ReflTransGen R (view s) (view u) := by
    refine exec_invariant step (P := fun t => P t ∧ Relation.ReflTransGen R (view s) (view t))
      (fun t l v ht hl hv => ?_) hA h ⟨hs, .refl⟩
    obtain ⟨h1, h2⟩ := hstep t l v ht.1 hl hv
    exact ⟨h1, ht.2.trans h2⟩
  exact key.2

end

/-! ## what holds along a run -/

section
variable (step : S → L → Option S)

/-- every label of the run meets `Q` in the state that it starts from -/
def Along (Q : S → L → Prop) (s : S) (ls : List L) : Prop :=
  ∀ a l b t, ls = a ++ l :: b → exec step s a = some t → Q t l

/-- every state of the run meets `P` -/
def Always (P : S → Prop) (s : S) (ls : List L) : Prop :=
  ∀ a b t, ls = a ++ b → exec step s a = some t → P t

theorem along_nil (Q : S → L → Prop) (s : S) : Along step Q s [] := by
  intro a l b t h
  simp at h

theorem along_cons {Q : S → L → Prop} {s : S} {l : L} {ls : List L} :
    Along step Q s (l :: ls) ↔ Q s l ∧ ∀ t, step s l = some t → Along step Q t ls := by
  constructor
  · intro h
    refine ⟨h [] l ls s rfl rfl, fun t ht a m b u e hu => ?_⟩
    exact h (l :: a) m b u (by rw [e]; rfl) ((exec_cons step).mpr ⟨t, ht, hu⟩)
  · rintro ⟨h1, h2⟩ a m b u e hu
    cases a with
    | nil =>
      cases hu
      obtain ⟨rfl, _⟩ := List.cons_eq_cons.mp e
      exact h1
    | cons x a =>
      obtain ⟨rfl, e'⟩ := List.cons_eq_cons.mp e
      obtain ⟨t, ht, hu⟩ := (exec_cons step).mp hu
      exact h2 t ht a m b u e' hu

/-- **Invariant rule, with a condition on the labels in their states.** -/
theorem exec_along {P : S → Prop} {A : S → L → Prop}
    (hstep : ∀ s l t, P s → A s l → step s l = some t → P t) {s u : S} {ls : List L}
    (hA : Along step A s ls) (h : exec step s ls = some u) (hs : P s) : P u := by
  induction ls generalizing s with
  | nil => cases h; exact hs
  | cons l ls ih =>
    obtain ⟨t, ht, hu⟩ := (exec_cons step).mp h
    obtain ⟨hl, hrest⟩ := (along_cons step).mp hA
    exact ih (hrest t ht) hu (hstep s l t hs hl ht)

theorem exists_exec_of_along {Q : S → L → Prop} (h : ∀ s l, Q s l → ∃ t, step s l = some t) {s : S}
    {ls : List L} (hQ : Along step Q s ls) : ∃ u, exec step s ls = some u := by
  induction ls generalizing s with
  | nil => exact ⟨s, rfl⟩
  | cons l ls ih =>
    obtain ⟨hl, hrest⟩ := (along_cons step).mp hQ
    obtain ⟨t, ht⟩ := h s l hl
    obtain ⟨u, hu⟩ := ih (hrest t ht)
    exact ⟨u, (exec_cons step).mpr ⟨t, ht, hu⟩⟩

theorem always_nil {P : S → Prop} {s : S} : Always step P s [] ↔ P s := by
  constructor
  · intro h
    exact h [] [] s rfl rfl
  · intro h a b t e ht
    obtain ⟨rfl, _⟩ := List.append_eq_nil_iff.mp e.symm
    cases ht
    exact h

theorem always_cons {P : S → Prop} {s : S} {l : L} {ls : List L} :
    Always step P s (l :: ls) ↔ P s ∧ ∀ t, step s l = some t → Always step P t ls := by
  constructor
  · intro h
    refine ⟨h [] (l :: ls) s rfl rfl, fun t ht a b u e hu => ?_⟩
    exact h (l :: a) b u (by rw [e]; rfl) ((exec_cons step).mpr ⟨t, ht, hu⟩)
  · rintro ⟨h1, h2⟩ a b u e hu
    cases a with
    | nil => cases hu; exact h1
    | cons x a =>
      obtain ⟨rfl, e'⟩ := List.cons_eq_cons.mp e
      obtain ⟨t, ht, hu⟩ := (exec_cons step).mp hu
      exact h2 t ht a b u e' hu

theorem along_of_invariant {P : S → Prop} {A Q : S → L → Prop}
    (hstep : ∀ s l t, P s → A s l → step s l = some t → P t) (h : ∀ s l, P s → A s l → Q s l)
    {s : S} {ls : List L} (hs : P s) (hA : Along step A s ls) : Along step Q s ls := by
  induction ls generalizing s with
  | nil => exact along_nil step Q s
  | cons l ls ih =>
    obtain ⟨hl, hrest⟩ := (along_cons step).mp hA
    refine (along_cons step).mpr ⟨h s l hs hl, fun t ht => ?_⟩
    exact ih (hstep s l t hs hl ht) (hrest t ht)

theorem along_congr {P : S → Prop} {A Q R : S → L → Prop}
    (hstep : ∀ s l t, P s → A s l → step s l = some t → P t)
    (h : ∀ s l, P s → A s l → (Q s l ↔ R s l)) {s : S} {ls : List L} (hs : P s)
    (hA : Along step A s ls) : Along step Q s ls ↔ Along step R s ls := by
  constructor
  · intro hQ
    exact along_of_invariant step (A := fun s l => A s l ∧ Q s l)
      (fun s l t hs hl => hstep s l t hs hl.1) (fun s l hs hl => (h s l hs hl.1).mp hl.2) hs
      fun a l b t e ht => ⟨hA a l b t e ht, hQ a l b t e ht⟩
  · intro hR
    exact along_of_invariant step (A := fun s l => A s l ∧ R s l)
      (fun s l t hs hl => hstep s l t hs hl.1) (fun s l hs hl => (h s l hs hl.1).mpr hl.2) hs
      fun a l b t e ht => ⟨hA a l b t e ht, hR a l b t e ht⟩

end

/-! ## endless runs -/

/-- some infinite sequence of steps starts in `s` -/
def Endless (R : S → S → Prop) (s : S) : Prop :=
  ∃ f : Nat → S, f 0 = s ∧ ∀ n, R (f n) (f (n+1))

/-- a measure that falls on every step excludes endless runs -/
theorem not_endless {R : S → S → Prop} {P : S → Prop} (m : S → Nat)
    (hP : ∀ s t, P s → R s t → P t) (hm : ∀ s t, P s → R s t → m t < m s) {s : S} (hs : P s) :
    ¬ Endless R s := by
  rintro ⟨f, h0, hf⟩
  have hPn : ∀ n, P (f n) := by
    intro n
    induction n with
    | zero => rw [h0]; exact hs
    | succ n ih => exact hP _ _ ih (hf n)
  have hle : ∀ n, m (f n) + n ≤ m (f 0) := by
    intro n
    induction n with
    | zero => simp
    | succ n ih =>
      have := hm _ _ (hPn n) (hf n)
      omega
  have := hle (m (f 0) + 1)
  omega

/-- a property that some step always keeps gives an endless run -/
theorem endless_of_keeps {R : S → S → Prop} {P : S → Prop}
    (hP : ∀ s, P s → ∃ t, R s t ∧ P t) {s : S} (hs : P s) : Endless R s := by
  choose next hR hnext using hP
  let f : Nat → {t : S // P t} := fun n => Nat.rec ⟨s, hs⟩ (fun _ t => ⟨next t.1 t.2, hnext t.1 t.2⟩) n
  exact ⟨fun n => (f n).1, rfl, fun n => hR (f n).1 (f n).2⟩

theorem Endless.head {R : S → S → Prop} {s t : S} (h : Relation.ReflTransGen R s t)
    (ht : Endless R t) : Endless R s := by
  induction h using Relation.ReflTransGen.head_induction_on with
  | refl => exact ht
  | @head a b hab _ ih =>
    obtain ⟨f, h0, hf⟩ := ih
    refine ⟨fun n => Nat.casesOn n a f, rfl, fun n => ?_⟩
    cases n with
    | zero => show R a (f 0); rw [h0]; exact hab
    | succ n => exact hf n

end Machine
