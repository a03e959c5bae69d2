import Mathlib.Data.List.Basic
import Mathlib.Data.List.Induction
import Mathlib.Logic.Function.Basic

/-!
# Lineages: what is left in a register that its clients read and write back

A register is served one access at a time.  A client READS it (its snapshot is the content at that
moment) and later WRITES back something it computed from its snapshot alone.  What a write made of
is not the content it replaces but the snapshot, so the content descends from a chain of writes:

* `cur log`            the writes the content descends from, oldest first;
* `seen log t`         the same of the last snapshot of the client `t`;
* `writers log`        all writes, in the order they were served;
* `OneShot log`        every client reads at most once and writes at most once, after its read;
* `Undisturbed log`    no write is served between a client's read and its write.

`cur_sublist_writers`: a lineage never holds a write that was not served, nor in another order.
`cur_eq_writers_iff`: **for one-shot clients every write is kept iff the log is undisturbed.**
-/

namespace Lineage

inductive Access (T : Type) where
  | read (t : T)
  | write (t : T)
  deriving DecidableEq, Repr

section
variable {T : Type} [DecidableEq T]

/-- lineage of the content and of every client's snapshot -/
structure Trail (T : Type) where
  cur : List T
  seen : T → List T

def step (s : Trail T) : Access T → Trail T
  | .read t => { s with seen := Function.update s.seen t s.cur }
  | .write t => { s with cur := s.seen t ++ [t] }

def trail (log : List (Access T)) : Trail T := log.foldl step ⟨[], fun _ => []⟩

def cur (log : List (Access T)) : List T := (trail log).cur
def seen (log : List (Access T)) (t : T) : List T := (trail log).seen t

theorem trail_concat (log : List (Access T)) (a : Access T) :
    trail (log ++ [a]) = step (trail log) a := by
  simp [trail, List.foldl_append]

@[simp] theorem cur_nil : cur ([] : List (Access T)) = [] := rfl
@[simp] theorem seen_nil (t : T) : seen ([] : List (Access T)) t = [] := rfl
@[simp] theorem cur_read (log : List (Access T)) (t : T) : cur (log ++ [.read t]) = cur log := by
  unfold cur; rw [trail_concat]; rfl
@[simp] theorem cur_write (log : List (Access T)) (t : T) :
    cur (log ++ [.write t]) = seen log t ++ [t] := by
  unfold cur seen; rw [trail_concat]; rfl
@[simp] theorem seen_read_self (log : List (Access T)) (t : T) :
    seen (log ++ [.read t]) t = cur log := by
  unfold cur seen; rw [trail_concat]; exact Function.update_self ..
theorem seen_read_ne (log : List (Access T)) {t u : T} (h : u ≠ t) :
    seen (log ++ [.read t]) u = seen log u := by
  unfold seen; rw [trail_concat]; exact Function.update_of_ne h ..
@[simp] theorem seen_write (log : List (Access T)) (t u : T) :
    seen (log ++ [.write t]) u = seen log u := by
  unfold seen; rw [trail_concat]; rfl

end

section
variable {T : Type}

def Access.writer : Access T → Option T
  | .read _ => none
  | .write t => some t

/-- all writes, in the order they were served -/
def writers (log : List (Access T)) : List T := log.filterMap Access.writer

@[simp] theorem writers_nil : writers ([] : List (Access T)) = [] := rfl
@[simp] theorem writers_append (a b : List (Access T)) :
    writers (a ++ b) = writers a ++ writers b := List.filterMap_append ..
@[simp] theorem writers_cons_read (t : T) (log : List (Access T)) :
    writers (.read t :: log) = writers log := rfl
@[simp] theorem writers_cons_write (t : T) (log : List (Access T)) :
    writers (.write t :: log) = t :: writers log := rfl

theorem mem_writers {log : List (Access T)} {t : T} : t ∈ writers log ↔ .write t ∈ log := by
  unfold writers
  rw [List.mem_filterMap]
  constructor
  · rintro ⟨a, ha, h⟩
    cases a with
    | read u => cases h
    | write u => cases h; exact ha
  · intro h; exact ⟨_, h, rfl⟩

/-- every client reads at most once and writes at most once, after its read -/
inductive OneShot : List (Access T) → Prop where
  | nil : OneShot []
  | read {log : List (Access T)} {t : T} : OneShot log → .read t ∉ log → OneShot (log ++ [.read t])
  | write {log : List (Access T)} {t : T} :
      OneShot log → .read t ∈ log → .write t ∉ log → OneShot (log ++ [.write t])

/-- no write is served between a client's read and its write -/
def Undisturbed (log : List (Access T)) : Prop :=
  ∀ l₁ l₂ l₃ t, log = l₁ ++ .read t :: (l₂ ++ .write t :: l₃) → writers l₂ = []

theorem OneShot.read_mem {log : List (Access T)} (h : OneShot log) {t : T}
    (ht : .write t ∈ log) : .read t ∈ log := by
  induction h with
  | nil => cases ht
  | read _ _ ih =>
    rcases List.mem_append.mp ht with h1 | h1
    · exact List.mem_append_left _ (ih h1)
    · simp at h1
  | write _ hr _ ih =>
    rcases List.mem_append.mp ht with h1 | h1
    · exact List.mem_append_left _ (ih h1)
    · simp only [List.mem_singleton, Access.write.injEq] at h1
      rw [h1]
      exact List.mem_append_left _ hr

theorem Undisturbed.of_concat {log : List (Access T)} {a : Access T}
    (h : Undisturbed (log ++ [a])) : Undisturbed log := by
  intro l₁ l₂ l₃ t e
  exact h l₁ l₂ (l₃ ++ [a]) t (by rw [e]; simp)

theorem Undisturbed.concat_read {log : List (Access T)} (h : Undisturbed log) (t : T) :
    Undisturbed (log ++ [.read t]) := by
  intro l₁ l₂ l₃ u e
  rcases List.eq_nil_or_concat l₃ with rfl | ⟨l₃', a, rfl⟩
  · have e' : log ++ [.read t] = (l₁ ++ .read u :: l₂) ++ [.write u] := by rw [e]; simp
    have := (List.append_inj' e' rfl).2
    simp at this
  · have e' : log ++ [.read t] = (l₁ ++ .read u :: (l₂ ++ .write u :: l₃')) ++ [a] := by
      rw [e]; simp
    exact h l₁ l₂ l₃' u (List.append_inj' e' rfl).1

end

section
variable {T : Type} [DecidableEq T]

/-- lineages are made of served writes, in the order they were served -/
theorem lineage_sublist (log : List (Access T)) :
    (cur log).Sublist (writers log) ∧ ∀ t, (seen log t).Sublist (writers log) := by
  induction log using List.reverseRecOn with
  | nil => simp
  | append_singleton log a ih =>
    obtain ⟨hc, hs⟩ := ih
    cases a with
    | read t =>
      rw [cur_read, writers_append]
      refine ⟨by simpa using hc, fun u => ?_⟩
      by_cases e : u = t
      · subst e; rw [seen_read_self]; simpa using hc
      · rw [seen_read_ne log e]; simpa using hs u
    | write t =>
      rw [cur_write, writers_append]
      refine ⟨(hs t).append (List.Sublist.refl _), fun u => ?_⟩
      rw [seen_write]
      exact (hs u).trans (List.sublist_append_left ..)

theorem cur_sublist_writers (log : List (Access T)) : (cur log).Sublist (writers log) :=
  (lineage_sublist log).1

theorem seen_sublist_writers (log : List (Access T)) (t : T) :
    (seen log t).Sublist (writers log) := (lineage_sublist log).2 t

theorem cur_eq_nil {log : List (Access T)} (h : writers log = []) : cur log = [] :=
  List.sublist_nil.mp (h ▸ cur_sublist_writers log)

theorem cur_append_of_writers_nil (log l : List (Access T)) (h : writers l = []) :
    cur (log ++ l) = cur log := by
  induction l using List.reverseRecOn with
  | nil => rw [List.append_nil]
  | append_singleton l a ih =>
    rw [writers_append, List.append_eq_nil_iff] at h
    cases a with
    | read t => rw [← List.append_assoc, cur_read, ih h.1]
    | write t => simp at h

/-- the snapshot of a client that has read once is the content at its read -/
theorem OneShot.seen_eq {log : List (Access T)} (h : OneShot log) {t : T}
    (hr : .read t ∈ log) : ∃ l₁ l₂, log = l₁ ++ .read t :: l₂ ∧ seen log t = cur l₁ := by
  induction h with
  | nil => cases hr
  | @read log u hl hu ih =>
    by_cases e : t = u
    · subst e
      exact ⟨log, [], rfl, seen_read_self log t⟩
    · have hr' : .read t ∈ log := by simpa [e] using hr
      obtain ⟨l₁, l₂, e', hs⟩ := ih hr'
      exact ⟨l₁, l₂ ++ [.read u], by rw [e']; simp, by rw [seen_read_ne log e, hs]⟩
  | @write log u hl _ _ ih =>
    have hr' : .read t ∈ log := by simpa using hr
    obtain ⟨l₁, l₂, e', hs⟩ := ih hr'
    exact ⟨l₁, l₂ ++ [.write u], by rw [e']; simp, by rw [seen_write, hs]⟩

theorem cur_ne_nil {log : List (Access T)} (h : writers log ≠ []) : cur log ≠ [] := by
  induction log using List.reverseRecOn with
  | nil => exact absurd rfl h
  | append_singleton log a ih =>
    cases a with
    | read t => rw [cur_read]; exact ih (by simpa using h)
    | write t => rw [cur_write]; simp

/-- a client that wrote alone is the whole lineage -/
theorem cur_eq_singleton {log : List (Access T)} {t : T} (h : writers log = [t]) :
    cur log = [t] := by
  have hs := cur_sublist_writers log
  rw [h] at hs
  have hne : cur log ≠ [] := cur_ne_nil (by rw [h]; simp)
  exact hs.eq_of_length_le (List.length_pos_iff.mpr hne)

theorem OneShot.read_unique {log : List (Access T)} (h : OneShot log) {t : T}
    {a b a' b' : List (Access T)} (e : log = a ++ .read t :: b) (e' : log = a' ++ .read t :: b') :
    b = b' := by
  have hn : log.count (.read t) ≤ 1 := by
    clear e e'
    induction h with
    | nil => simp
    | @read log u _ hu ih =>
      by_cases e : t = u
      · subst e
        rw [List.count_append, List.count_eq_zero_of_not_mem hu]; simp
      · rw [List.count_append, List.count_singleton]
        simpa [Ne.symm e] using ih
    | @write log u _ _ _ ih => simpa [List.count_append] using ih
  rw [e, List.count_append, List.count_cons_self] at hn
  have ha : .read t ∉ a := fun hm => by
    have := List.count_pos_iff.mpr hm
    omega
  have hb : .read t ∉ b := fun hm => by
    have := List.count_pos_iff.mpr hm
    omega
  exact ((List.append_cons_inj_of_notMem ha hb).mp (e.symm.trans e')).2.2

theorem OneShot.notMem_seen {log : List (Access T)} (h : OneShot log) (t : T) : t ∉ seen log t := by
  induction h with
  | nil => simp
  | @read log u hlog hu ih =>
    by_cases e : t = u
    · subst e
      rw [seen_read_self]
      intro hm
      have hw : .write t ∈ log := mem_writers.mp ((cur_sublist_writers log).subset hm)
      exact hu (hlog.read_mem hw)
    · rw [seen_read_ne log e]; exact ih
  | write _ _ _ ih => rw [seen_write]; exact ih

/-- **For one-shot clients every write is kept iff the log is undisturbed.** -/
theorem cur_eq_writers_iff {log : List (Access T)} (h : OneShot log) :
    cur log = writers log ↔ Undisturbed log := by
  induction h with
  | nil =>
    constructor
    · intro _ l₁ l₂ l₃ t e; simp at e
    · intro _; rfl
  | @read log t _ _ ih =>
    rw [cur_read, writers_append, writers_cons_read, writers_nil, List.append_nil, ih]
    exact ⟨fun h => h.concat_read t, fun h => h.of_concat⟩
  | @write log t hlog hr hw ih =>
    obtain ⟨l₁, l₂, e, hs⟩ := hlog.seen_eq hr
    have hW : writers log = writers l₁ ++ writers l₂ := by rw [e]; simp
    rw [cur_write, writers_append, writers_cons_write, writers_nil, hs, hW]
    have hcut : cur l₁ ++ [t] = writers l₁ ++ writers l₂ ++ [t] ↔
        writers l₂ = [] ∧ cur l₁ = writers l₁ := by
      constructor
      · intro h1
        have h2 : cur l₁ = writers l₁ ++ writers l₂ := (List.append_inj' h1 rfl).1
        have hlen := (cur_sublist_writers l₁).length_le
        rw [h2, List.length_append] at hlen
        have h3 : writers l₂ = [] := List.eq_nil_of_length_eq_zero (by omega)
        exact ⟨h3, by rw [h2, h3, List.append_nil]⟩
      · rintro ⟨h3, h4⟩
        rw [h3, h4, List.append_nil]
    have hsame : writers l₂ = [] → (cur log = writers log ↔ cur l₁ = writers l₁) := by
      intro h3
      have hc : cur log = cur l₁ := by
        have := cur_append_of_writers_nil l₁ (.read t :: l₂) (by simpa using h3)
        rw [e]; exact this
      rw [hc, hW, h3, List.append_nil]
    rw [hcut]
    constructor
    · rintro ⟨h3, h4⟩
      have hU := ih.mp ((hsame h3).mpr h4)
      intro m₁ m₂ m₃ u em
      rcases List.eq_nil_or_concat m₃ with rfl | ⟨m₃', a, rfl⟩
      · -- the window is the one that this write closes
        have em' : log ++ [.write t] = (m₁ ++ .read u :: m₂) ++ [.write u] := by rw [em]; simp
        obtain ⟨e1, e2⟩ := List.append_inj' em' rfl
        have hu : t = u := by simpa using e2
        subst hu
        rw [← hlog.read_unique e e1]; exact h3
      · have em' : log ++ [.write t] = (m₁ ++ .read u :: (m₂ ++ .write u :: m₃')) ++ [a] := by
          rw [em]; simp
        exact hU m₁ m₂ m₃' u (List.append_inj' em' rfl).1
    · intro hU
      have h3 : writers l₂ = [] := hU l₁ l₂ [] t (by rw [e]; simp)
      exact ⟨h3, (hsame h3).mp (ih.mpr hU.of_concat)⟩

end

theorem eq_of_sublist_of_countP {T K : Type} [DecidableEq K] (key : T → K) {a b : List T}
    (hs : a.Sublist b) (h : ∀ k, a.countP (fun t => key t = k) = b.countP (fun t => key t = k)) :
    a = b := by
  induction hs with
  | slnil => rfl
  | @cons a b x hab ih =>
    have h1 := h (key x)
    rw [List.countP_cons_of_pos (by simp)] at h1
    have h2 : a.countP (fun t => key t = key x) ≤ b.countP (fun t => key t = key x) :=
      hab.countP_le
    omega
  | @cons_cons a b x hab ih =>
    rw [ih]
    intro k
    have h1 := h k
    rw [List.countP_cons, List.countP_cons] at h1
    omega

end Lineage
