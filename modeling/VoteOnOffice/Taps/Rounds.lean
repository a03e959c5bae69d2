import VoteOnOffice.Taps.Replay

/-!
# Overlapping taps: every step keeps the replay

* `TapInv.read_user`, `TapInv.read_vote`, `TapInv.write_user`, `TapInv.write_vote`,
  `TapInv.deliver_user`, `TapInv.deliver_vote`
                       one lemma for each of the things that can happen to a request of a tap;
* `tapInv_step`        the step lemma;
* `tapInv_run`         the run lemma, on runs of the system from `System.tapping`.
-/

namespace VoteOnOffice
open Lineage

section
variable {d₀ : Database} {taps : List Tap}

/-! ## what is in flight -/

theorem TaskOk.read_cases {ul : List (String × Access Tap)} {vl : List (String × Access (Tap × Path))}
    {q : Query} {k : Callback} (h : TaskOk d₀ taps ul vl (.read q k)) :
    (∃ t ∈ taps, k = .tabOnCell t ∧ q = .usersWhere t.emailString) ∨
      ∃ t p, Took d₀ taps ul t p ∧ k = p.callback t (captured d₀ ul t) ∧ q = .votesWhere t.UUID := by
  cases k with
  | tabOnCell t => exact .inl ⟨t, h.1, rfl, h.2⟩
  | voteFirst t => exact .inr ⟨t, .first, h.1, rfl, h.2⟩
  | voteSecond t arrays extraIndex =>
    obtain ⟨ht, hq, rfl⟩ := h
    exact .inr ⟨t, .second extraIndex, ht, rfl, hq⟩
  | _ => exact h.elim

theorem TaskOk.reply_cases {ul : List (String × Access Tap)}
    {vl : List (String × Access (Tap × Path))} {r : Reply} {k : Callback}
    (h : TaskOk d₀ taps ul vl (.reply r k)) :
    (∃ t ∈ taps, k = .tabOnCell t ∧ .read t ∈ logOf t.emailString ul ∧
      ∃ d, r = .ok [d] ∧ d .userVotesList = some (.records (captured d₀ ul t))) ∨
      ∃ t p, Counts d₀ taps ul vl r t p ∧ k = p.callback t (captured d₀ ul t) := by
  cases k with
  | tabOnCell t => exact .inl ⟨t, h.1, rfl, h.2⟩
  | voteFirst t => exact .inr ⟨t, .first, h, rfl⟩
  | voteSecond t arrays extraIndex =>
    obtain ⟨ht, rfl⟩ := h
    exact .inr ⟨t, .second extraIndex, ht, rfl⟩
  | _ => exact h.elim

theorem taskOk_read_vote {ul : List (String × Access Tap)} {vl : List (String × Access (Tap × Path))}
    {t : Tap} {p : Path} (h : Took d₀ taps ul t p) :
    TaskOk d₀ taps ul vl (.read (.votesWhere t.UUID) (p.callback t (captured d₀ ul t))) := by
  cases p with
  | first => exact ⟨h, rfl⟩
  | second extraIndex => exact ⟨h, rfl, rfl⟩

theorem taskOk_reply_vote {ul : List (String × Access Tap)}
    {vl : List (String × Access (Tap × Path))} {r : Reply} {t : Tap} {p : Path}
    (h : Counts d₀ taps ul vl r t p) :
    TaskOk d₀ taps ul vl (.reply r (p.callback t (captured d₀ ul t))) := by
  cases p with
  | first => exact h
  | second extraIndex => exact ⟨h, rfl⟩

@[simp] theorem usersRead_callback (p : Path) (t : Tap) (arrays : List Record) :
    (p.callback t arrays).usersRead = [] := by cases p <;> rfl
@[simp] theorem votesRead_callback (p : Path) (t : Tap) (arrays : List Record) :
    (p.callback t arrays).votesRead = [(t.UUID, .read (t, p))] := by cases p <;> rfl
@[simp] theorem mayReadUser_read_vote (u t : Tap) (p : Path) (q : Query) (arrays : List Record) :
    mayReadUser u (.read q (p.callback t arrays)) = 0 := by cases p <;> rfl
theorem mayWriteUser_reply_vote (u t : Tap) (p : Path) (q : Query) (r : Reply)
    (arrays : List Record) : mayWriteUser u (.reply r (p.callback t arrays))
      = mayWriteUser u (.read q (p.callback t arrays)) := by cases p <;> rfl
@[simp] theorem mayReadVote_read_vote (u t : Tap) (p : Path) (q : Query) (arrays : List Record) :
    mayReadVote u (.read q (p.callback t arrays)) = one (t = u) := by cases p <;> rfl
@[simp] theorem mayReadVote_reply_vote (u t : Tap) (p : Path) (r : Reply) (arrays : List Record) :
    mayReadVote u (.reply r (p.callback t arrays)) = 0 := by cases p <;> rfl
@[simp] theorem mayWriteVote_read_vote (u t : Tap) (p : Path) (q : Query) (arrays : List Record) :
    mayWriteVote u (.read q (p.callback t arrays)) = one (t = u) := by cases p <;> rfl
@[simp] theorem mayWriteVote_reply_vote (u t : Tap) (p : Path) (r : Reply) (arrays : List Record) :
    mayWriteVote u (.reply r (p.callback t arrays)) = one (t = u) := by cases p <;> rfl

theorem not_mem_of_right {T : Type} {w : Task → Nat} {l₁ l₂ : List Task} {x : Task}
    {log : List (Access T)} {P : Access T → Bool}
    (h : weigh w (l₁ ++ x :: l₂) + log.countP P = 1) (hx : w x = 1) {a : Access T} (ha : P a = true) :
    a ∉ log := by
  intro hm
  have := List.countP_pos_iff.mpr ⟨a, hm, ha⟩
  rw [weigh_append, weigh_cons, hx] at h
  omega

theorem one_self (t : Tap) : one (t = t) = 1 := if_pos rfl

/-! ## one step -/

section
variable {db : Database} {l₁ l₂ : List Task} {x : Task} {ul : List (String × Access Tap)}
  {vl : List (String × Access (Tap × Path))}

theorem TapInv.read_user (hp : Present d₀ taps) {t : Tap} {q : Query}
    (h : TapInv d₀ taps ⟨db, l₁ ++ .read q (.tabOnCell t) :: l₂, ul, vl⟩) :
    TapInv d₀ taps ⟨db, l₁ ++ .reply (.ok (db.getDocuments q)) (.tabOnCell t) :: l₂,
      ul ++ [(t.emailString, .read t)], vl⟩ := by
  obtain ⟨ht, rfl⟩ := h.tasks _ (mem_middle.mpr (.inl rfl))
  have hnot : .read t ∉ logOf t.emailString ul :=
    not_mem_of_right (h.readUser t ht) (one_self t) (by simp [readBy])
  have hU : Grows ul (ul ++ [(t.emailString, .read t)]) := Grows.read hnot
  obtain ⟨d, hget, _, hl⟩ := h.find_user hp ht
  refine ⟨?_, h.votes, ?_, ?_, h.votesOnce, ?_, ?_, ?_, ?_, ?_, ?_⟩
  · intro id
    rw [cur_logOf_read]
    exact h.users id
  · intro task hm
    rcases mem_middle.mp hm with rfl | hm
    · refine ⟨ht, mem_logOf_concat.mpr (.inr ⟨rfl, rfl⟩), d, by rw [hget], ?_⟩
      unfold captured
      rw [logOf_append, logOf_self, seen_read_self]
      exact hl
    · exact (h.tasks task (mem_middle.mpr (.inr hm))).grows hU (.refl vl)
  · exact oneShot_logOf_concat h.usersOnce (.read (h.usersOnce _) hnot)
  · intro id u hu
    rcases mem_logOf_concat.mp hu with hu | ⟨rfl, ha⟩
    · exact h.usersBy id u hu
    · cases ha
      exact ⟨ht, rfl⟩
  · intro id u p hu
    obtain ⟨h1, h2⟩ := h.votesBy id u p hu
    exact ⟨h1.grows hU, h2⟩
  · intro u hu
    have := h.readUser u hu
    rw [countP_logOf_concat (readBy id u) Tap.emailString t u _ _ (by simp [readBy])]
    simp only [weigh_append, weigh_cons, mayReadUser] at this ⊢
    omega
  · intro u hu
    have := h.writeUser u hu
    rw [countP_logOf_other _ _ _ _ _ rfl]
    simpa only [weigh_append, weigh_cons, mayWriteUser] using this
  · intro u hu
    simpa only [weigh_append, weigh_cons, mayReadVote] using h.readVote u hu
  · intro u hu
    simpa only [weigh_append, weigh_cons, mayWriteVote] using h.writeVote u hu

theorem TapInv.read_vote (hp : Present d₀ taps) {t : Tap} {p : Path} (ht : Took d₀ taps ul t p)
    (h : TapInv d₀ taps ⟨db, l₁ ++ .read (.votesWhere t.UUID) (p.callback t (captured d₀ ul t)) :: l₂,
      ul, vl⟩) :
    TapInv d₀ taps ⟨db, l₁ ++ .reply (.ok (db.getDocuments (.votesWhere t.UUID)))
      (p.callback t (captured d₀ ul t)) :: l₂, ul, vl ++ [(t.UUID, .read (t, p))]⟩ := by
  have hnot : .read (t, p) ∉ logOf t.UUID vl :=
    not_mem_of_right (h.readVote t ht.tap) (by simp [one]) (by simp [readBy])
  have hV : Grows vl (vl ++ [(t.UUID, .read (t, p))]) := Grows.read hnot
  obtain ⟨d, a, hget, _, hd, ha⟩ := h.find_vote hp ht.tap
  refine ⟨h.users, ?_, ?_, h.usersOnce, ?_, h.usersBy, ?_, ?_, ?_, ?_, ?_⟩
  · intro id
    rw [cur_logOf_read]
    exact h.votes id
  · intro task hm
    rcases mem_middle.mp hm with rfl | hm
    · refine taskOk_reply_vote
        ⟨ht, mem_logOf_concat.mpr (.inr ⟨rfl, rfl⟩), d, a, by rw [hget], hd, ?_⟩
      rw [logOf_append, logOf_self, seen_read_self]
      exact ha
    · exact (h.tasks task (mem_middle.mpr (.inr hm))).grows (.refl ul) hV
  · exact oneShot_logOf_concat h.votesOnce (.read (h.votesOnce _) hnot)
  · intro id u p' hu
    rcases mem_logOf_concat.mp hu with hu | ⟨rfl, ha⟩
    · exact h.votesBy id u p' hu
    · cases ha
      exact ⟨ht, rfl⟩
  · intro u hu
    have := h.readUser u hu
    simp only [weigh_append, weigh_cons, mayReadUser_read_vote] at this
    simpa only [weigh_append, weigh_cons, mayReadUser] using this
  · intro u hu
    have := h.writeUser u hu
    simp only [weigh_append, weigh_cons] at this ⊢
    rw [mayWriteUser_reply_vote u t p (.votesWhere t.UUID)]
    exact this
  · intro u hu
    have := h.readVote u hu
    rw [countP_logOf_concat (readBy Prod.fst u) Tap.UUID t u _ _ (by simp [readBy])]
    simp only [weigh_append, weigh_cons, mayReadVote_read_vote, mayReadVote_reply_vote] at this ⊢
    omega
  · intro u hu
    have := h.writeVote u hu
    rw [countP_logOf_other _ _ _ _ _ rfl]
    simpa only [weigh_append, weigh_cons, mayWriteVote_read_vote, mayWriteVote_reply_vote] using this

theorem update_userAfter (d₀ : Database) (id : String) (h h' : List Tap) (hne : h' ≠ [])
    (d : Document) :
    Function.update (userAfter d₀ id h d) .userVotesList (some (.records (replayUsers d₀ id h')))
      = userAfter d₀ id h' d := by
  unfold userAfter
  rw [if_neg hne]
  split
  · rfl
  · rw [Function.update_idem]

theorem update_voteAfter (h h' : List (Tap × Path)) (hne : h' ≠ []) (a a' : List Record)
    (d : Document) :
    Function.update (voteAfter h a d) .voteVariants (some (.records a')) = voteAfter h' a' d := by
  unfold voteAfter
  rw [if_neg hne]
  split
  · rfl
  · rw [Function.update_idem]

theorem TapInv.write_user {db' : Database} {t : Tap} {p : Path} {document : String} {f : Field}
    {v : Value} (h : TapInv d₀ taps ⟨db, l₁ ++ .update t p .users document f v :: l₂, ul, vl⟩)
    (hdb : db.updateData .users document f v = some db') :
    TapInv d₀ taps ⟨db', l₁ ++ l₂, ul ++ [(document, .write t)], vl⟩ := by
  have htask : TaskOk d₀ taps ul vl (.update t p .users document f v) :=
    h.tasks _ (mem_middle.mpr (.inl rfl))
  obtain ⟨ht, hread, rfl, rfl, rfl⟩ := htask
  have hnot : .write t ∉ logOf t.emailString ul :=
    not_mem_of_right (h.writeUser t ht) (one_self t) (by simp [writeBy])
  have hU : Grows ul (ul ++ [(t.emailString, .write t)]) := .write _ _ _
  obtain ⟨d, hd, rfl⟩ := Option.map_eq_some_iff.mp hdb
  refine ⟨?_, h.votes, ?_, ?_, h.votesOnce, ?_, ?_, ?_, ?_, ?_, ?_⟩
  · intro id
    rw [logOf_append]
    by_cases e : id = t.emailString
    · subst e
      have hu := h.users t.emailString
      rw [show db.users.lookup t.emailString = some d from hd] at hu
      obtain ⟨d', hd', rfl⟩ := Option.map_eq_some_iff.mp hu.symm
      rw [logOf_self, cur_write, hd', Option.map_some]
      show (db.users.insert _ _).lookup _ = _
      rw [AList.lookup_insert]
      have hl : cast t.UUID t.index (captured d₀ ul t)
          = replayUsers d₀ t.emailString (seen (logOf t.emailString ul) t ++ [t]) :=
        (replayUsers_concat ..).symm
      rw [hl, update_userAfter _ _ _ _ (by simp)]
    · rw [logOf_ne (Ne.symm e), List.append_nil, ← h.users id]
      exact AList.lookup_insert_ne e
  · intro task hm
    exact (h.tasks task (mem_middle.mpr (.inr hm))).grows hU (.refl vl)
  · exact oneShot_logOf_concat h.usersOnce (.write (h.usersOnce _) hread hnot)
  · intro id u hu
    rcases mem_logOf_concat.mp hu with hu | ⟨_, ha⟩
    · exact h.usersBy id u hu
    · cases ha
  · intro id u p hu
    obtain ⟨h1, h2⟩ := h.votesBy id u p hu
    exact ⟨h1.grows hU, h2⟩
  · intro u hu
    rw [countP_logOf_other _ _ _ _ _ rfl]
    simpa only [weigh_append, weigh_cons, mayReadUser, Nat.zero_add] using h.readUser u hu
  · intro u hu
    have := h.writeUser u hu
    rw [countP_logOf_concat (writeBy id u) Tap.emailString t u _ _ (by simp [writeBy])]
    simp only [weigh_append, weigh_cons, mayWriteUser] at this ⊢
    omega
  · intro u hu
    simpa only [weigh_append, weigh_cons, mayReadVote, Nat.zero_add] using h.readVote u hu
  · intro u hu
    simpa only [weigh_append, weigh_cons, mayWriteVote, Nat.zero_add] using h.writeVote u hu

theorem TapInv.write_vote {db' : Database} {t : Tap} {p : Path} {document : String} {f : Field}
    {v : Value} (h : TapInv d₀ taps ⟨db, l₁ ++ .update t p .votes document f v :: l₂, ul, vl⟩)
    (hdb : db.updateData .votes document f v = some db') :
    TapInv d₀ taps ⟨db', l₁ ++ l₂, ul, vl ++ [(document, .write (t, p))]⟩ := by
  have htask : TaskOk d₀ taps ul vl (.update t p .votes document f v) :=
    h.tasks _ (mem_middle.mpr (.inl rfl))
  obtain ⟨ht, hread, rfl, rfl, a, ha, rfl⟩ := htask
  have hnot : .write (t, p) ∉ logOf t.UUID vl :=
    not_mem_of_right (h.writeVote t ht.tap) (one_self t) (by simp [writeBy])
  have hV : Grows vl (vl ++ [(t.UUID, .write (t, p))]) := .write _ _ _
  obtain ⟨d, hd, rfl⟩ := Option.map_eq_some_iff.mp hdb
  refine ⟨h.users, ?_, ?_, h.usersOnce, ?_, h.usersBy, ?_, ?_, ?_, ?_, ?_⟩
  · intro id
    rw [logOf_append]
    by_cases e : id = t.UUID
    · subst e
      rw [logOf_self, cur_write]
      refine ⟨a, ha, ?_⟩
      obtain ⟨b, _, hb⟩ := h.votes t.UUID
      rw [show db.votes.lookup t.UUID = some d from hd] at hb
      obtain ⟨d', hd', rfl⟩ := Option.map_eq_some_iff.mp hb.symm
      rw [hd', Option.map_some]
      show (db.votes.insert _ _).lookup _ = _
      rw [AList.lookup_insert,
        update_voteAfter _ (seen (logOf t.UUID vl) (t, p) ++ [(t, p)]) (by simp)]
    · rw [logOf_ne (Ne.symm e), List.append_nil]
      obtain ⟨b, hb, hlook⟩ := h.votes id
      exact ⟨b, hb, (AList.lookup_insert_ne e).trans hlook⟩
  · intro task hm
    exact (h.tasks task (mem_middle.mpr (.inr hm))).grows (.refl ul) hV
  · exact oneShot_logOf_concat h.votesOnce (.write (h.votesOnce _) hread hnot)
  · intro id u p' hu
    rcases mem_logOf_concat.mp hu with hu | ⟨_, ha⟩
    · exact h.votesBy id u p' hu
    · cases ha
  · intro u hu
    simpa only [weigh_append, weigh_cons, mayReadUser, Nat.zero_add] using h.readUser u hu
  · intro u hu
    simpa only [weigh_append, weigh_cons, mayWriteUser, Nat.zero_add] using h.writeUser u hu
  · intro u hu
    rw [countP_logOf_other _ _ _ _ _ rfl]
    simpa only [weigh_append, weigh_cons, mayReadVote, Nat.zero_add] using h.readVote u hu
  · intro u hu
    have := h.writeVote u hu
    rw [countP_logOf_concat (writeBy Prod.fst u) Tap.UUID t u _ _ (by simp [writeBy])]
    simp only [weigh_append, weigh_cons, mayWriteVote] at this ⊢
    omega

theorem TapInv.exchange {new : List Task} (h : TapInv d₀ taps ⟨db, l₁ ++ x :: l₂, ul, vl⟩)
    (hnew : ∀ y ∈ new, TaskOk d₀ taps ul vl y)
    (hw : ∀ u, weigh (mayReadUser u) new = mayReadUser u x ∧
      weigh (mayWriteUser u) new = mayWriteUser u x ∧
      weigh (mayReadVote u) new = mayReadVote u x ∧ weigh (mayWriteVote u) new = mayWriteVote u x) :
    TapInv d₀ taps ⟨db, l₁ ++ l₂ ++ new, ul, vl⟩ := by
  have hsame : ∀ w : Task → Nat, weigh w new = w x →
      weigh w (l₁ ++ l₂ ++ new) = weigh w (l₁ ++ x :: l₂) := by
    intro w hw
    simp only [weigh_append, weigh_cons]
    omega
  refine ⟨h.users, h.votes, ?_, h.usersOnce, h.votesOnce, h.usersBy, h.votesBy, ?_, ?_, ?_, ?_⟩
  · intro task hm
    rcases List.mem_append.mp hm with hm | hm
    · exact h.tasks task (mem_middle.mpr (.inr hm))
    · exact hnew task hm
  · intro u hu
    rw [show weigh (mayReadUser u) _ = _ from hsame _ (hw u).1]; exact h.readUser u hu
  · intro u hu
    rw [show weigh (mayWriteUser u) _ = _ from hsame _ (hw u).2.1]; exact h.writeUser u hu
  · intro u hu
    rw [show weigh (mayReadVote u) _ = _ from hsame _ (hw u).2.2.1]; exact h.readVote u hu
  · intro u hu
    rw [show weigh (mayWriteVote u) _ = _ from hsame _ (hw u).2.2.2]; exact h.writeVote u hu

theorem TapInv.deliver_user {t : Tap} {r : Reply} {es : List Effect}
    (h : TapInv d₀ taps ⟨db, l₁ ++ .reply r (.tabOnCell t) :: l₂, ul, vl⟩)
    (hrun : tabOnCellClosure t r = .ok es) :
    TapInv d₀ taps ⟨db, l₁ ++ l₂ ++ es.flatMap Effect.tapTasks, ul, vl⟩ := by
  obtain ⟨ht, hread, d, rfl, hl⟩ := h.tasks _ (mem_middle.mpr (.inl rfl))
  rw [tabOnCellClosure_eq, Reply.withDocuments_ok, forDocuments_singleton,
    tabOnCellRound_eq_ok] at hrun
  obtain ⟨arrays, p, ha, hp, rfl⟩ := hrun
  rw [hl] at ha
  cases ha
  have htook : Took d₀ taps ul t p := ⟨ht, hread, hp⟩
  refine h.exchange (fun y hy => ?_) (fun u => ?_)
  · cases p with
    | first =>
      have hempty := pathOf_eq_first.mp hp
      simp only [Path.call, voteFirst, append_eq_cast hempty, List.flatMap_cons, List.flatMap_nil,
        Effect.tapTasks, Callback.isTap, if_true, List.append_nil, List.cons_append, List.nil_append,
        List.mem_cons, List.not_mem_nil, or_false] at hy
      rcases hy with rfl | rfl
      · exact ⟨ht, hread, rfl, rfl, rfl⟩
      · exact taskOk_read_vote htook
    | second extraIndex =>
      obtain rfl := List.mem_singleton.mp hy
      exact taskOk_read_vote htook
  · cases p <;> simp [Path.call, voteFirst, voteSecond, Effect.tapTasks, Callback.isTap, mayReadUser,
      mayWriteUser, mayReadVote, mayWriteVote]

theorem TapInv.deliver_vote {t : Tap} {p : Path} {r : Reply} {es : List Effect}
    (hc : Counts d₀ taps ul vl r t p)
    (h : TapInv d₀ taps ⟨db, l₁ ++ .reply r (p.callback t (captured d₀ ul t)) :: l₂, ul, vl⟩)
    (hrun : voteClosure p t (captured d₀ ul t) r = .ok es) :
    TapInv d₀ taps ⟨db, l₁ ++ l₂ ++ es.flatMap Effect.tapTasks, ul, vl⟩ := by
  obtain ⟨ht, hread, d, a, rfl, hd, ha⟩ := hc
  obtain ⟨writes, hw, rfl⟩ := voteClosure_ok_eq_ok.mp hrun
  rw [forDocuments_singleton, voteRound_eq_ok] at hw
  obtain ⟨array, array', harray, hcount, rfl⟩ := hw
  rw [hd] at harray
  cases harray
  have hreplay : replayVotes d₀ t.UUID (seen (logOf t.UUID vl) (t, p) ++ [(t, p)]) = .ok array' := by
    rw [replayVotes_concat, ha]
    exact hcount
  refine h.exchange (fun y hy => ?_) (fun u => ?_)
  · cases p with
    | first =>
      obtain rfl := List.mem_singleton.mp hy
      exact ⟨ht, hread, rfl, rfl, array', hreplay, rfl⟩
    | second extraIndex =>
      have hy' : y ∈ [Task.update t (.second extraIndex) .votes t.UUID .voteVariants (.records array'),
        .update t (.second extraIndex) .users t.emailString .userVotesList
          (.records (cast t.UUID t.index (captured d₀ ul t)))] := hy
      simp only [List.mem_cons, List.not_mem_nil, or_false] at hy'
      rcases hy' with rfl | rfl
      · exact ⟨ht, hread, rfl, rfl, array', hreplay, rfl⟩
      · exact ⟨ht.tap, ht.read, rfl, rfl, rfl⟩
  · cases p <;> simp [Path.writes, Path.callback, Effect.tapTasks, mayReadUser, mayWriteUser,
      mayReadVote, mayWriteVote]

end

/-- **Step lemma.** -/
theorem tapInv_step (hp : Present d₀ taps) {x y : TapState} {served : Option Task}
    (h : TapInv d₀ taps x) (hs : TapStep (fun _ => true) x served y) : TapInv d₀ taps y := by
  cases hs with
  | @read db l₁ l₂ q k ul vl ho =>
    have htask : TaskOk d₀ taps ul vl (.read q k) := h.tasks _ (mem_middle.mpr (.inl rfl))
    rcases htask.read_cases with ⟨t, _, rfl, rfl⟩ | ⟨t, p, ht, rfl, rfl⟩
    · have := h.read_user hp
      simpa only [Callback.usersRead, Callback.votesRead, List.append_nil] using this
    · have := h.read_vote hp ht
      simpa only [usersRead_callback, votesRead_callback, List.append_nil] using this
  | readFails ho => cases ho
  | @write db db' l₁ l₂ t p c document f v ul vl ho hdb =>
    cases c with
    | users =>
      have := h.write_user hdb
      simpa only [usersWrite, votesWrite, List.append_nil] using this
    | votes =>
      have := h.write_vote hdb
      simpa only [usersWrite, votesWrite, List.append_nil] using this
  | @writeFails db l₁ l₂ t p c document f v ul vl hdb =>
    have hdb := hdb.resolve_left (by simp)
    have htask := h.tasks _ (mem_middle.mpr (.inl rfl))
    exfalso
    cases c with
    | users =>
      obtain ⟨ht, _, rfl, _⟩ := htask
      obtain ⟨d, _, hd, _⟩ := h.find_user hp ht
      have hd : (db.get .users).lookup t.emailString = some d := hd
      rw [Database.updateData, hd] at hdb
      cases hdb
    | votes =>
      obtain ⟨ht, _, rfl, _⟩ := htask
      obtain ⟨d, _, _, hd, _⟩ := h.find_vote hp ht.tap
      have hd : (db.get .votes).lookup t.UUID = some d := hd
      rw [Database.updateData, hd] at hdb
      cases hdb
  | @deliver db l₁ l₂ r k es ul vl hk hrun =>
    have htask : TaskOk d₀ taps ul vl (.reply r k) := h.tasks _ (mem_middle.mpr (.inl rfl))
    rcases htask.reply_cases with ⟨t, _, rfl, _⟩ | ⟨t, p, hc, rfl⟩
    · exact h.deliver_user hrun
    · refine h.deliver_vote hc ?_
      cases p <;> exact hrun

/-! ## runs -/

theorem weigh_map_tabOnCell (w : Task → Nat) (t : Tap)
    (hw : ∀ u, w (.read (.usersWhere u.emailString) (.tabOnCell u)) = one (u = t)) :
    weigh w (taps.map fun u => .read (.usersWhere u.emailString) (.tabOnCell u)) = taps.count t := by
  induction taps with
  | nil => rfl
  | cons u l ih =>
    rw [List.map_cons, weigh_cons, hw, ih, List.count_cons]
    by_cases e : u = t
    · simp [one, e, Nat.add_comm]
    · simp [one, e]

theorem tapping_tapState (db : Database) (taps : List Tap) (views : List VoteView) :
    (System.tapping db taps views).tapState =
      ⟨db, taps.map fun t => .read (.usersWhere t.emailString) (.tabOnCell t), [], []⟩ := by
  unfold System.tapState System.tapping
  congr 1
  rw [List.filter_eq_self]
  intro task h
  obtain ⟨t, _, rfl⟩ := List.mem_map.mp h
  rfl

theorem tapInv_tapping (db : Database) (hnodup : taps.Nodup) (views : List VoteView) :
    TapInv db taps (System.tapping db taps views).tapState := by
  rw [tapping_tapState]
  have hone : ∀ t ∈ taps, taps.count t = 1 := fun t ht =>
    List.count_eq_one_of_mem hnodup ht
  refine ⟨?_, ?_, ?_, fun _ => .nil, fun _ => .nil, ?_, ?_, ?_, ?_, ?_, ?_⟩
  · intro id
    show db.users.lookup id = (db.users.lookup id).map (userAfter db id [])
    cases db.users.lookup id <;> rfl
  · intro id
    refine ⟨_, rfl, ?_⟩
    show db.votes.lookup id = (db.votes.lookup id).map (voteAfter [] _)
    cases db.votes.lookup id <;> rfl
  · intro task h
    obtain ⟨t, ht, rfl⟩ := List.mem_map.mp h
    exact ⟨ht, rfl⟩
  · intro id t h; cases h
  · intro id t p h; cases h
  all_goals
    intro t ht
    rw [weigh_map_tabOnCell _ t fun u => rfl, hone t ht]
    rfl

/-- **Run lemma.** -/
theorem tapInv_run {db : Database} {views : List VoteView} {ms : List Move} {u : System}
    (hp : Present db taps) (hnodup : taps.Nodup)
    (h : Machine.exec (System.proceed fun _ => true) (System.tapping db taps views) ms = some u) :
    TapInv db taps u.tapState := by
  have hnet : ∀ x ∈ (System.tapping db taps views).net, x.replaces = false := by
    intro x hx
    obtain ⟨t, _, rfl⟩ := List.mem_map.mp hx
    rfl
  have hrun := run_tapState hnet h
  generalize u.tapState = y at hrun
  induction hrun with
  | refl => exact tapInv_tapping db hnodup views
  | tail _ hstep ih =>
    obtain ⟨served, hstep⟩ := hstep
    exact tapInv_step hp ih hstep

end

end VoteOnOffice
