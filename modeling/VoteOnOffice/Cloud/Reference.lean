import Mathlib.Data.List.Infix

/-!
# References: `document(_:)` takes a path

* `resourcePath`       the segments of a path, empty ones at its ends skipped;
* `documentWithPath`   what `document(path)` of a collection leads to, unless it raises an exception;
* `userDocument`       the id of `collection("Users").document(email)`, if that is a document of `Users`;
* `Plain`              the e-mail does not begin or end with `/`;
* `userDocument_plain`
                       **the document of a plain e-mail has the e-mail as its id, or is not in `Users`.**
-/

namespace VoteOnOffice

/-- `ResourcePath::FromString`; `none` is its assertion that there is no `//` -/
def resourcePath (path : String) : Option (List String) :=
  if ['/', '/'] <:+: path.toList then none
  else some (((path.toList.splitOn '/').filter (· ≠ [])).map String.ofList)

inductive Reference where
  | document (id : String)
  /-- a document of a collection that is itself below a document -/
  | below (segments : List String)
  deriving DecidableEq, Repr

/-- with the collection in front, the path of a document has an even number of segments -/
def documentWithPath (documentPath : String) : Option Reference :=
  (resourcePath documentPath).bind fun
    | [id] => some (.document id)
    | subPath => if subPath.length % 2 = 1 then some (.below subPath) else none

def userDocument (email : String) : Option String :=
  match documentWithPath email with
  | some (.document id) => some id
  | _ => none

structure Plain (email : String) : Prop where
  begins : email.toList.head? ≠ some '/'
  ends : email.toList.getLast? ≠ some '/'

instance (email : String) : Decidable (Plain email) :=
  decidable_of_iff (email.toList.head? ≠ some '/' ∧ email.toList.getLast? ≠ some '/')
    ⟨fun h => ⟨h.1, h.2⟩, fun h => ⟨h.begins, h.ends⟩⟩

theorem userDocument_eq_some {email id : String} (h : userDocument email = some id) :
    resourcePath email = some [id] := by
  unfold userDocument documentWithPath at h
  cases hpath : resourcePath email with
  | none => simp [hpath] at h
  | some segments =>
    rw [hpath, Option.bind_some] at h
    rcases segments with _ | ⟨x, _ | ⟨y, rest⟩⟩
    · simp at h
    · simpa using h
    · split at h <;> simp_all

theorem eq_of_splitOn_nil {l : List Char} (h : (l.splitOn '/').filter (· ≠ []) = []) :
    ∀ c ∈ l, c = '/' := by
  induction l with
  | nil => exact fun c hc => absurd hc List.not_mem_nil
  | cons a l ih =>
    rw [List.splitOn_cons_eq_if_modifyHead] at h
    by_cases ha : a = '/'
    · rw [if_pos (beq_iff_eq.mpr ha), List.filter_cons_of_neg (by simp)] at h
      intro c hc
      rcases List.mem_cons.mp hc with rfl | hc
      · exact ha
      · exact ih h c hc
    · rw [if_neg (by simpa using ha)] at h
      cases hs : l.splitOn '/' with
      | nil => exact absurd hs (List.splitOn_ne_nil _ _)
      | cons x xs =>
        rw [hs, List.modifyHead_cons, List.filter_cons_of_pos (by simp)] at h
        cases h

theorem eq_of_splitOn_singleton {l x : List Char} (hbegins : l.head? ≠ some '/')
    (hends : l.getLast? ≠ some '/') (h : (l.splitOn '/').filter (· ≠ []) = [x]) : x = l := by
  by_cases hslash : '/' ∈ l
  · -- the first `/` splits off a segment, so there is no other
    obtain ⟨a, b, rfl, ha⟩ := List.eq_append_cons_of_mem hslash
    have hne : a ≠ [] := by
      rintro rfl
      exact hbegins rfl
    rw [List.splitOn_append_cons_self_of_not_mem ha, List.filter_cons_of_pos (by simpa using hne)]
      at h
    have hall := eq_of_splitOn_nil (List.cons_eq_cons.mp h).2
    refine absurd ?_ hends
    rw [List.getLast?_append, List.getLast?_cons]
    cases hb : b.getLast? with
    | none => rfl
    | some c => rw [hall c (List.mem_of_getLast? hb)]; rfl
  · rw [List.splitOn_eq_singleton hslash] at h
    have hx : x ∈ [l].filter (· ≠ []) := by rw [h]; exact List.mem_singleton_self x
    exact List.mem_singleton.mp (List.mem_filter.mp hx).1

theorem userDocument_plain {email id : String} (hemail : Plain email)
    (h : userDocument email = some id) : id = email := by
  have hpath := userDocument_eq_some h
  unfold resourcePath at hpath
  obtain ⟨_, hpath⟩ := Option.ite_none_left_eq_some.mp hpath
  obtain ⟨x, hx, hid⟩ := List.map_eq_singleton_iff.mp (Option.some.inj hpath)
  rw [← hid, eq_of_splitOn_singleton hemail.begins hemail.ends hx, String.ofList_toList]

example : documentWithPath "a/b/c@x.y" = some (.below ["a", "b", "c@x.y"]) ∧
    documentWithPath "a/b@x.y" = none ∧ userDocument "/ab@x.y" = some "ab@x.y" := by decide

end VoteOnOffice
