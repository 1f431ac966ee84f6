import Mathlib.Data.List.Infix
import Mathlib.Tactic.Common

/-!
# Changes along a list

Reports of something that has a key, the oldest first. A report is a change if it has another key
than the report before it.
-/

namespace Nolrem.Lib

variable {α κ : Type} [DecidableEq κ] (key : α → κ)

/-- The key after some reports, if it was `k` before them -/
def keyAfter : κ → List α → κ
  | k, [] => k
  | _, a :: l => keyAfter (key a) l

/-- The reports that change the key -/
def changes : κ → List α → List α
  | _, [] => []
  | k, a :: l => (if key a = k then [] else [a]) ++ changes (key a) l

/-- What is kept of some reports has the same changes and ends with the same report. -/
structure Coalesced (k : κ) (reports kept : List α) : Prop where
  changes_eq : changes key k kept = changes key k reports
  last : kept.getLast? = reports.getLast?
  sublist : List.Sublist kept reports

variable {key} {k : κ} {a b : α} {l l' reports kept : List α}

omit [DecidableEq κ] in
theorem keyAfter_concat : keyAfter key k (l ++ [a]) = key a := by
  induction l generalizing k with
  | nil => rfl
  | cons b l ih => exact ih

omit [DecidableEq κ] in
/-- The last report alone tells the key. -/
theorem keyAfter_congr (h : l.getLast? = l'.getLast?) : keyAfter key k l = keyAfter key k l' := by
  rcases List.eq_nil_or_concat' l with rfl | ⟨init, a, rfl⟩
  · rw [List.getLast?_nil, eq_comm, List.getLast?_eq_none_iff] at h
    rw [h]
  · rcases List.eq_nil_or_concat' l' with rfl | ⟨init', a', rfl⟩
    · simp at h
    · rw [List.getLast?_concat, List.getLast?_concat, Option.some.injEq] at h
      rw [keyAfter_concat, keyAfter_concat, h]

theorem changes_append :
    changes key k (l ++ l') = changes key k l ++ changes key (keyAfter key k l) l' := by
  induction l generalizing k with
  | nil => rfl
  | cons a l ih =>
    rw [List.cons_append, changes, changes, keyAfter, ih, List.append_assoc]

namespace Coalesced

theorem nil : Coalesced key k [] [] := ⟨rfl, rfl, List.Sublist.refl []⟩

/-- A report is kept. -/
theorem push (h : Coalesced key k reports kept) (a : α) :
    Coalesced key k (reports ++ [a]) (kept ++ [a]) := by
  constructor
  · rw [changes_append, changes_append, h.changes_eq, keyAfter_congr h.last]
  · rw [List.getLast?_concat, List.getLast?_concat]
  · exact h.sublist.append_right [a]

/-- A report takes the place of the last one that was kept, which is no change. -/
theorem replace (h : Coalesced key k reports (kept ++ [b])) (hb : key b = keyAfter key k kept)
    (a : α) : Coalesced key k (reports ++ [a]) (kept ++ [a]) := by
  constructor
  · have hlast : keyAfter key k reports = key b := by
      rw [keyAfter_congr h.last.symm, keyAfter_concat]
    have hsame : changes key k (kept ++ [b]) = changes key k kept := by
      rw [changes_append, ← hb, changes, if_pos rfl]
      exact List.append_nil _
    rw [changes_append, changes_append, hlast, ← h.changes_eq, hsame, hb]
  · rw [List.getLast?_concat, List.getLast?_concat]
  · exact ((List.sublist_append_left kept [b]).trans h.sublist).append_right [a]

end Coalesced

end Nolrem.Lib
