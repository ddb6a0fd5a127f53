import SchemaDdl.Files
import SchemaDdl.Proofs.Fallible

/-!
# Files that have been written

A text that is written to a place that can be written to is read back from it, unless that place is
the null device. The way there leads through the same directories as before.
-/

namespace SchemaDdl

namespace Files

/-- The files after a text has been written to a place that can be written to. -/
def put (files : Files) (path text : String) : Files :=
  if Location.ofPath path == Location.ofPath nullDevice.1 then files else (path, text) :: files

variable {files : Files} {path : String} {l k : Location} {parts : List String}

section Put

variable (text : String)

theorem text?_put (h : Location.ofPath path ≠ Location.ofPath nullDevice.1) :
    (files.put path text).text? (Location.ofPath path) = some text := by
  simp [put, h, text?]

theorem text?_put_of_ne (h : Location.ofPath path ≠ l) :
    (files.put path text).text? l = files.text? l := by
  rw [put]
  split
  · rfl
  · rw [text?, List.find?_cons_of_neg (by simpa using h)]
    rfl

theorem isDirectory_put (h : files.isDirectory l = true) :
    (files.put path text).isDirectory l = true := by
  rw [put]
  split
  · exact h
  · rw [isDirectory, Bool.or_eq_true] at h ⊢
    refine h.imp_right fun hany => ?_
    rw [List.any_cons, hany, Bool.or_true]

end Put

theorem follow_cons_eq_ok_iff {part : String} :
    files.follow l (part :: parts) = .ok k ↔ files.text? l = none ∧ files.isDirectory l = true ∧
      part.utf8ByteSize ≤ nameLimit ∧ files.follow (l.step part) parts = .ok k := by
  rw [follow]
  constructor
  · intro h
    split at h
    · cases h
    · split at h
      · cases h
      · split at h
        · cases h
        · refine ⟨by simp_all, by simp_all, by omega, h⟩
  · rintro ⟨htext, hdirectory, hlength, h⟩
    simp [htext, hdirectory, Nat.not_lt.2 hlength, h]

theorem eq_of_follow (h : files.follow l parts = .ok k) : k = parts.foldl Location.step l := by
  induction parts generalizing l with
  | nil => cases h; rfl
  | cons part parts ih => exact ih (follow_cons_eq_ok_iff.1 h).2.2.2

theorem follow_append {more : List String} {r : Location} :
    files.follow l (parts ++ more) = .ok r ↔
      ∃ k, files.follow l parts = .ok k ∧ files.follow k more = .ok r := by
  induction parts generalizing l with
  | nil => simp [follow]
  | cons part parts ih =>
    simp only [List.cons_append, follow_cons_eq_ok_iff, ih]
    constructor
    · rintro ⟨htext, hdirectory, hlength, k, hk, hr⟩
      exact ⟨k, ⟨htext, hdirectory, hlength, hk⟩, hr⟩
    · rintro ⟨k, ⟨htext, hdirectory, hlength, hk⟩, hr⟩
      exact ⟨htext, hdirectory, hlength, k, hk, hr⟩

/-- No directory is the place of a new text, so that the way through them stays open. -/
theorem follow_put (hfile : files.isDirectory (Location.ofPath path) = false) (text : String)
    (h : files.follow l parts = .ok k) : (files.put path text).follow l parts = .ok k := by
  induction parts generalizing l with
  | nil => exact h
  | cons part parts ih =>
    obtain ⟨htext, hdirectory, hlength, h⟩ := follow_cons_eq_ok_iff.1 h
    have hne : Location.ofPath path ≠ l := by
      rintro rfl
      rw [hdirectory] at hfile
      cases hfile
    apply follow_cons_eq_ok_iff.2
    exact ⟨(text?_put_of_ne text hne).trans htext, isDirectory_put text hdirectory, hlength, ih h⟩

/-- A path that can be written to: directories lead to it, and its last part is the name of no
directory. -/
structure Writable (files : Files) (path : String) (before : List String) (last : String) : Prop where
  length : path.utf8ByteSize ≤ pathLimit
  parts : Location.parts path = before ++ [last]
  named : last ≠ "" ∧ last ≠ "." ∧ last ≠ ".."
  follow : files.follow (.start path) (Location.parts path) = .ok (Location.ofPath path)
  file : files.isDirectory (Location.ofPath path) = false

theorem exists_writable_of_target (h : files.target path = .ok l) :
    ∃ before last, files.Writable path before last := by
  rw [target] at h
  split at h
  · cases h
  rename_i hlength
  dsimp only at h
  split at h
  · cases h
  rename_i last before hparts
  obtain ⟨directory, hdirectory, h⟩ := bind_eq_ok_iff.1 h
  split at h
  · cases h
  rename_i hnamed
  obtain ⟨k, hk, h⟩ := bind_eq_ok_iff.1 h
  split at h
  · cases h
  rename_i hfile
  cases h
  simp only [Bool.or_eq_true, beq_iff_eq, not_or] at hnamed
  obtain ⟨⟨hhead, hdot⟩, hdots⟩ := hnamed
  have hreverse : (Location.parts path).reverse = last :: before := by
    cases hcases : (Location.parts path).reverse with
    | nil =>
      rw [hcases] at hparts
      cases hparts
    | cons part others =>
      rw [hcases, List.head?_cons, Option.some.injEq] at hhead
      rw [← hparts, hcases, List.dropWhile_cons_of_neg (by simpa using hhead)]
  have hsplit : Location.parts path = before.reverse ++ [last] := by
    rw [← List.reverse_cons, ← hreverse, List.reverse_reverse]
  have hfollow : files.follow (.start path) (Location.parts path) = .ok l := by
    obtain ⟨j, hj, hstay⟩ := follow_append.1 hdirectory
    obtain rfl : directory = j := eq_of_follow hstay
    rw [hsplit]
    exact follow_append.2 ⟨directory, hj, hk⟩
  have hplace : l = Location.ofPath path := eq_of_follow hfollow
  rw [hreverse, List.head?_cons, Option.some.injEq] at hhead
  refine ⟨before.reverse, last, Nat.not_lt.1 hlength, hsplit, ⟨hhead, hdot, hdots⟩, ?_, ?_⟩
  · rw [hfollow, hplace]
  · rw [← hplace]
    simpa using hfile

theorem Writable.getLast?_names {before : List String} {last : String}
    (h : files.Writable path before last) : (Location.ofPath path).names.getLast? = some last := by
  obtain ⟨hempty, hdot, hdots⟩ := h.named
  simp [Location.ofPath, h.parts, Location.step, hempty, hdot, hdots]

theorem read_put {before : List String} {last : String} (h : files.Writable path before last)
    (hnull : Location.ofPath path ≠ Location.ofPath nullDevice.1) (text : String) :
    (files.put path text).read path = .ok text := by
  rw [read, if_neg (Nat.not_lt.2 h.length)]
  apply bind_eq_ok_iff.2
  refine ⟨_, follow_put h.file text h.follow, ?_⟩
  rw [text?_put text hnull]
  rfl

end Files

end SchemaDdl
