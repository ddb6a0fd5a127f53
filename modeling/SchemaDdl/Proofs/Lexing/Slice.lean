import SchemaDdl.Script.Lexeme

/-!
# Slices by byte offsets

A part of a text that is named by two byte offsets. There is such a part only if both offsets stand
between characters, inside the text and in order.
-/

namespace SchemaDdl.Script

/-! ## Bytes -/

@[simp] theorem byteLength_nil : byteLength [] = 0 := rfl

@[simp] theorem byteLength_cons (c : Char) (cs : List Char) :
    byteLength (c :: cs) = c.utf8Size + byteLength cs := rfl

@[simp] theorem byteLength_append (a b : List Char) :
    byteLength (a ++ b) = byteLength a + byteLength b := by
  induction a with
  | nil => simp
  | cons c cs ih => rw [List.cons_append, byteLength_cons, byteLength_cons, ih, Nat.add_assoc]

theorem byteLength_pos {cs : List Char} (h : cs ≠ []) : 0 < byteLength cs := by
  cases cs with
  | nil => exact absurd rfl h
  | cons c cs => exact Nat.add_pos_left c.utf8Size_pos _

/-- The bytes that are counted are those of the text as a string. -/
theorem byteLength_toList (s : String) : byteLength s.toList = s.utf8ByteSize := by
  suffices h : ∀ cs : List Char, byteLength cs = (String.ofList cs).utf8ByteSize by
    rw [h, String.ofList_toList]
  intro cs
  induction cs with
  | nil => rfl
  | cons c cs ih =>
    rw [byteLength_cons, ih, ← List.singleton_append, String.ofList_append, String.utf8ByteSize_append]
    simp

/-- What follows the first `n` bytes. -/
def dropBytes? : Nat → List Char → Option (List Char)
  | 0, cs => some cs
  | _ + 1, [] => none
  | n + 1, c :: cs => if c.utf8Size ≤ n + 1 then dropBytes? (n + 1 - c.utf8Size) cs else none

/-- The characters of the first `n` bytes. -/
def takeBytes? : Nat → List Char → Option (List Char)
  | 0, _ => some []
  | _ + 1, [] => none
  | n + 1, c :: cs =>
    if c.utf8Size ≤ n + 1 then (takeBytes? (n + 1 - c.utf8Size) cs).map (c :: ·) else none

/-- The part of a text between two byte offsets. -/
def slice? (cs : List Char) (start stop : Nat) : Option (List Char) :=
  if start ≤ stop then (dropBytes? start cs).bind (takeBytes? (stop - start)) else none

theorem exists_byteLength_cons (c : Char) (cs : List Char) :
    ∃ n, byteLength (c :: cs) = n + 1 ∧ c.utf8Size ≤ n + 1 ∧ n + 1 - c.utf8Size = byteLength cs := by
  have hpos := c.utf8Size_pos
  rw [byteLength_cons]
  exact ⟨c.utf8Size + byteLength cs - 1, by omega, by omega, by omega⟩

theorem dropBytes?_append (before rest : List Char) :
    dropBytes? (byteLength before) (before ++ rest) = some rest := by
  induction before with
  | nil => exact dropBytes?.eq_1 rest
  | cons c cs ih =>
    obtain ⟨n, hn, hle, hrest⟩ := exists_byteLength_cons c cs
    rw [hn, List.cons_append, dropBytes?, if_pos hle, hrest, ih]

theorem takeBytes?_append (part rest : List Char) :
    takeBytes? (byteLength part) (part ++ rest) = some part := by
  induction part with
  | nil => exact takeBytes?.eq_1 rest
  | cons c cs ih =>
    obtain ⟨n, hn, hle, hrest⟩ := exists_byteLength_cons c cs
    rw [hn, List.cons_append, takeBytes?, if_pos hle, hrest, ih]
    rfl

theorem dropBytes?_eq_some_iff {n : Nat} {cs rest : List Char} :
    dropBytes? n cs = some rest ↔ ∃ before, cs = before ++ rest ∧ byteLength before = n := by
  constructor
  · intro h
    fun_induction dropBytes? n cs with
    | case1 cs =>
      cases h
      exact ⟨[], rfl, rfl⟩
    | case2 => cases h
    | case3 n c cs hle ih =>
      obtain ⟨before, rfl, hbefore⟩ := ih h
      exact ⟨c :: before, rfl, by rw [byteLength_cons]; omega⟩
    | case4 => cases h
  · rintro ⟨before, rfl, rfl⟩
    exact dropBytes?_append before rest

theorem takeBytes?_eq_some_iff {n : Nat} {cs part : List Char} :
    takeBytes? n cs = some part ↔ ∃ rest, cs = part ++ rest ∧ byteLength part = n := by
  constructor
  · intro h
    fun_induction takeBytes? n cs generalizing part with
    | case1 cs =>
      cases h
      exact ⟨cs, rfl, rfl⟩
    | case2 => cases h
    | case3 n c cs hle ih =>
      obtain ⟨part, hpart, rfl⟩ := Option.map_eq_some_iff.1 h
      obtain ⟨rest, rfl, hlength⟩ := ih hpart
      exact ⟨rest, rfl, by rw [byteLength_cons]; omega⟩
    | case4 => cases h
  · rintro ⟨rest, rfl, rfl⟩
    exact takeBytes?_append part rest

/-- A slice is a part of the text, and its offsets are where it starts and stops. -/
theorem slice?_eq_some_iff {cs part : List Char} {start stop : Nat} :
    slice? cs start stop = some part ↔ ∃ before after, cs = before ++ (part ++ after) ∧
      start = byteLength before ∧ stop = byteLength (before ++ part) := by
  constructor
  · intro h
    rw [slice?] at h
    split at h
    · rename_i hle
      obtain ⟨rest, hdrop, htake⟩ := Option.bind_eq_some_iff.1 h
      obtain ⟨before, rfl, hbefore⟩ := dropBytes?_eq_some_iff.1 hdrop
      obtain ⟨after, rfl, hpart⟩ := takeBytes?_eq_some_iff.1 htake
      refine ⟨before, after, rfl, hbefore.symm, ?_⟩
      rw [byteLength_append, hbefore, hpart]
      omega
    · cases h
  · rintro ⟨before, after, rfl, rfl, rfl⟩
    have hlength : byteLength (before ++ part) - byteLength before = byteLength part := by
      rw [byteLength_append]
      omega
    rw [slice?, if_pos (by rw [byteLength_append]; omega), dropBytes?_append, hlength]
    exact takeBytes?_append part after

end SchemaDdl.Script
