import SchemaDdl.Json.Parse
import SchemaDdl.Proofs.Fallible
import SchemaDdl.Proofs.Json.Lexing

/-!
# Printed JSON is read back

The tokens of a value, read while a value is due, hand that value to the innermost open array or
object, whatever is open around it. So the printed text of a value is parsed as the value.
-/

namespace SchemaDdl.Json

/-- Reads some tokens from a state on. -/
def run (s : State) (ts : List Token) : Option State :=
  ts.foldlM State.next s

theorem run_cons (s : State) (t : Token) (ts : List Token) :
    run s (t :: ts) = (s.next t).bind fun s => run s ts := by
  rw [run, List.foldlM_cons]
  rfl

theorem run_append (s : State) (ts us : List Token) :
    run s (ts ++ us) = (run s ts).bind fun s => run s us := by
  rw [run, List.foldlM_append]
  rfl

theorem run_step {s s' : State} {t : Token} (h : s.next t = some s') (ts : List Token) :
    run s (t :: ts) = run s' ts := by
  rw [run_cons, h, Option.bind_some]

theorem run_then {s s' : State} {ts : List Token} (h : run s ts = some s') (us : List Token) :
    run s (ts ++ us) = run s' us := by
  rw [run_append, h, Option.bind_some]

/-- A value is complete when its tokens have been read, wherever it was due. -/
def Reads (j : Json) : Prop :=
  ∀ outer, run (.value outer) (valueTokens j) = some (.complete j outer)

theorem run_items {items : List Json} (h : ∀ j ∈ items, Reads j) (hne : items ≠ [])
    (before : List Json) (outer : List Frame) :
    run (.value (.array before :: outer)) (itemTokens items) =
      some (.nextItem (items.reverse ++ before) outer) := by
  induction items generalizing before with
  | nil => exact absurd rfl hne
  | cons j js ih =>
    have hj := h j List.mem_cons_self (.array before :: outer)
    cases js with
    | nil => exact hj
    | cons k js =>
      have hjs := ih (fun i hi => h i (List.mem_cons_of_mem j hi)) (List.cons_ne_nil k js)
        (j :: before)
      rw [itemTokens, run_then hj, State.complete, run_step rfl, hjs]
      simp

/-- A member as an open object keeps it. -/
def kept (m : String × Json) : Option String × Json :=
  (some m.1, m.2)

theorem run_members {members : List (String × Json)} (h : ∀ m ∈ members, Reads m.2)
    (hne : members ≠ []) (before : List (Option String × Json)) (outer : List Frame) :
    run (.nextKey before outer) (memberTokens members) =
      some (.nextMember ((members.map kept).reverse ++ before) outer) := by
  induction members generalizing before with
  | nil => exact absurd rfl hne
  | cons m ms ih =>
    obtain ⟨k, j⟩ := m
    have hj : run (.nextKey before outer) (.string (some k) :: .colon :: valueTokens j) =
        some (.nextMember (kept (k, j) :: before) outer) := by
      rw [run_step rfl, run_step rfl]
      exact h (k, j) List.mem_cons_self (.object before (some k) :: outer)
    cases ms with
    | nil => exact hj
    | cons m ms =>
      have hms := ih (fun i hi => h i (List.mem_cons_of_mem _ hi)) (List.cons_ne_nil m ms)
        (kept (k, j) :: before)
      rw [memberTokens, run_then hj, run_step rfl, hms]
      simp

theorem closedObject_reverse (members : List (String × Json)) :
    closedObject (members.map kept).reverse = .object members := by
  have hmembers : (members.map kept).mapM (fun m => m.1.map fun k => (k, m.2)) = some members := by
    rw [mapM_eq_some_iff, List.map_map]
    rfl
  rw [closedObject, List.reverse_reverse]
  split
  · rename_i ms hms
    exact congrArg Json.object (Option.some.inj (hms.symm.trans hmembers))
  · rename_i hnone
    cases hnone.symm.trans hmembers

/-- The first token of a value closes no array. -/
theorem run_firstItem (j : Json) (ts : List Token) (outer : List Frame) :
    run (.firstItem outer) (valueTokens j ++ ts) =
      run (.value (.array [] :: outer)) (valueTokens j ++ ts) := by
  cases j <;> rfl

theorem run_firstItems (j : Json) (js : List Json) (outer : List Frame) :
    run (.firstItem outer) (itemTokens (j :: js)) =
      run (.value (.array [] :: outer)) (itemTokens (j :: js)) := by
  cases js with
  | nil =>
    have hfirst := run_firstItem j [] outer
    rwa [List.append_nil] at hfirst
  | cons k js => exact run_firstItem j (.comma :: itemTokens (k :: js)) outer

theorem run_firstKey (m : String × Json) (ms : List (String × Json)) (outer : List Frame) :
    run (.firstKey outer) (memberTokens (m :: ms)) =
      run (.nextKey [] outer) (memberTokens (m :: ms)) := by
  cases ms <;> rfl

theorem reads_array {items : List Json} (h : ∀ j ∈ items, Reads j) : Reads (.array items) := by
  intro outer
  cases items with
  | nil => rfl
  | cons j js =>
    have hitems := run_items h (List.cons_ne_nil j js) [] outer
    rw [← run_firstItems, List.append_nil] at hitems
    have hall := run_then hitems [.closeArray]
    rw [run_step rfl, List.reverse_reverse] at hall
    rw [valueTokens, List.cons_append, run_step rfl]
    exact hall

theorem reads_object {members : List (String × Json)} (h : ∀ m ∈ members, Reads m.2) :
    Reads (.object members) := by
  intro outer
  cases members with
  | nil => rfl
  | cons m ms =>
    have hmembers := run_members h (List.cons_ne_nil m ms) [] outer
    rw [← run_firstKey, List.append_nil] at hmembers
    have hall := run_then hmembers [.closeObject]
    rw [run_step rfl, closedObject_reverse] at hall
    rw [valueTokens, List.cons_append, run_step rfl]
    exact hall

/-- Values of any depth are read, by induction on how they are built. -/
theorem Printable.reads {j : Json} (h : Printable j) : Reads j := by
  induction h with
  | null => exact fun outer => rfl
  | bool b => exact fun outer => rfl
  | number h => exact fun outer => rfl
  | string s => exact fun outer => rfl
  | array _ ih => exact reads_array ih
  | object _ ih => exact reads_object ih

theorem parse?_of_spells {text : String} {j : Json} (h : Printable j)
    (hs : Spells text.toList (valueTokens j)) : parse? text = some j := by
  have hrun : (valueTokens j).foldlM State.next (.value []) = some (.finished j) := h.reads []
  rw [parse?, hs.tokens?_eq]
  simp only [Option.bind_eq_bind, Option.bind_some, hrun]

/-- A printed value is read back. -/
theorem parse?_pretty {j : Json} (h : Printable j) : parse? j.pretty = some j := by
  apply parse?_of_spells h
  rw [pretty, String.toList_ofList]
  exact h.spells 0

theorem parseCanonical?_pretty {j : Json} (h : Printable j) (hdepth : j.depth ≤ depthLimit) :
    parseCanonical? j.pretty = j.canonical? := by
  rw [parseCanonical?, parse?_pretty h, Option.bind_eq_bind, Option.bind_some, if_pos hdepth]

/-- A line break behind a printed value makes no difference. -/
theorem parse?_pretty_newLine {j : Json} (h : Printable j) :
    parse? (j.pretty ++ "\n") = some j := by
  have hbreak : "\n".toList = ['\n'] := rfl
  apply parse?_of_spells h
  rw [String.toList_append, pretty, String.toList_ofList, hbreak]
  have hblank : Spells ['\n'] [] := Spells.nil.blank rfl
  have hall := (h.spells 0).append hblank (Decimal.stops_cons rfl [])
  rwa [List.append_nil] at hall

end SchemaDdl.Json
