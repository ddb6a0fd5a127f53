import SchemaDdl.Json.Parse
import SchemaDdl.Proofs.Fallible

/-!
# Numbers of parsed JSON

Every number in the value of a text has been read from a number text. So what holds of all numbers
that are read holds of all numbers in the value, whichever arrays and objects they stand in.
-/

namespace SchemaDdl.Json

/-- Every number in a value has a property. -/
inductive EveryNumber (p : Decimal.Number → Prop) : Json → Prop where
  | null : EveryNumber p .null
  | bool (b : Bool) : EveryNumber p (.bool b)
  | number {n : Decimal.Number} (h : p n) : EveryNumber p (.number n)
  | string (s : String) : EveryNumber p (.string s)
  | array {items : List Json} (h : ∀ j ∈ items, EveryNumber p j) : EveryNumber p (.array items)
  | object {members : List (String × Json)} (h : ∀ m ∈ members, EveryNumber p m.2) :
    EveryNumber p (.object members)
  | unreadable : EveryNumber p .unreadable

section

variable {p : Decimal.Number → Prop} (hp : ∀ t n, Decimal.Number.ofText? t = some n → p n)

include hp

theorem everyNumber_scalarOfNumber (t : Decimal.NumberText) :
    EveryNumber p (scalarOfNumber t) := by
  rw [scalarOfNumber]
  split
  · rename_i n hn
    exact .number (hp t n hn)
  · exact .unreadable

theorem everyNumber_of_token? {c : Char} {cs rest : List Char} {v : Json}
    (h : token? c cs = some (.scalar v, rest)) : EveryNumber p v := by
  rw [token?.eq_def] at h
  split at h
  iterate 6
    cases h
  · obtain ⟨_, _, ⟨⟩⟩ := Option.map_eq_some_iff.1 h
  · obtain ⟨_, _, ⟨⟩⟩ := Option.map_eq_some_iff.1 h
    exact .null
  · obtain ⟨_, _, ⟨⟩⟩ := Option.map_eq_some_iff.1 h
    exact .bool true
  · obtain ⟨_, _, ⟨⟩⟩ := Option.map_eq_some_iff.1 h
    exact .bool false
  · obtain ⟨⟨t, rest⟩, _, ⟨⟩⟩ := Option.map_eq_some_iff.1 h
    exact everyNumber_scalarOfNumber hp t

theorem everyNumber_of_tokensWithin {n : Nat} {cs : List Char} {ts : List Token} {v : Json}
    (h : tokensWithin n cs = some ts) (hv : .scalar v ∈ ts) : EveryNumber p v := by
  induction n generalizing cs ts with
  | zero =>
    obtain ⟨-, rfl⟩ : cs = [] ∧ [] = ts := by simpa [tokensWithin] using h
    cases hv
  | succ n ih =>
    rw [tokensWithin] at h
    split at h
    · obtain rfl := Option.some.inj h
      cases hv
    · simp only [Option.bind_eq_bind, Option.bind_eq_some_iff, Option.pure_def,
        Option.some.injEq, Prod.exists] at h
      obtain ⟨t, rest, htoken, us, hrest, rfl⟩ := h
      rcases List.mem_cons.1 hv with rfl | hv
      · exact everyNumber_of_token? hp htoken
      · exact ih hrest hv

end

/-- The values in an open array or object. -/
def Frame.held : Frame → List Json
  | .array items => items
  | .object members _ => members.map Prod.snd

/-- The values read so far. -/
def State.held : State → List Json
  | .value outer => outer.flatMap Frame.held
  | .firstItem outer => outer.flatMap Frame.held
  | .firstKey outer => outer.flatMap Frame.held
  | .nextKey members outer => members.map Prod.snd ++ outer.flatMap Frame.held
  | .colon members _ outer => members.map Prod.snd ++ outer.flatMap Frame.held
  | .nextItem items outer => items ++ outer.flatMap Frame.held
  | .nextMember members outer => members.map Prod.snd ++ outer.flatMap Frame.held
  | .finished v => [v]

theorem held_complete (v : Json) (outer : List Frame) :
    (State.complete v outer).held = v :: outer.flatMap Frame.held := by
  cases outer with
  | nil => rfl
  | cons f outer => cases f <;> rfl

variable {p : Decimal.Number → Prop}

theorem everyNumber_closedObject {members : List (Option String × Json)}
    (h : ∀ j ∈ members.map Prod.snd, EveryNumber p j) : EveryNumber p (closedObject members) := by
  rw [closedObject]
  split
  · rename_i done hdone
    apply EveryNumber.object
    intro m hm
    obtain ⟨⟨k, v⟩, hmem, hkey⟩ := exists_of_mem_mapM hdone hm
    obtain ⟨k, -, rfl⟩ := Option.map_eq_some_iff.1 hkey
    exact h v (List.mem_map_of_mem (List.mem_reverse.1 hmem))
  · exact .unreadable

theorem held_of_complete {v : Json} {outer : List Frame} (hv : EveryNumber p v)
    (houter : ∀ j ∈ outer.flatMap Frame.held, EveryNumber p j) :
    ∀ j ∈ (State.complete v outer).held, EveryNumber p j := by
  rw [held_complete, List.forall_mem_cons]
  exact ⟨hv, houter⟩

theorem held_of_start {outer : List Frame} {s : State} {t : Token}
    (ht : ∀ v, t = .scalar v → EveryNumber p v) (h : State.start outer t = some s)
    (houter : ∀ j ∈ outer.flatMap Frame.held, EveryNumber p j) :
    ∀ j ∈ s.held, EveryNumber p j := by
  rw [State.start.eq_def] at h
  split at h
  · obtain rfl := Option.some.inj h
    exact held_of_complete (ht _ rfl) houter
  · obtain rfl := Option.some.inj h
    exact held_of_complete (.string _) houter
  · obtain rfl := Option.some.inj h
    exact held_of_complete .unreadable houter
  · obtain rfl := Option.some.inj h
    exact houter
  · obtain rfl := Option.some.inj h
    exact houter
  · cases h

/-- A step only adds values made of the token and the values before it. -/
theorem held_of_next {s s' : State} {t : Token} (ht : ∀ v, t = .scalar v → EveryNumber p v)
    (h : s.next t = some s') (hs : ∀ j ∈ s.held, EveryNumber p j) :
    ∀ j ∈ s'.held, EveryNumber p j := by
  revert h
  fun_cases State.next s t <;> intro h
  case case1 => exact held_of_start ht h hs
  case case2 =>
    obtain rfl := Option.some.inj h
    exact held_of_complete (.array nofun) hs
  case case3 => exact held_of_start ht h hs
  case case4 =>
    obtain rfl := Option.some.inj h
    exact held_of_complete (.object nofun) hs
  case case5 | case6 | case7 | case8 | case10 =>
    obtain rfl := Option.some.inj h
    exact hs
  case case9 items outer =>
    obtain rfl := Option.some.inj h
    rw [State.held, List.forall_mem_append] at hs
    exact held_of_complete (.array fun j hj => hs.1 j (List.mem_reverse.1 hj)) hs.2
  case case11 =>
    obtain rfl := Option.some.inj h
    rw [State.held, List.forall_mem_append] at hs
    exact held_of_complete (everyNumber_closedObject hs.1) hs.2
  case case12 => cases h

theorem held_of_run {s s' : State} {ts : List Token}
    (hts : ∀ v, .scalar v ∈ ts → EveryNumber p v) (h : ts.foldlM State.next s = some s')
    (hs : ∀ j ∈ s.held, EveryNumber p j) : ∀ j ∈ s'.held, EveryNumber p j := by
  induction ts generalizing s with
  | nil =>
    obtain rfl := Option.some.inj h
    exact hs
  | cons t ts ih =>
    rw [List.foldlM_cons, Option.bind_eq_bind, Option.bind_eq_some_iff] at h
    obtain ⟨s₁, hstep, hrest⟩ := h
    have hs₁ := held_of_next (fun v hv => hts v (hv ▸ List.mem_cons_self)) hstep hs
    exact ih (fun v hv => hts v (List.mem_cons_of_mem t hv)) hrest hs₁

/-- Every number in the value of a text has what all numbers that are read have. -/
theorem everyNumber_of_parse? (hp : ∀ t n, Decimal.Number.ofText? t = some n → p n)
    {text : String} {j : Json} (h : parse? text = some j) : EveryNumber p j := by
  simp only [parse?, Option.bind_eq_bind, Option.bind_eq_some_iff] at h
  obtain ⟨ts, htokens, s, hrun, hs⟩ := h
  have hheld := held_of_run (fun v hv => everyNumber_of_tokensWithin hp htokens hv) hrun nofun
  cases s with
  | finished v =>
    obtain rfl := Option.some.inj hs
    exact hheld v List.mem_cons_self
  | _ => cases hs

end SchemaDdl.Json
