import LiveComments.Json.Decoder
import LiveComments.Proofs.Text
import Mathlib.Algebra.Group.Nat.Defs

namespace LiveComments.Json

@[simp] theorem asString_eq_ok {v : Json} {s : String} : asString v = .ok s ↔ v = .str s := by
  cases v <;> simp [asString]

@[simp] theorem asInt64_eq_ok {v : Json} {n : Int} :
    asInt64 v = .ok n ↔ v = .int n ∧ -2 ^ 63 ≤ n ∧ n < 2 ^ 63 := by
  cases v with
  | int k =>
    have hfits : Text.fitsInt64 k = true ↔ -2 ^ 63 ≤ k ∧ k < 2 ^ 63 := by
      rw [Text.fitsInt64_iff]
      omega
    rw [asInt64]
    split
    · rename_i hk
      constructor
      · rintro ⟨⟩
        exact ⟨rfl, hfits.mp hk⟩
      · rintro ⟨⟨⟩, -⟩
        rfl
    · rename_i hk
      constructor
      · rintro ⟨⟩
      · rintro ⟨⟨⟩, hn⟩
        exact absurd (hfits.mpr hn) hk
  | _ => simp [asInt64]

@[simp] theorem asWord64_eq_ok {v : Json} {n : Nat} : asWord64 v = .ok n ↔ v = .nat n ∧ n < 2 ^ 64 := by
  cases v with
  | int k =>
    rw [asWord64, nat]
    split
    · rename_i hk
      rw [Text.fitsWord64_iff] at hk
      simp only [Except.ok.injEq, int.injEq]
      omega
    · rename_i hk
      rw [Text.fitsWord64_iff] at hk
      simp only [reduceCtorEq, false_iff, int.injEq]
      omega
  | _ => simp [asWord64, nat]

theorem asOption_eq_ok {α : Type} {read : Json → Decoded α} {v : Json} {o : Option α} :
    asOption read v = .ok o ↔
      (v = .null ∧ o = none) ∨ (v ≠ .null ∧ ∃ a, read v = .ok a ∧ o = some a) := by
  have hmap {x : Decoded α} : x.map some = .ok o ↔ ∃ a, x = .ok a ∧ o = some a := by
    cases x <;> simp [Except.map, eq_comm]
  cases v <;> simp [asOption, hmap, eq_comm]

def Origin.at? (number : Nat) (name : String) : Origin → Option Json
  | .object members => member? name members
  | .array items => items[number]?

inductive Filled {α : Type} (read : Json → Decoded α) (absent : Option α) : Option Json → α → Prop
  | present {v : Json} {a : α} (h : read v = .ok a) : Filled read absent (some v) a
  | absent {a : α} (h : absent = some a) : Filled read absent none a

theorem exists_members {v w : Json} {name : String} (h : v.get? name = some w) :
    ∃ ms, v = .obj ms := by
  cases v with
  | obj ms => exact ⟨ms, rfl⟩
  | _ => cases h

section
variable {α β : Type} {read : Json → Decoded α} {absent : Option α} {a : α}

@[simp] theorem filled_some {v : Json} : Filled read absent (some v) a ↔ read v = .ok a := by
  constructor
  · rintro ⟨h⟩
    exact h
  · exact .present

@[simp] theorem filled_none : Filled read absent none a ↔ absent = some a := by
  constructor
  · rintro ⟨h⟩
    assumption
  · exact .absent

@[simp] theorem filled_required {o : Option Json} :
    Filled read none o a ↔ ∃ v, o = some v ∧ read v = .ok a := by
  cases o <;> simp

inductive Optional {α : Type} (W : Json → α → Prop) : Option Json → Option α → Prop
  | absent : Optional W none none
  | null : Optional W (some .null) none
  | present {v : Json} {a : α} (h : W v a) : Optional W (some v) (some a)

theorem filled_optional {W : Json → α → Prop} (hread : ∀ v a, read v = .ok a ↔ W v a)
    (hnull : ∀ a, ¬W .null a) {o : Option Json} {x : Option α} :
    Filled (asOption read) (some none) o x ↔ Optional W o x := by
  constructor
  · rintro (h | h)
    · rcases asOption_eq_ok.mp h with ⟨rfl, rfl⟩ | ⟨-, a, ha, rfl⟩
      · exact .null
      · exact .present ((hread _ _).mp ha)
    · cases h
      exact .absent
  · rintro (_ | _ | h)
    · exact .absent rfl
    · exact .present rfl
    · refine .present (asOption_eq_ok.mpr (.inr ⟨?_, _, (hread _ _).mpr h, rfl⟩))
      rintro rfl
      exact hnull _ h

theorem mapError_eq_ok {ε ε' : Type} {f : ε → ε'} {x : Except ε α} :
    x.mapError f = .ok a ↔ x = .ok a := by
  cases x <;> simp [Except.mapError]

theorem bind_eq_ok {ε : Type} {x : Except ε α} {f : α → Except ε β} {b : β} :
    (x >>= f) = .ok b ↔ ∃ a, x = .ok a ∧ f a = .ok b := by
  cases x <;> simp [bind, Except.bind]

theorem map_indexed (name : String) (members : List (String × Json)) (i : Nat) :
    (indexed name i members).map (·.2) = member? name members := by
  induction members generalizing i with
  | nil => rfl
  | cons e members ih =>
    obtain ⟨k, v⟩ := e
    rw [indexed, member?, List.find?_cons]
    by_cases hk : k = name
    · simp [hk]
    · simpa [hk, member?] using ih (i + 1)

@[simp] theorem field_eq_ok {number size : Nat} {name record : String} {origin : Origin} :
    field number name read absent record size origin = .ok a ↔
      Filled read absent (origin.at? number name) a := by
  unfold field Origin.at?
  cases origin with
  | object members =>
    dsimp only
    rw [← map_indexed name members 0]
    cases indexed name 0 members with
    | some e => exact mapError_eq_ok.trans filled_some.symm
    | none =>
      rw [Option.map_none, filled_none]
      cases absent <;> simp
  | array items =>
    dsimp only
    cases items[number]? with
    | some v => exact mapError_eq_ok.trans filled_some.symm
    | none =>
      rw [filled_none]
      cases absent <;> simp

theorem both_eq_ok {f : Ranked (α → β)} {x : Ranked α} {b : β} :
    Ranked.both f x = .ok b ↔ ∃ g a, f = .ok g ∧ x = .ok a ∧ g a = b := by
  unfold Ranked.both
  cases f <;> cases x <;> simp

@[simp] theorem and_eq_ok {f : Fields (α → β)} {x : Fields α} {b : β} {record : String} {size : Nat}
    {origin : Origin} : (f.and x) record size origin = .ok b ↔
      ∃ g a, f record size origin = .ok g ∧ x record size origin = .ok a ∧ g a = b :=
  both_eq_ok

theorem ofFields_eq_ok {name : String} {size : Nat} {fields : Fields α} {origin : Origin} :
    (Record.ofFields name size fields).read origin = .ok a ↔
      fields name size origin = .ok a ∧ ∀ items, origin = .array items → items.length ≤ size := by
  unfold Record.ofFields
  dsimp only
  split
  · rename_i items b hb
    split <;> simp [hb] <;> omega
  · rename_i hne
    constructor
    · intro h
      refine ⟨h, ?_⟩
      rintro items rfl
      exact (hne items a rfl h).elim
    · exact And.left

theorem decode_eq_ok {r : Record α} {v : Json} : r.decode v = .ok a ↔
    (∃ members, v = .obj members ∧ r.read (.object members) = .ok a) ∨
      ∃ items, v = .arr items ∧ r.read (.array items) = .ok a := by
  cases v <;> simp [Record.decode, mapError_eq_ok]

end

end LiveComments.Json
