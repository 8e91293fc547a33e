/-!
Finite maps kept as lists of pairs. `get?` is the view; each operation has one lemma about it.
-/

namespace LiveComments

structure Table (κ α : Type) where
  entries : List (κ × α) := []

namespace Table

variable {κ α : Type} [DecidableEq κ]

def empty : Table κ α := {}

def get? (t : Table κ α) (k : κ) : Option α :=
  (t.entries.find? (·.1 = k)).map (·.2)

def contains (t : Table κ α) (k : κ) : Bool :=
  (t.get? k).isSome

def put (k : κ) (v : α) : List (κ × α) → List (κ × α)
  | [] => [(k, v)]
  | e :: es => if e.1 = k then (k, v) :: es else e :: put k v es

def insert (t : Table κ α) (k : κ) (v : α) : Table κ α :=
  ⟨put k v t.entries⟩

def erase (t : Table κ α) (k : κ) : Table κ α :=
  ⟨t.entries.filter (·.1 ≠ k)⟩

def keys (t : Table κ α) : List κ := t.entries.map (·.1)

def values (t : Table κ α) : List α := t.entries.map (·.2)

def filter (t : Table κ α) (p : κ → α → Bool) : Table κ α :=
  ⟨t.entries.filter fun e => p e.1 e.2⟩

def map {β : Type} (t : Table κ α) (f : κ → α → β) : Table κ β :=
  ⟨t.entries.map fun e => (e.1, f e.1 e.2)⟩

def ofList (es : List (κ × α)) : Table κ α :=
  es.foldl (fun t e => t.insert e.1 e.2) empty

theorem find?_put (es : List (κ × α)) (k j : κ) (v : α) :
    ((put k v es).find? (·.1 = j)).map (·.2) =
      if k = j then some v else (es.find? (·.1 = j)).map (·.2) := by
  induction es with
  | nil => by_cases h : k = j <;> simp [put, h]
  | cons e es ih =>
    rw [put]
    by_cases he : e.1 = k
    · by_cases h : k = j <;> simp [he, h]
    · rw [if_neg he, List.find?_cons, List.find?_cons]
      by_cases hj : e.1 = j
      · have hk : k ≠ j := fun hk => he (hj.trans hk.symm)
        simp [hj, hk]
      · simpa [hj] using ih

@[simp] theorem get?_insert (t : Table κ α) (k j : κ) (v : α) :
    (t.insert k v).get? j = if k = j then some v else t.get? j :=
  find?_put t.entries k j v

@[simp] theorem get?_erase (t : Table κ α) (k j : κ) :
    (t.erase k).get? j = if k = j then none else t.get? j := by
  obtain ⟨es⟩ := t
  simp only [get?, erase]
  induction es with
  | nil => simp
  | cons e es ih =>
    by_cases he : e.1 = k <;> by_cases hj : e.1 = j <;>
      by_cases hk : k = j <;> simp_all

end Table

end LiveComments
