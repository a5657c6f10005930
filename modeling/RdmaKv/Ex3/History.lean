import RdmaKv.Library.ByteMemory

/-!
# What was assigned last

A store is meant to be a map from keys to values; what it should hold after a
sequence of assignments is the last value that was assigned to each key.
-/

namespace RdmaKv.Ex3

open ByteMemory

variable {α : Type} {key : CString} {value : α} {pairs : List (CString × α)}

def lastValue (key : CString) (pairs : List (CString × α)) : Option α :=
  (pairs.reverse.find? fun pair => decide (pair.1 = key)).map Prod.snd

def firstValue (key : CString) (pairs : List (CString × α)) : Option α :=
  (pairs.find? fun pair => decide (pair.1 = key)).map Prod.snd

theorem lastValue_append (key other : CString) (value : α)
    (pairs : List (CString × α)) :
    lastValue key (pairs ++ [(other, value)]) =
      if other = key then some value else lastValue key pairs := by
  unfold lastValue
  rw [List.reverse_append]
  by_cases same : other = key
  · simp [same]
  · simp [same]

theorem firstValue_append (key other : CString) (value : α)
    (pairs : List (CString × α)) :
    firstValue key (pairs ++ [(other, value)]) =
      (firstValue key pairs).or (if other = key then some value else none) := by
  unfold firstValue
  rw [List.find?_append]
  cases pairs.find? fun pair => decide (pair.1 = key) with
  | none =>
      by_cases same : other = key
      · simp [same]
      · simp [same]
  | some pair => rfl

theorem lastValue_eq_none_iff :
    lastValue key pairs = none ↔ ∀ pair ∈ pairs, pair.1 ≠ key := by
  simp [lastValue]

theorem firstValue_eq_none (absent : lastValue key pairs = none) :
    firstValue key pairs = none := by
  simpa [firstValue] using lastValue_eq_none_iff.mp absent

theorem mem_of_lastValue (found : lastValue key pairs = some value) :
    (key, value) ∈ pairs := by
  obtain ⟨pair, isPair, rfl⟩ := Option.map_eq_some_iff.mp found
  have sameKey : pair.1 = key := by
    simpa using List.find?_some isPair
  rw [← sameKey]
  exact List.mem_reverse.mp (List.mem_of_find?_eq_some isPair)

end RdmaKv.Ex3
