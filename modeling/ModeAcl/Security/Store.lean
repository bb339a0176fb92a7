import ModeAcl.Path
import ModeAcl.Security

/-!
# Stored lists

The access control lists of objects, under the keys of their paths. Putting a
list replaces the one under the same key and leaves the others alone.
-/

namespace ModeAcl

/-- Lists in the order in which their keys came up first. -/
structure ListStore where
  lists : List (Path.Key × List Ace)
  deriving DecidableEq, Repr

namespace ListStore

def empty : ListStore := ⟨[]⟩

/-- The list under a key. -/
def get? (store : ListStore) (key : Path.Key) : Option (List Ace) := store.lists.lookup key

/-- Put a list in the place of the one with the same key, or behind all others. -/
def putInto (key : Path.Key) (aces : List Ace) :
    List (Path.Key × List Ace) → List (Path.Key × List Ace)
  | [] => [(key, aces)]
  | (k, old) :: lists =>
    if k = key then (key, aces) :: lists else (k, old) :: putInto key aces lists

def put (store : ListStore) (key : Path.Key) (aces : List Ace) : ListStore :=
  ⟨putInto key aces store.lists⟩

theorem get?_put (store : ListStore) (key k : Path.Key) (aces : List Ace) :
    (store.put key aces).get? k = if k = key then some aces else store.get? k := by
  obtain ⟨lists⟩ := store
  simp only [put, get?]
  induction lists with
  | nil =>
    by_cases h : k = key
    · simp [putInto, h]
    · simp [putInto, List.lookup_cons, beq_false_of_ne h, h]
  | cons first lists ih =>
    obtain ⟨first, old⟩ := first
    by_cases hk : first = key
    · subst hk
      by_cases h : k = first
      · simp [putInto, h]
      · simp [putInto, List.lookup_cons, beq_false_of_ne h, h]
    · by_cases h : k = first
      · subst h
        simp [putInto, hk]
      · simp only [putInto, if_neg hk, List.lookup_cons, beq_false_of_ne h, ih]

end ListStore

end ModeAcl
