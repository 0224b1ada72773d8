/-
  Ledgers: finite maps that remember the order in which their keys first came.

  Writing under a new key appends it; writing under a known key replaces the value and leaves the key
  where it stands (`keys_put`).  A ledger is observed through `keys` and `get?`; `get?_put` says what a
  write does to every look-up.
-/
namespace Docset

/-- A map from keys to values, in the order of the keys' first appearance. -/
structure Ledger (κ α : Type) where
  /-- The pairs of key and value, in order. -/
  entries : List (κ × α)
  deriving DecidableEq, Repr

namespace Ledger

variable {κ α : Type}

/-! ## Observing -/

/-- The ledger without entries. -/
def empty : Ledger κ α := ⟨[]⟩

instance : EmptyCollection (Ledger κ α) := ⟨empty⟩

instance : Inhabited (Ledger κ α) := ⟨empty⟩

/-- The keys, in order. -/
def keys (l : Ledger κ α) : List κ := l.entries.map Prod.fst

/-- The values, in the order of their keys. -/
def values (l : Ledger κ α) : List α := l.entries.map Prod.snd

/-- The number of entries. -/
def size (l : Ledger κ α) : Nat := l.entries.length

/-- The value of the first pair with this key. -/
def find [DecidableEq κ] : List (κ × α) → κ → Option α
  | [], _ => none
  | (k, a) :: rest, key => if k = key then some a else find rest key

/-- The value under a key. -/
def get? [DecidableEq κ] (l : Ledger κ α) (key : κ) : Option α := find l.entries key

/-- Whether the key has a value. -/
def contains [DecidableEq κ] (l : Ledger κ α) (key : κ) : Bool := (l.get? key).isSome

/-! ## Writing -/

/-- The pairs with `a` under `key`: in the place of the key, or else at the end. -/
def write [DecidableEq κ] : List (κ × α) → κ → α → List (κ × α)
  | [], key, a => [(key, a)]
  | (k, b) :: rest, key, a =>
    if k = key then (k, a) :: rest else (k, b) :: write rest key a

/-- Writes a value under a key. -/
def put [DecidableEq κ] (l : Ledger κ α) (key : κ) (a : α) : Ledger κ α := ⟨write l.entries key a⟩

/-- Takes a key out. -/
def erase [DecidableEq κ] (l : Ledger κ α) (key : κ) : Ledger κ α :=
  ⟨l.entries.filter (·.1 ≠ key)⟩

/-- Writes every pair of a list, from left to right. -/
def putAll [DecidableEq κ] (l : Ledger κ α) (pairs : List (κ × α)) : Ledger κ α :=
  pairs.foldl (fun l pair => l.put pair.1 pair.2) l

/-- The ledger of a list of pairs. -/
def ofList [DecidableEq κ] (pairs : List (κ × α)) : Ledger κ α := empty.putAll pairs

/-! ## Laws -/

@[simp] theorem keys_empty : (empty : Ledger κ α).keys = [] := rfl

section Laws

variable [DecidableEq κ]

@[simp] theorem get?_empty (key : κ) : (empty : Ledger κ α).get? key = none := rfl

theorem find_write (pairs : List (κ × α)) (key : κ) (a : α) (k : κ) :
    find (write pairs key a) k = if key = k then some a else find pairs k := by
  induction pairs with
  | nil => rfl
  | cons pair rest ih =>
    obtain ⟨k', b⟩ := pair
    by_cases h : k' = key
    · subst h
      by_cases hk : k' = k <;> simp [write, find, hk]
    · by_cases hk : k' = k
      · subst hk
        simp [write, find, h, Ne.symm h]
      · simp [write, find, h, hk, ih]

/-- After a write the key holds the new value, and every other key holds what it held. -/
theorem get?_put (l : Ledger κ α) (key : κ) (a : α) (k : κ) :
    (l.put key a).get? k = if key = k then some a else l.get? k :=
  find_write l.entries key a k

@[simp] theorem get?_put_self (l : Ledger κ α) (key : κ) (a : α) :
    (l.put key a).get? key = some a := by
  simp [get?_put]

theorem get?_put_of_ne {l : Ledger κ α} {key k : κ} {a : α} (h : key ≠ k) :
    (l.put key a).get? k = l.get? k := by
  simp [get?_put, h]

theorem find_eq_none_iff {pairs : List (κ × α)} {key : κ} :
    find pairs key = none ↔ key ∉ pairs.map Prod.fst := by
  induction pairs with
  | nil => simp [find]
  | cons pair rest ih =>
    obtain ⟨k, a⟩ := pair
    by_cases h : k = key
    · simp [find, h]
    · simp [find, h, ih, Ne.symm h]

/-- A key without a value is exactly one that is not listed. -/
theorem get?_eq_none_iff {l : Ledger κ α} {key : κ} : l.get? key = none ↔ key ∉ l.keys :=
  find_eq_none_iff

theorem map_fst_write (pairs : List (κ × α)) (key : κ) (a : α) :
    (write pairs key a).map Prod.fst =
      if key ∈ pairs.map Prod.fst then pairs.map Prod.fst else pairs.map Prod.fst ++ [key] := by
  induction pairs with
  | nil => simp [write]
  | cons pair rest ih =>
    obtain ⟨k, b⟩ := pair
    by_cases h : k = key
    · simp [write, h]
    · by_cases hk : key ∈ rest.map Prod.fst
      · simp [write, h, ih, hk]
      · simp [write, h, ih, hk, Ne.symm h]

/-- A write keeps the keys in place, and lists a new one last. -/
theorem keys_put (l : Ledger κ α) (key : κ) (a : α) :
    (l.put key a).keys = if key ∈ l.keys then l.keys else l.keys ++ [key] :=
  map_fst_write l.entries key a

end Laws

example : ((ofList [("a", 1), ("b", 2)]).put "a" 3).entries = [("a", 3), ("b", 2)] := by decide

end Ledger

end Docset
