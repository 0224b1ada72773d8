/-
  Ledgers without repeated keys.

  `Ledger.write` keeps a key where it stands, so a ledger that is only ever written to lists every key
  ONCE (`nodup_keys_put`).  For such a ledger the two ways of observing it agree: a key has a value
  exactly if the pair is among the entries (`get?_eq_some_iff`).

  A ledger made from a list of pairs lists the keys as they FIRST come (`keys_ofList`), and each has the value
  that came LAST (`get?_ofList_eq_some_iff`).  Writes under two keys that are listed may be swapped
  (`put_comm`), so a write may be moved to where its key was written first (`put_putAll_map`).
-/
import Mathlib.Data.List.Induction
import Docset.Ledger

namespace Docset.Ledger

variable {κ α : Type} [DecidableEq κ]

/-- A key is listed exactly if it has a value. -/
theorem mem_keys_iff {l : Ledger κ α} {key : κ} : key ∈ l.keys ↔ ∃ a, l.get? key = some a := by
  rw [← Option.isSome_iff_exists, ← Option.ne_none_iff_isSome, ne_eq, get?_eq_none_iff]
  exact Decidable.not_not.symm

/-- A write adds its key to those that are listed. -/
theorem mem_keys_put {l : Ledger κ α} {key : κ} {a : α} {k : κ} :
    k ∈ (l.put key a).keys ↔ k = key ∨ k ∈ l.keys := by
  rw [keys_put]
  by_cases hkey : key ∈ l.keys
  · rw [if_pos hkey]
    constructor
    · exact Or.inr
    · rintro (rfl | hk)
      · exact hkey
      · exact hk
  · rw [if_neg hkey, List.mem_append, List.mem_singleton]
    exact Or.comm

/-- No write lists a key twice. -/
theorem nodup_keys_put {l : Ledger κ α} (hl : l.keys.Nodup) (key : κ) (a : α) :
    (l.put key a).keys.Nodup := by
  rw [keys_put]
  split
  · exact hl
  · rename_i hkey
    refine List.nodup_append.2 ⟨hl, List.nodup_cons.2 ⟨List.not_mem_nil, List.nodup_nil⟩, ?_⟩
    intro k hk k' hk'
    rw [List.mem_singleton.1 hk']
    rintro rfl
    exact hkey hk

theorem write_of_not_mem {pairs : List (κ × α)} {key : κ} {a : α}
    (hkey : key ∉ pairs.map Prod.fst) : write pairs key a = pairs ++ [(key, a)] := by
  induction pairs with
  | nil => rfl
  | cons pair rest ih =>
    obtain ⟨k, b⟩ := pair
    rw [List.map_cons, List.mem_cons, not_or] at hkey
    rw [write, if_neg (Ne.symm hkey.1), ih hkey.2, List.cons_append]

/-- A write under a new key puts the pair at the end. -/
theorem entries_put_of_not_mem {l : Ledger κ α} {key : κ} (hkey : key ∉ l.keys) (a : α) :
    (l.put key a).entries = l.entries ++ [(key, a)] :=
  write_of_not_mem hkey

theorem filter_write (keep : κ → Bool) {pairs : List (κ × α)} {key : κ} (hkey : keep key = false)
    (a : α) : (write pairs key a).filter (fun pair => keep pair.1) =
      pairs.filter fun pair => keep pair.1 := by
  induction pairs with
  | nil => simp [write, hkey]
  | cons pair rest ih =>
    obtain ⟨k, b⟩ := pair
    by_cases hk : k = key
    · subst hk
      simp [write, hkey]
    · simp [write, hk, List.filter_cons, ih]

/-- A write under a key that is left out does not show in what is chosen by key. -/
theorem filter_entries_put (keep : κ → Bool) {l : Ledger κ α} {key : κ} (hkey : keep key = false)
    (a : α) : (l.put key a).entries.filter (fun pair => keep pair.1) =
      l.entries.filter fun pair => keep pair.1 :=
  filter_write keep hkey a

/-- Writing a list of pairs adds their keys to those that are listed. -/
theorem mem_keys_putAll {l : Ledger κ α} {pairs : List (κ × α)} {k : κ} :
    k ∈ (l.putAll pairs).keys ↔ k ∈ l.keys ∨ k ∈ pairs.map Prod.fst := by
  induction pairs generalizing l with
  | nil => simp [putAll]
  | cons pair rest ih =>
    have hrest : k ∈ (l.putAll (pair :: rest)).keys ↔
        k ∈ (l.put pair.1 pair.2).keys ∨ k ∈ rest.map Prod.fst := ih
    rw [hrest, mem_keys_put, List.map_cons, List.mem_cons, or_assoc, or_left_comm]

/-- Writing pairs under other keys leaves a key as it was. -/
theorem get?_putAll_of_not_mem {l : Ledger κ α} {pairs : List (κ × α)} {k : κ}
    (hk : k ∉ pairs.map Prod.fst) : (l.putAll pairs).get? k = l.get? k := by
  induction pairs generalizing l with
  | nil => rfl
  | cons pair rest ih =>
    rw [List.map_cons, List.mem_cons, not_or] at hk
    have hrest : (l.putAll (pair :: rest)).get? k = (l.put pair.1 pair.2).get? k := ih hk.2
    rw [hrest, get?_put_of_ne (Ne.symm hk.1)]

/-- Of pairs without repeated keys each one is found after all are written. -/
theorem get?_putAll_of_mem {l : Ledger κ α} {pairs : List (κ × α)}
    (hpairs : (pairs.map Prod.fst).Nodup) {k : κ} {a : α} (h : (k, a) ∈ pairs) :
    (l.putAll pairs).get? k = some a := by
  induction pairs generalizing l with
  | nil => cases h
  | cons pair rest ih =>
    rw [List.map_cons, List.nodup_cons] at hpairs
    rcases List.mem_cons.1 h with rfl | hrest
    · have hkept : (l.putAll ((k, a) :: rest)).get? k = (l.put k a).get? k :=
        get?_putAll_of_not_mem hpairs.1
      rw [hkept, get?_put_self]
    · exact ih hpairs.2 hrest

/-- After a write under each of many keys, each has its value. -/
theorem get?_putAll_map {names : List κ} (hnames : names.Nodup) (l : Ledger κ α) (g : κ → α) {key : κ}
    (hkey : key ∈ names) : (l.putAll (names.map fun n => (n, g n))).get? key = some (g key) := by
  have hkeys : (names.map fun n => (n, g n)).map Prod.fst = names := by
    rw [List.map_map]
    exact List.map_id names
  refine get?_putAll_of_mem ?_ (List.mem_map.2 ⟨key, hkey, rfl⟩)
  rw [hkeys]
  exact hnames

theorem mem_of_find_eq_some {pairs : List (κ × α)} {key : κ} {a : α}
    (h : find pairs key = some a) : (key, a) ∈ pairs := by
  induction pairs with
  | nil => cases h
  | cons pair rest ih =>
    obtain ⟨k, b⟩ := pair
    rw [find] at h
    split at h
    · rename_i hk
      rw [← hk, Option.some.inj h]
      exact List.mem_cons_self
    · exact List.mem_cons_of_mem _ (ih h)

theorem find_eq_some_of_mem {pairs : List (κ × α)} (hpairs : (pairs.map Prod.fst).Nodup) {key : κ}
    {a : α} (h : (key, a) ∈ pairs) : find pairs key = some a := by
  induction pairs with
  | nil => cases h
  | cons pair rest ih =>
    obtain ⟨k, b⟩ := pair
    rw [List.map_cons, List.nodup_cons] at hpairs
    rcases List.mem_cons.1 h with heq | hrest
    · cases heq
      rw [find, if_pos rfl]
    · -- The key stands further back, so it is not the first one.
      have hne : k ≠ key := by
        rintro rfl
        exact hpairs.1 (List.mem_map.2 ⟨_, hrest, rfl⟩)
      rw [find, if_neg hne]
      exact ih hpairs.2 hrest

/-- Where no key is repeated, the values under keys are the pairs among the entries. -/
theorem get?_eq_some_iff {l : Ledger κ α} (hl : l.keys.Nodup) {key : κ} {a : α} :
    l.get? key = some a ↔ (key, a) ∈ l.entries :=
  ⟨mem_of_find_eq_some, find_eq_some_of_mem hl⟩

/-- A ledger without repeated keys is known by its keys and their values. -/
theorem eq_of_get? {l m : Ledger κ α} (hl : l.keys.Nodup) (hkeys : l.keys = m.keys)
    (hget : ∀ key, l.get? key = m.get? key) : l = m := by
  have hlength : l.entries.length = m.entries.length := by
    simpa [keys] using congrArg List.length hkeys
  refine congrArg mk (List.ext_getElem hlength fun i hi hi' => ?_)
  have hkey : l.entries[i].1 = m.entries[i].1 := by
    have hmaps : (l.entries.map Prod.fst)[i]? = (m.entries.map Prod.fst)[i]? := by
      rw [show l.entries.map Prod.fst = m.entries.map Prod.fst from hkeys]
    simpa [hi, hi'] using hmaps
  have hvalue : l.get? l.entries[i].1 = some l.entries[i].2 :=
    (get?_eq_some_iff hl).2 (List.getElem_mem hi)
  have hvalue' : m.get? m.entries[i].1 = some m.entries[i].2 :=
    (get?_eq_some_iff (hkeys ▸ hl)).2 (List.getElem_mem hi')
  rw [hget, hkey, hvalue'] at hvalue
  exact Prod.ext hkey (Option.some.inj hvalue).symm

/-! ## Ledgers made from lists -/

theorem ofList_concat (pairs : List (κ × α)) (key : κ) (a : α) :
    ofList (pairs ++ [(key, a)]) = (ofList pairs).put key a := by
  rw [ofList, putAll, List.foldl_append]
  rfl

theorem nodup_keys_ofList (pairs : List (κ × α)) : (ofList pairs).keys.Nodup := by
  induction pairs using List.reverseRecOn with
  | nil => exact List.nodup_nil
  | append_singleton pairs pair ih =>
    rw [ofList_concat]
    exact nodup_keys_put ih _ _

/-- The keys are listed as they first come. -/
theorem keys_ofList (pairs : List (κ × α)) : (ofList pairs).keys = (pairs.map Prod.fst).eraseDups := by
  induction pairs using List.reverseRecOn with
  | nil => rfl
  | append_singleton pairs pair ih =>
    obtain ⟨key, a⟩ := pair
    rw [ofList_concat, keys_put, ih, List.map_append, List.eraseDups_append, List.map_singleton]
    by_cases hkey : key ∈ pairs.map Prod.fst
    · rw [if_pos (List.mem_eraseDups.2 hkey)]
      simp [List.removeAll, hkey]
    · rw [if_neg (mt List.mem_eraseDups.1 hkey)]
      simp [List.removeAll, hkey, List.eraseDups_cons]

/-- The value that came last under a key is the one that it has. -/
theorem get?_ofList_eq_some_iff {pairs : List (κ × α)} {key : κ} {a : α} :
    (ofList pairs).get? key = some a ↔
      ∃ before after, pairs = before ++ (key, a) :: after ∧ key ∉ after.map Prod.fst := by
  constructor
  · intro h
    induction pairs using List.reverseRecOn with
    | nil => cases h
    | append_singleton pairs pair ih =>
      obtain ⟨k, b⟩ := pair
      rw [ofList_concat, get?_put] at h
      split at h
      · rename_i hk
        cases h
        subst hk
        exact ⟨pairs, [], rfl, List.not_mem_nil⟩
      · rename_i hk
        obtain ⟨before, after, rfl, hafter⟩ := ih h
        refine ⟨before, after ++ [(k, b)], by simp, ?_⟩
        rw [List.map_append, List.mem_append, not_or]
        exact ⟨hafter, by simpa using Ne.symm hk⟩
  · rintro ⟨before, after, rfl, hafter⟩
    have hfirst : ofList (before ++ (key, a) :: after) = ((ofList before).put key a).putAll after := by
      rw [ofList, putAll, List.foldl_append, List.foldl_cons]
      rfl
    rw [hfirst, get?_putAll_of_not_mem hafter, get?_put_self]

/-! ## The order of writing -/

theorem write_write (pairs : List (κ × α)) (key : κ) (a b : α) :
    write (write pairs key a) key b = write pairs key b := by
  induction pairs with
  | nil => simp [write]
  | cons pair rest ih =>
    obtain ⟨k, c⟩ := pair
    by_cases hk : k = key
    · simp [write, hk]
    · simp [write, hk, ih]

/-- Of two writes under one key the later one counts. -/
theorem put_put (l : Ledger κ α) (key : κ) (a b : α) : (l.put key a).put key b = l.put key b :=
  congrArg mk (write_write l.entries key a b)

theorem write_comm {pairs : List (κ × α)} {key other : κ} (hne : key ≠ other)
    (hkey : key ∈ pairs.map Prod.fst) (a b : α) :
    write (write pairs other b) key a = write (write pairs key a) other b := by
  induction pairs with
  | nil => cases hkey
  | cons pair rest ih =>
    obtain ⟨k, c⟩ := pair
    by_cases hk : k = key
    · subst hk
      simp [write, hne]
    · have hrest : key ∈ rest.map Prod.fst := by simpa [Ne.symm hk] using hkey
      by_cases ho : k = other
      · subst ho
        simp [write, hk]
      · simp [write, hk, ho, ih hrest]

/-- Writes under two keys may be swapped, if the one is listed already. -/
theorem put_comm {l : Ledger κ α} {key other : κ} (hne : key ≠ other) (hkey : key ∈ l.keys) (a b : α) :
    (l.put other b).put key a = (l.put key a).put other b :=
  congrArg mk (write_comm hne hkey a b)

/-- A write under a key that is listed may come before writes under other keys. -/
theorem put_putAll {l : Ledger κ α} {pairs : List (κ × α)} {key : κ} (hkey : key ∈ l.keys)
    (hpairs : key ∉ pairs.map Prod.fst) (a : α) :
    (l.putAll pairs).put key a = (l.put key a).putAll pairs := by
  induction pairs generalizing l with
  | nil => rfl
  | cons pair rest ih =>
    rw [List.map_cons, List.mem_cons, not_or] at hpairs
    have hlisted : key ∈ (l.put pair.1 pair.2).keys := mem_keys_put.2 (Or.inr hkey)
    show ((l.put pair.1 pair.2).putAll rest).put key a = ((l.put key a).put pair.1 pair.2).putAll rest
    rw [ih hlisted hpairs.2, put_comm hpairs.1 hkey]

/-- A write under one of many keys is as if it had been done where the key was written. -/
theorem put_putAll_map {names : List κ} (hnames : names.Nodup) (l : Ledger κ α) (g : κ → α) {key : κ}
    (hkey : key ∈ names) (a : α) :
    (l.putAll (names.map fun n => (n, g n))).put key a =
      l.putAll (names.map fun n => (n, if n = key then a else g n)) := by
  induction names generalizing l with
  | nil => cases hkey
  | cons n rest ih =>
    obtain ⟨hn, hrest⟩ := List.nodup_cons.1 hnames
    show ((l.put n (g n)).putAll (rest.map fun n => (n, g n))).put key a =
      (l.put n (if n = key then a else g n)).putAll (rest.map fun n => (n, if n = key then a else g n))
    by_cases heq : n = key
    · -- The key stands here, and so nowhere behind.
      subst heq
      have hbehind : n ∉ (rest.map fun n => (n, g n)).map Prod.fst := by simpa using hn
      have hsame : (rest.map fun m => (m, if m = n then a else g m)) = rest.map fun m => (m, g m) := by
        refine List.map_congr_left fun m hm => ?_
        have hne : m ≠ n := by
          rintro rfl
          exact hn hm
        rw [if_neg hne]
      rw [put_putAll (mem_keys_put.2 (Or.inl rfl)) hbehind, put_put, hsame, if_pos rfl]
    · have hmem : key ∈ rest := (List.mem_cons.1 hkey).resolve_left (Ne.symm heq)
      rw [ih hrest _ hmem, if_neg heq]

end Docset.Ledger
