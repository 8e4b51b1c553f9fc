import Mathlib.Data.List.Nodup

/-!
Finite maps as lists of pairs with pairwise distinct keys. They stand for the
hash maps of a program whose contents are listed as well as looked up; the
order of the pairs is the one in which the keys were last inserted, newest
first, and no result below depends on it.
-/

namespace DbClinic

open List

/-- A finite map. The field `nodup` makes a second binding of a key
unrepresentable. -/
structure KeyMap (K V : Type*) where
  entries : List (K × V)
  nodup : (entries.map Prod.fst).Nodup

namespace KeyMap

variable {K V : Type*} [DecidableEq K]

def empty : KeyMap K V := ⟨[], nodup_nil⟩

def keys (m : KeyMap K V) : List K := m.entries.map Prod.fst

def values (m : KeyMap K V) : List V := m.entries.map Prod.snd

private def find : List (K × V) → K → Option V
  | [], _ => none
  | (k, v) :: rest, key => if k = key then some v else find rest key

def get (m : KeyMap K V) (key : K) : Option V := find m.entries key

/-- The bindings whose key satisfies `keep`. -/
def restrict (m : KeyMap K V) (keep : K → Bool) : KeyMap K V where
  entries := m.entries.filter fun e => keep e.1
  nodup := (m.nodup).sublist (filter_sublist.map _)

/-- The bindings whose value satisfies `keep`. -/
def retain (m : KeyMap K V) (keep : V → Bool) : KeyMap K V where
  entries := m.entries.filter fun e => keep e.2
  nodup := (m.nodup).sublist (filter_sublist.map _)

def update (m : KeyMap K V) (key : K) (value : V) : KeyMap K V where
  entries := m.entries.map fun e => if e.1 = key then (e.1, value) else e
  nodup := by
    have hkeys : (Prod.fst ∘ fun e : K × V => if e.1 = key then (e.1, value) else e) = Prod.fst := by
      funext e
      by_cases h : e.1 = key <;> simp [h]
    rw [map_map, hkeys]
    exact m.nodup

/-- Every value changed, under its key. -/
def mapValues (m : KeyMap K V) (f : V → V) : KeyMap K V where
  entries := m.entries.map fun e => (e.1, f e.2)
  nodup := by
    rw [map_map]
    exact m.nodup

def erase (m : KeyMap K V) (key : K) : KeyMap K V := m.restrict fun k => !decide (k = key)

def insert (m : KeyMap K V) (key : K) (value : V) : KeyMap K V where
  entries := (key, value) :: (m.erase key).entries
  nodup := by
    rw [map_cons, nodup_cons]
    refine ⟨?_, (m.erase key).nodup⟩
    simp [erase, restrict]

private theorem find_eq_some_iff (entries : List (K × V))
    (hnodup : (entries.map Prod.fst).Nodup) (key : K) (value : V) :
    find entries key = some value ↔ (key, value) ∈ entries := by
  induction entries with
  | nil => simp [find]
  | cons e rest ih =>
    obtain ⟨k, v⟩ := e
    rw [map_cons, nodup_cons] at hnodup
    obtain ⟨hk, hrest⟩ := hnodup
    by_cases heq : k = key
    · subst heq
      have hnot : ∀ w, (k, w) ∉ rest := fun w hw => hk (mem_map.mpr ⟨(k, w), hw, rfl⟩)
      simp [find, hnot, eq_comm]
    · have hne : key ≠ k := fun h => heq h.symm
      simp [find, heq, hne, ih hrest]

theorem get_eq_some_iff (m : KeyMap K V) (key : K) (value : V) :
    m.get key = some value ↔ (key, value) ∈ m.entries :=
  find_eq_some_iff m.entries m.nodup key value

@[simp] theorem get_empty (key : K) : (empty : KeyMap K V).get key = none := rfl

theorem get_restrict (m : KeyMap K V) (keep : K → Bool) (key : K) :
    (m.restrict keep).get key = if keep key then m.get key else none := by
  ext value
  rw [get_eq_some_iff]
  by_cases hkeep : keep key = true
  · simp [restrict, hkeep, get_eq_some_iff]
  · simp [restrict, hkeep]

theorem get_retain (m : KeyMap K V) (keep : V → Bool) (key : K) :
    (m.retain keep).get key = (m.get key).filter keep := by
  ext value
  simp only [get_eq_some_iff, Option.filter_eq_some_iff, retain, mem_filter]

theorem get_update (m : KeyMap K V) (key other : K) (value : V) :
    (m.update key value).get other =
      if other = key then (m.get key).map fun _ => value else m.get other := by
  ext found
  by_cases h : other = key
  · subst h
    simp only [get_eq_some_iff, if_true, Option.map_eq_some_iff, update, mem_map]
    constructor
    · rintro ⟨e, hmem, heq⟩
      by_cases hkey : e.1 = other
      · rw [if_pos hkey] at heq
        cases heq
        exact ⟨e.2, hkey ▸ hmem, rfl⟩
      · rw [if_neg hkey] at heq
        exact absurd (congrArg Prod.fst heq) hkey
    · rintro ⟨old, hmem, rfl⟩
      exact ⟨(other, old), hmem, if_pos rfl⟩
  · simp only [get_eq_some_iff, if_neg h, update, mem_map]
    constructor
    · rintro ⟨e, hmem, heq⟩
      by_cases hkey : e.1 = key
      · rw [if_pos hkey] at heq
        cases heq
        exact absurd hkey h
      · rw [if_neg hkey] at heq
        exact heq ▸ hmem
    · intro hmem
      exact ⟨(other, found), hmem, if_neg h⟩

theorem get_erase (m : KeyMap K V) (key other : K) :
    (m.erase key).get other = if other = key then none else m.get other := by
  rw [erase, get_restrict]
  by_cases h : other = key <;> simp [h]

@[simp] theorem get_erase_self (m : KeyMap K V) (key : K) : (m.erase key).get key = none := by
  simp [get_erase]

theorem get_erase_of_ne (m : KeyMap K V) {key other : K} (h : other ≠ key) :
    (m.erase key).get other = m.get other := by
  simp [get_erase, h]

theorem get_insert (m : KeyMap K V) (key other : K) (value : V) :
    (m.insert key value).get other = if other = key then some value else m.get other := by
  by_cases h : other = key
  · subst h
    simp [get, insert, find]
  · have hne : key ≠ other := fun heq => h heq.symm
    have herase := get_erase_of_ne m h
    simp only [get] at herase
    simp [get, insert, find, hne, h, herase]

@[simp] theorem get_insert_self (m : KeyMap K V) (key : K) (value : V) :
    (m.insert key value).get key = some value := by
  simp [get_insert]

theorem get_insert_of_ne (m : KeyMap K V) {key other : K} (value : V) (h : other ≠ key) :
    (m.insert key value).get other = m.get other := by
  simp [get_insert, h]

def insertAll (m : KeyMap K V) (pairs : List (K × V)) : KeyMap K V :=
  pairs.foldl (fun m pair => m.insert pair.1 pair.2) m

theorem get_insertAll_of_not_mem (m : KeyMap K V) {pairs : List (K × V)} {key : K}
    (h : ∀ pair ∈ pairs, pair.1 ≠ key) : (m.insertAll pairs).get key = m.get key := by
  unfold insertAll
  induction pairs generalizing m with
  | nil => rfl
  | cons pair pairs ih =>
    obtain ⟨hfirst, hmore⟩ := forall_mem_cons.mp h
    rw [foldl_cons, ih _ hmore, get_insert_of_ne m pair.2 hfirst.symm]

theorem get_insertAll_last (m : KeyMap K V) (before : List (K × V)) {after : List (K × V)}
    {key : K} (value : V) (h : ∀ pair ∈ after, pair.1 ≠ key) :
    (m.insertAll (before ++ (key, value) :: after)).get key = some value := by
  have hsplit : m.insertAll (before ++ (key, value) :: after) =
      ((m.insertAll before).insert key value).insertAll after := by
    simp [insertAll]
  rw [hsplit, get_insertAll_of_not_mem _ h, get_insert_self]

omit [DecidableEq K] in
theorem filterMap_keys_restrict {β : Type*} (m : KeyMap K V) {keep : K → Bool}
    {pick : K → Option β} (h : ∀ k, keep k = false → pick k = none) :
    (m.restrict keep).keys.filterMap pick = m.keys.filterMap pick := by
  unfold keys restrict
  dsimp only
  induction m.entries with
  | nil => rfl
  | cons e rest ih =>
    cases hkeep : keep e.1 with
    | true => simp [hkeep, filterMap_cons, ih]
    | false => simp [hkeep, h e.1 hkeep, ih]

theorem filterMap_keys_insert {β : Type*} (m : KeyMap K V) {key : K} (value : V)
    {pick : K → Option β} (h : pick key = none) :
    (m.insert key value).keys.filterMap pick = m.keys.filterMap pick := by
  have herase : (m.erase key).keys.filterMap pick = m.keys.filterMap pick := by
    refine m.filterMap_keys_restrict fun k hk => ?_
    rw [Bool.not_eq_false', decide_eq_true_eq] at hk
    rw [hk, h]
  have hcons : (m.insert key value).keys = key :: (m.erase key).keys := rfl
  rw [hcons, filterMap_cons, h, herase]

theorem values_filter_key (m : KeyMap K V) (keyOf : V → K)
    (hown : ∀ e ∈ m.entries, keyOf e.2 = e.1) (key : K) :
    m.values.filter (fun v => keyOf v = key) = (m.get key).toList := by
  obtain ⟨entries, hnodup⟩ := m
  simp only [values, get]
  induction entries with
  | nil => rfl
  | cons e rest ih =>
    obtain ⟨k, v⟩ := e
    rw [map_cons, nodup_cons] at hnodup
    have hv : keyOf v = k := hown (k, v) (by simp)
    have hrest := ih hnodup.2 fun e he => hown e (by simp [he])
    by_cases hk : k = key
    · have hnone : find rest key = none := by
        rw [Option.eq_none_iff_forall_ne_some]
        intro w hw
        rw [find_eq_some_iff rest hnodup.2] at hw
        exact hnodup.1 (hk ▸ mem_map.mpr ⟨(key, w), hw, rfl⟩)
      simp only [map_cons, filter_cons, hv, hk, find, decide_true, if_true, hrest,
        hnone, Option.toList_none, Option.toList_some]
    · simp only [map_cons, filter_cons, hv, hk, find, decide_false, if_false, hrest,
        Bool.false_eq_true]

end KeyMap

end DbClinic
