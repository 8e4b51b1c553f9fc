import DbClinic.Runtime.Config
import DbClinic.Runtime.JsonRoundTrip

/-!
What a merge of several files holds at a path of keys. A file mentions a path
when it has a value there, or a value that is no object on the way: then the
files below it have no say. The leaf of the merged object is the one of the
highest file that mentions the path.
-/

namespace DbClinic.Runtime.Config

open List

/-- The answer of the last element that gives one. -/
def highest {α β : Type} (answer : α → Option β) : List α → Option β
  | [] => none
  | a :: rest => (highest answer rest).or (answer a)

section Highest

variable {α β : Type}

variable {answer : α → Option β} {items : List α}

theorem highest_eq_some {b : β} (h : highest answer items = some b) :
    ∃ a ∈ items, answer a = some b := by
  induction items with
  | nil => cases h
  | cons a rest ih =>
    rw [highest, Option.or_eq_some_iff] at h
    rcases h with hrest | ⟨_, ha⟩
    · obtain ⟨c, hc, hanswer⟩ := ih hrest
      exact ⟨c, mem_cons_of_mem _ hc, hanswer⟩
    · exact ⟨a, mem_cons_self, ha⟩

theorem highest_eq_none_iff :
    highest answer items = none ↔ ∀ a ∈ items, answer a = none := by
  induction items with
  | nil => simp [highest]
  | cons a rest ih => simp [highest, ih, and_comm]

theorem highest_congr {answer' : α → Option β} (h : ∀ a ∈ items, answer a = answer' a) :
    highest answer items = highest answer' items := by
  induction items with
  | nil => rfl
  | cons a rest ih =>
    rw [highest, highest, h a mem_cons_self,
      ih fun b hb => h b (mem_cons_of_mem _ hb)]

end Highest

def valueAt : (path : List String) → JsonValue → Option JsonValue
  | [], value => some value
  | key :: path, value =>
    match value.asObject with
    | some entries => (getEntry entries key).bind (valueAt path)
    | none => none

def leafAt (path : List String) (value : JsonValue) : Option JsonValue :=
  (valueAt path value).filter fun v => v.asObject.isNone

def mentions : (path : List String) → JsonValue → Bool
  | [], _ => true
  | key :: path, value =>
    match value.asObject with
    | some entries => (getEntry entries key).any (mentions path)
    | none => true

/-- What a file says about a path: nothing, or the leaf there, if it is one. -/
def mentionAt (path : List String) (value : JsonValue) : Option (Option JsonValue) :=
  if mentions path value then some (leafAt path value) else none

section Paths

variable {key : String} {path : List String} {value : JsonValue} {entries : JsonObject}

theorem asObject_eq_some {value : JsonValue} {entries : JsonObject} :
    value.asObject = some entries ↔ value = .object entries := by
  cases value <;> simp [JsonValue.asObject]

@[simp] theorem leafAt_cons_object :
    leafAt (key :: path) (.object entries) = (getEntry entries key).bind (leafAt path) := by
  unfold leafAt
  change ((getEntry entries key).bind (valueAt path)).filter _ = _
  cases getEntry entries key <;> rfl

theorem leafAt_cons_leaf (h : value.asObject = none) : leafAt (key :: path) value = none := by
  unfold leafAt valueAt
  rw [h]
  rfl

@[simp] theorem mentions_nil : mentions [] value = true := rfl

@[simp] theorem mentions_cons_object :
    mentions (key :: path) (.object entries) = (getEntry entries key).any (mentions path) := rfl

theorem mentions_leaf (h : value.asObject = none) : mentions path value = true := by
  cases path with
  | nil => rfl
  | cons key path =>
    unfold mentions
    rw [h]

theorem leafAt_of_not_mentions (h : mentions path value = false) : leafAt path value = none := by
  induction path generalizing value with
  | nil => cases h
  | cons key path ih =>
    cases hobject : value.asObject with
    | none =>
      rw [mentions_leaf hobject] at h
      cases h
    | some entries =>
      rw [asObject_eq_some.mp hobject] at h ⊢
      rw [mentions_cons_object] at h
      rw [leafAt_cons_object]
      cases hentry : getEntry entries key with
      | none => rfl
      | some v =>
        rw [hentry] at h
        exact ih h

end Paths

variable {value : JsonValue} {source : JsonObject} {key : String} {files : List JsonObject}

theorem mergeValue_leaf {existing : Option JsonValue} (h : value.asObject = none) :
    mergeValue existing value = value := by
  cases value with
  | object entries => cases h
  | _ => rfl

theorem mergeValue_none (value : JsonValue) : mergeValue none value = value := by
  cases value <;> rfl

theorem mergeValue_object (existing incoming : JsonObject) :
    mergeValue (some (.object existing)) (.object incoming) =
      .object (deepMergeObjects existing incoming) := rfl

theorem mergeValue_over_leaf {existing : JsonValue} (h : existing.asObject = none) :
    mergeValue (some existing) value = value := by
  cases value with
  | object entries =>
    cases existing with
    | object entries => cases h
    | _ => rfl
  | _ => rfl

theorem getEntry_mergeEntry (target : JsonObject) (key : String) (value : JsonValue)
    (other : String) : getEntry (mergeEntry target (key, value)) other =
      if key = other then some (mergeValue (getEntry target key) value)
      else getEntry target other :=
  getEntry_insertEntry key _ target other

theorem getEntry_deepMergeObjects_of_notMem (h : ∀ e ∈ source, e.1 ≠ key) (target : JsonObject) :
    getEntry (deepMergeObjects target source) key = getEntry target key := by
  induction source generalizing target with
  | nil => rfl
  | cons e source ih =>
    rw [deepMergeObjects, ih fun d hd => h d (mem_cons_of_mem _ hd)]
    exact (getEntry_mergeEntry target e.1 e.2 key).trans
      (if_neg (h e mem_cons_self))

theorem getEntry_deepMergeObjects (hsource : KeyOrdered source) (target : JsonObject) (key : String) :
    getEntry (deepMergeObjects target source) key =
      match getEntry source key with
      | none => getEntry target key
      | some value => some (mergeValue (getEntry target key) value) := by
  induction source generalizing target with
  | nil => rfl
  | cons e source ih =>
    obtain ⟨k, v⟩ := e
    obtain ⟨hfirst, hrest⟩ := pairwise_cons.mp hsource
    rw [deepMergeObjects, getEntry_cons]
    by_cases hkey : k = key
    · -- The keys after this one are greater, so they leave its value alone.
      subst hkey
      have hlater : ∀ d ∈ source, d.1 ≠ k := fun d hd heq =>
        absurd (heq ▸ hfirst d hd : k < k) (String.lt_irrefl k)
      rw [getEntry_deepMergeObjects_of_notMem hlater, getEntry_mergeEntry, if_pos rfl,
        if_pos rfl]
    · rw [ih hrest, getEntry_mergeEntry, if_neg hkey, if_neg hkey]

theorem storable_of_getEntry {entries : JsonObject} (h : (JsonValue.object entries).Storable)
    (hentry : getEntry entries key = some value) :
    value.Storable := by
  obtain ⟨e, he, rfl⟩ := Option.map_eq_some_iff.mp hentry
  exact JsonValue.storableEntries_iff.mp h.2 e (mem_of_find?_eq_some he)

mutual

theorem storable_mergeValue : ∀ (incoming : JsonValue) (existing : Option JsonValue),
    incoming.Storable → (∀ v ∈ existing, v.Storable) → (mergeValue existing incoming).Storable
  | .object incoming, existing, hincoming, hexisting => by
    unfold mergeValue
    split
    · exact storable_deepMergeObjects incoming _ hincoming.2 (hexisting _ rfl)
    · exact hincoming
  | .null, _, h, _ => h
  | .bool _, _, h, _ => h
  | .number _, _, h, _ => h
  | .string _, _, h, _ => h
  | .array _, _, h, _ => h

theorem storable_deepMergeObjects : ∀ (source target : JsonObject), JsonValue.StorableEntries source →
    (JsonValue.object target).Storable →
      (JsonValue.object (deepMergeObjects target source)).Storable
  | [], _, _, htarget => htarget
  | (key, value) :: source, target, hsource, htarget => by
    refine storable_deepMergeObjects source _ hsource.2 ?_
    refine Parser.storable_insertEntry ?_ htarget
    exact storable_mergeValue value _ hsource.1 fun v hv => storable_of_getEntry htarget hv

end

theorem leafAt_mergeValue {incoming : JsonValue} (h : incoming.Storable) (path : List String)
    (existing : Option JsonValue) :
    leafAt path (mergeValue existing incoming) =
      if mentions path incoming then leafAt path incoming else existing.bind (leafAt path) := by
  induction path generalizing incoming existing with
  | nil =>
    rw [mentions_nil, if_pos rfl]
    cases hobject : incoming.asObject with
    | none => rw [mergeValue_leaf hobject]
    | some entries =>
      rw [asObject_eq_some.mp hobject]
      unfold mergeValue
      split <;> rfl
  | cons key path ih =>
    cases hobject : incoming.asObject with
    | none => rw [mergeValue_leaf hobject, mentions_leaf hobject, if_pos rfl]
    | some entries =>
      have hincoming := asObject_eq_some.mp hobject
      subst hincoming
      cases existing with
      | none =>
        rw [mergeValue_none]
        split
        · rfl
        · rename_i hmention
          rw [leafAt_of_not_mentions (Bool.eq_false_iff.mpr hmention)]
          rfl
      | some old =>
        cases hold : old.asObject with
        | none =>
          rw [mergeValue_over_leaf hold, Option.bind_some, leafAt_cons_leaf hold]
          split
          · rfl
          · rename_i hmention
            exact leafAt_of_not_mentions (Bool.eq_false_iff.mpr hmention)
        | some existing =>
          rw [asObject_eq_some.mp hold, mergeValue_object, leafAt_cons_object,
            getEntry_deepMergeObjects h.1, mentions_cons_object, leafAt_cons_object,
            Option.bind_some, leafAt_cons_object]
          cases hentry : getEntry entries key with
          | none => rfl
          | some value => exact ih (storable_of_getEntry h hentry) _

def mergeFiles (files : List JsonObject) : JsonObject := files.foldl deepMergeObjects []

/-- What the highest file that mentions one of the places says there. A file
is asked for the places in their order. -/
def specified (places : List (List String)) (files : List JsonObject) : Option JsonValue :=
  (highest (fun file => places.findSome? fun path => mentionAt path (.object file)) files).join

theorem leafAt_foldl_merge (h : ∀ file ∈ files, (JsonValue.object file).Storable)
    (path : List String) (start : JsonObject) :
    leafAt path (.object (files.foldl deepMergeObjects start)) =
      ((highest (fun file => mentionAt path (.object file)) files).or
        (some (leafAt path (.object start)))).join := by
  induction files generalizing start with
  | nil => rfl
  | cons file files ih =>
    rw [foldl_cons, ih fun f hf => h f (mem_cons_of_mem _ hf), ← mergeValue_object,
      leafAt_mergeValue (h file mem_cons_self), highest, mentionAt, Option.bind_some]
    cases highest (fun file => mentionAt path (.object file)) files with
    | some _ => rfl
    | none => split <;> rfl

theorem leafAt_nil_entries (path : List String) : leafAt path (.object []) = none := by
  cases path with
  | nil => rfl
  | cons key path => exact leafAt_cons_object

theorem leafAt_mergeFiles (h : ∀ file ∈ files, (JsonValue.object file).Storable)
    (path : List String) :
    leafAt path (.object (mergeFiles files)) = specified [path] files := by
  have hfold := leafAt_foldl_merge h path []
  rw [leafAt_nil_entries] at hfold
  rw [mergeFiles, hfold, specified]
  simp only [findSome?_singleton]
  cases highest (fun file => mentionAt path (.object file)) files <;> rfl

end DbClinic.Runtime.Config
