import Mathlib.Data.String.Basic
import DbClinic.Lib.SortBy
import DbClinic.Runtime.Json
import DbClinic.Runtime.Trim

/-!
The schedules that a finished agent disables. The items in its texts are scanned
digit by digit, and looked for in the schedules as parts of the text: an item is
found in every reference whose digits begin with its own.
-/

namespace DbClinic.Tools

open DbClinic.Runtime List
open DbClinic.Runtime.Parser (digitsValue)
open DbClinic.SortDedup (sortDedup mem_sortDedup)

def toAsciiLowercase (cs : List Char) : List Char := cs.map Char.toLower

def extractRoadmapItems : List Char → List (List Char)
  | [] => []
  | c :: cs =>
    if c = '#' then
      let digits := cs.takeWhile Char.isDigit
      let rest := cs.dropWhile Char.isDigit
      if digits ≠ [] then ("ROADMAP #".toList ++ digits) :: extractRoadmapItems rest
      else extractRoadmapItems rest
    else extractRoadmapItems cs
  termination_by cs => cs.length
  decreasing_by
    all_goals
      have hle := (dropWhile_suffix Char.isDigit (l := cs)).length_le
      simp only [length_cons]
      omega

structure AgentOutput where
  name : String
  description : String

def cronMatchTokens (manifest : AgentOutput) (result : Option String) : List (List Char) :=
  let items := (extractRoadmapItems manifest.description.toList ++
    extractRoadmapItems (result.getD "").toList).map toAsciiLowercase
  let name := trim manifest.name.toList
  let tokens := if items = [] ∧ name ≠ [] then [toAsciiLowercase name] else items
  sortDedup String.ofList tokens

structure CronEntry where
  cronId : String
  prompt : String
  description : Option String
  enabled : Bool
  updatedAt : Nat
  deriving DecidableEq

/-- The entries, in whatever order, each under an id of its own. -/
structure CronRegistry where
  entries : List CronEntry
  nodup : (entries.map CronEntry.cronId).Nodup

namespace CronRegistry

def list (registry : CronRegistry) (enabledOnly : Bool) : List CronEntry :=
  registry.entries.filter fun e => !enabledOnly || e.enabled

def switchedOff (now : Nat) (e : CronEntry) : CronEntry :=
  { e with enabled := false, updatedAt := now }

theorem cronId_switchOff (now : Nat) (cronId : String) (e : CronEntry) :
    (if e.cronId = cronId then switchedOff now e else e).cronId = e.cronId := by
  split <;> rfl

def disable (registry : CronRegistry) (now : Nat) (cronId : String) : Except String CronRegistry :=
  if cronId ∈ registry.entries.map CronEntry.cronId then
    .ok ⟨registry.entries.map fun e => if e.cronId = cronId then switchedOff now e else e, by
      have hids : CronEntry.cronId ∘ (fun e => if e.cronId = cronId then switchedOff now e else e) =
          CronEntry.cronId := funext (cronId_switchOff now cronId)
      rw [map_map, hids]
      exact registry.nodup⟩
  else .error ("cron not found: " ++ cronId)

end CronRegistry

def haystack (entry : CronEntry) : List Char :=
  toAsciiLowercase (entry.prompt.toList ++ ' ' :: (entry.description.getD "").toList)

/-- The body of the loop over the enabled entries. -/
def disableMatching (tokens : List (List Char)) (now : Nat)
    (state : List String × CronRegistry) (entry : CronEntry) : List String × CronRegistry :=
  if tokens.any fun token => containsText token (haystack entry) then
    match state.2.disable now entry.cronId with
    | .ok registry => (state.1 ++ [entry.cronId], registry)
    | .error _ => state
  else state

def disableMatchingCrons (registry : CronRegistry) (now : Nat) (manifest : AgentOutput)
    (result : Option String) : List String × CronRegistry :=
  let tokens := cronMatchTokens manifest result
  if tokens = [] then ([], registry)
  else
    let state := (registry.list true).foldl (disableMatching tokens now) ([], registry)
    (state.1.mergeSort fun a b => decide (a ≤ b), state.2)

/-- The mark stands in the text, with these digits behind it and no further one. -/
def Refers (mark text digits : List Char) : Prop :=
  ∃ front back, text = front ++ mark ++ digits ++ back ∧ digits ≠ [] ∧
    (∀ c ∈ digits, c.isDigit = true) ∧ ∀ c ∈ back.head?, c.isDigit = false

variable {mark text digits line : List Char}

theorem takeWhile_digits {back : List Char} (hdigits : ∀ c ∈ digits, c.isDigit = true)
    (hback : ∀ c ∈ back.head?, c.isDigit = false) :
    (digits ++ back).takeWhile Char.isDigit = digits ∧
      (digits ++ back).dropWhile Char.isDigit = back := by
  rw [takeWhile_append_of_pos hdigits, dropWhile_append_of_pos hdigits]
  cases back with
  | nil => simp
  | cons c back =>
    have hc := hback c rfl
    simp [hc]

theorem refers_takeWhile (mark front cs : List Char) (h : cs.takeWhile Char.isDigit ≠ []) :
    Refers mark (front ++ mark ++ cs) (cs.takeWhile Char.isDigit) := by
  refine ⟨front, cs.dropWhile Char.isDigit, ?_, h, fun c hc => mem_takeWhile_imp hc, ?_⟩
  · rw [append_assoc _ (cs.takeWhile _), takeWhile_append_dropWhile]
  · intro c hc
    have hhead := head?_dropWhile_not Char.isDigit cs
    rw [hc] at hhead
    simpa using hhead

theorem not_refers_nil : ¬Refers ['#'] [] digits := by
  rintro ⟨front, back, h, -⟩
  simp at h

theorem refers_of_append {other : List Char} (h : Refers (mark ++ other) text digits) :
    Refers other text digits := by
  obtain ⟨front, back, rfl, h⟩ := h
  exact ⟨front ++ mark, back, by simp, h⟩

theorem refers_cons_iff {c : Char} {cs : List Char} :
    Refers ['#'] (c :: cs) digits ↔
      (c = '#' ∧ digits ≠ [] ∧ digits = cs.takeWhile Char.isDigit) ∨ Refers ['#'] cs digits := by
  constructor
  · rintro ⟨front, back, htext, hne, hdigits, hback⟩
    cases front with
    | nil =>
      obtain ⟨rfl, rfl⟩ := List.cons.inj htext
      exact .inl ⟨rfl, hne, (takeWhile_digits hdigits hback).1.symm⟩
    | cons d front =>
      exact .inr ⟨front, back, (List.cons.inj htext).2, hne, hdigits, hback⟩
  · rintro (⟨rfl, hne, rfl⟩ | ⟨front, back, rfl, h⟩)
    · exact refers_takeWhile ['#'] [] cs hne
    · exact ⟨c :: front, back, rfl, h⟩

theorem refers_dropWhile_iff (cs : List Char) :
    Refers ['#'] (cs.dropWhile Char.isDigit) digits ↔ Refers ['#'] cs digits := by
  induction cs with
  | nil => rfl
  | cons c cs ih =>
    by_cases hc : c.isDigit = true
    · have hsharp : c ≠ '#' := by
        rintro rfl
        exact absurd hc (by decide)
      rw [dropWhile_cons_of_pos hc, ih, refers_cons_iff]
      simp [hsharp]
    · rw [dropWhile_cons_of_neg hc]

theorem mem_extractRoadmapItems_iff :
    "ROADMAP #".toList ++ digits ∈ extractRoadmapItems line ↔ Refers ['#'] line digits := by
  induction line using extractRoadmapItems.induct with
  | case1 =>
    rw [extractRoadmapItems]
    exact iff_of_false not_mem_nil not_refers_nil
  | case2 cs found rest hfound ih =>
    rw [extractRoadmapItems, if_pos rfl]
    simp only
    rw [if_pos hfound, mem_cons, ih, refers_dropWhile_iff, refers_cons_iff]
    refine or_congr_left ⟨fun h => ?_, fun h => ?_⟩
    · have hdigits := append_cancel_left h
      exact ⟨rfl, hdigits ▸ hfound, hdigits⟩
    · rw [h.2.2]
  | case3 cs found rest hfound ih =>
    have hnone : cs.takeWhile Char.isDigit = [] := not_not.mp hfound
    rw [extractRoadmapItems, if_pos rfl]
    simp only
    rw [if_neg hfound, ih, refers_dropWhile_iff, refers_cons_iff]
    refine ⟨.inr, fun h => h.resolve_left ?_⟩
    rintro ⟨-, hne, heq⟩
    exact hne (heq.trans hnone)
  | case4 c cs hc ih =>
    rw [extractRoadmapItems, if_neg hc, ih, refers_cons_iff]
    simp [hc]

theorem eq_of_mem_extractRoadmapItems {item : List Char} (h : item ∈ extractRoadmapItems line) :
    ∃ digits, item = "ROADMAP #".toList ++ digits := by
  induction line using extractRoadmapItems.induct with
  | case1 =>
    rw [extractRoadmapItems] at h
    cases h
  | case2 cs found rest hfound ih =>
    rw [extractRoadmapItems, if_pos rfl] at h
    simp only at h
    rw [if_pos hfound] at h
    rcases mem_cons.mp h with rfl | h
    · exact ⟨_, rfl⟩
    · exact ih h
  | case3 cs found rest hfound ih =>
    rw [extractRoadmapItems, if_pos rfl] at h
    simp only at h
    rw [if_neg hfound] at h
    exact ih h
  | case4 c cs hc ih =>
    rw [extractRoadmapItems, if_neg hc] at h
    exact ih h

theorem infix_iff_refers (hne : digits ≠ []) (hdigits : ∀ c ∈ digits, c.isDigit = true) :
    mark ++ digits <:+: text ↔ ∃ run, digits <+: run ∧ Refers mark text run := by
  constructor
  · rintro ⟨front, back, rfl⟩
    have hrun : (digits ++ back).takeWhile Char.isDigit =
        digits ++ back.takeWhile Char.isDigit := takeWhile_append_of_pos hdigits
    refine ⟨_, prefix_append digits (back.takeWhile Char.isDigit), ?_⟩
    have hrefers := refers_takeWhile mark front (digits ++ back) (by rw [hrun]; simp [hne])
    rw [hrun] at hrefers
    simpa using hrefers
  · rintro ⟨run, ⟨more, rfl⟩, front, back, rfl, -⟩
    exact ⟨front, more ++ back, by simp⟩

section Calls

variable (registry : CronRegistry) (now : Nat) (manifest : AgentOutput) (result : Option String)

def Item (digits : List Char) : Prop :=
  Refers ['#'] manifest.description.toList digits ∨ Refers ['#'] (result.getD "").toList digits

/-- A text refers to an item, in letters of any case and by the same number. -/
def RefersToItem (text : List Char) : Prop :=
  ∃ digits run, Item manifest result digits ∧
    Refers "roadmap #".toList (toAsciiLowercase text) run ∧ digitsValue run = digitsValue digits

/-- The prompt or the description of the entry refers to one of the items. -/
def Own (entry : CronEntry) : Prop :=
  RefersToItem manifest result entry.prompt.toList ∨
    RefersToItem manifest result (entry.description.getD "").toList

/-- Some reference in the text of both begins with the digits of an item. -/
def Extends (entry : CronEntry) : Prop :=
  ∃ digits run, Item manifest result digits ∧ digits <+: run ∧
    Refers "roadmap #".toList (haystack entry) run

variable {registry now manifest result}

theorem toAsciiLowercase_item (hdigits : ∀ c ∈ digits, c.isDigit = true) :
    toAsciiLowercase ("ROADMAP #".toList ++ digits) = "roadmap #".toList ++ digits := by
  have hkept : ∀ c : Char, c.isDigit = true → c.toLower = c := by
    intro c hc
    have hupper : ¬(c.val ≥ 'A'.val ∧ c.val ≤ 'Z'.val) := by
      simp only [Char.isDigit, Bool.and_eq_true, decide_eq_true_eq] at hc
      rintro ⟨hge, -⟩
      exact absurd (UInt32.le_trans hge hc.2) (by decide)
    exact dif_neg hupper
  unfold toAsciiLowercase
  rw [map_append, map_congr_left fun c hc => hkept c (hdigits c hc), map_id']
  rfl

theorem spec_of_item (h : Item manifest result digits) :
    digits ≠ [] ∧ ∀ c ∈ digits, c.isDigit = true := by
  rcases h with ⟨_, _, _, hne, hdigits, _⟩ | ⟨_, _, _, hne, hdigits, _⟩ <;> exact ⟨hne, hdigits⟩

theorem mem_cronMatchTokens_iff (hitem : ∃ digits, Item manifest result digits)
    {token : List Char} : token ∈ cronMatchTokens manifest result ↔
      ∃ digits, Item manifest result digits ∧ token = "roadmap #".toList ++ digits := by
  have hitems : ∀ token : List Char, token ∈ (extractRoadmapItems manifest.description.toList ++
      extractRoadmapItems (result.getD "").toList).map toAsciiLowercase ↔
      ∃ digits, Item manifest result digits ∧ token = "roadmap #".toList ++ digits := by
    intro token
    rw [mem_map]
    constructor
    · rintro ⟨item, hmem, rfl⟩
      have hdigits : ∃ digits, item = "ROADMAP #".toList ++ digits := by
        rcases mem_append.mp hmem with h | h <;> exact eq_of_mem_extractRoadmapItems h
      obtain ⟨digits, rfl⟩ := hdigits
      rw [mem_append, mem_extractRoadmapItems_iff, mem_extractRoadmapItems_iff] at hmem
      have hitem : Item manifest result digits := hmem
      exact ⟨digits, hitem, toAsciiLowercase_item (spec_of_item hitem).2⟩
    · rintro ⟨digits, hitem, rfl⟩
      refine ⟨"ROADMAP #".toList ++ digits, ?_, toAsciiLowercase_item (spec_of_item hitem).2⟩
      rw [mem_append, mem_extractRoadmapItems_iff, mem_extractRoadmapItems_iff]
      exact hitem
  have hne : (extractRoadmapItems manifest.description.toList ++
      extractRoadmapItems (result.getD "").toList).map toAsciiLowercase ≠ [] := by
    obtain ⟨digits, hdigits⟩ := hitem
    exact ne_nil_of_mem ((hitems _).mpr ⟨digits, hdigits, rfl⟩)
  unfold cronMatchTokens
  simp only
  rw [if_neg (fun h => hne h.1), mem_sortDedup (fun a b h => String.ofList_inj.mp h), hitems]

theorem any_token_iff (hitem : ∃ digits, Item manifest result digits) (entry : CronEntry) :
    (cronMatchTokens manifest result).any (fun token => containsText token (haystack entry)) =
      true ↔ Extends manifest result entry := by
  have hcontains (token : List Char) :
      containsText token (haystack entry) = true ↔ token <:+: haystack entry := by
    rw [containsText, ← Option.ne_none_iff_isSome, ne_eq, splitOnce_eq_none_iff, not_not]
  simp only [any_eq_true, mem_cronMatchTokens_iff hitem, hcontains]
  constructor
  · rintro ⟨token, ⟨digits, hdigits, rfl⟩, hin⟩
    obtain ⟨hne, hall⟩ := spec_of_item hdigits
    obtain ⟨run, hrun, hrefers⟩ := (infix_iff_refers hne hall).mp hin
    exact ⟨digits, run, hdigits, hrun, hrefers⟩
  · rintro ⟨digits, run, hdigits, hrun, hrefers⟩
    obtain ⟨hne, hall⟩ := spec_of_item hdigits
    exact ⟨_, ⟨digits, hdigits, rfl⟩, (infix_iff_refers hne hall).mpr ⟨run, hrun, hrefers⟩⟩

def matched (tokens : List (List Char)) (entries : List CronEntry) : List String :=
  (entries.filter fun entry => tokens.any fun token =>
    containsText token (haystack entry)).map CronEntry.cronId

theorem matched_cons (tokens : List (List Char)) (entry : CronEntry) (todo : List CronEntry) :
    matched tokens (entry :: todo) =
      if (tokens.any fun token => containsText token (haystack entry)) = true then
        entry.cronId :: matched tokens todo
      else matched tokens todo := by
  unfold matched
  rw [filter_cons]
  split <;> rfl

theorem entries_disableMatching (tokens : List (List Char)) (state : List String × CronRegistry)
    (entry : CronEntry) :
    (disableMatching tokens now state entry).2.entries = state.2.entries.map fun e =>
      if e.cronId ∈ matched tokens [entry] then CronRegistry.switchedOff now e else e := by
  rw [matched_cons]
  unfold disableMatching
  split
  · unfold CronRegistry.disable
    by_cases hknown : entry.cronId ∈ state.2.entries.map CronEntry.cronId
    · rw [if_pos hknown]
      simp [matched]
    · rw [if_neg hknown]
      -- An id that is not in the registry changes nothing.
      refine (map_id' _).symm.trans (map_congr_left fun e he => ?_)
      have hother : e.cronId ∉ [entry.cronId] := by
        rintro hmem
        exact hknown (mem_singleton.mp hmem ▸ mem_map_of_mem he)
      exact (if_neg hother).symm
  · simp [matched]

theorem entries_foldl (tokens : List (List Char)) (todo : List CronEntry)
    (state : List String × CronRegistry) :
    (todo.foldl (disableMatching tokens now) state).2.entries = state.2.entries.map fun e =>
      if e.cronId ∈ matched tokens todo then CronRegistry.switchedOff now e else e := by
  induction todo generalizing state with
  | nil => simp [matched]
  | cons entry todo ih =>
    rw [foldl_cons, ih, entries_disableMatching, map_map]
    refine map_congr_left fun e _ => ?_
    have hsplit : e.cronId ∈ matched tokens (entry :: todo) ↔
        e.cronId ∈ matched tokens [entry] ∨ e.cronId ∈ matched tokens todo := by
      rw [matched_cons, matched_cons]
      split <;> simp [matched]
    rw [Function.comp_apply]
    by_cases hentry : e.cronId ∈ matched tokens [entry]
    · rw [if_pos hentry, if_pos (hsplit.mpr (.inl hentry))]
      split <;> rfl
    · rw [if_neg hentry]
      exact if_congr (by rw [hsplit]; simp [hentry]) rfl rfl

theorem entries_disableMatchingCrons (hitem : ∃ digits, Item manifest result digits)
    {entry : CronEntry} (hentry : entry ∈ registry.list true) :
    (Extends manifest result entry → CronRegistry.switchedOff now entry ∈
      (disableMatchingCrons registry now manifest result).2.entries) ∧
    (¬Extends manifest result entry →
      entry ∈ (disableMatchingCrons registry now manifest result).2.entries) := by
  have hmem : entry ∈ registry.entries := (mem_filter.mp hentry).1
  have hne : cronMatchTokens manifest result ≠ [] := by
    obtain ⟨digits, hdigits⟩ := hitem
    have htoken := (mem_cronMatchTokens_iff ⟨digits, hdigits⟩).mpr ⟨digits, hdigits, rfl⟩
    exact ne_nil_of_mem htoken
  have hmatched : entry.cronId ∈ matched (cronMatchTokens manifest result) (registry.list true) ↔
      Extends manifest result entry := by
    rw [← any_token_iff hitem, matched, mem_map]
    constructor
    · rintro ⟨other, hother, hid⟩
      obtain ⟨hlisted, hany⟩ := mem_filter.mp hother
      have hsame := inj_on_of_nodup_map registry.nodup (mem_filter.mp hlisted).1 hmem hid
      exact hsame ▸ hany
    · exact fun hany => ⟨entry, mem_filter.mpr ⟨hentry, hany⟩, rfl⟩
  unfold disableMatchingCrons
  simp only
  rw [if_neg hne, entries_foldl]
  constructor
  · intro h
    exact mem_map.mpr ⟨entry, hmem, if_pos (hmatched.mpr h)⟩
  · intro h
    exact mem_map.mpr ⟨entry, hmem, if_neg (mt hmatched.mp h)⟩

theorem not_both_entries {registry : CronRegistry} {entry : CronEntry}
    (hon : entry.enabled = true) (h : entry ∈ registry.entries) :
    CronRegistry.switchedOff now entry ∉ registry.entries := by
  intro hoff
  have hsame := inj_on_of_nodup_map registry.nodup h hoff rfl
  rw [hsame] at hon
  exact absurd hon Bool.false_ne_true

/-- A call switches off the entries that refer to one of its items, and no other one, if
these are the entries where a reference begins with the digits of an item. -/
theorem disableMatchingCrons_own_iff (registry : CronRegistry) (now : Nat)
    (manifest : AgentOutput) (result : Option String)
    (hitem : ∃ digits, Item manifest result digits) :
    (∀ entry ∈ registry.list true,
      (Own manifest result entry → CronRegistry.switchedOff now entry ∈
        (disableMatchingCrons registry now manifest result).2.entries) ∧
      (¬Own manifest result entry →
        entry ∈ (disableMatchingCrons registry now manifest result).2.entries)) ↔
    ∀ entry ∈ registry.list true,
      (Extends manifest result entry → Own manifest result entry) ∧
      (Own manifest result entry → Extends manifest result entry) := by
  refine forall₂_congr fun entry hentry => ?_
  have hon : entry.enabled = true := by simpa using (mem_filter.mp hentry).2
  obtain ⟨hoff, hkept⟩ := @entries_disableMatchingCrons _ now _ _ hitem _ hentry
  constructor
  · rintro ⟨hown, hother⟩
    refine ⟨fun h => ?_, fun h => ?_⟩
    · by_contra hnot
      exact not_both_entries hon (hother hnot) (hoff h)
    · by_contra hnot
      exact not_both_entries hon (hkept hnot) (hown h)
  · rintro ⟨hown, hextends⟩
    exact ⟨fun h => hoff (hextends h), fun h => hkept (mt hown h)⟩

def laneClosing1 : AgentOutput := ⟨"lane", "close #1"⟩

def scheduleFor12 : CronEntry := ⟨"cron-12", "ROADMAP #12", none, true, 0⟩

theorem item_laneClosing1_iff : Item laneClosing1 none digits ↔ digits = ['1'] := by
  have htext : laneClosing1.description.toList = ['c', 'l', 'o', 's', 'e', ' ', '#', '1'] := rfl
  rw [Item, htext]
  simp [refers_cons_iff, not_refers_nil]
  rintro rfl
  simp

theorem disableMatchingCrons_own_scheduleFor12 :
    (∀ entry ∈ CronRegistry.list ⟨[scheduleFor12], by decide⟩ true,
      (Own laneClosing1 none entry → CronRegistry.switchedOff 7 entry ∈
        (disableMatchingCrons ⟨[scheduleFor12], by decide⟩ 7 laneClosing1 none).2.entries) ∧
      (¬Own laneClosing1 none entry → entry ∈
        (disableMatchingCrons ⟨[scheduleFor12], by decide⟩ 7 laneClosing1 none).2.entries)) ↔
    ∀ entry ∈ CronRegistry.list ⟨[scheduleFor12], by decide⟩ true,
      (Extends laneClosing1 none entry → Own laneClosing1 none entry) ∧
      (Own laneClosing1 none entry → Extends laneClosing1 none entry) :=
  disableMatchingCrons_own_iff _ _ _ _ ⟨['1'], item_laneClosing1_iff.mpr rfl⟩

theorem not_own_scheduleFor12 : ¬Own laneClosing1 none scheduleFor12 := by
  have hnone : ∀ text : List Char, (∀ run, Refers ['#'] (toAsciiLowercase text) run →
      digitsValue run ≠ 1) → ¬RefersToItem laneClosing1 none text := by
    rintro text htext ⟨digits, run, hdigits, hrun, hval⟩
    obtain rfl := item_laneClosing1_iff.mp hdigits
    have hmark : "roadmap #".toList = "roadmap ".toList ++ ['#'] := by decide
    rw [hmark] at hrun
    exact htext run (refers_of_append hrun) hval
  rintro (h | h)
  · have htext : toAsciiLowercase scheduleFor12.prompt.toList =
        ['r', 'o', 'a', 'd', 'm', 'a', 'p', ' ', '#', '1', '2'] := by decide
    refine hnone _ (fun run hrun => ?_) h
    rw [htext] at hrun
    simp [refers_cons_iff, not_refers_nil] at hrun
    obtain ⟨-, rfl⟩ := hrun
    decide
  · have htext : toAsciiLowercase (scheduleFor12.description.getD "").toList = [] := by decide
    refine hnone _ (fun run hrun => ?_) h
    rw [htext] at hrun
    exact absurd hrun not_refers_nil

/-- The lane that closes item 1 also switches off the schedule for item 12. -/
theorem disableMatchingCrons_not_own :
    Item laneClosing1 none ['1'] ∧ ¬∀ entry ∈ CronRegistry.list ⟨[scheduleFor12], by decide⟩ true,
      (Own laneClosing1 none entry → CronRegistry.switchedOff 7 entry ∈
        (disableMatchingCrons ⟨[scheduleFor12], by decide⟩ 7 laneClosing1 none).2.entries) ∧
      (¬Own laneClosing1 none entry → entry ∈
        (disableMatchingCrons ⟨[scheduleFor12], by decide⟩ 7 laneClosing1 none).2.entries) := by
  have hitem : Item laneClosing1 none ['1'] := item_laneClosing1_iff.mpr rfl
  have hentry : scheduleFor12 ∈ CronRegistry.list ⟨[scheduleFor12], by decide⟩ true := by decide
  refine ⟨hitem, fun h => ?_⟩
  have hkept := (h scheduleFor12 hentry).2 not_own_scheduleFor12
  refine @not_both_entries 7 _ _ rfl hkept ?_
  refine (entries_disableMatchingCrons ⟨['1'], hitem⟩ hentry).1 ⟨['1'], ['1', '2'], hitem, ?_, ?_⟩
  · exact prefix_append ['1'] ['2']
  · refine ⟨[], [' '], by decide, by decide, List.all_eq_true.mp (by decide), ?_⟩
    rintro c ⟨⟩
    decide

end Calls

end DbClinic.Tools
