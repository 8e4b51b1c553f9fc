import DbClinic.Lib.EditDistance
import DbClinic.Runtime.ConfigValidate

/-!
The closest known name of an unknown key. The table of distances is right. It is
not made where one of the texts is empty, and the length of the other is then
taken in bytes.
-/

namespace DbClinic.Runtime.Config

open EditDistance List

theorem editRow_row (x : Char) (xs front right : List Char) :
    editRow x (distance (x :: xs) front) right (row xs front right) =
      (row (x :: xs) front right).tail := by
  induction right generalizing front with
  | nil => rfl
  | cons y right ih =>
    have hcell : min (min (distance xs (y :: front) + 1) (distance (x :: xs) front + 1))
        (distance xs front + if x ≠ y then 1 else 0) = distance (x :: xs) (y :: front) := by
      rw [distance_cons_cons]
      simp only [ne_eq, ite_not]
    rw [row, row_eq_cons xs, editRow, hcell, ← row_eq_cons xs, ih, row, tail_cons,
      ← row_eq_cons]

theorem editRows_row (right left done : List Char) :
    editRows right done.length left (row done [] right) = row (left.reverse ++ done) [] right := by
  induction left generalizing done with
  | nil => rfl
  | cons x left ih =>
    have hcell : distance (x :: done) [] = done.length + 1 := distance_nil_right (x :: done)
    have hnext : (done.length + 1) :: editRow x (done.length + 1) right (row done [] right) =
        row (x :: done) [] right := by
      rw [← hcell, editRow_row, ← row_eq_cons]
    rw [editRows, hnext, ← length_cons, ih, reverse_cons, append_assoc,
      singleton_append]

theorem simpleEditDistance_of_ne {left right : String} (hleft : left ≠ "") (hright : right ≠ "") :
    simpleEditDistance left right = distance left.toList right.toList := by
  have hstart : List.range (right.toList.length + 1) = row [] [] right.toList := by
    rw [row_nil, range_eq_range']
    rfl
  have htable : editRows right.toList 0 left.toList (row [] [] right.toList) = _ :=
    editRows_row right.toList left.toList []
  rw [simpleEditDistance, if_neg hleft, if_neg hright]
  simp only
  rw [hstart, htable, getD_row, append_nil, append_nil, distance_reverse]

def IsAscii (text : String) : Prop := ∀ c ∈ text.toList, c.utf8Size = 1

theorem utf8ByteSize_ofList (cs : List Char) :
    (String.ofList cs).utf8ByteSize = (cs.map Char.utf8Size).sum := by
  induction cs with
  | nil => rfl
  | cons c cs ih =>
    rw [String.ofList_cons, String.utf8ByteSize_append, String.utf8ByteSize_singleton, ih,
      map_cons, sum_cons]

theorem sum_utf8Size_iff (cs : List Char) :
    (cs.map Char.utf8Size).sum = cs.length ↔ ∀ c ∈ cs, c.utf8Size = 1 := by
  have hle (cs : List Char) : cs.length ≤ (cs.map Char.utf8Size).sum := by
    induction cs with
    | nil => exact Nat.le_refl _
    | cons c cs ih =>
      have hpos := c.utf8Size_pos
      rw [map_cons, sum_cons, length_cons]
      omega
  induction cs with
  | nil => simp
  | cons c cs ih =>
    have hpos := c.utf8Size_pos
    have hrest := hle cs
    refine Iff.trans ?_ (forall_mem_cons.trans (and_congr_right' ih.symm)).symm
    rw [map_cons, sum_cons, length_cons]
    omega

theorem utf8ByteSize_iff (text : String) :
    text.utf8ByteSize = text.toList.length ↔ IsAscii text := by
  have hsize := utf8ByteSize_ofList text.toList
  rw [String.ofList_toList] at hsize
  rw [hsize]
  exact sum_utf8Size_iff text.toList

/-- A text that stands against the empty one has only ASCII characters. -/
def Measured (left right : String) : Prop :=
  (left = "" → IsAscii right) ∧ (right = "" → IsAscii left)

theorem simpleEditDistance_eq_iff (left right : String) :
    simpleEditDistance left right = distance left.toList right.toList ↔ Measured left right := by
  unfold Measured
  by_cases hleft : left = ""
  · subst hleft
    have hempty : IsAscii "" := fun c hc => absurd hc (not_mem_nil)
    rw [simpleEditDistance, if_pos rfl, String.toList_empty, distance_nil, utf8ByteSize_iff]
    exact ⟨fun h => ⟨fun _ => h, fun _ => hempty⟩, fun h => h.1 rfl⟩
  · by_cases hright : right = ""
    · subst hright
      rw [simpleEditDistance, if_neg hleft, if_pos rfl, String.toList_empty, distance_nil_right,
        utf8ByteSize_iff]
      exact ⟨fun h => ⟨fun h' => absurd h' hleft, fun _ => h⟩, fun h => h.2 rfl⟩
    · exact iff_of_true (simpleEditDistance_of_ne hleft hright)
        ⟨fun h => absurd h hleft, fun h => absurd h hright⟩

def IsDistance (left right : String) : Prop :=
  IsLeast {n | Edits n left.toList right.toList} (simpleEditDistance left right)

theorem isDistance_iff (left right : String) : IsDistance left right ↔ Measured left right := by
  have hleast := isLeast_distance left.toList right.toList
  rw [← simpleEditDistance_eq_iff]
  constructor
  · intro h
    exact IsLeast.unique h hleast
  · intro h
    unfold IsDistance
    rw [h]
    exact hleast

/-- The number of edits between a key and a name, in whatever case they are. -/
def Away (input : String) (n : Nat) (candidate : String) : Prop :=
  Edits n (toAsciiLowercase input).toList (toAsciiLowercase candidate).toList

/-- Where a candidate is at most three edits away, one is suggested to which no
other is closer. -/
def SuggestsClosest (input : String) (candidates : List String) : Prop :=
  (∃ candidate ∈ candidates, ∃ n ≤ 3, Away input n candidate) →
    ∃ best ∈ candidates, suggestField input candidates = some best ∧
      ∀ candidate ∈ candidates, ∀ n, Away input n candidate → ∃ m ≤ n, Away input m best

theorem closest_cons (first : Nat × String) (rest : List (Nat × String)) :
    ∃ best ∈ first :: rest, closest (first :: rest) = some best ∧
      ∀ e ∈ first :: rest, best.1 ≤ e.1 := by
  have hfold : ∀ (rest : List (Nat × String)) (first : Nat × String),
      let best := rest.foldl (fun best e => if e.1 < best.1 then e else best) first
      best ∈ first :: rest ∧ ∀ e ∈ first :: rest, best.1 ≤ e.1 := by
    intro rest
    induction rest with
    | nil => simp
    | cons e rest ih =>
      intro first
      obtain ⟨hmem, hle⟩ := ih (if e.1 < first.1 then e else first)
      rw [forall_mem_cons] at hle
      simp only [foldl_cons, forall_mem_cons]
      generalize rest.foldl _ _ = best at hmem hle
      obtain ⟨hhead, htail⟩ := hle
      rw [mem_cons] at hmem
      simp only [mem_cons]
      split at hmem <;> rename_i hlt
      · rw [if_pos hlt] at hhead
        exact ⟨by tauto, by omega, hhead, htail⟩
      · rw [if_neg hlt] at hhead
        exact ⟨by tauto, hhead, by omega, htail⟩
  obtain ⟨hmem, hle⟩ := hfold rest first
  exact ⟨_, hmem, rfl, hle⟩

theorem suggestsClosest {input : String} {candidates : List String}
    (h : ∀ candidate ∈ candidates,
      IsDistance (toAsciiLowercase input) (toAsciiLowercase candidate)) :
    SuggestsClosest input candidates := by
  rintro ⟨candidate, hmem, n, hn, haway⟩
  let away := fun candidate : String =>
    simpleEditDistance (toAsciiLowercase input) (toAsciiLowercase candidate)
  let near := candidates.filterMap fun candidate =>
    if away candidate ≤ 3 then some (away candidate, candidate) else none
  have hnear : ∀ e : Nat × String,
      e ∈ near ↔ e.2 ∈ candidates ∧ e.1 = away e.2 ∧ away e.2 ≤ 3 := by
    intro e
    simp only [near, mem_filterMap, Option.ite_none_right_eq_some, Option.some.injEq]
    constructor
    · rintro ⟨c, hc, hle, rfl⟩
      exact ⟨hc, rfl, hle⟩
    · rintro ⟨hc, heq, hle⟩
      exact ⟨e.2, hc, hle, by rw [← heq]⟩
  have hcand : (away candidate, candidate) ∈ near :=
    (hnear _).mpr ⟨hmem, rfl, Nat.le_trans ((h candidate hmem).2 haway) hn⟩
  cases hlist : near with
  | nil =>
    rw [hlist] at hcand
    cases hcand
  | cons first rest =>
    obtain ⟨best, hbest, hclosest, hle⟩ := closest_cons first rest
    rw [← hlist] at hbest hclosest hle
    obtain ⟨hin, haway', hthree⟩ := (hnear best).mp hbest
    refine ⟨best.2, hin, ?_, fun other hother m hm => ⟨away best.2, ?_, (h best.2 hin).1⟩⟩
    · change (closest near).map Prod.snd = _
      rw [hclosest]
      rfl
    · have hleast : away other ≤ m := (h other hother).2 hm
      by_cases hother3 : away other ≤ 3
      · have hcloser := hle (away other, other) ((hnear _).mpr ⟨hother, rfl, hother3⟩)
        omega
      · omega

/-- The value is the distance, and the suggestion the closest name, exactly if
no empty text stands against one that is not ASCII. -/
theorem isDistance_and_suggestsClosest_iff (input : String) (candidates : List String) :
    (∀ left right : String, IsDistance left right ↔ Measured left right) ∧
    (((∀ candidate ∈ candidates,
        IsDistance (toAsciiLowercase input) (toAsciiLowercase candidate)) ∧
      SuggestsClosest input candidates) ↔
    ∀ candidate ∈ candidates,
      Measured (toAsciiLowercase input) (toAsciiLowercase candidate)) := by
  refine ⟨isDistance_iff, ?_⟩
  simp only [isDistance_iff]
  refine ⟨And.left, fun h => ⟨h, suggestsClosest fun candidate hmem => ?_⟩⟩
  exact (isDistance_iff _ _).mpr (h candidate hmem)

/-- A letter of two bytes is taken to be two edits away from nothing, and two of
them, which are two edits away, are not suggested. -/
theorem not_isDistance_empty :
    ¬IsDistance "" "é" ∧ ¬SuggestsClosest "" ["éé"] := by
  constructor
  · intro h
    have hascii := ((isDistance_iff "" "é").mp h).1 rfl
    exact absurd (hascii 'é' (by decide)) (by decide)
  · intro h
    have haway : Away "" 2 "éé" :=
      ((Edits.refl []).step (.insert [] 'é' [])).step (.insert ['é'] 'é' [])
    obtain ⟨best, -, hsuggested, -⟩ := h ⟨"éé", mem_singleton_self _, 2, by decide, haway⟩
    have hnone : suggestField "" ["éé"] = none := by decide
    rw [hnone] at hsuggested
    cases hsuggested

end DbClinic.Runtime.Config
