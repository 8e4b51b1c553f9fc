import DbClinic.Lib.SortBy
import Mathlib.Data.Finset.Dedup
import Mathlib.Data.List.Sublists
import Mathlib.Data.Prod.Lex
import Mathlib.Data.String.Basic

/-!
The locks that lanes intend to take on the modules of a branch, and the collisions between
them. Every two intents of one branch are compared, the earlier one on the left.
-/

namespace DbClinic.Runtime

open SortDedup List

structure BranchLockIntent where
  laneId : String
  branch : String
  worktree : Option String
  modules : List String
deriving DecidableEq

structure BranchLockCollision where
  branch : String
  module : String
  laneIds : List String
deriving DecidableEq

/-- `module.starts_with(&format!("{scope}/"))`. -/
def isBelow (module scope : String) : Bool := (scope ++ "/").toList.isPrefixOf module.toList

def modulesOverlap (left right : String) : Bool :=
  left == right || isBelow left right || isBelow right left

def sharedScope (left right : String) : String :=
  if isBelow left right || left == right then right else left

def overlappingModules (left right : List String) : List String :=
  sortDedup id (left.flatMap fun leftModule =>
    (right.filter fun rightModule => modulesOverlap leftModule rightModule).map
      fun rightModule => sharedScope leftModule rightModule)

/-- What one intent adds when it is compared with a later one. -/
def collisionsBetween (left right : BranchLockIntent) : List BranchLockCollision :=
  if left.branch ≠ right.branch then []
  else (overlappingModules left.modules right.modules).map fun module =>
    { branch := left.branch, module := module, laneIds := [left.laneId, right.laneId] }

/-- The two loops over the intents. -/
def collisionsOf : List BranchLockIntent → List BranchLockCollision
  | [] => []
  | left :: rest => rest.flatMap (collisionsBetween left) ++ collisionsOf rest

/-- What `sort_by` compares: the branch, then the module, then the lanes. -/
def BranchLockCollision.sortKey (collision : BranchLockCollision) :
    String ×ₗ String ×ₗ List String :=
  toLex (collision.branch, toLex (collision.module, collision.laneIds))

def detectBranchLockCollisions (intents : List BranchLockIntent) : List BranchLockCollision :=
  sortDedup BranchLockCollision.sortKey (collisionsOf intents)

theorem BranchLockCollision.sortKey_injective : Function.Injective sortKey := by
  rintro ⟨branch, module, laneIds⟩ ⟨branch', module', laneIds'⟩ h
  have hparts := Prod.mk.inj (toLex.injective h)
  have hrest := Prod.mk.inj (toLex.injective hparts.2)
  exact BranchLockCollision.mk.injEq _ _ _ _ _ _ ▸ ⟨hparts.1, hrest.1, hrest.2⟩

def Covers (scope module : String) : Prop := scope = module ∨ isBelow module scope = true

variable {intents other : List BranchLockIntent} {scope : String} {left right : BranchLockIntent}
variable {c : BranchLockCollision}

theorem isBelow_length {module : String} (h : isBelow module scope = true) :
    scope.toList.length < module.toList.length := by
  have hlen := (List.isPrefixOf_iff_prefix.mp h).length_le
  simp only [String.toList_append, length_append] at hlen
  have hslash : "/".toList.length = 1 := by decide
  omega

theorem not_isBelow_of_isBelow {module : String} (h : isBelow module scope = true) :
    isBelow scope module = false := by
  apply Bool.eq_false_iff.mpr
  intro hother
  have hlt := isBelow_length h
  have hgt := isBelow_length hother
  omega

theorem covers_refl (scope : String) : Covers scope scope := .inl rfl

theorem overlap_iff {left right : String} :
    modulesOverlap left right = true ∧ scope = sharedScope left right ↔
      (scope = left ∨ scope = right) ∧ Covers scope left ∧ Covers scope right := by
  constructor
  · rintro ⟨hoverlap, hscope⟩
    simp only [modulesOverlap, Bool.or_eq_true, beq_iff_eq] at hoverlap
    rcases hoverlap with (rfl | hleft) | hright
    · have hself : scope = left := by simpa [sharedScope] using hscope
      subst hself
      exact ⟨.inl rfl, covers_refl _, covers_refl _⟩
    · have hright : scope = right := by simpa [sharedScope, hleft] using hscope
      subst hright
      exact ⟨.inr rfl, .inr hleft, covers_refl _⟩
    · have hnot : left ≠ right := by
        rintro rfl
        have hlt := isBelow_length hright
        omega
      have hleft : scope = left := by
        simpa [sharedScope, not_isBelow_of_isBelow hright, hnot] using hscope
      subst hleft
      exact ⟨.inl rfl, covers_refl _, .inr hright⟩
  · rintro ⟨rfl | rfl, hleft, hright⟩
    · rcases hright with rfl | hright
      · simp [modulesOverlap, sharedScope]
      · simp [modulesOverlap, sharedScope, hright, not_isBelow_of_isBelow hright]
    · rcases hleft with rfl | hleft
      · simp [modulesOverlap, sharedScope]
      · simp [modulesOverlap, sharedScope, hleft]

/-- The intents claim a common scope on one branch: a module of each, of which one is the
scope and covers the other. -/
structure Contend (scope : String) (left right : BranchLockIntent) : Prop where
  branch : left.branch = right.branch
  overlap : ∃ l ∈ left.modules, ∃ r ∈ right.modules,
    (scope = l ∨ scope = r) ∧ Covers scope l ∧ Covers scope r

theorem Contend.symm (h : Contend scope left right) : Contend scope right left := by
  obtain ⟨hbranch, l, hl, r, hr, hscope, hcoversLeft, hcoversRight⟩ := h
  exact ⟨hbranch.symm, r, hr, l, hl, hscope.symm, hcoversRight, hcoversLeft⟩

theorem mem_overlappingModules {left right : List String} :
    scope ∈ overlappingModules left right ↔
      ∃ l ∈ left, ∃ r ∈ right, (scope = l ∨ scope = r) ∧ Covers scope l ∧ Covers scope r := by
  unfold overlappingModules
  rw [mem_sortDedup Function.injective_id]
  simp only [mem_flatMap, mem_map, mem_filter, ← overlap_iff]
  constructor
  · rintro ⟨l, hl, r, ⟨hr, hoverlap⟩, rfl⟩
    exact ⟨l, hl, r, hr, hoverlap, rfl⟩
  · rintro ⟨l, hl, r, hr, hoverlap, rfl⟩
    exact ⟨l, hl, r, ⟨hr, hoverlap⟩, rfl⟩

theorem mem_collisionsBetween :
    c ∈ collisionsBetween left right ↔
      ∃ scope, Contend scope left right ∧ c = ⟨left.branch, scope, [left.laneId, right.laneId]⟩ := by
  by_cases hbranch : left.branch = right.branch
  · simp only [collisionsBetween, hbranch, ne_eq, not_true_eq_false, if_false, mem_map,
      mem_overlappingModules]
    constructor
    · rintro ⟨scope, hscope, rfl⟩
      exact ⟨scope, ⟨hbranch, hscope⟩, rfl⟩
    · rintro ⟨scope, hscope, rfl⟩
      exact ⟨scope, hscope.overlap, rfl⟩
  · simp only [collisionsBetween, hbranch, ne_eq, not_false_eq_true, if_true, not_mem_nil,
      false_iff]
    rintro ⟨scope, hscope, -⟩
    exact hbranch hscope.branch

/-- The first intent stands before the second. -/
def Before (intents : List BranchLockIntent) (left right : BranchLockIntent) : Prop :=
  [left, right].Sublist intents

theorem mem_collisionsOf :
    c ∈ collisionsOf intents ↔ ∃ left right, Before intents left right ∧
      ∃ scope, Contend scope left right ∧ c = ⟨left.branch, scope, [left.laneId, right.laneId]⟩ := by
  induction intents with
  | nil => simp [collisionsOf, Before]
  | cons head rest ih =>
    simp only [collisionsOf, mem_append, mem_flatMap, mem_collisionsBetween, ih,
      Before, cons_sublist_cons', singleton_sublist]
    constructor
    · rintro (⟨right, hright, hcontend⟩ | ⟨left, right, hpair, hcontend⟩)
      · exact ⟨head, right, .inr ⟨rfl, hright⟩, hcontend⟩
      · exact ⟨left, right, .inl hpair, hcontend⟩
    · rintro ⟨left, right, hpair | ⟨rfl, hright⟩, hcontend⟩
      · exact .inr ⟨left, right, hpair, hcontend⟩
      · exact .inl ⟨right, hright, hcontend⟩

theorem mem_detectBranchLockCollisions :
    c ∈ detectBranchLockCollisions intents ↔ ∃ left right, Before intents left right ∧
      ∃ scope, Contend scope left right ∧ c = ⟨left.branch, scope, [left.laneId, right.laneId]⟩ := by
  unfold detectBranchLockCollisions
  rw [mem_sortDedup BranchLockCollision.sortKey_injective, mem_collisionsOf]

theorem before_or_before (hleft : left ∈ intents) (hright : right ∈ intents) (hne : left ≠ right) :
    Before intents left right ∨ Before intents right left := by
  induction intents with
  | nil => cases hleft
  | cons head rest ih =>
    simp only [Before, cons_sublist_cons', singleton_sublist]
    rcases mem_cons.mp hleft with rfl | hleftRest
    · rcases mem_cons.mp hright with rfl | hrightRest
      · exact absurd rfl hne
      · exact .inl (.inr ⟨rfl, hrightRest⟩)
    · rcases mem_cons.mp hright with rfl | hrightRest
      · exact .inr (.inr ⟨rfl, hleftRest⟩)
      · exact (ih hleftRest hrightRest).imp .inl .inl

theorem eq_or_eq_of_perm_pair {α : Type} {pair : List α} {a b : α} (h : pair.Perm [a, b]) :
    pair = [a, b] ∨ pair = [b, a] := by
  obtain ⟨x, y, rfl⟩ := length_eq_two.mp h.length_eq
  have hx : x ∈ [a, b] := h.subset (by simp)
  rcases mem_pair.mp hx with rfl | rfl
  · obtain rfl : y = b := by simpa using (perm_cons x).mp h
    exact .inl rfl
  · have hswapped : [x, y].Perm [x, a] := h.trans (.swap x a [])
    obtain rfl : y = a := by simpa using (perm_cons x).mp hswapped
    exact .inr rfl

theorem Before.perm (hperm : intents.Perm other) (h : Before intents left right) :
    Before other left right ∨ Before other right left := by
  obtain ⟨pair, hpair, hsublist⟩ := hperm.subperm_left.mp h.subperm
  rcases eq_or_eq_of_perm_pair hpair with rfl | rfl
  · exact .inl hsublist
  · exact .inr hsublist

/-- The collision is about these lanes, whichever is named first. -/
def BranchLockCollision.isAbout (branch scope a b : String) (c : BranchLockCollision) : Bool :=
  c.branch == branch && c.module == scope && (c.laneIds == [a, b] || c.laneIds == [b, a])

/-- The collisions without their order and without the order of the lanes in them. -/
def unordered (collisions : List BranchLockCollision) :
    Finset (String × String × Finset String) :=
  (collisions.map fun c => (c.branch, c.module, c.laneIds.toFinset)).toFinset

/-- One collision for every scope that different lanes contend for, none else, and in any
order of the intents the same ones. -/
structure ReportsExactly (intents : List BranchLockIntent) : Prop where
  complete : ∀ left ∈ intents, ∀ right ∈ intents, left.laneId ≠ right.laneId →
    ∀ scope, Contend scope left right →
      (detectBranchLockCollisions intents).countP
        (·.isAbout left.branch scope left.laneId right.laneId) = 1
  only : ∀ c ∈ detectBranchLockCollisions intents,
    ∃ left ∈ intents, ∃ right ∈ intents, left.laneId ≠ right.laneId ∧
      Contend c.module left right ∧ c.branch = left.branch ∧
      c.laneIds = [left.laneId, right.laneId]
  order : ∀ other : List BranchLockIntent, other.Perm intents →
    unordered (detectBranchLockCollisions other) =
      unordered (detectBranchLockCollisions intents)

theorem unordered_subset (hperm : intents.Perm other) :
    unordered (detectBranchLockCollisions intents) ⊆
      unordered (detectBranchLockCollisions other) := by
  intro entry hentry
  simp only [unordered, mem_toFinset, mem_map, mem_detectBranchLockCollisions]
    at hentry ⊢
  obtain ⟨c, ⟨left, right, hbefore, scope, hcontend, rfl⟩, rfl⟩ := hentry
  rcases hbefore.perm hperm with hsame | hswapped
  · exact ⟨_, ⟨left, right, hsame, scope, hcontend, rfl⟩, rfl⟩
  · refine ⟨_, ⟨right, left, hswapped, scope, hcontend.symm, rfl⟩, ?_⟩
    have hlanes := toFinset_eq_of_perm _ _
      (List.Perm.swap left.laneId right.laneId [])
    simp only [hcontend.branch, hlanes]

theorem unordered_eq_of_perm (hperm : intents.Perm other) :
    unordered (detectBranchLockCollisions intents) =
      unordered (detectBranchLockCollisions other) :=
  (unordered_subset hperm).antisymm (unordered_subset hperm.symm)

def LanesApart (intents : List BranchLockIntent) : Prop :=
  ∀ left right, Before intents left right → left.laneId = right.laneId →
    ∀ scope, ¬Contend scope left right

/-- Where lanes contend for a scope of a branch, one of them always comes first. -/
def OneWay (intents : List BranchLockIntent) : Prop :=
  ∀ a b b' a', Before intents a b → Before intents b' a' → a.laneId ≠ b.laneId →
    a'.laneId = a.laneId → b'.laneId = b.laneId → a'.branch = a.branch →
    ∀ scope, Contend scope a b → ¬Contend scope b' a'

theorem lanesApart_of_reportsExactly (h : ReportsExactly intents) : LanesApart intents := by
  intro left right hbefore hlane scope hcontend
  have hmem := mem_detectBranchLockCollisions.mpr
    ⟨left, right, hbefore, scope, hcontend, rfl⟩
  obtain ⟨left', -, right', -, hdiff, -, -, hlanes⟩ := h.only _ hmem
  simp only [List.cons.injEq, and_true] at hlanes
  apply hdiff
  rw [← hlanes.1, ← hlanes.2, hlane]

theorem Before.mem_left (h : Before intents left right) : left ∈ intents := h.subset (by simp)

theorem Before.mem_right (h : Before intents left right) : right ∈ intents := h.subset (by simp)

theorem oneWay_of_reportsExactly (h : ReportsExactly intents) : OneWay intents := by
  intro a b b' a' hab hba hdiff ha hb hbranch scope hcontend hother
  let forth : BranchLockCollision := ⟨a.branch, scope, [a.laneId, b.laneId]⟩
  let back : BranchLockCollision := ⟨a.branch, scope, [b.laneId, a.laneId]⟩
  have hforth : forth ∈ detectBranchLockCollisions intents :=
    mem_detectBranchLockCollisions.mpr ⟨a, b, hab, scope, hcontend, rfl⟩
  have hback : back ∈ detectBranchLockCollisions intents := by
    apply mem_detectBranchLockCollisions.mpr
    refine ⟨b', a', hba, scope, hother, ?_⟩
    simp [back, hother.branch, ha, hb, hbranch]
  have hne : forth ≠ back := by
    intro heq
    have hlanes := congrArg BranchLockCollision.laneIds heq
    simp only [forth, back, List.cons.injEq] at hlanes
    exact hdiff hlanes.1
  have hcount := h.complete a hab.mem_left b hab.mem_right hdiff scope hcontend
  rw [countP_eq_length_filter] at hcount
  obtain ⟨only, honly⟩ := length_eq_one_iff.mp hcount
  have hforthOnly : forth ∈ [only] := by
    rw [← honly]
    exact mem_filter.mpr ⟨hforth, by simp [forth, BranchLockCollision.isAbout]⟩
  have hbackOnly : back ∈ [only] := by
    rw [← honly]
    exact mem_filter.mpr ⟨hback, by simp [back, BranchLockCollision.isAbout]⟩
  rw [mem_singleton] at hforthOnly hbackOnly
  exact hne (hforthOnly.trans hbackOnly.symm)

theorem isAbout_iff {branch a b : String} :
    c.isAbout branch scope a b = true ↔
      c = ⟨branch, scope, [a, b]⟩ ∨ c = ⟨branch, scope, [b, a]⟩ := by
  obtain ⟨cBranch, cModule, cLanes⟩ := c
  simp only [BranchLockCollision.isAbout, Bool.and_eq_true, Bool.or_eq_true, beq_iff_eq,
    BranchLockCollision.mk.injEq]
  tauto

theorem isAbout_comm (branch scope a b : String) (c : BranchLockCollision) :
    c.isAbout branch scope a b = c.isAbout branch scope b a := by
  unfold BranchLockCollision.isAbout
  rw [Bool.or_comm]

theorem countP_isAbout (h : OneWay intents) {a b : BranchLockIntent} (hbefore : Before intents a b)
    (hdiff : a.laneId ≠ b.laneId) (hcontend : Contend scope a b) :
    (detectBranchLockCollisions intents).countP
      (·.isAbout a.branch scope a.laneId b.laneId) = 1 := by
  let report : BranchLockCollision := ⟨a.branch, scope, [a.laneId, b.laneId]⟩
  have hreport : report ∈ detectBranchLockCollisions intents :=
    mem_detectBranchLockCollisions.mpr ⟨a, b, hbefore, scope, hcontend, rfl⟩
  have honly : ∀ c ∈ detectBranchLockCollisions intents,
      c.isAbout a.branch scope a.laneId b.laneId = true ↔ (c == report) = true := by
    intro c hc
    rw [isAbout_iff, beq_iff_eq]
    constructor
    · rintro (heq | rfl)
      · exact heq
      · obtain ⟨b', a', hother, scope', hcontend', heq⟩ :=
          mem_detectBranchLockCollisions.mp hc
        simp only [BranchLockCollision.mk.injEq, List.cons.injEq, and_true] at heq
        obtain ⟨hbranch, rfl, hb, ha⟩ := heq
        exact absurd hcontend' (h a b b' a' hbefore hother hdiff ha.symm hb.symm
          (hcontend'.branch.symm.trans hbranch.symm) _ hcontend)
    · exact .inl
  rw [countP_congr honly]
  exact count_eq_one_of_mem (nodup_sortDedup BranchLockCollision.sortKey_injective _) hreport

theorem complete_of_oneWay (h : OneWay intents) (hleft : left ∈ intents) (hright : right ∈ intents)
    (hdiff : left.laneId ≠ right.laneId) (hcontend : Contend scope left right) :
    (detectBranchLockCollisions intents).countP
      (·.isAbout left.branch scope left.laneId right.laneId) = 1 := by
  have hne : left ≠ right := fun heq => hdiff (congrArg BranchLockIntent.laneId heq)
  rcases before_or_before hleft hright hne with hbefore | hbefore
  · exact countP_isAbout h hbefore hdiff hcontend
  · rw [hcontend.branch]
    simp only [isAbout_comm right.branch scope left.laneId right.laneId]
    exact countP_isAbout h hbefore hdiff.symm hcontend.symm

theorem only_of_lanesApart (h : LanesApart intents) (hc : c ∈ detectBranchLockCollisions intents) :
    ∃ left ∈ intents, ∃ right ∈ intents, left.laneId ≠ right.laneId ∧
      Contend c.module left right ∧ c.branch = left.branch ∧
      c.laneIds = [left.laneId, right.laneId] := by
  obtain ⟨left, right, hbefore, scope, hcontend, rfl⟩ := mem_detectBranchLockCollisions.mp hc
  exact ⟨left, hbefore.mem_left, right, hbefore.mem_right,
    fun hlane => h left right hbefore hlane scope hcontend, hcontend, rfl, rfl⟩

/-- The reports are exact if a lane never contends with itself and the lanes that contend
for a scope never come in both orders. -/
theorem reportsExactly_iff (intents : List BranchLockIntent) :
    ReportsExactly intents ↔ LanesApart intents ∧ OneWay intents := by
  constructor
  · intro h
    exact ⟨lanesApart_of_reportsExactly h, oneWay_of_reportsExactly h⟩
  · rintro ⟨hapart, honeWay⟩
    exact {
      complete := fun _ hleft _ hright hdiff _ hcontend =>
        complete_of_oneWay honeWay hleft hright hdiff hcontend
      only := fun _ hc => only_of_lanesApart hapart hc
      order := fun _ hperm => unordered_eq_of_perm hperm }

/-- A lane that renews its intent, and a lane that stands before and behind another one. -/
theorem reports_not_exact :
    let lock : String → BranchLockIntent := fun lane =>
      { laneId := lane, branch := "main", worktree := none, modules := ["runtime"] }
    ¬ReportsExactly [lock "lane-a", lock "lane-a"] ∧
      ¬ReportsExactly [lock "lane-a", lock "lane-b", lock "lane-a"] := by
  intro lock
  have hcontend : ∀ a b : String, Contend "runtime" (lock a) (lock b) := fun a b =>
    ⟨rfl, "runtime", by simp [lock], "runtime", by simp [lock], .inl rfl, .inl rfl, .inl rfl⟩
  constructor
  · intro h
    exact lanesApart_of_reportsExactly h (lock "lane-a") (lock "lane-a") (.refl _) rfl
      "runtime" (hcontend _ _)
  · intro h
    have hforth : Before [lock "lane-a", lock "lane-b", lock "lane-a"]
        (lock "lane-a") (lock "lane-b") := .cons_cons _ (.cons_cons _ (.cons _ .slnil))
    have hback : Before [lock "lane-a", lock "lane-b", lock "lane-a"]
        (lock "lane-b") (lock "lane-a") := .cons _ (.refl _)
    exact oneWay_of_reportsExactly h _ _ _ _ hforth hback (by decide) rfl rfl rfl
      "runtime" (hcontend _ _) (hcontend _ _)

end DbClinic.Runtime
