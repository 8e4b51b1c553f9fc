import DbClinic.Lib.Blocks
import DbClinic.Api.StreamBlocks

/-!
Where the blocks of a translation lie. The layout of a state is what decides
the index of a block; `block` records the index at which each tool call was
opened. While a layout is placed, every block the translation has opened keeps
its own index.
-/

namespace DbClinic.Api

open Blocks Function

structure Layout where
  thinkingStarted : Bool
  thinkingFinished : Bool
  textStarted : Bool
  started : Nat → Bool
  stopped : Nat → Bool

namespace Layout

def textBlock (l : Layout) : Nat := if l.thinkingStarted then 1 else 0

def toolOffset (l : Layout) : Nat := if l.thinkingStarted then 2 else 1

/-- The states of the blocks are the ones the layout says. -/
structure Placed (l : Layout) (block : Nat → Nat) (blocks : Nat → BlockStatus BlockKind) :
    Prop where
  thinking : l.thinkingStarted = true →
    blocks 0 = if l.thinkingFinished then .closed else .opened .thinking
  text : l.textStarted = true → blocks l.textBlock = .opened .text
  tool : ∀ i, l.started i = true →
    blocks (block i) = if l.stopped i then .closed else .opened .toolUse
  absent : ∀ k, (l.thinkingStarted = true → k ≠ 0) → (l.textStarted = true → k ≠ l.textBlock) →
    (∀ i, l.started i = true → block i ≠ k) → blocks k = .absent
  current : ∀ i, l.started i = true → l.stopped i = false →
    block i = i + l.toolOffset ∧ i + l.toolOffset < 2 ^ 32
  positive : ∀ i, l.started i = true → 0 < block i
  distinct : ∀ i j, l.started i = true → l.started j = true → block i = block j → i = j
  stopped : ∀ i, l.stopped i = true → l.started i = true

variable {l : Layout} {block : Nat → Nat} {blocks : Nat → BlockStatus BlockKind}

theorem toolOffset_eq (l : Layout) : l.toolOffset = l.textBlock + 1 := by
  unfold toolOffset textBlock
  split <;> rfl

variable {i : Nat} {kind : BlockKind}

theorem Placed.ne_text (h : l.Placed block blocks) (hi : l.started i = true)
    (htext : l.textStarted = true) : block i ≠ l.textBlock := by
  intro heq
  have hstatus := h.tool i hi
  rw [heq, h.text htext] at hstatus
  split at hstatus <;> cases hstatus

theorem Placed.opened_cases (h : l.Placed block blocks) {k : Nat} (hopen : blocks k = .opened kind) :
    (k = 0 ∧ l.thinkingStarted = true ∧ l.thinkingFinished = false) ∨
      (l.textStarted = true ∧ k = l.textBlock) ∨
      ∃ i, l.started i = true ∧ l.stopped i = false ∧ block i = k := by
  by_contra hnone
  push Not at hnone
  obtain ⟨hthinking, htext, htools⟩ := hnone
  have habsent : blocks k = .absent := by
    refine h.absent k (fun hs hk => ?_) htext fun i hi hblock => ?_
    · have hstatus := h.thinking hs
      rw [if_pos (by simpa using hthinking hk hs), ← hk, hopen] at hstatus
      cases hstatus
    · cases hstop : l.stopped i with
      | false => exact htools i hi hstop hblock
      | true =>
        have hstatus := h.tool i hi
        rw [hstop, hblock, hopen] at hstatus
        cases hstatus
  rw [hopen] at habsent
  cases habsent

theorem Placed.opened_tool (h : l.Placed block blocks)
    (hopen : blocks (i + l.toolOffset) = .opened kind) :
    l.started i = true ∧ l.stopped i = false := by
  have hoffset := l.toolOffset_eq
  rcases h.opened_cases hopen with ⟨hk, -⟩ | ⟨-, hk⟩ | ⟨j, hj, hnot, hblock⟩
  · omega
  · omega
  · have hcur := (h.current j hj hnot).1
    have heq : j = i := by omega
    exact heq ▸ ⟨hj, hnot⟩

theorem Placed.free_tool (h : l.Placed block blocks)
    (hfree : ∀ j, l.started j = true → block j ≠ i + l.toolOffset) :
    blocks (i + l.toolOffset) = .absent := by
  have hoffset := l.toolOffset_eq
  exact h.absent _ (fun _ => by omega) (fun _ => by omega) hfree

theorem Placed.closeThinking (h : l.Placed block blocks) (hstart : l.thinkingStarted = true) :
    Placed { l with thinkingFinished := true } block (Function.update blocks 0 .closed) where
  thinking := by
    intro _
    simp
  text := by
    intro htext
    have hindex : l.textBlock = 1 := if_pos hstart
    have hblock := h.text htext
    change Function.update blocks 0 .closed l.textBlock = _
    rw [hindex] at hblock ⊢
    rw [update_of_ne (by decide)]
    exact hblock
  tool := by
    intro i hi
    rw [update_of_ne (h.positive i hi).ne']
    exact h.tool i hi
  absent := by
    intro k hzero htext hfree
    rw [update_of_ne (hzero hstart)]
    exact h.absent k hzero htext hfree
  current := h.current
  positive := h.positive
  distinct := h.distinct
  stopped := h.stopped

theorem Placed.openText (h : l.Placed block blocks)
    (hfree : ∀ i, l.started i = true → block i ≠ l.textBlock) :
    Placed { l with textStarted := true } block
      (Function.update blocks l.textBlock (.opened .text)) where
  thinking := by
    intro hstart
    have hindex : l.textBlock = 1 := if_pos hstart
    rw [hindex, update_of_ne (by decide)]
    exact h.thinking hstart
  text := by
    intro _
    exact update_self ..
  tool := by
    intro i hi
    rw [update_of_ne (hfree i hi)]
    exact h.tool i hi
  absent := by
    intro k hzero htext hfree'
    have hne : k ≠ l.textBlock := htext rfl
    rw [update_of_ne hne]
    exact h.absent k hzero (fun _ => hne) hfree'
  current := h.current
  positive := h.positive
  distinct := h.distinct
  stopped := h.stopped

theorem Placed.openThinking (h : l.Placed block blocks) (hthinking : l.thinkingFinished = false)
    (htext : l.textStarted = false) (htools : ∀ i, l.started i = true → l.stopped i = true) :
    Placed { l with thinkingStarted := true } block
      (Function.update blocks 0 (.opened .thinking)) where
  thinking := by
    intro _
    simp [hthinking]
  text := by
    intro hstart
    change l.textStarted = true at hstart
    rw [htext] at hstart
    cases hstart
  tool := by
    intro i hi
    rw [update_of_ne (h.positive i hi).ne']
    exact h.tool i hi
  absent := by
    intro k hzero _ hfree
    have hne : k ≠ 0 := hzero rfl
    rw [update_of_ne hne]
    refine h.absent k (fun _ => hne) (fun hstart => ?_) hfree
    rw [htext] at hstart
    cases hstart
  current := by
    intro i hi hopen
    have hstop : l.stopped i = true := htools i hi
    change l.stopped i = false at hopen
    rw [hstop] at hopen
    cases hopen
  positive := h.positive
  distinct := h.distinct
  stopped := h.stopped

theorem Placed.openTool (h : l.Placed block blocks) (hi : l.started i = false)
    (hfit : i + l.toolOffset < 2 ^ 32)
    (hfree : ∀ j, l.started j = true → block j ≠ i + l.toolOffset) :
    Placed { l with started := Function.update l.started i true }
      (Function.update block i (i + l.toolOffset))
      (Function.update blocks (i + l.toolOffset) (.opened .toolUse)) := by
  have hoffset := l.toolOffset_eq
  have hother {j : Nat} (hj : l.started j = true) : j ≠ i := by
    rintro rfl
    rw [hi] at hj
    cases hj
  have hcases {j : Nat} (hj : Function.update l.started i true j = true) :
      j = i ∨ l.started j = true := by
    rcases eq_or_ne j i with rfl | hne
    · exact .inl rfl
    · exact .inr (by rwa [update_of_ne hne] at hj)
  have hnot : l.stopped i = false := by
    cases hs : l.stopped i with
    | false => rfl
    | true => rw [h.stopped i hs] at hi; cases hi
  refine ⟨?_, ?_, ?_, ?_, ?_, ?_, ?_, ?_⟩
  · intro hstart
    rw [update_of_ne (by omega)]
    exact h.thinking hstart
  · intro htext
    change Function.update blocks _ _ l.textBlock = _
    rw [update_of_ne (by omega)]
    exact h.text htext
  · intro j hj
    rcases hcases hj with rfl | hj
    · rw [update_self, update_self, hnot]
      rfl
    · rw [update_of_ne (hother hj), update_of_ne (hfree j hj)]
      exact h.tool j hj
  · intro k hzero htext hfree'
    have hk : k ≠ i + l.toolOffset := by
      have hself := hfree' i (update_self ..)
      rw [update_self] at hself
      exact fun heq => hself heq.symm
    rw [update_of_ne hk]
    refine h.absent k hzero htext fun j hj => ?_
    have hnew : Function.update l.started i true j = true := by
      rw [update_of_ne (hother hj)]
      exact hj
    have hblock := hfree' j hnew
    rwa [update_of_ne (hother hj)] at hblock
  · intro j hj hopen
    rcases hcases hj with rfl | hj
    · rw [update_self]
      exact ⟨rfl, hfit⟩
    · rw [update_of_ne (hother hj)]
      exact h.current j hj hopen
  · intro j hj
    rcases hcases hj with rfl | hj
    · rw [update_self]
      omega
    · rw [update_of_ne (hother hj)]
      exact h.positive j hj
  · intro j j' hj hj' heq
    rcases hcases hj with hji | hold <;> rcases hcases hj' with hji' | hold'
    · exact hji.trans hji'.symm
    · rw [hji, update_self, update_of_ne (hother hold')] at heq
      exact absurd heq.symm (hfree j' hold')
    · rw [hji', update_self, update_of_ne (hother hold)] at heq
      exact absurd heq (hfree j hold)
    · rw [update_of_ne (hother hold), update_of_ne (hother hold')] at heq
      exact h.distinct j j' hold hold' heq
  · intro j hj
    change Function.update l.started i true j = true
    have hstart := h.stopped j hj
    rw [update_of_ne (hother hstart)]
    exact hstart

theorem Placed.stopTools (h : l.Placed block blocks) {stopped : Nat → Bool}
    {blocks' : Nat → BlockStatus BlockKind}
    (hkeep : ∀ i, l.stopped i = true → stopped i = true)
    (honly : ∀ i, stopped i = true → l.started i = true)
    (hclosed : ∀ i, l.stopped i = false → stopped i = true → blocks' (block i) = .closed)
    (hsame : ∀ k, (∀ i, l.stopped i = false → stopped i = true → block i ≠ k) →
      blocks' k = blocks k) :
    Placed { l with stopped } block blocks' := by
  refine ⟨?_, ?_, ?_, ?_, ?_, h.positive, h.distinct, honly⟩
  · intro hstart
    rw [hsame 0 fun i _ hi => (h.positive i (honly i hi)).ne']
    exact h.thinking hstart
  · intro htext
    change blocks' l.textBlock = _
    rw [hsame l.textBlock fun i _ hi => h.ne_text (honly i hi) htext]
    exact h.text htext
  · intro i hi
    change blocks' (block i) = if stopped i then _ else _
    cases hnew : stopped i with
    | false =>
      have hold : l.stopped i = false := by
        cases hs : l.stopped i with
        | false => rfl
        | true => rw [hkeep i hs] at hnew; cases hnew
      have hstatus := h.tool i hi
      rw [hold] at hstatus
      rw [hsame (block i)]
      · exact hstatus
      · intro j _ hj heq
        rw [h.distinct j i (honly j hj) hi heq, hnew] at hj
        cases hj
    | true =>
      cases hold : l.stopped i with
      | false => exact hclosed i hold hnew
      | true =>
        have hstatus := h.tool i hi
        rw [hold] at hstatus
        rw [hsame (block i)]
        · exact hstatus
        · intro j hopen hj heq
          rw [h.distinct j i (honly j hj) hi heq, hold] at hopen
          cases hopen
  · intro k hzero htext hfree
    rw [hsame k fun i _ hi => hfree i (honly i hi)]
    exact h.absent k hzero htext hfree
  · intro i hi hopen
    refine h.current i hi ?_
    cases hs : l.stopped i with
    | false => rfl
    | true =>
      have hnew : stopped i = false := hopen
      rw [hkeep i hs] at hnew
      cases hnew

theorem Placed.stopTool (h : l.Placed block blocks) (hi : l.started i = true)
    (hopen : l.stopped i = false) :
    Placed { l with stopped := Function.update l.stopped i true } block
      (Function.update blocks (i + l.toolOffset) .closed) := by
  have hblock : i + l.toolOffset = block i := (h.current i hi hopen).1.symm
  have hcases {j : Nat} (hj : Function.update l.stopped i true j = true) :
      j = i ∨ l.stopped j = true := by
    rcases eq_or_ne j i with rfl | hne
    · exact .inl rfl
    · exact .inr (by rwa [update_of_ne hne] at hj)
  apply h.stopTools
  · intro j hj
    rcases eq_or_ne j i with rfl | hne
    · exact update_self ..
    · rw [update_of_ne hne]
      exact hj
  · intro j hj
    rcases hcases hj with rfl | hj
    · exact hi
    · exact h.stopped j hj
  · intro j hold hj
    rcases hcases hj with rfl | hj
    · rw [hblock, update_self]
    · rw [hold] at hj
      cases hj
  · intro k hk
    rw [hblock, update_of_ne]
    exact (hk i hopen (update_self ..)).symm

end Layout

end DbClinic.Api
