import Mathlib.Order.Bounds.Basic
import Mathlib.Order.Interval.Set.LinearOrder

/- Free ranges between the spans of a sorted list.

   A span is a half-open range. `Chain lo hi` is a list of non-empty spans
   between `lo` and `hi`, each ending before the next one starts. `lowestGap`
   is the first-fit search over such a list; it finds the least address at
   which `size` addresses are free (`lowestGap_isLeast`), and finds nothing when
   there is none (`lowestGap_none`). -/
namespace X86Kernel.Lib

structure Span where
  lo : Nat
  hi : Nat
  deriving DecidableEq, Repr

namespace Span

def addrs (s : Span) : Set Nat := Set.Ico s.lo s.hi

end Span

/-- `size` addresses from `x` are all outside the span. -/
def Apart (x size : Nat) (s : Span) : Prop := Set.Ico x (x + size) ∩ s.addrs = ∅

/-- `size` addresses from `x` are in the range and meet no span. -/
def Free (lo hi size : Nat) (ss : List Span) (x : Nat) : Prop :=
  lo ≤ x ∧ x + size ≤ hi ∧ ∀ s ∈ ss, Apart x size s

/-- Non-empty spans between `lo` and `hi` in increasing order. -/
def Chain : Nat → Nat → List Span → Prop
  | lo, hi, [] => lo ≤ hi
  | lo, hi, s :: ss => lo ≤ s.lo ∧ s.lo < s.hi ∧ Chain s.hi hi ss

/-- Where the spans begin, or the end of the range. -/
def nextStart (hi : Nat) : List Span → Nat
  | [] => hi
  | s :: _ => s.lo

/-- First fit. -/
def lowestGap (size : Nat) : Nat → Nat → List Span → Option Nat
  | lo, hi, [] => if lo + size ≤ hi then some lo else none
  | lo, hi, s :: ss => if lo + size ≤ s.lo then some lo else lowestGap size s.hi hi ss

theorem apart_iff {x size : Nat} {s : Span} (hsize : 0 < size) (hs : s.lo < s.hi) :
    Apart x size s ↔ x + size ≤ s.lo ∨ s.hi ≤ x := by
  rw [Apart, Span.addrs, Set.Ico_inter_Ico, Set.Ico_eq_empty_iff]
  omega

theorem Chain.le {lo hi : Nat} {ss : List Span} (h : Chain lo hi ss) : lo ≤ hi := by
  induction ss generalizing lo with
  | nil => exact h
  | cons s ss ih =>
    obtain ⟨h₁, h₂, h₃⟩ := h
    have := ih h₃
    omega

theorem Chain.mem {lo hi : Nat} {ss : List Span} (h : Chain lo hi ss) {s : Span} (hs : s ∈ ss) :
    lo ≤ s.lo ∧ s.lo < s.hi ∧ s.hi ≤ hi := by
  induction ss generalizing lo with
  | nil => simp at hs
  | cons s' ss ih =>
    obtain ⟨h₁, h₂, h₃⟩ := h
    rcases List.mem_cons.1 hs with rfl | hs
    · exact ⟨h₁, h₂, h₃.le⟩
    · have := ih h₃ hs
      omega

theorem free_cons {lo hi size x : Nat} {s : Span} {ss : List Span} (h : Chain lo hi (s :: ss))
    (hsize : 0 < size) (hfit : ¬ lo + size ≤ s.lo) :
    Free lo hi size (s :: ss) x ↔ Free s.hi hi size ss x := by
  obtain ⟨h₁, h₂, h₃⟩ := h
  constructor
  · rintro ⟨hlo, hhi, hapart⟩
    have hs := (apart_iff hsize h₂).1 (hapart s (by simp))
    exact ⟨by omega, hhi, fun s' hs' => hapart s' (List.mem_cons_of_mem _ hs')⟩
  · rintro ⟨hlo, hhi, hapart⟩
    refine ⟨by omega, hhi, fun s' hs' => ?_⟩
    rcases List.mem_cons.1 hs' with rfl | hs'
    · exact (apart_iff hsize h₂).2 (.inr hlo)
    · exact hapart s' hs'

theorem free_start {lo hi size : Nat} {ss : List Span} (h : Chain lo hi ss) (hsize : 0 < size)
    (hfit : lo + size ≤ nextStart hi ss) : Free lo hi size ss lo := by
  cases ss with
  | nil => exact ⟨le_rfl, hfit, by simp⟩
  | cons s ss =>
    obtain ⟨h₁, h₂, h₃⟩ := h
    have hle := h₃.le
    have hfit' : lo + size ≤ s.lo := hfit
    refine ⟨le_rfl, by omega, fun s' hs' => ?_⟩
    rcases List.mem_cons.1 hs' with rfl | hs'
    · exact (apart_iff hsize h₂).2 (.inl hfit')
    · have hmem := h₃.mem hs'
      exact (apart_iff hsize hmem.2.1).2 (.inl (by omega))

theorem lowestGap_isLeast {size : Nat} (hsize : 0 < size) : ∀ {ss : List Span} {lo hi x : Nat},
    Chain lo hi ss → lowestGap size lo hi ss = some x → IsLeast {y | Free lo hi size ss y} x := by
  intro ss
  induction ss with
  | nil =>
    intro lo hi x h hx
    simp only [lowestGap] at hx
    split at hx
    · rename_i hfit
      obtain rfl : lo = x := Option.some.inj hx
      exact ⟨free_start h hsize hfit, fun y hy => hy.1⟩
    · cases hx
  | cons s ss ih =>
    intro lo hi x h hx
    simp only [lowestGap] at hx
    split at hx
    · rename_i hfit
      obtain rfl : lo = x := Option.some.inj hx
      exact ⟨free_start h hsize hfit, fun y hy => hy.1⟩
    · rename_i hfit
      have heq : {y | Free lo hi size (s :: ss) y} = {y | Free s.hi hi size ss y} :=
        Set.ext fun y => free_cons h hsize hfit
      rw [heq]
      exact ih h.2.2 hx

theorem lowestGap_none {size : Nat} (hsize : 0 < size) : ∀ {ss : List Span} {lo hi : Nat},
    Chain lo hi ss → lowestGap size lo hi ss = none → ∀ y, ¬ Free lo hi size ss y := by
  intro ss
  induction ss with
  | nil =>
    intro lo hi h hx y hy
    simp only [lowestGap] at hx
    split at hx
    · cases hx
    · obtain ⟨hlo, hhi, -⟩ := hy
      omega
  | cons s ss ih =>
    intro lo hi h hx y hy
    simp only [lowestGap] at hx
    split at hx
    · cases hx
    · rename_i hfit
      exact ih h.2.2 hx y ((free_cons h hsize hfit).1 hy)

end X86Kernel.Lib
