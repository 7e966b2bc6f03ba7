import Mathlib.Data.List.Basic
import Mathlib.Data.Nat.ModEq

/- A list of items laid out in an array as a cyclic window: item `i` in the cell
   `i` places after the head, wrapping at the end of the array. The two facts
   every ring buffer needs are that writing the cell after the window appends an
   item (`Window.push`) and that moving the head forward drops the first
   (`Window.pop`). -/
namespace X86Kernel.Lib

variable {α : Type}

/-- The array holds the items from `head` on, cyclically. -/
structure Window (arr : List α) (head : Nat) (items : List α) : Prop where
  head_lt : head < arr.length
  fits : items.length ≤ arr.length
  cell : ∀ i (h : i < items.length), arr[(head + i) % arr.length]? = some items[i]

namespace Window
variable {arr items : List α} {head : Nat}

theorem empty (h : head < arr.length) : Window arr head [] :=
  ⟨h, Nat.zero_le _, fun _ h => absurd h (Nat.not_lt_zero _)⟩

theorem offset_ne {n i j : Nat} (hi : i < n) (hj : j < n) (hne : i ≠ j) :
    (head + i) % n ≠ (head + j) % n := by
  intro h
  have hmod : i % n = j % n := Nat.ModEq.add_left_cancel' head h
  rw [Nat.mod_eq_of_lt hi, Nat.mod_eq_of_lt hj] at hmod
  exact hne hmod

theorem push (w : Window arr head items) (hroom : items.length < arr.length) (x : α) :
    Window (arr.set ((head + items.length) % arr.length) x) head (items ++ [x]) := by
  have hpos : 0 < arr.length := Nat.lt_of_le_of_lt (Nat.zero_le _) hroom
  refine ⟨by simpa using w.head_lt, by simpa using Nat.succ_le_of_lt hroom, ?_⟩
  intro i hi
  rw [List.length_set]
  by_cases hlast : i = items.length
  · subst hlast
    simp [Nat.mod_lt _ hpos]
  · have hi' : i < items.length := by
      simp only [List.length_append, List.length_cons, List.length_nil] at hi; omega
    have hne : (head + items.length) % arr.length ≠ (head + i) % arr.length :=
      offset_ne hroom (by omega) (Ne.symm hlast)
    rw [List.getElem?_set_ne hne, List.getElem_append_left hi']
    exact w.cell i hi'

theorem front {x : α} (w : Window arr head (x :: items)) : arr[head]? = some x := by
  have h := w.cell 0 (by simp)
  rwa [Nat.add_zero, Nat.mod_eq_of_lt w.head_lt] at h

theorem pop {x : α} (w : Window arr head (x :: items)) :
    Window arr ((head + 1) % arr.length) items := by
  have hpos : 0 < arr.length := Nat.lt_of_le_of_lt (Nat.zero_le _) w.head_lt
  refine ⟨Nat.mod_lt _ hpos, ?_, ?_⟩
  · have := w.fits; simp only [List.length_cons] at this; omega
  · intro i hi
    have h := w.cell (i + 1) (by simpa using hi)
    rw [Nat.mod_add_mod, show head + 1 + i = head + (i + 1) by omega, h]
    rfl

end Window
end X86Kernel.Lib
