import X86Kernel.Core
import Mathlib.Logic.Function.Basic

/- The text terminal on the VGA buffer (`drivers/tty.c`).

   The buffer is an array of words, 80 for each of the 25 rows; it goes on behind the last
   row, and scrolling copies what stands there into the last row before that is cleared.
   What is proved: the screen shows the end of the text that was written, row by row
   (`terminal_shows_text`). A text is cut into rows at its newlines and behind the 80th
   character of a row, so that 80 characters and a newline leave an empty row.

   Correspondence (C ↔ Lean):
     `vga_entry_color`, `vga_entry`  ↔ `vgaEntryColor`, `vgaEntry`
     `terminal_row`, `terminal_column`, `terminal_color`, `terminal_buffer` ↔ `Terminal`
     `terminal_initialize`           ↔ `terminalInitialize`
     `terminal_setcolor`             ↔ `terminalSetcolor`
     `terminal_putentryat`           ↔ `terminalPutentryat`
     `terminal_scroll`               ↔ `terminalScroll`
     `terminal_nextline`             ↔ `terminalNextline`
     `terminal_putchar`              ↔ `terminalPutchar`
     `terminal_write`                ↔ `terminalWrite` -/
namespace X86Kernel.Tty

/-- `VGA_WIDTH` -/
def vgaWidth : Nat := 80

/-- `VGA_HEIGHT` -/
def vgaHeight : Nat := 25

def vgaColorBlack : UInt8 := 0
def vgaColorWhite : UInt8 := 15

def vgaEntryColor (fg bg : UInt8) : UInt8 := fg ||| bg <<< 4

def vgaEntry (uc color : UInt8) : UInt16 := uc.toUInt16 ||| color.toUInt16 <<< 8

/-- `' '` -/
def space : UInt8 := 32

/-- `'\n'` -/
def newline : UInt8 := 10

structure Terminal where
  row : Nat
  column : Nat
  color : UInt8
  /-- The words from `VGA_MEMORY` on. -/
  buffer : Nat → UInt16

def terminalInitialize (t : Terminal) : Terminal :=
  let color := vgaEntryColor vgaColorWhite vgaColorBlack
  { row := 0
    column := 0
    color := color
    buffer := (List.range vgaHeight).foldl (fun b y =>
      (List.range vgaWidth).foldl (fun b x =>
        Function.update b (y * vgaWidth + x) (vgaEntry space color)) b) t.buffer }

def terminalSetcolor (t : Terminal) (color : UInt8) : Terminal := { t with color := color }

def terminalPutentryat (t : Terminal) (c color : UInt8) (x y : Nat) : Terminal :=
  { t with buffer := Function.update t.buffer (y * vgaWidth + x) (vgaEntry c color) }

def terminalScroll (t : Terminal) : Terminal :=
  -- scroll all lines up by one
  let buffer := (List.range vgaHeight).foldl (fun b row =>
    (List.range vgaWidth).foldl (fun b col =>
      Function.update b (row * vgaWidth + col) (b ((row + 1) * vgaWidth + col))) b) t.buffer
  -- clear the last line
  let buffer := (List.range vgaWidth).foldl (fun b col =>
    Function.update b ((vgaHeight - 1) * vgaWidth + col) (vgaEntry space t.color)) buffer
  { t with buffer := buffer }

def terminalNextline (t : Terminal) : Terminal :=
  let t := { t with column := 0 }
  if t.row + 1 ≠ vgaHeight then { t with row := t.row + 1 } else terminalScroll t

def terminalPutchar (t : Terminal) (c : UInt8) : Terminal :=
  if c = newline then terminalNextline t
  else
    let t := terminalPutentryat t c t.color t.column t.row
    if t.column + 1 = vgaWidth then terminalNextline t
    else { t with column := t.column + 1 }

def terminalWrite (t : Terminal) (data : List UInt8) : Terminal := data.foldl terminalPutchar t

/-! ## Rows of a text -/

/-- The rows of a text that goes on in a row which has some characters. -/
def rowsFrom (row : List UInt8) : List UInt8 → List (List UInt8)
  | [] => [row]
  | c :: text =>
    if c = newline then row :: rowsFrom [] text
    else if row.length + 1 = vgaWidth then (row ++ [c]) :: rowsFrom [] text
    else rowsFrom (row ++ [c]) text

/-- The rows of a text: a new one begins at every newline, and behind the 80th character
of a row. -/
def rows (text : List UInt8) : List (List UInt8) := rowsFrom [] text

example : rows (List.replicate 80 space ++ [newline]) = [List.replicate 80 space, [], []] := by
  decide

/-- The rows on the screen: the last 25. -/
def lastRows (ls : List (List UInt8)) : List (List UInt8) := ls.drop (ls.length - vgaHeight)

/-- What belongs into a cell of the screen; nothing where the text has no character. -/
def cellAt (ls : List (List UInt8)) (r c : Nat) : Option UInt8 := (lastRows ls)[r]?.bind (·[c]?)

/-- What an entry of the buffer shows, if text has one colour and cells may have been
cleared in another one before. -/
def EntryShows (color cleared : UInt8) (entry : UInt16) : Option UInt8 → Prop
  | some c => entry = vgaEntry c color
  | none => entry = vgaEntry space color ∨ entry = vgaEntry space cleared

/-- The screen shows the last of some rows, and the cursor is behind the last character. -/
structure Displays (color cleared : UInt8) (ls : List (List UInt8)) (t : Terminal) : Prop where
  row_lt : t.row < vgaHeight
  column_lt : t.column < vgaWidth
  cells : ∀ r < vgaHeight, ∀ c < vgaWidth,
    EntryShows color cleared (t.buffer (r * vgaWidth + c)) (cellAt ls r c)
  row : t.row + 1 = (lastRows ls).length
  column : (lastRows ls)[t.row]?.map List.length = some t.column

/-! ## The loops over the buffer -/

theorem foldl_cells {σ : Type} (f : σ → Nat → σ) (width height : Nat) (s : σ) :
    (List.range height).foldl (fun s y =>
      (List.range width).foldl (fun s x => f s (y * width + x)) s) s =
        (List.range (height * width)).foldl f s := by
  induction height with
  | zero => rw [Nat.zero_mul]; rfl
  | succ height ih =>
    rw [List.range_succ, List.foldl_append, ih, Nat.succ_mul, List.range_add, List.foldl_append,
      List.foldl_map]
    rfl

theorem foldl_write {f : (Nat → UInt16) → Nat → UInt16} (base : Nat)
    (hf : ∀ b b' i, (∀ j, base + i ≤ j → b j = b' j) → f b i = f b' i) (n : Nat)
    (b : Nat → UInt16) :
    (List.range n).foldl (fun b i => Function.update b (base + i) (f b i)) b =
      fun i => if base ≤ i ∧ i < base + n then f b (i - base) else b i := by
  induction n with
  | zero =>
    funext i
    rw [if_neg (by omega)]
    rfl
  | succ n ih =>
    rw [List.range_succ, List.foldl_append, ih]
    funext i
    simp only [List.foldl_cons, List.foldl_nil, Function.update_apply]
    by_cases hi : i = base + n
    · subst hi
      rw [if_pos rfl, if_pos (by omega), Nat.add_sub_cancel_left]
      exact hf _ _ n fun j hj => if_neg (by omega)
    · rw [if_neg hi]
      split_ifs with h1 h2 h2
      · rfl
      · omega
      · omega
      · rfl

theorem foldl_fill (base n : Nat) (e : UInt16) (b : Nat → UInt16) :
    (List.range n).foldl (fun b i => Function.update b (base + i) e) b =
      fun i => if base ≤ i ∧ i < base + n then e else b i :=
  foldl_write (f := fun _ _ => e) base (fun _ _ _ _ => rfl) n b

theorem foldl_shift (width n : Nat) (b : Nat → UInt16) :
    (List.range n).foldl (fun b i => Function.update b i (b (i + width))) b =
      fun i => if i < n then b (i + width) else b i := by
  have hshift := foldl_write (f := fun b i => b (i + width)) 0
    (fun _ _ i h => h (i + width) (by omega)) n b
  simpa only [Nat.zero_add, Nat.zero_le, true_and, Nat.sub_zero] using hshift

theorem terminalInitialize_buffer (t : Terminal) (i : Nat) :
    (terminalInitialize t).buffer i =
      if i < vgaHeight * vgaWidth then vgaEntry space (vgaEntryColor vgaColorWhite vgaColorBlack)
      else t.buffer i := by
  have hfill := foldl_fill 0 (vgaHeight * vgaWidth)
    (vgaEntry space (vgaEntryColor vgaColorWhite vgaColorBlack)) t.buffer
  simp only [Nat.zero_add, Nat.zero_le, true_and] at hfill
  have hcells := foldl_cells (fun b i =>
    Function.update b i (vgaEntry space (vgaEntryColor vgaColorWhite vgaColorBlack)))
    vgaWidth vgaHeight t.buffer
  exact congrFun (hcells.trans hfill) i

theorem terminalScroll_buffer (t : Terminal) (i : Nat) :
    (terminalScroll t).buffer i =
      if i < (vgaHeight - 1) * vgaWidth then t.buffer (i + vgaWidth)
      else if i < vgaHeight * vgaWidth then vgaEntry space t.color
      else t.buffer i := by
  have hnext : ∀ row col, (row + 1) * vgaWidth + col = row * vgaWidth + col + vgaWidth := by
    intro row col
    rw [Nat.succ_mul, Nat.add_right_comm]
  have hcells := foldl_cells (fun b i => Function.update b i (b (i + vgaWidth)))
    vgaWidth vgaHeight t.buffer
  unfold terminalScroll
  simp only [hnext]
  rw [hcells, foldl_shift, foldl_fill]
  have hsize : vgaHeight * vgaWidth = (vgaHeight - 1) * vgaWidth + vgaWidth := rfl
  dsimp only
  by_cases hlast : i < (vgaHeight - 1) * vgaWidth
  · rw [if_neg (by omega), if_pos (by omega), if_pos hlast]
  · rw [if_neg hlast]
    by_cases hscreen : i < vgaHeight * vgaWidth
    · rw [if_pos (by omega), if_pos hscreen]
    · rw [if_neg (by omega), if_neg hscreen, if_neg hscreen]

/-! ## The screen shows the end of the text -/

/-- The screen shows the last of some rows, wherever the cursor is in its row. -/
structure Shows (color cleared : UInt8) (ls : List (List UInt8)) (t : Terminal) : Prop where
  color_eq : t.color = color
  row_lt : t.row < vgaHeight
  cells : ∀ r < vgaHeight, ∀ c < vgaWidth,
    EntryShows color cleared (t.buffer (r * vgaWidth + c)) (cellAt ls r c)
  row : t.row + 1 = (lastRows ls).length

theorem lastRows_length (ls : List (List UInt8)) :
    (lastRows ls).length = min ls.length vgaHeight := by
  unfold lastRows
  rw [List.length_drop]
  omega

theorem cellAt_eq (ls : List (List UInt8)) (r c : Nat) :
    cellAt ls r c = (ls[ls.length - vgaHeight + r]?).bind (·[c]?) := by
  unfold cellAt lastRows
  rw [List.getElem?_drop]

theorem lastRows_getElem?_last {ls : List (List UInt8)} {last : List UInt8} {r : Nat}
    (hrow : r + 1 = (lastRows (ls ++ [last])).length) :
    (lastRows (ls ++ [last]))[r]? = some last := by
  rw [lastRows_length, List.length_append, List.length_singleton] at hrow
  unfold lastRows
  rw [List.getElem?_drop, List.length_append, List.length_singleton]
  have hindex : ls.length + 1 - vgaHeight + r = ls.length := by omega
  rw [hindex, List.getElem?_append_right (Nat.le_refl _), Nat.sub_self]
  rfl

theorem cellAt_empty_row {ls : List (List UInt8)} {r c : Nat}
    (hrow : r + 1 = (lastRows (ls ++ [[]])).length) : cellAt (ls ++ [[]]) r c = none := by
  unfold cellAt
  rw [lastRows_getElem?_last hrow]
  rfl

theorem cellAt_below {ls : List (List UInt8)} {r c : Nat} (h : (lastRows ls).length ≤ r) :
    cellAt ls r c = none := by
  unfold cellAt
  rw [List.getElem?_eq_none h]
  rfl

theorem cellAt_append {ls : List (List UInt8)} {r c : Nat} {row : List UInt8}
    (h : r + 1 < (lastRows (ls ++ [row])).length) :
    cellAt (ls ++ [row]) r c = cellAt ls (if ls.length < vgaHeight then r else r + 1) c := by
  rw [lastRows_length, List.length_append, List.length_singleton] at h
  rw [cellAt_eq, cellAt_eq, List.length_append, List.length_singleton]
  have hindex : ls.length + 1 - vgaHeight + r =
      ls.length - vgaHeight + (if ls.length < vgaHeight then r else r + 1) := by
    split_ifs with hshort
    · omega
    · omega
  rw [hindex, List.getElem?_append_left]
  rw [← hindex]
  omega

theorem cellAt_last {ls : List (List UInt8)} {row row' : List UInt8} {r c : Nat}
    (h : r + 1 ≠ (lastRows (ls ++ [row])).length ∨ row[c]? = row'[c]?) :
    cellAt (ls ++ [row]) r c = cellAt (ls ++ [row']) r c := by
  rw [lastRows_length, List.length_append, List.length_singleton] at h
  rw [cellAt_eq, cellAt_eq, List.length_append, List.length_append, List.length_singleton,
    List.length_singleton]
  generalize hindex : ls.length + 1 - vgaHeight + r = i
  rcases Nat.lt_trichotomy i ls.length with hlt | heq | hgt
  · rw [List.getElem?_append_left hlt, List.getElem?_append_left hlt]
  · subst heq
    have hsame : row[c]? = row'[c]? := h.resolve_left fun hne => hne (by omega)
    simpa using hsame
  · rw [List.getElem?_eq_none (by simpa using Nat.succ_le_of_lt hgt),
      List.getElem?_eq_none (by simpa using Nat.succ_le_of_lt hgt)]

theorem terminalInitialize_shows (t : Terminal) (color : UInt8) :
    Shows color (vgaEntryColor vgaColorWhite vgaColorBlack) [[]]
      (terminalSetcolor (terminalInitialize t) color) := by
  refine ⟨rfl, Nat.zero_lt_succ 24, fun r hr c hc => ?_, rfl⟩
  have hcell : cellAt [[]] r c = none := by
    rcases Nat.eq_zero_or_pos r with rfl | hpos
    · rfl
    · exact cellAt_below hpos
  have hin : r * vgaWidth + c < vgaHeight * vgaWidth := by
    unfold vgaWidth vgaHeight at *
    omega
  rw [hcell]
  refine .inr ?_
  show (terminalInitialize t).buffer (r * vgaWidth + c) = _
  rw [terminalInitialize_buffer, if_pos hin]

variable {color cleared : UInt8} {ls : List (List UInt8)} {t : Terminal}

theorem terminalNextline_shows (h : Shows color cleared ls t) :
    Shows color cleared (ls ++ [[]]) (terminalNextline t) ∧ (terminalNextline t).column = 0 := by
  have hrow := h.row
  have hrow_lt := h.row_lt
  rw [lastRows_length] at hrow
  have hlength : (lastRows (ls ++ [[]])).length = min (ls.length + 1) vgaHeight := by
    rw [lastRows_length, List.length_append, List.length_singleton]
  unfold terminalNextline
  dsimp only
  split_ifs with hlast
  · -- there is a row below
    refine ⟨⟨h.color_eq, ?_, fun r hr c hc => ?_, ?_⟩, rfl⟩
    · show t.row + 1 < vgaHeight
      omega
    · show EntryShows color cleared (t.buffer (r * vgaWidth + c)) _
      have hold := h.cells r hr c hc
      rcases Nat.lt_trichotomy r (t.row + 1) with hlt | heq | hgt
      · rw [cellAt_append (by omega), if_pos (by omega)]
        exact hold
      · rw [cellAt_empty_row (by omega)]
        rwa [cellAt_below (by rw [lastRows_length]; omega)] at hold
      · rw [cellAt_below (by omega)]
        rwa [cellAt_below (by rw [lastRows_length]; omega)] at hold
    · show t.row + 1 + 1 = _
      omega
  · -- the rows go up, and the last one is cleared
    have hlast := not_not.1 hlast
    refine ⟨⟨h.color_eq, h.row_lt, fun r hr c hc => ?_, ?_⟩, rfl⟩
    · rw [terminalScroll_buffer]
      dsimp only
      by_cases hup : r + 1 < vgaHeight
      · have hnext : r * vgaWidth + c + vgaWidth = (r + 1) * vgaWidth + c := by
          rw [Nat.succ_mul, Nat.add_right_comm]
        rw [if_pos (by unfold vgaWidth vgaHeight at *; omega), hnext,
          cellAt_append (by omega), if_neg (by omega)]
        exact h.cells (r + 1) hup c hc
      · rw [if_neg (by unfold vgaWidth vgaHeight at *; omega),
          if_pos (by unfold vgaWidth vgaHeight at *; omega), cellAt_empty_row (by omega),
          h.color_eq]
        exact .inl rfl
    · show t.row + 1 = _
      omega

theorem terminalPutentryat_shows {row : List UInt8} {c : UInt8}
    (h : Shows color cleared (ls ++ [row]) t) (hcolumn : row.length = t.column)
    (hlt : t.column < vgaWidth) :
    Shows color cleared (ls ++ [row ++ [c]]) (terminalPutentryat t c t.color t.column t.row) := by
  have hlength : (lastRows (ls ++ [row ++ [c]])).length = (lastRows (ls ++ [row])).length := by
    rw [lastRows_length, lastRows_length, List.length_append, List.length_append]
    rfl
  refine ⟨h.color_eq, h.row_lt, fun r hr x hx => ?_, h.row.trans hlength.symm⟩
  show EntryShows color cleared (Function.update t.buffer _ _ _) _
  rw [Function.update_apply]
  by_cases hcell : r * vgaWidth + x = t.row * vgaWidth + t.column
  · obtain ⟨rfl, rfl⟩ : r = t.row ∧ x = t.column := by
      unfold vgaWidth at *
      omega
    have hthere : cellAt (ls ++ [row ++ [c]]) t.row t.column = some c := by
      unfold cellAt
      rw [lastRows_getElem?_last (h.row.trans hlength.symm), ← hcolumn]
      simp
    rw [if_pos hcell, hthere, h.color_eq]
    rfl
  · have hsame : cellAt (ls ++ [row]) r x = cellAt (ls ++ [row ++ [c]]) r x := by
      refine cellAt_last ?_
      by_cases hr' : r = t.row
      · have hx' : x ≠ row.length := by
          rintro rfl
          exact hcell (by rw [hr', hcolumn])
        right
        rcases Nat.lt_or_ge x row.length with hlt' | hge
        · rw [List.getElem?_append_left hlt']
        · rw [List.getElem?_eq_none hge, List.getElem?_eq_none]
          rw [List.length_append, List.length_singleton]
          omega
      · left
        rw [← h.row]
        omega
    rw [if_neg hcell, ← hsame]
    exact h.cells r hr x hx

/-- A text is written from a row that has some characters on. -/
theorem terminalWrite_displays (text : List UInt8) : ∀ (ls : List (List UInt8)) (row : List UInt8)
    (t : Terminal), Shows color cleared (ls ++ [row]) t → row.length = t.column →
      t.column < vgaWidth →
        Displays color cleared (ls ++ rowsFrom row text) (terminalWrite t text) := by
  induction text with
  | nil =>
    intro ls row t h hcolumn hlt
    refine ⟨h.row_lt, hlt, h.cells, h.row, ?_⟩
    show (lastRows (ls ++ [row]))[t.row]?.map List.length = some t.column
    rw [lastRows_getElem?_last h.row, ← hcolumn]
    rfl
  | cons c text ih =>
    intro ls row t h hcolumn hlt
    show Displays color cleared (ls ++ rowsFrom row (c :: text))
      (terminalWrite (terminalPutchar t c) text)
    unfold rowsFrom terminalPutchar
    dsimp only
    by_cases hc : c = newline
    · obtain ⟨hshows, hzero⟩ := terminalNextline_shows h
      rw [if_pos hc, if_pos hc, List.append_cons]
      exact ih _ [] _ hshows hzero.symm (by rw [hzero]; decide)
    · have hput := terminalPutentryat_shows (c := c) h hcolumn hlt
      have hcolumn' : (terminalPutentryat t c t.color t.column t.row).column = t.column := rfl
      rw [if_neg hc, if_neg hc, hcolumn', hcolumn]
      by_cases hfull : t.column + 1 = vgaWidth
      · -- the 80th character
        obtain ⟨hshows, hzero⟩ := terminalNextline_shows hput
        rw [if_pos hfull, if_pos hfull, List.append_cons]
        exact ih _ [] _ hshows hzero.symm (by rw [hzero]; decide)
      · rw [if_neg hfull, if_neg hfull]
        refine ih ls (row ++ [c]) _ ⟨hput.color_eq, hput.row_lt, hput.cells, hput.row⟩ ?_ ?_
        · rw [List.length_append, hcolumn]
          rfl
        · show t.column + 1 < vgaWidth
          omega

/-- The screen shows the last 25 rows of all text written since it was cleared, and the
cursor is at the next free cell of the last one; also with another colour than the one
that the screen was cleared in. -/
theorem terminal_shows_text (t : Terminal) (text : List UInt8) :
    Displays (vgaEntryColor vgaColorWhite vgaColorBlack) (vgaEntryColor vgaColorWhite vgaColorBlack)
        (rows text) (terminalWrite (terminalInitialize t) text) ∧
      ∀ color, Displays color (vgaEntryColor vgaColorWhite vgaColorBlack) (rows text)
        (terminalWrite (terminalSetcolor (terminalInitialize t) color) text) := by
  have hset : ∀ color, Displays color (vgaEntryColor vgaColorWhite vgaColorBlack) (rows text)
      (terminalWrite (terminalSetcolor (terminalInitialize t) color) text) := fun color =>
    terminalWrite_displays text [] [] _ (terminalInitialize_shows t color) rfl (Nat.zero_lt_succ 79)
  exact ⟨hset _, hset⟩

end X86Kernel.Tty
