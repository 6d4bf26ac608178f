import Berk162.Lib.Bytes
import Berk162.Lib.Rows
import Berk162.LibC.String

/-!
# Vga — `devices/vga.c`, the text display

The framebuffer is bytes of memory, and an access outside of its 25 rows and 80 columns has no value
here.  `cell` reads a character of it with its attribute.
-/

namespace Berk162

def COL_CNT : Nat := 80

def ROW_CNT : Nat := 25

def GRAY_ON_BLACK : UInt8 := 0x07

/-- The framebuffer, at physical address 0xb8000. -/
def fb : Nat := 0xc00b8000

/-- Its bytes. -/
def screen : Object := ⟨fb, fb + 2 * (COL_CNT * ROW_CNT)⟩

/-- `&fb[y][x]` -/
def fb_at (y x : Nat) : Nat := fb + 2 * (COL_CNT * y + x)

/-- `fb[y][x][i] = c` -/
def fb_store (mem : Nat → UInt8) (y x i : Nat) (c : UInt8) : Option (Nat → UInt8) := do
  ASSERT (y < ROW_CNT ∧ x < COL_CNT)
  screen.store mem (fb_at y x + i) c

/-- The static variables of the driver, memory, and the registers of the display that say where its
cursor is: `index` selects the one that is read and written. -/
structure Vga where
  inited : Bool
  cx : Nat
  cy : Nat
  mem : Nat → UInt8
  index : UInt8
  crtc : UInt8 → UInt8

namespace Vga

/-! ## The cursor registers -/

/-- `outb (0x3d4, index)` -/
def outb (v : Vga) (index : UInt8) : Vga := { v with index := index }

/-- `inb (0x3d5)` -/
def inb (v : Vga) : UInt8 := v.crtc v.index

/-- `outw (0x3d4, data)`: the low byte selects the register that takes the high byte. -/
def outw (v : Vga) (data : UInt16) : Vga :=
  { v with index := data.toUInt8, crtc := Function.update v.crtc data.toUInt8 (data >>> 8).toUInt8 }

/-- `move_cursor` -/
def move_cursor (v : Vga) : Vga :=
  let cp := UInt16.ofNat (v.cx + COL_CNT * v.cy)
  (v.outw ((0x0e : UInt16) ||| (cp &&& 0xff00))).outw ((0x0f : UInt16) ||| (cp <<< 8))

/-- `find_cursor (&cx, &cy)` -/
def find_cursor (v : Vga) : Vga :=
  let v := v.outb 0x0e
  let cp := v.inb.toUInt16 <<< 8
  let v := v.outb 0x0f
  let cp := cp ||| v.inb.toUInt16
  { v with cx := cp.toNat % COL_CNT, cy := cp.toNat / COL_CNT }

/-- `init` -/
def init (v : Vga) : Vga := if v.inited then v else { v.find_cursor with inited := true }

/-! ## The screen -/

/-- The loop of `clear_row`, over `n` columns from `x` on. -/
def clear_from (y : Nat) : Nat → Nat → (Nat → UInt8) → Option (Nat → UInt8)
  | _, 0, mem => some mem
  | x, n + 1, mem => do
      let mem ← fb_store mem y x 0 32
      let mem ← fb_store mem y x 1 GRAY_ON_BLACK
      clear_from y (x + 1) n mem

/-- `clear_row` -/
def clear_row (y : Nat) (mem : Nat → UInt8) : Option (Nat → UInt8) := clear_from y 0 COL_CNT mem

/-- The loop of `cls`, over `n` rows from `y` on. -/
def clear_rows : Nat → Nat → (Nat → UInt8) → Option (Nat → UInt8)
  | _, 0, mem => some mem
  | y, n + 1, mem => do clear_rows (y + 1) n (← clear_row y mem)

/-- `cls` -/
def cls (v : Vga) : Option Vga := do
  let mem ← clear_rows 0 ROW_CNT v.mem
  return { v with mem := mem, cx := 0, cy := 0 }.move_cursor

/-- `newline` -/
def newline (v : Vga) : Option Vga := do
  let v := { v with cx := 0, cy := size_add v.cy 1 }
  if ROW_CNT ≤ v.cy then
    let (mem, _) ← memmove screen screen v.mem (fb_at 0 0) (fb_at 1 0) (2 * COL_CNT * (ROW_CNT - 1))
    let mem ← clear_row (ROW_CNT - 1) mem
    return { v with cy := ROW_CNT - 1, mem := mem }
  else return v

/-- The `switch` of `vga_putc`.  `'\a'` beeps with interrupts on, and leaves the display alone. -/
def interpret (v : Vga) (c : UInt8) : Option Vga := do
  if c = 10 then v.newline
  else if c = 12 then v.cls
  else if c = 8 then return if v.cx > 0 then { v with cx := v.cx - 1 } else v
  else if c = 13 then return { v with cx := 0 }
  else if c = 9 then
    let v := { v with cx := (size_add (size_add v.cx 1) 7) / 8 * 8 }
    if v.cx ≥ COL_CNT then v.newline else return v
  else if c = 7 then return v
  else
    let mem ← fb_store v.mem v.cy v.cx 0 c
    let mem ← fb_store mem v.cy v.cx 1 GRAY_ON_BLACK
    let v := { v with mem := mem, cx := size_add v.cx 1 }
    if v.cx ≥ COL_CNT then v.newline else return v

/-- `vga_putc` -/
def vga_putc (v : Vga) (c : UInt8) : Option Vga := do
  let v ← v.init.interpret c
  return v.move_cursor

/-- Calls of `vga_putc` one after the other. -/
def vga_puts : Vga → Bytes → Option Vga
  | v, [] => some v
  | v, c :: cs => do (← v.vga_putc c).vga_puts cs

end Vga

/-! ## Cells -/

/-- The character at (`x`, `y`) and its attribute. -/
def cell (mem : Nat → UInt8) (y x : Nat) : UInt8 × UInt8 := (mem (fb_at y x), mem (fb_at y x + 1))

/-- A space. -/
def blank : UInt8 × UInt8 := (32, GRAY_ON_BLACK)

section

variable {mem : Nat → UInt8} {x y x' y' i n : Nat} {c : UInt8}

theorem fb_at_eq : fb_at y x = 0xc00b8000 + 2 * (80 * y + x) := rfl

theorem fb_store_eq (hy : y < ROW_CNT) (hx : x < COL_CNT) (hi : i < 2) :
    fb_store mem y x i c = some (Function.update mem (fb_at y x + i) c) := by
  have hscreen : screen.lo ≤ fb_at y x + i ∧ fb_at y x + i < screen.hi := by
    simp only [screen, fb_at, COL_CNT, ROW_CNT] at hy hx ⊢
    omega
  rw [fb_store, ASSERT_pos ⟨hy, hx⟩, Option.bind_eq_bind, Option.bind_some,
    Object.store_eq hscreen]

/-- Memory with `c` and its attribute at (`x`, `y`). -/
def put_cell (mem : Nat → UInt8) (y x : Nat) (c : UInt8) : Nat → UInt8 :=
  Function.update (Function.update mem (fb_at y x + 0) c) (fb_at y x + 1) GRAY_ON_BLACK

theorem cell_put_cell (hx : x < COL_CNT) (hx' : x' < COL_CNT) :
    cell (put_cell mem y x c) y' x' =
      if y' = y ∧ x' = x then (c, GRAY_ON_BLACK) else cell mem y' x' := by
  simp only [COL_CNT] at hx hx'
  split
  · rename_i h
    rw [h.1, h.2, cell, put_cell, Function.update_self,
      Function.update_of_ne (Nat.succ_ne_self _).symm, Nat.add_zero, Function.update_self]
  · rename_i h
    -- two bytes are of one cell only
    have hne : ∀ j < 2, ∀ k < 2, fb_at y' x' + j ≠ fb_at y x + k := by
      intro j hj k hk
      rw [fb_at_eq, fb_at_eq]
      omega
    rw [cell, put_cell, ← Nat.add_zero (fb_at y' x')]
    rw [Function.update_of_ne (hne 0 (by decide) 1 (by decide)),
      Function.update_of_ne (hne 0 (by decide) 0 (by decide)),
      Function.update_of_ne (hne 1 (by decide) 1 (by decide)),
      Function.update_of_ne (hne 1 (by decide) 0 (by decide))]
    rfl

/-- `n` cells of row `y` from column `x` on are made blank. -/
theorem Vga.clear_from_eq (hy : y < ROW_CNT) (h : x + n ≤ COL_CNT) :
    ∃ mem', clear_from y x n mem = some mem' ∧ ∀ y' x', x' < COL_CNT →
      cell mem' y' x' = if y' = y ∧ x ≤ x' ∧ x' < x + n then blank else cell mem y' x' := by
  induction n generalizing x mem with
  | zero =>
      refine ⟨mem, rfl, fun y' x' _ => (if_neg ?_).symm⟩
      omega
  | succ n ih =>
      have hx : x < COL_CNT := by omega
      obtain ⟨mem', heq, hcells⟩ := @ih (put_cell mem y x 32) (x + 1) (by omega)
      refine ⟨mem', ?_, fun y' x' hx' => ?_⟩
      · rw [clear_from, fb_store_eq hy hx (by decide), Option.bind_eq_bind, Option.bind_some,
          fb_store_eq hy hx (by decide)]
        exact heq
      · rw [hcells y' x' hx', cell_put_cell hx hx']
        by_cases hhere : y' = y ∧ x' = x
        · rw [if_neg (by omega), if_pos hhere, if_pos (by omega), blank]
        · rw [if_neg hhere]
          exact if_congr (by omega) rfl rfl

theorem Vga.clear_row_eq (hy : y < ROW_CNT) :
    ∃ mem', clear_row y mem = some mem' ∧ ∀ y' x', x' < COL_CNT →
      cell mem' y' x' = if y' = y then blank else cell mem y' x' := by
  obtain ⟨mem', heq, hcells⟩ := @clear_from_eq mem 0 y COL_CNT hy (Nat.zero_add _).le
  refine ⟨mem', heq, fun y' x' hx' => ?_⟩
  rw [hcells y' x' hx']
  exact if_congr (by omega) rfl rfl

theorem Vga.clear_rows_eq (h : y + n ≤ ROW_CNT) :
    ∃ mem', clear_rows y n mem = some mem' ∧ ∀ y' x', x' < COL_CNT →
      cell mem' y' x' = if y ≤ y' ∧ y' < y + n then blank else cell mem y' x' := by
  induction n generalizing y mem with
  | zero =>
      refine ⟨mem, rfl, fun y' x' _ => (if_neg ?_).symm⟩
      omega
  | succ n ih =>
      obtain ⟨mem₁, hrow, hcells₁⟩ := @clear_row_eq mem y (by omega)
      obtain ⟨mem₂, hrest, hcells₂⟩ := @ih mem₁ (y + 1) (by omega)
      refine ⟨mem₂, ?_, fun y' x' hx' => ?_⟩
      · rw [clear_rows, hrow]
        exact hrest
      · rw [hcells₂ y' x' hx', hcells₁ y' x' hx']
        by_cases hhere : y' = y
        · rw [if_pos hhere, ite_self, if_pos (by omega)]
        · rw [if_neg hhere]
          exact if_congr (by omega) rfl rfl

/-- Moving all rows but the first up by one: each cell is that below it. -/
theorem scroll_eq :
    ∃ r, memmove screen screen mem (fb_at 0 0) (fb_at 1 0) (2 * COL_CNT * (ROW_CNT - 1)) = some r ∧
      ∀ y x, y < ROW_CNT - 1 → x < COL_CNT → cell r.1 y x = cell mem (y + 1) x := by
  have hto : screen.Has (fb_at 0 0) (2 * COL_CNT * (ROW_CNT - 1)) :=
    ⟨by decide, by decide, by decide⟩
  have hfrom : screen.Has (fb_at 1 0) (2 * COL_CNT * (ROW_CNT - 1)) :=
    ⟨by decide, by decide, by decide⟩
  have hmove := @memmove_down_eq _ _ mem _ _ _ hto hfrom (by decide) (by decide) (by decide)
  refine ⟨_, hmove, ?_⟩
  · intro y x hy hx
    have hbyte : ∀ i < 2, memmoved mem (fb_at 0 0) (fb_at 1 0) (2 * COL_CNT * (ROW_CNT - 1))
        (fb_at y x + i) = mem (fb_at (y + 1) x + i) := by
      intro i hi
      simp only [COL_CNT, ROW_CNT] at hy hx
      have hto : fb_at y x + i = fb_at 0 0 + (2 * (80 * y + x) + i) := by
        rw [fb_at_eq, fb_at_eq]
        omega
      have hfrom : fb_at (y + 1) x + i = fb_at 1 0 + (2 * (80 * y + x) + i) := by
        rw [fb_at_eq, fb_at_eq]
        omega
      rw [hto, hfrom, memmoved_of_mem]
      simp only [COL_CNT, ROW_CNT]
      omega
    rw [cell, cell, ← hbyte 1 (by decide)]
    rw [← Nat.add_zero (fb_at (y + 1) x), ← hbyte 0 (by decide)]
    rfl

end

namespace Vga

variable {v : Vga} {c : UInt8} {x y : Nat}

/-- A valid cursor. -/
structure OnScreen (v : Vga) : Prop where
  column : v.cx < COL_CNT
  row : v.cy < ROW_CNT

/-! ## What each character does -/

/-- A new line below the last row moves the rows up. -/
theorem newline_eq (h : v.cy < ROW_CNT) :
    ∃ mem', v.newline = some { v with cx := 0, cy := min (v.cy + 1) (ROW_CNT - 1), mem := mem' } ∧
      ∀ y x, y < ROW_CNT → x < COL_CNT → cell mem' y x =
        if v.cy + 1 < ROW_CNT then cell v.mem y x
        else if y = ROW_CNT - 1 then blank else cell v.mem (y + 1) x := by
  have hcy : size_add v.cy 1 = v.cy + 1 := by
    apply size_add_eq
    simp only [ROW_CNT] at h
    rw [WORD_eq]
    omega
  rw [newline, hcy]
  by_cases hroom : v.cy + 1 < ROW_CNT
  · refine ⟨v.mem, ?_, fun y x _ _ => (if_pos hroom).symm⟩
    rw [Nat.min_eq_left (by omega)]
    exact if_neg (Nat.not_le_of_lt hroom)
  · obtain ⟨r, hmove, hmoved⟩ := @scroll_eq v.mem
    obtain ⟨mem', hclear, hcleared⟩ := @clear_row_eq r.1 (ROW_CNT - 1) (by decide)
    refine ⟨mem', ?_, fun y x hy hx => ?_⟩
    · rw [Nat.min_eq_right (by omega)]
      simp only [hmove, hclear, Option.bind_eq_bind, Option.bind_some]
      exact if_pos (Nat.le_of_not_lt hroom)
    · rw [hcleared y x hx, if_neg hroom]
      split
      · rfl
      · exact hmoved y x (by omega) hx

/-- A printed character, and the new line that it makes at the end of a row. -/
theorem interpret_print (h : v.OnScreen) (hc : c ∉ ([7, 8, 9, 10, 12, 13] : Bytes)) :
    v.interpret c =
      if v.cx + 1 < COL_CNT then some { v with mem := put_cell v.mem v.cy v.cx c, cx := v.cx + 1 }
      else { v with mem := put_cell v.mem v.cy v.cx c, cx := v.cx + 1 }.newline := by
  simp only [List.mem_cons, List.not_mem_nil, or_false, not_or] at hc
  obtain ⟨h7, h8, h9, h10, h12, h13⟩ := hc
  have hcx : size_add v.cx 1 = v.cx + 1 := by
    have hcol := h.column
    simp only [COL_CNT] at hcol
    apply size_add_eq
    rw [WORD_eq]
    omega
  rw [interpret, if_neg h10, if_neg h12, if_neg h8, if_neg h13, if_neg h9, if_neg h7,
    fb_store_eq h.row h.column (by decide), Option.bind_eq_bind, Option.bind_some,
    fb_store_eq h.row h.column (by decide), Option.bind_some, hcx, put_cell]
  by_cases hroom : v.cx + 1 < COL_CNT
  · rw [if_pos hroom]
    exact if_neg (Nat.not_le_of_lt hroom)
  · rw [if_neg hroom]
    exact if_pos (Nat.le_of_not_lt hroom)

/-- Whatever the character, no access is outside of the screen, and the cursor stays on it. -/
theorem interpret_onScreen (h : v.OnScreen) (c : UInt8) :
    ∃ v', v.interpret c = some v' ∧ v'.OnScreen ∧ v'.inited = v.inited := by
  have hcol := h.column
  have hrow := h.row
  have hcol_pos : 0 < COL_CNT := by decide
  have hrow_pos : 0 < ROW_CNT := by decide
  -- a new line leaves the cursor on the screen from whatever column
  have hnewline : ∀ u : Vga, u.cy = v.cy → u.inited = v.inited →
      ∃ v', u.newline = some v' ∧ v'.OnScreen ∧ v'.inited = v.inited := by
    intro u hcy hinited
    obtain ⟨mem', heq, -⟩ := @newline_eq u (hcy ▸ hrow)
    exact ⟨_, heq, ⟨hcol_pos, Nat.lt_of_le_of_lt (Nat.min_le_right _ _) (by decide)⟩, hinited⟩
  rw [interpret]
  by_cases h10 : c = 10
  · rw [if_pos h10]
    exact hnewline v rfl rfl
  by_cases h12 : c = 12
  · obtain ⟨mem', heq, -⟩ := @clear_rows_eq v.mem 0 ROW_CNT (Nat.zero_add _).le
    rw [if_neg h10, if_pos h12, cls, heq]
    exact ⟨_, rfl, ⟨hcol_pos, hrow_pos⟩, rfl⟩
  by_cases h8 : c = 8
  · rw [if_neg h10, if_neg h12, if_pos h8]
    refine ⟨_, rfl, ?_⟩
    split
    · exact ⟨⟨Nat.lt_of_le_of_lt (Nat.sub_le _ _) hcol, hrow⟩, rfl⟩
    · exact ⟨h, rfl⟩
  by_cases h13 : c = 13
  · rw [if_neg h10, if_neg h12, if_neg h8, if_pos h13]
    exact ⟨_, rfl, ⟨hcol_pos, hrow⟩, rfl⟩
  by_cases h9 : c = 9
  · rw [if_neg h10, if_neg h12, if_neg h8, if_neg h13, if_pos h9]
    dsimp only
    split
    · exact hnewline _ rfl rfl
    · rename_i hroom
      exact ⟨_, rfl, ⟨Nat.lt_of_not_le hroom, hrow⟩, rfl⟩
  by_cases h7 : c = 7
  · rw [if_neg h10, if_neg h12, if_neg h8, if_neg h13, if_neg h9, if_pos h7]
    exact ⟨v, rfl, h, rfl⟩
  have hprint := interpret_print h (c := c) (by simp [h7, h8, h9, h10, h12, h13])
  rw [interpret] at hprint
  rw [hprint]
  split
  · rename_i hroom
    exact ⟨_, rfl, ⟨hroom, hrow⟩, rfl⟩
  · exact hnewline _ rfl rfl

theorem move_cursor_onScreen (h : v.OnScreen) : v.move_cursor.OnScreen := ⟨h.column, h.row⟩

theorem vga_putc_onScreen (h : v.init.OnScreen) (c : UInt8) :
    ∃ v', v.vga_putc c = some v' ∧ v'.OnScreen ∧ v'.inited = true := by
  obtain ⟨v', heq, hscreen, hinited⟩ := interpret_onScreen h c
  refine ⟨v'.move_cursor, ?_, move_cursor_onScreen hscreen, ?_⟩
  · rw [vga_putc, heq]
    rfl
  · rw [init] at hinited
    split at hinited
    · rename_i hdone
      exact hinited.trans hdone
    · exact hinited

theorem init_of_inited (h : v.inited = true) : v.init = v := if_pos h

theorem vga_puts_onScreen (h : v.init.OnScreen) (cs : Bytes) :
    ∃ v', v.vga_puts cs = some v' ∧ v'.init.OnScreen := by
  induction cs generalizing v with
  | nil => exact ⟨v, rfl, h⟩
  | cons c cs ih =>
      obtain ⟨v₁, heq, hscreen, hinited⟩ := vga_putc_onScreen h c
      obtain ⟨v', hrest, hscreen'⟩ := @ih v₁ (by rwa [init_of_inited hinited])
      refine ⟨v', ?_, hscreen'⟩
      rw [vga_puts, heq]
      exact hrest

theorem vga_puts_append (cs cs' : Bytes) :
    v.vga_puts (cs ++ cs') = (v.vga_puts cs).bind fun v => v.vga_puts cs' := by
  induction cs generalizing v with
  | nil => rfl
  | cons c cs ih =>
      rw [List.cons_append, vga_puts, vga_puts]
      cases v.vga_putc c with
      | none => rfl
      | some v' => exact ih

/-! ## The text on the screen -/

/-- The row of a text that is at `y`, when the last `ROW_CNT` rows are shown. -/
def shown_row (rows : List Bytes) (y : Nat) : Bytes :=
  (rows.drop (rows.length - ROW_CNT)).getD y []

/-- The screen shows the rows `rows` and the last row `row`, whose end is at the cursor. -/
structure Shows (v : Vga) (rows : List Bytes) (row : Bytes) : Prop where
  inited : v.inited = true
  column : v.cx = row.length
  line : v.cy = min rows.length (ROW_CNT - 1)
  cells : ∀ y x, y < ROW_CNT → x < COL_CNT →
    cell v.mem y x = ((shown_row (rows ++ [row]) y).getD x 32, GRAY_ON_BLACK)

variable {rows : List Bytes} {row row' : Bytes}

theorem shown_row_eq : shown_row rows y = rows.getD (rows.length - ROW_CNT + y) [] := by
  rw [shown_row, List.getD_eq_getElem?_getD, List.getElem?_drop, ← List.getD_eq_getElem?_getD]

/-- The last row is at the line of the cursor, and the others do not depend on it. -/
theorem shown_row_snoc (hy : y < ROW_CNT) :
    shown_row (rows ++ [row]) y =
      if y = min rows.length (ROW_CNT - 1) then row
      else rows.getD (rows.length + 1 - ROW_CNT + y) [] := by
  have hcnt : ROW_CNT = 25 := rfl
  rw [shown_row_eq, List.length_append, List.length_singleton]
  by_cases hlast : y = min rows.length (ROW_CNT - 1)
  · have hidx : rows.length + 1 - ROW_CNT + y = rows.length := by omega
    rw [if_pos hlast, hidx, List.getD_append_right _ _ _ _ (Nat.le_refl _), Nat.sub_self,
      List.getD_cons_zero]
  · rw [if_neg hlast]
    by_cases hlt : rows.length + 1 - ROW_CNT + y < rows.length
    · rw [List.getD_append _ _ _ _ hlt]
    · have hover : (rows ++ [row]).length ≤ rows.length + 1 - ROW_CNT + y := by
        rw [List.length_append, List.length_singleton]
        omega
      rw [List.getD_eq_default _ _ hover, List.getD_eq_default _ _ (Nat.le_of_not_lt hlt)]

/-- A row more: below the last line the rows move up. -/
theorem shown_row_new (hy : y < ROW_CNT) :
    shown_row (rows ++ [row] ++ [[]]) y =
      if rows.length + 1 < ROW_CNT then shown_row (rows ++ [row]) y
      else if y = ROW_CNT - 1 then [] else shown_row (rows ++ [row]) (y + 1) := by
  have hcnt : ROW_CNT = 25 := rfl
  have hlen : (rows ++ [row]).length = rows.length + 1 := by
    rw [List.length_append, List.length_singleton]
  rw [shown_row_snoc hy, shown_row_eq, shown_row_eq, hlen]
  by_cases hroom : rows.length + 1 < ROW_CNT
  · have hidx : rows.length + 1 + 1 - ROW_CNT + y = rows.length + 1 - ROW_CNT + y := by omega
    rw [if_pos hroom, hidx]
    by_cases hlast : y = min (rows.length + 1) (ROW_CNT - 1)
    · rw [if_pos hlast, List.getD_eq_default]
      rw [hlen]
      omega
    · rw [if_neg hlast]
  · have hidx : rows.length + 1 + 1 - ROW_CNT + y = rows.length + 1 - ROW_CNT + (y + 1) := by omega
    rw [if_neg hroom, hidx, Nat.min_eq_right (by omega)]

namespace Shows

theorem onScreen (h : Shows v rows row) (hrow : row.length < COL_CNT) : v.OnScreen := by
  refine ⟨h.column ▸ hrow, ?_⟩
  rw [h.line]
  exact Nat.lt_of_le_of_lt (Nat.min_le_right _ _) (by decide)

theorem newline (h : Shows v rows row) :
    ∃ v', v.newline = some v' ∧ Shows v' (rows ++ [row]) [] := by
  have hcnt : ROW_CNT = 25 := rfl
  have hline := h.line
  have hcy : v.cy < ROW_CNT := by omega
  obtain ⟨mem', heq, hcells⟩ := newline_eq hcy
  refine ⟨_, heq, ⟨h.inited, rfl, ?_, fun y x hy hx => ?_⟩⟩
  · rw [List.length_append, List.length_singleton]
    dsimp only
    omega
  · have hroom : v.cy + 1 < ROW_CNT ↔ rows.length + 1 < ROW_CNT := by omega
    rw [hcells y x hy hx, shown_row_new hy, if_congr hroom rfl rfl]
    split
    · exact h.cells y x hy hx
    · split
      · rfl
      · exact h.cells (y + 1) x (by omega) hx

theorem print (h : Shows v rows row) (hrow : row.length < COL_CNT)
    (hc : c ∉ ([7, 8, 9, 10, 12, 13] : Bytes)) :
    ∃ v', v.interpret c = some v' ∧
      if row.length + 1 < COL_CNT then Shows v' rows (row ++ [c])
      else Shows v' (rows ++ [row ++ [c]]) [] := by
  have hscreen := h.onScreen hrow
  have hcol := h.column
  have hline := h.line
  -- the display in front of the new line that a full row makes
  have hput : Shows { v with mem := put_cell v.mem v.cy v.cx c, cx := v.cx + 1 } rows
      (row ++ [c]) := by
    refine ⟨h.inited, ?_, hline, fun y x hy hx => ?_⟩
    · rw [List.length_append, List.length_singleton, ← hcol]
    · dsimp only
      rw [cell_put_cell hscreen.column hx, h.cells y x hy hx, shown_row_snoc hy, shown_row_snoc hy,
        ← hline]
      by_cases hy' : y = v.cy
      · rw [if_pos hy', if_pos hy']
        by_cases hx' : x = v.cx
        · rw [if_pos ⟨hy', hx'⟩, hx', hcol, List.getD_append_right _ _ _ _ (Nat.le_refl _),
            Nat.sub_self, List.getD_cons_zero]
        · rw [if_neg fun hboth => hx' hboth.2]
          by_cases hlt : x < row.length
          · rw [List.getD_append _ _ _ _ hlt]
          · have hover : (row ++ [c]).length ≤ x := by
              rw [List.length_append, List.length_singleton]
              omega
            rw [List.getD_eq_default _ _ hover, List.getD_eq_default _ _ (Nat.le_of_not_lt hlt)]
      · rw [if_neg hy', if_neg hy', if_neg fun hboth => hy' hboth.1]
  rw [interpret_print hscreen hc, hcol]
  rw [hcol] at hput
  split
  · exact ⟨_, rfl, hput⟩
  · exact hput.newline

end Shows

/-- A cleared screen shows one empty row. -/
theorem shows_cls (h : v.inited = true) : ∃ v', v.cls = some v' ∧ Shows v' [] [] := by
  obtain ⟨mem', heq, hcells⟩ := @clear_rows_eq v.mem 0 ROW_CNT (Nat.zero_add _).le
  refine ⟨{ v with mem := mem', cx := 0, cy := 0 }.move_cursor, ?_, h, rfl, rfl,
    fun y x hy hx => ?_⟩
  · rw [cls, heq]
    rfl
  · have hblank : shown_row ([] ++ [[]]) y = [] := by
      rw [shown_row_snoc hy]
      split <;> rfl
    rw [hblank]
    exact (hcells y x hx).trans (if_pos ⟨Nat.zero_le y, by rwa [Nat.zero_add]⟩)

/-! ## The hardware cursor -/

/-- The registers of the display have the position that the driver has. -/
def CursorShown (v : Vga) : Prop := v.find_cursor.cx = v.cx ∧ v.find_cursor.cy = v.cy

/-- The two writes of `move_cursor` select the two registers, and give them the bytes of `cp`. -/
theorem cursor_registers (cp : UInt16) :
    ((0x0e : UInt16) ||| (cp &&& 0xff00)).toUInt8 = 0x0e ∧
      (((0x0e : UInt16) ||| (cp &&& 0xff00)) >>> 8).toUInt8 = (cp >>> 8).toUInt8 ∧
      ((0x0f : UInt16) ||| (cp <<< 8)).toUInt8 = 0x0f ∧
      (((0x0f : UInt16) ||| (cp <<< 8)) >>> 8).toUInt8 = cp.toUInt8 := by
  refine ⟨?_, ?_, ?_, ?_⟩
  all_goals
    apply UInt8.toBitVec_inj.1
    ext i hi
    simp only [UInt16.toBitVec_toUInt8, UInt16.toBitVec_or, UInt16.toBitVec_and,
      UInt16.toBitVec_shiftLeft, UInt16.toBitVec_shiftRight]
    interval_cases i <;> simp

/-- Its two bytes are all of a halfword. -/
theorem halfword_bytes (cp : UInt16) :
    ((cp >>> 8).toUInt8.toUInt16 <<< 8) ||| cp.toUInt8.toUInt16 = cp := by
  apply UInt16.toBitVec_inj.1
  ext i hi
  simp only [UInt16.toBitVec_or, UInt16.toBitVec_shiftLeft, UInt8.toBitVec_toUInt16,
    UInt16.toBitVec_toUInt8, UInt16.toBitVec_shiftRight]
  interval_cases i <;> simp

theorem move_cursor_shown (h : v.OnScreen) : v.move_cursor.CursorShown := by
  obtain ⟨hindex, hhigh, hindex', hlow⟩ := cursor_registers (UInt16.ofNat (v.cx + COL_CNT * v.cy))
  have hfind : v.move_cursor.find_cursor.cx = (v.cx + COL_CNT * v.cy) % COL_CNT ∧
      v.move_cursor.find_cursor.cy = (v.cx + COL_CNT * v.cy) / COL_CNT := by
    have hcol := h.column
    have hrow := h.row
    simp only [COL_CNT, ROW_CNT] at hcol hrow
    have hcp : (UInt16.ofNat (v.cx + COL_CNT * v.cy)).toNat = v.cx + COL_CNT * v.cy := by
      rw [UInt16.toNat_ofNat']
      simp only [COL_CNT]
      omega
    have hread : v.move_cursor.crtc 0x0e = (UInt16.ofNat (v.cx + COL_CNT * v.cy) >>> 8).toUInt8 ∧
        v.move_cursor.crtc 0x0f = (UInt16.ofNat (v.cx + COL_CNT * v.cy)).toUInt8 := by
      simp only [move_cursor, outw, hindex, hhigh, hindex', hlow]
      exact ⟨by rw [Function.update_of_ne (by decide), Function.update_self],
        Function.update_self _ _ _⟩
    simp only [find_cursor, outb, inb, hread.1, hread.2, halfword_bytes, hcp]
    exact ⟨trivial, trivial⟩
  refine ⟨hfind.1.trans ?_, hfind.2.trans ?_⟩
  · rw [Nat.add_mul_mod_self_left, Nat.mod_eq_of_lt h.column]
    rfl
  · rw [Nat.add_mul_div_left _ _ (by decide), Nat.div_eq_of_lt h.column, Nat.zero_add]
    rfl

/-! ## Runs of printed text -/

theorem Shows.move_cursor (h : Shows v rows row) : Shows v.move_cursor rows row :=
  ⟨h.inited, h.column, h.line, h.cells⟩

/-- One more byte of text: the rows on the screen grow as those of the text do. -/
theorem Shows.vga_putc {t : Bytes} (ht : text_rows 10 COL_CNT t = rows ++ [row])
    (hrow : row.length < COL_CNT) (h : Shows v rows row) (hc : c ∉ ([7, 8, 9, 12, 13] : Bytes)) :
    ∃ v' rows' row', v.vga_putc c = some v' ∧ v'.CursorShown ∧
      text_rows 10 COL_CNT (t ++ [c]) = rows' ++ [row'] ∧ row'.length < COL_CNT ∧
      Shows v' rows' row' := by
  -- it is enough to see what `interpret` does
  have hstep : (∃ v' rows' row', v.interpret c = some v' ∧
      text_rows 10 COL_CNT (t ++ [c]) = rows' ++ [row'] ∧ row'.length < COL_CNT ∧
      Shows v' rows' row') → ∃ v' rows' row', v.vga_putc c = some v' ∧ v'.CursorShown ∧
      text_rows 10 COL_CNT (t ++ [c]) = rows' ++ [row'] ∧ row'.length < COL_CNT ∧
      Shows v' rows' row' := by
    rintro ⟨v', rows', row', heq, htext, hlt, hshows⟩
    refine ⟨v'.move_cursor, rows', row', ?_, move_cursor_shown (hshows.onScreen hlt), htext, hlt,
      hshows.move_cursor⟩
    rw [Vga.vga_putc, init_of_inited h.inited, heq]
    rfl
  apply hstep
  by_cases hnew : c = 10
  · obtain ⟨v', heq, hshows⟩ := h.newline
    refine ⟨v', rows ++ [row], [], ?_, ?_, by decide, hshows⟩
    · rw [interpret, if_pos hnew, heq]
    · rw [hnew, text_rows_snoc_sep, ht]
  · have hprinted : c ∉ ([7, 8, 9, 10, 12, 13] : Bytes) := by
      simp only [List.mem_cons, List.not_mem_nil, or_false, not_or] at hc ⊢
      exact ⟨hc.1, hc.2.1, hc.2.2.1, hnew, hc.2.2.2⟩
    obtain ⟨v', heq, hshows⟩ := h.print hrow hprinted
    obtain ⟨rows', row', ht', -, hsnoc⟩ := @text_rows_snoc _ COL_CNT c _ 10 t (by decide) hnew
    obtain ⟨rfl, hlast⟩ := List.append_inj' (ht.symm.trans ht') rfl
    obtain rfl : row = row' := List.singleton_inj.1 hlast
    by_cases hroom : row.length + 1 < COL_CNT
    · rw [if_pos hroom] at hshows hsnoc
      refine ⟨v', rows, row ++ [c], heq, hsnoc, ?_, hshows⟩
      rwa [List.length_append, List.length_singleton]
    · rw [if_neg hroom] at hshows hsnoc
      refine ⟨v', rows ++ [row ++ [c]], [], heq, ?_, by decide, hshows⟩
      rw [hsnoc, List.append_assoc]
      rfl

/-- What is on the screen after a form feed and a text. -/
theorem vga_puts_text {t : Bytes} (ht : ∀ c ∈ t, c ∉ ([7, 8, 9, 12, 13] : Bytes)) :
    ∃ v' rows row, v.vga_puts (12 :: t) = some v' ∧ v'.CursorShown ∧
      text_rows 10 COL_CNT t = rows ++ [row] ∧ row.length < COL_CNT ∧ Shows v' rows row := by
  induction t using List.reverseRecOn with
  | nil =>
      have hinited : v.init.inited = true := by
        rw [init]
        split
        · assumption
        · rfl
      obtain ⟨u, heq, hshows⟩ := shows_cls hinited
      refine ⟨u.move_cursor, [], [], ?_, move_cursor_shown (hshows.onScreen (by decide)),
        text_rows_nil, by decide, hshows.move_cursor⟩
      have hput : v.vga_putc 12 = some u.move_cursor := by
        rw [Vga.vga_putc, interpret, if_neg (by decide), if_pos rfl, heq]
        rfl
      rw [vga_puts, hput]
      rfl
  | append_singleton t c ih =>
      obtain ⟨u, rows, row, heq, -, htext, hlt, hshows⟩ :=
        ih fun d hd => ht d (List.mem_append_left _ hd)
      obtain ⟨v', rows', row', hput, hshown, htext', hlt', hshows'⟩ :=
        hshows.vga_putc htext hlt (ht c (List.mem_append_right _ List.mem_cons_self))
      refine ⟨v', rows', row', ?_, hshown, htext', hlt', hshows'⟩
      rw [← List.cons_append, vga_puts_append, heq, Option.bind_some, vga_puts, hput]
      rfl

/-- From a valid cursor no bytes lead to an access outside of the screen, and the cursor stays
valid.  After a form feed and a text without other control characters, the screen has the last rows
of that text, and blanks in all other cells; the cursor is behind the last character, and so is that
of the display. -/
theorem vga_renders_text (h : v.init.OnScreen) :
    (∀ cs, ∃ v', v.vga_puts cs = some v' ∧ v'.init.OnScreen) ∧
      ∀ cs t : Bytes, (∀ c ∈ t, c ∉ ([7, 8, 9, 12, 13] : Bytes)) →
        ∃ v', v.vga_puts (cs ++ 12 :: t) = some v' ∧
          (∀ y x, y < ROW_CNT → x < COL_CNT → cell v'.mem y x =
            ((((text_rows 10 COL_CNT t).drop ((text_rows 10 COL_CNT t).length - ROW_CNT)).getD y
              []).getD x 32, GRAY_ON_BLACK)) ∧
          v'.cx = ((text_rows 10 COL_CNT t).getLastD []).length ∧
          v'.cy = min (text_rows 10 COL_CNT t).length ROW_CNT - 1 ∧ v'.CursorShown := by
  refine ⟨vga_puts_onScreen h, fun cs t ht => ?_⟩
  obtain ⟨u, hcs, -⟩ := vga_puts_onScreen h cs
  obtain ⟨v', rows, row, heq, hshown, htext, -, hshows⟩ := @vga_puts_text u t ht
  refine ⟨v', ?_, ?_, ?_, ?_, hshown⟩
  · rw [vga_puts_append, hcs, Option.bind_some, heq]
  · rw [htext]
    exact hshows.cells
  · rw [htext, hshows.column, List.getLastD_concat]
  · have hcnt : ROW_CNT = 25 := rfl
    rw [htext, hshows.line, List.length_append, List.length_singleton]
    omega

/-- The display before the first call, with the cursor where a boot loader left it. -/
def boot : Vga := ⟨false, 0, 0, fun _ => 0, 0, fun r => if r = 0x0f then 83 else 0⟩

theorem vga_renders_text_boot :
    boot.init.OnScreen ∧
    ((∀ cs, ∃ v', boot.vga_puts cs = some v' ∧ v'.init.OnScreen) ∧
      ∀ cs t : Bytes, (∀ c ∈ t, c ∉ ([7, 8, 9, 12, 13] : Bytes)) →
        ∃ v', boot.vga_puts (cs ++ 12 :: t) = some v' ∧
          (∀ y x, y < ROW_CNT → x < COL_CNT → cell v'.mem y x =
            ((((text_rows 10 COL_CNT t).drop ((text_rows 10 COL_CNT t).length - ROW_CNT)).getD y
              []).getD x 32, GRAY_ON_BLACK)) ∧
          v'.cx = ((text_rows 10 COL_CNT t).getLastD []).length ∧
          v'.cy = min (text_rows 10 COL_CNT t).length ROW_CNT - 1 ∧ v'.CursorShown) := by
  have hboot : boot.init.OnScreen := ⟨by decide, by decide⟩
  exact ⟨hboot, vga_renders_text hboot⟩

end Vga

end Berk162
