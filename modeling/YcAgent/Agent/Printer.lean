import YcAgent.Agent.PrinterFormat
import YcAgent.Base.Fallible
import YcAgent.Base.FilePath
import YcAgent.Base.Split
import YcAgent.Base.Strconv

/-!
# The result table

A table of two columns is printed so that its lines are of one length. Where the second column is
too wide for the terminal, rows whose second cell is too wide are replaced by the pieces of that
cell. The widths are those of the table before that.

What the package for terminals does is a parameter: the removal of colours, and the styles.
-/
namespace YcAgent.Agent.Printer

open Go

/-- The functions of the package for terminals. -/
structure Pterm where
  removeColor : GoString → GoString
  style : GoString → GoString
  separatorStyle : GoString → GoString
  headerStyle : GoString → GoString
  lightGreen : GoString → GoString

abbrev Row := GoString × GoString

structure TablePrinter where
  data : List Row
  width : ℤ
  separator : GoString
  hasHeader : Bool

/-- The table of `printResult`; the entries of the response are in the order of their keys. -/
def resultData (t : Pterm) (port : ℤ) (success : Bool) (runtime : GoString) (entries : List Row) :
    List Row :=
  [(str "Port", itoa port), (str "Status", if success then str "success" else str "fail"),
    (str "RunTime", runtime)] ++
  entries.map fun entry =>
    if entry.1 ≠ str "dashboardReportURL" then entry else (t.lightGreen entry.1, entry.2)

def resultTable (t : Pterm) (width port : ℤ) (success : Bool) (runtime : GoString)
    (entries : List Row) : TablePrinter :=
  ⟨resultData t port success runtime entries, width, str " | ", false⟩

section Srender

variable (t : Pterm)

def columnLength (column : GoString) : ℕ := (t.removeColor column).length

/-- The widths of the columns so far, and one more row. -/
def widen (maxColumnWidth : ℕ × ℕ) (row : Row) : ℕ × ℕ :=
  (if columnLength t row.1 > maxColumnWidth.1 then columnLength t row.1 else maxColumnWidth.1,
    if columnLength t row.2 > maxColumnWidth.2 then columnLength t row.2 else maxColumnWidth.2)

def maxColumnWidth (data : List Row) : ℕ × ℕ := data.foldl (widen t) (0, 0)

/-- What is left for the second column; the subtraction is that of 64 bits. -/
def leftWidth (width : ℤ) (first : ℕ) : ℤ :=
  let left := (width - first - 7).bmod (2 ^ 64)
  if left < 1 then 10 else left

def TablePrinter.left (p : TablePrinter) : ℤ := leftWidth p.width (maxColumnWidth t p.data).1

/-- The second column is too wide. -/
def TablePrinter.wraps (p : TablePrinter) : Prop := (maxColumnWidth t p.data).2 > p.left t

instance (p : TablePrinter) : Decidable (p.wraps t) := inferInstanceAs (Decidable (_ > _))

/-- The rows that stand for a row of the table where the second column is too wide. -/
def wrapRow (fuel : ℕ) (left : ℤ) (row : Row) : Option (List Row) :=
  let column := row.2
  let cs := t.removeColor column
  if cs.length > left then
    (format fuel left cs).map fun cols =>
      cols.zipIdx.map fun col => if col.2 = 0 then (row.1, col.1) else ([], col.1)
  else some [row]

/-- The rows that are printed for a row of the table. -/
def TablePrinter.printedFor (p : TablePrinter) (fuel : ℕ) (row : Row) : Option (List Row) :=
  if p.wraps t then wrapRow t fuel (p.left t) row else some [row]

/-- `p.Data` and the widths, as they are when the lines are made. -/
def TablePrinter.printed (p : TablePrinter) (fuel : ℕ) : Option (List Row × ℤ × ℤ) :=
  let widths := maxColumnWidth t p.data
  if p.wraps t then do
    let groups ← p.data.mapM (wrapRow t fuel (p.left t))
    some (groups.flatten, widths.1, p.left t)
  else some (p.data, widths.1, widths.2)

/-- `strings.Repeat(" ", count)`, which panics on a negative count. -/
def blanks? (count : ℤ) : Option GoString :=
  if count < 0 then none else some (List.replicate count.toNat space)

def columnString (width : ℤ) (column : GoString) : Option GoString :=
  (blanks? (width - columnLength t column)).map (column ++ ·)

def TablePrinter.styled (p : TablePrinter) (ri : ℕ) (s : GoString) : GoString :=
  if p.hasHeader ∧ ri = 0 then t.style (t.headerStyle s) else t.style s

/-- One turn of the last loop: the cells of a row, with the separator in front of the second. -/
def TablePrinter.line (p : TablePrinter) (widths : ℤ × ℤ) (ri : ℕ) (row : Row) :
    Option GoString := do
  let first ← columnString t widths.1 row.1
  let second ← columnString t widths.2 row.2
  some (p.styled t ri first ++ t.style (t.separatorStyle p.separator) ++ p.styled t ri second)

/-- `Srender`; there is no result where it panics or `format` takes more turns than `fuel`. -/
def TablePrinter.srender (p : TablePrinter) (fuel : ℕ) : Option GoString := do
  let (data, widths) ← p.printed t fuel
  let lines ← data.zipIdx.mapM fun row => p.line t widths row.2 row.1
  some (FilePath.trimSuffix (lines.flatMap (· ++ [newline])) [newline])

end Srender

/-! ## What the table should be -/

section Srender

variable (t : Pterm) (p : TablePrinter)

/-- A line with the cells of a row, each with blanks behind it. -/
def IsLine (ri : ℕ) (row : Row) (line : GoString) : Prop :=
  ∃ m n, line = p.styled t ri (row.1 ++ List.replicate m space) ++
    t.style (t.separatorStyle p.separator) ++ p.styled t ri (row.2 ++ List.replicate n space)

/-- The text has a line for each row. -/
def IsOutput (rows : List Row) (out : GoString) : Prop :=
  ∃ lines : List GoString,
    List.Forall₂ (fun row line => IsLine t p row.2 row.1 line) rows.zipIdx lines ∧
    out = join lines [newline]

/-- The first cell stands in the first row that is printed, and the pieces are the second cell. -/
def Shows (row : Row) (group : List Row) : Prop :=
  ∃ piece rest, group = (row.1, piece) :: rest ∧ (∀ r ∈ rest, r.1 = []) ∧
    trimSpace (group.flatMap Prod.snd) = trimSpace row.2

/-- The output has the rows of the table in order, and each of them shows its cells. -/
def LosesNothing : Prop :=
  ∃ fuel out groups, p.srender t fuel = some out ∧
    p.data.mapM (p.printedFor t fuel) = some groups ∧ IsOutput t p groups.flatten out ∧
    List.Forall₂ Shows p.data groups

/-- The second cell is not too wide, or it is so without the white space around it too, and has no
colours in it. -/
def Keeps (row : Row) : Prop :=
  (t.removeColor row.2).length ≤ p.left t ∨
    (p.left t < (trimSpace (t.removeColor row.2)).length ∧
      trimSpace (t.removeColor row.2) = trimSpace row.2)

end Srender

/-! ## The widths -/

section Srender

variable {t : Pterm} {p : TablePrinter}

theorem le_foldl_widen (data : List Row) (w : ℕ × ℕ) :
    (w.1 ≤ (data.foldl (widen t) w).1 ∧ w.2 ≤ (data.foldl (widen t) w).2) ∧
      ∀ row ∈ data, columnLength t row.1 ≤ (data.foldl (widen t) w).1 ∧
        columnLength t row.2 ≤ (data.foldl (widen t) w).2 := by
  induction data generalizing w with
  | nil => exact ⟨⟨Nat.le_refl _, Nat.le_refl _⟩, nofun⟩
  | cons row data ih =>
    obtain ⟨⟨hfirst, hsecond⟩, hrows⟩ := ih (widen t w row)
    have hw : w.1 ≤ (widen t w row).1 ∧ w.2 ≤ (widen t w row).2 := by
      unfold widen
      constructor <;> dsimp only <;> split <;> omega
    have hrow : columnLength t row.1 ≤ (widen t w row).1 ∧
        columnLength t row.2 ≤ (widen t w row).2 := by
      unfold widen
      constructor <;> dsimp only <;> split <;> omega
    rw [List.foldl_cons]
    refine ⟨⟨by omega, by omega⟩, List.forall_mem_cons.mpr ⟨⟨by omega, by omega⟩, hrows⟩⟩

theorem le_maxColumnWidth {data : List Row} {row : Row} (hrow : row ∈ data) :
    columnLength t row.1 ≤ (maxColumnWidth t data).1 ∧
      columnLength t row.2 ≤ (maxColumnWidth t data).2 :=
  (le_foldl_widen data (0, 0)).2 row hrow

theorem left_pos (t : Pterm) (p : TablePrinter) : 1 ≤ p.left t := by
  unfold TablePrinter.left leftWidth
  dsimp only
  split <;> omega

/-! ## The rows for a row -/

theorem wrapRow_short {left : ℤ} {row : Row} (h : ¬ (t.removeColor row.2).length > left)
    (fuel : ℕ) : wrapRow t fuel left row = some [row] := if_neg h

theorem wrapRow_long {left : ℤ} {row : Row} (h : (t.removeColor row.2).length > left)
    (fuel : ℕ) :
    wrapRow t fuel left row = (format fuel left (t.removeColor row.2)).map fun cols =>
      cols.zipIdx.map fun col => if col.2 = 0 then (row.1, col.1) else ([], col.1) := if_pos h

theorem wrapRow_stable {m n : ℕ} {left : ℤ} {row : Row} {group : List Row}
    (h : wrapRow t m left row = some group) (hle : m ≤ n) : wrapRow t n left row = some group := by
  by_cases hlong : (t.removeColor row.2).length > left
  · rw [wrapRow_long hlong] at h ⊢
    obtain ⟨cols, hcols, rfl⟩ := Option.map_eq_some_iff.mp h
    rw [format_stable hcols hle]
    rfl
  · rw [wrapRow_short hlong] at h ⊢
    exact h

theorem wrapRow_unique {m n : ℕ} {left : ℤ} {row : Row} {group group' : List Row}
    (h : wrapRow t m left row = some group) (h' : wrapRow t n left row = some group') :
    group = group' := by
  by_cases hlong : (t.removeColor row.2).length > left
  · rw [wrapRow_long hlong] at h h'
    obtain ⟨cols, hcols, rfl⟩ := Option.map_eq_some_iff.mp h
    obtain ⟨cols', hcols', rfl⟩ := Option.map_eq_some_iff.mp h'
    rw [format_unique hcols hcols']
  · rw [wrapRow_short hlong] at h h'
    exact Option.some.inj (h.symm.trans h')

/-- The first piece goes beside the first cell. -/
theorem map_zipIdx_cons (first piece : GoString) (pieces : List GoString) :
    (piece :: pieces).zipIdx.map (fun col => if col.2 = 0 then (first, col.1) else ([], col.1)) =
      (first, piece) :: pieces.map fun piece => ([], piece) := by
  rw [List.zipIdx_cons, List.map_cons, if_pos rfl]
  congr 1
  have hrest (k : ℕ) (pieces : List GoString) :
      (pieces.zipIdx (k + 1)).map
        (fun col => if col.2 = 0 then (first, col.1) else (([] : GoString), col.1)) =
        pieces.map fun piece => ([], piece) := by
    induction pieces generalizing k with
    | nil => rfl
    | cons piece pieces ih =>
      rw [List.zipIdx_cons, List.map_cons, if_neg (Nat.succ_ne_zero k), ih (k + 1), List.map_cons]
  exact hrest 0 pieces

/-- Too wide a cell that fits without its white space is not printed at all. -/
theorem wrapRow_gone {left : ℤ} (hleft : 1 ≤ left) {row : Row}
    (hlong : (t.removeColor row.2).length > left)
    (hshort : (trimSpace (t.removeColor row.2)).length ≤ left) (fuel : ℕ) :
    wrapRow t fuel left row = some [] := by
  obtain ⟨width, rfl⟩ := Int.eq_ofNat_of_zero_le (Int.le_trans Int.one_nonneg hleft)
  rw [wrapRow_long hlong, format_short (by omega)]
  rfl

theorem wrapRow_cut {left : ℤ} (hleft : 1 ≤ left) {row : Row}
    (hlong : (t.removeColor row.2).length > left)
    (hcut : left < (trimSpace (t.removeColor row.2)).length) :
    ∃ fuel piece pieces, wrapRow t fuel left row =
        some ((row.1, piece) :: pieces.map fun piece => ([], piece)) ∧
      (piece :: pieces).flatten = trimSpace (t.removeColor row.2) ∧
      ∀ part ∈ piece :: pieces, part.length ≤ left := by
  obtain ⟨width, rfl⟩ := Int.eq_ofNat_of_zero_le (Int.le_trans Int.one_nonneg hleft)
  have hwidth : 1 ≤ width := by omega
  have hlonger : width < (trimSpace (t.removeColor row.2)).length := by omega
  obtain ⟨cols, hformat, hcols⟩ := format_cut hwidth hlonger
  cases cols with
  | nil => exact absurd hcols.several (by decide)
  | cons piece pieces =>
    refine ⟨(trimSpace (t.removeColor row.2)).length, piece, pieces, ?_, hcols.whole, ?_⟩
    · rw [wrapRow_long hlong, hformat, Option.map_some, map_zipIdx_cons]
    · intro part hpart
      exact_mod_cast hcols.length_le hpart

variable (t) in
/-- A row that is printed for a row that is wrapped. -/
structure PartOf (left : ℤ) (row r : Row) : Prop where
  first : r.1 = row.1 ∨ r.1 = []
  second : (r = row ∧ (t.removeColor row.2).length ≤ left) ∨ r.2.length ≤ left
  bytes : ∀ b ∈ r.2, b ∈ row.2 ∨ b ∈ t.removeColor row.2

theorem exists_wrapRow {left : ℤ} (hleft : 1 ≤ left) (row : Row) :
    ∃ fuel group, wrapRow t fuel left row = some group ∧ ∀ r ∈ group, PartOf t left row r := by
  by_cases hlong : (t.removeColor row.2).length > left
  · by_cases hcut : left < (trimSpace (t.removeColor row.2)).length
    · obtain ⟨fuel, piece, pieces, hwrap, hwhole, hlengths⟩ := wrapRow_cut hleft hlong hcut
      refine ⟨fuel, _, hwrap, ?_⟩
      intro r hr
      have hparts : (r.1 = row.1 ∨ r.1 = []) ∧ r.2 ∈ piece :: pieces := by
        rcases List.mem_cons.mp hr with rfl | hr
        · exact ⟨Or.inl rfl, List.mem_cons_self⟩
        · obtain ⟨part, hpart, rfl⟩ := List.mem_map.mp hr
          exact ⟨Or.inr rfl, List.mem_cons_of_mem _ hpart⟩
      refine ⟨hparts.1, Or.inr (hlengths r.2 hparts.2), ?_⟩
      intro b hb
      have hmem : b ∈ (piece :: pieces).flatten := List.mem_flatten.mpr ⟨r.2, hparts.2, hb⟩
      rw [hwhole] at hmem
      exact Or.inr (mem_of_mem_trimSpace hmem)
    · exact ⟨0, [], wrapRow_gone hleft hlong (by omega) 0, nofun⟩
  · refine ⟨0, [row], wrapRow_short hlong 0, ?_⟩
    intro r hr
    rw [List.mem_singleton.mp hr]
    exact ⟨Or.inl rfl, Or.inl ⟨rfl, by omega⟩, fun b hb => Or.inl hb⟩

/-- The rows for a row show it exactly if the row keeps its cells. -/
theorem shows_iff {fuel : ℕ} {row : Row} {group : List Row}
    (h : p.printedFor t fuel row = some group) :
    Shows row group ↔ (p.wraps t → Keeps t p row) := by
  have hself : Shows row [row] := ⟨row.2, [], rfl, nofun, by simp⟩
  unfold TablePrinter.printedFor at h
  by_cases hwraps : p.wraps t
  · rw [if_pos hwraps] at h
    by_cases hlong : (t.removeColor row.2).length > p.left t
    · by_cases hcut : p.left t < (trimSpace (t.removeColor row.2)).length
      · obtain ⟨fuel', piece, pieces, hwrap, hwhole, -⟩ := wrapRow_cut (left_pos t p) hlong hcut
        have hgroup : group = (row.1, piece) :: pieces.map fun piece => ([], piece) :=
          wrapRow_unique h hwrap
        have hflat : group.flatMap Prod.snd = trimSpace (t.removeColor row.2) := by
          rw [hgroup, List.flatMap_cons, List.flatMap_map, ← hwhole, List.flatten_cons]
          simp
        constructor
        · rintro ⟨_, _, _, _, htrim⟩ _
          rw [hflat, trimSpace_trimSpace] at htrim
          exact Or.inr ⟨hcut, htrim⟩
        · intro hkeeps
          rcases hkeeps hwraps with hfits | ⟨-, htrim⟩
          · omega
          · refine ⟨piece, _, hgroup, ?_, ?_⟩
            · intro r hr
              obtain ⟨part, -, rfl⟩ := List.mem_map.mp hr
              rfl
            · rw [hflat, trimSpace_trimSpace, htrim]
      · have hgone := wrapRow_gone (left_pos t p) hlong (by omega) fuel
        rw [h] at hgone
        obtain rfl := Option.some.inj hgone
        refine iff_of_false ?_ ?_
        · rintro ⟨piece, rest, heq, -⟩
          cases heq
        · intro hkeeps
          rcases hkeeps hwraps with hfits | ⟨hlonger, -⟩
          · omega
          · exact hcut hlonger
    · rw [wrapRow_short hlong] at h
      rw [← Option.some.inj h]
      exact iff_of_true hself fun _ => Or.inl (by omega)
  · rw [if_neg hwraps] at h
    rw [← Option.some.inj h]
    exact iff_of_true hself fun hyes => absurd hyes hwraps

/-! ## The lines -/

theorem columnString_eq {width : ℤ} {column : GoString} (h : columnLength t column ≤ width) :
    columnString t width column =
      some (column ++ List.replicate (width - columnLength t column).toNat space) := by
  rw [columnString, blanks?, if_neg (by omega)]
  rfl

/-- Rows that fit the widths have lines. -/
theorem exists_line {widths : ℤ × ℤ} {row : Row} (hfirst : columnLength t row.1 ≤ widths.1)
    (hsecond : columnLength t row.2 ≤ widths.2) (ri : ℕ) :
    p.line t widths ri row = some (p.styled t ri
        (row.1 ++ List.replicate (widths.1 - columnLength t row.1).toNat space) ++
      t.style (t.separatorStyle p.separator) ++ p.styled t ri
        (row.2 ++ List.replicate (widths.2 - columnLength t row.2).toNat space)) := by
  rw [TablePrinter.line, columnString_eq hfirst, columnString_eq hsecond]
  rfl

theorem flatMap_newline {lines : List GoString} (h : lines ≠ []) :
    lines.flatMap (· ++ [newline]) = join lines [newline] ++ [newline] := by
  induction lines with
  | nil => exact absurd rfl h
  | cons line lines ih =>
    cases lines with
    | nil => simp [join]
    | cons second lines =>
      rw [List.flatMap_cons, ih (List.cons_ne_nil _ _), join, join, List.intercalate_cons_cons]
      simp

/-- The newline behind the last line is taken off. -/
theorem trimSuffix_lines (lines : List GoString) :
    FilePath.trimSuffix (lines.flatMap (· ++ [newline])) [newline] = join lines [newline] := by
  by_cases h : lines = []
  · rw [h]
    rfl
  · rw [flatMap_newline h, FilePath.trimSuffix]
    have hsuffix : hasSuffix (join lines [newline] ++ [newline]) [newline] = true := by
      rw [hasSuffix, List.isSuffixOf_iff_suffix]
      exact List.suffix_append _ _
    rw [if_pos hsuffix, List.length_append, Nat.add_sub_cancel, List.take_left]

theorem exists_groups {left : ℤ} (hleft : 1 ≤ left) (data : List Row) :
    ∃ fuel groups, data.mapM (wrapRow t fuel left) = some groups := by
  refine Fallible.exists_mapM ?_ ?_
  · intro m n row group hle h
    exact wrapRow_stable h hle
  · intro row _
    obtain ⟨fuel, group, hwrap, -⟩ := exists_wrapRow hleft row
    exact ⟨fuel, group, hwrap⟩

/-- A part of a row fits the width of the first column and what is left for the second. -/
theorem PartOf.fits (hlength : ∀ s, (t.removeColor s).length ≤ s.length) {left : ℤ}
    {data : List Row} {row r : Row} (h : PartOf t left row r) (hrow : row ∈ data) :
    columnLength t r.1 ≤ (maxColumnWidth t data).1 ∧ (columnLength t r.2 : ℤ) ≤ left := by
  constructor
  · rcases h.first with hfirst | hfirst
    · rw [hfirst]
      exact (le_maxColumnWidth hrow).1
    · have hempty := hlength r.1
      rw [hfirst, List.length_nil] at hempty
      rw [hfirst, columnLength]
      omega
  · rcases h.second with ⟨rfl, hle⟩ | hle
    · exact hle
    · have hvisible := hlength r.2
      rw [columnLength]
      omega

/-- The rows that are printed fit the widths, and are made of the table. -/
theorem exists_printed (hlength : ∀ s, (t.removeColor s).length ≤ s.length) (p : TablePrinter) :
    ∃ fuel groups widths, p.data.mapM (p.printedFor t fuel) = some groups ∧
      p.printed t fuel = some (groups.flatten, widths) ∧
      (∀ r ∈ groups.flatten, columnLength t r.1 ≤ widths.1 ∧ columnLength t r.2 ≤ widths.2 ∧
        ∃ row ∈ p.data, (r.1 = row.1 ∨ r.1 = []) ∧
          ∀ b ∈ r.2, b ∈ row.2 ∨ b ∈ t.removeColor row.2) ∧
      (p.wraps t → widths.2 = p.left t) := by
  by_cases hwraps : p.wraps t
  · obtain ⟨fuel, groups, hgroups⟩ := exists_groups (t := t) (left_pos t p) p.data
    have hfor : p.printedFor t fuel = wrapRow t fuel (p.left t) := by
      funext row
      exact if_pos hwraps
    refine ⟨fuel, groups, ((maxColumnWidth t p.data).1, p.left t), ?_, ?_, ?_, fun _ => rfl⟩
    · rw [hfor]
      exact hgroups
    · rw [TablePrinter.printed, if_pos hwraps, hgroups]
      rfl
    · intro r hr
      obtain ⟨group, hgroup, hr⟩ := List.mem_flatten.mp hr
      obtain ⟨row, hrow, hwrap⟩ :=
        Fallible.exists_mem_left (Fallible.mapM_eq_some_iff.mp hgroups) hgroup
      obtain ⟨fuel', group', hwrap', hparts⟩ := exists_wrapRow (t := t) (left_pos t p) row
      rw [← wrapRow_unique hwrap hwrap'] at hparts
      have hpart := hparts r hr
      obtain ⟨hfirst, hsecond⟩ := hpart.fits hlength hrow
      exact ⟨Int.ofNat_le.mpr hfirst, hsecond, row, hrow, hpart.first, hpart.bytes⟩
  · have hfor : p.printedFor t 0 = fun row => some [row] := by
      funext row
      exact if_neg hwraps
    refine ⟨0, p.data.map fun row => [row],
      ((maxColumnWidth t p.data).1, (maxColumnWidth t p.data).2), ?_, ?_, ?_,
      fun hyes => absurd hyes hwraps⟩
    · rw [hfor, Fallible.mapM_eq_some_iff, List.forall₂_map_right_iff, List.forall₂_same]
      exact fun _ _ => rfl
    · rw [TablePrinter.printed, if_neg hwraps, ← List.flatMap_def, List.flatMap_singleton']
    · intro row hrow
      rw [← List.flatMap_def, List.flatMap_singleton'] at hrow
      obtain ⟨hfirst, hsecond⟩ := le_maxColumnWidth (t := t) hrow
      exact ⟨Int.ofNat_le.mpr hfirst, Int.ofNat_le.mpr hsecond, row, hrow, Or.inl rfl,
        fun b hb => Or.inl hb⟩

variable (t) in
/-- A row of the output: it fits the widths, is made of a row of the table and has a line. -/
structure Printed (p : TablePrinter) (widths : ℤ × ℤ) (r : Row × ℕ) (line : GoString) : Prop where
  first : columnLength t r.1.1 ≤ widths.1
  second : columnLength t r.1.2 ≤ widths.2
  source : ∃ row ∈ p.data, (r.1.1 = row.1 ∨ r.1.1 = []) ∧
    ∀ b ∈ r.1.2, b ∈ row.2 ∨ b ∈ t.removeColor row.2
  line : p.line t widths r.2 r.1 = some line

/-- The text of the rows that are printed. -/
theorem exists_srender (hlength : ∀ s, (t.removeColor s).length ≤ s.length) (p : TablePrinter) :
    ∃ fuel groups widths, p.data.mapM (p.printedFor t fuel) = some groups ∧
      p.printed t fuel = some (groups.flatten, widths) ∧
      (p.wraps t → widths.2 = p.left t) ∧
      ∃ lines : List GoString, p.srender t fuel = some (join lines [newline]) ∧
        List.Forall₂ (Printed t p widths) groups.flatten.zipIdx lines := by
  obtain ⟨fuel, groups, widths, hgroups, hprinted, hfit, hleft⟩ := exists_printed hlength p
  have hlines : ∀ r ∈ groups.flatten.zipIdx, (p.line t widths r.2 r.1).isSome := by
    intro r hr
    obtain ⟨hfirst, hsecond, -⟩ := hfit r.1 (List.fst_mem_of_mem_zipIdx hr)
    rw [exists_line hfirst hsecond]
    rfl
  obtain ⟨lines, hmap⟩ : ∃ lines,
      groups.flatten.zipIdx.mapM (fun row => p.line t widths row.2 row.1) = some lines :=
    ⟨_, Fallible.mapM_of_forall hlines⟩
  refine ⟨fuel, groups, widths, hgroups, hprinted, hleft, lines, ?_, ?_⟩
  · rw [TablePrinter.srender, hprinted]
    dsimp only [Option.bind_eq_bind, Option.bind_some]
    rw [hmap, Option.bind_some, trimSuffix_lines]
  · have hall := (List.forall₂_and_left (p := fun r => r ∈ groups.flatten.zipIdx) _ _).mpr
      ⟨fun _ h => h, Fallible.mapM_eq_some_iff.mp hmap⟩
    refine hall.imp ?_
    rintro r line ⟨hr, hline⟩
    obtain ⟨hfirst, hsecond, hsource⟩ := hfit r.1 (List.fst_mem_of_mem_zipIdx hr)
    exact ⟨hfirst, hsecond, hsource, hline⟩

/-! ## What is lost -/

theorem keeps_of_losesNothing (h : LosesNothing t p) (hwraps : p.wraps t) :
    ∀ row ∈ p.data, Keeps t p row := by
  obtain ⟨fuel, out, groups, -, hgroups, -, hshows⟩ := h
  have hboth := Fallible.mapM_eq_some_iff.mp hgroups
  intro row hrow
  have hpair : List.Forall₂ (fun row group => p.printedFor t fuel row = some group ∧
      Shows row group) p.data groups :=
    List.forall₂_iff_zip.mpr ⟨hboth.length_eq, fun hmem =>
      ⟨List.forall₂_zip hboth hmem, List.forall₂_zip hshows hmem⟩⟩
  obtain ⟨group, -, hgroup, hshow⟩ := Fallible.exists_mem_right hpair hrow
  exact (shows_iff hgroup).mp hshow hwraps

theorem losesNothing_of_keeps (hlength : ∀ s, (t.removeColor s).length ≤ s.length)
    (h : p.wraps t → ∀ row ∈ p.data, Keeps t p row) : LosesNothing t p := by
  obtain ⟨fuel, groups, widths, hgroups, -, -, lines, hout, hlines⟩ := exists_srender hlength p
  refine ⟨fuel, _, groups, hout, hgroups, ⟨lines, ?_, rfl⟩, ?_⟩
  · refine hlines.imp ?_
    intro row line hprinted
    have hline := hprinted.line
    rw [exists_line hprinted.first hprinted.second] at hline
    exact ⟨_, _, (Option.some.inj hline).symm⟩
  · have hall : List.Forall₂ (fun row group => row ∈ p.data ∧
        p.printedFor t fuel row = some group) p.data groups :=
      (List.forall₂_and_left _ _).mpr ⟨fun row hrow => hrow, Fallible.mapM_eq_some_iff.mp hgroups⟩
    refine hall.imp ?_
    intro row group hgroup
    exact (shows_iff hgroup.2).mpr fun hwraps => h hwraps row hgroup.1

/-- The table loses nothing exactly if each row that is wrapped keeps its cells. -/
theorem losesNothing_iff (t : Pterm) (hlength : ∀ s, (t.removeColor s).length ≤ s.length)
    (p : TablePrinter) :
    LosesNothing t p ↔ (p.wraps t → ∀ row ∈ p.data, Keeps t p row) :=
  ⟨keeps_of_losesNothing, losesNothing_of_keeps hlength⟩

end Srender

/-- A terminal without colours. -/
def plain : Pterm := ⟨id, id, id, id, id⟩

/-- Values that are too wide for an ordinary terminal, one with blanks around it. -/
def wideEntries : List Row :=
  [(str "k", List.replicate 70 120),
    (str "longer key", space :: (List.replicate 70 120 ++ [space]))]

/-- The table is wrapped, and each row is there. -/
theorem losesNothing_plain :
    (resultTable plain 80 8085 true (str "1s") wideEntries).wraps plain ∧
      LosesNothing plain (resultTable plain 80 8085 true (str "1s") wideEntries) := by
  refine ⟨by decide, ?_⟩
  refine (losesNothing_iff plain (fun s => Nat.le_refl s.length) _).mpr fun _ => ?_
  unfold Keeps
  decide

/-- A value that is short but for the blanks behind it. -/
def paddedEntry : Row := (str "k", str "x" ++ List.replicate 70 space)

/-- Its row is not in the table of an ordinary terminal. -/
theorem not_losesNothing_padded :
    ¬ LosesNothing plain (resultTable plain 80 8085 true (str "1s") [paddedEntry]) := by
  intro h
  have hkeeps := keeps_of_losesNothing h (by decide) paddedEntry (by decide)
  revert hkeeps
  unfold Keeps
  decide

/-! ## Lines of one length -/

section WellFormed

variable (t : Pterm) (p : TablePrinter)

/-- What is seen of a text. -/
def visible (s : GoString) : ℕ := (t.removeColor s).length

/-- Colours are taken away and styles add nothing that is seen, and no newline. -/
structure Invisible (separator : GoString) : Prop where
  removed : ∀ s, visible t s ≤ s.length
  padded : ∀ s n, visible t (s ++ List.replicate n space) = visible t s + n
  line : ∀ a b, visible t (t.style a ++ t.style (t.separatorStyle separator) ++ t.style b) =
    visible t a + visible t separator + visible t b
  header : ∀ a b, visible t (t.style (t.headerStyle a) ++
      t.style (t.separatorStyle separator) ++ t.style (t.headerStyle b)) =
    visible t a + visible t separator + visible t b
  noNewline : ∀ s, newline ∉ s → newline ∉ t.removeColor s ∧ newline ∉ t.style s ∧
    newline ∉ t.separatorStyle s ∧ newline ∉ t.headerStyle s
  separator : newline ∉ separator

/-- The table is printed, all its lines look equally long, and where it is wrapped no second cell is
longer than what is left for it. -/
def WellFormed : Prop :=
  ∃ fuel out data widths, p.srender t fuel = some out ∧ p.printed t fuel = some (data, widths) ∧
    (∀ line ∈ split out newline, ∀ line' ∈ split out newline,
      visible t line = visible t line') ∧
    (p.wraps t → ∀ row ∈ data, visible t row.2 ≤ p.left t)

variable {t p}

/-- A line is as long as the widths and the separator. -/
theorem visible_line (h : Invisible t p.separator) {widths : ℤ × ℤ} {row : Row} {ri : ℕ}
    (hfirst : columnLength t row.1 ≤ widths.1) (hsecond : columnLength t row.2 ≤ widths.2)
    {line : GoString} (hline : p.line t widths ri row = some line) :
    (visible t line : ℤ) = widths.1 + visible t p.separator + widths.2 := by
  rw [exists_line hfirst hsecond] at hline
  rw [← Option.some.inj hline]
  have hcell (width : ℤ) (column : GoString) (hle : columnLength t column ≤ width) :
      (visible t (column ++ List.replicate (width - columnLength t column).toNat space) : ℤ) =
        width := by
    rw [h.padded]
    unfold columnLength visible at *
    omega
  unfold TablePrinter.styled
  split
  · rw [h.header]
    push_cast
    rw [hcell _ _ hfirst, hcell _ _ hsecond]
  · rw [h.line]
    push_cast
    rw [hcell _ _ hfirst, hcell _ _ hsecond]

theorem newline_not_mem_line (h : Invisible t p.separator) {widths : ℤ × ℤ} {row : Row} {ri : ℕ}
    (hfirst : columnLength t row.1 ≤ widths.1) (hsecond : columnLength t row.2 ≤ widths.2)
    (hcells : newline ∉ row.1 ∧ newline ∉ row.2) {line : GoString}
    (hline : p.line t widths ri row = some line) : newline ∉ line := by
  rw [exists_line hfirst hsecond] at hline
  rw [← Option.some.inj hline]
  have hpadded (column : GoString) (n : ℕ) (hcolumn : newline ∉ column) :
      newline ∉ p.styled t ri (column ++ List.replicate n space) := by
    have hcell : newline ∉ column ++ List.replicate n space := by
      rw [List.mem_append, not_or]
      refine ⟨hcolumn, fun hmem => ?_⟩
      exact absurd (List.eq_of_mem_replicate hmem) (by decide)
    unfold TablePrinter.styled
    split
    · exact (h.noNewline _ (h.noNewline _ hcell).2.2.2).2.1
    · exact (h.noNewline _ hcell).2.1
  have hseparator : newline ∉ t.style (t.separatorStyle p.separator) :=
    (h.noNewline _ (h.noNewline _ h.separator).2.2.1).2.1
  simp only [List.mem_append, not_or]
  exact ⟨⟨hpadded _ _ hcells.1, hseparator⟩, hpadded _ _ hcells.2⟩

/-- The lines of the text are those of the rows. -/
theorem mem_split_join {lines : List GoString} (hlines : ∀ line ∈ lines, newline ∉ line)
    {line : GoString} (hline : line ∈ split (join lines [newline]) newline) :
    line ∈ lines ∨ lines = [] ∧ line = [] := by
  by_cases hnil : lines = []
  · subst hnil
    exact Or.inr ⟨rfl, List.mem_singleton.mp hline⟩
  · have hsplit : split (join lines [newline]) newline = lines :=
      List.splitOn_intercalate newline hlines hnil
    exact Or.inl (hsplit ▸ hline)

/-- The table is well formed whatever its cells and the width of the terminal are. -/
theorem wellFormed (t : Pterm) (p : TablePrinter) (h : Invisible t p.separator)
    (hcells : ∀ row ∈ p.data, newline ∉ row.1 ∧ newline ∉ row.2) : WellFormed t p := by
  obtain ⟨fuel, groups, widths, -, hprinted, hleft, lines, hout, hlines⟩ :=
    exists_srender h.removed p
  have hline : ∀ line ∈ lines, newline ∉ line ∧
      (visible t line : ℤ) = widths.1 + visible t p.separator + widths.2 := by
    intro line hline
    obtain ⟨r, -, hr⟩ := Fallible.exists_mem_left hlines hline
    refine ⟨?_, visible_line h hr.first hr.second hr.line⟩
    obtain ⟨row, hrow, hfirst, hbytes⟩ := hr.source
    obtain ⟨hcell, hcell'⟩ := hcells row hrow
    refine newline_not_mem_line h hr.first hr.second ⟨?_, ?_⟩ hr.line
    · rcases hfirst with hfirst | hfirst
      · exact hfirst ▸ hcell
      · exact hfirst ▸ List.not_mem_nil
    · intro hmem
      exact (hbytes _ hmem).elim hcell' (h.noNewline _ hcell').1
  refine ⟨fuel, _, groups.flatten, widths, hout, hprinted, ?_, ?_⟩
  · intro line hmem line' hmem'
    have hnewline : ∀ line ∈ lines, newline ∉ line := fun line hline' => (hline line hline').1
    rcases mem_split_join hnewline hmem with hmem | ⟨hnil, rfl⟩
    · rcases mem_split_join hnewline hmem' with hmem' | ⟨hnil, -⟩
      · have hlength := (hline line hmem).2
        have hlength' := (hline line' hmem').2
        omega
      · exact absurd (hnil ▸ hmem) List.not_mem_nil
    · rcases mem_split_join hnewline hmem' with hmem' | ⟨-, rfl⟩
      · exact absurd (hnil ▸ hmem') List.not_mem_nil
      · rfl
  · intro hwraps row hrow
    obtain ⟨k, hk⟩ := List.mem_iff_getElem?.mp hrow
    have hidx : (row, k) ∈ groups.flatten.zipIdx := List.mk_mem_zipIdx_iff_getElem?.mpr hk
    obtain ⟨line, -, hr⟩ := Fallible.exists_mem_right hlines hidx
    rw [← hleft hwraps]
    exact hr.second

end WellFormed

theorem invisible_plain : Invisible plain (str " | ") where
  removed s := Nat.le_refl s.length
  padded s n := by simp [visible, plain]
  line a b := by simp [visible, plain, Nat.add_assoc]
  header a b := by simp [visible, plain, Nat.add_assoc]
  noNewline s h := ⟨h, h, h, h⟩
  separator := by decide

/-- A terminal without columns and a value that is wrapped. -/
theorem wellFormed_zero :
    Invisible plain (str " | ") ∧
      WellFormed plain (resultTable plain 0 8085 true (str "1s") [(str "k", str "0123456789ab")]) :=
  ⟨invisible_plain, wellFormed plain _ invisible_plain (by decide)⟩

end YcAgent.Agent.Printer
