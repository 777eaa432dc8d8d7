import YcAgent.Base.Split

/-!
# Tables of text

A row is its fields with a separator between them, and a text is rows that each end in a
separator of their own. A document has several tables, each under a heading, and a row that
is a mark stands between two of them. Nothing is quoted: a document can be read back when the
fields are free of both separators, and not otherwise.
-/
namespace Text

section Rows

variable {α : Type*} [BEq α] [LawfulBEq α]

/-- Rows, each with its end. -/
def ended (nl : α) (rows : List (List α)) : List α := rows.flatMap (· ++ [nl])

/-- The rows of a text in which each has its end. -/
def rowsOf (nl : α) (s : List α) : List (List α) := (s.splitOn nl).dropLast

omit [BEq α] [LawfulBEq α] in
theorem ended_cons (nl : α) (row : List α) (rows : List (List α)) :
    ended nl (row :: rows) = row ++ nl :: ended nl rows := by
  rw [ended, List.flatMap_cons, List.append_assoc]
  rfl

omit [BEq α] [LawfulBEq α] in
theorem ended_append (nl : α) (rows rows' : List (List α)) :
    ended nl (rows ++ rows') = ended nl rows ++ ended nl rows' :=
  List.flatMap_append

theorem rowsOf_ended {nl : α} {rows : List (List α)} (h : ∀ row ∈ rows, nl ∉ row) :
    rowsOf nl (ended nl rows) = rows := by
  induction rows with
  | nil => rfl
  | cons row rows ih =>
    have hrow : nl ∉ row := h row List.mem_cons_self
    have hrows := ih fun row hrow => h row (List.mem_cons_of_mem _ hrow)
    unfold rowsOf at hrows ⊢
    rw [ended_cons, List.splitOn_append_cons_self_of_not_mem hrow,
      List.dropLast_cons_of_ne_nil (List.splitOn_ne_nil _ _), hrows]

theorem not_mem_of_mem_rowsOf {nl : α} {s row : List α} (h : row ∈ rowsOf nl s) : nl ∉ row :=
  not_mem_of_mem_splitOn (List.dropLast_subset _ h)

theorem count_ended (nl : α) (rows : List (List α)) :
    (ended nl rows).count nl = (rows.map fun row => row.count nl + 1).sum := by
  induction rows with
  | nil => rfl
  | cons row rows ih =>
    rw [ended_cons, List.count_append, List.count_cons_self, ih, List.map_cons, List.sum_cons]
    omega

end Rows

/-- A heading, and rows of fields. -/
structure Table (α : Type*) where
  heading : List α
  rows : List (List (List α))

namespace Table

variable {α : Type*} [BEq α] [LawfulBEq α] (nl sep : α) (mark : List α)

def lines (t : Table α) : List (List α) := t.heading :: t.rows.map [sep].intercalate

def render (tables : List (Table α)) : List α :=
  ended nl ([mark].intercalate (tables.map (lines sep)))

/-- The rows of fields under the headings between the marks. -/
def parse (s : List α) : List (List (List (List α))) :=
  ((rowsOf nl s).splitOn mark).map fun part => part.tail.map (List.splitOn sep)

variable {nl sep} in
/-- The line separators of a table: one for every line, and those in its texts. -/
theorem sum_count_lines (hsep : nl ≠ sep) (t : Table α) :
    ((t.lines sep).map fun line => line.count nl + 1).sum =
      t.heading.count nl + 1 + (t.rows.map fun row => (row.map (List.count nl)).sum + 1).sum := by
  rw [lines, List.map_cons, List.sum_cons, List.map_map]
  refine congrArg (fun counts => _ + List.sum counts) (List.map_congr_left fun row _ => ?_)
  exact congrArg (· + 1) (count_intercalate hsep row)

/-- What a format of tables promises: no separator can be taken for another, and every row is
more than one field. -/
structure WellFormed (tables : List (Table α)) : Prop where
  separators : nl ≠ sep
  mark_nl : nl ∉ mark
  mark_sep : sep ∉ mark
  nonempty : tables ≠ []
  heading_nl : ∀ t ∈ tables, nl ∉ t.heading
  heading_mark : ∀ t ∈ tables, t.heading ≠ mark
  fields : ∀ t ∈ tables, ∀ row ∈ t.rows, 2 ≤ row.length

/-- A field that nothing has to be done for. -/
def PlainField (field : List α) : Prop := nl ∉ field ∧ sep ∉ field

instance (field : List α) : Decidable (PlainField nl sep field) :=
  inferInstanceAs (Decidable (_ ∧ _))

variable {nl sep mark} {tables : List (Table α)}

omit [BEq α] [LawfulBEq α] in
theorem not_mem_of_mem_lines (h : WellFormed nl sep mark tables)
    (hplain : ∀ t ∈ tables, ∀ row ∈ t.rows, ∀ field ∈ row, PlainField nl sep field)
    {t : Table α} (ht : t ∈ tables) {line : List α} (hline : line ∈ t.lines sep) : nl ∉ line := by
  rcases List.mem_cons.mp hline with rfl | hline
  · exact h.heading_nl t ht
  · obtain ⟨row, hrow, rfl⟩ := List.mem_map.mp hline
    intro hnl
    rcases mem_intercalate hnl with heq | ⟨field, hfield, hmem⟩
    · exact h.separators (List.mem_singleton.mp heq)
    · exact (hplain t ht row hrow field hfield).1 hmem

omit [BEq α] [LawfulBEq α] in
theorem mark_not_mem_lines (h : WellFormed nl sep mark tables) {t : Table α} (ht : t ∈ tables) :
    mark ∉ t.lines sep := by
  intro hmark
  rcases List.mem_cons.mp hmark with heq | hmark
  · exact h.heading_mark t ht heq.symm
  · obtain ⟨row, hrow, hline⟩ := List.mem_map.mp hmark
    have hsep : sep ∈ [sep].intercalate row := mem_intercalate_of_two_le (h.fields t ht row hrow)
    rw [hline] at hsep
    exact h.mark_sep hsep

theorem tail_lines_fields (h : WellFormed nl sep mark tables)
    (hplain : ∀ t ∈ tables, ∀ row ∈ t.rows, ∀ field ∈ row, PlainField nl sep field)
    {t : Table α} (ht : t ∈ tables) :
    (t.lines sep).tail.map (List.splitOn sep) = t.rows := by
  rw [lines, List.tail_cons, List.map_map]
  conv_rhs => rw [← List.map_id t.rows]
  refine List.map_congr_left fun row hrow => ?_
  have hne : row ≠ [] := by
    rintro rfl
    exact absurd (h.fields t ht [] hrow) (Nat.not_succ_le_zero 1)
  exact List.splitOn_intercalate sep (fun field hfield => (hplain t ht row hrow field hfield).2) hne

theorem parse_render (h : WellFormed nl sep mark tables)
    (hplain : ∀ t ∈ tables, ∀ row ∈ t.rows, ∀ field ∈ row, PlainField nl sep field) :
    parse nl sep mark (render nl sep mark tables) = tables.map rows := by
  have hlines : ∀ line ∈ [mark].intercalate (tables.map (lines sep)), nl ∉ line := by
    intro line hline
    rcases mem_intercalate hline with heq | ⟨part, hmem, hline⟩
    · rw [List.mem_singleton.mp heq]
      exact h.mark_nl
    · obtain ⟨t, ht, rfl⟩ := List.mem_map.mp hmem
      exact not_mem_of_mem_lines h hplain ht hline
  have hmarks : ∀ part ∈ tables.map (lines sep), mark ∉ part := by
    intro part hmem
    obtain ⟨t, ht, rfl⟩ := List.mem_map.mp hmem
    exact mark_not_mem_lines h ht
  have hne : tables.map (lines sep) ≠ [] := mt List.map_eq_nil_iff.mp h.nonempty
  rw [parse, render, rowsOf_ended hlines, List.splitOn_intercalate mark hmarks hne, List.map_map]
  exact List.map_congr_left fun t ht => tail_lines_fields h hplain ht

/-- Whatever a text is, a field that is read from it has no separator. -/
theorem plain_of_mem_parse {s : List α} {rows : List (List (List α))}
    (hrows : rows ∈ parse nl sep mark s) {row : List (List α)} (hrow : row ∈ rows)
    {field : List α} (hfield : field ∈ row) : PlainField nl sep field := by
  obtain ⟨part, hpart, rfl⟩ := List.mem_map.mp hrows
  obtain ⟨line, hline, rfl⟩ := List.mem_map.mp hrow
  have hmem : line ∈ rowsOf nl s := (sublist_of_mem_splitOn hpart).mem (List.mem_of_mem_tail hline)
  exact ⟨fun hnl => not_mem_of_mem_rowsOf hmem ((sublist_of_mem_splitOn hfield).mem hnl),
    not_mem_of_mem_splitOn hfield⟩

/-- A document can be read back exactly when its fields are free of separators. -/
theorem parse_render_iff (h : WellFormed nl sep mark tables) :
    parse nl sep mark (render nl sep mark tables) = tables.map rows ↔
      ∀ t ∈ tables, ∀ row ∈ t.rows, ∀ field ∈ row, PlainField nl sep field := by
  refine ⟨fun hparse t ht row hrow field hfield => ?_, parse_render h⟩
  have hrows : t.rows ∈ parse nl sep mark (render nl sep mark tables) := by
    rw [hparse]
    exact List.mem_map.mpr ⟨t, ht, rfl⟩
  exact plain_of_mem_parse hrows hrow hfield

end Table

end Text
