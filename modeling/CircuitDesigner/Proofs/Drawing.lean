import CircuitDesigner.Circuit.Snapshot
import CircuitDesigner.Drawing
import CircuitDesigner.Proofs.Text.Lines

/-! Where things stand in a drawing.

    Labels are flush right and cells have one width, whatever they hold and even where a wire has none. So there is a
    line for each wire, and a column starts on it at an offset that depends on the column and on the length of the ket
    alone. A ket takes as much room as it needs: a drawing lines up exactly if its kets are of one length
    (`linesUp_iff_kets`). -/

namespace CircuitDesigner.Drawing

variable {K : Type}

/-! ### Widths -/

theorem length_le_greatest {text : String} {texts : List String} (h : text ∈ texts) : text.length ≤ greatest texts := by
  induction texts with
  | nil => exact absurd h List.not_mem_nil
  | cons first texts ih =>
    have hgreatest : greatest (first :: texts) = max first.length (greatest texts) := rfl
    rw [hgreatest]
    rcases List.mem_cons.mp h with rfl | h
    · exact Nat.le_max_left _ _
    · exact (ih h).trans (Nat.le_max_right _ _)

theorem length_padLeft_greatest {text : String} {texts : List String} (h : text ∈ texts) :
    (Text.padLeft (greatest texts) text).length = greatest texts := by
  have hle := length_le_greatest h
  simp only [Text.padLeft, String.length_append, String.length_ofList, List.length_replicate]
  omega

theorem length_centered {symbol : String} {width : Nat} (h : symbol.length ≤ width) (wire : Char) :
    (centered symbol width wire).length = width := by
  simp only [centered, List.length_append, List.length_replicate, String.length_toList]
  omega

/-- A symbol that does not fill its cell has a stretch of wire after it. -/
theorem getLast?_centered {symbol : String} {width : Nat} (h : symbol.length < width) (wire : Char) :
    (centered symbol width wire).getLast? = some wire := by
  obtain ⟨right, hright⟩ := Nat.exists_eq_succ_of_ne_zero
    (show width - (symbol.length + (width - symbol.length) / 2) ≠ 0 by omega)
  simp only [centered, hright, List.replicate_succ', ← List.append_assoc, List.getLast?_append, List.getLast?_singleton,
    Option.some_or]

theorem mem_centered {symbol : String} {width : Nat} {wire x : Char} (h : x ∈ centered symbol width wire) :
    x = wire ∨ x ∈ symbol.toList := by
  simp only [centered, List.mem_append, List.mem_replicate] at h
  rcases h with (⟨-, hleft⟩ | hsymbol) | ⟨-, hright⟩
  · exact .inl hleft
  · exact .inr hsymbol
  · exact .inl hright

/-! ### Symbols and headings -/

/-- The symbol that a wire has in a column; none beyond its last cell. -/
def symbolAt (catalog : Catalog) (w : Wire K) (column : Nat) : String := ((symbols catalog w)[column]?).getD ""

theorem symbolAt_mem_or (catalog : Catalog) (w : Wire K) (column : Nat) :
    symbolAt catalog w column ∈ symbols catalog w ∨ symbolAt catalog w column = "" := by
  unfold symbolAt
  cases hsymbol : (symbols catalog w)[column]? with
  | none => exact .inr rfl
  | some symbol => exact .inl (List.mem_of_getElem? hsymbol)

/-- Every symbol has room in a cell, with a stretch of wire on both sides. -/
theorem length_symbolAt_le {wires : List (Wire K)} {w : Wire K} (hw : w ∈ wires) (catalog : Catalog) (column : Nat) :
    (symbolAt catalog w column).length + 2 ≤ cellWidth catalog wires := by
  unfold cellWidth
  rcases symbolAt_mem_or catalog w column with hsymbol | hsymbol
  · have hmem : symbolAt catalog w column ∈ wires.flatMap (symbols catalog) := List.mem_flatMap.mpr ⟨w, hw, hsymbol⟩
    split
    · rename_i hnil
      exact absurd (hnil ▸ hmem) List.not_mem_nil
    · exact Nat.add_le_add_right (length_le_greatest hmem) 2
  · -- An empty cell fits in whether or not there is any symbol to take the width from.
    rw [hsymbol]
    split <;> simp

/-- The width of the labels. -/
def labelWidth (c : Circuit K) : Nat := greatest (c.wires.map Wire.label)

/-- What opens the line of a wire. -/
def heading (c : Circuit K) (w : Wire K) : String :=
  Text.padLeft (labelWidth c) w.label ++ " |" ++ w.ket.label ++ "> "

/-- Where a column starts on the line of a wire with that ket: after the label, the ket in its brackets, two blanks and
    the columns before it. -/
def columnStart (c : Circuit K) (ket : Ket) (column : Nat) : Nat :=
  labelWidth c + 4 + ket.label.length + column * cellWidth c.catalog c.wires

/-- Labels and symbols of the circuit have no line feed. -/
structure NoBreaks (c : Circuit K) : Prop where
  labels : ∀ w ∈ c.wires, '\n' ∉ w.label.toList
  symbols : ∀ w ∈ c.wires, ∀ g ∈ w.cells, '\n' ∉ (symbol c.catalog g).toList

variable {c : Circuit K} {w : Wire K}

theorem length_heading (hw : w ∈ c.wires) : (heading c w).length = columnStart c w.ket 0 := by
  have hlabel : (Text.padLeft (labelWidth c) w.label).length = labelWidth c :=
    length_padLeft_greatest (List.mem_map_of_mem hw)
  have hbar : " |".length = 2 := by decide
  have hbracket : "> ".length = 2 := by decide
  simp only [heading, columnStart, String.length_append, hlabel, hbar, hbracket]
  omega

theorem NoBreaks.symbolAt (h : NoBreaks c) (hw : w ∈ c.wires) (column : Nat) :
    '\n' ∉ (symbolAt c.catalog w column).toList := by
  rcases symbolAt_mem_or c.catalog w column with hsymbol | hsymbol
  · obtain ⟨g, hg, heq⟩ := List.mem_map.mp hsymbol
    exact heq ▸ h.symbols w hw g hg
  · rw [hsymbol]
    decide

theorem NoBreaks.heading (h : NoBreaks c) (hw : w ∈ c.wires) : '\n' ∉ (heading c w).toList := by
  have hket : '\n' ∉ w.ket.label.toList := by cases w.ket <;> decide
  have hbar : '\n' ∉ " |".toList := by decide
  have hbracket : '\n' ∉ "> ".toList := by decide
  simp only [Drawing.heading, Text.padLeft, String.toList_append, String.toList_ofList, List.mem_append,
    List.mem_replicate, not_or]
  exact ⟨⟨⟨⟨fun hspace => absurd hspace.2 (by decide), h.labels w hw⟩, hbar⟩, hket⟩, hbracket⟩

/-! ### Lines -/

variable [Coordinate K]

theorem stroke_ne_feed (classical : Bool) : stroke classical ≠ '\n' := by cases classical <;> decide

theorem stroke_ne_return (classical : Bool) : stroke classical ≠ '\r' := by cases classical <;> decide

/-- The cell of a wire in a column. -/
def cellText (c : Circuit K) (w : Wire K) (column : Nat) : List Char :=
  centered (symbolAt c.catalog w column) (cellWidth c.catalog c.wires) (stroke (w.bitAt column))

/-- What stands on the line of a wire before a column: the heading and the cells of the columns before it. -/
def opening (c : Circuit K) (w : Wire K) (column : Nat) : List Char :=
  (heading c w).toList ++ (List.range column).flatMap (cellText c w)

/-- The line of a wire in the drawing of a circuit. -/
def lineOf (c : Circuit K) (w : Wire K) : String :=
  line c.catalog (labelWidth c) (cellWidth c.catalog c.wires) c.columns w

theorem opening_succ (column : Nat) : opening c w (column + 1) = opening c w column ++ cellText c w column := by
  simp only [opening, List.range_succ, List.flatMap_append, List.flatMap_singleton, List.append_assoc]

theorem toList_lineOf : (lineOf c w).toList = opening c w c.columns := by
  simp only [lineOf, line, opening, heading, String.toList_append, String.toList_ofList]
  rfl

/-- The cell of a column follows on what stands before the column. -/
theorem exists_toList_lineOf {column : Nat} (h : column < c.columns) :
    ∃ rest, (lineOf c w).toList = opening c w column ++ cellText c w column ++ rest := by
  -- The columns after this one are a range that starts behind it.
  obtain ⟨later, hlater⟩ := Nat.exists_eq_add_of_le (Nat.succ_le_of_lt h)
  refine ⟨((List.range later).map fun k => column.succ + k).flatMap (cellText c w), ?_⟩
  rw [toList_lineOf, ← opening_succ, hlater, opening, List.range_add, List.flatMap_append, ← List.append_assoc]
  rfl

theorem length_cellText (hw : w ∈ c.wires) (column : Nat) :
    (cellText c w column).length = cellWidth c.catalog c.wires := by
  have hroom := length_symbolAt_le hw c.catalog column
  exact length_centered (by omega) _

theorem length_opening (hw : w ∈ c.wires) (column : Nat) :
    (opening c w column).length = columnStart c w.ket column := by
  induction column with
  | zero =>
    rw [← length_heading hw, opening, List.range_zero, List.flatMap_nil, List.append_nil, String.length_toList]
  | succ column ih =>
    rw [opening_succ, List.length_append, ih, length_cellText hw]
    simp only [columnStart, Nat.succ_mul]
    omega

theorem length_lineOf (hw : w ∈ c.wires) : (lineOf c w).length = columnStart c w.ket c.columns := by
  rw [← String.length_toList, toList_lineOf, length_opening hw]

theorem NoBreaks.lineOf (h : NoBreaks c) (hw : w ∈ c.wires) : '\n' ∉ (lineOf c w).toList := by
  rw [toList_lineOf, opening, List.mem_append, List.mem_flatMap]
  rintro (hheading | ⟨column, -, hcell⟩)
  · exact h.heading hw hheading
  · rcases mem_centered hcell with hstroke | hsymbol
    · exact stroke_ne_feed _ hstroke.symm
    · exact h.symbolAt hw column hsymbol

/-- A line ends in the blank after the ket or in a stretch of wire, even if a symbol ends in a carriage return. -/
theorem getLast?_lineOf_ne (hw : w ∈ c.wires) : (lineOf c w).toList.getLast? ≠ some '\r' := by
  rw [toList_lineOf]
  cases c.columns with
  | zero =>
    have hbracket : "> ".toList.getLast? = some ' ' := by decide
    rw [opening, List.range_zero, List.flatMap_nil, List.append_nil, heading, String.toList_append,
      List.getLast?_append, hbracket, Option.some_or]
    decide
  | succ column =>
    have hroom := length_symbolAt_le hw c.catalog column
    have hcell : (cellText c w column).getLast? = some (stroke (w.bitAt column)) := getLast?_centered (by omega) _
    rw [opening_succ, List.getLast?_append, hcell, Option.some_or]
    exact fun heq => stroke_ne_return _ (Option.some.inj heq)

/-- The drawing consists of the lines of the wires. -/
theorem NoBreaks.lines_render (h : NoBreaks c) : Text.lines (render c) = c.wires.map (Drawing.lineOf c) := by
  have hrender : render c = String.join ((c.wires.map (Drawing.lineOf c)).map fun l => l ++ "\n") := by
    rw [List.map_map]
    rfl
  rw [hrender]
  refine Text.lines_join (List.forall_mem_map.mpr fun w hw => ?_) (List.forall_mem_map.mpr fun w hw => ?_)
  · exact h.lineOf hw
  · exact getLast?_lineOf_ne hw

/-! ### Alignment -/

/-- The cell of the wire in the column starts on the line at the offset: so many characters stand before it. -/
def StartsAt (c : Circuit K) (w : Wire K) (column : Nat) (l : String) (offset : Nat) : Prop :=
  ∃ rest, l.toList = opening c w column ++ cellText c w column ++ rest ∧ (opening c w column).length = offset

/-- The drawing has a line for each wire, all of one length, and each column starts at one offset on all of them. -/
structure LinesUp (c : Circuit K) : Prop where
  rows : (Text.lines (render c)).length = c.wires.length
  level : ∀ l ∈ Text.lines (render c), ∀ m ∈ Text.lines (render c), l.length = m.length
  columns : ∀ column < c.columns, ∃ offset, ∀ (row : Nat) (w : Wire K) (l : String),
    c.wires[row]? = some w → (Text.lines (render c))[row]? = some l → StartsAt c w column l offset

theorem startsAt_lineOf (hw : w ∈ c.wires) {column : Nat} (h : column < c.columns) :
    StartsAt c w column (lineOf c w) (columnStart c w.ket column) := by
  obtain ⟨rest, hrest⟩ := exists_toList_lineOf h
  exact ⟨rest, hrest, length_opening hw column⟩

/-- What is drawn for a wire: its line, which ends where one more column would start. -/
structure Drawn (c : Circuit K) (w : Wire K) (l : String) : Prop where
  length : l.length = columnStart c w.ket c.columns
  columns : ∀ column < c.columns, StartsAt c w column l (columnStart c w.ket column)

namespace NoBreaks

theorem length_lines (h : NoBreaks c) : (Text.lines (render c)).length = c.wires.length := by
  rw [h.lines_render, List.length_map]

theorem drawn (h : NoBreaks c) {row : Nat} {l : String} (hw : c.wires[row]? = some w)
    (hl : (Text.lines (render c))[row]? = some l) : Drawn c w l := by
  have hmem : w ∈ c.wires := List.mem_of_getElem? hw
  rw [h.lines_render, List.getElem?_map, hw] at hl
  obtain rfl := Option.some.inj hl
  exact ⟨length_lineOf hmem, fun column hcolumn => startsAt_lineOf hmem hcolumn⟩

/-- Kets of one length are enough. -/
theorem linesUp (h : NoBreaks c) {n : Nat} (hkets : ∀ w ∈ c.wires, w.ket.label.length = n) : LinesUp c where
  rows := h.length_lines
  level := by
    have hlength : ∀ l ∈ Text.lines (render c),
        l.length = labelWidth c + 4 + n + c.columns * cellWidth c.catalog c.wires := by
      rw [h.lines_render, List.forall_mem_map]
      intro w hw
      rw [length_lineOf hw, columnStart, hkets w hw]
    exact fun l hl m hm => (hlength l hl).trans (hlength m hm).symm
  columns column hcolumn := by
    refine ⟨labelWidth c + 4 + n + column * cellWidth c.catalog c.wires, fun row w l hw hl => ?_⟩
    rw [← hkets w (List.mem_of_getElem? hw)]
    exact (h.drawn hw hl).columns column hcolumn

/-- Lines of one length have kets of one length. -/
theorem exists_length_ket (h : NoBreaks c)
    (hlevel : ∀ l ∈ Text.lines (render c), ∀ m ∈ Text.lines (render c), l.length = m.length) :
    ∃ n, ∀ w ∈ c.wires, w.ket.label.length = n := by
  rw [h.lines_render] at hlevel
  by_cases hnil : c.wires = []
  · exact ⟨0, by rw [hnil]; nofun⟩
  · -- All else on the line of a wire is as long as on that of any other.
    obtain ⟨v, hv⟩ := List.exists_mem_of_ne_nil _ hnil
    refine ⟨v.ket.label.length, fun w hw => ?_⟩
    have hlength := hlevel _ (List.mem_map_of_mem hw) _ (List.mem_map_of_mem hv)
    rw [length_lineOf hw, length_lineOf hv] at hlength
    simp only [columnStart] at hlength
    omega

end NoBreaks

/-- A circuit whose labels and symbols break no line is drawn with a line for each wire, on which every column starts
    at the offset of the column for kets of that length, and which ends where one more column would start. So the
    drawing lines up exactly if all kets are of one length. -/
theorem linesUp_iff_kets (c : Circuit K) (h : NoBreaks c) :
    (Text.lines (render c)).length = c.wires.length ∧
    (∀ (row : Nat) (w : Wire K) (l : String),
      c.wires[row]? = some w → (Text.lines (render c))[row]? = some l → Drawn c w l) ∧
    (LinesUp c ↔ ∃ n, ∀ w ∈ c.wires, w.ket.label.length = n) := by
  refine ⟨h.length_lines, fun row w l hw hl => h.drawn hw hl, fun hup => h.exists_length_ket hup.level, ?_⟩
  rintro ⟨n, hkets⟩
  exact h.linesUp hkets

/-- A gate with a symbol of its own on a wire with a name, a swap with a fault behind a measurement, a power and a wire
    that is shorter than the others, all with an imaginary unit in their kets. -/
def imaginaryCircuit : Circuit Rat :=
  { Circuit.ofSettings {} with
    catalog := { definitions := [{ id := "cg1", span := 2, symbol := "QFT", title := "Transform", circuit := .empty }] }
    wires :=
      [{ id := ⟨0⟩, cells := [(Gate.inertia 0).withKind (.custom "cg1" 2),
            (Gate.inertia 1).withKind (.measurement .one),
            ((Gate.inertia 2).withKind .swap).flagged (some .onBit)], name := "carry", ket := .plusI, pivot := some 1 },
        { id := ⟨1⟩, cells := [(Gate.inertia 3).withKind (.support ⟨0⟩),
            (Gate.inertia 4).withKind (.powered .z "1/2")], placeholder := "q1", ket := .minusI },
        { id := ⟨2⟩, placeholder := "q2", ket := .plusI }] }

theorem linesUp_iff_kets_imaginary :
    NoBreaks imaginaryCircuit ∧
    Text.lines (render imaginaryCircuit) =
      ["carry |+i> ──QFT────M1───══×!═══", "   q1 |-i> ───┆────Z^1/2────────", "   q2 |+i> ─────────────────────"] ∧
    LinesUp imaginaryCircuit := by
  have hbreaks : NoBreaks imaginaryCircuit := ⟨by decide +kernel, by decide +kernel⟩
  have hkets : ∀ w ∈ imaginaryCircuit.wires, w.ket.label.length = 2 := by decide
  refine ⟨hbreaks, ?_, (linesUp_iff_kets imaginaryCircuit hbreaks).2.2.mpr ⟨2, hkets⟩⟩
  rw [hbreaks.lines_render]
  rfl

/-- Two gates, the second one on a wire whose ket has an imaginary unit. -/
def unevenTemplate : Template where
  wires := [{ stamps := ["h"] }, { stamps := ["x"], ket := some .plusI }]

/-- Kets of different lengths shift the cells against each other. -/
theorem render_uneven : ∃ c, (Circuit.ofSettings {} : Circuit Rat).restore unevenTemplate .none = .ok c ∧
    NoBreaks c ∧ Text.lines (render c) = ["q0 |0> ─H─", "q1 |+i> ─X─"] ∧ ¬LinesUp c := by
  have hc : (Circuit.ofSettings {} : Circuit Rat).restore unevenTemplate .none = .ok _ := rfl
  refine ⟨_, hc, ⟨by decide +kernel, by decide +kernel⟩, ?_, fun hup => ?_⟩
  · decide +kernel
  · exact absurd hup.level (by decide +kernel)

end CircuitDesigner.Drawing
