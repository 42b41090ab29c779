import CircuitDesigner.Proofs.Grid.Labels

/-! What placing wires and gates does.

    Each operation is described four times: by the grid it shows, by the counts of gates, by the parts of the
    circuit it keeps (`Kept`) and by the wires it makes, which are old wires with gates placed (`Wire.Closed`). -/

namespace CircuitDesigner

variable {K : Type} [Coordinate K]

theorem map_modify_of_eq {α β : Type} {f : α → β} {g : α → α} (h : ∀ a, f (g a) = f a) (l : List α) (i : Nat) :
    (l.modify i g).map f = l.map f := by
  refine List.ext_getElem? fun j => ?_
  rw [List.getElem?_map, List.getElem?_map, List.getElem?_modify]
  cases l[j]? with
  | none => rfl
  | some a =>
    show Option.map f (some (if i = j then g a else a)) = some (f a)
    split
    · rw [Option.map_some, h]
    · rfl

/-! ### Wires -/

/-- A property of wires that placing and removing gates keeps, and that holds of a wire without cells. -/
structure Wire.Closed (P : Wire K → Prop) : Prop where
  blank : ∀ id : WireId, P { id }
  place : ∀ {w g column overwrite next}, P w → P (Wire.place w g column overwrite next).1
  detach : ∀ {w id next column g v next'}, P w → Wire.detach? w id next = some (column, g, v, next') → P v
  dropInertia : ∀ {w column}, P w → P (Wire.dropInertia w column)

/-- Name, ket and color of a wire. -/
def Wire.face (w : Wire K) : String × Ket × RegisterColor := (w.name, w.ket, w.color)

/-- The face of a fresh wire. -/
def blankFace : String × Ket × RegisterColor := ("", .zero, .transparent)

section Place

variable {w : Wire K} {g : Gate} {column next : Nat}

theorem Wire.face_place (w : Wire K) (g : Gate) (column : Nat) (overwrite : Bool) (next : Nat) :
    (w.place g column overwrite next).1.face = w.face := by
  unfold Wire.place
  dsimp only
  split <;> rfl

theorem Wire.le_next_place (w : Wire K) (g : Gate) (column : Nat) (overwrite : Bool) (next : Nat) :
    next ≤ (w.place g column overwrite next).2 := by
  unfold Wire.place
  dsimp only
  split
  · exact Nat.le_refl _
  · exact Nat.le_add_right _ _

theorem Wire.place_true (g : Gate) (next : Nat) (h : column < w.cells.length) :
    w.place g column true next = ({ w with cells := w.cells.set column (g.ownedBy w.id) }.rescan none, next) := by
  unfold Wire.place
  dsimp only
  rw [if_pos (by simpa using h)]

/-- The inertias that fill up a wire, `missing` of them. -/
def padding (w : WireId) (next missing : Nat) : List Gate :=
  (List.range missing).map fun i => (Gate.inertia (next + i)).ownedBy w

theorem length_padding (w : WireId) (next missing : Nat) : (padding w next missing).length = missing := by
  simp [padding]

theorem mark?_of_mem_padding {w : WireId} {missing : Nat} (h : g ∈ padding w next missing) : g.mark? = none := by
  obtain ⟨i, -, rfl⟩ := List.mem_map.mp h
  rfl

theorem countP_padding (w : WireId) (next missing : Nat) (i : GateId) :
    ((padding w next missing).countP fun g => g.id == i) = made next (next + missing) i := by
  induction missing with
  | zero =>
    rw [Nat.add_zero, made_self]
    rfl
  | succ missing ih =>
    unfold padding at ih ⊢
    rw [List.range_succ, List.map_append, List.countP_append, ih, ← Nat.add_assoc,
      ← made_add (Nat.le_add_right next missing) (Nat.le_add_right (next + missing) 1), made_succ]
    simp [itself, Gate.inertia, Gate.ownedBy, List.countP_cons]

theorem Wire.place_false (w : Wire K) (g : Gate) (column next : Nat) :
    w.place g column false next =
      ({ w with
          cells := (w.cells ++ padding w.id next (column - w.cells.length)).insertIdx column (g.ownedBy w.id) }.rescan
        none, next + (column - w.cells.length)) := by
  unfold Wire.place
  dsimp only
  rw [if_neg (by simp)]
  rfl

theorem Wire.length_place_false (w : Wire K) (g : Gate) (column next : Nat) :
    (w.place g column false next).1.cells.length = max w.cells.length column + 1 := by
  rw [Wire.place_false]
  show (List.insertIdx _ column _).length = _
  rw [List.length_insertIdx, List.length_append, length_padding]
  split <;> omega

theorem Wire.mark?_place_false (w : Wire K) (g : Gate) (column next k : Nat) :
    (w.place g column false next).1.mark? k =
      if k < column then w.mark? k else if k = column then g.mark? else w.mark? (k - 1) := by
  rw [Wire.place_false]
  rw [Wire.mark?_insertIdx (g := g.ownedBy w.id) (w.cells ++ padding w.id next (column - w.cells.length))
    (by rw [List.length_append, length_padding]; omega) rfl]
  have hcell : ∀ j, ((w.cells ++ padding w.id next (column - w.cells.length))[j]?).bind Gate.mark? = w.mark? j := by
    intro j
    rw [List.getElem?_append]
    split
    · rfl
    · rename_i hj
      rw [Wire.mark?_of_le (Nat.le_of_not_lt hj), Option.bind_eq_none_iff]
      intro h hh
      exact mark?_of_mem_padding (List.mem_of_getElem? hh)
  rw [hcell, hcell, Gate.mark?_ownedBy]

theorem Wire.mark?_place_true (g : Gate) (next k : Nat) (h : column < w.cells.length) :
    (w.place g column true next).1.mark? k = if k = column then g.mark? else w.mark? k := by
  rw [Wire.place_true g next h]
  exact Wire.mark?_set (g := g.ownedBy w.id) h rfl k

theorem Wire.uses_place_false (w : Wire K) (g : Gate) (column next : Nat) (i : GateId) :
    (w.place g column false next).1.uses i =
      w.uses i + itself g.id i + made next (w.place g column false next).2 i := by
  rw [Wire.place_false]
  show (List.insertIdx _ column _).countP _ = _
  rw [(List.perm_insertIdx _ _ (by rw [List.length_append, length_padding]; omega)).countP_eq, List.countP_cons,
    List.countP_append, countP_padding]
  simp only [Wire.uses, itself, Gate.ownedBy, beq_iff_eq]
  omega

theorem Wire.uses_place_true (g : Gate) (next : Nat) (h : column < w.cells.length) (i : GateId) :
    (w.place g column true next).1.uses i ≤ w.uses i + itself g.id i := by
  rw [Wire.place_true g next h]
  show (w.cells.set column _).countP _ ≤ _
  rw [List.countP_set h]
  simp only [Wire.uses, itself, Gate.ownedBy, beq_iff_eq]
  omega

theorem Wire.uses_place_le (w : Wire K) (g : Gate) (column : Nat) (overwrite : Bool) (next : Nat) (i : GateId) :
    (w.place g column overwrite next).1.uses i ≤
      w.uses i + itself g.id i + made next (w.place g column overwrite next).2 i := by
  by_cases h : overwrite = true ∧ column < w.cells.length
  · rw [h.1]
    exact Nat.le_trans (Wire.uses_place_true g next h.2 i) (Nat.le_add_right _ _)
  · have heq : w.place g column overwrite next = w.place g column false next := by
      unfold Wire.place
      dsimp only
      rw [if_neg (by simpa using h), if_neg (by simp)]
    exact Nat.le_of_eq (by rw [heq, Wire.uses_place_false])

end Place

/-! ### Opening a column -/

section OpenColumn

open Circuit

variable {ws : List (Wire K)} {G : Grid} {column : Nat}

theorem length_openColumn (squeeze : Bool) (column : Nat) (ws : List (Wire K)) (next : Nat) :
    (openColumn squeeze column ws next).1.length = ws.length := by
  induction ws generalizing next with
  | nil => rfl
  | cons w ws ih =>
    unfold openColumn
    split <;> simp [ih]

theorem le_next_openColumn (squeeze : Bool) (column : Nat) (ws : List (Wire K)) (next : Nat) :
    next ≤ (openColumn squeeze column ws next).2 := by
  induction ws generalizing next with
  | nil => exact Nat.le_refl _
  | cons w ws ih =>
    unfold openColumn
    split
    · exact Nat.le_trans (Nat.le_trans (Nat.le_succ next) (w.le_next_place _ _ _ _)) (ih _)
    · exact ih _

theorem map_face_openColumn (squeeze : Bool) (column : Nat) (ws : List (Wire K)) (next : Nat) :
    (openColumn squeeze column ws next).1.map Wire.face = ws.map Wire.face := by
  induction ws generalizing next with
  | nil => rfl
  | cons w ws ih =>
    unfold openColumn
    split
    · simp only [List.map_cons, ih, w.face_place]
    · simp only [List.map_cons, ih]

theorem Wire.Closed.openColumn {P : Wire K → Prop} (hP : Wire.Closed P) (h : ∀ w ∈ ws, P w) (squeeze : Bool)
    (column next : Nat) : ∀ w ∈ (openColumn squeeze column ws next).1, P w := by
  induction ws generalizing next with
  | nil => exact h
  | cons v ws ih =>
    have hv := h v List.mem_cons_self
    have hws := ih fun w hw => h w (List.mem_cons_of_mem v hw)
    unfold Circuit.openColumn
    split
    · intro w hw
      rcases List.mem_cons.mp hw with rfl | hw
      · exact hP.place hv
      · exact hws _ w hw
    · intro w hw
      rcases List.mem_cons.mp hw with rfl | hw
      · exact hv
      · exact hws _ w hw

theorem usesIn_openColumn_le (squeeze : Bool) (column : Nat) (ws : List (Wire K)) (next : Nat) (i : GateId) :
    usesIn (openColumn squeeze column ws next).1 i ≤
      usesIn ws i + made next (openColumn squeeze column ws next).2 i := by
  induction ws generalizing next with
  | nil => exact Nat.le_add_right _ _
  | cons w ws ih =>
    unfold openColumn
    split
    · simp only [usesIn_cons]
      have hplace := w.uses_place_le (.inertia next) column false (next + 1) i
      have hrest := ih (w.place (.inertia next) column false (next + 1)).2
      have hnext := w.le_next_place (.inertia next) column false (next + 1)
      have hle := le_next_openColumn squeeze column ws (w.place (.inertia next) column false (next + 1)).2
      rw [← made_add (b := next + 1) (by omega) (by omega), made_succ, ← made_add (b := _) hnext hle]
      rw [show (Gate.inertia next).id = ⟨next⟩ from rfl] at hplace
      omega
    · simp only [usesIn_cons]
      have := ih next
      omega

theorem getElem?_openColumn (squeeze : Bool) (column : Nat) (ws : List (Wire K)) (next r : Nat) :
    ∃ n, (openColumn squeeze column ws next).1[r]? = (ws[r]?).map fun w =>
      if squeeze || w.cells.length ≤ column then (w.place (.inertia n) column false (n + 1)).1 else w := by
  induction ws generalizing next r with
  | nil => exact ⟨0, rfl⟩
  | cons w ws ih =>
    unfold openColumn
    split
    · rename_i hopen
      cases r with
      | zero =>
        refine ⟨next, ?_⟩
        simp only [List.getElem?_cons_zero, Option.map_some]
        rw [if_pos hopen]
      | succ r =>
        simp only [List.getElem?_cons_succ]
        exact ih _ r
    · rename_i hopen
      cases r with
      | zero =>
        refine ⟨next, ?_⟩
        simp only [List.getElem?_cons_zero, Option.map_some]
        rw [if_neg hopen]
      | succ r =>
        simp only [List.getElem?_cons_succ]
        exact ih _ r

theorem openColumn_eq_self (h : ∀ w ∈ ws, column < w.cells.length) (next : Nat) :
    openColumn false column ws next = (ws, next) := by
  induction ws generalizing next with
  | nil => rfl
  | cons w ws ih =>
    unfold openColumn
    have hw := h w List.mem_cons_self
    rw [if_neg (by simpa using hw), ih fun v hv => h v (List.mem_cons_of_mem w hv)]

theorem Shows.openColumn (h : Shows ws G) (squeeze : Bool) (hcolumn : column ≤ G.columns) (hrows : 0 < G.rows)
    (next : Nat) : Shows (openColumn squeeze column ws next).1 (G.openColumn squeeze column) := by
  by_cases hopen : squeeze = true ∨ column = G.columns
  · have hG : G.openColumn squeeze column = G.insertColumn column := by
      unfold Grid.openColumn
      rw [if_pos (by simpa using hopen)]
    -- Every wire is reached: it has `G.columns` cells.
    have hwire : ∀ r, ∃ n, (Circuit.openColumn squeeze column ws next).1[r]? =
        (ws[r]?).map fun w => (Wire.place w (.inertia n) column false (n + 1)).1 := fun r => by
      obtain ⟨n, hn⟩ := getElem?_openColumn squeeze column ws next r
      refine ⟨n, hn.trans ?_⟩
      cases hw : ws[r]? with
      | none => rfl
      | some w =>
        have hlen := h.aligned w (List.mem_of_getElem? hw)
        rw [Option.map_some, Option.map_some, if_pos]
        rcases hopen with rfl | rfl <;> simp [hlen]
    rw [hG]
    refine .of_aligned ?_ hrows (fun w hw => ?_) fun r k => ?_
    · rw [length_openColumn]
      exact h.rows
    · obtain ⟨r, hr⟩ := List.getElem?_of_mem hw
      obtain ⟨n, hn⟩ := hwire r
      rw [hr] at hn
      obtain ⟨v, hv, rfl⟩ := Option.map_eq_some_iff.mp hn.symm
      rw [Wire.length_place_false, h.aligned v (List.mem_of_getElem? hv)]
      show _ = G.columns + 1
      omega
    · obtain ⟨n, hn⟩ := hwire r
      show _ = if k < column then G.mark r k else if k = column then none else G.mark r (k - 1)
      rw [← h.marks, ← h.marks]
      unfold markIn
      rw [hn]
      cases ws[r]? with
      | none => simp
      | some w => exact w.mark?_place_false _ _ _ _
  · simp only [not_or, Bool.not_eq_true] at hopen
    have hG : G.openColumn squeeze column = G := by
      unfold Grid.openColumn
      rw [if_neg (by simpa using hopen)]
    rw [hG, hopen.1, openColumn_eq_self fun w hw => h.lt_length hw (by omega)]
    exact h

end OpenColumn

/-! ### What placing keeps -/

/-- What no change of the wires alters, and what it keeps of them. -/
structure Kept (c d : Circuit K) : Prop where
  settings : d.settings = c.settings
  undos : d.undos = c.undos
  redos : d.redos = c.redos
  catalog : d.catalog = c.catalog
  geometry : d.geometry = c.geometry
  next : c.nextGate ≤ d.nextGate
  closed : ∀ {P : Wire K → Prop}, Wire.Closed P → (∀ w ∈ c.wires, P w) → ∀ w ∈ d.wires, P w

namespace Kept

variable {b c d : Circuit K}

theorem refl (c : Circuit K) : Kept c c := ⟨rfl, rfl, rfl, rfl, rfl, Nat.le_refl _, fun _ h => h⟩

theorem trans (h : Kept b c) (h' : Kept c d) : Kept b d where
  settings := h'.settings.trans h.settings
  undos := h'.undos.trans h.undos
  redos := h'.redos.trans h.redos
  catalog := h'.catalog.trans h.catalog
  geometry := h'.geometry.trans h.geometry
  next := Nat.le_trans h.next h'.next
  closed hP hw := h'.closed hP (h.closed hP hw)

end Kept

namespace Circuit

theorem kept_newGate (c : Circuit K) (kind : GateKind) : Kept c (c.newGate kind).2 :=
  ⟨rfl, rfl, rfl, rfl, rfl, Nat.le_succ _, fun _ h => h⟩

/-! ### Adding wires -/

section AddWire

variable {c : Circuit K} {G : Grid}

theorem freshWire_wire (c : Circuit K) : ∃ (id : WireId) (i : Nat) (k : Nat) (next : Nat),
    (c.freshWire.1 = { id } ∨ c.freshWire.1 = (Wire.place { id } (.inertia i) k false next).1) := by
  unfold freshWire
  dsimp only
  split
  · exact ⟨⟨c.nextWire⟩, 0, 0, 0, .inl rfl⟩
  · rename_i last _
    exact ⟨⟨c.nextWire⟩, c.nextGate, last, c.nextGate + 1, .inr rfl⟩

theorem face_freshWire (c : Circuit K) : c.freshWire.1.face = blankFace := by
  obtain ⟨id, i, k, next, h | h⟩ := c.freshWire_wire
  · rw [h]
    rfl
  · rw [h, Wire.face_place]
    rfl

theorem freshWire_closed {P : Wire K → Prop} (hP : Wire.Closed P) (c : Circuit K) : P c.freshWire.1 := by
  obtain ⟨id, i, k, next, h | h⟩ := c.freshWire_wire
  · rw [h]
    exact hP.blank id
  · rw [h]
    exact hP.place (hP.blank id)

theorem mark?_freshWire (c : Circuit K) (k : Nat) : c.freshWire.1.mark? k = none := by
  have hblank : ∀ (id : WireId) j, Wire.mark? ({ id } : Wire K) j = none := fun _ _ => Wire.mark?_of_le (Nat.zero_le _)
  obtain ⟨id, i, last, next, h | h⟩ := c.freshWire_wire
  · rw [h]
    exact hblank id k
  · rw [h, Wire.mark?_place_false, hblank, hblank, Gate.mark?_inertia]
    split <;> simp

theorem length_freshWire (c : Circuit K) : c.freshWire.1.cells.length = c.columns := by
  unfold freshWire
  dsimp only
  split
  · rename_i h
    exact Eq.symm h
  · rename_i last h
    show (Wire.place _ _ _ _ _).1.cells.length = _
    rw [Wire.length_place_false]
    show max 0 last + 1 = c.columns
    rw [show c.columns = last + 1 from h]
    omega

theorem uses_freshWire_le (c : Circuit K) (i : GateId) :
    c.freshWire.1.uses i ≤ made c.nextGate c.freshWire.2.nextGate i ∧ c.nextGate ≤ c.freshWire.2.nextGate := by
  unfold freshWire
  dsimp only
  split
  · exact ⟨Nat.zero_le _, Nat.le_refl _⟩
  · rename_i last h
    have huses := Wire.uses_place_le ({ id := ⟨c.nextWire⟩ } : Wire K) (.inertia c.nextGate) last false
      (c.nextGate + 1) i
    have hnext := Wire.le_next_place ({ id := ⟨c.nextWire⟩ } : Wire K) (.inertia c.nextGate) last false (c.nextGate + 1)
    have hempty : Wire.uses ({ id := ⟨c.nextWire⟩ } : Wire K) i = 0 := rfl
    refine ⟨?_, Nat.le_trans (Nat.le_succ _) hnext⟩
    dsimp only
    rw [← made_add (Nat.le_succ _) hnext, made_succ]
    rw [hempty, Nat.zero_add] at huses
    exact huses

theorem freshWire_rest (c : Circuit K) :
    ∃ next wire, c.freshWire.2 = { c with nextGate := next, nextWire := wire } := by
  unfold freshWire
  dsimp only
  split
  · exact ⟨_, _, rfl⟩
  · exact ⟨_, _, rfl⟩

theorem addWire_wires (c : Circuit K) : c.addWire.wires = c.wires ++ [c.freshWire.1] := by
  obtain ⟨next, wire, h⟩ := c.freshWire_rest
  unfold addWire updateWidgets
  dsimp only
  rw [h]

theorem kept_addWire (c : Circuit K) : Kept c c.addWire := by
  obtain ⟨next, wire, h⟩ := c.freshWire_rest
  have hnext := (c.uses_freshWire_le ⟨0⟩).2
  have hwires := c.addWire_wires
  refine ⟨?_, ?_, ?_, ?_, ?_, ?_, fun hP hw w hmem => ?_⟩
  iterate 5 { unfold addWire updateWidgets; dsimp only; rw [h] }
  · exact hnext
  · rw [hwires] at hmem
    rcases List.mem_append.mp hmem with hmem | hmem
    · exact hw w hmem
    · rw [List.mem_singleton.mp hmem]
      exact freshWire_closed hP c

theorem usesIn_addWire_le (c : Circuit K) (i : GateId) :
    usesIn c.addWire.wires i ≤ usesIn c.wires i + made c.nextGate c.addWire.nextGate i := by
  rw [addWire_wires, usesIn_append, usesIn_cons]
  have := (c.uses_freshWire_le i).1
  exact Nat.add_le_add_left this _

theorem shows_addWire (h : Shows c.wires G) : Shows c.addWire.wires (G.addRows 1) := by
  rw [addWire_wires]
  refine .of_aligned ?_ (Nat.succ_pos _) (fun w hw => ?_) fun r k => ?_
  · rw [List.length_append, h.rows]
    rfl
  · rcases List.mem_append.mp hw with hw | hw
    · exact h.aligned w hw
    · rw [List.mem_singleton.mp hw, length_freshWire]
      exact h.columns
  · rw [markIn_append (mark?_freshWire c)]
    exact h.marks r k

theorem map_face_addWires (c : Circuit K) (count : Nat) :
    (c.addWires count).wires.map Wire.face = c.wires.map Wire.face ++ List.replicate count blankFace := by
  induction count generalizing c with
  | zero => simp [addWires]
  | succ count ih =>
    rw [addWires, ih, addWire_wires, List.map_append, List.map_singleton, face_freshWire, List.append_assoc]
    rfl

theorem kept_addWires (c : Circuit K) (count : Nat) : Kept c (c.addWires count) := by
  induction count generalizing c with
  | zero => exact .refl c
  | succ count ih => exact c.kept_addWire.trans (ih c.addWire)

theorem usesIn_addWires_le (c : Circuit K) (count : Nat) (i : GateId) :
    usesIn (c.addWires count).wires i ≤ usesIn c.wires i + made c.nextGate (c.addWires count).nextGate i := by
  induction count generalizing c with
  | zero => exact Nat.le_add_right _ _
  | succ count ih =>
    have h1 := c.usesIn_addWire_le i
    have h2 := ih c.addWire
    rw [addWires, ← made_add c.kept_addWire.next (c.addWire.kept_addWires count).next]
    omega

theorem shows_addWires (h : Shows c.wires G) (count : Nat) : Shows (c.addWires count).wires (G.addRows count) := by
  induction count generalizing c G with
  | zero => exact h
  | succ count ih =>
    have := ih (shows_addWire h)
    rw [Grid.addRows_addRows, Nat.add_comm 1 count] at this
    exact this

end AddWire

/-! ### Putting gates -/

section Put

variable {c : Circuit K} {G : Grid} {g : Gate} {row column : Nat}

/-- The result of putting a gate into a cell: the column opened, and the gate placed on its wire. -/
theorem putCell_eq (c : Circuit K) (g : Gate) (row column : Nat) (squeeze : Bool) :
    c.putCell g row column squeeze = { c with
      wires := ((openColumn squeeze column c.wires c.nextGate).1).modify row fun w =>
        (w.place g column ((w.cells[column]?).any Gate.isInertia) (openColumn squeeze column c.wires c.nextGate).2).1
      nextGate := match (openColumn squeeze column c.wires c.nextGate).1[row]? with
        | none => (openColumn squeeze column c.wires c.nextGate).2
        | some w =>
          (w.place g column ((w.cells[column]?).any Gate.isInertia)
            (openColumn squeeze column c.wires c.nextGate).2).2 } := by
  unfold putCell
  dsimp only
  rcases h : (openColumn squeeze column c.wires c.nextGate).1[row]? with _ | w
  · rw [List.modify_eq_self (List.getElem?_eq_none_iff.mp h)]
  · rw [List.modify_eq_set_getElem?, h]
    rfl

theorem le_next_putCell (c : Circuit K) (g : Gate) (row column : Nat) (squeeze : Bool) :
    c.nextGate ≤ (c.putCell g row column squeeze).nextGate := by
  rw [putCell_eq]
  have := le_next_openColumn squeeze column c.wires c.nextGate
  dsimp only
  split
  · exact this
  · exact Nat.le_trans this (Wire.le_next_place _ _ _ _ _)

theorem kept_putCell (c : Circuit K) (g : Gate) (row column : Nat) (squeeze : Bool) :
    Kept c (c.putCell g row column squeeze) := by
  have hnext := c.le_next_putCell g row column squeeze
  rw [putCell_eq] at hnext ⊢
  refine ⟨rfl, rfl, rfl, rfl, rfl, hnext, fun hP hw => ?_⟩
  have hopen := hP.openColumn hw squeeze column c.nextGate
  intro w hmem
  obtain ⟨r, hr⟩ := List.getElem?_of_mem hmem
  rw [List.getElem?_modify] at hr
  obtain ⟨v, hv, rfl⟩ := Option.map_eq_some_iff.mp hr
  have hPv := hopen v (List.mem_of_getElem? hv)
  split
  · exact hP.place hPv
  · exact hPv

theorem usesIn_putCell_le (c : Circuit K) (g : Gate) (row column : Nat) (squeeze : Bool) (i : GateId) :
    usesIn (c.putCell g row column squeeze).wires i ≤
      usesIn c.wires i + itself g.id i + made c.nextGate (c.putCell g row column squeeze).nextGate i := by
  have hopen := usesIn_openColumn_le squeeze column c.wires c.nextGate i
  have hle := le_next_openColumn squeeze column c.wires c.nextGate
  unfold putCell
  dsimp only
  split
  · dsimp only
    omega
  · rename_i w hw
    dsimp only
    have hplace := w.uses_place_le g column ((w.cells[column]?).any Gate.isInertia)
      (openColumn squeeze column c.wires c.nextGate).2 i
    have hnext := w.le_next_place g column ((w.cells[column]?).any Gate.isInertia)
      (openColumn squeeze column c.wires c.nextGate).2
    have hset := usesIn_set hw (w.place g column ((w.cells[column]?).any Gate.isInertia)
      (openColumn squeeze column c.wires c.nextGate).2).1 i
    rw [← made_add hle hnext]
    omega

theorem map_face_putCell (c : Circuit K) (g : Gate) (row column : Nat) (squeeze : Bool) :
    (c.putCell g row column squeeze).wires.map Wire.face = c.wires.map Wire.face := by
  rw [putCell_eq, ← map_face_openColumn squeeze column c.wires c.nextGate]
  exact map_modify_of_eq (fun w => w.face_place _ _ _ _) _ _

theorem openColumn_grid_bounds (squeeze : Bool) (hrow : row < G.rows) (hcolumn : column ≤ G.columns) :
    row < (G.openColumn squeeze column).rows ∧ column < (G.openColumn squeeze column).columns := by
  unfold Grid.openColumn
  split
  · exact ⟨hrow, Nat.lt_succ_of_le hcolumn⟩
  · rename_i hclosed
    simp only [Bool.or_eq_true, beq_iff_eq, not_or] at hclosed
    exact ⟨hrow, by omega⟩

/-- A gate takes a free cell. -/
theorem shows_putCell (h : Shows c.wires G) (g : Gate) (squeeze : Bool) (hrow : row < G.rows)
    (hcolumn : column ≤ G.columns) (hfree : (G.openColumn squeeze column).mark row column = none) :
    Shows (c.putCell g row column squeeze).wires ((G.openColumn squeeze column).set row column g.mark?) := by
  have hopen := h.openColumn squeeze hcolumn (by omega) c.nextGate
  have hin := openColumn_grid_bounds squeeze hrow hcolumn
  obtain ⟨w, o, hw, ho, hmark⟩ := hopen.exists_cell hin.1 hin.2
  -- The cell shows nothing, so that it holds an inertia, which is overwritten.
  rw [hfree, Gate.mark?_eq_none_iff] at hmark
  have hlt := (List.getElem?_eq_some_iff.mp ho).1
  have hwires : (c.putCell g row column squeeze).wires = (openColumn squeeze column c.wires c.nextGate).1.set row
      (w.place g column true (openColumn squeeze column c.wires c.nextGate).2).1 := by
    unfold putCell
    dsimp only
    rw [hw]
    dsimp only
    rw [ho, Option.any_some, hmark]
  rw [hwires]
  refine hopen.set hin.1 ?_ fun k => ?_
  · rw [Wire.place_true _ _ hlt]
    show (w.cells.set column _).length = _
    rw [List.length_set]
    exact hopen.aligned w (List.mem_of_getElem? hw)
  · rw [Wire.mark?_place_true _ _ _ hlt, ← markIn_of_getElem? hw, hopen.marks]

theorem openColumn_grid_eq_self (h : column < G.columns) : G.openColumn false column = G := by
  unfold Grid.openColumn
  rw [if_neg]
  simp only [Bool.false_or, beq_iff_eq]
  omega

theorem kept_putSupports (c : Circuit K) (parent : GateId) (column row count : Nat) :
    Kept c (c.putSupports parent column row count) := by
  induction count generalizing c row with
  | zero => exact .refl c
  | succ count ih =>
    unfold putSupports
    dsimp only
    refine .trans (.trans (c.kept_addWires (row + 1 - c.wires.length)) ?_) (ih _ _)
    refine .trans ?_ (kept_putCell _ _ _ _ _)
    exact ⟨rfl, rfl, rfl, rfl, rfl, Nat.le_succ _, fun _ h => h⟩

theorem usesIn_putSupports_le (c : Circuit K) (parent : GateId) (column row count : Nat) (i : GateId) :
    usesIn (c.putSupports parent column row count).wires i ≤
      usesIn c.wires i + made c.nextGate (c.putSupports parent column row count).nextGate i := by
  induction count generalizing c row with
  | zero => exact Nat.le_add_right _ _
  | succ count ih =>
    unfold putSupports
    dsimp only [newGate]
    generalize hb : c.addWires (row + 1 - c.wires.length) = b
    have hadd := c.usesIn_addWires_le (row + 1 - c.wires.length) i
    have hnext := (c.kept_addWires (row + 1 - c.wires.length)).next
    rw [hb] at hadd hnext
    -- The support takes the next number and is placed once.
    have hput := usesIn_putCell_le { b with nextGate := b.nextGate + 1 } { id := ⟨b.nextGate⟩, kind := .support parent }
      row column false i
    have hput' := le_next_putCell { b with nextGate := b.nextGate + 1 }
      { id := ⟨b.nextGate⟩, kind := .support parent } row column false
    have hrest := ih (putCell { b with nextGate := b.nextGate + 1 }
      { id := ⟨b.nextGate⟩, kind := .support parent } row column false) (row + 1)
    have hrest' := (kept_putSupports (putCell { b with nextGate := b.nextGate + 1 }
      { id := ⟨b.nextGate⟩, kind := .support parent } row column false) parent column (row + 1) count).next
    dsimp only at hput hput'
    rw [← made_add hnext (by omega), ← made_add (Nat.le_succ b.nextGate) (by omega), made_succ, ← made_add hput' hrest']
    omega

/-- The supports of a gate take the free cells below it. -/
theorem shows_putSupports (parent : GateId) {count : Nat} (h : Shows c.wires G) (hrow : row ≤ G.rows)
    (hcolumn : column < G.columns) (hfree : G.Free row column count) :
    Shows (c.putSupports parent column row count).wires (G.cover parent column row count) := by
  induction count generalizing c G row with
  | zero =>
    rw [Grid.cover_zero]
    exact h
  | succ count ih =>
    unfold putSupports
    dsimp only [newGate]
    rw [← Grid.cover_succ, h.rows]
    have hadd := shows_addWires h (row + 1 - G.rows)
    generalize c.addWires (row + 1 - G.rows) = b at hadd ⊢
    refine ih ?_ ?_ hcolumn fun r hr hr' => ?_
    · have hput := shows_putCell (c := { b with nextGate := b.nextGate + 1 }) hadd
        { id := ⟨b.nextGate⟩, kind := .support parent } false (by show row < G.rows + _; omega) (Nat.le_of_lt hcolumn)
      rw [openColumn_grid_eq_self (G := G.addRows _) hcolumn] at hput
      exact hput (hfree row (Nat.le_refl _) (by omega))
    · show row + 1 ≤ G.rows + (row + 1 - G.rows)
      omega
    · show (if r = row ∧ column = column then _ else G.mark r column) = none
      rw [if_neg (by omega)]
      exact hfree r (by omega) (by omega)

theorem map_face_putSupports {count : Nat} (parent : GateId) (hrow : row + count ≤ c.wires.length) :
    (c.putSupports parent column row count).wires.map Wire.face = c.wires.map Wire.face := by
  induction count generalizing c row with
  | zero => rfl
  | succ count ih =>
    unfold putSupports
    rw [show row + 1 - c.wires.length = 0 by omega]
    dsimp only [newGate, addWires]
    have hcell := map_face_putCell { c with nextGate := c.nextGate + 1 } { id := ⟨c.nextGate⟩, kind := .support parent }
      row column false
    have hlength := congrArg List.length hcell
    rw [List.length_map, List.length_map] at hlength
    rw [ih (by rw [hlength]; show row + 1 + count ≤ c.wires.length; omega), hcell]

theorem kept_put (c : Circuit K) (g : Gate) (row column : Nat) (squeeze : Bool) :
    Kept c (c.put g row column squeeze) :=
  (c.kept_putCell g row column squeeze).trans (kept_putSupports _ _ _ _ _)

theorem usesIn_put_le (c : Circuit K) (g : Gate) (row column : Nat) (squeeze : Bool) (i : GateId) :
    usesIn (c.put g row column squeeze).wires i ≤
      usesIn c.wires i + itself g.id i + made c.nextGate (c.put g row column squeeze).nextGate i := by
  have hcell := c.usesIn_putCell_le g row column squeeze i
  have hsupports := (c.putCell g row column squeeze).usesIn_putSupports_le g.id column (row + 1) (g.span - 1) i
  unfold put
  rw [← made_add (c.le_next_putCell g row column squeeze) (kept_putSupports _ _ _ _ _).next]
  omega

/-- A gate takes the free cells that it needs. -/
theorem shows_put (h : Shows c.wires G) (g : Gate) (squeeze : Bool) (hrow : row < G.rows) (hcolumn : column ≤ G.columns)
    (hfree : (G.openColumn squeeze column).Free row column g.span) :
    Shows (c.put g row column squeeze).wires ((G.openColumn squeeze column).put g row column) := by
  have hspan : 0 < g.span := GateKind.span_pos g.kind
  have hcell := shows_putCell h g squeeze hrow hcolumn (hfree row (Nat.le_refl _) (by omega))
  have hin : row < (G.openColumn squeeze column).rows ∧ column < (G.openColumn squeeze column).columns :=
    openColumn_grid_bounds squeeze hrow hcolumn
  rw [← Grid.cover_set _ _ hin.1]
  refine shows_putSupports g.id hcell hin.1 hin.2 fun r hr hr' => ?_
  show (if r = row ∧ column = column then _ else _) = none
  rw [if_neg (by omega)]
  exact hfree r (by omega) (by omega)

theorem map_face_put {squeeze : Bool} (hrow : row + g.span ≤ c.wires.length) :
    (c.put g row column squeeze).wires.map Wire.face = c.wires.map Wire.face := by
  have hspan : 0 < g.span := GateKind.span_pos g.kind
  have hcell := map_face_putCell c g row column squeeze
  have hlength := congrArg List.length hcell
  rw [List.length_map, List.length_map] at hlength
  unfold put
  rw [map_face_putSupports _ (by omega), hcell]

theorem kept_attachAt (c : Circuit K) (g : Gate) (row column : Nat) : Kept c (c.attachAt g row column) := by
  unfold attachAt
  split
  · exact c.kept_put _ _ _ _
  · exact .refl c

theorem shows_attachAt (h : Shows c.wires G) (g : Gate) (hrow : row < G.rows) (hcolumn : column ≤ G.columns)
    (hfree : (G.openColumn false column).Free row column g.span) :
    Shows (c.attachAt g row column).wires ((G.openColumn false column).put g row column) := by
  have hcolumns : c.columns = G.columns := h.columns
  unfold attachAt
  rw [if_pos (h.rows ▸ hrow), hcolumns, Nat.min_eq_left hcolumn]
  exact shows_put h g false hrow hcolumn hfree

theorem map_face_attachAt (hrow : row + g.span ≤ c.wires.length) :
    (c.attachAt g row column).wires.map Wire.face = c.wires.map Wire.face := by
  unfold attachAt
  split
  · exact map_face_put hrow
  · rfl

end Put

end Circuit

end CircuitDesigner
