import CircuitDesigner.Circuit.Refresh
import CircuitDesigner.Proofs.Grid.Placement

/-! What taking gates and wires out does.

    A gate that shows leaves with its supports, so that its cells are empty afterwards. A column or a row goes as
    a whole. -/

namespace CircuitDesigner

variable {K : Type} [Coordinate K]

/-! ### Wires -/

section Wire

variable {w : Wire K} {g : Gate} {column next : Nat} {i : GateId}

/-- The wire with a new inertia in a cell. -/
def Wire.emptied (w : Wire K) (column next : Nat) : Wire K :=
  { w with cells := w.cells.set column ((Gate.inertia next).ownedBy w.id) }.rescan none

theorem Wire.detach?_eq (hf : w.find? i = some column) (hg : w.cells[column]? = some g) (hi : g.isInertia = false)
    (next : Nat) : w.detach? i next = some (column, g.released, w.emptied column next, next + 1) := by
  unfold Wire.detach? Wire.emptied
  rw [hf]
  simp only [Option.bind_eq_bind, Option.bind_some, hg, hi]
  rfl

theorem Wire.length_emptied (w : Wire K) (column next : Nat) : (w.emptied column next).cells.length = w.cells.length :=
  List.length_set

theorem Wire.mark?_emptied (h : column < w.cells.length) (next k : Nat) :
    (w.emptied column next).mark? k = if k = column then none else w.mark? k :=
  Wire.mark?_set (g := (Gate.inertia next).ownedBy w.id) h rfl k

theorem Wire.uses_emptied (hg : w.cells[column]? = some g) (next : Nat) (i : GateId) :
    (w.emptied column next).uses i + itself g.id i = w.uses i + made next (next + 1) i := by
  obtain ⟨hlt, hget⟩ := List.getElem?_eq_some_iff.mp hg
  have hle : (if w.cells[column].id == i then 1 else 0) ≤ w.cells.countP fun g => g.id == i := by
    split
    · rename_i h
      exact List.countP_pos_iff.mpr ⟨_, List.getElem_mem hlt, h⟩
    · exact Nat.zero_le _
  unfold Wire.uses Wire.emptied
  show (w.cells.set column _).countP _ + _ = _
  rw [List.countP_set hlt, made_succ]
  simp only [hget, itself, Gate.inertia, Gate.ownedBy, beq_iff_eq] at hle ⊢
  omega

theorem Wire.dropInertia_eq (hg : w.cells[column]? = some g) (hi : g.isInertia = true) :
    w.dropInertia column = { w with cells := w.cells.eraseIdx column }.rescan none := by
  unfold Wire.dropInertia
  rw [hg, if_pos (by simpa using hi)]

theorem Wire.uses_dropInertia_le (w : Wire K) (column : Nat) (i : GateId) :
    (w.dropInertia column).uses i ≤ w.uses i := by
  unfold Wire.dropInertia
  split
  · exact (List.eraseIdx_sublist _ _).countP_le
  · exact Nat.le_refl _

end Wire

/-! ### Gates -/

section Detach

open Circuit

variable {ws : List (Wire K)} {c : Circuit K} {G : Grid} {row column next : Nat} {id : GateId} {kind : GateKind}

/-- On each wire, a support of the gate is the only gate of its number. -/
theorem dropSupports_cons {w : Wire K} {parent : GateId} (hnodup : (w.cells.map Gate.id).Nodup) (ws : List (Wire K))
    (next : Nat) :
    dropSupports parent column (w :: ws) next =
      if w.mark? column = some (.cover parent) then
        (w.emptied column next :: (dropSupports parent column ws (next + 1)).1,
          (dropSupports parent column ws (next + 1)).2)
      else (w :: (dropSupports parent column ws next).1, (dropSupports parent column ws next).2) := by
  rw [dropSupports]
  cases hg : w.cells[column]? with
  | none =>
    have hmark : w.mark? column = none := by
      unfold Wire.mark?
      rw [hg]
      rfl
    rw [hmark, if_neg (by simp)]
    rfl
  | some g =>
    have hmark : w.mark? column = g.mark? := by
      unfold Wire.mark?
      rw [hg]
      rfl
    rw [hmark]
    by_cases hs : g.kind = .support parent
    · have hi : g.isInertia = false := Gate.isInertia_of_mark? (Gate.mark?_eq_cover_iff.mpr hs)
      rw [if_pos (Gate.mark?_eq_cover_iff.mpr hs)]
      simp only [Option.bind_eq_bind, Option.bind_some, Gate.supports, hs, beq_self_eq_true, if_true,
        Wire.detach?_eq (Wire.find?_eq hnodup hg) hg hi]
    · rw [if_neg fun h => hs (Gate.mark?_eq_cover_iff.mp h)]
      simp only [Option.bind_eq_bind, Option.bind_some, Gate.supports, beq_iff_eq, if_neg hs]

theorem usesIn_dropSupports_le (hnodup : ∀ w ∈ ws, (w.cells.map Gate.id).Nodup) (parent : GateId) (column next : Nat) :
    next ≤ (dropSupports parent column ws next).2 ∧ ∀ i, usesIn (dropSupports parent column ws next).1 i ≤
      usesIn ws i + made next (dropSupports parent column ws next).2 i := by
  induction ws generalizing next with
  | nil => exact ⟨Nat.le_refl _, fun _ => Nat.le_add_right _ _⟩
  | cons w ws ih =>
    have hws : ∀ v ∈ ws, (v.cells.map Gate.id).Nodup := fun v hv => hnodup v (List.mem_cons_of_mem w hv)
    rw [dropSupports_cons (hnodup w List.mem_cons_self)]
    split
    · rename_i hm
      obtain ⟨g, hg, -⟩ := Option.bind_eq_some_iff.mp hm
      obtain ⟨hnext, huses⟩ := ih hws (next + 1)
      refine ⟨by dsimp only; omega, fun i => ?_⟩
      have h1 := huses i
      have h2 := Wire.uses_emptied hg next i
      dsimp only
      rw [usesIn_cons, usesIn_cons, ← made_add (Nat.le_add_right next 1) hnext]
      omega
    · obtain ⟨hnext, huses⟩ := ih hws next
      refine ⟨hnext, fun i => ?_⟩
      have := huses i
      dsimp only
      rw [usesIn_cons, usesIn_cons]
      omega

theorem getElem?_dropSupports (hnodup : ∀ w ∈ ws, (w.cells.map Gate.id).Nodup) (parent : GateId) (column next r : Nat) :
    ∃ n, (dropSupports parent column ws next).1[r]? = (ws[r]?).map fun w =>
      if w.mark? column = some (.cover parent) then w.emptied column n else w := by
  induction ws generalizing next r with
  | nil => exact ⟨0, rfl⟩
  | cons w ws ih =>
    have hws : ∀ v ∈ ws, (v.cells.map Gate.id).Nodup := fun v hv => hnodup v (List.mem_cons_of_mem w hv)
    rw [dropSupports_cons (hnodup w List.mem_cons_self)]
    split
    · rename_i hm
      cases r with
      | zero =>
        refine ⟨next, ?_⟩
        simp only [List.getElem?_cons_zero, Option.map_some]
        rw [if_pos hm]
      | succ r => exact ih hws (next + 1) r
    · rename_i hm
      cases r with
      | zero =>
        refine ⟨next, ?_⟩
        simp only [List.getElem?_cons_zero, Option.map_some]
        rw [if_neg hm]
      | succ r => exact ih hws next r

theorem Wire.Closed.dropSupports {P : Wire K → Prop} (hP : Wire.Closed P) (h : ∀ w ∈ ws, P w) (parent : GateId)
    (column next : Nat) : ∀ w ∈ (dropSupports parent column ws next).1, P w := by
  induction ws generalizing next with
  | nil => exact h
  | cons v ws ih =>
    have hv := h v List.mem_cons_self
    have hws := ih fun w hw => h w (List.mem_cons_of_mem v hw)
    rw [Circuit.dropSupports]
    intro w hw
    rcases List.mem_cons.mp hw with rfl | hw
    · split
      · rename_i hd
        obtain ⟨g, -, hd⟩ := Option.bind_eq_some_iff.mp hd
        split at hd
        · exact hP.detach hv hd
        · cases hd
      · exact hv
    · exact hws _ w hw

theorem shows_dropSupports (h : Shows ws G) (hnodup : ∀ w ∈ ws, (w.cells.map Gate.id).Nodup) (parent : GateId)
    (column next : Nat) : Shows (dropSupports parent column ws next).1 (G.uncover parent column) := by
  refine h.congr rfl rfl (List.ext_getElem? fun r => ?_) fun r k => ?_
  · obtain ⟨n, hn⟩ := getElem?_dropSupports hnodup parent column next r
    rw [List.getElem?_map, List.getElem?_map, hn]
    cases ws[r]? with
    | none => rfl
    | some w =>
      simp only [Option.map_some]
      split
      · rw [Wire.length_emptied]
      · rfl
  · obtain ⟨n, hn⟩ := getElem?_dropSupports hnodup parent column next r
    show _ = if k = column ∧ G.mark r k = some (.cover parent) then none else G.mark r k
    rw [← h.marks]
    unfold markIn
    rw [hn]
    cases hw : ws[r]? with
    | none => simp
    | some w =>
      simp only [Option.map_some, Option.bind_some]
      by_cases hm : w.mark? column = some (.cover parent)
      · obtain ⟨g, hg, -⟩ := Option.bind_eq_some_iff.mp hm
        rw [if_pos hm, Wire.mark?_emptied (List.getElem?_eq_some_iff.mp hg).1]
        by_cases hk : k = column
        · subst hk
          rw [if_pos rfl, if_pos ⟨rfl, hm⟩]
        · rw [if_neg hk, if_neg fun h => hk h.1]
      · rw [if_neg hm, if_neg]
        rintro ⟨rfl, hm'⟩
        exact hm hm'

theorem Shows.set_emptied {ws : List (Wire K)} {w : Wire K} {g : Gate} (h : Shows ws G) (hw : ws[row]? = some w)
    (hg : w.cells[column]? = some g) (next : Nat) :
    Shows (ws.set row (w.emptied column next)) (G.set row column none) := by
  refine h.set (h.rows ▸ (List.getElem?_eq_some_iff.mp hw).1) ?_ fun k => ?_
  · rw [Wire.length_emptied]
    exact h.aligned w (List.mem_of_getElem? hw)
  · rw [Wire.mark?_emptied (List.getElem?_eq_some_iff.mp hg).1, ← markIn_of_getElem? hw, h.marks]

theorem usesIn_set_emptied {ws : List (Wire K)} {w : Wire K} {g : Gate} (hw : ws[row]? = some w)
    (hg : w.cells[column]? = some g) (next : Nat) (i : GateId) :
    usesIn (ws.set row (w.emptied column next)) i + itself g.id i = usesIn ws i + made next (next + 1) i := by
  have h1 := usesIn_set hw (w.emptied column next) i
  have h2 := Wire.uses_emptied hg next i
  omega

theorem Wire.Closed.set_emptied {P : Wire K → Prop} (hP : Wire.Closed P) {ws : List (Wire K)} {w : Wire K} {g : Gate}
    (hall : ∀ w ∈ ws, P w) (hw : ws[row]? = some w)
    (hfind : w.find? g.id = some column) (hg : w.cells[column]? = some g)
    (hi : g.isInertia = false) (next : Nat) : ∀ v ∈ ws.set row (w.emptied column next), P v := by
  intro v hv
  rcases List.mem_or_eq_of_mem_set hv with hv | rfl
  · exact hall v hv
  · exact hP.detach (hall w (List.mem_of_getElem? hw)) (Wire.detach?_eq hfind hg hi next)

/-- A gate on one wire, or a support, leaves an inertia in its cell. -/
theorem exists_detach_single {g : Gate} (h : Shows c.wires G) (hl : Labelled c.wires c.nextGate)
    (hg : (c.wires[row]?).bind (fun w => w.cells[column]?) = some g) (hi : g.isInertia = false) (hspan : g.span = 1) :
    ∃ d, c.detach? g.id = some (g.released, d) ∧ Shows d.wires (G.set row column none) ∧ Kept c d ∧
      ∀ i, usesIn d.wires i + itself g.id i = usesIn c.wires i + made c.nextGate d.nextGate i := by
  obtain ⟨w, hw, hgw⟩ := Option.bind_eq_some_iff.mp hg
  have hfind := Wire.find?_eq (hl.ids_nodup (List.mem_of_getElem? hw)) hgw
  have hone : ¬g.released.span > 1 := by
    show ¬g.span > 1
    omega
  refine ⟨{ c with wires := c.wires.set row (w.emptied column c.nextGate), nextGate := c.nextGate + 1 }, ?_,
    h.set_emptied hw hgw c.nextGate, ⟨rfl, rfl, rfl, rfl, rfl, Nat.le_succ _, fun hP hall =>
      hP.set_emptied hall hw hfind hgw hi c.nextGate⟩, usesIn_set_emptied hw hgw c.nextGate⟩
  unfold detach?
  rw [locate?_eq hl hg]
  simp only [Option.bind_eq_bind, Option.bind_some, hw, Wire.detach?_eq hfind hgw hi, if_neg hone]

/-- A gate that shows can be taken out. It leaves its cells empty. -/
theorem exists_detach? (h : Shows c.wires G) (hs : G.Spanned) (hl : Labelled c.wires c.nextGate)
    (hm : G.mark row column = some (.gate id kind)) :
    ∃ g d, c.detach? id = some (g, d) ∧ g.id = id ∧ g.kind = kind ∧ Shows d.wires (G.clear row column kind.span) ∧
      Kept c d ∧ ∀ i, usesIn d.wires i + itself id i ≤ usesIn c.wires i + made c.nextGate d.nextGate i := by
  have hm' := hm
  rw [← h.marks] at hm'
  obtain ⟨w, g, hw, hg, hmark⟩ := markIn_eq_some_iff.mp hm'
  have hi := Gate.isInertia_of_mark? hmark
  obtain ⟨rfl, rfl, -⟩ := Gate.mark?_eq_gate_iff.mp hmark
  have hcell : (c.wires[row]?).bind (fun w => w.cells[column]?) = some g := Option.bind_eq_some_iff.mpr ⟨w, hw, hg⟩
  rcases Nat.eq_or_lt_of_le g.kind.span_pos with hone | hspan
  · obtain ⟨d, hd, hshows, hkept, huses⟩ := exists_detach_single h hl hcell hi hone.symm
    refine ⟨_, d, hd, rfl, rfl, ?_, hkept, fun i => Nat.le_of_eq (huses i)⟩
    show Shows d.wires (G.clear row column g.kind.span)
    rwa [← hone, Grid.clear_one]
  · have hfind := Wire.find?_eq (hl.ids_nodup (List.mem_of_getElem? hw)) hg
    -- The wires without the gate, which still have its supports.
    have hwires := h.set_emptied hw hg c.nextGate
    have huses := usesIn_set_emptied hw hg c.nextGate
    have hnodup : ∀ v ∈ c.wires.set row (w.emptied column c.nextGate), (v.cells.map Gate.id).Nodup := fun v hv =>
      (hl.mono (fun i => by have := huses i; omega) (Nat.le_succ _) : Labelled _ (c.nextGate + 1)).ids_nodup hv
    have hdrop := usesIn_dropSupports_le hnodup g.id column (c.nextGate + 1)
    have hmany : g.released.span > 1 := hspan
    unfold detach?
    rw [locate?_eq hl hcell]
    simp only [Option.bind_eq_bind, Option.bind_some, hw, Wire.detach?_eq hfind hg hi, if_pos hmany]
    refine ⟨_, _, rfl, rfl, rfl, ?_, ?_, fun i => ?_⟩
    · have := shows_dropSupports hwires hnodup g.id column (c.nextGate + 1)
      rwa [hs.uncover_set (hl.unique_marks h) hm] at this
    · exact ⟨rfl, rfl, rfl, rfl, rfl, Nat.le_trans (Nat.le_succ _) hdrop.1,
        fun hP hall => hP.dropSupports (hP.set_emptied hall hw hfind hg hi c.nextGate) _ _ _⟩
    · have h1 := hdrop.2 i
      have h2 := huses i
      dsimp only
      rw [← made_add (Nat.le_add_right c.nextGate 1) hdrop.1]
      omega

/-- The gate shows, or no cell holds it. -/
def Present (ws : List (Wire K)) (next : Nat) (G : Grid) (i : GateId) : Prop :=
  i.index < next ∧ (usesIn ws i = 0 ∨ ∃ r k kind, G.mark r k = some (.gate i kind))

theorem detach?_eq_none {i : GateId} (h : usesIn c.wires i = 0) : c.detach? i = none := by
  have hlocate : c.locate? i = none := by
    cases hloc : c.locate? i with
    | none => rfl
    | some p =>
      obtain ⟨r, k⟩ := p
      obtain ⟨w, g, -, hw, -, hg, rfl⟩ := exists_of_locateFrom hloc
      have h1 := Wire.uses_pos (List.mem_of_getElem? hg)
      have h2 := uses_le_usesIn (List.mem_of_getElem? hw) g.id
      omega
  unfold detach?
  rw [hlocate]
  rfl

omit [Coordinate K] in
theorem Shows.lacks {ws : List (Wire K)} (h : Shows ws G) {i : GateId} (h0 : usesIn ws i = 0) : G.Lacks i := by
  intro r k kind hm
  rw [← h.marks] at hm
  obtain ⟨w, g, hw, hg, hmark⟩ := markIn_eq_some_iff.mp hm
  obtain ⟨rfl, -, -⟩ := Gate.mark?_eq_gate_iff.mp hmark
  have h1 := Wire.uses_pos (List.mem_of_getElem? hg)
  have h2 := uses_le_usesIn (List.mem_of_getElem? hw) g.id
  omega

omit [Coordinate K] in
/-- Of the other gates, those that show or are absent stay so when a gate is taken out. -/
theorem Present.clear {d : Circuit K} {i : GateId} (hi : Present c.wires c.nextGate G i) (hs : G.Spanned)
    (hm : G.mark row column = some (.gate id kind)) (hgone : usesIn d.wires id = 0) (hnext : c.nextGate ≤ d.nextGate)
    (huses : usesIn d.wires i ≤ usesIn c.wires i + made c.nextGate d.nextGate i) :
    Present d.wires d.nextGate (G.clear row column kind.span) i := by
  obtain ⟨hlt, h0 | ⟨r, k, kind', hmi⟩⟩ := hi
  · refine ⟨Nat.lt_of_lt_of_le hlt hnext, .inl ?_⟩
    unfold made at huses
    rw [if_neg (by omega)] at huses
    omega
  · refine ⟨Nat.lt_of_lt_of_le hlt hnext, ?_⟩
    by_cases hieq : i = id
    · exact .inl (hieq ▸ hgone)
    · exact .inr ⟨r, k, kind', hs.mark_clear hm hmi hieq⟩

/-- Gates that show can be taken out one after the other. The other gates stay where they are. -/
theorem exists_detachAll {ids : List GateId} (h : Shows c.wires G) (hs : G.Spanned)
    (hl : Labelled c.wires c.nextGate) (hids : ∀ i ∈ ids, Present c.wires c.nextGate G i) :
    ∃ H, Shows (c.detachAll ids).wires H ∧ H.Spanned ∧ Labelled (c.detachAll ids).wires (c.detachAll ids).nextGate ∧
      Kept c (c.detachAll ids) ∧ H.Sub G ∧ (∀ i ∈ ids, H.Lacks i) ∧
      ∀ {r k i kind}, i ∉ ids → G.mark r k = some (.gate i kind) → H.mark r k = some (.gate i kind) := by
  induction ids generalizing c G with
  | nil => exact ⟨G, h, hs, hl, .refl c, .refl G, List.forall_mem_nil _, fun _ hm => hm⟩
  | cons id ids ih =>
    obtain ⟨hlt, h0 | ⟨row, column, kind, hm⟩⟩ := hids id List.mem_cons_self
    · obtain ⟨H, hH, hsH, hlH, hk, hsub, hgone, hstays⟩ := ih h hs hl fun i hi => hids i (List.mem_cons_of_mem id hi)
      rw [detachAll, detach?_eq_none h0]
      exact ⟨H, hH, hsH, hlH, hk, hsub, List.forall_mem_cons.mpr ⟨(h.lacks h0).sub hsub, hgone⟩,
        fun hi => hstays (List.not_mem_of_not_mem_cons hi)⟩
    · obtain ⟨g, d, hd, -, -, hshow, hkept, huses⟩ := exists_detach? h hs hl hm
      have hle : ∀ i, usesIn d.wires i ≤ usesIn c.wires i + made c.nextGate d.nextGate i := fun i => by
        have := huses i
        omega
      have hgone : usesIn d.wires id = 0 := by
        have h1 := huses id
        have h2 := hl id
        have h3 := made_add (Nat.zero_le c.nextGate) hkept.next id
        have hcount : usesIn d.wires id + itself id id ≤ made 0 d.nextGate id := by omega
        exact usesIn_eq_zero hcount
      obtain ⟨H, hH, hsH, hlH, hk, hsub, hgone', hstays⟩ := ih hshow (hs.clear hm) (hl.mono hle hkept.next) fun i hi =>
        (hids i (List.mem_cons_of_mem id hi)).clear hs hm hgone hkept.next (hle i)
      rw [detachAll, hd]
      exact ⟨H, hH, hsH, hlH, hkept.trans hk, hsub.trans (Grid.sub_clear G row column kind.span),
        List.forall_mem_cons.mpr ⟨(Grid.lacks_clear (hl.unique_marks h) hm).sub hsub, hgone'⟩, fun hi hm' =>
          hstays (List.not_mem_of_not_mem_cons hi) (hs.mark_clear hm hm' (List.ne_of_not_mem_cons hi))⟩

end Detach

/-! ### Rows and columns -/

section Rows

open Circuit

variable {ws : List (Wire K)} {c : Circuit K} {G : Grid} {row column : Nat}

omit [Coordinate K] in
theorem Shows.eraseIdx (h : Shows ws G) (hrow : row < G.rows) : Shows (ws.eraseIdx row) (G.removeRow row) where
  rows := by
    rw [List.length_eraseIdx, if_pos (h.rows ▸ hrow), h.rows]
    rfl
  columns := by
    show _ = if G.rows ≤ 1 then 0 else G.columns
    split
    · have hnil : ws.eraseIdx row = [] := by
        rw [← List.length_eq_zero_iff, List.length_eraseIdx, if_pos (h.rows ▸ hrow), h.rows]
        omega
      rw [hnil]
      rfl
    · refine columnsOf_eq (fun w hw => h.aligned w (List.mem_of_mem_eraseIdx hw)) (List.ne_nil_of_length_pos ?_)
      rw [List.length_eraseIdx, if_pos (h.rows ▸ hrow), h.rows]
      omega
  aligned w hw := by
    show _ = if G.rows ≤ 1 then 0 else G.columns
    rw [if_neg]
    · exact h.aligned w (List.mem_of_mem_eraseIdx hw)
    · have := List.length_pos_of_mem hw
      rw [List.length_eraseIdx, if_pos (h.rows ▸ hrow), h.rows] at this
      omega
  marks r k := by
    rw [markIn_eraseIdx, h.marks]
    rfl

omit [Coordinate K] in
theorem Shows.isVacant (h : Shows ws G) (hcolumn : column < G.columns) :
    isIdleColumn ws column = true ↔ ∀ r, G.mark r column = none := by
  unfold isIdleColumn Wire.isVacant
  rw [List.all_eq_true]
  constructor
  · intro hall r
    rw [← h.marks, markIn_eq_bind_cell, Option.bind_eq_none_iff]
    intro g hg
    obtain ⟨w, hw, hg⟩ := Option.bind_eq_some_iff.mp hg
    have := hall w (List.mem_of_getElem? hw)
    rw [hg, Option.all_some] at this
    exact Gate.mark?_eq_none_iff.mpr this
  · intro hnone w hw
    obtain ⟨r, hr⟩ := List.getElem?_of_mem hw
    have hlt := h.lt_length hw hcolumn
    rw [List.getElem?_eq_getElem hlt, Option.all_some, h.isInertia_of_mark hr (List.getElem?_eq_getElem hlt), hnone]
    rfl

/-- An idle column goes as a whole. -/
theorem Shows.dropInertia (h : Shows ws G) (hcolumn : column < G.columns) (hidle : ∀ r, G.mark r column = none) :
    Shows (ws.map fun w => w.dropInertia column) (G.removeColumn column) := by
  have hne : ws ≠ [] := by
    rintro rfl
    have := h.columns
    have : (0 : Nat) = G.columns := this
    omega
  have hdrop : ∀ w ∈ ws, w.dropInertia column = { w with cells := w.cells.eraseIdx column }.rescan none := by
    intro w hw
    obtain ⟨r, hr⟩ := List.getElem?_of_mem hw
    have hlt := h.lt_length hw hcolumn
    have hg := List.getElem?_eq_getElem hlt
    refine Wire.dropInertia_eq hg ?_
    rw [h.isInertia_of_mark hr hg, hidle]
    rfl
  rw [List.map_congr_left hdrop]
  refine .of_aligned ?_ ?_ (fun v hv => ?_) fun r k => ?_
  · rw [List.length_map]
    exact h.rows
  · show 0 < G.rows
    rw [← h.rows]
    exact List.length_pos_of_ne_nil hne
  · obtain ⟨w, hw, rfl⟩ := List.mem_map.mp hv
    show (w.cells.eraseIdx column).length = G.columns - 1
    rw [List.length_eraseIdx, h.aligned w hw, if_pos hcolumn]
  · show _ = G.mark r (if k < column then k else k + 1)
    rw [← h.marks]
    unfold markIn
    rw [List.getElem?_map]
    cases ws[r]? with
    | none => rfl
    | some w =>
      show Option.bind (w.cells.eraseIdx column)[k]? Gate.mark? = w.mark? _
      rw [List.getElem?_eraseIdx]
      unfold Wire.mark?
      split <;> rfl

end Rows

end CircuitDesigner
