import CircuitDesigner.Proofs.Except
import CircuitDesigner.Proofs.Refresh.Settled
import CircuitDesigner.Proofs.Restore.Trace
import CircuitDesigner.Proofs.Stamp

/-! Restoring a captured circuit.

    The template of a consistent circuit is placed cell by cell into empty wires, so that the wires come out alike up
    to numbers: a restored circuit is what a refresh makes of such wires (`exists_restore`). -/

namespace CircuitDesigner

open Circuit

variable {K : Type} [Coordinate K]

/-- The kind that is placed for a gate; supports come with their gate. -/
def Gate.placed (g : Gate) : Option GateKind :=
  match g.kind with
  | .support _ => none
  | kind => some kind

theorem Gate.placed_support {g : Gate} {p : GateId} (h : g.kind = .support p) : g.placed = none := by
  unfold placed
  rw [h]

theorem Gate.placed_of_ne {g : Gate} (h : ∀ p, g.kind ≠ .support p) : g.placed = some g.kind := by
  unfold placed
  cases hk : g.kind with
  | support p => exact absurd hk (h p)
  | _ => rfl

/-- A circuit into which the gates of the grid `S` before row `i` and column `j` have been placed. -/
structure Replay (P : GateKind → Prop) (S : Grid) (e : Circuit K) (i j : Nat) : Prop where
  sound : e.Sound P []
  collapsed : ∀ w ∈ e.wires, w.Collapsed
  traced : S.Traced (gridOf e.wires) i j

namespace Replay

variable {P : GateKind → Prop} {S : Grid} {e : Circuit K} {i j : Nat} {ws : List (Wire K)}

/-- The next gate, or an inertia where nothing shows, is placed. -/
theorem place (h : Replay P S e i j) (hS : Shows ws S) (hs : S.Spanned) (hi : i < S.rows) (hj : j < S.columns)
    {g : Gate} (hm : S.mark i j = g.mark?) (hg : ∀ p, g.kind ≠ .support p) (hP : P g.kind) :
    Replay P S ((e.newGate g.kind).2.attachAt (e.newGate g.kind).1 i j) i (j + 1) ∧
      Kept e ((e.newGate g.kind).2.attachAt (e.newGate g.kind).1 i j) ∧
      ((e.newGate g.kind).2.attachAt (e.newGate g.kind).1 i j).wires.map Wire.face = e.wires.map Wire.face := by
  have hbound := fun r k => h.sound.shows.mark_of_columns_le r (k := k)
  have hrow : i < (gridOf e.wires).rows := by
    rw [h.traced.rows]
    exact hi
  have hcolumn : j ≤ (gridOf e.wires).columns := by
    rw [h.traced.columns]
    split <;> omega
  -- Either the cell shows nothing and an inertia comes there, or the gate finds its cells free.
  have hnext : ((gridOf e.wires).openColumn false j).Free i j (e.newGate g.kind).1.span ∧ i + g.span ≤ S.rows ∧
      S.Traced (((gridOf e.wires).openColumn false j).put (e.newGate g.kind).1 i j) i (j + 1) := by
    by_cases hinertia : g.isInertia = true
    · have hnone : S.mark i j = none := hm.trans (Gate.mark?_eq_none_iff.mpr hinertia)
      have hkind : g.kind = .inertia := GateKind.isInertia_iff.mp hinertia
      refine ⟨fun r hr hr' => ?_, ?_, h.traced.put_inertia hs hbound hi hj hnone hkind⟩
      · have hspan : (e.newGate g.kind).1.span = 1 := by
          show g.kind.span = 1
          rw [hkind]
          rfl
        rw [Grid.mark_openColumn hbound, show r = i by omega]
        exact h.traced.free_of_none hs hnone
      · show i + g.kind.span ≤ S.rows
        rw [hkind]
        exact hi
    · have hvisible : g.kind.isPlaceholder = false := by
        unfold Gate.isInertia at hinertia
        cases hk : g.kind <;> simp [hk, GateKind.isInertia, GateKind.isPlaceholder] at hinertia hg ⊢
      have hgate : S.mark i j = some (.gate g.id g.kind) := hm.trans (Gate.mark?_eq_gate_iff.mpr ⟨rfl, rfl, hvisible⟩)
      have hrows := hS.add_span_le hs hgate
      refine ⟨fun r hr hr' => ?_, hrows, h.traced.put hs hbound hj hgate hrows rfl hvisible⟩
      rw [Grid.mark_openColumn hbound]
      exact h.traced.free hs hgate r hr hr'
  have hsound := h.sound.newGate g.kind
  have hshow := shows_attachAt (c := (e.newGate g.kind).2) h.sound.shows (e.newGate g.kind).1 hrow hcolumn hnext.1
  have hkept' := (kept_newGate e g.kind).trans (kept_attachAt (e.newGate g.kind).2 (e.newGate g.kind).1 i j)
  refine ⟨⟨?_, hkept'.closed Wire.closed_collapsed h.collapsed, ?_⟩, hkept', ?_⟩
  · exact hsound.attachAt hP hg hrow hcolumn hnext.1
  · rw [hshow.eq_gridOf]
    exact hnext.2.2
  · refine (map_face_attachAt (c := (e.newGate g.kind).2) ?_)
    show i + g.span ≤ e.wires.length
    have : e.wires.length = S.rows := h.traced.rows
    omega

theorem modifyWire (h : Replay P S e i j) {f : Wire K → Wire K} (hid : ∀ w, (f w).id = w.id)
    (hcells : ∀ w, (f w).cells = w.cells) (hpivot : ∀ w, (f w).pivot = w.pivot) (row : Nat) :
    Replay P S (e.modifyWire row f) i j where
  sound := h.sound.modifyWire hid hcells row
  collapsed := (Intact.modifyWire ⟨h.sound, h.collapsed⟩ hid hcells hpivot row).collapsed
  traced := by
    rw [show gridOf (e.modifyWire row f).wires = gridOf e.wires from gridOf_congr (map_modify_of_eq hcells e.wires row)]
    exact h.traced

/-- The rest of a row is placed. -/
theorem placeRow (h : Replay P S e i j) (hS : Shows ws S) (hs : S.Spanned) (hi : i < S.rows) (gs : List Gate)
    (hgs : ∀ t g, gs[t]? = some g → S.mark i (j + t) = g.mark?) (hlength : j + gs.length = S.columns)
    (hP : ∀ g ∈ gs, (∀ p, g.kind ≠ .support p) → P g.kind) :
    Replay P S (e.placeRow i j (gs.map Gate.placed)) i S.columns ∧ Kept e (e.placeRow i j (gs.map Gate.placed)) ∧
      (e.placeRow i j (gs.map Gate.placed)).wires.map Wire.face = e.wires.map Wire.face := by
  induction gs generalizing e j with
  | nil =>
    have hj : j = S.columns := hlength
    exact ⟨hj ▸ h, .refl e, rfl⟩
  | cons g gs ih =>
    have hm : S.mark i j = g.mark? := hgs 0 g rfl
    have hgs' : ∀ t o, gs[t]? = some o → S.mark i (j + 1 + t) = o.mark? := fun t o ho => by
      rw [show j + 1 + t = j + (t + 1) by omega]
      exact hgs (t + 1) o ho
    have hlength' : j + 1 + gs.length = S.columns := by
      rw [List.length_cons] at hlength
      omega
    have hP' : ∀ o ∈ gs, (∀ p, o.kind ≠ .support p) → P o.kind := fun o ho => hP o (List.mem_cons_of_mem g ho)
    by_cases hg : ∃ p, g.kind = .support p
    · obtain ⟨p, hp⟩ := hg
      rw [List.map_cons, Gate.placed_support hp]
      exact ih ⟨h.sound, h.collapsed, h.traced.skip hs (hm.trans (Gate.mark?_eq_cover_iff.mpr hp))⟩ hgs' hlength' hP'
    · have hg : ∀ p, g.kind ≠ .support p := fun p hp => hg ⟨p, hp⟩
      obtain ⟨hplace, hkept, hface⟩ := h.place hS hs hi (by omega) hm hg (hP g List.mem_cons_self hg)
      obtain ⟨hrow, hkept', hface'⟩ := ih hplace hgs' hlength' hP'
      rw [List.map_cons, Gate.placed_of_ne hg]
      exact ⟨hrow, hkept.trans hkept', hface'.trans hface⟩

end Replay

/-! ### All rows -/

/-- Kets, names and colors. -/
def Parts.wiring (parts : Parts) (chosen : Bool) : Prop :=
  parts.kets = chosen ∧ parts.names = chosen ∧ parts.colors = chosen

section Rows

variable {P : GateKind → Prop} {e : Circuit K} {vs : List (Wire K)} {parts preserved : Parts}

omit [Coordinate K] in
theorem Wire.face_dressed {w : Wire K} (hw : w.face = blankFace) (v : Wire K) (hparts : parts.wiring true)
    (hpreserved : preserved.wiring false) : (w.dressed (v.record parts) preserved).face = v.face := by
  obtain ⟨hk, hn, hc⟩ := hparts
  obtain ⟨hk', hn', hc'⟩ := hpreserved
  have hname : w.name = "" := congrArg Prod.fst hw
  unfold Wire.dressed Wire.record Wire.face
  simp only [hk, hn, hc, hk', hn', hc', if_true, Bool.or_false, Option.getD_some, Prod.mk.injEq]
  by_cases hempty : v.name.isEmpty = true
  · have : v.name = "" := String.isEmpty_iff.mp hempty
    simp [this, hname]
  · simp [hempty]

/-- The first `i` wires have the faces of `vs`, and the others have none yet. -/
def Faced (vs ws : List (Wire K)) (i : Nat) : Prop :=
  ∀ r, (ws[r]?).map Wire.face = (vs[r]?).map fun v => if r < i then v.face else blankFace

namespace Faced

variable {ws us : List (Wire K)} {i : Nat}

omit [Coordinate K] in
theorem start (h : ws.map Wire.face = List.replicate vs.length blankFace) : Faced vs ws 0 := by
  intro r
  rw [← List.getElem?_map, h, List.getElem?_replicate]
  split
  · rename_i hr
    rw [List.getElem?_eq_getElem hr]
    rfl
  · rename_i hr
    rw [List.getElem?_eq_none (Nat.le_of_not_lt hr)]
    rfl

omit [Coordinate K] in
theorem congr (h : Faced vs ws i) (hface : us.map Wire.face = ws.map Wire.face) : Faced vs us i := fun r => by
  rw [← List.getElem?_map, hface, List.getElem?_map]
  exact h r

omit [Coordinate K] in
theorem done (h : Faced vs ws vs.length) : ws.map Wire.face = vs.map Wire.face := by
  refine List.ext_getElem? fun r => ?_
  rw [List.getElem?_map, List.getElem?_map, h r]
  cases hv : vs[r]? with
  | none => rfl
  | some v => rw [Option.map_some, Option.map_some, if_pos (List.getElem?_eq_some_iff.mp hv).1]

omit [Coordinate K] in
theorem next (h : Faced vs ws i) {w : Wire K} (hw : vs[i]? = some w) (hparts : parts.wiring true)
    (hpreserved : preserved.wiring false) :
    Faced vs (ws.modify i fun v => v.dressed (w.record parts) preserved) (i + 1) := by
  intro r
  have hr := h r
  rw [List.getElem?_modify]
  cases hv : vs[r]? with
  | none =>
    rw [hv, Option.map_none, Option.map_eq_none_iff] at hr
    rw [hr]
    rfl
  | some v =>
    rw [hv, Option.map_some] at hr
    obtain ⟨u, hu, hface⟩ := Option.map_eq_some_iff.mp hr
    rw [hu]
    show some ((if i = r then u.dressed (w.record parts) preserved else u).face) =
      some (if r < i + 1 then v.face else blankFace)
    by_cases heq : i = r
    · subst heq
      rw [if_neg (Nat.lt_irrefl i)] at hface
      rw [hw] at hv
      cases hv
      rw [if_pos rfl, if_pos (Nat.lt_succ_self i), Wire.face_dressed hface w hparts hpreserved]
    · rw [if_neg heq, hface]
      by_cases hlt : r < i
      · rw [if_pos hlt, if_pos (by omega)]
      · rw [if_neg hlt, if_neg (by omega)]

end Faced

/-- The circuit with the wires `vs` placed row by row, from row `i` on. The faces come along if they are recorded. -/
theorem replay_placeRows (ws : List (Wire K)) (hS : Shows vs (gridOf vs)) (hs : (gridOf vs).Spanned)
    (hP : ∀ w ∈ vs, ∀ g ∈ w.cells, (∀ p, g.kind ≠ .support p) → P g.kind) (parts preserved : Parts) {i : Nat}
    (h : Replay P (gridOf vs) e i 0) (hws : ∀ t, ws[t]? = vs[i + t]?) (hlength : i + ws.length = vs.length) :
    let d := placeRows preserved e i (ws.map fun w => (w.record parts, w.cells.map Gate.placed))
    Replay P (gridOf vs) d vs.length 0 ∧ Rest e d ∧
      (parts.wiring true → preserved.wiring false → Faced vs e.wires i → d.wires.map Wire.face = vs.map Wire.face) := by
  induction ws generalizing e i with
  | nil =>
    have hi : i = vs.length := hlength
    exact ⟨hi ▸ h, ⟨rfl, rfl, rfl, rfl, rfl⟩, fun _ _ hface => (hi ▸ hface : Faced vs e.wires vs.length).done⟩
  | cons w ws ih =>
    have hw : vs[i]? = some w := by
      rw [← Nat.add_zero i, ← hws 0]
      rfl
    have hi := (List.getElem?_eq_some_iff.mp hw).1
    have hmem := List.mem_of_getElem? hw
    -- The wire takes the face that is recorded, which leaves its cells.
    have hdressed := h.modifyWire (f := fun v => v.dressed (w.record parts) preserved) (fun _ => rfl) (fun _ => rfl)
      (fun _ => rfl) i
    have hmodify : Rest e (e.modifyWire i fun v => v.dressed (w.record parts) preserved) := ⟨rfl, rfl, rfl, rfl, rfl⟩
    have hmarks : ∀ t g, w.cells[t]? = some g → (gridOf vs).mark i (0 + t) = g.mark? := fun t g hg => by
      rw [Nat.zero_add]
      refine (markIn_of_getElem? hw).trans ?_
      unfold Wire.mark?
      rw [hg]
      rfl
    have hcells : 0 + w.cells.length = (gridOf vs).columns := (Nat.zero_add _).trans (hS.aligned w hmem)
    obtain ⟨hrow, hkept, hrowface⟩ := hdressed.placeRow hS hs hi w.cells hmarks hcells (hP w hmem)
    have hnext := hrow.traced.next_row (fun r k hk => hS.mark_of_columns_le r hk)
      (fun r k hk => hrow.sound.shows.mark_of_columns_le r hk)
    have hws' : ∀ t, ws[t]? = vs[i + 1 + t]? := fun t => by
      have := hws (t + 1)
      rwa [List.getElem?_cons_succ, show i + (t + 1) = i + 1 + t by omega] at this
    have hlength' : i + 1 + ws.length = vs.length := by
      rw [← hlength, List.length_cons]
      omega
    obtain ⟨hd, hrest, hfaces⟩ := ih ⟨hrow.sound, hrow.collapsed, hnext⟩ hws' hlength'
    exact ⟨hd, (hmodify.trans hkept.rest).trans hrest, fun hparts hpreserved hface =>
      hfaces hparts hpreserved ((hface.next hw hparts hpreserved).congr hrowface)⟩

end Rows

/-! ### Stamps -/

omit [Coordinate K] in
theorem resolve_capture {c : Circuit K} {catalog : Catalog} (parts : Parts)
    (hk : ∀ w ∈ c.wires, ∀ g ∈ w.cells, (∀ p, g.kind ≠ .support p) → g.kind.Known catalog) :
    (c.capture parts).resolve catalog = .ok (c.wires.map fun w => w.cells.map Gate.placed) := by
  unfold Template.resolve capture
  dsimp only
  rw [List.mapM_map]
  refine mapM_eq_ok fun w hw => ?_
  show (w.cells.map fun g => g.kind.stamp).mapM _ = _
  rw [List.mapM_map]
  refine mapM_eq_ok fun g hg => ?_
  simp only [Function.comp_apply]
  by_cases hg' : ∃ p, g.kind = .support p
  · obtain ⟨p, hp⟩ := hg'
    rw [Gate.placed_support hp, hp, show (GateKind.support p).stamp = "supp" from rfl]
    rfl
  · have hne : ∀ p, g.kind ≠ .support p := fun p hp => hg' ⟨p, hp⟩
    have hknown := hk w hw g hg hne
    rw [Gate.placed_of_ne hne, hknown.isSupport_stamp, hknown]
    rfl

omit [Coordinate K] in
theorem validate_capture {c : Circuit K} {catalog : Catalog} (parts : Parts)
    (hk : ∀ w ∈ c.wires, ∀ g ∈ w.cells, (∀ p, g.kind ≠ .support p) → g.kind.Known catalog) :
    (c.capture parts).validate catalog = .ok () := by
  unfold Template.validate
  rw [resolve_capture parts hk]
  rfl

/-! ### The result -/

/-- The kind but for numbers is read off the mark. -/
theorem Gate.kind_plain (g : Gate) : g.kind.plain = (g.mark?.map Mark.kind).getD .inertia := by
  unfold Gate.mark?
  cases g.kind <;> rfl

theorem Wire.pivot_of_collapsed {v w : Wire K} (hv : v.Collapsed) (hw : w.Collapsed) (h : v.kinds = w.kinds) :
    v.pivot = w.pivot := by
  have hfind : ∀ w : Wire K, (w.cells.findIdx? fun g => g.kind.isMeasurement) =
      w.kinds.findIdx? GateKind.isMeasurement := fun w => by
    rw [Wire.kinds, List.findIdx?_map]
    congr 1
    funext g
    exact (GateKind.isMeasurement_plain g.kind).symm
  rw [hv, hw, hfind, h, ← hfind]

theorem Wire.bare_of_kinds {v w : Wire K} (hv : v.Collapsed) (hw : w.Collapsed) (hface : v.face = w.face)
    (hkinds : v.kinds = w.kinds) : v.bare = w.bare := by
  have hname : v.name = w.name := congrArg Prod.fst hface
  have hket : v.ket = w.ket := congrArg (fun face => face.2.1) hface
  have hcolor : v.color = w.color := congrArg (fun face => face.2.2) hface
  have hmap : ∀ w : Wire K, w.cells.map Gate.bare = w.kinds.map fun kind => { id := ⟨0⟩, kind } := fun w => by
    rw [Wire.kinds, List.map_map]
    rfl
  unfold Wire.bare
  rw [hname, hket, hcolor, Wire.pivot_of_collapsed hv hw hkinds, hmap, hkinds, ← hmap]

omit [Coordinate K] in
theorem Wire.kinds_of_marks {v w : Wire K} (hlength : v.cells.length = w.cells.length)
    (hmarks : ∀ k, (v.mark? k).map Mark.kind = (w.mark? k).map Mark.kind) : v.kinds = w.kinds := by
  refine List.ext_getElem? fun k => ?_
  rw [Wire.kinds, Wire.kinds, List.getElem?_map, List.getElem?_map]
  have hmark := hmarks k
  unfold Wire.mark? at hmark
  rcases Nat.lt_or_ge k v.cells.length with hk | hk
  · have hk' : k < w.cells.length := by omega
    rw [List.getElem?_eq_getElem hk, List.getElem?_eq_getElem hk'] at hmark ⊢
    rw [Option.map_some, Option.map_some, Gate.kind_plain, Gate.kind_plain]
    exact congrArg (fun m : Option GateKind => some (m.getD .inertia)) hmark
  · rw [List.getElem?_eq_none hk, List.getElem?_eq_none (by omega)]

omit [Coordinate K] in
/-- Wires that show the same kinds hold the same kinds. -/
theorem map_kinds_of_marks {vs ws : List (Wire K)} (hv : Shows vs (gridOf vs)) (hw : Shows ws (gridOf ws))
    (hrows : vs.length = ws.length) (hcolumns : columnsOf vs = columnsOf ws)
    (hmarks : ∀ r k, ((gridOf vs).mark r k).map Mark.kind = ((gridOf ws).mark r k).map Mark.kind) :
    vs.map Wire.kinds = ws.map Wire.kinds := by
  refine List.ext_getElem (by simpa using hrows) fun r hr hr' => ?_
  rw [List.length_map] at hr hr'
  rw [List.getElem_map, List.getElem_map]
  have hlength : vs[r].cells.length = ws[r].cells.length :=
    (hv.aligned _ (List.getElem_mem hr)).trans (hcolumns.trans (hw.aligned _ (List.getElem_mem hr')).symm)
  refine Wire.kinds_of_marks hlength fun k => ?_
  have hmark := hmarks r k
  rwa [show (gridOf vs).mark r k = vs[r].mark? k from markIn_of_getElem? (List.getElem?_eq_getElem hr),
    show (gridOf ws).mark r k = ws[r].mark? k from markIn_of_getElem? (List.getElem?_eq_getElem hr')] at hmark

/-- Wires with the same kinds and the same faces are alike up to numbers. -/
theorem map_bare_of_kinds {vs ws : List (Wire K)} (hkinds : vs.map Wire.kinds = ws.map Wire.kinds)
    (hface : vs.map Wire.face = ws.map Wire.face) (hcv : ∀ v ∈ vs, v.Collapsed) (hcw : ∀ w ∈ ws, w.Collapsed) :
    vs.map Wire.bare = ws.map Wire.bare := by
  have hlength : vs.length = ws.length := by simpa using congrArg List.length hkinds
  refine List.ext_getElem (by simpa using hlength) fun r hr hr' => ?_
  rw [List.length_map] at hr hr'
  rw [List.getElem_map, List.getElem_map]
  refine Wire.bare_of_kinds (hcv _ (List.getElem_mem hr)) (hcw _ (List.getElem_mem hr')) ?_ ?_
  · simpa [hr, hr'] using congrArg (fun faces => faces[r]?) hface
  · simpa [hr, hr'] using congrArg (fun kinds => kinds[r]?) hkinds

/-- Every kind on the wires is read back from its stamp. -/
def Resolves (catalog : Catalog) (ws : List (Wire K)) : Prop :=
  ∀ w ∈ ws, ∀ g ∈ w.cells, (∀ p, g.kind ≠ .support p) → g.kind.Known catalog

/-- The circuit without wires. -/
def Circuit.stripped (d : Circuit K) : Circuit K := { d with wires := [] }

/-- Empty wires trace nothing yet. -/
theorem replay_empty (P : GateKind → Prop) (d : Circuit K) (S : Grid) :
    Replay P S (d.stripped.addWires S.rows) 0 0 ∧ Rest d (d.stripped.addWires S.rows) ∧
      (d.stripped.addWires S.rows).wires.map Wire.face = List.replicate S.rows blankFace := by
  have hnil : Shows d.stripped.wires ⟨0, 0, fun _ _ => none⟩ :=
    ⟨rfl, rfl, fun _ hw => (List.not_mem_nil hw).elim, fun _ _ => rfl⟩
  have hkept := kept_addWires d.stripped S.rows
  have hstripped : Rest d d.stripped := ⟨rfl, rfl, rfl, rfl, rfl⟩
  refine ⟨⟨(Sound.of_nil rfl).addWires S.rows,
    hkept.closed Wire.closed_collapsed fun w hw => (List.not_mem_nil hw).elim, ?_⟩, hstripped.trans hkept.rest, ?_⟩
  · rw [(shows_addWires hnil S.rows).eq_gridOf]
    have := Grid.Traced.empty S
    unfold Grid.addRows
    rwa [Nat.zero_add]
  · rw [map_face_addWires]
    rfl

/-- The circuit with settings and history of a template, but for the parts to preserve. -/
def Circuit.completed (b : Circuit K) (t : Template) (preserved : Parts) : Circuit K :=
  { b with
    undos := if preserved.history then b.undos else t.undos.getD b.undos
    redos := if preserved.history then b.redos else t.redos.getD b.redos
    settings := b.settings.dressed t preserved }

/-- What a template restores once its stamps are read. -/
theorem restore_eq {d : Circuit K} {t : Template} {rows : List (List (Option GateKind))}
    (h : t.resolve d.catalog = .ok rows) (preserved : Parts) :
    d.restore t preserved = .ok ((placeRows preserved (d.stripped.addWires t.wires.length) 0
      (t.wires.zip rows)).completed t preserved).refresh := by
  unfold restore
  rw [h]
  rfl

theorem kept_placeRow (e : Circuit K) (row column : Nat) (kinds : List (Option GateKind)) :
    Kept e (e.placeRow row column kinds) := by
  induction kinds generalizing e column with
  | nil => exact .refl e
  | cons cell kinds ih =>
    cases cell with
    | none => exact ih e _
    | some kind => exact ((kept_newGate e kind).trans (kept_attachAt _ _ row column)).trans (ih _ _)

theorem rest_placeRows (preserved : Parts) (e : Circuit K) (row : Nat)
    (todo : List (WireRecord × List (Option GateKind))) :
    Rest e (placeRows preserved e row todo) := by
  induction todo generalizing e row with
  | nil => exact ⟨rfl, rfl, rfl, rfl, rfl⟩
  | cons r todo ih =>
    have hmodify : Rest e (e.modifyWire row fun w => w.dressed r.1 preserved) := ⟨rfl, rfl, rfl, rfl, rfl⟩
    exact (hmodify.trans (kept_placeRow _ row 0 r.2).rest).trans (ih _ _)

/-- What a restored circuit has from the template and what from the circuit that it replaces. -/
structure Circuit.Restored (d : Circuit K) (t : Template) (preserved : Parts) (e : Circuit K) : Prop where
  refreshed : e.refresh = e
  catalog : e.catalog = d.catalog
  settings : e.settings = d.settings.dressed t preserved
  undos : e.undos = if preserved.history then d.undos else t.undos.getD d.undos
  redos : e.redos = if preserved.history then d.redos else t.redos.getD d.redos

theorem restored_of_restore {d e : Circuit K} {t : Template} {preserved : Parts} (h : d.restore t preserved = .ok e) :
    d.Restored t preserved e := by
  obtain ⟨rows, hrows, -⟩ := exists_of_bind h
  rw [restore_eq hrows] at h
  obtain rfl := Except.ok.inj h
  obtain ⟨-, hempty, -⟩ := replay_empty (fun _ => True) d ⟨t.wires.length, 0, fun _ _ => none⟩
  obtain ⟨hsettings, hundos, hredos, hcatalog, -⟩ :=
    hempty.trans (rest_placeRows preserved (d.stripped.addWires t.wires.length) 0 (t.wires.zip rows))
  obtain ⟨hsettings', hundos', hredos', hcatalog', -⟩ := rest_refresh
    ((placeRows preserved (d.stripped.addWires t.wires.length) 0 (t.wires.zip rows)).completed t preserved)
  refine ⟨refresh_refresh _, hcatalog'.trans hcatalog, hsettings'.trans ?_, hundos'.trans ?_, hredos'.trans ?_⟩
  · simp only [completed, hsettings]
  · simp only [completed, hundos]
  · simp only [completed, hredos]

/-- A circuit is restored from a template of a consistent circuit whose kinds its catalog knows. Before it is
    refreshed, it has the kinds of which the template was taken, and the faces too if they are recorded. -/
theorem exists_restore_kinds {c : Circuit K} (hc : c.Consistent) (d : Circuit K) (hk : Resolves d.catalog c.wires)
    (parts preserved : Parts) :
    ∃ e : Circuit K, d.restore (c.capture parts) preserved = .ok e.refresh ∧
      e.wires.map Wire.kinds = c.wires.map Wire.kinds ∧
      (parts.wiring true → preserved.wiring false → e.wires.map Wire.face = c.wires.map Wire.face) ∧
      e.Intact (GateKind.Known d.catalog) [] ∧ e.catalog = d.catalog ∧
      e.settings = d.settings.dressed (c.capture parts) preserved ∧
      e.undos = (if preserved.history then d.undos else (c.capture parts).undos.getD d.undos) ∧
      e.redos = (if preserved.history then d.redos else (c.capture parts).redos.getD d.redos) := by
  have hS := hc.shows
  obtain ⟨hempty, hrest, hblank⟩ := replay_empty (GateKind.Known d.catalog) d (gridOf c.wires)
  obtain ⟨hdone, hrest', hface⟩ := replay_placeRows c.wires hS hc.spanned hk parts preserved hempty
    (fun t => by rw [Nat.zero_add]) (Nat.zero_add _)
  have hall := hrest.trans hrest'
  have hface := fun hparts hpreserved => hface hparts hpreserved (Faced.start hblank)
  generalize hb : placeRows preserved (d.stripped.addWires (gridOf c.wires).rows) 0
    (c.wires.map fun w => (w.record parts, w.cells.map Gate.placed)) = b at hdone hface hall
  have hkinds := hdone.traced.kinds_eq (fun r k hr => hS.mark_of_rows_le hr k)
    fun r k hr => hdone.sound.shows.mark_of_rows_le hr k
  have hcolumns : columnsOf b.wires = columnsOf c.wires := by
    have hcolumns := hdone.traced.columns
    split at hcolumns
    · rename_i hnil
      rw [List.eq_nil_of_length_eq_zero hnil]
      exact hcolumns
    · exact hcolumns
  refine ⟨b.completed (c.capture parts) preserved, ?_,
    map_kinds_of_marks hdone.sound.shows hS hdone.traced.rows hcolumns hkinds, hface,
    ⟨hdone.sound.congr rfl rfl, hdone.collapsed⟩, hall.catalog, ?_, ?_, ?_⟩
  · have hzip : (c.capture parts).wires.zip (c.wires.map fun w => w.cells.map Gate.placed) =
        c.wires.map fun w => (w.record parts, w.cells.map Gate.placed) := by
      show (c.wires.map fun w => w.record parts).zip _ = _
      rw [List.zip_map']
    have hlength : (c.capture parts).wires.length = (gridOf c.wires).rows := List.length_map _
    rw [restore_eq (resolve_capture parts hk), hzip, hlength, hb]
  · show b.settings.dressed _ _ = _
    rw [hall.settings]
  · show (if preserved.history then b.undos else _) = _
    rw [hall.undos]
  · show (if preserved.history then b.redos else _) = _
    rw [hall.redos]

/-- With the faces recorded it has wires like those of which the template was taken. -/
theorem exists_restore {c : Circuit K} (hc : c.Consistent) (d : Circuit K) (hk : Resolves d.catalog c.wires)
    (parts preserved : Parts) (hparts : parts.wiring true) (hpreserved : preserved.wiring false) :
    ∃ e : Circuit K, d.restore (c.capture parts) preserved = .ok e.refresh ∧
      e.wires.map Wire.bare = c.wires.map Wire.bare ∧ e.Sound (GateKind.Known d.catalog) [] ∧
      (∀ w ∈ e.wires, w.Collapsed) ∧ e.catalog = d.catalog ∧
      e.settings = d.settings.dressed (c.capture parts) preserved ∧
      e.undos = (if preserved.history then d.undos else (c.capture parts).undos.getD d.undos) ∧
      e.redos = (if preserved.history then d.redos else (c.capture parts).redos.getD d.redos) := by
  obtain ⟨e, he, hkinds, hface, hintact, hrest⟩ := exists_restore_kinds hc d hk parts preserved
  exact ⟨e, he, map_bare_of_kinds hkinds (hface hparts hpreserved) hintact.collapsed hc.collapsed, hintact.toSound,
    hintact.collapsed, hrest⟩

end CircuitDesigner
