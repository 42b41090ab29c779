import CircuitDesigner.Proofs.Editing.Badges
import CircuitDesigner.Proofs.Restore.Rebuild
import Mathlib.Data.List.GetD

/-! Parts that a template leaves.

    Settings and history to preserve come through when a template is applied. Wires are made anew, so that a part of
    theirs to preserve is only kept from the template: it comes out as a fresh wire has it, which is what it was just
    where nobody had changed it (`restore_keeps`, `restore_forgets`). -/

namespace CircuitDesigner

open Circuit

variable {K : Type}

/-! ### What is kept -/

/-- The parts to preserve that are not of a wire are the same. -/
structure Circuit.KeepsSettings (c : Circuit K) (preserved : Parts) (d : Circuit K) : Prop where
  endianness : preserved.endianness = true → d.settings.endianness = c.settings.endianness
  minQubits : preserved.minQubits = true → d.settings.minQubits = c.settings.minQubits
  shots : preserved.shots = true → d.settings.shots = c.settings.shots
  undos : preserved.history = true → d.undos = c.undos
  redos : preserved.history = true → d.redos = c.redos

/-- The parts to preserve of a wire are the same. -/
structure Wire.Keeps (w : Wire K) (preserved : Parts) (v : Wire K) : Prop where
  ket : preserved.kets = true → v.ket = w.ket
  name : preserved.names = true → v.name = w.name
  color : preserved.colors = true → v.color = w.color

/-- The parts to preserve of a wire are those of a fresh one. -/
structure Wire.Plain (w : Wire K) (preserved : Parts) : Prop where
  ket : preserved.kets = true → w.ket = .zero
  name : preserved.names = true → w.name = ""
  color : preserved.colors = true → w.color = .transparent

theorem Wire.Plain.keeps_iff {w v : Wire K} {preserved : Parts} (h : v.Plain preserved) :
    w.Keeps preserved v ↔ w.Plain preserved := by
  constructor
  · intro hkeeps
    exact ⟨fun hp => (hkeeps.ket hp).symm.trans (h.ket hp), fun hp => (hkeeps.name hp).symm.trans (h.name hp),
      fun hp => (hkeeps.color hp).symm.trans (h.color hp)⟩
  · intro hw
    exact ⟨fun hp => (h.ket hp).trans (hw.ket hp).symm, fun hp => (h.name hp).trans (hw.name hp).symm,
      fun hp => (h.color hp).trans (hw.color hp).symm⟩

/-! ### Faces of fresh wires -/

/-- The face that a fresh wire gets from its record, but for the parts to preserve. -/
def WireRecord.face (preserved : Parts) (r : WireRecord) : String × Ket × RegisterColor :=
  (({ id := ⟨0⟩ } : Wire Unit).dressed r preserved).face

theorem Wire.face_dressed_of_blank {w : Wire K} (h : w.face = blankFace) (r : WireRecord) (preserved : Parts) :
    (w.dressed r preserved).face = r.face preserved := by
  obtain ⟨hname, hrest⟩ := Prod.mk.inj h
  obtain ⟨hket, hcolor⟩ := Prod.mk.inj hrest
  unfold WireRecord.face Wire.dressed Wire.face
  rw [hname, hket, hcolor]

theorem Wire.plain_of_face {v : Wire K} {preserved : Parts} {r? : Option WireRecord}
    (h : v.face = (r?.map (WireRecord.face preserved)).getD blankFace) : v.Plain preserved := by
  obtain ⟨hname, hrest⟩ := Prod.mk.inj h
  obtain ⟨hket, hcolor⟩ := Prod.mk.inj hrest
  cases r? with
  | none => exact ⟨fun _ => hket, fun _ => hname, fun _ => hcolor⟩
  | some r =>
    refine ⟨fun hp => hket.trans (if_pos hp), fun hp => hname.trans ?_, fun hp => hcolor.trans (if_pos hp)⟩
    unfold WireRecord.face Wire.dressed Wire.face
    dsimp only [Option.map_some, Option.getD_some]
    split
    · rw [hp, Bool.or_true, if_pos rfl]
    · rfl

theorem getD_append_replicate {α : Type} (l : List α) (n r : Nat) (blank : α) :
    ((l ++ List.replicate n blank)[r]?).getD blank = (l[r]?).getD blank := by
  rcases Nat.lt_or_ge r l.length with hr | hr
  · rw [List.getElem?_append_left hr]
  · rw [List.getElem?_append_right hr, List.getElem?_getD_replicate_default_eq, List.getElem?_eq_none hr,
      Option.getD_none]

/-- The face of one wire is changed. -/
theorem map_face_modify {f : Wire K → Wire K} {before after : List (String × Ket × RegisterColor)}
    {face face' : String × Ket × RegisterColor} {ws : List (Wire K)} (h : ws.map Wire.face = before ++ face :: after)
    (hf : ∀ w, w.face = face → (f w).face = face') :
    (ws.modify before.length f).map Wire.face = before ++ face' :: after := by
  obtain ⟨ws, rest, rfl, rfl, hrest⟩ := List.map_eq_append_iff.mp h
  obtain ⟨w, us, rfl, hw, rfl⟩ := List.map_eq_cons_iff.mp hrest
  have hmodify : (ws ++ w :: us).modify ws.length f = ws ++ f w :: us := by
    clear h hrest
    induction ws <;> simp [*]
  rw [List.length_map, hmodify, List.map_append, List.map_cons, hf w hw]

/-- The wires have the same faces, and any new ones below them are fresh. -/
def Circuit.Padded (c d : Circuit K) : Prop :=
  ∃ n, d.wires.map Wire.face = c.wires.map Wire.face ++ List.replicate n blankFace

namespace Circuit.Padded

variable {c d e : Circuit K}

theorem of_eq (h : d.wires.map Wire.face = c.wires.map Wire.face) : c.Padded d := ⟨0, by rw [h]; simp⟩

theorem trans (h : c.Padded d) (h' : d.Padded e) : c.Padded e := by
  obtain ⟨n, hn⟩ := h
  obtain ⟨m, hm⟩ := h'
  exact ⟨n + m, by rw [hm, hn, List.append_assoc, List.replicate_append_replicate]⟩

variable [Coordinate K]

theorem putSupports (c : Circuit K) (parent : GateId) (column row count : Nat) :
    c.Padded (c.putSupports parent column row count) := by
  induction count generalizing c row with
  | zero => exact .of_eq rfl
  | succ count ih =>
    have hwires : c.Padded (c.addWires (row + 1 - c.wires.length)) := ⟨_, map_face_addWires c _⟩
    rw [Circuit.putSupports]
    refine (hwires.trans (.of_eq ?_)).trans (ih _ (row + 1))
    exact map_face_putCell _ _ row column false

theorem attachAt (c : Circuit K) (g : Gate) (row column : Nat) : c.Padded (c.attachAt g row column) := by
  unfold Circuit.attachAt
  split
  · exact .trans (.of_eq (map_face_putCell c g row _ false)) (putSupports _ _ _ _ _)
  · exact .of_eq rfl

theorem placeRow (c : Circuit K) (row column : Nat) (kinds : List (Option GateKind)) :
    c.Padded (c.placeRow row column kinds) := by
  induction kinds generalizing c column with
  | nil => exact .of_eq rfl
  | cons cell kinds ih =>
    cases cell with
    | none => exact ih c (column + 1)
    | some kind =>
      have hgate : c.Padded (c.newGate kind).2 := .of_eq rfl
      exact (hgate.trans (attachAt _ _ row column)).trans (ih _ (column + 1))

end Circuit.Padded

/-! ### Restored wires -/

section Restore

variable [Coordinate K] {c d : Circuit K} {t : Template} {preserved : Parts}

/-- Rows that start as fresh wires get their faces from the records, and there are only fresh wires below them. -/
theorem exists_faces_placeRows (preserved : Parts) (todo : List (WireRecord × List (Option GateKind)))
    {before : List (String × Ket × RegisterColor)} {count : Nat}
    (h : c.wires.map Wire.face = before ++ List.replicate (todo.length + count) blankFace) :
    ∃ n, (placeRows preserved c before.length todo).wires.map Wire.face =
      before ++ todo.map (fun p => p.1.face preserved) ++ List.replicate n blankFace := by
  -- The rows of `before` are done. Those to do are fresh, and so are the wires that gates make below them.
  induction todo generalizing c before count with
  | nil => exact ⟨0 + count, by rw [List.map_nil, List.append_nil]; exact h⟩
  | cons p todo ih =>
    obtain ⟨r, kinds⟩ := p
    rw [List.length_cons, show todo.length + 1 + count = todo.length + count + 1 by omega, List.replicate_succ] at h
    have hdressed : (c.modifyWire before.length fun w => w.dressed r preserved).wires.map Wire.face =
        before ++ r.face preserved :: List.replicate (todo.length + count) blankFace :=
      map_face_modify h fun w hw => w.face_dressed_of_blank hw r preserved
    obtain ⟨m, hm⟩ := Padded.placeRow (c.modifyWire before.length fun w => w.dressed r preserved) before.length 0 kinds
    have hplaced : ((c.modifyWire before.length fun w => w.dressed r preserved).placeRow before.length 0
        kinds).wires.map Wire.face =
        before ++ [r.face preserved] ++ List.replicate (todo.length + (count + m)) blankFace := by
      rw [hm, hdressed, List.append_assoc, List.append_assoc, List.cons_append, List.replicate_append_replicate,
        List.singleton_append, Nat.add_assoc]
    obtain ⟨n, hn⟩ := ih hplaced
    refine ⟨n, ?_⟩
    rw [List.length_append, List.length_singleton] at hn
    rw [placeRows, hn, List.append_assoc before, List.map_cons, List.singleton_append]

/-- A refresh leaves faces from the top on, with fresh wires below them. -/
theorem exists_faces_refresh (c : Circuit K) :
    ∃ n, c.refresh.wires.map Wire.face <+: c.wires.map Wire.face ++ List.replicate n blankFace := by
  refine ⟨c.settings.minQubits - c.wires.length, ?_⟩
  have hfaces : ∀ e : Circuit K, e.badges.map Prod.snd = e.wires.map Wire.face := fun e => List.map_map
  have hnext : ∀ count, (c.nextBadges count).map Prod.snd = List.replicate count blankFace := fun count => by
    unfold nextBadges
    rw [List.map_map]
    refine List.map_const'.trans ?_
    rw [List.length_range']
    rfl
  have hprefix := (badges_refresh c).map Prod.snd
  rwa [List.map_append, hfaces, hfaces, hnext] at hprefix

theorem exists_faces_restore (h : c.restore t preserved = .ok d) :
    ∃ n, d.wires.map Wire.face <+: t.wires.map (WireRecord.face preserved) ++ List.replicate n blankFace := by
  obtain ⟨rows, hrows, -⟩ := exists_of_bind h
  rw [restore_eq hrows] at h
  obtain rfl := Except.ok.inj h
  have hlength : t.wires.length = rows.length := length_of_mapM hrows
  have hstart : (c.stripped.addWires t.wires.length).wires.map Wire.face =
      [] ++ List.replicate ((t.wires.zip rows).length + 0) blankFace := by
    rw [map_face_addWires, List.length_zip, ← hlength, Nat.min_self]
    rfl
  have hzip : (t.wires.zip rows).map (fun p => p.1.face preserved) = t.wires.map (WireRecord.face preserved) := by
    have hfst := List.map_fst_zip (Nat.le_of_eq hlength)
    conv_rhs => rw [← hfst, List.map_map]
    rfl
  obtain ⟨n, hn⟩ := exists_faces_placeRows preserved _ hstart
  obtain ⟨m, hm⟩ := exists_faces_refresh
    ((placeRows preserved (c.stripped.addWires t.wires.length) 0 (t.wires.zip rows)).completed t preserved)
  refine ⟨n + m, ?_⟩
  rw [List.nil_append, hzip] at hn
  have hcompleted : ((placeRows preserved (c.stripped.addWires t.wires.length) 0 (t.wires.zip rows)).completed t
      preserved).wires.map Wire.face = t.wires.map (WireRecord.face preserved) ++ List.replicate n blankFace := hn
  rwa [hcompleted, List.append_assoc, List.replicate_append_replicate] at hm

/-- The wires of a restored circuit have the faces that the template gives to fresh ones. -/
theorem face_of_restore (h : c.restore t preserved = .ok d) {r : Nat} {v : Wire K} (hv : d.wires[r]? = some v) :
    v.face = ((t.wires[r]?).map (WireRecord.face preserved)).getD blankFace := by
  obtain ⟨n, rest, hn⟩ := exists_faces_restore h
  have hrow : (t.wires.map (WireRecord.face preserved) ++ List.replicate n blankFace)[r]? = some v.face := by
    have hlt := (List.getElem?_eq_some_iff.mp hv).1
    rw [← hn, List.getElem?_append_left (by rwa [List.length_map]), List.getElem?_map, hv, Option.map_some]
  rw [← List.getElem?_map, ← getD_append_replicate _ n, hrow, Option.getD_some]

theorem keepsSettings_of_restore (h : c.restore t preserved = .ok d) : c.KeepsSettings preserved d := by
  obtain ⟨-, -, hsettings, hundos, hredos⟩ := restored_of_restore h
  constructor
  case undos => exact fun hp => hundos.trans (if_pos hp)
  case redos => exact fun hp => hredos.trans (if_pos hp)
  all_goals
    intro hp
    rw [hsettings]
    exact if_pos hp

/-- A template that is applied leaves settings and history to preserve. Its wires have what it gives to fresh ones, so
    that the parts to preserve stay just on those wires that have them as fresh ones do. -/
theorem restore_keeps (h : c.restore t preserved = .ok d) :
    c.KeepsSettings preserved d ∧
    (∀ (r : Nat) (v : Wire K), d.wires[r]? = some v →
      v.face = ((t.wires[r]?).map (WireRecord.face preserved)).getD blankFace) ∧
    ∀ (r : Nat) (w v : Wire K), c.wires[r]? = some w → d.wires[r]? = some v →
      (w.Keeps preserved v ↔ w.Plain preserved) := by
  refine ⟨keepsSettings_of_restore h, fun r v => face_of_restore h, fun r w v _ hv => ?_⟩
  exact (Wire.plain_of_face (face_of_restore h hv)).keeps_iff

end Restore

/-- A wire with a name. -/
def namedCircuit : Circuit Rat := (ofSettings {}).modifyWire 0 fun w => { w with name := "old" }

/-- A gate on a wire with another name and ket, and numbers to run with. -/
def namingTemplate : Template where
  wires := [{ stamps := ["h"], ket := some .one, name := some "new" }]
  minQubits := some 2
  shots := some 7

/-- The ket and the shots stay, and the name of the template is taken. -/
theorem restore_keeps_ket :
    ∃ d v, namedCircuit.restore namingTemplate { Parts.none with shots := true, kets := true } = .ok d ∧
      d.settings = { namedCircuit.settings with minQubits := 2 } ∧ d.wires[0]? = some v ∧
      v.face = ("new", .zero, .transparent) ∧
      ∀ w, namedCircuit.wires[0]? = some w → w.Keeps { Parts.none with shots := true, kets := true } v := by
  have hd : namedCircuit.restore namingTemplate { Parts.none with shots := true, kets := true } = .ok _ := rfl
  obtain ⟨-, hfaces, hkeeps⟩ := restore_keeps hd
  refine ⟨_, _, hd, rfl, rfl, hfaces 0 _ rfl, fun w hw => (hkeeps 0 w _ hw rfl).mpr ?_⟩
  cases hw
  exact ⟨fun _ => rfl, nofun, nofun⟩

/-- A name to preserve is gone. -/
theorem restore_forgets : ∃ d w v, namedCircuit.restore namingTemplate { Parts.none with names := true } = .ok d ∧
    namedCircuit.wires[0]? = some w ∧ d.wires[0]? = some v ∧ w.name = "old" ∧ v.name = "" :=
  ⟨_, _, _, rfl, rfl, rfl, rfl, rfl⟩

end CircuitDesigner
