import CircuitDesigner.Proofs.Bundle.Layout
import CircuitDesigner.Proofs.Bundle.RoundTrip
import Mathlib.Data.List.Infix

/-! Custom gates that can be used.

    An id means its gate only if stamps leave it to custom gates: it is no built-in type id, does not start as the
    stamp of a support, and holds no delimiter. An installation does not ask for this, so that the gates it declares
    can be used in circuits if and only if they have such ids (`install_usable_iff`, `install_unusable`). -/

namespace CircuitDesigner

/-! ### Ids that stamps leave to custom gates -/

namespace Stamp

section Split

variable {s : Char} {sep before after cs : List Char}

theorem eq_of_splitOnce (h : splitOnce (s :: sep) cs = some (before, after)) : cs = before ++ (s :: sep) ++ after := by
  induction cs generalizing before with
  | nil => cases h
  | cons c cs ih =>
    rw [splitOnce] at h
    split at h
    · rename_i hstart
      cases h
      obtain ⟨rest, hrest⟩ := List.isPrefixOf_iff_prefix.mp hstart
      rw [← hrest, List.drop_left]
      rfl
    · obtain ⟨⟨before', after'⟩, hrest, heq⟩ := Option.map_eq_some_iff.mp h
      cases heq
      exact congrArg (c :: ·) (ih hrest)

/-- A text in which the separator stands nowhere is not cut. -/
theorem splitOnce_eq_none_iff : splitOnce (s :: sep) cs = none ↔ ¬(s :: sep) <:+: cs := by
  induction cs with
  | nil => simp [splitOnce]
  | cons c cs ih =>
    rw [splitOnce, List.infix_cons_iff]
    split
    · rename_i hstart
      exact ⟨fun h => absurd h (Option.some_ne_none _), fun h => absurd (.inl (List.isPrefixOf_iff_prefix.mp hstart)) h⟩
    · rename_i hstart
      rw [Option.map_eq_none_iff, ih, not_or]
      exact ⟨fun h => ⟨fun hprefix => hstart (List.isPrefixOf_iff_prefix.mpr hprefix), h⟩, And.right⟩

end Split

/-- Just a stamp without delimiter is its own type id. -/
theorem typeId_eq_self_iff {stamp : String} : typeId stamp = stamp ↔ ¬delimiter <:+: stamp.toList := by
  unfold typeId split
  rw [delimiter_eq, ← splitOnce_eq_none_iff]
  cases h : splitOnce ('<' :: "!@DELIMITER>".toList) stamp.toList with
  | none => exact ⟨fun _ => rfl, fun _ => rfl⟩
  | some p =>
    obtain ⟨before, after⟩ := p
    refine ⟨fun heq => ?_, nofun⟩
    have hlength := congrArg List.length (eq_of_splitOnce h)
    rw [← show String.ofList before = stamp from heq, String.toList_ofList, List.length_append, List.length_append,
      List.length_cons] at hlength
    omega

end Stamp

namespace GateKind

/-- The id belongs to custom gates alone. -/
structure FreeId (id : String) : Prop where
  whole : ¬Stamp.delimiter <:+: id.toList
  custom : id ∉ builtinIds
  visible : Stamp.isSupport id = false

instance (id : String) : Decidable (FreeId id) :=
  decidable_of_iff (¬Stamp.delimiter <:+: id.toList ∧ id ∉ builtinIds ∧ Stamp.isSupport id = false)
    ⟨fun ⟨hwhole, hcustom, hvisible⟩ => ⟨hwhole, hcustom, hvisible⟩, fun h => ⟨h.whole, h.custom, h.visible⟩⟩

variable {c : Catalog} {id : String} {d : Definition}

theorem ofStamp_id_iff (hd : c.get? id = some d) : ofStamp c id = .ok (.custom id d.span) ↔ FreeId id := by
  constructor
  · intro h
    refine ⟨?_, fun hmem => ?_, isSupport_of_ofStamp h⟩
    · obtain ⟨e, he, hid, -⟩ := exists_of_ofStamp_custom h
      rw [← Stamp.typeId_eq_self_iff, ← Catalog.id_of_get? he, hid]
    · obtain ⟨kind, hkind, hne⟩ := exists_ofStamp_builtin hmem c
      exact hne _ _ (Except.ok.inj (hkind.symm.trans h))
  · intro h
    have htype := Stamp.typeId_eq_self_iff.mpr h.whole
    have hmeans : ofStamp c id = .ok (.custom d.id d.span) :=
      ofStamp_of_typeId (htype.symm ▸ h.custom) (htype.symm ▸ h.visible) (htype.symm ▸ hd)
    rw [hmeans, Catalog.id_of_get? hd]

end GateKind

/-! ### Gates in use -/

/-- The gate can be placed: its id means the gate, and in the row of a template it is taken for that gate. -/
structure Definition.Usable (catalog : Catalog) (d : Definition) : Prop where
  means : GateKind.ofStamp catalog d.id = .ok (.custom d.id d.span)
  placed : ∀ (t : Template) rows (i j : Nat) r, t.resolve catalog = .ok rows → t.wires[i]? = some r →
    r.stamps[j]? = some d.id → ∃ kinds, rows[i]? = some kinds ∧ kinds[j]? = some (some (.custom d.id d.span))

/-- What stands in a cell of a template is what its stamp means. -/
theorem Template.exists_of_resolve {t : Template} {catalog : Catalog} {rows : List (List (Option GateKind))}
    {i j : Nat} {r : WireRecord} {stamp : String} {kind : GateKind} (hrows : t.resolve catalog = .ok rows)
    (hr : t.wires[i]? = some r) (hstamp : r.stamps[j]? = some stamp)
    (hkind : GateKind.ofStamp catalog stamp = .ok kind) :
    ∃ kinds, rows[i]? = some kinds ∧ kinds[j]? = some (some kind) := by
  have hrow := getElem?_of_mapM hrows i
  rw [hr, Option.map_some, eq_comm, Option.map_eq_some_iff] at hrow
  obtain ⟨kinds, hkinds, hrow⟩ := hrow
  have hcell := getElem?_of_mapM hrow.symm j
  rw [hstamp, Option.map_some, eq_comm, Option.map_eq_some_iff] at hcell
  obtain ⟨cell, hcell, hmeans⟩ := hcell
  rw [GateKind.isSupport_of_ofStamp hkind, if_neg Bool.false_ne_true, hkind] at hmeans
  cases hmeans
  exact ⟨kinds, hkinds, hcell⟩

namespace Bundle

variable {b : Bundle} {catalog catalog' : Catalog} {count : Nat}

/-- After an installation a gate of the bundle can be used if and only if stamps leave its id to custom gates. -/
theorem install_usable_iff (h : b.install catalog = .ok (count, catalog')) :
    ∀ d ∈ b.definitions, d.Usable catalog' ↔ GateKind.FreeId d.id := by
  intro d hd
  obtain ⟨known, hknown, hspan, -⟩ := exists_of_installFrom (installFrom_of_install h).1 d hd
  rw [← GateKind.ofStamp_id_iff hknown, hspan]
  exact ⟨Definition.Usable.means, fun hmeans => ⟨hmeans, fun t rows i j r hrows hr hstamp =>
    Template.exists_of_resolve hrows hr hstamp hmeans⟩⟩

/-- A gate for which the name of a built-in kind is changed in one letter, one with the name itself, and one whose id is
    cut at a delimiter behind that of another gate. -/
def disguises : List Definition :=
  [{ innerGate with id := "Control" }, { innerGate with id := "powered-x" },
    { innerGate with id := "cg1<!@DELIMITER>" }]

theorem install_usable_iff_disguises : ∃ catalog, install ⟨disguises, .empty⟩ innerCatalog = .ok (3, catalog) ∧
    ∀ d ∈ disguises, d.Usable catalog ↔ d.id = "Control" := by
  have hinstall : install ⟨disguises, .empty⟩ innerCatalog =
      .ok (3, { definitions := innerGate :: disguises, created := 1 }) := rfl
  have hfree : ∀ d ∈ disguises, GateKind.FreeId d.id ↔ d.id = "Control" := by decide
  exact ⟨_, hinstall, fun d hd => (install_usable_iff hinstall d hd).trans (hfree d hd)⟩

/-- A gate whose id starts as the stamps of supports do, and a circuit of it. -/
def vanishing : Bundle where
  definitions := [{ innerGate with id := "supp1" }]
  circuit := { wires := [{ stamps := ["supp1"] }] }

theorem sized_vanishing : vanishing.Sized where
  definitions := List.forall_mem_singleton.mpr ⟨by decide, by decide, nofun, nofun, nofun, nofun⟩
  circuit := ⟨by decide, nofun, nofun, nofun, nofun⟩

/-- The bundle is read and installed, and its gate cannot be used. -/
theorem install_unusable : ∃ catalog, parse vanishing.render = .ok vanishing ∧
    vanishing.install {} = .ok (1, catalog) ∧ ∃ d ∈ vanishing.definitions, ¬d.Usable catalog := by
  have hparse : parse vanishing.render = .ok vanishing :=
    parse_render (List.forall_mem_singleton.mpr
      ((sized_vanishing.definitions _ List.mem_cons_self).whole.fits (by decide)))
      (sized_vanishing.circuit.whole.fits (by decide))
  refine ⟨{ definitions := vanishing.definitions }, hparse, rfl, _, List.mem_cons_self, fun h => ?_⟩
  exact absurd (GateKind.isSupport_of_ofStamp h.means) (by decide)

end Bundle

end CircuitDesigner
