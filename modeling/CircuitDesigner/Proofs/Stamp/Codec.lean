import CircuitDesigner.Proofs.Bundle.Usable

/-! Stamps written and read.

    A built-in kind is read back from its stamp whatever gates the catalog has, and whatever stands in an exponent. A
    stamp that is read may differ from the one of the kind that it means: extra data left out, blanks and signs around
    a code, anything at all behind the id of a custom gate. When the kind is written this is gone, and from then on
    the text stays the same (`ofStamp_stamp`). -/

namespace CircuitDesigner.GateKind

variable {catalog : Catalog} {kind : GateKind}

/-- The kind is built-in and no support, or it is a gate of the catalog whose id stamps leave to custom gates. -/
def Stamped (catalog : Catalog) : GateKind → Prop
  | custom id span => FreeId id ∧ catalog.span? id = some span
  | support _ => False
  | _ => True

theorem known_custom_iff {id : String} {span : Nat} :
    Known catalog (.custom id span) ↔ FreeId id ∧ catalog.span? id = some span := by
  constructor
  · intro h
    obtain ⟨d, hd, hid, rfl⟩ := exists_of_ofStamp_custom h
    -- The stamp is the id, which is then its own type id.
    have htype : Stamp.typeId id = id := (Catalog.id_of_get? hd).symm.trans hid
    have hget : catalog.get? id = some d := htype ▸ hd
    exact ⟨(ofStamp_id_iff hget).mp h, Catalog.span?_eq_some_iff.mpr ⟨d, hget, rfl⟩⟩
  · rintro ⟨hfree, hspan⟩
    obtain ⟨d, hd, rfl⟩ := Catalog.span?_eq_some_iff.mp hspan
    exact (ofStamp_id_iff hd).mpr hfree

theorem known_iff : Known catalog kind ↔ kind.Stamped catalog := by
  cases kind with
  | custom id span => exact known_custom_iff
  | support p => exact iff_of_false (not_known_support catalog p) id
  | _ => exact iff_of_true (known_builtin catalog nofun nofun) trivial

/-- A kind has a stamp if and only if its own stamp means it. -/
theorem exists_ofStamp_iff : (∃ stamp, ofStamp catalog stamp = .ok kind) ↔ Known catalog kind :=
  ⟨fun ⟨_, h⟩ => known_of_ofStamp h, fun h => ⟨_, h⟩⟩

theorem Known.ne_support (h : Known catalog kind) (p : GateId) : kind ≠ .support p := by
  rintro rfl
  exact not_known_support catalog p h

theorem Known.not_supportStart (h : Known catalog kind) : ¬Stamp.supportStart <+: kind.stamp.toList := by
  rw [← List.isPrefixOf_iff_prefix]
  exact Bool.eq_false_iff.mp h.isSupport_stamp

/-- Built-in kinds come back from their stamps in every catalog, and so does every kind that a stamp means. None of them
    is a support or stamped like one. Of the custom gates just those come back that the catalog has with their span, if
    stamps leave their ids to custom gates. -/
theorem ofStamp_stamp (catalog : Catalog) :
    (∀ kind, (∀ id span, kind ≠ .custom id span) → (∀ p, kind ≠ .support p) → ofStamp catalog kind.stamp = .ok kind) ∧
    (∀ stamp kind, ofStamp catalog stamp = .ok kind →
      (∀ p, kind ≠ .support p) ∧ ofStamp catalog kind.stamp = .ok kind ∧ ¬Stamp.supportStart <+: kind.stamp.toList) ∧
    ∀ kind, (∃ stamp, ofStamp catalog stamp = .ok kind) ↔ kind.Stamped catalog := by
  refine ⟨fun kind => known_builtin catalog, fun stamp kind h => ?_, fun kind => exists_ofStamp_iff.trans known_iff⟩
  have hknown : Known catalog kind := known_of_ofStamp h
  exact ⟨hknown.ne_support, hknown, hknown.not_supportStart⟩

/-- A catalog with the type ids of two built-in kinds, the start of a support and an id with a delimiter. -/
def disguisedCatalog : Catalog where
  definitions := [{ innerGate with id := "powered-z" }, { innerGate with id := "swap" },
    { innerGate with id := "supp1" }, { innerGate with id := "cg1<!@DELIMITER>" },
    { innerGate with id := "cg1", span := 2 }]

theorem ofStamp_stamp_disguised :
    ofStamp disguisedCatalog (powered .z "1<!@DELIMITER>2").stamp = .ok (.powered .z "1<!@DELIMITER>2") ∧
    ofStamp disguisedCatalog "cg1<!@DELIMITER><!@DELIMITER>supp" = .ok (.custom "cg1" 2) ∧
    ofStamp disguisedCatalog (custom "cg1" 2).stamp = .ok (.custom "cg1" 2) ∧
    ofStamp disguisedCatalog "control<!@DELIMITER> +0 " = .ok (.control .anti) ∧
    ofStamp disguisedCatalog (control .anti).stamp = .ok (.control .anti) ∧
    ¬∃ stamp, ofStamp disguisedCatalog stamp = .ok (.custom "supp1" 1) := by
  obtain ⟨hbuiltin, hread, hstamped⟩ := ofStamp_stamp disguisedCatalog
  have hcustom : ofStamp disguisedCatalog "cg1<!@DELIMITER><!@DELIMITER>supp" = .ok (.custom "cg1" 2) := by rfl
  have hcontrol : ofStamp disguisedCatalog "control<!@DELIMITER> +0 " = .ok (.control .anti) := by rfl
  refine ⟨hbuiltin _ nofun nofun, hcustom, (hread _ _ hcustom).2.1, hcontrol, (hread _ _ hcontrol).2.1, fun h => ?_⟩
  exact absurd ((hstamped _).mp h).1 (by decide)

end CircuitDesigner.GateKind
