import CircuitDesigner.Gate.Stamp

/-! Stamps and kinds.

    A kind that a stamp means is the one that its own stamp means. Only built-in kinds and custom gates in the catalog
    are of that sort: a support is not, and a custom gate of another span is not. -/

namespace CircuitDesigner

namespace Stamp

/-! ### Cutting at the delimiter -/

section Split

variable {s : Char} {sep before after cs : List Char}

/-- A text is cut where the separator starts for the first time. -/
theorem splitOnce_append (h : s ∉ before) :
    splitOnce (s :: sep) (before ++ (s :: sep) ++ after) = some (before, after) := by
  induction before with
  | nil =>
    have hstart : (s :: sep).isPrefixOf (s :: (sep ++ after)) = true :=
      List.isPrefixOf_iff_prefix.mpr ⟨after, rfl⟩
    show splitOnce (s :: sep) (s :: (sep ++ after)) = _
    rw [splitOnce, if_pos hstart]
    simp
  | cons c before ih =>
    rw [List.mem_cons, not_or] at h
    have hstart : (s :: sep).isPrefixOf (c :: (before ++ (s :: sep) ++ after)) = false := by
      simp [List.isPrefixOf, h.1]
    show splitOnce (s :: sep) (c :: (before ++ (s :: sep) ++ after)) = _
    rw [splitOnce, if_neg (by rw [hstart]; simp), ih h.2]
    rfl

theorem splitOnce_eq_none (h : s ∉ cs) : splitOnce (s :: sep) cs = none := by
  induction cs with
  | nil => rfl
  | cons c cs ih =>
    rw [List.mem_cons, not_or] at h
    have hstart : (s :: sep).isPrefixOf (c :: cs) = false := by simp [List.isPrefixOf, h.1]
    rw [splitOnce, if_neg (by rw [hstart]; simp), ih h.2]
    rfl

theorem splitOnce_start (h : splitOnce (s :: sep) cs = some (before, after)) : before <+: cs := by
  induction cs generalizing before with
  | nil => cases h
  | cons c cs ih =>
    rw [splitOnce] at h
    split at h
    · cases h
      exact List.nil_prefix
    · obtain ⟨⟨before', after'⟩, hrest, heq⟩ := Option.map_eq_some_iff.mp h
      cases heq
      exact (List.prefix_cons_inj c).mpr (ih hrest)

/-- The separator does not start in what comes before its first occurrence. -/
theorem splitOnce_before (h : splitOnce (s :: sep) cs = some (before, after)) : splitOnce (s :: sep) before = none := by
  induction cs generalizing before with
  | nil => cases h
  | cons c cs ih =>
    rw [splitOnce] at h
    split at h
    · cases h
      rfl
    · rename_i hstart
      obtain ⟨⟨before', after'⟩, hrest, heq⟩ := Option.map_eq_some_iff.mp h
      cases heq
      have hlong : (s :: sep).isPrefixOf (c :: before') = false := by
        refine Bool.eq_false_iff.mpr fun hp => hstart ?_
        exact List.isPrefixOf_iff_prefix.mpr ((List.isPrefixOf_iff_prefix.mp hp).trans
          ((List.prefix_cons_inj c).mpr (splitOnce_start hrest)))
      rw [splitOnce, if_neg (by rw [hlong]; simp), ih hrest]
      rfl

end Split

theorem delimiter_eq : delimiter = '<' :: "!@DELIMITER>".toList := rfl

theorem split_join {id : String} (h : '<' ∉ id.toList) (extra : String) : split (join id extra) = (id, some extra) := by
  unfold split join
  rw [String.toList_ofList, delimiter_eq, splitOnce_append h]
  simp

theorem split_of_not_mem {stamp : String} (h : '<' ∉ stamp.toList) : split stamp = (stamp, none) := by
  unfold split
  rw [delimiter_eq, splitOnce_eq_none h]

/-- A type id has no extra data. -/
theorem split_typeId (stamp : String) : split (typeId stamp) = (typeId stamp, none) := by
  unfold typeId split
  cases h : splitOnce delimiter stamp.toList with
  | none => simp [h]
  | some p =>
    obtain ⟨before, after⟩ := p
    rw [delimiter_eq] at h
    dsimp only
    rw [String.toList_ofList, delimiter_eq, splitOnce_before h]

theorem isSupport_typeId {stamp : String} (h : isSupport stamp = true) : isSupport (typeId stamp) = true := by
  unfold isSupport at h
  obtain ⟨rest, hrest⟩ := List.isPrefixOf_iff_prefix.mp h
  have hrest : stamp.toList = ['s', 'u', 'p', 'p'] ++ rest := hrest.symm
  unfold typeId split
  rw [hrest]
  cases hsplit : splitOnce delimiter (['s', 'u', 'p', 'p'] ++ rest) with
  | none => exact h
  | some p =>
    obtain ⟨before, after⟩ := p
    have hskip : splitOnce delimiter (['s', 'u', 'p', 'p'] ++ rest) =
        (splitOnce delimiter rest).map fun p => (['s', 'u', 'p', 'p'] ++ p.1, p.2) := by
      rw [delimiter_eq]
      show splitOnce _ ('s' :: 'u' :: 'p' :: 'p' :: rest) = _
      rw [splitOnce, splitOnce, splitOnce, splitOnce]
      cases splitOnce ('<' :: "!@DELIMITER>".toList) rest <;> rfl
    rw [hskip] at hsplit
    obtain ⟨⟨before', after'⟩, -, heq⟩ := Option.map_eq_some_iff.mp hsplit
    cases heq
    unfold isSupport
    rw [String.toList_ofList]
    rfl

end Stamp

namespace GateKind

variable {catalog : Catalog} {kind : GateKind} {stamp : String}

/-- The stamp of the kind means the kind. -/
def Known (catalog : Catalog) (kind : GateKind) : Prop := ofStamp catalog kind.stamp = .ok kind

theorem known_standard (catalog : Catalog) (gate : StandardGate) : Known catalog (.standard gate) := by
  cases gate <;> rfl

theorem known_powered (catalog : Catalog) (axis : PauliAxis) (exponent : String) :
    Known catalog (.powered axis exponent) := by
  unfold Known ofStamp
  rw [show (powered axis exponent).stamp = Stamp.join axis.typeId exponent from rfl,
    Stamp.split_join (by cases axis <;> decide)]
  cases axis <;> rfl

theorem known_control (catalog : Catalog) (mode : ControlMode) : Known catalog (.control mode) := by
  cases mode <;> rfl

theorem known_measurement (catalog : Catalog) (mode : PostSelection) : Known catalog (.measurement mode) := by
  cases mode <;> rfl

theorem known_swap (catalog : Catalog) : Known catalog .swap := rfl

theorem known_inertia (catalog : Catalog) : Known catalog .inertia := rfl

theorem not_known_support (catalog : Catalog) (parent : GateId) : ¬Known catalog (.support parent) := by
  have herror : ofStamp catalog "supp" = .error .placeholderStamp := by rfl
  unfold Known
  rw [show (support parent).stamp = "supp" from rfl, herror]
  simp

theorem known_of_map_control {mode : Except CircuitError ControlMode} (h : mode.map .control = .ok kind) :
    Known catalog kind := by
  cases mode with
  | error e => cases h
  | ok mode =>
    cases h
    exact known_control catalog mode

theorem known_of_map_measurement {mode : Except CircuitError PostSelection} (h : mode.map .measurement = .ok kind) :
    Known catalog kind := by
  cases mode with
  | error e => cases h
  | ok mode =>
    cases h
    exact known_measurement catalog mode

theorem known_of_ofStamp (h : ofStamp catalog stamp = .ok kind) : Known catalog kind := by
  have hsplit := Stamp.split_typeId stamp
  unfold Stamp.typeId at hsplit
  unfold ofStamp at h
  generalize Stamp.split stamp = p at h hsplit
  obtain ⟨id, extra⟩ := p
  dsimp only at h hsplit
  split at h
  · cases h
    exact known_standard catalog _
  rename_i hstandard
  split at h
  · cases h
    exact known_powered catalog _ _
  rename_i hpowered
  split at h
  · exact known_of_map_control h
  rename_i hcontrol
  split at h
  · exact known_of_map_measurement h
  rename_i hmeasurement
  split at h
  · cases h
    exact known_swap catalog
  rename_i hswap
  split at h
  · cases h
    exact known_inertia catalog
  rename_i hinertia
  split at h
  · cases h
  rename_i hsupport
  split at h
  · rename_i d hd
    cases h
    -- The catalog is asked for the same id again.
    have hid : d.id = id := beq_iff_eq.mp (List.find?_some (p := fun e : Definition => e.id == id) hd)
    unfold Known
    show ofStamp catalog d.id = _
    rw [hid]
    unfold ofStamp
    rw [hsplit]
    dsimp only
    rw [hstandard, hpowered]
    dsimp only
    rw [if_neg hcontrol, if_neg hmeasurement, if_neg hswap, if_neg hinertia, if_neg hsupport, hd]
    dsimp only
    rw [hid]
  · cases h

/-- A stamp that means a kind is not taken for one of a support. -/
theorem isSupport_of_ofStamp (h : ofStamp catalog stamp = .ok kind) : Stamp.isSupport stamp = false := by
  refine Bool.eq_false_iff.mpr fun hsupport => ?_
  have hid := Stamp.isSupport_typeId hsupport
  unfold Stamp.typeId at hid
  unfold ofStamp at h
  generalize Stamp.split stamp = p at h hid
  obtain ⟨id, extra⟩ := p
  dsimp only at h hid
  split at h
  · rename_i gate hgate
    obtain rfl : gate.typeId = id := by simpa using List.find?_some hgate
    cases gate <;> cases hid
  split at h
  · rename_i axis haxis
    obtain rfl : axis.typeId = id := by simpa using List.find?_some haxis
    cases axis <;> cases hid
  -- No other built-in id starts as a support does, and an id that does is refused.
  split at h
  · subst_vars
    cases hid
  split at h
  · subst_vars
    cases hid
  split at h
  · subst_vars
    cases hid
  split at h
  · subst_vars
    cases hid
  cases h

/-! ### Built-in type ids -/

/-- The type ids of the kinds that are no custom gates, but for supports. -/
def builtinIds : List String :=
  StandardGate.all.map StandardGate.typeId ++ PauliAxis.all.map PauliAxis.typeId ++
    ["control", "measurement", "swap", "inertia"]

theorem mem_builtinIds {id : String} : id ∈ builtinIds ↔ (∃ gate ∈ StandardGate.all, gate.typeId = id) ∨
    (∃ axis ∈ PauliAxis.all, axis.typeId = id) ∨ id = "control" ∨ id = "measurement" ∨ id = "swap" ∨
      id = "inertia" := by
  simp [builtinIds]

/-- A built-in type id by itself means no custom gate, whatever gates there are. -/
theorem exists_ofStamp_builtin {id : String} (h : id ∈ builtinIds) (catalog : Catalog) :
    ∃ kind, ofStamp catalog id = .ok kind ∧ ∀ id n, kind ≠ .custom id n := by
  rcases mem_builtinIds.mp h with ⟨gate, -, rfl⟩ | ⟨axis, -, rfl⟩ | rfl | rfl | rfl | rfl
  · exact ⟨.standard gate, known_standard catalog gate, nofun⟩
  · exact ⟨.powered axis defaultExponent, by cases axis <;> rfl, nofun⟩
  · exact ⟨.control .active, rfl, nofun⟩
  · exact ⟨.measurement .off, rfl, nofun⟩
  · exact ⟨.swap, rfl, nofun⟩
  · exact ⟨.inertia, rfl, nofun⟩

/-- All other type ids are looked up in the catalog. -/
theorem ofStamp_eq_lookup (hcustom : Stamp.typeId stamp ∉ builtinIds)
    (hvisible : Stamp.isSupport (Stamp.typeId stamp) = false) :
    ofStamp catalog stamp = match catalog.get? (Stamp.typeId stamp) with
      | some d => .ok (.custom d.id d.span)
      | none => .error (.unknownGate (Stamp.typeId stamp)) := by
  rw [mem_builtinIds] at hcustom
  unfold ofStamp
  unfold Stamp.typeId at *
  generalize Stamp.split stamp = p at *
  obtain ⟨id, extra⟩ := p
  simp only [not_or, not_exists, not_and] at hcustom
  obtain ⟨hstandard, hpowered, hcontrol, hmeasurement, hswap, hinertia⟩ := hcustom
  dsimp only at *
  rw [List.find?_eq_none.mpr (by simpa using hstandard), List.find?_eq_none.mpr (by simpa using hpowered)]
  dsimp only
  rw [if_neg hcontrol, if_neg hmeasurement, if_neg hswap, if_neg hinertia, hvisible]
  rfl

theorem ofStamp_of_typeId {d : Definition} (hcustom : Stamp.typeId stamp ∉ builtinIds)
    (hvisible : Stamp.isSupport (Stamp.typeId stamp) = false) (hd : catalog.get? (Stamp.typeId stamp) = some d) :
    ofStamp catalog stamp = .ok (.custom d.id d.span) := by
  rw [ofStamp_eq_lookup hcustom hvisible, hd]

/-! ### Supports -/

theorem isSupport_stamp_support (p : GateId) : Stamp.isSupport (support p).stamp = true := by
  show Stamp.isSupport "supp" = true
  decide

theorem Known.isSupport_stamp (h : Known catalog kind) : Stamp.isSupport kind.stamp = false := isSupport_of_ofStamp h

end GateKind

end CircuitDesigner
