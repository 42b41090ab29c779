import CircuitDesigner.Bundle
import CircuitDesigner.Proofs.Catalog
import CircuitDesigner.Proofs.Except

/-! Installing the custom gates of a bundle.

    The definitions that a template uses are closed under use: each of them, and the template itself, reads its stamps
    in them as in the whole catalog. So they are installed one after the other, unless one of them conflicts with a gate
    that is already there (`conflict_of_installFrom`). -/

namespace CircuitDesigner

/-- Definitions with ids of their own, each of which means something to those before it. -/
structure Catalog.Ordered (ds : List Definition) : Prop where
  distinct : (ds.map Definition.id).Nodup
  resolved : ∀ {before d after}, ds = before ++ d :: after → d.circuit.validate { definitions := before } = .ok ()

theorem Catalog.ordered_nil : Catalog.Ordered [] := ⟨List.nodup_nil, fun h => absurd h (by simp)⟩

/-- A new definition comes last. -/
theorem Catalog.Ordered.put {c : Catalog} {d : Definition} (h : Catalog.Ordered c.definitions)
    (hnew : c.contains d.id = false) (hvalid : d.circuit.validate c = .ok ()) :
    Catalog.Ordered (Catalog.put d c.definitions) := by
  have hnone : c.get? d.id = none := Catalog.contains_eq_false_iff.mp hnew
  rw [Catalog.put_of_new hnone]
  constructor
  · rw [List.map_append, List.nodup_append]
    refine ⟨h.distinct, by simp, fun id hid id' hid' => ?_⟩
    obtain ⟨e, he, rfl⟩ := List.mem_map.mp hid
    obtain rfl := List.mem_singleton.mp hid'
    simpa using List.find?_eq_none.mp hnone e he
  · intro before e after heq
    rcases List.eq_nil_or_concat after with rfl | ⟨after, last, rfl⟩
    · obtain ⟨rfl, hlast⟩ := List.append_inj' heq rfl
      cases hlast
      exact hvalid
    · rw [List.concat_eq_append, ← List.cons_append, ← List.append_assoc] at heq
      exact h.resolved (List.append_inj' heq rfl).1

/-! ### Templates in other catalogs -/

namespace Template

variable {t : Template} {c d : Catalog}

theorem references_of_mem {r : WireRecord} {stamp : String} (hr : r ∈ t.wires) (hstamp : stamp ∈ r.stamps) :
    t.references (Stamp.typeId stamp) = true :=
  List.any_eq_true.mpr ⟨r, hr, List.any_eq_true.mpr ⟨stamp, hstamp, beq_self_eq_true _⟩⟩

/-- A template is valid if its stamps mean something, but for supports. -/
theorem validate_eq_ok_iff : t.validate c = .ok () ↔
    ∀ r ∈ t.wires, ∀ stamp ∈ r.stamps, Stamp.isSupport stamp = false → ∃ kind, GateKind.ofStamp c stamp = .ok kind := by
  constructor
  · intro h r hr stamp hstamp hsupport
    obtain ⟨rows, hrows, -⟩ := exists_of_map h
    obtain ⟨cell, hcell⟩ := exists_mapM_iff.mp (exists_mapM_iff.mp ⟨rows, hrows⟩ r hr) stamp hstamp
    rw [hsupport, if_neg Bool.false_ne_true] at hcell
    obtain ⟨kind, hkind, -⟩ := exists_of_map hcell
    exact ⟨kind, hkind⟩
  · intro h
    have hrows : ∃ rows, t.resolve c = .ok rows := by
      refine exists_mapM_iff.mpr fun r hr => exists_mapM_iff.mpr fun stamp hstamp => ?_
      cases hsupport : Stamp.isSupport stamp with
      | true => exact ⟨none, rfl⟩
      | false =>
        obtain ⟨kind, hkind⟩ := h r hr stamp hstamp hsupport
        exact ⟨some kind, by rw [hkind]; rfl⟩
    obtain ⟨rows, hrows⟩ := hrows
    unfold validate
    rw [hrows]
    rfl

/-- A template is valid in a catalog that has the gates it refers to. -/
theorem validate_mono (h : t.validate c = .ok ())
    (hkeeps : ∀ id, t.references id = true → c.Keeps d id) : t.validate d = .ok () := by
  refine validate_eq_ok_iff.mpr fun r hr stamp hstamp hsupport => ?_
  obtain ⟨kind, hkind⟩ := validate_eq_ok_iff.mp h r hr stamp hstamp hsupport
  exact ⟨kind, GateKind.ofStamp_mono hkind (hkeeps _ (references_of_mem hr hstamp))⟩

end Template

namespace Bundle

/-! ### The definitions in use -/

section Used

variable {t : Template} {d : Definition} {ds before after : List Definition} {id : String}

theorem usedDefinitions_cons (t : Template) (d : Definition) (ds : List Definition) :
    usedDefinitions t (d :: ds) =
      if t.references d.id || (usedDefinitions t ds).any fun user => user.circuit.references d.id then
        d :: usedDefinitions t ds
      else usedDefinitions t ds := rfl

theorem usedDefinitions_sublist (t : Template) (ds : List Definition) : (usedDefinitions t ds).Sublist ds := by
  induction ds with
  | nil => exact .refl []
  | cons d ds ih =>
    rw [usedDefinitions_cons]
    split
    · exact ih.cons_cons d
    · exact ih.cons d

/-- All of the definitions in use are in use. -/
theorem usedDefinitions_usedDefinitions (t : Template) (ds : List Definition) :
    usedDefinitions t (usedDefinitions t ds) = usedDefinitions t ds := by
  induction ds with
  | nil => rfl
  | cons d ds ih =>
    rw [usedDefinitions_cons]
    split
    · rename_i hused
      rw [usedDefinitions_cons, ih, if_pos hused]
    · exact ih

/-- The gates to which the template refers are kept. -/
theorem find?_usedDefinitions (h : t.references id = true) (ds : List Definition) :
    (usedDefinitions t ds).find? (fun d => d.id == id) = ds.find? fun d => d.id == id := by
  induction ds with
  | nil => rfl
  | cons d ds ih =>
    rw [usedDefinitions_cons, List.find?_cons]
    split
    · rw [List.find?_cons, ih]
    · rename_i hunused
      rw [Bool.or_eq_true, not_or] at hunused
      have hne : d.id ≠ id := fun heq => hunused.1 (heq ▸ h)
      rw [ih, beq_eq_false_iff_ne.mpr hne]

/-- A definition in use finds the gates to which it refers as before. -/
theorem exists_of_usedDefinitions (h : usedDefinitions t ds = before ++ d :: after) :
    ∃ before' after', ds = before' ++ d :: after' ∧ ∀ id, d.circuit.references id = true →
      before.find? (fun e => e.id == id) = before'.find? fun e => e.id == id := by
  induction ds generalizing before with
  | nil => exact absurd h (by simp [usedDefinitions])
  | cons e ds ih =>
    rw [usedDefinitions_cons] at h
    split at h
    · cases before with
      | nil =>
        obtain ⟨rfl, -⟩ := List.cons.inj h
        exact ⟨[], ds, rfl, fun _ _ => rfl⟩
      | cons b before =>
        obtain ⟨rfl, hrest⟩ := List.cons.inj h
        obtain ⟨before', after', rfl, hfind⟩ := ih hrest
        refine ⟨e :: before', after', rfl, fun id hid => ?_⟩
        rw [List.find?_cons, List.find?_cons, hfind id hid]
    · rename_i hunused
      rw [Bool.or_eq_true, not_or] at hunused
      obtain ⟨before', after', hds, hfind⟩ := ih h
      refine ⟨e :: before', after', congrArg (e :: ·) hds, fun id hid => ?_⟩
      -- No definition in use refers to the one that is left out.
      have hne : e.id ≠ id := by
        rintro rfl
        exact hunused.2 (List.any_eq_true.mpr ⟨d, h ▸ List.mem_append_right before List.mem_cons_self, hid⟩)
      rw [List.find?_cons, beq_eq_false_iff_ne.mpr hne, hfind id hid]

theorem ordered_usedDefinitions (h : Catalog.Ordered ds) (t : Template) : Catalog.Ordered (usedDefinitions t ds) where
  distinct := h.distinct.sublist ((usedDefinitions_sublist t ds).map Definition.id)
  resolved {before d after} hds := by
    obtain ⟨before', after', hds', hfind⟩ := exists_of_usedDefinitions hds
    refine Template.validate_mono (h.resolved hds') fun id hid n hn => ?_
    unfold Catalog.span? Catalog.get? at hn ⊢
    rwa [hfind id hid]

end Used

/-! ### What an installation does -/

section Installing

variable {catalog catalog' : Catalog} {ds : List Definition} {line count count' : Nat}

/-- One definition is passed over or added. -/
theorem cases_of_installFrom {d : Definition} (h : installFrom line count catalog (d :: ds) = .ok (count', catalog')) :
    (∃ known, catalog.get? d.id = some known ∧ known.span = d.span ∧ known.circuit = d.circuit ∧
      installFrom (line + 1) count catalog ds = .ok (count', catalog')) ∨
    (catalog.contains d.id = false ∧ d.circuit.validate catalog = .ok () ∧
      installFrom (line + 1) (count + 1) (catalog.define d) ds = .ok (count', catalog')) := by
  rw [installFrom] at h
  split at h
  · rename_i known hknown
    split at h
    · rename_i hsame
      exact .inl ⟨known, hknown, hsame.1, hsame.2, h⟩
    · cases h
  · rename_i hnew
    split at h
    · cases h
    · rename_i hvalid
      exact .inr ⟨Catalog.contains_eq_false_iff.mpr hnew, hvalid, h⟩

/-- What holds of the catalog holds in the end if no new definition breaks it. -/
theorem invariant_of_installFrom {P : Catalog → Prop} (h : installFrom line count catalog ds = .ok (count', catalog'))
    (hdefine : ∀ c, ∀ d ∈ ds, c.contains d.id = false → d.circuit.validate c = .ok () → P c → P (c.define d))
    (hcatalog : P catalog) : P catalog' := by
  induction ds generalizing line count catalog with
  | nil =>
    cases h
    exact hcatalog
  | cons d ds ih =>
    have hrest := fun c e he => hdefine c e (List.mem_cons_of_mem d he)
    rcases cases_of_installFrom h with ⟨-, -, -, -, h⟩ | ⟨hnew, hvalid, h⟩
    · exact ih h hrest hcatalog
    · exact ih h hrest (hdefine catalog d List.mem_cons_self hnew hvalid hcatalog)

/-- The gates that were there stay. -/
theorem get?_of_installFrom (h : installFrom line count catalog ds = .ok (count', catalog')) {id : String}
    {e : Definition} (he : catalog.get? id = some e) : catalog'.get? id = some e :=
  invariant_of_installFrom (P := fun c => c.get? id = some e) h
    (fun _ _ _ hnew _ hget => Catalog.get?_put hnew hget _) he

/-- Every definition is there in the end. -/
theorem exists_of_installFrom (h : installFrom line count catalog ds = .ok (count', catalog')) :
    ∀ d ∈ ds, ∃ e, catalog'.get? d.id = some e ∧ e.span = d.span ∧ e.circuit = d.circuit := by
  induction ds generalizing line count catalog with
  | nil => nofun
  | cons d ds ih =>
    rw [List.forall_mem_cons]
    rcases cases_of_installFrom h with ⟨e, he, hspan, hcircuit, h⟩ | ⟨hnew, -, h⟩
    · exact ⟨⟨e, get?_of_installFrom h he, hspan, hcircuit⟩, ih h⟩
    · exact ⟨⟨d, get?_of_installFrom h (Catalog.get?_put_self hnew _), rfl, rfl⟩, ih h⟩

/-- What is installed is ordered, and all of it comes from the bundle. -/
theorem ordered_of_installFrom (h : installFrom line count catalog ds = .ok (count', catalog'))
    (hordered : Catalog.Ordered catalog.definitions) :
    Catalog.Ordered catalog'.definitions ∧ ∀ d ∈ catalog'.definitions, d ∈ catalog.definitions ∨ d ∈ ds := by
  refine invariant_of_installFrom
    (P := fun c => Catalog.Ordered c.definitions ∧ ∀ d ∈ c.definitions, d ∈ catalog.definitions ∨ d ∈ ds) h
    ?_ ⟨hordered, fun d hd => .inl hd⟩
  rintro c d hd hnew hvalid ⟨hordered, hsource⟩
  refine ⟨hordered.put hnew hvalid, fun e he => ?_⟩
  rcases Catalog.mem_put he with rfl | he
  · exact .inr hd
  · exact hsource e he

/-- Ordered definitions are refused for a conflict only. -/
theorem conflict_of_installFrom {before : List Definition} (hordered : Catalog.Ordered (before ++ ds))
    (hbefore : Catalog.Within { definitions := before } catalog) {e : BundleError}
    (h : installFrom line count catalog ds = .error e) : ∃ line id, e = .conflict line id := by
  induction ds generalizing line count catalog before with
  | nil => cases h
  | cons d ds ih =>
    have hnext : Catalog.Ordered (before ++ [d] ++ ds) := by rwa [List.append_assoc]
    rw [installFrom] at h
    split at h
    · rename_i known hknown
      split at h
      · rename_i hsame
        exact ih hnext (hbefore.concat (Catalog.span?_eq_some_iff.mpr ⟨known, hknown, hsame.1⟩)) h
      · cases h
        exact ⟨line, d.id, rfl⟩
    · rename_i hnew
      have hvalid : d.circuit.validate catalog = .ok () :=
        Template.validate_mono (hordered.resolved rfl) fun id _ => hbefore id
      have hnew := Catalog.contains_eq_false_iff.mpr hnew
      rw [hvalid] at h
      refine ih hnext (Catalog.Within.concat (fun id n hn => Catalog.Within.put hnew _ id n (hbefore id n hn)) ?_) h
      exact Catalog.span?_eq_some_iff.mpr ⟨d, Catalog.get?_put_self hnew _, rfl⟩

/-- Ordered definitions with new ids are all added. -/
theorem exists_installFrom (line count : Nat) (hordered : Catalog.Ordered (catalog.definitions ++ ds)) :
    ∃ created, installFrom line count catalog ds =
      .ok (count + ds.length, { definitions := catalog.definitions ++ ds, created }) := by
  induction ds generalizing line count catalog with
  | nil => exact ⟨catalog.created, by rw [List.append_nil]; rfl⟩
  | cons d ds ih =>
    have hnew : catalog.get? d.id = none := by
      refine List.find?_eq_none.mpr fun e he heq => ?_
      have hdisjoint := (List.nodup_append.mp (List.map_append ▸ hordered.distinct)).2.2
      exact hdisjoint _ (List.mem_map_of_mem he) _ List.mem_cons_self (beq_iff_eq.mp heq)
    have hput : (catalog.define d).definitions = catalog.definitions ++ [d] := Catalog.put_of_new hnew
    have hnext : Catalog.Ordered ((catalog.define d).definitions ++ ds) := by
      rw [hput, List.append_assoc]
      exact hordered
    obtain ⟨created, h⟩ := ih (line + 1) (count + 1) hnext
    refine ⟨created, ?_⟩
    rw [installFrom, hnew]
    dsimp only
    rw [show d.circuit.validate catalog = .ok () from hordered.resolved rfl]
    dsimp only
    rw [h, hput, List.append_assoc, List.length_cons, Nat.add_right_comm, ← Nat.add_assoc]
    rfl

theorem install_eq {b : Bundle} (h : installFrom 1 0 catalog b.definitions = .ok (count', catalog'))
    (hvalid : b.circuit.validate catalog' = .ok ()) : b.install catalog = .ok (count', catalog') := by
  unfold install
  rw [bind_of_ok h]
  dsimp only
  rw [hvalid]

/-- The stamps of the circuit mean something after the installation. -/
theorem installFrom_of_install {b : Bundle} (h : b.install catalog = .ok (count', catalog')) :
    installFrom 1 0 catalog b.definitions = .ok (count', catalog') ∧ b.circuit.validate catalog' = .ok () := by
  obtain ⟨⟨count, installed⟩, hinstalled, h⟩ := exists_of_bind h
  dsimp only at h
  split at h
  · cases h
  · rename_i hvalid
    cases h
    exact ⟨hinstalled, hvalid⟩

end Installing

end Bundle

end CircuitDesigner
