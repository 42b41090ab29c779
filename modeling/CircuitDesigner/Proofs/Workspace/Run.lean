import CircuitDesigner.Proofs.Workspace.Gates
import CircuitDesigner.Proofs.Workspace.Resume
import CircuitDesigner.Proofs.Workspace.Tabs

/-! Runs of a workspace.

    A run edits the circuit in the active tab, makes gates and changes tabs, in any order. All along the circuit is in
    use, the other tabs store circuits that can be resumed, and the gates can be opened (`Workspace.Tidy`). So a change
    of tabs succeeds and leaves every other tab as it was, its history included (`isolated_run`). -/

namespace CircuitDesigner

open Circuit

/-- What a user does with a workspace. -/
inductive Act where
  /-- A gesture on the circuit in the active tab. -/
  | gesture (g : Gesture) (hlocal : g.Local)
  | clear
  | createGate (caption : Caption)
  | hideGate (id : String)
  | addTab
  | activate (index : Nat)
  | closeTab (index : Nat)
  | renameTab (index : Nat) (title : String)
  | reconstruct (id : String)

/-- The act declares a gate. -/
def Act.declares : Act → Bool
  | createGate _ => true
  | _ => false

/-- The workspace after an act. One that does not apply changes nothing. -/
def Act.perform (w : Workspace Rat) : Act → Workspace Rat
  | gesture g _ => { w with circuit := (g.perform? w.circuit).getD w.circuit }
  | clear => w.clear.toOption.getD w
  | createGate caption => (w.createGateStaged caption).2
  | hideGate id => w.hideGate id
  | addTab => w.addTab.2
  | activate index => (w.activate index).2
  | closeTab index => (w.closeTab index).2
  | renameTab index title => (w.renameTab index title).toOption.getD w
  | reconstruct id => (w.reconstruct id).2

namespace Workspace

/-- One act after the other. -/
def run (w : Workspace Rat) : List Act → Workspace Rat
  | [] => w
  | a :: as => (a.perform w).run as

/-- The circuit is in use, its gates can be opened, and the tabs that are not active store circuits that were in use. -/
structure Tidy (w : Workspace Rat) : Prop where
  circuit : w.circuit.Resumable
  catalog : w.circuit.catalog.Open Rat
  blank : ∀ catalog, Recorded Rat catalog w.blank
  initial : ∀ catalog, Stored catalog w.initial
  bounded : w.Bounded
  stored : ∀ i t, w.tabs[i]? = some t → w.active ≠ some i → Stored w.circuit.catalog t.snapshot

/-- `v` is `w` with another tab active, on the same gates. -/
structure Changed (w v : Workspace Rat) (index : Nat) (views : List Tab) : Prop where
  tidy : v.Tidy
  catalog : v.circuit.catalog = w.circuit.catalog
  active : v.active = some index
  views : v.views = views

variable {w v : Workspace Rat} {c e : Circuit Rat} {catalog : Catalog} {t : Template} {index : Nat} {id : String}

/-! ### The circuit and its gates -/

namespace Tidy

theorem stored_views (h : w.Tidy) {t : Tab} (ht : w.views[index]? = some t) : Stored w.circuit.catalog t.snapshot := by
  rw [getElem?_views, Option.map_eq_some_iff] at ht
  obtain ⟨t, ht, rfl⟩ := ht
  split
  · exact ⟨w.circuit, h.circuit, rfl, rfl⟩
  · exact h.stored index t ht ‹_›

theorem edited (h : w.Tidy) (hc : c.Resumable) (hcatalog : c.catalog = w.circuit.catalog) :
    Tidy { w with circuit := c } where
  circuit := hc
  catalog := hcatalog ▸ h.catalog
  blank := h.blank
  initial := h.initial
  bounded := h.bounded
  stored := hcatalog ▸ h.stored

theorem within (h : w.Tidy) (hopen : catalog.Open Rat) (hwithin : w.circuit.catalog.Within catalog) :
    Tidy { w with circuit.catalog := catalog } where
  circuit := h.circuit.within hwithin
  catalog := hopen
  blank := h.blank
  initial := h.initial
  bounded := h.bounded
  stored i t ht hne := (h.stored i t ht hne).within hwithin

theorem clear (h : w.Tidy) :
    ∃ v, w.clear = .ok v ∧ v.Tidy ∧ v.active = w.active ∧ v.circuit.catalog = w.circuit.catalog := by
  obtain ⟨e, he, hintact, hrestored, hundos, hredos⟩ := exists_clear (h.blank w.circuit.catalog)
  have hresumed : e.Resumable := by
    refine .of_restored hintact hrestored h.circuit.positive ?_
    rw [stack_congr hundos hredos]
    exact h.circuit.editable.states
  have hrecorded : Recorded Rat e.catalog w.circuit.current := by
    rw [hrestored.catalog]
    exact h.circuit.editable.intact.recorded
  obtain ⟨hsaved, hcatalog⟩ := hresumed.saved hrecorded
  have hcatalog := hcatalog.trans hrestored.catalog
  exact ⟨_, he, h.edited hsaved.updateButtons hcatalog, rfl, hcatalog⟩

/-! ### Tabs -/

/-- Another tab becomes active. Its state may be new, and the others store what they did. -/
theorem turned (h : w.Tidy) (hblank : v.blank = w.blank) (hinitial : v.initial = w.initial)
    (hviews : ∀ i t, v.views[i]? = some t → i ≠ index → w.views[i]? = some t) (hindex : index < v.tabs.length)
    (he : e.Resumable) (hcatalog : e.catalog = w.circuit.catalog) : (v.turned index e).Tidy where
  circuit := he
  catalog := by
    rw [circuit_turned, hcatalog]
    exact h.catalog
  blank := by
    rw [blank_turned, hblank]
    exact h.blank
  initial := by
    rw [initial_turned, hinitial]
    exact h.initial
  bounded i hi := by
    obtain rfl := Option.some.inj hi
    rwa [tabs_turned, length_views]
  stored i t ht hne := by
    rw [tabs_turned] at ht
    rw [circuit_turned, hcatalog]
    exact h.stored_views (hviews i t ht fun heq => hne (congrArg some heq.symm))

/-- To change to a tab changes no state. -/
theorem activate (h : w.Tidy) (hindex : index < w.tabs.length) :
    ∃ v, w.activate index = (.ok (), v) ∧ w.Changed v index w.views := by
  have hviews : index < w.views.length := by rwa [length_views]
  have ht := List.getElem?_eq_getElem hviews
  obtain ⟨e, he, hresumed, hcatalog, hcapture⟩ := (h.stored_views ht).exists_restore h.circuit.positive
  exact ⟨_, activate_eq ht he, h.turned rfl rfl (fun _ _ ht _ => ht) hindex hresumed hcatalog, hcatalog, rfl,
    views_turned_of_eq ht hcapture⟩

/-- A tab at the end is opened with a circuit. -/
theorem opened (h : w.Tidy) (he : e.Resumable) (hcatalog : e.catalog = w.circuit.catalog) (t : Template)
    (title : String) : w.Changed ((w.extended t title).turned w.tabs.length e) w.tabs.length
      (w.views ++ [⟨title, "Circuit " ++ toString (w.created + 1), e.capture .all⟩]) where
  tidy := by
    refine h.turned (v := w.extended t title) rfl rfl (fun i s hs hne => ?_) ?_ he hcatalog
    · rw [views_extended h.bounded, List.getElem?_append] at hs
      split at hs
      · exact hs
      · rename_i hi
        rw [length_views] at hi hs
        rw [List.getElem?_singleton, if_neg (by omega)] at hs
        cases hs
    · simp [Workspace.extended]
  catalog := hcatalog
  active := rfl
  views := views_opened h.bounded t title e

theorem addTab (h : w.Tidy) : ∃ v t, w.addTab = (w.tabs.length, v) ∧ t.snapshot = w.initial ∧
    w.Changed v w.tabs.length (w.views ++ [t]) := by
  obtain ⟨e, he, hresumed, hcatalog, hcapture⟩ := (h.initial w.circuit.catalog).exists_restore h.circuit.positive
  exact ⟨_, _, pushTab_eq h.bounded he "", hcapture, h.opened hresumed hcatalog _ ""⟩

theorem erased (h : w.Tidy) (hindex : index < w.tabs.length) : (w.erased index).Tidy where
  circuit := h.circuit
  catalog := h.catalog
  blank := h.blank
  initial := h.initial
  bounded := bounded_erased h.bounded hindex
  stored i t ht hne := by
    -- Tab `i` was at `i + 1` before if the closed one was at its left.
    have ht : (w.tabs.eraseIdx index)[i]? = some t := ht
    have hne : w.active ≠ some (if i < index then i else i + 1) := fun hactive =>
      hne (activeWithout_eq_some_iff.mpr hactive)
    rw [List.getElem?_eraseIdx] at ht
    split at ht
    · rw [if_pos ‹_›] at hne
      exact h.stored i t ht hne
    · rw [if_neg ‹_›] at hne
      exact h.stored (i + 1) t ht hne

/-- A tab is closed and no other one changes. The last one is replaced. -/
theorem closeTab (h : w.Tidy) (hindex : index < w.tabs.length) :
    ∃ v i fresh, w.closeTab index = (.ok (), v) ∧ w.Changed v i (w.views.eraseIdx index ++ fresh) ∧
      (1 < w.tabs.length → fresh = []) := by
  have herased := h.erased hindex
  have hlength : (w.erased index).tabs.length = w.tabs.length - 1 := List.length_eraseIdx_of_lt hindex
  have hclose : w.closeTab index = if (w.erased index).tabs.isEmpty then (.ok (), (w.erased index).addTab.2)
      else (w.erased index).activate (min index ((w.erased index).tabs.length - 1)) := by
    unfold Workspace.closeTab
    rw [if_neg (Nat.not_le.mpr hindex)]
    rfl
  rw [← views_erased, hclose]
  split
  · rename_i hempty
    obtain ⟨v, t, hv, -, hchanged⟩ := herased.addTab
    refine ⟨v, _, [t], by rw [hv], ⟨hchanged.tidy, hchanged.catalog, hchanged.active, hchanged.views⟩, fun hmany => ?_⟩
    rw [List.isEmpty_iff_length_eq_zero] at hempty
    omega
  · rename_i hleft
    rw [List.isEmpty_iff_length_eq_zero] at hleft
    have hnear : min index ((w.erased index).tabs.length - 1) < (w.erased index).tabs.length := by omega
    obtain ⟨v, hv, hchanged⟩ := herased.activate hnear
    refine ⟨v, _, [], hv, ⟨hchanged.tidy, hchanged.catalog, hchanged.active, ?_⟩, fun _ => rfl⟩
    rw [hchanged.views, List.append_nil]

theorem renameTab (h : w.Tidy) (hindex : index < w.tabs.length) (title : String) :
    ∃ v, w.renameTab index title = .ok v ∧ v.Tidy ∧ v.circuit = w.circuit ∧ v.active = w.active ∧
      v.views.map Tab.snapshot = w.views.map Tab.snapshot := by
  unfold Workspace.renameTab
  rw [if_neg (Nat.not_le.mpr hindex)]
  dsimp only
  split
  · exact ⟨w, rfl, h, rfl, rfl, rfl⟩
  · refine ⟨w.retitled index _, rfl, ⟨h.circuit, h.catalog, h.blank, h.initial, fun i hi => ?_, fun i t ht hne => ?_⟩,
      rfl, rfl, snapshots_retitled w index _⟩
    · have hbound := h.bounded i hi
      rwa [← List.length_modify] at hbound
    · obtain ⟨s, hs, heq⟩ := exists_of_retitled ht
      rw [heq]
      exact h.stored i s hs hne

theorem reconstruct (h : w.Tidy) (hid : w.circuit.catalog.contains id = true) :
    ∃ v t, w.reconstruct id = (.ok w.tabs.length, v) ∧ w.Changed v w.tabs.length (w.views ++ [t]) := by
  obtain ⟨d, hd⟩ := Option.isSome_iff_exists.mp hid
  have hframed := h.catalog.framed d (List.mem_of_find?_eq_some hd)
  obtain ⟨hundos, hredos⟩ := hframed.timeless
  obtain ⟨e, he, hintact, hrestored⟩ := hframed.exists_restore
  have hopen := openTab_eq h.bounded hframed.validate he d.title
  rw [hundos, hredos] at hopen
  have hresumed : e.Resumable := by
    refine .of_restored hintact hrestored h.circuit.positive ?_
    -- A gate records no history. The circuit is loaded with that of the tab before, and drops it afterwards.
    have hstack : e.stack = w.circuit.stack := by
      refine stack_congr (hrestored.undos.trans ?_) (hrestored.redos.trans ?_)
      · rw [hundos]
        rfl
      · rw [hredos]
        rfl
    rw [hstack]
    exact h.circuit.editable.states
  refine ⟨_, _, ?_, h.opened hresumed.clearHistory hrestored.catalog d.circuit (Text.trim d.title)⟩
  unfold Workspace.reconstruct
  rw [hd]
  exact hopen

end Tidy

/-! ### Runs -/

theorem countP_declares_cons (count : Nat) (a : Act) (as : List Act) :
    count + (a :: as).countP Act.declares = count + a.declares.toNat + as.countP Act.declares := by
  rw [List.countP_cons, Nat.add_comm (as.countP _), ← Nat.add_assoc]
  cases a.declares <;> rfl

/-- What a run keeps. The workspace is tidy with an active tab, and at most `count` gates have been numbered. -/
structure Live (w : Workspace Rat) (count : Nat) : Prop where
  tidy : w.Tidy
  active : ∃ i, w.active = some i
  created : w.circuit.catalog.created.toNat ≤ count

namespace Live

variable {count : Nat}

theorem changed (h : w.Live count) {views : List Tab} (hv : w.Changed v index views) :
    v.Live count ∧ w.circuit.catalog.Recalls v.circuit.catalog :=
  ⟨⟨hv.tidy, ⟨index, hv.active⟩, hv.catalog ▸ h.created⟩, .of_eq hv.catalog⟩

theorem kept (h : w.Live count) (hv : v.Tidy) (hactive : v.active = w.active)
    (hcatalog : v.circuit.catalog = w.circuit.catalog) : v.Live count ∧ w.circuit.catalog.Recalls v.circuit.catalog :=
  ⟨⟨hv, hactive ▸ h.active, hcatalog ▸ h.created⟩, .of_eq hcatalog⟩

theorem refl (h : w.Live count) : w.Live count ∧ w.circuit.catalog.Recalls w.circuit.catalog := ⟨h, .refl _⟩

/-- A step of a run. Only a new gate needs a new number, and the gates that are there stay. -/
theorem perform (h : w.Live count) (a : Act) :
    (a.perform w).Live (count + a.declares.toNat) ∧ w.circuit.catalog.Recalls (a.perform w).circuit.catalog := by
  have htidy := h.tidy
  -- An act that does not apply leaves `w`, so that each case splits on whether it does.
  cases a with
  | gesture g hlocal =>
    cases hd : g.perform? w.circuit with
    | none =>
      simp only [Act.perform, hd]
      exact h.refl
    | some d =>
      obtain ⟨hresumed, hcatalog⟩ := htidy.circuit.perform hlocal hd
      simp only [Act.perform, hd, Option.getD_some]
      exact h.kept (htidy.edited hresumed hcatalog) rfl hcatalog
  | clear =>
    obtain ⟨v, hv, hcleared, hactive, hcatalog⟩ := htidy.clear
    simp only [Act.perform, hv]
    exact h.kept hcleared hactive hcatalog
  | createGate caption =>
    have hcount : w.circuit.catalog.created.toNat ≤ count + 1 := Nat.le_succ_of_le h.created
    simp only [Act.perform, createGateStaged_eq]
    cases hcreate : w.createGate? caption with
    | none => exact ⟨⟨htidy, h.active, hcount⟩, .refl _⟩
    | some outcome =>
      cases outcome with
      | error e => exact ⟨⟨htidy, h.active, hcount⟩, .refl _⟩
      | ok made =>
        obtain ⟨id, v⟩ := made
        obtain ⟨number, hnumber, -, rfl⟩ := exists_of_createGate? hcreate
        have hintact := htidy.circuit.editable.intact
        obtain ⟨hopen, hrecalls⟩ :=
          open_grown htidy.catalog hnumber hintact.wellFormed.toConsistent hintact.resolves caption
        exact ⟨⟨htidy.within hopen hrecalls.within, h.active,
          (Catalog.next?_eq_some_iff.mp hnumber).trans_le (Nat.succ_le_succ h.created)⟩, hrecalls⟩
  | hideGate id =>
    exact ⟨⟨htidy.within (htidy.catalog.hide id) (.hide w.circuit.catalog id), h.active, h.created⟩, .hide _ id⟩
  | addTab =>
    obtain ⟨v, t, hv, -, hw⟩ := htidy.addTab
    simp only [Act.perform, hv]
    exact h.changed hw
  | activate index =>
    by_cases hindex : index < w.tabs.length
    · obtain ⟨v, hv, hw⟩ := htidy.activate hindex
      simp only [Act.perform, hv]
      exact h.changed hw
    · simp only [Act.perform, Workspace.activate, if_pos (Nat.not_lt.mp hindex)]
      exact h.refl
  | closeTab index =>
    by_cases hindex : index < w.tabs.length
    · obtain ⟨v, i, fresh, hv, hw, -⟩ := htidy.closeTab hindex
      simp only [Act.perform, hv]
      exact h.changed hw
    · simp only [Act.perform, Workspace.closeTab, if_pos (Nat.not_lt.mp hindex)]
      exact h.refl
  | renameTab index title =>
    by_cases hindex : index < w.tabs.length
    · obtain ⟨v, hv, hrenamed, hcircuit, hactive, -⟩ := htidy.renameTab hindex title
      simp only [Act.perform, hv]
      exact h.kept hrenamed hactive (congrArg Circuit.catalog hcircuit)
    · simp only [Act.perform, Workspace.renameTab, if_pos (Nat.not_lt.mp hindex)]
      exact h.refl
  | reconstruct id =>
    cases hid : w.circuit.catalog.contains id with
    | true =>
      obtain ⟨v, t, hv, hw⟩ := htidy.reconstruct hid
      simp only [Act.perform, hv]
      exact h.changed hw
    | false =>
      simp only [Act.perform, Workspace.reconstruct, Catalog.contains_eq_false_iff.mp hid]
      exact h.refl

/-- A run stays live, and finds the gates that it started with. -/
theorem run_recalls (h : w.Live count) (as : List Act) :
    (w.run as).Live (count + as.countP Act.declares) ∧ w.circuit.catalog.Recalls (w.run as).circuit.catalog := by
  -- The count grows along the run, so that the induction is for every count.
  induction as generalizing w count with
  | nil => exact h.refl
  | cons a as ih =>
    rw [countP_declares_cons]
    obtain ⟨hlive, hrecalls⟩ := h.perform a
    obtain ⟨hlive', hrecalls'⟩ := ih hlive
    exact ⟨hlive', hrecalls.trans hrecalls'⟩

theorem run (h : w.Live count) (as : List Act) : (w.run as).Live (count + as.countP Act.declares) :=
  (h.run_recalls as).1

end Live

/-- The workspace around a circuit before its first tab is opened. -/
def untabbed (c : Circuit Rat) : Workspace Rat where
  circuit := c
  tabs := []
  active := none
  created := 0
  blank := c.current
  initial := c.capture .all

theorem tidy_untabbed {settings : Settings} (h : settings.Positive) : (untabbed (ofSettings settings)).Tidy where
  circuit := .ofSettings h
  catalog := by
    show (ofSettings settings : Circuit Rat).catalog.Open Rat
    rw [catalog_ofSettings]
    exact .empty
  blank _ := (intact_ofSettings settings).recorded
  initial _ := Stored.within ⟨_, .ofSettings h, catalog_ofSettings settings, rfl⟩ nofun
  bounded := nofun
  stored := nofun

/-- A new workspace has an active tab and no gates. -/
theorem changed_ofCircuit {settings : Settings} (h : settings.Positive) :
    ∃ t, (untabbed (ofSettings settings)).Changed (ofCircuit (ofSettings settings)) 0 [t] := by
  obtain ⟨v, t, hv, -, hchanged⟩ := (tidy_untabbed h).addTab
  have hnew : ofCircuit (ofSettings settings) = v := congrArg Prod.snd hv
  exact ⟨t, hnew ▸ hchanged⟩

theorem live_ofCircuit {settings : Settings} (h : settings.Positive) : (ofCircuit (ofSettings settings)).Live 0 := by
  obtain ⟨t, hnew⟩ := changed_ofCircuit h
  have hcatalog : (ofCircuit (ofSettings settings : Circuit Rat)).circuit.catalog = {} :=
    hnew.catalog.trans (catalog_ofSettings settings)
  exact ⟨hnew.tidy, ⟨0, hnew.active⟩, by rw [hcatalog]; exact Nat.le_refl 0⟩

/-- A tab is active, changes of tabs succeed, and they change the state of no tab that stays. -/
structure Isolated (w : Workspace Rat) : Prop where
  active : ∃ i, w.active = some i ∧ i < w.tabs.length
  addTab : ∃ v t, w.addTab = (w.tabs.length, v) ∧ v.active = some w.tabs.length ∧ v.views = w.views ++ [t] ∧
    t.snapshot = w.initial
  activate : ∀ index < w.tabs.length, ∃ v, w.activate index = (.ok (), v) ∧ v.active = some index ∧ v.views = w.views
  /-- Only the last tab of all is replaced. -/
  closeTab : ∀ index < w.tabs.length, ∃ v fresh, w.closeTab index = (.ok (), v) ∧
    v.views = w.views.eraseIdx index ++ fresh ∧ (1 < w.tabs.length → fresh = [])
  renameTab : ∀ index < w.tabs.length, ∀ title, ∃ v, w.renameTab index title = .ok v ∧ v.active = w.active ∧
    v.views.map Tab.snapshot = w.views.map Tab.snapshot
  reconstruct : ∀ id, w.circuit.catalog.contains id = true → ∃ v t, w.reconstruct id = (.ok w.tabs.length, v) ∧
    v.active = some w.tabs.length ∧ v.views = w.views ++ [t]

theorem Tidy.isolated (h : w.Tidy) (hactive : ∃ i, w.active = some i) : w.Isolated where
  active := by
    obtain ⟨i, hi⟩ := hactive
    exact ⟨i, hi, h.bounded i hi⟩
  addTab := by
    obtain ⟨v, t, hv, hfresh, hw⟩ := h.addTab
    exact ⟨v, t, hv, hw.active, hw.views, hfresh⟩
  activate index hindex := by
    obtain ⟨v, hv, hw⟩ := h.activate hindex
    exact ⟨v, hv, hw.active, hw.views⟩
  closeTab index hindex := by
    obtain ⟨v, i, fresh, hv, hw, hfresh⟩ := h.closeTab hindex
    exact ⟨v, fresh, hv, hw.views, hfresh⟩
  renameTab index hindex title := by
    obtain ⟨v, hv, -, -, hactive, hviews⟩ := h.renameTab hindex title
    exact ⟨v, hv, hactive, hviews⟩
  reconstruct id hid := by
    obtain ⟨v, t, hv, hw⟩ := h.reconstruct hid
    exact ⟨v, t, hv, hw.active, hw.views⟩

/-- After every run from a new workspace the tabs are isolated. -/
theorem isolated_run {settings : Settings} (hsettings : settings.Positive) (as : List Act) :
    ((ofCircuit (ofSettings settings)).run as).Isolated := by
  have hrun := (live_ofCircuit hsettings).run as
  exact hrun.tidy.isolated hrun.active

/-- A gate is made and used in another tab, hidden, and opened again after the first tab was closed. -/
def tour : List Act :=
  [.gesture (.edit (.drop (.toolbox "h") [] ⟨130, 150⟩)) trivial, .createGate {}, .addTab,
    .gesture (.edit (.drop (.toolbox "cg1") [] ⟨130, 150⟩)) trivial, .activate 0, .hideGate "cg1", .closeTab 0,
    .reconstruct "cg1", .renameTab 0 "Tour"]

theorem isolated_run_tour : ((ofCircuit (ofSettings {})).run tour).Isolated ∧
    ((ofCircuit (ofSettings {})).run tour).views.map Tab.label = ["Tour", "Custom Gate #1"] :=
  ⟨isolated_run ⟨by decide, by decide⟩ tour, by decide +kernel⟩

end Workspace

end CircuitDesigner
