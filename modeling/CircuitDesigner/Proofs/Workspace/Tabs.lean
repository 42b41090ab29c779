import CircuitDesigner.Proofs.Restore.Tiled
import CircuitDesigner.Workspace

/-! Tabs and their states.

    The state of the active tab is that of the circuit, and the other tabs store theirs (`Workspace.views`). Storing the
    circuit changes no state. To turn to a tab sets its state to what the circuit makes of it, and to open one adds a
    state at the end. -/

namespace CircuitDesigner.Workspace

open Circuit

variable {K : Type} {w : Workspace K} {t : Template} {e : Circuit K} {index : Nat}

/-- The tabs with their states. -/
def views (w : Workspace K) : List Tab :=
  w.tabs.mapIdx fun i t => if w.active = some i then { t with snapshot := w.circuit.capture .all } else t

/-- The active tab, if there is one, is a tab. -/
def Bounded (w : Workspace K) : Prop := ∀ i, w.active = some i → i < w.tabs.length

/-! ### States -/

@[simp]
theorem length_views (w : Workspace K) : w.views.length = w.tabs.length := List.length_mapIdx

theorem getElem?_views (w : Workspace K) (i : Nat) :
    w.views[i]? = (w.tabs[i]?).map fun t =>
      if w.active = some i then { t with snapshot := w.circuit.capture .all } else t :=
  List.getElem?_mapIdx

/-- What is stored when a tab is left are the states. -/
theorem tabs_store (w : Workspace K) : w.store.tabs = w.views := by
  refine List.ext_getElem? fun i => ?_
  rw [getElem?_views]
  unfold store
  split
  · rename_i hnone
    simp [hnone]
  · rename_i active hactive
    simp only [List.getElem?_modify, hactive, Option.some.injEq, Option.map_eq_map]

/-! ### Turning to a tab -/

/-- The workspace after its circuit was stored and became that of a tab. -/
def turned (w : Workspace K) (index : Nat) (e : Circuit K) : Workspace K :=
  { w.store with circuit := e, active := some index }

@[simp]
theorem store_blank (w : Workspace K) : w.store.blank = w.blank := by
  unfold store
  split <;> rfl

@[simp]
theorem store_initial (w : Workspace K) : w.store.initial = w.initial := by
  unfold store
  split <;> rfl

@[simp]
theorem store_circuit (w : Workspace K) : w.store.circuit = w.circuit := by
  unfold store
  split <;> rfl

@[simp]
theorem circuit_turned (w : Workspace K) (index : Nat) (e : Circuit K) : (w.turned index e).circuit = e := rfl

@[simp]
theorem blank_turned (w : Workspace K) (index : Nat) (e : Circuit K) : (w.turned index e).blank = w.blank :=
  store_blank w

@[simp]
theorem initial_turned (w : Workspace K) (index : Nat) (e : Circuit K) : (w.turned index e).initial = w.initial :=
  store_initial w

theorem tabs_turned (w : Workspace K) (index : Nat) (e : Circuit K) : (w.turned index e).tabs = w.views :=
  tabs_store w

/-- Only the state of the tab that is turned to may change. -/
theorem views_turned (w : Workspace K) (index : Nat) (e : Circuit K) :
    (w.turned index e).views = w.views.modify index fun t => { t with snapshot := e.capture .all } := by
  refine List.ext_getElem? fun i => ?_
  rw [getElem?_views, List.getElem?_modify]
  simp only [turned, tabs_store, Option.some.injEq, Option.map_eq_map]

/-- A tab keeps its state if the circuit takes it over. -/
theorem views_turned_of_eq {t : Tab} (ht : w.views[index]? = some t) (he : e.capture .all = t.snapshot) :
    (w.turned index e).views = w.views := by
  rw [views_turned, he]
  refine List.ext_getElem? fun i => ?_
  rw [List.getElem?_modify]
  split
  · rename_i hi
    rw [← hi, ht]
    rfl
  · exact Option.map_id'

variable [Coordinate K]

theorem activate_eq {t : Tab} (ht : w.views[index]? = some t) (he : w.circuit.restore t.snapshot .none = .ok e) :
    w.activate index = (.ok (), w.turned index e) := by
  have hindex : index < w.tabs.length := length_views w ▸ (List.getElem?_eq_some_iff.mp ht).1
  have hstored : w.store.tabs[index]? = some t := by rw [tabs_store, ht]
  unfold activate
  simp only [if_neg (Nat.not_le.mpr hindex), hstored, store_circuit, he]
  rfl

/-! ### Opening a tab -/

omit [Coordinate K] in
/-- The workspace with a tab at the end that nobody has turned to. -/
def extended (w : Workspace K) (t : Template) (title : String) : Workspace K :=
  { w with created := w.created + 1, tabs := w.tabs ++ [⟨title, "Circuit " ++ toString (w.created + 1), t⟩] }

omit [Coordinate K] in
theorem views_extended (h : w.Bounded) (t : Template) (title : String) :
    (w.extended t title).views = w.views ++ [⟨title, "Circuit " ++ toString (w.created + 1), t⟩] := by
  have hnew : w.active ≠ some w.tabs.length := fun hactive => Nat.lt_irrefl _ (h _ hactive)
  simp [views, extended, List.mapIdx_append, hnew]

omit [Coordinate K] in
/-- The tabs keep their states when one is opened at the end. -/
theorem views_opened (h : w.Bounded) (t : Template) (title : String) (e : Circuit K) :
    ((w.extended t title).turned w.tabs.length e).views =
      w.views ++ [⟨title, "Circuit " ++ toString (w.created + 1), e.capture .all⟩] := by
  rw [views_turned, views_extended h, ← length_views]
  simp [List.modify_eq_set_getElem?]

/-- A state that can be restored is opened in a tab at the end. -/
theorem pushTab_eq (h : w.Bounded) (he : w.circuit.restore t .none = .ok e) (title : String) :
    w.pushTab t title = (w.tabs.length, (w.extended t title).turned w.tabs.length e) := by
  have hlast : (w.extended t title).views[w.tabs.length]? =
      some ⟨title, "Circuit " ++ toString (w.created + 1), t⟩ := by
    rw [views_extended h, ← length_views w, List.getElem?_concat_length]
  show (w.tabs.length, ((w.extended t title).activate w.tabs.length).2) = _
  rw [activate_eq hlast he]

/-- A template whose stamps mean something is opened. Without history it starts with an empty one. -/
theorem openTab_eq (h : w.Bounded) (hvalid : t.validate w.circuit.catalog = .ok ())
    (he : w.circuit.restore t .none = .ok e) (title : String) :
    w.openTab t title = (.ok w.tabs.length, (w.extended t (Text.trim title)).turned w.tabs.length
      (if t.undos.isNone && t.redos.isNone then e.clearHistory else e)) := by
  unfold openTab
  rw [hvalid]
  dsimp only
  rw [pushTab_eq h he]
  dsimp only
  rw [if_neg (by simp [turned])]
  split <;> rfl

theorem exists_openTab (h : w.Bounded) (hvalid : t.validate w.circuit.catalog = .ok ())
    (he : w.circuit.restore t .none = .ok e) (title : String) :
    ∃ v, w.openTab t title = (.ok w.tabs.length, v) ∧ v.active = some w.tabs.length ∧
      v.circuit = if t.undos.isNone && t.redos.isNone then e.clearHistory else e :=
  ⟨_, openTab_eq h hvalid he title, rfl, rfl⟩

/-! ### Closing a tab -/

omit [Coordinate K] in
theorem activeWithout_eq_some_iff {active : Option Nat} {i : Nat} :
    activeWithout index active = some i ↔ active = some (if i < index then i else i + 1) := by
  unfold activeWithout
  split
  · simp
  · simp only [Option.some.injEq]
    split_ifs <;> simp only [Option.some.injEq, false_iff] <;> omega

omit [Coordinate K] in
/-- The workspace without a tab, before another one becomes active. -/
def erased (w : Workspace K) (index : Nat) : Workspace K :=
  { w with tabs := w.tabs.eraseIdx index, active := activeWithout index w.active }

omit [Coordinate K] in
theorem views_erased (w : Workspace K) (index : Nat) : (w.erased index).views = w.views.eraseIdx index := by
  refine List.ext_getElem? fun i => ?_
  rw [getElem?_views, List.getElem?_eraseIdx, getElem?_views, getElem?_views]
  simp only [erased, List.getElem?_eraseIdx, activeWithout_eq_some_iff]
  split <;> rfl

omit [Coordinate K] in
theorem bounded_erased (h : w.Bounded) (hindex : index < w.tabs.length) : (w.erased index).Bounded := by
  intro i hi
  have hi := h _ (activeWithout_eq_some_iff.mp hi)
  show i < (w.tabs.eraseIdx index).length
  rw [List.length_eraseIdx_of_lt hindex]
  split at hi <;> omega

/-! ### Renaming a tab -/

omit [Coordinate K] in
/-- The workspace with a tab under another title. -/
def retitled (w : Workspace K) (index : Nat) (title : String) : Workspace K :=
  { w with tabs := w.tabs.modify index fun t => { t with title } }

omit [Coordinate K] in
theorem snapshots_retitled (w : Workspace K) (index : Nat) (title : String) :
    (w.retitled index title).views.map Tab.snapshot = w.views.map Tab.snapshot := by
  refine List.ext_getElem? fun i => ?_
  simp only [List.getElem?_map, getElem?_views, retitled, List.getElem?_modify]
  cases w.tabs[i]? with
  | none => rfl
  | some t =>
    simp only [Option.map_eq_map, Option.map_some]
    split <;> split <;> rfl

omit [Coordinate K] in
theorem exists_of_retitled {title : String} {i : Nat} {t : Tab} (h : (w.retitled index title).tabs[i]? = some t) :
    ∃ s, w.tabs[i]? = some s ∧ t.snapshot = s.snapshot := by
  have h : (w.tabs.modify index fun t => { t with title })[i]? = some t := h
  rw [List.getElem?_modify] at h
  obtain ⟨s, hs, rfl⟩ := Option.map_eq_some_iff.mp h
  refine ⟨s, hs, ?_⟩
  split <;> rfl

end CircuitDesigner.Workspace
