import CircuitDesigner.Proofs.Editing.Basic
import CircuitDesigner.Proofs.Refresh.Occupied

/-! Wires that are told apart.

    The badge of a wire is its number with its name, ket and color. To take out gates changes no badge. A refresh puts
    wires with new numbers at the bottom or takes wires away from there, so that the badges of those that it leaves are
    the first ones of the old and the new (`badges_refresh`). -/

namespace CircuitDesigner

open Circuit

variable {K : Type}

/-- What tells a wire from others, whatever gates it has. -/
def Wire.badge (w : Wire K) : WireId × String × Ket × RegisterColor := (w.id, w.face)

namespace Circuit

/-- The badges of the wires, top to bottom. -/
def badges (c : Circuit K) : List (WireId × String × Ket × RegisterColor) := c.wires.map Wire.badge

/-- The badges of the next wires that are made. -/
def nextBadges (c : Circuit K) (count : Nat) : List (WireId × String × Ket × RegisterColor) :=
  (List.range' c.nextWire count).map fun n => (⟨n⟩, blankFace)

theorem length_badges (c : Circuit K) : c.badges.length = c.wires.length := List.length_map _

theorem badges_of_core {c d : Circuit K} (h : d.wires.map Wire.core = c.wires.map Wire.core) : d.badges = c.badges := by
  have hbadge : ∀ e : Circuit K, e.badges = (e.wires.map Wire.core).map Wire.badge := fun e => by
    rw [List.map_map]
    rfl
  rw [hbadge, hbadge, h]

end Circuit

variable [Coordinate K]

/-! ### Gates that go -/

section Detach

variable {w v : Wire K} {c d : Circuit K} {g : Gate} {id : GateId} {column next next' : Nat}

theorem Wire.badge_of_detach? (h : w.detach? id next = some (column, g, v, next')) : v.badge = w.badge := by
  unfold Wire.detach? at h
  obtain ⟨column, -, h⟩ := Option.bind_eq_some_iff.mp h
  obtain ⟨g, -, h⟩ := Option.bind_eq_some_iff.mp h
  split at h <;> cases h <;> rfl

theorem Wire.badge_dropInertia (w : Wire K) (column : Nat) : (w.dropInertia column).badge = w.badge := by
  unfold Wire.dropInertia
  split <;> rfl

theorem map_badge_dropSupports (parent : GateId) (column : Nat) (ws : List (Wire K)) (next : Nat) :
    (dropSupports parent column ws next).1.map Wire.badge = ws.map Wire.badge := by
  induction ws generalizing next with
  | nil => rfl
  | cons w ws ih =>
    rw [dropSupports, List.map_cons, List.map_cons, ih]
    congr 1
    split
    · rename_i hdetached
      obtain ⟨g, -, hdetached⟩ := Option.bind_eq_some_iff.mp hdetached
      split at hdetached
      · exact Wire.badge_of_detach? hdetached
      · cases hdetached
    · rfl

theorem badges_detach? (h : c.detach? id = some (g, d)) : d.badges = c.badges ∧ d.nextWire = c.nextWire := by
  unfold Circuit.detach? at h
  obtain ⟨⟨row, _⟩, -, h⟩ := Option.bind_eq_some_iff.mp h
  obtain ⟨w, hw, h⟩ := Option.bind_eq_some_iff.mp h
  obtain ⟨⟨column, o, v, next⟩, hv, h⟩ := Option.bind_eq_some_iff.mp h
  have hset : (c.wires.set row v).map Wire.badge = c.badges := map_set_of_eq hw (Wire.badge_of_detach? hv)
  dsimp only at h
  split at h
  · cases h
    exact ⟨(map_badge_dropSupports id column _ next).trans hset, rfl⟩
  · cases h
    exact ⟨hset, rfl⟩

theorem badges_detachAll (c : Circuit K) (ids : List GateId) :
    (c.detachAll ids).badges = c.badges ∧ (c.detachAll ids).nextWire = c.nextWire := by
  induction ids generalizing c with
  | nil => exact ⟨rfl, rfl⟩
  | cons id ids ih =>
    rw [detachAll]
    split
    · rename_i hdetach
      obtain ⟨hbadges, hnext⟩ := badges_detach? hdetach
      obtain ⟨hbadges', hnext'⟩ := ih _
      exact ⟨hbadges'.trans hbadges, hnext'.trans hnext⟩
    · exact ih c

/-- A wire is removed, and all others stay. -/
theorem badges_removeWireAt? {row : Nat} (h : c.removeWireAt? row = some d) :
    d.badges = c.badges.eraseIdx row ∧ d.nextWire = c.nextWire := by
  obtain ⟨w, -, h⟩ := Option.bind_eq_some_iff.mp h
  cases h
  obtain ⟨hbadges, hnext⟩ := badges_detachAll c (spanning w)
  refine ⟨?_, hnext⟩
  rw [← hbadges]
  exact (List.eraseIdx_map Wire.badge _ row).symm

end Detach

/-! ### Wires that come and go -/

section Refresh

variable (c : Circuit K)

theorem badges_addWire : c.addWire.badges = c.badges ++ [(⟨c.nextWire⟩, blankFace)] ∧
    c.addWire.nextWire = c.nextWire + 1 := by
  have hfresh : c.freshWire.1.id = ⟨c.nextWire⟩ ∧ c.freshWire.2.nextWire = c.nextWire + 1 := by
    unfold Circuit.freshWire
    dsimp only
    split
    · exact ⟨rfl, rfl⟩
    · refine ⟨?_, rfl⟩
      unfold Wire.place
      dsimp only
      split <;> rfl
  obtain ⟨hid, hnext⟩ := hfresh
  refine ⟨?_, hnext⟩
  unfold Circuit.badges
  rw [addWire_wires, List.map_append, List.map_singleton, Wire.badge, hid, face_freshWire]

theorem badges_addWires (count : Nat) : (c.addWires count).badges = c.badges ++ c.nextBadges count := by
  induction count generalizing c with
  | zero => exact (List.append_nil _).symm
  | succ count ih =>
    obtain ⟨hbadges, hnext⟩ := badges_addWire c
    unfold nextBadges at ih ⊢
    rw [addWires, ih, hbadges, hnext, List.append_assoc]
    rfl

theorem map_badge_dropIdleColumns (count column : Nat) (ws : List (Wire K)) :
    (dropIdleColumns count column ws).map Wire.badge = ws.map Wire.badge := by
  induction count generalizing column ws with
  | zero => rfl
  | succ count ih =>
    rw [dropIdleColumns]
    split
    · rw [ih, List.map_map]
      exact List.map_congr_left fun w _ => w.badge_dropInertia column
    · exact ih _ ws

omit [Coordinate K] in
theorem badges_popIdleWires (count : Nat) : (c.popIdleWires count).badges <+: c.badges := by
  unfold badges
  rw [wires_popIdleWires]
  exact (List.take_prefix _ _).map Wire.badge

theorem badges_minimize : c.minimize.badges <+: c.badges ++ c.nextBadges (c.settings.minQubits - c.wires.length) := by
  have hcolumns : ({ c with wires := dropIdleColumns c.columns 0 c.wires } : Circuit K).badges = c.badges :=
    map_badge_dropIdleColumns _ _ _
  have hlength := congrArg List.length hcolumns
  rw [length_badges, length_badges] at hlength
  have hwires := badges_addWires { c with wires := dropIdleColumns c.columns 0 c.wires }
    (c.settings.minQubits - c.wires.length)
  rw [hcolumns] at hwires
  unfold minimize
  dsimp only at hlength ⊢
  rw [hlength]
  exact hwires ▸ badges_popIdleWires _ _

/-- A refresh keeps badges from the top on, after it has added new ones up to the least number of wires. -/
theorem badges_refresh : c.refresh.badges <+: c.badges ++ c.nextBadges (c.settings.minQubits - c.wires.length) := by
  rw [refresh_eq, badges_of_core (map_core_redraw c.minimize)]
  exact badges_minimize c

end Refresh

end CircuitDesigner
