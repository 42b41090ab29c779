import CircuitDesigner.Bundle

/-! Bundles opened for reading, and their normal form.

    Opening a bundle brings its circuit up to date, which drops empty columns and surplus wires. Exporting the
    circuit again gives the normal form, in which a bundle holds the custom gates that it uses and no others. -/

namespace CircuitDesigner.Bundle

variable {K : Type} [Coordinate K]

/-- The circuit of a bundle, without history. What the bundle says nothing about is taken from the settings. -/
def load (b : Bundle) (settings : Settings) : Except BundleError (Circuit K) :=
  (b.applyTo (.ofSettings settings)).map Circuit.clearHistory

/-- The normal form of the text of a bundle. -/
def normalize (K : Type) [Coordinate K] (settings : Settings) (text : String) : Except BundleError String := do
  let b ← parse text
  let c : Circuit K ← b.load settings
  .ok (ofCircuit c.refresh).render

end CircuitDesigner.Bundle
