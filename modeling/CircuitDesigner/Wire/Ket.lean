import CircuitDesigner.Text.Blank

/-! The ket a wire starts in and the color of its register. Both are chosen by clicking through a
    cycle and are stored in templates as text. -/

namespace CircuitDesigner

/-- The state in which a wire starts. -/
inductive Ket where
  | zero
  | one
  | plus
  | minus
  | plusI
  | minusI
  deriving DecidableEq, Repr, Inhabited

namespace Ket

/-- In the order of clicks. -/
def all : List Ket := [zero, one, plus, minus, plusI, minusI]

/-- What is written between bar and bracket, with `i` for the imaginary unit. -/
def label : Ket → String
  | zero => "0"
  | one => "1"
  | plus => "+"
  | minus => "-"
  | plusI => "+i"
  | minusI => "-i"

/-- The state after a click. -/
def next : Ket → Ket
  | zero => one
  | one => plus
  | plus => minus
  | minus => plusI
  | plusI => minusI
  | minusI => zero

/-- The state of that label. Blanks around it are ignored, and `j` may stand for the imaginary unit. -/
def ofLabel? (text : String) : Option Ket :=
  let label := (Text.trim text).map fun c => if c == 'j' then 'i' else c
  all.find? fun ket => ket.label == label

theorem mem_all (ket : Ket) : ket ∈ all := by cases ket <;> simp [all]

end Ket

/-- The color painted around the ket of a wire. Neighbours of one color form a register. -/
inductive RegisterColor where
  | transparent
  | green
  | neon
  | cyan
  | blue
  | purple
  deriving DecidableEq, Repr, Inhabited

namespace RegisterColor

/-- In the order of clicks. -/
def all : List RegisterColor := [transparent, green, neon, cyan, blue, purple]

/-- The color as a style sheet writes it. -/
def css : RegisterColor → String
  | transparent => "transparent"
  | green => "rgb(0, 150, 70)"
  | neon => "rgb(30, 210, 140)"
  | cyan => "rgb(0, 190, 190)"
  | blue => "rgb(0, 128, 190)"
  | purple => "rgb(120, 0, 240)"

/-- The color after a click. -/
def next : RegisterColor → RegisterColor
  | transparent => green
  | green => neon
  | neon => cyan
  | cyan => blue
  | blue => purple
  | purple => transparent

/-- The color written so. Blanks around the text are ignored. -/
def ofCss? (text : String) : Option RegisterColor :=
  let css := Text.trim text
  all.find? fun color => color.css == css

theorem mem_all (color : RegisterColor) : color ∈ all := by cases color <;> simp [all]

end RegisterColor

end CircuitDesigner
