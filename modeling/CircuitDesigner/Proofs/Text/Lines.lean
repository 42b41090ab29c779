import CircuitDesigner.Text.Blank
import Mathlib.Data.List.TakeWhile

/-! Lines.

    What stands on the lines of a text does not depend on the blanks around it, on blank lines or on how the lines end
    (`Spread.contents_eq`). Texts that are written one below the other are the lines again (`lines_join`). -/

namespace CircuitDesigner.Text

/-! ### Texts over which lines are spread -/

/-- A line that is the same when it is trimmed. -/
structure Unbroken (cs : List Char) : Prop where
  nonempty : cs ≠ []
  feed : '\n' ∉ cs
  trimmed : trimChars cs = cs

/-- Blanks that stay on their line. -/
structure Blanks (cs : List Char) : Prop where
  blank : ∀ c ∈ cs, isBlank c = true
  feed : '\n' ∉ cs

/-- What ends a line. -/
inductive LineEnd : List Char → Prop where
  | feed : LineEnd ['\n']
  | carriageFeed : LineEnd ['\r', '\n']

/-- A text with the given lines in their order, with blanks around each of them and any blank lines. The last line
    need not be ended. -/
inductive Spread : List (List Char) → List Char → Prop where
  | rest {blanks : List Char} (h : Blanks blanks) : Spread [] blanks
  | last {before cs after : List Char} (hbefore : Blanks before) (hafter : Blanks after) :
    Spread [cs] (before ++ cs ++ after)
  | blank {blanks ending rest : List Char} {css : List (List Char)} (h : Blanks blanks) (hending : LineEnd ending)
    (hrest : Spread css rest) : Spread css (blanks ++ ending ++ rest)
  | line {before cs after ending rest : List Char} {css : List (List Char)} (hbefore : Blanks before)
    (hafter : Blanks after) (hending : LineEnd ending) (hrest : Spread css rest) :
    Spread (cs :: css) (before ++ cs ++ after ++ ending ++ rest)

theorem Blanks.nil : Blanks [] := ⟨nofun, nofun⟩

theorem Blanks.of_all {cs : List Char} (h : cs.all (fun c => isBlank c && c != '\n') = true) : Blanks cs := by
  rw [List.all_eq_true] at h
  constructor
  · intro c hc
    exact (Bool.and_eq_true_iff.mp (h c hc)).1
  · intro hfeed
    simpa using h '\n' hfeed

theorem Spread.intercalate (cs : List Char) (css : List (List Char)) :
    Spread (cs :: css) (['\n'].intercalate (cs :: css)) := by
  induction css generalizing cs with
  | nil =>
    rw [List.intercalate_singleton]
    simpa using @Spread.last [] cs [] .nil .nil
  | cons next css ih =>
    rw [List.intercalate_cons_cons]
    simpa using @Spread.line [] cs [] _ _ _ .nil .nil .feed (ih next)

/-! ### Trimming -/

theorem trimChars_append_blanks {blanks : List Char} (h : ∀ c ∈ blanks, isBlank c = true) (cs : List Char) :
    trimChars (cs ++ blanks) = trimChars cs := by
  unfold trimChars
  rw [List.dropWhile_append]
  split
  · rename_i hempty
    rw [List.isEmpty_iff.mp hempty, List.dropWhile_eq_nil_iff.mpr h]
  · rw [List.reverse_append, List.dropWhile_append_of_pos (by simpa using h)]

theorem trimChars_blanks_append {blanks : List Char} (h : ∀ c ∈ blanks, isBlank c = true) (cs : List Char) :
    trimChars (blanks ++ cs) = trimChars cs := by
  unfold trimChars
  rw [List.dropWhile_append_of_pos h]

theorem Blanks.trimmed {blanks : List Char} (h : Blanks blanks) : trimChars blanks = [] :=
  trimChars_append_blanks h.blank []

theorem Unbroken.trimmed_between {before cs after : List Char} (h : Unbroken cs) (hbefore : Blanks before)
    (hafter : Blanks after) : trimChars (before ++ cs ++ after) = cs := by
  rw [trimChars_append_blanks hafter.blank, trimChars_blanks_append hbefore.blank, h.trimmed]

theorem Unbroken.feed_between {before cs after : List Char} (h : Unbroken cs) (hbefore : Blanks before)
    (hafter : Blanks after) : '\n' ∉ before ++ cs ++ after := by
  simp [hbefore.feed, h.feed, hafter.feed]

/-- The carriage return that ends with a line is a blank of it. -/
theorem trimChars_endLine (cs : List Char) : trimChars (endLine cs.reverse) = trimChars cs := by
  unfold endLine
  split
  · rename_i line heq
    rw [List.reverse_eq_iff.mp heq, List.reverse_cons, trimChars_append_blanks (by simp [isBlank])]
  · rw [List.reverse_reverse]

/-! ### Contents -/

/-- The lines of a text without the blanks around them and without blank lines. -/
def contents (cs : List Char) : List (List Char) := ((linesFrom [] cs).map trimChars).filter fun line => !line.isEmpty

theorem linesFrom_append {cs : List Char} (h : '\n' ∉ cs) (line rest : List Char) :
    linesFrom line (cs ++ rest) = linesFrom (cs.reverse ++ line) rest := by
  induction cs generalizing line with
  | nil => rfl
  | cons c cs ih =>
    rw [List.mem_cons, not_or] at h
    have hstep : linesFrom line (c :: (cs ++ rest)) = linesFrom (c :: line) (cs ++ rest) :=
      linesFrom.eq_4 line c _ fun heq => h.1 heq.symm
    rw [List.cons_append, hstep, ih h.2, List.reverse_cons, List.append_assoc]
    rfl

/-- The first line feed ends the first line. -/
theorem linesFrom_feed {cs : List Char} (h : '\n' ∉ cs) (rest : List Char) :
    linesFrom [] (cs ++ '\n' :: rest) = endLine cs.reverse :: linesFrom [] rest := by
  rw [linesFrom_append h, List.append_nil, linesFrom.eq_3]

theorem contents_open {cs : List Char} (h : '\n' ∉ cs) :
    contents cs = [trimChars cs].filter fun line => !line.isEmpty := by
  have happend := linesFrom_append h [] []
  rw [List.append_nil, List.append_nil] at happend
  unfold contents
  rw [happend]
  rcases List.eq_nil_or_concat cs with rfl | ⟨init, c, rfl⟩
  · rfl
  · rw [linesFrom.eq_2 _ (by simp), List.reverse_reverse]
    rfl

theorem contents_ended {cs ending : List Char} (h : '\n' ∉ cs) (hending : LineEnd ending) (rest : List Char) :
    contents (cs ++ ending ++ rest) = ([trimChars cs].filter fun line => !line.isEmpty) ++ contents rest := by
  have hline : (linesFrom [] (cs ++ ending ++ rest)).map trimChars =
      trimChars cs :: (linesFrom [] rest).map trimChars := by
    cases hending with
    | feed =>
      rw [List.append_assoc, List.singleton_append, linesFrom_feed h, List.map_cons, trimChars_endLine]
    | carriageFeed =>
      rw [List.append_assoc, linesFrom_append h, List.append_nil]
      have hreturn : linesFrom cs.reverse (['\r', '\n'] ++ rest) = cs :: linesFrom [] rest := by
        rw [List.cons_append, List.singleton_append, linesFrom.eq_4 _ _ _ (by simp), linesFrom.eq_3]
        exact congrArg (· :: linesFrom [] rest) (List.reverse_reverse cs)
      rw [hreturn, List.map_cons]
  unfold contents
  rw [hline, ← List.singleton_append, List.filter_append]

theorem filter_unbroken {cs : List Char} (h : Unbroken cs) : [cs].filter (fun line => !line.isEmpty) = [cs] := by
  simp [h.nonempty]

/-- Lines are found again in every text over which they are spread. -/
theorem Spread.contents_eq {css : List (List Char)} {text : List Char} (h : Spread css text)
    (hcss : ∀ cs ∈ css, Unbroken cs) : contents text = css := by
  induction h with
  | rest h => rw [contents_open h.feed, h.trimmed]; rfl
  | last hbefore hafter =>
    rw [List.forall_mem_singleton] at hcss
    rw [contents_open (hcss.feed_between hbefore hafter), hcss.trimmed_between hbefore hafter, filter_unbroken hcss]
  | blank h hending _ ih =>
    rw [contents_ended h.feed hending, h.trimmed, ih hcss]
    rfl
  | line hbefore hafter hending _ ih =>
    rw [List.forall_mem_cons] at hcss
    obtain ⟨hcs, hcss⟩ := hcss
    rw [contents_ended (hcs.feed_between hbefore hafter) hending, hcs.trimmed_between hbefore hafter,
      filter_unbroken hcs, ih hcss, List.singleton_append]

example : contents [' ', '\r', '\n', 'a', ' ', 'b', '\t', '\r', '\r', '\n', '\u2028', 'c', '\r'] =
    [['a', ' ', 'b'], ['c']] := rfl

/-! ### Lines one below the other -/

/-- A line that does not end in a carriage return keeps all of it before its line feed. -/
theorem endLine_reverse {cs : List Char} (h : cs.getLast? ≠ some '\r') : endLine cs.reverse = cs := by
  unfold endLine
  split
  · rename_i line heq
    rw [List.getLast?_eq_head?_reverse, heq] at h
    exact absurd rfl h
  · rw [List.reverse_reverse]

/-- Texts on one line each, with a line feed after every one, are read as they are. -/
theorem lines_join {ls : List String} (hfeed : ∀ l ∈ ls, '\n' ∉ l.toList)
    (hreturn : ∀ l ∈ ls, l.toList.getLast? ≠ some '\r') : lines (String.join (ls.map fun l => l ++ "\n")) = ls := by
  have hjoin : (String.join (ls.map fun l => l ++ "\n")).toList = ls.flatMap fun l => l.toList ++ ['\n'] := by
    simp [String.toList_join, List.flatMap_map]
  unfold lines
  rw [hjoin]
  clear hjoin
  induction ls with
  | nil => rfl
  | cons l ls ih =>
    rw [List.forall_mem_cons] at hfeed hreturn
    rw [List.flatMap_cons, List.append_assoc, List.singleton_append, linesFrom_feed hfeed.1, endLine_reverse hreturn.1,
      List.map_cons, String.ofList_toList, ih hfeed.2 hreturn.2]

end CircuitDesigner.Text
