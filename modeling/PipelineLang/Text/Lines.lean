/-!
# Lines

A text is cut into lines at line feeds. As a list of lines to show, a text has no line behind its
last line feed, and the carriage return before a line feed belongs to the line end.
-/

namespace PipelineLang.Lines

/-- The line at the front of a text, and what follows its line feed if there is one. -/
def cut : List Char → List Char × Option (List Char)
  | [] => ([], none)
  | c :: cs =>
    if c = '\n' then ([], some cs)
    else
      let (line, rest) := cut cs
      (c :: line, rest)

theorem length_of_cut {text line rest : List Char} (h : cut text = (line, some rest)) :
    rest.length < text.length := by
  induction text generalizing line with
  | nil => simp [cut] at h
  | cons c cs ih =>
    simp only [cut] at h
    split at h
    · simp only [Prod.mk.injEq, Option.some.injEq] at h
      simp [h.2]
    · have hc : cut cs = ((cut cs).1, some rest) := by
        simp only [Prod.mk.injEq] at h
        rw [← h.2]
      have := ih hc
      simp only [List.length_cons]
      omega

/-- The line without a carriage return at its end. -/
def withoutReturn (line : List Char) : List Char :=
  if line.getLast? = some '\r' then line.dropLast else line

/-- The lines of a text that is shown. -/
def shown (text : List Char) : List (List Char) :=
  match _h : cut text with
  | ([], none) => []
  | (line, none) => [line]
  | (line, some rest) => withoutReturn line :: shown rest
termination_by text.length
decreasing_by exact length_of_cut _h

/-- The characters since the last line feed. -/
def last (text : List Char) : List Char := (text.reverse.takeWhile (· != '\n')).reverse

end PipelineLang.Lines
