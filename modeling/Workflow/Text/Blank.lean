/-!
# Blank characters

A character is blank when Unicode gives it the property White_Space. Trimming
removes blank characters at the ends of a text and keeps every other character,
blank ones between two others included.
-/

namespace Workflow.Text

/-- The twenty-five code points with the property White_Space. -/
def isBlank (c : Char) : Bool :=
  let code := c.toNat
  (9 ≤ code && code ≤ 13) || code == 32 || code == 0x85 || code == 0xA0 || code == 0x1680 ||
    (0x2000 ≤ code && code ≤ 0x200A) || code == 0x2028 || code == 0x2029 || code == 0x202F ||
    code == 0x205F || code == 0x3000

/-- The text without the blank characters it ends in. -/
def trimEnd (text : List Char) : List Char :=
  (text.reverse.dropWhile isBlank).reverse

/-- The text without the blank characters at either end. -/
def trim (text : List Char) : List Char :=
  trimEnd (text.dropWhile isBlank)

/-- The core library's four blank characters are blank here too. -/
theorem isBlank_of_isWhitespace (c : Char) (white : c.isWhitespace = true) : isBlank c = true := by
  simp only [Char.isWhitespace, Bool.or_eq_true, decide_eq_true_eq] at white
  rcases white with ((rfl | rfl) | rfl) | rfl <;> decide

/-- Nothing is trimmed from a text that holds no blank character. -/
theorem trim_eq_self (text : List Char) (solid : ∀ c ∈ text, isBlank c = false) :
    trim text = text := by
  have kept : ∀ part : List Char, (∀ c ∈ part, isBlank c = false) →
      part.dropWhile isBlank = part := by
    intro part inked
    cases part with
    | nil => rfl
    | cons c rest => simp [List.dropWhile, inked c (by simp)]
  have reversed : ∀ c ∈ text.reverse, isBlank c = false :=
    fun c member => solid c (List.mem_reverse.mp member)
  rw [trim, kept text solid, trimEnd, kept text.reverse reversed, List.reverse_reverse]

end Workflow.Text
