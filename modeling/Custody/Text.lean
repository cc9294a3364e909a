/-! Small functions on lists of characters: blanks, trimming and splitting at a mark. Paths and
settings are read with these, so that what is said about them is said about lists. -/

namespace Custody.Text

/-- The characters with the Unicode property `White_Space`. The zero-width space and the byte order
mark are not among them. -/
def isBlank (c : Char) : Bool :=
  let n := c.toNat
  (0x09 ≤ n && n ≤ 0x0D) || n == 0x20 || n == 0x85 || n == 0xA0 || n == 0x1680 ||
    (0x2000 ≤ n && n ≤ 0x200A) || n == 0x2028 || n == 0x2029 || n == 0x202F || n == 0x205F ||
    n == 0x3000

/-- Drops the characters that satisfy `p` from the end. -/
def dropEndWhile (p : Char → Bool) (cs : List Char) : List Char :=
  (cs.reverse.dropWhile p).reverse

/-- Drops the blanks at both ends. -/
def trim (cs : List Char) : List Char :=
  dropEndWhile isBlank (cs.dropWhile isBlank)

/-- Cuts at every `mark`. There is always one part more than there are marks. -/
def splitAt (mark : Char) : List Char → List (List Char)
  | [] => [[]]
  | c :: cs =>
      if c = mark then [] :: splitAt mark cs
      else
        match splitAt mark cs with
        | [] => [[c]]
        | part :: parts => (c :: part) :: parts

/-- Puts `mark` between the parts. -/
def joinWith (mark : Char) : List (List Char) → List Char
  | [] => []
  | [part] => part
  | part :: parts => part ++ mark :: joinWith mark parts

/-- What stands behind the last `mark`, if there is a mark. -/
def afterLast (mark : Char) (cs : List Char) : Option (List Char) :=
  if mark ∈ cs then some (cs.reverse.takeWhile (· != mark)).reverse else none

theorem splitAt_ne_nil (mark : Char) (cs : List Char) : splitAt mark cs ≠ [] := by
  cases cs with
  | nil => simp [splitAt]
  | cons c cs =>
      simp only [splitAt]
      split
      · simp
      · split <;> simp

theorem joinWith_splitAt (mark : Char) (cs : List Char) :
    joinWith mark (splitAt mark cs) = cs := by
  induction cs with
  | nil => rfl
  | cons c cs ih =>
      have hne := splitAt_ne_nil mark cs
      simp only [splitAt]
      split
      next h =>
        subst h
        cases hs : splitAt c cs with
        | nil => exact absurd hs hne
        | cons part parts => rw [hs] at ih; simp [joinWith, ih]
      next h =>
        cases hs : splitAt mark cs with
        | nil => exact absurd hs hne
        | cons part parts =>
            rw [hs] at ih
            cases parts with
            | nil => simp [joinWith] at ih ⊢; exact ih
            | cons next rest => simp [joinWith] at ih ⊢; exact ih

end Custody.Text
