/-!
# `Externals.Text.Blank`: blanks, trimming and words

A *blank* is a character with the Unicode property `White_Space`. The
no-break space, the next-line control, the ideographic space and the
two line separators are blanks; the zero-width space and the byte
order mark are not.

Text is cut on lists of characters, so that every cut is a plain
recursion. The size that matters below is `ink`, the number of
characters that are not blank: trimming never changes it.

* `ink_append`, `ink_trim`: ink adds up over a concatenation and
  survives trimming.
* `length_trim_le`: trimming never lengthens.
-/

set_option autoImplicit false

namespace Externals.Text

/-- The characters with the property `White_Space`. -/
def isBlank (c : Char) : Bool :=
  let n := c.toNat
  (0x9 ≤ n && n ≤ 0xd) || n == 0x20 || n == 0x85 || n == 0xa0 || n == 0x1680
    || (0x2000 ≤ n && n ≤ 0x200a) || n == 0x2028 || n == 0x2029 || n == 0x202f
    || n == 0x205f || n == 0x3000

/-- The text without its leading blanks. -/
def trimLeft (cs : List Char) : List Char := cs.dropWhile isBlank

/-- The text without its trailing blanks. -/
def trimRight (cs : List Char) : List Char := (cs.reverse.dropWhile isBlank).reverse

/-- The text without the blanks at both ends. -/
def trim (cs : List Char) : List Char := trimRight (trimLeft cs)

/-- The number of characters that are not blank. -/
def ink (cs : List Char) : Nat := cs.countP fun c => !isBlank c

/-- The maximal runs of characters that are not blank, in order. -/
def words : List Char → List (List Char)
  | [] => []
  | c :: cs =>
      if isBlank c then words cs
      else if (cs.head?.map isBlank).getD true then [c] :: words cs
      else
        match words cs with
        | [] => [[c]]
        | w :: ws => (c :: w) :: ws

/-- The words of a text with one space between neighbours. -/
def collapse (cs : List Char) : List Char := [' '].intercalate (words cs)

/-- The words of a text with nothing between neighbours. -/
def squeeze (cs : List Char) : List Char := (words cs).flatten

/-- Trimming, on strings. -/
def trimString (s : String) : String := String.ofList (trim s.toList)

/-- Collapsing blanks, on strings. -/
def collapseString (s : String) : String := String.ofList (collapse s.toList)

/-- Dropping all blanks, on strings. -/
def squeezeString (s : String) : String := String.ofList (squeeze s.toList)

/-! ### Ink -/

/-- Nothing has no ink. -/
@[simp]
theorem ink_nil : ink [] = 0 := rfl

/-- A character adds one, unless it is blank. -/
theorem ink_cons (c : Char) (cs : List Char) :
    ink (c :: cs) = ink cs + (if isBlank c then 0 else 1) := by
  cases h : isBlank c <;> simp [ink, h]

/-- The ink of two texts adds up. -/
theorem ink_append (as bs : List Char) : ink (as ++ bs) = ink as + ink bs := by
  simp [ink]

/-- The ink of a text does not depend on its direction. -/
theorem ink_reverse (cs : List Char) : ink cs.reverse = ink cs := by
  simp [ink]

/-- Leading blanks carry no ink. -/
theorem ink_trimLeft (cs : List Char) : ink (trimLeft cs) = ink cs := by
  induction cs with
  | nil => rfl
  | cons c cs ih =>
      cases h : isBlank c with
      | true =>
          have hdrop : trimLeft (c :: cs) = trimLeft cs := by simp [trimLeft, h]
          rw [hdrop, ih, ink_cons]
          simp [h]
      | false => simp [trimLeft, h]

/-- Trailing blanks carry no ink. -/
theorem ink_trimRight (cs : List Char) : ink (trimRight cs) = ink cs := by
  show ink (trimLeft cs.reverse).reverse = ink cs
  rw [ink_reverse, ink_trimLeft, ink_reverse]

/-- What is trimmed off has no ink. -/
theorem ink_trim (cs : List Char) : ink (trim cs) = ink cs := by
  rw [trim, ink_trimRight, ink_trimLeft]

/-! ### Length -/

/-- Trimming the front makes nothing longer. -/
theorem length_trimLeft_le (cs : List Char) : (trimLeft cs).length ≤ cs.length := by
  induction cs with
  | nil => exact Nat.le_refl _
  | cons c cs ih =>
      cases h : isBlank c with
      | true =>
          have hdrop : trimLeft (c :: cs) = trimLeft cs := by simp [trimLeft, h]
          rw [hdrop]
          exact Nat.le_succ_of_le ih
      | false => simp [trimLeft, h]

/-- Nor does trimming both ends. -/
theorem length_trim_le (cs : List Char) : (trim cs).length ≤ cs.length := by
  have hright : (trimRight (trimLeft cs)).length ≤ (trimLeft cs).length := by
    have h := length_trimLeft_le (trimLeft cs).reverse
    simpa [trimRight, trimLeft] using h
  exact Nat.le_trans hright (length_trimLeft_le cs)

end Externals.Text
