import Externals.Json.Basic

/-!
# `Externals.Proofs.Json.Pretty`: the pretty form shows the whole value

Two values with one pretty form are equal (`pretty_inj`). The proof
reads both forms from the left at once. It is stated with any text after
the forms, because the form of a part is followed by the rest of the
whole: if the two texts agree, then so do the values, and so does what
follows them.

* Strings: `readChar` reads one written character back, so no two
  characters are written alike (`escapeChar_append_inj`), and the closing
  quote is no written character.
* Numbers end where the digits end. This is why what follows a value must
  not begin with a digit (`Stops`).
* Arrays and objects: after a value comes a comma or a line break, so the
  two sides have the same number of elements.

The first character tells the sorts of values apart (`opener`).
-/

set_option autoImplicit false

namespace Externals.Json

/-! ### Strings -/

/-- The value of a hexadecimal digit, for digits and small letters. -/
def hexValue (c : Char) : Nat := if c.toNat < 58 then c.toNat - 48 else c.toNat - 87

/-- The digits that are written for the numbers below 16 read as these
numbers. -/
theorem hexValue_hexDigit : ∀ n < 16, hexValue (hexDigit n) = n := by decide

/-- Read what follows a backslash. Only the escapes that are written are
read. -/
def readEscape : List Char → Option (Char × List Char)
  | '\x22' :: cs => some ('\x22', cs)
  | '\\' :: cs => some ('\\', cs)
  | 'n' :: cs => some ('\n', cs)
  | 'r' :: cs => some ('\r', cs)
  | 't' :: cs => some ('\t', cs)
  | 'b' :: cs => some (Char.ofNat 8, cs)
  | 'f' :: cs => some (Char.ofNat 12, cs)
  | 'u' :: '0' :: '0' :: a :: b :: cs => some (Char.ofNat (16 * hexValue a + hexValue b), cs)
  | _ => none

/-- Read one character of a string, with the text after it. This is a
reader for the proof only: that it undoes the writing is all that is
asked of it. -/
def readChar : List Char → Option (Char × List Char)
  | [] => none
  | c :: cs => if c == '\\' then readEscape cs else some (c, cs)

/-- A written character reads as itself, whatever follows. The cases are
those of the writer, in its order. -/
theorem readChar_escapeChar (c : Char) (cs : List Char) :
    readChar (escapeChar c ++ cs) = some (c, cs) := by
  -- The named escapes compute; the hexadecimal one needs the two digits put together again;
  -- a plain character is read as itself.
  fun_cases escapeChar c with
  | case1 h | case2 _ h | case3 _ _ h | case4 _ _ _ h | case5 _ _ _ _ h =>
      cases beq_iff_eq.mp h
      rfl
  | case6 _ _ _ _ _ h =>
      rw [← Char.ofNat_toNat c, beq_iff_eq.mp h]
      rfl
  | case7 _ _ _ _ _ _ h =>
      rw [← Char.ofNat_toNat c, beq_iff_eq.mp h]
      rfl
  | case8 _ _ _ _ _ _ _ h =>
      have hhigh := hexValue_hexDigit (c.toNat / 16) (by omega)
      have hlow := hexValue_hexDigit (c.toNat % 16) (by omega)
      show some (Char.ofNat (16 * hexValue (hexDigit (c.toNat / 16))
        + hexValue (hexDigit (c.toNat % 16))), cs) = some (c, cs)
      rw [hhigh, hlow, Nat.div_add_mod, Char.ofNat_toNat]
  | case9 _ h => simp [readChar, h]

/-- Characters that are written alike are equal, and so is what follows
them. -/
theorem escapeChar_append_inj {c d : Char} {cs ds : List Char}
    (h : escapeChar c ++ cs = escapeChar d ++ ds) : c = d ∧ cs = ds := by
  have hread := readChar_escapeChar c cs
  rw [h, readChar_escapeChar] at hread
  cases hread
  exact ⟨rfl, rfl⟩

/-- No written character begins with a quote, so the quote that ends a
string is found. -/
theorem escapeChar_append_ne (c : Char) (cs ds : List Char) :
    escapeChar c ++ cs ≠ '\x22' :: ds := by
  fun_cases escapeChar c with
  | case9 h => simp_all
  | _ => simp

/-- The characters of a string up to its closing quote. The induction is
on the first string; the second has to go along with it. -/
theorem escaped_append_inj {as bs r s : List Char}
    (h : as.flatMap escapeChar ++ '\x22' :: r = bs.flatMap escapeChar ++ '\x22' :: s) :
    as = bs ∧ r = s := by
  -- No escape begins with a quotation mark, so the closing one is found at the same place in
  -- both texts.
  induction as generalizing bs with
  | nil =>
      cases bs with
      | nil => exact ⟨rfl, (List.cons.inj h).2⟩
      | cons b bs =>
          rw [List.flatMap_cons, List.append_assoc] at h
          exact absurd h.symm (escapeChar_append_ne b _ _)
  | cons a as ih =>
      rw [List.flatMap_cons, List.append_assoc] at h
      cases bs with
      | nil => exact absurd h (escapeChar_append_ne a _ _)
      | cons b bs =>
          rw [List.flatMap_cons, List.append_assoc] at h
          obtain ⟨rfl, hrest⟩ := escapeChar_append_inj h
          obtain ⟨rfl, hr⟩ := ih hrest
          exact ⟨rfl, hr⟩

/-- A string ends at its closing quote, whatever follows. -/
theorem quote_append_inj {a b : String} {r s : List Char} (h : quote a ++ r = quote b ++ s) :
    a = b ∧ r = s := by
  simp only [quote, List.cons_append, List.append_assoc, List.nil_append, List.cons.injEq,
    true_and] at h
  obtain ⟨hchars, hr⟩ := escaped_append_inj h
  exact ⟨String.toList_inj.mp hchars, hr⟩

/-! ### Numbers -/

/-- A text that does not continue a number. -/
def Stops (cs : List Char) : Prop := ∀ c ∈ cs.head?, c.isDigit = false

/-- A text that begins with something else than a digit. -/
theorem stops_cons {c : Char} (hc : c.isDigit = false) (cs : List Char) : Stops (c :: cs) := by
  intro d hd
  cases hd
  exact hc

/-- Numbers are written with digits only. -/
theorem isDigit_of_mem_number {n : Nat} {c : Char} (h : c ∈ (toString n).toList) :
    c.isDigit = true := by
  rw [Nat.toString_eq_ofList_toDigits, String.toList_ofList] at h
  exact Nat.isDigit_of_mem_toDigits (by decide) (by decide) h

/-- The written form of a number is the run of digits in front. -/
theorem takeWhile_number {n : Nat} {r : List Char} (hr : Stops r) :
    ((toString n).toList ++ r).takeWhile Char.isDigit = (toString n).toList := by
  rw [List.takeWhile_append_of_pos fun _ => isDigit_of_mem_number]
  cases r with
  | nil => simp
  | cons c r => simp [hr c rfl]

/-- No two numbers are written alike. -/
theorem number_inj {m n : Nat} (h : (toString m).toList = (toString n).toList) : m = n := by
  simp only [Nat.toString_eq_ofList_toDigits, String.toList_ofList] at h
  rw [← @Nat.ofDigitChars_ten_toDigits m, h, Nat.ofDigitChars_ten_toDigits]

/-- A number ends where its digits end. -/
theorem number_append_inj {m n : Nat} {r s : List Char} (hr : Stops r) (hs : Stops s)
    (h : (toString m).toList ++ r = (toString n).toList ++ s) : m = n ∧ r = s := by
  have hdigits : (toString m).toList = (toString n).toList := by
    rw [← takeWhile_number hr, h, takeWhile_number hs]
  rw [hdigits] at h
  exact ⟨number_inj hdigits, List.append_cancel_left h⟩

/-! ### Values -/

/-- The first character of a value, with `0` for all digits. -/
def opener : Json → Char
  | null => 'n'
  | bool true => 't'
  | bool false => 'f'
  | num _ => '0'
  | str _ => '\x22'
  | arr _ => '['
  | obj _ => '\x7b'

/-- What a first character announces: all digits announce a number. -/
def announced (c : Char) : Char := if c.isDigit then '0' else c

/-- The first character of a written value announces its sort. -/
theorem announced_prettyAt (level : Nat) (a : Json) (r : List Char) :
    (prettyAt level a ++ r).head?.map announced = some a.opener := by
  -- Every form but a number is told by its first character; a number by a digit, and it has
  -- one.
  fun_cases prettyAt level a with
  | case4 n =>
      cases h : (toString n).toList with
      | nil =>
          rw [Nat.toString_eq_ofList_toDigits, String.toList_ofList] at h
          exact absurd h Nat.toDigits_ne_nil
      | cons c cs =>
          have hdigit : c.isDigit = true := isDigit_of_mem_number (h ▸ List.mem_cons_self)
          simp [announced, hdigit, opener]
  | _ => rfl

/-- Texts that begin with values of one form have values of one sort. -/
theorem opener_eq {level : Nat} {a b : Json} {r s : List Char}
    (h : prettyAt level a ++ r = prettyAt level b ++ s) : a.opener = b.opener := by
  have ha := announced_prettyAt level a r
  rw [h, announced_prettyAt] at ha
  exact (Option.some.inj ha).symm

/-- A line break does not continue a number. -/
theorem stops_newline (level : Nat) (r : List Char) : Stops (newline level ++ r) :=
  stops_cons (by decide) _

/-- Nor do the remaining elements of an array, which begin with a comma
or, if there are none, with a line break. -/
theorem stops_items (level : Nat) (items : List Json) (r : List Char) :
    Stops (prettyItems level items ++ (newline level ++ r)) := by
  cases items with
  | nil => exact stops_newline level r
  | cons item items => exact stops_cons (by decide) _

/-- Nor do the remaining fields of an object. -/
theorem stops_fields (level : Nat) (fields : List (String × Json)) (r : List Char) :
    Stops (prettyFields level fields ++ (newline level ++ r)) := by
  cases fields with
  | nil => exact stops_newline level r
  | cons field fields => exact stops_cons (by decide) _

mutual

/-- A value ends where its form ends: from texts that begin with the
forms of two values, the values can be read and what follows them. -/
theorem prettyAt_append_inj (level : Nat) (a b : Json) {r s : List Char} (hr : Stops r)
    (hs : Stops s) (h : prettyAt level a ++ r = prettyAt level b ++ s) : a = b ∧ r = s := by
  -- The first character leaves only the pairs of one sort.
  have hopener := opener_eq h
  match a, b, hopener with
  | null, null, _ => exact ⟨rfl, List.append_cancel_left h⟩
  | bool true, bool true, _ => exact ⟨rfl, List.append_cancel_left h⟩
  | bool false, bool false, _ => exact ⟨rfl, List.append_cancel_left h⟩
  | num m, num n, _ =>
      obtain ⟨rfl, hrest⟩ := number_append_inj hr hs h
      exact ⟨rfl, hrest⟩
  | str a, str b, _ =>
      obtain ⟨rfl, hrest⟩ := quote_append_inj h
      exact ⟨rfl, hrest⟩
  | arr [], arr [], _ => exact ⟨rfl, List.append_cancel_left h⟩
  | arr [], arr (b :: bs), _ => simp [prettyAt, newline] at h
  | arr (a :: as), arr [], _ => simp [prettyAt, newline] at h
  | arr (a :: as), arr (b :: bs), _ =>
      simp only [prettyAt, List.cons_append, List.append_assoc, List.cons.injEq, true_and,
        List.append_cancel_left_eq] at h
      obtain ⟨rfl, hitems⟩ :=
        prettyAt_append_inj (level + 1) a b (stops_items _ _ _) (stops_items _ _ _) h
      obtain ⟨rfl, hclose⟩ := prettyItems_append_inj level as bs hitems
      exact ⟨rfl, (List.cons.inj hclose).2⟩
  | obj [], obj [], _ => exact ⟨rfl, List.append_cancel_left h⟩
  | obj [], obj (b :: bs), _ => simp [prettyAt, newline] at h
  | obj (a :: as), obj [], _ => simp [prettyAt, newline] at h
  | obj ((k, a) :: as), obj ((l, b) :: bs), _ =>
      simp only [prettyAt, List.cons_append, List.nil_append, List.append_assoc, List.cons.injEq,
        true_and, List.append_cancel_left_eq] at h
      -- The name ends at its quote, and the colon behind it is the same on both sides.
      obtain ⟨rfl, hvalue⟩ := quote_append_inj h
      simp only [List.cons.injEq, true_and] at hvalue
      obtain ⟨rfl, hfields⟩ :=
        prettyAt_append_inj (level + 1) a b (stops_fields _ _ _) (stops_fields _ _ _) hvalue
      obtain ⟨rfl, hclose⟩ := prettyFields_append_inj level as bs hfields
      exact ⟨rfl, (List.cons.inj hclose).2⟩

/-- Elements are followed by a line break, and each begins with a comma,
so both sides have the same number of them. -/
theorem prettyItems_append_inj (level : Nat) (as bs : List Json) {r s : List Char}
    (h : prettyItems level as ++ (newline level ++ r)
      = prettyItems level bs ++ (newline level ++ s)) : as = bs ∧ r = s := by
  match as, bs with
  | [], [] => exact ⟨rfl, List.append_cancel_left h⟩
  | [], b :: bs => simp [prettyItems, newline] at h
  | a :: as, [] => simp [prettyItems, newline] at h
  | a :: as, b :: bs =>
      simp only [prettyItems, List.cons_append, List.append_assoc, List.cons.injEq, true_and,
        List.append_cancel_left_eq] at h
      -- The item ends where the next one or the closing bracket stops it.
      obtain ⟨rfl, hitems⟩ :=
        prettyAt_append_inj (level + 1) a b (stops_items _ _ _) (stops_items _ _ _) h
      obtain ⟨rfl, hrest⟩ := prettyItems_append_inj level as bs hitems
      exact ⟨rfl, hrest⟩

/-- Fields are followed by a line break, and each begins with a comma. A
field is read as its name and its value. -/
theorem prettyFields_append_inj (level : Nat) (as bs : List (String × Json)) {r s : List Char}
    (h : prettyFields level as ++ (newline level ++ r)
      = prettyFields level bs ++ (newline level ++ s)) : as = bs ∧ r = s := by
  match as, bs with
  | [], [] => exact ⟨rfl, List.append_cancel_left h⟩
  | [], b :: bs => simp [prettyFields, newline] at h
  | a :: as, [] => simp [prettyFields, newline] at h
  | (k, a) :: as, (l, b) :: bs =>
      -- Key, value and rest are recovered in the order they are printed: each is delimited, so
      -- equal texts leave equal remainders.
      simp only [prettyFields, List.cons_append, List.nil_append, List.append_assoc,
        List.cons.injEq, true_and, List.append_cancel_left_eq] at h
      obtain ⟨rfl, hvalue⟩ := quote_append_inj h
      simp only [List.cons.injEq, true_and] at hvalue
      obtain ⟨rfl, hfields⟩ :=
        prettyAt_append_inj (level + 1) a b (stops_fields _ _ _) (stops_fields _ _ _) hvalue
      obtain ⟨rfl, hrest⟩ := prettyFields_append_inj level as bs hfields
      exact ⟨rfl, hrest⟩

end

/-- Values with one pretty form are equal. -/
theorem pretty_inj {a b : Json} (h : a.pretty = b.pretty) : a = b := by
  have hend : Stops [] := nofun
  refine (prettyAt_append_inj 0 a b hend hend ?_).1
  rw [List.append_nil, List.append_nil]
  exact String.ofList_injective h

end Externals.Json
