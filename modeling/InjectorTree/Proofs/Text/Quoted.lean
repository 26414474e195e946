import Mathlib.Data.List.Basic
import InjectorTree.Text.Quoted

/-!
# Reading quotations back

A quotation is read from left to right, one character of the text at a time. A backslash says that what follows it
stands for a character; any other character stands for itself, and the quotation mark for the end. Which characters
are escaped, and in which form, need not be known to read them.

* `nextChar_quotedChar`: what is written for a character is read as that character, whatever follows.
* `quotedChars_append_inj`: a quotation shows where it ends, so one that stands at the front of a longer text is the
  only one that does.
* `quote_inj`: different texts have different quotations.
-/

namespace InjectorTree.Text

-- ---------------------------------------------------------------------------
-- Hexadecimal digits
-- ---------------------------------------------------------------------------

/-- The value of a hexadecimal digit. -/
def hexDigitValue (c : Char) : Nat :=
  if c.toNat ≤ '9'.toNat then c.toNat - '0'.toNat else c.toNat - 'a'.toNat + 10

/-- The number that hexadecimal digits stand for, the most significant digit first. -/
def hexValue (digits : List Char) : Nat :=
  digits.foldl (fun value digit => 16 * value + hexDigitValue digit) 0

theorem hexDigitValue_digitChar : ∀ d, d < 16 → hexDigitValue d.digitChar = d := by
  decide

theorem hexValue_concat (digits : List Char) (digit : Char) :
    hexValue (digits ++ [digit]) = 16 * hexValue digits + hexDigitValue digit := by
  rw [hexValue, List.foldl_append]
  rfl

/-- The digits of a number stand for the number. -/
theorem hexValue_toDigits (n : Nat) : hexValue (Nat.toDigits 16 n) = n := by
  induction n using Nat.strongRecOn with
  | ind n ih =>
    rw [Nat.toDigits_eq_if (by decide)]
    split
    · next hSmall =>
      show 16 * 0 + hexDigitValue n.digitChar = n
      rw [hexDigitValue_digitChar n hSmall, Nat.mul_zero, Nat.zero_add]
    · next hLarge =>
      rw [hexValue_concat, ih (n / 16) (by omega), hexDigitValue_digitChar _ (Nat.mod_lt n (by decide))]
      exact Nat.div_add_mod n 16

/-- No digit is a closing brace. -/
theorem brace_not_mem_toDigits (n : Nat) : '\x7d' ∉ Nat.toDigits 16 n := by
  induction n using Nat.strongRecOn with
  | ind n ih =>
    have hDigit : ∀ d : Nat, '\x7d' ∉ [d.digitChar] := fun d hMem =>
      Nat.digitChar_ne '\x7d' rfl (List.mem_singleton.mp hMem).symm
    rw [Nat.toDigits_eq_if (by decide)]
    split
    · exact hDigit n
    · rw [List.mem_append, not_or]
      exact ⟨ih (n / 16) (by omega), hDigit (n % 16)⟩

-- ---------------------------------------------------------------------------
-- One character
-- ---------------------------------------------------------------------------

/-- What a character after a backslash stands for, unless it is the one that begins a code point. -/
def unescape (c : Char) : Char :=
  if c = '0' then '\x00' else if c = 't' then '\t' else if c = 'n' then '\n' else if c = 'r' then '\r' else c

/-- The character that stands first in what is left of a quotation, and what is left after it; nothing where the
quotation ends. -/
def nextChar : List Char → Option (Char × List Char)
  | [] => none
  | c :: rest =>
    if c = '"' then none
    else if c ≠ '\\' then some (c, rest)
    else
      match rest with
      | [] => none
      | 'u' :: '\x7b' :: rest =>
        some (Char.ofNat (hexValue (rest.takeWhile (· ≠ '\x7d'))), (rest.dropWhile (· ≠ '\x7d')).tail)
      | escape :: rest => some (unescape escape, rest)

/-- A code point is read up to its closing brace. -/
theorem nextChar_codePointEscape (c : Char) (rest : List Char) :
    nextChar (codePointEscape c ++ rest) = some (c, rest) := by
  have hText : codePointEscape c ++ rest =
      '\\' :: 'u' :: '\x7b' :: (Nat.toDigits 16 c.toNat ++ '\x7d' :: rest) := by
    simp [codePointEscape]
  have hDigits : ∀ digit ∈ Nat.toDigits 16 c.toNat, decide (digit ≠ '\x7d') = true := fun digit hMem =>
    decide_eq_true fun hEq => brace_not_mem_toDigits c.toNat (hEq ▸ hMem)
  rw [hText]
  show some (Char.ofNat (hexValue ((Nat.toDigits 16 c.toNat ++ '\x7d' :: rest).takeWhile (· ≠ '\x7d'))),
    ((Nat.toDigits 16 c.toNat ++ '\x7d' :: rest).dropWhile (· ≠ '\x7d')).tail) = some (c, rest)
  rw [List.takeWhile_append_of_pos hDigits, List.dropWhile_append_of_pos hDigits]
  simp [hexValue_toDigits, Char.ofNat_toNat]

/-- What is written for a character is read as that character, whatever follows. -/
theorem nextChar_quotedChar (c : Char) (rest : List Char) :
    nextChar (quotedChar c ++ rest) = some (c, rest) := by
  unfold quotedChar
  split_ifs with hNul hTab hFeed hReturn hMark hBackslash
  · subst hNul; rfl
  · subst hTab; rfl
  · subst hFeed; rfl
  · subst hReturn; rfl
  · subst hMark; rfl
  · subst hBackslash; rfl
  · exact nextChar_codePointEscape c rest
  · simp [nextChar, hMark, hBackslash]

-- ---------------------------------------------------------------------------
-- Whole quotations
-- ---------------------------------------------------------------------------

variable {cs ds : List Char}

/-- A quotation shows where it ends: the first quotation mark that is read as such is the closing one. -/
theorem quotedChars_append_inj {rest rest' : List Char}
    (hEq : quotedChars cs ++ '"' :: rest = quotedChars ds ++ '"' :: rest') : cs = ds ∧ rest = rest' := by
  have hNext := congrArg nextChar hEq
  induction cs generalizing ds with
  | nil =>
    cases ds with
    | nil => exact ⟨rfl, List.tail_eq_of_cons_eq hEq⟩
    | cons d ds =>
      rw [quotedChars_cons, List.append_assoc, nextChar_quotedChar] at hNext
      cases hNext
  | cons c cs ih =>
    rw [quotedChars_cons, List.append_assoc, nextChar_quotedChar] at hNext
    cases ds with
    | nil => cases hNext
    | cons d ds =>
      -- the first characters are the same, and so is what is left after them
      rw [quotedChars_cons, List.append_assoc, nextChar_quotedChar] at hNext
      obtain ⟨rfl, hLeft⟩ := Prod.mk.inj (Option.some.inj hNext)
      obtain ⟨rfl, hRest⟩ := ih hLeft (congrArg nextChar hLeft)
      exact ⟨rfl, hRest⟩

theorem toList_quote (text : String) : (quote text).toList = '"' :: (quotedChars text.toList ++ ['"']) :=
  String.toList_ofList

/-- A quotation at the front of a longer text is the only one there. -/
theorem quote_append_inj {text text' : String} {rest rest' : List Char}
    (hEq : (quote text).toList ++ rest = (quote text').toList ++ rest') : text = text' ∧ rest = rest' := by
  rw [toList_quote, toList_quote, List.cons_append, List.cons_append, List.append_assoc, List.append_assoc] at hEq
  obtain ⟨hChars, hRest⟩ := quotedChars_append_inj (List.tail_eq_of_cons_eq hEq)
  exact ⟨String.toList_inj.mp hChars, hRest⟩

/-- Different texts have different quotations. -/
theorem quote_inj {text text' : String} : quote text = quote text' ↔ text = text' := by
  refine ⟨fun hEq => ?_, congrArg quote⟩
  have hAlone : (quote text).toList ++ [] = (quote text').toList ++ [] := by rw [hEq]
  exact (quote_append_inj hAlone).1

end InjectorTree.Text
