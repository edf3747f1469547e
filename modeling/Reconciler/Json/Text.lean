import Reconciler.Json.Basic

/-!
# Text in JSON

What stands between two quotation marks. Characters below the space must be escaped. An escape gives
a character by a letter or by four hexadecimal digits; characters beyond the basic plane take two
such groups, a leading and a trailing surrogate, and neither may stand alone.
-/

namespace Reconciler.Json

/-- The value of a hexadecimal digit. -/
def hexDigit? (c : Char) : Option Nat :=
  let n := c.toNat
  if '0'.toNat ≤ n ∧ n ≤ '9'.toNat then some (n - '0'.toNat)
  else if 'a'.toNat ≤ n ∧ n ≤ 'f'.toNat then some (n - 'a'.toNat + 10)
  else if 'A'.toNat ≤ n ∧ n ≤ 'F'.toNat then some (n - 'A'.toNat + 10)
  else none

/-- The length of a text in the bytes of UTF-8. -/
def byteCount : List Char → Nat
  | [] => 0
  | c :: cs => c.utf8Size + byteCount cs

/-- Reads four hexadecimal digits. The text ends early when fewer than four bytes of it are left,
whatever they are. -/
def hexGroup : Reader Nat := fun cs =>
  if byteCount (cs.take 4) < 4 then .error .endsEarly
  else
    match cs with
    | a :: b :: c :: d :: rest =>
      match hexDigit? a, hexDigit? b, hexDigit? c, hexDigit? d with
      | some a, some b, some c, some d => .ok (((a * 16 + b) * 16 + c) * 16 + d, rest)
      | _, _, _, _ => .error .malformed
    | _ => .error .malformed

/-- Whether a code is that of a leading surrogate. -/
def isLeading (n : Nat) : Bool := 0xD800 ≤ n && n ≤ 0xDBFF

/-- Whether a code is that of a trailing surrogate. -/
def isTrailing (n : Nat) : Bool := 0xDC00 ≤ n && n ≤ 0xDFFF

/-- Reads the trailing surrogate that must follow a leading one: the character of the two. -/
def trailing (lead : Nat) : Reader Char
  | [] => .error .endsEarly
  | '\\' :: [] => .error .endsEarly
  | '\\' :: 'u' :: cs =>
    match hexGroup cs with
    | .error f => .error f
    | .ok (n, rest) =>
      if isTrailing n then
        .ok (Char.ofNat ((lead - 0xD800) * 0x400 + (n - 0xDC00) + 0x10000), rest)
      else .error .malformed
  | _ :: _ => .error .malformed

/-- Reads a character given by its code, after the `u`. -/
def coded : Reader Char := fun cs =>
  match hexGroup cs with
  | .error f => .error f
  | .ok (n, rest) =>
    if isTrailing n then .error .malformed
    else if isLeading n then trailing n rest
    else .ok (Char.ofNat n, rest)

/-- Reads an escaped character, after the backslash. -/
def escaped : Reader Char
  | [] => .error .endsEarly
  | '"' :: cs => .ok ('"', cs)
  | '\\' :: cs => .ok ('\\', cs)
  | '/' :: cs => .ok ('/', cs)
  | 'b' :: cs => .ok ('\x08', cs)
  | 'f' :: cs => .ok ('\x0c', cs)
  | 'n' :: cs => .ok ('\n', cs)
  | 'r' :: cs => .ok ('\r', cs)
  | 't' :: cs => .ok ('\t', cs)
  | 'u' :: cs => coded cs
  | _ :: _ => .error .malformed

theorem length_of_hexGroup {cs rest : List Char} {n : Nat} (h : hexGroup cs = .ok (n, rest)) :
    rest.length < cs.length := by
  unfold hexGroup at h
  split at h
  · cases h
  · split at h
    · split at h
      · simp only [Except.ok.injEq, Prod.mk.injEq] at h
        obtain ⟨-, rfl⟩ := h
        simp only [List.length_cons]
        omega
      · cases h
    · cases h

theorem length_of_trailing {lead : Nat} {cs rest : List Char} {c : Char}
    (h : trailing lead cs = .ok (c, rest)) : rest.length < cs.length := by
  unfold trailing at h
  split at h
  · cases h
  · cases h
  · split at h
    · cases h
    · rename_i read
      split at h
      · simp only [Except.ok.injEq, Prod.mk.injEq] at h
        obtain ⟨-, rfl⟩ := h
        have := length_of_hexGroup read
        simp only [List.length_cons]
        omega
      · cases h
  · cases h

theorem length_of_coded {cs rest : List Char} {c : Char} (h : coded cs = .ok (c, rest)) :
    rest.length < cs.length := by
  unfold coded at h
  split at h
  · cases h
  · rename_i read
    have shorter := length_of_hexGroup read
    split at h
    · cases h
    · split at h
      · exact Nat.lt_trans (length_of_trailing h) shorter
      · simp only [Except.ok.injEq, Prod.mk.injEq] at h
        obtain ⟨-, rfl⟩ := h
        exact shorter

theorem length_of_escaped {cs rest : List Char} {c : Char} (h : escaped cs = .ok (c, rest)) :
    rest.length < cs.length := by
  unfold escaped at h
  split at h <;> try cases h
  case h_10 => exact Nat.lt_succ_of_lt (length_of_coded h)
  all_goals simp

/-- Reads text up to its closing quotation mark. -/
def unquoted : Reader (List Char)
  | [] => .error .endsEarly
  | '"' :: cs => .ok ([], cs)
  | '\\' :: cs =>
    match _read : escaped cs with
    | .error f => .error f
    | .ok (c, rest) =>
      match unquoted rest with
      | .error f => .error f
      | .ok (text, rest) => .ok (c :: text, rest)
  | c :: cs =>
    if c < ' ' then .error .malformed
    else
      match unquoted cs with
      | .error f => .error f
      | .ok (text, rest) => .ok (c :: text, rest)
termination_by cs => cs.length
decreasing_by
  · have := length_of_escaped _read
    simp only [List.length_cons]
    omega
  · simp

end Reconciler.Json
