import Mathlib.Algebra.Group.Nat.Defs
import Mathlib.Data.List.Basic

/-!
# C input streams

A stream is the text that was not read yet and the end-of-file indicator, which is set when a
read runs into the end of the text, not when the last character is read. The conversions of
`scanf` are built from `readWhile`, which leaves the first character that does not fit.
-/

namespace CoherenceSim

/-- A stream open for reading. -/
structure File where
  unread : List Char
  eof : Bool
  deriving Repr, DecidableEq

/-- `isspace`, in the C locale. -/
def isSpace (c : Char) : Bool := c = ' ' || (9 ≤ c.toNat && c.toNat ≤ 13)

/-- `isxdigit`. -/
def isHexDigit (c : Char) : Bool :=
  (48 ≤ c.toNat && c.toNat ≤ 57) || (65 ≤ c.toNat && c.toNat ≤ 70)
    || (97 ≤ c.toNat && c.toNat ≤ 102)

/-- What a hexadecimal digit stands for. -/
def hexDigit (c : Char) : Nat :=
  if c.toNat ≤ 57 then c.toNat - 48 else if c.toNat ≤ 70 then c.toNat - 55 else c.toNat - 87

/-- What a sequence of hexadecimal digits stands for. -/
def hexValue (digits : List Char) : Nat := digits.foldl (fun n c => 16 * n + hexDigit c) 0

theorem not_isSpace_of_isHexDigit {c : Char} (h : isHexDigit c = true) : isSpace c = false := by
  cases hs : isSpace c with
  | false => rfl
  | true =>
      simp only [isSpace, Bool.or_eq_true, Bool.and_eq_true, decide_eq_true_eq] at hs
      simp only [isHexDigit, Bool.or_eq_true, Bool.and_eq_true, decide_eq_true_eq] at h
      rcases hs with rfl | hs
      · have : (' ' : Char).toNat = 32 := rfl
        omega
      · omega

/-- A character that is not a digit is none of the digits. -/
theorem ne_of_isHexDigit {c d : Char} (h : isHexDigit c = true) (hd : isHexDigit d = false) :
    c ≠ d := by
  rintro rfl
  rw [h] at hd
  cases hd

theorem hexValue_append_singleton (digits : List Char) (c : Char) :
    hexValue (digits ++ [c]) = 16 * hexValue digits + hexDigit c := by
  rw [hexValue, List.foldl_append]
  rfl

theorem hexDigit_digitChar : ∀ d < 16, isHexDigit d.digitChar = true ∧ hexDigit d.digitChar = d := by
  decide

/-- **A number printed in hexadecimal** is made of digits, and read as that number. -/
theorem hexValue_toDigits (n : Nat) :
    (∀ c ∈ Nat.toDigits 16 n, isHexDigit c = true) ∧ hexValue (Nat.toDigits 16 n) = n := by
  induction n using Nat.strongRecOn with
  | _ n ih =>
      rw [Nat.toDigits_eq_if (by omega)]
      split
      · rename_i hlt
        obtain ⟨hdigit, hvalue⟩ := hexDigit_digitChar n hlt
        refine ⟨fun c hc => ?_, ?_⟩
        · rw [List.mem_singleton.mp hc]
          exact hdigit
        · rw [← List.nil_append [n.digitChar], hexValue_append_singleton, hvalue]
          exact Nat.zero_add n
      · rename_i hge
        obtain ⟨hdigits, hvalue⟩ := ih (n / 16) (by omega)
        obtain ⟨hdigit, hlast⟩ := hexDigit_digitChar (n % 16) (by omega)
        refine ⟨fun c hc => ?_, ?_⟩
        · rcases List.mem_append.mp hc with hc | hc
          · exact hdigits c hc
          · rw [List.mem_singleton.mp hc]
            exact hdigit
        · rw [hexValue_append_singleton, hvalue, hlast]
          omega

namespace File

/-- A stream on a file with this text. -/
def fopen (text : List Char) : File := ⟨text, false⟩

def feof (f : File) : Bool := f.eof

/-- The end of the file, seen. -/
def atEnd : File := ⟨[], true⟩

/-- Read as long as `q` holds of the next character. -/
def readWhile (q : Char → Bool) (f : File) : List Char × File :=
  (f.unread.takeWhile q, ⟨f.unread.dropWhile q, f.eof || (f.unread.dropWhile q).isEmpty⟩)

def getc (f : File) : Option Char × File :=
  match f.unread with
  | c :: rest => (some c, { f with unread := rest })
  | [] => (none, { f with eof := true })

/-- A whitespace directive. -/
def skipSpace (f : File) : File := (f.readWhile isSpace).2

/-- An optional sign, and whether it is a minus. -/
def skipSign (f : File) : Bool × File :=
  match f.unread with
  | '+' :: rest => (false, { f with unread := rest })
  | '-' :: rest => (true, { f with unread := rest })
  | _ => (false, f)

/-- An optional `0x`. -/
def skipHexMark (f : File) : File :=
  match f.unread with
  | '0' :: 'x' :: rest => { f with unread := rest }
  | '0' :: 'X' :: rest => { f with unread := rest }
  | _ => f

/-- `%llx`: no value when the text does not match. -/
def scanHex (f : File) : Option UInt64 × File :=
  let (negative, f) := f.skipSpace.skipSign
  let (digits, f) := f.skipHexMark.readWhile isHexDigit
  if digits.isEmpty then (none, f)
  else
    -- what does not fit is read as the largest value
    let value := UInt64.ofNat (min (hexValue digits) (2 ^ 64 - 1))
    (some (if negative then -value else value), f)

variable {q : Char → Bool} {text rest : List Char}

/-- **Reading stops at the first character that does not fit.** -/
theorem readWhile_append (text : List Char) (eof : Bool) (htext : ∀ c ∈ text, q c = true)
    (hrest : ∀ c ∈ rest.head?, q c = false) :
    readWhile q ⟨text ++ rest, eof⟩ = (text, ⟨rest, eof || rest.isEmpty⟩) := by
  have htake : rest.takeWhile q = [] ∧ rest.dropWhile q = rest := by
    cases rest with
    | nil => exact ⟨rfl, rfl⟩
    | cons c rest =>
        have hc : q c = false := hrest c rfl
        simp [hc]
  rw [readWhile, List.takeWhile_append_of_pos htext, List.dropWhile_append_of_pos htext, htake.1,
    htake.2, List.append_nil]

/-- Nothing is skipped in front of text that does not start with a space. -/
theorem skipSpace_eq (eof : Bool) (hrest : ∀ c ∈ rest.head?, isSpace c = false) :
    skipSpace ⟨rest, eof⟩ = ⟨rest, eof || rest.isEmpty⟩ :=
  congrArg Prod.snd (readWhile_append [] eof (fun _ h => by cases h) hrest)

/-- One space is skipped in front of text that does not start with another. -/
theorem skipSpace_cons (eof : Bool) {c : Char} (hc : isSpace c = true)
    (hrest : ∀ c ∈ rest.head?, isSpace c = false) :
    skipSpace ⟨c :: rest, eof⟩ = ⟨rest, eof || rest.isEmpty⟩ :=
  congrArg Prod.snd (readWhile_append [c] eof
    (fun d hd => by rw [List.mem_singleton.mp hd]; exact hc) hrest)

/-- `0x` or nothing. -/
def hexMark (marked : Bool) : List Char := if marked then ['0', 'x'] else []

theorem skipHexMark_append (eof marked : Bool) (d : Char) (rest : List Char)
    (htext : ∀ c ∈ text, isHexDigit c = true) (hrest : ∀ c ∈ rest.head?, c ≠ 'x' ∧ c ≠ 'X') :
    skipHexMark ⟨hexMark marked ++ d :: text ++ rest, eof⟩ = ⟨d :: text ++ rest, eof⟩ := by
  cases marked with
  | true => rfl
  | false =>
      -- the character after the first digit is another digit, or the first of the rest
      have hnext : ∀ c ∈ (text ++ rest).head?, c ≠ 'x' ∧ c ≠ 'X' := by
        cases text with
        | nil => exact hrest
        | cons c text =>
            rintro _ ⟨⟩
            have hc := htext c List.mem_cons_self
            exact ⟨ne_of_isHexDigit hc (by decide), ne_of_isHexDigit hc (by decide)⟩
      show skipHexMark ⟨d :: (text ++ rest), eof⟩ = ⟨d :: (text ++ rest), eof⟩
      unfold skipHexMark
      split
      · rename_i heq
        exact absurd rfl (hnext 'x' (by rw [(List.cons.inj heq).2]; rfl)).1
      · rename_i heq
        exact absurd rfl (hnext 'X' (by rw [(List.cons.inj heq).2]; rfl)).2
      · rfl

/-- A number starts with a digit, marked or not. -/
theorem head_hexMark (marked : Bool) (text : List Char) {d : Char} (hd : isHexDigit d = true) :
    ∃ c tail, hexMark marked ++ d :: text = c :: tail ∧ isHexDigit c = true := by
  cases marked with
  | true => exact ⟨'0', 'x' :: d :: text, rfl, by decide⟩
  | false => exact ⟨d, text, rfl, hd⟩

/-- **A number is read back.** -/
theorem scanHex_append (marked : Bool) (hne : text ≠ []) (htext : ∀ c ∈ text, isHexDigit c = true)
    (hfits : hexValue text < 2 ^ 64)
    (hrest : ∀ c ∈ rest.head?, isHexDigit c = false ∧ c ≠ 'x' ∧ c ≠ 'X') :
    scanHex ⟨hexMark marked ++ text ++ rest, false⟩
      = (some (UInt64.ofNat (hexValue text)), ⟨rest, rest.isEmpty⟩) := by
  obtain ⟨d, digits, rfl⟩ := List.exists_cons_of_ne_nil hne
  obtain ⟨c, tail, htail, hc⟩ := head_hexMark marked digits (htext d List.mem_cons_self)
  have hspace : skipSpace ⟨hexMark marked ++ d :: digits ++ rest, false⟩
      = ⟨hexMark marked ++ d :: digits ++ rest, false⟩ := by
    rw [htail]
    exact skipSpace_eq false fun _ h => by cases h; exact not_isSpace_of_isHexDigit hc
  have hsign : skipSign ⟨hexMark marked ++ d :: digits ++ rest, false⟩
      = (false, ⟨hexMark marked ++ d :: digits ++ rest, false⟩) := by
    rw [htail]
    unfold skipSign
    split
    · rename_i heq
      exact absurd (List.cons.inj heq).1 (ne_of_isHexDigit hc (by decide))
    · rename_i heq
      exact absurd (List.cons.inj heq).1 (ne_of_isHexDigit hc (by decide))
    · rfl
  have hmark := skipHexMark_append false marked d rest
    (fun c hc => htext c (List.mem_cons_of_mem d hc)) fun c hc => (hrest c hc).2
  have hdigits := readWhile_append _ false htext fun c hc => (hrest c hc).1
  have hmin : min (hexValue (d :: digits)) (2 ^ 64 - 1) = hexValue (d :: digits) := by omega
  simp only [scanHex, hspace, hsign, hmark, hdigits, hmin]
  rfl

/-- At the end of the file there is no number. -/
theorem scanHex_nil (eof : Bool) : scanHex ⟨[], eof⟩ = (none, atEnd) := by
  cases eof <;> rfl

end File

end CoherenceSim
