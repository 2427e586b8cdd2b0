import CoherenceSim.Lib.Stdio

/-!
# Text, line by line

Printing and reading of lines and decimal numbers, and what the regular expressions of a script that
reads a log come down to: a number between two literals, and the last colon of a line.
-/

namespace CoherenceSim.Text

/-! ## Numbers -/

/-- A number as it is printed. -/
def decimal (n : Nat) : List Char := Nat.toDigits 10 n

/-- A number as it is read. -/
def number (digits : List Char) : Nat := Nat.ofDigitChars 10 digits 0

theorem number_decimal (n : Nat) : number (decimal n) = n := Nat.ofDigitChars_ten_toDigits

theorem decimal_inj {n m : Nat} : decimal n = decimal m ↔ n = m := by
  constructor
  · intro h
    rw [← number_decimal n, h, number_decimal]
  · exact fun h => congrArg decimal h

theorem decimal_ne_nil (n : Nat) : decimal n ≠ [] := Nat.toDigits_ne_nil

theorem isDigit_of_mem_decimal {n : Nat} {c : Char} (h : c ∈ decimal n) : c.isDigit = true :=
  Nat.isDigit_of_mem_toDigits (by omega) (by omega) h

theorem not_mem_decimal {n : Nat} {c : Char} (h : c.isDigit = false) : c ∉ decimal n := by
  intro hc
  rw [isDigit_of_mem_decimal hc] at h
  cases h

/-! ## Lines -/

/-- Every line with its end. -/
def unlines (lines : List (List Char)) : List Char := lines.flatMap (· ++ ['\n'])

/-- The lines of a text. The last one may lack its end. -/
def lines (text : List Char) : List (List Char) :=
  let pieces := text.splitOn '\n'
  if pieces.getLast? = some [] then pieces.dropLast else pieces

theorem splitOn_unlines (l : List (List Char)) (hl : ∀ line ∈ l, '\n' ∉ line) :
    (unlines l).splitOn '\n' = l ++ [[]] := by
  induction l with
  | nil => rfl
  | cons line l ih =>
      have hrest := ih fun line' h => hl line' (List.mem_cons_of_mem _ h)
      rw [unlines, List.flatMap_cons, List.append_assoc, List.cons_append, List.nil_append,
        List.splitOn_append_cons_self_of_not_mem (hl line List.mem_cons_self)]
      exact congrArg (line :: ·) hrest

/-- **Lines that are printed are read back.** -/
theorem lines_unlines (l : List (List Char)) (hl : ∀ line ∈ l, '\n' ∉ line) :
    lines (unlines l) = l := by
  rw [lines, splitOn_unlines l hl, List.getLast?_concat, if_pos rfl, List.dropLast_concat]

/-! ## Spaces around a text -/

/-- Without the spaces in front and behind. -/
def trim (s : List Char) : List Char :=
  ((s.dropWhile isSpace).reverse.dropWhile isSpace).reverse

/-- There is a first character, and it is not a space; nor is the last. -/
structure Tight (s : List Char) : Prop where
  head : ∃ c, s.head? = some c ∧ isSpace c = false
  last : ∃ c, s.getLast? = some c ∧ isSpace c = false

theorem tight_iff {s : List Char} : Tight s ↔
    s.head?.any (fun c => !isSpace c) = true ∧ s.getLast?.any (fun c => !isSpace c) = true := by
  simp only [Option.any_eq_true, Bool.not_eq_true']
  exact ⟨fun h => ⟨h.head, h.last⟩, fun h => ⟨h.1, h.2⟩⟩

instance (s : List Char) : Decidable (Tight s) := decidable_of_iff _ tight_iff.symm

theorem Tight.of_not_isSpace {s : List Char} (hne : s ≠ []) (hs : ∀ c ∈ s, isSpace c = false) :
    Tight s := by
  refine ⟨⟨s.head hne, List.head?_eq_some_head hne, hs _ (List.head_mem hne)⟩,
    ⟨s.getLast hne, List.getLast?_eq_some_getLast hne, hs _ (List.getLast_mem hne)⟩⟩

theorem Tight.append {s t u : List Char} (hs : Tight s) (hu : Tight u) : Tight (s ++ t ++ u) := by
  obtain ⟨c, hc, hc'⟩ := hs.head
  obtain ⟨d, hd, hd'⟩ := hu.last
  refine ⟨⟨c, ?_, hc'⟩, ⟨d, ?_, hd'⟩⟩
  · rw [List.append_assoc, List.head?_append, hc]
    rfl
  · rw [List.getLast?_append, hd]
    rfl

theorem dropWhile_spaces {s : List Char} (n : Nat) (hs : ∃ c, s.head? = some c ∧ isSpace c = false) :
    (List.replicate n ' ' ++ s).dropWhile isSpace = s := by
  obtain ⟨c, hc, hc'⟩ := hs
  rw [List.dropWhile_append_of_pos fun d hd => by rw [List.eq_of_mem_replicate hd]; rfl]
  cases s with
  | nil => cases hc
  | cons d s =>
      cases hc
      rw [List.dropWhile_cons, hc']
      rfl

/-- **Spaces around a text are taken off.** -/
theorem trim_spaces {s : List Char} (hs : Tight s) (n m : Nat) :
    trim (List.replicate n ' ' ++ s ++ List.replicate m ' ') = s := by
  obtain ⟨c, hc, hc'⟩ := hs.head
  have hhead : ∃ c, (s ++ List.replicate m ' ').head? = some c ∧ isSpace c = false :=
    ⟨c, by rw [List.head?_append, hc]; rfl, hc'⟩
  rw [trim, List.append_assoc, dropWhile_spaces n hhead, List.reverse_append, List.reverse_replicate,
    dropWhile_spaces m (by rw [List.head?_reverse]; exact hs.last), List.reverse_reverse]

theorem trim_tight {s : List Char} (hs : Tight s) : trim s = s := by
  have h := trim_spaces hs 0 0
  rwa [List.replicate_zero, List.append_nil, List.nil_append] at h

theorem mem_of_mem_trim {s : List Char} {c : Char} (h : c ∈ trim s) : c ∈ s := by
  have h₁ := (List.dropWhile_suffix isSpace).subset (List.mem_reverse.mp h)
  exact (List.dropWhile_suffix isSpace).subset (List.mem_reverse.mp h₁)

/-! ## Matches -/

/-- A number between two literals, here. What follows it does not start with a digit, and so the
digits are all that there are. -/
def matchNumber (front behind s : List Char) : Option (List Char) :=
  if front.isPrefixOf s then
    let digits := (s.drop front.length).takeWhile Char.isDigit
    if digits ≠ [] ∧ behind.isPrefixOf ((s.drop front.length).dropWhile Char.isDigit) then some digits
    else none
  else none

/-- A number between two literals, at the first place where there is one. -/
def searchNumber (front behind : List Char) : List Char → Option (List Char)
  | [] => matchNumber front behind []
  | c :: s => (matchNumber front behind (c :: s)).or (searchNumber front behind s)

/-- There is this literal somewhere. -/
def contains (literal : List Char) : List Char → Bool
  | [] => literal.isPrefixOf []
  | c :: s => literal.isPrefixOf (c :: s) || contains literal s

theorem searchNumber_eq_none {front behind s : List Char} {c : Char} (hc : c ∈ front) (hs : c ∉ s) :
    searchNumber front behind s = none := by
  have here {s : List Char} (hs : c ∉ s) : matchNumber front behind s = none := by
    rw [matchNumber, if_neg]
    intro hfront
    exact hs ((List.isPrefixOf_iff_prefix.mp hfront).subset hc)
  induction s with
  | nil => exact here hs
  | cons d s ih =>
      rw [searchNumber, here hs, ih fun h => hs (List.mem_cons_of_mem _ h)]
      rfl

theorem searchNumber_of_match {front behind s digits : List Char}
    (h : matchNumber front behind s = some digits) : searchNumber front behind s = some digits := by
  cases s with
  | nil => exact h
  | cons c s =>
      rw [searchNumber, h]
      rfl

/-- **A number that is printed between the literals is read back.** -/
theorem searchNumber_decimal (front behind : List Char) (n : Nat) (rest : List Char)
    (hbehind : ∃ c, behind.head? = some c ∧ c.isDigit = false) :
    searchNumber front behind (front ++ decimal n ++ (behind ++ rest)) = some (decimal n) := by
  have hsplit : (decimal n ++ (behind ++ rest)).takeWhile Char.isDigit = decimal n
      ∧ (decimal n ++ (behind ++ rest)).dropWhile Char.isDigit = behind ++ rest := by
    obtain ⟨c, hc, hdigit⟩ := hbehind
    rw [List.takeWhile_append_of_pos fun _ => isDigit_of_mem_decimal,
      List.dropWhile_append_of_pos fun _ => isDigit_of_mem_decimal]
    cases behind with
    | nil => cases hc
    | cons d behind =>
        cases hc
        rw [List.cons_append, List.takeWhile_cons, List.dropWhile_cons, hdigit]
        exact ⟨List.append_nil _, rfl⟩
  refine searchNumber_of_match ?_
  rw [matchNumber, List.append_assoc, if_pos (List.isPrefixOf_iff_prefix.mpr ⟨_, rfl⟩)]
  dsimp only
  rw [List.drop_left, hsplit.1, hsplit.2]
  exact if_pos ⟨decimal_ne_nil n, List.isPrefixOf_iff_prefix.mpr ⟨_, rfl⟩⟩

/-- What is before and after the last colon that has something after it, `/^(.+):(.+)$/`; and there
must be something before it. -/
def splitAtColon (line : List Char) : Option (List Char × List Char) :=
  (go line).filter fun p => p.1 ≠ []
where
  go : List Char → Option (List Char × List Char)
    | [] => none
    | c :: rest =>
        match go rest with
        | some (before, after) => some (c :: before, after)
        | none => if c = ':' ∧ rest ≠ [] then some ([], rest) else none

theorem go_eq_none {s : List Char} (hs : ':' ∉ s) : splitAtColon.go s = none := by
  induction s with
  | nil => rfl
  | cons c s ih =>
      rw [splitAtColon.go, ih fun h => hs (List.mem_cons_of_mem _ h)]
      have hc : c ≠ ':' := fun h0 => hs (by rw [h0]; exact List.mem_cons_self)
      exact if_neg fun h0 => hc h0.1

theorem splitAtColon_eq {before after : List Char} (hbefore : before ≠ []) (hne : after ≠ [])
    (hafter : ':' ∉ after) : splitAtColon (before ++ ':' :: after) = some (before, after) := by
  have hgo (before : List Char) : splitAtColon.go (before ++ ':' :: after) = some (before, after) := by
    induction before with
    | nil =>
        rw [List.nil_append, splitAtColon.go, go_eq_none hafter]
        exact if_pos ⟨rfl, hne⟩
    | cons c before ih => rw [List.cons_append, splitAtColon.go, ih]
  rw [splitAtColon, hgo, Option.filter_some, if_pos (decide_eq_true hbefore)]

end CoherenceSim.Text
