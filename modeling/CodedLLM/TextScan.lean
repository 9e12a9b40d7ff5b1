import Mathlib
/-!
# TextScan — numerals, items and lines of a text, as C and C++ read them

What `strtoull` takes for a numeral, what `find` and `substr` cut out of a string, and what `getline` takes for a
line.  Each comes with the texts it reads as a whole: a text is all numeral if it is blanks, a sign and digits
(`Spelled`), it is cut at its separators as `List.splitOn` cuts it (`splitOn_of_find`), and a line ends at its
delimiter (`getline_append`). Nothing here is about one particular program.
-/
namespace TextScan

/-! ## Numerals -/

def isSpace (c : Char) : Bool := c ∈ [' ', '\t', '\n', '\x0b', '\x0c', '\r']

def value (digits : List Char) : Nat := Nat.ofDigitChars 10 digits 0

def decimal (n : Nat) : List Char := Nat.toDigits 10 n

def afterSign : List Char → Bool × List Char
  | '-' :: rest => (true, rest)
  | '+' :: rest => (false, rest)
  | rest        => (false, rest)

/-- A numeral at the front of a text, and the number of characters up to its end. -/
structure Numeral where
  negative : Bool
  digits : List Char
  length : Nat
  deriving DecidableEq, Repr

/-- The numeral that `strtoull` finds: blanks, an optional sign and at least one digit. -/
def scanNumeral (text : List Char) : Option Numeral :=
  let body := afterSign (text.dropWhile isSpace)
  let digits := body.2.takeWhile Char.isDigit
  if digits = [] then none
  else some ⟨body.1, digits, text.length - (body.2.dropWhile Char.isDigit).length⟩

/-- **The texts that are a numeral from end to end.** -/
def Spelled (text : List Char) (negative : Bool) (digits : List Char) : Prop :=
  ∃ blanks sign, text = blanks ++ (sign ++ digits) ∧ (∀ c ∈ blanks, isSpace c = true) ∧
    ((sign = [] ∧ negative = false) ∨ (sign = ['+'] ∧ negative = false) ∨ (sign = ['-'] ∧ negative = true)) ∧
    digits ≠ [] ∧ ∀ c ∈ digits, c.isDigit = true

def isLead (c : Char) : Bool := isSpace c || c == '+' || c == '-'

theorem isDigit_of_isLead {c : Char} (h : isLead c = true) : c.isDigit = false := by
  simp only [isLead, isSpace, List.mem_cons, List.not_mem_nil, or_false, Bool.or_eq_true, decide_eq_true_eq,
    beq_iff_eq] at h
  rcases h with ((rfl | rfl | rfl | rfl | rfl | rfl) | rfl) | rfl <;> decide

theorem isSpace_of_isDigit {c : Char} (h : c.isDigit = true) : isSpace c = false := by
  by_contra hs
  have hd := isDigit_of_isLead (c := c) (by simp [isLead, hs])
  rw [h] at hd
  cases hd

theorem afterSign_of_isDigit {c : Char} (rest : List Char) (h : c.isDigit = true) :
    afterSign (c :: rest) = (false, c :: rest) := by
  unfold afterSign
  split
  · rename_i heq
    obtain ⟨rfl, rfl⟩ := List.cons.inj heq
    cases h
  · rename_i heq
    obtain ⟨rfl, rfl⟩ := List.cons.inj heq
    cases h
  · rfl

theorem afterSign_split (text : List Char) : ∃ sign, text = sign ++ (afterSign text).2 ∧
    ((sign = [] ∧ (afterSign text).1 = false) ∨ (sign = ['+'] ∧ (afterSign text).1 = false) ∨
      (sign = ['-'] ∧ (afterSign text).1 = true)) := by
  unfold afterSign
  split
  · exact ⟨['-'], rfl, .inr (.inr ⟨rfl, rfl⟩)⟩
  · exact ⟨['+'], rfl, .inr (.inl ⟨rfl, rfl⟩)⟩
  · exact ⟨[], rfl, .inl ⟨rfl, rfl⟩⟩

theorem dropWhile_append_of_all {p : Char → Bool} {blanks rest : List Char} (h : ∀ c ∈ blanks, p c = true)
    (hrest : ∀ c ∈ rest.head?, p c = false) : (blanks ++ rest).dropWhile p = rest := by
  rw [List.dropWhile_append_of_pos h]
  cases rest with
  | nil => rfl
  | cons c rest => rw [List.dropWhile_cons_of_neg (by simp [hrest c (by simp)])]

theorem scanNumeral_of_spelled {text : List Char} {negative : Bool} {digits : List Char}
    (h : Spelled text negative digits) : scanNumeral text = some ⟨negative, digits, text.length⟩ := by
  obtain ⟨blanks, sign, rfl, hblanks, hsign, hne, hdigits⟩ := h
  obtain ⟨d, ds, rfl⟩ := List.exists_cons_of_ne_nil hne
  have hd : d.isDigit = true := hdigits d (by simp)
  have hdrop : (blanks ++ (sign ++ d :: ds)).dropWhile isSpace = sign ++ d :: ds := by
    apply dropWhile_append_of_all hblanks
    rcases hsign with ⟨rfl, -⟩ | ⟨rfl, -⟩ | ⟨rfl, -⟩
    · simpa using isSpace_of_isDigit hd
    · simp [isSpace]
    · simp [isSpace]
  have hafter : afterSign (sign ++ d :: ds) = (negative, d :: ds) := by
    rcases hsign with ⟨rfl, rfl⟩ | ⟨rfl, rfl⟩ | ⟨rfl, rfl⟩
    · exact afterSign_of_isDigit ds hd
    · rfl
    · rfl
  unfold scanNumeral
  rw [hdrop, hafter]
  simp only [List.takeWhile_eq_self_iff.2 hdigits, List.dropWhile_eq_nil_iff.2 hdigits]
  rw [if_neg hne]
  rfl

/-- **A text that is read to its end is spelled as a numeral.** -/
theorem spelled_of_scanNumeral {text : List Char} {n : Numeral} (h : scanNumeral text = some n)
    (hlen : n.length = text.length) : Spelled text n.negative n.digits := by
  unfold scanNumeral at h
  simp only at h
  split at h
  · cases h
  rename_i hne
  obtain rfl := Option.some.inj h
  obtain ⟨sign, hsplit, hsign⟩ := afterSign_split (text.dropWhile isSpace)
  generalize hbody : (afterSign (text.dropWhile isSpace)).2 = body at *
  have hcut : text.takeWhile isSpace ++ (sign ++ body) = text := by
    rw [← hsplit]
    exact List.takeWhile_append_dropWhile
  -- nothing is left behind the digits
  have hrest : body.dropWhile Char.isDigit = [] := by
    have hbodyLen := congrArg List.length (List.takeWhile_append_dropWhile (p := Char.isDigit) (l := body))
    have htextLen := congrArg List.length hcut
    have hpos := List.length_pos_of_ne_nil hne
    simp only [List.length_append] at hbodyLen htextLen hlen
    exact List.eq_nil_of_length_eq_zero (by omega)
  have hall : ∀ c ∈ body, c.isDigit = true := List.dropWhile_eq_nil_iff.1 hrest
  have htake : body.takeWhile Char.isDigit = body := List.takeWhile_eq_self_iff.2 hall
  refine ⟨text.takeWhile isSpace, sign, ?_, ?_, hsign, hne, ?_⟩
  · rw [htake, hcut]
  · intro c hc
    exact List.mem_takeWhile_imp hc
  · rw [htake]
    exact hall

theorem Spelled.digits_of_head {text : List Char} {negative : Bool} {digits : List Char}
    (h : Spelled text negative digits)
    (hhead : ∀ c ∈ text.head?, isLead c = false) : text = digits ∧ negative = false := by
  obtain ⟨blanks, sign, rfl, hblanks, hsign, -, -⟩ := h
  cases blanks with
  | cons c blanks =>
    have hlead := hhead c (by simp)
    rw [isLead, hblanks c (by simp)] at hlead
    cases hlead
  | nil =>
    rcases hsign with ⟨rfl, rfl⟩ | ⟨rfl, -⟩ | ⟨rfl, -⟩
    · exact ⟨rfl, rfl⟩
    · cases hhead '+' (by simp)
    · cases hhead '-' (by simp)

theorem spelled_of_digits {digits : List Char} (hne : digits ≠ []) (h : ∀ c ∈ digits, c.isDigit = true) :
    Spelled digits false digits :=
  ⟨[], [], rfl, by simp, .inl ⟨rfl, rfl⟩, hne, h⟩

theorem decimal_ne_nil (n : Nat) : decimal n ≠ [] := Nat.toDigits_ne_nil

theorem isDigit_of_mem_decimal {n : Nat} {c : Char} (h : c ∈ decimal n) : c.isDigit = true :=
  Nat.isDigit_of_mem_toDigits (by decide) (by decide) h

@[simp] theorem value_decimal (n : Nat) : value (decimal n) = n := Nat.ofDigitChars_ten_toDigits

theorem spelled_decimal (n : Nat) : Spelled (decimal n) false (decimal n) :=
  spelled_of_digits (decimal_ne_nil n) (fun _ => isDigit_of_mem_decimal)

/-! ## Items -/

def npos : Nat := 2 ^ 64 - 1

structure Text where
  chars : List Char
  size_lt : chars.length < npos
  deriving DecidableEq

def find (text : List Char) (c : Char) (start : Nat) : Nat :=
  match (text.drop start).findIdx? (· == c) with
  | some i => start + i
  | none   => npos

def substr (text : List Char) (start count : Nat) : List Char := (text.drop start).take count

def sizeSub (a b : Nat) : Nat := (a + 2 ^ 64 - b) % 2 ^ 64

theorem sizeSub_of_le {a b : Nat} (h : b ≤ a) (ha : a < 2 ^ 64) : sizeSub a b = a - b := by
  unfold sizeSub
  rw [show a + 2 ^ 64 - b = (a - b) + 2 ^ 64 by omega, Nat.add_mod_right]
  exact Nat.mod_eq_of_lt (by omega)

theorem find_lt {text : List Char} {c : Char} {start : Nat} (h : find text c start ≠ npos) :
    start ≤ find text c start ∧ find text c start < text.length := by
  unfold find at h ⊢
  split at h
  · rename_i i hi
    have hlt := (List.findIdx?_eq_some_iff_findIdx_eq.1 hi).1
    rw [List.length_drop] at hlt
    exact ⟨Nat.le_add_right _ _, by omega⟩
  · exact absurd rfl h

/-- **The last item**: there is no separator left. -/
theorem splitOn_of_find_npos {text : List Char} (hlen : text.length < npos) {start : Nat} (hstart : start ≤ text.length)
    {c : Char} (h : find text c start = npos) :
    (text.drop start).splitOn c = [substr text start (sizeSub (find text c start) start)] := by
  have habsent : c ∉ text.drop start := by
    unfold find at h
    split at h
    · rename_i i hi
      have hlt := (List.findIdx?_eq_some_iff_findIdx_eq.1 hi).1
      rw [List.length_drop] at hlt
      omega
    · rename_i hnone
      intro hc
      simpa using List.findIdx?_eq_none_iff.1 hnone c hc
  have hcount : (text.drop start).length ≤ sizeSub npos start := by
    rw [List.length_drop, sizeSub_of_le (by omega) (by decide)]
    omega
  rw [List.splitOn_eq_singleton habsent, h, substr, List.take_of_length_le hcount]

/-- **The next item**: it ends at the separator that `find` finds, and the others follow. -/
theorem splitOn_of_find {text : List Char} (hlen : text.length < npos) {start : Nat} {c : Char}
    (h : find text c start ≠ npos) :
    (text.drop start).splitOn c = substr text start (sizeSub (find text c start) start) ::
      (text.drop (find text c start + 1)).splitOn c := by
  obtain ⟨hle, hlt⟩ := find_lt h
  rw [sizeSub_of_le hle (hlt.trans (hlen.trans (by decide)))]
  unfold find at h hlt ⊢
  split at h
  · rename_i i hi
    simp only [hi] at hlt ⊢
    obtain ⟨hi', hsep, hbefore⟩ := List.findIdx?_eq_some_iff_getElem.1 hi
    have habsent : c ∉ (text.drop start).take i := by
      intro hc
      obtain ⟨j, hj, hcj⟩ := List.mem_take_iff_getElem.1 hc
      exact hbefore j (Nat.lt_min.1 hj).1 (by rw [hcj]; simp)
    have hcut : (text.drop start).take i ++ c :: text.drop (start + i + 1) = text.drop start := by
      have hdrop := List.drop_eq_getElem_cons hi'
      rw [eq_of_beq hsep, List.drop_drop, List.drop_drop] at hdrop
      rw [show start + i + 1 = start + (i + 1) by omega, ← hdrop, ← List.drop_drop, List.take_append_drop]
    rw [Nat.add_sub_cancel_left, substr, ← List.splitOn_append_cons_self_of_not_mem habsent, hcut]
  · exact absurd rfl h

/-! ## Lines -/

/-- `std::getline`: the characters up to the delimiter, which is taken too, or up to the end.  It fails only where
nothing is left to take, be it at the end of the stream or behind its last delimiter. -/
def getline (delimiter : Char) : List Char → Option (List Char × List Char)
  | []   => none
  | rest => some (rest.takeWhile (· != delimiter), (rest.dropWhile (· != delimiter)).tail)

theorem bne_of_not_mem {delimiter : Char} {line : List Char} (h : delimiter ∉ line) :
    ∀ c ∈ line, (c != delimiter) = true := by
  intro c hc
  rw [bne_iff_ne]
  rintro rfl
  exact h hc

theorem getline_append {delimiter : Char} {line : List Char} (h : delimiter ∉ line) (rest : List Char) :
    getline delimiter (line ++ delimiter :: rest) = some (line, rest) := by
  have hall := bne_of_not_mem h
  have htake : (line ++ delimiter :: rest).takeWhile (· != delimiter) = line := by
    rw [List.takeWhile_append_of_pos hall, List.takeWhile_cons_of_neg (by simp), List.append_nil]
  have hdrop : (line ++ delimiter :: rest).dropWhile (· != delimiter) = delimiter :: rest :=
    dropWhile_append_of_all hall (by simp)
  unfold getline
  split
  · simp at *
  · rw [htake, hdrop]
    rfl

theorem getline_last {delimiter : Char} {line : List Char} (h : delimiter ∉ line) (hne : line ≠ []) :
    getline delimiter line = some (line, []) := by
  have hall := bne_of_not_mem h
  unfold getline
  split
  · exact absurd rfl hne
  · rw [List.takeWhile_eq_self_iff.2 hall, List.dropWhile_eq_nil_iff.2 hall]
    rfl

theorem getline_length_lt {delimiter : Char} {text line rest : List Char}
    (h : getline delimiter text = some (line, rest)) : rest.length < text.length := by
  unfold getline at h
  split at h
  · cases h
  · rename_i hne
    obtain rfl := (Prod.mk.inj (Option.some.inj h)).2
    have hle := (List.dropWhile_sublist (l := text) (· != delimiter)).length_le
    have hpos : 0 < text.length := List.length_pos_of_ne_nil hne
    rw [List.length_tail]
    omega

end TextScan
