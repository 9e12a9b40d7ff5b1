import CodedLLM.Core
import CodedLLM.TextScan
/-!
# SweepOptions — the size lists of the sweep's command line

A size-list option is split at its commas and each item goes to `std::stoull`, whose answer counts only if it has
consumed the item.  That test guards the end of an item and not its front: blanks and a sign are consumed too, and a
minus sign wraps.  The accepted strings are spelled out item by item (`parseSizeList_ok_iff`), and with them the
strings on which the option is read as a list of decimal numerals and nothing else is accepted
(`parseSizeList_decimal_iff`).
-/
namespace CodedLLM

open TextScan

def sizeMax : Nat := 2 ^ 64 - 1

/-- The value of a numeral in `unsigned long long`: a minus sign negates modulo 2^64. -/
def wrapped (negative : Bool) (magnitude : Nat) : Nat :=
  if negative then (2 ^ 64 - magnitude) % 2 ^ 64 else magnitude

/-- `std::stoull`: the value, and how many characters it has consumed. -/
def stoull (text : List Char) : Except Exn (Nat × Nat) :=
  match scanNumeral text with
  | none => .error (.invalidArgument "stoull")
  | some numeral =>
    if 2 ^ 64 ≤ value numeral.digits then .error (.outOfRange "stoull")
    else .ok (wrapped numeral.negative (value numeral.digits), numeral.length)

def parseUnsigned (value : List Char) (option : String) : Except Exn Nat :=
  match stoull value with
  | .error e => .error e
  | .ok (parsed, parsedCharacters) =>
    if parsedCharacters ≠ value.length then .error (.invalidArgument ("Invalid value for " ++ option)) else .ok parsed

/-- The loop of `SplitCsv`, from `start` on. -/
def splitCsvFrom (value : Text) (option : String) (start : Nat) (values : List (List Char)) :
    Except Exn (List (List Char)) :=
  if start ≤ value.chars.length then
    let delimiter := find value.chars ',' start
    let item := substr value.chars start (sizeSub delimiter start)
    if item = [] then .error (.invalidArgument ("Invalid value for " ++ option))
    else if delimiter = npos then .ok (values ++ [item])
    else splitCsvFrom value option (delimiter + 1) (values ++ [item])
  else .ok values
termination_by value.chars.length + 1 - start
decreasing_by
  have := @find_lt value.chars ',' start (by assumption)
  omega

def splitCsv (value : Text) (option : String) : Except Exn (List (List Char)) := splitCsvFrom value option 0 []

def parseSizeItem (option : String) (allowZero : Bool) (values : List Nat) (item : List Char) : Except Exn (List Nat) :=
  match parseUnsigned item option with
  | .error e => .error e
  | .ok parsed =>
    if (!allowZero && parsed == 0) || parsed > sizeMax then .error (.invalidArgument ("Invalid value for " ++ option))
    else .ok (values ++ [parsed])

def parseSizeList (value : Text) (option : String) (allowZero : Bool) : Except Exn (List Nat) :=
  match splitCsv value option with
  | .error e => .error e
  | .ok items => loop (parseSizeItem option allowZero) items []

/-! ## Numerals -/

theorem wrapped_lt {negative : Bool} {magnitude : Nat} (h : magnitude < 2 ^ 64) :
    wrapped negative magnitude < 2 ^ 64 := by
  unfold wrapped
  split
  · exact Nat.mod_lt _ (by decide)
  · exact h

theorem wrapped_eq_zero_iff {negative : Bool} {magnitude : Nat} (h : magnitude < 2 ^ 64) :
    wrapped negative magnitude = 0 ↔ magnitude = 0 := by
  unfold wrapped
  split
  · omega
  · rfl

/-- **What `stoull` reads to the end**: blanks, a sign and digits in range. -/
theorem stoull_whole_iff {text : List Char} {n : Nat} :
    stoull text = .ok (n, text.length) ↔
      ∃ negative digits, Spelled text negative digits ∧ value digits < 2 ^ 64 ∧
      wrapped negative (value digits) = n := by
  constructor
  · intro h
    unfold stoull at h
    split at h
    · cases h
    rename_i numeral hscan
    split at h
    · cases h
    rename_i hlt
    obtain ⟨hn, hlen⟩ := Prod.mk.inj (Except.ok.inj h)
    exact ⟨_, _, spelled_of_scanNumeral hscan hlen, Nat.not_le.1 hlt, hn⟩
  · rintro ⟨negative, digits, hspelled, hlt, rfl⟩
    unfold stoull
    rw [scanNumeral_of_spelled hspelled]
    exact if_neg (Nat.not_le.2 hlt)

theorem parseUnsigned_ok_iff {text : List Char} {option : String} {n : Nat} :
    parseUnsigned text option = .ok n ↔
      ∃ negative digits, Spelled text negative digits ∧ value digits < 2 ^ 64 ∧
      wrapped negative (value digits) = n := by
  rw [← stoull_whole_iff]
  unfold parseUnsigned
  constructor
  · intro h
    split at h
    · cases h
    rename_i parsed parsedCharacters hstoull
    split at h
    · cases h
    rename_i hlen
    rw [hstoull, not_not.1 hlen, Except.ok.inj h]
  · intro h
    rw [h]
    exact if_neg (not_not.2 rfl)

/-! ## The splitter -/

/-- **The loop cuts at every comma**, and an empty item stops it. -/
theorem splitCsvFrom_eq (value : Text) (option : String) (start : Nat) (values : List (List Char))
    (hstart : start ≤ value.chars.length) :
    splitCsvFrom value option start values =
      if [] ∈ (value.chars.drop start).splitOn ',' then .error (.invalidArgument ("Invalid value for " ++ option))
      else .ok (values ++ (value.chars.drop start).splitOn ',') := by
  unfold splitCsvFrom
  rw [if_pos hstart]
  by_cases hlast : find value.chars ',' start = npos
  · rw [splitOn_of_find_npos value.size_lt hstart hlast]
    by_cases hempty : substr value.chars start (sizeSub (find value.chars ',' start) start) = []
    · simp only [hempty]
      rfl
    · simp only [if_neg hempty, if_pos hlast, List.mem_singleton, if_neg (Ne.symm hempty)]
  · obtain ⟨hle, hlt⟩ := find_lt hlast
    rw [splitOn_of_find value.size_lt hlast]
    by_cases hempty : substr value.chars start (sizeSub (find value.chars ',' start) start) = []
    · simp only [hempty, List.mem_cons, true_or, if_true]
    · simp only [if_neg hempty, if_neg hlast]
      rw [splitCsvFrom_eq value option _ _ hlt]
      simp only [List.mem_cons, Ne.symm hempty, false_or, List.append_assoc, List.singleton_append]
termination_by value.chars.length - start
decreasing_by omega

theorem splitCsv_eq (value : Text) (option : String) :
    splitCsv value option =
      if [] ∈ value.chars.splitOn ',' then .error (.invalidArgument ("Invalid value for " ++ option))
      else .ok (value.chars.splitOn ',') := by
  unfold splitCsv
  rw [splitCsvFrom_eq value option 0 [] (Nat.zero_le _), List.drop_zero, List.nil_append]

/-! ## The list -/

def ReadAs (allowZero : Bool) (item : List Char) (n : Nat) : Prop :=
  ∃ negative digits, Spelled item negative digits ∧ value digits < 2 ^ 64 ∧ wrapped negative (value digits) = n ∧
    (allowZero = true ∨ n ≠ 0)

theorem parseSizeItem_ok_iff {option : String} {allowZero : Bool} {values values' : List Nat} {item : List Char} :
    parseSizeItem option allowZero values item = .ok values' ↔ ∃ n, ReadAs allowZero item n ∧
    values' = values ++ [n] := by
  unfold parseSizeItem
  constructor
  · intro h
    split at h
    · cases h
    rename_i parsed hparsed
    obtain ⟨negative, digits, hspelled, hlt, hn⟩ := parseUnsigned_ok_iff.1 hparsed
    split at h
    · cases h
    rename_i hcheck
    refine ⟨parsed, ⟨negative, digits, hspelled, hlt, hn, ?_⟩, (Except.ok.inj h).symm⟩
    simp only [Bool.or_eq_true, Bool.and_eq_true, Bool.not_eq_true', beq_iff_eq, not_or, not_and] at hcheck
    cases allowZero with
    | true => exact .inl rfl
    | false => exact .inr (hcheck.1 rfl)
  · rintro ⟨n, ⟨negative, digits, hspelled, hlt, hn, hzero⟩, rfl⟩
    rw [parseUnsigned_ok_iff.2 ⟨negative, digits, hspelled, hlt, hn⟩]
    have hle : ¬ n > sizeMax := by
      have := hn ▸ @wrapped_lt negative _ hlt
      unfold sizeMax
      omega
    refine if_neg ?_
    simp only [Bool.or_eq_true, Bool.and_eq_true, Bool.not_eq_true', beq_iff_eq, not_or, not_and, decide_eq_true_eq]
    refine ⟨fun hz => ?_, hle⟩
    rcases hzero with ht | hne
    · rw [hz] at ht
      cases ht
    · exact hne

theorem loop_parseSizeItem_ok_iff {option : String} {allowZero : Bool} :
    ∀ (items : List (List Char)) (values ns : List Nat), loop (parseSizeItem option allowZero) items values = .ok ns ↔
      ∃ read, List.Forall₂ (ReadAs allowZero) items read ∧ ns = values ++ read
  | [], values, ns => by
    simp only [loop, Except.ok.injEq, List.forall₂_nil_left_iff, exists_eq_left, List.append_nil]
    exact eq_comm
  | item :: items, values, ns => by
    unfold loop
    constructor
    · intro h
      split at h
      · cases h
      rename_i values' hitem
      obtain ⟨n, hread, rfl⟩ := parseSizeItem_ok_iff.1 hitem
      obtain ⟨read, hall, rfl⟩ := (loop_parseSizeItem_ok_iff items _ ns).1 h
      exact ⟨n :: read, .cons hread hall, by rw [List.append_assoc, List.singleton_append]⟩
    · rintro ⟨read, hall, rfl⟩
      cases hall with
      | cons hread hall =>
        rw [parseSizeItem_ok_iff.2 ⟨_, hread, rfl⟩]
        refine (loop_parseSizeItem_ok_iff items _ _).2 ⟨_, hall, ?_⟩
        rw [List.append_assoc, List.singleton_append]

theorem exists_forall₂_iff {α β : Type} {R : α → β → Prop} : ∀ (as : List α),
    (∃ bs, List.Forall₂ R as bs) ↔ ∀ a ∈ as, ∃ b, R a b
  | [] => by simp
  | a :: as => by
    have ih := exists_forall₂_iff (R := R) as
    simp only [List.forall₂_cons_left_iff, List.forall_mem_cons]
    constructor
    · rintro ⟨_, b, bs, hb, hbs, rfl⟩
      exact ⟨⟨b, hb⟩, ih.1 ⟨bs, hbs⟩⟩
    · rintro ⟨⟨b, hb⟩, hall⟩
      obtain ⟨bs, hbs⟩ := ih.2 hall
      exact ⟨b :: bs, b, bs, hb, hbs, rfl⟩

theorem ReadAs.ne_nil {allowZero : Bool} {item : List Char} {n : Nat} (h : ReadAs allowZero item n) : item ≠ [] := by
  obtain ⟨negative, digits, ⟨blanks, sign, rfl, -, -, hne, -⟩, -⟩ := h
  intro hnil
  exact hne (List.append_eq_nil_iff.1 (List.append_eq_nil_iff.1 hnil).2).2

/-- **The accepted strings**: every item is a numeral with its blanks and its sign. -/
theorem parseSizeList_ok_iff {value : Text} {option : String} {allowZero : Bool} {ns : List Nat} :
    parseSizeList value option allowZero = .ok ns ↔ List.Forall₂ (ReadAs allowZero) (value.chars.splitOn ',') ns := by
  unfold parseSizeList
  rw [splitCsv_eq]
  by_cases hempty : [] ∈ value.chars.splitOn ','
  · rw [if_pos hempty]
    refine ⟨fun h => (by cases h), fun h => ?_⟩
    obtain ⟨n, hread⟩ := (exists_forall₂_iff _).1 ⟨ns, h⟩ [] hempty
    exact absurd rfl hread.ne_nil
  · rw [if_neg hempty]
    simp only [loop_parseSizeItem_ok_iff, List.nil_append]
    exact ⟨fun ⟨read, hall, heq⟩ => heq ▸ hall, fun h => ⟨ns, h, rfl⟩⟩

/-! ## Decimal numerals only -/

/-- **A comma-separated list of decimal numerals**, which denote `ns`. -/
def DecimalList (allowZero : Bool) (value : List Char) (ns : List Nat) : Prop :=
  ∃ items : List (List Char), items ≠ [] ∧ value = [','].intercalate items ∧
    (∀ item ∈ items, item ≠ [] ∧ ∀ c ∈ item, c.isDigit = true) ∧ items.map TextScan.value = ns ∧
    ∀ n ∈ ns, n < 2 ^ 64 ∧ (allowZero = true ∨ 0 < n)

theorem DecimalList.splitOn {allowZero : Bool} {value : List Char} {ns : List Nat}
    (h : DecimalList allowZero value ns) : (∀ item ∈ value.splitOn ',', item ≠ [] ∧ ∀ c ∈ item, c.isDigit = true) ∧
      (value.splitOn ',').map TextScan.value = ns ∧ ∀ n ∈ ns, n < 2 ^ 64 ∧ (allowZero = true ∨ 0 < n) := by
  obtain ⟨items, hne, rfl, hdigits, hns, hrange⟩ := h
  have hcomma : ∀ item ∈ items, ',' ∉ item := by
    intro item hitem hc
    cases (hdigits item hitem).2 ',' hc
  rw [List.splitOn_intercalate ',' hcomma hne]
  exact ⟨hdigits, hns, hrange⟩

theorem DecimalList.read {allowZero : Bool} {value : List Char} {ns : List Nat} (h : DecimalList allowZero value ns) :
    List.Forall₂ (ReadAs allowZero) (value.splitOn ',') ns := by
  obtain ⟨hdigits, rfl, hrange⟩ := h.splitOn
  refine List.forall₂_map_right_iff.2 (List.forall₂_same.2 (fun item hitem => ?_))
  obtain ⟨hlt, hzero⟩ := hrange _ (List.mem_map_of_mem hitem)
  exact ⟨false, item, spelled_of_digits (hdigits item hitem).1 (hdigits item hitem).2, hlt, rfl,
    hzero.imp_right Nat.pos_iff_ne_zero.1⟩

theorem ReadAs.decimal {allowZero : Bool} {item : List Char} {n : Nat} (h : ReadAs allowZero item n)
    (hlead : ∀ c ∈ item.head?, isLead c = false) :
    (item ≠ [] ∧ ∀ c ∈ item, c.isDigit = true) ∧ TextScan.value item = n ∧ n < 2 ^ 64 ∧ (allowZero = true ∨ 0 < n) := by
  obtain ⟨negative, digits, hspelled, hlt, rfl, hzero⟩ := h
  obtain ⟨rfl, rfl⟩ := hspelled.digits_of_head hlead
  obtain ⟨-, -, -, -, -, hne, hdigits⟩ := hspelled
  exact ⟨⟨hne, hdigits⟩, rfl, hlt, hzero.imp_right Nat.pos_iff_ne_zero.2⟩

theorem decimalList_of_read {allowZero : Bool} {value : List Char} {ns : List Nat}
    (h : List.Forall₂ (ReadAs allowZero) (value.splitOn ',') ns)
    (hlead : ∀ item ∈ value.splitOn ',', ∀ c ∈ item.head?, isLead c = false) : DecimalList allowZero value ns := by
  have hall := ((List.forall₂_and_left _ _).2 ⟨hlead, h⟩).imp (fun item n hread => hread.2.decimal hread.1)
  have hns : (value.splitOn ',').map TextScan.value = ns := by
    rw [← List.forall₂_eq_eq_eq, List.forall₂_map_left_iff]
    exact hall.imp (fun item n hread => hread.2.1)
  have hitem := (exists_forall₂_iff _).1 ⟨ns, hall⟩
  refine ⟨value.splitOn ',', List.splitOn_ne_nil ',' value, (List.intercalate_splitOn ',').symm, ?_, hns, ?_⟩
  · intro item hmem
    obtain ⟨n, hdigits, -⟩ := hitem item hmem
    exact hdigits
  · rw [← hns]
    intro n hn
    obtain ⟨item, hmem, rfl⟩ := List.mem_map.1 hn
    obtain ⟨n, -, rfl, hrange⟩ := hitem item hmem
    exact hrange

/-- **A string that `stoull` reads, item by item, and that is no list of decimal numerals**: all its items are
numerals in range with their blanks and signs, and one of them begins with a blank or a sign. -/
def Signed (allowZero : Bool) (value : List Char) : Prop :=
  (∀ item ∈ value.splitOn ',', ∃ negative digits, Spelled item negative digits ∧ TextScan.value digits < 2 ^ 64 ∧
    (allowZero = true ∨ TextScan.value digits ≠ 0)) ∧
  ∃ item ∈ value.splitOn ',', ∃ c ∈ item.head?, isLead c = true

theorem signed_iff {allowZero : Bool} {value : List Char} : Signed allowZero value ↔
    (∃ ns, List.Forall₂ (ReadAs allowZero) (value.splitOn ',') ns) ∧ ∀ ns, ¬ DecimalList allowZero value ns := by
  rw [exists_forall₂_iff]
  constructor
  · rintro ⟨hspelled, item, hitem, c, hc, hlead⟩
    refine ⟨fun item hitem => ?_, fun ns hns => ?_⟩
    · obtain ⟨negative, digits, hs, hlt, hzero⟩ := hspelled item hitem
      refine ⟨_, negative, digits, hs, hlt, rfl, hzero.imp_right (fun hne => ?_)⟩
      rwa [Ne, wrapped_eq_zero_iff hlt]
    · have hdigit := (hns.splitOn.1 item hitem).2 c (List.mem_of_mem_head? hc)
      rw [isDigit_of_isLead hlead] at hdigit
      cases hdigit
  · rintro ⟨hread, hdecimal⟩
    refine ⟨fun item hitem => ?_, ?_⟩
    · obtain ⟨n, negative, digits, hs, hlt, rfl, hzero⟩ := hread item hitem
      refine ⟨negative, digits, hs, hlt, hzero.imp_right (fun hne => ?_)⟩
      rwa [Ne, wrapped_eq_zero_iff hlt] at hne
    · by_contra hlead
      obtain ⟨ns, hns⟩ := (exists_forall₂_iff _).2 hread
      refine hdecimal ns (decimalList_of_read hns (fun item hitem c hc => ?_))
      rw [← Bool.not_eq_true]
      exact fun hl => hlead ⟨item, hitem, c, hc, hl⟩

/-- **When a size list is a list of decimal numerals and nothing else.**  Such a list is always read as what it
denotes; all other strings are refused, but for those that `stoull` reads with blanks or signs in front of an item. -/
theorem parseSizeList_decimal_iff (value : Text) (option : String) (allowZero : Bool) :
    ((∀ ns, DecimalList allowZero value.chars ns → parseSizeList value option allowZero = .ok ns) ∧
      ((∀ ns, ¬ DecimalList allowZero value.chars ns) → ∃ e, parseSizeList value option allowZero = .error e)) ↔
    ¬ Signed allowZero value.chars := by
  rw [signed_iff]
  constructor
  · rintro ⟨-, hrefused⟩ ⟨⟨ns, hread⟩, hdecimal⟩
    obtain ⟨e, he⟩ := hrefused hdecimal
    rw [parseSizeList_ok_iff.2 hread] at he
    cases he
  · intro hsigned
    refine ⟨fun ns hns => parseSizeList_ok_iff.2 hns.read, fun hdecimal => ?_⟩
    cases hparse : parseSizeList value option allowZero with
    | error e => exact ⟨e, rfl⟩
    | ok ns => exact absurd ⟨⟨ns, parseSizeList_ok_iff.1 hparse⟩, hdecimal⟩ hsigned

/-- `--queue-depths -1` is taken for a depth of 2^64 - 1. -/
theorem parseSizeList_minusOne :
    parseSizeList ⟨['-', '1'], by decide⟩ "--queue-depths" true = .ok [2 ^ 64 - 1] ∧
    ¬ ((∀ ns, DecimalList true ['-', '1'] ns → parseSizeList ⟨['-', '1'], by decide⟩ "--queue-depths" true = .ok ns) ∧
      ((∀ ns, ¬ DecimalList true ['-', '1'] ns) →
        ∃ e, parseSizeList ⟨['-', '1'], by decide⟩ "--queue-depths" true = .error e)) := by
  have hread : parseSizeList ⟨['-', '1'], by decide⟩ "--queue-depths" true = .ok [2 ^ 64 - 1] := by
    rw [parseSizeList_ok_iff]
    have hitem : ReadAs true ['-', '1'] (2 ^ 64 - 1) :=
      ⟨true, ['1'], ⟨[], ['-'], rfl, by simp, .inr (.inr ⟨rfl, rfl⟩), by simp, by simp⟩, by decide +kernel,
        by decide +kernel, .inl rfl⟩
    exact .cons hitem .nil
  refine ⟨hread, fun hclaim => ?_⟩
  have hdecimal : ∀ ns, ¬ DecimalList true ['-', '1'] ns := by
    intro ns hns
    have hdigit := (hns.splitOn.1 ['-', '1'] (by decide)).2 '-' (by simp)
    cases hdigit
  obtain ⟨e, he⟩ := hclaim.2 hdecimal
  rw [hread] at he
  cases he

end CodedLLM
