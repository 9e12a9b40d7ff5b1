import CodedLLM.ParameterSweep
import CodedLLM.SweepOptions
/-!
# Calibration — the measured decode costs, from the extractor to the sweep

The Python extractor writes the costs as a CSV text, a header and one row for each key in sorted order; the C++ sweep
reads the text back line by line, field by field, into its `DecodeCostTable`.  On a text of rows the reader is the
table's own constructor on the rows' numbers (`read_rows`), and so the table that is read answers for every key as the
map that was written (`calibration_handed_over`).  `std::stod` is a parameter: a finite double is the rational that it
is.
-/
namespace CodedLLM

open TextScan

/-- `std::stod`: the double, `none` if it is infinite or not a number, and how many characters were consumed. -/
abbrev Stod := List Char → Except Exn (Option ℚ × Nat)

/-- **`stod` is exact on decimal integers** that a double can hold. -/
def StodExact (stod : Stod) : Prop :=
  ∀ n : Nat, 0 < n → n < 2 ^ 53 → stod (decimal n) = .ok (some (n : ℚ), (decimal n).length)

namespace DecodeCostTable

def parseSize (value : List Char) (field : String) : Except Exn Nat :=
  match stoull value with
  | .error e => .error e
  | .ok (parsed, parsedCharacters) =>
    if parsedCharacters ≠ value.length ∨ parsed > sizeMax then .error (.invalidArgument ("Invalid " ++ field))
    else .ok parsed

/-- The cast of an integral `double` to `std::int64_t`; x86-64 gives the least integer for one that does not fit. -/
def castInt64 (x : Int) : Int := if -2 ^ 63 ≤ x ∧ x < 2 ^ 63 then x else -2 ^ 63

/-- `ParseCost`; the greatest 64-bit integer is 2^63 as a double, so that one value passes the check and does not fit
the cast. -/
def parseCost (stod : Stod) (value : List Char) (lineNumber : Nat) : Except Exn Int :=
  match stod value with
  | .error e => .error e
  | .ok (parsed, parsedCharacters) =>
    match parsed with
    | none => .error (.invalidArgument ("Invalid decode calibration cost on row " ++ toString lineNumber))
    | some parsed =>
      if parsedCharacters ≠ value.length ∨ parsed ≤ 0 ∨ parsed > 2 ^ 63 then
        .error (.invalidArgument ("Invalid decode calibration cost on row " ++ toString lineNumber))
      else .ok (castInt64 ⌈parsed⌉)

def rowFields (line : List Char) : Option (List Char × List Char × List Char) :=
  match getline ',' line with
  | none => none
  | some (degreeText, rest) =>
    match getline ',' rest with
    | none => none
    | some (sizeText, rest) =>
      match getline ',' rest with
      | none => none
      | some (costText, rest) => if (getline ',' rest).isSome then none else some (degreeText, sizeText, costText)

def readRow (stod : Stod) (lineNumber : Nat) (line : List Char) : Except Exn (Nat × Nat × Int) :=
  match rowFields line with
  | none => .error (.invalidArgument ("Malformed decode calibration row " ++ toString lineNumber))
  | some (degreeText, sizeText, costText) =>
    match parseSize degreeText "decode calibration degree" with
    | .error e => .error e
    | .ok degree =>
      match parseSize sizeText "decode calibration shard size" with
      | .error e => .error e
      | .ok shardSizeMib =>
        match parseCost stod costText lineNumber with
        | .error e => .error e
        | .ok costUs => .ok (degree, shardSizeMib, costUs)

/-- The loop of the constructor over the lines behind the header, with the number of entries. -/
def readRows (stod : Stod) (lineNumber : Nat) (text : List Char) (table : DecodeCostTable) (size : Nat) :
    Except Exn (DecodeCostTable × Nat) :=
  match _hline : getline '\n' text with
  | none => .ok (table, size)
  | some (line, rest) =>
    if line = [] then readRows stod (lineNumber + 1) rest table size
    else
      match readRow stod (lineNumber + 1) line with
      | .error e => .error e
      | .ok row =>
        match table.addRow row with
        | .error e => .error e
        | .ok table => readRows stod (lineNumber + 1) rest table (size + 1)
termination_by text.length
decreasing_by
  · exact getline_length_lt _hline
  · exact getline_length_lt _hline

theorem positive_of_none (_degree _shardSizeMib : Nat) (cost : Int) (h : none = some cost) : 0 < cost := by
  cases h

/-- The constructor; `file` is the text of the file, or `none` if it cannot be opened. -/
def read (stod : Stod) (path : String) (file : Option (List Char)) : Except Exn DecodeCostTable :=
  match file with
  | none => .error (.invalidArgument ("Cannot open decode calibration CSV: " ++ path))
  | some text =>
    match getline '\n' text with
    | none => .error (.invalidArgument "Decode calibration CSV must use degree,shard_size_mib,end_to_end_us")
    | some (header, rest) =>
      if header ≠ "degree,shard_size_mib,end_to_end_us".toList then
        .error (.invalidArgument "Decode calibration CSV must use degree,shard_size_mib,end_to_end_us")
      else
        match readRows stod 1 rest ⟨fun _ _ => none, positive_of_none⟩ 0 with
        | .error e => .error e
        | .ok (table, size) =>
          if size = 0 then .error (.invalidArgument "Decode calibration CSV contains no measurements") else .ok table

end DecodeCostTable

/-! ## The extractor -/

namespace Extractor

structure CostDict where
  items : List ((Nat × Nat) × Nat)
  nodup : (items.map Prod.fst).Nodup

def CostDict.get? (costs : CostDict) (key : Nat × Nat) : Option Nat := costs.items.lookup key

def CostDict.sorted (costs : CostDict) : List (Nat × Nat) :=
  (costs.items.map Prod.fst).insertionSort (fun a b => a.1 < b.1 ∨ (a.1 = b.1 ∧ a.2 ≤ b.2))

/-- A field as `csv.writer` writes it: quoted, with its quotes doubled, if it holds a character that is special. -/
def csvField (field : List Char) : List Char :=
  if field.any (fun c => c ∈ [',', '\x22', '\r', '\n']) then
    '\x22' :: field.flatMap (fun c => if c = '\x22' then ['\x22', '\x22'] else [c]) ++ ['\x22']
  else field

def writerow (fields : List (List Char)) : List Char :=
  if fields = [[]] then ['\x22', '\x22', '\n'] else [','].intercalate (fields.map csvField) ++ ['\n']

def writeRows (costs : CostDict) : List (Nat × Nat) → Option (List Char)
  | [] => some []
  | key :: keys =>
    match costs.get? key with
    | none => none
    | some cost => (writeRows costs keys).map (writerow [decimal key.1, decimal key.2, decimal cost] ++ ·)

def writeCosts (costs : CostDict) : Option (List Char) :=
  (writeRows costs costs.sorted).map
    (writerow ["degree".toList, "shard_size_mib".toList, "end_to_end_us".toList] ++ ·)

end Extractor

/-! ## What the reader does with a row that was written -/

namespace DecodeCostTable

theorem parseSize_decimal {n : Nat} (h : n < 2 ^ 64) (field : String) : parseSize (decimal n) field = .ok n := by
  have hstoull : stoull (decimal n) = .ok (n, (decimal n).length) :=
    stoull_whole_iff.2 ⟨false, decimal n, spelled_decimal n, by rwa [value_decimal], value_decimal n⟩
  unfold parseSize
  rw [hstoull]
  refine if_neg ?_
  unfold sizeMax
  omega

theorem parseCost_decimal {stod : Stod} (hstod : StodExact stod) {n : Nat} (hpos : 0 < n) (h : n < 2 ^ 53)
    (lineNumber : Nat) : parseCost stod (decimal n) lineNumber = .ok n := by
  unfold parseCost
  rw [hstod n hpos h]
  have hle : (n : ℚ) ≤ 2 ^ 63 := by
    have : (n : ℚ) ≤ ((2 ^ 53 : Nat) : ℚ) := Nat.cast_le.2 h.le
    refine this.trans ?_
    norm_num
  have hnpos : (0 : ℚ) < n := Nat.cast_pos.2 hpos
  have hcast : castInt64 n = n := if_pos (by omega)
  simp only [ne_eq, not_true_eq_false, false_or, not_le.2 hnpos, gt_iff_lt, not_lt.2 hle, if_false, Int.ceil_natCast,
    hcast]

def rowLine (row : Nat × Nat × Nat) : List Char :=
  decimal row.1 ++ ',' :: (decimal row.2.1 ++ ',' :: decimal row.2.2)

theorem not_mem_decimal {c : Char} (h : c.isDigit = false) (n : Nat) : c ∉ decimal n := by
  intro hc
  rw [isDigit_of_mem_decimal hc] at h
  cases h

theorem rowFields_rowLine (row : Nat × Nat × Nat) :
    rowFields (rowLine row) = some (decimal row.1, decimal row.2.1, decimal row.2.2) := by
  unfold rowFields rowLine
  rw [getline_append (not_mem_decimal (by decide) row.1)]
  simp only
  rw [getline_append (not_mem_decimal (by decide) row.2.1)]
  simp only
  rw [getline_last (not_mem_decimal (by decide) row.2.2) (decimal_ne_nil row.2.2)]
  rfl

def InRange (row : Nat × Nat × Nat) : Prop := row.1 < 2 ^ 64 ∧ row.2.1 < 2 ^ 64 ∧ 0 < row.2.2 ∧ row.2.2 < 2 ^ 53

theorem readRow_rowLine {stod : Stod} (hstod : StodExact stod) {row : Nat × Nat × Nat} (h : InRange row)
    (lineNumber : Nat) : readRow stod lineNumber (rowLine row) = .ok (row.1, row.2.1, (row.2.2 : Int)) := by
  unfold readRow
  simp only [rowFields_rowLine, parseSize_decimal h.1, parseSize_decimal h.2.1, parseCost_decimal hstod h.2.2.1 h.2.2.2]

theorem newline_not_mem_rowLine (row : Nat × Nat × Nat) : '\n' ∉ rowLine row := by
  unfold rowLine
  simp only [List.mem_append, List.mem_cons, not_or]
  exact ⟨not_mem_decimal (by decide) _, by decide, not_mem_decimal (by decide) _, by decide,
    not_mem_decimal (by decide) _⟩

theorem rowLine_ne_nil (row : Nat × Nat × Nat) : rowLine row ≠ [] := by
  unfold rowLine
  exact List.append_ne_nil_of_left_ne_nil (decimal_ne_nil row.1) _

theorem readRows_line (stod : Stod) (lineNumber : Nat) {line : List Char} (hline : '\n' ∉ line) (hne : line ≠ [])
    (rest : List Char) (table : DecodeCostTable) (size : Nat) :
    readRows stod lineNumber (line ++ '\n' :: rest) table size =
      match readRow stod (lineNumber + 1) line with
      | .error e => .error e
      | .ok row =>
        match table.addRow row with
        | .error e => .error e
        | .ok table => readRows stod (lineNumber + 1) rest table (size + 1) := by
  rw [readRows]
  have hget := getline_append hline rest
  split
  · rename_i hnone
    rw [hget] at hnone
    cases hnone
  · rename_i line' rest' hsome
    rw [hget] at hsome
    obtain ⟨rfl, rfl⟩ := Prod.mk.inj (Option.some.inj hsome)
    rw [if_neg hne]

/-- **The reader over lines of rows is the table's loop over their numbers.** -/
theorem readRows_rowLines {stod : Stod} (hstod : StodExact stod) : ∀ (rows : List (Nat × Nat × Nat)) (lineNumber : Nat)
    (table : DecodeCostTable) (size : Nat), (∀ row ∈ rows, InRange row) →
    readRows stod lineNumber (rows.flatMap (fun row => rowLine row ++ ['\n'])) table size =
      (loop addRow (rows.map (fun row => (row.1, row.2.1, (row.2.2 : Int)))) table).map
        (fun t => (t, size + rows.length))
  | [], lineNumber, table, size, _ => by
    unfold readRows
    rfl
  | row :: rows, lineNumber, table, size, h => by
    rw [List.flatMap_cons, List.append_assoc, List.singleton_append,
      readRows_line stod lineNumber (newline_not_mem_rowLine row) (rowLine_ne_nil row),
      readRow_rowLine hstod (h row (List.mem_cons_self ..))]
    rw [List.map_cons, loop]
    simp only
    cases table.addRow (row.1, row.2.1, (row.2.2 : Int)) with
    | error e => rfl
    | ok table' =>
      simp only
      rw [readRows_rowLines hstod rows (lineNumber + 1) table' (size + 1) (fun r hr => h r (List.mem_cons_of_mem _ hr))]
      rw [List.length_cons, Nat.add_assoc, Nat.add_comm 1]

/-- **On a header and rows the constructor is `make` on the rows' numbers.** -/
theorem read_rows {stod : Stod} (hstod : StodExact stod) (path : String) {rows : List (Nat × Nat × Nat)}
    (h : ∀ row ∈ rows, InRange row) :
    read stod path (some ("degree,shard_size_mib,end_to_end_us".toList ++ '\n' ::
      rows.flatMap (fun row => rowLine row ++ ['\n']))) =
    make (rows.map (fun row => (row.1, row.2.1, (row.2.2 : Int)))) := by
  unfold read make
  simp only
  rw [getline_append (by decide)]
  simp only [ne_eq, not_true_eq_false, if_false]
  rw [readRows_rowLines hstod rows 1 _ 0 h]
  cases loop addRow (rows.map (fun row => (row.1, row.2.1, (row.2.2 : Int)))) ⟨fun _ _ => none, by simp⟩ with
  | error e => rfl
  | ok table =>
    simp only [Except.map, Nat.zero_add, List.length_eq_zero_iff, List.map_eq_nil_iff]

theorem addRow_ok {table : DecodeCostTable} {key : Nat × Nat} {cost : Int} (hpos : 0 < key.1 ∧ 0 < key.2 ∧ 0 < cost)
    (hnew : table.costs key.1 key.2 = none) :
    ∃ table', table.addRow (key.1, key.2, cost) = .ok table' ∧
      ∀ d s, table'.costs d s = if (d, s) = key then some cost else table.costs d s := by
  have hzero : ¬ (key.1 = 0 ∨ key.2 = 0 ∨ cost ≤ 0) := by omega
  unfold addRow
  rw [dif_neg hzero, if_neg (by rw [hnew]; decide)]
  refine ⟨_, rfl, fun d s => ?_⟩
  simp only [Prod.ext_iff]

/-- **Rows of distinct keys are all entered**, and nothing else. -/
theorem loop_addRow_ok {cost : Nat × Nat → Nat} : ∀ (keys : List (Nat × Nat)) (table : DecodeCostTable), keys.Nodup →
    (∀ key ∈ keys, 0 < key.1 ∧ 0 < key.2 ∧ 0 < cost key) → (∀ key ∈ keys, table.costs key.1 key.2 = none) →
    ∃ table', loop addRow (keys.map (fun key => (key.1, key.2, (cost key : Int)))) table = .ok table' ∧
      ∀ d s, table'.costs d s = if (d, s) ∈ keys then some (cost (d, s) : Int) else table.costs d s
  | [], table, _, _, _ => ⟨table, rfl, by simp⟩
  | key :: keys, table, hnodup, hpos, hnew => by
    obtain ⟨hkey, hnodup⟩ := List.nodup_cons.1 hnodup
    obtain ⟨hdegree, hsize, hcost⟩ := hpos key (List.mem_cons_self ..)
    obtain ⟨table₁, hadd, hcosts₁⟩ := @addRow_ok table key (cost key) ⟨hdegree, hsize, by omega⟩
      (hnew key (List.mem_cons_self ..))
    -- the keys that follow are still new
    have hnew₁ : ∀ k ∈ keys, table₁.costs k.1 k.2 = none := by
      intro k hk
      rw [hcosts₁, if_neg (fun heq : k = key => hkey (heq ▸ hk))]
      exact hnew k (List.mem_cons_of_mem _ hk)
    obtain ⟨table', hloop, hcosts⟩ := loop_addRow_ok keys table₁ hnodup
      (fun k hk => hpos k (List.mem_cons_of_mem _ hk)) hnew₁
    refine ⟨table', ?_, fun d s => ?_⟩
    · rw [List.map_cons, loop, hadd]
      exact hloop
    · rw [hcosts, hcosts₁]
      by_cases heq : (d, s) = key
      · rw [heq, if_neg hkey, if_pos rfl, if_pos (List.mem_cons_self ..)]
      · simp only [List.mem_cons, heq, false_or, if_false]

/-- **The table of rows with distinct keys** answers for these keys and no others. -/
theorem make_ok {cost : Nat × Nat → Nat} {keys : List (Nat × Nat)} (hne : keys ≠ []) (hnodup : keys.Nodup)
    (hpos : ∀ key ∈ keys, 0 < key.1 ∧ 0 < key.2 ∧ 0 < cost key) :
    ∃ table, make (keys.map (fun key => (key.1, key.2, (cost key : Int)))) = .ok table ∧ ∀ degree shardSizeMib,
      ((degree, shardSizeMib) ∈ keys → table.get degree shardSizeMib = .ok (cost (degree, shardSizeMib) : Int)) ∧
      ((degree, shardSizeMib) ∉ keys → ∃ e, table.get degree shardSizeMib = .error e) := by
  obtain ⟨table, hloop, hcosts⟩ := loop_addRow_ok keys ⟨fun _ _ => none, by simp⟩ hnodup hpos (fun _ _ => rfl)
  refine ⟨table, ?_, fun degree shardSizeMib => ⟨fun hmem => ?_, fun hmem => ?_⟩⟩
  · unfold make
    rw [hloop]
    exact if_neg (fun hnil => hne (List.map_eq_nil_iff.1 hnil))
  · unfold get
    rw [hcosts, if_pos hmem]
  · unfold get
    rw [hcosts, if_neg hmem]
    exact ⟨_, rfl⟩

end DecodeCostTable

/-! ## What the extractor writes -/

namespace Extractor

open DecodeCostTable (rowLine InRange)

theorem csvField_decimal (n : Nat) : csvField (decimal n) = decimal n := by
  unfold csvField
  refine if_neg ?_
  rw [Bool.not_eq_true, List.any_eq_false]
  intro c hc
  have hdigit := isDigit_of_mem_decimal hc
  simp only [List.mem_cons, List.not_mem_nil, or_false, decide_eq_true_eq]
  rintro (rfl | rfl | rfl | rfl) <;> cases hdigit

theorem writerow_decimal (row : Nat × Nat × Nat) :
    writerow [decimal row.1, decimal row.2.1, decimal row.2.2] = rowLine row ++ ['\n'] := by
  unfold writerow rowLine
  rw [if_neg (by simp)]
  simp only [List.map_cons, List.map_nil, csvField_decimal]
  simp [List.intercalate]

theorem writerow_header : writerow ["degree".toList, "shard_size_mib".toList, "end_to_end_us".toList] =
    "degree,shard_size_mib,end_to_end_us".toList ++ ['\n'] := by
  decide

theorem CostDict.get?_isSome_iff (costs : CostDict) (key : Nat × Nat) :
    (costs.get? key).isSome = true ↔ key ∈ costs.items.map Prod.fst := by
  unfold get?
  rw [List.lookup_isSome_iff, List.mem_map]
  simp only [beq_iff_eq]
  exact exists_congr (fun item => and_congr_right (fun _ => eq_comm))

theorem CostDict.mem_of_get? {costs : CostDict} {key : Nat × Nat} {cost : Nat} (h : costs.get? key = some cost) :
    (key, cost) ∈ costs.items := by
  obtain ⟨before, after, hitems, -⟩ := List.lookup_eq_some_iff.1 h
  rw [hitems]
  exact List.mem_append_right _ (List.mem_cons_self ..)

theorem CostDict.mem_sorted (costs : CostDict) (key : Nat × Nat) : key ∈ costs.sorted ↔
    (costs.get? key).isSome = true := by
  unfold sorted
  rw [List.mem_insertionSort, costs.get?_isSome_iff]

theorem CostDict.nodup_sorted (costs : CostDict) : costs.sorted.Nodup :=
  (List.perm_insertionSort _ _).nodup_iff.2 costs.nodup

def CostDict.row (costs : CostDict) (key : Nat × Nat) : Nat × Nat × Nat := (key.1, key.2, (costs.get? key).getD 0)

theorem writeRows_eq (costs : CostDict) : ∀ (keys : List (Nat × Nat)), (∀ key ∈ keys, (costs.get? key).isSome = true) →
    writeRows costs keys = some ((keys.map costs.row).flatMap (fun row => rowLine row ++ ['\n']))
  | [], _ => rfl
  | key :: keys, h => by
    obtain ⟨cost, hcost⟩ := Option.isSome_iff_exists.1 (h key (List.mem_cons_self ..))
    have hrow : costs.row key = (key.1, key.2, cost) := by rw [CostDict.row, hcost, Option.getD_some]
    rw [writeRows, hcost, writeRows_eq costs keys (fun k hk => h k (List.mem_cons_of_mem _ hk))]
    simp only [Option.map_some, List.map_cons, List.flatMap_cons, hrow]
    rw [← writerow_decimal]

theorem writeCosts_eq (costs : CostDict) :
    writeCosts costs = some ("degree,shard_size_mib,end_to_end_us".toList ++ '\n' ::
      (costs.sorted.map costs.row).flatMap (fun row => rowLine row ++ ['\n'])) := by
  unfold writeCosts
  rw [writeRows_eq costs costs.sorted (fun key hkey => (costs.mem_sorted key).1 hkey), writerow_header, Option.map_some,
    List.append_assoc, List.singleton_append]

end Extractor

/-- **The table that the sweep reads answers as the dict that was written.** -/
theorem DecodeCostTable.read_written {stod : Stod} (hstod : StodExact stod) (path : String) {costs : Extractor.CostDict}
    (hne : costs.items ≠ [])
    (hrange : ∀ key cost, costs.get? key = some cost →
      0 < key.1 ∧ key.1 < 2 ^ 64 ∧ 0 < key.2 ∧ key.2 < 2 ^ 64 ∧ 0 < cost ∧ cost < 2 ^ 53) :
    ∃ text table, Extractor.writeCosts costs = some text ∧ DecodeCostTable.read stod path (some text) = .ok table ∧
      ∀ degree size, table.costs degree size = (costs.get? (degree, size)).map Int.ofNat := by
  have hcost : ∀ key ∈ costs.sorted, 0 < key.1 ∧ key.1 < 2 ^ 64 ∧ 0 < key.2 ∧ key.2 < 2 ^ 64 ∧
      0 < (costs.get? key).getD 0 ∧ (costs.get? key).getD 0 < 2 ^ 53 := by
    intro key hkey
    obtain ⟨cost, hget⟩ := Option.isSome_iff_exists.1 ((costs.mem_sorted key).1 hkey)
    rw [hget]
    exact hrange key cost hget
  have hkeys : costs.sorted ≠ [] := by
    intro hnil
    apply hne
    have hlen : costs.sorted.length = costs.items.length :=
      (List.length_insertionSort _ _).trans (List.length_map ..)
    rw [hnil, List.length_nil] at hlen
    exact List.eq_nil_of_length_eq_zero hlen.symm
  obtain ⟨table, hmake, hget⟩ := @DecodeCostTable.make_ok (fun key => (costs.get? key).getD 0) costs.sorted hkeys
    costs.nodup_sorted (fun key hkey => ⟨(hcost key hkey).1, (hcost key hkey).2.2.1, (hcost key hkey).2.2.2.2.1⟩)
  refine ⟨_, table, Extractor.writeCosts_eq costs, ?_, fun degree size => ?_⟩
  · rw [DecodeCostTable.read_rows hstod path, List.map_map]
    · exact hmake
    · intro row hrow
      obtain ⟨key, hkey, rfl⟩ := List.mem_map.1 hrow
      obtain ⟨-, hdegree, -, hsize, hpos, hlt⟩ := hcost key hkey
      exact ⟨hdegree, hsize, hpos, hlt⟩
  · obtain ⟨hsome, hnone⟩ := hget degree size
    rw [costs.mem_sorted] at hsome hnone
    cases hcost : costs.get? (degree, size) with
    | some cost =>
      rw [hcost] at hsome
      exact DecodeCostTable.get_eq_ok.1 (hsome rfl)
    | none =>
      rw [hcost] at hnone
      exact DecodeCostTable.get_eq_error.1 (hnone (by decide))

/-- **The calibration survives the hand-over.**  For every non-empty map from pairs of positive 64-bit numbers to
positive costs below 2^53, the text that the extractor writes is accepted by the sweep, and the table answers for each
key with the map's cost and throws for all others. -/
theorem calibration_handed_over {stod : Stod} (hstod : StodExact stod) (path : String) (costs : Extractor.CostDict)
    (hne : costs.items ≠ [])
    (hrange : ∀ key cost, costs.get? key = some cost →
      0 < key.1 ∧ key.1 < 2 ^ 64 ∧ 0 < key.2 ∧ key.2 < 2 ^ 64 ∧ 0 < cost ∧ cost < 2 ^ 53) :
    ∃ text table, Extractor.writeCosts costs = some text ∧ DecodeCostTable.read stod path (some text) = .ok table ∧
      ∀ degree shardSizeMib,
        (∀ cost, costs.get? (degree, shardSizeMib) = some cost → table.get degree shardSizeMib = .ok (cost : Int)) ∧
        (costs.get? (degree, shardSizeMib) = none → ∃ e, table.get degree shardSizeMib = .error e) := by
  obtain ⟨text, table, htext, hread, htable⟩ := DecodeCostTable.read_written hstod path hne hrange
  refine ⟨text, table, htext, hread, fun degree shardSizeMib => ⟨fun cost hsome => ?_, fun hnone => ?_⟩⟩
  · rw [DecodeCostTable.get_eq_ok, htable, hsome]
    rfl
  · rw [DecodeCostTable.get_eq_error, htable, hnone]
    rfl

def stodDigits : Stod := fun text =>
  if text ≠ [] ∧ ∀ c ∈ text, c.isDigit = true then .ok (some (value text : ℚ), text.length)
  else .error (.invalidArgument "stod")

theorem stodDigits_exact : StodExact stodDigits := by
  intro n _ _
  unfold stodDigits
  rw [if_pos ⟨decimal_ne_nil n, fun _ => isDigit_of_mem_decimal⟩, value_decimal]

/-- Two measurements, entered out of order. -/
theorem calibration_handed_over_twoRows : ∃ costs : Extractor.CostDict, costs.items = [((8, 16), 120), ((2, 1), 7)] ∧
    Extractor.writeCosts costs = some "degree,shard_size_mib,end_to_end_us\n2,1,7\n8,16,120\n".toList ∧
    ∃ text table, Extractor.writeCosts costs = some text ∧
      DecodeCostTable.read stodDigits "decode.csv" (some text) = .ok table ∧
      ∀ degree shardSizeMib,
        (∀ cost, costs.get? (degree, shardSizeMib) = some cost → table.get degree shardSizeMib = .ok (cost : Int)) ∧
        (costs.get? (degree, shardSizeMib) = none → ∃ e, table.get degree shardSizeMib = .error e) := by
  refine ⟨⟨[((8, 16), 120), ((2, 1), 7)], by decide⟩, rfl, by decide +kernel,
    calibration_handed_over stodDigits_exact "decode.csv" _ (by simp) (fun key cost hget => ?_)⟩
  have hmem := Extractor.CostDict.mem_of_get? hget
  simp only [List.mem_cons, Prod.mk.injEq, List.not_mem_nil, or_false] at hmem
  rcases hmem with ⟨rfl, rfl⟩ | ⟨rfl, rfl⟩ <;> decide

end CodedLLM
