import Ddbclient.Client.Refusal

/-!
# What a printed table shows

`display` says for every header and cell whether it appears whole or cut, and how much of it is kept.
What is shown of one text depends on the terminal only through the decision to shrink and the average
width, and both move one way when the terminal gets wider.
-/

namespace Ddbclient.Client
open Lib.Checked Lib.Lines Lib.Grid Layout

/-- A text appears whole, or as its first `kept` bytes and an ellipsis. -/
inductive Shown where
  | whole
  | cut (kept : Nat)
  deriving DecidableEq

def Shown.text (text : Bytes) : Shown → Bytes
  | .whole => text
  | .cut kept => text.take kept ++ ellipsis

def display (termWidth : Int) (table : Table) (column : Column) (text : Bytes) : Shown :=
  if columnWidth termWidth table column < ofSize text.length then
    .cut (columnWidth termWidth table column - 3).toNat
  else .whole

section Drawn

variable (table : Table) (width : Column → Nat) (display : Column → Bytes → Shown)

def drawnLine (text : Column → Bytes) : Bytes :=
  row separator (table.columns.map fun column =>
    padLeft space (width column) ((display column (text column)).text (text column)))

/-- A header line, a dash line and a line for each of the first 1000 rows, every text in it padded on the
left to the width of its column, and the count of the rows when there are more. -/
def drawn : Bytes :=
  joinLines newline
    (drawnLine table width display Column.name ::
      row separator (table.columns.map fun column => List.replicate (width column) dash) ::
      (List.range (min table.size 1000)).map fun r => drawnLine table width display fun column => column.get r) ++
    trailer table.size

end Drawn

def drawnAt (termWidth : Int) (table : Table) : Bytes :=
  drawn table (fun column => (columnWidth termWidth table column).toNat) (display termWidth table)

variable {termWidth wider : Int} {table : Table}

theorem drawn_congr {width width' : Column → Nat} {display display' : Column → Bytes → Shown}
    (widths : ∀ column ∈ table.columns, width column = width' column)
    (displays : ∀ column ∈ table.columns, ∀ text, Displayed table column text →
      display column text = display' column text) :
    drawn table width display = drawn table width' display' := by
  have lines {text : Column → Bytes} (displayed : ∀ column, Displayed table column (text column)) :
      drawnLine table width display text = drawnLine table width' display' text := by
    unfold drawnLine
    congr 1
    exact List.map_congr_left fun column member => by
      rw [widths column member, displays column member _ (displayed column)]
  have rules : (table.columns.map fun column => List.replicate (width column) dash) =
      table.columns.map fun column => List.replicate (width' column) dash :=
    List.map_congr_left fun column member => by rw [widths column member]
  have rows : ((List.range (min table.size 1000)).map fun r =>
        drawnLine table width display fun column => column.get r) =
      (List.range (min table.size 1000)).map fun r => drawnLine table width' display' fun column => column.get r :=
    List.map_congr_left fun r member => lines fun _ => Or.inr ⟨r, List.mem_range.mp member, rfl⟩
  rw [drawn, drawn, lines fun _ => Or.inl rfl, rules, rows]

theorem setw_shown_eq (column : Column) (text : Bytes) :
    setw (columnWidth termWidth table column) (shown (columnWidth termWidth table column) text) =
      padLeft space (columnWidth termWidth table column).toNat ((display termWidth table column text).text text) := by
  unfold shown display
  by_cases long : columnWidth termWidth table column < ofSize text.length
  · rw [if_pos long, if_pos long]
    rfl
  · rw [if_neg long, if_neg long]
    rfl

theorem printed_eq_drawnAt : printed table (columnWidth termWidth table) = drawnAt termWidth table := by
  have line (text : Column → Bytes) : line table.columns (columnWidth termWidth table) text =
      drawnLine table (fun column => (columnWidth termWidth table column).toNat) (display termWidth table) text := by
    rw [drawnLine, row, List.flatMap_map]
    exact List.flatMap_congr fun column _ => by rw [setw_shown_eq]
  have rules : rules table.columns (columnWidth termWidth table) = row separator
      (table.columns.map fun column => List.replicate (columnWidth termWidth table column).toNat dash) := by
    rw [row, List.flatMap_map]
    rfl
  simp only [printed, lines, line, rules, drawnAt, drawn, printRows, maxRows]

theorem tableToString_displays {out : Bytes} (returned : tableToString termWidth table = .ok out)
    (notWarning : out ≠ warning table.columns.length) :
    ¬ Refused termWidth table ∧ out = drawnAt termWidth table := by
  rw [← printed_eq_drawnAt]
  exact tableToString_printed returned notWarning

/-! ## Fair shares -/

theorem cut_average {column : Column} {text : Bytes} {kept : Nat} (notRefused : ¬ Refused termWidth table)
    (displayed : Displayed table column text) (cut : display termWidth table column text = .cut kept) :
    Shrunk termWidth table ∧ average termWidth table < ofSize text.length ∧
      (kept : Int) = average termWidth table - 3 := by
  unfold display at cut
  by_cases long : columnWidth termWidth table column < ofSize text.length
  · obtain ⟨shrunk, width, enough⟩ := columnWidth_of_cut displayed notRefused long
    rw [if_pos long, Shown.cut.injEq, width] at cut
    rw [width] at long
    exact ⟨shrunk, long, by omega⟩
  · rw [if_neg long] at cut
    cases cut

/-- Every header and cell gets its share of the line, whatever stands in the other columns: what is no
longer than the share is whole, and of what is longer the share is kept, up to the ellipsis. -/
theorem toString_fair_share (g_display_width : CInt) (terminal : Terminal) (table : Table) (getString : Bytes)
    (out : Bytes) (returned : toString g_display_width terminal (Constant.ofTable table getString) = .ok out)
    (notWarning : out ≠ warning table.columns.length) (share : Int)
    (share_eq : share =
      max 10 ((getTermWidth g_display_width terminal).val - 5 - 3 * table.columns.length) / table.columns.length) :
    out = drawnAt (getTermWidth g_display_width terminal).val table ∧
      ∀ column ∈ table.columns, ∀ text, Displayed table column text →
        ((text.length : Int) ≤ share →
          display (getTermWidth g_display_width terminal).val table column text = .whole) ∧
        (share < text.length →
          display (getTermWidth g_display_width terminal).val table column text = .whole ∨
          ∃ kept, display (getTermWidth g_display_width terminal).val table column text = .cut kept ∧
            share - 3 ≤ kept ∧ kept < text.length) := by
  rw [toString_ofTable] at returned
  generalize (getTermWidth g_display_width terminal).val = termWidth at *
  obtain ⟨notRefused, drawn⟩ := tableToString_displays returned notWarning
  have average_eq_share : average termWidth table = share := by
    rw [average_eq, available, Int.mul_comm, share_eq]
  refine ⟨drawn, fun column _ text displayed => ?_⟩
  have longer := ofSize_le text.length
  cases shown : display termWidth table column text with
  | whole => exact ⟨fun _ => rfl, fun _ => Or.inl rfl⟩
  | cut kept =>
      obtain ⟨-, long, keeps⟩ := cut_average notRefused displayed shown
      rw [average_eq_share] at long keeps
      constructor
      · intro short
        omega
      · intro _
        exact Or.inr ⟨kept, rfl, by omega, by omega⟩

theorem twoRows_returned :
    toString (int 20) ⟨none, none⟩ (Constant.ofTable twoRows []) = .ok (text 20 twoRows) :=
  toString_returns (int 20) ⟨none, none⟩ [] (by decide) (by decide) (by decide)

theorem twoRows_not_warning : text 20 twoRows ≠ warning 2 :=
  mt (text_eq_warning_iff (by decide)).mp (by decide)

theorem toString_fair_share_two_rows :
    toString (int 20) ⟨none, none⟩ (Constant.ofTable twoRows []) = .ok (text 20 twoRows) ∧
      text 20 twoRows = drawnAt 20 twoRows ∧
      ∀ column ∈ twoRows.columns, ∀ text, Displayed twoRows column text →
        ((text.length : Int) ≤ 5 → display 20 twoRows column text = .whole) ∧
        (5 < (text.length : Int) → display 20 twoRows column text = .whole ∨
          ∃ kept, display 20 twoRows column text = .cut kept ∧ 5 - 3 ≤ (kept : Int) ∧ kept < text.length) :=
  ⟨twoRows_returned,
    toString_fair_share (int 20) ⟨none, none⟩ twoRows [] _ twoRows_returned twoRows_not_warning 5 (by decide)⟩

/-! ## Wider terminals -/

theorem available_mono (table : Table) (widens : termWidth ≤ wider) :
    available termWidth table ≤ available wider table := by
  unfold available
  omega

theorem average_mono (table : Table) (widens : termWidth ≤ wider) :
    average termWidth table ≤ average wider table := by
  rw [average_eq, average_eq]
  cases table.columns with
  | nil => simp
  | cons column columns => exact Int.ediv_le_ediv (by simp only [List.length_cons]; omega) (available_mono table widens)

theorem Refused.of_wider (widens : termWidth ≤ wider) (refused : Refused wider table) : Refused termWidth table :=
  (average_mono table widens).trans_lt refused

theorem Shrunk.of_wider (widens : termWidth ≤ wider) (shrunk : Shrunk wider table) : Shrunk termWidth table :=
  (available_mono table widens).trans_lt shrunk

theorem display_mono {column : Column} {text : Bytes} (widens : termWidth ≤ wider)
    (notRefused : ¬ Refused termWidth table) (displayed : Displayed table column text) {kept' : Nat}
    (cut' : display wider table column text = .cut kept') :
    ∃ kept, display termWidth table column text = .cut kept ∧ kept ≤ kept' := by
  obtain ⟨shrunk', long', keeps'⟩ := cut_average (mt (Refused.of_wider widens) notRefused) displayed cut'
  have shrunk := Shrunk.of_wider widens shrunk'
  have narrower := average_mono table widens
  -- the text is longer than either average, so each layout gives its column exactly the average
  have width := columnWidth_of_long displayed notRefused shrunk (narrower.trans_lt long')
  rw [display, width, if_pos (narrower.trans_lt long')]
  exact ⟨_, rfl, by omega⟩

theorem safe_of_wider (widens : termWidth ≤ wider) (inInt : InInt wider) (positive : 0 < wider)
    (safe : Safe termWidth table)
    (names : ∀ column ∈ table.columns, column.name.length < 2 ^ 31) : Safe wider table where
  margin := ⟨by omega, by have := inInt.2; omega⟩
  separators := safe.separators
  budget := ⟨by have := safe.budget.1; omega, by have := inInt.2; omega⟩
  sums := safe.sums
  floor := safe.floor
  columns := safe.columns
  average := inInt_average inInt table
  printable shown := by
    apply printable_of_nonneg inInt shown
    intro column member
    by_cases shrunk : Shrunk wider table
    · rw [columnWidth, if_pos shrunk]
      omega
    · have header : ofSize column.name.length ≤ maxLen (printRows table) column :=
        Displayed.le_maxLen (Or.inl rfl)
      rw [ofSize_eq (names column member)] at header
      rw [columnWidth, if_neg shrunk]
      omega

/-- On a wider terminal a displayed table is not refused, what was whole stays whole, and of what is still
cut no less is kept. It is displayed there, too, when the length of every header is an `int`. -/
theorem toString_widening (g_display_width g_display_width' : CInt) (terminal terminal' : Terminal)
    (table : Table) (getString : Bytes)
    (widens : (getTermWidth g_display_width terminal).val ≤ (getTermWidth g_display_width' terminal').val)
    (out : Bytes) (returned : toString g_display_width terminal (Constant.ofTable table getString) = .ok out)
    (notWarning : out ≠ warning table.columns.length) :
    (∀ out', toString g_display_width' terminal' (Constant.ofTable table getString) = .ok out' →
      out' ≠ warning table.columns.length ∧
      out = drawnAt (getTermWidth g_display_width terminal).val table ∧
      out' = drawnAt (getTermWidth g_display_width' terminal').val table ∧
      ∀ column ∈ table.columns, ∀ text, Displayed table column text →
        (display (getTermWidth g_display_width terminal).val table column text = .whole →
          display (getTermWidth g_display_width' terminal').val table column text = .whole) ∧
        ∀ kept kept', display (getTermWidth g_display_width terminal).val table column text = .cut kept →
          display (getTermWidth g_display_width' terminal').val table column text = .cut kept' → kept ≤ kept') ∧
    ((∀ column ∈ table.columns, column.name.length < 2 ^ 31) →
      ∃ out', toString g_display_width' terminal' (Constant.ofTable table getString) = .ok out') := by
  rw [toString_ofTable] at returned ⊢
  have inInt := (getTermWidth g_display_width' terminal').property
  have positive := getTermWidth_pos g_display_width' terminal'
  generalize (getTermWidth g_display_width terminal).val = termWidth at *
  generalize (getTermWidth g_display_width' terminal').val = wider at *
  obtain ⟨notRefused, drawn⟩ := tableToString_displays returned notWarning
  have safe := (tableToString_eq_ok.mp returned).1
  have notRefused' : ¬ Refused wider table := mt (Refused.of_wider widens) notRefused
  constructor
  · intro out' returned'
    rw [(tableToString_eq_ok.mp returned').2]
    refine ⟨mt (text_eq_warning_iff safe.columns).mp notRefused', drawn, ?_, fun column _ text displayed => ?_⟩
    · rw [text_of_shown notRefused', printed_eq_drawnAt]
    · have mono {kept' : Nat} (cut' : display wider table column text = .cut kept') :=
        display_mono widens notRefused displayed cut'
      constructor
      · intro whole
        cases shown' : display wider table column text with
        | whole => rfl
        | cut kept' =>
            obtain ⟨kept, cut, -⟩ := mono shown'
            cases whole.symm.trans cut
      · intro kept kept' cut cut'
        obtain ⟨kept₀, cut₀, le⟩ := mono cut'
        obtain rfl := Shown.cut.inj (cut.symm.trans cut₀)
        exact le
  · intro names
    exact ⟨_, tableToString_eq_ok.mpr ⟨safe_of_wider widens inInt positive safe names, rfl⟩⟩

theorem toString_widening_two_rows :
    ∃ out, toString (int 20) ⟨none, none⟩ (Constant.ofTable twoRows []) = .ok out ∧ out ≠ warning 2 ∧
      (∀ out', toString width80 ⟨none, none⟩ (Constant.ofTable twoRows []) = .ok out' →
        out' ≠ warning 2 ∧ out = drawnAt 20 twoRows ∧ out' = drawnAt 80 twoRows ∧
        ∀ column ∈ twoRows.columns, ∀ text, Displayed twoRows column text →
          (display 20 twoRows column text = .whole → display 80 twoRows column text = .whole) ∧
          ∀ kept kept', display 20 twoRows column text = .cut kept →
            display 80 twoRows column text = .cut kept' → kept ≤ kept') ∧
      ((∀ column ∈ twoRows.columns, column.name.length < 2 ^ 31) →
        ∃ out', toString width80 ⟨none, none⟩ (Constant.ofTable twoRows []) = .ok out') :=
  ⟨_, twoRows_returned, twoRows_not_warning, toString_widening (int 20) width80 ⟨none, none⟩ ⟨none, none⟩
    twoRows [] (by decide) _ twoRows_returned twoRows_not_warning⟩

section LongHeaders

def dashed (lengths : List Nat) (few : lengths.length < 2 ^ 31) : Table :=
  headers (lengths.map fun length => List.replicate length dash) (by rwa [List.length_map])

variable {lengths : List Nat} (few : lengths.length < 2 ^ 31)

theorem columns_dashed :
    (dashed lengths few).columns = lengths.map fun length => ⟨List.replicate length dash, []⟩ := by
  simp [dashed, headers]

theorem length_dashed : (dashed lengths few).columns.length = lengths.length := by
  rw [columns_dashed, List.length_map]

theorem maxLen_dashed (column : Column) : maxLen (printRows (dashed lengths few)) column = ofSize column.name.length := by
  have noRows : printRows (dashed lengths few) = 0 := Nat.zero_min maxRows
  rw [noRows, maxLen, List.range_zero, List.foldl_nil]

theorem naturalWidths_dashed : naturalWidths (dashed lengths few) = lengths.map ofSize := by
  rw [naturalWidths, columns_dashed, List.map_map]
  refine List.map_congr_left fun length _ => ?_
  rw [Function.comp_apply, maxLen_dashed, List.length_replicate]

theorem columnWidth_dashed {length : Nat} (natural : ¬ Shrunk termWidth (dashed lengths few)) :
    columnWidth termWidth (dashed lengths few) ⟨List.replicate length dash, []⟩ = ofSize length := by
  rw [columnWidth, if_neg natural, maxLen_dashed, List.length_replicate]

theorem tableToString_dashed {length : Nat} (member : length ∈ lengths) (wraps : ofSize length < 0)
    (notRefused : ¬ Refused termWidth (dashed lengths few)) (natural : ¬ Shrunk termWidth (dashed lengths few))
    (out : Bytes) : tableToString termWidth (dashed lengths few) ≠ .ok out := by
  intro returned
  have safe := (tableToString_eq_ok.mp returned).1
  have header : ⟨List.replicate length dash, []⟩ ∈ (dashed lengths few).columns := by
    rw [columns_dashed]
    exact List.mem_map_of_mem member
  have nonnegative := (safe.printable notRefused).2.1 _ header
  rw [columnWidth_dashed few natural] at nonnegative
  omega

end LongHeaders

abbrev hugeLengths : List Nat := [2 ^ 31 - 1, 2 ^ 31, 51]

theorem ofSize_hugeLengths : hugeLengths.map ofSize = [2147483647, -2147483648, 51] := by decide +kernel

abbrev hugeHeaders : Table := dashed hugeLengths (few_of_le (show 3 ≤ 1001 by decide))

theorem length_hugeHeaders : hugeHeaders.columns.length = 3 := length_dashed _

theorem hugeHeaders_ne_nil : hugeHeaders.columns ≠ [] :=
  List.ne_nil_of_length_pos (by rw [length_hugeHeaders]; decide)

theorem refused_hugeHeaders_iff : Refused termWidth hugeHeaders ↔ termWidth < 29 := by
  rw [refused_iff hugeHeaders_ne_nil, length_hugeHeaders]
  omega

theorem naturalWidths_hugeHeaders : naturalWidths hugeHeaders = [2147483647, -2147483648, 51] := by
  rw [naturalWidths_dashed, ofSize_hugeLengths]

theorem shrunk_hugeHeaders_iff : Shrunk termWidth hugeHeaders ↔ termWidth < 64 := by
  rw [Shrunk, available, naturalWidths_hugeHeaders, length_hugeHeaders]
  simp only [List.sum_cons, List.sum_nil]
  omega

theorem safe_hugeHeaders : Safe 29 hugeHeaders where
  margin := by decide
  separators := by rw [length_hugeHeaders]; decide
  budget := by rw [length_hugeHeaders]; decide
  sums := by
    rw [naturalWidths_hugeHeaders]
    exact ⟨by decide, by decide, by decide, trivial⟩
  floor := by rw [length_hugeHeaders]; decide
  columns := hugeHeaders_ne_nil
  average := inInt_average (by decide) hugeHeaders
  printable shown := by
    apply printable_of_nonneg (by decide) shown
    intro column _
    rw [columnWidth, if_pos (shrunk_hugeHeaders_iff.mpr (by decide))]
    exact le_trans (by decide) (le_max_left 5 _)

/-- At width 29 the columns are shrunk to five bytes. At width 80 they get their natural widths, and that
of the second, whose header has `2 ^ 31` bytes, is negative. -/
theorem toString_widening_fails :
    (∃ out, toString (int 29) ⟨none, none⟩ (Constant.ofTable hugeHeaders []) = .ok out ∧ out ≠ warning 3) ∧
      ∀ out, toString width80 ⟨none, none⟩ (Constant.ofTable hugeHeaders []) ≠ .ok out := by
  constructor
  · have shown : ¬ Refused 29 hugeHeaders := by
      rw [refused_hugeHeaders_iff]
      decide
    have returned : tableToString 29 hugeHeaders = .ok (text 29 hugeHeaders) :=
      tableToString_eq_ok.mpr ⟨safe_hugeHeaders, rfl⟩
    have notWarning := mt (text_eq_warning_iff hugeHeaders_ne_nil).mp shown
    rw [length_hugeHeaders] at notWarning
    exact ⟨_, returned, notWarning⟩
  · have shown : ¬ Refused 80 hugeHeaders := by
      rw [refused_hugeHeaders_iff]
      decide
    have natural : ¬ Shrunk 80 hugeHeaders := by
      rw [shrunk_hugeHeaders_iff]
      decide
    exact tableToString_dashed _ (show 2 ^ 31 ∈ hugeLengths by decide) (by decide +kernel) shown natural

/-! ## Tables that fit -/

/-- The width of the layout that cuts nothing: for every column its longest text and a separator. -/
def fullWidth (table : Table) : Nat := (table.columns.map fun column => naturalLength table column + 3).sum

theorem fullWidth_eq (table : Table) : fullWidth table = totalLength table + 3 * table.columns.length := by
  unfold fullWidth totalLength
  induction table.columns with
  | nil => rfl
  | cons column columns ih =>
      rw [List.map_cons, List.sum_cons, ih, List.map_cons, List.sum_cons, List.length_cons]
      omega

theorem totalLength_small (fits : (fullWidth table : Int) ≤ termWidth - 5) (inInt : InInt termWidth) :
    totalLength table < 2 ^ 31 := by
  have := inInt.2
  rw [fullWidth_eq] at fits
  omega

theorem not_shrunk_of_fits (columns : table.columns ≠ []) (fits : (fullWidth table : Int) ≤ termWidth - 5)
    (inInt : InInt termWidth) (notRefused : ¬ Refused termWidth table) : ¬ Shrunk termWidth table := by
  have enough := mt (refused_iff_available columns).mpr notRefused
  have budget : termWidth - 5 - table.columns.length * 3 ≤ available termWidth table := le_max_right 10 _
  rw [Shrunk, sum_naturalWidths (totalLength_small fits inInt)]
  rw [fullWidth_eq] at fits
  omega

theorem drawnAt_of_not_shrunk (small : totalLength table < 2 ^ 31) (natural : ¬ Shrunk termWidth table) :
    drawnAt termWidth table = drawn table (naturalLength table) fun _ _ => .whole := by
  have width (column : Column) : columnWidth termWidth table column = maxLen (printRows table) column :=
    if_neg natural
  apply drawn_congr
  · intro column member
    rw [width, maxLen_eq ((naturalLength_le_totalLength member).trans_lt small), Int.toNat_natCast]
  · intro column _ text displayed
    rw [display, if_neg]
    rw [width]
    exact Int.not_lt.mpr displayed.le_maxLen

/-- A table whose untruncated layout fits is shown in full where tables of so many columns are shown at
all. Below that it is refused, however narrow its columns are. -/
theorem toString_of_fits (g_display_width : CInt) (terminal : Terminal) (table : Table) (getString : Bytes)
    (columns : table.columns ≠ [])
    (fits : (fullWidth table : Int) ≤ (getTermWidth g_display_width terminal).val - 5) :
    (table.columns.length ≤ 2 ∨
        8 * (table.columns.length : Int) + 5 ≤ (getTermWidth g_display_width terminal).val →
      toString g_display_width terminal (Constant.ofTable table getString) =
          .ok (drawn table (naturalLength table) fun _ _ => .whole) ∧
        (drawn table (naturalLength table) fun _ _ => .whole) ≠ warning table.columns.length) ∧
    (3 ≤ table.columns.length ∧
        (getTermWidth g_display_width terminal).val < 8 * (table.columns.length : Int) + 5 →
      (∀ out, toString g_display_width terminal (Constant.ofTable table getString) = .ok out →
        out = warning table.columns.length) ∧
      (table.columns.length * 5 < 2 ^ 31 →
        toString g_display_width terminal (Constant.ofTable table getString) =
          .ok (warning table.columns.length))) := by
  rw [toString_ofTable]
  have inInt := (getTermWidth g_display_width terminal).property
  have positive := getTermWidth_pos g_display_width terminal
  generalize (getTermWidth g_display_width terminal).val = termWidth at *
  have small := totalLength_small fits inInt
  constructor
  · intro wide
    have notRefused : ¬ Refused termWidth table := by
      rw [refused_iff columns]
      omega
    have few : table.columns.length * 5 < 2 ^ 31 := by
      have := inInt.2
      omega
    have natural := not_shrunk_of_fits columns fits inInt notRefused
    have text_eq : text termWidth table = drawn table (naturalLength table) fun _ _ => .whole := by
      rw [text_of_shown notRefused, printed_eq_drawnAt, drawnAt_of_not_shrunk small natural]
    rw [← text_eq]
    exact ⟨tableToString_returns inInt positive small few columns,
      mt (text_eq_warning_iff columns).mp notRefused⟩
  · intro narrow
    have refused : Refused termWidth table := (refused_iff columns).mpr narrow
    constructor
    · intro out returned
      rw [(tableToString_eq_ok.mp returned).2]
      exact (text_eq_warning_iff columns).mpr refused
    · intro few
      rw [tableToString_returns inInt positive small few columns, (text_eq_warning_iff columns).mpr refused]

theorem toString_of_fits_two_rows :
    ((2 ≤ 2 ∨ 8 * (2 : Int) + 5 ≤ 80 →
      toString width80 ⟨none, none⟩ (Constant.ofTable twoRows []) =
          .ok (drawn twoRows (naturalLength twoRows) fun _ _ => .whole) ∧
        (drawn twoRows (naturalLength twoRows) fun _ _ => .whole) ≠ warning 2) ∧
    (3 ≤ 2 ∧ 80 < 8 * (2 : Int) + 5 →
      (∀ out, toString width80 ⟨none, none⟩ (Constant.ofTable twoRows []) = .ok out → out = warning 2) ∧
      (2 * 5 < 2 ^ 31 → toString width80 ⟨none, none⟩ (Constant.ofTable twoRows []) = .ok (warning 2)))) :=
  toString_of_fits width80 ⟨none, none⟩ twoRows [] (by decide) (by decide)

def tenColumns : Table := headers (List.replicate 10 (bytes "a")) (few_of_le (show 10 ≤ 1001 by decide))

theorem tenColumns_refused :
    NewlineFree tenColumns ∧ (fullWidth tenColumns : Int) ≤ 45 - 5 ∧
      toString (int 45) ⟨none, none⟩ (Constant.ofTable tenColumns []) = .ok (warning 10) := by
  have refused : Refused 45 tenColumns := by decide
  have returned : toString (int 45) ⟨none, none⟩ (Constant.ofTable tenColumns []) = .ok (text 45 tenColumns) :=
    toString_returns (int 45) ⟨none, none⟩ [] (by decide) (by decide) (by decide)
  rw [text, if_pos refused] at returned
  exact ⟨by decide, by decide, returned⟩

end Ddbclient.Client
