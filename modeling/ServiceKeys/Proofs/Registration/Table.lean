import ServiceKeys.Proofs.Registration.Directions
import ServiceKeys.Proofs.Regex.Stretch

/-!
# Registration tables

A registration file as it is usually written: an object with one registration on each line.  What the
built-in templates find in such a table is what was written into it.  Every line has one opening
parenthesis and an entry opens with it or with none, so each line is a stretch of its own for a search
(`Row.exists_reports`), whatever the keys around it look like.  Main statement: `table_exact`.
-/

namespace ServiceKeys.Registration

open Text Regex Template

/-! ## Tables -/

/-- The wrappers of the built-in templates. -/
inductive Wrapper where
  | asFunction
  | asClass
  | asValue
  deriving DecidableEq

namespace Wrapper

def name : Wrapper → String
  | .asFunction => "asFunction"
  | .asClass => "asClass"
  | .asValue => "asValue"

def kind : Wrapper → String
  | .asFunction => "function"
  | .asClass => "class"
  | .asValue => "value"

/-- The wrappers in the order in which they are tried. -/
def all : List Wrapper := [.asFunction, .asClass, .asValue]

theorem map_all : all.map (fun w => wrapped w.name w.kind) = builtin := rfl

theorem name_injective {w w' : Wrapper} (h : w.name.toList = w'.name.toList) : w = w' := by
  cases w <;> cases w' <;> first | rfl | exact absurd h (by decide)

theorem name_plain (w : Wrapper) : ∀ c ∈ w.name.toList, isSpecial c = false := by
  cases w <;> decide

theorem name_word (w : Wrapper) : ∀ c ∈ w.name.toList, isBlank c = false ∧ c ≠ ':' := by
  cases w <;> decide

end Wrapper

/-- How a key is quoted. -/
inductive Quote where
  | bare
  | single
  | double
  deriving DecidableEq

def Quote.mark : Quote → List Char
  | .bare => []
  | .single => ['\x27']
  | .double => ['"']

theorem Quote.quoteMark (q : Quote) : QuoteMark q.mark := by
  cases q with
  | bare => exact Or.inl rfl
  | single => exact Or.inr ⟨_, by simp, rfl⟩
  | double => exact Or.inr ⟨_, by simp, rfl⟩

/-- A registration, as it is written. -/
structure Row where
  quote : Quote
  key : List Char
  wrapper : Wrapper
  reference : List Char
  keyText : KeyText key
  bareName : BareName reference

/-- A registration up to its parenthesis. -/
def Row.opening (row : Row) : List Char :=
  row.quote.mark ++ (row.key ++ (row.quote.mark ++ (": ".toList ++ row.wrapper.name.toList)))

/-- The line of a registration. -/
def Row.line (row : Row) : List Char :=
  "  ".toList ++ (row.opening ++ '(' :: (row.reference ++ ')' :: ",\n".toList))

def tableHead : List Char := "export const m = \x7b\n".toList

def tableFoot : List Char := "\x7d;".toList

/-- A table, and what stands behind it. -/
def table (rows : List Row) (tail : List Char) : List Char :=
  tableHead ++ (rows.flatMap Row.line ++ (tableFoot ++ tail))

/-! ## Patterns that read entries -/

/-- A pattern reads the entries of a wrapper: it matches where an entry begins that `read` accepts, and
nowhere else, and the match holds what is read. -/
structure Reads {β : Type} (r : Regex) (wrapper : List Char) (value : Match → β)
    (read : List Char → List Char → Option β) : Prop where
  advances : Advances r
  sound : ∀ {content : List Char} {i : Nat} {m : Match}, i ≤ content.length →
    matchInside r content i = some m → ∃ (key : List Char) (e : Entry wrapper key content),
      KeyText key ∧ e.start = i ∧ e.stop = m.stop ∧ ')' ∉ e.body ∧
      (BareName e.body → read key e.body = some (value m))
  complete : ∀ {content key : List Char} (e : Entry wrapper key content), KeyText key →
    BareName e.body → (read key e.body).isSome = true →
    ∃ m, matchInside r content e.start = some m

/-- An entry has a parenthesis. -/
theorem Entry.paren_mem_drop {wrapper key content : List Char} (e : Entry wrapper key content) :
    '(' ∈ content.drop e.start := by
  have hdrop := congrArg (List.drop e.front.length) e.content_eq
  rw [List.drop_left] at hdrop
  rw [start, hdrop]
  simp

/-- A bare name has no blanks around it. -/
theorem eq_nil_of_bareName {c r d : List Char} (hc : Blanks c) (hd : Blanks d)
    (h : BareName (c ++ (r ++ d))) : c = [] ∧ d = [] := by
  have hnil : ∀ {b : List Char}, Blanks b → (∀ x ∈ b, x ∈ c ++ (r ++ d)) → b = [] := by
    intro b hb hsub
    refine List.eq_nil_iff_forall_not_mem.2 fun x hx => ?_
    have hblank := hb x hx
    rw [not_blank_of_continue (h.isIdentifierContinue x (hsub x hx))] at hblank
    exact Bool.false_ne_true hblank
  exact ⟨hnil hc fun x hx => by simp [hx], hnil hd fun x hx => by simp [hx]⟩

theorem trim_bareName {cs : List Char} (h : BareName cs) : trim cs = cs := by
  obtain ⟨a, b, ha, hb, hcs⟩ := trim_append cs
  obtain ⟨rfl, rfl⟩ := eq_nil_of_bareName ha hb (hcs ▸ h)
  simpa using hcs.symm

theorem RefText.notMem {cs : List Char} (h : RefText cs) : ')' ∉ cs := by
  obtain ⟨c, name, more, hc, hname, hmore, rfl⟩ := h
  have hnot : isIdentifierContinue ')' = false := by decide
  simp only [List.mem_cons, List.mem_append, not_or]
  refine ⟨?_, ?_, ?_⟩
  · rintro rfl
    rw [isIdentifierContinue_of_start hc] at hnot
    exact Bool.false_ne_true hnot.symm
  · intro hmem
    rw [hname _ hmem] at hnot
    exact Bool.false_ne_true hnot.symm
  · intro hmem
    exact hmore _ hmem (by simp)

theorem reads_forwardBody (wrapper : List Char) {key : List Char} (hkey : KeyText key) :
    Reads (forwardBody wrapper key) wrapper (fun m => trim ((m.group? 1).getD []))
      (fun k body => if k = key then some body else none) where
  advances := advances_forwardBody _ _
  sound hi hm := by
    obtain ⟨e, c, r, d, hstart, hstop, hc, hr, hd, hbody, hgroup⟩ := entry_of_forward hi hm
    refine ⟨key, e, hkey, hstart, hstop, ?_, ?_⟩
    · have hblank : ∀ {b : List Char}, Blanks b → ')' ∉ b := fun hb hmem =>
        absurd (hb _ hmem) (by decide)
      simp [hbody, hblank hc, hr.notMem, hblank hd]
    · intro hname
      obtain ⟨rfl, rfl⟩ := eq_nil_of_bareName hc hd (hbody ▸ hname)
      have hr' : e.body = r := by simpa using hbody
      rw [if_pos rfl, hgroup, Option.getD_some, ← hr', trim_bareName hname]
  complete {content k} e hk hname hread := by
    obtain rfl : k = key := by
      by_contra hne
      simp [hne] at hread
    exact e.exists_forward (c := []) (d := []) (by simp [Blanks]) (refText_of_bareName hname)
      (by simp [Blanks]) (by simp)

theorem reads_reverseBody (wrapper : List Char) {symbol : List Char} (hsymbol : BareName symbol) :
    Reads (reverseBody wrapper symbol) wrapper (fun m => m.group? 1)
      (fun k body => if body = symbol then some (some k) else none) where
  advances := advances_reverseBody _ _
  sound hi hm := by
    obtain ⟨key, e, c, d, hkey, hstart, hstop, hc, hd, hbody, hgroup⟩ := entry_of_reverse hi hm
    refine ⟨key, e, hkey, hstart, hstop, ?_, ?_⟩
    · rw [hbody]
      exact notMem_body hc hsymbol hd (by simp)
    · intro hname
      obtain ⟨rfl, rfl⟩ := eq_nil_of_bareName hc hd (hbody ▸ hname)
      rw [if_pos (by simpa using hbody), hgroup]
  complete {content k} e hk hname hread := by
    have hbody : e.body = symbol := by
      by_contra hne
      simp [hne] at hread
    exact e.exists_reverse (c := []) (d := []) hk (by simp [Blanks]) (by simp [Blanks])
      (by simpa using hbody)

/-! ## One line -/

namespace Row

variable {row : Row} {front rest : List Char}

/-- A line has the registration as an entry. -/
def entry (row : Row) (front rest : List Char) :
    Entry row.wrapper.name.toList row.key (front ++ (row.line ++ rest)) where
  front := front ++ "  ".toList
  lead := row.quote.mark
  link := row.quote.mark ++ (": ".toList ++ row.wrapper.name.toList)
  body := row.reference
  rest := ",\n".toList ++ rest
  quoted := row.quote.quoteMark
  linked := ⟨row.quote.mark, [], [' '], row.quote.quoteMark, by simp [Blanks], by simp [Blanks]; decide,
    by simp⟩
  whole := by
    have hmark : ∀ q : Quote, ∀ c ∈ "  ".toList ++ q.mark, isKeyChar c = false := by
      intro q
      cases q <;> decide
    intro c hc
    rw [List.append_assoc, List.getLast?_append_of_ne_nil _ (by simp)] at hc
    exact hmark row.quote c (List.mem_of_getLast? hc)
  content_eq := by simp [line, opening]

theorem notMem_reference (row : Row) {p : Char} (hp : p ∈ ['(', ')']) : p ∉ row.reference := by
  have hnil : Blanks [] := by simp [Blanks]
  simpa using notMem_body hnil row.bareName hnil hp

theorem notMem_opening (row : Row) : '(' ∉ "  ".toList ++ row.opening := by
  have hopening : '(' ∉ row.opening :=
    (row.entry [] []).notMem_opening row.keyText (by decide) (noParen_of_plain row.wrapper.name_plain).1
  simpa using hopening

/-- What stands before the parenthesis of a line. -/
theorem entry_opening (row : Row) (front rest : List Char) :
    (row.entry front rest).front ++ (row.entry front rest).opening =
      front ++ ("  ".toList ++ row.opening) := by
  simp [entry, Entry.opening, opening]

theorem length_before (row : Row) (front : List Char) :
    (front ++ ("  ".toList ++ row.opening)).length = front.length + 2 + row.opening.length := by
  simp
  omega

theorem length_line (row : Row) :
    row.line.length = 2 + row.opening.length + row.reference.length + 4 := by
  simp [line]
  omega

/-- The margin of a line. -/
theorem getElem?_margin {i : Nat} (hi : front.length ≤ i) (hlt : i < front.length + 2) :
    (front ++ (row.line ++ rest))[i]? = some ' ' := by
  obtain ⟨k, rfl⟩ := Nat.exists_eq_add_of_le hi
  rw [List.getElem?_append_right hi, Nat.add_sub_cancel_left]
  match k, Nat.lt_of_add_lt_add_left hlt with
  | 0, _ => simp [line]
  | 1, _ => simp [line]

/-- What stands behind the parentheses of a line. -/
theorem exists_getElem?_end {i : Nat}
    (hi : front.length + 2 + row.opening.length + row.reference.length + 2 ≤ i)
    (hlt : i < front.length + row.line.length) :
    ∃ c ∈ [',', '\n'], (front ++ (row.line ++ rest))[i]? = some c := by
  have hsplit : front ++ (row.line ++ rest) = (front ++ ("  ".toList ++ (row.opening ++ '(' ::
      (row.reference ++ [')'])))) ++ (",\n".toList ++ rest) := by
    simp [line]
  have hlength : (front ++ ("  ".toList ++ (row.opening ++ '(' :: (row.reference ++ [')'])))).length =
      front.length + 2 + row.opening.length + row.reference.length + 2 := by
    simp
    omega
  rw [row.length_line] at hlt
  rw [hsplit, List.getElem?_append_right (hlength ▸ hi), hlength]
  match i - (front.length + 2 + row.opening.length + row.reference.length + 2),
      (by omega : i - (front.length + 2 + row.opening.length + row.reference.length + 2) < 2) with
  | 0, _ => exact ⟨',', by simp, by simp⟩
  | 1, _ => exact ⟨'\n', by simp, by simp⟩

/-- **Every entry that begins in a line is the line's own**: it opens with the same parenthesis. -/
theorem opening_of_entry {wrapper key : List Char}
    (e : Entry wrapper key (front ++ (row.line ++ rest))) (hkey : KeyText key)
    (hwrapper : '(' ∉ wrapper ∧ ')' ∉ wrapper) (hstart : front.length ≤ e.start)
    (hlt : e.start < front.length + row.line.length) :
    front.length + 2 ≤ e.start ∧ e.front ++ e.opening = front ++ ("  ".toList ++ row.opening) := by
  refine ⟨?_, ?_⟩
  · by_contra hlow
    exact e.head_ne hkey (by decide) (getElem?_margin hstart (Nat.lt_of_not_le hlow))
  · have hown := (row.entry front rest).content_eq_opening
    rw [entry_opening] at hown
    refine e.opening_eq hkey hwrapper hown ?_ (row.notMem_reference (by simp)) ?_
    · intro hmem
      have hmem' := (List.drop_sublist_drop_left _ hstart).mem hmem
      rw [List.drop_left] at hmem'
      exact row.notMem_opening hmem'
    · show e.start ≤ (front ++ ("  ".toList ++ row.opening)).length + 1 + row.reference.length
      rw [length_before]
      by_contra hhigh
      have hother : ∀ c ∈ [',', '\n'], isKeyChar c = false ∧ c ∉ ['\x27', '"'] := by decide
      obtain ⟨c, hc, hchar⟩ := exists_getElem?_end (by omega) hlt
      exact e.head_ne hkey (hother c hc) hchar

/-- What is read off a line, if anything is. -/
def found {β : Type} (row : Row) (w : Wrapper) (read : List Char → List Char → Option β) : Option β :=
  if row.wrapper = w then read row.key row.reference else none

section

variable {β : Type} {r : Regex} {w : Wrapper} {value : Match → β}
  {read : List Char → List Char → Option β}

/-- A match that begins in a line holds what is read off the line, and ends in it. -/
theorem of_matchInside (hr : Reads r w.name.toList value read) {i : Nat} {m : Match}
    (hi : front.length ≤ i) (hlt : i < front.length + row.line.length)
    (hm : matchInside r (front ++ (row.line ++ rest)) i = some m) :
    row.found w read = some (value m) ∧ front.length + 2 ≤ i ∧
      i ≤ front.length + 2 + row.opening.length ∧
      m.stop = front.length + 2 + row.opening.length + row.reference.length + 2 := by
  have hlength : i ≤ (front ++ (row.line ++ rest)).length := by
    simp only [List.length_append]
    omega
  obtain ⟨key, e, hkey, rfl, hstop, hclose, hread⟩ := hr.sound hlength hm
  obtain ⟨hlow, hsame⟩ := opening_of_entry e hkey (noParen_of_plain w.name_plain) hi hlt
  -- the same wrapper, the same key and the same body
  rw [← entry_opening row front rest] at hsame
  obtain rfl : w = row.wrapper :=
    Wrapper.name_injective (e.wrapper_eq (row.entry front rest) w.name_word row.wrapper.name_word hsame)
  obtain rfl : key = row.key := e.key_eq (row.entry front rest) hkey row.keyText hsame
  have hcontent := e.content_eq_opening.symm.trans (row.entry front rest).content_eq_opening
  rw [hsame] at hcontent
  obtain ⟨hbody, -⟩ := cut_unique hclose (row.notMem_reference (by simp))
    (List.cons.inj (List.append_cancel_left hcontent)).2
  have hbody' : e.body = row.reference := hbody
  have hxs : (e.front ++ e.opening).length = front.length + 2 + row.opening.length := by
    rw [hsame, entry_opening, length_before]
  refine ⟨?_, hlow, ?_, ?_⟩
  · rw [found, if_pos rfl, ← hbody']
    exact hread (hbody' ▸ row.bareName)
  · rw [← hxs, List.length_append]
    exact Nat.le_add_right _ _
  · rw [← hstop, e.stop_eq, hxs, hbody']

/-- **A line is a stretch of its own**: what is reported in it is what is read off it. -/
theorem exists_reports (hr : Reads r w.name.toList value read) (row : Row) (front rest : List Char) :
    ∃ ms, Reports r (front ++ (row.line ++ rest)) front.length (front.length + row.line.length) ms ∧
      ms.map value = (row.found w read).toList := by
  have hlength : front.length + row.line.length ≤ (front ++ (row.line ++ rest)).length := by
    simp only [List.length_append]
    omega
  cases hfound : row.found w read with
  | none =>
      refine ⟨[], reports_nil hr.advances (Nat.le_add_right _ _) hlength ?_, rfl⟩
      intro l hl hlt
      cases hm : matchInside r (front ++ (row.line ++ rest)) l with
      | none => rfl
      | some m =>
          obtain ⟨hvalue, -⟩ := of_matchInside hr hl hlt hm
          simp [hfound] at hvalue
  | some b =>
      have hline := row.length_line
      obtain ⟨rfl, hread⟩ : row.wrapper = w ∧ read row.key row.reference = some b := by
        simpa [found] using hfound
      obtain ⟨m, hm⟩ := hr.complete (row.entry front rest) row.keyText row.bareName
        (by rw [show (row.entry front rest).body = row.reference from rfl, hread]; rfl)
      have hstart : (row.entry front rest).start = front.length + 2 := by
        simp [entry, Entry.start]
      rw [hstart] at hm
      obtain ⟨hvalue, -, -, hstop⟩ := of_matchInside hr (Nat.le_add_right _ _) (by omega) hm
      refine ⟨[m], reports_singleton hr.advances (Nat.le_add_right _ _) ?_ hm (by omega) hlength ?_, ?_⟩
      · intro l hl hlt
        cases hm' : matchInside r (front ++ (row.line ++ rest)) l with
        | none => rfl
        | some m' =>
            obtain ⟨-, hlow, -⟩ := of_matchInside hr hl (by omega) hm'
            omega
      · intro l hl hlt
        cases hm' : matchInside r (front ++ (row.line ++ rest)) l with
        | none => rfl
        | some m' =>
            obtain ⟨-, -, hhigh, -⟩ := of_matchInside hr (by omega) hlt hm'
            omega
      · have hb : value m = b := Option.some.inj (hvalue.symm.trans hfound)
        simp [hb]

end

end Row

/-! ## The table -/

section

variable {β : Type} {r : Regex} {w : Wrapper} {value : Match → β}
  {read : List Char → List Char → Option β}

/-- The lines of a table, one after the other. -/
theorem exists_reports_lines (hr : Reads r w.name.toList value read) (rows : List Row)
    (front rest : List Char) :
    ∃ ms, Reports r (front ++ (rows.flatMap Row.line ++ rest)) front.length
        (front.length + (rows.flatMap Row.line).length) ms ∧
      ms.map value = rows.filterMap (Row.found · w read) := by
  induction rows generalizing front with
  | nil =>
      refine ⟨[], ⟨le_rfl, by simp, by simp⟩, rfl⟩
  | cons row rows ih =>
      obtain ⟨ms, hms, hvalue⟩ := row.exists_reports hr front (rows.flatMap Row.line ++ rest)
      obtain ⟨ms', hms', hvalue'⟩ := ih (front ++ row.line)
      refine ⟨ms ++ ms', ?_, ?_⟩
      · simp only [List.append_assoc, List.length_append] at hms'
        simp only [List.flatMap_cons, List.append_assoc, List.length_append]
        rw [← Nat.add_assoc]
        exact hms.append hms'
      · rw [List.map_append, hvalue, hvalue', List.filterMap_cons]
        cases row.found w read <;> rfl

/-- Nothing is found above the lines: an entry has no brace before its parenthesis. -/
theorem reports_above (hr : Reads r w.name.toList value read) (rest : List Char) :
    Reports r (tableHead ++ rest) 0 tableHead.length [] := by
  refine reports_nil hr.advances (Nat.zero_le _) (by simp) ?_
  intro l _ hlt
  cases hm : matchInside r (tableHead ++ rest) l with
  | none => rfl
  | some m =>
      exfalso
      have hl : l ≤ (tableHead ++ rest).length := by
        rw [List.length_append]
        omega
      obtain ⟨key, e, hkey, rfl, -⟩ := hr.sound hl hm
      have hbrace : '\x7b' ∉ w.name.toList := by cases w <;> decide
      have hparen : '(' ∉ "export const m = ".toList.drop e.start := by
        intro hmem
        exact absurd (List.mem_of_mem_drop hmem) (by decide)
      have hafter := e.lt_start hkey (by decide) hbrace (by decide) rfl hparen
      have hlength : tableHead.length = "export const m = ".toList.length + 2 := rfl
      have hstart : e.start = "export const m = ".toList.length + 1 := by omega
      refine e.head_ne hkey (c := '\n') (by decide) ?_
      rw [hstart]
      rfl

/-- Nothing is found below the lines, where there is no parenthesis. -/
theorem reports_below (hr : Reads r w.name.toList value read) (front : List Char) {tail : List Char}
    (htail : Blanks tail) :
    Reports r (front ++ (tableFoot ++ tail)) front.length (front ++ (tableFoot ++ tail)).length [] := by
  refine reports_nil hr.advances (by simp) le_rfl ?_
  intro l hl hlt
  cases hm : matchInside r (front ++ (tableFoot ++ tail)) l with
  | none => rfl
  | some m =>
      exfalso
      obtain ⟨key, e, hkey, rfl, -⟩ := hr.sound (Nat.le_of_lt hlt) hm
      have hmem := (List.drop_sublist_drop_left _ hl).mem e.paren_mem_drop
      rw [List.drop_left] at hmem
      rcases List.mem_append.1 hmem with hmem | hmem
      · exact absurd hmem (by decide)
      · exact absurd (htail _ hmem) (by decide)

/-- **What a pattern reports in a table** is what is read off its lines. -/
theorem findAll_table (hr : Reads r w.name.toList value read) (rows : List Row) {tail : List Char}
    (htail : Blanks tail) :
    (findAll r (table rows tail)).map value = rows.filterMap (Row.found · w read) := by
  obtain ⟨ms, hms, hvalue⟩ := exists_reports_lines hr rows tableHead (tableFoot ++ tail)
  have hbelow := reports_below hr (tableHead ++ rows.flatMap Row.line) htail
  have hoffset : (tableHead ++ rows.flatMap Row.line).length =
      tableHead.length + (rows.flatMap Row.line).length := List.length_append
  rw [hoffset, List.append_assoc] at hbelow
  have hall := ((reports_above hr _).append hms).append hbelow
  rw [table, findAll_eq_of_reports hr.advances hall, List.nil_append, List.append_nil, hvalue]

end

/-! ## The two directions -/

section

variable {rows : List Row} {tail : List Char} (htail : Blanks tail)
include htail

/-- The registrations of a key that one template finds in a table. -/
theorem forwardWith_table (w : Wrapper) {key : String} (hkey : KeyText key.toList) :
    forwardWith (wrapped w.name w.kind) (table rows tail) key =
      .ok ((rows.filter fun row => row.wrapper = w ∧ row.key = key.toList).map fun row =>
        ⟨key, String.ofList row.reference, w.kind⟩) := by
  have hfound := congrArg (List.map fun ref => Registration.mk key (String.ofList ref) w.kind)
    (findAll_table (reads_forwardBody w.name.toList hkey) rows htail)
  rw [List.map_map] at hfound
  rw [forwardWith_wrapped w.name_plain]
  refine congrArg Except.ok (hfound.trans ?_)
  rw [List.map_filterMap, ← List.filterMap_eq_map, List.filterMap_filter]
  refine List.filterMap_congr fun row _ => ?_
  by_cases hw : row.wrapper = w <;> by_cases hk : row.key = key.toList <;> simp [Row.found, hw, hk]

/-- The keys of a symbol that one template finds in a table. -/
theorem reverseWith_table (w : Wrapper) {symbol : String} (hsymbol : BareName symbol.toList) :
    reverseWith (wrapped w.name w.kind) (table rows tail) symbol =
      .ok ((rows.filter fun row => row.wrapper = w ∧ row.reference = symbol.toList).map fun row =>
        some (String.ofList row.key)) := by
  have hfound := congrArg (List.map (Option.map String.ofList))
    (findAll_table (reads_reverseBody w.name.toList hsymbol) rows htail)
  rw [List.map_map] at hfound
  rw [reverseWith_wrapped w.name_plain]
  refine congrArg Except.ok (hfound.trans ?_)
  rw [List.map_filterMap, ← List.filterMap_eq_map, List.filterMap_filter]
  refine List.filterMap_congr fun row _ => ?_
  by_cases hw : row.wrapper = w <;> by_cases hs : row.reference = symbol.toList <;>
    simp [Row.found, hw, hs]

end

/-- Computations that all succeed, for every built-in template. -/
theorem mapM_builtin {α : Type} {f : Template → Extraction α} {g : Wrapper → α}
    (h : ∀ w : Wrapper, f (wrapped w.name w.kind) = .ok (g w)) :
    builtin.mapM f = .ok (Wrapper.all.map g) := by
  rw [← Wrapper.map_all]
  refine mapM_eq_ok_iff.2 (List.forall₂_map_left_iff.2 (List.forall₂_map_right_iff.2 ?_))
  exact List.forall₂_same.2 fun w _ => h w

/-- **What is written into a table is found in it.**  The registrations of a key are those that the
table has for it, by template and then by place.  The keys of symbols are those of the registrations
with one of the symbols, by template, then by the symbol's first place among the symbols, then by the
registration's place, without duplicates. -/
theorem table_exact (rows : List Row) {tail : List Char} (htail : Blanks tail) :
    (∀ key : String, KeyText key.toList → forward builtin (table rows tail) key =
      .ok (Wrapper.all.flatMap fun w =>
        (rows.filter fun row => row.wrapper = w ∧ row.key = key.toList).map fun row =>
          ⟨key, String.ofList row.reference, w.kind⟩)) ∧
    ∀ symbols : List String, (∀ s ∈ symbols, BareName s.toList) →
      reverse builtin (table rows tail) symbols =
        .ok (distinct (Wrapper.all.flatMap fun w => (distinct symbols).flatMap fun s =>
          (rows.filter fun row => row.wrapper = w ∧ row.reference = s.toList).map fun row =>
            some (String.ofList row.key))) := by
  refine ⟨fun key hkey => ?_, fun symbols hsymbols => ?_⟩
  · have htemplate : ∀ w : Wrapper, forwardWith (wrapped w.name w.kind) (table rows tail) key = .ok _ :=
      fun w => forwardWith_table htail w hkey
    rw [forward, mapM_builtin htemplate]
    rfl
  · have htemplate : ∀ w : Wrapper, (do
        return (← (distinct symbols).mapM fun s =>
          reverseWith (wrapped w.name w.kind) (table rows tail) s).flatten :
          Extraction (List (Option String))) = .ok ((distinct symbols).flatMap fun s =>
            (rows.filter fun row => row.wrapper = w ∧ row.reference = s.toList).map fun row =>
              some (String.ofList row.key)) := by
      intro w
      have hsymbol : ∀ s ∈ distinct symbols,
          reverseWith (wrapped w.name w.kind) (table rows tail) s = .ok _ := fun s hs =>
        reverseWith_table htail w (hsymbols s (mem_distinct.1 hs))
      rw [mapM_eq_ok_iff.2 (List.forall₂_map_right_iff.2 (List.forall₂_same.2 hsymbol))]
      rfl
    show (builtin.mapM _ >>= _) = _
    rw [mapM_builtin htemplate]
    rfl

/-- A table whose keys are prefixes of each other and of a wrapper. -/
def sampleRows : List Row :=
  [⟨.single, "mail.v2".toList, .asClass, "Mail".toList,
      ⟨'m', by decide, Or.inr ⟨"ail.v".toList, '2', by decide, by decide, rfl⟩⟩,
      ⟨'M', "ail".toList, rfl, by decide, by decide⟩⟩,
   ⟨.bare, "mail".toList, .asFunction, "Mail".toList,
      ⟨'m', by decide, Or.inr ⟨"ai".toList, 'l', by decide, by decide, rfl⟩⟩,
      ⟨'M', "ail".toList, rfl, by decide, by decide⟩⟩,
   ⟨.double, "mail:asClass".toList, .asClass, "$box".toList,
      ⟨'m', by decide, Or.inr ⟨"ail:asClas".toList, 's', by decide, by decide, rfl⟩⟩,
      ⟨'$', "box".toList, rfl, by decide, by decide⟩⟩]

theorem table_exact_sample :
    Blanks ['\n'] ∧ KeyText "mail".toList ∧ (∀ s ∈ ["$box", "Mail"], BareName s.toList) ∧
    forward builtin (table sampleRows ['\n']) "mail" = .ok [⟨"mail", "Mail", "function"⟩] ∧
    reverse builtin (table sampleRows ['\n']) ["$box", "Mail"] =
      .ok [some "mail", some "mail:asClass", some "mail.v2"] := by
  have htail : Blanks ['\n'] := by simp [Blanks]; decide
  have hkey : KeyText "mail".toList :=
    ⟨'m', by decide, Or.inr ⟨"ai".toList, 'l', by decide, by decide, rfl⟩⟩
  have hsymbols : ∀ s ∈ ["$box", "Mail"], BareName s.toList := by
    simp only [List.forall_mem_cons, List.not_mem_nil, false_implies, implies_true, and_true]
    exact ⟨⟨'$', "box".toList, rfl, by decide, by decide⟩, ⟨'M', "ail".toList, rfl, by decide, by decide⟩⟩
  obtain ⟨hforward, hreverse⟩ := table_exact sampleRows htail
  exact ⟨htail, hkey, hsymbols, hforward "mail" hkey, hreverse _ hsymbols⟩

end ServiceKeys.Registration
