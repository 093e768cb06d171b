import ServiceKeys.Proofs.Import.Item
import ServiceKeys.Declaration

/-!
# Declarations, as they are written

What may stand in front of the symbol on a line that declares it.  An *opening* is made of keywords
with blanks between them; a *listing* is an opened list of exports, up to the symbol.  A line declares
a symbol when it is one of them behind an indentation, then the symbol, then something that does not go
on with a name (`Declares`), and these are exactly the lines that fit one of the shapes
(`declares_iff`).

Between the word `function` and the symbol nothing at all need stand: such an opening is *glued* to the
symbol, and every other one ends in a blank or a star.
-/

namespace ServiceKeys.Declaration

open Text Regex
open Import (Space Gap Loose)

/-! ## Keywords and what stands between them -/

/-- A word with blanks behind it, or nothing. -/
def modifier (w : String) : Option Gap → List Char
  | none => []
  | some gap => w.toList ++ gap.text

/-- The words that declare a variable. -/
inductive VariableKind where
  | constWord
  | letWord
  | varWord

def VariableKind.text : VariableKind → List Char
  | constWord => "const".toList
  | letWord => "let".toList
  | varWord => "var".toList

/-- The star of a generator, or nothing. -/
def starText (star : Bool) : List Char := if star then ['*'] else []

/-- What stands between the word `function` and a symbol. -/
structure FunctionGap where
  before : Space
  star : Bool
  after : Space

def FunctionGap.text (gap : FunctionGap) : List Char :=
  gap.before.text ++ (starText gap.star ++ gap.after.text)

/-! ## Openings -/

/-- What stands between the indentation of a line and the symbol that it declares. -/
inductive Opening where
  /-- `export [declare] const` -/
  | exportedVariable (gap : Gap) (declare : Option Gap) (kind : VariableKind) (last : Gap)
  /-- `export [default] [declare] [async] function[*]` -/
  | exportedFunction (gap : Gap) (default declare async : Option Gap) (last : FunctionGap)
  /-- `export [default] [declare] [abstract] class` -/
  | exportedClass (gap : Gap) (default declare abstract : Option Gap) (last : Gap)
  /-- `export default` -/
  | exportedDefault (gap last : Gap)
  /-- `const` -/
  | localVariable (kind : VariableKind) (last : Gap)
  /-- `[async] function[*]` -/
  | localFunction (async : Option Gap) (last : FunctionGap)
  /-- `[abstract] class` -/
  | localClass (abstract : Option Gap) (last : Gap)

namespace Opening

def text : Opening → List Char
  | exportedVariable gap declare kind last =>
    "export".toList ++ (gap.text ++ (modifier "declare" declare ++ (kind.text ++ last.text)))
  | exportedFunction gap default declare async last =>
    "export".toList ++ (gap.text ++ (modifier "default" default ++ (modifier "declare" declare ++
      (modifier "async" async ++ ("function".toList ++ last.text)))))
  | exportedClass gap default declare abstract last =>
    "export".toList ++ (gap.text ++ (modifier "default" default ++ (modifier "declare" declare ++
      (modifier "abstract" abstract ++ ("class".toList ++ last.text)))))
  | exportedDefault gap last =>
    "export".toList ++ (gap.text ++ ("default".toList ++ last.text))
  | localVariable kind last => kind.text ++ last.text
  | localFunction async last => modifier "async" async ++ ("function".toList ++ last.text)
  | localClass abstract last => modifier "abstract" abstract ++ ("class".toList ++ last.text)

/-- Nothing stands between the word `function` and the symbol. -/
def Glued : Opening → Prop
  | exportedFunction _ _ _ _ last | localFunction _ last => last.text = []
  | _ => False

end Opening

/-! ## Listings -/

/-- An opened list of exports, up to a place that does not go on from a name. -/
structure Listing where
  before : Space
  /-- The blanks behind the word `type`, if it is there. -/
  typed : Option Space
  names : List Char
  opened : '\x7d' ∉ names
  clear : ∀ c ∈ names.getLast?, isIdentifierContinue c = false

/-- The word `type` with blanks behind it, if there are any, or nothing. -/
def typeText : Option Space → List Char
  | none => []
  | some space => "type".toList ++ space.text

/-- The text of a list of exports that is still open. -/
def listingText (before : Space) (typed : Option Space) (names : List Char) : List Char :=
  "export".toList ++ (before.text ++ (typeText typed ++ (['\x7b'] ++ names)))

def Listing.text (l : Listing) : List Char := listingText l.before l.typed l.names

/-! ## Lines that declare a symbol -/

/-- A symbol stands between two texts as a whole word: no name goes on into it, and none goes on from
it. -/
def WordBetween (symbol front text : List Char) : Prop :=
  (∀ c ∈ front.getLast?, isIdentifierContinue c = false) ∧ ∃ rest, text = symbol ++ rest ∧ Loose rest

/-- **A line declares a symbol**: behind an indentation stands an opening or a listing, then the symbol,
and then nothing that goes on with its name. -/
def Declares (symbol line : List Char) : Prop :=
  ∃ (indent : Space) (rest : List Char), Loose rest ∧
    ((∃ o : Opening, line = indent.text ++ (o.text ++ (symbol ++ rest))) ∨
      ∃ l : Listing, line = indent.text ++ (l.text ++ (symbol ++ rest)))

/-- A line begins with `export default`, whatever is exported. -/
def OpensDefault (line : List Char) : Prop :=
  ∃ (indent : Space) (gap : Gap) (rest : List Char), (∀ c ∈ rest.head?, isWord c = false) ∧
    line = indent.text ++ ("export".toList ++ (gap.text ++ ("default".toList ++ rest)))

/-! ## The parts, as patterns -/

theorem denotes_space : Denotes blanks (written Space.text) := by
  apply denotes_blanks.congr
  intro xs
  constructor
  · intro hxs
    exact ⟨⟨xs, hxs⟩, rfl⟩
  · rintro ⟨space, rfl⟩
    exact space.blanks

theorem denotes_gap : Denotes blanks1 (written fun gap : Gap => gap.text) := by
  apply denotes_blanks1.congr
  intro xs
  constructor
  · rintro ⟨hblanks, hne⟩
    exact ⟨⟨⟨xs, hblanks⟩, hne⟩, rfl⟩
  · rintro ⟨gap, rfl⟩
    exact ⟨gap.blanks, gap.ne_nil⟩

/-- A pattern that may be left out writes what it writes, or nothing. -/
theorem denotes_maybe_written {α : Type} {f : α → List Char} {g : Option α → List Char} {r : Regex}
    (h : Denotes r (written f)) (hnone : g none = []) (hsome : ∀ a, g (some a) = f a) :
    Denotes (maybe r) (written g) := by
  apply (denotes_maybe h).congr
  intro xs
  simp only [Language.mem_add, mem_written, Language.mem_one, Option.exists, hnone, hsome]
  rw [or_comm, eq_comm]

theorem denotes_optional (w : String) : Denotes (optional w) (written (modifier w)) := by
  have hword : Denotes (ofList [word w, blanks1]) (written fun gap : Gap => w.toList ++ gap.text) :=
    denotes_literal_cons _ denotes_gap
  exact denotes_maybe_written hword rfl fun _ => rfl

theorem denotes_typeText : Denotes (maybe (.seq (word "type") blanks)) (written typeText) := by
  have hword : Denotes (ofList [word "type", blanks])
      (written fun space : Space => "type".toList ++ space.text) :=
    denotes_literal_cons _ denotes_space
  exact denotes_maybe_written hword rfl fun _ => rfl

theorem denotes_variableWord : Denotes variableWord (written VariableKind.text) := by
  apply (denotes_alt (denotes_literal _) (denotes_alt (denotes_literal _) (denotes_literal _))).congr
  intro xs
  simp only [Language.mem_add, mem_texts]
  constructor
  · rintro (rfl | rfl | rfl)
    · exact ⟨.constWord, rfl⟩
    · exact ⟨.letWord, rfl⟩
    · exact ⟨.varWord, rfl⟩
  · rintro ⟨_ | _ | _, rfl⟩
    · exact Or.inl rfl
    · exact Or.inr (Or.inl rfl)
    · exact Or.inr (Or.inr rfl)

theorem denotes_starText : Denotes (maybe (.char '*')) (written starText) := by
  apply (denotes_maybe (denotes_char '*')).congr
  intro xs
  simp only [Language.mem_add, mem_texts, Language.mem_one, mem_written, Bool.exists_bool, starText,
    Bool.false_eq_true, if_false, if_true]
  rw [or_comm, eq_comm, @eq_comm _ xs]

theorem denotes_functionWord :
    Denotes (ofList functionWord) (written fun gap : FunctionGap => "function".toList ++ gap.text) := by
  apply (denotes_literal_cons _ (denotes_written_cons denotes_space
    (denotes_written_cons denotes_starText (denotes_written_singleton denotes_space)))).congr
  intro xs
  constructor
  · rintro ⟨⟨before, star, after⟩, rfl⟩
    exact ⟨⟨before, star, after⟩, rfl⟩
  · rintro ⟨⟨before, star, after⟩, rfl⟩
    exact ⟨⟨before, star, after⟩, rfl⟩

/-! ## The shapes, as patterns -/

section Fits

variable {symbol front text line : List Char} {caps : List (Nat × Capture)}

theorem clear_iff_loose {rest : List Char} : Clear (.wordOr ['$']) rest ↔ Loose rest := by
  simp only [Clear, Loose, CharSet.accepts_nameChar]

theorem mem_ends_nameEnd {st : State} :
    st ∈ ends (nameEnd symbol) ⟨.between front text, caps⟩ ↔
      ∃ rest, text = symbol ++ rest ∧ Loose rest ∧ st = ⟨.between (front ++ symbol) rest, caps⟩ := by
  show st ∈ ends (ofList [.literal symbol, notBefore (.wordOr ['$'])]) _ ↔ _
  rw [(denotes_literal symbol).mem_ends_cons]
  simp only [mem_texts, exists_eq_left]
  refine exists_congr fun rest => and_congr_right fun _ => ?_
  show st ∈ ends (notBefore _) _ ↔ _
  rw [mem_ends_notBefore, clear_iff_loose, and_comm]
  rfl

/-- The end of a declaration: the symbol, and then nothing that goes on with its name. -/
theorem fits_nameEnd_iff : Fits (nameEnd symbol) ⟨.between front text, caps⟩ ↔
    ∃ rest, text = symbol ++ rest ∧ Loose rest := by
  simp only [Fits, mem_ends_nameEnd]
  constructor
  · rintro ⟨_, rest, htext, hrest, -⟩
    exact ⟨rest, htext, hrest⟩
  · rintro ⟨rest, htext, hrest⟩
    exact ⟨_, rest, htext, hrest, rfl⟩

/-- A symbol as a whole word: no name goes on into it either. -/
theorem fits_wholeName_iff : Fits (wholeName symbol) ⟨.between front text, caps⟩ ↔
    WordBetween symbol front text := by
  have hname : Fits (wholeName symbol) ⟨.between front text, caps⟩ ↔
      (∀ c ∈ front.getLast?, isIdentifierContinue c = false) ∧
        Fits (nameEnd symbol) ⟨.between front text, caps⟩ := by
    simp only [Fits, wholeName, mem_ends_seq, mem_ends_notAfter, clear_between,
      CharSet.accepts_nameChar]
    constructor
    · rintro ⟨st, _, ⟨rfl, hfront⟩, hst⟩
      exact ⟨hfront, st, hst⟩
    · rintro ⟨hfront, st, hst⟩
      exact ⟨st, _, ⟨rfl, hfront⟩, hst⟩
  rw [hname, fits_nameEnd_iff, WordBetween]

/-- **A shape** is an indentation, something written, and a symbol. -/
theorem fits_shape_iff {α : Type} {fronts : List Regex} {f : α → List Char} {last : Regex}
    (h : Denotes (ofList fronts) (written f)) :
    Fits (ofList (.anchor .textStart :: blanks :: (fronts ++ [last]))) ⟨.between [] line, []⟩ ↔
      ∃ (indent : Space) (a : α) (text : List Char), line = indent.text ++ (f a ++ text) ∧
        Fits last ⟨.between (indent.text ++ f a) text, []⟩ := by
  have hstart : Anchor.holds .textStart (.between [] line) = true := rfl
  simp only [Fits, mem_ends_anchor_cons, hstart, true_and, denotes_space.mem_ends_cons,
    mem_ends_ofList_append, h.mem_ends_between, mem_written, List.nil_append]
  constructor
  · rintro ⟨st, _, ⟨indent, rfl⟩, _, rfl, _, ⟨_, ⟨a, rfl⟩, text, rfl, rfl⟩, hst⟩
    exact ⟨indent, a, text, rfl, st, hst⟩
  · rintro ⟨indent, a, text, rfl, st, hst⟩
    exact ⟨st, _, ⟨indent, rfl⟩, _, rfl, _, ⟨_, ⟨a, rfl⟩, text, rfl, rfl⟩, hst⟩

end Fits

/-! ## The shapes, as openings -/

theorem denotes_exportedVariable :
    Denotes (ofList [word "export", blanks1, optional "declare", variableWord, blanks1])
      (written fun p : Gap × Option Gap × VariableKind × Gap =>
        (Opening.exportedVariable p.1 p.2.1 p.2.2.1 p.2.2.2).text) :=
  denotes_literal_cons _ (denotes_written_cons denotes_gap
    (denotes_written_cons (denotes_optional _) (denotes_written_cons denotes_variableWord
      (denotes_written_singleton denotes_gap))))

theorem denotes_exportedFunction :
    Denotes (ofList ([word "export", blanks1, optional "default", optional "declare",
        optional "async"] ++ functionWord))
      (written fun p : Gap × Option Gap × Option Gap × Option Gap × FunctionGap =>
        (Opening.exportedFunction p.1 p.2.1 p.2.2.1 p.2.2.2.1 p.2.2.2.2).text) :=
  denotes_literal_cons _ (denotes_written_cons denotes_gap
    (denotes_written_cons (denotes_optional _) (denotes_written_cons (denotes_optional _)
      (denotes_written_cons (denotes_optional _) denotes_functionWord))))

theorem denotes_exportedClass :
    Denotes (ofList [word "export", blanks1, optional "default", optional "declare",
        optional "abstract", word "class", blanks1])
      (written fun p : Gap × Option Gap × Option Gap × Option Gap × Gap =>
        (Opening.exportedClass p.1 p.2.1 p.2.2.1 p.2.2.2.1 p.2.2.2.2).text) :=
  denotes_literal_cons _ (denotes_written_cons denotes_gap
    (denotes_written_cons (denotes_optional _) (denotes_written_cons (denotes_optional _)
      (denotes_written_cons (denotes_optional _)
        (denotes_literal_cons _ (denotes_written_singleton denotes_gap))))))

theorem denotes_exportedDefault :
    Denotes (ofList [word "export", blanks1, word "default", blanks1])
      (written fun p : Gap × Gap => (Opening.exportedDefault p.1 p.2).text) :=
  denotes_literal_cons _ (denotes_written_cons denotes_gap
    (denotes_literal_cons _ (denotes_written_singleton denotes_gap)))

theorem denotes_localVariable :
    Denotes (ofList [variableWord, blanks1])
      (written fun p : VariableKind × Gap => (Opening.localVariable p.1 p.2).text) :=
  denotes_written_cons denotes_variableWord (denotes_written_singleton denotes_gap)

theorem denotes_localFunction :
    Denotes (ofList (optional "async" :: functionWord))
      (written fun p : Option Gap × FunctionGap => (Opening.localFunction p.1 p.2).text) :=
  denotes_written_cons (denotes_optional _) denotes_functionWord

theorem denotes_localClass :
    Denotes (ofList [optional "abstract", word "class", blanks1])
      (written fun p : Option Gap × Gap => (Opening.localClass p.1 p.2).text) :=
  denotes_written_cons (denotes_optional _)
    (denotes_literal_cons _ (denotes_written_singleton denotes_gap))

/-- The names of an opened list, closed or not in front of the symbol. -/
theorem denotes_listing :
    Denotes (ofList [word "export", blanks, maybe (.seq (word "type") blanks), .char '\x7b',
        .span (.noneOf ['\x7d']) 0 none .greedy])
      (written fun p : Space × Option Space × {names : List Char // '\x7d' ∉ names} =>
        listingText p.1 p.2.1 p.2.2.1) := by
  have hnames : Denotes (.span (.noneOf ['\x7d']) 0 none .greedy)
      (written fun names : {names : List Char // '\x7d' ∉ names} => names.1) := by
    apply (denotes_noneOf ['\x7d'] 0 (by decide)).congr
    intro xs
    simp only [mem_texts, Nat.zero_le, and_true, mem_written, Subtype.exists, exists_prop,
      exists_eq_right, List.mem_singleton]
    exact ⟨fun h hmem => h _ hmem rfl, fun h c hc heq => h (heq ▸ hc)⟩
  exact denotes_literal_cons _ (denotes_written_cons denotes_space
    (denotes_written_cons denotes_typeText
      (denotes_literal_cons ['\x7b'] (denotes_written_singleton hnames))))

/-! ## Declarations fit the shapes, and nothing else does -/

section Declares

variable {symbol line : List Char}

/-- A line fits one of the shapes. -/
def FitsShape (symbol line : List Char) : Prop :=
  ∃ s ∈ shapes symbol, Fits s.2 ⟨.between [] line, []⟩

theorem fitsShape_getElem? (i : Nat) {α : Type} {fronts : List Regex} {f : α → List Char}
    {label : String} {last : Regex} {text : List Char} {indent : Space}
    (hi : (shapes symbol)[i]? =
      some (label, ofList (.anchor .textStart :: blanks :: (fronts ++ [last]))))
    (h : Denotes (ofList fronts) (written f)) (a : α)
    (hlast : Fits last ⟨.between (indent.text ++ f a) text, []⟩) :
    FitsShape symbol (indent.text ++ (f a ++ text)) :=
  ⟨_, List.mem_of_getElem? hi, (fits_shape_iff h).2 ⟨indent, a, text, rfl, hlast⟩⟩

theorem fitsShape_opening (indent : Space) (o : Opening) {rest : List Char} (hrest : Loose rest) :
    FitsShape symbol (indent.text ++ (o.text ++ (symbol ++ rest))) := by
  have hname : ∀ {front}, Fits (nameEnd symbol) ⟨.between front (symbol ++ rest), []⟩ :=
    fits_nameEnd_iff.2 ⟨rest, rfl, hrest⟩
  cases o with
  | exportedVariable gap declare kind last =>
      exact fitsShape_getElem? 0 rfl denotes_exportedVariable ⟨gap, declare, kind, last⟩ hname
  | exportedFunction gap default declare async last =>
      exact fitsShape_getElem? 1 rfl denotes_exportedFunction ⟨gap, default, declare, async, last⟩ hname
  | exportedClass gap default declare abstract last =>
      exact fitsShape_getElem? 2 rfl denotes_exportedClass ⟨gap, default, declare, abstract, last⟩ hname
  | exportedDefault gap last => exact fitsShape_getElem? 3 rfl denotes_exportedDefault ⟨gap, last⟩ hname
  | localVariable kind last => exact fitsShape_getElem? 4 rfl denotes_localVariable ⟨kind, last⟩ hname
  | localFunction async last => exact fitsShape_getElem? 5 rfl denotes_localFunction ⟨async, last⟩ hname
  | localClass abstract last => exact fitsShape_getElem? 6 rfl denotes_localClass ⟨abstract, last⟩ hname

/-- A list of exports ends in a character of a name only if its names do: a brace is none. -/
theorem clear_listing_iff (indent before : Space) (typed : Option Space) (names : List Char) :
    (∀ c ∈ (indent.text ++ listingText before typed names).getLast?, isIdentifierContinue c = false) ↔
      ∀ c ∈ names.getLast?, isIdentifierContinue c = false := by
  have hbrace : isIdentifierContinue '\x7b' = false := by decide
  have hlast : (indent.text ++ listingText before typed names).getLast? =
      ('\x7b' :: names).getLast? := by
    show (indent.text ++ ("export".toList ++ (before.text ++ (typeText typed ++
      ('\x7b' :: names))))).getLast? = _
    rw [List.getLast?_append, List.getLast?_append, List.getLast?_append, List.getLast?_append,
      List.getLast?_cons]
    rfl
  rw [hlast]
  cases names with
  | nil => simp [hbrace]
  | cons c names => rw [List.getLast?_cons_cons]

theorem fitsShape_listing (indent : Space) (l : Listing) {rest : List Char} (hrest : Loose rest) :
    FitsShape symbol (indent.text ++ (l.text ++ (symbol ++ rest))) := by
  have hclear := (clear_listing_iff indent l.before l.typed l.names).2 l.clear
  exact fitsShape_getElem? 7 rfl denotes_listing ⟨l.before, l.typed, l.names, l.opened⟩
    (fits_wholeName_iff.2 ⟨hclear, rest, rfl, hrest⟩)

theorem declares_of_fits {α : Type} {fronts : List Regex} {f : α → List Char}
    (h : Denotes (ofList fronts) (written f)) (hf : ∀ a, ∃ o : Opening, o.text = f a)
    (hfits : Fits (ofList (.anchor .textStart :: blanks :: (fronts ++ [nameEnd symbol])))
      ⟨.between [] line, []⟩) : Declares symbol line := by
  obtain ⟨indent, a, text, rfl, hname⟩ := (fits_shape_iff h).1 hfits
  obtain ⟨rest, rfl, hrest⟩ := fits_nameEnd_iff.1 hname
  obtain ⟨o, ho⟩ := hf a
  exact ⟨indent, rest, hrest, Or.inl ⟨o, by rw [ho]⟩⟩

/-- **The lines that declare a symbol** are those that fit one of its shapes. -/
theorem declares_iff : Declares symbol line ↔ FitsShape symbol line := by
  constructor
  · rintro ⟨indent, rest, hrest, ⟨o, rfl⟩ | ⟨l, rfl⟩⟩
    · exact fitsShape_opening indent o hrest
    · exact fitsShape_listing indent l hrest
  · intro h
    simp only [FitsShape, shapes, List.exists_mem_cons_iff] at h
    rcases h with h | h | h | h | h | h | h | h | h
    · exact declares_of_fits denotes_exportedVariable (fun p => ⟨_, rfl⟩) h
    · exact declares_of_fits denotes_exportedFunction (fun p => ⟨_, rfl⟩) h
    · exact declares_of_fits denotes_exportedClass (fun p => ⟨_, rfl⟩) h
    · exact declares_of_fits denotes_exportedDefault (fun p => ⟨_, rfl⟩) h
    · exact declares_of_fits denotes_localVariable (fun p => ⟨_, rfl⟩) h
    · exact declares_of_fits denotes_localFunction (fun p => ⟨_, rfl⟩) h
    · exact declares_of_fits denotes_localClass (fun p => ⟨_, rfl⟩) h
    · obtain ⟨indent, ⟨before, typed, names, hopened⟩, text, rfl, hname⟩ :=
        (fits_shape_iff denotes_listing).1 h
      obtain ⟨hclear, rest, rfl, hrest⟩ := fits_wholeName_iff.1 hname
      rw [clear_listing_iff] at hclear
      exact ⟨indent, rest, hrest, Or.inr ⟨⟨before, typed, names, hopened, hclear⟩, rfl⟩⟩
    · simp at h

/-- Whether a line declares a symbol is decided by trying the shapes. -/
instance : Decidable (Declares symbol line) :=
  decidable_of_iff ((shapes symbol).any fun s => (matchStart? s.2 line).isSome) (by
    rw [declares_iff, FitsShape, List.any_eq_true]
    simp only [isSome_matchStart?_iff])

/-- **The lines that begin with `export default`** are those that fit the shape of a default export. -/
theorem opensDefault_iff : OpensDefault line ↔ Fits bareDefault ⟨.between [] line, []⟩ := by
  have hwords : Denotes (ofList [word "export", blanks1, word "default"])
      (written fun p : Gap × Unit => "export".toList ++ (p.1.text ++ "default".toList)) :=
    denotes_literal_cons _ (denotes_written_cons denotes_gap
      (denotes_written_singleton (denotes_written_literal _)))
  -- the word `default` ends in a letter, so the edge of a word is behind it if none goes on from it
  have hedge : ∀ (indent : Space) (gap : Gap) (rest : List Char),
      Fits (.anchor (.wordEdge false false))
          ⟨.between (indent.text ++ ("export".toList ++ (gap.text ++ "default".toList))) rest, []⟩ ↔
        ∀ c ∈ rest.head?, isWord c = false := by
    intro indent gap rest
    have hlast : (indent.text ++ ("export".toList ++ (gap.text ++ "default".toList))).getLast? =
        some 't' := by
      rw [List.getLast?_append, List.getLast?_append, List.getLast?_append]
      rfl
    have hletter : (some 't').any isWord = true := by decide
    rw [fits_anchor_iff, wordEdge_holds_iff, hlast, hletter]
    cases rest <;> simp
  have hshape : Fits bareDefault ⟨.between [] line, []⟩ ↔ _ := fits_shape_iff hwords
  rw [hshape]
  constructor
  · rintro ⟨indent, gap, rest, hrest, rfl⟩
    refine ⟨indent, (gap, ()), rest, ?_, (hedge indent gap rest).2 hrest⟩
    rw [List.append_assoc, List.append_assoc]
  · rintro ⟨indent, ⟨gap, ⟨⟩⟩, rest, rfl, hrest⟩
    refine ⟨indent, gap, rest, (hedge indent gap rest).1 hrest, ?_⟩
    rw [List.append_assoc, List.append_assoc]

instance : Decidable (OpensDefault line) :=
  decidable_of_iff ((matchStart? bareDefault line).isSome = true)
    (isSome_matchStart?_iff.trans opensDefault_iff.symm)

end Declares

end ServiceKeys.Declaration
