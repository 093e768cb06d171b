import ServiceKeys.Proofs.Import.Item
import ServiceKeys.Proofs.Text.Lines

/-!
# Import clauses, as they are written

What stands between `import` and `from`, and what a required module is unpacked into: a default name,
a list in braces, a namespace, or a default name with one of the other two behind a comma.  Taking a
clause apart gives the names that were written into it.  Main statement: `Clause.clause_text`.
-/

namespace ServiceKeys.Import

open Text Regex

/-! ## Lists in braces -/

/-- What stands between two commas of a list: an item, or nothing behind the last comma. -/
structure Cell where
  before : Space
  item : Option Item
  after : Space

namespace Cell

def text (cell : Cell) : List Char :=
  cell.before.text ++ (cell.item.elim [] Item.text ++ cell.after.text)

def pair? (cell : Cell) : Option (Exported × String) := cell.item.map Item.pair

theorem made (cell : Cell) : Made [':'] cell.text := by
  rcases cell with ⟨before, _ | item, after⟩
  · exact (before.made _).append (after.made _)
  · exact (before.made _).append (item.made.append (after.made _))

theorem namedItem?_text (cell : Cell) : namedItem? cell.text = cell.pair? := by
  rcases cell with ⟨before, _ | item, after⟩
  · have htrim : trim (before.text ++ ([] ++ after.text)) = trim [] :=
      trim_eq before.blanks after.blanks (by simp) (by simp)
    have hnil : namedItem? [] = none := by decide
    rw [text, Option.elim_none, namedItem?, htrim]
    exact hnil
  · exact item.namedItem?_text before.blanks after.blanks

end Cell

/-- The text of a list, without the braces. -/
def body (cells : List Cell) : List Char := joinWith [','] (cells.map Cell.text)

theorem body_cons (cell next : Cell) (cells : List Cell) :
    body (cell :: next :: cells) = cell.text ++ ',' :: body (next :: cells) := by
  simp [body, joinWith]

theorem made_body (cells : List Cell) : Made [':', ','] (body cells) := by
  induction cells with
  | nil => simp [body, joinWith, Made]
  | cons cell cells ih =>
      have hcell : Made [':', ','] cell.text := cell.made.mono (by simp)
      cases cells with
      | nil => exact hcell
      | cons next cells =>
          rw [body_cons]
          exact hcell.append (Made.cons (by simp) ih)

/-- A list is read cell by cell. -/
theorem filterMap_namedItem?_body (cells : List Cell) :
    (splitOn ',' (body cells)).filterMap namedItem? = cells.filterMap Cell.pair? := by
  cases cells with
  | nil => decide
  | cons cell cells =>
      rw [body, splitOn_joinWith (by simp), List.filterMap_map]
      · exact List.filterMap_congr fun c _ => c.namedItem?_text
      · simp only [List.mem_map]
        rintro _ ⟨c, -, rfl⟩
        exact c.made.notMem (by decide)

/-- The first list in braces of a text. -/
theorem search?_braced {head inside : List Char} (hhead : '\x7b' ∉ head) (hinside : '\x7d' ∉ inside) :
    ∃ m, search? braced (head ++ '\x7b' :: (inside ++ ['\x7d'])) = some m ∧ m.first = head.length ∧
      m.group? 1 = some inside := by
  have hbody : Denotes (.span (.noneOf ['\x7d']) 0 none .greedy) _ := denotes_noneOf _ 0 (by decide)
  have hin : inside ∈ texts fun xs => (∀ c ∈ xs, c ∉ ['\x7d']) ∧ 0 ≤ xs.length :=
    ⟨fun c hc hsign => hinside (List.mem_singleton.1 hsign ▸ hc), Nat.zero_le _⟩
  have hfits : Fits braced ⟨.between head ('\x7b' :: (inside ++ ['\x7d'])), []⟩ :=
    (denotes_char _).fits_cons (show ['\x7b'] ∈ _ from rfl) (hbody.fits_group_cons hin
      ((denotes_char _).fits_cons (show ['\x7d'] ∈ _ from rfl) fits_ofList_nil))
  obtain ⟨st, hst, hm⟩ := hfits.exists_matchInside
  refine ⟨_, search?_eq_some (by simp) hm ?_, rfl, ?_⟩
  · intro l hl
    refine matchInside_eq_none (by simp; omega) ?_
    rintro front rest hcut rfl ⟨st', hst'⟩
    obtain ⟨_, rfl, more, rfl, -⟩ := (denotes_char _).mem_ends_cons.1 hst'
    -- the brace would stand in front of the first one
    rcases append_cases hcut with ⟨as, rfl, -⟩ | ⟨as, hne, rfl, hmore⟩
    · simp only [List.length_append] at hl
      omega
    · obtain ⟨c, as, rfl⟩ := List.exists_cons_of_ne_nil hne
      obtain rfl : '\x7b' = c := (List.cons.inj hmore).1
      simp at hhead
  · obtain ⟨_, rfl, _, htext, h₁⟩ := (denotes_char _).mem_ends_cons.1 hst
    obtain ⟨xs, ⟨hxs, -⟩, _, rfl, h₂⟩ := hbody.mem_ends_group_cons.1 h₁
    obtain ⟨_, rfl, more, rfl, rfl⟩ := (denotes_char _).mem_ends_between.1 h₂
    obtain ⟨rfl, -⟩ := cut_unique hinside (fun hmem => hxs _ hmem (by simp)) (List.cons.inj htext).2
    simp [Match.group?]

theorem search?_braced_eq_none {text : List Char} (h : '\x7b' ∉ text) : search? braced text = none := by
  refine search?_eq_none fun l hl => matchInside_eq_none hl ?_
  rintro front rest rfl - ⟨st, hst⟩
  obtain ⟨_, rfl, more, rfl, -⟩ := (denotes_char '\x7b').mem_ends_cons.1 hst
  simp at h

/-! ## Clauses -/

/-- What may stand behind a default import: a namespace or a list. -/
inductive Tail where
  | all (before after : Gap) (name : Name)
  | named (cells : List Cell)

namespace Tail

def text : Tail → List Char
  | .all before after name => '*' :: (before.text ++ (['a', 's'] ++ (after.text ++ name.text)))
  | .named cells => '\x7b' :: (body cells ++ ['\x7d'])

def pairs : Tail → List (Exported × String)
  | .all _ _ name => [(.all, String.ofList name.text)]
  | .named cells => cells.filterMap Cell.pair?

theorem made_all (before after : Gap) (n : Name) : Made ['*'] (text (.all before after n)) := by
  refine Made.cons (by simp) ((before.made _).append (Made.append ?_ ?_))
  · simp [Made]
    decide
  · exact (after.made _).append (n.made _)

theorem made : ∀ t : Tail, Made [':', ',', '*', '\x7b', '\x7d'] t.text
  | .all before after n => (made_all before after n).mono (by simp)
  | .named cells =>
      Made.cons (by simp) (((made_body cells).mono (by simp)).append
        (Made.cons (by simp) (by simp [Made])))

theorem head?_notBlank (t : Tail) (rest : List Char) :
    ∀ c ∈ (t.text ++ rest).head?, isBlank c = false := by
  cases t <;> simp [text] <;> decide

theorem getLast?_notBlank (t : Tail) (front : List Char) :
    ∀ c ∈ (front ++ t.text).getLast?, isBlank c = false := by
  cases t with
  | all before after n =>
      have hlast : (front ++ text (.all before after n)).getLast? = n.text.getLast? := by
        simp only [text, ← List.append_assoc, ← List.cons_append]
        exact List.getLast?_append_of_ne_nil _ n.ne_nil
      exact fun c hc => n.notBlank c (List.mem_of_getLast? (hlast ▸ hc))
  | named cells =>
      have hlast : (front ++ text (.named cells)).getLast? = some '\x7d' := by
        simp only [text, ← List.append_assoc, ← List.cons_append]
        exact List.getLast?_append_of_ne_nil _ (by simp)
      rw [hlast]
      simp
      decide

end Tail

/-- An import clause. -/
inductive Clause where
  | default (name : Name)
  | tail (t : Tail)
  /-- A default import, a comma and more. -/
  | both (name : Name) (space : Space) (t : Tail)

namespace Clause

def text : Clause → List Char
  | .default name => name.text
  | .tail t => t.text
  | .both name space t => name.text ++ ',' :: (space.text ++ t.text)

def pairs : Clause → List (Exported × String)
  | .default name => [(.default, String.ofList name.text)]
  | .tail t => t.pairs
  | .both name _ t => (.default, String.ofList name.text) :: t.pairs

end Clause

/-! ### Outside of braces -/

theorem plainItem?_blanks (space : Space) : plainItem? space.text = none := by
  have htrim : trim ([] ++ ([] ++ space.text)) = trim [] :=
    trim_eq (by simp [Blanks]) space.blanks (by simp) (by simp)
  have hnil : plainItem? [] = none := by decide
  rw [List.nil_append, List.nil_append] at htrim
  rw [plainItem?, htrim]
  exact hnil

theorem plainItem?_eq_default {item n : List Char} (hn : BareName n) (hitem : trim item = n) :
    plainItem? item = some (.default, String.ofList n) := by
  have hnone : matchStart? namespaced n = none := by
    refine matchStart?_eq_none ?_
    rintro ⟨st, hst⟩
    obtain ⟨-, h₁⟩ := mem_ends_anchor_cons.1 hst
    obtain ⟨_, rfl, more, htext, -⟩ := (denotes_char '*').mem_ends_cons.1 h₁
    exact absurd (hn.isIdentifierContinue '*' (by simp [htext])) (by decide)
  simp only [plainItem?, hitem, hnone, isIdentifier_of_bareName hn, if_true]

theorem plainItem?_name (n : Name) : plainItem? n.text = some (.default, String.ofList n.text) := by
  have hfirst := n.head?_notBlank []
  rw [List.append_nil] at hfirst
  have htrim : trim ([] ++ (n.text ++ [])) = n.text :=
    trim_eq (by simp [Blanks]) (by simp [Blanks]) hfirst
      fun c hc => n.notBlank c (List.mem_of_getLast? hc)
  rw [List.nil_append, List.append_nil] at htrim
  exact plainItem?_eq_default n.bareName htrim

theorem matchStart?_namespaced {before n : List Char} (hbefore : Blanks before) (after : Gap)
    (hn : BareName n) :
    ∃ m, matchStart? namespaced ('*' :: (before ++ (['a', 's'] ++ (after.text ++ n)))) = some m ∧
      m.group? 1 = some n := by
  have hfits : Fits namespaced
      ⟨.between [] ('*' :: (before ++ (['a', 's'] ++ (after.text ++ n)))), []⟩ := by
    refine fits_anchor_cons rfl ((denotes_char '*').fits_cons (show ['*'] ∈ _ from rfl) ?_)
    refine denotes_blanks.fits_cons hbefore ((denotes_literal _).fits_cons rfl ?_)
    exact denotes_blanks1.fits_cons ⟨after.blanks, after.ne_nil⟩ (fits_end hn)
  obtain ⟨st, hst, hm⟩ := hfits.exists_matchStart?
  refine ⟨_, hm, ?_⟩
  obtain ⟨-, h₁⟩ := mem_ends_anchor_cons.1 hst
  obtain ⟨_, rfl, _, htext, h₂⟩ := (denotes_char '*').mem_ends_cons.1 h₁
  obtain ⟨b, hb, _, rfl, h₃⟩ := denotes_blanks.mem_ends_cons.1 h₂
  obtain ⟨_, rfl, _, rfl, h₄⟩ := (denotes_literal _).mem_ends_cons.1 h₃
  obtain ⟨b', ⟨hb', -⟩, _, rfl, h₅⟩ := denotes_blanks1.mem_ends_cons.1 h₄
  obtain ⟨y, ⟨hy, hyne⟩, z, rfl, h₆⟩ := denotes_nameRun.mem_ends_group_cons.1 h₅
  obtain ⟨hend, h₇⟩ := mem_ends_anchor_cons.1 h₆
  obtain rfl := mem_ends_ofList_nil.1 h₇
  have hsign : ∀ rest, ∀ c ∈ (['a', 's'] ++ rest).head?, isBlank c = false := by
    simp
    decide
  obtain ⟨-, hafter⟩ := run_append_unique hbefore hb (hsign _) (hsign _) (List.cons.inj htext).2
  obtain rfl := eq_of_blanks_append hn hb' after.blanks hy hyne (lastLineEnd_holds_iff.1 hend)
    (List.append_cancel_left hafter).symm
  simp [Match.group?]

theorem plainItem?_eq_all {item before n : List Char} (hbefore : Blanks before) (after : Gap)
    (hn : BareName n) (hitem : trim item = '*' :: (before ++ (['a', 's'] ++ (after.text ++ n)))) :
    plainItem? item = some (.all, String.ofList n) := by
  obtain ⟨m, hm, hgroup⟩ := matchStart?_namespaced hbefore after hn
  simp only [plainItem?, hitem, hm, groupText, hgroup, Option.getD_some]

theorem plainItem?_all (space : Space) (before after : Gap) (n : Name) :
    plainItem? (space.text ++ Tail.text (.all before after n)) =
      some (.all, String.ofList n.text) := by
  have htrim : trim (space.text ++ (Tail.text (.all before after n) ++ [])) =
      Tail.text (.all before after n) := by
    have hfirst := Tail.head?_notBlank (.all before after n) []
    rw [List.append_nil] at hfirst
    exact trim_eq space.blanks (by simp [Blanks]) hfirst (Tail.getLast?_notBlank (.all before after n) [])
  rw [List.append_nil] at htrim
  exact plainItem?_eq_all before.blanks after n.bareName htrim

/-! ### Comments -/

/-- A comment begins with a slash. -/
theorem exists_slash_of_fits {front rest : List Char} (h : Fits comment ⟨.between front rest, []⟩) :
    ∃ more, rest = '/' :: more := by
  obtain ⟨st, hst⟩ := h
  rcases List.mem_append.1 hst with hst | hst
  · obtain ⟨m, hm, -⟩ := mem_ends_seq.1 hst
    obtain ⟨_, rfl, more, rfl, -⟩ := (denotes_literal _).mem_ends_between.1 hm
    exact ⟨_, rfl⟩
  · obtain ⟨_, rfl, more, rfl, -⟩ := (denotes_literal _).mem_ends_cons.1 hst
    exact ⟨_, rfl⟩

/-- A text without a slash has no comments. -/
theorem withoutComments_eq {text : List Char} (h : '/' ∉ text) : withoutComments text = text := by
  have hnone : search? comment text = none := by
    refine search?_eq_none fun l hl => matchInside_eq_none hl ?_
    rintro front rest rfl - hfits
    obtain ⟨more, rfl⟩ := exists_slash_of_fits hfits
    simp at h
  rw [withoutComments, findAll_eq_nil hnone]
  rfl

/-! ### The pairs of a clause -/

theorem clause_eq_of_noBrace {text core : List Char} (hcore : trim (withoutComments text) = core)
    (h : '\x7b' ∉ core) : clause text = (splitOn ',' core).filterMap plainItem? := by
  simp only [clause, hcore, search?_braced_eq_none h]

theorem clause_eq_of_list {text head inside : List Char}
    (hcore : trim (withoutComments text) = head ++ '\x7b' :: (inside ++ ['\x7d']))
    (hhead : '\x7b' ∉ head) (hinside : '\x7d' ∉ inside) :
    clause text = (splitOn ',' head).filterMap plainItem? ++
      (splitOn ',' inside).filterMap namedItem? := by
  obtain ⟨m, hm, hfirst, hgroup⟩ := search?_braced hhead hinside
  simp only [clause, hcore, hm, hfirst, List.take_left, hgroup, Option.getD_some]

theorem clause_eq_of_braces {text head : List Char} {cells : List Cell}
    (hcore : trim (withoutComments text) = head ++ Tail.text (.named cells)) (h : '\x7b' ∉ head) :
    clause text = (splitOn ',' head).filterMap plainItem? ++ cells.filterMap Cell.pair? := by
  rw [clause_eq_of_list hcore h ((made_body cells).notMem (by decide)), filterMap_namedItem?_body]

namespace Clause

theorem made : ∀ C : Clause, Made [':', ',', '*', '\x7b', '\x7d'] C.text
  | .default n => n.made _
  | .tail t => t.made
  | .both n space t => (n.made _).append (Made.cons (by simp) ((space.made _).append t.made))

theorem head?_notBlank (C : Clause) (rest : List Char) :
    ∀ c ∈ (C.text ++ rest).head?, isBlank c = false := by
  cases C with
  | default n => exact n.head?_notBlank rest
  | tail t => exact t.head?_notBlank rest
  | both n space t =>
      rw [text, List.append_assoc]
      exact n.head?_notBlank _

theorem getLast?_notBlank (C : Clause) : ∀ c ∈ C.text.getLast?, isBlank c = false := by
  cases C with
  | default n => exact fun c hc => n.notBlank c (List.mem_of_getLast? hc)
  | tail t => exact t.getLast?_notBlank []
  | both n space t =>
      have htext : text (.both n space t) = n.text ++ ',' :: space.text ++ t.text := by simp [text]
      rw [htext]
      exact t.getLast?_notBlank _

theorem trim_text (C : Clause) {b : List Char} (hb : Blanks b) : trim (C.text ++ b) = C.text := by
  have hfirst := C.head?_notBlank []
  rw [List.append_nil] at hfirst
  exact trim_eq (a := []) (by simp [Blanks]) hb hfirst C.getLast?_notBlank

theorem slash_notMem (C : Clause) {b : List Char} (hb : Blanks b) : '/' ∉ C.text ++ b :=
  (C.made.append (Space.made ⟨b, hb⟩ _)).notMem (by decide)

/-- Taking a clause apart that has comments and blanks around what is left of it. -/
theorem clause_eq_pairs (C : Clause) {written : List Char}
    (hcore : trim (withoutComments written) = C.text) : clause written = C.pairs := by
  have hempty : plainItem? [] = none := by decide
  cases C with
  | default n =>
      rw [clause_eq_of_noBrace hcore (n.notMem (by decide)), text, splitOn_of_notMem (n.notMem (by decide))]
      simp [plainItem?_name, pairs]
  | tail t =>
      cases t with
      | all before after n =>
          have hmade := Tail.made_all before after n
          have hitem := plainItem?_all ⟨[], by simp [Blanks]⟩ before after n
          rw [clause_eq_of_noBrace hcore (hmade.notMem (by decide)), text,
            splitOn_of_notMem (hmade.notMem (by decide))]
          rw [List.nil_append] at hitem
          rw [List.filterMap_cons_some hitem]
          rfl
      | named cells =>
          have hbraces : trim (withoutComments written) = [] ++ Tail.text (.named cells) := hcore
          rw [clause_eq_of_braces hbraces (by simp)]
          simp [splitOn, splitBy, hempty, pairs, Tail.pairs]
  | both n space t =>
      have hcut : text (.both n space t) = n.text ++ ',' :: space.text ++ t.text := by simp [text]
      have hcomma : ',' ∉ n.text := n.notMem (by decide)
      cases t with
      | all before after n' =>
          have hmade := (space.made _).append (Tail.made_all before after n')
          have hboth : Made ['*', ','] (text (.both n space (.all before after n'))) :=
            (n.made _).append (Made.cons (by simp) (hmade.mono (by simp)))
          rw [clause_eq_of_noBrace hcore (hboth.notMem (by decide)), text, splitOn_append hcomma,
            splitOn_of_notMem (hmade.notMem (by decide))]
          simp [plainItem?_name, plainItem?_all, pairs, Tail.pairs]
      | named cells =>
          have hspace : ',' ∉ space.text := (space.made []).notMem (by decide)
          have hhead : Made [','] (n.text ++ ',' :: space.text) :=
            (n.made _).append (Made.cons (by simp) (space.made _))
          rw [clause_eq_of_braces (hcore.trans hcut) (hhead.notMem (by decide)), splitOn_append hcomma,
            splitOn_of_notMem hspace]
          simp [plainItem?_name, plainItem?_blanks, pairs, Tail.pairs]

/-- **Taking a clause apart** gives the names that were written into it, in their order. -/
theorem clause_text (C : Clause) {b : List Char} (hb : Blanks b) : clause (C.text ++ b) = C.pairs :=
  C.clause_eq_pairs (by rw [withoutComments_eq (C.slash_notMem hb), C.trim_text hb])

end Clause

end ServiceKeys.Import
