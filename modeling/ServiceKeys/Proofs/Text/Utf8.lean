import Mathlib.Data.List.Basic
import Mathlib.Data.UInt
import ServiceKeys.Text.Utf8

/-!
# Reading source files

One text can be written in many ways: with any kind of line end, with a byte-order mark in front, and with
bytes strewn in that begin no character.  `Encodes` is the relation of a text to all of them.  Reading undoes
each of these layers in turn.  A stray byte is a unit of its own wherever it stands between two characters, so
decoding drops it before line ends are looked at; and a mark is dropped only where it is the mark, because
the text itself begins with none.  Main statement: `sourceText_of_encodes`.
-/

namespace ServiceKeys.Text

variable {b c d e : UInt8} {rest bs : List UInt8} {cs : List Char} {ch : Char}

/-! ## Units -/

/-- The second byte of a character of three or four bytes is within its bounds. -/
theorem isTail_secondBounds (hlo : 0x80 ≤ c.toNat) (hhi : c.toNat ≤ 0xBF)
    (hE0 : b.toNat = 0xE0 → 0xA0 ≤ c.toNat) (hED : b.toNat = 0xED → c.toNat ≤ 0x9F)
    (hF0 : b.toNat = 0xF0 → 0x90 ≤ c.toNat) (hF4 : b.toNat = 0xF4 → c.toNat ≤ 0x8F) :
    isTail (secondBounds b).1 (secondBounds b).2 c = true := by
  have hbyte : ∀ n : UInt8, (b == n) = true ↔ b.toNat = n.toNat := fun n => by
    rw [beq_iff_eq, UInt8.toNat_inj]
  rw [secondBounds]
  simp only [hbyte, isTail, Bool.and_eq_true, decide_eq_true_eq, UInt8.le_iff_toNat_le]
  split
  · exact ⟨hE0 ‹_›, hhi⟩
  split
  · exact ⟨hlo, hED ‹_›⟩
  split
  · exact ⟨hF0 ‹_›, hhi⟩
  split
  · exact ⟨hlo, hF4 ‹_›⟩
  · exact ⟨hlo, hhi⟩

/-- A byte that goes on with a character. -/
theorem isTail_iff : isTail 0x80 0xBF c = true ↔ 0x80 ≤ c.toNat ∧ c.toNat ≤ 0xBF := by
  rw [isTail, Bool.and_eq_true, decide_eq_true_eq, decide_eq_true_eq, UInt8.le_iff_toNat_le,
    UInt8.le_iff_toNat_le]
  rfl

theorem not_lt_of_toNat {n : UInt8} (h : n.toNat ≤ b.toNat) : ¬ b < n :=
  UInt8.not_lt.2 (UInt8.le_iff_toNat_le.2 h)

theorem firstUnit_one (hb : b.toNat < 0x80) : firstUnit b rest = .char (Char.ofNat b.toNat) 1 := by
  unfold firstUnit
  rw [if_pos (UInt8.lt_iff_toNat_lt.2 hb)]

theorem firstUnit_two (hb : 0xC2 ≤ b.toNat) (hb' : b.toNat < 0xE0) (hc : isTail 0x80 0xBF c = true) :
    firstUnit b (c :: rest) = .char (Char.ofNat (b.toNat % 32 * 64 + tailBits c)) 2 := by
  have h80 : ¬ b < 0x80 := not_lt_of_toNat (Nat.le_trans (by decide) hb)
  have hC2 : ¬ b < 0xC2 := not_lt_of_toNat hb
  unfold firstUnit
  rw [if_neg h80, if_neg hC2, if_pos (UInt8.lt_iff_toNat_lt.2 hb')]
  simp only [hc, if_true]

theorem firstUnit_three (hb : 0xE0 ≤ b.toNat) (hb' : b.toNat < 0xF0)
    (hc : isTail (secondBounds b).1 (secondBounds b).2 c = true) (hd : isTail 0x80 0xBF d = true) :
    firstUnit b (c :: d :: rest) =
      .char (Char.ofNat ((b.toNat % 16 * 64 + tailBits c) * 64 + tailBits d)) 3 := by
  have h80 : ¬ b < 0x80 := not_lt_of_toNat (Nat.le_trans (by decide) hb)
  have hC2 : ¬ b < 0xC2 := not_lt_of_toNat (Nat.le_trans (by decide) hb)
  have hE0 : ¬ b < 0xE0 := not_lt_of_toNat hb
  unfold firstUnit
  rw [if_neg h80, if_neg hC2, if_neg hE0, if_pos (UInt8.lt_iff_toNat_lt.2 hb')]
  simp only [hc, hd, Bool.not_true, Bool.false_eq_true, if_false, if_true]

theorem firstUnit_four (hb : 0xF0 ≤ b.toNat) (hb' : b.toNat < 0xF5)
    (hc : isTail (secondBounds b).1 (secondBounds b).2 c = true) (hd : isTail 0x80 0xBF d = true)
    (he : isTail 0x80 0xBF e = true) : firstUnit b (c :: d :: e :: rest) =
      .char (Char.ofNat (((b.toNat % 8 * 64 + tailBits c) * 64 + tailBits d) * 64 + tailBits e)) 4 := by
  have h80 : ¬ b < 0x80 := not_lt_of_toNat (Nat.le_trans (by decide) hb)
  have hC2 : ¬ b < 0xC2 := not_lt_of_toNat (Nat.le_trans (by decide) hb)
  have hE0 : ¬ b < 0xE0 := not_lt_of_toNat (Nat.le_trans (by decide) hb)
  have hF0 : ¬ b < 0xF0 := not_lt_of_toNat hb
  unfold firstUnit
  rw [if_neg h80, if_neg hC2, if_neg hE0, if_neg hF0, if_pos (UInt8.lt_iff_toNat_lt.2 hb')]
  simp only [hc, hd, he, Bool.not_true, Bool.false_eq_true, if_false, if_true]

/-! ## Characters -/

/-- A byte that goes on with a character and holds six bits. -/
def tailByte (n : Nat) : UInt8 := UInt8.ofNat (n % 64 + 128)

/-- The bound as a numeral, for `omega`. -/
theorem toNat_ofNat_of_lt {n : Nat} (h : n < 256) : (UInt8.ofNat n).toNat = n := UInt8.toNat_ofNat_of_lt' h

theorem toNat_tailByte (n : Nat) : (tailByte n).toNat = n % 64 + 128 := toNat_ofNat_of_lt (by omega)

theorem isTail_tailByte (n : Nat) : isTail 0x80 0xBF (tailByte n) = true := by
  rw [isTail_iff, toNat_tailByte]
  omega

theorem tailBits_tailByte (n : Nat) : tailBits (tailByte n) = n % 64 := by
  rw [tailBits, toNat_tailByte]
  omega

theorem firstUnit_twoBytes {v : Nat} (hlo : 127 < v) (hhi : v ≤ 2047) :
    firstUnit (UInt8.ofNat (v / 64 % 32 + 192)) (tailByte v :: rest) = .char (Char.ofNat v) 2 := by
  have hb : (UInt8.ofNat (v / 64 % 32 + 192)).toNat = v / 64 % 32 + 192 := toNat_ofNat_of_lt (by omega)
  have hbits : (v / 64 % 32 + 192) % 32 * 64 + v % 64 = v := by omega
  rw [firstUnit_two (by omega) (by omega) (isTail_tailByte v), hb, tailBits_tailByte, hbits]

theorem firstUnit_threeBytes {v : Nat} (hlo : 2047 < v) (hhi : v ≤ 65535) (hvalid : v < 0xD800 ∨ 0xDFFF < v) :
    firstUnit (UInt8.ofNat (v / 4096 % 16 + 224)) (tailByte (v / 64) :: tailByte v :: rest) =
      .char (Char.ofNat v) 3 := by
  have hb : (UInt8.ofNat (v / 4096 % 16 + 224)).toNat = v / 4096 % 16 + 224 := toNat_ofNat_of_lt (by omega)
  have hc := toNat_tailByte (v / 64)
  have hbits : ((v / 4096 % 16 + 224) % 16 * 64 + v / 64 % 64) * 64 + v % 64 = v := by omega
  have hsecond := isTail_secondBounds (b := UInt8.ofNat (v / 4096 % 16 + 224)) (c := tailByte (v / 64))
    (by omega) (by omega) (by omega) (by omega) (by omega) (by omega)
  rw [firstUnit_three (by omega) (by omega) hsecond (isTail_tailByte v), hb, tailBits_tailByte,
    tailBits_tailByte, hbits]

theorem firstUnit_fourBytes {v : Nat} (hlo : 65535 < v) (hhi : v < 0x110000) :
    firstUnit (UInt8.ofNat (v / 262144 % 8 + 240))
        (tailByte (v / 4096) :: tailByte (v / 64) :: tailByte v :: rest) = .char (Char.ofNat v) 4 := by
  have hb : (UInt8.ofNat (v / 262144 % 8 + 240)).toNat = v / 262144 % 8 + 240 := toNat_ofNat_of_lt (by omega)
  have hc := toNat_tailByte (v / 4096)
  have hbits : (((v / 262144 % 8 + 240) % 8 * 64 + v / 4096 % 64) * 64 + v / 64 % 64) * 64 + v % 64 = v := by
    omega
  have hsecond := isTail_secondBounds (b := UInt8.ofNat (v / 262144 % 8 + 240)) (c := tailByte (v / 4096))
    (by omega) (by omega) (by omega) (by omega) (by omega) (by omega)
  rw [firstUnit_four (by omega) (by omega) hsecond (isTail_tailByte (v / 64)) (isTail_tailByte v), hb,
    tailBits_tailByte, tailBits_tailByte, tailBits_tailByte, hbits]

/-- **The bytes of a character are a unit**, whatever follows. -/
theorem exists_utf8EncodeChar (ch : Char) : ∃ b bs, String.utf8EncodeChar ch = b :: bs ∧
    ∀ rest, firstUnit b (bs ++ rest) = .char ch (bs.length + 1) := by
  obtain ⟨v, hv⟩ : ∃ v, v = ch.val.toNat := ⟨_, rfl⟩
  obtain rfl : Char.ofNat v = ch := by
    rw [hv]
    exact Char.ofNat_toNat ch
  -- no character is a surrogate, and none lies behind the last plane
  have hvalid : v < 0xD800 ∨ 0xDFFF < v ∧ v < 0x110000 := hv ▸ (Char.ofNat v).valid
  simp only [String.utf8EncodeChar, ← hv]
  by_cases h1 : v ≤ 127
  · have hb : (UInt8.ofNat v).toNat = v := toNat_ofNat_of_lt (by omega)
    refine ⟨_, [], if_pos h1, fun rest => ?_⟩
    rw [List.nil_append, firstUnit_one (by omega), hb]
    rfl
  rw [if_neg h1]
  by_cases h2 : v ≤ 2047
  · exact ⟨_, [tailByte v], if_pos h2, fun rest => firstUnit_twoBytes (by omega) h2⟩
  rw [if_neg h2]
  by_cases h3 : v ≤ 65535
  · exact ⟨_, [tailByte (v / 64), tailByte v], if_pos h3,
      fun rest => firstUnit_threeBytes (by omega) h3 (hvalid.imp_right And.left)⟩
  · exact ⟨_, [tailByte (v / 4096), tailByte (v / 64), tailByte v], if_neg h3,
      fun rest => firstUnit_fourBytes (by omega) (by omega)⟩

/-! ## Decoding -/

theorem decodeLenientGo_append (bs rest : List UInt8) :
    decodeLenientGo bs.length (bs ++ rest) = decodeLenientGo 0 rest := by
  induction bs with
  | nil => rfl
  | cons b bs ih => exact ih

theorem decodeLenient_char (ch : Char) (rest : List UInt8) :
    decodeLenient (String.utf8EncodeChar ch ++ rest) = ch :: decodeLenient rest := by
  obtain ⟨b, bs, hbytes, hunit⟩ := exists_utf8EncodeChar ch
  rw [hbytes, List.cons_append, decodeLenient, decodeLenientGo, hunit rest]
  exact congrArg (ch :: ·) (decodeLenientGo_append bs rest)

/-- A byte that begins no character and goes on with none. -/
def Stray (b : UInt8) : Prop := b = 0xC0 ∨ b = 0xC1 ∨ 0xF5 ≤ b

theorem firstUnit_stray (h : Stray b) (rest : List UInt8) : firstUnit b rest = .bad 1 badStart := by
  rcases h with rfl | rfl | hb
  · rfl
  · rfl
  · have hle : (0xF5 : UInt8).toNat ≤ b.toNat := UInt8.le_iff_toNat_le.1 hb
    have h80 : ¬ b < 0x80 := not_lt_of_toNat (Nat.le_trans (by decide) hle)
    have hC2 : ¬ b < 0xC2 := not_lt_of_toNat (Nat.le_trans (by decide) hle)
    have hE0 : ¬ b < 0xE0 := not_lt_of_toNat (Nat.le_trans (by decide) hle)
    have hF0 : ¬ b < 0xF0 := not_lt_of_toNat (Nat.le_trans (by decide) hle)
    unfold firstUnit
    rw [if_neg h80, if_neg hC2, if_neg hE0, if_neg hF0, if_neg (UInt8.not_lt.2 hb)]

theorem decodeLenient_stray (h : Stray b) (rest : List UInt8) :
    decodeLenient (b :: rest) = decodeLenient rest := by
  rw [decodeLenient, decodeLenientGo, firstUnit_stray h]
  rfl

/-- The bytes of a text with stray bytes around its characters. -/
inductive Noisy : List Char → List UInt8 → Prop
  | nil : Noisy [] []
  | stray {b : UInt8} {cs : List Char} {bs : List UInt8} (hb : Stray b) (h : Noisy cs bs) : Noisy cs (b :: bs)
  | char {ch : Char} {cs : List Char} {bs : List UInt8} (h : Noisy cs bs) :
      Noisy (ch :: cs) (String.utf8EncodeChar ch ++ bs)

/-- **Decoding drops stray bytes** and nothing else. -/
theorem decodeLenient_noisy (h : Noisy cs bs) : decodeLenient bs = cs := by
  induction h with
  | nil => rfl
  | stray hb _ ih => rw [decodeLenient_stray hb, ih]
  | char _ ih => rw [decodeLenient_char, ih]

theorem toList_loop (bs : ByteArray) (i : Nat) (read : List UInt8) :
    ByteArray.toList.loop bs i read = read.reverse ++ bs.data.toList.drop i := by
  fun_induction ByteArray.toList.loop bs i read with
  | case1 i read hlt ih =>
      have hlength : i < bs.data.toList.length := by simpa using hlt
      have hbyte : bs.get! i = bs.data.toList[i] := by
        rw [Array.getElem_toList]
        exact getElem!_pos bs.data i hlt
      rw [ih, List.drop_eq_getElem_cons hlength, hbyte, List.reverse_cons, List.append_assoc]
      rfl
  | case2 i read hle =>
      have hlength : bs.data.toList.length ≤ i := by simpa using Nat.le_of_not_lt hle
      rw [List.drop_eq_nil_of_le hlength, List.append_nil]

/-- The bytes of a text are those of its characters. -/
theorem encode_eq (cs : List Char) : encode cs = cs.flatMap String.utf8EncodeChar := by
  rw [encode, String.toUTF8, String.toByteArray_ofList, List.utf8Encode, ByteArray.toList, toList_loop,
    List.data_toByteArray]
  rfl

theorem noisy_encode (cs : List Char) : Noisy cs (encode cs) := by
  rw [encode_eq]
  induction cs with
  | nil => exact .nil
  | cons ch cs ih => exact .char ih

/-! ## Byte-order marks -/

/-- The byte-order mark. -/
def byteOrderMark : List UInt8 := [0xEF, 0xBB, 0xBF]

theorem withoutMark_mark (bs : List UInt8) : withoutMark (byteOrderMark ++ bs) = bs := rfl

theorem head?_decodeLenient_mark (bs : List UInt8) :
    (decodeLenient (byteOrderMark ++ bs)).head? = some '\uFEFF' := by
  have hmark : byteOrderMark = String.utf8EncodeChar '\uFEFF' := by decide
  rw [hmark, decodeLenient_char]
  rfl

/-- There is no mark in front of bytes that decode to a text without one. -/
theorem withoutMark_eq_self (h : (decodeLenient bs).head? ≠ some '\uFEFF') : withoutMark bs = bs := by
  rw [withoutMark.eq_def]
  split
  · rename_i more
    exact absurd (head?_decodeLenient_mark more) h
  · rfl

/-! ## Line ends -/

/-- The kinds of line ends. -/
inductive LineEnd where
  | lf
  | crlf
  | cr
  deriving DecidableEq, Repr

/-- The characters of a line end. -/
def LineEnd.chars : LineEnd → List Char
  | .lf => ['\n']
  | .crlf => ['\r', '\n']
  | .cr => ['\r']

/-- A text with its line ends written in one way. -/
def LineEnd.write (e : LineEnd) (cs : List Char) : List Char :=
  cs.flatMap fun ch => if ch = '\n' then e.chars else [ch]

theorem unifyNewlines_cons (h : ch ≠ '\r') : unifyNewlines (ch :: cs) = ch :: unifyNewlines cs := by
  rw [unifyNewlines]
  · rintro _ rfl
    exact absurd rfl h
  · rintro rfl
    exact absurd rfl h

theorem unifyNewlines_cr (h : cs.head? ≠ some '\n') : unifyNewlines ('\r' :: cs) = '\n' :: unifyNewlines cs := by
  rw [unifyNewlines]
  rintro more rfl
  exact absurd rfl h

theorem LineEnd.write_cons {e : LineEnd} (h : ch ≠ '\n') : e.write (ch :: cs) = ch :: e.write cs := by
  rw [write, List.flatMap_cons, if_neg h]
  rfl

/-- Where line ends are carriage returns, there are no line feeds that would make pairs of them. -/
theorem head?_write_cr (cs : List Char) : (LineEnd.cr.write cs).head? ≠ some '\n' := by
  cases cs with
  | nil => simp [LineEnd.write]
  | cons ch cs =>
      by_cases hend : ch = '\n'
      · subst hend
        simp [LineEnd.write, LineEnd.chars]
      · rw [LineEnd.write_cons hend]
        simpa using hend

/-- **Line ends of one kind become line feeds again.** -/
theorem unifyNewlines_write (e : LineEnd) (h : '\r' ∉ cs) : unifyNewlines (e.write cs) = cs := by
  induction cs with
  | nil => rfl
  | cons ch cs ih =>
      obtain ⟨hch, hcs⟩ := not_or.1 (mt List.mem_cons.2 h)
      by_cases hend : ch = '\n'
      · subst hend
        cases e with
        | lf => exact (unifyNewlines_cons (by decide)).trans (congrArg ('\n' :: ·) (ih hcs))
        | crlf => exact congrArg ('\n' :: ·) (ih hcs)
        | cr => exact (unifyNewlines_cr (head?_write_cr cs)).trans (congrArg ('\n' :: ·) (ih hcs))
      · rw [LineEnd.write_cons hend, unifyNewlines_cons (Ne.symm hch), ih hcs]

theorem cr_notMem_unifyNewlines (cs : List Char) : '\r' ∉ unifyNewlines cs := by
  fun_induction unifyNewlines cs with
  | case1 => exact List.not_mem_nil
  | case2 cs ih => simpa using ih
  | case3 cs _ ih => simpa using ih
  | case4 ch cs _ hne ih => simpa [ih, eq_comm] using hne

theorem unifyNewlines_eq_self (h : '\r' ∉ cs) : unifyNewlines cs = cs := by
  induction cs with
  | nil => rfl
  | cons ch cs ih =>
      obtain ⟨hch, hcs⟩ := not_or.1 (mt List.mem_cons.2 h)
      rw [unifyNewlines_cons (Ne.symm hch), ih hcs]

/-! ## Source texts -/

/-- Bytes that hold a text: its line ends are written in one way, stray bytes stand around its characters, and
a byte-order mark may stand in front.  The text itself has line feeds for line ends and begins with no mark. -/
structure Encodes (cs : List Char) (bs : List UInt8) : Prop where
  unified : '\r' ∉ cs
  unmarked : cs.head? ≠ some '\uFEFF'
  written : ∃ (e : LineEnd) (noisy : List UInt8), Noisy (e.write cs) noisy ∧
    (bs = noisy ∨ bs = byteOrderMark ++ noisy)

/-- Line ends do not make a mark. -/
theorem head?_write_ne_mark (e : LineEnd) (h : cs.head? ≠ some '\uFEFF') :
    (e.write cs).head? ≠ some '\uFEFF' := by
  cases cs with
  | nil => simp [LineEnd.write]
  | cons ch cs =>
      by_cases hend : ch = '\n'
      · subst hend
        cases e <;> simp [LineEnd.write, LineEnd.chars]
      · rwa [LineEnd.write_cons hend]

/-- **Reading undoes every way of writing**: whatever bytes hold a text, the text is what is read. -/
theorem sourceText_of_encodes (h : Encodes cs bs) : sourceText bs = cs := by
  obtain ⟨e, noisy, hnoisy, hbs⟩ := h.written
  have hdecoded : decodeLenient noisy = e.write cs := decodeLenient_noisy hnoisy
  have hmark : withoutMark bs = noisy := by
    rcases hbs with rfl | rfl
    · exact withoutMark_eq_self (hdecoded ▸ head?_write_ne_mark e h.unmarked)
    · exact withoutMark_mark noisy
  rw [sourceText, hmark, hdecoded, unifyNewlines_write e h.unified]

/-- The text of a source file in a uniform encoding: line feeds, no stray bytes, and a mark in front. -/
def uniform (bs : List UInt8) : List UInt8 := byteOrderMark ++ encode (sourceText bs)

/-- The uniform encoding holds the same text. -/
theorem sourceText_uniform (bs : List UInt8) : sourceText (uniform bs) = sourceText bs := by
  have hunified : '\r' ∉ sourceText bs := cr_notMem_unifyNewlines _
  rw [uniform, sourceText, withoutMark_mark, decodeLenient_noisy (noisy_encode _),
    unifyNewlines_eq_self hunified]

end ServiceKeys.Text
