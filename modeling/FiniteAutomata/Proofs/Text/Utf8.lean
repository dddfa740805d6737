import FiniteAutomata.Text.Utf8
import Mathlib.Data.List.Infix
import Mathlib.Tactic.SplitIfs

/-! # Decoding what was encoded

Every text comes back from its bytes: each character takes the bytes that spell it
(`decodeFrom_encode`), so that decoding is a left inverse of encoding (`decode_encode`). A byte
order mark is the spelling of one character. Decoding with a mark drops it where it stands in front
of the bytes (`decodeMarked_mark`), and drops nothing from a text that does not start with that
character (`decodeMarked_encode`). -/

namespace FiniteAutomata.Text

/-- The bytes that spell a text. -/
def encode (s : List Char) : List Nat := (s.flatMap String.utf8EncodeChar).map UInt8.toNat

/-- The character of the byte order mark. -/
def mark : Char := '\ufeff'

theorem encode_cons (c : Char) (s : List Char) :
    encode (c :: s) = (String.utf8EncodeChar c).map UInt8.toNat ++ encode s := by
  simp [encode]

/-! ### Bytes of a character -/

/-- The first bytes of the characters of three bytes. -/
theorem ofFirst?_three (start : Nat) {b : Nat} (hlow : 0xE0 ≤ b) (hhigh : b < 0xF0) :
    Pending.ofFirst? start b = some ⟨start, b, b - 0xE0, 2, if b = 0xE0 then 0xA0 else 0x80,
      if b = 0xED then 0x9F else 0xBF⟩ := by
  rw [Pending.ofFirst?, if_neg (by omega), if_neg (by omega), if_neg (by omega)]
  by_cases hfirst : b = 0xE0
  · simp [hfirst]
  by_cases hsurrogates : b = 0xED
  · simp [hsurrogates]
  · simp [hfirst, hsurrogates, hhigh]

/-- The first bytes of the characters of four bytes. -/
theorem ofFirst?_four (start : Nat) {b : Nat} (hlow : 0xF0 ≤ b) (hhigh : b ≤ 0xF4) :
    Pending.ofFirst? start b = some ⟨start, b, b - 0xF0, 3, if b = 0xF0 then 0x90 else 0x80,
      if b = 0xF4 then 0x8F else 0xBF⟩ := by
  rw [Pending.ofFirst?, if_neg (by omega), if_neg (by omega), if_neg (by omega),
    if_neg (by omega), if_neg (by omega), if_neg (by omega)]
  by_cases hfirst : b = 0xF0
  · simp [hfirst]
  by_cases hlast : b = 0xF4
  · simp [hlast]
  · simp [hfirst, hlast, show b < 0xF4 by omega]

/-- A first byte that is not the only one of its character. -/
theorem decodeFrom_first {position b : Nat} {p : Pending} (rest : List Nat)
    (h : Pending.ofFirst? position b = some p) (hmissing : p.missing ≠ 0) :
    decodeFrom position none (b :: rest) = decodeFrom (position + 1) (some p) rest := by
  simp [decodeFrom, takeByte, h, hmissing]

/-- A continuation byte within bounds that is not the last one of its character. -/
theorem decodeFrom_next {position b : Nat} {p : Pending} (rest : List Nat)
    (h : p.low ≤ b ∧ b ≤ p.high) (hmissing : 1 < p.missing) :
    decodeFrom position (some p) (b :: rest) = decodeFrom (position + 1)
      (some { p with bits := p.bits * 64 + (b - 0x80), missing := p.missing - 1, low := 0x80,
                     high := 0xBF }) rest := by
  have hmore : p.missing - 1 ≠ 0 := by omega
  simp [decodeFrom, takeByte, Pending.next?, h, hmore]

/-- The last continuation byte of a character. -/
theorem decodeFrom_last {position b : Nat} {p : Pending} (rest : List Nat)
    (h : p.low ≤ b ∧ b ≤ p.high) (hmissing : p.missing = 1) :
    decodeFrom position (some p) (b :: rest) =
      (decodeFrom (position + 1) none rest).map (Char.ofNat (p.bits * 64 + (b - 0x80)) :: ·) := by
  simp [decodeFrom, takeByte, Pending.next?, h, hmissing]

/-- How many bytes a character takes, and which ones. -/
theorem map_utf8EncodeChar (c : Char) : (String.utf8EncodeChar c).map UInt8.toNat =
    if c.toNat ≤ 0x7F then [c.toNat]
    else if c.toNat ≤ 0x7FF then [c.toNat / 64 + 0xC0, c.toNat % 64 + 0x80]
    else if c.toNat ≤ 0xFFFF then
      [c.toNat / 4096 + 0xE0, c.toNat / 64 % 64 + 0x80, c.toNat % 64 + 0x80]
    else [c.toNat / 262144 + 0xF0, c.toNat / 4096 % 64 + 0x80, c.toNat / 64 % 64 + 0x80,
      c.toNat % 64 + 0x80] := by
  have hvalid : c.toNat < 0xD800 ∨ 0xDFFF < c.toNat ∧ c.toNat < 0x110000 := c.valid
  have hval : c.val.toNat = c.toNat := rfl
  simp only [String.utf8EncodeChar, hval]
  by_cases hone : c.toNat ≤ 0x7F
  · simp only [hone, if_true, List.map_cons, List.map_nil, UInt8.toNat_ofNat', List.cons.injEq,
      and_true]
    omega
  by_cases htwo : c.toNat ≤ 0x7FF
  · simp only [hone, htwo, if_true, if_false, List.map_cons, List.map_nil, UInt8.toNat_ofNat',
      List.cons.injEq, and_true]
    omega
  by_cases hthree : c.toNat ≤ 0xFFFF
  · simp only [hone, htwo, hthree, if_true, if_false, List.map_cons, List.map_nil,
      UInt8.toNat_ofNat', List.cons.injEq, and_true]
    omega
  · simp only [hone, htwo, hthree, if_false, List.map_cons, List.map_nil, UInt8.toNat_ofNat',
      List.cons.injEq, and_true]
    omega

/-! ### Texts -/

/-- **A character takes the bytes that spell it.** -/
theorem decodeFrom_encode (position : Nat) (c : Char) (rest : List Nat) :
    ∃ next, decodeFrom position none ((String.utf8EncodeChar c).map UInt8.toNat ++ rest) =
      (decodeFrom next none rest).map (c :: ·) := by
  have hvalid : c.toNat < 0xD800 ∨ 0xDFFF < c.toNat ∧ c.toNat < 0x110000 := c.valid
  rw [map_utf8EncodeChar]
  have hchar : ∀ n, n = c.toNat → Char.ofNat n = c := fun n hn => hn ▸ Char.ofNat_toNat c
  generalize c.toNat = v at hvalid hchar
  split_ifs with hone htwo hthree <;> simp only [List.cons_append, List.nil_append]
  · have hfirst : Pending.ofFirst? position v = some ⟨position, v, v, 0, 0x80, 0xBF⟩ :=
      if_pos (by omega)
    refine ⟨position + 1, ?_⟩
    simp [decodeFrom, takeByte, hfirst, hchar v rfl]
  · have hfirst : Pending.ofFirst? position (v / 64 + 0xC0) =
        some ⟨position, v / 64 + 0xC0, v / 64 + 0xC0 - 0xC0, 1, 0x80, 0xBF⟩ := by
      rw [Pending.ofFirst?, if_neg (by omega), if_neg (by omega), if_pos (by omega)]
    refine ⟨position + 1 + 1, ?_⟩
    rw [decodeFrom_first _ hfirst (by simp), decodeFrom_last _ (by dsimp only; omega) rfl,
      hchar _ (by dsimp only; omega)]
  · have hfirst := ofFirst?_three position (b := v / 4096 + 0xE0) (by omega) (by omega)
    refine ⟨position + 1 + 1 + 1, ?_⟩
    rw [decodeFrom_first _ hfirst (by simp),
      decodeFrom_next _ (by dsimp only; split_ifs <;> omega) (by dsimp only; omega),
      decodeFrom_last _ (by dsimp only; omega) rfl, hchar _ (by dsimp only; omega)]
  · have hfirst := ofFirst?_four position (b := v / 262144 + 0xF0) (by omega) (by omega)
    refine ⟨position + 1 + 1 + 1 + 1, ?_⟩
    rw [decodeFrom_first _ hfirst (by simp),
      decodeFrom_next _ (by dsimp only; split_ifs <;> omega) (by dsimp only; omega),
      decodeFrom_next _ (by dsimp only; omega) (by dsimp only; omega),
      decodeFrom_last _ (by dsimp only; omega) rfl, hchar _ (by dsimp only; omega)]

theorem decodeFrom_none_encode : ∀ (s : List Char) (position : Nat),
    decodeFrom position none (encode s) = .ok s
  | [], _ => rfl
  | c :: s, position => by
    obtain ⟨next, hnext⟩ := decodeFrom_encode position c (encode s)
    rw [encode_cons, hnext, decodeFrom_none_encode s next]
    rfl

/-- **Every text comes back from its bytes.** -/
theorem decode_encode (s : List Char) : decode (encode s) = .ok s := decodeFrom_none_encode s 0

/-- Decoding drops a mark in front of a text. -/
theorem decodeMarked_mark (s : List Char) : decodeMarked (byteOrderMark ++ encode s) = .ok s := by
  have hmarked : byteOrderMark.isPrefixOf (byteOrderMark ++ encode s) = true := by
    rw [List.isPrefixOf_iff_prefix]
    exact List.prefix_append _ _
  rw [decodeMarked, if_pos hmarked]
  exact decode_encode s

/-- Decoding drops nothing from a text that does not start with a mark. -/
theorem decodeMarked_encode {s : List Char} (h : s.head? ≠ some mark) :
    decodeMarked (encode s) = .ok s := by
  have hs := decode_encode s
  unfold decodeMarked
  split_ifs with hmarked hshort
  · -- bytes that start with a mark spell a text that starts with one
    obtain ⟨rest, hrest⟩ := List.isPrefixOf_iff_prefix.mp hmarked
    obtain ⟨next, hnext⟩ := decodeFrom_encode 0 mark rest
    have hbytes : (String.utf8EncodeChar mark).map UInt8.toNat = byteOrderMark := rfl
    rw [hbytes, hrest] at hnext
    rw [decode, hnext] at hs
    cases hd : decodeFrom next none rest with
    | error e => rw [hd] at hs; cases hs
    | ok t =>
      rw [hd] at hs
      cases hs
      exact absurd rfl h
  · -- the beginning of a mark spells nothing, unless it is empty
    have hinits : byteOrderMark.inits = [[], [0xEF], [0xEF, 0xBB], byteOrderMark] := rfl
    have hmem := (List.mem_inits _ _).mpr (List.isPrefixOf_iff_prefix.mp hshort)
    simp only [hinits, List.mem_cons, List.not_mem_nil, or_false] at hmem
    rcases hmem with hb | hb | hb | hb
    · rw [hb] at hs
      exact hs
    · rw [hb] at hs
      cases hs
    · rw [hb] at hs
      cases hs
    · exact absurd (by rw [hb]; rfl) hmarked
  · exact hs

/-! ### Arrays of bytes -/

theorem toList_loop (bytes : ByteArray) (i : Nat) (taken : List UInt8) :
    ByteArray.toList.loop bytes i taken = taken.reverse ++ bytes.data.toList.drop i := by
  have hsize : bytes.size = bytes.data.toList.length := rfl
  induction hn : bytes.size - i generalizing i taken with
  | zero =>
    have hi : ¬ i < bytes.size := by omega
    have hdrop : bytes.data.toList.drop i = [] := List.drop_eq_nil_of_le (by omega)
    rw [ByteArray.toList.loop, if_neg hi, hdrop, List.append_nil]
  | succ n ih =>
    have hi : i < bytes.size := by omega
    have hget : bytes.get! i = bytes.data.toList[i] := getElem!_pos bytes.data i hi
    have hdrop :
        bytes.data.toList.drop i = bytes.data.toList[i] :: bytes.data.toList.drop (i + 1) :=
      List.drop_eq_getElem_cons (hsize ▸ hi)
    rw [ByteArray.toList.loop, if_pos hi, ih _ _ (by omega), hdrop, hget, List.reverse_cons,
      List.append_assoc, List.singleton_append]

theorem toList_eq (bytes : ByteArray) : bytes.toList = bytes.data.toList := toList_loop bytes 0 []

/-- The bytes of a text in an array. -/
theorem toList_toUTF8 (text : String) :
    text.toUTF8.toList.map UInt8.toNat = encode text.toList := by
  have hbytes : text.toUTF8 = text.toList.utf8Encode := String.utf8Encode_toList.symm
  rw [toList_eq, hbytes, List.utf8Encode, List.data_toByteArray, List.toList_toArray, encode]

theorem toList_append (bytes bytes' : ByteArray) :
    (bytes ++ bytes').toList = bytes.toList ++ bytes'.toList := by
  simp [toList_eq, ByteArray.data_append]

/-- **A file that holds a mark and the bytes of a text** is read as the text, with its line ends
written as line feeds. -/
theorem readMarkedBytes_mark (text : String) :
    readMarkedBytes (⟨#[0xEF, 0xBB, 0xBF]⟩ ++ text.toUTF8) =
      .ok (String.ofList (unifyNewlines text.toList)) := by
  have hbytes : (⟨#[0xEF, 0xBB, 0xBF]⟩ ++ text.toUTF8 : ByteArray).toList.map UInt8.toNat =
      byteOrderMark ++ encode text.toList := by
    rw [toList_append, List.map_append, toList_toUTF8, toList_eq]
    rfl
  rw [readMarkedBytes, hbytes, decodeMarked_mark]
  rfl

/-- **A file that holds the bytes of a text** is read likewise, unless the text starts with the
character of the mark. -/
theorem readMarkedBytes_toUTF8 {text : String} (h : text.toList.head? ≠ some mark) :
    readMarkedBytes text.toUTF8 = .ok (String.ofList (unifyNewlines text.toList)) := by
  rw [readMarkedBytes, toList_toUTF8, decodeMarked_encode h]
  rfl

end FiniteAutomata.Text
