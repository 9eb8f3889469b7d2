import Tributary.Proofs.Filing
import Tributary.Proofs.Occurrences

/-!
# Searching the bytes of a text

A phrase of ASCII characters is found in the UTF-8 bytes of a text just where it is found in its
characters, for no other character has one of its bytes (`offset?_utf8`). So the offsets that such a
search gives never lie inside a character (`isValid_of_append`).
-/

namespace Tributary.Text

/-- The bytes of characters. -/
def utf8 (s : List Char) : List UInt8 := s.flatMap String.utf8EncodeChar

def IsAscii (c : Char) : Prop := c.toNat < 128

instance : DecidablePred IsAscii := fun c => inferInstanceAs (Decidable (c.toNat < 128))

/-- The one byte of an ASCII character. -/
def byte (c : Char) : UInt8 := UInt8.ofNat c.toNat

/-- The offset of the first place where a phrase stands in bytes. -/
def offset? (phrase : List UInt8) : List UInt8 → Option Nat
  | [] => if phrase = [] then some 0 else none
  | b :: rest =>
    if phrase.isPrefixOf (b :: rest) then some 0 else (offset? phrase rest).map (· + 1)

variable {phrase s t : List Char} {c d : Char}

/-! ## Bytes -/

theorem toUTF8_toList (s : String) : s.toUTF8.toList = utf8 s.toList := by
  rw [toList_byteArray, String.toUTF8_eq_toByteArray, ← String.utf8Encode_toList]
  exact List.toList_data_toByteArray

@[simp] theorem utf8_nil : utf8 [] = [] := rfl

@[simp] theorem utf8_cons : utf8 (c :: s) = String.utf8EncodeChar c ++ utf8 s := rfl

@[simp] theorem utf8_append : utf8 (s ++ t) = utf8 s ++ utf8 t := List.flatMap_append

theorem encode_of_isAscii (h : IsAscii c) : String.utf8EncodeChar c = [byte c] := by
  have small : c.val.toNat ≤ 127 := Nat.le_of_lt_succ h
  rw [String.utf8EncodeChar]
  exact if_pos small

theorem encode_ne_nil (c : Char) : String.utf8EncodeChar c ≠ [] := by
  rw [← List.length_pos_iff, String.length_utf8EncodeChar]
  exact c.utf8Size_pos

theorem toNat_byte (h : IsAscii c) : (byte c).toNat = c.toNat := by
  rw [byte, UInt8.toNat_ofNat', Nat.mod_eq_of_lt (Nat.lt_trans h (by decide))]

theorem byte_inj (hc : IsAscii c) (hd : IsAscii d) : byte c = byte d ↔ c = d := by
  constructor
  · intro h
    have same := congrArg UInt8.toNat h
    rw [toNat_byte hc, toNat_byte hd] at same
    exact Char.toNat_inj.1 same
  · rintro rfl
    rfl

theorem le_of_mem_encode (h : ¬ IsAscii d) {b : UInt8} (mem : b ∈ String.utf8EncodeChar d) :
    128 ≤ b.toNat := by
  have large : ¬ d.val.toNat ≤ 127 := fun small => h (Nat.lt_succ_of_le small)
  simp only [String.utf8EncodeChar, if_neg large] at mem
  split at mem
  · simp only [List.mem_cons, List.not_mem_nil, or_false] at mem
    rcases mem with rfl | rfl <;> simp only [UInt8.toNat_ofNat'] <;> omega
  split at mem
  · simp only [List.mem_cons, List.not_mem_nil, or_false] at mem
    rcases mem with rfl | rfl | rfl <;> simp only [UInt8.toNat_ofNat'] <;> omega
  · simp only [List.mem_cons, List.not_mem_nil, or_false] at mem
    rcases mem with rfl | rfl | rfl | rfl <;> simp only [UInt8.toNat_ofNat'] <;> omega

/-- A character that is not ASCII has no byte of one that is. -/
theorem byte_not_mem_encode (hc : IsAscii c) (hd : ¬ IsAscii d) :
    byte c ∉ String.utf8EncodeChar d := by
  intro mem
  have high := le_of_mem_encode hd mem
  rw [toNat_byte hc] at high
  exact absurd hc (Nat.not_lt.2 high)

/-! ## Searching -/

/-- The bytes of a text begin with those of an ASCII phrase if the text begins with the phrase. -/
theorem prefix_utf8_iff (ascii : ∀ c ∈ phrase, IsAscii c) :
    utf8 phrase <+: utf8 s ↔ phrase <+: s := by
  induction phrase generalizing s with
  | nil => simp
  | cons c phrase ih =>
    obtain ⟨here, ascii⟩ := List.forall_mem_cons.1 ascii
    rw [utf8_cons, encode_of_isAscii here, List.singleton_append]
    cases s with
    | nil => simp
    | cons d s =>
      by_cases plain : IsAscii d
      · rw [utf8_cons, encode_of_isAscii plain, List.singleton_append, List.cons_prefix_cons,
          List.cons_prefix_cons, ih ascii, byte_inj here plain]
      · have other : c ≠ d := fun same => plain (same ▸ here)
        obtain ⟨b, more, encoded⟩ := List.exists_cons_of_ne_nil (encode_ne_nil d)
        have apart : byte c ≠ b := fun same =>
          byte_not_mem_encode here plain (by simp [encoded, same])
        rw [utf8_cons, encoded, List.cons_append, List.cons_prefix_cons, List.cons_prefix_cons]
        simp [other, apart]

/-- Bytes that do not begin a phrase are passed over. -/
theorem offset?_append {b : UInt8} {more front rest : List UInt8} (absent : b ∉ front) :
    offset? (b :: more) (front ++ rest) = (offset? (b :: more) rest).map (· + front.length) := by
  induction front with
  | nil => simp
  | cons x front ih =>
    obtain ⟨other, absent⟩ := not_or.1 (mt List.mem_cons.2 absent)
    have elsewhere : ¬ (b :: more).isPrefixOf (x :: (front ++ rest)) := by simp [other]
    rw [List.cons_append, offset?, if_neg elsewhere, ih absent, Option.map_map]
    rfl

/-- The search on bytes finds what the search on characters finds. -/
theorem offset?_utf8 (nonempty : phrase ≠ []) (ascii : ∀ c ∈ phrase, IsAscii c) :
    offset? (utf8 phrase) (utf8 s) = (cut? phrase s).map fun cut => (utf8 cut.1).length := by
  obtain ⟨c, more, rfl⟩ := List.exists_cons_of_ne_nil nonempty
  have here : IsAscii c := ascii c List.mem_cons_self
  have bytes : utf8 (c :: more) = byte c :: utf8 more := by
    rw [utf8_cons, encode_of_isAscii here, List.singleton_append]
  induction s with
  | nil => simp [bytes, offset?, cut?]
  | cons d s ih =>
    obtain ⟨b, tail, encoded⟩ := List.exists_cons_of_ne_nil (encode_ne_nil d)
    have absent : byte c ∉ tail := by
      intro mem
      by_cases plain : IsAscii d
      · obtain ⟨-, rfl⟩ := List.cons.inj (encoded.symm.trans (encode_of_isAscii plain))
        cases mem
      · exact byte_not_mem_encode here plain (encoded ▸ List.mem_cons_of_mem b mem)
    have begins : (utf8 (c :: more)).isPrefixOf (b :: (tail ++ utf8 s)) ↔
        (c :: more).isPrefixOf (d :: s) := by
      rw [List.isPrefixOf_iff_prefix, List.isPrefixOf_iff_prefix, ← prefix_utf8_iff ascii,
        utf8_cons (s := s), encoded, List.cons_append]
    rw [utf8_cons (c := d), encoded, List.cons_append, offset?, cut?]
    by_cases start : (c :: more).isPrefixOf (d :: s)
    · rw [if_pos (begins.2 start), if_pos start]
      rfl
    · rw [if_neg (mt begins.1 start), if_neg start, bytes, offset?_append absent, ← bytes, ih]
      simp only [Option.map_map]
      congr 1
      funext cut
      simp [encoded]
      omega

theorem getLast?_utf8 (here : IsAscii c) :
    (utf8 s).getLast? = some (byte c) ↔ s.getLast? = some c := by
  rcases List.eq_nil_or_concat' s with rfl | ⟨front, d, rfl⟩
  · simp
  · rw [utf8_append, utf8_cons, utf8_nil, List.append_nil,
      List.getLast?_append_of_ne_nil _ (encode_ne_nil d), List.getLast?_concat]
    by_cases plain : IsAscii d
    · simp [encode_of_isAscii plain, byte_inj plain here]
    · have other : d ≠ c := fun same => plain (same ▸ here)
      have absent : (String.utf8EncodeChar d).getLast? ≠ some (byte c) := fun last =>
        byte_not_mem_encode here plain (List.mem_of_getLast? last)
      simp [other, absent]

/-- What stands before a cut ends between two characters. -/
theorem isValid_of_append {text : String} (h : text.toList = s ++ t) :
    String.Pos.Raw.IsValid text ⟨(utf8 s).length⟩ := by
  rw [String.Pos.Raw.isValid_iff_exists_append]
  refine ⟨String.ofList s, String.ofList t, ?_, ?_⟩
  · rw [← String.ofList_append, ← h, String.ofList_toList]
  · have bytes := congrArg List.length (toUTF8_toList (String.ofList s))
    rw [toList_byteArray, String.toList_ofList] at bytes
    rw [← bytes]
    rfl

end Tributary.Text
