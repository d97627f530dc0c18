import MediaViews.ObjectId
import MediaViews.Proofs.Outcome

/-! Identifiers read back from the digits that they are written with, and the texts that are read as
identifiers. -/
namespace MediaViews

namespace Text

theorem hexValue?_hexDigit {n : Nat} (h : n < 16) : hexValue? (hexDigit n).toNat = some n := by
  interval_cases n <;> decide

theorem hexDigit_toNat_lt {n : Nat} (h : n < 16) : (hexDigit n).toNat < 128 := by
  interval_cases n <;> decide

theorem le_hexDigit_toNat {n : Nat} (h : n < 16) : 0x20 ≤ (hexDigit n).toNat := by
  interval_cases n <;> decide

def IsHexDigit (c : Char) : Prop :=
  ('0' ≤ c ∧ c ≤ '9') ∨ ('a' ≤ c ∧ c ≤ 'f') ∨ ('A' ≤ c ∧ c ≤ 'F')

theorem isSome_hexValue?_iff (c : Char) : (hexValue? c.toNat).isSome ↔ IsHexDigit c := by
  have hle (a b : Char) : a ≤ b ↔ a.toNat ≤ b.toNat := by
    rw [Char.le_def, UInt32.le_iff_toNat_le]
    rfl
  simp only [IsHexDigit, hle, Char.reduceToNat, hexValue?, Bool.and_eq_true, decide_eq_true_eq]
  split_ifs <;> simp_all

theorem lt_of_isSome_hexValue? {code : Nat} (h : (hexValue? code).isSome) : code < 128 := by
  rw [hexValue?] at h
  simp only [Bool.and_eq_true, decide_eq_true_eq] at h
  split_ifs at h with hdecimal hlower hupper
  · omega
  · omega
  · omega
  · cases h

end Text

namespace ObjectId

theorem utf8EncodeChar_ascii {c : Char} (h : c.toNat < 128) :
    String.utf8EncodeChar c = [UInt8.ofNat c.toNat] := by
  apply String.utf8EncodeChar_eq_singleton
  rw [Char.utf8Size_eq_one_iff, UInt32.le_iff_toNat_le]
  exact Nat.lt_succ_iff.1 h

theorem utf8_hexPair (b : UInt8) :
    (Text.hexPair b).flatMap String.utf8EncodeChar =
      [UInt8.ofNat (Text.hexDigit (b.toNat / 16)).toNat,
        UInt8.ofNat (Text.hexDigit (b.toNat % 16)).toNat] := by
  have hb := b.toNat_lt
  have hhigh : b.toNat / 16 < 16 := by omega
  have hlow : b.toNat % 16 < 16 := by omega
  simp only [Text.hexPair, List.flatMap_cons, List.flatMap_nil,
    utf8EncodeChar_ascii (Text.hexDigit_toNat_lt hhigh),
    utf8EncodeChar_ascii (Text.hexDigit_toNat_lt hlow)]
  rfl

theorem hexValue?_byte {n : Nat} (h : n < 16) :
    Text.hexValue? (UInt8.ofNat (Text.hexDigit n).toNat).toNat = some n := by
  have hlt := Text.hexDigit_toNat_lt h
  rw [UInt8.toNat_ofNat_of_lt' (hlt.trans (by decide)), Text.hexValue?_hexDigit h]

theorem decodePairs_pairs (bytes : List UInt8) (position : Nat) :
    decodePairs position ((bytes.flatMap Text.hexPair).flatMap String.utf8EncodeChar) =
      .ok bytes := by
  induction bytes generalizing position with
  | nil => rfl
  | cons b bytes ih =>
    have hb := b.toNat_lt
    have hhigh : b.toNat / 16 < 16 := by omega
    have hlow : b.toNat % 16 < 16 := by omega
    rw [List.flatMap_cons, List.flatMap_append, utf8_hexPair]
    simp only [List.cons_append, List.nil_append, decodePairs, hexValue?_byte hhigh,
      hexValue?_byte hlow, ih]
    rw [Nat.div_add_mod, UInt8.ofNat_toNat]

theorem length_utf8_toHex (id : ObjectId) : (utf8Bytes id.toHex).length = 24 := by
  have hpairs (bytes : List UInt8) :
      ((bytes.flatMap Text.hexPair).flatMap String.utf8EncodeChar).length = 2 * bytes.length := by
    induction bytes with
    | nil => rfl
    | cons b bytes ih =>
      rw [List.flatMap_cons, List.flatMap_append, utf8_hexPair, List.length_append, ih,
        List.length_cons]
      simp only [List.length_cons, List.length_nil]
      omega
  rw [utf8Bytes, toHex, String.toList_ofList, hpairs, id.length_bytes]

theorem parse_eq_ok_iff {text : String} {id : ObjectId} :
    parse text = .ok id ↔
      (utf8Bytes text).length = 24 ∧ decodePairs 0 (utf8Bytes text) = .ok id.bytes := by
  obtain ⟨idBytes, hbytes⟩ := id
  unfold parse
  dsimp only
  split
  · next hlength =>
    split
    · next bytes hpairs =>
      have hsame : decodePairs 0 (utf8Bytes text) = .ok idBytes ↔ bytes = idBytes := by
        rw [hpairs, Except.ok.injEq]
      rw [hsame, Except.ok.injEq, ObjectId.mk.injEq, and_iff_right hlength]
    · next fault hpairs => simp [hpairs]
  · next hlength => simp [hlength]

theorem parse_eq_error_iff {text : String} {e : ObjectIdError} :
    parse text = .error e ↔ e.value = text ∧
      ((utf8Bytes text).length ≠ 24 ∧ e.fault = .length (utf8Bytes text).length ∨
        (utf8Bytes text).length = 24 ∧ decodePairs 0 (utf8Bytes text) = .error e.fault) := by
  obtain ⟨value, fault⟩ := e
  unfold parse
  dsimp only
  split
  · next hlength =>
    split
    · next bytes hpairs => simp [hlength, hpairs]
    · next fault' hpairs => simp [hlength, hpairs, eq_comm]
  · next hlength => simp [hlength, eq_comm]

theorem parse_toHex (id : ObjectId) : parse id.toHex = .ok id := by
  refine parse_eq_ok_iff.2 ⟨length_utf8_toHex id, ?_⟩
  rw [utf8Bytes, toHex, String.toList_ofList]
  exact decodePairs_pairs id.bytes 0

theorem toHex_injective {a b : ObjectId} (h : a.toHex = b.toHex) : a = b := by
  have hparse : parse a.toHex = parse b.toHex := congrArg parse h
  rw [parse_toHex, parse_toHex] at hparse
  exact Except.ok.inj hparse

theorem exists_parseAll {values : List String}
    (h : ∀ value ∈ values, ∃ id, parse value = .ok id) : ∃ ids, parseAll values = .ok ids :=
  Outcome.exists_mapM_eq_ok_iff.2 h

/-! Digits are ASCII, so a text of 24 bytes that are digits is one of 24 characters. -/

theorem exists_high_byte {c : Char} (h : 128 ≤ c.toNat) :
    ∃ b ∈ String.utf8EncodeChar c, 128 ≤ b.toNat := by
  refine ⟨UInt8.ofNat (c.toNat % 64 + 128), ?_, ?_⟩
  · have hval : c.val.toNat = c.toNat := rfl
    unfold String.utf8EncodeChar
    rw [hval]
    dsimp only
    split_ifs with hone
    · omega
    all_goals simp
  · have hsize : UInt8.size = 256 := rfl
    rw [UInt8.toNat_ofNat_of_lt' (by omega)]
    exact Nat.le_add_left 128 _

theorem forall_byte_iff (c : Char) :
    (∀ b ∈ String.utf8EncodeChar c, (Text.hexValue? b.toNat).isSome) ↔ Text.IsHexDigit c := by
  rw [← Text.isSome_hexValue?_iff]
  by_cases hc : c.toNat < 128
  · have hbyte : (UInt8.ofNat c.toNat).toNat = c.toNat :=
      UInt8.toNat_ofNat_of_lt' (hc.trans (by decide))
    rw [utf8EncodeChar_ascii hc]
    simp [hbyte]
  · constructor
    · intro h
      obtain ⟨b, hb, hhigh⟩ := exists_high_byte (not_lt.1 hc)
      exact absurd (Text.lt_of_isSome_hexValue? (h b hb)) (not_lt.2 hhigh)
    · intro h
      exact absurd (Text.lt_of_isSome_hexValue? h) hc

theorem exists_decodePairs_iff {position : Nat} {text : List UInt8} (h : 2 ∣ text.length) :
    (∃ bytes, decodePairs position text = .ok bytes) ↔
      ∀ b ∈ text, (Text.hexValue? b.toNat).isSome := by
  fun_induction decodePairs position text with
  | case1 position high low rest hhigh => simp [hhigh]
  | case2 position high low rest _ hhigh hlow => simp [hlow]
  | case3 position high low rest _ hhigh l hlow fault hrest ih =>
    have hdvd : 2 ∣ rest.length := by simpa using h
    simpa [hhigh, hlow, hrest] using ih hdvd
  | case4 position high low rest _ hhigh l hlow bytes hrest ih =>
    have hdvd : 2 ∣ rest.length := by simpa using h
    simpa [hhigh, hlow, hrest] using ih hdvd
  | case5 text position hshort =>
    match text with
    | [] => simp
    | [b] => simp at h
    | high :: low :: rest => exact (hshort high low rest rfl).elim

def IsHexText (text : String) : Prop :=
  text.toList.length = 24 ∧ ∀ c ∈ text.toList, Text.IsHexDigit c

theorem length_utf8Bytes_of_hex {text : String} (h : ∀ c ∈ text.toList, Text.IsHexDigit c) :
    (utf8Bytes text).length = text.toList.length := by
  have hone : ∀ c ∈ text.toList, (String.utf8EncodeChar c).length = 1 := by
    intro c hc
    have hdigit := (Text.isSome_hexValue?_iff c).2 (h c hc)
    rw [utf8EncodeChar_ascii (Text.lt_of_isSome_hexValue? hdigit), List.length_singleton]
  rw [utf8Bytes, List.length_flatMap, List.map_congr_left hone]
  simp

theorem exists_parse_iff (text : String) : (∃ id, parse text = .ok id) ↔ IsHexText text := by
  have hbytes : (∀ b ∈ utf8Bytes text, (Text.hexValue? b.toNat).isSome) ↔
      ∀ c ∈ text.toList, Text.IsHexDigit c := by
    simp only [utf8Bytes, List.forall_mem_flatMap, forall_byte_iff]
  have hparse : (∃ id, parse text = .ok id) ↔ (utf8Bytes text).length = 24 ∧
      ∃ bytes, decodePairs 0 (utf8Bytes text) = .ok bytes := by
    simp only [parse_eq_ok_iff]
    constructor
    · rintro ⟨id, hlength, hpairs⟩
      exact ⟨hlength, id.bytes, hpairs⟩
    · rintro ⟨hlength, bytes, hpairs⟩
      exact ⟨⟨bytes, by rw [length_of_decodePairs hpairs, hlength]⟩, hlength, hpairs⟩
  rw [hparse, IsHexText]
  constructor
  · rintro ⟨hlength, hpairs⟩
    have hdigits := hbytes.1 ((exists_decodePairs_iff ⟨12, hlength⟩).1 hpairs)
    exact ⟨(length_utf8Bytes_of_hex hdigits).symm.trans hlength, hdigits⟩
  · rintro ⟨hlength, hdigits⟩
    have hsize := (length_utf8Bytes_of_hex hdigits).trans hlength
    exact ⟨hsize, (exists_decodePairs_iff ⟨12, hsize⟩).2 (hbytes.2 hdigits)⟩

end ObjectId
end MediaViews
