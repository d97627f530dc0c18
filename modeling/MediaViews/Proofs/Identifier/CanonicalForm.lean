import MediaViews.Proofs.Identifier
import MediaViews.Proofs.Outcome
import MediaViews.Proofs.Text.ByteOrder

/-! The one written form of an identifier. A text that is read is written in lower case, identifiers
stand in the order of what they are written as, and what is refused is refused for the first byte
that is at fault. -/
namespace MediaViews

namespace Text

theorem of_ascii {P : Char → Prop} (hall : ∀ code < 128, P (Char.ofNat code)) {c : Char}
    (h : c.toNat < 128) : P c := by
  have hc := hall c.toNat h
  rwa [Char.ofNat_toNat] at hc

theorem hexDigit_of_hexValue? {c : Char} {n : Nat} (h : hexValue? c.toNat = some n) :
    n < 16 ∧ hexDigit n = c.toLower := by
  have hlt : c.toNat < 128 := lt_of_isSome_hexValue? (h ▸ rfl)
  have hvalue : ∀ value ∈ hexValue? c.toNat, value < 16 ∧ hexDigit value = c.toLower :=
    of_ascii (P := fun c => ∀ value ∈ hexValue? c.toNat, value < 16 ∧ hexDigit value = c.toLower)
      (by decide +kernel) hlt
  exact hvalue n h

theorem isHexDigit_toLower (c : Char) : IsHexDigit c.toLower ↔ IsHexDigit c := by
  rw [← isSome_hexValue?_iff, ← isSome_hexValue?_iff]
  by_cases hupper : c.isUpper
  · have hlt : c.toNat < 128 := by
      simp only [Char.isUpper, decide_eq_true_eq] at hupper
      have hle : c.toNat ≤ 90 := UInt32.le_iff_toNat_le.1 hupper.2
      omega
    exact of_ascii (P := fun c => (hexValue? c.toLower.toNat).isSome ↔ (hexValue? c.toNat).isSome)
      (by decide +kernel) hlt
  · rw [Char.toLower_eq_of_not_isUpper hupper]

theorem hexPair_ofNat {h l : Nat} (hh : h < 16) (hl : l < 16) :
    hexPair (UInt8.ofNat (16 * h + l)) = [hexDigit h, hexDigit l] := by
  have hbyte : (UInt8.ofNat (16 * h + l)).toNat = 16 * h + l :=
    UInt8.toNat_ofNat_of_lt' (by change _ < 256; omega)
  have hhigh : (16 * h + l) / 16 = h := by omega
  have hlow : (16 * h + l) % 16 = l := by omega
  rw [hexPair, hbyte, hhigh, hlow]

theorem hexPair_lt_hexPair {b d : UInt8} (h : b < d) (xs ys : List Char) :
    hexPair b ++ xs < hexPair d ++ ys := by
  have hdigits : ∀ m < 16, ∀ n < 16, m < n → hexDigit m < hexDigit n := by decide +kernel
  have hlt : b.toNat < d.toNat := UInt8.lt_iff_toNat_lt.1 h
  have hd : d.toNat < 256 := d.toNat_lt
  change hexDigit (b.toNat / 16) :: hexDigit (b.toNat % 16) :: xs <
    hexDigit (d.toNat / 16) :: hexDigit (d.toNat % 16) :: ys
  rw [List.cons_lt_cons_iff, List.cons_lt_cons_iff]
  rcases Nat.lt_or_eq_of_le (Nat.div_le_div_right hlt.le : b.toNat / 16 ≤ d.toNat / 16) with
    hhigh | hhigh
  · exact .inl (hdigits _ (by omega) _ (by omega) hhigh)
  · exact .inr ⟨congrArg hexDigit hhigh, .inl (hdigits _ (by omega) _ (by omega) (by omega))⟩

end Text

namespace ObjectId

open Text (IsHexDigit)

theorem flatMap_hexPair_of_decodePairs : ∀ {cs : List Char} {bytes : List UInt8} {position : Nat},
    (∀ c ∈ cs, IsHexDigit c) → 2 ∣ cs.length →
    decodePairs position (cs.flatMap String.utf8EncodeChar) = .ok bytes →
    bytes.flatMap Text.hexPair = cs.map Char.toLower
  | [], bytes, _, _, _, h => by
    obtain rfl : [] = bytes := Except.ok.inj h
    rfl
  | [_], _, _, _, heven, _ => by simp at heven
  | high :: low :: rest, bytes, position, hdigits, heven, h => by
    obtain ⟨hhigh, hlow, hrest⟩ : IsHexDigit high ∧ IsHexDigit low ∧ ∀ c ∈ rest, IsHexDigit c := by
      simpa using hdigits
    have hdvd : 2 ∣ rest.length := by simpa using heven
    obtain ⟨m, hm⟩ := Option.isSome_iff_exists.1 ((Text.isSome_hexValue?_iff high).2 hhigh)
    obtain ⟨n, hn⟩ := Option.isSome_iff_exists.1 ((Text.isSome_hexValue?_iff low).2 hlow)
    have hhighByte : Text.hexValue? (UInt8.ofNat high.toNat).toNat = some m := by
      rw [UInt8.toNat_ofNat_of_lt' ((Text.lt_of_isSome_hexValue? (hm ▸ rfl)).trans (by decide)), hm]
    have hlowByte : Text.hexValue? (UInt8.ofNat low.toNat).toNat = some n := by
      rw [UInt8.toNat_ofNat_of_lt' ((Text.lt_of_isSome_hexValue? (hn ▸ rfl)).trans (by decide)), hn]
    rw [List.flatMap_cons, List.flatMap_cons,
      utf8EncodeChar_ascii (Text.lt_of_isSome_hexValue? (hm ▸ rfl)),
      utf8EncodeChar_ascii (Text.lt_of_isSome_hexValue? (hn ▸ rfl))] at h
    simp only [List.cons_append, List.nil_append, decodePairs, hhighByte, hlowByte] at h
    split at h
    · cases h
    · next others hothers =>
      obtain rfl := Except.ok.inj h
      obtain ⟨hm16, hhighDigit⟩ := Text.hexDigit_of_hexValue? hm
      obtain ⟨hn16, hlowDigit⟩ := Text.hexDigit_of_hexValue? hn
      rw [List.flatMap_cons, Text.hexPair_ofNat hm16 hn16, hhighDigit, hlowDigit,
        flatMap_hexPair_of_decodePairs hrest hdvd hothers]
      rfl

theorem toHex_of_parse {text : String} {id : ObjectId} (h : parse text = .ok id) :
    id.toHex = text.toLower := by
  obtain ⟨hlength, hdigits⟩ := (exists_parse_iff text).1 ⟨id, h⟩
  have hpairs : decodePairs 0 (utf8Bytes text) = .ok id.bytes := (parse_eq_ok_iff.1 h).2
  apply String.toList_injective
  rw [toHex, String.toList_ofList, String.toLower, String.toList_map]
  exact flatMap_hexPair_of_decodePairs hdigits ⟨12, hlength⟩ hpairs

theorem isHexText_of_toLower_eq {text other : String} (h : text.toLower = other.toLower)
    (hother : IsHexText other) : IsHexText text := by
  obtain ⟨hlength, hdigits⟩ := hother
  have hlists : text.toList.map Char.toLower = other.toList.map Char.toLower := by
    rw [← String.toList_map, ← String.toList_map]
    exact congrArg String.toList h
  constructor
  · have hlengths : text.toList.length = other.toList.length := by
      simpa using congrArg List.length hlists
    rw [hlengths, hlength]
  · intro c hc
    have hmem : c.toLower ∈ other.toList.map Char.toLower := hlists ▸ List.mem_map_of_mem hc
    obtain ⟨d, hd, hsame⟩ := List.mem_map.1 hmem
    rw [← Text.isHexDigit_toLower, ← hsame, Text.isHexDigit_toLower]
    exact hdigits d hd

theorem parse_eq_ok_iff_toHex {text : String} {id : ObjectId} :
    parse text = .ok id ↔ IsHexText text ∧ id.toHex = text.toLower := by
  constructor
  · intro h
    exact ⟨(exists_parse_iff text).1 ⟨id, h⟩, toHex_of_parse h⟩
  · rintro ⟨hhex, hlower⟩
    obtain ⟨read, hread⟩ := (exists_parse_iff text).2 hhex
    have hsame : read.toHex = id.toHex := (toHex_of_parse hread).trans hlower.symm
    rw [hread, toHex_injective hsame]

theorem exists_parse_both_iff (text other : String) :
    (∃ id, parse text = .ok id ∧ parse other = .ok id) ↔
      IsHexText text ∧ text.toLower = other.toLower := by
  simp only [parse_eq_ok_iff_toHex]
  constructor
  · rintro ⟨id, ⟨hhex, htext⟩, -, hother⟩
    exact ⟨hhex, htext.symm.trans hother⟩
  · rintro ⟨hhex, hsame⟩
    obtain ⟨id, hid⟩ := (exists_parse_iff text).2 hhex
    have htext : id.toHex = text.toLower := toHex_of_parse hid
    exact ⟨id, ⟨hhex, htext⟩, isHexText_of_toLower_eq hsame.symm hhex, htext.trans hsame⟩

theorem lt_iff_toHex_lt {a b : ObjectId} : a < b ↔ utf8Bytes a.toHex < utf8Bytes b.toHex := by
  rw [Text.utf8Bytes_lt_iff, String.lt_iff_toList_lt, toHex, toHex, String.toList_ofList,
    String.toList_ofList]
  exact (Text.flatMap_lt_flatMap_iff (fun _ => List.cons_ne_nil _ _)
    fun _ _ => Text.hexPair_lt_hexPair).symm

def IsHexByte (b : UInt8) : Prop := IsHexDigit (Char.ofNat b.toNat)

theorem isHexByte_iff (b : UInt8) : IsHexByte b ↔ (Text.hexValue? b.toNat).isSome := by
  have hb : b.toNat < 256 := b.toNat_lt
  have hcode : (Char.ofNat b.toNat).toNat = b.toNat := by
    rw [Char.toNat_ofNat, if_pos (.inl (by omega))]
  rw [IsHexByte, ← Text.isSome_hexValue?_iff, hcode]

theorem decodePairs_of_bad_digit {b : UInt8} (hb : (Text.hexValue? b.toNat) = none)
    (after : List UInt8) : ∀ {before : List UInt8} {position : Nat},
    (∀ x ∈ before, (Text.hexValue? x.toNat).isSome) → 2 ∣ (before ++ b :: after).length →
    decodePairs position (before ++ b :: after) = .error (.digit b (position + before.length))
  -- The digit at fault is the first byte that is none. Bytes are read in pairs, so it is met as the
  -- first or the second of one.
  | [], position, _, heven => by
    cases after with
    | nil => simp at heven
    | cons low rest => simp [decodePairs, hb]
  | [x], position, hbefore, _ => by
    obtain ⟨m, hm⟩ := Option.isSome_iff_exists.1 (hbefore x List.mem_cons_self)
    simp [decodePairs, hm, hb]
  | x :: y :: before, position, hbefore, heven => by
    obtain ⟨m, hm⟩ := Option.isSome_iff_exists.1 (hbefore x (by simp))
    obtain ⟨n, hn⟩ := Option.isSome_iff_exists.1 (hbefore y (by simp))
    have hdvd : 2 ∣ (before ++ b :: after).length := by
      have hlength : (x :: y :: before ++ b :: after).length = (before ++ b :: after).length + 2 := rfl
      omega
    have hrest : ∀ z ∈ before, (Text.hexValue? z.toNat).isSome := fun z hz =>
      hbefore z (List.mem_cons_of_mem _ (List.mem_cons_of_mem _ hz))
    have hposition : position + 2 + before.length = position + (x :: y :: before).length := by
      simp only [List.length_cons]
      omega
    rw [List.cons_append, List.cons_append, decodePairs, hm, hn, ← hposition,
      decodePairs_of_bad_digit hb after hrest hdvd]

inductive IsFault (text : String) : ObjectIdFault → Prop
  | length : (utf8Bytes text).length ≠ 24 → IsFault text (.length (utf8Bytes text).length)
  | digit {before after : List UInt8} {b : UInt8} : (utf8Bytes text).length = 24 →
      utf8Bytes text = before ++ b :: after → (∀ x ∈ before, IsHexByte x) → ¬IsHexByte b →
      IsFault text (.digit b before.length)

theorem exists_bad_digit {bytes : List UInt8} (h : ¬∀ x ∈ bytes, (Text.hexValue? x.toNat).isSome) :
    ∃ before b after, bytes = before ++ b :: after ∧ (∀ x ∈ before, IsHexByte x) ∧ ¬IsHexByte b := by
  have hsome : (bytes.find? fun x => !(Text.hexValue? x.toNat).isSome).isSome := by
    rw [List.find?_isSome]
    simpa using h
  obtain ⟨b, hb⟩ := Option.isSome_iff_exists.1 hsome
  obtain ⟨hbad, before, after, hbytes, hbefore⟩ := List.find?_eq_some_iff_append.1 hb
  refine ⟨before, b, after, hbytes, fun x hx => ?_, ?_⟩
  · have hx' := hbefore x hx
    rw [isHexByte_iff]
    simpa using hx'
  · rw [isHexByte_iff]
    simpa using hbad

theorem decodePairs_of_first_bad_digit {before after : List UInt8} {b : UInt8}
    (hbefore : ∀ x ∈ before, IsHexByte x) (hb : ¬IsHexByte b)
    (heven : 2 ∣ (before ++ b :: after).length) :
    decodePairs 0 (before ++ b :: after) = .error (.digit b before.length) := by
  have hnone : Text.hexValue? b.toNat = none := by
    rwa [isHexByte_iff, Option.not_isSome_iff_eq_none] at hb
  have hsome : ∀ x ∈ before, (Text.hexValue? x.toNat).isSome := fun x hx =>
    (isHexByte_iff x).1 (hbefore x hx)
  rw [decodePairs_of_bad_digit hnone after hsome heven, Nat.zero_add]

theorem parse_eq_error_iff_isFault {text : String} {e : ObjectIdError} :
    parse text = .error e ↔ e.value = text ∧ IsFault text e.fault := by
  rw [parse_eq_error_iff]
  refine and_congr_right fun _ => ?_
  obtain ⟨value, fault⟩ := e
  constructor
  · rintro (⟨hlength, hfault⟩ | ⟨hlength, hpairs⟩)
    · obtain rfl : fault = _ := hfault
      exact .length hlength
    · have heven : 2 ∣ (utf8Bytes text).length := ⟨12, hlength⟩
      have hbad : ¬∀ x ∈ utf8Bytes text, (Text.hexValue? x.toNat).isSome := fun hall => by
        obtain ⟨bytes, hbytes⟩ : ∃ bytes, decodePairs 0 (utf8Bytes text) = .ok bytes :=
          (exists_decodePairs_iff heven).2 hall
        rw [hbytes] at hpairs
        cases hpairs
      obtain ⟨before, b, after, htext, hbefore, hb⟩ := exists_bad_digit hbad
      have hfirst := decodePairs_of_first_bad_digit hbefore hb (htext ▸ heven)
      rw [htext, hfirst] at hpairs
      obtain rfl : _ = fault := Except.error.inj hpairs
      exact .digit hlength htext hbefore hb
  · intro h
    cases h with
    | length hlength => exact .inl ⟨hlength, rfl⟩
    | @digit before after b hlength htext hbefore hb =>
      have heven : 2 ∣ (utf8Bytes text).length := ⟨12, hlength⟩
      refine .inr ⟨hlength, ?_⟩
      rw [htext] at heven ⊢
      exact decodePairs_of_first_bad_digit hbefore hb heven

/-- Identifiers are read from exactly the texts of 24 hexadecimal digits, which are written in lower
case; case is all that texts of one identifier differ in, and written identifiers stand in the order
of the identifiers. Any other text is refused for its number of bytes or for its first byte that is
no digit. A list of texts is read as a whole, item by item, or refused for the first that is. -/
theorem hex_form_is_canonical :
    (∀ text, (∃ id, parse text = .ok id) ↔ IsHexText text) ∧
    (∀ text id, parse text = .ok id ↔ IsHexText text ∧ id.toHex = text.toLower) ∧
    (∀ id, parse id.toHex = .ok id) ∧
    (∀ text other, (∃ id, parse text = .ok id ∧ parse other = .ok id) ↔
      IsHexText text ∧ text.toLower = other.toLower) ∧
    (∀ a b : ObjectId, a < b ↔ utf8Bytes a.toHex < utf8Bytes b.toHex) ∧
    (∀ text e, parse text = .error e ↔ e.value = text ∧ IsFault text e.fault) ∧
    (∀ values, (∃ ids, parseAll values = .ok ids) ↔ ∀ value ∈ values, IsHexText value) ∧
    (∀ values ids, parseAll values = .ok ids ↔
      List.Forall₂ (fun value id => parse value = .ok id) values ids) ∧
    ∀ values e, parseAll values = .error e ↔
      ∃ before value after, values = before ++ value :: after ∧ (∀ v ∈ before, IsHexText v) ∧
        parse value = .error e := by
  refine ⟨exists_parse_iff, fun _ _ => parse_eq_ok_iff_toHex, parse_toHex, exists_parse_both_iff,
    fun _ _ => lt_iff_toHex_lt, fun _ _ => parse_eq_error_iff_isFault, fun values => ?_,
    fun values ids => ?_, fun values e => ?_⟩
  · simp only [← exists_parse_iff]
    exact Outcome.exists_mapM_eq_ok_iff
  · exact ⟨Outcome.forall₂_of_mapM_eq_ok, Outcome.mapM_eq_ok_of_forall₂⟩
  · simp only [← exists_parse_iff]
    exact Outcome.mapM_eq_error_iff

end ObjectId
end MediaViews
