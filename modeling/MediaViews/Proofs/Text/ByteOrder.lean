import Mathlib
import MediaViews.ObjectId

/-! The order of texts is that of their UTF-8 bytes. -/
namespace MediaViews.Text

open ObjectId (utf8Bytes)

theorem ofNat_lt_ofNat {m n : Nat} (hm : m < 256) (hn : n < 256) :
    UInt8.ofNat m < UInt8.ofNat n ↔ m < n := by
  rw [UInt8.lt_iff_toNat_lt, UInt8.toNat_ofNat_of_lt' hm, UInt8.toNat_ofNat_of_lt' hn]

theorem ofNat_eq_ofNat {m n : Nat} (hm : m < 256) (hn : n < 256) :
    UInt8.ofNat m = UInt8.ofNat n ↔ m = n := by
  rw [← UInt8.toNat_inj, UInt8.toNat_ofNat_of_lt' hm, UInt8.toNat_ofNat_of_lt' hn]

theorem lt_of_digits {m n : Nat} (h : m < n) :
    m / 262144 < n / 262144 ∨ m / 262144 = n / 262144 ∧
      (m / 4096 % 64 < n / 4096 % 64 ∨ m / 4096 % 64 = n / 4096 % 64 ∧
        (m / 64 % 64 < n / 64 % 64 ∨ m / 64 % 64 = n / 64 % 64 ∧ m % 64 < n % 64)) := by
  have hdigit {a b : Nat} (hab : a < b) : a / 64 < b / 64 ∨ a / 64 = b / 64 ∧ a % 64 < b % 64 := by
    omega
  have htwo (k : Nat) : k / 4096 = k / 64 / 64 := (Nat.div_div_eq_div_mul k 64 64).symm
  have hthree (k : Nat) : k / 262144 = k / 64 / 64 / 64 := by
    rw [Nat.div_div_eq_div_mul, Nat.div_div_eq_div_mul]
  rw [hthree m, hthree n, htwo m, htwo n]
  rcases hdigit h with h | ⟨heq, h⟩
  · rcases hdigit h with h | ⟨heq, h⟩
    · rcases hdigit h with h | ⟨heq, h⟩
      · exact .inl h
      · exact .inr ⟨heq, .inl h⟩
    · rw [heq]
      exact .inr ⟨rfl, .inr ⟨rfl, .inl h⟩⟩
  · rw [heq]
    exact .inr ⟨rfl, .inr ⟨rfl, .inr ⟨rfl, h⟩⟩⟩

theorem utf8EncodeChar_append_lt {c d : Char} (h : c < d) (xs ys : List UInt8) :
    String.utf8EncodeChar c ++ xs < String.utf8EncodeChar d ++ ys := by
  -- The first byte tells how many there are, and of two characters of one length the first byte that
  -- differs decides.
  have hlt : c.val.toNat < d.val.toNat := UInt32.lt_iff_toNat_lt.1 h
  have hd : d.val.toNat < 0x110000 := by
    rcases d.valid with hvalid | ⟨-, hvalid⟩ <;> omega
  unfold String.utf8EncodeChar
  generalize c.val.toNat = m at hlt
  generalize d.val.toNat = n at hlt hd
  have hdigits := lt_of_digits hlt
  have hm : m / 262144 % 8 = m / 262144 := Nat.mod_eq_of_lt (by omega)
  have hn : n / 262144 % 8 = n / 262144 := Nat.mod_eq_of_lt (by omega)
  dsimp only
  split_ifs <;>
    simp (disch := omega) only [List.cons_append, List.nil_append, List.cons_lt_cons_iff,
      ofNat_lt_ofNat, ofNat_eq_ofNat, hm, hn] <;>
    omega

theorem flatMap_lt_flatMap {α β : Type} [LT α] [LT β] {f : α → List β} (hne : ∀ a, f a ≠ [])
    (happend : ∀ a b, a < b → ∀ xs ys, f a ++ xs < f b ++ ys) {as bs : List α} (h : as < bs) :
    as.flatMap f < bs.flatMap f := by
  induction h with
  | @nil b bs =>
    obtain ⟨x, xs, hx⟩ := List.exists_cons_of_ne_nil (hne b)
    rw [List.flatMap_nil, List.flatMap_cons, hx]
    exact List.nil_lt_cons _ _
  | rel h => exact happend _ _ h _ _
  | cons _ ih => exact List.append_left_lt ih

theorem flatMap_lt_flatMap_iff {α β : Type} [LT α] [LT β] [Std.Trichotomous (α := α) (· < ·)]
    [Std.Asymm (α := β) (· < ·)] {f : α → List β} (hne : ∀ a, f a ≠ [])
    (happend : ∀ a b, a < b → ∀ xs ys, f a ++ xs < f b ++ ys) {as bs : List α} :
    as.flatMap f < bs.flatMap f ↔ as < bs := by
  constructor
  · intro h
    by_contra hle
    by_cases heq : as = bs
    · subst heq
      exact List.lt_asymm h h
    · have hlt : bs < as := by
        by_contra hge
        exact heq (List.le_antisymm hge hle)
      exact List.lt_asymm h (flatMap_lt_flatMap hne happend hlt)
  · exact flatMap_lt_flatMap hne happend

theorem utf8Bytes_lt_iff {a b : String} : utf8Bytes a < utf8Bytes b ↔ a < b := by
  rw [String.lt_iff_toList_lt]
  exact flatMap_lt_flatMap_iff (fun _ => String.utf8EncodeChar_ne_nil)
    fun _ _ => utf8EncodeChar_append_lt

end MediaViews.Text
