import MediaViews.Json.Printer
import MediaViews.Json.Reader
import MediaViews.Proofs.Identifier

/-! Objects whose keys are distinct. If their values are strings, they are written on one line and
read back as they are. -/
namespace MediaViews.Json

theorem setMember_of_not_mem {key : String} {members : List (String × Json)}
    (h : key ∉ members.map (·.1)) (value : Json) :
    setMember key value members = members ++ [(key, value)] := by
  induction members with
  | nil => rfl
  | cons m members ih =>
    obtain ⟨k, v⟩ := m
    simp only [List.map_cons, List.mem_cons, not_or] at h
    rw [setMember, if_neg (Ne.symm h.1), ih h.2, List.cons_append]

theorem foldl_setMember {members acc : List (String × Json)}
    (h : ((acc ++ members).map (·.1)).Nodup) :
    members.foldl (fun ms m => setMember m.1 m.2 ms) acc = acc ++ members := by
  induction members generalizing acc with
  | nil => rw [List.foldl_nil, List.append_nil]
  | cons m members ih =>
    have hnew : m.1 ∉ acc.map (·.1) := by
      rw [List.map_append, List.map_cons] at h
      exact fun hm => List.disjoint_of_nodup_append h hm List.mem_cons_self
    have happend : acc ++ [m] ++ members = acc ++ m :: members := by simp
    rw [List.foldl_cons, setMember_of_not_mem hnew, ih (by rwa [happend]), happend]

theorem ofMembers_of_nodup {members : List (String × Json)} (h : (members.map (·.1)).Nodup) :
    ofMembers members = .obj members := by
  rw [ofMembers, foldl_setMember (by simpa using h), List.nil_append]

theorem escapeChar_cases (c : Char) :
    (∃ name, Tree.escaped? name = some c ∧ name ≠ 'u' ∧ 0x20 ≤ name.toNat ∧
      escapeChar c = ['\\', name]) ∨
    (c.toNat < 0x20 ∧ escapeChar c =
      ['\\', 'u', '0', '0', Text.hexDigit (c.toNat / 16), Text.hexDigit (c.toNat % 16)]) ∨
    (0x20 ≤ c.toNat ∧ c ≠ '"' ∧ c ≠ '\\' ∧ escapeChar c = [c]) := by
  unfold escapeChar
  split
  · exact .inl ⟨'"', rfl, by decide, by decide, rfl⟩
  · exact .inl ⟨'\\', rfl, by decide, by decide, rfl⟩
  · exact .inl ⟨'b', rfl, by decide, by decide, rfl⟩
  · exact .inl ⟨'f', rfl, by decide, by decide, rfl⟩
  · exact .inl ⟨'n', rfl, by decide, by decide, rfl⟩
  · exact .inl ⟨'r', rfl, by decide, by decide, rfl⟩
  · exact .inl ⟨'t', rfl, by decide, by decide, rfl⟩
  · next hquote hslash _ _ _ _ _ =>
    by_cases hcontrol : c.toNat < 0x20
    · exact .inr (.inl ⟨hcontrol, if_pos hcontrol⟩)
    · exact .inr (.inr ⟨Nat.le_of_not_lt hcontrol, hquote, hslash, if_neg hcontrol⟩)

theorem le_toNat_of_mem_escapeChar {c d : Char} (h : d ∈ escapeChar c) : 0x20 ≤ d.toNat := by
  rcases escapeChar_cases c with ⟨name, -, -, hname, hc⟩ | ⟨hcontrol, hc⟩ | ⟨hplain, -, -, hc⟩
  · rw [hc] at h
    have hslash : 0x20 ≤ '\\'.toNat := by decide
    simp only [List.mem_cons, List.not_mem_nil, or_false] at h
    rcases h with rfl | rfl <;> assumption
  · rw [hc] at h
    have hhigh := Text.le_hexDigit_toNat (show c.toNat / 16 < 16 by omega)
    have hlow := Text.le_hexDigit_toNat (show c.toNat % 16 < 16 by omega)
    simp only [List.mem_cons, List.not_mem_nil, or_false] at h
    rcases h with rfl | rfl | rfl | rfl | rfl | rfl
    · decide
    · decide
    · decide
    · decide
    · exact hhigh
    · exact hlow
  · rw [hc, List.mem_singleton] at h
    rwa [h]

namespace Tree

theorem unit?_control {n : Nat} (h : n < 0x20) :
    unit? '0' '0' (Text.hexDigit (n / 16)) (Text.hexDigit (n % 16)) = some n := by
  have hzero : Text.hexValue? '0'.toNat = some 0 := by decide
  have hhigh := Text.hexValue?_hexDigit (show n / 16 < 16 by omega)
  have hlow := Text.hexValue?_hexDigit (show n % 16 < 16 by omega)
  unfold unit?
  rw [hzero, hhigh, hlow]
  show some (((0 * 16 + 0) * 16 + n / 16) * 16 + n % 16) = some n
  congr 1
  omega

theorem Spelling.pushUnit_control (s : Spelling) {c : Char} (h : c.toNat < 0x20) :
    s.pushUnit c.toNat = s.push c := by
  have hhigh : (0xd800 ≤ c.toNat && c.toNat ≤ 0xdbff) = false := by simp; omega
  have hlow : (0xdc00 ≤ c.toNat && c.toNat ≤ 0xdfff) = false := by simp; omega
  unfold pushUnit push
  cases s.waiting with
  | none => simp [hhigh, hlow]
  | some high => simp [hlow]

theorem takeString_escapeChar (s : Spelling) (c : Char) (rest : List Char) :
    takeString s (escapeChar c ++ rest) = takeString (s.push c) rest := by
  rcases escapeChar_cases c with
    ⟨name, hname, hu, -, hc⟩ | ⟨hcontrol, hc⟩ | ⟨hplain, hquote, hslash, hc⟩
  · rw [hc]
    show takeString s ('\\' :: name :: rest) = _
    rw [takeString, hname]
    exact fun _ _ _ _ _ heq _ => hu heq
  · rw [hc]
    show takeString s ('\\' :: 'u' :: '0' :: '0' :: _ :: _ :: rest) = _
    rw [takeString, unit?_control hcontrol]
    show takeString (s.pushUnit c.toNat) rest = _
    rw [Spelling.pushUnit_control s hcontrol]
  · rw [hc]
    show takeString s (c :: rest) = _
    rw [takeString, if_neg (Nat.not_lt.2 hplain)]
    · exact hquote
    · exact fun _ _ _ _ _ heq _ => hslash heq
    · exact fun _ _ heq _ => hslash heq

theorem takeString_flatMap_escapeChar (s : Spelling) (text rest : List Char) :
    takeString s (text.flatMap escapeChar ++ '"' :: rest) =
      some ((text.foldl Spelling.push s).finish, rest) := by
  induction text generalizing s with
  | nil => rfl
  | cons c text ih =>
    rw [List.flatMap_cons, List.append_assoc, takeString_escapeChar, ih, List.foldl_cons]

theorem Spelling.foldl_push (text reversed : List Char) :
    text.foldl push ⟨some reversed, none⟩ = ⟨some (text.reverse ++ reversed), none⟩ := by
  -- Nothing is ever waiting: only a unit from an escape can be the first half of a character.
  induction text generalizing reversed with
  | nil => rfl
  | cons c text ih =>
    have hpush : push ⟨some reversed, none⟩ c = ⟨some (c :: reversed), none⟩ := rfl
    rw [List.foldl_cons, hpush, ih, List.reverse_cons, List.append_assoc, List.singleton_append]

theorem takeString_writeString (text : String) (rest : List Char) :
    takeString .start (text.toList.flatMap escapeChar ++ '"' :: rest) = some (some text, rest) := by
  have hspelled : (text.toList.foldl Spelling.push .start).finish = some text := by
    unfold Spelling.start
    rw [Spelling.foldl_push, List.append_nil]
    show some (String.ofList text.toList.reverse.reverse) = some text
    rw [List.reverse_reverse, String.ofList_toList]
  rw [takeString_flatMap_escapeChar, hspelled]

end Tree

def stringMembers (members : List (String × String)) : List (String × Json) :=
  members.map fun m => (m.1, .str m.2)

theorem keys_stringMembers (members : List (String × String)) :
    (stringMembers members).map (·.1) = members.map (·.1) := by
  rw [stringMembers, List.map_map]
  rfl

namespace Tree

def stringTrees (members : List (String × String)) : List (Option String × Tree) :=
  members.map fun m => (some m.1, .leaf (some (.str m.2)))

theorem takeValue_writeString (fuel : Nat) (text : String) (rest : List Char) :
    takeValue (fuel + 1) (writeString text rest) = some (.leaf (some (.str text)), rest) := by
  show (takeString .start (text.toList.flatMap escapeChar ++ '"' :: rest)).map _ = _
  rw [takeString_writeString]
  rfl

theorem takeMembers_writeString (fuel : Nat) (m : String × String) (rest : List Char) :
    takeMembers (fuel + 2) (writeString m.1 (':' :: writeString m.2 rest)) =
      match skipBlanks rest with
      | '\x7d' :: rest => some ([(some m.1, .leaf (some (.str m.2)))], rest)
      | ',' :: rest => (takeMembers (fuel + 1) rest).map fun (members, rest) =>
          ((some m.1, .leaf (some (.str m.2))) :: members, rest)
      | _ => none := by
  unfold takeMembers
  show (takeString .start (m.1.toList.flatMap escapeChar ++ '"' :: ':' :: _)).bind _ = _
  rw [takeString_writeString]
  show (takeValue (fuel + 1) (writeString m.2 rest)).bind _ = _
  rw [takeValue_writeString]
  rfl

theorem takeMembers_writeMembers (m : String × String) (members : List (String × String))
    {fuel : Nat} (h : members.length + 2 ≤ fuel) (rest : List Char) :
    takeMembers fuel (writeString m.1 (':' :: writeString m.2
      (writeMembers (stringMembers members) ('\x7d' :: rest)))) =
      some (stringTrees (m :: members), rest) := by
  -- The first member has no comma before it, so the induction is on the members behind it.
  induction members generalizing m fuel with
  | nil =>
    obtain ⟨fuel, rfl⟩ := Nat.exists_eq_add_of_le' h
    rw [List.length_nil, takeMembers_writeString]
    rfl
  | cons next members ih =>
    obtain ⟨fuel, rfl⟩ : ∃ k, fuel = k + 2 := Nat.exists_eq_add_of_le' (by omega)
    have hfuel : members.length + 2 ≤ fuel + 1 := by
      rw [List.length_cons] at h
      omega
    have hwrite : writeMembers (stringMembers (next :: members)) ('\x7d' :: rest) =
        ',' :: writeString next.1 (':' :: writeString next.2
          (writeMembers (stringMembers members) ('\x7d' :: rest))) := rfl
    rw [takeMembers_writeString, hwrite]
    show (takeMembers (fuel + 1) (writeString next.1 _)).map _ = _
    rw [ih next hfuel]
    rfl

theorem takeValue_stringMembers (members : List (String × String)) {fuel : Nat}
    (h : members.length + 2 ≤ fuel) (rest : List Char) :
    takeValue fuel (write (.obj (stringMembers members)) rest) =
      some (.object (stringTrees members), rest) := by
  obtain ⟨fuel, rfl⟩ : ∃ k, fuel = k + 1 := Nat.exists_eq_add_of_le' (by omega)
  cases members with
  | nil => rfl
  | cons m members =>
    have hfuel : members.length + 2 ≤ fuel := by
      rw [List.length_cons] at h
      omega
    show (takeMembers fuel (writeString m.1 (':' :: writeString m.2
      (writeMembers (stringMembers members) ('\x7d' :: rest))))).map _ = _
    rw [takeMembers_writeMembers m members hfuel]
    rfl

end Tree

theorem length_le_length_writeString (text : String) (rest : List Char) :
    rest.length ≤ (writeString text rest).length := by
  unfold writeString
  simp only [List.cons_append, List.length_cons, List.length_append]
  omega

theorem length_le_length_writeMembers (members : List (String × String)) (rest : List Char) :
    members.length + rest.length ≤ (writeMembers (stringMembers members) rest).length := by
  induction members with
  | nil => simp [stringMembers, writeMembers]
  | cons m members ih =>
    have hvalue := length_le_length_writeString m.2 (writeMembers (stringMembers members) rest)
    have hkey := length_le_length_writeString m.1
      (':' :: writeString m.2 (writeMembers (stringMembers members) rest))
    show members.length + 1 + rest.length ≤ (',' :: writeString m.1
      (':' :: writeString m.2 (writeMembers (stringMembers members) rest))).length
    simp only [List.length_cons] at hkey ⊢
    omega

theorem length_le_length_write (members : List (String × String)) (rest : List Char) :
    members.length ≤ (write (.obj (stringMembers members)) rest).length := by
  cases members with
  | nil => exact Nat.zero_le _
  | cons m members =>
    -- Behind the first brace stands what a further member is written as behind its comma.
    have hmembers := length_le_length_writeMembers (m :: members) ('\x7d' :: rest)
    rw [List.length_cons] at hmembers ⊢
    exact (Nat.le_add_right _ _).trans hmembers

theorem Tree.ofText?_render (members : List (String × String)) :
    Tree.ofText? (render (.obj (stringMembers members))) =
      some (.object (Tree.stringTrees members)) := by
  -- The reader has fuel for every character of the text, and no member is without characters.
  have hlength := length_le_length_write members []
  unfold Tree.ofText? render
  rw [String.toList_ofList]
  dsimp only
  rw [Tree.takeValue_stringMembers members (by omega)]
  rfl

theorem readMembers_stringTrees {outline : Outline}
    (h : ∀ key, ∃ inner, outline.member? key = some inner) (room : Nat)
    (members : List (String × String)) :
    Tree.readMembers room outline (Tree.stringTrees members) = some (stringMembers members) := by
  induction members with
  | nil => rfl
  | cons m members ih =>
    obtain ⟨inner, hinner⟩ := h m.1
    unfold Tree.stringTrees
    rw [List.map_cons, Tree.readMembers, hinner]
    show (Tree.readMembers room outline (Tree.stringTrees members)).bind _ = _
    rw [ih]
    rfl

theorem readAs?_render {outline : Outline} (h : ∀ key, ∃ inner, outline.member? key = some inner)
    (members : List (String × String)) :
    readAs? outline (render (.obj (stringMembers members))) =
      some (outline.collect (stringMembers members)) := by
  unfold readAs?
  rw [Tree.ofText?_render]
  show (Tree.readMembers _ outline (Tree.stringTrees members)).map outline.collect = _
  rw [readMembers_stringTrees h]
  rfl

theorem parse?_render {members : List (String × String)} (h : (members.map (·.1)).Nodup) :
    parse? (render (.obj (stringMembers members))) = some (.obj (stringMembers members)) := by
  have hcollect : Outline.free.collect (stringMembers members) = .obj (stringMembers members) :=
    ofMembers_of_nodup (by rwa [keys_stringMembers])
  unfold parse?
  rw [readAs?_render (fun _ => ⟨.free, rfl⟩), hcollect]

def IsPrintable (text : List Char) : Prop := ∀ c ∈ text, 0x20 ≤ c.toNat

theorem IsPrintable.cons {c : Char} {text : List Char} (hc : 0x20 ≤ c.toNat)
    (h : IsPrintable text) : IsPrintable (c :: text) :=
  List.forall_mem_cons.2 ⟨hc, h⟩

theorem IsPrintable.writeString {rest : List Char} (h : IsPrintable rest) (text : String) :
    IsPrintable (writeString text rest) := by
  refine .cons (by decide) fun c hc => ?_
  rcases List.mem_append.1 hc with hc | hc
  · obtain ⟨d, -, hd⟩ := List.mem_flatMap.1 hc
    exact le_toNat_of_mem_escapeChar hd
  · exact IsPrintable.cons (by decide) h c hc

theorem IsPrintable.writeMembers {rest : List Char} (h : IsPrintable rest)
    (members : List (String × String)) :
    IsPrintable (writeMembers (stringMembers members) rest) := by
  induction members with
  | nil => exact h
  | cons m members ih =>
    exact .cons (by decide) (.writeString (.cons (by decide) (ih.writeString m.2)) m.1)

theorem isPrintable_render (members : List (String × String)) :
    IsPrintable (render (.obj (stringMembers members))).toList := by
  unfold render
  rw [String.toList_ofList]
  have hend : IsPrintable ['\x7d'] := .cons (by decide) nofun
  cases members with
  | nil => exact .cons (by decide) hend
  | cons m members =>
    exact .cons (by decide)
      (.writeString (.cons (by decide) ((hend.writeMembers members).writeString m.2)) m.1)

end MediaViews.Json
