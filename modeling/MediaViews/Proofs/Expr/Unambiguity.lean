import MediaViews.Proofs.Expr.Rereading

/-! Different expressions, and different conditions, are written differently. Only a test for
presence and the comparison with null that it stands for are written alike. -/
namespace MediaViews

theorem write_eq_iff {α : Type} {write : α → Json} {read? : Json → Option α} {spelled : α → α}
    {x y : α} (hx : read? (write x) = some (spelled x)) (hy : read? (write y) = some (spelled y))
    (hwrite : ∀ z, write (spelled z) = write z) : write x = write y ↔ spelled x = spelled y := by
  constructor
  · intro h
    rw [h, hy] at hx
    exact (Option.some.inj hx).symm
  · intro h
    rw [← hwrite x, h, hwrite y]

namespace Expr

mutual

theorem toJson_spelled : ∀ e : Expr, e.spelled.toJson = e.toJson
  | .ref _ _ => rfl
  | .literal _ => rfl
  | .all operands => by rw [spelled, toJson, listJson_spelledList operands, toJson]
  | .any operands => by rw [spelled, toJson, listJson_spelledList operands, toJson]
  | .negation operand => by rw [spelled, toJson, toJson_spelled operand, toJson]
  | .comparison op left right => by
    rw [spelled, toJson, toJson_spelled left, toJson_spelled right, toJson]
  | .member needle haystack => by
    rw [spelled, toJson, toJson_spelled needle, toJson_spelled haystack, toJson]
  | .size input => by rw [spelled, toJson, toJson_spelled input, toJson]
  | .filter input test => by
    rw [spelled, toJson, toJson_spelled input, toJson_spelled test, toJson]
  | .map input var body => by
    rw [spelled, toJson, toJson_spelled input, toJson_spelled body, toJson]
  | .reduce input initial body => by
    rw [spelled, toJson, toJson_spelled input, toJson_spelled initial, toJson_spelled body, toJson]
  | .concat lists => by rw [spelled, toJson, listJson_spelledList lists, toJson]
  | .cond test yes no => by
    rw [spelled, toJson, toJson_spelled test, toJson_spelled yes, toJson_spelled no, toJson]
  | .ifNull value fallback => by
    rw [spelled, toJson, toJson_spelled value, toJson_spelled fallback, toJson]
  | .present value => by
    rw [spelled, gt, toJson, toJson_spelled value, toJson]
    rfl
  | .distinct input => by rw [spelled, toJson, toJson_spelled input, toJson]
  | .toObject pairs => by rw [spelled, toJson, toJson_spelled pairs, toJson]
  | .elementAt input index => by rw [spelled, toJson, toJson_spelled input, toJson]
  | .search input pattern => by rw [spelled, toJson, toJson_spelled input, toJson]
  | .object entries => by rw [spelled, toJson, entriesJson_spelledEntries entries, toJson]

theorem listJson_spelledList : ∀ es : List Expr, listJson (spelledList es) = listJson es
  | [] => rfl
  | e :: es => by rw [spelledList, listJson, toJson_spelled e, listJson_spelledList es, listJson]

theorem entriesJson_spelledEntries : ∀ entries : List (String × Expr),
    entriesJson (spelledEntries entries) = entriesJson entries
  | [] => rfl
  | (key, e) :: entries => by
    rw [spelledEntries, entriesJson, toJson_spelled e, entriesJson_spelledEntries entries,
      entriesJson]

end

theorem toJson_ref (root : Root) (path : Option String) :
    ∃ text : String, (ref root path).toJson = .str text ∧ text.toList.head? = some '$' := by
  cases root <;> cases path <;> exact ⟨_, rfl, by simp⟩

theorem toJson_literal_ne {text : String} (htext : text.toList.head? = some '$') (l : Literal) :
    (literal l).toJson ≠ .str text := by
  have hread := read?_literalJson l
  intro h
  cases l with
  | str s =>
    rw [toJson, literalJson] at h
    split at h
    · cases h
    · next hs => cases h; exact hs htext
  | float x =>
    cases x with
    | nan => cases h
    | number negative rank =>
      rw [toJson, literalJson, Literal.toJson, Literal.floatJson] at h
      · split at h <;> cases h
      · exact fun _ heq => Literal.noConfusion heq
      · exact fun _ heq => Literal.noConfusion heq
  | _ => cases h

end Expr

namespace FieldTest

def ofOperator? : String → Literal → Option FieldTest
  | "$in", .array values => some (.isIn values)
  | "$nin", .array values => some (.notIn values)
  | operator, value => (Executor.comparison? operator).map (.compare · value)

def read? : Json → Option FieldTest
  | .obj [(operator, j)] => Literal.read? j >>= ofOperator? operator
  | .obj [("$regex", .str pattern), _] => some (.search pattern)
  | _ => none

theorem read?_toJson (test : FieldTest) : read? test.toJson = some test := by
  cases test with
  | compare op value =>
    rw [toJson, read?, Literal.read?_toJson, Option.bind_eq_bind, Option.bind_some]
    cases op <;> rfl
  | isIn values =>
    rw [toJson, read?, Literal.read?_toJson]
    rfl
  | notIn values =>
    rw [toJson, read?, Literal.read?_toJson]
    rfl
  | search pattern => rfl

end FieldTest

namespace Query

mutual

def read? : Json → Option Query
  | .obj [("$and", j)] => (readItems j).map .all
  | .obj [("$or", j)] => (readItems j).map .any
  | .obj [("$nor", j)] => (readItems j).map .neither
  | .obj [("$expr", j)] => (Expr.read? j).map .expr
  | .obj [(path, j)] => (FieldTest.read? j).map (.field path)
  | _ => none

def readItems : Json → Option (List Query)
  | .arr items => readList items
  | _ => none

def readList : List Json → Option (List Query)
  | [] => some []
  | j :: js => do return (← read? j) :: (← readList js)

end

mutual

def spelled : Query → Query
  | .all qs => .all (spelledList qs)
  | .any qs => .any (spelledList qs)
  | .neither qs => .neither (spelledList qs)
  | .field path test => .field path test
  | .expr e => .expr e.spelled

def spelledList : List Query → List Query
  | [] => []
  | q :: qs => spelled q :: spelledList qs

end

mutual

def isLegible : Query → Bool
  | .all qs => listLegible qs
  | .any qs => listLegible qs
  | .neither qs => listLegible qs
  | .field path _ => !connectives.contains path
  | .expr e => e.isLegible

def listLegible : List Query → Bool
  | [] => true
  | q :: qs => isLegible q && listLegible qs

end

mutual

theorem read?_toJson : ∀ {q : Query}, q.isLegible → read? q.toJson = some q.spelled
  | .all qs, h => by rw [toJson, read?, readItems, readList_listJson h, Option.map_some, spelled]
  | .any qs, h => by rw [toJson, read?, readItems, readList_listJson h, Option.map_some, spelled]
  | .neither qs, h => by
    rw [toJson, read?, readItems, readList_listJson h, Option.map_some, spelled]
  | .field path test, h => by
    have hpath : path ∉ connectives := by simpa [isLegible] using h
    simp only [connectives, List.mem_cons, List.not_mem_nil, or_false, not_or] at hpath
    obtain ⟨hand, hor, hnor, hexpr⟩ := hpath
    rw [toJson, read?, FieldTest.read?_toJson, Option.map_some, spelled]
    · exact hand
    · exact hor
    · exact hnor
    · exact hexpr
  | .expr e, h => by rw [toJson, read?, Expr.read?_toJson h, Option.map_some, spelled]

theorem readList_listJson : ∀ {qs : List Query}, listLegible qs →
    readList (listJson qs) = some (spelledList qs)
  | [], _ => rfl
  | q :: qs, h => by
    simp only [listLegible, Bool.and_eq_true] at h
    rw [listJson, readList, read?_toJson h.1, readList_listJson h.2]
    rfl

end

mutual

theorem toJson_spelled : ∀ q : Query, q.spelled.toJson = q.toJson
  | .all qs => by rw [spelled, toJson, listJson_spelledList qs, toJson]
  | .any qs => by rw [spelled, toJson, listJson_spelledList qs, toJson]
  | .neither qs => by rw [spelled, toJson, listJson_spelledList qs, toJson]
  | .field _ _ => rfl
  | .expr e => by rw [spelled, toJson, Expr.toJson_spelled e, toJson]

theorem listJson_spelledList : ∀ qs : List Query, listJson (spelledList qs) = listJson qs
  | [] => rfl
  | q :: qs => by rw [spelledList, listJson, toJson_spelled q, listJson_spelledList qs, listJson]

end

end Query

/-- Expressions that are written alike differ at most in how they spell tests for presence, and so do
conditions. No constant is written like a reference, whatever text it holds. -/
theorem rendering_is_unambiguous :
    (∀ e₁ e₂ : Expr, e₁.isLegible → e₂.isLegible →
      (e₁.toJson = e₂.toJson ↔ e₁.spelled = e₂.spelled)) ∧
    (∀ q₁ q₂ : Query, q₁.isLegible → q₂.isLegible →
      (q₁.toJson = q₂.toJson ↔ q₁.spelled = q₂.spelled)) ∧
    ∀ (l : Literal) (root : Root) (path : Option String),
      (Expr.literal l).toJson ≠ (Expr.ref root path).toJson := by
  refine ⟨fun e₁ e₂ h₁ h₂ => ?_, fun q₁ q₂ h₁ h₂ => ?_, fun l root path => ?_⟩
  · exact write_eq_iff (Expr.read?_toJson h₁) (Expr.read?_toJson h₂) Expr.toJson_spelled
  · exact write_eq_iff (Query.read?_toJson h₁) (Query.read?_toJson h₂) Query.toJson_spelled
  · obtain ⟨text, href, htext⟩ := Expr.toJson_ref root path
    rw [href]
    exact Expr.toJson_literal_ne htext l

def keepSame (e : Expr) : Expr := .filter (.field "labels") (Expr.this.eq e)

theorem rendering_is_unambiguous_dollarText :
    (keepSame .this).isLegible ∧ (keepSame (.literal (.str "$$this"))).isLegible ∧
      (keepSame .this).toJson ≠ (keepSame (.literal (.str "$$this"))).toJson ∧
      (Query.expr (.present .this)).isLegible ∧ (Query.expr (Expr.this.gt .null)).isLegible ∧
      (Query.expr (.present .this)).toJson = (Query.expr (Expr.this.gt .null)).toJson ∧
      (Expr.literal (.str "$$this")).toJson ≠ Expr.this.toJson := by
  have hthis : (keepSame .this).isLegible := by decide
  have htext : (keepSame (.literal (.str "$$this"))).isLegible := by decide
  have hpresent : (Query.expr (.present .this)).isLegible := by decide
  have hgt : (Query.expr (Expr.this.gt .null)).isLegible := by decide
  refine ⟨hthis, htext, fun h => ?_, hpresent, hgt, ?_, ?_⟩
  · nomatch (rendering_is_unambiguous.1 _ _ hthis htext).1 h
  · exact (rendering_is_unambiguous.2.1 _ _ hpresent hgt).2 rfl
  · exact rendering_is_unambiguous.2.2 _ _ _

end MediaViews
