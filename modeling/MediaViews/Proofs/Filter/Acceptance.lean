import MediaViews.Proofs.Double.Magnitude
import MediaViews.Proofs.Filter.Depth
import MediaViews.Proofs.Identifier

/-! Which filters suit which kinds. Predicates and conditions are built of the filters that suit what
is under all lists of a kind, and of no others; a condition looks through one list only. -/
namespace MediaViews

namespace FieldKind

def leaf : FieldKind → FieldKind
  | list element => element.leaf
  | kind => kind

def depth : FieldKind → Nat
  | list element => element.depth + 1
  | _ => 0

theorem isList_leaf (kind : FieldKind) : kind.leaf.isList = false := by
  induction kind with
  | list element ih => exact ih
  | _ => rfl

theorem layered_leaf (kind : FieldKind) : kind.leaf.layered kind.depth = kind := by
  induction kind with
  | list element ih => exact congrArg list ih
  | _ => rfl

end FieldKind

def Double.IsInstant (x : Double) : Prop :=
  x.isFinite ∧ (-8334601228800000 : ℚ) ≤ x.toRat ∧ x.toRat ≤ 8210266876799999

namespace Filter

def HasFlag (f : Filter) : Prop := ∃ s, (f.flag? s).isSome

/-- Whether a filter suits a kind that is no list. A range goes before flags, and accepted values go
before a text to search for. -/
def Suits (f : Filter) : FieldKind → Prop
  | .bool => True
  | .int | .float | .frameSupport => f.range.isSome ∨ f.HasFlag
  | .date | .dateTime =>
    match f.range with
    | some range => range.1.IsInstant ∧ range.2.IsInstant
    | none => f.HasFlag
  | .string => f.values.isSome ∨ f.search.isSome
  | .objectId =>
    ∃ values, f.values = some values ∧ ∀ text, some text ∈ values → ObjectId.IsHexText text
  | .dict | .embedded | .label _ | .list _ => False

theorem hasFlags_iff (f : Filter) : f.hasFlags ↔ f.HasFlag := by
  rw [hasFlags, List.any_eq_true, HasFlag]
  refine exists_congr fun s => and_iff_right ?_
  cases s <;> decide

theorem isSome_boundInstant?_iff (x : Double) : (boundInstant? x).isSome ↔ x.IsInstant := by
  have hearliest : (-8334601228800000 : ℤ) ≤ -2 ^ 52 := by decide
  have hlatest : 2 ^ 52 ≤ (8210266876799999 : ℤ) := by decide
  have hbounds := Double.truncate_bounds_iff hearliest hlatest x
  push_cast at hbounds
  rw [boundInstant?, Double.IsInstant, ← hbounds, Instant.ofMillis?]
  split
  · next hfinite =>
    rw [and_iff_right hfinite]
    split
    · next hmillis => exact iff_of_true rfl hmillis
    · next hmillis => exact iff_of_false Bool.false_ne_true hmillis
  · next hfinite => exact iff_of_false Bool.false_ne_true fun h => hfinite h.1

theorem exists_boundLiteral_iff (path : String) (kind : FieldKind) (x : Double) :
    (∃ l, boundLiteral path kind x = .ok l) ↔ (kind.isTemporal → x.IsInstant) := by
  rw [boundLiteral]
  split
  · next htemporal =>
    rw [forall_prop_of_true htemporal, ← isSome_boundInstant?_iff]
    cases boundInstant? x <;> simp
  · next htemporal =>
    refine iff_of_true ?_ fun h => absurd h htemporal
    split
    · exact ⟨_, rfl⟩
    · exact ⟨_, rfl⟩

theorem exists_boundLiterals_iff (path : String) (kind : FieldKind) (range : Double × Double) :
    (∃ bounds, boundLiterals path kind range = .ok bounds) ↔
      (kind.isTemporal → range.1.IsInstant ∧ range.2.IsInstant) := by
  rw [imp_and, ← exists_boundLiteral_iff path, ← exists_boundLiteral_iff path]
  constructor
  · rintro ⟨bounds, h⟩
    exact ⟨⟨_, (boundLiterals_eq_ok h).1⟩, ⟨_, (boundLiterals_eq_ok h).2⟩⟩
  · rintro ⟨⟨min, hmin⟩, ⟨max, hmax⟩⟩
    exact ⟨(min, max), by rw [boundLiterals, hmin, hmax]; rfl⟩

theorem exists_numericDemand_iff (path : String) (kind : FieldKind) (f : Filter) :
    (∃ d, numericDemand path kind f = .ok d) ↔
      (match f.range with
      | some range => kind.isTemporal → range.1.IsInstant ∧ range.2.IsInstant
      | none => f.HasFlag) := by
  rw [numericDemand]
  cases f.range with
  | some range =>
    dsimp only
    rw [← exists_boundLiterals_iff path]
    cases boundLiterals path kind range <;> simp [Except.map]
  | none =>
    dsimp only
    rw [← hasFlags_iff]
    cases f.hasFlags <;> simp

theorem exists_valueLiteral_iff (kind : FieldKind) (text : String) :
    (∃ l, valueLiteral kind text = .ok l) ↔ (kind = .objectId → ObjectId.IsHexText text) := by
  rw [valueLiteral]
  split
  · next hkind =>
    rw [forall_prop_of_true hkind, ← ObjectId.exists_parse_iff]
    cases ObjectId.parse text <;> simp
  · next hkind => exact iff_of_true ⟨_, rfl⟩ fun h => absurd h hkind

theorem mem_presentValues {f : Filter} {text : String} :
    text ∈ f.presentValues ↔ ∃ values, f.values = some values ∧ some text ∈ values := by
  rw [presentValues]
  cases f.values <;> simp

theorem exists_presentLiterals_iff (kind : FieldKind) (f : Filter) :
    (∃ ls, f.presentLiterals kind = .ok ls) ↔
      ∀ text ∈ f.presentValues, kind = .objectId → ObjectId.IsHexText text := by
  simp only [← exists_valueLiteral_iff]
  exact Outcome.exists_mapM_eq_ok_iff

theorem exists_valueDemand_iff (path : String) (kind : FieldKind) (f : Filter) :
    (∃ d, valueDemand path kind f = .ok d) ↔
      (f.values.isSome ∧ ∀ text ∈ f.presentValues, kind = .objectId → ObjectId.IsHexText text) ∨
        (f.values = none ∧ kind = .string ∧ f.search.isSome) := by
  rw [← exists_presentLiterals_iff]
  unfold valueDemand
  cases hvalues : f.values with
  | some values =>
    dsimp only
    cases f.presentLiterals kind <;> simp [Except.map]
  | none =>
    cases hsearch : f.search with
    | none => simp
    | some text => cases kind <;> simp

theorem exists_demand_iff (path : String) {kind : FieldKind} (f : Filter) :
    (∃ d, demand path kind f = .ok d) ↔ f.Suits kind := by
  cases kind with
  | int | float | frameSupport =>
    rw [demand, exists_numericDemand_iff, Suits]
    cases f.range <;> simp [FieldKind.isTemporal]
  | date | dateTime =>
    rw [demand, exists_numericDemand_iff, Suits]
    cases f.range <;> simp [FieldKind.isTemporal]
  | string =>
    rw [demand, exists_valueDemand_iff, Suits]
    cases f.values <;> simp
  | objectId =>
    rw [demand, exists_valueDemand_iff, Suits]
    simp only [mem_presentValues]
    cases f.values <;> simp
  | bool => exact iff_of_true ⟨_, rfl⟩ trivial
  | dict | embedded | label _ | list _ => exact iff_of_false (fun ⟨d, h⟩ => by cases h) id

theorem exists_predicate_iff (path : String) (e : Expr) (f : Filter) (isMatching : Bool)
    (kind : FieldKind) :
    (∃ p, predicate path e f isMatching kind = .ok p) ↔ f.Suits kind.leaf := by
  rw [← exists_demand_iff path,
    ← exists_predicate_layered_iff kind.isList_leaf kind.depth e, kind.layered_leaf]

theorem exists_condition_iff (path : String) (kind : FieldKind) (f : Filter) :
    (∃ q, condition path kind f = .ok q) ↔ kind.depth ≤ 1 ∧ f.Suits kind.leaf := by
  have hleaf (kind : FieldKind) : (∃ q, leafCondition path kind f = .ok q) ↔ f.Suits kind := by
    rw [← exists_demand_iff path, leafCondition_eq_map]
    cases demand path kind f <;> simp [Except.map]
  rw [condition, hleaf]
  cases kind with
  | list element =>
    cases element with
    | list inner => exact iff_of_false id fun h => absurd h.1 (by simp [FieldKind.depth])
    | _ => exact (and_iff_right le_rfl).symm
  | _ => exact (and_iff_right (Nat.zero_le 1)).symm

/-- A predicate is built exactly of a filter that suits what is under all lists, and a condition too
if it is under one list at most. What a filter excludes and whether it prunes makes no difference. -/
theorem accepted_iff_suits (path : String) (e : Expr) (kind : FieldKind) (f : Filter)
    (isMatching : Bool) :
    ((∃ p, predicate path e f isMatching kind = .ok p) ↔ f.Suits kind.leaf) ∧
      ((∃ q, condition path kind f = .ok q) ↔ kind.depth ≤ 1 ∧ f.Suits kind.leaf) ∧
      ∀ (exclude matching mode : Bool),
        ((∃ p, predicate path e { f with exclude, isMatching := matching } mode kind = .ok p) ↔
          ∃ p, predicate path e f isMatching kind = .ok p) ∧
        ((∃ q, condition path kind { f with exclude, isMatching := matching } = .ok q) ↔
          ∃ q, condition path kind f = .ok q) := by
  refine ⟨exists_predicate_iff .., exists_condition_iff .., fun exclude matching mode => ?_⟩
  have hsame : Suits { f with exclude, isMatching := matching } kind.leaf ↔ f.Suits kind.leaf := by
    cases kind.leaf <;> rfl
  simp only [exists_predicate_iff, exists_condition_iff, hsame, and_self]

end Filter
end MediaViews
