import MediaViews.Filter.Condition
import MediaViews.Filter.Predicate
import MediaViews.Proofs.Executor.Basic
import MediaViews.Proofs.Outcome

/-! What a filter demands of a value. Conditions on documents and predicates on elements are built
apart from each other; both are told here by one demand, and what either means is told by the values
that it meets. -/
namespace MediaViews

/-- The constants of a filter. Sentinels and missing values are asked for beside them. -/
inductive Demand where
  | range (min max : Literal)
  | flags
  | values (present : List Literal)
  | search (pattern : String)
  | truth

def Sentinel.value (s : Sentinel) : Value := .ofLiteral s.literal

namespace Filter

def numericDemand (path : String) (kind : FieldKind) (f : Filter) : Except FilterError Demand :=
  match f.range with
  | some range => (boundLiterals path kind range).map fun bounds => .range bounds.1 bounds.2
  | none => if f.hasFlags then .ok .flags else .error (.unsupported path kind .rangeNeeded)

def valueDemand (path : String) (kind : FieldKind) (f : Filter) : Except FilterError Demand :=
  match f.values, f.search, kind with
  | some _, _, _ => (f.presentLiterals kind).map .values
  | none, some text, .string => .ok (.search (searchPattern text))
  | none, _, _ => .error (.unsupported path kind .valuesNeeded)

def demand (path : String) (kind : FieldKind) (f : Filter) : Except FilterError Demand :=
  match kind with
  | .int | .float | .date | .dateTime | .frameSupport => numericDemand path kind f
  | .string | .objectId => valueDemand path kind f
  | .bool => .ok .truth
  | .dict | .embedded | .label _ | .list _ => .error (.unsupported path kind .notFilterable)

def demandCondition (path : String) (f : Filter) : Demand → Query
  | .range min max => rangeCondition path min max f
  | .flags => flagCondition path f
  | .values present =>
    let values := if f.wantsMissing then present ++ [.null] else present
    .field path (if f.exclude then .notIn values else .isIn values)
  | .search pattern =>
    let found := Query.field path (.search pattern)
    if f.exclude then found.not else found
  | .truth => truthCondition path f

def demandPredicate (e : Expr) (kind : FieldKind) (f : Filter) (isMatching : Bool) : Demand → Expr
  | .range min max => rangePredicate e (withinBounds e kind min max) f isMatching
  | .flags => flagPredicate e f
  | .values present => settleMissing e (e.isIn present) f isMatching
  | .search pattern => settleMissing e (.search e pattern) f isMatching
  | .truth => truthPredicate e f

theorem numericCondition_eq_map (path : String) (kind : FieldKind) (f : Filter) :
    numericCondition path kind f = (numericDemand path kind f).map (demandCondition path f) := by
  unfold numericCondition numericDemand
  cases f.range with
  | some range =>
    dsimp only
    cases boundLiterals path kind range <;> rfl
  | none =>
    dsimp only
    cases f.hasFlags <;> rfl

theorem numericPredicate_eq_map (path : String) (e : Expr) (kind : FieldKind) (f : Filter)
    (isMatching : Bool) :
    numericPredicate path e kind f isMatching =
      (numericDemand path kind f).map (demandPredicate e kind f isMatching) := by
  unfold numericPredicate numericDemand
  cases f.range with
  | some range =>
    dsimp only
    cases boundLiterals path kind range <;> rfl
  | none =>
    dsimp only
    cases f.hasFlags <;> rfl

theorem valueCondition_eq_map (path : String) (kind : FieldKind) (f : Filter) :
    valueCondition path kind f = (valueDemand path kind f).map (demandCondition path f) := by
  unfold valueCondition valueDemand
  cases f.values with
  | some values =>
    dsimp only
    cases f.presentLiterals kind <;> rfl
  | none => cases f.search <;> cases kind <;> rfl

theorem valuePredicate_eq_map (path : String) (e : Expr) (kind : FieldKind) (f : Filter)
    (isMatching : Bool) :
    valuePredicate path e kind f isMatching =
      (valueDemand path kind f).map (demandPredicate e kind f isMatching) := by
  unfold valuePredicate valueDemand
  cases f.values with
  | some values =>
    dsimp only
    cases f.presentLiterals kind <;> rfl
  | none => cases f.search <;> cases kind <;> rfl

theorem leafCondition_eq_map (path : String) (kind : FieldKind) (f : Filter) :
    leafCondition path kind f = (demand path kind f).map (demandCondition path f) := by
  cases kind with
  | int | float | date | dateTime | frameSupport => exact numericCondition_eq_map path _ f
  | string | objectId => exact valueCondition_eq_map path _ f
  | _ => rfl

theorem predicate_eq_map (path : String) (e : Expr) (f : Filter) (isMatching : Bool)
    {kind : FieldKind} (hkind : kind.isList = false) :
    predicate path e f isMatching kind =
      (demand path kind f).map (demandPredicate e kind f isMatching) := by
  cases kind with
  | int | float | date | dateTime | frameSupport =>
    rw [predicate]
    exact numericPredicate_eq_map path e _ f isMatching
  | string | objectId =>
    rw [predicate]
    exact valuePredicate_eq_map path e _ f isMatching
  | list element => cases hkind
  | _ =>
    rw [predicate]
    rfl

theorem boundLiterals_eq_ok {path : String} {kind : FieldKind} {range : Double × Double}
    {bounds : Literal × Literal} (h : boundLiterals path kind range = .ok bounds) :
    boundLiteral path kind range.1 = .ok bounds.1 ∧
      boundLiteral path kind range.2 = .ok bounds.2 := by
  obtain ⟨min, hmin, h⟩ := Outcome.exists_of_bind_eq_ok h
  obtain ⟨max, hmax, h⟩ := Outcome.exists_of_bind_eq_ok h
  obtain rfl := Except.ok.inj h
  exact ⟨hmin, hmax⟩

theorem boundLiteral_of_path {path : String} {kind : FieldKind} {value : Double} {l : Literal}
    (h : boundLiteral path kind value = .ok l) (other : String) :
    boundLiteral other kind value = .ok l := by
  unfold boundLiteral at h ⊢
  split
  · next htemporal =>
    rw [if_pos htemporal] at h
    cases hinstant : boundInstant? value with
    | none =>
      rw [hinstant] at h
      cases h
    | some t =>
      rw [hinstant] at h
      exact h
  · next htemporal => rwa [if_neg htemporal] at h

theorem numericDemand_of_path {path : String} {kind : FieldKind} {f : Filter} {demand : Demand}
    (h : numericDemand path kind f = .ok demand) (other : String) :
    numericDemand other kind f = .ok demand := by
  unfold numericDemand at h ⊢
  cases hrange : f.range with
  | some range =>
    rw [hrange] at h
    obtain ⟨bounds, hbounds, rfl⟩ := Outcome.exists_of_map_eq_ok h
    obtain ⟨hmin, hmax⟩ := boundLiterals_eq_ok hbounds
    dsimp only
    rw [boundLiterals, boundLiteral_of_path hmin other, boundLiteral_of_path hmax other]
    rfl
  | none =>
    rw [hrange] at h
    dsimp only at h ⊢
    split
    · next hflags => rwa [if_pos hflags] at h
    · next hflags =>
      rw [if_neg hflags] at h
      cases h

theorem valueDemand_of_path {path : String} {kind : FieldKind} {f : Filter} {demand : Demand}
    (h : valueDemand path kind f = .ok demand) (other : String) :
    valueDemand other kind f = .ok demand := by
  unfold valueDemand at h ⊢
  cases hvalues : f.values with
  | some values =>
    rw [hvalues] at h
    exact h
  | none =>
    rw [hvalues] at h
    cases hsearch : f.search with
    | none =>
      rw [hsearch] at h
      cases h
    | some text =>
      rw [hsearch] at h
      cases kind with
      | string => exact h
      | _ => cases h

theorem demand_of_path {path : String} {kind : FieldKind} {f : Filter} {d : Demand}
    (h : demand path kind f = .ok d) (other : String) : demand other kind f = .ok d := by
  cases kind with
  | int | float | date | dateTime | frameSupport => exact numericDemand_of_path h other
  | string | objectId => exact valueDemand_of_path h other
  | bool => exact h
  | _ => cases h

theorem numericDemand_cases {path : String} {kind : FieldKind} {f : Filter} {demand : Demand}
    (h : numericDemand path kind f = .ok demand) :
    (∃ range min max, f.range = some range ∧ boundLiteral path kind range.1 = .ok min ∧
      boundLiteral path kind range.2 = .ok max ∧ demand = .range min max) ∨
      (f.range = none ∧ demand = .flags) := by
  unfold numericDemand at h
  cases hrange : f.range with
  | some range =>
    rw [hrange] at h
    obtain ⟨bounds, hbounds, rfl⟩ := Outcome.exists_of_map_eq_ok h
    obtain ⟨hmin, hmax⟩ := boundLiterals_eq_ok hbounds
    exact .inl ⟨range, bounds.1, bounds.2, rfl, hmin, hmax, rfl⟩
  | none =>
    rw [hrange] at h
    dsimp only at h
    split at h
    · exact .inr ⟨rfl, (Except.ok.inj h).symm⟩
    · cases h

theorem valueDemand_cases {path : String} {kind : FieldKind} {f : Filter} {demand : Demand}
    (h : valueDemand path kind f = .ok demand) :
    (∃ present, f.values.isSome ∧ f.presentLiterals kind = .ok present ∧
      demand = .values present) ∨
      (kind = .string ∧ f.values = none ∧
        ∃ text, f.search = some text ∧ demand = .search (searchPattern text)) := by
  unfold valueDemand at h
  cases hvalues : f.values with
  | some values =>
    rw [hvalues] at h
    obtain ⟨present, hpresent, rfl⟩ := Outcome.exists_of_map_eq_ok h
    exact .inl ⟨present, rfl, hpresent, rfl⟩
  | none =>
    rw [hvalues] at h
    cases hsearch : f.search with
    | none =>
      rw [hsearch] at h
      cases h
    | some text =>
      rw [hsearch] at h
      cases kind with
      | string => exact .inr ⟨rfl, rfl, text, rfl, (Except.ok.inj h).symm⟩
      | _ => cases h

end Filter
end MediaViews
