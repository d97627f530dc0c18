import MediaViews.Filter.Keypoint
import MediaViews.Proofs.Double.Rounding
import MediaViews.Proofs.Executor.Face
import MediaViews.Proofs.Filter.Meaning
import MediaViews.Proofs.LabelTags.Gathering

/-! What predicates tell of the value that they are about. They tell nothing of what an embedded
document in it holds, and they do not look at the document that the value comes from. -/
namespace MediaViews

open Value (SeesFace)

namespace Value

theorem compare_count_zero (n : Nat) :
    (Value.int n).compare (.int 0) = if n = 0 then .eq else .gt := by
  -- A count is compared with zero as it should be, though both are rounded before.
  have hzero : (Double.ofInt 0).position = some 0 := by decide +kernel
  have hposition : (Double.ofInt n).position =
      some ((min (Double.nearestRank n 1) Double.infinityRank : Nat) : Int) := by
    have hsign : decide ((n : Int) < 0) = false := by simp
    rw [Double.ofInt, hsign, Int.natAbs_natCast]
    rfl
  have hcompare : (Value.int n).compare (.int 0) =
      Ord.compare (Double.ofInt n).position (Double.ofInt 0).position := rfl
  rw [hcompare, hzero, hposition]
  show Ord.compare ((min (Double.nearestRank n 1) Double.infinityRank : Nat) : Int) 0 = _
  by_cases h : n = 0
  · subst h
    rfl
  · have hrank := Double.nearestRank_ne_zero h
    have hinfinity : Double.infinityRank ≠ 0 := by decide
    rw [if_neg h, Int.compare_eq_gt]
    omega

theorem within_face (min max : Literal) :
    SeesFace fun v => v.within (ofLiteral min) (ofLiteral max) := by
  intro v
  simp only [within, compare_face]

end Value

theorem Sentinel.same_face (s : Sentinel) : SeesFace fun v => v.same s.value :=
  fun v => Value.same_face v s.literal

theorem Value.same_bool_face (b : Bool) : SeesFace fun v => v.same (.bool b) :=
  fun v => Value.same_face v (.bool b)

namespace Demand

variable (ex : Executor)

theorem admits_face (demand : Demand) (f : Filter) : SeesFace (demand.admits ex f) := by
  have hsentinel (s : Sentinel) (v : Value) : v.face.same s.value = v.same s.value :=
    s.same_face v
  have hbool (b : Bool) (v : Value) : v.face.same (.bool b) = v.same (.bool b) :=
    Value.same_bool_face b v
  intro v
  cases demand with
  | range min max =>
    simp only [admits, hsentinel, Value.within_face min max v]
  | flags => simp only [admits, hsentinel]
  | values present => simp only [admits, Value.same_face, Value.isNull_face]
  | search pattern =>
    simp only [admits, Value.isNull_face, ex.finds_face "i" pattern v]
  | truth => simp only [admits, hbool]

end Demand

/-! Every predicate is read as it is meant. -/

namespace Expr

theorem readableList_append (es more : List Expr) :
    readableList (es ++ more) = (readableList es && readableList more) := by
  induction es with
  | nil => rfl
  | cons e es ih => rw [List.cons_append, readableList, readableList, ih, Bool.and_assoc]

theorem readableList_of_forall {es : List Expr} (h : ∀ e ∈ es, e.readable) : readableList es := by
  induction es with
  | nil => rfl
  | cons e es ih =>
    rw [readableList, h e List.mem_cons_self, ih fun e' he' => h e' (List.mem_cons_of_mem e he')]
    rfl

theorem readable_and (a b : Expr) : (a.and b).readable = (a.readable && b.readable) := by
  cases a with
  | all operands => simp [Expr.and, readable, readableList_append, readableList]
  | _ => simp [Expr.and, readable, readableList]

theorem readable_or (a b : Expr) : (a.or b).readable = (a.readable && b.readable) := by
  cases a with
  | any operands => simp [Expr.or, readable, readableList_append, readableList]
  | _ => simp [Expr.or, readable, readableList]

end Expr

namespace Filter

variable {e : Expr}

theorem readable_sentinelTest (he : e.readable) (s : Sentinel) (equal : Bool) :
    (sentinelTest e s equal).readable := by
  cases s <;> cases equal <;>
    simp [sentinelTest, absent, Expr.eq, Expr.ne, Expr.readable, he]

theorem readable_withinBounds (he : e.readable) (kind : FieldKind) (min max : Literal) :
    (withinBounds e kind min max).readable := by
  unfold withinBounds
  split <;> simp [Expr.readable_and, Expr.gte, Expr.lte, Expr.readable, he]

theorem readable_truthPredicate (he : e.readable) (f : Filter) : (truthPredicate e f).readable := by
  unfold truthPredicate
  split <;> simp [Expr.readable_and, Expr.eq, Expr.ne, Expr.isIn, Expr.ofBool, Expr.readable, he]

theorem readable_settleMissing {test : Expr} (he : e.readable) (htest : test.readable) (f : Filter)
    (isMatching : Bool) : (settleMissing e test f isMatching).readable := by
  unfold settleMissing
  cases f.exclude <;> cases isMatching <;> cases f.wantsMissing <;>
    simp [Expr.readable_and, Expr.readable_or, absent, Expr.readable, htest, he]

theorem readable_rangePredicate {inside : Expr} (he : e.readable) (hinside : inside.readable)
    (f : Filter) (isMatching : Bool) : (rangePredicate e inside f isMatching).readable := by
  unfold rangePredicate
  dsimp only
  split <;> split <;> split <;>
    simp [Expr.readable_or, absent, Expr.isIn, Expr.readable, hinside, he]

theorem readable_demandPredicate (he : e.readable) (kind : FieldKind) (f : Filter)
    (isMatching : Bool) (demand : Demand) :
    (demandPredicate e kind f isMatching demand).readable := by
  cases demand with
  | range min max =>
    exact readable_rangePredicate he (readable_withinBounds he kind min max) f isMatching
  | flags =>
    have htests : ∀ test ∈ f.unsetSentinels.map (sentinelTest e · f.exclude), test.readable := by
      intro test htest
      obtain ⟨s, -, rfl⟩ := List.mem_map.1 htest
      exact readable_sentinelTest he s f.exclude
    simp only [demandPredicate, flagPredicate]
    split
    · rfl
    · next test h => exact htests test (h ▸ List.mem_cons_self)
    · exact Expr.readableList_of_forall htests
  | values present =>
    exact readable_settleMissing he (by simp [Expr.isIn, Expr.readable, he]) f isMatching
  | search pattern => exact readable_settleMissing he (by simpa [Expr.readable] using he) f isMatching
  | truth => exact readable_truthPredicate he f

theorem readable_predicate {path : String} {f : Filter} {isMatching : Bool} {kind : FieldKind}
    {p : Expr} (he : e.readable) (h : predicate path e f isMatching kind = .ok p) : p.readable := by
  induction kind generalizing e f p with
  | list element ih =>
    obtain ⟨inner, hinner, h⟩ := Outcome.exists_of_bind_eq_ok h
    obtain rfl := Except.ok.inj h
    have hreadable := ih (by rfl) hinner
    split <;> simp [Expr.eq, Expr.gt, Expr.orEmpty, Expr.emptyArray, Expr.ofInt, Expr.readable,
      he, hreadable]
  | _ =>
    rw [predicate_eq_map path e f isMatching rfl] at h
    obtain ⟨demand, -, rfl⟩ := Outcome.exists_of_map_eq_ok h
    exact readable_demandPredicate he _ f isMatching demand

end Filter

/-! A predicate judges a value by its face. -/

namespace Executor

variable (ex : Executor)

/-- A predicate is a test of a value's face. -/
def Judges (predicate value : Expr) : Prop :=
  ∃ test, SeesFace test ∧ ∀ σ, (ex.eval predicate σ).isTrue = test (ex.eval value σ)

end Executor

namespace Filter

variable (ex : Executor) (e : Expr)

theorem judges_rangePredicate {inside : Expr} (h : ex.Judges inside e) (f : Filter) :
    ex.Judges (rangePredicate e inside f false) e := by
  obtain ⟨test, htest, heval⟩ := h
  refine ⟨fun v => f.exclude != (test v || f.setSentinels.any fun s => v.same s.value),
    fun v => ?_, fun σ => ?_⟩
  · have hsentinel : (fun s : Sentinel => v.face.same s.value) = fun s => v.same s.value :=
      funext fun s => s.same_face v
    simp only [htest v, hsentinel]
  · rw [eval_rangePredicate, heval]

theorem judges_withinBounds (kind : FieldKind) (min max : Literal) :
    ex.Judges (withinBounds e kind min max) e := by
  unfold withinBounds
  split
  · refine ⟨fun v => Comparison.gte.admits ((v.elementAt 0).compare (.ofLiteral min)) &&
      Comparison.lte.admits ((v.elementAt 1).compare (.ofLiteral max)), fun v => ?_, fun σ => ?_⟩
    · simp only [Value.elementAt_face, Value.compare_face]
    · rw [Executor.eval_and]
      rfl
  · refine ⟨fun v => v.within (.ofLiteral min) (.ofLiteral max), Value.within_face min max,
      fun σ => ?_⟩
    rw [Executor.eval_and]
    rfl

theorem judges_truthPredicate (f : Filter) : ex.Judges (truthPredicate e f) e :=
  ⟨Demand.truth.admits ex f, Demand.admits_face ex .truth f, eval_truthPredicate ex e f⟩

theorem judges_demandPredicate (kind : FieldKind) (f : Filter) (demand : Demand) :
    ex.Judges (demandPredicate e kind f false demand) e := by
  by_cases hrange : ∃ min max, demand = .range min max
  · obtain ⟨min, max, rfl⟩ := hrange
    exact judges_rangePredicate ex e (judges_withinBounds ex e kind min max) f
  · -- Only the predicate of a range is built from the kind.
    have hkind : demandPredicate e kind f false demand =
        demandPredicate e .int f false demand := by
      cases demand with
      | range min max => exact absurd ⟨min, max, rfl⟩ hrange
      | _ => rfl
    rw [hkind]
    exact ⟨demand.admits ex f, Demand.admits_face ex demand f,
      eval_demandPredicate ex e (by decide) f demand⟩

theorem eval_count (list test : Expr) (keep : Value → Bool)
    (hkeep : ∀ (σ : Scope) item, (ex.eval test (σ.bind "this" item)).isTrue = keep item)
    (σ : Scope) :
    ex.eval (.size (.filter list.orEmpty test)) σ =
      .int ((ex.eval list σ).items.filter keep).length := by
  rw [Executor.eval, Executor.eval, LabelTags.eval_orEmpty]
  simp only [hkeep]
  cases ex.eval list σ <;> rfl

theorem eval_listTest (list test : Expr) (keep : Value → Bool)
    (hkeep : ∀ (σ : Scope) item, (ex.eval test (σ.bind "this" item)).isTrue = keep item)
    (exclude : Bool) (σ : Scope) :
    (ex.eval (if exclude then (Expr.size (.filter list.orEmpty test)).eq (.ofInt 0)
      else (Expr.size (.filter list.orEmpty test)).gt (.ofInt 0)) σ).isTrue =
      ((ex.eval list σ).items.any keep != exclude) := by
  have hcount := eval_count ex list test keep hkeep σ
  generalize (ex.eval list σ).items = items at hcount
  have hzero : ex.eval (.ofInt 0) σ = .int 0 := rfl
  have hcompare : (Value.int (items.filter keep).length).compare (.int 0) =
      if items.any keep then .gt else .eq := by
    rw [Value.compare_count_zero]
    simp only [List.length_eq_zero_iff, List.filter_eq_nil_iff, ← List.any_eq_false]
    cases items.any keep <;> rfl
  cases exclude with
  | true =>
    rw [if_pos rfl, Expr.eq, Executor.eval, hcount, hzero, hcompare]
    cases items.any keep <;> rfl
  | false =>
    rw [if_neg Bool.false_ne_true, Expr.gt, Executor.eval, hcount, hzero, hcompare]
    cases items.any keep <;> rfl

theorem judges_predicate {path : String} {f : Filter} {kind : FieldKind} {p : Expr}
    (h : predicate path e f false kind = .ok p) : ex.Judges p e := by
  induction kind generalizing e f p with
  | list element ih =>
    obtain ⟨inner, hinner, h⟩ := Outcome.exists_of_bind_eq_ok h
    obtain rfl := Except.ok.inj h
    obtain ⟨test, htest, heval⟩ := ih .this hinner
    refine ⟨fun v => v.items.any test != f.exclude, fun v => ?_, fun σ => ?_⟩
    · have hface : (test ∘ Value.face) = test := funext htest
      dsimp only
      rw [Value.items_face, List.any_map, hface]
    · exact eval_listTest ex e inner test (fun σ item => heval (σ.bind "this" item)) f.exclude σ
  | _ =>
    rw [predicate_eq_map path e f false rfl] at h
    obtain ⟨demand, -, rfl⟩ := Outcome.exists_of_map_eq_ok h
    exact judges_demandPredicate ex e _ f demand

theorem pointPredicate_spec {path : String} {kind : FieldKind} {f : Filter} {p : Expr}
    (he : e.readable) (h : pointPredicate path e kind f = .ok p) : p.readable ∧ ex.Judges p e := by
  have hnumber : ∀ {kind : FieldKind} {range : Double × Double},
      (boundLiterals path kind range).bind (fun bounds =>
        .ok (if f.exclude then .negation (withinBounds e kind bounds.1 bounds.2)
          else withinBounds e kind bounds.1 bounds.2)) = .ok p → p.readable ∧ ex.Judges p e := by
    intro kind range h
    obtain ⟨bounds, -, h⟩ := Outcome.exists_of_bind_eq_ok h
    obtain rfl := Except.ok.inj h
    have hinside := readable_withinBounds he kind bounds.1 bounds.2
    obtain ⟨test, htest, heval⟩ := judges_withinBounds ex e kind bounds.1 bounds.2
    split
    · refine ⟨hinside, fun v => !test v, fun v => congrArg _ (htest v), fun σ => ?_⟩
      rw [Executor.eval, Value.isTrue_bool, heval]
    · exact ⟨hinside, test, htest, heval⟩
  cases kind with
  | bool =>
    obtain rfl := Except.ok.inj h
    exact ⟨readable_truthPredicate he f, judges_truthPredicate ex e f⟩
  | float | int =>
    rw [pointPredicate] at h
    cases hrange : f.range with
    | none =>
      rw [hrange] at h
      cases h
    | some range =>
      rw [hrange] at h
      exact hnumber h
  | _ => cases h

end Filter
end MediaViews
