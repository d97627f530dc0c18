import MediaViews.Proofs.Outcome
import MediaViews.Stage.Wire

/-! Stages are read back as they were written, but for a null in place of a predicate on points. -/
namespace MediaViews

namespace Json

variable {α : Type} {encode : α → Json} {decode : Json → Option α}

theorem list?_map (h : ∀ a, decode (encode a) = some a) (as : List α) :
    list? decode (.arr (as.map encode)) = some as := by
  rw [list?]
  induction as with
  | nil => rfl
  | cons a as ih =>
    rw [List.map_cons, List.mapM_cons, h, ih]
    rfl

theorem list?_arr (items : List Json) : list? some (.arr items) = some items := by
  have hitems := @list?_map Json id some (fun _ => rfl) items
  rwa [List.map_id] at hitems

theorem list?_ofStrings (values : List String) :
    list? string? (ofStrings values) = some values :=
  @list?_map _ Json.str string? (fun _ => rfl) values

theorem count?_countJson (n : UInt64) : count? (Stage.countJson n) = some n := by
  have hlt : n.toNat < 2 ^ 64 := n.toNat_lt
  have hrange : (decide (0 ≤ (n.toNat : Int)) &&
      decide ((n.toNat : Int) < Nat.pow 2 64)) = true := by
    rw [Bool.and_eq_true, decide_eq_true_iff, decide_eq_true_iff]
    exact ⟨by omega, by exact_mod_cast hlt⟩
  rw [Stage.countJson, count?, if_pos hrange, Int.toNat_natCast, UInt64.ofNat_toNat]

theorem nullable?_of_ne_null {j : Json} (h : j ≠ .null) : nullable? decode j = (decode j).map some := by
  cases j with
  | null => exact absurd rfl h
  | _ => rfl

theorem optional_ofOption (hnull : ∀ a, encode a ≠ .null) {value : Option α}
    (hdecode : ∀ a ∈ value, decode (encode a) = some a) :
    optional decode (some (ofOption encode value)) = some value := by
  -- What is left out is written as null, so no value of its own may be written that way.
  cases value with
  | none => rfl
  | some a =>
    show nullable? decode (encode a) = _
    rw [nullable?_of_ne_null (hnull a), hdecode a rfl, Option.map_some]

theorem optional_map (hnull : ∀ a, encode a ≠ .null) {value : Option α}
    (hdecode : ∀ a ∈ value, decode (encode a) = some a) :
    optional decode (value.map encode) = some value := by
  cases value with
  | none => rfl
  | some a => exact optional_ofOption hnull hdecode

theorem optional_getD_null (value : Option Json) :
    optional some (some (value.getD .null)) = some (value.filter (!·.isNull)) := by
  cases value with
  | none => rfl
  | some j => cases j <;> rfl

theorem ne_null_of_optional {found : Option Json} {j : Json}
    (h : optional some found = some (some j)) : j ≠ .null := by
  rintro rfl
  cases found with
  | none => cases h
  | some j => cases j <;> cases h

end Json

namespace Stage

open Json (ofStrings ofOption optional)

def hasNullPredicate : Stage → Bool
  | .filterKeypoints _ (some .null) _ _ => true
  | _ => false

theorem exists_of_hasNullPredicate {stage : Stage} (h : stage.hasNullPredicate) :
    ∃ field labels onlyMatches, stage = .filterKeypoints field (some .null) labels onlyMatches := by
  unfold hasNullPredicate at h
  split at h
  · exact ⟨_, _, _, rfl⟩
  · cases h

def reread : Stage → Stage
  | .filterKeypoints field predicate labels onlyMatches =>
    .filterKeypoints field (predicate.filter (!·.isNull)) labels onlyMatches
  | stage => stage

theorem reread_eq_self {stage : Stage} (h : stage.hasNullPredicate = false) :
    stage.reread = stage := by
  cases stage with
  | filterKeypoints field predicate labels onlyMatches =>
    cases predicate with
    | none => rfl
    | some j => cases j <;> first | rfl | cases h
  | _ => rfl

theorem string?_str (text : String) : string? (some (.str text)) = some text := rfl

theorem flag?_bool (default flag : Bool) : flag? default (some (.bool flag)) = some flag := rfl

theorem strings?_ofStrings (values : List String) :
    strings? (some (ofStrings values)) = some values := Json.list?_ofStrings values

theorem count?_countJson (n : UInt64) : count? (some (countJson n)) = some n := by
  have hsome (j : Json) : count? (some j) = Json.count? j := rfl
  rw [hsome, Json.count?_countJson]

theorem optional_strings (values : Option (List String)) :
    optional (Json.list? Json.string?) (some (ofOption ofStrings values)) = some values :=
  Json.optional_ofOption nofun fun values _ => Json.list?_ofStrings values

theorem optional_count (n : Option UInt64) :
    optional Json.count? (some (ofOption countJson n)) = some n :=
  Json.optional_ofOption nofun fun n _ => Json.count?_countJson n

theorem optional_string (text : Option String) :
    optional Json.string? (some (ofOption .str text)) = some text :=
  @Json.optional_ofOption _ Json.str Json.string? nofun text fun _ _ => rfl

theorem decode?_toJson (stage : Stage) : decode? stage.toJson = some stage.reread := by
  have hdecode : decode? stage.toJson = ofKeywords? stage.className (stage.keywords.lookup ·) := rfl
  rw [hdecode]
  cases stage <;>
    simp [ofKeywords?, className, keywords, List.lookup, string?_str, flag?_bool,
      strings?_ofStrings, count?_countJson, optional_strings, optional_count, optional_string,
      Json.list?_arr, Json.optional_getD_null, reread]

theorem ofJson_toJson (stage : Stage) : ofJson stage.toJson = .ok stage.reread := by
  rw [ofJson, decode?_toJson]

theorem optional_of_ofKeywords? {className field : String} {arg : String → Option Json}
    {predicate : Option Json} {labels : Option (List String)} {onlyMatches : Bool}
    (h : ofKeywords? className arg = some (.filterKeypoints field predicate labels onlyMatches)) :
    optional some (arg "filter") = some predicate := by
  unfold ofKeywords? at h
  split at h
  case h_5 =>
    obtain ⟨_, -, h⟩ := Option.bind_eq_some_iff.1 h
    obtain ⟨found, hfound, h⟩ := Option.bind_eq_some_iff.1 h
    obtain ⟨_, -, h⟩ := Option.bind_eq_some_iff.1 h
    obtain ⟨_, -, h⟩ := Option.bind_eq_some_iff.1 h
    cases h
    exact hfound
  all_goals simp [Option.bind_eq_some_iff] at h

theorem hasNullPredicate_of_ofKeywords? {className : String} {arg : String → Option Json}
    {stage : Stage} (h : ofKeywords? className arg = some stage) :
    stage.hasNullPredicate = false := by
  cases stage with
  | filterKeypoints field predicate labels onlyMatches =>
    have hpredicate := optional_of_ofKeywords? h
    cases predicate with
    | none => rfl
    | some j =>
      have hnull := Json.ne_null_of_optional hpredicate
      cases j <;> first | rfl | exact absurd rfl hnull
  | _ => rfl

theorem hasNullPredicate_of_ofArguments? {className : String} {kwargs : Json} {stage : Stage}
    (h : ofArguments? className kwargs = some stage) : stage.hasNullPredicate = false := by
  obtain ⟨members, -, h⟩ := Option.bind_eq_some_iff.1 h
  exact hasNullPredicate_of_ofKeywords? h

theorem hasNullPredicate_of_ofJson {j : Json} {stage : Stage} (h : ofJson j = .ok stage) :
    stage.hasNullPredicate = false := by
  unfold ofJson at h
  split at h
  · next hdecode =>
    obtain rfl := Except.ok.inj h
    unfold decode? at hdecode
    split at hdecode
    · obtain ⟨className, -, hdecode⟩ := Option.bind_eq_some_iff.1 hdecode
      obtain ⟨kwargs, -, hdecode⟩ := Option.bind_eq_some_iff.1 hdecode
      exact hasNullPredicate_of_ofArguments? hdecode
    · exact hasNullPredicate_of_ofArguments? hdecode
    · cases hdecode
  · cases h

theorem mapM_ofJson_toJson {stages : List Stage}
    (h : ∀ stage ∈ stages, stage.hasNullPredicate = false) :
    (stages.map toJson).mapM ofJson = .ok stages := by
  induction stages with
  | nil => rfl
  | cons stage stages ih =>
    obtain ⟨hstage, hrest⟩ := List.forall_mem_cons.1 h
    rw [List.map_cons, List.mapM_cons, ofJson_toJson, reread_eq_self hstage, ih hrest]
    rfl

end Stage
end MediaViews
