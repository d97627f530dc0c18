import MediaViews.Proofs.Executor.Written
import MediaViews.Proofs.Json.Members

/-! What is written for an expression or a condition means the same as the expression or condition
itself. A text with a dollar sign is read as a reference, so some names have no written form. -/
namespace MediaViews

namespace Value

def marks : List String := ["$oid", "$date", "$numberDouble"]

theorem ofMarked?_of_not_mem_marks {key : String} (h : key ∉ marks) (j : Json) :
    ofMarked? [(key, j)] = none := by
  simp only [marks, List.mem_cons, List.not_mem_nil, or_false, not_or] at h
  cases j <;> simp [ofMarked?, ofMark?, h]

theorem ofMarked?_objectId (id : ObjectId) :
    ofMarked? [("$oid", .str id.toHex)] = some (.objectId id) := by
  simp [ofMarked?, ofMark?, ObjectId.parse_toHex, Except.toOption]

theorem ofMarked?_instant (t : Instant) :
    ofMarked? [("$date", .str t.text)] = some (.instant t) := by
  simp [ofMarked?, ofMark?, Instant.ofText?_text]

theorem ofMarked?_nan : ofMarked? [("$numberDouble", .str "NaN")] = some (.float .nan) := by
  simp [ofMarked?, ofMark?]

theorem ofMarked?_infinity (negative : Bool) :
    ofMarked? [("$numberDouble", .str (if negative then "-Infinity" else "Infinity"))] =
      some (.float (.infinity negative)) := by
  cases negative <;> simp [ofMarked?, ofMark?]

end Value

theorem Double.eq_infinity {negative : Bool} {rank : Fin (Double.infinityRank + 1)}
    (h : ¬rank.val < Double.infinityRank) : Double.number negative rank = .infinity negative := by
  have hrank : rank.val = Double.infinityRank := by have := rank.isLt; omega
  simp only [Double.infinity, Double.ofRank, Double.number.injEq, true_and, Nat.min_self]
  exact Fin.ext hrank

namespace Value

theorem ofJson_floatJson (x : Double) : ofJson (Literal.floatJson x) = .float x := by
  cases x with
  | nan => simp only [Literal.floatJson, ofJson, ofMarked?_nan, Option.getD_some]
  | number negative rank =>
    by_cases h : rank.val < Double.infinityRank
    · simp only [Literal.floatJson, if_pos h, ofJson]
    · simp only [Literal.floatJson, if_neg h, ofJson, ofMarked?_infinity, Option.getD_some,
        Double.eq_infinity h]

mutual

theorem ofJson_toJson : ∀ l : Literal, ofJson l.toJson = ofLiteral l
  | .null | .bool _ | .int _ | .str _ => rfl
  | .float x => ofJson_floatJson x
  | .objectId id => by
    simp only [Literal.toJson, ObjectId.toExtendedJson, ofJson, ofMarked?_objectId,
      Option.getD_some, ofLiteral]
  | .instant t => by
    simp only [Literal.toJson, ofJson, ofMarked?_instant, Option.getD_some, ofLiteral]
  | .array items => by
    simp only [Literal.toJson, ofJson, ofItems_itemsJson, ofLiteral]

theorem ofItems_itemsJson : ∀ ls : List Literal,
    ofItems (Literal.itemsJson ls) = ofLiterals ls
  | [] => rfl
  | l :: ls => by
    simp only [Literal.itemsJson, ofItems, ofJson_toJson l, ofItems_itemsJson ls, ofLiterals]

end

end Value

namespace Expr

def beginsWithDollar (text : String) : Bool := text.toList.head? == some '$'

mutual

/-- Whether every reference is read as what it refers to, and every object as an object. -/
def readable : Expr → Bool
  | .ref .document none => false
  | .ref .document (some path) => !beginsWithDollar path
  | .ref (.var name) _ => !name.toList.contains '.'
  | .literal _ => true
  | .all operands => readableList operands
  | .any operands => readableList operands
  | .negation operand => readable operand
  | .comparison _ left right => readable left && readable right
  | .member needle haystack => readable needle && readable haystack
  | .size input => readable input
  | .filter input test => readable input && readable test
  | .map input _ body => readable input && readable body
  | .reduce input initial body => readable input && readable initial && readable body
  | .concat lists => readableList lists
  | .cond test yes no => readable test && readable yes && readable no
  | .ifNull value fallback => readable value && readable fallback
  | .present value => readable value
  | .distinct input => readable input
  | .toObject pairs => readable pairs
  | .elementAt input _ => readable input
  | .search input _ => readable input
  | .object entries =>
    decide (entries.map (·.1)).Nodup && readableEntries entries

def readableList : List Expr → Bool
  | [] => true
  | e :: es => readable e && readableList es

def readableEntries : List (String × Expr) → Bool
  | [] => true
  | (key, e) :: entries => !beginsWithDollar key && readable e && readableEntries entries

end

end Expr

namespace Executor

variable (ex : Executor)

theorem denote_operator {key : String} (hkey : isOperator key) (hmark : key ∉ Value.marks)
    (operand : Json) (σ : Scope) :
    ex.denote (.obj [(key, operand)]) σ =
      ex.operate key
        ⟨operand, ex.denote operand, ex.denoteOperands (ex.denote operand) operand,
          ex.denoteParts operand⟩ σ := by
  rw [denote, Value.ofMarked?_of_not_mem_marks hmark]
  simp only [hkey, if_true]

theorem not_mem_marks_of_not_isOperator {key : String} (h : isOperator key = false) :
    key ∉ Value.marks := by
  intro hm
  simp only [Value.marks, List.mem_cons, List.not_mem_nil, or_false] at hm
  rcases hm with rfl | rfl | rfl <;> exact absurd h (by decide)

theorem denote_record {members : List (String × Json)}
    (h : ∀ m ∈ members, isOperator m.1 = false) (σ : Scope) :
    ex.denote (.obj members) σ = .obj ((ex.denoteMembers members).map fun m => (m.1, m.2 σ)) := by
  cases members with
  | nil => rfl
  | cons m members =>
    obtain ⟨key, j⟩ := m
    have hkey := h (key, j) List.mem_cons_self
    cases members with
    | nil =>
      rw [denote, Value.ofMarked?_of_not_mem_marks (not_mem_marks_of_not_isOperator hkey)]
      simp only [hkey, Bool.false_eq_true, if_false, denoteMembers, List.map_cons, List.map_nil]
    | cons m' members => rfl

theorem reference_field {path : String} (h : Expr.beginsWithDollar path = false) (σ : Scope) :
    reference ("$" ++ path) σ = (Value.obj σ.document).valueAt (Path.components path) := by
  have hlist : ("$" ++ path).toList = '$' :: path.toList := by simp
  rw [reference, hlist]
  split
  · next rest heq =>
    have hpath := (List.cons.inj heq).2
    simp [Expr.beginsWithDollar, hpath] at h
  · next rest heq => rw [← (List.cons.inj heq).2, String.ofList_toList]
  · next hnone => exact absurd rfl (hnone path.toList)

theorem ne_dot_of_mem {name : List Char} (h : '.' ∉ name) : ∀ c ∈ name, (c != '.') = true := by
  intro c hc
  rw [bne_iff_ne]
  exact fun hdot => h (hdot ▸ hc)

theorem takeWhile_ne_dot {name : List Char} (h : '.' ∉ name) (path : List Char) :
    (name ++ '.' :: path).takeWhile (· != '.') = name := by
  rw [List.takeWhile_append_of_pos (ne_dot_of_mem h), List.takeWhile_cons_of_neg (by decide),
    List.append_nil]

theorem dropWhile_ne_dot {name : List Char} (h : '.' ∉ name) (path : List Char) :
    (name ++ '.' :: path).dropWhile (· != '.') = '.' :: path := by
  rw [List.dropWhile_append_of_pos (ne_dot_of_mem h), List.dropWhile_cons_of_neg (by decide)]

theorem reference_var {name : String} (h : '.' ∉ name.toList) (σ : Scope) :
    reference ("$$" ++ name) σ = σ.var name := by
  have hlist : ("$$" ++ name).toList = '$' :: '$' :: name.toList := by simp
  have htake := List.takeWhile_eq_self_iff.2 (ne_dot_of_mem h)
  have hdrop := List.dropWhile_eq_nil_iff.2 (ne_dot_of_mem h)
  simp only [reference, hlist, htake, hdrop, String.ofList_toList]

theorem reference_varField {name : String} (h : '.' ∉ name.toList) (path : String) (σ : Scope) :
    reference ("$$" ++ name ++ "." ++ path) σ = (σ.var name).valueAt (Path.components path) := by
  have hlist :
      ("$$" ++ name ++ "." ++ path).toList = '$' :: '$' :: (name.toList ++ '.' :: path.toList) := by
    simp
  simp only [reference, hlist, takeWhile_ne_dot h, dropWhile_ne_dot h, String.ofList_toList]

theorem denote_toJson_literal (l : Literal) (σ : Scope) :
    ex.denote (Expr.literalJson l) σ = .ofLiteral l := by
  cases l with
  | str s =>
    rw [Expr.literalJson]
    split
    · rw [denote_operator ex (by decide) (by decide)]
      rfl
    · next h =>
      -- A text that is not quoted begins with no dollar sign, so it refers to nothing.
      rw [denote, reference]
      split
      · next heq => simp [heq] at h
      · next heq => simp [heq] at h
      · rfl
  | array items =>
    rw [Expr.literalJson, denote_operator ex (by decide) (by decide)]
    exact Value.ofJson_toJson (.array items)
  | float x =>
    have hx := Value.ofJson_floatJson x
    show ex.denote (Literal.floatJson x) σ = .float x
    cases x with
    | nan => simp only [Literal.floatJson, denote, Value.ofMarked?_nan]
    | number negative rank =>
      by_cases h : rank.val < Double.infinityRank
      · simp only [Literal.floatJson, if_pos h, denote]
      · simp only [Literal.floatJson, if_neg h, denote, Value.ofMarked?_infinity,
          Double.eq_infinity h]
  | objectId id =>
    simp only [Expr.literalJson, Literal.toJson, ObjectId.toExtendedJson, denote,
      Value.ofMarked?_objectId, Value.ofLiteral]
  | instant t =>
    simp only [Expr.literalJson, Literal.toJson, denote, Value.ofMarked?_instant, Value.ofLiteral]
  | _ => rfl

theorem evalEntries_eq_map (entries : List (String × Expr)) (σ : Scope) :
    ex.evalEntries entries σ = entries.map fun e => (e.1, ex.eval e.2 σ) := by
  induction entries with
  | nil => rfl
  | cons e entries ih =>
    obtain ⟨key, e⟩ := e
    rw [evalEntries, ih, List.map_cons]

theorem keys_entriesJson (entries : List (String × Expr)) :
    (Expr.entriesJson entries).map (·.1) = entries.map (·.1) := by
  induction entries with
  | nil => rfl
  | cons e entries ih =>
    obtain ⟨key, e⟩ := e
    rw [Expr.entriesJson, List.map_cons, ih, List.map_cons]

theorem not_isOperator_of_readableEntries {entries : List (String × Expr)}
    (h : Expr.readableEntries entries) : ∀ m ∈ Expr.entriesJson entries,
      isOperator m.1 = false := by
  induction entries with
  | nil => exact fun m hm => absurd hm List.not_mem_nil
  | cons e entries ih =>
    obtain ⟨key, e⟩ := e
    simp only [Expr.readableEntries, Bool.and_eq_true] at h
    intro m hm
    rcases List.mem_cons.1 hm with rfl | hm
    · simpa [Expr.beginsWithDollar, isOperator] using h.1.1
    · exact ih h.2 m hm

theorem operate_comparison (op : Comparison) (o : Operand) (σ : Scope) :
    ex.operate op.operator o σ =
      .bool (op.admits ((o.item 0 σ).compare (o.item 1 σ))) := by
  cases op <;> rfl

mutual

theorem denote_toJson : ∀ {e : Expr}, e.readable → ex.denote e.toJson = ex.eval e
  -- The induction is on expressions. An operator's operand is no expression of its own, so what its
  -- parts mean is given by the induction hypotheses.
  | .ref .document none, h => by simp [Expr.readable] at h
  | .ref .document (some path), h => by
    funext σ
    exact reference_field (by simpa [Expr.readable] using h) σ
  | .ref (.var name) none, h => by
    funext σ
    exact reference_var (by simpa [Expr.readable] using h) σ
  | .ref (.var name) (some path), h => by
    funext σ
    exact reference_varField (by simpa [Expr.readable] using h) path σ
  | .literal l, _ => by
    funext σ
    exact denote_toJson_literal ex l σ
  | .all operands, h => by
    funext σ
    rw [Expr.toJson, denote_operator ex (by decide) (by decide), denoteOperands,
      denoteItems_listJson h]
    simp [operate, Operand.values, eval, evalList_eq_map, Function.comp_def]
  | .any operands, h => by
    funext σ
    rw [Expr.toJson, denote_operator ex (by decide) (by decide), denoteOperands,
      denoteItems_listJson h]
    simp [operate, Operand.values, eval, evalList_eq_map, Function.comp_def]
  | .negation operand, h => by
    funext σ
    rw [Expr.toJson, denote_operator ex (by decide) (by decide), denoteOperands, denoteItems,
      denoteItems, denote_toJson (e := operand) h]
    rfl
  | .comparison op left right, h => by
    funext σ
    simp only [Expr.readable, Bool.and_eq_true] at h
    rw [Expr.toJson, denote_operator ex (by cases op <;> rfl) (by cases op <;> decide),
      denoteOperands, denoteItems, denoteItems, denoteItems, denote_toJson h.1, denote_toJson h.2,
      operate_comparison]
    rfl
  | .member needle haystack, h => by
    funext σ
    simp only [Expr.readable, Bool.and_eq_true] at h
    rw [Expr.toJson, denote_operator ex (by decide) (by decide), denoteOperands, denoteItems,
      denoteItems, denoteItems, denote_toJson h.1, denote_toJson h.2]
    rfl
  | .size input, h => by
    funext σ
    rw [Expr.toJson, denote_operator ex (by decide) (by decide), denote_toJson (e := input) h]
    rfl
  | .filter input test, h => by
    funext σ
    simp only [Expr.readable, Bool.and_eq_true] at h
    rw [Expr.toJson, denote_operator ex (by decide) (by decide), denoteParts]
    simp only [denoteMembers, denote_toJson h.1, denote_toJson h.2]
    rfl
  | .map input var body, h => by
    funext σ
    simp only [Expr.readable, Bool.and_eq_true] at h
    rw [Expr.toJson, denote_operator ex (by decide) (by decide), denoteParts]
    simp only [denoteMembers, denote_toJson h.1, denote_toJson h.2]
    rfl
  | .reduce input initial body, h => by
    funext σ
    simp only [Expr.readable, Bool.and_eq_true] at h
    rw [Expr.toJson, denote_operator ex (by decide) (by decide), denoteParts]
    simp only [denoteMembers, denote_toJson h.1.1, denote_toJson h.1.2, denote_toJson h.2]
    rfl
  | .concat lists, h => by
    funext σ
    rw [Expr.toJson, denote_operator ex (by decide) (by decide), denoteOperands,
      denoteItems_listJson h]
    simp [operate, Operand.values, eval, evalList_eq_map, Function.comp_def]
  | .cond test yes no, h => by
    funext σ
    simp only [Expr.readable, Bool.and_eq_true] at h
    rw [Expr.toJson, denote_operator ex (by decide) (by decide), denoteParts]
    simp only [denoteMembers, denote_toJson h.1.1, denote_toJson h.1.2, denote_toJson h.2]
    rfl
  | .ifNull value fallback, h => by
    funext σ
    simp only [Expr.readable, Bool.and_eq_true] at h
    rw [Expr.toJson, denote_operator ex (by decide) (by decide), denoteOperands, denoteItems,
      denoteItems, denoteItems, denote_toJson h.1, denote_toJson h.2]
    rfl
  | .present value, h => by
    funext σ
    rw [Expr.toJson, denote_operator ex (by decide) (by decide), denoteOperands, denoteItems,
      denoteItems, denoteItems, denote_toJson (e := value) h]
    exact operate_comparison ex .gt _ σ
  | .distinct input, h => by
    funext σ
    rw [Expr.toJson, denote_operator ex (by decide) (by decide), denoteOperands, denoteItems,
      denoteItems, denote_toJson (e := input) h]
    simp [operate, Operand.values, eval]
  | .toObject pairs, h => by
    funext σ
    rw [Expr.toJson, denote_operator ex (by decide) (by decide), denote_toJson (e := pairs) h]
    rfl
  | .elementAt input index, h => by
    funext σ
    rw [Expr.toJson, denote_operator ex (by decide) (by decide), denoteOperands, denoteItems,
      denoteItems, denoteItems, denote_toJson (e := input) h]
    rfl
  | .search input pattern, h => by
    funext σ
    rw [Expr.toJson, denote_operator ex (by decide) (by decide), denoteParts]
    simp only [denoteMembers, denote_toJson (e := input) h]
    rfl
  | .object entries, h => by
    funext σ
    simp only [Expr.readable, Bool.and_eq_true, decide_eq_true_eq] at h
    rw [Expr.toJson, Json.ofMembers_of_nodup (by rw [keys_entriesJson]; exact h.1),
      denote_record ex (not_isOperator_of_readableEntries h.2), denoteMembers_entriesJson h.2,
      List.map_map, eval, evalEntries_eq_map]
    rfl

theorem denoteItems_listJson : ∀ {es : List Expr}, Expr.readableList es →
    ex.denoteItems (Expr.listJson es) = es.map ex.eval
  | [], _ => rfl
  | e :: es, h => by
    simp only [Expr.readableList, Bool.and_eq_true] at h
    rw [Expr.listJson, denoteItems, denote_toJson h.1, denoteItems_listJson h.2, List.map_cons]

theorem denoteMembers_entriesJson : ∀ {entries : List (String × Expr)},
    Expr.readableEntries entries →
      ex.denoteMembers (Expr.entriesJson entries) = entries.map fun e => (e.1, ex.eval e.2)
  | [], _ => rfl
  | (key, e) :: entries, h => by
    simp only [Expr.readableEntries, Bool.and_eq_true] at h
    rw [Expr.entriesJson, denoteMembers, denote_toJson h.1.2, denoteMembers_entriesJson h.2,
      List.map_cons]

end

end Executor

namespace Query

def connectives : List String := ["$and", "$or", "$nor", "$expr"]

mutual

def readable : Query → Bool
  | .all qs => readableList qs
  | .any qs => readableList qs
  | .neither qs => readableList qs
  | .field path _ => !connectives.contains path
  | .expr e => e.readable

def readableList : List Query → Bool
  | [] => true
  | q :: qs => readable q && readableList qs

end

end Query

namespace Executor

variable (ex : Executor)

theorem fieldTests_operator {key : String} (hkey : isOperator key) (hmark : key ∉ Value.marks)
    (j : Json) : fieldTests (.obj [(key, j)]) = [(key, j)] := by
  rw [fieldTests, Value.ofMarked?_of_not_mem_marks hmark]
  simp [hkey]

theorem meets_operator {key : String} (hkey : isOperator key) (hmark : key ∉ Value.marks)
    (hsearch : key ≠ "$regex") (met : List Value) (j : Json) :
    ex.meets met (.obj [(key, j)]) = meetsTest met key (.ofJson j) := by
  have hlookup : [(key, j)].lookup "$regex" = none := by
    rw [Value.lookup_cons_ite, if_neg (Ne.symm hsearch), List.lookup_nil]
  simp only [meets, fieldTests_operator hkey hmark, hlookup, List.all_cons, List.all_nil,
    Bool.and_true]

theorem meets_toJson (met : List Value) (test : FieldTest) :
    ex.meets met test.toJson = ex.passes met test := by
  cases test with
  | compare op value =>
    rw [FieldTest.toJson, meets_operator ex (by cases op <;> rfl) (by cases op <;> decide)
      (by cases op <;> decide), Value.ofJson_toJson]
    cases op <;> rfl
  | isIn values =>
    rw [FieldTest.toJson, meets_operator ex (by decide) (by decide) (by decide),
      Value.ofJson_toJson, Value.ofLiteral, Value.ofLiterals_eq_map]
    simp [meetsTest, passes, Value.items, Function.comp_def]
  | notIn values =>
    rw [FieldTest.toJson, meets_operator ex (by decide) (by decide) (by decide),
      Value.ofJson_toJson, Value.ofLiteral, Value.ofLiterals_eq_map]
    simp [meetsTest, passes, Value.items, Function.comp_def]
  | search pattern =>
    have htests : fieldTests (FieldTest.search pattern).toJson =
        [("$regex", .str pattern), ("$options", .str "i")] := by
      rw [FieldTest.toJson, fieldTests]
      simp [isOperator, Value.ofMarked?]
    simp [meets, htests, passes, Json.string?, List.lookup_cons]

theorem satisfiesMembers_field {path : String} (h : path ∉ Query.connectives) (j : Json)
    (d : Document) :
    ex.satisfiesMembers [(path, j)] d =
      ex.meets ((Value.obj d).reached (Path.components path)) j := by
  simp only [Query.connectives, List.mem_cons, List.not_mem_nil, or_false, not_or] at h
  obtain ⟨hand, hor, hnor, hexpr⟩ := h
  rw [satisfiesMembers, satisfiesMembers, Bool.and_true]
  · exact hand
  · exact hor
  · exact hnor
  · exact hexpr

mutual

theorem satisfies_toJson : ∀ {q : Query}, q.readable → ex.satisfies q.toJson = ex.holds q
  | .all qs, h => by
    funext d
    show ((ex.satisfiesItems (Query.listJson qs) d).all id && true) = ex.holdsAll qs d
    rw [Bool.and_true, (satisfiesItems_listJson h d).1]
  | .any qs, h => by
    funext d
    show ((ex.satisfiesItems (Query.listJson qs) d).any id && true) = ex.holdsAny qs d
    rw [Bool.and_true, (satisfiesItems_listJson h d).2]
  | .neither qs, h => by
    funext d
    show (!(ex.satisfiesItems (Query.listJson qs) d).any id && true) = !ex.holdsAny qs d
    rw [Bool.and_true, (satisfiesItems_listJson h d).2]
  | .field path test, h => by
    funext d
    have hpath : path ∉ Query.connectives := by simpa [Query.readable] using h
    show ex.satisfiesMembers [(path, test.toJson)] d = _
    rw [satisfiesMembers_field ex hpath, meets_toJson, holds]
  | .expr e, h => by
    funext d
    show ((ex.denote e.toJson ⟨d, []⟩).isTrue && true) = (ex.eval e ⟨d, []⟩).isTrue
    rw [Bool.and_true, denote_toJson ex h]

theorem satisfiesItems_listJson : ∀ {qs : List Query}, Query.readableList qs → ∀ d : Document,
    (ex.satisfiesItems (Query.listJson qs) d).all id = ex.holdsAll qs d ∧
      (ex.satisfiesItems (Query.listJson qs) d).any id = ex.holdsAny qs d
  | [], _, _ => ⟨rfl, rfl⟩
  | q :: qs, h, d => by
    simp only [Query.readableList, Bool.and_eq_true] at h
    obtain ⟨hall, hany⟩ := satisfiesItems_listJson h.2 d
    rw [Query.listJson, satisfiesItems, List.all_cons, List.any_cons, hall, hany,
      satisfies_toJson h.1]
    exact ⟨rfl, rfl⟩

end

end Executor
end MediaViews
