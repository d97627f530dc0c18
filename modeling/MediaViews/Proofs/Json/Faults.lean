import MediaViews.Json.Fault
import MediaViews.Proofs.Json.Records

/-! Faults and decoding: a value is refused by a decoder exactly where a fault is found in it, and the
fault of a record depends on the order in which the record is written. -/
namespace MediaViews.Json

variable {α : Type} {fault? : Json → Option Fault} {decode : Json → Option α}

def Explains (fault? : Json → Option Fault) (decode : Json → Option α) : Prop :=
  ∀ j, fault? j = none ↔ (decode j).isSome

theorem explains_leaf (expected : String) (decode : Json → Option α) :
    Explains (leafFault? expected decode) decode := by
  intro j
  unfold leafFault?
  split <;> simp_all

theorem Explains.nullable (h : Explains fault? decode) :
    Explains (nullableFault? fault?) (nullable? decode) := by
  intro j
  cases j with
  | null => exact iff_of_true rfl rfl
  | _ => simpa [nullableFault?, nullable?] using h _

theorem Explains.list (h : Explains fault? decode) :
    Explains (listFault? fault?) (list? decode) := by
  intro j
  cases j with
  | arr items =>
    rw [listFault?, list?, Outcome.isSome_mapM_iff, List.findSome?_eq_none_iff]
    exact forall₂_congr fun item _ => h item
  | _ => exact iff_of_false (Option.some_ne_none _) Bool.false_ne_true

theorem Explains.map (h : Explains fault? decode) : Explains (mapFault? fault?) (map? decode) := by
  intro j
  cases j with
  | obj members =>
    have hdecoded : (map? decode (.obj members)).isSome ↔ ∀ m ∈ members, (decode m.2).isSome := by
      have hpairs : (map? decode (.obj members)).isSome =
          (members.mapM fun m => (decode m.2).map (m.1, ·)).isSome := by
        show ((members.mapM fun m => (decode m.2).map (m.1, ·)) >>= fun pairs =>
          some (SortedMap.ofList pairs)).isSome = _
        cases members.mapM fun m => (decode m.2).map (m.1, ·) <;> rfl
      simp only [hpairs, Outcome.isSome_mapM_iff, Option.isSome_map]
    rw [mapFault?, List.findSome?_eq_none_iff, hdecoded]
    exact forall₂_congr fun m _ => h m.2
  | _ => exact iff_of_false (Option.some_ne_none _) Bool.false_ne_true

theorem Explains.withDefault (h : Explains fault? decode) (default : α) (field : Option Json) :
    (withDefault default decode field).isSome ↔ ∀ j, field = some j → fault? j = none := by
  cases field with
  | none => simp [Json.withDefault]
  | some j => simp [Json.withDefault, h j]

theorem Explains.optional (h : Explains fault? decode) (field : Option Json) :
    (optional decode field).isSome ↔ ∀ j, field = some j → nullableFault? fault? j = none :=
  h.nullable.withDefault none field

theorem Explains.required (h : Explains fault? decode) (field : Option Json) :
    (∃ j, field = some j ∧ (decode j).isSome) ↔
      (∀ j, field = some j → fault? j = none) ∧ field.isSome := by
  cases field with
  | none => simp
  | some j => simp [h j]

/-! Records. -/

variable {fields : FieldFaults} {seen : List String}

theorem memberFault?_eq_none_iff {m : String × Json} :
    memberFault? fields seen m = none ↔
      ∀ fault?, fields.lookup m.1 = some fault? → m.1 ∉ seen ∧ fault? m.2 = none := by
  unfold memberFault?
  cases fields.lookup m.1 with
  | none => simp
  | some fault? => by_cases hseen : m.1 ∈ seen <;> simp [hseen]

/-- A field is written once at most, not among the members in front, and without a fault. -/
def Faultless (seen : List String) (members : List (String × Json)) (name : String)
    (fault? : Json → Option Fault) : Prop :=
  (name ∈ seen → name ∉ members.map (·.1)) ∧ (members.map (·.1)).count name ≤ 1 ∧
    ∀ j, (name, j) ∈ members → fault? j = none

theorem faultless_cons {key : String} {value : Json} {members : List (String × Json)}
    {name : String} :
    Faultless seen ((key, value) :: members) name fault? ↔
      (key = name → key ∉ seen ∧ fault? value = none) ∧
        Faultless (key :: seen) members name fault? := by
  unfold Faultless
  by_cases hkey : key = name
  · subst hkey
    rw [List.map_cons, List.count_cons_self, Nat.succ_le_succ_iff, Nat.le_zero, List.count_eq_zero]
    grind
  · simp only [List.map_cons, List.count_cons_of_ne hkey, List.mem_cons, Prod.mk.injEq,
      Ne.symm hkey, false_or, false_and, hkey, false_imp_iff, true_and]

theorem membersFault?_eq_none_iff {members : List (String × Json)} :
    membersFault? fields seen members = none ↔
      ∀ name fault?, fields.lookup name = some fault? → Faultless seen members name fault? := by
  induction members generalizing seen with
  | nil => simp [membersFault?, Faultless]
  | cons m members ih =>
    obtain ⟨key, value⟩ := m
    rw [membersFault?, Option.or_eq_none_iff, memberFault?_eq_none_iff, ih]
    simp only [faultless_cons]
    constructor
    · rintro ⟨hfirst, hrest⟩ name fault? hname
      exact ⟨fun hkey => hfirst fault? (hkey ▸ hname), hrest name fault? hname⟩
    · intro h
      exact ⟨fun fault? hname => (h key fault? hname).1 rfl,
        fun name fault? hname => (h name fault? hname).2⟩

theorem lookup_eq_some_iff_of_count {β : Type} {members : List (String × β)} {key : String}
    (h : (members.map (·.1)).count key ≤ 1) (value : β) :
    members.lookup key = some value ↔ (key, value) ∈ members := by
  have hmem : (key, value) ∈ members ↔ (key, value) ∈ members.filter (·.1 == key) := by simp
  have hkeys : ∀ m ∈ members.filter (·.1 == key), m.1 = key := fun m hm =>
    beq_iff_eq.1 (List.mem_filter.1 hm).2
  rw [← length_filter_key] at h
  rw [hmem, lookup_eq_head?_filter]
  generalize members.filter (·.1 == key) = found at h hkeys ⊢
  cases found with
  | nil => simp
  | cons m found =>
    obtain rfl : found = [] := List.length_eq_zero_iff.1 (Nat.le_zero.1 (Nat.le_of_succ_le_succ h))
    obtain rfl : m.1 = key := hkeys m List.mem_cons_self
    simp [Prod.ext_iff, eq_comm]

theorem lookup_fields_iff (hnames : (fields.map (·.1)).Nodup) {name : String} :
    fields.lookup name = some fault? ↔ (name, fault?) ∈ fields :=
  lookup_eq_some_iff_of_count (List.nodup_iff_count_le_one.1 hnames name) fault?

theorem membersFault?_eq_none_iff_record? (hnames : (fields.map (·.1)).Nodup)
    {members : List (String × Json)} :
    membersFault? fields [] members = none ↔
      ∃ field, (Json.obj members).record? (fields.map (·.1)) = some field ∧
        ∀ f ∈ fields, ∀ j, field f.1 = some j → f.2 j = none := by
  rw [membersFault?_eq_none_iff]
  by_cases hcount : ∀ f ∈ fields, (members.map (·.1)).count f.1 ≤ 1
  · have hrecord : (Json.obj members).record? (fields.map (·.1)) = some (members.lookup ·) := by
      rw [record?, if_pos]
      simpa [length_filter_key] using hcount
    rw [hrecord]
    constructor
    · intro h
      refine ⟨_, rfl, fun f hf j hj => ?_⟩
      obtain ⟨-, -, hfault⟩ := h f.1 f.2 ((lookup_fields_iff hnames).2 hf)
      exact hfault j ((lookup_eq_some_iff_of_count (hcount f hf) j).1 hj)
    · rintro ⟨_, hfield, hfaults⟩ name fault? hname
      obtain rfl := Option.some.inj hfield
      have hf := (lookup_fields_iff hnames).1 hname
      refine ⟨fun hseen => absurd hseen List.not_mem_nil, hcount _ hf, fun j hj => hfaults _ hf j ?_⟩
      exact (lookup_eq_some_iff_of_count (hcount _ hf) j).2 hj
  · have hrecord : (Json.obj members).record? (fields.map (·.1)) = none := by
      rw [record?, if_neg]
      simpa [length_filter_key] using hcount
    rw [hrecord]
    refine iff_of_false (fun h => hcount fun f hf => ?_) (by simp)
    exact (h f.1 f.2 ((lookup_fields_iff hnames).2 hf)).2.1

theorem map_fst_zip_prefix {β γ : Type} (xs : List β) (ys : List γ) :
    (xs.zip ys).map (·.1) <+: xs := by
  induction xs generalizing ys with
  | nil => exact List.prefix_rfl
  | cons x xs ih =>
    cases ys with
    | nil => exact List.nil_prefix
    | cons y ys => simpa using ih ys

theorem itemsFault?_eq_none_iff (hnames : (fields.map (·.1)).Nodup) (items : List Json) :
    itemsFault? fields items = none ↔
      ∀ f ∈ fields, ∀ j, ((fields.map (·.1)).zip items).lookup f.1 = some j → f.2 j = none := by
  have hzip : (fields.map (·.1)).zip items = (fields.zip items).map fun e => (e.1.1, e.2) := by
    rw [List.zip_map_left]
    rfl
  have hcount (name : String) : (((fields.map (·.1)).zip items).map (·.1)).count name ≤ 1 := by
    have hfront := map_fst_zip_prefix (fields.map (·.1)) items
    exact (hfront.sublist.count_le name).trans (List.nodup_iff_count_le_one.1 hnames name)
  rw [itemsFault?, List.findSome?_eq_none_iff]
  constructor
  · intro h f hf j hj
    rw [lookup_eq_some_iff_of_count (hcount f.1), hzip] at hj
    obtain ⟨⟨g, item⟩, hmem, heq⟩ := List.mem_map.1 hj
    obtain ⟨hname, rfl⟩ := Prod.mk.inj heq
    have hg := (List.of_mem_zip hmem).1
    obtain rfl : g = f := List.inj_on_of_nodup_map hnames hg hf hname
    exact h _ hmem
  · rintro h ⟨f, item⟩ hmem
    refine h f (List.of_mem_zip hmem).1 item ?_
    rw [lookup_eq_some_iff_of_count (hcount f.1), hzip]
    exact List.mem_map.2 ⟨_, hmem, rfl⟩

theorem recordFault?_eq_none_iff (hnames : (fields.map (·.1)).Nodup) (name : String) (j : Json) :
    recordFault? name fields j = none ↔
      ∃ field, j.record? (fields.map (·.1)) = some field ∧
        ∀ f ∈ fields, ∀ value, field f.1 = some value → f.2 value = none := by
  cases j with
  | obj members => exact membersFault?_eq_none_iff_record? hnames
  | arr items =>
    rw [recordFault?, record?, List.length_map, Option.or_eq_none_iff,
      itemsFault?_eq_none_iff hnames]
    split <;> simp
  | _ => exact iff_of_false (Option.some_ne_none _) (by simp [record?])

/-! The order of faults. -/

theorem membersFault?_append (fields : FieldFaults) (seen : List String)
    (ms ns : List (String × Json)) :
    membersFault? fields seen (ms ++ ns) = (membersFault? fields seen ms).or
      (membersFault? fields ((ms.map (·.1)).reverse ++ seen) ns) := by
  induction ms generalizing seen with
  | nil => rfl
  | cons m ms ih =>
    rw [List.cons_append, membersFault?, ih, membersFault?, Option.or_assoc, List.map_cons,
      List.reverse_cons, List.append_assoc, List.singleton_append]

theorem membersFault?_opening {name : String} (hnames : (fields.map (·.1)).Nodup)
    (hfault : (name, fault?) ∈ fields) (before after : List (String × Json)) :
    ∃ front back : Option Fault, ∀ j,
      membersFault? fields [] (before ++ (name, j) :: after) = front.or ((fault? j).or back) := by
  let front := membersFault? fields [] before
  let seen := (before.map (·.1)).reverse ++ []
  let back := membersFault? fields (name :: seen) after
  have hmembers (j : Json) : membersFault? fields [] (before ++ (name, j) :: after) =
      front.or ((memberFault? fields seen (name, j)).or back) :=
    membersFault?_append fields [] before _
  have hmember (j : Json) : memberFault? fields seen (name, j) =
      if name ∈ seen then some (.repeatedField name) else fault? j := by
    rw [memberFault?, (lookup_fields_iff hnames).2 hfault, Option.bind_some]
  by_cases hseen : name ∈ seen
  · -- The field stands in front already, so nothing of this member is looked at.
    refine ⟨front.or (some (.repeatedField name)), none, fun j => ?_⟩
    rw [hmembers, hmember, if_pos hseen]
    cases front <;> rfl
  · refine ⟨front, back, fun j => ?_⟩
    rw [hmembers, hmember, if_neg hseen]

theorem itemsFault?_opening {name : String} {before : List Json}
    (hplace : fields[before.length]? = some (name, fault?)) (after : List Json) :
    ∃ front back : Option Fault, ∀ j,
      itemsFault? fields (before ++ j :: after) = front.or ((fault? j).or back) := by
  refine ⟨itemsFault? (fields.take before.length) before,
    itemsFault? (fields.drop (before.length + 1)) after, fun j => ?_⟩
  rw [itemsFault?, zip_append_cons hplace, List.findSome?_append, List.findSome?_cons]
  cases hj : fault? j <;> simp only [hj] <;> rfl

/-- What is written in front of a field is told before its fault, and what follows it after. -/
theorem recordFault?_opening {name : String} {record : Json → Json}
    (h : Opening (fields.map (·.1)) name record) (hnames : (fields.map (·.1)).Nodup)
    (hfault : (name, fault?) ∈ fields) (recordName : String) :
    ∃ front back : Option Fault, ∀ j,
      recordFault? recordName fields (record j) = front.or ((fault? j).or back) := by
  cases h with
  | member before after => exact membersFault?_opening hnames hfault before after
  | item before after h =>
    have hplace : fields[before.length]? = some (name, fault?) := by
      rw [List.getElem?_map] at h
      obtain ⟨f, hf, hname⟩ := Option.map_eq_some_iff.1 h
      rw [hf, List.inj_on_of_nodup_map hnames (List.mem_of_getElem? hf) hfault hname]
    obtain ⟨front, back, hitems⟩ := itemsFault?_opening hplace after
    let length := before.length + (after.length + 1)
    -- That a list is too long is told last.
    refine ⟨front, back.or (if length ≤ fields.length then none else some (excess length)),
      fun j => ?_⟩
    rw [recordFault?, hitems, List.length_append, List.length_cons, Option.or_assoc,
      Option.or_assoc]

end MediaViews.Json
