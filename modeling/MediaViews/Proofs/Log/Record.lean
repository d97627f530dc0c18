import MediaViews.Log.Record
import MediaViews.Proofs.Json.Members

/-! Log records. Each is written as one line, which tells the whole record and no more: not even the
order in which the fields were given. -/
namespace MediaViews

theorem Severity.ofName?_name (s : Severity) : ofName? s.name = some s := by
  cases s <;> decide

theorem Severity.name_injective {a b : Severity} (h : a.name = b.name) : a = b := by
  have hread : ofName? a.name = ofName? b.name := congrArg ofName? h
  rw [ofName?_name, ofName?_name] at hread
  exact Option.some.inj hread

namespace LogRecord

open Json (stringMembers)

def inKeyOrder (fields : LogFields) : LogFields :=
  fields.mergeSort fun a b => decide (a.1 ≤ b.1)

theorem inKeyOrder_perm (fields : LogFields) : (inKeyOrder fields).Perm fields :=
  List.mergeSort_perm fields _

theorem pairwise_inKeyOrder {fields : LogFields} (h : (fields.map (·.1)).Nodup) :
    (inKeyOrder fields).Pairwise fun a b => a.1 < b.1 := by
  have hsorted : (inKeyOrder fields).Pairwise fun a b => decide (a.1 ≤ b.1) := by
    apply List.pairwise_mergeSort
    · intro a b c hab hbc
      exact decide_eq_true (String.le_trans (of_decide_eq_true hab) (of_decide_eq_true hbc))
    · intro a b
      simpa using String.le_total a.1 b.1
  -- Sorting leaves equal keys next to each other. That there are none makes the order strict.
  have hdistinct : (inKeyOrder fields).Pairwise fun a b => a.1 ≠ b.1 := by
    rw [← List.pairwise_map]
    exact ((inKeyOrder_perm fields).map _).nodup_iff.2 h
  refine (hsorted.and hdistinct).imp fun hab => ?_
  exact lt_of_le_of_ne (of_decide_eq_true hab.1) hab.2

theorem eq_of_perm_of_ascending {xs ys : LogFields} (h : xs.Perm ys)
    (hxs : xs.Pairwise fun a b => a.1 < b.1) (hys : ys.Pairwise fun a b => a.1 < b.1) : xs = ys :=
  h.eq_of_pairwise (fun _ _ _ _ hab hba => absurd hba (String.lt_asymm hab)) hxs hys

theorem inKeyOrder_eq_of_perm {fields fields' : LogFields} (h : fields'.Perm fields)
    (hnodup : (fields.map (·.1)).Nodup) : inKeyOrder fields' = inKeyOrder fields := by
  have hnodup' : (fields'.map (·.1)).Nodup := (h.map _).nodup_iff.2 hnodup
  have hperm := (inKeyOrder_perm fields').trans (h.trans (inKeyOrder_perm fields).symm)
  exact eq_of_perm_of_ascending hperm (pairwise_inKeyOrder hnodup') (pairwise_inKeyOrder hnodup)

def keys (r : LogRecord) : List String := "event" :: "severity" :: r.fields.map (·.1)

def members (r : LogRecord) : LogFields :=
  ("event", r.event) :: ("severity", r.severity.name) :: inKeyOrder r.fields

theorem nodup_members {r : LogRecord} (h : r.keys.Nodup) : (r.members.map (·.1)).Nodup := by
  have hkeys : (r.members.map (·.1)).Perm r.keys :=
    (((inKeyOrder_perm r.fields).map fun f : String × String => f.1).cons "severity").cons "event"
  exact hkeys.nodup_iff.2 h

theorem toJson_eq {r : LogRecord} (h : r.keys.Nodup) :
    r.toJson = .obj (stringMembers r.members) := by
  have hnodup : ((stringMembers r.members).map (·.1)).Nodup := by
    rw [Json.keys_stringMembers]
    exact nodup_members h
  exact Json.ofMembers_of_nodup hnodup

theorem parse?_render {r : LogRecord} (h : r.keys.Nodup) :
    Json.parse? r.render = some (.obj (stringMembers r.members)) := by
  unfold render
  rw [toJson_eq h]
  exact Json.parse?_render (nodup_members h)

def object (r : LogRecord) (ordered : LogFields) : Json :=
  .obj (("event", .str r.event) :: ("severity", .str r.severity.name) ::
    ordered.map fun f => (f.1, .str f.2))

theorem stringMembers_injective {xs ys : List (String × String)}
    (h : stringMembers xs = stringMembers ys) : xs = ys := by
  refine List.map_injective_iff.2 ?_ h
  rintro ⟨k, x⟩ ⟨l, y⟩ heq
  obtain ⟨hkey, hvalue⟩ := Prod.mk.inj heq
  obtain rfl : k = l := hkey
  obtain rfl : x = y := Json.str.inj hvalue
  rfl

theorem eq_of_render_eq {r r' : LogRecord} (h : r.keys.Nodup) (h' : r'.keys.Nodup)
    (hline : r'.render = r.render) :
    r'.event = r.event ∧ r'.severity = r.severity ∧ r'.fields.Perm r.fields := by
  -- What is read from a line is the record's members, so one line has one list of them.
  have hparsed : some (Json.obj (stringMembers r'.members)) =
      some (.obj (stringMembers r.members)) := by
    rw [← parse?_render h', hline, parse?_render h]
  have hmembers : r'.members = r.members :=
    stringMembers_injective (Json.obj.inj (Option.some.inj hparsed))
  obtain ⟨hevent, hrest⟩ := List.cons.inj hmembers
  obtain ⟨hseverity, hfields⟩ := List.cons.inj hrest
  refine ⟨(Prod.mk.inj hevent).2, Severity.name_injective (Prod.mk.inj hseverity).2, ?_⟩
  exact (inKeyOrder_perm r'.fields).symm.trans (hfields ▸ inKeyOrder_perm r.fields)

/-- The line of a record has no control characters, and is read back as an object with the event,
the severity and the fields in the order of their keys, each with the text it was given. So it
depends on the fields only, not on their order, and tells them all. -/
theorem render_loses_nothing (r : LogRecord)
    (h : ("event" :: "severity" :: r.fields.map (·.1)).Nodup) :
    (∀ c ∈ r.render.toList, 0x20 ≤ c.toNat) ∧
    (∃ ordered : LogFields, ordered.Perm r.fields ∧ ordered.Pairwise (fun a b => a.1 < b.1) ∧
      Json.parse? r.render = some (r.object ordered) ∧
      Json.readAs? .verbatim r.render = some (r.object ordered)) ∧
    (∀ fields, fields.Perm r.fields → render { r with fields } = r.render) ∧
    ∀ r' : LogRecord, ("event" :: "severity" :: r'.fields.map (·.1)).Nodup →
      r'.render = r.render →
      r'.event = r.event ∧ r'.severity = r.severity ∧ r'.fields.Perm r.fields := by
  have hfields : (r.fields.map (·.1)).Nodup := (List.nodup_cons.1 (List.nodup_cons.1 h).2).2
  refine ⟨?_, ⟨inKeyOrder r.fields, inKeyOrder_perm r.fields, pairwise_inKeyOrder hfields,
    parse?_render h, ?_⟩, ?_, fun r' h' => eq_of_render_eq h h'⟩
  · unfold render
    rw [toJson_eq h]
    exact Json.isPrintable_render r.members
  · unfold render
    rw [toJson_eq h]
    exact Json.readAs?_render (fun _ => ⟨.verbatim, rfl⟩) r.members
  · intro fields hperm
    have hjson : toJson { r with fields } = r.toJson := by
      unfold toJson
      rw [show fields.mergeSort _ = _ from inKeyOrder_eq_of_perm hperm hfields]
      rfl
    unfold render
    rw [hjson]

def failedOnTwoLines : LogRecord :=
  ⟨.error, "VIEW_BUILD_FAILED", [("reason", "no field 'x'\nin \"images\""), ("code", "é\u0001")]⟩

theorem render_loses_nothing_failedOnTwoLines :
    '\n' ∉ failedOnTwoLines.render.toList ∧
    Json.parse? failedOnTwoLines.render = some (.obj [("event", .str "VIEW_BUILD_FAILED"),
      ("severity", .str "ERROR"), ("code", .str "é\u0001"),
      ("reason", .str "no field 'x'\nin \"images\"")]) ∧
    render { failedOnTwoLines with fields := failedOnTwoLines.fields.reverse } =
      failedOnTwoLines.render := by
  have hkeys : ("event" :: "severity" :: failedOnTwoLines.fields.map (·.1)).Nodup := by decide
  obtain ⟨hprintable, ⟨ordered, hperm, hascending, hparsed, -⟩, hreordered, -⟩ :=
    render_loses_nothing failedOnTwoLines hkeys
  have hordered : ordered = failedOnTwoLines.fields.reverse :=
    eq_of_perm_of_ascending (hperm.trans (List.reverse_perm _).symm) hascending (by decide)
  subst hordered
  refine ⟨fun hline => ?_, hparsed, hreordered _ (List.reverse_perm _)⟩
  exact absurd (hprintable _ hline) (by decide)

end LogRecord
end MediaViews
