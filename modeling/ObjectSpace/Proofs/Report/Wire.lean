import ObjectSpace.Message
import ObjectSpace.Proofs.Json.Text
import ObjectSpace.Proofs.Object.Batch

/-!
# Reports read back

A report is read out of its bytes as it was written, whatever its message and details hold.
-/

namespace ObjectSpace
namespace Json
namespace Raw

/-- What is read from each member of an object by itself is read from all of them. -/
theorem mapM_rawMembers {α β : Type} {member : α → String × Json}
    {read : List Char × Raw → Option β} {answer : α → β} {xs : List α}
    (h : ∀ x ∈ xs, read (escape (member x).1, raw (member x).2) = some (answer x)) :
    (rawMembers (xs.map member)).mapM read = some (xs.map answer) := by
  induction xs with
  | nil => rfl
  | cons x xs ih =>
    obtain ⟨hx, hxs⟩ := List.forall_mem_cons.1 h
    rw [List.map_cons, rawMembers, List.mapM_cons, hx, ih hxs]
    rfl

theorem string?_raw (s : String) : string? (raw (.str s)) = some s := by
  rw [raw, string?, unescape_escape]
  exact congrArg some String.ofList_toList

theorem byte?_raw {n : Nat} (h : n < 256) : byte? (raw (.int n)) = some (UInt8.ofNat n) := by
  have hint : isInt (n : Int) = true := isInt_natCast (h.trans (by decide))
  have hrange : (0 ≤ (n : Int) && (n : Int) < 256) = true := by
    simp only [Bool.and_eq_true, decide_eq_true_eq]
    omega
  rw [raw, byte?, number?_text hint]
  exact if_pos hrange

theorem keys_rawMembers (members : List (String × Json)) :
    ((rawMembers members).mapM fun (key, r) =>
      (unescape key).map fun cs => (String.ofList cs, r)) =
      some (members.map fun m => (m.1, raw m.2)) := by
  rw [← List.map_id members]
  refine (mapM_rawMembers fun m _ => ?_).trans (by rw [List.map_id])
  dsimp only [id]
  rw [unescape_escape, Option.map_some, String.ofList_toList]

theorem strings_rawMembers (entries : List (String × String)) :
    ((rawMembers (entries.map fun (k, s) => (k, .str s))).mapM fun (key, r) => do
      some (String.ofList (← unescape key), ← string? r)) = some entries := by
  refine (mapM_rawMembers fun e _ => ?_).trans (congrArg some (List.map_id entries))
  dsimp only
  rw [unescape_escape, string?_raw, Option.bind_eq_bind, Option.bind_some, Option.bind_eq_bind,
    Option.bind_some, String.ofList_toList]
  rfl

theorem fields?_raw (names : List String) (members : List (String × Json)) :
    fields? names (raw (.obj members)) =
      names.mapM (unique? · (members.map fun m => (m.1, raw m.2))) := by
  rw [raw, fields?]
  exact congrArg (Option.bind · fun found => names.mapM (unique? · found))
    (keys_rawMembers members)

theorem strings?_raw (t : Table String String) : strings? (raw (ofStrings t)) = some t := by
  rw [ofStrings, raw, strings?, strings_rawMembers]
  exact congrArg some (Table.ofList_entries t)

end Raw
end Json

theorem Status.ofRaw?_raw (s : Status) : Status.ofRaw? (Json.raw s.json) = some s := by
  have hcode : s.code < 256 := by cases s <;> decide
  rw [Status.ofRaw?, Status.json, Json.Raw.byte?_raw hcode]
  cases s <;> rfl

theorem Category.ofRaw?_raw (c : Category) : Category.ofRaw? (Json.raw c.json) = some c := by
  change (Json.Raw.string? (Json.raw (.str c.name))).bind Category.ofName? = some c
  rw [Json.Raw.string?_raw]
  exact Category.ofName?_name c

namespace Report

theorem wellFormed_json (r : Report) : r.json.WellFormed := by
  have hstatus : r.status.json.WellFormed := .int (by cases r.status <;> decide)
  have hdetails : (Json.ofStrings r.details).WellFormed := by
    refine .obj fun m hm => ?_
    obtain ⟨e, _, rfl⟩ := List.mem_map.1 hm
    exact .str e.2
  unfold json
  cases r.details.isEmpty with
  | true =>
    refine .obj ?_
    simp [hstatus, Category.json, Json.WellFormed.str]
  | false =>
    refine .obj ?_
    simp [hstatus, hdetails, Category.json, Json.WellFormed.str]

theorem ofRaw?_raw (r : Report) : ofRaw? (Json.raw r.json) = some r := by
  obtain ⟨status, category, message, details⟩ := r
  unfold json ofRaw?
  dsimp only
  rw [Json.Raw.fields?_raw]
  cases hdetails : details.isEmpty with
  | true =>
    have hnone : details = {} := Table.ext_entries (List.isEmpty_iff.1 hdetails)
    simp [Json.Raw.unique?, Status.ofRaw?_raw, Category.ofRaw?_raw, Json.Raw.string?_raw, hnone]
  | false =>
    simp [Json.Raw.unique?, Status.ofRaw?_raw, Category.ofRaw?_raw, Json.Raw.string?_raw,
      Json.Raw.strings?_raw]

/-- A report comes back out of its bytes. -/
theorem ofBytes_toBytes (status : Status) (r : Report) : ofBytes status r.toBytes = r := by
  have hraw : (String.fromUTF8? r.toBytes >>= Json.Raw.ofText?) = some (Json.raw r.json) := by
    rw [toBytes, Json.fromUTF8?_toUTF8]
    exact Json.Raw.ofText?_text r.wellFormed_json
  unfold ofBytes
  rw [hraw, Option.bind_eq_bind, Option.bind_some, ofRaw?_raw]

end Report

/-- Whoever gets the reply knows the whole report. -/
theorem Reply.report?_failure {r : Report} (h : r.status ≠ .okay) :
    (Reply.failure r).report? = some r := by
  unfold report? isOk failure
  dsimp only
  rw [if_neg (by simp [h]), Report.ofBytes_toBytes]

end ObjectSpace
