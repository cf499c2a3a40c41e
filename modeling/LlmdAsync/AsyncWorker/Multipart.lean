import LlmdAsync.Foundation.Hash

/-!
# The multipart rewrite

`Transform` of `transform/gcsmultipart`: a JSON body with a signed URL becomes a form with one part
per field.  A body is a map from the names of its fields to their values as `encoding/json` decodes
them, in any order.
-/

namespace LlmdAsync.AsyncWorker.Multipart

open Hash

/-- A JSON value: its text, and for a string the decoded text. -/
inductive RawMessage where
  | null
  | string (text decoded : String)
  /-- A number, a boolean, an object or an array. -/
  | other (text : String)
deriving DecidableEq

namespace RawMessage

def text : RawMessage → String
  | .null => "null"
  | .string text _ | .other text => text

/-- `json.Unmarshal` into an empty string; `null` leaves it as it is. -/
def unmarshal : RawMessage → Option String
  | .null => some ""
  | .string _ decoded => some decoded
  | .other _ => none

/-- The value a form should have: strings decoded, everything else as it is. -/
def formText : RawMessage → String
  | .string _ decoded => decoded
  | raw => raw.text

end RawMessage

/-- `stringField`. -/
def stringField (fields : Hash String RawMessage) (name : String) : String :=
  ((hget fields name).bind RawMessage.unmarshal).getD ""

/-- `asFormValue`. -/
def asFormValue (raw : RawMessage) : String := raw.unmarshal.getD raw.text

/-- `owns`. -/
def owns (providers : List String) (metadata : Hash String String) : Bool :=
  (hget metadata "provider").getD "" ∈ providers

/-- The text of the error that `fatalf` builds: a `ClientError` of the category `INVALID_REQ`. -/
def fatalf (message : String) : String := "INVALID_REQ: " ++ message

/-- What `Transform` returns: not handled, an error with its text, or the parts of a form. -/
inductive Outcome where
  | unhandled
  | fatal (error : String)
  | form (parts : List (String × String))
deriving DecidableEq

/-- The fields that are no parts of their own. -/
def dropped (name : String) : Bool := name = "gcs_uri" || name = "file_base64"

/-- The parts that `Transform` writes. -/
def formParts (fields : Hash String RawMessage) : List (String × String) :=
  ("url", stringField fields "gcs_uri") ::
    (fields.rows.filter fun f => !dropped f.1).map fun f => (f.1, asFormValue f.2)

/-- `Transform`. -/
def transform (providers : List String) (metadata : Hash String String)
    (body : Except String (Hash String RawMessage)) : Outcome :=
  if !owns providers metadata then .unhandled
  else
    match body with
    | .error err => .fatal (fatalf ("failed to parse request body: " ++ err))
    | .ok fields =>
      if stringField fields "gcs_uri" = "" then .unhandled
      else if stringField fields "file_base64" ≠ "" then
        .fatal (fatalf "\"file_base64\" is not supported on the multipart path")
      else .form (formParts fields)

lemma asFormValue_eq {raw : RawMessage} (h : raw ≠ .null) : asFormValue raw = raw.formText := by
  cases raw with
  | null => exact absurd rfl h
  | string text decoded | other text => rfl

variable {providers : List String} {metadata : Hash String String}
  {fields : Hash String RawMessage}

/-- The parts of one name among those of the fields. -/
lemma filter_fields (name : String) :
    ((fields.rows.filter fun f => !dropped f.1).map fun f => (f.1, asFormValue f.2)).filter
        (fun p => p.1 = name) =
      (((fields.get? name).filter fun f => !dropped f.1).map fun f =>
        (f.1, asFormValue f.2)).toList := by
  have hparts := fields.filter_map_filter_rows (fun f => !dropped f.1)
    (fun f => (f.1, asFormValue f.2)) (g := fun p => some p.1) (fun _ => rfl) name
  simpa only [Option.some.injEq] using hparts

/-- The parts `url` are the one of the signed URL and that of a field of this name. -/
lemma filter_url : (formParts fields).filter (fun p => p.1 = "url") =
    ("url", stringField fields "gcs_uri") ::
      ((hget fields "url").map fun raw => ("url", asFormValue raw)).toList := by
  rw [formParts, List.filter_cons_of_pos (by simp), filter_fields, hget]
  cases hrow : fields.get? "url" with
  | none => rfl
  | some f =>
    have hname : f.1 = "url" := Table.key_of_get? hrow
    have hkept : (!dropped f.1) = true := by
      rw [hname]
      decide
    rw [Option.filter_some, if_pos hkept, Option.map_some, Option.map_some, Option.map_some, hname]

/-- Any other field that is not dropped has one part. -/
lemma filter_field {f : String × RawMessage} (hf : f ∈ fields.rows) (hkept : !dropped f.1)
    (hne : f.1 ≠ "url") :
    (formParts fields).filter (fun p => p.1 = f.1) = [(f.1, asFormValue f.2)] := by
  rw [formParts, List.filter_cons_of_neg (by simpa using hne.symm), filter_fields,
    Table.mem_iff_get?.mp hf, Option.filter_some, if_pos hkept, Option.map_some]
  rfl

/-- Exactly one part for the URL, exactly one for each other field, with its value, no others. -/
structure Faithful (fields : Hash String RawMessage) (uri : String)
    (parts : List (String × String)) : Prop where
  url : parts.filter (fun p => p.1 = "url") = [("url", uri)]
  field : ∀ f ∈ fields.rows, !dropped f.1 →
    parts.filter (fun p => p.1 = f.1) = [(f.1, f.2.formText)]
  only : ∀ p ∈ parts, p.1 = "url" ∨ ∃ f ∈ fields.rows, !dropped f.1 ∧ f.1 = p.1

/-- The form has one part for the URL and one for each other field if and only if no field is named
`url` and none but `file_base64` is `null`. -/
theorem multipart_faithful {text uri : String} (howned : owns providers metadata)
    (hgcs : hget fields "gcs_uri" = some (.string text uri)) (huri : uri ≠ "")
    (hfile : stringField fields "file_base64" = "") :
    transform providers metadata (.ok fields) = .form (formParts fields) ∧
      (Faithful fields uri (formParts fields) ↔ hget fields "url" = none ∧
        ∀ f ∈ fields.rows, f.2 = .null → f.1 = "file_base64") := by
  have hsigned : stringField fields "gcs_uri" = uri := by
    rw [stringField, hgcs]
    rfl
  have hnotURL (hurl : hget fields "url" = none) {f : String × RawMessage}
      (hf : f ∈ fields.rows) : f.1 ≠ "url" := by
    intro heq
    rw [← heq, mem_rows_iff.mp hf] at hurl
    cases hurl
  refine ⟨?_, fun h => ?_, fun h => ?_⟩
  · rw [transform, howned, hsigned, hfile]
    exact if_neg huri
  · have hurl : hget fields "url" = none := by
      simpa [filter_url, hsigned] using h.url
    refine ⟨hurl, fun f hf hnull => ?_⟩
    by_contra hother
    have hgcs' : f.1 ≠ "gcs_uri" := by
      intro heq
      rw [← heq, mem_rows_iff.mp hf, hnull] at hgcs
      cases hgcs
    have hkept : !dropped f.1 := by simp [dropped, hother, hgcs']
    have hparts := h.field f hf hkept
    -- `null` decodes to the empty text.
    rw [filter_field hf hkept (hnotURL hurl hf), hnull] at hparts
    simp [asFormValue, RawMessage.unmarshal, RawMessage.formText, RawMessage.text] at hparts
  · obtain ⟨hurl, hnull⟩ := h
    refine ⟨?_, fun f hf hkept => ?_, fun p hp => ?_⟩
    · rw [filter_url, hurl, hsigned]
      rfl
    · have hvalue : asFormValue f.2 = f.2.formText := by
        refine asFormValue_eq fun h => ?_
        rw [hnull f hf h] at hkept
        cases hkept
      rw [filter_field hf hkept (hnotURL hurl hf), hvalue]
    · refine (List.mem_cons.mp hp).imp (congrArg Prod.fst) fun hp => ?_
      obtain ⟨f, hf, rfl⟩ := List.mem_map.mp hp
      obtain ⟨hrow, hkept⟩ := List.mem_filter.mp hf
      exact ⟨f, hrow, hkept, rfl⟩

/-- A body with a signed URL and one more field. -/
def oneField (name : String) (raw : RawMessage) : Hash String RawMessage :=
  hset (hset .empty "gcs_uri" (.string "\"s\"" "s")) name raw

theorem model_field_faithful :
    Faithful (oneField "model" (.other "1")) "s" (formParts (oneField "model" (.other "1"))) :=
  have howned : owns ["p"] (hset .empty "provider" "p") := by decide
  (multipart_faithful howned (by rfl) (by decide) (by rfl)).2.mpr ⟨by rfl, by decide⟩

/-- A field `url` makes a second part of that name, and `null` becomes the empty text. -/
theorem clashing_field_unfaithful :
    (formParts (oneField "url" (.string "\"u\"" "u"))).filter (fun p => p.1 = "url") =
      [("url", "s"), ("url", "u")] ∧
    (formParts (oneField "model" .null)).filter (fun p => p.1 = "model") = [("model", "")] ∧
    RawMessage.null.formText = "null" := by
  decide

end LlmdAsync.AsyncWorker.Multipart
