import RcPlane.Config.Json
import RcPlane.Foundation.Automaton

/-!
# The configuration manager

`loadConfig` replaces the document when the file was opened and parsed, and leaves it alone
otherwise. `getValue` splits its path at the dots and follows the keys with subscripts that insert
what they do not find; but it does so on a copy, and each element is copied over the value it was
found in. What is returned is what the path resolves to in the last document that was loaded.

## Main definitions

* `ConfigFile`: what `loadConfig` finds at its path
* `ConfigManager`, `ConfigManager.loadConfig`, `ConfigManager.getValue`: the two calls
* `ConfigManager.automaton`: the runs over any sequence of calls
* `lastDocument`, `resolved`: the last document that was loaded, and what a path resolves to in it

## Main results

* `ConfigManager.after_eq`: the memory is the last document
* `ConfigManager.getValue_eq_ok`: a value is returned exactly where it resolves and is converted
* `ConfigManager.lookup_is_resolution`: both, for every type and every sequence of calls
-/

namespace RcPlane

open Foundation

/-! ## The calls -/

/-- What `loadConfig` finds at its path: a file that cannot be opened, one that the parser rejects
with an exception, or a document. -/
inductive ConfigFile
  | unopenable
  | rejected (e : JsonException)
  | document (json : Json)

/-- The keys of a path. Empty keys are kept. -/
def splitPaths (jsonPath : String) : List String :=
  (jsonPath.toList.splitOn '.').map String.ofList

example : splitPaths "rcplane..bad" = ["rcplane", "", "bad"] := rfl

/-- The memory of the configuration manager. -/
structure ConfigManager where
  json : Json := .null
  configLoaded : Bool := false

namespace ConfigManager

/-- Load the file at a path. -/
def loadConfig (m : ConfigManager) : ConfigFile → ConfigManager × Except JsonException Bool
  | .unopenable => (m, .ok false)
  | .rejected e => (m, .error e)
  | .document json => ({ json := json, configLoaded := true }, .ok true)

/-- The value at a path, as a type. -/
def getValue (m : ConfigManager) (outOfRange : Json.OutOfRange) (T : ValueType)
    (jsonPath : String) : Except JsonException T.Value :=
  (m.json.accumulate (splitPaths jsonPath)).bind (Json.get outOfRange T)

end ConfigManager

/-! ## Runs -/

/-- A call of the configuration manager. -/
inductive ConfigCall
  | loadConfig (file : ConfigFile)
  | getValue (outOfRange : Json.OutOfRange) (T : ValueType) (jsonPath : String)
  | isConfigLoaded

/-- What a call returns. -/
inductive ConfigAnswer
  | loadConfig (result : Except JsonException Bool)
  | getValue (T : ValueType) (result : Except JsonException T.Value)
  | isConfigLoaded (loaded : Bool)

/-- The document that a call loads. -/
def ConfigCall.document? : ConfigCall → Option Json
  | .loadConfig (.document json) => some json
  | _ => none

/-- The last document loaded by some calls. -/
def lastDocument (calls : List ConfigCall) : Option Json :=
  (calls.filterMap ConfigCall.document?).getLast?

/-- What a path resolves to in the last document loaded. -/
def resolved (calls : List ConfigCall) (jsonPath : String) : Option Json :=
  (lastDocument calls).bind (Json.resolve (splitPaths jsonPath))

theorem lastDocument_snoc (calls : List ConfigCall) (call : ConfigCall) :
    lastDocument (calls ++ [call]) = call.document?.or (lastDocument calls) := by
  rw [lastDocument, List.filterMap_append, List.getLast?_append]
  cases hdocument : call.document? <;> simp [hdocument, lastDocument]

theorem ConfigCall.document?_eq_some {call : ConfigCall} {json : Json} :
    call.document? = some json ↔ call = .loadConfig (.document json) := by
  constructor
  · intro h
    unfold document? at h
    split at h
    · rw [Option.some.inj h]
    · cases h
  · rintro rfl
    rfl

theorem isSome_lastDocument_iff {calls : List ConfigCall} :
    (lastDocument calls).isSome ↔ ∃ json, .loadConfig (.document json) ∈ calls := by
  induction calls using List.reverseRecOn with
  | nil => simp [lastDocument]
  | append_singleton calls call ih =>
    rw [lastDocument_snoc, Option.isSome_or, Bool.or_eq_true, ih, Option.isSome_iff_exists,
      or_comm, ← exists_or]
    refine exists_congr fun json => ?_
    rw [ConfigCall.document?_eq_some, List.mem_append, List.mem_singleton, eq_comm]

namespace ConfigManager

/-- The runs of the configuration manager from construction. -/
def automaton : Automaton ConfigManager ConfigCall ConfigAnswer where
  start := {}
  step m
    | .loadConfig file => ((m.loadConfig file).1, .loadConfig (m.loadConfig file).2)
    | .getValue outOfRange T jsonPath => (m, .getValue T (m.getValue outOfRange T jsonPath))
    | .isConfigLoaded => (m, .isConfigLoaded m.configLoaded)

/-- A call that loads no document leaves the memory as it is. -/
theorem step_of_document_eq_none {call : ConfigCall} (h : call.document? = none)
    (m : ConfigManager) : (automaton.step m call).1 = m := by
  cases call with
  | loadConfig file =>
    cases file with
    | document json => cases h
    | _ => rfl
  | _ => rfl

/-- The memory is the last document. -/
theorem after_eq (calls : List ConfigCall) :
    automaton.after calls =
      ⟨(lastDocument calls).getD .null, (lastDocument calls).isSome⟩ := by
  induction calls using List.reverseRecOn with
  | nil => rfl
  | append_singleton calls call ih =>
    rw [Automaton.after_snoc, lastDocument_snoc]
    cases hdocument : call.document? with
    | none =>
      rw [step_of_document_eq_none hdocument, Option.none_or]
      exact ih
    | some json =>
      obtain rfl := ConfigCall.document?_eq_some.mp hdocument
      rfl

/-! ## Values -/

variable (calls : List ConfigCall) (outOfRange : Json.OutOfRange) (jsonPath : String)

/-- A path resolves in the memory exactly where it does in the last document: without one, it has a
key that is applied to null. -/
theorem resolve_after :
    Json.resolve (splitPaths jsonPath) (automaton.after calls).json = resolved calls jsonPath := by
  rw [after_eq, resolved]
  cases lastDocument calls with
  | some json => rfl
  | none =>
    cases hkeys : splitPaths jsonPath with
    | nil => exact absurd (List.map_eq_nil_iff.mp hkeys) (List.splitOn_ne_nil _ _)
    | cons key keys => rfl

/-- **A value is returned exactly where the path resolves to a value that is converted.** -/
theorem getValue_eq_ok {T : ValueType} {v : T.Value} :
    (automaton.after calls).getValue outOfRange T jsonPath = .ok v ↔
      ∃ j, resolved calls jsonPath = some j ∧ j.get outOfRange T = .ok v := by
  rw [getValue, ← resolve_after]
  cases hresolve : Json.resolve (splitPaths jsonPath) (automaton.after calls).json with
  | some j =>
    rw [Json.accumulate_of_some hresolve]
    simp [Except.bind]
  | none =>
    -- null is not converted to anything
    obtain ⟨e, he⟩ := Json.get_null outOfRange T
    rcases Json.accumulate_of_none hresolve with h | ⟨e', h, -⟩
    · simp [h, Except.bind, he]
    · simp [h, Except.bind]

/-- Some value is returned exactly where the path resolves to a value that is converted. -/
theorem exists_getValue_eq_ok {T : ValueType} :
    (∃ v, (automaton.after calls).getValue outOfRange T jsonPath = .ok v) ↔
      ∃ j, resolved calls jsonPath = some j ∧ ∃ v, j.get outOfRange T = .ok v := by
  constructor
  · rintro ⟨v, hv⟩
    obtain ⟨j, hj, hget⟩ := (getValue_eq_ok calls outOfRange jsonPath).mp hv
    exact ⟨j, hj, v, hget⟩
  · rintro ⟨j, hj, v, hget⟩
    exact ⟨v, (getValue_eq_ok calls outOfRange jsonPath).mpr ⟨j, hj, hget⟩⟩

/-- What is thrown is a `type_error`. -/
theorem isTypeError_of_getValue {m : ConfigManager} {T : ValueType} {e : JsonException}
    (h : m.getValue outOfRange T jsonPath = .error e) : e.IsTypeError := by
  unfold getValue at h
  cases haccumulate : m.json.accumulate (splitPaths jsonPath) with
  | ok j =>
    rw [haccumulate] at h
    exact Json.get_eq_error h
  | error e' =>
    rw [haccumulate] at h
    obtain rfl := Except.error.inj h
    cases hresolve : Json.resolve (splitPaths jsonPath) m.json with
    | some j =>
      rw [Json.accumulate_of_some hresolve] at haccumulate
      cases haccumulate
    | none =>
      rcases Json.accumulate_of_none hresolve with hnull | ⟨e'', herror, htype⟩
      · rw [hnull] at haccumulate
        cases haccumulate
      · rw [herror] at haccumulate
        exact Except.error.inj haccumulate ▸ htype

/-- **Lookup is path resolution in the last document.** After any sequence of calls: a string is
returned exactly where the path resolves to it, a `double` where it resolves to a number, an
integer where it resolves to a number or a boolean, and a `type_error` is thrown otherwise; a call
that loads no document, whatever it does and wherever it comes, changes no later answer; and a
document is loaded exactly if some load has succeeded. -/
theorem lookup_is_resolution (calls : List ConfigCall) :
    (∀ outOfRange jsonPath,
      (∀ s, (automaton.after calls).getValue outOfRange .string jsonPath = .ok s ↔
        resolved calls jsonPath = some (.string s)) ∧
      ((∃ v, (automaton.after calls).getValue outOfRange .double jsonPath = .ok v) ↔
        ∃ j, resolved calls jsonPath = some j ∧ j.number?.isSome) ∧
      (∀ T, (∃ v, (automaton.after calls).getValue outOfRange (.integer T) jsonPath = .ok v) ↔
        ∃ j, resolved calls jsonPath = some j ∧ j.IsNumberOrBoolean) ∧
      ∀ T e, (automaton.after calls).getValue outOfRange T jsonPath = .error e → e.IsTypeError) ∧
    (∀ call later, call.document? = none →
      (automaton.outputs (calls ++ call :: later)).drop (calls.length + 1) =
        (automaton.outputs (calls ++ later)).drop calls.length) ∧
    ((automaton.after calls).configLoaded ↔ ∃ json, .loadConfig (.document json) ∈ calls) := by
  refine ⟨fun outOfRange jsonPath => ⟨fun s => ?_, ?_, fun T => ?_, fun T e h => ?_⟩,
    fun call later hcall => ?_, ?_⟩
  · rw [getValue_eq_ok]
    -- a string is converted from a string alone
    constructor
    · rintro ⟨j, hj, hget⟩
      rw [hj, Json.get_string_eq_ok.mp hget]
    · exact fun h => ⟨_, h, rfl⟩
  · rw [exists_getValue_eq_ok]
    exact exists_congr fun j => and_congr_right fun _ => Json.get_double_eq_ok
  · rw [exists_getValue_eq_ok]
    exact exists_congr fun j => and_congr_right fun _ => Json.get_integer_eq_ok
  · exact isTypeError_of_getValue _ _ h
  · -- the call leaves the memory as it was, and later answers depend on the memory alone
    have hsplit : calls ++ call :: later = (calls ++ [call]) ++ later := by simp
    have hlen : calls.length + 1 = (calls ++ [call]).length := by simp
    rw [hsplit, hlen, Automaton.drop_outputs_append, Automaton.drop_outputs_append,
      Automaton.after_snoc, step_of_document_eq_none hcall]
  · rw [after_eq]
    exact isSome_lastDocument_iff

end ConfigManager

end RcPlane
