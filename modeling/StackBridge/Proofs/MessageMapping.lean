/-
Messages on the wire. What the provider is sent for a message is what the message itself is written
as, but for the role of tool responses. Nothing of a message is lost on the way, so different
messages stay different.
-/
import StackBridge.Conversion.Outgoing
import StackBridge.Proofs.RoundTrip

namespace StackBridge.Conversion

open Chat (Role StopReason)

/-- The value of a member in the words of the provider, which calls the role `ipython` `tool`. -/
def providerValue (name : String) (value : Json) : Json :=
  if name = "role" ∧ value = .string "ipython" then .string "tool" else value

/-- What a message is written as, in the words of the provider. -/
def inProviderWords : Json → Json
  | .object members => .object (members.map fun member =>
      (member.1, providerValue member.1 member.2))
  | other => other

theorem providerValue_of_ne {name : String} (hname : name ≠ "role") (value : Json) :
    providerValue name value = value :=
  if_neg fun hrole => hname hrole.1

theorem providerValue_role (role : Role) :
    providerValue "role" (Role.codec.encode role) = .string (providerRole role) := by
  cases role <;> rfl

/-- Replacing the role does not depend on the order of the members. -/
theorem normal_inProviderWords (json : Json) :
    (inProviderWords json).normal = inProviderWords json.normal := by
  cases json with
  | object members =>
      have hvalue : ∀ (name : String) (value : Json),
          (providerValue name value).normal = providerValue name value.normal := by
        intro name value
        have htext : value.normal = .string "ipython" ↔ value = .string "ipython" := by
          cases value <;> simp [Json.normal]
        simp only [providerValue, htext, apply_ite Json.normal]
        rfl
      rw [inProviderWords, Json.normal_object, Json.normal_object, inProviderWords,
        map_insertEntries providerValue, List.map_map, List.map_map]
      simp only [Function.comp_def, hvalue]
  | _ => rfl

/-- Fields of another name than the role are written as they are. -/
theorem map_providerValue_encode {σ τ : Type} {fields : Fields σ τ}
    (hrole : "role" ∉ fields.names) (values : τ) :
    (fields.encode values).map (fun member => (member.1, providerValue member.1 member.2)) =
      fields.encode values := by
  have hkept : ∀ member ∈ fields.encode values,
      (member.1, providerValue member.1 member.2) = member := by
    intro member hmember
    have hname : member.1 ≠ "role" := fun hsame =>
      hrole (hsame ▸ (fields.names_encode_sublist values).subset (List.mem_map_of_mem hmember))
    rw [providerValue_of_ne hname]
  rw [List.map_congr_left hkept, List.map_id']

/-- A converted message is written as the message is, in the words of the provider. -/
theorem encode_convertMessage (message : Chat.Message) :
    Provider.Message.codec.encode (convertMessage message) =
      inProviderWords (Chat.Message.codec.encode message) := by
  obtain ⟨role, content, stopReason, toolCalls, callId, toolName⟩ := message
  change Json.object (("role", Json.string (providerRole role)) :: Fields.encode _ _) =
    Json.object (List.map _ (("role", Role.codec.encode role) :: Fields.encode _ _))
  rw [List.map_cons, map_providerValue_encode (by decide), providerValue_role]
  cases stopReason <;> rfl

/-- Names keep apart what they name. -/
theorem name_injective : Function.Injective StopReason.name := by
  intro reason other
  cases reason <;> cases other <;> decide

theorem providerRole_injective : Function.Injective providerRole := by
  intro role other
  cases role <;> cases other <;> decide

/-- The provider is sent what a message is written as, with the role of tool responses in its own
words and nothing else changed, and no two messages are sent as the same. -/
theorem messages_go_over_unchanged :
    (∀ message, Provider.Message.codec.encode (convertMessage message) =
      inProviderWords (Chat.Message.codec.encode message)) ∧
    (∀ message, Provider.Message.codec.toJson (convertMessage message) =
      inProviderWords (Chat.Message.codec.toJson message)) ∧
    Function.Injective convertMessage := by
  refine ⟨encode_convertMessage, fun message => ?_, fun message other hsame => ?_⟩
  · rw [Codec.toJson, encode_convertMessage, normal_inProviderWords]
    rfl
  · obtain ⟨role, content, stopReason, toolCalls, callId, toolName⟩ := message
    obtain ⟨hrole, hcontent, hreason, hcalls, hid, hname⟩ := Provider.Message.mk.inj hsame
    have hrole := providerRole_injective hrole
    have hreason := Option.map_injective name_injective hreason
    cases other
    cases hrole
    cases hcontent
    cases hreason
    cases hcalls
    cases hid
    cases hname
    rfl

end StackBridge.Conversion
