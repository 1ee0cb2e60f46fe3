/-
What is sent over HTTP. The body has the members of the payload, except that the extension stands at
the top and the headers are left out. No standard member is named like the extension, so nothing is
replaced, and the payload can be put together again from the body and the headers.
-/
import StackBridge.Proofs.WirePresentation
import StackBridge.Proofs.WireStability

namespace StackBridge

open Codec

/-- The values that come from JSON, be it a value or a text that can be parsed. -/
inductive Codec.Decoded {α : Type} (codec : Codec α) (value : α) : Prop where
  | ofValue (json : Json) (hvalue : codec.ofJson json = .ok value)
  | ofText (text : String) (json : Json) (hparse : Json.parse text = .ok json)
      (hvalue : codec.ofText text = .ok value)

theorem Codec.Decoded.restores {α : Type} {codec : Codec α} {value : α}
    (hvalue : codec.Decoded value) (hcodec : codec.Faithful) (htracks : codec.Tracks) :
    codec.Restores value := by
  cases hvalue with
  | ofValue json hvalue => exact hcodec.of_decoded hvalue
  | ofText text json hparse hvalue =>
      exact hcodec.restores json value ((htracks.ofText_eq_ok_iff hparse value).1 hvalue)

theorem SortedMap.get?_ofList (entries : List (String × Json)) (name : String) :
    (ofList entries).get? name = (Json.object entries).member? name := by
  rw [get?_ofList_eq_lookup, Json.member?_object]

namespace Provider

/-- The members of a payload put together again: what the body holds as the extension belongs under
the extra body, and the headers belong under a name of their own. -/
def reassembled (body : SortedMap Json) (headers : List (String × String)) : Json :=
  let extra := (body.get? "nvext").toList.map fun extension => ("nvext", extension)
  Json.ofMap <| ((body.erase "nvext").insert "extra_body" (.object extra)).insert "extra_headers"
    (.object (headers.map fun header => (header.1, .string header.2)))

/-- What the body of a payload keeps: the extension at its top and every other member as it is
written, which together with the headers is the whole payload. -/
structure KeptByBody (payload : Request) : Prop where
  noExtraBody : payload.body.get? "extra_body" = none
  noExtraHeaders : payload.body.get? "extra_headers" = none
  extension : payload.body.get? "nvext" =
    some (Extension.codec.toJson payload.extraBody.extension)
  replacesNothing : (Request.codec.toJson payload).member? "nvext" = none
  others : ∀ name, name ∉ ["extra_body", "extra_headers", "nvext"] →
    payload.body.get? name = (Request.codec.toJson payload).member? name
  reassembles : Request.codec.ofJson (reassembled payload.body payload.headers) = .ok payload

theorem exists_toJson_eq_object (payload : Request) :
    ∃ members, Request.codec.toJson payload = .object members :=
  ⟨_, Json.normal_object _⟩

theorem member?_nvext (payload : Request) :
    (Request.codec.toJson payload).member? "nvext" = none :=
  member?_toJson_record_of_not_mem (by decide) payload (by decide)

theorem member?_extraBody (payload : Request) :
    (Request.codec.toJson payload).member? "extra_body" =
      some (.object [("nvext", Extension.codec.toJson payload.extraBody.extension)]) :=
  member?_toJson_record (by decide) payload "extra_body"

theorem member?_extraHeaders (payload : Request) :
    (Request.codec.toJson payload).member? "extra_headers" =
      some (.object (payload.headers.map fun header => (header.1, .string header.2))) := by
  have hmember : (Request.codec.toJson payload).member? "extra_headers" =
      some (Codec.string.map.encode payload.extraHeaders).normal :=
    member?_toJson_record (by decide) payload "extra_headers"
  rw [hmember, encode_map_normal]
  rfl

/-- The extension moves up, and nothing else of the extra body stays. -/
theorem get?_mergeExtraBody {members : SortedMap Json} {extension : Json}
    (hextra : members.get? "extra_body" = some (.object [("nvext", extension)])) (name : String) :
    (mergeExtraBody members).get? name =
      if name = "nvext" then some extension
      else if name = "extra_body" ∨ name = "extra_headers" then none
      else members.get? name := by
  have hmerged : mergeExtraBody members =
      ((members.erase "extra_headers").erase "extra_body").insert "nvext" extension := by
    rw [mergeExtraBody, hextra]
    rfl
  rw [hmerged, SortedMap.get?_insert, SortedMap.get?_erase, SortedMap.get?_erase, ite_or]

theorem get?_body (payload : Request) (name : String) :
    payload.body.get? name =
      if name = "nvext" then some (Extension.codec.toJson payload.extraBody.extension)
      else if name = "extra_body" ∨ name = "extra_headers" then none
      else (Request.codec.toJson payload).member? name := by
  obtain ⟨members, hmembers⟩ := exists_toJson_eq_object payload
  have hextra := member?_extraBody payload
  rw [hmembers, ← SortedMap.get?_ofList] at hextra
  rw [Request.body, hmembers, get?_mergeExtraBody hextra, SortedMap.get?_ofList]

/-- Putting the members together again undoes the merge. -/
theorem member?_reassembled (payload : Request) (name : String) :
    (reassembled payload.body payload.headers).member? name =
      (Request.codec.toJson payload).member? name := by
  have hextension : payload.body.get? "nvext" =
      some (Extension.codec.toJson payload.extraBody.extension) := by
    rw [get?_body, if_pos rfl]
  rw [reassembled, Json.member?_ofMap, hextension, SortedMap.get?_insert, SortedMap.get?_insert,
    SortedMap.get?_erase, get?_body]
  by_cases hheaders : name = "extra_headers"
  · rw [if_pos hheaders, hheaders, member?_extraHeaders]
  by_cases hbody : name = "extra_body"
  · rw [if_neg hheaders, if_pos hbody, hbody, member?_extraBody]
    rfl
  by_cases hnvext : name = "nvext"
  · rw [if_neg hheaders, if_neg hbody, if_pos hnvext, hnvext, member?_nvext]
  · rw [if_neg hheaders, if_neg hbody, if_neg hnvext, if_neg hnvext,
      if_neg (not_or.2 ⟨hbody, hheaders⟩)]

/-- The payload is decoded from its members, which are those it was written with. -/
theorem ofJson_reassembled {payload : Request} (hpayload : Request.codec.Restores payload) :
    Request.codec.ofJson (reassembled payload.body payload.headers) = .ok payload := by
  have hwritten := (ofJson_toJson_iff payload).2 hpayload
  obtain ⟨members, hmembers⟩ := exists_toJson_eq_object payload
  obtain ⟨others, hothers⟩ :
      ∃ others, reassembled payload.body payload.headers = .object others := ⟨_, rfl⟩
  have hsame : ∀ name, (Json.object others).member? name = (Json.object members).member? name := by
    intro name
    rw [← hothers, member?_reassembled, hmembers]
  rw [hmembers, ofJson_eq_ok_iff] at hwritten
  rw [hothers, ofJson_eq_ok_iff]
  exact (record_ofJson_congr (by decide) fun name _ => congrArg _ (hsame name)).2 hwritten

theorem keptByBody {payload : Request} (hpayload : Request.codec.Restores payload) :
    KeptByBody payload where
  noExtraBody := by rw [get?_body]; rfl
  noExtraHeaders := by rw [get?_body]; rfl
  extension := by rw [get?_body]; rfl
  replacesNothing := member?_nvext payload
  others name hname := by
    simp only [List.mem_cons, List.not_mem_nil, or_false, not_or] at hname
    rw [get?_body, if_neg hname.2.2, if_neg (not_or.2 ⟨hname.1, hname.2.1⟩)]
  reassembles := ofJson_reassembled hpayload

theorem restores_of_decoded {payload : Request} (hpayload : Request.codec.Decoded payload) :
    Request.codec.Restores payload :=
  hpayload.restores Request.faithful Request.outline.tracks

end Provider

namespace Conversion

/-- The payload of a request that was decoded could have been decoded itself. -/
theorem decoded_convertRequest {request : Chat.Request}
    (hrequest : Chat.Request.codec.Decoded request) (n : UInt32) :
    Provider.Request.codec.Decoded (convertRequest request n) := by
  have hrestores : Chat.Request.codec.Restores request :=
    hrequest.restores Chat.Request.faithful Chat.Request.outline.tracks
  exact .ofValue _ ((ofJson_toJson_iff _).2 (restores_convertRequest hrestores n))

/-- The body of a payload that was decoded loses nothing, the payload of a decoded request being
one of them: body and headers decide the payload. -/
theorem body_and_headers_decide_payload :
    (∀ payload, Provider.Request.codec.Decoded payload → Provider.KeptByBody payload) ∧
    (∀ (request : Chat.Request) (n : UInt32), Chat.Request.codec.Decoded request →
      Provider.Request.codec.Decoded (convertRequest request n)) ∧
    ∀ payload other, Provider.Request.codec.Decoded payload →
      Provider.Request.codec.Decoded other → payload.body = other.body →
        payload.headers = other.headers → payload = other := by
  refine ⟨fun payload hpayload => Provider.keptByBody (Provider.restores_of_decoded hpayload),
    fun request n hrequest => decoded_convertRequest hrequest n, ?_⟩
  intro payload other hpayload hother hbody hheaders
  have hfirst := Provider.ofJson_reassembled (Provider.restores_of_decoded hpayload)
  have hsecond := Provider.ofJson_reassembled (Provider.restores_of_decoded hother)
  rw [hbody, hheaders, hsecond] at hfirst
  exact (Except.ok.inj hfirst).symm

/-- A request without messages, one of whose sampling controls belongs into the extension. -/
def bareRequest : Json :=
  .object [("model", .string "m"), ("messages", .array []),
    ("sampling_params", .object [("strategy", .string "top_k"), ("top_k", .whole (.ofInt64 5))])]

theorem bareRequest_has_a_body_for_each_n :
    let request : Chat.Request :=
      { model := "m", messages := [], samplingParams := some (.likeliest 5) }
    Chat.Request.codec.ofJson bareRequest = .ok request ∧
      Provider.KeptByBody (convertRequest request 1) ∧
      (convertRequest request 1).headers = (convertRequest request 2).headers ∧
      (convertRequest request 1).body ≠ (convertRequest request 2).body := by
  intro request
  have hrequest : Chat.Request.codec.ofJson bareRequest = .ok request := by rfl
  obtain ⟨hkept, hconverted, hdecide⟩ := body_and_headers_decide_payload
  have hdecoded : ∀ n, Provider.Request.codec.Decoded (convertRequest request n) :=
    fun n => hconverted request n (.ofValue bareRequest hrequest)
  refine ⟨hrequest, hkept _ (hdecoded 1), rfl, fun hbody => ?_⟩
  have hsame := hdecide _ _ (hdecoded 1) (hdecoded 2) hbody rfl
  cases congrArg (·.n) hsame

end Conversion
end StackBridge
