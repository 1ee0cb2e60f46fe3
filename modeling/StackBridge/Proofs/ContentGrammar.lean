/-
What the content of a message is decoded from. A content is a text, an image or a list of texts and
images, and an image is an object with an object in it. Both structures have one field each, so each
of them can also be given as a list of one value; where that is tried before the list of items, a
list is decoded to a single image.
-/
import StackBridge.Chat.Message
import StackBridge.Proofs.Presentation

namespace StackBridge

/-- Whether a value stands for a structure whose only field is read from another one: an object with
that member, or a list of it alone. -/
def Json.Wraps (name : String) (json inner : Json) : Prop :=
  json.member? name = some inner ∨ json = .array [inner]

namespace Codec

variable {α β : Type} {codec : Codec α} {label name : String} {make : α × Unit → β}
  {parts : β → α × Unit}

/-- A list stands for a structure with one field if it holds the field and nothing else. -/
theorem record_single_decode_array_iff {items : List Json} {value : β} :
    (record label (.cons (.required name codec) .nil) make parts).decode (.array items) =
        .ok value ↔
      ∃ inner held, items = [inner] ∧ codec.decode inner = .ok held ∧ make (held, ()) = value := by
  match items with
  | [] => simp [record, Fields.decodeItems, Field.required, bind_eq_ok_iff]
  | [inner] =>
      cases hinner : codec.decode inner <;>
        simp [record, Fields.decodeItems, Field.required, bind_eq_ok_iff, hinner]
  | inner :: next :: rest =>
      cases hinner : codec.decode inner <;>
        simp [record, Fields.decodeItems, Field.required, bind_eq_ok_iff, hinner]

/-- A structure with one field is decoded from what wraps the value of the field. -/
theorem record_single_ofJson_iff {json : Json} {value : β} :
    (record label (.cons (.required name codec) .nil) make parts).ofJson json = .ok value ↔
      ∃ inner held, json.Wraps name inner ∧ codec.ofJson inner = .ok held ∧
        make (held, ()) = value := by
  simp only [ofJson_eq_ok_iff, Json.Wraps]
  cases json with
  | object members =>
      rw [record_ofJson_object_iff (by simp [Fields.names])]
      simp only [Json.member?_object, Fields.Reads, Field.Reads, Field.required, and_true,
        reduceCtorEq, or_false, Prod.exists]
      constructor
      · rintro ⟨held, ⟨⟩, hreads, hvalue⟩
        cases hinner : members.reverse.lookup name with
        | none => simp [hinner] at hreads
        | some inner => exact ⟨inner, held, rfl, by simpa [hinner] using hreads, hvalue⟩
      · rintro ⟨inner, held, hinner, hheld, hvalue⟩
        exact ⟨held, (), by simpa [hinner] using hheld, hvalue⟩
  | array items =>
      rw [Json.normal_array, record_single_decode_array_iff]
      simp only [Json.member?, reduceCtorEq, false_or, Json.array.injEq, List.map_eq_singleton_iff]
      constructor
      · rintro ⟨_, held, ⟨inner, rfl, rfl⟩, hheld, hvalue⟩
        exact ⟨inner, held, rfl, hheld, hvalue⟩
      · rintro ⟨inner, held, rfl, hheld, hvalue⟩
        exact ⟨inner.normal, held, ⟨inner, rfl, rfl⟩, hheld, hvalue⟩
  | _ => simp [Json.member?, Json.normal, record, wrongKind]

theorem findSome?_cons_eq_some_iff {attempt : Json → Option β}
    {others : List (Json → Option β)} {json : Json} {value : β} :
    (attempt :: others).findSome? (fun attempt => attempt json) = some value ↔
      attempt json = some value ∨
        attempt json = none ∧ others.findSome? (fun attempt => attempt json) = some value := by
  cases hattempt : attempt json <;> simp [hattempt]

theorem alternative_normal_eq_some_iff {other : α → β} {json : Json} {value : β} :
    alternative codec other json.normal = some value ↔
      ∃ held, codec.ofJson json = .ok held ∧ other held = value := by
  simp only [alternative_eq_some_iff, ofJson_eq_ok_iff]

theorem alternative_normal_eq_none_iff {other : α → β} {json : Json} :
    alternative codec other json.normal = none ↔ ∀ held, ¬ codec.ofJson json = .ok held := by
  simp only [ofJson_eq_ok_iff, alternative]
  cases codec.decode json.normal <;> simp

/-- Where no alternative fits, that is the complaint. -/
theorem untagged_ofJson_cases {label : String} {encode : β → Json}
    {alternatives : List (Json → Option β)} {json : Json} {fault : Json.Fault}
    (hfault : (untagged label encode alternatives).ofJson json = .error fault) :
    fault = ⟨.mismatch (.noAlternative label), none⟩ := by
  unfold ofJson untagged at hfault
  cases hfound : alternatives.findSome? (fun attempt => attempt json.normal) with
  | none => simpa [hfound, throw, throwThe, MonadExceptOf.throw, Except.mapError] using hfault.symm
  | some value => simp [hfound, pure, Except.pure, Except.mapError] at hfault

/-- A list is read item by item. -/
theorem list_ofJson_iff {json : Json} {values : List α} :
    codec.list.ofJson json = .ok values ↔
      ∃ items, json = .array items ∧
        List.Forall₂ (fun item value => codec.ofJson item = .ok value) items values := by
  simp only [ofJson_eq_ok_iff]
  cases json with
  | array items =>
      simp only [Json.normal_array, list, mapM_eq_ok_iff, List.forall₂_map_left_iff,
        Json.array.injEq, exists_eq_left']
  | _ => simp [Json.normal, list, wrongKind]

end Codec

/-- Whether a value is an image at an address, written as an object with an object in it. -/
def Json.HasImage (json : Json) (uri : String) : Prop :=
  ∃ address, json.member? "image" = some address ∧ address.member? "uri" = some (.string uri)

/-- Whether a value is taken for an image at an address: the image and the address may each be an
object or a list. -/
def Json.StandsForImage (json : Json) (uri : String) : Prop :=
  ∃ address, json.Wraps "image" address ∧ address.Wraps "uri" (.string uri)

def Json.items : Json → List Json
  | .array items => items
  | _ => []

/-- Whether a value and its items are taken for images only where they are objects that have one. -/
def Json.ImagesAreObjects (json : Json) : Prop :=
  ∀ part ∈ json :: json.items, ∀ uri, part.StandsForImage uri → part.HasImage uri

theorem Json.HasImage.standsForImage {json : Json} {uri : String} (himage : json.HasImage uri) :
    json.StandsForImage uri := by
  obtain ⟨address, haddress, huri⟩ := himage
  exact ⟨address, Or.inl haddress, Or.inl huri⟩

theorem Json.StandsForImage.ne_string {json : Json} {uri : String}
    (himage : json.StandsForImage uri)
    (words : String) : json ≠ .string words := by
  rintro rfl
  obtain ⟨address, hmember | hitem, -⟩ := himage
  · cases hmember
  · cases hitem

namespace Chat

theorem string_ofJson_iff {json : Json} {words : String} :
    Codec.string.ofJson json = .ok words ↔ json = .string words := by
  rw [Codec.ofJson_eq_ok_iff]
  cases json <;> simp [Json.normal, Codec.string, Codec.wrongKind]

theorem ImageMedia.ofJson_iff {json : Json} {media : ImageMedia} :
    ImageMedia.codec.ofJson json = .ok media ↔ json.StandsForImage media.image.uri := by
  simp only [ImageMedia.codec, ImageUrl.codec, Codec.record_single_ofJson_iff, string_ofJson_iff,
    Json.StandsForImage]
  constructor
  · rintro ⟨address, _, haddress, ⟨_, uri, huri, rfl, rfl⟩, rfl⟩
    exact ⟨address, haddress, huri⟩
  · rintro ⟨address, haddress, huri⟩
    exact ⟨address, media.image, haddress, ⟨_, _, huri, rfl, rfl⟩, rfl⟩

/-- What a value is as an item of a list, given which values are images. -/
inductive ItemIs (image : Json → String → Prop) : Json → ContentItem → Prop where
  | text (words : String) : ItemIs image (.string words) (.text words)
  | media {json : Json} {uri : String} (himage : image json uri) :
      ItemIs image json (.media ⟨⟨uri⟩⟩)

/-- An item is a text or an image and is read as such. -/
theorem ContentItem.ofJson_iff {json : Json} {item : ContentItem} :
    ContentItem.codec.ofJson json = .ok item ↔ ItemIs Json.StandsForImage json item := by
  rw [ContentItem.codec, Codec.ofJson_eq_ok_iff, Codec.decode_untagged_eq_ok_iff,
    Codec.findSome?_cons_eq_some_iff, Codec.alternative_normal_eq_none_iff,
    Codec.alternative_normal_eq_some_iff, List.findSome?_singleton,
    Codec.alternative_normal_eq_some_iff]
  simp only [string_ofJson_iff, ImageMedia.ofJson_iff]
  constructor
  · rintro (⟨words, rfl, rfl⟩ | ⟨-, media, himage, rfl⟩)
    · exact .text words
    · exact .media himage
  · rintro (words | himage)
    · exact Or.inl ⟨words, rfl, rfl⟩
    · exact Or.inr ⟨himage.ne_string, _, himage, rfl⟩

/-- What a value is as the content of a message, given which values are images: exactly a text, an
image, or else a list of items. -/
structure Content.ReadBy (image : Json → String → Prop) (json : Json) : Prop where
  text : ∀ words, Content.codec.ofJson json = .ok (.text words) ↔ json = .string words
  media : ∀ uri, Content.codec.ofJson json = .ok (.media ⟨⟨uri⟩⟩) ↔ image json uri
  items : ∀ parts, Content.codec.ofJson json = .ok (.items parts) ↔
    (∀ uri, ¬ image json uri) ∧
      ∃ elements, json = .array elements ∧ List.Forall₂ (ItemIs image) elements parts
  fault : ∀ fault, Content.codec.ofJson json = .error fault →
    fault = ⟨.mismatch (.noAlternative "MessageContent"), none⟩

theorem Content.ofJson_iff {json : Json} {content : Content} :
    Content.codec.ofJson json = .ok content ↔
      (∃ words, json = .string words ∧ .text words = content) ∨
      (∃ uri, json.StandsForImage uri ∧ .media ⟨⟨uri⟩⟩ = content) ∨
      (∀ uri, ¬ json.StandsForImage uri) ∧ ∃ parts elements, json = .array elements ∧
        List.Forall₂ (ItemIs Json.StandsForImage) elements parts ∧ .items parts = content := by
  rw [Content.codec, Codec.ofJson_eq_ok_iff, Codec.decode_untagged_eq_ok_iff,
    Codec.findSome?_cons_eq_some_iff, Codec.findSome?_cons_eq_some_iff,
    Codec.alternative_normal_eq_none_iff, Codec.alternative_normal_eq_none_iff,
    Codec.alternative_normal_eq_some_iff, Codec.alternative_normal_eq_some_iff,
    List.findSome?_singleton, Codec.alternative_normal_eq_some_iff]
  simp only [string_ofJson_iff, ImageMedia.ofJson_iff, Codec.list_ofJson_iff,
    ContentItem.ofJson_iff]
  constructor
  · rintro (htext | ⟨-, ⟨media, himage, rfl⟩ | ⟨hnone, parts, ⟨elements, rfl, hitems⟩, rfl⟩⟩)
    · exact Or.inl htext
    · exact Or.inr (Or.inl ⟨_, himage, rfl⟩)
    · exact Or.inr (Or.inr ⟨fun uri => hnone ⟨⟨uri⟩⟩, parts, elements, rfl, hitems, rfl⟩)
  · rintro (htext | ⟨uri, himage, rfl⟩ | ⟨hnone, parts, elements, rfl, hitems, rfl⟩)
    · exact Or.inl htext
    · exact Or.inr ⟨himage.ne_string, Or.inl ⟨_, himage, rfl⟩⟩
    · exact Or.inr ⟨nofun, Or.inr ⟨fun media => hnone media.image.uri, parts,
        ⟨elements, rfl, hitems⟩, rfl⟩⟩

/-- The content of a message is read by the images that its value and its items are taken for. -/
theorem Content.readBy_standsForImage (json : Json) :
    Content.ReadBy Json.StandsForImage json where
  text words := by simp [Content.ofJson_iff]
  media uri := by simp [Content.ofJson_iff]
  items parts := by simp [Content.ofJson_iff]
  fault _ hfault := Codec.untagged_ofJson_cases hfault

theorem ItemIs.congr {image other : Json → String → Prop} {json : Json} {item : ContentItem}
    (hitem : ItemIs image json item) (hsame : ∀ uri, image json uri → other json uri) :
    ItemIs other json item := by
  cases hitem with
  | text words => exact .text words
  | media himage => exact .media (hsame _ himage)

/-- Which values count as images matters only for a value itself and for its items. -/
theorem Content.ReadBy.congr {image other : Json → String → Prop} {json : Json}
    (hread : Content.ReadBy image json)
    (hsame : ∀ part ∈ json :: json.items, ∀ uri, image part uri ↔ other part uri) :
    Content.ReadBy other json := by
  rw [List.forall_mem_cons] at hsame
  have hitems : ∀ elements parts, json = .array elements →
      (List.Forall₂ (ItemIs image) elements parts ↔
        List.Forall₂ (ItemIs other) elements parts) := by
    rintro elements parts rfl
    exact Codec.forall₂_iff_of_forall fun element helement item =>
      ⟨fun hitem => hitem.congr fun uri => (hsame.2 element helement uri).1,
        fun hitem => hitem.congr fun uri => (hsame.2 element helement uri).2⟩
  constructor
  case text => exact hread.text
  case media => exact fun uri => (hread.media uri).trans (hsame.1 uri)
  case items =>
    intro parts
    rw [hread.items]
    simp only [hsame.1]
    exact and_congr_right fun _ => exists_congr fun elements =>
      and_congr_right fun hjson => hitems elements parts hjson
  case fault => exact hread.fault

/-- For every value the content is a text if the value is one, an image if the value is taken for
one, a list if each of its items is a text or taken for an image, and else there is none. Where only
objects are taken for images, images are the objects that have one, and so no list is an image. -/
theorem content_reads_by_its_images (json : Json) :
    Content.ReadBy Json.StandsForImage json ∧
      (json.ImagesAreObjects → Content.ReadBy Json.HasImage json) :=
  ⟨Content.readBy_standsForImage json, fun hobjects =>
    (Content.readBy_standsForImage json).congr fun part hpart uri =>
      ⟨hobjects part hpart uri, Json.HasImage.standsForImage⟩⟩

def captionedImage : Json :=
  .array [.string "look", .object [("image", .object [("uri", .string "file:///a.png")])]]

/-- A text and an image are a list of two items. -/
theorem captionedImage_reads_as_items :
    captionedImage.ImagesAreObjects ∧
      Content.codec.ofJson captionedImage =
        .ok (.items [.text "look", .media ⟨⟨"file:///a.png"⟩⟩]) := by
  have hobjects : captionedImage.ImagesAreObjects := by
    rintro part hpart uri ⟨address, himage, huri⟩
    simp only [captionedImage, Json.items, List.mem_cons, List.not_mem_nil, or_false] at hpart
    rcases hpart with rfl | rfl | rfl
    · simp [Json.Wraps, Json.member?] at himage
    · simp [Json.Wraps, Json.member?] at himage
    · refine ⟨address, himage.resolve_right (by simp), huri.resolve_right fun hlist => ?_⟩
      simp [Json.Wraps, Json.member?, hlist] at himage
  refine ⟨hobjects, ?_⟩
  have hread := (content_reads_by_its_images captionedImage).2 hobjects
  refine (hread.items _).2 ⟨?_, _, rfl, .cons (.text _) (.cons (.media ⟨_, rfl, rfl⟩) .nil)⟩
  rintro uri ⟨address, himage, -⟩
  cases himage

def loneImage (others : List (String × Json)) : Json :=
  .array [.object (("image", .object [("uri", .string "x")]) :: others)]

/-- A list of one image is read as a single image at another address if its only item has one, and
a list of one list of a text is read as an image although it has no item that is one. -/
theorem lists_read_as_one_image :
    Content.codec.ofJson (loneImage []) = .ok (.items [.media ⟨⟨"x"⟩⟩]) ∧
      Content.codec.ofJson (loneImage [("uri", .string "y")]) = .ok (.media ⟨⟨"y"⟩⟩) ∧
      Content.codec.ofJson (.array [.array [.string "u"]]) = .ok (.media ⟨⟨"u"⟩⟩) ∧
      ¬ Content.ReadBy Json.HasImage (loneImage [("uri", .string "y")]) := by
  refine ⟨by decide +kernel, by decide +kernel, by decide +kernel, fun hread => ?_⟩
  obtain ⟨address, himage, -⟩ := (hread.media "y").1 (by decide +kernel)
  cases himage

end Chat

end StackBridge
